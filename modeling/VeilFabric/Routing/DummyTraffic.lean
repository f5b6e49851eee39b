import VeilFabric.Core.Cell
import VeilFabric.Lib.Duration

/-!
# The delay between dummy cells (`veil-routing/src/dummy_traffic.rs`)

| here | there |
| --- | --- |
| `DummyTrafficGenerator`            | dummy_traffic.rs:13 |
| `DummyTrafficGenerator.span`       | `span` in `next_dummy` (dummy_traffic.rs:27-31) |
| `DummyTrafficGenerator.delay`      | what `next_dummy` sleeps for (dummy_traffic.rs:32-33), the drawn `u64` as an argument |
| `DummyTrafficGenerator.nextDummy`  | `next_dummy` (dummy_traffic.rs:26): the time slept and the cell |

`max(1)` is there to keep the remainder from dividing by zero, but it is applied to the `u128` and the cast to
`u64` comes after it: a span of 2⁶⁴ milliseconds becomes zero again. `nextDummy_sound_iff` says that this is all that
can go wrong.
-/

namespace VeilFabric
open Wire

structure DummyTrafficGenerator where
  minInterval : Duration
  maxInterval : Duration

namespace DummyTrafficGenerator

/-- `.as_millis().max(1) as u64`; the cast wraps. -/
def span (self : DummyTrafficGenerator) : UInt64 :=
  UInt64.ofNat (max (self.maxInterval.saturatingSub self.minInterval).asMillis 1)

/-- The time `next_dummy` sleeps; `none` is a panic, of the remainder or of the addition. -/
def delay (self : DummyTrafficGenerator) (draw : UInt64) : Option Duration :=
  if self.span = 0 then none else self.minInterval.add (.fromMillis (draw % self.span))

/-- `next_dummy` (dummy_traffic.rs:26), with what it draws for the cell. -/
def nextDummy (self : DummyTrafficGenerator) (draw : UInt64) (messageId : MessageId)
    (payload : Arr PAYLOAD_CAPACITY) : Option (Duration × Cell) := do
  let slept ← self.delay draw
  return (slept, Cell.newDummy messageId payload)

/-- The interval in whole milliseconds, zero if it is empty. -/
def intervalMillis (self : DummyTrafficGenerator) : Nat :=
  (self.maxInterval.asNanos - self.minInterval.asNanos) / 1000000

theorem span_toNat (self : DummyTrafficGenerator) : self.span.toNat = max self.intervalMillis 1 % 2 ^ 64 := by
  rw [span, UInt64.toNat_ofNat', Duration.asMillis_eq, Duration.asNanos_saturatingSub]
  rfl

/-- The divisor is zero only for an interval of 2⁶⁴ milliseconds or a multiple of them. -/
theorem span_eq_zero_iff (self : DummyTrafficGenerator) :
    self.span = 0 ↔ 0 < self.intervalMillis ∧ 2 ^ 64 ∣ self.intervalMillis := by
  rw [← UInt64.toNat_inj, span_toNat, UInt64.toNat_zero]
  omega

/-- The delay is within the interval. -/
structure Sound (self : DummyTrafficGenerator) (slept : Duration) : Prop where
  lower : self.minInterval ≤ slept
  upper : self.minInterval < self.maxInterval → slept < self.maxInterval
  fixed : ¬ self.minInterval < self.maxInterval → slept = self.minInterval

/-- The wrapped divisor only makes the jitter smaller. -/
theorem jitter_lt {self : DummyTrafficGenerator} (h : self.span ≠ 0) (draw : UInt64) :
    (draw % self.span).toNat < max self.intervalMillis 1 := by
  have hspan : 0 < self.span.toNat := by
    rw [Nat.pos_iff_ne_zero]
    intro h0
    exact h (UInt64.toNat_inj.1 h0)
  rw [UInt64.toNat_mod]
  refine Nat.lt_of_lt_of_le (Nat.mod_lt _ hspan) ?_
  rw [span_toNat]
  exact Nat.mod_le _ _

/-- Once the divisor is not zero, nothing overflows and the delay is sound. -/
theorem delay_of_span {self : DummyTrafficGenerator} (h : self.span ≠ 0) (draw : UInt64) :
    ∃ slept, self.delay draw = some slept ∧ self.Sound slept := by
  have hjitter := jitter_lt h draw
  have hmillis : self.intervalMillis = (self.maxInterval.asNanos - self.minInterval.asNanos) / 1000000 := rfl
  -- the jitter stays below the interval if there is one, and is zero if not
  have hbound : self.minInterval.asNanos + (draw % self.span).toNat * 1000000 <
      max (self.minInterval.asNanos + 1) self.maxInterval.asNanos := by
    omega
  have hroom : self.minInterval.asNanos + (Duration.fromMillis (draw % self.span)).asNanos < 2 ^ 64 * 1000000000 := by
    have hmin := self.minInterval.asNanos_lt
    have hmax := self.maxInterval.asNanos_lt
    rw [Duration.asNanos_fromMillis]
    omega
  obtain ⟨slept, hadd, hsum⟩ := Duration.exists_add hroom
  rw [Duration.asNanos_fromMillis] at hsum
  refine ⟨slept, by rw [delay, if_neg h, hadd], ?_, ?_, ?_⟩
  · rw [Duration.le_iff]
    omega
  · intro hlt
    rw [Duration.lt_iff] at hlt ⊢
    omega
  · intro hge
    rw [Duration.lt_iff] at hge
    apply Duration.asNanos_inj
    omega

/-- **Exactly when `next_dummy` waits as documented**: the interval is not a positive multiple of 2⁶⁴
milliseconds. Otherwise it divides by zero, whatever is drawn. -/
theorem nextDummy_sound_iff (self : DummyTrafficGenerator) (draw : UInt64) (messageId : MessageId)
    (payload : Arr PAYLOAD_CAPACITY) :
    (∃ slept cell, self.nextDummy draw messageId payload = some (slept, cell) ∧ self.Sound slept) ↔
      ¬ (0 < self.intervalMillis ∧ 2 ^ 64 ∣ self.intervalMillis) := by
  rw [← span_eq_zero_iff]
  constructor
  · rintro ⟨slept, cell, hnext, -⟩ h0
    rw [nextDummy, delay, if_pos h0] at hnext
    cases hnext
  · intro h
    obtain ⟨slept, hdelay, hsound⟩ := delay_of_span h draw
    exact ⟨slept, _, by rw [nextDummy, hdelay]; rfl, hsound⟩

/-- From zero to 2⁶⁴ milliseconds. -/
def wrapping : DummyTrafficGenerator := ⟨.zero, ⟨18446744073709551, 616000000, by decide, by decide⟩⟩

/-- The remainder is taken by zero. -/
theorem wrapping_divides_by_zero : wrapping.span = 0 ∧ wrapping.delay 7 = none ∧
    ¬ ∃ slept cell, wrapping.nextDummy 7 (Arr.zeros 16) (Arr.zeros PAYLOAD_CAPACITY) = some (slept, cell) ∧
      wrapping.Sound slept := by
  have hspan : wrapping.span = 0 := by decide
  have hdelay : wrapping.delay 7 = none := if_pos hspan
  refine ⟨hspan, hdelay, ?_⟩
  rintro ⟨slept, cell, hnext, -⟩
  rw [nextDummy, hdelay] at hnext
  cases hnext

end DummyTrafficGenerator

end VeilFabric
