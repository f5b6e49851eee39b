import Mathlib.Tactic.Ring

/-!
# Durations (`std::time::Duration`)

Seconds in a `u64` and nanoseconds below a second in a `u32`, with the operations as the standard library computes
them on the two parts. `none` is the panic of an addition that overflows. In nanoseconds they are what their
names say (`asNanos_saturatingSub`, `exists_add`), and the order is that of the numbers (`lt_iff`, `le_iff`).
-/

structure Duration where
  secs : Nat
  nanos : Nat
  secs_lt : secs < 2 ^ 64
  nanos_lt : nanos < 1000000000
deriving DecidableEq

namespace Duration

/-- `Duration::ZERO`. -/
def zero : Duration := ⟨0, 0, by decide, by decide⟩

instance : LT Duration := ⟨fun a b => a.secs < b.secs ∨ a.secs = b.secs ∧ a.nanos < b.nanos⟩
instance : LE Duration := ⟨fun a b => a.secs < b.secs ∨ a.secs = b.secs ∧ a.nanos ≤ b.nanos⟩

/-- `as_nanos`, a `u128`. -/
def asNanos (d : Duration) : Nat := d.secs * 1000000000 + d.nanos

/-- `as_millis`, a `u128`. -/
def asMillis (d : Duration) : Nat := d.secs * 1000 + d.nanos / 1000000

/-- `from_millis`. -/
def fromMillis (millis : UInt64) : Duration where
  secs := millis.toNat / 1000
  nanos := millis.toNat % 1000 * 1000000
  secs_lt := Nat.lt_of_le_of_lt (Nat.div_le_self _ _) millis.toNat_lt
  nanos_lt := by omega

/-- `checked_sub`, borrowing a second if need be. -/
def checkedSub (a b : Duration) : Option Duration :=
  if a.secs < b.secs then none
  else if hn : b.nanos ≤ a.nanos then
    some ⟨a.secs - b.secs, a.nanos - b.nanos, by have := a.secs_lt; omega, by have := a.nanos_lt; omega⟩
  else if a.secs - b.secs = 0 then none
  else
    some ⟨a.secs - b.secs - 1, a.nanos + 1000000000 - b.nanos, by have := a.secs_lt; omega, by omega⟩

/-- `saturating_sub`. -/
def saturatingSub (a b : Duration) : Duration := (a.checkedSub b).getD zero

/-- `a + b`: `checked_add`, carrying a second if need be, and a panic if there is no room. -/
def add (a b : Duration) : Option Duration :=
  if h : a.secs + b.secs < 2 ^ 64 then
    if hn : a.nanos + b.nanos < 1000000000 then some ⟨a.secs + b.secs, a.nanos + b.nanos, h, hn⟩
    else if h' : a.secs + b.secs + 1 < 2 ^ 64 then
      some ⟨a.secs + b.secs + 1, a.nanos + b.nanos - 1000000000, h', by
        have := a.nanos_lt
        have := b.nanos_lt
        omega⟩
    else none
  else none

/-! ## In nanoseconds -/

theorem asNanos_eq (d : Duration) : d.asNanos = d.secs * 1000000000 + d.nanos := rfl

theorem lt_iff {a b : Duration} : a < b ↔ a.asNanos < b.asNanos := by
  change (a.secs < b.secs ∨ a.secs = b.secs ∧ a.nanos < b.nanos) ↔ _
  have ha := a.nanos_lt
  have hb := b.nanos_lt
  unfold asNanos
  omega

theorem le_iff {a b : Duration} : a ≤ b ↔ a.asNanos ≤ b.asNanos := by
  change (a.secs < b.secs ∨ a.secs = b.secs ∧ a.nanos ≤ b.nanos) ↔ _
  have ha := a.nanos_lt
  have hb := b.nanos_lt
  unfold asNanos
  omega

theorem asNanos_inj {a b : Duration} (h : a.asNanos = b.asNanos) : a = b := by
  have ha := a.nanos_lt
  have hb := b.nanos_lt
  unfold asNanos at h
  obtain ⟨as, an, _, _⟩ := a
  obtain ⟨bs, bn, _, _⟩ := b
  simp only [mk.injEq]
  simp only at h ha hb
  omega

/-- What a duration can hold. -/
theorem asNanos_lt (d : Duration) : d.asNanos < 2 ^ 64 * 1000000000 := by
  have hs := d.secs_lt
  have hn := d.nanos_lt
  unfold asNanos
  omega

theorem asNanos_fromMillis (millis : UInt64) : (fromMillis millis).asNanos = millis.toNat * 1000000 := by
  simp only [asNanos, fromMillis]
  omega

theorem asMillis_eq (d : Duration) : d.asMillis = d.asNanos / 1000000 := by
  unfold asMillis asNanos
  omega

theorem asNanos_mk (secs nanos : Nat) (hs hn) : (mk secs nanos hs hn).asNanos = secs * 1000000000 + nanos := rfl

/-- The difference, or zero. -/
theorem asNanos_saturatingSub (a b : Duration) : (a.saturatingSub b).asNanos = a.asNanos - b.asNanos := by
  have ha := a.nanos_lt
  have hb := b.nanos_lt
  have hzero : zero.asNanos = 0 := rfl
  rw [saturatingSub, checkedSub, a.asNanos_eq, b.asNanos_eq]
  by_cases hs : a.secs < b.secs
  · rw [if_pos hs, Option.getD_none, hzero]
    omega
  · rw [if_neg hs]
    by_cases hn : b.nanos ≤ a.nanos
    · rw [dif_pos hn, Option.getD_some, asNanos_mk]
      omega
    · rw [dif_neg hn]
      by_cases h0 : a.secs - b.secs = 0
      · rw [if_pos h0, Option.getD_none, hzero]
        omega
      · rw [if_neg h0, Option.getD_some, asNanos_mk]
        omega

/-- The sum, if there is room for it. -/
theorem exists_add {a b : Duration} (h : a.asNanos + b.asNanos < 2 ^ 64 * 1000000000) :
    ∃ d, a.add b = some d ∧ d.asNanos = a.asNanos + b.asNanos := by
  have ha := a.nanos_lt
  have hb := b.nanos_lt
  rw [a.asNanos_eq, b.asNanos_eq] at h ⊢
  unfold add
  by_cases hn : a.nanos + b.nanos < 1000000000
  · refine ⟨_, by rw [dif_pos (by omega), dif_pos hn], ?_⟩
    rw [asNanos_mk]
    omega
  · refine ⟨_, by rw [dif_pos (by omega), dif_neg hn, dif_pos (by omega)], ?_⟩
    rw [asNanos_mk]
    omega

end Duration
