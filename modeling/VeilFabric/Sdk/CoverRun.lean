import VeilFabric.Routing.DummyTraffic
import VeilFabric.Sdk.CoverTraffic

/-!
# Cover traffic over time (`veil-sdk/src/cover_traffic.rs:36-71`)

| here | there |
| --- | --- |
| `CoverLoop`         | the arguments of `spawn` (cover_traffic.rs:36) |
| `CoverLoop.turn`    | a turn of its loop: the time slept, and what is written to the first hop |
| `CoverLoop.run`     | the loop, turn after turn, until the task is aborted; `none` is a panic, which ends it |

Every fault of a turn is passed over in silence (`continue`, `if let Ok`, `let _ =`). `cover_run` says what is left
to hold of a run of any length: its pace, when it dies, and when it writes nothing at all.
-/

namespace VeilFabric
open Wire

/-- What a turn draws and how its connection ends: `taken` bytes of the frame get through. -/
structure CoverInput (topology : Topology) where
  jitter : UInt64
  draws : CoverDraws topology
  connects : Bool
  taken : Nat

structure CoverLoop where
  topology : Topology
  hopCount : Nat
  generator : DummyTrafficGenerator

variable (P : Primitives)

namespace CoverLoop

/-- A turn (cover_traffic.rs:46-69); `coverTurn` is its part between the sleep and the connection. -/
def turn (self : CoverLoop) (input : CoverInput self.topology) : Option (Duration × List Transmission) := do
  let (slept, _) ← self.generator.nextDummy input.jitter input.draws.messageId input.draws.payload
  match coverTurn P self.topology self.hopCount input.draws with
  | none => return (slept, [])
  | some routed =>
    if input.connects then return (slept, [⟨routed.firstHopAddr, (writeFrame routed.onion).take input.taken⟩])
    else return (slept, [])

/-- The nanoseconds slept and what was written. -/
def run (self : CoverLoop) : List (CoverInput self.topology) → Option (Nat × List Transmission)
  | [] => some (0, [])
  | input :: inputs => do
    let (slept, sent) ← self.turn P input
    let (more, rest) ← self.run inputs
    return (slept.asNanos + more, sent ++ rest)

/-- What a turn writes. -/
def sent (self : CoverLoop) (input : CoverInput self.topology) : List Transmission :=
  match coverTurn P self.topology self.hopCount input.draws with
  | none => []
  | some routed =>
    if input.connects then [⟨routed.firstHopAddr, (writeFrame routed.onion).take input.taken⟩] else []

variable {P} {self : CoverLoop} {input : CoverInput self.topology}

/-- Only the delay can panic. -/
theorem turn_eq : self.turn P input = (self.generator.delay input.jitter).map fun slept => (slept, self.sent P input) := by
  unfold turn sent DummyTrafficGenerator.nextDummy
  cases self.generator.delay input.jitter with
  | none => rfl
  | some slept =>
    cases coverTurn P self.topology self.hopCount input.draws with
    | none => rfl
    | some routed => cases input.connects <;> rfl

theorem run_panics (hspan : self.generator.span = 0) (input : CoverInput self.topology)
    (inputs : List (CoverInput self.topology)) : self.run P (input :: inputs) = none := by
  have hdelay : self.generator.delay input.jitter = none := if_pos hspan
  rw [run, turn_eq, hdelay]
  rfl

/-- Turn after turn, each within the interval. -/
theorem run_some (hspan : self.generator.span ≠ 0) (inputs : List (CoverInput self.topology)) :
    ∃ slept, self.run P inputs = some (slept, inputs.flatMap (self.sent P)) ∧
      inputs.length * self.generator.minInterval.asNanos ≤ slept ∧
      slept ≤ inputs.length * max self.generator.minInterval.asNanos self.generator.maxInterval.asNanos := by
  induction inputs with
  | nil => exact ⟨0, rfl, by simp, by simp⟩
  | cons input inputs ih =>
    obtain ⟨more, hrun, hlower, hupper⟩ := ih
    obtain ⟨slept, hdelay, hmin, hmax, hfixed⟩ := DummyTrafficGenerator.delay_of_span hspan input.jitter
    have hge := Duration.le_iff.1 hmin
    have hle : slept.asNanos ≤ max self.generator.minInterval.asNanos self.generator.maxInterval.asNanos := by
      by_cases hlt : self.generator.minInterval < self.generator.maxInterval
      · exact Nat.le_trans (Nat.le_of_lt (Duration.lt_iff.1 (hmax hlt))) (Nat.le_max_right _ _)
      · rw [hfixed hlt]
        exact Nat.le_max_left _ _
    refine ⟨slept.asNanos + more, ?_, ?_, ?_⟩
    · rw [run, turn_eq, hdelay, hrun]
      rfl
    · rw [List.length_cons, Nat.succ_mul]
      omega
    · rw [List.length_cons, Nat.succ_mul]
      omega

/-- Without a path for it a turn writes nothing. -/
theorem sent_eq_nil (h : self.hopCount = 0 ∨ self.topology.relays.length < self.hopCount)
    (input : CoverInput self.topology) : self.sent P input = [] := by
  unfold sent
  cases hturn : coverTurn P self.topology self.hopCount input.draws with
  | none => rfl
  | some r =>
    have hpath := coverTurn_path hturn
    rcases h with h | h
    · have hlen := (selectDiversePath_ok hpath).1
      rw [h, List.length_eq_zero_iff] at hlen
      exact absurd hlen r.path_ne
    · rw [selectDiversePath_error input.draws.shuffled h] at hpath
      cases hpath

/-- Otherwise it writes its cell if it gets a connection. -/
theorem sent_spec (hP : P.Lawful) (hpos : 0 < self.hopCount) (hn : self.hopCount ≤ self.topology.relays.length)
    (input : CoverInput self.topology) : ∃ r : RoutedCell P,
      selectDiversePath self.topology self.hopCount input.draws.shuffled = .ok r.path ∧
      self.sent P input =
        if input.connects then [⟨r.firstHopAddr, (writeFrame r.onion).take input.taken⟩] else [] := by
  obtain ⟨r, hr⟩ := coverTurn_isSome hP input.draws hpos hn
  refine ⟨r, coverTurn_path hr, ?_⟩
  unfold sent
  rw [hr]

theorem sent_length (hP : P.Lawful) (hpos : 0 < self.hopCount) (hn : self.hopCount ≤ self.topology.relays.length)
    (inputs : List (CoverInput self.topology)) :
    (inputs.flatMap (self.sent P)).length = inputs.countP (·.connects) := by
  induction inputs with
  | nil => rfl
  | cons input inputs ih =>
    obtain ⟨r, -, hsent⟩ := sent_spec hP hpos hn input
    rw [List.flatMap_cons, List.length_append, ih, List.countP_cons, hsent, Nat.add_comm]
    cases input.connects <;> rfl

end CoverLoop

/-- Circuits of two hops over two relays. -/
def paired : CoverLoop where
  topology := twoRelays "127.0.0.1:9002"
  hopCount := 2
  generator := ⟨.fromMillis 1000, .fromMillis 2000⟩

def pairedInput (connects : Bool) (taken : Nat) : CoverInput paired.topology := ⟨7, dummyDraws _, connects, taken⟩

theorem paired_sent (connects : Bool) (taken : Nat) : ∃ r : RoutedCell .toy, (writeFrame r.onion).length = 714 ∧
    paired.sent .toy (pairedInput connects taken) =
      if connects then [⟨"127.0.0.1:9001", (writeFrame r.onion).take taken⟩] else [] := by
  obtain ⟨r, hpath, hsent⟩ := @CoverLoop.sent_spec _ paired Primitives.toy_lawful (by decide) (by decide)
    (pairedInput connects taken)
  have hselect : selectDiversePath (twoRelays "127.0.0.1:9002") 2 (inOrder _) = .ok (twoHops "127.0.0.1:9002") := by decide
  have hhops : r.path = twoHops "127.0.0.1:9002" := Except.ok.inj (hpath.symm.trans hselect)
  refine ⟨r, ?_, ?_⟩
  · have hcircuit : circuitLength (twoHops "127.0.0.1:9002") ENVELOPE_SIZE = 710 := by decide
    rw [writeFrame, Wire.writeFrame_length, buildCircuit_length r.built, Arr.length_val, hhops, hcircuit]
  · rw [hsent]
    simp only [RoutedCell.firstHopAddr, hhops]
    rfl

end VeilFabric
