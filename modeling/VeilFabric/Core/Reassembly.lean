import VeilFabric.Core.Cell
import VeilFabric.Lib.Keyed
import Mathlib.Data.Finset.Card

/-!
# The reassembler (`veil-core/src/reassembly.rs`)

| here | there |
| --- | --- |
| `PartialMessage`      | `struct PartialMessage` (reassembly.rs:21) |
| `Reassembler`         | `struct Reassembler` (reassembly.rs:17); the `HashMap` is a finite map, its order plays no part |
| `Reassembler.insert`  | `Reassembler::insert` (reassembly.rs:44); `none` is a panic: the index or one of the two `expect`s |
| `Reassembler.pendingCount`, `Reassembler.evict` | reassembly.rs:81, :91 |

Above the code stands what it means: the *epoch* of a message id, the cells accepted under it since it
was last completed or evicted. `Epoch.insert` is the first-writer-wins rule in these terms, and
`slotInsert_refines` says the code computes it, entry by entry, on every cell with a valid sequence. As the map is
a `Keyed.Machine` (`apply_eq_step`), the library lifts this to whole runs: `run_refines`.
-/

namespace VeilFabric
open Wire

structure PartialMessage where
  seqTotal : UInt16
  received : Nat
  fragments : List (Option Bytes)
deriving DecidableEq

structure Reassembler where
  inFlight : Keyed.Store MessageId PartialMessage

/-- What `or_insert_with` creates. -/
def PartialMessage.fresh (seqTotal : UInt16) : PartialMessage where
  seqTotal
  received := 0
  fragments := List.replicate seqTotal.toNat none

/-- `if entry.fragments[seq_index].is_none() { .. }` (reassembly.rs:59-62); `none`: index out of range. -/
def PartialMessage.fill (p : PartialMessage) (cell : Cell) : Option PartialMessage :=
  match p.fragments[cell.seqIndex.toNat]? with
  | none => none
  | some (some _) => some p
  | some none =>
    some { p with fragments := p.fragments.set cell.seqIndex.toNat (some cell.payload), received := p.received + 1 }

namespace Reassembler

/-- `Reassembler::new` (reassembly.rs:28). -/
def new : Reassembler := ⟨∅⟩

/-- `Reassembler::insert` (reassembly.rs:44). -/
def insert (self : Reassembler) (cell : Cell) : Option (Reassembler × Except VeilError (Option Bytes)) :=
  let id := cell.messageId
  let seqTotal := cell.seqTotal
  let entry := (self.inFlight.lookup id).getD (.fresh seqTotal)
  -- a freshly created entry has this very total, so the early return leaves the map as it was
  if entry.seqTotal ≠ seqTotal then some (self, .error .mismatchedMessageId)
  else do
    let entry ← entry.fill cell
    let inFlight := self.inFlight.insert id entry
    if entry.received = entry.seqTotal.toNat then
      let partialMessage ← inFlight.lookup id  -- `.expect("entry was just accessed above")`
      let parts ← partialMessage.fragments.mapM fun f => f  -- `.expect("all fragments verified present")`
      return (⟨inFlight.erase id⟩, .ok (some parts.flatten))
    else
      return (⟨inFlight⟩, .ok none)

/-- `Reassembler::pending_count` (reassembly.rs:81). -/
def pendingCount (self : Reassembler) : Nat := self.inFlight.keys.card

/-- `Reassembler::evict` (reassembly.rs:91). -/
def evict (self : Reassembler) (id : MessageId) : Reassembler := ⟨self.inFlight.erase id⟩

end Reassembler

/-! ## Calls and runs -/

/-- A call on the reassembler. -/
inductive Call where
  | insert (cell : Cell)
  | evict (id : MessageId)
deriving DecidableEq

def Call.id : Call → MessageId
  | .insert c => c.messageId
  | .evict id => id

/-- Every cell of the program is well-formed (`Cell.WF`). -/
def Call.WF : Call → Prop
  | .insert c => c.WF
  | .evict _ => True

/-- What a call returns: `insert` a result, `evict` nothing. -/
abbrev Reply := Option (Except VeilError (Option Bytes))

def Reassembler.apply (self : Reassembler) : Call → Option (Reassembler × Reply)
  | .insert c => (self.insert c).map fun r => (r.1, some r.2)
  | .evict id => some (self.evict id, none)

def Reassembler.run : Reassembler → List Call → Option (Reassembler × List Reply)
  | r, [] => some (r, [])
  | r, c :: cs => do
    let (r, o) ← r.apply c
    let (r, os) ← r.run cs
    return (r, o :: os)

/-! ## One entry at a time -/

/-- `insert`, as far as it concerns the entry under the cell's own id. -/
def slotInsert (slot : Option PartialMessage) (cell : Cell) :
    Option (Option PartialMessage × Except VeilError (Option Bytes)) :=
  let entry := slot.getD (.fresh cell.seqTotal)
  if entry.seqTotal ≠ cell.seqTotal then some (slot, .error .mismatchedMessageId)
  else do
    let entry ← entry.fill cell
    if entry.received = entry.seqTotal.toNat then
      let parts ← entry.fragments.mapM fun f => f
      return (none, .ok (some parts.flatten))
    else
      return (some entry, .ok none)

def machine : Keyed.Machine MessageId PartialMessage Call Reply where
  key := Call.id
  slot s
    | .insert c => (slotInsert s c).map fun r => (r.1, some r.2)
    | .evict _ => some (none, none)

theorem insert_eq_slot (r : Reassembler) (c : Cell) :
    r.insert c = (slotInsert (r.inFlight.lookup c.messageId) c).map fun q =>
      (⟨Keyed.put r.inFlight c.messageId q.1⟩, q.2) := by
  unfold Reassembler.insert slotInsert
  simp only
  split
  · -- the early return writes the entry back as it was
    simp [Keyed.put_eq (s := r.inFlight) (t := r.inFlight) rfl fun _ _ => rfl]
  · cases hf : ((r.inFlight.lookup c.messageId).getD (.fresh c.seqTotal)).fill c with
    | none => simp
    | some e =>
      have herase : Keyed.put r.inFlight c.messageId none = (r.inFlight.insert c.messageId e).erase c.messageId :=
        Keyed.put_eq (by simp) fun k hk => by simp [hk]
      by_cases hdone : e.received = e.seqTotal.toNat
      · simp only [Option.bind_eq_bind, Option.bind_some, hdone, if_true, Finmap.lookup_insert]
        cases e.fragments.mapM fun f => f <;> simp [herase]
      · simp [hdone, Keyed.put]

/-- The last loop of `insert`, over fragments that are all there. -/
theorem mapM_of_isSome {fragments : List (Option Bytes)} (h : ∀ f ∈ fragments, f.isSome) :
    fragments.mapM (fun f => f) = some (fragments.map fun f => f.getD []) := by
  induction fragments with
  | nil => rfl
  | cons f fragments ih =>
    obtain ⟨b, rfl⟩ := Option.isSome_iff_exists.1 (h f (by simp))
    simp [ih fun g hg => h g (by simp [hg])]

/-- The reassembler is a map of independent entries. -/
theorem apply_eq_step (r : Reassembler) (c : Call) :
    r.apply c = (machine.step r.inFlight c).map fun q => (⟨q.1⟩, q.2) := by
  cases c with
  | insert c =>
    simp only [Reassembler.apply, insert_eq_slot, Keyed.Machine.step, machine, Call.id]
    cases slotInsert (r.inFlight.lookup c.messageId) c <;> rfl
  | evict id => rfl

theorem run_eq_machine (r : Reassembler) (cs : List Call) :
    r.run cs = (machine.run r.inFlight cs).map fun q => (⟨q.1⟩, q.2) := by
  induction cs generalizing r with
  | nil => rfl
  | cons c cs ih =>
    simp only [Reassembler.run, Keyed.Machine.run, apply_eq_step]
    cases hs : machine.step r.inFlight c with
    | none => simp
    | some q =>
      simp only [Option.map_some, Option.bind_eq_bind, Option.bind_some, ih]
      cases machine.run q.1 cs <;> simp

/-! ## Epochs -/

/-- The cells accepted under one message id since it was last completed or evicted, oldest first. -/
abbrev Epoch := List Cell

namespace Epoch

/-- The first accepted payload of index `i`. -/
def payloadAt (e : Epoch) (i : Nat) : Option Bytes := (e.find? fun c => c.seqIndex.toNat = i).map Cell.payload

/-- Every index below `n` has been accepted. -/
def Covers (e : Epoch) (n : Nat) : Prop := ∀ i < n, (e.payloadAt i).isSome

instance (e : Epoch) (n : Nat) : Decidable (e.Covers n) := inferInstanceAs (Decidable (∀ i < n, _))

/-- The first accepted payloads in index order. -/
def message (e : Epoch) (n : Nat) : Bytes := ((List.range n).map fun i => (e.payloadAt i).getD []).flatten

/-- The total of the cell that opened the epoch; the incoming cell opens an empty one. -/
def total (e : Epoch) (c : Cell) : UInt16 := (e.head?.getD c).seqTotal

/-- **First writer wins.** A cell of another total than the opening one is refused; otherwise it is
accepted, and if that covers every index the message is handed out and the epoch ends. -/
def insert (e : Epoch) (c : Cell) : Epoch × Except VeilError (Option Bytes) :=
  if total e c ≠ c.seqTotal then (e, .error .mismatchedMessageId)
  else if Covers (e ++ [c]) c.seqTotal.toNat then ([], .ok (some (message (e ++ [c]) c.seqTotal.toNat)))
  else (e ++ [c], .ok none)

/-- The entry the code keeps for an epoch with total `t`. -/
def toPartial (e : Epoch) (t : UInt16) : PartialMessage where
  seqTotal := t
  received := ((Finset.range t.toNat).filter fun i => (e.payloadAt i).isSome).card
  fragments := (List.range t.toNat).map e.payloadAt

/-- The map entry of an epoch; an empty epoch has none. -/
def slot (e : Epoch) : Option PartialMessage := e.head?.map fun c => toPartial e c.seqTotal

/-! ### What accepting one more cell does -/

theorem payloadAt_snoc (e : Epoch) (c : Cell) (i : Nat) :
    payloadAt (e ++ [c]) i =
      (payloadAt e i).or (if c.seqIndex.toNat = i then some c.payload else none) := by
  simp only [payloadAt, List.find?_append]
  cases e.find? fun d => d.seqIndex.toNat = i with
  | some d => simp
  | none => by_cases h : c.seqIndex.toNat = i <;> simp [h]

/-- A second cell of an index changes nothing, at this index or elsewhere. -/
theorem payloadAt_snoc_filled {e : Epoch} {c : Cell} (h : (payloadAt e c.seqIndex.toNat).isSome) :
    payloadAt (e ++ [c]) = payloadAt e := by
  obtain ⟨b, hb⟩ := Option.isSome_iff_exists.1 h
  funext i
  rw [payloadAt_snoc]
  by_cases hi : c.seqIndex.toNat = i
  · subst hi; simp [hb]
  · simp [hi]

theorem payloadAt_isSome {e : Epoch} {i : Nat} : (payloadAt e i).isSome ↔ ∃ c ∈ e, c.seqIndex.toNat = i := by
  simp [payloadAt]

/-- The test `entry.received == entry.seq_total`. -/
theorem covers_iff_card {e : Epoch} {t : UInt16} :
    (toPartial e t).received = (toPartial e t).seqTotal.toNat ↔ Covers e t.toNat := by
  have h := Finset.card_filter_eq_iff (s := Finset.range t.toNat) (p := fun i => (payloadAt e i).isSome)
  simp only [Finset.card_range, Finset.mem_range] at h
  exact h

theorem fresh_eq_toPartial (t : UInt16) : PartialMessage.fresh t = toPartial [] t := by
  have h : payloadAt [] = fun _ => none := rfl
  simp [PartialMessage.fresh, toPartial, h]

/-- `fill` is in range and accepts the cell. -/
theorem fill_toPartial {e : Epoch} {t : UInt16} {c : Cell} (hc : c.seqIndex.toNat < t.toNat) :
    (toPartial e t).fill c = some (toPartial (e ++ [c]) t) := by
  have hget : (toPartial e t).fragments[c.seqIndex.toNat]? = some (payloadAt e c.seqIndex.toNat) := by
    simp [toPartial, hc]
  unfold PartialMessage.fill
  rw [hget]
  cases hp : payloadAt e c.seqIndex.toNat with
  | some b =>
    have hsame : payloadAt (e ++ [c]) = payloadAt e := payloadAt_snoc_filled (by simp [hp])
    simp [toPartial, hsame]
  | none =>
    have hother : ∀ i, i ≠ c.seqIndex.toNat → payloadAt (e ++ [c]) i = payloadAt e i := by
      intro i hi
      rw [payloadAt_snoc]
      simp [Ne.symm hi]
    have hself : payloadAt (e ++ [c]) c.seqIndex.toNat = some c.payload := by
      rw [payloadAt_snoc]; simp [hp]
    have hfilled : (Finset.range t.toNat).filter (fun i => (payloadAt (e ++ [c]) i).isSome) =
        Insert.insert c.seqIndex.toNat ((Finset.range t.toNat).filter fun i => (payloadAt e i).isSome) := by
      ext i
      by_cases hi : i = c.seqIndex.toNat
      · subst hi; simp [hself, hc]
      · simp [hother i hi, hi]
    simp only [toPartial, Option.some.injEq, PartialMessage.mk.injEq, true_and]
    refine ⟨?_, ?_⟩
    · rw [hfilled, Finset.card_insert_of_notMem (by simp [hp])]
    · apply List.ext_getElem (by simp)
      intro i h1 h2
      rw [List.getElem_set]
      by_cases hi : c.seqIndex.toNat = i
      · subst hi; simp [hself]
      · simp [hi, hother i (Ne.symm hi)]

theorem fragments_mapM {e : Epoch} {t : UInt16} (h : Covers e t.toNat) :
    ((toPartial e t).fragments.mapM fun f => f).map List.flatten = some (message e t.toNat) := by
  have hall : ∀ f ∈ (toPartial e t).fragments, f.isSome := by
    intro f hf
    obtain ⟨i, hi, rfl⟩ := List.mem_map.1 hf
    exact h i (List.mem_range.1 hi)
  rw [mapM_of_isSome hall, toPartial, List.map_map]
  rfl

/-- **The code computes the first-writer-wins rule**, entry by entry, and does not panic. -/
theorem slotInsert_refines (e : Epoch) {c : Cell} (hc : c.seqIndex.toNat < c.seqTotal.toNat) :
    slotInsert (slot e) c = some (slot (insert e c).1, (insert e c).2) := by
  have hentry : (slot e).getD (.fresh c.seqTotal) = toPartial e (total e c) := by
    cases e with
    | nil => exact fresh_eq_toPartial c.seqTotal
    | cons d ds => rfl
  unfold slotInsert insert
  simp only [hentry, toPartial]
  by_cases ht : total e c = c.seqTotal
  · have hfill := fill_toPartial (e := e) (t := c.seqTotal) hc
    have hopen : slot (e ++ [c]) = some (toPartial (e ++ [c]) c.seqTotal) := by
      cases e with
      | nil => rfl
      | cons d ds => rw [← ht]; rfl
    rw [if_neg (not_not.2 ht), if_neg (not_not.2 ht), ht]
    change ((toPartial e c.seqTotal).fill c >>= _) = _
    rw [hfill, Option.bind_eq_bind, Option.bind_some]
    by_cases hcov : Covers (e ++ [c]) c.seqTotal.toNat
    · have hmsg := fragments_mapM hcov
      obtain ⟨parts, hparts, hflat⟩ := Option.map_eq_some_iff.1 hmsg
      rw [if_pos hcov, if_pos (covers_iff_card.2 hcov), hparts, Option.bind_eq_bind, Option.bind_some, hflat]
      rfl
    · rw [if_neg hcov, if_neg fun h => hcov (covers_iff_card.1 h), hopen]
      rfl
  · rw [if_pos ht, if_pos ht]

end Epoch

/-! ## Whole runs -/

/-- A slot of the map is the epoch of its id. -/
def epochSpec : Keyed.Spec machine Epoch where
  init := []
  next e
    | .insert c => ((Epoch.insert e c).1, some (Epoch.insert e c).2)
    | .evict _ => ([], none)
  abs := Epoch.slot
  valid := Call.WF
  abs_init := rfl
  refines e c hc := by
    cases c with
    | insert c => simp [machine, Epoch.slotInsert_refines e hc.seq]
    | evict id => rfl

/-- The epoch of `id` after the calls `past` on a fresh reassembler. -/
abbrev epochOf (past : List Call) (id : MessageId) : Epoch := epochSpec.state past id

/-- What the reassembler holds after `past`. -/
def Agrees (r : Reassembler) (past : List Call) : Prop :=
  ∀ id, r.inFlight.lookup id = (epochOf past id).slot

theorem agrees_new : Agrees Reassembler.new [] := fun _ => rfl

/-- **Every run follows the epochs**: from a state that agrees with `past`, no call panics, the replies
are those of the first-writer-wins rule, and the state reached agrees with the longer history. -/
theorem run_refines {r : Reassembler} {past : List Call} (hr : Agrees r past) {cs : List Call}
    (hcs : ∀ c ∈ cs, c.WF) :
    ∃ r', r.run cs = some (r', epochSpec.replies past cs) ∧ Agrees r' (past ++ cs) := by
  obtain ⟨s, hs, hag⟩ := epochSpec.run_refines hr hcs
  exact ⟨⟨s⟩, by rw [run_eq_machine, hs]; rfl, hag⟩

/-! ### Runs of `insert` alone -/

/-- `insert` in a loop, one result for each cell. -/
def Reassembler.insertAll : Reassembler → List Cell → Option (Reassembler × List (Except VeilError (Option Bytes)))
  | r, [] => some (r, [])
  | r, c :: cs => do
    let (r, o) ← r.insert c
    let (r, os) ← r.insertAll cs
    return (r, o :: os)

/-- The epoch of `id` once the cells `past` have been inserted into a fresh reassembler. -/
abbrev epochAfter (past : List Cell) (id : MessageId) : Epoch := epochOf (past.map Call.insert) id

/-- What inserting `c` returns after the cells `past`. -/
def resultAfter (past : List Cell) (c : Cell) : Except VeilError (Option Bytes) :=
  (Epoch.insert (epochAfter past c.messageId) c).2

def results (past : List Cell) : List Cell → List (Except VeilError (Option Bytes))
  | [] => []
  | c :: cs => resultAfter past c :: results (past ++ [c]) cs

theorem epochAfter_snoc_self (past : List Cell) (c : Cell) :
    epochAfter (past ++ [c]) c.messageId = (Epoch.insert (epochAfter past c.messageId) c).1 := by
  have h := epochSpec.state_snoc_self (past.map Call.insert) (.insert c)
  rwa [← List.map_singleton, ← List.map_append] at h

theorem epochAfter_snoc_ne (past : List Cell) {c : Cell} {id : MessageId} (h : c.messageId ≠ id) :
    epochAfter (past ++ [c]) id = epochAfter past id := by
  have h' := epochSpec.state_snoc (past.map Call.insert) (.insert c) id
  rw [if_neg (show machine.key (.insert c) ≠ id from h), ← List.map_singleton, ← List.map_append] at h'
  exact h'

theorem Epoch.message_singleton {c : Cell} (h : c.seqIndex.toNat = 0) : Epoch.message [c] 1 = c.payload := by
  simp [Epoch.message, Epoch.payloadAt, h]

/-- A message of one cell is returned at once. -/
theorem resultAfter_single {past : List Cell} {c : Cell} (hopen : epochAfter past c.messageId = [])
    (ht : c.seqTotal.toNat = 1) (hi : c.seqIndex.toNat = 0) : resultAfter past c = .ok (some c.payload) := by
  have hcov : Epoch.Covers [c] 1 := by
    intro i h
    obtain rfl : i = 0 := by omega
    exact Epoch.payloadAt_isSome.2 ⟨c, by simp, hi⟩
  rw [resultAfter, hopen, Epoch.insert, if_neg (by simp [Epoch.total]), ht, List.nil_append, if_pos hcov,
    Epoch.message_singleton hi]

@[simp] theorem results_length (past cs : List Cell) : (results past cs).length = cs.length := by
  induction cs generalizing past with
  | nil => rfl
  | cons c cs ih => simp [results, ih]

theorem results_append (past xs ys : List Cell) :
    results past (xs ++ ys) = results past xs ++ results (past ++ xs) ys := by
  induction xs generalizing past with
  | nil => simp [results]
  | cons c xs ih => simp [results, ih]

theorem results_getElem? (past cs : List Cell) (k : Nat) :
    (results past cs)[k]? = cs[k]?.map fun c => resultAfter (past ++ cs.take k) c := by
  induction cs generalizing past k with
  | nil => simp [results]
  | cons c cs ih =>
    cases k with
    | zero => simp [results]
    | succ k => simp [results, ih]

theorem mem_results {past cs : List Cell} {o : Except VeilError (Option Bytes)} (h : o ∈ results past cs) :
    ∃ pre c post, cs = pre ++ c :: post ∧ o = resultAfter (past ++ pre) c := by
  induction cs generalizing past with
  | nil => simp [results] at h
  | cons c cs ih =>
    rcases List.mem_cons.1 h with rfl | h
    · exact ⟨[], c, cs, rfl, by simp⟩
    · obtain ⟨pre, d, post, rfl, rfl⟩ := ih h
      exact ⟨c :: pre, d, post, rfl, by simp⟩

theorem insert_of_step {r : Reassembler} {c : Cell} {s : Keyed.Store MessageId PartialMessage}
    {o : Except VeilError (Option Bytes)} (h : machine.step r.inFlight (.insert c) = some (s, some o)) :
    r.insert c = some (⟨s⟩, o) := by
  have happly := apply_eq_step r (.insert c)
  rw [h] at happly
  obtain ⟨q, hq, he⟩ := Option.map_eq_some_iff.1 happly
  obtain ⟨h1, h2⟩ := Prod.mk.inj he
  rw [hq, ← h1]
  exact congrArg (fun o => some (q.1, o)) (Option.some.inj h2)

theorem insert_refines {r : Reassembler} {past : List Cell} (hr : Agrees r (past.map .insert)) {c : Cell}
    (hc : c.WF) :
    ∃ r', r.insert c = some (r', resultAfter past c) ∧ Agrees r' ((past ++ [c]).map .insert) := by
  obtain ⟨s, hs, hag⟩ := epochSpec.step_refines hr (i := .insert c) hc
  exact ⟨⟨s⟩, insert_of_step hs, by rw [List.map_append]; exact hag⟩

/-- **Inserting any well-formed cells one by one never panics**, and returns what the epochs say. -/
theorem insertAll_refines {r : Reassembler} {past : List Cell} (hr : Agrees r (past.map .insert))
    {cs : List Cell} (hcs : ∀ c ∈ cs, c.WF) :
    ∃ r', r.insertAll cs = some (r', results past cs) ∧ Agrees r' ((past ++ cs).map .insert) := by
  induction cs generalizing r past with
  | nil => exact ⟨r, rfl, by simpa using hr⟩
  | cons c cs ih =>
    obtain ⟨r₁, h₁, hr₁⟩ := insert_refines hr (hcs c (by simp))
    obtain ⟨r₂, h₂, hr₂⟩ := ih hr₁ fun d hd => hcs d (by simp [hd])
    refine ⟨r₂, ?_, by simpa using hr₂⟩
    rw [Reassembler.insertAll, h₁, Option.bind_eq_bind, Option.bind_some]
    simp [h₂, results]

theorem insertAll_new {cs : List Cell} (hcs : ∀ c ∈ cs, c.WF) :
    ∃ r, Reassembler.new.insertAll cs = some (r, results [] cs) ∧ Agrees r (cs.map .insert) :=
  @insertAll_refines _ [] agrees_new _ hcs

theorem slot_isSome {e : Epoch} : e.slot.isSome ↔ e ≠ [] := by
  cases e <;> simp [Epoch.slot]

/-- `pending_count` is the number of ids with an open epoch. -/
theorem pendingCount_eq {r : Reassembler} {past : List Call} (hr : Agrees r past) {ids : Finset MessageId}
    (hids : ∀ id, epochOf past id ≠ [] → id ∈ ids) :
    r.pendingCount = (ids.filter fun id => epochOf past id ≠ []).card := by
  have hkeys := epochSpec.keys_eq hr fun id h => hids id (slot_isSome.1 h)
  rw [Reassembler.pendingCount, hkeys]
  congr 1
  apply Finset.filter_congr
  intro id _
  exact slot_isSome

/-- A cell with one byte, under the id of zeros. -/
def byteCell (seqIndex seqTotal : UInt16) (b : UInt8) : Cell where
  version := PROTOCOL_VERSION
  cellType := .data
  messageId := Arr.zeros 16
  seqIndex
  seqTotal
  payloadLen := 1
  payloadBuf := ⟨[b] ++ List.replicate (PAYLOAD_CAPACITY - 1) 0, by
    rw [List.length_append, List.length_replicate]
    rfl⟩

end VeilFabric
