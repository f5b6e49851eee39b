import VeilFabric.Core.Reassembly

/-!
# The entries of the reassembler (`veil-core/src/reassembly.rs:16-77`)

`insert` indexes `fragments` with a number from the wire and unwraps two options. Neither can fail, for a reason
that is spread over three places: a cell has `seq_index < seq_total` (`Cell.Obtainable.wf`), the total is
compared with the entry's before the access, and `received` counts the filled fragments, so the entry that
reaches its total has them all.

`PartialMessage.Inv` is what holds of every entry between two calls, `slotInsert_inv` the step, and
`reassembler_invariant` the result for every run. The entry inside a call is weaker: freshly created it has no
fragment yet, and about to be completed it has all of them. That part is `PartialMessage.Counted`.
-/

namespace VeilFabric
open Wire

/-- `received` counts the filled fragments, and there is one for each index. -/
structure PartialMessage.Counted (p : PartialMessage) : Prop where
  length : p.fragments.length = p.seqTotal.toNat
  received : p.received = p.fragments.countP Option.isSome

/-- What every entry satisfies between two calls. -/
structure PartialMessage.Inv (p : PartialMessage) : Prop extends p.Counted where
  some_received : 1 ≤ p.received
  incomplete : p.received < p.seqTotal.toNat

/-- An incomplete entry lacks a fragment. -/
theorem PartialMessage.Inv.missing {p : PartialMessage} (h : p.Inv) : none ∈ p.fragments := by
  by_contra hall
  have hfull : p.fragments.countP Option.isSome = p.fragments.length := by
    rw [List.countP_eq_length]
    intro f hf
    cases f with
    | none => exact absurd hf hall
    | some b => rfl
  have hlt := h.incomplete
  rw [h.received, hfull, h.length] at hlt
  omega

theorem PartialMessage.fresh_counted (t : UInt16) : (PartialMessage.fresh t).Counted where
  length := by simp [fresh]
  received := by simp [fresh, List.countP_replicate]

/-- Filling a fragment keeps the count, and leaves one fragment filled at least. -/
theorem PartialMessage.fill_counted {p : PartialMessage} (h : p.Counted) {c : Cell}
    (hc : c.seqIndex.toNat < p.seqTotal.toNat) :
    ∃ p', p.fill c = some p' ∧ p'.Counted ∧ p'.seqTotal = p.seqTotal ∧ 1 ≤ p'.received := by
  have hin : c.seqIndex.toNat < p.fragments.length := h.length.symm ▸ hc
  unfold fill
  rw [List.getElem?_eq_getElem hin]
  cases hf : p.fragments[c.seqIndex.toNat] with
  | some b =>
    refine ⟨p, rfl, h, rfl, ?_⟩
    rw [h.received, Nat.succ_le_iff, List.countP_pos_iff]
    exact ⟨_, List.getElem_mem hin, by rw [hf]; rfl⟩
  | none =>
    refine ⟨_, rfl, ⟨?_, ?_⟩, rfl, Nat.le_add_left 1 p.received⟩
    · rw [List.length_set, h.length]
    · rw [List.countP_set hin, hf, ← h.received]
      rfl

/-- A full entry: the second `expect` succeeds for every fragment. -/
theorem PartialMessage.Counted.complete {p : PartialMessage} (h : p.Counted) (hfull : p.received = p.seqTotal.toNat) :
    ∃ parts, p.fragments.mapM (fun f => f) = some parts := by
  rw [h.received, ← h.length] at hfull
  exact ⟨_, mapM_of_isSome (List.countP_eq_length.1 hfull)⟩

/-- The entry `insert` works on. -/
def entryFor (slot : Option PartialMessage) (cell : Cell) : PartialMessage := slot.getD (.fresh cell.seqTotal)

theorem entryFor_counted {slot : Option PartialMessage} (h : ∀ p ∈ slot, p.Inv) (c : Cell) :
    (entryFor slot c).Counted := by
  cases slot with
  | none => exact PartialMessage.fresh_counted c.seqTotal
  | some p => exact (h p rfl).toCounted

/-- **One call keeps the invariant and does not panic.** -/
theorem slotInsert_inv {slot : Option PartialMessage} (h : ∀ p ∈ slot, p.Inv) {c : Cell}
    (hc : c.seqIndex.toNat < c.seqTotal.toNat) :
    ∃ slot' o, slotInsert slot c = some (slot', o) ∧ ∀ p ∈ slot', p.Inv := by
  unfold slotInsert
  change ∃ slot' o, (if (entryFor slot c).seqTotal ≠ c.seqTotal then _ else (entryFor slot c).fill c >>= _) = _ ∧ _
  by_cases ht : (entryFor slot c).seqTotal = c.seqTotal
  · rw [if_neg (not_not.2 ht)]
    obtain ⟨p, hfill, hp, htot, hpos⟩ := PartialMessage.fill_counted (entryFor_counted h c) (ht.symm ▸ hc)
    rw [hfill, Option.bind_eq_bind, Option.bind_some]
    by_cases hfull : p.received = p.seqTotal.toNat
    · obtain ⟨parts, hparts⟩ := hp.complete hfull
      refine ⟨none, .ok (some parts.flatten), ?_, by simp⟩
      rw [if_pos hfull, hparts]
      rfl
    · refine ⟨some p, .ok none, by rw [if_neg hfull]; rfl, ?_⟩
      rintro p' ⟨⟩
      have hle : p.received ≤ p.seqTotal.toNat := by
        rw [hp.received, ← hp.length]
        exact List.countP_le_length
      exact ⟨hp, hpos, by omega⟩
  · exact ⟨slot, .error .mismatchedMessageId, if_pos ht, h⟩

/-- Only cells the program can hold are inserted. -/
def Call.Obtainable : Call → Prop
  | .insert c => c.Obtainable
  | .evict _ => True

theorem machine_inv (slot : Option PartialMessage) (call : Call) (h : ∀ p ∈ slot, p.Inv) (hc : call.Obtainable) :
    ∃ slot' o, machine.slot slot call = some (slot', o) ∧ ∀ p ∈ slot', p.Inv := by
  cases call with
  | insert c =>
    obtain ⟨slot', o, hins, hslot'⟩ := slotInsert_inv h (Cell.Obtainable.wf hc).seq
    exact ⟨slot', some o, by simp [machine, hins], hslot'⟩
  | evict id => exact ⟨none, none, rfl, by simp⟩

/-- **The reassembler's invariant, and that it never panics.** After any inserts of cells the program can hold and
any evicts, every entry has as many fragments as its total, counts the filled ones, and has received at least
one but not all of them. So the next insert, whatever the cell, indexes within the fragments and returns. -/
theorem reassembler_invariant {calls : List Call} (hcalls : ∀ call ∈ calls, call.Obtainable) :
    ∃ r replies, Reassembler.new.run calls = some (r, replies) ∧
      (∀ id p, r.inFlight.lookup id = some p →
        1 ≤ p.seqTotal.toNat ∧ p.fragments.length = p.seqTotal.toNat ∧
        p.received = p.fragments.countP Option.isSome ∧ 1 ≤ p.received ∧ p.received < p.seqTotal.toNat ∧
        none ∈ p.fragments) ∧
      ∀ c : Cell, c.Obtainable →
        ((entryFor (r.inFlight.lookup c.messageId) c).seqTotal = c.seqTotal →
          c.seqIndex.toNat < (entryFor (r.inFlight.lookup c.messageId) c).fragments.length) ∧
        ∃ r' o, r.insert c = some (r', o) := by
  have hempty : ∀ id, ∀ p ∈ Reassembler.new.inFlight.lookup id, p.Inv := by
    intro id p hp
    rw [Reassembler.new, Finmap.lookup_empty] at hp
    cases hp
  obtain ⟨s, replies, hrun, hs⟩ := Keyed.Machine.run_invariant machine_inv hempty hcalls
  refine ⟨⟨s⟩, replies, by rw [run_eq_machine, hrun]; rfl, ?_, ?_⟩
  · intro id p hp
    have hinv := hs id p hp
    have hlt := hinv.incomplete
    exact ⟨by omega, hinv.length, hinv.received, hinv.some_received, hlt, hinv.missing⟩
  · intro c hc
    have hseq := hc.wf.seq
    refine ⟨?_, ?_⟩
    · intro ht
      rw [(entryFor_counted (hs c.messageId) c).length, ht]
      exact hseq
    · obtain ⟨slot', o, hins, -⟩ := slotInsert_inv (hs c.messageId) hseq
      exact ⟨_, o, by rw [insert_eq_slot, hins]; rfl⟩

/-- A fragment of two, evicted and received again: one entry is open, and it is sound. -/
theorem reassembler_invariant_evicted : ∃ c r replies, Cell.newData (Arr.zeros 16) 0 2 [7] = .ok c ∧
    Reassembler.new.run [.insert c, .evict (Arr.zeros 16), .insert c] = some (r, replies) ∧
    ∀ id p, r.inFlight.lookup id = some p → p.received < p.seqTotal.toNat := by
  obtain ⟨c, hc, -⟩ := @Cell.newData_ok (Arr.zeros 16) 0 2 [7] (by decide) (by decide)
  have hcalls : ∀ call ∈ [Call.insert c, .evict (Arr.zeros 16), .insert c], call.Obtainable := by
    simp [Call.Obtainable, Cell.Obtainable.newData hc]
  obtain ⟨r, replies, hrun, hentries, -⟩ := reassembler_invariant hcalls
  refine ⟨c, r, replies, hc, hrun, ?_⟩
  intro id p hp
  exact (hentries id p hp).2.2.2.2.1

end VeilFabric
