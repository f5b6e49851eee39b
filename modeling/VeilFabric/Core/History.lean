import VeilFabric.Core.Reassembly
import Mathlib.Data.List.DropRight

/-!
# The reassembler read off its history

`epochOf` says what the reassembler keeps by a rule of its own. Here the same is said by the history a caller
sees: the calls of a run and what each returned. `epochIn id` cuts that history at the last completing insert
or evict of `id`; `accepted` are the cells of it that have the total of the one that opened it.

`historySpec` describes one entry of the map by such a cut history, refused cells included, and
`epochIn_run` says that the cut the caller sees is the one described. `insert_after_history` then gives the
result of any insert after any calls, and `insert_ignored_iff` says which inserts leave no trace.
-/

namespace VeilFabric
open Wire

def Call.cell? : Call → Option Cell
  | .insert c => some c
  | .evict _ => none

/-- Only cells with a valid sequence are inserted. -/
def Call.Valid : Call → Prop
  | .insert c => c.seqIndex.toNat < c.seqTotal.toNat
  | .evict _ => True

/-- A completing insert or an evict. -/
def closes : Call × Reply → Bool
  | (.evict _, _) => true
  | (.insert _, some (.ok (some _))) => true
  | (.insert _, _) => false

/-- The cells inserted under `id` since its last completing insert or evict, oldest first. -/
def epochIn (id : MessageId) (trace : List (Call × Reply)) : List Cell :=
  ((trace.filter fun x => x.1.id = id).rtakeWhile fun x => !closes x).filterMap fun x => x.1.cell?

/-- Those of them that have the total of the first. -/
def accepted (e : List Cell) : Epoch := e.filter fun c => Epoch.total e c = c.seqTotal

/-! ## Accepting one more cell -/

theorem accepted_head? (e : List Cell) : (accepted e).head? = e.head? := by
  cases e with
  | nil => rfl
  | cons d ds => simp [accepted, Epoch.total]

theorem total_accepted (e : List Cell) (c : Cell) : Epoch.total (accepted e) c = Epoch.total e c := by
  rw [Epoch.total, accepted_head?, Epoch.total]

theorem accepted_snoc (e : List Cell) (c : Cell) :
    accepted (e ++ [c]) = if Epoch.total e c = c.seqTotal then accepted e ++ [c] else accepted e := by
  cases e with
  | nil => simp [accepted, Epoch.total]
  | cons d ds =>
    have hsame : ∀ b, Epoch.total (d :: ds ++ [c]) b = d.seqTotal := fun _ => rfl
    have hopen : ∀ b, Epoch.total (d :: ds) b = d.seqTotal := fun _ => rfl
    simp only [accepted, hsame, hopen, List.filter_append]
    by_cases h : d.seqTotal = c.seqTotal <;> simp [h]

/-- The epoch after an insert, in terms of the cut history. -/
theorem insert_accepted (e : List Cell) (c : Cell) :
    (Epoch.insert (accepted e) c).1 =
      accepted (if closes (.insert c, some (Epoch.insert (accepted e) c).2) then [] else e ++ [c]) := by
  unfold Epoch.insert
  rw [total_accepted]
  by_cases ht : Epoch.total e c = c.seqTotal
  · rw [if_neg (not_not.2 ht)]
    by_cases hcov : Epoch.Covers (accepted e ++ [c]) c.seqTotal.toNat
    · rw [if_pos hcov]
      rfl
    · rw [if_neg hcov]
      simp [closes, accepted_snoc, ht]
  · simp [ht, closes, accepted_snoc]

/-! ## The cut history as the description of an entry -/

/-- A slot of the map is the cut history of its id. -/
def historySpec : Keyed.Spec machine (List Cell) where
  init := []
  next e
    | .insert c =>
      let o := (Epoch.insert (accepted e) c).2
      (if closes (.insert c, some o) then [] else e ++ [c], some o)
    | .evict _ => ([], none)
  abs e := (accepted e).slot
  valid := Call.Valid
  abs_init := rfl
  refines e c hc := by
    cases c with
    | insert c => simp [machine, Epoch.slotInsert_refines (accepted e) hc, insert_accepted e c]
    | evict id => rfl

theorem epochIn_snoc (id : MessageId) (trace : List (Call × Reply)) (x : Call × Reply) :
    epochIn id (trace ++ [x]) =
      if x.1.id = id then if closes x then [] else epochIn id trace ++ x.1.cell?.toList else epochIn id trace := by
  simp only [epochIn, List.filter_append]
  by_cases hid : x.1.id = id
  · rw [if_pos hid, show [x].filter (fun x => x.1.id = id) = [x] by simp [hid], List.rtakeWhile_concat]
    cases closes x with
    | true => rfl
    | false => cases hcell : x.1.cell? <;> simp [hcell]
  · rw [if_neg hid, show [x].filter (fun x => x.1.id = id) = [] by simp [hid], List.append_nil]

/-- What the state reached holds, and what the caller has been told, are the same history. -/
theorem epochIn_run (past : List Call) (id : MessageId) :
    epochIn id (past.zip (historySpec.replies [] past)) = historySpec.state past id := by
  induction past using List.reverseRecOn with
  | nil => rfl
  | append_singleton past i ih =>
    rw [historySpec.replies_snoc, List.zip_append (by simp), historySpec.state_snoc, List.nil_append, ← ih]
    rw [List.zip_cons_cons, List.zip_nil_left, epochIn_snoc]
    by_cases hid : i.id = id
    · subst hid
      rw [if_pos rfl, if_pos (show machine.key i = i.id from rfl), ih]
      cases i with
      | insert c => rfl
      | evict id => rfl
    · rw [if_neg hid, if_neg (show machine.key i ≠ id from hid)]

/-! ## The result of an insert -/

/-- An insert that fails leaves the map as it was. -/
theorem insert_error {r r' : Reassembler} {c : Cell} {e : VeilError} (h : r.insert c = some (r', .error e)) :
    r' = r := by
  unfold Reassembler.insert at h
  simp only at h
  split at h
  · cases h
    rfl
  · obtain ⟨entry, -, h⟩ := Option.bind_eq_some_iff.1 h
    split at h
    · obtain ⟨p, -, h⟩ := Option.bind_eq_some_iff.1 h
      obtain ⟨parts, -, h⟩ := Option.bind_eq_some_iff.1 h
      cases h
    · cases h

/-- Running any valid calls and then an insert: no panic, and the reply is the rule's for the cut history. -/
theorem insert_after {past : List Call} {c : Cell} (hpast : ∀ i ∈ past, i.Valid) (hc : (Call.insert c).Valid) :
    ∃ r r', Reassembler.new.run past = some (r, historySpec.replies [] past) ∧
      r.insert c = some (r', (Epoch.insert (accepted (historySpec.state past c.messageId)) c).2) := by
  obtain ⟨s, hrun, hs⟩ := @Keyed.Spec.run_refines _ _ _ _ _ _ _ historySpec Reassembler.new.inFlight []
    (fun _ => rfl) past hpast
  obtain ⟨s', hstep, -⟩ := historySpec.step_refines hs (i := .insert c) hc
  refine ⟨⟨s⟩, ⟨s'⟩, ?_, ?_⟩
  · rw [run_eq_machine, hrun]
    rfl
  · exact insert_of_step hstep

/-- **The reassembler is first-writer-wins, message by message.** After any calls with valid cells, let `e` be
the epoch of `c`'s id as the caller has seen it. Inserting `c` is refused, and changes nothing, exactly when
the cell that opened `e` has another total; otherwise the message is returned exactly when the accepted cells
and `c` cover every index, and is the first accepted payloads in order. Only the calls on `c`'s id matter. -/
theorem insert_after_history {past : List Call} {c : Cell} (hpast : ∀ i ∈ past, i.Valid)
    (hc : c.seqIndex.toNat < c.seqTotal.toNat) :
    ∃ r replies r' o, Reassembler.new.run past = some (r, replies) ∧ r.insert c = some (r', o) ∧
      (o = .error .mismatchedMessageId ↔
        ∃ d, (epochIn c.messageId (past.zip replies)).head? = some d ∧ d.seqTotal ≠ c.seqTotal) ∧
      (o = .error .mismatchedMessageId → r' = r) ∧
      ((∀ d, (epochIn c.messageId (past.zip replies)).head? = some d → d.seqTotal = c.seqTotal) →
        (∀ m, o = .ok (some m) ↔
          Epoch.Covers (accepted (epochIn c.messageId (past.zip replies)) ++ [c]) c.seqTotal.toNat ∧
          m = Epoch.message (accepted (epochIn c.messageId (past.zip replies)) ++ [c]) c.seqTotal.toNat) ∧
        (¬ Epoch.Covers (accepted (epochIn c.messageId (past.zip replies)) ++ [c]) c.seqTotal.toNat →
          o = .ok none)) ∧
      ∀ past', (∀ i ∈ past', i.Valid) →
        (past'.filter fun i => i.id = c.messageId) = (past.filter fun i => i.id = c.messageId) →
        ∃ q replies' q', Reassembler.new.run past' = some (q, replies') ∧ q.insert c = some (q', o) := by
  obtain ⟨r, r', hrun, hins⟩ := insert_after hpast hc
  refine ⟨r, _, r', _, hrun, hins, ?_⟩
  rw [epochIn_run]
  set e := historySpec.state past c.messageId with he
  have hopener : Epoch.total e c ≠ c.seqTotal ↔ ∃ d, e.head? = some d ∧ d.seqTotal ≠ c.seqTotal := by
    cases e with
    | nil => simp [Epoch.total]
    | cons d ds => simp [Epoch.total]
  refine ⟨?_, ?_, ?_, ?_⟩
  · rw [← hopener, Epoch.insert, total_accepted]
    by_cases ht : Epoch.total e c = c.seqTotal
    · rw [if_neg (not_not.2 ht)]
      split <;> simp [ht]
    · simp [ht]
  · intro herr
    rw [herr] at hins
    exact insert_error hins
  · intro hopen
    have ht : Epoch.total e c = c.seqTotal := by
      by_contra hne
      obtain ⟨d, hd, hdt⟩ := hopener.1 hne
      exact hdt (hopen d hd)
    rw [Epoch.insert, total_accepted, if_neg (not_not.2 ht)]
    by_cases hcov : Epoch.Covers (accepted e ++ [c]) c.seqTotal.toNat
    · rw [if_pos hcov]
      simp [hcov, eq_comm]
    · rw [if_neg hcov]
      simp [hcov]
  · intro past' hpast' hfilter
    obtain ⟨q, q', hrun', hins'⟩ := insert_after hpast' hc
    refine ⟨q, _, q', hrun', ?_⟩
    have hstate : historySpec.state past' c.messageId = e := by
      rw [he, ← historySpec.state_filter past, ← historySpec.state_filter past']
      exact congrArg (historySpec.state · c.messageId) hfilter
    rw [hins', hstate]

/-- An evict, then a cell of two, another one for its place, and a cell of three. -/
def conflicting : List Call :=
  [.evict (Arr.zeros 16), .insert (byteCell 0 2 1), .insert (byteCell 0 2 2), .insert (byteCell 1 3 9)]

/-- Of the conflicting cells the one of three is refused. The second cell of two then completes the message, with
the payload that came first in its place. -/
theorem insert_after_history_conflicts : ∃ r r',
    Reassembler.new.run conflicting =
      some (r, [none, some (.ok none), some (.ok none), some (.error .mismatchedMessageId)]) ∧
    r.insert (byteCell 1 2 3) = some (r', .ok (some [1, 3])) := by
  have hvalid : ∀ i ∈ conflicting, i.Valid := by simp [conflicting, Call.Valid, byteCell]
  obtain ⟨r, replies, r', o, hrun, hins, -, -, hres, -⟩ := insert_after_history hvalid (c := byteCell 1 2 3) (by decide)
  have hreplies : (Reassembler.new.run conflicting).map Prod.snd =
      some [none, some (.ok none), some (.ok none), some (.error .mismatchedMessageId)] := rfl
  rw [hrun, Option.map_some, Option.some.injEq] at hreplies
  subst hreplies
  have hepoch : epochIn (byteCell 1 2 3).messageId
      (conflicting.zip [none, some (.ok none), some (.ok none), some (.error .mismatchedMessageId)]) =
      [byteCell 0 2 1, byteCell 0 2 2, byteCell 1 3 9] := rfl
  have haccepted : accepted [byteCell 0 2 1, byteCell 0 2 2, byteCell 1 3 9] = [byteCell 0 2 1, byteCell 0 2 2] := rfl
  rw [hepoch, haccepted] at hres
  obtain ⟨hsome, -⟩ := hres fun d hd => by cases hd; rfl
  have hcovers : Epoch.Covers ([byteCell 0 2 1, byteCell 0 2 2] ++ [byteCell 1 2 3]) 2 := by decide
  have hmessage : Epoch.message ([byteCell 0 2 1, byteCell 0 2 2] ++ [byteCell 1 2 3]) 2 = [1, 3] := rfl
  have ho : o = .ok (some [1, 3]) := (hsome [1, 3]).2 ⟨hcovers, hmessage.symm⟩
  exact ⟨r, r', hrun, by rw [hins, ho]⟩

/-! ## Inserts that change nothing -/

/-- The cell finds an open entry of its id that has another total or has its index already. -/
def Reassembler.Ignores (self : Reassembler) (cell : Cell) : Prop :=
  ∃ entry, self.inFlight.lookup cell.messageId = some entry ∧
    (entry.seqTotal ≠ cell.seqTotal ∨ ∃ b, entry.fragments[cell.seqIndex.toNat]? = some (some b))

/-- An open epoch is not complete: completing it has closed it. -/
theorem epochAfter_open (past : List Cell) (id : MessageId) :
    ∀ d, (epochAfter past id).head? = some d → ¬ Epoch.Covers (epochAfter past id) d.seqTotal.toNat := by
  induction past using List.reverseRecOn with
  | nil => intro d hd; cases hd
  | append_singleton past c ih =>
    by_cases hid : c.messageId = id
    · subst hid
      rw [epochAfter_snoc_self, Epoch.insert]
      split
      · exact ih
      · rename_i ht
        split
        · intro d hd; cases hd
        · rename_i hcov
          intro d hd
          have hopen : d.seqTotal = c.seqTotal := by
            rw [← not_not.1 ht, Epoch.total]
            cases he : epochAfter past c.messageId with
            | nil => rw [he] at hd; cases hd; rfl
            | cons a as => rw [he] at hd; cases hd; rfl
          rw [hopen]
          exact hcov
    · rw [epochAfter_snoc_ne past hid]
      exact ih

namespace Epoch

/-- A cell on an empty slot opens an entry, or is a message of its own. -/
theorem insert_opens (c : Cell) : ¬ (slot (insert [] c).1 = slot [] ∧ ∀ m, (insert [] c).2 ≠ .ok (some m)) := by
  rintro ⟨hslot, hnone⟩
  unfold insert at hslot hnone
  rw [if_neg (by simp [total])] at hslot hnone
  split at hslot
  · rename_i hcov
    rw [if_pos hcov] at hnone
    exact hnone _ rfl
  · cases hslot

section
variable {d c : Cell} {ds : List Cell}

/-- A cell whose index is filled changes nothing. -/
theorem insert_filled (ht : d.seqTotal = c.seqTotal) (hopen : ¬ Covers (d :: ds) d.seqTotal.toNat)
    (hfill : (payloadAt (d :: ds) c.seqIndex.toNat).isSome) :
    slot (insert (d :: ds) c).1 = slot (d :: ds) ∧ (insert (d :: ds) c).2 = .ok none := by
  have hsame := payloadAt_snoc_filled hfill
  have hcov : ¬ Covers (d :: ds ++ [c]) c.seqTotal.toNat := by
    intro hcov
    refine hopen fun i hi => ?_
    rw [← hsame]
    exact hcov i (ht ▸ hi)
  have htotal : total (d :: ds) c = c.seqTotal := ht
  unfold insert
  rw [if_neg (not_not.2 htotal), if_neg hcov]
  refine ⟨?_, rfl⟩
  simp only [slot, List.cons_append, List.head?_cons, Option.map_some, Option.some.injEq]
  rw [← List.cons_append]
  simp only [toPartial, hsame]

/-- A cell whose index is not filled fills it, or completes the message. -/
theorem insert_fills (ht : d.seqTotal = c.seqTotal) (hc : c.seqIndex.toNat < c.seqTotal.toNat)
    (hfill : payloadAt (d :: ds) c.seqIndex.toNat = none) :
    ¬ (slot (insert (d :: ds) c).1 = slot (d :: ds) ∧ ∀ m, (insert (d :: ds) c).2 ≠ .ok (some m)) := by
  have htotal : total (d :: ds) c = c.seqTotal := ht
  unfold insert
  rw [if_neg (not_not.2 htotal)]
  split
  · rintro ⟨-, hnone⟩
    exact hnone _ rfl
  · rintro ⟨hslot, -⟩
    have hfrag := congrArg (fun s : Option PartialMessage => s.bind fun p => p.fragments[c.seqIndex.toNat]?) hslot
    have hi : c.seqIndex.toNat < d.seqTotal.toNat := ht ▸ hc
    have hself : payloadAt (d :: ds ++ [c]) c.seqIndex.toNat = some c.payload := by
      rw [payloadAt_snoc, if_pos rfl, hfill, Option.none_or]
    simp only [slot, List.cons_append, List.head?_cons, Option.map_some, Option.bind_some, toPartial] at hfrag
    rw [← List.cons_append] at hfrag
    simp only [List.getElem?_map, List.getElem?_range hi, Option.map_some, Option.some.injEq, hself, hfill] at hfrag
    cases hfrag

end

/-- When a cell leaves an open epoch's entry as it was and completes nothing. -/
theorem insert_unchanged_iff {e : Epoch} {c : Cell} (hc : c.seqIndex.toNat < c.seqTotal.toNat)
    (hopen : ∀ d, e.head? = some d → ¬ Covers e d.seqTotal.toNat) :
    (slot (insert e c).1 = slot e ∧ ∀ m, (insert e c).2 ≠ .ok (some m)) ↔
      e ≠ [] ∧ (total e c ≠ c.seqTotal ∨ (payloadAt e c.seqIndex.toNat).isSome) := by
  cases e with
  | nil => exact iff_of_false (insert_opens c) (by simp)
  | cons d ds =>
    by_cases ht : total (d :: ds) c = c.seqTotal
    · have hd : d.seqTotal = c.seqTotal := ht
      by_cases hfill : (payloadAt (d :: ds) c.seqIndex.toNat).isSome
      · obtain ⟨hslot, hreply⟩ := insert_filled hd (hopen d rfl) hfill
        exact iff_of_true ⟨hslot, by simp [hreply]⟩ ⟨by simp, .inr hfill⟩
      · exact iff_of_false (insert_fills hd hc (by simpa using hfill)) (by simp [hfill, ht])
    · refine iff_of_true ?_ ⟨by simp, .inl ht⟩
      unfold insert
      rw [if_pos ht]
      simp

end Epoch

section
variable {r : Reassembler} {past : List Cell} {c : Cell}

theorem ignores_iff (hr : Agrees r (past.map .insert)) (hc : c.seqIndex.toNat < c.seqTotal.toNat) :
    r.Ignores c ↔ epochAfter past c.messageId ≠ [] ∧
      (Epoch.total (epochAfter past c.messageId) c ≠ c.seqTotal ∨
        (Epoch.payloadAt (epochAfter past c.messageId) c.seqIndex.toNat).isSome) := by
  have hlook : r.inFlight.lookup c.messageId = Epoch.slot (epochAfter past c.messageId) := hr c.messageId
  unfold Reassembler.Ignores
  rw [hlook]
  cases he : epochAfter past c.messageId with
  | nil => simp [Epoch.slot]
  | cons d ds =>
    have hslot : Epoch.slot (d :: ds) = some (Epoch.toPartial (d :: ds) d.seqTotal) := rfl
    have htotal : Epoch.total (d :: ds) c = d.seqTotal := rfl
    simp only [hslot, htotal, Option.some.injEq, exists_eq_left', ne_eq, reduceCtorEq, not_false_eq_true, true_and]
    by_cases ht : d.seqTotal = c.seqTotal
    · simp [Epoch.toPartial, ht, hc, Option.isSome_iff_exists]
    · simp [Epoch.toPartial, ht]

/-- **An insert changes nothing and returns no message exactly when the cell is ignored.** -/
theorem insert_ignored_iff (hr : Agrees r (past.map .insert)) (hc : c.WF) :
    (∃ o, r.insert c = some (r, o) ∧ ∀ m, o ≠ .ok (some m)) ↔ r.Ignores c := by
  obtain ⟨r', hins, hr'⟩ := insert_refines hr hc
  rw [ignores_iff hr hc.seq, ← Epoch.insert_unchanged_iff hc.seq (epochAfter_open past c.messageId)]
  have hself := hr' c.messageId
  rw [show epochOf ((past ++ [c]).map .insert) c.messageId = _ from epochAfter_snoc_self past c] at hself
  constructor
  · rintro ⟨o, ho, hnone⟩
    obtain ⟨rfl, rfl⟩ := Prod.mk.inj (Option.some.inj (hins.symm.trans ho))
    exact ⟨hself.symm.trans (hr c.messageId), hnone⟩
  · rintro ⟨hslot, hnone⟩
    have hsame : r'.inFlight = r.inFlight := by
      apply Finmap.ext_lookup
      intro id
      by_cases hid : c.messageId = id
      · subst hid
        exact hself.trans (hslot.trans (hr c.messageId).symm)
      · exact (hr' id).trans ((congrArg Epoch.slot (epochAfter_snoc_ne past hid)).trans (hr id).symm)
    refine ⟨_, ?_, hnone⟩
    rw [hins, show r' = r from congrArg Reassembler.mk hsame]
    rfl

end

end VeilFabric
