import VeilFabric.Sdk.Receiver
import VeilFabric.Core.History

/-!
# Dummy cells at the receiver (`veil-sdk/src/receiver.rs`, `veil-core/src/reassembly.rs:8`)

The reassembler assumes that its caller filters out dummy cells. `Receiver::poll` hands over every cell that
decrypts, whatever its type. `withoutDummies` is the poll in which the dummy cells were never there;
`dummies_unseen_iff` compares the two runs. They agree after every insert exactly when each dummy cell finds,
at its turn, an open entry of its id with another total or with its index filled (`DummiesIgnored`): any other
dummy cell opens an entry, fills an index, or completes a message.
-/

namespace VeilFabric
open Wire

variable {P : Primitives}

def Cell.isDummy (self : Cell) : Bool := self.cellType = .dummy

/-- The envelope decrypts under the identity to a dummy cell. -/
def opensToDummy (identity : KeyPair P) (raw : Bytes) : Bool := (openEnvelope identity raw).any Cell.isDummy

/-- The pulls of a poll with the dummy cells removed. -/
def withoutDummies (identity : KeyPair P) (pulls : List PullOutcome) : List PullOutcome :=
  keepEnvelopes (fun raw => !opensToDummy identity raw) pulls

/-- The state after some inserts and the messages they returned. -/
def observed (r : Reassembler) (cells : List Cell) : Option (Reassembler × List Bytes) :=
  (r.insertAll cells).map fun q => (q.1, returned q.2)

/-- After every insert, state and messages are those of the run without the dummy cells. -/
def Unaffected (r : Reassembler) (cells : List Cell) : Prop :=
  ∀ k, observed r (cells.take k) = observed r ((cells.take k).filter fun c => !c.isDummy)

/-- Every dummy cell is ignored at its turn. -/
def DummiesIgnored : Reassembler → List Cell → Prop
  | _, [] => True
  | r, c :: cells => (c.isDummy → r.Ignores c) ∧ ∀ r' o, r.insert c = some (r', o) → DummiesIgnored r' cells

/-! ## A stream of inserts -/

section
variable {r r' : Reassembler} {c : Cell} {cells : List Cell}

theorem observed_cons {o : Except VeilError (Option Bytes)} (h : r.insert c = some (r', o)) (cells : List Cell) :
    observed r (c :: cells) = (observed r' cells).map fun q => (q.1, returned [o] ++ q.2) := by
  unfold observed
  cases hcells : r'.insertAll cells with
  | none => simp [Reassembler.insertAll, h, hcells]
  | some q => simp [Reassembler.insertAll, h, hcells, returned_cons o q.2]

theorem returned_eq_nil {o : Except VeilError (Option Bytes)} : returned [o] = [] ↔ ∀ m, o ≠ .ok (some m) := by
  simp [List.eq_nil_iff_forall_not_mem, mem_returned_singleton]

theorem observed_cons_same {o : Except VeilError (Option Bytes)} (h : r.insert c = some (r, o))
    (hnone : ∀ m, o ≠ .ok (some m)) (cells : List Cell) : observed r (c :: cells) = observed r cells := by
  rw [observed_cons h, returned_eq_nil.2 hnone]
  simp

theorem DummiesIgnored.take (h : DummiesIgnored r cells) (k : Nat) : DummiesIgnored r (cells.take k) := by
  induction cells generalizing r k with
  | nil => simpa using h
  | cons c cells ih =>
    cases k with
    | zero => trivial
    | succ k => exact ⟨h.1, fun r' o hins => ih (h.2 r' o hins) k⟩

/-- Ignored dummy cells might as well not be there. -/
theorem observed_filter {past : List Cell} (hr : Agrees r (past.map .insert)) (hcells : ∀ c ∈ cells, c.WF)
    (h : DummiesIgnored r cells) : observed r cells = observed r (cells.filter fun c => !c.isDummy) := by
  induction cells generalizing r past with
  | nil => rfl
  | cons c cells ih =>
    have hc := hcells c List.mem_cons_self
    obtain ⟨r', hins, hr'⟩ := insert_refines hr hc
    have hrest := ih hr' (fun d hd => hcells d (List.mem_cons_of_mem _ hd)) (h.2 _ _ hins)
    by_cases hd : c.isDummy
    · obtain ⟨o, hsame, hnone⟩ := (insert_ignored_iff hr hc).2 (h.1 hd)
      obtain ⟨rfl, -⟩ := Prod.mk.inj (Option.some.inj (hins.symm.trans hsame))
      rw [observed_cons_same hsame hnone, hrest, List.filter_cons_of_neg (by simpa using hd)]
    · rw [List.filter_cons_of_pos (by simpa using hd), observed_cons hins, observed_cons hins, hrest]

/-- **The two runs agree after every insert exactly when the dummy cells are ignored.** -/
theorem unaffected_iff {past : List Cell} (hr : Agrees r (past.map .insert)) (hcells : ∀ c ∈ cells, c.WF) :
    Unaffected r cells ↔ DummiesIgnored r cells := by
  constructor
  · intro h
    induction cells generalizing r past with
    | nil => trivial
    | cons c cells ih =>
      have hc := hcells c List.mem_cons_self
      obtain ⟨r', hins, hr'⟩ := insert_refines hr hc
      -- the insert of a dummy cell, against no insert at all
      have hfirst : c.isDummy → r' = r ∧ ∀ m, resultAfter past c ≠ .ok (some m) := by
        intro hd
        have h1 := h 1
        rw [List.take_succ_cons, List.take_zero, List.filter_cons_of_neg (by simpa using hd), List.filter_nil,
          observed_cons hins] at h1
        obtain ⟨hstate, hmsgs⟩ := Prod.mk.inj (Option.some.inj h1)
        exact ⟨hstate, returned_eq_nil.1 (by simpa using hmsgs)⟩
      refine ⟨fun hd => ?_, fun r₁ o₁ hins₁ => ?_⟩
      · obtain ⟨rfl, hnone⟩ := hfirst hd
        exact (insert_ignored_iff hr hc).1 ⟨_, hins, hnone⟩
      · obtain ⟨rfl, rfl⟩ := Prod.mk.inj (Option.some.inj (hins.symm.trans hins₁))
        refine ih hr' (fun d hd => hcells d (List.mem_cons_of_mem _ hd)) fun k => ?_
        have hk := h (k + 1)
        rw [List.take_succ_cons] at hk
        by_cases hd : c.isDummy
        · obtain ⟨rfl, hnone⟩ := hfirst hd
          rwa [List.filter_cons_of_neg (by simpa using hd), observed_cons_same hins hnone] at hk
        · rw [List.filter_cons_of_pos (by simpa using hd), observed_cons hins, observed_cons hins] at hk
          refine Option.map_injective ?_ hk
          rintro ⟨s, ms⟩ ⟨s', ms'⟩ heq
          obtain ⟨hs, hms⟩ := Prod.mk.inj heq
          exact Prod.ext hs (List.append_cancel_left hms)
  · intro h k
    exact observed_filter hr (fun c hc => hcells c (List.mem_of_mem_take hc)) (h.take k)

/-- The condition, over two stretches of the stream. -/
theorem DummiesIgnored.append {xs ys : List Cell} (h : DummiesIgnored r (xs ++ ys)) :
    DummiesIgnored r xs ∧ ∀ r' os, r.insertAll xs = some (r', os) → DummiesIgnored r' ys := by
  induction xs generalizing r with
  | nil =>
    refine ⟨trivial, fun r' os hins => ?_⟩
    cases hins
    exact h
  | cons c xs ih =>
    refine ⟨⟨h.1, fun r₁ o hins => (ih (h.2 r₁ o hins)).1⟩, fun r' os hins => ?_⟩
    obtain ⟨⟨r₁, o⟩, h₁, hins⟩ := Option.bind_eq_some_iff.1 hins
    obtain ⟨⟨r₂, os₂⟩, h₂, hins⟩ := Option.bind_eq_some_iff.1 hins
    obtain ⟨rfl, -⟩ := Prod.mk.inj (Option.some.inj hins)
    exact (ih (h.2 r₁ o h₁)).2 r₂ os₂ h₂

end

/-! ## Polls -/

theorem opened_withoutDummies (identity : KeyPair P) (envelopes : List Bytes) :
    (envelopes.filter fun raw => !opensToDummy identity raw).filterMap (openEnvelope identity) =
      (envelopes.filterMap (openEnvelope identity)).filter fun c => !c.isDummy := by
  induction envelopes with
  | nil => rfl
  | cons raw envelopes ih =>
    cases hopen : openEnvelope identity raw with
    | none =>
      have hkeep : opensToDummy identity raw = false := by simp [opensToDummy, hopen]
      simp [hkeep, hopen, ih]
    | some c =>
      have htype : opensToDummy identity raw = c.isDummy := by simp [opensToDummy, hopen]
      cases hd : c.isDummy <;> simp [htype, hopen, hd, ih]

theorem receive_withoutDummies (identity : KeyPair P) (pulls : List PullOutcome) :
    receive identity (withoutDummies identity pulls) =
      (receive identity pulls).map (List.filter fun c => !c.isDummy) := by
  rw [withoutDummies, receive_keepEnvelopes, opened_withoutDummies]
  rcases receive_eq identity pulls with ⟨heq, -⟩ | ⟨e, heq, -⟩
  · rw [heq]
    rfl
  · rw [heq]
    rfl

theorem insertCalls_withoutDummies (identity : KeyPair P) (pulls : List PullOutcome) :
    insertCalls identity (withoutDummies identity pulls) =
      (insertCalls identity pulls).filter fun c => !c.isDummy := by
  unfold insertCalls
  rw [receive_withoutDummies]
  cases receive identity pulls <;> rfl

/-- What a poll does, in terms of what is observed. -/
theorem poll_observed (rc : Receiver P) (pulls : List PullOutcome) :
    rc.poll pulls = (observed rc.reassembler (insertCalls rc.identity pulls)).map fun q =>
      ({ rc with reassembler := q.1 }, (receive rc.identity pulls).map fun _ => q.2) := by
  rw [poll_eq, observed, Option.map_map]
  rfl

theorem poll_withoutDummies {rc : Receiver P} {past : List Cell} (hr : Agrees rc.reassembler (past.map .insert))
    {pulls : List PullOutcome} (h : DummiesIgnored rc.reassembler (insertCalls rc.identity pulls)) :
    rc.poll (withoutDummies rc.identity pulls) = rc.poll pulls := by
  rw [poll_observed, poll_observed, insertCalls_withoutDummies,
    ← observed_filter hr (insertCalls_wf rc.identity pulls) h, receive_withoutDummies]
  cases receive rc.identity pulls <;> rfl

theorem run_withoutDummies {rc : Receiver P} {past : List Cell} (hr : Agrees rc.reassembler (past.map .insert))
    {polls : List (List PullOutcome)}
    (h : DummiesIgnored rc.reassembler (polls.flatMap (insertCalls rc.identity))) :
    rc.run (polls.map (withoutDummies rc.identity)) = rc.run polls := by
  induction polls generalizing rc past with
  | nil => rfl
  | cons pulls polls ih =>
    rw [List.flatMap_cons] at h
    obtain ⟨hfirst, hrest⟩ := h.append
    obtain ⟨r, hins, hag⟩ := insertAll_refines hr (insertCalls_wf rc.identity pulls)
    have htail : Receiver.run { rc with reassembler := r } (polls.map (withoutDummies rc.identity)) =
        Receiver.run { rc with reassembler := r } polls := ih hag (hrest _ _ hins)
    rw [List.map_cons, Receiver.run, poll_withoutDummies hr hfirst, Receiver.run, poll_eq, hins]
    simp only [Option.map_some, Option.bind_eq_bind, Option.bind_some, htail]

/-- **When dummy cells do not show.** From every state of a receiver and for every sequence of polls: after every
insert the reassembler and the messages returned are those without the dummy cells exactly when each dummy
cell is ignored at its turn; and then the polls return the same and leave the same receiver as if no dummy
cell had been there. -/
theorem dummies_unseen_iff (identity : KeyPair P) (before polls : List (List PullOutcome)) :
    ∃ rc outs, (Receiver.new identity).run before = some (rc, outs) ∧
      (Unaffected rc.reassembler (polls.flatMap (insertCalls identity)) ↔
        DummiesIgnored rc.reassembler (polls.flatMap (insertCalls identity))) ∧
      (DummiesIgnored rc.reassembler (polls.flatMap (insertCalls identity)) →
        rc.run (polls.map (withoutDummies identity)) = rc.run polls) := by
  obtain ⟨rc, outs, hrun, rfl, hag, -⟩ := run_new identity before
  refine ⟨rc, outs, hrun, unaffected_iff hag fun c hc => ?_, run_withoutDummies hag⟩
  obtain ⟨pulls, -, hins⟩ := List.mem_flatMap.1 hc
  exact insertCalls_wf rc.identity pulls c hins

/-- A dummy cell of zeros. -/
abbrev zeroDummy : Cell := .newDummy (Arr.zeros 16) (Arr.zeros PAYLOAD_CAPACITY)

/-- A dummy cell that decrypts under the identity is returned as a message of 488 bytes. -/
theorem dummy_returned_as_message : ∃ raw rc rc', openEnvelope toyIdentity raw = some zeroDummy ∧ zeroDummy.isDummy ∧
    (Receiver.new toyIdentity).poll [.ok [raw]] = some (rc, .ok [zeroDummy.payload]) ∧
    (Receiver.new toyIdentity).poll (withoutDummies toyIdentity [.ok [raw]]) = some (rc', .ok []) := by
  obtain ⟨data, hopen⟩ := exists_envelope Primitives.toy_lawful toyIdentity (flatKey 1)
    (Cell.newDummy_wf (Arr.zeros 16) (Arr.zeros PAYLOAD_CAPACITY))
  generalize (Envelope.wrap (Primitives.toy.publicKey (flatKey 1)) data).1 = raw at hopen
  obtain ⟨r, hins, -⟩ := @insert_refines .new [] agrees_new zeroDummy (Cell.newDummy_wf _ _)
  rw [resultAfter_single rfl rfl rfl] at hins
  have hrec : receive toyIdentity [.ok [raw]] = .ok [zeroDummy] := by
    simp [receive, receiveLoop, hopen]
  have hrec' : receive toyIdentity (withoutDummies toyIdentity [.ok [raw]]) = .ok [] := by
    rw [receive_withoutDummies, hrec]
    rfl
  refine ⟨raw, ⟨toyIdentity, r⟩, .new toyIdentity, hopen, rfl, ?_, ?_⟩
  · simp [Receiver.poll, Receiver.new, hrec, Reassembler.insertAll, hins, returned]
  · simp [Receiver.poll, Receiver.new, hrec', Reassembler.insertAll, returned]

end VeilFabric
