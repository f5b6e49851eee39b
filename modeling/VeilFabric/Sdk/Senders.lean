import VeilFabric.Sdk.Receiver

/-!
# Several senders at one receiver (`veil-sdk/src/receiver.rs`, `veil-core/src/reassembly.rs:8`)

The reassembler assumes a single stream and leaves it to its caller to demultiplex; `Receiver::poll` feeds it
the cells of all senders, and it tells them apart by message id alone. Here the sender's key is followed from
the envelope to the completed message: a stream of cells each with its tag, and the epoch of an id with the
tags of its cells (`taggedEpoch`).

`SendersApart` says that no cell meets an open epoch of its id with cells of another sender. In every run where
this holds, each message is made of one sender's cells, and what is completed for a sender is what would be
completed had only its envelopes arrived (`senders_apart`). Where it does not hold, two senders' fragments are
joined into one message (`two_senders_mixed`).
-/

namespace VeilFabric
open Wire

/-! ## Tagged streams -/

section
variable {α : Type}

/-- `Epoch.insert`, with the tags. -/
def tagInsert (e : List (α × Cell)) (x : α × Cell) : List (α × Cell) :=
  if Epoch.total (e.map Prod.snd) x.2 ≠ x.2.seqTotal then e
  else if Epoch.Covers (e.map Prod.snd ++ [x.2]) x.2.seqTotal.toNat then []
  else e ++ [x]

/-- The accepted cells of `id` since it was last completed, with their tags. -/
def taggedEpoch (past : List (α × Cell)) (id : MessageId) : List (α × Cell) :=
  past.foldl (fun e x => if x.2.messageId = id then tagInsert e x else e) []

theorem taggedEpoch_snoc (past : List (α × Cell)) (x : α × Cell) (id : MessageId) :
    taggedEpoch (past ++ [x]) id =
      if x.2.messageId = id then tagInsert (taggedEpoch past id) x else taggedEpoch past id := by
  simp [taggedEpoch]

theorem tagInsert_snd (e : List (α × Cell)) (x : α × Cell) :
    (tagInsert e x).map Prod.snd = (Epoch.insert (e.map Prod.snd) x.2).1 := by
  unfold tagInsert Epoch.insert
  split
  · rfl
  · split
    · rfl
    · simp

/-- Without the tags it is the epoch. -/
theorem taggedEpoch_snd (past : List (α × Cell)) (id : MessageId) :
    (taggedEpoch past id).map Prod.snd = epochAfter (past.map Prod.snd) id := by
  induction past using List.reverseRecOn with
  | nil => rfl
  | append_singleton past x ih =>
    rw [taggedEpoch_snoc, List.map_append, List.map_singleton]
    by_cases hid : x.2.messageId = id
    · subst hid
      rw [if_pos rfl, tagInsert_snd, ih, epochAfter_snoc_self]
    · rw [if_neg hid, ih, epochAfter_snoc_ne _ hid]

theorem mem_tagInsert {e : List (α × Cell)} {x y : α × Cell} (h : y ∈ tagInsert e x) : y ∈ e ∨ y = x := by
  unfold tagInsert at h
  split at h
  · exact .inl h
  · split at h
    · cases h
    · simpa using h

theorem tagInsert_own {e : List (α × Cell)} {x : α × Cell} (h : ∀ y ∈ e, y.1 = x.1) :
    ∀ y ∈ tagInsert e x, y.1 = x.1 := by
  intro y hy
  rcases mem_tagInsert hy with hy | rfl
  · exact h y hy
  · rfl

theorem mem_taggedEpoch {past : List (α × Cell)} {id : MessageId} {y : α × Cell} (h : y ∈ taggedEpoch past id) :
    y ∈ past := by
  induction past using List.reverseRecOn with
  | nil => cases h
  | append_singleton past x ih =>
    rw [taggedEpoch_snoc] at h
    split at h
    · rcases mem_tagInsert h with h | rfl
      · exact List.mem_append_left _ (ih h)
      · simp
    · exact List.mem_append_left _ (ih h)

/-- No cell of the stream meets an open epoch of its id with a cell of another tag. -/
def SendersApart : (past : List (α × Cell)) → List (α × Cell) → Prop
  | _, [] => True
  | past, x :: xs => (∀ y ∈ taggedEpoch past x.2.messageId, y.1 = x.1) ∧ SendersApart (past ++ [x]) xs

/-- The messages a stream completes, each with the tag of the cell that completed it. -/
def completions (past : List (α × Cell)) : List (α × Cell) → List (α × Bytes)
  | [] => []
  | x :: xs => (returned [resultAfter (past.map Prod.snd) x.2]).map (Prod.mk x.1) ++ completions (past ++ [x]) xs

theorem completions_snd (past xs : List (α × Cell)) :
    (completions past xs).map Prod.snd = returned (results (past.map Prod.snd) (xs.map Prod.snd)) := by
  induction xs generalizing past with
  | nil => rfl
  | cons x xs ih =>
    rw [completions, List.map_append, ih, List.map_cons, results, returned_cons _ (results _ _), List.map_append]
    simp

/-- The message is put together from cells of the stream that carry this tag, and from no others. -/
def ComposedOf (stream : List (α × Cell)) (tag : α) (m : Bytes) : Prop :=
  ∃ (cells : List (α × Cell)) (n : Nat), (∀ y ∈ cells, y ∈ stream ∧ y.1 = tag) ∧
    Epoch.Covers (cells.map Prod.snd) n ∧ m = Epoch.message (cells.map Prod.snd) n

theorem ComposedOf.mono {s s' : List (α × Cell)} {tag : α} {m : Bytes} (h : ComposedOf s tag m) (hs : s ⊆ s') :
    ComposedOf s' tag m := by
  obtain ⟨cells, n, hcells, hcov, hm⟩ := h
  exact ⟨cells, n, fun y hy => ⟨hs (hcells y hy).1, (hcells y hy).2⟩, hcov, hm⟩

/-- Every byte of a message comes from a cell. -/
theorem Epoch.mem_message {e : Epoch} {n : Nat} {b : UInt8} (h : b ∈ Epoch.message e n) :
    ∃ c ∈ e, b ∈ c.payload := by
  obtain ⟨l, hl, hb⟩ := List.mem_flatten.1 h
  obtain ⟨i, -, rfl⟩ := List.mem_map.1 hl
  unfold Epoch.payloadAt at hb
  cases hfind : e.find? fun c => c.seqIndex.toNat = i with
  | none => simp [hfind] at hb
  | some c =>
    rw [hfind] at hb
    exact ⟨c, List.mem_of_find?_eq_some hfind, hb⟩

/-- A message is made of the epoch it completes. -/
theorem composed_of_result {past : List (α × Cell)} {x : α × Cell}
    (hapart : ∀ y ∈ taggedEpoch past x.2.messageId, y.1 = x.1) {m : Bytes}
    (h : resultAfter (past.map Prod.snd) x.2 = .ok (some m)) : ComposedOf (past ++ [x]) x.1 m := by
  refine ⟨taggedEpoch past x.2.messageId ++ [x], x.2.seqTotal.toNat, ?_, ?_⟩
  · intro y hy
    rcases List.mem_append.1 hy with hy | hy
    · exact ⟨List.mem_append_left _ (mem_taggedEpoch hy), hapart y hy⟩
    · rw [List.mem_singleton.1 hy]
      exact ⟨by simp, rfl⟩
  · rw [List.map_append, taggedEpoch_snd, List.map_singleton]
    unfold resultAfter Epoch.insert at h
    split at h
    · cases h
    · split at h
      · rename_i hcov
        cases h
        exact ⟨hcov, rfl⟩
      · cases h

theorem mem_completions {past xs : List (α × Cell)} (h : SendersApart past xs) {k : α} {m : Bytes}
    (hm : (k, m) ∈ completions past xs) : ComposedOf (past ++ xs) k m := by
  induction xs generalizing past with
  | nil => cases hm
  | cons x xs ih =>
    obtain ⟨hx, hxs⟩ := h
    rcases List.mem_append.1 hm with hm | hm
    · obtain ⟨m', hm', heq⟩ := List.mem_map.1 hm
      obtain ⟨rfl, rfl⟩ := Prod.mk.inj heq
      refine (composed_of_result hx (mem_returned_singleton.1 hm')).mono fun y hy => ?_
      rcases List.mem_append.1 hy with hy | hy
      · exact List.mem_append_left _ hy
      · rw [List.mem_singleton.1 hy]
        simp
    · have := ih hxs hm
      rwa [List.append_assoc] at this

/-! ### One sender's part of the stream -/

variable [DecidableEq α]

/-- The invariant of a run in which senders stay apart: what one of them would have open alone is the part of the
open epochs that is its own. -/
def Separate (past : List (α × Cell)) : Prop :=
  ∀ k id, taggedEpoch (past.filter fun x => x.1 = k) id = (taggedEpoch past id).filter fun x => x.1 = k

theorem filter_own {β : Type} {e : List (α × β)} {k : α} (h : ∀ y ∈ e, y.1 = k) : (e.filter fun x => x.1 = k) = e :=
  List.filter_eq_self.2 fun y hy => by simpa using h y hy

theorem filter_other {β : Type} {e : List (α × β)} {k k' : α} (h : ∀ y ∈ e, y.1 = k) (hne : k ≠ k') :
    (e.filter fun x => x.1 = k') = [] :=
  List.filter_eq_nil_iff.2 fun y hy => by simpa [h y hy] using hne

theorem Separate.step {past : List (α × Cell)} (h : Separate past) {x : α × Cell}
    (hx : ∀ y ∈ taggedEpoch past x.2.messageId, y.1 = x.1) : Separate (past ++ [x]) := by
  intro k id
  rw [List.filter_append, taggedEpoch_snoc]
  by_cases hk : x.1 = k
  · rw [show [x].filter (fun x => x.1 = k) = [x] by simp [hk], taggedEpoch_snoc, h k id]
    by_cases hid : x.2.messageId = id
    · subst hid
      rw [if_pos rfl, if_pos rfl, filter_own (hk ▸ hx), filter_own (hk ▸ tagInsert_own hx)]
    · rw [if_neg hid, if_neg hid]
  · rw [show [x].filter (fun x => x.1 = k) = [] by simp [hk], List.append_nil, h k id]
    by_cases hid : x.2.messageId = id
    · subst hid
      rw [if_pos rfl, filter_other hx hk, filter_other (tagInsert_own hx) hk]
    · rw [if_neg hid]

/-- A cell that stays apart is answered as if its sender were alone. -/
theorem Separate.result {past : List (α × Cell)} (h : Separate past) {x : α × Cell}
    (hx : ∀ y ∈ taggedEpoch past x.2.messageId, y.1 = x.1) :
    resultAfter ((past.filter fun y => y.1 = x.1).map Prod.snd) x.2 = resultAfter (past.map Prod.snd) x.2 := by
  unfold resultAfter
  rw [← taggedEpoch_snd, ← taggedEpoch_snd, h x.1, filter_own hx]

/-- **What is completed for one sender does not depend on the others.** -/
theorem completions_filter {past xs : List (α × Cell)} (h : Separate past) (hxs : SendersApart past xs) (k : α) :
    ((completions past xs).filter fun x => x.1 = k) =
      completions (past.filter fun x => x.1 = k) (xs.filter fun x => x.1 = k) := by
  induction xs generalizing past with
  | nil => rfl
  | cons x xs ih =>
    obtain ⟨hx, hxs⟩ := hxs
    have hrest := ih (h.step hx) hxs
    rw [completions, List.filter_append, hrest]
    have htags : ∀ y ∈ (returned [resultAfter (past.map Prod.snd) x.2]).map (Prod.mk x.1), y.1 = x.1 := by
      simp
    by_cases hk : x.1 = k
    · subst hk
      rw [filter_own htags, List.filter_cons_of_pos (l := xs) (by simp)]
      conv_rhs => rw [completions, h.result hx]
      simp
    · rw [filter_other htags hk, List.filter_cons_of_neg (l := xs) (by simpa using hk)]
      simp [hk]

end

/-! ## Polls -/

variable {P : Primitives}

/-- The envelope carries this sender key. -/
def carries (sender : Key) (raw : Bytes) : Bool :=
  match Envelope.unwrap raw with
  | .ok (senderPublic, _) => senderPublic = sender
  | .error _ => false

/-- The cell an envelope decrypts to, with the sender key it carries. -/
def openFrom (identity : KeyPair P) (raw : Bytes) : Option (Key × Cell) :=
  match Envelope.unwrap raw with
  | .ok (senderPublic, _) => (openEnvelope identity raw).map (Prod.mk senderPublic)
  | .error _ => none

/-- The cells on which a poll calls `insert`, each with its sender. -/
def taggedCalls (identity : KeyPair P) (pulls : List PullOutcome) : List (Key × Cell) :=
  match receive identity pulls with
  | .ok _ => (drained pulls).filterMap (openFrom identity)
  | .error _ => []

/-- The pulls of a poll, had only the envelopes of one sender arrived. -/
def onlyFrom (sender : Key) (pulls : List PullOutcome) : List PullOutcome := keepEnvelopes (carries sender) pulls

theorem openFrom_snd (identity : KeyPair P) (raw : Bytes) :
    (openFrom identity raw).map Prod.snd = openEnvelope identity raw := by
  unfold openFrom
  cases h : Envelope.unwrap raw with
  | error e => simp [openEnvelope, h]
  | ok q => simp [Option.map_map, Function.comp_def]

theorem openFrom_fst {identity : KeyPair P} {raw : Bytes} {x : Key × Cell} (h : openFrom identity raw = some x)
    (sender : Key) : carries sender raw = decide (x.1 = sender) := by
  unfold openFrom at h
  unfold carries
  cases hu : Envelope.unwrap raw with
  | error e => rw [hu] at h; cases h
  | ok q =>
    rw [hu] at h
    obtain ⟨c, -, rfl⟩ := Option.map_eq_some_iff.1 h
    rfl

theorem taggedCalls_snd (identity : KeyPair P) (pulls : List PullOutcome) :
    (taggedCalls identity pulls).map Prod.snd = insertCalls identity pulls := by
  have hopen : ∀ envelopes : List Bytes, (envelopes.filterMap (openFrom identity)).map Prod.snd =
      envelopes.filterMap (openEnvelope identity) := by
    intro envelopes
    rw [List.map_filterMap]
    exact congrArg (List.filterMap · envelopes) (funext (openFrom_snd identity))
  unfold taggedCalls insertCalls
  rcases receive_eq identity pulls with ⟨heq, -⟩ | ⟨e, heq, -⟩
  · rw [heq]
    exact hopen _
  · rw [heq]
    rfl

theorem flatMap_insertCalls (identity : KeyPair P) (polls : List (List PullOutcome)) :
    polls.flatMap (insertCalls identity) = (polls.flatMap (taggedCalls identity)).map Prod.snd := by
  rw [List.map_flatMap]
  exact List.flatMap_congr fun pulls _ => (taggedCalls_snd identity pulls).symm

theorem drained_keepEnvelopes (keep : Bytes → Bool) (pulls : List PullOutcome) :
    drained (keepEnvelopes keep pulls) = (drained pulls).filter keep := by
  induction pulls with
  | nil => rfl
  | cons p pulls ih =>
    cases p with
    | error e => rfl
    | ok envelopes =>
      rw [drained, List.filter_append, ← ih]
      rfl

theorem taggedCalls_onlyFrom (identity : KeyPair P) (sender : Key) (pulls : List PullOutcome) :
    taggedCalls identity (onlyFrom sender pulls) = (taggedCalls identity pulls).filter fun x => x.1 = sender := by
  have hopen : ∀ envelopes : List Bytes, (envelopes.filter (carries sender)).filterMap (openFrom identity) =
      (envelopes.filterMap (openFrom identity)).filter fun x => x.1 = sender := by
    intro envelopes
    induction envelopes with
    | nil => rfl
    | cons raw envelopes ih =>
      cases h : openFrom identity raw with
      | none => cases hc : carries sender raw <;> simp [h, hc, ih]
      | some x =>
        have hc := openFrom_fst h sender
        by_cases hx : x.1 = sender <;> simp [h, hc, hx, ih]
  unfold taggedCalls onlyFrom
  rw [receive_keepEnvelopes, drained_keepEnvelopes]
  cases receive identity pulls with
  | error e => rfl
  | ok cells => exact hopen _

/-- **Senders that stay apart are not mixed.** In every sequence of polls in which no cell meets an open epoch of
its id with cells of another sender: the messages returned are each put together from the cells of one sender,
and those of any one sender are the messages returned had only its envelopes arrived. -/
theorem senders_apart {identity : KeyPair P} {polls : List (List PullOutcome)}
    (h : SendersApart [] (polls.flatMap (taggedCalls identity))) :
    ∃ rc outs, (Receiver.new identity).run polls = some (rc, outs) ∧
      ∃ completed : List (Key × Bytes), messages outs = completed.map Prod.snd ∧
        (∀ x ∈ completed, ComposedOf (polls.flatMap (taggedCalls identity)) x.1 x.2) ∧
        ∀ sender, ∃ rc' outs', (Receiver.new identity).run (polls.map (onlyFrom sender)) = some (rc', outs') ∧
          messages outs' = (completed.filter fun x => x.1 = sender).map Prod.snd := by
  obtain ⟨rc, outs, hrun, -, -, hmsgs⟩ := run_new identity polls
  refine ⟨rc, outs, hrun, completions [] (polls.flatMap (taggedCalls identity)), ?_, ?_, ?_⟩
  · rw [hmsgs, completions_snd, flatMap_insertCalls]
    rfl
  · intro x hx
    exact mem_completions h hx
  · intro sender
    obtain ⟨rc', outs', hrun', -, -, hmsgs'⟩ := run_new identity (polls.map (onlyFrom sender))
    refine ⟨rc', outs', hrun', ?_⟩
    have hown : (polls.map (onlyFrom sender)).flatMap (taggedCalls identity) =
        (polls.flatMap (taggedCalls identity)).filter fun x => x.1 = sender := by
      rw [List.flatMap_map, List.filter_flatMap]
      exact List.flatMap_congr fun pulls _ => taggedCalls_onlyFrom identity sender pulls
    rw [hmsgs', flatMap_insertCalls, hown, completions_filter (fun _ _ => rfl) h, completions_snd]
    rfl

/-! ## Two senders with one message id -/

theorem byteCell_payload (seqIndex seqTotal : UInt16) (b : UInt8) : (byteCell seqIndex seqTotal b).payload = [b] := rfl

theorem byteCell_wf {seqIndex seqTotal : UInt16} (b : UInt8) (h : seqIndex.toNat < seqTotal.toNat) :
    (byteCell seqIndex seqTotal b).WF := ⟨rfl, h, show 1 ≤ PAYLOAD_CAPACITY by decide⟩

/-- Sealed by a sender of the toy cipher. -/
theorem exists_openFrom (secret : Key) {seqIndex seqTotal : UInt16} (b : UInt8)
    (h : seqIndex.toNat < seqTotal.toNat) :
    ∃ raw, openFrom toyIdentity raw = some (secret, byteCell seqIndex seqTotal b) := by
  obtain ⟨data, hopen⟩ := exists_envelope Primitives.toy_lawful toyIdentity secret (byteCell_wf b h)
  refine ⟨(Envelope.wrap (Primitives.toy.publicKey secret) data).1, ?_⟩
  simp only [openFrom, Envelope.unwrap_wrap, hopen, Option.map_some]
  rfl

/-- Every byte of such a message is from a cell with this tag. -/
theorem ComposedOf.owner {stream : List (Key × Cell)} {sender : Key} {m : Bytes} (h : ComposedOf stream sender m)
    {b : UInt8} (hb : b ∈ m) : ∃ y ∈ stream, y.1 = sender ∧ b ∈ y.2.payload := by
  obtain ⟨cells, n, hcells, -, rfl⟩ := h
  obtain ⟨c, hc, hbc⟩ := Epoch.mem_message hb
  obtain ⟨y, hy, rfl⟩ := List.mem_map.1 hc
  exact ⟨y, (hcells y hy).1, (hcells y hy).2, hbc⟩

/-- Two messages of two cells each under one id, the first complete before the second begins. -/
def oneAfterTheOther : List (Key × Cell) :=
  [(flatKey 1, byteCell 0 2 1), (flatKey 1, byteCell 1 2 3), (flatKey 2, byteCell 0 2 2), (flatKey 2, byteCell 1 2 4)]

theorem oneAfterTheOther_apart : SendersApart [] oneAfterTheOther := by
  refine ⟨?_, ?_, ?_, ?_, trivial⟩
  · decide
  · decide
  · decide
  · decide

/-- Two senders who use the same id one after the other do not disturb each other, wherever the polls fall. -/
theorem senders_apart_two : ∃ raw₁ raw₂ raw₃ raw₄,
    [raw₁, raw₂, raw₃, raw₄].map (openFrom toyIdentity) = oneAfterTheOther.map some ∧
    ∃ rc outs, (Receiver.new toyIdentity).run [[.ok [raw₁]], [.ok [raw₂, raw₃]], [.ok [raw₄]]] = some (rc, outs) ∧
      messages outs = [[1, 3], [2, 4]] ∧ ComposedOf oneAfterTheOther (flatKey 1) [1, 3] ∧
      ComposedOf oneAfterTheOther (flatKey 2) [2, 4] ∧
      ∃ rc' outs', (Receiver.new toyIdentity).run ([[.ok [raw₁]], [.ok [raw₂, raw₃]], [.ok [raw₄]]].map
        (onlyFrom (flatKey 2))) = some (rc', outs') ∧ messages outs' = [[2, 4]] := by
  obtain ⟨raw₁, h₁⟩ := @exists_openFrom (flatKey 1) 0 2 1 (by decide)
  obtain ⟨raw₂, h₂⟩ := @exists_openFrom (flatKey 1) 1 2 3 (by decide)
  obtain ⟨raw₃, h₃⟩ := @exists_openFrom (flatKey 2) 0 2 2 (by decide)
  obtain ⟨raw₄, h₄⟩ := @exists_openFrom (flatKey 2) 1 2 4 (by decide)
  refine ⟨raw₁, raw₂, raw₃, raw₄, by simp [h₁, h₂, h₃, h₄, oneAfterTheOther], ?_⟩
  have hstream : [[.ok [raw₁]], [.ok [raw₂, raw₃]], [(.ok [raw₄] : PullOutcome)]].flatMap (taggedCalls toyIdentity) =
      oneAfterTheOther := by
    simp [taggedCalls, receive, receiveLoop, drained, h₁, h₂, h₃, h₄, oneAfterTheOther]
  obtain ⟨rc, outs, hrun, completed, hmsgs, hcomposed, honly⟩ := senders_apart (hstream ▸ oneAfterTheOther_apart)
  rw [hstream] at hcomposed
  -- the two messages
  have htwo : completed.map Prod.snd = [[1, 3], [2, 4]] := by
    obtain ⟨rc', outs', hrun', -, -, hmsgs'⟩ := run_new toyIdentity [[.ok [raw₁]], [.ok [raw₂, raw₃]], [.ok [raw₄]]]
    obtain ⟨-, rfl⟩ := Prod.mk.inj (Option.some.inj (hrun.symm.trans hrun'))
    rw [← hmsgs, hmsgs', flatMap_insertCalls, hstream]
    decide
  obtain ⟨⟨k₁, m₁⟩, ⟨k₂, m₂⟩, rfl⟩ := List.length_eq_two.1 (show completed.length = 2 by
    rw [← List.length_map Prod.snd, htwo]
    rfl)
  simp only [List.map_cons, List.map_nil, List.cons.injEq, and_true] at htwo
  obtain ⟨rfl, rfl⟩ := htwo
  -- and their senders
  have hfirst := hcomposed (k₁, [1, 3]) (by simp)
  have hsecond := hcomposed (k₂, [2, 4]) (by simp)
  obtain rfl : flatKey 1 = k₁ := by simpa [oneAfterTheOther, byteCell_payload] using hfirst.owner (b := 1) (by simp)
  obtain rfl : flatKey 2 = k₂ := by simpa [oneAfterTheOther, byteCell_payload] using hsecond.owner (b := 2) (by simp)
  obtain ⟨rc', outs', hrun', hmsgs'⟩ := honly (flatKey 2)
  have hother : flatKey 1 ≠ flatKey 2 := by decide
  exact ⟨rc, outs, hrun, hmsgs, hfirst, hsecond, rc', outs', hrun', by simpa [hother] using hmsgs'⟩

theorem taggedCalls_two {r₁ r₂ : Bytes} {x₁ x₂ : Key × Cell} (h₁ : openFrom toyIdentity r₁ = some x₁)
    (h₂ : openFrom toyIdentity r₂ = some x₂) :
    [[(.ok [r₁, r₂] : PullOutcome)]].flatMap (taggedCalls toyIdentity) = [x₁, x₂] := by
  simp [taggedCalls, receive, receiveLoop, drained, h₁, h₂]

/-- Two senders who each send one half under the same id: the halves are returned as one message, which is neither's. -/
theorem two_senders_mixed : ∃ raw₁ raw₂ rc outs,
    openFrom toyIdentity raw₁ = some (flatKey 1, byteCell 0 2 1) ∧
    openFrom toyIdentity raw₂ = some (flatKey 2, byteCell 1 2 2) ∧
    (Receiver.new toyIdentity).run [[.ok [raw₁, raw₂]]] = some (rc, outs) ∧ messages outs = [[1, 2]] ∧
    ∀ sender, ¬ ComposedOf [(flatKey 1, byteCell 0 2 1), (flatKey 2, byteCell 1 2 2)] sender [1, 2] := by
  obtain ⟨raw₁, h₁⟩ := @exists_openFrom (flatKey 1) 0 2 1 (by decide)
  obtain ⟨raw₂, h₂⟩ := @exists_openFrom (flatKey 2) 1 2 2 (by decide)
  obtain ⟨rc, outs, hrun, -, -, hmsgs⟩ := run_new toyIdentity [[.ok [raw₁, raw₂]]]
  refine ⟨raw₁, raw₂, rc, outs, h₁, h₂, hrun, ?_, ?_⟩
  · rw [hmsgs, flatMap_insertCalls, taggedCalls_two h₁ h₂]
    decide
  · intro sender hcomposed
    have hfirst : flatKey 1 = sender := by simpa [byteCell_payload] using hcomposed.owner (b := 1) (by simp)
    have hsecond : flatKey 2 = sender := by simpa [byteCell_payload] using hcomposed.owner (b := 2) (by simp)
    exact absurd (hfirst.trans hsecond.symm) (by decide)

end VeilFabric
