import VeilFabric.Core.Fragmentation
import VeilFabric.Core.Reassembly

/-!
# Fragmented messages through the reassembler

What the reassembler does with the cells of fragmented messages, in any order, interleaved, incomplete
or repeated. The argument is about one message id at a time (`Reassembly.lean` says the others do not
matter): as long as the stream carries only the message's own cells under its id (`Only`), the epoch is
a list of these cells, an insert never errs, and the message comes out exactly at the inserts that
complete it.

* `insertAll_any_order` — repetition-free streams of several messages: each complete message comes out
  once, at its last cell, and `pending_count` counts the partial ones.
* `completesOnce_iff` — one message with repetitions: it comes out exactly once and nothing stays
  pending iff no cell follows the one that completed it. The entry is forgotten at completion, so a
  late duplicate opens a new epoch.
-/

namespace VeilFabric
open Wire

/-- A message accepted by `fragment_message`, with the id drawn for it and its cells. -/
structure SentMessage where
  id : MessageId
  bytes : Bytes
  cells : List Cell
  sent : fragmentMessage bytes id = .ok cells

namespace SentMessage
variable (x : SentMessage)

theorem frag : Fragmented x.id x.bytes x.cells := fragmentMessage_fragmented x.sent

/-- The one cell of `b"hi"`. -/
def hiCell : Cell where
  version := PROTOCOL_VERSION
  cellType := .data
  messageId := Arr.zeros 16
  seqIndex := 0
  seqTotal := 1
  payloadLen := 2
  payloadBuf := ⟨[104, 105] ++ List.replicate (PAYLOAD_CAPACITY - 2) 0, by
    rw [List.length_append, List.length_replicate]
    rfl⟩

/-- `b"hi"`, which fits one cell. -/
def hi : SentMessage := ⟨Arr.zeros 16, [104, 105], [hiCell], rfl⟩

theorem fragment_replicate (id : MessageId) (b : UInt8) :
    ∃ c d, fragmentMessage (List.replicate 489 b) id = .ok [c, d] := by
  have hlen : (List.replicate 489 b).length = 489 := List.length_replicate
  have hne : List.replicate 489 b ≠ [] := List.ne_nil_of_length_pos (by omega)
  have hcap : PAYLOAD_CAPACITY = 488 := rfl
  obtain ⟨cells, hcells, hcount, -⟩ := fragmentMessage_cells id hne (by rw [hlen]; decide)
  obtain ⟨c, d, rfl⟩ := List.length_eq_two.1 (show cells.length = 2 by rw [hcount, hlen, hcap])
  exact ⟨c, d, hcells⟩

/-- A message of one byte more than a cell holds, in two cells. -/
def twoCells (b : UInt8) : SentMessage where
  id := ⟨List.replicate 16 b, List.length_replicate⟩
  bytes := List.replicate 489 b
  cells := (fragmentMessage (List.replicate 489 b) ⟨List.replicate 16 b, List.length_replicate⟩).toOption.getD []
  sent := by
    obtain ⟨c, d, h⟩ := fragment_replicate ⟨List.replicate 16 b, List.length_replicate⟩ b
    rw [h]
    rfl

theorem twoCells_cells (b : UInt8) : ∃ c d, (twoCells b).cells = [c, d] := by
  obtain ⟨c, d, h⟩ := fragment_replicate (twoCells b).id b
  exact ⟨c, d, Except.ok.inj ((twoCells b).sent.symm.trans h)⟩

theorem twoCells_id_inj {a b : UInt8} (h : (twoCells a).id = (twoCells b).id) : a = b :=
  (List.replicate_inj.1 (congrArg Subtype.val h)).2.resolve_left (by decide)

/-- Under the message's id, `cs` carries its own cells only. -/
def Only (cs : List Cell) : Prop := ∀ c ∈ cs, c.messageId = x.id → c ∈ x.cells

variable {x}

theorem Only.append_left {xs ys : List Cell} (h : x.Only (xs ++ ys)) : x.Only xs :=
  fun c hc => h c (by simp [hc])

theorem Only.of_mem_snoc {xs : List Cell} {c : Cell} (h : x.Only (xs ++ [c])) (hc : c.messageId = x.id) :
    c ∈ x.cells := h c (by simp) hc

/-! ## One epoch of the message's own cells -/

theorem payloadAt_own {e : Epoch} (he : e ⊆ x.cells) {c : Cell} (hc : c ∈ x.cells) :
    e.payloadAt c.seqIndex.toNat = if c ∈ e then some c.payload else none := by
  by_cases hce : c ∈ e
  · rw [if_pos hce, Epoch.payloadAt]
    obtain ⟨d, hd⟩ := Option.isSome_iff_exists.1
      (List.find?_isSome (p := fun d : Cell => d.seqIndex.toNat = c.seqIndex.toNat).2 ⟨c, hce, by simp⟩)
    have hidx : d.seqIndex.toNat = c.seqIndex.toNat := by simpa using List.find?_some hd
    rw [hd, x.frag.index_inj (he (List.mem_of_find?_eq_some hd)) hc hidx]
    rfl
  · rw [if_neg hce, ← Option.not_isSome_iff_eq_none, Epoch.payloadAt_isSome]
    rintro ⟨d, hd, hidx⟩
    rw [x.frag.index_inj (he hd) hc hidx] at hd
    exact hce hd

theorem covers_own {e : Epoch} (he : e ⊆ x.cells) : e.Covers x.cells.length ↔ x.cells ⊆ e := by
  constructor
  · intro hcov c hc
    have hsome := hcov _ (x.frag.index_lt hc)
    rw [payloadAt_own he hc] at hsome
    by_contra hce
    simp [hce] at hsome
  · intro hsub i hi
    have hmem := List.getElem_mem hi
    rw [← x.frag.index i hi, payloadAt_own he hmem, if_pos (hsub hmem)]
    rfl

theorem message_own {e : Epoch} (he : e ⊆ x.cells) (hsub : x.cells ⊆ e) :
    e.message x.cells.length = x.bytes := by
  rw [Epoch.message, ← x.frag.joined]
  congr 1
  apply List.ext_getElem (by simp)
  intro i h1 h2
  have hi : i < x.cells.length := by simpa using h2
  have hmem := List.getElem_mem hi
  have hpay := payloadAt_own he hmem
  rw [x.frag.index i hi, if_pos (hsub hmem)] at hpay
  simp [hpay]

theorem total_own {e : Epoch} (he : e ⊆ x.cells) {c : Cell} (hc : c ∈ x.cells) : Epoch.total e c = c.seqTotal := by
  cases e with
  | nil => rfl
  | cons d ds => exact x.frag.seqTotal_eq (he (by simp)) hc

/-- The insert that covers every cell hands the message out. -/
theorem insert_completes {e : Epoch} (he : e ⊆ x.cells) {c : Cell} (hc : c ∈ x.cells)
    (hsub : x.cells ⊆ e ++ [c]) : Epoch.insert e c = ([], .ok (some x.bytes)) := by
  have he' : e ++ [c] ⊆ x.cells := List.append_subset.2 ⟨he, by simpa using hc⟩
  rw [Epoch.insert, if_neg (not_not.2 (total_own he hc)), x.frag.total c hc, if_pos ((covers_own he').2 hsub),
    message_own he' hsub]

/-- Any other insert of a cell of the message is accepted silently. -/
theorem insert_continues {e : Epoch} (he : e ⊆ x.cells) {c : Cell} (hc : c ∈ x.cells)
    (hsub : ¬ x.cells ⊆ e ++ [c]) : Epoch.insert e c = (e ++ [c], .ok none) := by
  have he' : e ++ [c] ⊆ x.cells := List.append_subset.2 ⟨he, by simpa using hc⟩
  rw [Epoch.insert, if_neg (not_not.2 (total_own he hc)), x.frag.total c hc,
    if_neg fun h => hsub ((covers_own he').1 h)]

/-! ## Streams that carry only the message's own cells under its id -/

/-- The message's epoch holds its own cells. -/
theorem epochAfter_subset {cs : List Cell} (h : x.Only cs) : epochAfter cs x.id ⊆ x.cells := by
  induction cs using List.reverseRecOn with
  | nil => simp [epochAfter, epochOf, epochSpec]
  | append_singleton cs c ih =>
    have ih := ih h.append_left
    by_cases hid : c.messageId = x.id
    · have hc := h.of_mem_snoc hid
      have hsnoc := epochAfter_snoc_self cs c
      rw [hid] at hsnoc
      rw [hsnoc]
      by_cases hsub : x.cells ⊆ epochAfter cs x.id ++ [c]
      · rw [insert_completes ih hc hsub]; simp
      · rw [insert_continues ih hc hsub]
        exact List.append_subset.2 ⟨ih, by simpa using hc⟩
    · rwa [epochAfter_snoc_ne cs hid]

/-- What inserting one of its cells does to the message's epoch, and returns. -/
theorem step_own {cs : List Cell} {c : Cell} (h : x.Only cs) (hc : c ∈ x.cells) :
    (x.cells ⊆ epochAfter cs x.id ++ [c] ∧ resultAfter cs c = .ok (some x.bytes) ∧
      epochAfter (cs ++ [c]) x.id = []) ∨
    (¬ x.cells ⊆ epochAfter cs x.id ++ [c] ∧ resultAfter cs c = .ok none ∧
      epochAfter (cs ++ [c]) x.id = epochAfter cs x.id ++ [c]) := by
  have hid := x.frag.id c hc
  have hsnoc := epochAfter_snoc_self cs c
  have hsub := epochAfter_subset h
  rw [hid] at hsnoc
  rw [resultAfter, hid, hsnoc]
  by_cases hcov : x.cells ⊆ epochAfter cs x.id ++ [c]
  · rw [insert_completes hsub hc hcov]; exact .inl ⟨hcov, rfl, rfl⟩
  · rw [insert_continues hsub hc hcov]; exact .inr ⟨hcov, rfl, rfl⟩

/-- Completeness can be read off the part of the stream under the message's id. -/
theorem subset_filter_snoc {cs : List Cell} {c : Cell} :
    x.cells ⊆ (cs.filter fun c => c.messageId = x.id) ++ [c] ↔ x.cells ⊆ cs ++ [c] := by
  constructor <;> intro h d hd <;> have hmem := h hd <;>
    simp only [List.mem_append, List.mem_filter, x.frag.id d hd, decide_true, and_true] at hmem ⊢ <;> exact hmem

/-- Until every cell has arrived, the epoch is everything that arrived. -/
theorem epochAfter_incomplete {cs : List Cell} (h : x.Only cs) (hinc : ¬ x.cells ⊆ cs) :
    epochAfter cs x.id = cs.filter fun c => c.messageId = x.id := by
  induction cs using List.reverseRecOn with
  | nil => rfl
  | append_singleton cs c ih =>
    have ih := ih h.append_left fun hsub => hinc (List.subset_append_of_subset_left _ hsub)
    by_cases hid : c.messageId = x.id
    · rcases step_own h.append_left (h.of_mem_snoc hid) with ⟨hsub, -, -⟩ | ⟨-, -, he⟩
      · rw [ih, subset_filter_snoc] at hsub
        exact absurd hsub hinc
      · rw [he, ih, List.filter_append]; simp [hid]
    · rw [epochAfter_snoc_ne cs hid, ih, List.filter_append]; simp [hid]

/-- The cell that completes the message for the first time returns it. -/
theorem resultAfter_first {cs : List Cell} {c : Cell} (h : x.Only cs) (hc : c ∈ x.cells)
    (hinc : ¬ x.cells ⊆ cs) (hsub : x.cells ⊆ cs ++ [c]) :
    resultAfter cs c = .ok (some x.bytes) ∧ epochAfter (cs ++ [c]) x.id = [] := by
  rcases step_own h hc with ⟨-, hr, he⟩ | ⟨hno, -, -⟩
  · exact ⟨hr, he⟩
  · rw [epochAfter_incomplete h hinc, subset_filter_snoc] at hno
    exact absurd hsub hno

/-- Before that, its cells return nothing. -/
theorem resultAfter_incomplete {cs : List Cell} {c : Cell} (h : x.Only cs) (hc : c ∈ x.cells)
    (hinc : ¬ x.cells ⊆ cs ++ [c]) : resultAfter cs c = .ok none := by
  rcases step_own h hc with ⟨hsub, -, -⟩ | ⟨-, hr, -⟩
  · rw [epochAfter_incomplete h fun hsub => hinc (List.subset_append_of_subset_left _ hsub),
      subset_filter_snoc] at hsub
    exact absurd hsub hinc
  · exact hr

/-- **A message all of whose cells are in the stream comes out of it.** -/
theorem mem_results_of_complete {cs : List Cell} (h : x.Only cs) (hsub : x.cells ⊆ cs) :
    .ok (some x.bytes) ∈ results [] cs := by
  induction cs using List.reverseRecOn with
  | nil =>
    have hpos := x.frag.nonempty
    rw [List.subset_nil.1 hsub] at hpos
    simp at hpos
  | append_singleton cs c ih =>
    rw [results_append, List.mem_append]
    by_cases hcs : x.cells ⊆ cs
    · exact .inl (ih h.append_left hcs)
    · right
      have hc : c ∈ x.cells := by
        by_contra hc
        refine hcs fun d hd => ?_
        rcases List.mem_append.1 (hsub hd) with hd' | hd'
        · exact hd'
        · rw [List.mem_singleton.1 hd'] at hd; exact absurd hd hc
      simp [results, (resultAfter_first h.append_left hc hcs hsub).1]

/-! ## Repetition-free streams -/

/-- Some but not all of the message's cells are in the stream. -/
def Partly (x : SentMessage) (cs : List Cell) : Prop := (∃ c ∈ x.cells, c ∈ cs) ∧ ¬ ∀ c ∈ x.cells, c ∈ cs

instance (x : SentMessage) (cs : List Cell) : Decidable (x.Partly cs) := inferInstanceAs (Decidable (_ ∧ _))

/-- Without repetitions nothing of the message follows its completion. -/
theorem epochAfter_complete {cs : List Cell} (hnd : cs.Nodup) (h : x.Only cs) (hsub : x.cells ⊆ cs) :
    epochAfter cs x.id = [] := by
  induction cs using List.reverseRecOn with
  | nil => rfl
  | append_singleton cs c ih =>
    obtain ⟨hnd', -, hfresh⟩ := List.nodup_append.1 hnd
    by_cases hid : c.messageId = x.id
    · have hc := h.of_mem_snoc hid
      exact (resultAfter_first h.append_left hc (fun hcs => hfresh c (hcs hc) c (by simp) rfl) hsub).2
    · rw [epochAfter_snoc_ne cs hid]
      refine ih hnd' h.append_left fun d hd => ?_
      rcases List.mem_append.1 (hsub hd) with hd' | hd'
      · exact hd'
      · rw [List.mem_singleton.1 hd'] at hd
        exact absurd (x.frag.id c hd) hid

theorem epochAfter_ne_nil_iff {cs : List Cell} (hnd : cs.Nodup) (h : x.Only cs) :
    epochAfter cs x.id ≠ [] ↔ x.Partly cs := by
  by_cases hsub : x.cells ⊆ cs
  · simp only [epochAfter_complete hnd h hsub, ne_eq, not_true_eq_false, Partly, false_iff, not_and, not_not]
    exact fun _ => hsub
  · rw [epochAfter_incomplete h hsub, ne_eq, List.filter_eq_nil_iff]
    have hsome : (¬ ∀ c ∈ cs, ¬ decide (c.messageId = x.id) = true) ↔ ∃ c ∈ cs, c.messageId = x.id := by simp
    rw [hsome]
    constructor
    · rintro ⟨c, hc, hid⟩
      exact ⟨⟨c, h c hc hid, hc⟩, hsub⟩
    · rintro ⟨⟨c, hc, hcs⟩, -⟩
      exact ⟨c, hcs, x.frag.id c hc⟩

end SentMessage

/-- An id no cell of the stream carries has no epoch. -/
theorem epochAfter_foreign {cs : List Cell} {id : MessageId} (h : ∀ c ∈ cs, c.messageId ≠ id) :
    epochAfter cs id = [] := by
  induction cs using List.reverseRecOn with
  | nil => rfl
  | append_singleton cs c ih =>
    rw [epochAfter_snoc_ne cs (h c (by simp))]
    exact ih fun d hd => h d (by simp [hd])

/-! ## Several messages at once -/

section Collection
variable {msgs : List SentMessage} {cs : List Cell}

/-- The stream draws its cells from the messages. -/
def Drawn (msgs : List SentMessage) (cs : List Cell) : Prop := ∀ c ∈ cs, ∃ x ∈ msgs, c ∈ x.cells

theorem Drawn.wf (h : Drawn msgs cs) : ∀ c ∈ cs, c.WF := fun c hc => by
  obtain ⟨x, -, hx⟩ := h c hc
  exact x.frag.wf c hx

/-- Distinct ids: a cell under a message's id is a cell of that message. -/
theorem Drawn.only (hids : (msgs.map SentMessage.id).Nodup) (h : Drawn msgs cs) {x : SentMessage} (hx : x ∈ msgs) :
    x.Only cs := by
  intro c hc hid
  obtain ⟨y, hy, hcy⟩ := h c hc
  have hxy : y = x := List.inj_on_of_nodup_map hids hy hx ((y.frag.id c hcy).symm.trans hid)
  rwa [← hxy]

/-- In a repetition-free stream a cell returns its message iff the cells up to and including it
complete the message, and nothing otherwise. -/
theorem resultAfter_drawn (hids : (msgs.map SentMessage.id).Nodup) {c : Cell} (hnd : (cs ++ [c]).Nodup)
    (h : Drawn msgs (cs ++ [c])) {x : SentMessage} (hx : x ∈ msgs) (hc : c ∈ x.cells) :
    (x.cells ⊆ cs ++ [c] ∧ resultAfter cs c = .ok (some x.bytes)) ∨
    (¬ x.cells ⊆ cs ++ [c] ∧ resultAfter cs c = .ok none) := by
  have honly := (h.only hids hx).append_left
  obtain ⟨-, -, hfresh⟩ := List.nodup_append.1 hnd
  by_cases hsub : x.cells ⊆ cs ++ [c]
  · exact .inl ⟨hsub, (SentMessage.resultAfter_first honly hc (fun hcs => hfresh c (hcs hc) c (by simp) rfl) hsub).1⟩
  · exact .inr ⟨hsub, SentMessage.resultAfter_incomplete honly hc hsub⟩

/-- `pending_count` counts the messages that have arrived in part. -/
theorem pendingCount_drawn (hids : (msgs.map SentMessage.id).Nodup) (hnd : cs.Nodup) (h : Drawn msgs cs)
    {r : Reassembler} (hr : Agrees r (cs.map .insert)) :
    r.pendingCount = (msgs.filter fun x => x.Partly cs).length := by
  have hopen : ∀ id, epochOf (cs.map .insert) id ≠ [] → id ∈ (msgs.map SentMessage.id).toFinset := by
    intro id hid
    by_contra hno
    refine hid (epochAfter_foreign fun c hc he => hno ?_)
    obtain ⟨x, hx, hcx⟩ := h c hc
    exact List.mem_toFinset.2 (List.mem_map.2 ⟨x, hx, (x.frag.id c hcx).symm.trans he⟩)
  have hfilter : (msgs.map SentMessage.id).toFinset.filter (fun id => epochOf (cs.map .insert) id ≠ []) =
      ((msgs.filter fun x => x.Partly cs).map SentMessage.id).toFinset := by
    ext id
    simp only [Finset.mem_filter, List.mem_toFinset, List.mem_map, List.mem_filter, decide_eq_true_eq]
    constructor
    · rintro ⟨⟨x, hx, rfl⟩, hne⟩
      exact ⟨x, ⟨hx, (SentMessage.epochAfter_ne_nil_iff hnd (h.only hids hx)).1 hne⟩, rfl⟩
    · rintro ⟨x, ⟨hx, hp⟩, rfl⟩
      exact ⟨⟨x, hx, rfl⟩, (SentMessage.epochAfter_ne_nil_iff hnd (h.only hids hx)).2 hp⟩
  rw [pendingCount_eq hr hopen, hfilter, List.toFinset_card_of_nodup, List.length_map]
  exact List.Nodup.sublist (List.filter_sublist.map _) hids

end Collection

/-- The `k`-th insert of the run returned the message `x`: the cell is one of `x`'s and the result its bytes. -/
def ReturnedAt (cs : List Cell) (os : List (Except VeilError (Option Bytes))) (x : SentMessage) (k : Nat) : Prop :=
  ∃ c, cs[k]? = some c ∧ c ∈ x.cells ∧ os[k]? = some (.ok (some x.bytes))

/-- A stream cut at one of its cells. -/
theorem take_snoc_of_getElem? {cs : List Cell} {k : Nat} {c : Cell} (h : cs[k]? = some c) :
    cs.take k ++ [c] = cs.take (k + 1) := by
  rw [List.take_add_one, h]; rfl

/-- A list that contains all of `s` has a first prefix that does; it ends with an element of `s`. -/
theorem exists_completing {s : List Cell} (hs : s ≠ []) {cs : List Cell} (hsub : s ⊆ cs) :
    ∃ k c, cs[k]? = some c ∧ c ∈ s ∧ s ⊆ cs.take (k + 1) := by
  induction cs using List.reverseRecOn with
  | nil => exact absurd (List.subset_nil.1 hsub) hs
  | append_singleton cs c ih =>
    by_cases hcs : s ⊆ cs
    · obtain ⟨k, d, hk, hd, htake⟩ := ih hcs
      have hlt : k < cs.length := (List.getElem?_eq_some_iff.1 hk).1
      refine ⟨k, d, by rw [List.getElem?_append_left hlt, hk], hd, ?_⟩
      rwa [List.take_append_of_le_length hlt]
    · have hc : c ∈ s := by
        by_contra hc
        refine hcs fun d hd => ?_
        rcases List.mem_append.1 (hsub hd) with hd' | hd'
        · exact hd'
        · rw [List.mem_singleton.1 hd'] at hd; exact absurd hd hc
      exact ⟨cs.length, c, by simp, hc, by rwa [List.take_of_length_le (by simp)]⟩

section Collection
variable {msgs : List SentMessage} {cs : List Cell} (hids : (msgs.map SentMessage.id).Nodup) (hnd : cs.Nodup)
  (h : Drawn msgs cs)
include hids hnd h

/-- The result of the `k`-th insert. -/
theorem results_drawn {k : Nat} {c : Cell} {x : SentMessage} (hk : cs[k]? = some c) (hx : x ∈ msgs)
    (hc : c ∈ x.cells) :
    (x.cells ⊆ cs.take (k + 1) ∧ (results [] cs)[k]? = some (.ok (some x.bytes))) ∨
    (¬ x.cells ⊆ cs.take (k + 1) ∧ (results [] cs)[k]? = some (.ok none)) := by
  have hcut := take_snoc_of_getElem? hk
  have hnd' : (cs.take k ++ [c]).Nodup := hcut ▸ List.Nodup.sublist (List.take_sublist _ _) hnd
  have hdr' : Drawn msgs (cs.take k ++ [c]) := hcut ▸ fun d hd => h d (List.mem_of_mem_take hd)
  have hres := resultAfter_drawn hids hnd' hdr' hx hc
  rw [hcut] at hres
  simpa [results_getElem?, hk] using hres

theorem returnedAt_iff {x : SentMessage} (hx : x ∈ msgs) (k : Nat) :
    ReturnedAt cs (results [] cs) x k ↔ ∃ c, cs[k]? = some c ∧ c ∈ x.cells ∧ x.cells ⊆ cs.take (k + 1) := by
  constructor
  · rintro ⟨c, hk, hc, ho⟩
    rcases results_drawn hids hnd h hk hx hc with ⟨hsub, -⟩ | ⟨-, ho'⟩
    · exact ⟨c, hk, hc, hsub⟩
    · rw [ho] at ho'; cases ho'
  · rintro ⟨c, hk, hc, hsub⟩
    rcases results_drawn hids hnd h hk hx hc with ⟨-, ho⟩ | ⟨hno, -⟩
    · exact ⟨c, hk, hc, ho⟩
    · exact absurd hsub hno

/-- A message is returned at its last cell. -/
theorem returnedAt_last {x : SentMessage} (hx : x ∈ msgs) {k : Nat} (hret : ReturnedAt cs (results [] cs) x k)
    {j : Nat} {c : Cell} (hj : cs[j]? = some c) (hc : c ∈ x.cells) : j ≤ k := by
  obtain ⟨-, -, -, hsub⟩ := (returnedAt_iff hids hnd h hx k).1 hret
  obtain ⟨i, hi, hci⟩ := List.getElem_of_mem (hsub hc)
  obtain ⟨hjl, hcj⟩ := List.getElem?_eq_some_iff.1 hj
  rw [List.length_take] at hi
  rw [List.getElem_take] at hci
  have hij : i = j := (List.Nodup.getElem_inj_iff hnd).1 (hci.trans hcj.symm)
  omega

end Collection

/-- **Any-order, interleaved reassembly.** The cells of any fragmented messages with distinct ids, in any
order, without repetition and possibly with some missing, inserted one by one into a fresh
reassembler: no insert errs; what is returned is always the message of the cell just inserted; a
message is returned iff all its cells occur, at exactly one insert, which is that of its last cell; and
after every prefix `pending_count` is the number of messages that have arrived in part. -/
theorem insertAll_any_order (msgs : List SentMessage) (hids : (msgs.map SentMessage.id).Nodup)
    (cs : List Cell) (hnd : cs.Nodup) (hdrawn : ∀ c ∈ cs, ∃ x ∈ msgs, c ∈ x.cells) :
    ∃ r os, Reassembler.new.insertAll cs = some (r, os) ∧ os.length = cs.length ∧
      (∀ o ∈ os, ∃ m, o = .ok m) ∧
      (∀ k m, os[k]? = some (.ok (some m)) → ∃ x ∈ msgs, ReturnedAt cs os x k ∧ m = x.bytes) ∧
      (∀ x ∈ msgs, (∃ k, ReturnedAt cs os x k) ↔ x.cells ⊆ cs) ∧
      (∀ x ∈ msgs, ∀ k, ReturnedAt cs os x k →
        (∀ j, ReturnedAt cs os x j → j = k) ∧ ∀ j c, cs[j]? = some c → c ∈ x.cells → j ≤ k) ∧
      ∀ k ≤ cs.length, ∃ r' os', Reassembler.new.insertAll (cs.take k) = some (r', os') ∧
        r'.pendingCount = (msgs.filter fun x => x.Partly (cs.take k)).length := by
  have h : Drawn msgs cs := hdrawn
  obtain ⟨r, hrun, -⟩ := insertAll_new h.wf
  refine ⟨r, results [] cs, hrun, by simp, ?_, ?_, ?_, ?_, ?_⟩
  · intro o ho
    obtain ⟨k, hk⟩ := List.mem_iff_getElem?.1 ho
    obtain ⟨c, hc, -⟩ := Option.map_eq_some_iff.1 (results_getElem? [] cs k ▸ hk)
    obtain ⟨x, hx, hcx⟩ := h c (List.mem_of_getElem? hc)
    rcases results_drawn hids hnd h hc hx hcx with ⟨-, ho'⟩ | ⟨-, ho'⟩
    · exact ⟨_, Option.some.inj (hk.symm.trans ho')⟩
    · exact ⟨_, Option.some.inj (hk.symm.trans ho')⟩
  · intro k m hk
    obtain ⟨c, hc, -⟩ := Option.map_eq_some_iff.1 (results_getElem? [] cs k ▸ hk)
    obtain ⟨x, hx, hcx⟩ := h c (List.mem_of_getElem? hc)
    rcases results_drawn hids hnd h hc hx hcx with ⟨-, ho⟩ | ⟨-, ho⟩
    · rw [hk] at ho
      cases ho
      exact ⟨x, hx, ⟨c, hc, hcx, hk⟩, rfl⟩
    · rw [hk] at ho; cases ho
  · intro x hx
    constructor
    · rintro ⟨k, hret⟩
      obtain ⟨-, -, -, hsub⟩ := (returnedAt_iff hids hnd h hx k).1 hret
      exact fun c hc => List.mem_of_mem_take (hsub hc)
    · intro hsub
      obtain ⟨k, c, hk, hc, htake⟩ := exists_completing (List.ne_nil_of_length_pos x.frag.nonempty) hsub
      exact ⟨k, (returnedAt_iff hids hnd h hx k).2 ⟨c, hk, hc, htake⟩⟩
  · intro x hx k hret
    refine ⟨fun j hret' => ?_, fun j c hj hc => returnedAt_last hids hnd h hx hret hj hc⟩
    obtain ⟨c, hk, hc, -⟩ := id hret
    obtain ⟨d, hj, hd, -⟩ := id hret'
    exact Nat.le_antisymm (returnedAt_last hids hnd h hx hret hj hd) (returnedAt_last hids hnd h hx hret' hk hc)
  · intro k _
    have hdk : Drawn msgs (cs.take k) := fun c hc => h c (List.mem_of_mem_take hc)
    obtain ⟨r', hrun', hag⟩ := insertAll_new hdk.wf
    exact ⟨r', _, hrun', pendingCount_drawn hids (List.Nodup.sublist (List.take_sublist _ _) hnd) hdk hag⟩

/-- The cells of two such messages. -/
theorem SentMessage.twoCells_apart : ∃ c d e f, (twoCells 1).cells = [c, d] ∧ (twoCells 2).cells = [e, f] ∧
    [c, d, e, f].Nodup := by
  obtain ⟨c, d, hx⟩ := twoCells_cells 1
  obtain ⟨e, f, hy⟩ := twoCells_cells 2
  have hapart : ∀ a ∈ [c, d], ∀ b ∈ [e, f], a ≠ b := by
    rintro a ha b hb rfl
    rw [← hx] at ha
    rw [← hy] at hb
    have hid := ((twoCells 1).frag.id a ha).symm.trans ((twoCells 2).frag.id a hb)
    exact absurd (twoCells_id_inj hid) (by decide)
  exact ⟨c, d, e, f, hx, hy, List.nodup_append.2 ⟨hx ▸ (twoCells 1).frag.nodup, hy ▸ (twoCells 2).frag.nodup, hapart⟩⟩

open SentMessage in
/-- The second cells of two messages, then the first of one: this one comes out, and the other stays pending. -/
theorem insertAll_any_order_two : ∃ c d e f, (twoCells 1).cells = [c, d] ∧ (twoCells 2).cells = [e, f] ∧
    ∃ r os, Reassembler.new.insertAll [d, f, c] = some (r, os) ∧ os.length = 3 ∧
      ReturnedAt [d, f, c] os (twoCells 1) 2 ∧ (¬ ∃ k, ReturnedAt [d, f, c] os (twoCells 2) k) ∧ r.pendingCount = 1 := by
  obtain ⟨c, d, e, f, hx, hy, hnd⟩ := twoCells_apart
  simp only [List.nodup_cons, List.mem_cons, List.not_mem_nil, or_false, not_or, List.nodup_nil, not_false_eq_true,
    and_true] at hnd
  obtain ⟨⟨hcd, hce, hcf⟩, ⟨hde, hdf⟩, hef⟩ := hnd
  have hids : ([twoCells 1, twoCells 2].map SentMessage.id).Nodup := by
    have hne : (twoCells 1).id ≠ (twoCells 2).id := fun h => absurd (twoCells_id_inj h) (by decide)
    simpa using hne
  have hnd' : [d, f, c].Nodup := by simp [hdf, Ne.symm hcd, Ne.symm hcf]
  have hdrawn : ∀ b ∈ [d, f, c], ∃ m ∈ [twoCells 1, twoCells 2], b ∈ m.cells := by
    simp [hx, hy]
  obtain ⟨r, os, hrun, hlen, -, -, hret, hlast, hpending⟩ := insertAll_any_order _ hids [d, f, c] hnd' hdrawn
  have hdone : (twoCells 1).cells ⊆ [d, f, c] := by simp [hx]
  have hmissing : ¬ (twoCells 2).cells ⊆ [d, f, c] := by simp [hy, Ne.symm hce, Ne.symm hde, hef]
  obtain ⟨k, hk⟩ := (hret (twoCells 1) (by simp)).2 hdone
  have hat : k = 2 := by
    have hle := (hlast (twoCells 1) (by simp) k hk).2 2 c rfl (by simp [hx])
    obtain ⟨b, hb, -⟩ := hk
    have hlt := (List.getElem?_eq_some_iff.1 hb).1
    simp only [List.length_cons, List.length_nil] at hlt
    omega
  obtain ⟨r', os', hrun', hcount⟩ := hpending 3 (by simp)
  obtain ⟨rfl, rfl⟩ := Prod.mk.inj (Option.some.inj (hrun'.symm.trans hrun))
  refine ⟨c, d, e, f, hx, hy, r', os', hrun, hlen, hat ▸ hk, ?_, ?_⟩
  · exact fun hsome => hmissing ((hret (twoCells 2) (by simp)).1 hsome)
  · have hxdone : ¬ (twoCells 1).Partly [d, f, c] := fun h => h.2 fun b hb => hdone hb
    have hypart : (twoCells 2).Partly [d, f, c] := ⟨⟨f, by simp [hy], by simp⟩, fun h => hmissing fun b hb => h b hb⟩
    rw [hcount]
    simp [hxdone, hypart]

/-! ## One message, with repetitions -/

/-- The messages a run of inserts returned, in order. -/
def returned (os : List (Except VeilError (Option Bytes))) : List Bytes :=
  os.filterMap fun o => match o with
    | .ok m => m
    | .error _ => none

theorem returned_cons (o : Except VeilError (Option Bytes)) (os : List (Except VeilError (Option Bytes))) :
    returned (o :: os) = returned [o] ++ returned os := List.filterMap_append (l := [o])

theorem mem_returned_singleton {o : Except VeilError (Option Bytes)} {m : Bytes} :
    m ∈ returned [o] ↔ o = .ok (some m) := by
  rcases o with e | _ | b <;> simp [returned, eq_comm]

/-- Inserted into a fresh reassembler, the stream returns the message exactly once and leaves nothing
pending. -/
def CompletesOnce (x : SentMessage) (cs : List Cell) : Prop :=
  ∃ r os, Reassembler.new.insertAll cs = some (r, os) ∧ returned os = [x.bytes] ∧ r.pendingCount = 0

section Repeated
variable {x : SentMessage} {cs : List Cell} (hown : cs ⊆ x.cells)
include hown

theorem only_of_subset : x.Only cs := fun _ hc _ => hown hc

theorem wf_of_subset : ∀ c ∈ cs, c.WF := fun c hc => x.frag.wf c (hown hc)

/-- Only the message's own id can be pending. -/
theorem pendingCount_own {r : Reassembler} (hr : Agrees r (cs.map .insert)) :
    r.pendingCount = 0 ↔ epochAfter cs x.id = [] := by
  have hopen : ∀ id, epochOf (cs.map .insert) id ≠ [] → id ∈ ({x.id} : Finset MessageId) := by
    intro id hid
    by_contra hno
    refine hid (epochAfter_foreign fun c hc he => hno ?_)
    rw [← he, x.frag.id c (hown hc)]
    simp
  rw [pendingCount_eq hr hopen, Finset.card_eq_zero, Finset.filter_singleton]
  by_cases he : epochAfter cs x.id = [] <;> simp [he]

/-- Before the message is complete, nothing is returned. -/
theorem returned_incomplete (hinc : ¬ x.cells ⊆ cs) : returned (results [] cs) = [] := by
  rw [returned, List.filterMap_eq_nil_iff]
  intro o ho
  obtain ⟨pre, c, post, rfl, rfl⟩ := mem_results ho
  have hc : c ∈ x.cells := hown (by simp)
  have hpre : x.Only pre := fun d hd _ => hown (by simp [hd])
  have hinc' : ¬ x.cells ⊆ pre ++ [c] := fun hsub => hinc fun d hd => by
    have := hsub hd
    simp only [List.mem_append, List.mem_cons] at this ⊢
    tauto
  simp [SentMessage.resultAfter_incomplete hpre hc hinc']

end Repeated

theorem returned_snoc (past : List Cell) (c : Cell) :
    returned (results [] (past ++ [c])) = returned (results [] past) ++ returned [resultAfter past c] := by
  rw [results_append, returned, List.filterMap_append]
  simp [returned, results]

/-- A repetition-free stream of cells of messages with distinct ids returns the messages all of whose cells it
has, each once, and nothing else. -/
theorem returned_family {ι : Type} {x : ι → SentMessage} (hids : Function.Injective fun i => (x i).id) {cs : List Cell}
    (hnd : cs.Nodup) (hcs : ∀ c ∈ cs, ∃ i, c ∈ (x i).cells) :
    ∃ is : List ι, is.Nodup ∧ returned (results [] cs) = is.map (fun i => (x i).bytes) ∧
      ∀ i, i ∈ is ↔ (x i).cells ⊆ cs := by
  induction cs using List.reverseRecOn with
  | nil =>
    refine ⟨[], List.nodup_nil, rfl, fun i => ⟨nofun, fun hsub => ?_⟩⟩
    have hpos := (x i).frag.nonempty
    rw [List.subset_nil.1 hsub] at hpos
    simp at hpos
  | append_singleton cs c ih =>
    obtain ⟨hnd', -, hfresh⟩ := List.nodup_append.1 hnd
    obtain ⟨is, his, hret, hmem⟩ := ih hnd' fun d hd => hcs d (by simp [hd])
    obtain ⟨i, hi⟩ := hcs c (by simp)
    have honly : (x i).Only cs := by
      intro d hd hid
      obtain ⟨j, hj⟩ := hcs d (by simp [hd])
      rwa [← hids (((x j).frag.id d hj).symm.trans hid)]
    have hinc : ¬ (x i).cells ⊆ cs := fun hsub => hfresh c (hsub hi) c (by simp) rfl
    -- the cell changes nothing for the other messages
    have hother : ∀ j, j ≠ i → ((x j).cells ⊆ cs ++ [c] ↔ (x j).cells ⊆ cs) := by
      refine fun j hj => ⟨fun hsub d hd => ?_, fun hsub => List.subset_append_of_subset_left _ hsub⟩
      rcases List.mem_append.1 (hsub hd) with hd' | hd'
      · exact hd'
      · rw [List.mem_singleton.1 hd'] at hd
        exact absurd (hids (((x j).frag.id c hd).symm.trans ((x i).frag.id c hi))) hj
    rw [returned_snoc, hret]
    by_cases hsub : (x i).cells ⊆ cs ++ [c]
    · refine ⟨is ++ [i], ?_, ?_, fun j => ?_⟩
      · rw [List.nodup_append]
        refine ⟨his, List.nodup_singleton i, fun a ha b hb => ?_⟩
        rintro rfl
        rw [List.mem_singleton.1 hb] at ha
        exact hinc ((hmem i).1 ha)
      · rw [(SentMessage.resultAfter_first honly hi hinc hsub).1]
        simp [returned]
      · rw [List.mem_append, List.mem_singleton, hmem j]
        by_cases hj : j = i
        · subst hj
          exact ⟨fun _ => hsub, fun _ => .inr rfl⟩
        · rw [hother j hj]
          exact ⟨fun h => h.resolve_right hj, .inl⟩
    · refine ⟨is, his, ?_, fun j => ?_⟩
      · rw [SentMessage.resultAfter_incomplete honly hi hsub]
        simp [returned]
      · rw [hmem j]
        by_cases hj : j = i
        · subst hj
          exact ⟨fun h => absurd h hinc, fun h => absurd h hsub⟩
        · exact (hother j hj).symm

/-- Once all messages of the stream are complete, nothing is pending. -/
theorem pendingCount_family {ι : Type} {x : ι → SentMessage} (hids : Function.Injective fun i => (x i).id)
    {cs : List Cell} (hnd : cs.Nodup) (hcs : ∀ c ∈ cs, ∃ i, c ∈ (x i).cells) (hall : ∀ i, (x i).cells ⊆ cs)
    {r : Reassembler} (hr : Agrees r (cs.map .insert)) : r.pendingCount = 0 := by
  have hclosed : ∀ id, epochOf (cs.map .insert) id ≠ [] → id ∈ (∅ : Finset MessageId) := by
    intro id hne
    refine absurd ?_ hne
    by_cases hid : ∃ i, (x i).id = id
    · obtain ⟨i, rfl⟩ := hid
      refine SentMessage.epochAfter_complete hnd (fun c hc he => ?_) (hall i)
      obtain ⟨j, hj⟩ := hcs c hc
      rwa [← hids (((x j).frag.id c hj).symm.trans he)]
    · refine epochAfter_foreign fun c hc he => hid ?_
      obtain ⟨i, hi⟩ := hcs c hc
      exact ⟨i, ((x i).frag.id c hi).symm.trans he⟩
  rw [pendingCount_eq hr hclosed]
  rfl

/-- A cell after the completing one either returns the message a second time or reopens an entry. -/
theorem not_completesOnce_of_late {x : SentMessage} {cs : List Cell} {c : Cell} (hown : cs ++ [c] ⊆ x.cells)
    (hlate : x.cells ⊆ cs) : ¬ CompletesOnce x (cs ++ [c]) := by
  rintro ⟨r, os, hrun, hret, hpend⟩
  have hcs : cs ⊆ x.cells := fun d hd => hown (by simp [hd])
  have hc : c ∈ x.cells := hown (by simp)
  obtain ⟨r', hrun', hag⟩ := insertAll_new (wf_of_subset hown)
  obtain ⟨rfl, rfl⟩ := Prod.mk.inj (Option.some.inj (hrun'.symm.trans hrun))
  have hclosed := (pendingCount_own hown hag).1 hpend
  have hfirst : x.bytes ∈ returned (results [] cs) :=
    List.mem_filterMap.2 ⟨_, SentMessage.mem_results_of_complete (only_of_subset hcs) hlate, rfl⟩
  have hone := List.length_pos_of_mem hfirst
  rw [returned_snoc] at hret
  rcases SentMessage.step_own (only_of_subset hcs) hc with ⟨-, hr, -⟩ | ⟨-, -, he⟩
  · have hlen := congrArg List.length hret
    have hagain : (returned [resultAfter cs c]).length = 1 := by rw [hr]; rfl
    rw [List.length_append, hagain, List.length_singleton] at hlen
    omega
  · rw [he] at hclosed
    simp at hclosed

/-- **Exactly-once completion under duplicates.** A stream of a message's own cells in which each occurs,
repeated at will, returns the message exactly once and leaves nothing pending iff its last cell is the
one that completes it: no cell comes after the last missing one. -/
theorem completesOnce_iff (x : SentMessage) (cs : List Cell) (hown : cs ⊆ x.cells) (hall : x.cells ⊆ cs) :
    CompletesOnce x cs ↔ ¬ x.cells ⊆ cs.dropLast := by
  have hne : cs ≠ [] := by
    rintro rfl
    have := x.frag.nonempty
    rw [List.subset_nil.1 hall] at this
    simp at this
  obtain ⟨init, c, rfl⟩ : ∃ init c, cs = init ++ [c] := ⟨_, _, (List.dropLast_append_getLast hne).symm⟩
  rw [List.dropLast_concat]
  refine ⟨fun honce hlate => not_completesOnce_of_late hown hlate honce, fun hinc => ?_⟩
  have hinit : init ⊆ x.cells := fun d hd => hown (by simp [hd])
  have hc : c ∈ x.cells := hown (by simp)
  obtain ⟨r, hrun, hag⟩ := insertAll_new (wf_of_subset hown)
  obtain ⟨hres, hclosed⟩ := SentMessage.resultAfter_first (only_of_subset hinit) hc hinc hall
  refine ⟨r, _, hrun, ?_, (pendingCount_own hown hag).2 hclosed⟩
  rw [returned_snoc, returned_incomplete hinit hinc, hres]
  rfl

open SentMessage in
/-- Two cells, the first of them twice before the second. -/
theorem completesOnce_repeated : ∃ c d, (twoCells 1).cells = [c, d] ∧ CompletesOnce (twoCells 1) [c, c, d] := by
  obtain ⟨c, d, hcells⟩ := twoCells_cells 1
  have hne : d ≠ c := by
    have hnd := (twoCells 1).frag.nodup
    rw [hcells] at hnd
    simpa [eq_comm] using hnd
  refine ⟨c, d, hcells, (completesOnce_iff (twoCells 1) [c, c, d] ?_ ?_).2 ?_⟩
  · simp [hcells]
  · simp [hcells]
  · simp [hcells, hne]

/-- The one cell of `b"hi"` twice: both inserts return the message. -/
theorem hi_completes_twice : ¬ ∀ (x : SentMessage) (cs : List Cell), cs ⊆ x.cells → x.cells ⊆ cs →
    CompletesOnce x cs := by
  intro h
  have hown : SentMessage.hi.cells ++ SentMessage.hi.cells ⊆ SentMessage.hi.cells := by simp
  exact not_completesOnce_of_late hown (fun _ h => h) (h .hi _ hown (by simp))

end VeilFabric
