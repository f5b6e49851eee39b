import VeilFabric.Core.Cell
import Mathlib.Data.List.Forall2

/-!
# Fragmentation (`veil-core/src/fragmentation.rs`)

`fragmentMessage` is `fragment_message` (fragmentation.rs:25) with the message id it draws from the
random source as an argument. `Fragmented id message cells` is its layout, stated once: cell `i` of
`n` carries index `i`, total `n` and the `i`-th chunk, so neither `as u16` cast loses anything even at
the limit of 65 535 cells, and the payloads in order are the message. `fragmentMessage_ok` and
`fragmentMessage_fragmented` connect the two; everything downstream uses the layout only.
-/

namespace VeilFabric
open Wire

/-- `MAX_MESSAGE_SIZE` (fragmentation.rs:11). -/
abbrev MAX_MESSAGE_SIZE : Nat := PAYLOAD_CAPACITY * 65535

/-- `fragment_message` (fragmentation.rs:25). -/
def fragmentMessage (message : Bytes) (messageId : MessageId) : Except VeilError (List Cell) :=
  if message.isEmpty then .error (.messageTooLarge 0 MAX_MESSAGE_SIZE)
  else if message.length > MAX_MESSAGE_SIZE then .error (.messageTooLarge message.length MAX_MESSAGE_SIZE)
  else
    -- `message.len().div_ceil(PAYLOAD_CAPACITY) as u16`
    let totalCells := (message.length + PAYLOAD_CAPACITY - 1) / PAYLOAD_CAPACITY
    let seqTotal := UInt16.ofNat totalCells
    (chunks PAYLOAD_CAPACITY message).zipIdx.mapM fun (chunk, i) =>
      Cell.newData messageId (UInt16.ofNat i) seqTotal chunk

/-- The cells of one fragmented message. -/
structure Fragmented (id : MessageId) (message : Bytes) (cells : List Cell) : Prop where
  nonempty : 0 < cells.length
  fits : cells.length ≤ 65535
  wf : ∀ c ∈ cells, c.WF
  data : ∀ c ∈ cells, c.cellType = .data
  id : ∀ c ∈ cells, c.messageId = id
  total : ∀ c ∈ cells, c.seqTotal.toNat = cells.length
  index : ∀ i (h : i < cells.length), cells[i].seqIndex.toNat = i
  joined : (cells.map Cell.payload).flatten = message

/-! ## `fragment_message` produces the layout -/

/-- A loop of fallible steps none of which fails collects one result for each input. -/
theorem mapM_ok {α β ε : Type} {f : α → Except ε β} {R : α → β → Prop} :
    ∀ {l : List α}, (∀ x ∈ l, ∃ y, f x = .ok y ∧ R x y) → ∃ ys, l.mapM f = .ok ys ∧ List.Forall₂ R l ys
  | [], _ => ⟨[], rfl, .nil⟩
  | x :: l, h => by
    obtain ⟨y, hy, hr⟩ := h x (by simp)
    obtain ⟨ys, hys, hrs⟩ := mapM_ok (l := l) fun z hz => h z (by simp [hz])
    refine ⟨y :: ys, ?_, .cons hr hrs⟩
    rw [List.mapM_cons, hy, hys]
    rfl

theorem chunk_length_le {message : Bytes} {chunk : Bytes} (h : chunk ∈ chunks PAYLOAD_CAPACITY message) :
    chunk.length ≤ PAYLOAD_CAPACITY := by
  obtain ⟨i, hi, rfl⟩ := List.getElem_of_mem h
  rw [chunks_getElem]
  simp

/-- `MAX_MESSAGE_SIZE` is what 65 535 cells hold. -/
theorem cellCount_bounds {message : Bytes} (h0 : message ≠ []) (hm : message.length ≤ MAX_MESSAGE_SIZE) :
    0 < (message.length + PAYLOAD_CAPACITY - 1) / PAYLOAD_CAPACITY ∧
    (message.length + PAYLOAD_CAPACITY - 1) / PAYLOAD_CAPACITY ≤ 65535 := by
  have hp := List.length_pos_of_ne_nil h0
  have hcap : PAYLOAD_CAPACITY = 488 := rfl
  simp only [MAX_MESSAGE_SIZE, hcap] at hm ⊢
  omega

/-- What the `i`-th turn of the loop pushes. -/
def PushedCell (id : MessageId) (n : Nat) (x : Bytes × Nat) (c : Cell) : Prop :=
  c.WF ∧ c.cellType = .data ∧ c.messageId = id ∧ c.seqIndex.toNat = x.2 ∧ c.seqTotal.toNat = n ∧ c.payload = x.1

/-- The `Cell::new_data` error inside the loop is not reached: neither `as u16` cast truncates. -/
theorem newData_pushed {message : Bytes} (id : MessageId) (h0 : message ≠ [])
    (hm : message.length ≤ MAX_MESSAGE_SIZE) :
    ∀ x ∈ (chunks PAYLOAD_CAPACITY message).zipIdx, ∃ c,
      Cell.newData id (UInt16.ofNat x.2)
        (UInt16.ofNat ((message.length + PAYLOAD_CAPACITY - 1) / PAYLOAD_CAPACITY)) x.1 = .ok c ∧
      PushedCell id ((message.length + PAYLOAD_CAPACITY - 1) / PAYLOAD_CAPACITY) x c := by
  obtain ⟨-, hle⟩ := cellCount_bounds h0 hm
  set n := (message.length + PAYLOAD_CAPACITY - 1) / PAYLOAD_CAPACITY with hn
  have hlen : (chunks PAYLOAD_CAPACITY message).length = n := chunks_length
  rintro ⟨chunk, i⟩ hx
  have hi : i < n := by
    have := List.snd_lt_of_mem_zipIdx hx
    omega
  have hchunk : chunk ∈ chunks PAYLOAD_CAPACITY message := List.fst_mem_of_mem_zipIdx hx
  have hi16 : i % 65536 = i := Nat.mod_eq_of_lt (by omega)
  have hn16 : n % 65536 = n := Nat.mod_eq_of_lt (by omega)
  obtain ⟨c, hc, hwf, hty, hid, hix, htot, hp⟩ := @Cell.newData_ok id (UInt16.ofNat i)
    (UInt16.ofNat n) chunk (chunk_length_le hchunk) (by simpa [hi16, hn16] using hi)
  exact ⟨c, hc, hwf, hty, hid, by simp [hix, hi16], by simp [htot, hn16], hp⟩

/-- The cells of a message of 1 to `MAX_MESSAGE_SIZE` bytes, turn by turn of the loop. -/
theorem fragmentMessage_cells {message : Bytes} (id : MessageId) (h0 : message ≠ [])
    (hm : message.length ≤ MAX_MESSAGE_SIZE) :
    ∃ cells, fragmentMessage message id = .ok cells ∧
      cells.length = (message.length + PAYLOAD_CAPACITY - 1) / PAYLOAD_CAPACITY ∧
      ∀ i (h : i < cells.length),
        PushedCell id cells.length ((message.drop (i * PAYLOAD_CAPACITY)).take PAYLOAD_CAPACITY, i) cells[i] := by
  obtain ⟨cells, hcells, hall⟩ := mapM_ok (newData_pushed id h0 hm)
  have hcl : cells.length = (message.length + PAYLOAD_CAPACITY - 1) / PAYLOAD_CAPACITY := by
    have := hall.length_eq
    simpa using this.symm
  refine ⟨cells, ?_, hcl, ?_⟩
  · rw [fragmentMessage, if_neg (by simpa using h0), if_neg (by omega)]
    exact hcells
  · intro i h
    have := (List.forall₂_iff_get.1 hall).2 i (by simpa [hcl] using h) h
    rw [hcl]
    simpa [chunks_getElem] using this

/-- **`fragment_message` succeeds on every message of 1 to `MAX_MESSAGE_SIZE` bytes**, with the layout
of `Fragmented`. -/
theorem fragmentMessage_ok {message : Bytes} (id : MessageId) (h0 : message ≠ [])
    (hm : message.length ≤ MAX_MESSAGE_SIZE) :
    ∃ cells, fragmentMessage message id = .ok cells ∧ Fragmented id message cells := by
  obtain ⟨cells, hcells, hcl, hget⟩ := fragmentMessage_cells id h0 hm
  obtain ⟨hpos, hle⟩ := cellCount_bounds h0 hm
  have hmem : ∀ c ∈ cells, ∃ x, PushedCell id cells.length x c := fun c hc => by
    obtain ⟨i, hi, rfl⟩ := List.getElem_of_mem hc
    exact ⟨_, hget i hi⟩
  refine ⟨cells, hcells, by omega, by omega, fun c hc => ?_, fun c hc => ?_, fun c hc => ?_, fun c hc => ?_,
    fun i h => (hget i h).2.2.2.1, ?_⟩
  · obtain ⟨x, hx⟩ := hmem c hc; exact hx.1
  · obtain ⟨x, hx⟩ := hmem c hc; exact hx.2.1
  · obtain ⟨x, hx⟩ := hmem c hc; exact hx.2.2.1
  · obtain ⟨x, hx⟩ := hmem c hc; exact hx.2.2.2.2.1
  · have hmap : cells.map Cell.payload = chunks PAYLOAD_CAPACITY message := by
      apply List.ext_getElem (by simp [hcl])
      intro i h1 h2
      rw [List.getElem_map, chunks_getElem]
      exact (hget i (by simpa using h1)).2.2.2.2.2
    rw [hmap, chunks_flatten (by decide)]

/-- Conversely a successful call was given a message of 1 to `MAX_MESSAGE_SIZE` bytes. -/
theorem fragmentMessage_bounds {message : Bytes} {id : MessageId} {cells : List Cell}
    (h : fragmentMessage message id = .ok cells) : message ≠ [] ∧ message.length ≤ MAX_MESSAGE_SIZE := by
  unfold fragmentMessage at h
  split at h
  · cases h
  · rename_i h0
    split at h
    · cases h
    · rename_i hm
      exact ⟨by simpa using h0, by omega⟩

theorem fragmentMessage_fragmented {message : Bytes} {id : MessageId} {cells : List Cell}
    (h : fragmentMessage message id = .ok cells) : Fragmented id message cells := by
  obtain ⟨h0, hm⟩ := fragmentMessage_bounds h
  obtain ⟨cells', h', hf⟩ := fragmentMessage_ok id h0 hm
  rw [h] at h'
  cases h'
  exact hf

/-- The only error of `fragment_message` is the one of its two length checks. -/
theorem fragmentMessage_error_iff {message : Bytes} {id : MessageId} {e : VeilError} :
    fragmentMessage message id = .error e ↔
      (message = [] ∨ MAX_MESSAGE_SIZE < message.length) ∧ e = .messageTooLarge message.length MAX_MESSAGE_SIZE := by
  by_cases h0 : message = []
  · subst h0
    simp [fragmentMessage, eq_comm]
  by_cases hm : MAX_MESSAGE_SIZE < message.length
  · rw [fragmentMessage, if_neg (by simpa using h0), if_pos hm]
    simp [h0, hm, eq_comm]
  · obtain ⟨cells, hcells, -⟩ := fragmentMessage_ok id h0 (by omega)
    simp [hcells, h0, hm]

/-- The payload of cell `i`: full for every cell but the last, and never empty. -/
theorem chunk_length {len n i : Nat} (hn : n = (len + PAYLOAD_CAPACITY - 1) / PAYLOAD_CAPACITY) (hi : i < n) :
    (i + 1 < n → min PAYLOAD_CAPACITY (len - i * PAYLOAD_CAPACITY) = PAYLOAD_CAPACITY) ∧
    1 ≤ min PAYLOAD_CAPACITY (len - i * PAYLOAD_CAPACITY) ∧
    min PAYLOAD_CAPACITY (len - i * PAYLOAD_CAPACITY) ≤ PAYLOAD_CAPACITY := by
  have hcap : PAYLOAD_CAPACITY = 488 := rfl
  simp only [hcap] at hn ⊢
  omega

/-- **The layout of `fragment_message` at every length.** It fails exactly on the empty message and above
`MAX_MESSAGE_SIZE`; else no `Cell::new_data` of the loop fails, and the cells are
`ceil(len / PAYLOAD_CAPACITY)` data cells of one id, numbered without truncation, all full but the last. -/
theorem fragmentMessage_layout (message : Bytes) (id : MessageId) :
    ((∃ e, fragmentMessage message id = .error e) ↔ message = [] ∨ MAX_MESSAGE_SIZE < message.length) ∧
    (message ≠ [] → message.length ≤ MAX_MESSAGE_SIZE →
      ∀ x ∈ (chunks PAYLOAD_CAPACITY message).zipIdx, ∃ c, Cell.newData id (UInt16.ofNat x.2)
        (UInt16.ofNat ((message.length + PAYLOAD_CAPACITY - 1) / PAYLOAD_CAPACITY)) x.1 = .ok c) ∧
    ∀ cells, fragmentMessage message id = .ok cells →
      cells.length = (message.length + PAYLOAD_CAPACITY - 1) / PAYLOAD_CAPACITY ∧
      cells.length ≤ 65535 ∧
      (∀ i (h : i < cells.length),
        cells[i].cellType = .data ∧ cells[i].messageId = id ∧
        cells[i].seqIndex.toNat = i ∧ cells[i].seqTotal.toNat = cells.length ∧
        (i + 1 < cells.length → cells[i].payload.length = PAYLOAD_CAPACITY) ∧
        1 ≤ cells[i].payload.length ∧ cells[i].payload.length ≤ PAYLOAD_CAPACITY) ∧
      (cells.map Cell.payload).flatten = message := by
  refine ⟨?_, ?_, ?_⟩
  · simp [fragmentMessage_error_iff]
  · intro h0 hm x hx
    obtain ⟨c, hc, -⟩ := newData_pushed id h0 hm x hx
    exact ⟨c, hc⟩
  · intro cells h
    obtain ⟨h0, hm⟩ := fragmentMessage_bounds h
    obtain ⟨cells', h', hcl, hget⟩ := fragmentMessage_cells id h0 hm
    rw [h] at h'
    cases h'
    have hf := fragmentMessage_fragmented h
    refine ⟨hcl, hf.fits, ?_, hf.joined⟩
    intro i hi
    obtain ⟨-, hty, hid, hix, htot, hp⟩ := hget i hi
    refine ⟨hty, hid, hix, htot, ?_⟩
    rw [hp, List.length_take, List.length_drop]
    exact chunk_length hcl hi

/-! ## Reading the layout -/

namespace Fragmented
variable {id : MessageId} {message : Bytes} {cells : List Cell}

theorem index_lt (h : Fragmented id message cells) {c : Cell} (hc : c ∈ cells) :
    c.seqIndex.toNat < cells.length := by
  have := (h.wf c hc).seq
  rwa [h.total c hc] at this

/-- The cell at its own index. -/
theorem getElem_index (h : Fragmented id message cells) {c : Cell} (hc : c ∈ cells) :
    cells[c.seqIndex.toNat]? = some c := by
  obtain ⟨i, hi, rfl⟩ := List.getElem_of_mem hc
  rw [h.index i hi, List.getElem?_eq_getElem hi]

theorem nodup (h : Fragmented id message cells) : cells.Nodup := by
  refine List.pairwise_iff_getElem.2 fun i j hi hj hlt heq => ?_
  have hindex := h.index i hi
  rw [heq, h.index j hj] at hindex
  omega

/-- Cells of one message with the same index are the same cell. -/
theorem index_inj (h : Fragmented id message cells) {c d : Cell} (hc : c ∈ cells) (hd : d ∈ cells)
    (hi : c.seqIndex.toNat = d.seqIndex.toNat) : c = d := by
  have h1 := h.getElem_index hc
  have h2 := h.getElem_index hd
  rw [hi, h2] at h1
  exact (Option.some.inj h1).symm

theorem seqTotal_eq (h : Fragmented id message cells) {c d : Cell} (hc : c ∈ cells) (hd : d ∈ cells) :
    c.seqTotal = d.seqTotal :=
  UInt16.toNat_inj.1 ((h.total c hc).trans (h.total d hd).symm)

end Fragmented
end VeilFabric
