import VeilFabric.Lib.Wire

/-!
# The fixed-size cell (`veil-core/src/cell.rs`, `error.rs`)

| here | there |
| --- | --- |
| `VeilError`          | `enum VeilError` (error.rs:14), the variants some function returns |
| `Cell`               | `struct Cell` (cell.rs:63); `payloadBuf` is the field `payload`, `Cell.payload` the method |
| `Cell.newData`       | `Cell::new_data` (cell.rs:80) |
| `Cell.newDummy`      | `Cell::new_dummy` (cell.rs:121), the two `fill_bytes` draws as arguments |
| `Cell.toBytes`       | `Cell::to_bytes` (cell.rs:160) |
| `Cell.fromBytes`     | `Cell::from_bytes` (cell.rs:178) |

The fields of a Rust `Cell` are private, so every cell in the program went through `new_data`,
`new_dummy` or `from_bytes`. `Cell.WF` is what these three guarantee (`newData_wf`, `newDummy_wf`,
`fromBytes_wf`), and on well-formed cells the wire format round-trips (`fromBytes_toBytes`). In the other
direction a parsed buffer is written back as it was (`toBytes_of_fromBytes`), so the format is a bijection
(`wire_format_bijective`).
-/

namespace VeilFabric
open Wire

/-! ## Errors -/

inductive VeilError where
  | payloadTooLarge (len max : Nat)
  | invalidSequence (seqIndex seqTotal : UInt16)
  | unsupportedVersion (version : UInt8)
  | invalidCellType (v : UInt8)
  | messageTooLarge (len max : Nat)
  | mismatchedMessageId
  | encryptionFailed
  | decryptionFailed
  | invalidKey (reason : String)
deriving DecidableEq, Repr

/-! ## Layout -/

abbrev CELL_SIZE : Nat := 512
abbrev HEADER_SIZE : Nat := 24
abbrev PAYLOAD_CAPACITY : Nat := CELL_SIZE - HEADER_SIZE
def PROTOCOL_VERSION : UInt8 := 1

inductive CellType where
  | data
  | dummy
deriving DecidableEq, Repr

/-- `self.cell_type as u8` -/
def CellType.toU8 : CellType → UInt8
  | .data => 0
  | .dummy => 1

/-- `CellType::from_u8` (cell.rs:43). -/
def CellType.fromU8 (v : UInt8) : Except VeilError CellType :=
  if v = 0 then .ok .data else if v = 1 then .ok .dummy else .error (.invalidCellType v)

abbrev MessageId := Arr 16

structure Cell where
  version : UInt8
  cellType : CellType
  messageId : MessageId
  seqIndex : UInt16
  seqTotal : UInt16
  payloadLen : UInt16
  payloadBuf : Arr PAYLOAD_CAPACITY
deriving DecidableEq

namespace Cell

/-- `Cell::new_data` (cell.rs:80): the two checks, then the data zero-padded to the capacity. -/
def newData (messageId : MessageId) (seqIndex seqTotal : UInt16) (data : Bytes) : Except VeilError Cell :=
  if h : data.length > PAYLOAD_CAPACITY then .error (.payloadTooLarge data.length PAYLOAD_CAPACITY)
  else if seqTotal = 0 ∨ seqIndex ≥ seqTotal then .error (.invalidSequence seqIndex seqTotal)
  else .ok
    { version := PROTOCOL_VERSION
      cellType := .data
      messageId
      seqIndex
      seqTotal
      payloadLen := UInt16.ofNat data.length
      payloadBuf := ⟨data ++ List.replicate (PAYLOAD_CAPACITY - data.length) 0, by simp; omega⟩ }

/-- `Cell::new_dummy` (cell.rs:121). -/
def newDummy (messageId : MessageId) (payload : Arr PAYLOAD_CAPACITY) : Cell where
  version := PROTOCOL_VERSION
  cellType := .dummy
  messageId
  seqIndex := 0
  seqTotal := 1
  payloadLen := UInt16.ofNat PAYLOAD_CAPACITY
  payloadBuf := payload

/-- `Cell::payload` (cell.rs:155). -/
def payload (c : Cell) : Bytes := c.payloadBuf.1.take c.payloadLen.toNat

/-- `Cell::to_bytes` (cell.rs:160). -/
def toBytes (c : Cell) : Arr CELL_SIZE :=
  ⟨[c.version, c.cellType.toU8] ++ (c.messageId.1 ++ (beBytes 2 c.seqIndex.toNat ++
      (beBytes 2 c.seqTotal.toNat ++ (beBytes 2 c.payloadLen.toNat ++ c.payloadBuf.1)))), by simp; rfl⟩

/-- `u16::from_be_bytes([buf[off], buf[off + 1]])` -/
def u16At (buf : Arr CELL_SIZE) (off : Nat) (h : off + 2 ≤ CELL_SIZE) : UInt16 :=
  UInt16.ofNat (beVal (buf.slice off 2 h).1)

/-- `Cell::from_bytes` (cell.rs:178), with its checks in the source's order. -/
def fromBytes (buf : Arr CELL_SIZE) : Except VeilError Cell := do
  let version := buf.1.getD 0 0
  if version ≠ PROTOCOL_VERSION then throw (.unsupportedVersion version)
  let cellType ← CellType.fromU8 (buf.1.getD 1 0)
  let messageId := buf.slice 2 16 (by decide)
  let seqIndex := u16At buf 18 (by decide)
  let seqTotal := u16At buf 20 (by decide)
  let payloadLen := u16At buf 22 (by decide)
  if payloadLen.toNat > PAYLOAD_CAPACITY then
    throw (.payloadTooLarge payloadLen.toNat PAYLOAD_CAPACITY)
  if seqTotal = 0 ∨ seqIndex ≥ seqTotal then throw (.invalidSequence seqIndex seqTotal)
  let payloadBuf := buf.slice HEADER_SIZE PAYLOAD_CAPACITY (by decide)
  return { version, cellType, messageId, seqIndex, seqTotal, payloadLen, payloadBuf }

/-- What every cell of the program satisfies. -/
structure WF (c : Cell) : Prop where
  version : c.version = PROTOCOL_VERSION
  seq : c.seqIndex.toNat < c.seqTotal.toNat
  len : c.payloadLen.toNat ≤ PAYLOAD_CAPACITY

/-! ## The constructors establish `WF` -/

theorem seq_lt_of_check {i t : UInt16} (h : ¬ (t = 0 ∨ i ≥ t)) : i.toNat < t.toNat := by
  rw [not_or, ge_iff_le, UInt16.not_le] at h
  exact UInt16.lt_iff_toNat_lt.1 h.2

theorem check_of_seq_lt {i t : UInt16} (h : i.toNat < t.toNat) : ¬ (t = 0 ∨ i ≥ t) := by
  rw [not_or, ge_iff_le, UInt16.not_le]
  refine ⟨?_, UInt16.lt_iff_toNat_lt.2 h⟩
  rintro rfl
  simp at h

/-- `new_data` in one equation: within the capacity and with a valid sequence it succeeds, and the
payload read back is the data. -/
theorem newData_ok {id : MessageId} {i t : UInt16} {data : Bytes} (hd : data.length ≤ PAYLOAD_CAPACITY)
    (hs : i.toNat < t.toNat) : ∃ c, newData id i t data = .ok c ∧ c.WF ∧ c.cellType = .data ∧
      c.messageId = id ∧ c.seqIndex = i ∧ c.seqTotal = t ∧ c.payload = data := by
  have hcap : PAYLOAD_CAPACITY = 488 := rfl
  have hlen : data.length % 65536 = data.length := Nat.mod_eq_of_lt (by omega)
  refine ⟨_, by rw [newData, dif_neg (by omega), if_neg (check_of_seq_lt hs)], ⟨rfl, hs, ?_⟩,
    rfl, rfl, rfl, rfl, ?_⟩
  · simp [hlen]; omega
  · simp [payload, hlen]

theorem newData_wf {id : MessageId} {i t : UInt16} {data : Bytes} {c : Cell}
    (h : newData id i t data = .ok c) : c.WF := by
  unfold newData at h
  split at h
  · cases h
  · rename_i hd
    split at h
    · cases h
    · rename_i hs
      cases h
      refine ⟨rfl, seq_lt_of_check hs, ?_⟩
      simp; omega

theorem newDummy_wf (id : MessageId) (payload : Arr PAYLOAD_CAPACITY) : (newDummy id payload).WF :=
  ⟨rfl, Nat.zero_lt_one, Nat.le_refl PAYLOAD_CAPACITY⟩

/-- `from_bytes` in one equation: the checks that must pass, and where each field comes from. -/
theorem fromBytes_eq_ok_iff {buf : Arr CELL_SIZE} {c : Cell} :
    fromBytes buf = .ok c ↔ c.WF ∧ c.version = buf.1.getD 0 0 ∧ CellType.fromU8 (buf.1.getD 1 0) = .ok c.cellType ∧
      c.messageId = buf.slice 2 16 (by decide) ∧ c.seqIndex = u16At buf 18 (by decide) ∧
      c.seqTotal = u16At buf 20 (by decide) ∧ c.payloadLen = u16At buf 22 (by decide) ∧
      c.payloadBuf = buf.slice HEADER_SIZE PAYLOAD_CAPACITY (by decide) := by
  constructor
  · intro h
    simp only [fromBytes, bind, Except.bind, pure, Except.pure, throw, throwThe, MonadExceptOf.throw] at h
    split at h
    · cases h
    · rename_i hv
      split at h
      · cases h
      · rename_i t ht
        split at h
        · cases h
        · rename_i hl
          split at h
          · cases h
          · rename_i hs
            cases h
            exact ⟨⟨by simpa using hv, seq_lt_of_check hs, by simpa using hl⟩, rfl, ht, rfl, rfl, rfl, rfl, rfl⟩
  · rintro ⟨hwf, hv, ht, hid, hi, htot, hl, hb⟩
    have hseq := check_of_seq_lt hwf.seq
    have hlen : ¬ c.payloadLen.toNat > PAYLOAD_CAPACITY := Nat.not_lt.2 hwf.len
    simp only [fromBytes, bind, Except.bind, pure, Except.pure, ← hv, hwf.version, ht, ← hid, ← hi, ← htot, ← hl, ← hb,
      ne_eq, not_true_eq_false, if_false, hlen, hseq]
    congr 1
    rw [← hwf.version]

/-- Inversion of `from_bytes`: a parsed cell passed the four checks. -/
theorem fromBytes_wf {buf : Arr CELL_SIZE} {c : Cell} (h : fromBytes buf = .ok c) : c.WF :=
  (fromBytes_eq_ok_iff.1 h).1

/-! ## Round trip -/

@[simp] theorem CellType_fromU8_toU8 (t : CellType) : CellType.fromU8 t.toU8 = .ok t := by
  cases t <;> rfl

theorem ofNat_beVal_beBytes (x : UInt16) : UInt16.ofNat (beVal (beBytes 2 x.toNat)) = x := by
  rw [beVal_beBytes, Nat.mod_eq_of_lt (by simpa using x.toNat_lt)]
  simp

/-- Reading the header fields of a serialized cell. -/
theorem toBytes_fields (c : Cell) :
    c.toBytes.1.getD 0 0 = c.version ∧ c.toBytes.1.getD 1 0 = c.cellType.toU8 ∧
    c.toBytes.slice 2 16 (by decide) = c.messageId ∧
    u16At c.toBytes 18 (by decide) = c.seqIndex ∧ u16At c.toBytes 20 (by decide) = c.seqTotal ∧
    u16At c.toBytes 22 (by decide) = c.payloadLen ∧
    c.toBytes.slice HEADER_SIZE PAYLOAD_CAPACITY (by decide) = c.payloadBuf := by
  refine ⟨rfl, rfl, Subtype.ext ?_, ?_, ?_, ?_, Subtype.ext ?_⟩
  · exact Arr.slice_val_append _ _ _ _ 2 16 rfl (by simp) (by decide)
  · rw [u16At, ← ofNat_beVal_beBytes c.seqIndex]
    congr 2
    simpa [toBytes] using Arr.slice_val_append ([c.version, c.cellType.toU8] ++ c.messageId.1)
      (beBytes 2 c.seqIndex.toNat) (beBytes 2 c.seqTotal.toNat ++ (beBytes 2 c.payloadLen.toNat ++ c.payloadBuf.1))
      (by simp; rfl) 18 2 (by simp) (by simp) (by decide)
  · rw [u16At, ← ofNat_beVal_beBytes c.seqTotal]
    congr 2
    simpa [toBytes] using Arr.slice_val_append
      ([c.version, c.cellType.toU8] ++ (c.messageId.1 ++ beBytes 2 c.seqIndex.toNat))
      (beBytes 2 c.seqTotal.toNat) (beBytes 2 c.payloadLen.toNat ++ c.payloadBuf.1)
      (by simp; rfl) 20 2 (by simp) (by simp) (by decide)
  · rw [u16At, ← ofNat_beVal_beBytes c.payloadLen]
    congr 2
    simpa [toBytes] using Arr.slice_val_append
      ([c.version, c.cellType.toU8] ++ (c.messageId.1 ++ (beBytes 2 c.seqIndex.toNat ++ beBytes 2 c.seqTotal.toNat)))
      (beBytes 2 c.payloadLen.toNat) c.payloadBuf.1 (by simp; rfl) 22 2 (by simp) (by simp) (by decide)
  · simpa [toBytes] using Arr.slice_val_append
      ([c.version, c.cellType.toU8] ++ (c.messageId.1 ++ (beBytes 2 c.seqIndex.toNat ++
        (beBytes 2 c.seqTotal.toNat ++ beBytes 2 c.payloadLen.toNat))))
      c.payloadBuf.1 [] (by simp; rfl) HEADER_SIZE PAYLOAD_CAPACITY (by simp) (by simp) (by decide)

/-- **The wire format round-trips**: a well-formed cell is parsed back from its bytes, padding included. -/
theorem fromBytes_toBytes {c : Cell} (h : c.WF) : fromBytes c.toBytes = .ok c := by
  obtain ⟨h0, h1, h2, h3, h4, h5, h6⟩ := toBytes_fields c
  refine fromBytes_eq_ok_iff.2 ⟨h, h0.symm, ?_, h2.symm, h3.symm, h4.symm, h5.symm, h6.symm⟩
  rw [h1, CellType_fromU8_toU8]

/-! ## The format is a bijection -/

/-- The three ways to a cell. -/
inductive Obtainable : Cell → Prop
  | newData {id : MessageId} {i t : UInt16} {data : Bytes} {c : Cell} : newData id i t data = .ok c → Obtainable c
  | newDummy (id : MessageId) (payload : Arr PAYLOAD_CAPACITY) : Obtainable (newDummy id payload)
  | fromBytes {buf : Arr CELL_SIZE} {c : Cell} : fromBytes buf = .ok c → Obtainable c

theorem Obtainable.wf {c : Cell} (h : Obtainable c) : c.WF := by
  cases h with
  | newData h => exact newData_wf h
  | newDummy id payload => exact newDummy_wf id payload
  | fromBytes h => exact fromBytes_wf h

theorem toU8_of_fromU8 {v : UInt8} {t : CellType} (h : CellType.fromU8 v = .ok t) : t.toU8 = v := by
  unfold CellType.fromU8 at h
  split at h
  · rename_i hv
    cases h
    exact hv.symm
  · split at h
    · rename_i hv
      cases h
      exact hv.symm
    · cases h

theorem fromU8_isOk_iff {v : UInt8} : (∃ t, CellType.fromU8 v = .ok t) ↔ v = 0 ∨ v = 1 := by
  unfold CellType.fromU8
  by_cases h0 : v = 0
  · simp [h0]
  · by_cases h1 : v = 1 <;> simp [h0, h1]

theorem u16At_toNat (buf : Arr CELL_SIZE) (off : Nat) (h : off + 2 ≤ CELL_SIZE) :
    (u16At buf off h).toNat = beVal (buf.slice off 2 h).1 := by
  have hlt := beVal_lt (buf.slice off 2 h).1
  rw [Arr.length_val] at hlt
  rw [u16At, UInt16.toNat_ofNat', Nat.mod_eq_of_lt (show _ < 2 ^ 16 from hlt)]

/-- The two bytes of a field, from the number read out of them. -/
theorem beBytes_u16At (buf : Arr CELL_SIZE) (off : Nat) (h : off + 2 ≤ CELL_SIZE) :
    beBytes 2 (u16At buf off h).toNat = (buf.slice off 2 h).1 := by
  have hb := beBytes_beVal (buf.slice off 2 h).1
  rwa [Arr.length_val, ← u16At_toNat buf off h] at hb

/-- A buffer is its fields, in order. -/
theorem buf_eq_fields (buf : Arr CELL_SIZE) :
    buf.1 = [buf.1.getD 0 0, buf.1.getD 1 0] ++ ((buf.slice 2 16 (by decide)).1 ++ ((buf.slice 18 2 (by decide)).1 ++
      ((buf.slice 20 2 (by decide)).1 ++ ((buf.slice 22 2 (by decide)).1 ++
        (buf.slice HEADER_SIZE PAYLOAD_CAPACITY (by decide)).1)))) := by
  have hcut : ∀ (off len : Nat), buf.1.drop off = (buf.1.drop off).take len ++ buf.1.drop (off + len) := by
    intro off len
    rw [← List.drop_drop, List.take_append_drop]
  have hrest : (buf.1.drop 24).take PAYLOAD_CAPACITY = buf.1.drop 24 := by
    apply List.take_of_length_le
    rw [List.length_drop, buf.2]
  have htwo : buf.1.take 2 = [buf.1.getD 0 0, buf.1.getD 1 0] := by
    obtain ⟨b, hb⟩ := buf
    match b, hb with
    | x :: y :: l, _ => rfl
  calc buf.1 = buf.1.take 2 ++ buf.1.drop 2 := (List.take_append_drop 2 _).symm
    _ = _ := by
      rw [htwo, hcut 2 16, hcut 18 2, hcut 20 2, hcut 22 2]
      simp only [Arr.slice, hrest]

/-- Parsing loses nothing: the cell is written as the bytes it was read from. -/
theorem toBytes_of_fromBytes {buf : Arr CELL_SIZE} {c : Cell} (h : fromBytes buf = .ok c) : c.toBytes = buf := by
  obtain ⟨-, hv, ht, hid, hi, htot, hl, hb⟩ := fromBytes_eq_ok_iff.1 h
  apply Subtype.ext
  change [c.version, c.cellType.toU8] ++ (c.messageId.1 ++ (beBytes 2 c.seqIndex.toNat ++
    (beBytes 2 c.seqTotal.toNat ++ (beBytes 2 c.payloadLen.toNat ++ c.payloadBuf.1)))) = buf.1
  rw [hv, toU8_of_fromU8 ht, hid, hi, htot, hl, hb, beBytes_u16At, beBytes_u16At, beBytes_u16At]
  exact (buf_eq_fields buf).symm

/-- The byte strings `from_bytes` accepts. -/
theorem fromBytes_isOk_iff (buf : Arr CELL_SIZE) :
    (∃ c, fromBytes buf = .ok c) ↔ buf.1.getD 0 0 = PROTOCOL_VERSION ∧ (buf.1.getD 1 0 = 0 ∨ buf.1.getD 1 0 = 1) ∧
      beVal (buf.slice 22 2 (by decide)).1 ≤ PAYLOAD_CAPACITY ∧
      beVal (buf.slice 18 2 (by decide)).1 < beVal (buf.slice 20 2 (by decide)).1 := by
  simp only [← u16At_toNat]
  constructor
  · rintro ⟨c, h⟩
    obtain ⟨hwf, hv, ht, -, hi, htot, hl, -⟩ := fromBytes_eq_ok_iff.1 h
    rw [← hv, ← hi, ← htot, ← hl]
    exact ⟨hwf.version, fromU8_isOk_iff.1 ⟨_, ht⟩, hwf.len, hwf.seq⟩
  · rintro ⟨hv, ht, hl, hs⟩
    obtain ⟨t, ht⟩ := fromU8_isOk_iff.2 ht
    exact ⟨⟨_, t, _, _, _, _, _⟩, fromBytes_eq_ok_iff.2 ⟨⟨hv, hs, hl⟩, rfl, ht, rfl, rfl, rfl, rfl, rfl⟩⟩

/-- **The cell format is a bijection** between the cells the program can hold and the 512-byte strings with
version 1, a known type, a payload length within the capacity and an index below the total. -/
theorem wire_format_bijective :
    (∀ c, Obtainable c → c.version = 1 ∧ 1 ≤ c.seqTotal.toNat ∧ c.seqIndex.toNat < c.seqTotal.toNat ∧
      c.payloadLen.toNat ≤ 488 ∧ sliceTo c.payloadBuf.1 c.payloadLen.toNat = some c.payload ∧
      fromBytes c.toBytes = .ok c) ∧
    (∀ b c, fromBytes b = .ok c → c.toBytes = b) ∧
    ∀ b, (∃ c, fromBytes b = .ok c) ↔ b.1.getD 0 0 = 1 ∧ (b.1.getD 1 0 = 0 ∨ b.1.getD 1 0 = 1) ∧
      beVal (b.slice 22 2 (by decide)).1 ≤ 488 ∧
      beVal (b.slice 18 2 (by decide)).1 < beVal (b.slice 20 2 (by decide)).1 := by
  refine ⟨?_, fun b c => toBytes_of_fromBytes, fromBytes_isOk_iff⟩
  intro c hc
  have hwf := hc.wf
  refine ⟨hwf.version, Nat.lt_of_le_of_lt (Nat.zero_le _) hwf.seq, hwf.seq, hwf.len, ?_, fromBytes_toBytes hwf⟩
  exact sliceTo_eq (by rw [Arr.length_val]; exact hwf.len)

end Cell
end VeilFabric
