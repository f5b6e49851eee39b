import Mathlib.Data.List.Basic
import Mathlib.Tactic.Ring

/-!
# Bytes on a wire: fixed arrays, big-endian integers, length-prefixed frames, chunks

Nothing here is about one protocol. `beBytes w n` is what Rust's `(n as uN).to_be_bytes()` writes for
`w = N / 8` bytes: the cast wraps, so a length that does not fit is written modulo `256 ^ w`, and
`beVal_beBytes` says exactly that. A *frame* is a `w`-byte length followed by that many bytes;
`readFrame_writeFrame` is the round trip below the wrap, and `readFrame_some` the converse: whatever
the reader accepts is a written frame.
-/

namespace Wire

abbrev Bytes := List UInt8

/-- `[u8; n]`. -/
abbrev Arr (n : Nat) := { b : Bytes // b.length = n }

namespace Arr
variable {n m : Nat}

/-- `[0u8; n]`. -/
def zeros (n : Nat) : Arr n := ⟨List.replicate n 0, by simp⟩

/-- `&b[off .. off + len]` as an array. -/
def slice (b : Arr n) (off len : Nat) (h : off + len ≤ n) : Arr len :=
  ⟨(b.1.drop off).take len, by
    have := b.2
    simp
    omega⟩

/-- `b` followed by `c`. -/
def append (b : Arr n) (c : Arr m) : Arr (n + m) := ⟨b.1 ++ c.1, by simp [b.2, c.2]⟩

@[simp] theorem length_val (b : Arr n) : b.1.length = n := b.2

theorem slice_val_append (pre mid post : Bytes) (h) (off len : Nat) (ho : pre.length = off)
    (hl : mid.length = len) (hn : off + len ≤ n) :
    (slice (⟨pre ++ (mid ++ post), h⟩ : Arr n) off len hn).1 = mid := by
  simp [slice, ← ho, ← hl]

end Arr

/-! ## Slices

Rust checks the range of a slice expression and panics when it is exceeded; here that is `none`. -/

/-- `&b[..n]`. -/
def sliceTo (b : Bytes) (n : Nat) : Option Bytes := if n ≤ b.length then some (b.take n) else none

/-- `&b[n..]`. -/
def sliceFrom (b : Bytes) (n : Nat) : Option Bytes := if n ≤ b.length then some (b.drop n) else none

theorem sliceTo_eq {b : Bytes} {n : Nat} (h : n ≤ b.length) : sliceTo b n = some (b.take n) := if_pos h

theorem sliceFrom_eq {b : Bytes} {n : Nat} (h : n ≤ b.length) : sliceFrom b n = some (b.drop n) := if_pos h

/-! ## Big-endian integers -/

/-- The low `w` bytes of `n`, most significant first. -/
def beBytes : Nat → Nat → Bytes
  | 0, _ => []
  | w + 1, n => UInt8.ofNat (n / 256 ^ w) :: beBytes w n

/-- The number a big-endian byte string spells. -/
def beVal : Bytes → Nat
  | [] => 0
  | b :: bs => b.toNat * 256 ^ bs.length + beVal bs

@[simp] theorem beBytes_length (w n : Nat) : (beBytes w n).length = w := by
  induction w with
  | zero => rfl
  | succ w ih => simp [beBytes, ih]

theorem beVal_lt (b : Bytes) : beVal b < 256 ^ b.length := by
  induction b with
  | nil => simp [beVal]
  | cons x xs ih =>
    have hx : x.toNat ≤ 255 := Nat.le_of_lt_succ x.toNat_lt
    have hmul := Nat.mul_le_mul_right (256 ^ xs.length) hx
    simp only [beVal, List.length_cons, Nat.pow_succ]
    omega

/-- The writer's cast wraps: what is read back is the number modulo the field's range. -/
theorem beVal_beBytes (w n : Nat) : beVal (beBytes w n) = n % 256 ^ w := by
  induction w with
  | zero => simp [beBytes, beVal, Nat.mod_one]
  | succ w ih =>
    have hd : n % 256 ^ (w + 1) = n / 256 ^ w % 256 * 256 ^ w + n % 256 ^ w := by
      rw [Nat.pow_succ, Nat.mod_mul]; ring
    simp only [beBytes, beVal, beBytes_length, ih, hd]
    simp

theorem beBytes_mod (w n : Nat) : beBytes w (n % 256 ^ w) = beBytes w n := by
  suffices h : ∀ k, beBytes w (n % 256 ^ (w + k)) = beBytes w n by simpa using h 0
  intro k
  induction w generalizing k with
  | zero => rfl
  | succ w ih =>
    have hw : w + 1 + k = w + (k + 1) := by omega
    have hdiv : n % 256 ^ (w + (k + 1)) / 256 ^ w % 256 = n / 256 ^ w % 256 := by
      rw [Nat.pow_add, Nat.mod_mul_right_div_self, Nat.pow_succ, Nat.mod_mul_left_mod]
    have hhead : UInt8.ofNat (n % 256 ^ (w + (k + 1)) / 256 ^ w) = UInt8.ofNat (n / 256 ^ w) := by
      apply UInt8.toNat_inj.1
      simpa using hdiv
    simp only [beBytes, hw, hhead, ih (k + 1)]

theorem beBytes_beVal (b : Bytes) : beBytes b.length (beVal b) = b := by
  induction b with
  | nil => rfl
  | cons x xs ih =>
    have hlt := beVal_lt xs
    have hdiv : (x.toNat * 256 ^ xs.length + beVal xs) / 256 ^ xs.length = x.toNat := by
      rw [Nat.mul_comm, Nat.mul_add_div (by omega), Nat.div_eq_of_lt hlt, Nat.add_zero]
    have hmod : (x.toNat * 256 ^ xs.length + beVal xs) % 256 ^ xs.length = beVal xs := by
      rw [Nat.mul_comm, Nat.mul_add_mod, Nat.mod_eq_of_lt hlt]
    simp only [List.length_cons, beBytes, beVal, hdiv]
    rw [← beBytes_mod, hmod, ih]
    simp

/-! ## Length-prefixed frames -/

/-- `w`-byte length, then the body. -/
def writeFrame (w : Nat) (body : Bytes) : Bytes := beBytes w body.length ++ body

/-- `read_exact` of the length, then of the body; `none` is an end of stream inside either. The
result is the body and what is left of the stream. -/
def readFrame (w : Nat) (stream : Bytes) : Option (Bytes × Bytes) :=
  if stream.length < w then none
  else
    let len := beVal (stream.take w)
    let rest := stream.drop w
    if rest.length < len then none else some (rest.take len, rest.drop len)

@[simp] theorem writeFrame_length (w : Nat) (body : Bytes) : (writeFrame w body).length = w + body.length := by
  simp [writeFrame]

/-- Reading a written frame cuts off `body.length % 256 ^ w` bytes of the body: the whole body when
its length fits the field. -/
theorem readFrame_writeFrame_mod (w : Nat) (body rest : Bytes) :
    readFrame w (writeFrame w body ++ rest) =
      some (body.take (body.length % 256 ^ w), body.drop (body.length % 256 ^ w) ++ rest) := by
  have hle : body.length % 256 ^ w ≤ body.length := Nat.mod_le _ _
  have htake : (writeFrame w body ++ rest).take w = beBytes w body.length := by
    simp [writeFrame]
  have hdrop : (writeFrame w body ++ rest).drop w = body ++ rest := by
    simp [writeFrame]
  have h1 : ¬ (writeFrame w body ++ rest).length < w := by simp; omega
  have h2 : ¬ (body ++ rest).length < body.length % 256 ^ w := by simp; omega
  simp only [readFrame, h1, htake, hdrop, beVal_beBytes, h2, if_false]
  rw [List.take_append_of_le_length hle, List.drop_append_of_le_length hle]

theorem readFrame_writeFrame {w : Nat} {body : Bytes} (h : body.length < 256 ^ w) (rest : Bytes) :
    readFrame w (writeFrame w body ++ rest) = some (body, rest) := by
  rw [readFrame_writeFrame_mod, Nat.mod_eq_of_lt h]; simp

/-- What the reader accepts is a frame the writer could have written. -/
theorem readFrame_some {w : Nat} {stream body rest : Bytes} (h : readFrame w stream = some (body, rest)) :
    stream = writeFrame w body ++ rest ∧ body.length < 256 ^ w := by
  unfold readFrame at h
  split at h
  · cases h
  · rename_i hw
    simp only at h
    split at h
    · cases h
    · rename_i hl
      simp only [Option.some.injEq, Prod.mk.injEq] at h
      obtain ⟨rfl, rfl⟩ := h
      have htw : (stream.take w).length = w := by simp; omega
      have hlt := beVal_lt (stream.take w)
      rw [htw] at hlt
      have hbl : ((stream.drop w).take (beVal (stream.take w))).length = beVal (stream.take w) := by
        simp at hl ⊢; omega
      refine ⟨?_, by rw [hbl]; exact hlt⟩
      have hb := beBytes_beVal (stream.take w)
      rw [htw] at hb
      rw [writeFrame, hbl, hb, List.append_assoc, List.take_append_drop, List.take_append_drop]

theorem readFrame_shorter {w : Nat} (hw : 0 < w) {stream body rest : Bytes}
    (h : readFrame w stream = some (body, rest)) : rest.length < stream.length := by
  obtain ⟨rfl, -⟩ := readFrame_some h
  simp; omega

/-! ## UTF-8 text -/

/-- `s.as_bytes()`. -/
def utf8 (s : String) : Bytes := s.toByteArray.data.toList

/-- `String::from_utf8`. -/
def fromUtf8 (b : Bytes) : Option String := String.fromUTF8? ⟨b.toArray⟩

@[simp] theorem fromUtf8_utf8 (s : String) : fromUtf8 (utf8 s) = some s := by
  simp [fromUtf8, utf8, String.fromUTF8?, String.fromUTF8, s.isValidUTF8]

/-- Only the bytes of a string are read as that string. -/
theorem utf8_of_fromUtf8 {b : Bytes} {s : String} (h : fromUtf8 b = some s) : utf8 s = b := by
  unfold fromUtf8 String.fromUTF8? at h
  split at h
  · cases h
    simp [utf8, String.fromUTF8]
  · cases h

/-- `"a".repeat(n)`. -/
def repeatA : Nat → String
  | 0 => ""
  | n + 1 => (repeatA n).push 'a'

theorem utf8_length (s : String) : (utf8 s).length = s.utf8ByteSize := by simp [utf8]

theorem toList_repeatA (n : Nat) : (repeatA n).toList = List.replicate n 'a' := by
  induction n with
  | zero => rfl
  | succ n ih => rw [repeatA, String.toList_push, ih, List.replicate_succ']

theorem utf8_repeatA_length (n : Nat) : (utf8 (repeatA n)).length = n := by
  induction n with
  | zero => rfl
  | succ n ih =>
    rw [utf8_length] at ih
    rw [utf8_length, repeatA, String.utf8ByteSize_push, ih]
    rfl

/-! ## Chunks -/

/-- Rust's `slice::chunks(k)`: consecutive pieces of `k` bytes, the last one shorter when `k` does not
divide the length. -/
def chunks {α : Type} (k : Nat) (l : List α) : List (List α) :=
  (List.range ((l.length + k - 1) / k)).map fun i => (l.drop (i * k)).take k

section
variable {α : Type} {k : Nat} {l : List α}

@[simp] theorem chunks_length : (chunks k l).length = (l.length + k - 1) / k := by simp [chunks]

theorem chunks_getElem {i : Nat} (h : i < (chunks k l).length) : (chunks k l)[i] = (l.drop (i * k)).take k := by
  simp [chunks]

/-- The pieces, put together again, are the list. -/
theorem chunks_flatten (hk : 0 < k) : (chunks k l).flatten = l := by
  have hpre : ∀ n, ((List.range n).map fun i => (l.drop (i * k)).take k).flatten = l.take (n * k) := by
    intro n
    induction n with
    | zero => simp
    | succ n ih =>
      rw [List.range_succ, List.map_append, List.flatten_append, ih, Nat.succ_mul, List.take_add]
      simp
  have hcover : l.length ≤ (l.length + k - 1) / k * k := by
    have h1 := Nat.div_add_mod (l.length + k - 1) k
    have h2 := Nat.mod_lt (l.length + k - 1) hk
    rw [Nat.mul_comm] at h1
    omega
  rw [chunks, hpre, List.take_of_length_le hcover]

end

end Wire
