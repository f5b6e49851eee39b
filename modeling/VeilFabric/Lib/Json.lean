import VeilFabric.Lib.Codec
import VeilFabric.Lib.Text
import Mathlib.Tactic.IntervalCases

/-!
# Printed formats: JSON and hexadecimal

Formats that are marked off by texts and not by counts: `between` puts a value between two texts, `endedBy` is a run of
values up to a text that none of them begins with, `orEmpty` is a list with a text of its own for the empty one.
With them the pretty printer of a JSON record is a `Codec`: numbers in decimal (`decimal`), strings in quotes with their
escapes (`string`), arrays over several lines (`array`). The readers take the printed form only, so they are partial
inverses of the printers, not JSON parsers.

`Hex` is two lower-case digits a byte; the decoder also takes upper case.
-/

namespace Codec
variable {α β γ : Type} [DecidableEq β]

/-- What follows `s`, if the text begins with it. -/
def strip : (s t : List β) → Option (List β)
  | [], t => some t
  | _ :: _, [] => none
  | a :: s, b :: t => if a = b then strip s t else none

theorem strip_eq_some_iff {s t rest : List β} : strip s t = some rest ↔ t = s ++ rest := by
  induction s generalizing t with
  | nil => simp [strip]
  | cons a s ih =>
    cases t with
    | nil => simp [strip]
    | cons b t =>
      by_cases h : a = b
      · subst h
        simp [strip, ih]
      · simp [strip, h, Ne.symm h]

@[simp] theorem strip_append (s rest : List β) : strip s (s ++ rest) = some rest := strip_eq_some_iff.2 rfl

theorem strip_eq_none {s t : List β} (h : ∀ rest, t ≠ s ++ rest) : strip s t = none := by
  cases hs : strip s t with
  | none => rfl
  | some rest => exact absurd (strip_eq_some_iff.1 hs) (h rest)

/-- A reader that reads what is written, made exact: what it read is written again and compared. -/
def checked (encode : α → List β) (read : List β → Option (α × List β))
    (h : ∀ a rest, read (encode a ++ rest) = some (a, rest)) : Codec β α where
  valid _ := True
  encode := encode
  decode s := do
    let (a, rest) ← read s
    if s = encode a ++ rest then some (a, rest) else none
  decode_encode := by
    intro a _ rest
    simp [h]
  of_decode := by
    intro s a rest hread
    obtain ⟨⟨a', rest'⟩, -, hif⟩ := Option.bind_eq_some_iff.1 hread
    dsimp only at hif
    split at hif
    · rename_i hs
      cases hif
      exact ⟨hs, trivial⟩
    · cases hif

/-- A value between two texts. -/
def between (before after : List β) (C : Codec β α) : Codec β α where
  valid := C.valid
  encode a := before ++ (C.encode a ++ after)
  decode s := do
    let s ← strip before s
    let (a, s) ← C.decode s
    let s ← strip after s
    return (a, s)
  decode_encode := by
    intro a ha rest
    simp [C.decode_encode ha]
  of_decode := by
    intro s a rest h
    obtain ⟨s₁, h₁, h⟩ := Option.bind_eq_some_iff.1 h
    obtain ⟨⟨a', s₂⟩, h₂, h⟩ := Option.bind_eq_some_iff.1 h
    obtain ⟨s₃, h₃, h⟩ := Option.bind_eq_some_iff.1 h
    cases h
    obtain ⟨rfl, ha⟩ := C.of_decode h₂
    rw [strip_eq_some_iff.1 h₁, strip_eq_some_iff.1 h₃]
    simp [ha]

/-! ## Runs of values -/

/-- Reads until `stop` stands next. -/
def decodeUntil (C : Codec β α) (stop : List β) : Nat → List β → Option (List α × List β)
  | 0, _ => none
  | fuel + 1, s =>
    match strip stop s with
    | some rest => some ([], rest)
    | none => do
      let (a, s) ← C.decode s
      let (as, s) ← decodeUntil C stop fuel s
      return (a :: as, s)

variable {C : Codec β α} {stop : List β}

theorem decodeUntil_flatMap (hstop : ∀ a rest t, C.encode a ++ rest ≠ stop ++ t) {as : List α} (h : ∀ a ∈ as, C.valid a)
    (rest : List β) {fuel : Nat} (hfuel : as.length < fuel) :
    C.decodeUntil stop fuel (as.flatMap C.encode ++ (stop ++ rest)) = some (as, rest) := by
  induction as generalizing fuel with
  | nil =>
    obtain ⟨fuel, rfl⟩ : ∃ n, fuel = n + 1 := ⟨fuel - 1, by simp at hfuel; omega⟩
    simp [decodeUntil]
  | cons a as ih =>
    obtain ⟨fuel, rfl⟩ : ∃ n, fuel = n + 1 := ⟨fuel - 1, by simp at hfuel; omega⟩
    have hlt : as.length < fuel := by simpa using hfuel
    have hrest := ih (fun b hb => h b (by simp [hb])) hlt
    rw [List.flatMap_cons, List.append_assoc, decodeUntil, strip_eq_none (hstop a _)]
    simp only [C.decode_encode (h a (by simp)), Option.bind_eq_bind, Option.bind_some, hrest]
    rfl

theorem of_decodeUntil {fuel : Nat} {s : List β} {as : List α} {rest : List β}
    (h : C.decodeUntil stop fuel s = some (as, rest)) :
    s = as.flatMap C.encode ++ (stop ++ rest) ∧ ∀ a ∈ as, C.valid a := by
  induction fuel generalizing s as with
  | zero => cases h
  | succ fuel ih =>
    rw [decodeUntil] at h
    cases hs : strip stop s with
    | some rest' =>
      rw [hs] at h
      cases h
      have heq := strip_eq_some_iff.1 hs
      exact ⟨by simpa using heq, by simp⟩
    | none =>
      rw [hs] at h
      obtain ⟨⟨a, s₁⟩, h₁, h⟩ := Option.bind_eq_some_iff.1 h
      obtain ⟨⟨as', s₂⟩, h₂, h⟩ := Option.bind_eq_some_iff.1 h
      cases h
      obtain ⟨rfl, ha⟩ := C.of_decode h₁
      obtain ⟨rfl, has⟩ := ih h₂
      refine ⟨by rw [List.flatMap_cons, List.append_assoc], ?_⟩
      intro b hb
      rcases List.mem_cons.1 hb with rfl | hb
      · exact ha
      · exact has b hb

omit [DecidableEq β] in
theorem length_le_flatMap (h : ∀ a, C.encode a ≠ []) (as : List α) : as.length ≤ (as.flatMap C.encode).length := by
  induction as with
  | nil => simp
  | cons a as ih =>
    have ha := List.length_pos_iff.2 (h a)
    simp only [List.flatMap_cons, List.length_append, List.length_cons]
    omega

/-- Values one after the other up to `stop`, which none of them begins with. -/
def endedBy (C : Codec β α) (stop : List β) (hstop : ∀ a rest t, C.encode a ++ rest ≠ stop ++ t) :
    Codec β (List α) where
  valid as := ∀ a ∈ as, C.valid a
  encode as := as.flatMap C.encode ++ stop
  decode s := C.decodeUntil stop (s.length + 1) s
  decode_encode := by
    intro as has rest
    have hne : ∀ a, C.encode a ≠ [] := by
      intro a ha
      exact hstop a stop [] (by rw [ha, List.nil_append, List.append_nil])
    have hlen := length_le_flatMap hne as
    rw [List.append_assoc]
    apply decodeUntil_flatMap hstop has rest
    rw [List.length_append]
    omega
  of_decode := by
    intro s as rest h
    rw [List.append_assoc]
    exact of_decodeUntil h

/-- A list with a text of its own for the empty one, which no other begins with. -/
def orEmpty (empty : List β) (C : Codec β (α × List α)) (hempty : ∀ x rest t, C.encode x ++ rest ≠ empty ++ t) :
    Codec β (List α) where
  valid
    | [] => True
    | a :: as => C.valid (a, as)
  encode
    | [] => empty
    | a :: as => C.encode (a, as)
  decode s :=
    match strip empty s with
    | some rest => some ([], rest)
    | none => (C.decode s).map fun x => (x.1.1 :: x.1.2, x.2)
  decode_encode := by
    intro as has rest
    cases as with
    | nil => simp
    | cons a as => simp [strip_eq_none (hempty (a, as) rest), C.decode_encode has]
  of_decode := by
    intro s as rest h
    cases hs : strip empty s with
    | some rest' =>
      rw [hs] at h
      cases h
      exact ⟨strip_eq_some_iff.1 hs, trivial⟩
    | none =>
      rw [hs] at h
      obtain ⟨⟨⟨a, as'⟩, rest'⟩, h₁, h⟩ := Option.map_eq_some_iff.1 h
      cases h
      exact C.of_decode h₁

end Codec

namespace Json

/-- The value of a hexadecimal digit. -/
def hexVal (c : Char) : Option Nat :=
  if c.isDigit then some (c.toNat - '0'.toNat)
  else if 'a' ≤ c ∧ c ≤ 'f' then some (c.toNat - 'a'.toNat + 10)
  else if 'A' ≤ c ∧ c ≤ 'F' then some (c.toNat - 'A'.toNat + 10)
  else none

theorem hexVal_digitChar {n : Nat} (h : n < 16) : hexVal (Nat.digitChar n) = some n := by
  interval_cases n <;> decide

theorem hexVal_lt_ascii : ∀ k < 128, ∀ n ∈ hexVal (Char.ofNat k), n < 16 := by
  decide +kernel

theorem hexVal_ascii : ∀ k < 128, ∀ n < 16,
    (hexVal (Char.ofNat k) = some n ↔ (Char.ofNat k).toLower = Nat.digitChar n) := by
  decide +kernel

/-- A digit in either case. -/
theorem hexVal_eq_some_iff {c : Char} {n : Nat} : hexVal c = some n ↔ n < 16 ∧ c.toLower = Nat.digitChar n := by
  by_cases hc : c.toNat < 128
  · rw [← Char.ofNat_toNat c]
    constructor
    · intro h
      have hn := hexVal_lt_ascii c.toNat hc n h
      exact ⟨hn, (hexVal_ascii c.toNat hc n hn).1 h⟩
    · rintro ⟨hn, h⟩
      exact (hexVal_ascii c.toNat hc n hn).2 h
  · -- neither side knows characters beyond ASCII
    have hle : ∀ d : Char, d.toNat < 128 → ¬ c ≤ d := fun d hd h => hc (Nat.lt_of_le_of_lt h hd)
    have hnone : hexVal c = none := by
      unfold hexVal
      rw [if_neg, if_neg, if_neg]
      · exact fun h => hle 'F' (by decide) h.2
      · exact fun h => hle 'f' (by decide) h.2
      · intro h
        simp only [Char.isDigit, Bool.and_eq_true, decide_eq_true_eq] at h
        exact hle '9' (by decide) h.2
    have hlower : c.toLower = c := by
      unfold Char.toLower
      rw [dif_neg]
      exact fun h => hle 'Z' (by decide) h.2
    rw [hnone, hlower]
    constructor
    · intro h
      cases h
    · rintro ⟨hn, rfl⟩
      have hdigit : ∀ n < 16, (Nat.digitChar n).toNat < 128 := by decide
      exact absurd (hdigit n hn) hc

/-! ## Numbers and strings -/

/-- A number in decimal and the character after it, which is no digit. -/
def decimal (stop : Char) (hstop : stop.isDigit = false) : Codec Char Nat :=
  .checked (fun n => (toString n).toList ++ [stop])
    (fun s =>
      match s.dropWhile Char.isDigit with
      | [] => none
      | _ :: rest => some (Nat.ofDigitChars 10 (s.takeWhile Char.isDigit) 0, rest))
    (by
      intro n rest
      have hdigit : ∀ c ∈ (toString n).toList, c.isDigit := fun c => Text.isDigit_of_mem_toString
      rw [List.append_assoc, List.dropWhile_append_of_pos hdigit, List.takeWhile_append_of_pos hdigit]
      simp [hstop])

/-- The characters with a letter of their own after the backslash. -/
def escapes : List (Char × Char) :=
  [('"', '"'), ('\\', '\\'), ('\x08', 'b'), ('\x0c', 'f'), ('\n', 'n'), ('\r', 'r'), ('\t', 't')]

/-- A character of a string; the other control characters are escaped by number. -/
def escape (c : Char) : List Char :=
  match escapes.find? fun e => e.1 = c with
  | some e => ['\\', e.2]
  | none =>
    if c.toNat < 32 then ['\\', 'u', '0', '0', Nat.digitChar (c.toNat / 16), Nat.digitChar (c.toNat % 16)] else [c]

def unescape : List Char → Option (Char × List Char)
  | '\\' :: 'u' :: '0' :: '0' :: h :: l :: rest => do
    let h ← hexVal h
    let l ← hexVal l
    return (Char.ofNat (h * 16 + l), rest)
  | '\\' :: letter :: rest => (escapes.find? fun e => e.2 = letter).map fun e => (e.1, rest)
  | c :: rest => some (c, rest)
  | [] => none

theorem escape_cases (c : Char) :
    (∃ letter, (c, letter) ∈ escapes ∧ escape c = ['\\', letter]) ∨
    (c.toNat < 32 ∧ escape c = ['\\', 'u', '0', '0', Nat.digitChar (c.toNat / 16), Nat.digitChar (c.toNat % 16)]) ∨
    (c ≠ '"' ∧ c ≠ '\\' ∧ escape c = [c]) := by
  unfold escape
  cases hfind : escapes.find? fun e => e.1 = c with
  | some e =>
    have hc : e.1 = c := by simpa using List.find?_some hfind
    exact .inl ⟨e.2, hc ▸ List.mem_of_find?_eq_some hfind, rfl⟩
  | none =>
    have hnot := List.find?_eq_none.1 hfind
    by_cases hcontrol : c.toNat < 32
    · exact .inr (.inl ⟨hcontrol, if_pos hcontrol⟩)
    · refine .inr (.inr ⟨?_, ?_, if_neg hcontrol⟩)
      · rintro rfl
        exact hnot ('"', '"') (by simp [escapes]) (by simp)
      · rintro rfl
        exact hnot ('\\', '\\') (by simp [escapes]) (by simp)

theorem unescape_letter {c letter : Char} (h : (c, letter) ∈ escapes) (rest : List Char) :
    unescape ('\\' :: letter :: rest) = some (c, rest) := by
  simp only [escapes, List.mem_cons, Prod.mk.injEq, List.not_mem_nil, or_false] at h
  rcases h with ⟨rfl, rfl⟩ | ⟨rfl, rfl⟩ | ⟨rfl, rfl⟩ | ⟨rfl, rfl⟩ | ⟨rfl, rfl⟩ | ⟨rfl, rfl⟩ | ⟨rfl, rfl⟩ <;> rfl

theorem unescape_control (h l : Char) (rest : List Char) : unescape ('\\' :: 'u' :: '0' :: '0' :: h :: l :: rest) =
    (hexVal h).bind fun h => (hexVal l).bind fun l => some (Char.ofNat (h * 16 + l), rest) := rfl

theorem unescape_escape (c : Char) (rest : List Char) : unescape (escape c ++ rest) = some (c, rest) := by
  rcases escape_cases c with ⟨letter, hmem, he⟩ | ⟨hcontrol, he⟩ | ⟨-, hslash, he⟩
  · rw [he]
    exact unescape_letter hmem rest
  · have hh := hexVal_digitChar (show c.toNat / 16 < 16 by omega)
    have hl := hexVal_digitChar (show c.toNat % 16 < 16 by omega)
    rw [he]
    simp only [List.cons_append, List.nil_append, unescape_control, hh, hl, Option.bind_some, Nat.div_add_mod',
      Char.ofNat_toNat]
  · rw [he, List.singleton_append, unescape]
    · rintro h l rest' rfl
      exact absurd rfl hslash
    · rintro letter rest' rfl
      exact absurd rfl hslash

theorem escape_ne_quote (c : Char) (rest t : List Char) : escape c ++ rest ≠ ['"'] ++ t := by
  intro h
  rcases escape_cases c with ⟨letter, -, he⟩ | ⟨-, he⟩ | ⟨hquote, -, he⟩
  · rw [he] at h
    cases h
  · rw [he] at h
    cases h
  · rw [he] at h
    cases h
    exact hquote rfl

/-- A string in quotes. -/
def string : Codec Char String :=
  (((Codec.checked escape unescape unescape_escape).endedBy ['"'] escape_ne_quote).between ['"'] []).map
    (fun cs => some (String.ofList cs)) String.toList (by simp) (by rintro cs s ⟨⟩; simp)

theorem string_valid (s : String) : string.valid s := fun _ _ => trivial

/-! ## Arrays and records over several lines -/

def newline (indent : Nat) : List Char := '\n' :: List.replicate indent ' '

/-- The name of a field, on a line of its own. -/
def field (indent : Nat) (name : String) : List Char := newline indent ++ ('"' :: name.toList ++ ['"', ':', ' '])

/-- An array, each value on a line of its own. -/
def array {α : Type} (indent : Nat) (C : Codec Char α) : Codec Char (List α) :=
  .orEmpty ['[', ']']
    ((C.between ('[' :: newline (indent + 2)) []).seq
      ((C.between (',' :: newline (indent + 2)) []).endedBy (newline indent ++ [']']) fun _ _ _ h => nomatch h))
    fun _ _ _ h => nomatch h

theorem array_valid {α : Type} {indent : Nat} {C : Codec Char α} (h : ∀ a, C.valid a) (as : List α) :
    (array indent C).valid as := by
  cases as with
  | nil => trivial
  | cons a as => exact ⟨h a, fun b _ => h b⟩

end Json

namespace Hex
open Wire Json

/-- Two lower-case digits a byte. -/
def encode (bytes : Bytes) : String :=
  String.ofList (bytes.flatMap fun b => [Nat.digitChar (b.toNat / 16), Nat.digitChar (b.toNat % 16)])

def decodeDigits : List Char → Option Bytes
  | [] => some []
  | [_] => none
  | h :: l :: rest => do
    let h ← hexVal h
    let l ← hexVal l
    let bytes ← decodeDigits rest
    return UInt8.ofNat (h * 16 + l) :: bytes

/-- The texts that decode are those that encode gives, up to the case of the letters. -/
theorem decodeDigits_eq_some_iff {ds : List Char} {bytes : Bytes} : decodeDigits ds = some bytes ↔
    ds.map Char.toLower = bytes.flatMap fun b => [Nat.digitChar (b.toNat / 16), Nat.digitChar (b.toNat % 16)] := by
  induction ds using decodeDigits.induct generalizing bytes with
  | case1 => cases bytes <;> simp [decodeDigits]
  | case2 c => cases bytes <;> simp [decodeDigits]
  | case3 h l rest ih =>
    simp only [decodeDigits, Option.bind_eq_bind, Option.bind_eq_some_iff, List.map_cons]
    constructor
    · rintro ⟨vh, hvh, vl, hvl, bs, hbs, ⟨⟩⟩
      obtain ⟨hlth, hh⟩ := hexVal_eq_some_iff.1 hvh
      obtain ⟨hltl, hl⟩ := hexVal_eq_some_iff.1 hvl
      have hval : (UInt8.ofNat (vh * 16 + vl)).toNat = vh * 16 + vl := by
        rw [UInt8.toNat_ofNat']
        omega
      rw [List.flatMap_cons, hval, show (vh * 16 + vl) / 16 = vh by omega, show (vh * 16 + vl) % 16 = vl by omega,
        hh, hl, ih.1 hbs]
      rfl
    · intro heq
      cases bytes with
      | nil => cases heq
      | cons b bytes =>
        have hb := b.toNat_lt
        simp only [List.flatMap_cons, List.cons_append, List.nil_append, List.cons.injEq] at heq
        obtain ⟨hh, hl, hrest⟩ := heq
        refine ⟨b.toNat / 16, hexVal_eq_some_iff.2 ⟨by omega, hh⟩, b.toNat % 16,
          hexVal_eq_some_iff.2 ⟨by omega, hl⟩, bytes, ih.2 hrest, ?_⟩
        rw [Nat.div_add_mod', UInt8.ofNat_toNat]
        rfl

/-- Digits of either case. -/
def decode (s : String) : Option Bytes := decodeDigits s.toList

theorem decode_encode (bytes : Bytes) : decode (encode bytes) = some bytes := by
  rw [decode, encode, String.toList_ofList]
  induction bytes with
  | nil => rfl
  | cons b bytes ih =>
    have hb := b.toNat_lt
    have hh := hexVal_digitChar (show b.toNat / 16 < 16 by omega)
    have hl := hexVal_digitChar (show b.toNat % 16 < 16 by omega)
    have hbyte : UInt8.ofNat (b.toNat / 16 * 16 + b.toNat % 16) = b := by rw [Nat.div_add_mod', UInt8.ofNat_toNat]
    simp only [List.flatMap_cons, List.cons_append, List.nil_append, decodeDigits, hh, hl, ih, Option.bind_eq_bind,
      Option.bind_some, hbyte]
    rfl

end Hex
