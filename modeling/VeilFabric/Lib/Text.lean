import Mathlib.Data.List.Basic
import Mathlib.Data.List.TakeWhile
import Mathlib.Tactic.Ring

/-!
# Text: splitting at the last separator, numbers in decimal, white space

`rsplitOnce`, `parseUnsigned` and `toString` are Rust's `str::rsplit_once`, `str::parse` at an unsigned type and
`to_string` of an unsigned number. A number is read back from its own text, and its text has no separator in
it, so a text that ends in a separator and a number comes apart there (`rsplitOnce_number`). `trim` is `str::trim`:
it takes away exactly the white space around a text (`trim_eq_iff`).
-/

namespace Text

/-- `s.rsplit_once(sep)`. -/
def rsplitOnce (sep : Char) (s : List Char) : Option (List Char × List Char) :=
  match s.reverse.dropWhile (· ≠ sep) with
  | [] => none
  | _ :: host => some (host.reverse, (s.reverse.takeWhile (· ≠ sep)).reverse)

def stripPlus : List Char → List Char
  | '+' :: ds => ds
  | ds => ds

/-- `s.parse()` at an unsigned type of `bits` bits: a `+` is allowed, leading zeros are, nothing else is. -/
def parseUnsigned (bits : Nat) (s : List Char) : Option Nat :=
  let digits := stripPlus s
  if digits = [] ∨ digits.any (fun c => !c.isDigit) then none
  else if Nat.ofDigitChars 10 digits 0 < 2 ^ bits then some (Nat.ofDigitChars 10 digits 0)
  else none

/-- What stands after the last separator has none in it. -/
theorem rsplitOnce_append {sep : Char} {host tail : List Char} (h : sep ∉ tail) :
    rsplitOnce sep (host ++ sep :: tail) = some (host, tail) := by
  have hrev : (host ++ sep :: tail).reverse = tail.reverse ++ sep :: host.reverse := by simp
  have hall : ∀ c ∈ tail.reverse, (decide (c ≠ sep)) = true := by
    intro c hc
    have hne : c ≠ sep := by
      rintro rfl
      exact h (List.mem_reverse.1 hc)
    simpa using hne
  have hdrop : (tail.reverse ++ sep :: host.reverse).dropWhile (fun c => decide (c ≠ sep)) = sep :: host.reverse := by
    rw [List.dropWhile_append_of_pos hall]
    simp
  have htake : (tail.reverse ++ sep :: host.reverse).takeWhile (fun c => decide (c ≠ sep)) = tail.reverse := by
    rw [List.takeWhile_append_of_pos hall]
    simp
  unfold rsplitOnce
  simp only [hrev, hdrop, htake, List.reverse_reverse]

theorem isDigit_of_mem_toString {n : Nat} {c : Char} (h : c ∈ (toString n).toList) : c.isDigit := by
  rw [Nat.toString_eq_repr, Nat.toList_repr] at h
  exact Nat.isDigit_of_mem_toDigits (by decide) (by decide) h

theorem toString_inj {m n : Nat} (h : toString m = toString n) : m = n := by
  have hdigits := congrArg (fun s => Nat.ofDigitChars 10 s.toList 0) h
  simpa only [Nat.toString_eq_repr, Nat.toList_repr, Nat.ofDigitChars_ten_toDigits] using hdigits

/-- A number is read back from its text. -/
theorem parseUnsigned_toString {bits n : Nat} (h : n < 2 ^ bits) : parseUnsigned bits (toString n).toList = some n := by
  have hdigit : ∀ c ∈ (toString n).toList, c.isDigit := fun c => isDigit_of_mem_toString
  have hval : Nat.ofDigitChars 10 (toString n).toList 0 = n := by
    rw [Nat.toString_eq_repr, Nat.toList_repr, Nat.ofDigitChars_ten_toDigits]
  have hne : (toString n).toList ≠ [] := by
    rw [Nat.toString_eq_repr, Nat.toList_repr]
    exact Nat.toDigits_ne_nil
  generalize (toString n).toList = ds at hdigit hval hne
  have hbad : ¬ (ds = [] ∨ ds.any (fun c => !c.isDigit)) := by
    simpa [hne] using hdigit
  have hplus : stripPlus ds = ds := by
    unfold stripPlus
    split
    · rename_i ds
      exact absurd (hdigit '+' (by simp)) (by decide)
    · rfl
  unfold parseUnsigned
  simp only [hplus, if_neg hbad, hval, if_pos h]

/-- A text that ends in a separator and a number comes apart at that separator. -/
theorem rsplitOnce_number {sep : Char} (hsep : sep.isDigit = false) (host : List Char) (n : Nat) :
    rsplitOnce sep (host ++ sep :: (toString n).toList) = some (host, (toString n).toList) := by
  apply rsplitOnce_append
  intro hmem
  rw [isDigit_of_mem_toString hmem] at hsep
  cases hsep

/-! ## White space -/

/-- `char::is_whitespace`: the property `White_Space` of Unicode. -/
def isWhitespace (c : Char) : Bool :=
  9 ≤ c.toNat && c.toNat ≤ 13 || 0x2000 ≤ c.toNat && c.toNat ≤ 0x200A ||
    [0x20, 0x85, 0xA0, 0x1680, 0x2028, 0x2029, 0x202F, 0x205F, 0x3000].contains c.toNat

/-- `s.trim()`. -/
def trim (s : List Char) : List Char := ((s.dropWhile isWhitespace).reverse.dropWhile isWhitespace).reverse

/-- Only white space is taken away. -/
theorem trim_spec (s : List Char) : ∃ before after, s = before ++ trim s ++ after ∧ (∀ c ∈ before, isWhitespace c) ∧
    ∀ c ∈ after, isWhitespace c := by
  have hstart := List.takeWhile_append_dropWhile (p := isWhitespace) (l := s)
  have hend := List.takeWhile_append_dropWhile (p := isWhitespace) (l := (s.dropWhile isWhitespace).reverse)
  refine ⟨s.takeWhile isWhitespace, ((s.dropWhile isWhitespace).reverse.takeWhile isWhitespace).reverse, ?_,
    fun c => List.mem_takeWhile_imp, fun c hc => List.mem_takeWhile_imp (List.mem_reverse.1 hc)⟩
  have hrev := congrArg List.reverse hend
  rw [List.reverse_append, List.reverse_reverse] at hrev
  rw [List.append_assoc, trim, hrev, hstart]

theorem dropWhile_white {before s : List Char} (h : ∀ c ∈ before, isWhitespace c) (hs : ∀ c ∈ s.head?, ¬ isWhitespace c) :
    (before ++ s).dropWhile isWhitespace = s := by
  rw [List.dropWhile_append_of_pos h]
  cases s with
  | nil => rfl
  | cons c s => exact List.dropWhile_cons_of_neg (by simpa using hs c rfl)

/-- A text without white space in it is what remains iff there is only white space around it. -/
theorem trim_eq_iff {s d : List Char} (hd : ∀ c ∈ d, ¬ isWhitespace c) : trim s = d ↔ ∃ before after,
    s = before ++ d ++ after ∧ (∀ c ∈ before, isWhitespace c) ∧ ∀ c ∈ after, isWhitespace c := by
  constructor
  · rintro rfl
    exact trim_spec s
  · rintro ⟨before, after, rfl, hbefore, hafter⟩
    cases d with
    | nil =>
      have hall : ∀ c ∈ before ++ after, isWhitespace c := fun c hc => (List.mem_append.1 hc).elim (hbefore c) (hafter c)
      have hnil := dropWhile_white (s := []) hall nofun
      rw [List.append_nil] at hnil
      rw [trim, List.append_nil, hnil]
      rfl
    | cons c d =>
      have hhead : ∀ x ∈ (c :: d ++ after).head?, ¬ isWhitespace x := by
        rintro _ ⟨⟩
        exact hd c (by simp)
      have hlast : ∀ x ∈ (c :: d).reverse.head?, ¬ isWhitespace x := by
        intro x hx
        exact hd x (List.mem_reverse.1 (List.mem_of_mem_head? hx))
      rw [trim, List.append_assoc, dropWhile_white hbefore hhead, List.reverse_append,
        dropWhile_white (fun x hx => hafter x (List.mem_reverse.1 hx)) hlast, List.reverse_reverse]

end Text
