import Mathlib.Algebra.GroupWithZero.Nat
import Mathlib.Data.List.Basic

/-!
# Sums over a list of components

A shared counter of many components is described by a number for each of them: `tally f l` adds these up. A
component that steps is replaced in its place, and `tally_set` says what that does to every sum at once.
-/

namespace Tally

variable {α : Type}

/-- The sum of `f` over the components. -/
def tally (f : α → Nat) (l : List α) : Nat := (l.map f).sum

@[simp] theorem tally_nil (f : α → Nat) : tally f [] = 0 := rfl

@[simp] theorem tally_snoc (f : α → Nat) (l : List α) (a : α) : tally f (l ++ [a]) = tally f l + f a := by
  simp [tally]

@[simp] theorem tally_cons (f : α → Nat) (l : List α) (a : α) : tally f (a :: l) = f a + tally f l := rfl

/-- Component `i` goes from `a` to `b`. -/
theorem tally_set (f : α → Nat) {l : List α} {i : Nat} {a : α} (h : l[i]? = some a) (b : α) :
    tally f (l.set i b) + f a = tally f l + f b := by
  induction l generalizing i with
  | nil => simp at h
  | cons c l ih =>
    cases i with
    | zero =>
      simp only [List.getElem?_cons_zero, Option.some.injEq] at h
      subst h
      simp only [List.set_cons_zero, tally_cons]
      omega
    | succ i =>
      have hrest := ih (i := i) (by simpa using h)
      simp only [List.set_cons_succ, tally_cons]
      omega

/-- If `f` is nothing for every component, the sum is nothing. -/
theorem tally_eq_zero_iff (f : α → Nat) (l : List α) : tally f l = 0 ↔ ∀ a ∈ l, f a = 0 := by
  induction l with
  | nil => simp
  | cons a l ih => simp [ih]

theorem tally_le {f g : α → Nat} (l : List α) (h : ∀ a, f a ≤ g a) : tally f l ≤ tally g l := by
  induction l with
  | nil => exact Nat.le_refl 0
  | cons a l ih => exact Nat.add_le_add (h a) ih

/-- Two parts of each component make up the third. -/
theorem tally_add {f g h : α → Nat} (l : List α) (hadd : ∀ a ∈ l, f a + g a = h a) :
    tally f l + tally g l = tally h l := by
  induction l with
  | nil => rfl
  | cons a l ih =>
    have hfirst := hadd a List.mem_cons_self
    have hrest := ih fun b hb => hadd b (List.mem_cons_of_mem a hb)
    simp only [tally_cons]
    omega

end Tally
