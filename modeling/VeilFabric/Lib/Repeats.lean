import Mathlib.Data.List.Perm.Subperm
import Mathlib.Data.Finset.Card

/-!
# Repeated keys in a list

Items carry an optional key. `kinds` counts the different keys of a list, `unknown` its items without a key
and `repeats` the items that have a key another item of the list already stands for. Together the three make
up the length, which gives the bound every selection has to meet: from a stock of `unknown` keyless items and
`kinds` keys, `n` items repeat a key at least `n - unknown - kinds` times (`le_repeats`).
-/

namespace Repeats

variable {α κ : Type} (f : α → Option κ)

/-- The number of items without a key. -/
def unknown (l : List α) : Nat := l.countP fun a => (f a).isNone

section
variable {f}

theorem length_filterMap_add_unknown (l : List α) : (l.filterMap f).length + unknown f l = l.length := by
  induction l with
  | nil => rfl
  | cons a l ih =>
    cases h : f a with
    | none => simp [unknown, h] at ih ⊢; omega
    | some k => simp [unknown, h] at ih ⊢; omega

theorem unknown_mono {l l' : List α} (h : List.Subperm l l') : unknown f l ≤ unknown f l' := h.countP_le _

end

variable [DecidableEq κ]

/-- The different keys of a list. -/
def keys (l : List α) : Finset κ := (l.filterMap f).toFinset

def kinds (l : List α) : Nat := (keys f l).card

/-- Items with a key, minus the number of different keys. -/
def repeats (l : List α) : Nat := (l.filterMap f).length - kinds f l

variable {f} {l l' : List α}

theorem mem_keys {k : κ} : k ∈ keys f l ↔ ∃ a ∈ l, f a = some k := by simp [keys]

theorem kinds_le_length (l : List α) : kinds f l ≤ (l.filterMap f).length := List.toFinset_card_le _

theorem repeats_add (l : List α) : repeats f l + kinds f l + unknown f l = l.length := by
  have hlen := length_filterMap_add_unknown (f := f) l
  have hle := kinds_le_length (f := f) l
  unfold repeats
  omega

theorem kinds_mono (h : l ⊆ l') : kinds f l ≤ kinds f l' := by
  apply Finset.card_le_card
  intro k hk
  obtain ⟨a, ha, hka⟩ := mem_keys.1 hk
  exact mem_keys.2 ⟨a, h ha, hka⟩

theorem repeats_perm (h : l.Perm l') : repeats f l = repeats f l' := by
  have hl := repeats_add (f := f) l
  have hl' := repeats_add (f := f) l'
  have hu : unknown f l = unknown f l' := h.countP_eq _
  have hk : kinds f l = kinds f l' := le_antisymm (kinds_mono h.subset) (kinds_mono h.symm.subset)
  have := h.length_eq
  omega

/-- No selection does better. -/
theorem le_repeats (h : List.Subperm l l') : l.length - unknown f l' - kinds f l' ≤ repeats f l := by
  have hl := repeats_add (f := f) l
  have hu := unknown_mono (f := f) h
  have hk := kinds_mono (f := f) h.subset
  omega

theorem repeats_eq_zero_iff : repeats f l = 0 ↔ (l.filterMap f).Nodup := by
  have hle := kinds_le_length (f := f) l
  have hnodup : kinds f l = (l.filterMap f).length ↔ (l.filterMap f).Nodup :=
    Multiset.toFinset_card_eq_card_iff_nodup
  rw [← hnodup, repeats]
  omega

end Repeats
