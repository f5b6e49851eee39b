import Mathlib.Data.List.Permutation
import Mathlib.Data.List.Perm.Subperm

/-!
# How many orders start with a given list

The orders of a list without repetitions are its `permutations`, each once. `count_startsWith`: as many of them start
with `path` as there are orders of what is left.
-/

namespace Arrangements

variable {α : Type} [DecidableEq α] {l path : List α}

/-- Taking `path` out leaves the rest. -/
theorem append_diff_perm (h : path.Subperm l) : (path ++ l.diff path).Perm l :=
  List.subperm_append_diff_self_of_count_le fun _ _ => h.count_le _

theorem filter_startsWith_perm (hl : l.Nodup) (h : path.Subperm l) :
    (l.permutations.filter fun p => path.isPrefixOf p).Perm ((l.diff path).permutations.map (path ++ ·)) := by
  have hdiff := append_diff_perm h
  have hrest : (l.diff path).Nodup := hl.diff
  have hnodup : ((l.diff path).permutations.map (path ++ ·)).Nodup :=
    (List.nodup_permutations _ hrest).map fun _ _ heq => List.append_cancel_left heq
  refine (List.perm_ext_iff_of_nodup ((List.nodup_permutations l hl).filter _) hnodup).2 fun p => ?_
  rw [List.mem_filter, List.mem_permutations, List.mem_map, List.isPrefixOf_iff_prefix]
  constructor
  · rintro ⟨hp, q, rfl⟩
    refine ⟨q, List.mem_permutations.2 ?_, rfl⟩
    exact (List.perm_append_left_iff path).1 (hp.trans hdiff.symm)
  · rintro ⟨q, hq, rfl⟩
    exact ⟨((List.mem_permutations.1 hq).append_left path).trans hdiff, q, rfl⟩

theorem count_startsWith (hl : l.Nodup) (h : path.Subperm l) :
    l.permutations.countP (fun p => path.isPrefixOf p) = (l.length - path.length).factorial := by
  have hlen := (append_diff_perm h).length_eq
  rw [List.length_append] at hlen
  rw [List.countP_eq_length_filter, (filter_startsWith_perm hl h).length_eq, List.length_map, List.length_permutations]
  congr 1
  omega

end Arrangements
