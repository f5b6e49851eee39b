import Mathlib.Logic.Function.Basic
import Mathlib.Data.List.Perm.Subperm

/-!
# Items moving through FIFO queues

A system of many queues is described by one list of items, the `census`: `place` says in which queue an item
stands and what it looks like there, and the queue at `k` is what the census shows at `k`, in order. The two
things queues do, appending at the end and taking from the front, are then additions to and removals from
the census, and an item is never in two queues because it stands once in the list.
-/

namespace Queues

variable {α κ β : Type} [DecidableEq κ] (place : α → κ × β)

/-- The queue at `k`. -/
def queue (census : List α) (k : κ) : List β :=
  census.filterMap fun a => if (place a).1 = k then some (place a).2 else none

variable {place}

@[simp] theorem queue_append (l l' : List α) (k : κ) :
    queue place (l ++ l') k = queue place l k ++ queue place l' k := by
  simp [queue]

theorem queue_singleton_self (a : α) : queue place [a] (place a).1 = [(place a).2] := by
  simp [queue]

theorem queue_singleton_ne {a : α} {k : κ} (h : (place a).1 ≠ k) : queue place [a] k = [] := by
  simp [queue, h]

theorem mem_queue {census : List α} {k : κ} {b : β} : b ∈ queue place census k ↔ ∃ a ∈ census, place a = (k, b) := by
  simp [queue, Prod.ext_iff]

/-- An item joins its queue at the end. -/
theorem queue_push (census : List α) (a : α) :
    queue place (census ++ [a]) =
      Function.update (queue place census) (place a).1 (queue place census (place a).1 ++ [(place a).2]) := by
  funext k
  by_cases hk : k = (place a).1
  · subst hk
    rw [Function.update_self, queue_append, queue_singleton_self]
  · rw [Function.update_of_ne hk, queue_append, queue_singleton_ne (Ne.symm hk), List.append_nil]

/-- What stands at the front of a queue is an item that can be taken out. -/
theorem exists_pop {census : List α} {k : κ} {b : β} {bs : List β} (h : queue place census k = b :: bs) :
    ∃ pre a post, census = pre ++ a :: post ∧ place a = (k, b) ∧
      queue place (pre ++ post) = Function.update (queue place census) k bs := by
  obtain ⟨pre, a, post, rfl, hpre, ha, hpost⟩ := List.filterMap_eq_cons_iff.1 h
  have hplace : place a = (k, b) := by
    split at ha
    · rename_i hk
      exact Prod.ext hk (Option.some.inj ha)
    · cases ha
  refine ⟨pre, a, post, rfl, hplace, ?_⟩
  have hmid : ∀ k', queue place (a :: post) k' = queue place [a] k' ++ queue place post k' :=
    fun k' => queue_append [a] post k'
  funext k'
  by_cases hk : k' = k
  · subst hk
    have hempty : queue place pre k' = [] := List.filterMap_eq_nil_iff.2 hpre
    rw [Function.update_self, queue_append, hempty, List.nil_append]
    exact hpost
  · have hne : (place a).1 ≠ k' := by
      rw [hplace]
      exact Ne.symm hk
    rw [Function.update_of_ne hk, queue_append, queue_append, hmid, queue_singleton_ne hne, List.nil_append]

/-- If every queue of `l` starts a queue of `l'`, the items of `l` are among those of `l'`. -/
theorem subperm_of_queues {α' : Type} {place' : α' → κ × β} {l : List α} {l' : List α'}
    (h : ∀ k, queue place l k <+: queue place' l' k) : (l.map place).Subperm (l'.map place') := by
  induction l generalizing l' with
  | nil => exact List.nil_subperm
  | cons a l ih =>
    have hself : queue place (a :: l) (place a).1 = (place a).2 :: queue place l (place a).1 := by
      rw [← List.singleton_append, queue_append, queue_singleton_self, List.singleton_append]
    obtain ⟨rest, hrest⟩ := h (place a).1
    rw [hself, List.cons_append] at hrest
    obtain ⟨pre, a', post, rfl, hplace, hpop⟩ := exists_pop hrest.symm
    -- what is left of `l` starts what is left of `l'`
    have hleft : ∀ k, queue place l k <+: queue place' (pre ++ post) k := by
      intro k
      rw [hpop]
      by_cases hk : k = (place a).1
      · subst hk
        rw [Function.update_self]
        exact List.prefix_append _ _
      · have hsame : queue place (a :: l) k = queue place l k := by
          rw [← List.singleton_append, queue_append, queue_singleton_ne (Ne.symm hk), List.nil_append]
        rw [Function.update_of_ne hk, ← hsame]
        exact h k
    have hperm : ((pre ++ a' :: post).map place').Perm (place a :: (pre ++ post).map place') := by
      rw [← show place' a' = place a from hplace]
      exact List.perm_middle.map place'
    exact ((List.subperm_cons (place a)).2 (ih hleft)).trans hperm.symm.subperm

/-- The queues determine the items up to order. -/
theorem perm_of_queues {α' : Type} {place' : α' → κ × β} {l : List α} {l' : List α'}
    (h : ∀ k, queue place l k = queue place' l' k) : (l.map place).Perm (l'.map place') :=
  (subperm_of_queues fun k => ⟨[], by rw [List.append_nil, h k]⟩).antisymm
    (subperm_of_queues fun k => ⟨[], by rw [List.append_nil, h k]⟩)

end Queues
