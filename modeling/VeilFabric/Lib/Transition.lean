import Mathlib.Logic.Relation

/-!
# Transition systems and their invariants

A system is a set of initial states and a step relation; concurrency is the freedom in choosing the step.
`Reachable.invariant` is the rule every safety result uses: what holds initially and survives a step from
a reachable state holds in every reachable state. `Chain.length_le` and `Chain.exists_end` are the rules for
termination: if every step uses up at least `k` of a measure, a chain is bounded by the measure, and
every chain comes to an end.
-/

namespace Transition

structure System (σ : Type) where
  init : σ → Prop
  step : σ → σ → Prop

namespace System
variable {σ : Type} (S : System σ)

inductive Reachable : σ → Prop
  | init {s : σ} : S.init s → Reachable s
  | step {s t : σ} : Reachable s → S.step s t → Reachable t

variable {S}

/-- **The invariant rule.** -/
theorem Reachable.invariant {I : σ → Prop} (hinit : ∀ s, S.init s → I s)
    (hstep : ∀ s t, I s → S.step s t → I t) {s : σ} (h : S.Reachable s) : I s := by
  induction h with
  | init h0 => exact hinit _ h0
  | step _ hst ih => exact hstep _ _ ih hst

/-- No step is enabled. -/
def Quiescent (S : System σ) (s : σ) : Prop := ∀ t, ¬ S.step s t

end System

/-! ## Chains that use up a measure -/

/-- `n` steps in a row. -/
inductive Chain {σ : Type} (step : σ → σ → Prop) : Nat → σ → σ → Prop
  | nil (s : σ) : Chain step 0 s s
  | snoc {n : Nat} {s t u : σ} : Chain step n s t → step t u → Chain step (n + 1) s u

namespace Chain
variable {σ : Type} {step : σ → σ → Prop} {m : σ → Nat} {k : Nat}

/-- Every step takes `k` from the measure. -/
theorem measure_le (hdec : ∀ s t, step s t → m t + k ≤ m s) {n : Nat} {s t : σ} (h : Chain step n s t) :
    m t + n * k ≤ m s := by
  induction h with
  | nil s => simp
  | snoc _ hst ih =>
    have hlast := hdec _ _ hst
    rw [Nat.succ_mul]
    omega

theorem length_le (hk : 0 < k) (hdec : ∀ s t, step s t → m t + k ≤ m s) {n : Nat} {s t : σ}
    (h : Chain step n s t) : n ≤ m s / k := by
  have hle := h.measure_le hdec
  rw [Nat.le_div_iff_mul_le hk]
  omega

/-- Every chain can be continued until no step is possible. -/
theorem exists_end (hk : 0 < k) (hdec : ∀ s t, step s t → m t + k ≤ m s) {n : Nat} {s t : σ}
    (h : Chain step n s t) : ∃ n' u, n ≤ n' ∧ Chain step n' s u ∧ ∀ v, ¬ step u v := by
  induction hm : m t using Nat.strongRecOn generalizing n t with
  | _ i ih =>
    by_cases hstep : ∃ u, step t u
    · obtain ⟨u, hu⟩ := hstep
      have hlt : m u < i := by
        have hle := hdec t u hu
        omega
      obtain ⟨n', v, hn, hv, hend⟩ := ih (m u) hlt (h.snoc hu) rfl
      exact ⟨n', v, by omega, hv, hend⟩
    · exact ⟨n, t, Nat.le_refl n, h, fun u hu => hstep ⟨u, hu⟩⟩

/-- An infinite run would have chains of every length. -/
theorem of_run {f : Nat → σ} (h : ∀ i, step (f i) (f (i + 1))) (n : Nat) : Chain step n (f 0) (f n) := by
  induction n with
  | zero => exact .nil _
  | succ n ih => exact ih.snoc (h n)

theorem cons {n : Nat} {s t u : σ} (hst : step s t) (h : Chain step n t u) : Chain step (n + 1) s u := by
  induction h with
  | nil => exact .snoc (.nil _) hst
  | snoc _ hlast ih => exact .snoc (ih hst) hlast

theorem trans {m n : Nat} {s t u : σ} (h : Chain step m s t) (h' : Chain step n t u) : Chain step (m + n) s u := by
  induction h' with
  | nil => exact h
  | snoc _ hlast ih => exact .snoc (ih h) hlast

/-- A chain seen through a map that takes steps to steps. -/
theorem map {τ : Type} {step' : τ → τ → Prop} {f : σ → τ} (hf : ∀ s t, step s t → step' (f s) (f t)) {n : Nat} {s t : σ}
    (h : Chain step n s t) : Chain step' n (f s) (f t) := by
  induction h with
  | nil => exact .nil _
  | snoc _ hlast ih => exact .snoc ih (hf _ _ hlast)

/-- Chains of bounded length can be continued to an end. -/
theorem exists_end_of_bound {b : Nat} {s : σ} (hb : ∀ n t, Chain step n s t → n ≤ b) {n : Nat} {t : σ}
    (h : Chain step n s t) : ∃ j u, Chain step j t u ∧ Chain step (n + j) s u ∧ ∀ v, ¬ step u v := by
  induction hleft : b - n generalizing n t with
  | zero =>
    refine ⟨0, t, .nil t, h, fun v hv => ?_⟩
    have hlong := hb _ _ (h.snoc hv)
    omega
  | succ left ih =>
    by_cases hstep : ∃ u, step t u
    · obtain ⟨u, hu⟩ := hstep
      obtain ⟨j, v, hj, hv, hend⟩ := ih (h.snoc hu) (by omega)
      exact ⟨j + 1, v, hj.cons hu, by rwa [Nat.add_assoc, Nat.add_comm 1 j] at hv, hend⟩
    · exact ⟨0, t, .nil t, h, fun u hu => hstep ⟨u, hu⟩⟩

/-- Where a chain leads is reachable. -/
theorem reachable {S : System σ} {n : Nat} {s t : σ} (h : Chain S.step n s t) (hs : S.Reachable s) : S.Reachable t := by
  induction h with
  | nil => exact hs
  | snoc _ hlast ih => exact .step (ih hs) hlast

end Chain

/-- Every reachable state is at the end of a chain. -/
theorem System.Reachable.chain {σ : Type} {S : System σ} {t : σ} (h : S.Reachable t) :
    ∃ s n, S.init s ∧ Chain S.step n s t := by
  induction h with
  | init h0 => exact ⟨_, 0, h0, .nil _⟩
  | step _ hst ih =>
    obtain ⟨s, n, hs, hchain⟩ := ih
    exact ⟨s, n + 1, hs, hchain.snoc hst⟩

end Transition
