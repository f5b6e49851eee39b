import Mathlib.Data.Finmap

/-!
# A map of independent slots

Many servers keep a hash map of small state machines and let every call touch one entry: look the
entry up, create it on first use, remove it when it is finished. `Machine` is that pattern for an
arbitrary key, entry, call and reply type; a slot transition may fail (`none`), which is how a panic of
the modelled code is written. `Machine.run_invariant` is the rule for what holds of every entry.

A `Spec` describes one slot in other terms (a history, a counter) and says that the slot transition
computes it. `Spec.run_refines` lifts this to the whole map: run from any state that agrees with a
past, the map never fails, its replies are those of the slots taken one by one, and afterwards it
agrees with the longer past. So what happens under one key does not depend on the others, and the
`Spec` is all a proof about runs has to look at.
-/

namespace Keyed

variable {κ σ ι ω τ : Type} [DecidableEq κ]

abbrev Store (κ σ : Type) := Finmap (fun _ : κ => σ)

/-- Write a slot back: an empty one is removed from the map. -/
def put (s : Store κ σ) (k : κ) : Option σ → Store κ σ
  | some v => s.insert k v
  | none => s.erase k

@[simp] theorem lookup_put_self (s : Store κ σ) (k : κ) (v : Option σ) : (put s k v).lookup k = v := by
  cases v <;> simp [put]

theorem lookup_put_ne (s : Store κ σ) {k k' : κ} (h : k' ≠ k) (v : Option σ) :
    (put s k v).lookup k' = s.lookup k' := by
  cases v <;> simp [put, h]

/-- Two maps that differ from `s` at `k` only, and there hold the same slot, are equal. -/
theorem put_eq {s t : Store κ σ} {k : κ} {v : Option σ} (hk : t.lookup k = v)
    (h : ∀ k', k' ≠ k → t.lookup k' = s.lookup k') : put s k v = t := by
  apply Finmap.ext_lookup
  intro k'
  by_cases e : k' = k
  · subst e; rw [lookup_put_self, hk]
  · rw [lookup_put_ne s e, h k' e]

structure Machine (κ σ ι ω : Type) where
  key : ι → κ
  slot : Option σ → ι → Option (Option σ × ω)

namespace Machine

def step (M : Machine κ σ ι ω) (s : Store κ σ) (i : ι) : Option (Store κ σ × ω) :=
  (M.slot (s.lookup (M.key i)) i).map fun r => (put s (M.key i) r.1, r.2)

def run (M : Machine κ σ ι ω) : Store κ σ → List ι → Option (Store κ σ × List ω)
  | s, [] => some (s, [])
  | s, i :: is => do
    let (s, o) ← M.step s i
    let (s, os) ← M.run s is
    return (s, o :: os)

/-- **The invariant rule for slots.** If a valid call on an empty slot or on one with `I` does not fail and
leaves an empty slot or one with `I`, then no run of valid calls fails, and every entry has `I` after it. -/
theorem run_invariant {M : Machine κ σ ι ω} {I : σ → Prop} {valid : ι → Prop}
    (hslot : ∀ v i, (∀ e ∈ v, I e) → valid i → ∃ v' o, M.slot v i = some (v', o) ∧ ∀ e ∈ v', I e)
    {s : Store κ σ} (hs : ∀ k, ∀ e ∈ s.lookup k, I e) {is : List ι} (hi : ∀ i ∈ is, valid i) :
    ∃ s' os, M.run s is = some (s', os) ∧ ∀ k, ∀ e ∈ s'.lookup k, I e := by
  induction is generalizing s with
  | nil => exact ⟨s, [], rfl, hs⟩
  | cons i is ih =>
    obtain ⟨v, o, hv, hI⟩ := hslot (s.lookup (M.key i)) i (hs _) (hi i (by simp))
    have hput : ∀ k, ∀ e ∈ (put s (M.key i) v).lookup k, I e := by
      intro k e he
      by_cases hk : k = M.key i
      · subst hk
        rw [lookup_put_self] at he
        exact hI e he
      · rw [lookup_put_ne s hk] at he
        exact hs k e he
    obtain ⟨s', os, hrun, hs'⟩ := ih hput fun j hj => hi j (by simp [hj])
    refine ⟨s', o :: os, ?_, hs'⟩
    rw [run, step, hv]
    simp [hrun]

end Machine

/-- One slot, described in other terms. `valid` are the calls the description covers. -/
structure Spec (M : Machine κ σ ι ω) (τ : Type) where
  init : τ
  next : τ → ι → τ × ω
  abs : τ → Option σ
  valid : ι → Prop
  abs_init : abs init = none
  refines : ∀ t i, valid i → M.slot (abs t) i = some (abs (next t i).1, (next t i).2)

namespace Spec
variable {M : Machine κ σ ι ω} (S : Spec M τ)

/-- The slot under `k` after the calls `past`: calls on other keys leave it alone. -/
def state (past : List ι) (k : κ) : τ :=
  past.foldl (fun t i => if M.key i = k then (S.next t i).1 else t) S.init

/-- What the call `i` is answered after `past`. -/
def reply (past : List ι) (i : ι) : ω := (S.next (S.state past (M.key i)) i).2

def replies (past : List ι) : List ι → List ω
  | [] => []
  | i :: is => S.reply past i :: replies (past ++ [i]) is

@[simp] theorem state_nil (k : κ) : S.state [] k = S.init := rfl

theorem state_snoc (past : List ι) (i : ι) (k : κ) :
    S.state (past ++ [i]) k = if M.key i = k then (S.next (S.state past k) i).1 else S.state past k := by
  simp [state]

theorem state_snoc_self (past : List ι) (i : ι) :
    S.state (past ++ [i]) (M.key i) = (S.next (S.state past (M.key i)) i).1 := by
  simp [state_snoc]

/-- Only the calls on a key count for its slot. -/
theorem state_filter (past : List ι) (k : κ) : S.state (past.filter fun i => M.key i = k) k = S.state past k := by
  induction past using List.reverseRecOn with
  | nil => rfl
  | append_singleton past i ih =>
    rw [List.filter_append, state_snoc S past]
    by_cases hk : M.key i = k
    · rw [show [i].filter (fun i => M.key i = k) = [i] by simp [hk], state_snoc, ih]
    · rw [show [i].filter (fun i => M.key i = k) = [] by simp [hk], List.append_nil, ih, if_neg hk]

@[simp] theorem replies_length (past is : List ι) : (S.replies past is).length = is.length := by
  induction is generalizing past with
  | nil => rfl
  | cons i is ih => simp [replies, ih]

theorem replies_snoc (past is : List ι) (i : ι) :
    S.replies past (is ++ [i]) = S.replies past is ++ [S.reply (past ++ is) i] := by
  induction is generalizing past with
  | nil => simp [replies]
  | cons j is ih => simp [replies, ih]

theorem step_refines {s : Store κ σ} {past : List ι} (hs : ∀ k, s.lookup k = S.abs (S.state past k))
    {i : ι} (hi : S.valid i) :
    ∃ s', M.step s i = some (s', S.reply past i) ∧ ∀ k, s'.lookup k = S.abs (S.state (past ++ [i]) k) := by
  refine ⟨put s (M.key i) (S.abs (S.next (S.state past (M.key i)) i).1), ?_, fun k => ?_⟩
  · rw [Machine.step, hs, S.refines _ _ hi]
    rfl
  · by_cases hk : k = M.key i
    · subst hk
      rw [lookup_put_self, state_snoc_self]
    · rw [lookup_put_ne s hk, hs, state_snoc, if_neg (Ne.symm hk)]

/-- **The map refines its slots.** -/
theorem run_refines {s : Store κ σ} {past : List ι} (hs : ∀ k, s.lookup k = S.abs (S.state past k))
    {is : List ι} (hi : ∀ i ∈ is, S.valid i) :
    ∃ s', M.run s is = some (s', S.replies past is) ∧ ∀ k, s'.lookup k = S.abs (S.state (past ++ is) k) := by
  induction is generalizing s past with
  | nil => exact ⟨s, rfl, by simpa using hs⟩
  | cons i is ih =>
    obtain ⟨s₁, h₁, hs₁⟩ := S.step_refines hs (hi i (by simp))
    obtain ⟨s₂, h₂, hs₂⟩ := ih hs₁ fun j hj => hi j (by simp [hj])
    refine ⟨s₂, ?_, by simpa using hs₂⟩
    rw [Machine.run, h₁, Option.bind_eq_bind, Option.bind_some]
    simp [h₂, replies]

/-- A map that agrees with `past` has one entry for each key whose slot is open. -/
theorem keys_eq {s : Store κ σ} {past : List ι} (hs : ∀ k, s.lookup k = S.abs (S.state past k))
    {ks : Finset κ} (hks : ∀ k, (S.abs (S.state past k)).isSome → k ∈ ks) :
    s.keys = ks.filter fun k => (S.abs (S.state past k)).isSome := by
  ext k
  rw [Finmap.mem_keys, ← Finmap.lookup_isSome, hs, Finset.mem_filter]
  exact ⟨fun h => ⟨hks k h, h⟩, fun h => h.2⟩

end Spec
end Keyed
