import VeilFabric.Relay.Pool
import Mathlib.Algebra.Order.BigOperators.Group.Finset
import Mathlib.Data.Fintype.Basic

/-!
# Forwarding comes to an end (`veil-relay/src/node.rs:136-162`)

What `Pool.lean` leaves open about the calls of `forward`: that they return, that they use the connection of their
own next hop, and how many connections they open. The pool's lock is held by the call that dials
(`PoolInv.lock`), a connection's by the call that writes (`Inv.lock`), and neither waits for the other, so some
call can always go on; and every step takes something off `rank`.

* `forward_always_returns` — no deadlock and no endless retry: however the calls interleave and whatever fails, a
  run has at most `2 · |frame| + 10` steps for each call, and ends with every call returned and every lock free.
* `forward_never_misroutes` — all frames on a connection are for one next hop, the one it is pooled under.
* `one_connection_per_hop` — while no write has failed, there is one connection for each next hop, however many
  calls asked for it at once.
-/

namespace VeilFabric
namespace PoolState
open Wire Transition

variable {ι : Type}

/-! ## Who holds the locks and what is pooled -/

/-- The connection that a call has cloned out of the pool. -/
def conn : Pc → Option Nat
  | .lockConn _ c => some c
  | .writing _ c _ => some c
  | _ => none

/-- `hop c` is the address that connection `c` was dialled for. -/
structure PoolInv (nextHop : ι → String) (s : PoolState ι) (hop : Nat → String) : Prop where
  lock : ∀ i, s.poolLock = some i ↔ ∃ a, s.pc i = .dialing a
  /-- The dialling call found no connection, and nobody else has put one there. -/
  missing : ∀ i a, s.pc i = .dialing a → s.pool (nextHop i) = none
  pooled : ∀ addr c, s.pool addr = some c → c < s.next ∧ hop c = addr ∧ ∃ i, nextHop i = addr
  uses : ∀ i c, conn (s.pc i) = some c → c < s.next ∧ hop c = nextHop i
  frames : ∀ c i, (c, i) ∈ s.done → c < s.next ∧ hop c = nextHop i
  evicting : ∀ i, s.pc i = .evicting → ∃ c, (s.links c).broken = true
  kept : (∀ c, (s.links c).broken = false) → ∀ c < s.next, s.pool (hop c) = some c

variable {nextHop : ι → String} {body : ι → Bytes} {s t : PoolState ι} {hop : Nat → String}

theorem poolInv_initial : PoolInv nextHop (initial : PoolState ι) fun _ => "" where
  lock i := by simp [initial]
  missing i a h := by cases h
  pooled addr c h := by cases h
  uses i c h := by cases h
  frames c i h := by cases h
  evicting i h := by cases h
  kept _ c h := absurd h (Nat.not_lt_zero c)

/-- One call dials at a time. -/
theorem PoolInv.dials_alone (h : PoolInv nextHop s hop) {i j : ι} {a b : Attempt} (hi : s.pc i = .dialing a)
    (hj : s.pc j = .dialing b) : j = i := by
  have h1 := (h.lock i).2 ⟨a, hi⟩
  have h2 := (h.lock j).2 ⟨b, hj⟩
  rw [h1] at h2
  exact (Option.some.inj h2).symm

variable [DecidableEq ι]

/-- A call moves without touching the pool. -/
theorem PoolInv.move (h : PoolInv nextHop s hop) {i : ι} {p : Pc} (hpc : t.pc = Function.update s.pc i p)
    (hpool : t.pool = s.pool) (hlock : t.poolLock = s.poolLock) (hnext : t.next = s.next)
    (hdone : ∀ c j, (c, j) ∈ t.done → (c, j) ∈ s.done ∨ j = i ∧ conn (s.pc i) = some c)
    (hbroken : ∀ c, (s.links c).broken = true → (t.links c).broken = true) (hfrom : ∀ a, s.pc i ≠ .dialing a)
    (hto : ∀ a, p ≠ .dialing a) (huses : ∀ c, conn p = some c → c < s.next ∧ hop c = nextHop i)
    (hevicting : p = .evicting → ∃ c, (t.links c).broken = true) : PoolInv nextHop t hop := by
  have hself : t.pc i = p := by rw [hpc, Function.update_self]
  have hother : ∀ j, j ≠ i → t.pc j = s.pc j := fun j hj => by rw [hpc, Function.update_of_ne hj]
  -- nobody starts or stops dialling
  have hdials : ∀ j a, t.pc j = .dialing a ↔ s.pc j = .dialing a := by
    intro j a
    by_cases hj : j = i
    · subst hj
      rw [hself]
      exact iff_of_false (hto a) (hfrom a)
    · rw [hother j hj]
  refine ⟨fun j => ?_, fun j a hj => ?_, ?_, fun j c hj => ?_, fun c j hj => ?_, fun j hj => ?_, fun hgood => ?_⟩
  · rw [hlock, h.lock j]
    simp only [hdials]
  · rw [hpool]
    exact h.missing j a ((hdials j a).1 hj)
  · rw [hpool, hnext]
    exact h.pooled
  · rw [hnext]
    by_cases hji : j = i
    · subst hji
      rw [hself] at hj
      exact huses c hj
    · rw [hother j hji] at hj
      exact h.uses j c hj
  · rw [hnext]
    rcases hdone c j hj with hj | ⟨rfl, hc⟩
    · exact h.frames c j hj
    · exact h.uses j c hc
  · by_cases hji : j = i
    · subst hji
      exact hevicting (hself.symm.trans hj)
    · rw [hother j hji] at hj
      exact (h.evicting j hj).imp hbroken
  · rw [hpool, hnext]
    refine h.kept fun c => ?_
    cases hb : (s.links c).broken with
    | false => rfl
    | true => exact absurd (hbroken c hb) (by rw [hgood c]; nofun)

/-- After the call `i` has moved, a fact about the place of `j` is about the new place or an old one. -/
theorem of_update (pc : ι → Pc) (i : ι) (p : Pc) {j : ι} {Q : Pc → Prop} (h : Q (Function.update pc i p j)) :
    j = i ∧ Q p ∨ j ≠ i ∧ Q (pc j) := by
  by_cases hj : j = i
  · subst hj
    rw [Function.update_self] at h
    exact .inl ⟨rfl, h⟩
  · rw [Function.update_of_ne hj] at h
    exact .inr ⟨hj, h⟩

theorem PoolInv.miss (h : PoolInv nextHop s hop) {i : ι} {a : Attempt} (hfree : s.poolLock = none)
    (hnone : s.pool (nextHop i) = none) :
    PoolInv nextHop { s with pc := Function.update s.pc i (.dialing a), poolLock := some i } hop := by
  have hnobody : ∀ j b, s.pc j ≠ .dialing b := by
    intro j b hj
    have hl := (h.lock j).2 ⟨b, hj⟩
    rw [hfree] at hl
    cases hl
  refine ⟨fun j => ?_, fun j b hj => ?_, h.pooled, fun j c hj => ?_, h.frames, fun j hj => ?_, h.kept⟩
  · by_cases hji : j = i
    · subst hji
      simp
    · simp [hji, Ne.symm hji, hnobody j]
  · rcases of_update s.pc i (.dialing a) (Q := fun q => q = .dialing b) hj with ⟨rfl, -⟩ | ⟨-, hj⟩
    · exact hnone
    · exact absurd hj (hnobody j b)
  · rcases of_update s.pc i (.dialing a) (Q := fun q => conn q = some c) hj with ⟨-, hj⟩ | ⟨-, hj⟩
    · cases hj
    · exact h.uses j c hj
  · rcases of_update s.pc i (.dialing a) (Q := fun q => q = .evicting) hj with ⟨-, hj⟩ | ⟨-, hj⟩
    · cases hj
    · exact h.evicting j hj

/-- When the dialling call goes on, nobody dials. -/
theorem PoolInv.nobody (h : PoolInv nextHop s hop) {i : ι} {a : Attempt} (hi : s.pc i = .dialing a) (p : Pc)
    (hp : ∀ b, p ≠ .dialing b) (j : ι) (b : Attempt) : Function.update s.pc i p j ≠ .dialing b := by
  intro hb
  rcases of_update s.pc i p (Q := fun q => q = .dialing b) hb with ⟨-, hb⟩ | ⟨hji, hb⟩
  · exact hp b hb
  · exact hji (h.dials_alone hi hb)

theorem PoolInv.dialFail (h : PoolInv nextHop s hop) {i : ι} {a : Attempt} (hi : s.pc i = .dialing a) :
    PoolInv nextHop { s with pc := Function.update s.pc i .err, poolLock := none } hop := by
  refine ⟨fun j => iff_of_false nofun fun ⟨b, hb⟩ => h.nobody hi .err nofun j b hb, fun j b hj => ?_, h.pooled,
    fun j c hj => ?_, h.frames, fun j hj => ?_, h.kept⟩
  · exact absurd hj (h.nobody hi .err nofun j b)
  · rcases of_update s.pc i .err (Q := fun q => conn q = some c) hj with ⟨-, hj⟩ | ⟨-, hj⟩
    · cases hj
    · exact h.uses j c hj
  · rcases of_update s.pc i .err (Q := fun q => q = .evicting) hj with ⟨-, hj⟩ | ⟨-, hj⟩
    · cases hj
    · exact h.evicting j hj

/-- The new connection is for the next hop of the call that dialled. -/
theorem PoolInv.dialOk (h : PoolInv nextHop s hop) (hinv : Inv body s) {i : ι} {a : Attempt} (hi : s.pc i = .dialing a) :
    PoolInv nextHop { s with
      pc := Function.update s.pc i (.lockConn a s.next)
      pool := Function.update s.pool (nextHop i) (some s.next)
      poolLock := none
      links := Function.update s.links s.next .new
      next := s.next + 1 } (Function.update hop s.next (nextHop i)) := by
  have hold : ∀ c < s.next, Function.update hop s.next (nextHop i) c = hop c := fun c hc =>
    Function.update_of_ne (Nat.ne_of_lt hc) _ _
  have hnew : Function.update s.links s.next .new = s.links :=
    Function.update_eq_self_iff.2 (hinv.fresh s.next (Nat.le_refl _)).symm
  rw [hnew]
  refine ⟨fun j => iff_of_false nofun fun ⟨b, hb⟩ => h.nobody hi (.lockConn a s.next) nofun j b hb,
    fun j b hj => ?_, fun addr c hc => ?_, fun j c hj => ?_, fun c j hj => ?_, fun j hj => ?_, fun hgood c hc => ?_⟩
  · exact absurd hj (h.nobody hi (.lockConn a s.next) nofun j b)
  · by_cases haddr : addr = nextHop i
    · subst haddr
      simp only [Function.update_self, Option.some.injEq] at hc
      subst hc
      exact ⟨Nat.lt_succ_self _, Function.update_self .., i, rfl⟩
    · simp only [Function.update_of_ne haddr] at hc
      obtain ⟨hlt, hhop, hused⟩ := h.pooled addr c hc
      exact ⟨Nat.lt_succ_of_lt hlt, (hold c hlt).trans hhop, hused⟩
  · rcases of_update s.pc i (.lockConn a s.next) (Q := fun q => conn q = some c) hj with ⟨rfl, hself⟩ | ⟨-, hj⟩
    · cases hself
      exact ⟨Nat.lt_succ_self _, Function.update_self ..⟩
    · obtain ⟨hlt, hhop⟩ := h.uses j c hj
      exact ⟨Nat.lt_succ_of_lt hlt, (hold c hlt).trans hhop⟩
  · obtain ⟨hlt, hhop⟩ := h.frames c j hj
    exact ⟨Nat.lt_succ_of_lt hlt, (hold c hlt).trans hhop⟩
  · rcases of_update s.pc i (.lockConn a s.next) (Q := fun q => q = .evicting) hj with ⟨-, hj⟩ | ⟨-, hj⟩
    · cases hj
    · exact h.evicting j hj
  · rcases Nat.lt_succ_iff_lt_or_eq.1 hc with hlt | rfl
    · -- the address was not pooled, so no other connection leaves the pool
      have hkept := h.kept hgood c hlt
      have hne : hop c ≠ nextHop i := by
        intro heq
        rw [heq, h.missing i a hi] at hkept
        cases hkept
      rw [hold c hlt]
      exact (Function.update_of_ne hne ..).trans hkept
    · rw [Function.update_self]
      exact Function.update_self ..

theorem PoolInv.evict (h : PoolInv nextHop s hop) {i : ι} (hi : s.pc i = .evicting) :
    PoolInv nextHop { s with
      pc := Function.update s.pc i (.lockPool .second)
      pool := Function.update s.pool (nextHop i) none } hop := by
  refine ⟨fun j => ?_, fun j b hj => ?_, fun addr c hc => ?_, fun j c hj => ?_, h.frames, fun j hj => ?_,
    fun hgood => ?_⟩
  · rw [h.lock j]
    by_cases hji : j = i
    · subst hji
      simp [hi]
    · simp [hji]
  · rcases of_update s.pc i (.lockPool .second) (Q := fun q => q = .dialing b) hj with ⟨-, hj⟩ | ⟨-, hj⟩
    · cases hj
    · by_cases haddr : nextHop j = nextHop i
      · simp [haddr]
      · simpa [haddr] using h.missing j b hj
  · by_cases haddr : addr = nextHop i
    · subst haddr
      simp at hc
    · simp only [Function.update_of_ne haddr] at hc
      exact h.pooled addr c hc
  · rcases of_update s.pc i (.lockPool .second) (Q := fun q => conn q = some c) hj with ⟨-, hj⟩ | ⟨-, hj⟩
    · cases hj
    · exact h.uses j c hj
  · rcases of_update s.pc i (.lockPool .second) (Q := fun q => q = .evicting) hj with ⟨-, hj⟩ | ⟨-, hj⟩
    · cases hj
    · exact h.evicting j hj
  · obtain ⟨c, hc⟩ := h.evicting i hi
    exact absurd (hgood c) (by rw [show (s.links c).broken = true from hc]; nofun)

omit [DecidableEq ι] in
theorem broken_update {links : Nat → Link ι} {c : Nat} {l : Link ι} (hl : (links c).broken = true → l.broken = true)
    (d : Nat) (h : (links d).broken = true) : (Function.update links c l d).broken = true := by
  by_cases hd : d = c
  · subst hd
    rw [Function.update_self]
    exact hl h
  · rwa [Function.update_of_ne hd]

theorem poolInv_step (h : PoolInv nextHop s hop) (hinv : Inv body s) (hst : Step nextHop body s t) :
    ∃ hop', PoolInv nextHop t hop' := by
  cases hst with
  | start i hi =>
    exact ⟨hop, h.move rfl rfl rfl rfl (fun _ _ => .inl) (fun _ => id) (by rw [hi]; nofun) nofun nofun nofun⟩
  | hit i a c hi _ hc =>
    refine ⟨hop, h.move rfl rfl rfl rfl (fun _ _ => .inl) (fun _ => id) (by rw [hi]; nofun) nofun ?_ nofun⟩
    rintro _ ⟨⟩
    obtain ⟨hlt, hhop, -⟩ := h.pooled _ c hc
    exact ⟨hlt, hhop⟩
  | miss i a _ hfree hnone => exact ⟨hop, h.miss hfree hnone⟩
  | dialOk i a hi => exact ⟨_, h.dialOk hinv hi⟩
  | dialFail i a hi => exact ⟨hop, h.dialFail hi⟩
  | lock i a c hi _ =>
    refine ⟨hop, h.move rfl rfl rfl rfl (fun _ _ => .inl) (broken_update id) (by rw [hi]; nofun) nofun ?_ nofun⟩
    rintro _ ⟨⟩
    exact h.uses i c (by rw [hi]; rfl)
  | write i a c chunk rest hi _ _ _ =>
    refine ⟨hop, h.move rfl rfl rfl rfl (fun _ _ => .inl) (broken_update id) (by rw [hi]; nofun) nofun ?_ nofun⟩
    rintro _ ⟨⟩
    exact h.uses i c (by rw [hi]; rfl)
  | writeLast i a c rest hi _ _ =>
    refine ⟨hop, h.move rfl rfl rfl rfl (fun d j hd => ?_) (broken_update id) (by rw [hi]; nofun) nofun ?_ nofun⟩
    · rcases List.mem_append.1 hd with hd | hd
      · exact .inl hd
      · cases List.mem_singleton.1 hd
        exact .inr ⟨rfl, by rw [hi]; rfl⟩
    · rintro _ ⟨⟩
      exact h.uses i c (by rw [hi]; rfl)
  | finish i a c hi =>
    exact ⟨hop, h.move rfl rfl rfl rfl (fun _ _ => .inl) (broken_update id) (by rw [hi]; nofun) nofun nofun nofun⟩
  | fail i a c rest hi _ =>
    refine ⟨hop, h.move rfl rfl rfl rfl (fun _ _ => .inl) (broken_update fun _ => rfl) (by rw [hi]; nofun)
      (by cases a <;> nofun) (by cases a <;> nofun) fun _ => ⟨c, by simp⟩⟩
  | evict i hi _ => exact ⟨hop, h.evict hi⟩

theorem poolInv_of_reachable (hs : (system nextHop body).Reachable s) : Inv body s ∧ ∃ hop, PoolInv nextHop s hop := by
  refine hs.invariant (I := fun s => Inv body s ∧ ∃ hop, PoolInv nextHop s hop) ?_ ?_
  · rintro _ rfl
    exact ⟨inv_initial, _, poolInv_initial⟩
  · rintro s t ⟨hinv, hop, h⟩ (hst : Step nextHop body s t)
    exact ⟨inv_step hinv hst, poolInv_step h hinv hst⟩

/-! ## No deadlock -/

/-- Returned. -/
def Returned (p : Pc) : Prop := p = .ok ∨ p = .err

/-- A call that waits for the pool's lock can go on, or the call that dials can. -/
theorem PoolInv.pool_step (h : PoolInv nextHop s hop)
    (hfree : s.poolLock = none → ∃ t, Step nextHop body s t) : ∃ t, Step nextHop body s t := by
  cases hlock : s.poolLock with
  | none => exact hfree hlock
  | some j =>
    obtain ⟨a, hj⟩ := (h.lock j).1 hlock
    exact ⟨_, .dialOk s j a hj⟩

/-- A call that is writing can go on. -/
theorem writing_step {i : ι} {a : Attempt} {c : Nat} {rest : Bytes} (hi : s.pc i = .writing a c rest) :
    ∃ t, Step nextHop body s t := by
  by_cases hrest : rest = []
  · subst hrest
    exact ⟨_, .finish s i a c hi⟩
  · cases hbroken : (s.links c).broken with
    | false => exact ⟨_, .writeLast s i a c rest hi hbroken hrest⟩
    | true => exact ⟨_, .fail s i a c rest hi hrest⟩

/-- As long as a call has not returned, some call can go on. -/
theorem PoolInv.progress (h : PoolInv nextHop s hop) (hinv : Inv body s) {i : ι} (hi : ¬ Returned (s.pc i)) :
    ∃ t, Step nextHop body s t := by
  cases hpc : s.pc i with
  | idle => exact ⟨_, .start s i hpc⟩
  | lockPool a =>
    refine h.pool_step fun hfree => ?_
    cases hpool : s.pool (nextHop i) with
    | none => exact ⟨_, .miss s i a hpc hfree hpool⟩
    | some c => exact ⟨_, .hit s i a c hpc hfree hpool⟩
  | dialing a => exact ⟨_, .dialOk s i a hpc⟩
  | lockConn a c =>
    cases hlock : (s.links c).lock with
    | none => exact ⟨_, .lock s i a c hpc hlock⟩
    | some j =>
      obtain ⟨b, rest, hj⟩ := (hinv.lock c j).1 hlock
      exact writing_step hj
  | writing a c rest => exact writing_step hpc
  | evicting => exact h.pool_step fun hfree => ⟨_, .evict s i hpc hfree⟩
  | ok => exact absurd (.inl hpc) hi
  | err => exact absurd (.inr hpc) hi

/-- A call that has returned does nothing more. -/
theorem not_step_of_returned (hall : ∀ i, Returned (s.pc i)) : ¬ Step nextHop body s t := by
  intro hst
  cases hst with
  | start i hi => rcases hall i with h | h <;> rw [hi] at h <;> cases h
  | hit i a c hi _ _ => rcases hall i with h | h <;> rw [hi] at h <;> cases h
  | miss i a hi _ _ => rcases hall i with h | h <;> rw [hi] at h <;> cases h
  | dialOk i a hi => rcases hall i with h | h <;> rw [hi] at h <;> cases h
  | dialFail i a hi => rcases hall i with h | h <;> rw [hi] at h <;> cases h
  | lock i a c hi _ => rcases hall i with h | h <;> rw [hi] at h <;> cases h
  | write i a c chunk rest hi _ _ _ => rcases hall i with h | h <;> rw [hi] at h <;> cases h
  | writeLast i a c rest hi _ _ => rcases hall i with h | h <;> rw [hi] at h <;> cases h
  | finish i a c hi => rcases hall i with h | h <;> rw [hi] at h <;> cases h
  | fail i a c rest hi _ => rcases hall i with h | h <;> rw [hi] at h <;> cases h
  | evict i hi _ => rcases hall i with h | h <;> rw [hi] at h <;> cases h

/-! ## No endless run -/

/-- A bound on the steps a call with a frame of `n` bytes has still to take. -/
def rank (n : Nat) : Pc → Nat
  | .idle => 2 * n + 10
  | .lockPool .first => 2 * n + 9
  | .dialing .first => 2 * n + 8
  | .lockConn .first _ => 2 * n + 7
  | .writing .first _ rest => rest.length + n + 6
  | .evicting => n + 5
  | .lockPool .second => n + 4
  | .dialing .second => n + 3
  | .lockConn .second _ => n + 2
  | .writing .second _ rest => rest.length + 1
  | .ok => 0
  | .err => 0

/-- A step moves one call, and closer to its end. -/
theorem Step.rank_lt (hst : Step nextHop body s t) : ∃ i p, t.pc = Function.update s.pc i p ∧
    rank (writeFrame (body i)).length p < rank (writeFrame (body i)).length (s.pc i) := by
  cases hst with
  | start i hi => exact ⟨i, _, rfl, by rw [hi]; simp only [rank]; omega⟩
  | hit i a c hi _ _ => exact ⟨i, _, rfl, by rw [hi]; cases a <;> simp only [rank] <;> omega⟩
  | miss i a hi _ _ => exact ⟨i, _, rfl, by rw [hi]; cases a <;> simp only [rank] <;> omega⟩
  | dialOk i a hi => exact ⟨i, _, rfl, by rw [hi]; cases a <;> simp only [rank] <;> omega⟩
  | dialFail i a hi => exact ⟨i, _, rfl, by rw [hi]; cases a <;> simp only [rank] <;> omega⟩
  | lock i a c hi _ => exact ⟨i, _, rfl, by rw [hi]; cases a <;> simp only [rank] <;> omega⟩
  | write i a c chunk rest hi _ hchunk _ =>
    have hpos := List.length_pos_of_ne_nil hchunk
    exact ⟨i, _, rfl, by rw [hi]; cases a <;> simp only [rank, List.length_append] <;> omega⟩
  | writeLast i a c rest hi _ hrest =>
    have hpos := List.length_pos_of_ne_nil hrest
    exact ⟨i, _, rfl, by rw [hi]; cases a <;> simp only [rank, List.length_nil] <;> omega⟩
  | finish i a c hi => exact ⟨i, _, rfl, by rw [hi]; cases a <;> simp only [rank] <;> omega⟩
  | fail i a c rest hi _ => exact ⟨i, _, rfl, by rw [hi]; cases a <;> simp only [rank] <;> omega⟩
  | evict i hi _ => exact ⟨i, _, rfl, by rw [hi]; simp only [rank]; omega⟩

section Finite
variable [Fintype ι]

theorem Step.sum_rank_lt (hst : Step nextHop body s t) :
    ∑ i, rank (writeFrame (body i)).length (t.pc i) + 1 ≤ ∑ i, rank (writeFrame (body i)).length (s.pc i) := by
  obtain ⟨i, p, hpc, hlt⟩ := hst.rank_lt
  have hi : rank (writeFrame (body i)).length (t.pc i) < rank (writeFrame (body i)).length (s.pc i) := by
    rwa [hpc, Function.update_self]
  refine Finset.sum_lt_sum (f := fun j => rank (writeFrame (body j)).length (t.pc j)) (fun j _ => ?_)
    ⟨i, Finset.mem_univ i, hi⟩
  simp only [hpc]
  by_cases hj : j = i
  · subst hj
    rw [Function.update_self]
    exact Nat.le_of_lt hlt
  · rw [Function.update_of_ne hj]

/-- **Every call of `forward` returns.** For any finite number of calls, whatever dials and writes fail and in
whatever pieces frames go out, a run has at most `2 * |frame| + 10` steps for each call. It can be stuck only when
every call has returned, with every lock free; so each run can be continued to that end. -/
theorem forward_always_returns (nextHop : ι → String) (body : ι → Bytes) (n : Nat) (s : PoolState ι)
    (h : Chain (Step nextHop body) n initial s) :
    n ≤ ∑ i, (2 * (4 + (body i).length) + 10) ∧
    ((∀ t, ¬ Step nextHop body s t) ↔ ∀ i, s.pc i = .ok ∨ s.pc i = .err) ∧
    ((∀ t, ¬ Step nextHop body s t) → s.poolLock = none ∧ ∀ c, (s.links c).lock = none) ∧
    ∃ j t, Chain (Step nextHop body) j s t ∧ ∀ i, t.pc i = .ok ∨ t.pc i = .err := by
  have hreach : ∀ {m u}, Chain (Step nextHop body) m initial u → (system nextHop body).Reachable u := fun hu =>
    Chain.reachable (S := system nextHop body) hu (.init rfl)
  have hstuck : ∀ {m u}, Chain (Step nextHop body) m initial u → (∀ t, ¬ Step nextHop body u t) →
      ∀ i, Returned (u.pc i) := by
    intro m u hu hend i
    obtain ⟨hinv, hop, hpool⟩ := poolInv_of_reachable (hreach hu)
    by_contra hi
    obtain ⟨t, hst⟩ := hpool.progress hinv hi
    exact hend t hst
  refine ⟨?_, ⟨hstuck h, fun hall t => not_step_of_returned hall⟩, fun hend => ?_, ?_⟩
  · have hle := h.measure_le (m := fun s => ∑ i, rank (writeFrame (body i)).length (s.pc i)) (k := 1)
      fun _ _ hst => hst.sum_rank_lt
    have hstart : ∑ i, rank (writeFrame (body i)).length ((initial : PoolState ι).pc i) =
        ∑ i, (2 * (4 + (body i).length) + 10) :=
      Finset.sum_congr rfl fun i _ => by simp only [initial, rank, writeFrame, Wire.writeFrame_length]
    simp only [hstart] at hle
    omega
  · obtain ⟨hinv, hop, hpool⟩ := poolInv_of_reachable (hreach h)
    have hall := hstuck h hend
    constructor
    · cases hlock : s.poolLock with
      | none => rfl
      | some i =>
        obtain ⟨a, hi⟩ := (hpool.lock i).1 hlock
        rcases hall i with e | e <;> rw [hi] at e <;> cases e
    · intro c
      cases hlock : (s.links c).lock with
      | none => rfl
      | some i =>
        obtain ⟨a, rest, hi⟩ := (hinv.lock c i).1 hlock
        rcases hall i with e | e <;> rw [hi] at e <;> cases e
  · have hhere : Chain (Step nextHop body) 0 s s := .nil s
    obtain ⟨m, t, hm, ht, hend⟩ := hhere.exists_end
      (m := fun s => ∑ i, rank (writeFrame (body i)).length (s.pc i)) Nat.one_pos fun _ _ hst => hst.sum_rank_lt
    exact ⟨m, t, ht, hstuck (h.trans ht) hend⟩

/-- Two calls with the same next hop. -/
theorem forward_always_returns_two : ∃ j t, Chain (Step (fun _ : Bool => "127.0.0.1:9002") fun _ => [7]) j initial t ∧
    ∀ i, t.pc i = .ok ∨ t.pc i = .err :=
  (forward_always_returns (fun _ : Bool => "127.0.0.1:9002") (fun _ => [7]) 0 initial (.nil _)).2.2.2

end Finite

/-! ## Which connection, and how many -/

/-- **No frame goes to another hop.** In every reachable state each connection belongs to one address: the pool has
it under that address, and the calls that wait for it, write to it or have completed a frame on it are calls
with that next hop. -/
theorem forward_never_misroutes (nextHop : ι → String) (body : ι → Bytes) (s : PoolState ι)
    (hs : (system nextHop body).Reachable s) (c : Nat) :
    ∃ hop, (∀ addr, s.pool addr = some c → addr = hop) ∧ (∀ i a, s.pc i = .lockConn a c → nextHop i = hop) ∧
      (∀ i a rest, s.pc i = .writing a c rest → nextHop i = hop) ∧ ∀ i ∈ s.framesOn c, nextHop i = hop := by
  obtain ⟨-, hop, h⟩ := poolInv_of_reachable hs
  refine ⟨hop c, fun addr hc => (h.pooled addr c hc).2.1.symm, fun i a hi => ?_, fun i a rest hi => ?_, fun i hi => ?_⟩
  · exact (h.uses i c (by rw [hi]; rfl)).2.symm
  · exact (h.uses i c (by rw [hi]; rfl)).2.symm
  · obtain ⟨⟨d, j⟩, hd, rfl⟩ := List.mem_map.1 hi
    obtain ⟨hmem, hdc⟩ := List.mem_filter.1 hd
    obtain rfl : d = c := by simpa using hdc
    exact (h.frames d j hmem).2.symm

/-- **One connection for each next hop.** At any time one call dials at most. While no write has failed, the
connections dialled are exactly the pooled ones, each under one address, and there are at most as many as the
calls have next hops, however many of them found the pool empty at the same time. -/
theorem one_connection_per_hop [Fintype ι] (nextHop : ι → String) (body : ι → Bytes) (s : PoolState ι)
    (hs : (system nextHop body).Reachable s) :
    (∀ i j a b, s.pc i = .dialing a → s.pc j = .dialing b → i = j) ∧
    ((∀ c, (s.links c).broken = false) →
      (∀ c < s.next, ∃! addr, s.pool addr = some c) ∧ s.next ≤ (Finset.univ.image nextHop).card) := by
  obtain ⟨-, hop, h⟩ := poolInv_of_reachable hs
  refine ⟨fun i j a b hi hj => h.dials_alone hj hi, fun hgood => ⟨fun c hc => ?_, ?_⟩⟩
  · exact ⟨hop c, h.kept hgood c hc, fun addr haddr => (h.pooled addr c haddr).2.1.symm⟩
  · -- `hop` sends the connections to different next hops
    have hinj : Set.InjOn hop (Finset.range s.next) := by
      intro c hc d hd hcd
      have hpc := h.kept hgood c (by simpa using hc)
      have hpd := h.kept hgood d (by simpa using hd)
      rw [hcd, hpd] at hpc
      exact (Option.some.inj hpc).symm
    have hmaps : ∀ c ∈ Finset.range s.next, hop c ∈ Finset.univ.image nextHop := by
      intro c hc
      obtain ⟨-, -, i, hi⟩ := h.pooled _ c (h.kept hgood c (by simpa using hc))
      exact Finset.mem_image.2 ⟨i, Finset.mem_univ i, hi⟩
    simpa using Finset.card_le_card_of_injOn hop hmaps hinj

/-- Two calls ask for the same hop; the second finds the connection of the first. -/
theorem two_share : ∃ s : PoolState Bool, (system (fun _ => "127.0.0.1:9002") fun _ => [7]).Reachable s ∧
    s.pc false = .lockConn .first 0 ∧ s.pc true = .lockConn .first 0 ∧ s.next = 1 ∧ ∀ c, (s.links c).broken = false := by
  have h0 : (system (fun _ : Bool => "127.0.0.1:9002") fun _ => [7]).Reachable initial := .init rfl
  have h1 := h0.step (Step.start _ false rfl)
  have h2 := h1.step (Step.start _ true (by simp [initial]))
  have h3 := h2.step (Step.miss _ false .first (by simp) rfl rfl)
  have h4 := h3.step (Step.dialOk _ false .first (by simp))
  have h5 := h4.step (Step.hit _ true .first 0 (by simp) rfl (by simp [initial]))
  refine ⟨_, h5, by simp [initial], by simp, rfl, fun c => ?_⟩
  by_cases hc : c = 0 <;> simp [initial, Link.new, hc]

theorem forward_never_misroutes_two : ∃ s : PoolState Bool, s.pc true = .lockConn .first 0 ∧
    ∃ hop, ∀ i a, s.pc i = .lockConn a 0 → "127.0.0.1:9002" = hop := by
  obtain ⟨s, hs, -, htrue, -, -⟩ := two_share
  obtain ⟨hop, -, hwait, -⟩ := forward_never_misroutes _ _ s hs 0
  exact ⟨s, htrue, hop, hwait⟩

theorem one_connection_per_hop_two : ∃ s : PoolState Bool, s.next = 1 ∧ ∃! addr, s.pool addr = some 0 := by
  obtain ⟨s, hs, -, -, hnext, hgood⟩ := two_share
  exact ⟨s, hnext, ((one_connection_per_hop _ _ s hs).2 hgood).1 0 (by omega)⟩

end PoolState
end VeilFabric
