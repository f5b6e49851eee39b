import VeilFabric.Sdk.Fabric
import Mathlib.Algebra.BigOperators.Group.Finset.Basic
import Mathlib.Data.Fintype.Basic

/-!
# The length of a run

Each step of the fabric brings one cell one place further (`Census.step`), and a cell has `|path| + 2` places to go: to
its first hop, through every relay and into the mailbox. So all complete runs are equally long, whatever the
interleaving (`fabric_run_length`).
-/

namespace VeilFabric
open Wire Queues

variable {P : Primitives}

namespace Fabric
variable {ι : Type}

section Runs
variable [DecidableEq ι] {net : Network P} {s t : Fabric P ι} {census : List (RoutedCell P × Place)}

/-- What the calls have written and what they have still to write. -/
structure Written (calls : ι → SendCall net) (s : Fabric P ι) : Prop where
  sent : ∀ r ∈ s.sent, ∃ i, r ∈ (calls i).routed
  pending : ∀ i, s.pending i <:+ (calls i).routed
  all : ∀ i, ∀ r ∈ (calls i).routed, r ∈ s.pending i ∨ r ∈ s.sent

omit [DecidableEq ι] in
theorem written_initial (net : Network P) (calls : ι → SendCall net) : Written calls (initial net calls) where
  sent := nofun
  pending _ := List.suffix_rfl
  all _ _ hr := .inl hr

theorem Written.step {calls : ι → SendCall net} (h : Written calls s) (hst : Step net s t) : Written calls t := by
  cases hst with
  | write i r rest hpending =>
    have hi := h.pending i
    rw [hpending] at hi
    refine ⟨fun x hx => ?_, fun j => ?_, fun j x hx => ?_⟩
    · rcases List.mem_append.1 hx with hx | hx
      · exact h.sent x hx
      · rw [List.mem_singleton.1 hx]
        exact ⟨i, hi.subset List.mem_cons_self⟩
    · by_cases hj : j = i
      · subst hj
        simpa using (List.suffix_cons r rest).trans hi
      · simpa [hj] using h.pending j
    · have hx' := h.all j x hx
      by_cases hj : j = i
      · subst hj
        rw [hpending, List.mem_cons] at hx'
        simp only [Function.update_self, List.mem_append, List.mem_singleton]
        tauto
      · simp only [Function.update_of_ne hj, List.mem_append]
        exact hx'.imp_right .inl
  | relay info source frame rest _ _ =>
    obtain ⟨hsent, hpending⟩ := s.handle_sent info.id ⟨source, info.address⟩ frame rest
    exact ⟨hsent ▸ h.sent, hpending ▸ h.pending, hsent ▸ hpending ▸ h.all⟩
  | deliver info body rest _ _ => exact ⟨h.sent, h.pending, h.all⟩

/-! ## When nothing can move any more -/

/-- A cell on a connection can be read by the relay it goes to. -/
theorem Census.readable (h : Census s census) (hP : P.Lawful)
    (hs : Sound net s) (hfit : ∀ r ∈ s.sent, r.FitsFrame) {r : RoutedCell P} {source : Source} {hop : Nat}
    (hmem : (r, .link source hop) ∈ census) : ∃ t, Step net s t := by
  have hhop := h.onPath r source hop hmem
  have hsent : r ∈ s.sent := h.once.mem_iff.1 (List.mem_map.2 ⟨_, hmem, rfl⟩)
  have hinfo : r.path[hop] ∈ net.relays.relays := hs.sent r hsent (List.getElem_mem hhop)
  have hlayer : r.layer hop ∈ queue spot census (.link ⟨source, r.path[hop].address⟩) :=
    mem_queue.2 ⟨_, hmem, by rw [spot, RoutedCell.hopAddress_eq hhop]⟩
  obtain ⟨b, bs, hq⟩ := List.exists_cons_of_ne_nil (List.ne_nil_of_mem hlayer)
  obtain ⟨⟨r', p⟩, hmem', hspot⟩ := mem_queue.1 (hq ▸ (List.mem_cons_self : b ∈ b :: bs))
  have hlt := (h.peel hP hs hfit hinfo hmem' hspot).1
  have hread : readFrame (s.streams ⟨source, r.path[hop].address⟩) = some (b, bs.flatMap writeFrame) := by
    rw [h.shows.streams, hq, List.flatMap_cons]
    exact Wire.readFrame_writeFrame hlt _
  exact ⟨_, .relay s r.path[hop] source b _ hinfo hread⟩

/-- An envelope in the channel can be moved to the mailbox. -/
theorem Census.deliverable (h : Census s census) (hs : Sound net s)
    {r : RoutedCell P} (hmem : (r, .channel) ∈ census) : ∃ t, Step net s t := by
  have hsent : r ∈ s.sent := h.once.mem_iff.1 (List.mem_map.2 ⟨_, hmem, rfl⟩)
  have hinfo : r.path.getLast r.path_ne ∈ net.relays.relays := hs.sent r hsent (List.getLast_mem _)
  have henv : r.envelope.1 ∈ s.channel (r.path.getLast r.path_ne).id := by
    rw [h.shows.channels]
    exact mem_queue.2 ⟨_, hmem, rfl⟩
  obtain ⟨body, rest, hfront⟩ := List.exists_cons_of_ne_nil (List.ne_nil_of_mem henv)
  exact ⟨_, .deliver s _ body rest hinfo hfront⟩

theorem Census.all_mailbox (h : Census s census) (hP : P.Lawful)
    (hs : Sound net s) (hfit : ∀ r ∈ s.sent, r.FitsFrame) (hq : ∀ t, ¬ Step net s t) :
    ∀ x ∈ census, x.2 = .mailbox := by
  rintro ⟨r, p⟩ hmem
  cases p with
  | link source hop =>
    obtain ⟨t, hst⟩ := h.readable hP hs hfit hmem
    exact absurd hst (hq t)
  | channel =>
    obtain ⟨t, hst⟩ := h.deliverable hs hmem
    exact absurd hst (hq t)
  | mailbox => rfl

/-! ## The work of a run -/

section Work
variable [Fintype ι]

/-- What the calls have still to write, each cell with its weight. -/
def unsent (s : Fabric P ι) (w : RoutedCell P → Nat) : Nat := ∑ i, ((s.pending i).map w).sum

theorem unsent_write {i : ι} {r : RoutedCell P} {rest : List (RoutedCell P)} (h : s.pending i = r :: rest)
    (w : RoutedCell P → Nat) : s.unsent w = w r + ∑ j, ((Function.update s.pending i rest j).map w).sum := by
  have hrest : ∑ j ∈ Finset.univ.erase i, ((Function.update s.pending i rest j).map w).sum =
      ∑ j ∈ Finset.univ.erase i, ((s.pending j).map w).sum :=
    Finset.sum_congr rfl fun j hj => by rw [Function.update_of_ne (Finset.ne_of_mem_erase hj)]
  rw [unsent, ← Finset.add_sum_erase Finset.univ _ (Finset.mem_univ i),
    ← Finset.add_sum_erase Finset.univ (fun j => ((Function.update s.pending i rest j).map w).sum) (Finset.mem_univ i),
    hrest, Function.update_self, h, List.map_cons, List.sum_cons, Nat.add_assoc]

/-- What the calls and the cells on their way have still to do. -/
def work (s : Fabric P ι) (census : List (RoutedCell P × Place)) : Nat :=
  s.unsent (fun r => r.path.length + 2) + distance census

/-- Every step does one unit of the work. -/
theorem Census.step (h : Census s census) (hP : P.Lawful) (hs : Sound net s) (hfit : ∀ r ∈ s.sent, r.FitsFrame)
    (hst : Step net s t) : ∃ census', Census t census' ∧ work t census' + 1 = work s census := by
  cases hst with
  | write i r rest hpending =>
    refine ⟨_, h.write r _, ?_⟩
    rw [work, work, unsent_write hpending, distance_append]
    simp only [unsent, distance, List.map_cons, List.map_nil, List.sum_cons, List.sum_nil, togo]
    omega
  | relay info source frame rest hinfo hread =>
    obtain ⟨-, census', hnext, hcloser⟩ := h.relay hP hs hfit hinfo hread
    refine ⟨census', hnext, ?_⟩
    rw [work, work, unsent, unsent, (s.handle_sent _ _ _ _).2]
    omega
  | deliver info body rest _ hfront =>
    obtain ⟨census', hnext, hcloser⟩ := h.deliver hfront
    refine ⟨census', hnext, ?_⟩
    simp only [work, unsent]
    omega

/-- The steps of a complete run. -/
def total (calls : ι → SendCall net) : Nat := ∑ i, ((calls i).routed.map fun r => r.path.length + 2).sum

open Transition in
theorem work_of_chain (hP : P.Lawful) {calls : ι → SendCall net}
    (hfit : ∀ i, ∀ r ∈ (calls i).routed, r.FitsFrame) {n : Nat} (h : Chain (Step net) n (initial net calls) s) :
    Sound net s ∧ Written calls s ∧ ∃ census, Census s census ∧ n + work s census = total calls := by
  generalize hinit : initial net calls = s₀ at h
  induction h with
  | nil =>
    subst hinit
    refine ⟨sound_initial net calls, written_initial net calls, [], census_initial net calls, ?_⟩
    simp [work, unsent, total, distance, initial]
  | snoc _ hst ih =>
    obtain ⟨hsound, hwritten, census, hcensus, hwork⟩ := ih hinit
    have hfit' := fun r hr => (hwritten.sent r hr).elim fun i hi => hfit i r hi
    obtain ⟨census', hcensus', hstep⟩ := hcensus.step hP hsound hfit' hst
    exact ⟨sound_step hsound hst, hwritten.step hst, census', hcensus', by omega⟩

/-- The work is done when nothing can move. -/
theorem work_eq_zero_iff (h : Census s census) (hP : P.Lawful) (hs : Sound net s) (hfit : ∀ r ∈ s.sent, r.FitsFrame) :
    (∀ t, ¬ Step net s t) ↔ work s census = 0 := by
  constructor
  · intro hq
    have hall := h.all_mailbox hP hs hfit hq
    have hpending : ∀ i, s.pending i = [] := fun i => by
      cases hi : s.pending i with
      | nil => rfl
      | cons r rest => exact absurd (.write s i r rest hi) (hq _)
    have hdistance : distance census = 0 := by
      refine List.sum_eq_zero fun n hn => ?_
      obtain ⟨⟨r, p⟩, hx, rfl⟩ := List.mem_map.1 hn
      rw [show p = .mailbox from hall (r, p) hx]
      rfl
    simp [work, unsent, hpending, hdistance]
  · intro hzero t hst
    obtain ⟨census', -, hstep⟩ := h.step hP hs hfit hst
    omega

open Transition in
/-- A chain is never longer than a complete run, and is one when nothing can move at its end. -/
theorem chain_bound (hP : P.Lawful) {calls : ι → SendCall net} (hfit : ∀ i, ∀ r ∈ (calls i).routed, r.FitsFrame)
    {n : Nat} (h : Chain (Step net) n (initial net calls) s) :
    n ≤ total calls ∧ ((∀ t, ¬ Step net s t) ↔ n = total calls) := by
  obtain ⟨hsound, hwritten, census, hcensus, hwork⟩ := work_of_chain hP hfit h
  have hfit' : ∀ r ∈ s.sent, r.FitsFrame := fun r hr => (hwritten.sent r hr).elim fun i hi => hfit i r hi
  refine ⟨by omega, ?_⟩
  rw [work_eq_zero_iff hcensus hP hsound hfit']
  omega

omit [Fintype ι] in
theorem sent_of_chain {n : Nat} (h : Transition.Chain (Step net) n s t) : s.sent <+: t.sent := by
  induction h with
  | nil => exact List.prefix_rfl
  | snoc _ hst ih => exact ih.trans hst.sent_extends

/-- No more cells are written than the calls have. -/
theorem sent_length_le {calls : ι → SendCall net} (hs : (system net calls).Reachable s) :
    s.sent.length ≤ ∑ i, (calls i).routed.length := by
  have hsum : s.sent.length + s.unsent (fun _ => 1) = ∑ i, (calls i).routed.length := by
    refine hs.invariant (I := fun s => s.sent.length + s.unsent (fun _ => 1) = ∑ i, (calls i).routed.length) ?_ ?_
    · rintro _ rfl
      simp [unsent, initial]
    · rintro s t h (hst : Step net s t)
      cases hst with
      | write i r rest hpending =>
        rw [unsent_write hpending] at h
        simp only [unsent, List.length_append, List.length_singleton]
        omega
      | relay info source frame rest _ _ =>
        obtain ⟨hsent, hpending⟩ := s.handle_sent info.id ⟨source, info.address⟩ frame rest
        rw [unsent, hpending, hsent]
        exact h
      | deliver info body rest _ _ => exact h
  omega

end Work
end Runs

/-! ## Two messages over two relays -/

def pairNetwork : Network .toy where
  relays := twoRelays "127.0.0.1:9002"
  keypair id := .ofSecret (flatKey (if id = "exit" then 1 else 0))
  keys r hr := by
    rcases List.mem_pair.1 hr with rfl | rfl
    · rfl
    · rfl
  addresses_nodup := by decide
  short r hr := by
    rcases List.mem_pair.1 hr with rfl | rfl
    · decide
    · decide

/-- Two calls of `send` with two cells each. -/
def pairCalls (first : Bool) : SendCall pairNetwork where
  client := twoHopClient
  known := List.Subset.refl _
  session := ⟨.ofSecret (flatKey 0), flatKey 0⟩
  message := (SentMessage.twoCells (if first then 1 else 2)).bytes
  messageId := (SentMessage.twoCells (if first then 1 else 2)).id
  draws _ := dataDraws _

theorem pairCalls_routed (first : Bool) : ∃ r r', (pairCalls first).routed = [r, r'] ∧
    ∀ x ∈ (pairCalls first).routed, x.path = twoHops "127.0.0.1:9002" := by
  obtain ⟨c, d, hcells⟩ := SentMessage.twoCells_cells (if first then 1 else 2)
  have hwf := (SentMessage.twoCells (if first then 1 else 2)).frag.wf
  have hrouted : (pairCalls first).routed = twoHopClient.routedCells ⟨.ofSecret (flatKey 0), flatKey 0⟩
      (fun _ => dataDraws _) 0 (SentMessage.twoCells (if first then 1 else 2)).cells := by
    unfold SendCall.routed
    simp only [pairCalls, (SentMessage.twoCells _).sent]
  have hlen : (pairCalls first).routed.length = 2 := by
    rw [hrouted, VeilClient.routedCells_length Primitives.toy_lawful hwf (by decide) (by decide), hcells]
    rfl
  obtain ⟨r, r', hr⟩ := List.length_eq_two.1 hlen
  refine ⟨r, r', hr, fun x hx => ?_⟩
  rw [hrouted] at hx
  exact twoHopClient_path hx

theorem pairCalls_fit (first : Bool) : ∀ r ∈ (pairCalls first).routed, r.FitsFrame := by
  obtain ⟨-, -, -, hpath⟩ := pairCalls_routed first
  intro r hr
  rw [RoutedCell.FitsFrame, hpath r hr]
  decide

end Fabric
end VeilFabric
