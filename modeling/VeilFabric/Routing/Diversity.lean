import VeilFabric.Routing.PathSelection
import VeilFabric.Lib.Repeats

/-!
# What `select_diverse_path` selects (`veil-routing/src/path_selection.rs:56`)

With `U` relays of unknown subnet and `D` different subnets, the first loop keeps all of the former and one
relay of each of the latter, `U + D` relays without a repeated subnet, and sets the others aside. The path is
the kept relays and then the ones set aside, cut at `hop_count` (`selectDiversePath_eq`). So the number of
repeats is the least that any choice of `hop_count` relays has (`selectDiversePath_optimal`).

The order is another matter. `select_path` can draw every choice in every order (`reached_by_selectPath`); here
a relay that was set aside comes after all the kept ones, so as soon as the second loop is needed some orders
of an equally good choice cannot be drawn (`reachesEvery_iff`).
-/

namespace VeilFabric
open Wire Repeats

/-- The subnet a relay is counted under. -/
def RelayInfo.subnet (relay : RelayInfo) : Option (UInt8 × UInt8 × UInt8) := subnetKey relay.address

/-- Relays of a path with a known subnet, minus the number of different subnets among them. -/
abbrev subnetRepeats (path : List RelayInfo) : Nat := repeats RelayInfo.subnet path

namespace Topology

/-- The relays without a subnet key. -/
abbrev unknownSubnets (self : Topology) : Nat := unknown RelayInfo.subnet self.relays

/-- The different subnet keys. -/
abbrev knownSubnets (self : Topology) : Nat := kinds RelayInfo.subnet self.relays

/-- An ordered choice of `hopCount` relays with different ids. -/
structure Choice (topology : Topology) (hopCount : Nat) (path : List RelayInfo) : Prop where
  length : path.length = hopCount
  mem : path ⊆ topology.relays
  distinct : (path.map RelayInfo.id).Nodup

variable {topology : Topology} {n : Nat} {path path' : List RelayInfo}

theorem Choice.subperm (h : topology.Choice n path) : List.Subperm path topology.relays :=
  (List.Nodup.of_map _ h.distinct).subperm h.mem

theorem Choice.of_subperm (h : List.Subperm path topology.relays) (hn : path.length = n) : topology.Choice n path where
  length := hn
  mem := h.subset
  distinct := by
    obtain ⟨l, hperm, hsub⟩ := h
    exact (hperm.map _).nodup_iff.1 ((hsub.map _).nodup topology.ids_nodup)

theorem Choice.perm (h : topology.Choice n path) (hp : path'.Perm path) : topology.Choice n path' :=
  .of_subperm (hp.subperm.trans h.subperm) (hp.length_eq.trans h.length)

end Topology

/-! ## The first loop -/

/-- The loop invariant: the kept relays stand for different subnets, those set aside for one of these. -/
structure Picked (s : Selection) : Prop where
  used : s.usedSubnets = s.path.filterMap RelayInfo.subnet
  nodup : s.usedSubnets.Nodup
  aside : ∀ r ∈ s.leftover, ∃ k ∈ s.usedSubnets, r.subnet = some k

theorem selectStep_picked {s : Selection} (h : Picked s) (r : RelayInfo) : Picked (selectStep s r) := by
  cases hk : subnetKey r.address with
  | none =>
    rw [selectStep_unknown hk]
    refine ⟨?_, h.nodup, h.aside⟩
    simp [h.used, RelayInfo.subnet, hk]
  | some k =>
    by_cases hu : k ∈ s.usedSubnets
    · rw [selectStep_used hk hu]
      refine ⟨h.used, h.nodup, ?_⟩
      intro r' hr'
      rcases List.mem_append.1 hr' with hr' | hr'
      · exact h.aside r' hr'
      · rw [List.mem_singleton.1 hr']
        exact ⟨k, hu, hk⟩
    · rw [selectStep_new hk hu]
      refine ⟨?_, ?_, ?_⟩
      · simp [h.used, RelayInfo.subnet, hk]
      · exact List.nodup_append.2 ⟨h.nodup, List.nodup_singleton k, by rintro a ha b hb rfl; simp_all⟩
      · intro r' hr'
        obtain ⟨k', hk', hr'⟩ := h.aside r' hr'
        exact ⟨k', List.mem_append_left _ hk', hr'⟩

theorem foldl_picked {s : Selection} (h : Picked s) (l : List RelayInfo) : Picked (l.foldl selectStep s) := by
  induction l generalizing s with
  | nil => exact h
  | cons r l ih => exact ih (selectStep_picked h r)

theorem firstPass_picked (candidates : List RelayInfo) : Picked (firstPass candidates) :=
  foldl_picked ⟨rfl, List.nodup_nil, by simp⟩ candidates

theorem Picked.noRepeats {s : Selection} (h : Picked s) : (s.path.filterMap RelayInfo.subnet).Nodup :=
  h.used ▸ h.nodup

/-- The kept relays are all those of unknown subnet and one of each known one. -/
theorem Picked.counts {s : Selection} (h : Picked s) {l : List RelayInfo} (hl : (s.path ++ s.leftover).Perm l) :
    unknown RelayInfo.subnet s.path = unknown RelayInfo.subnet l ∧
    kinds RelayInfo.subnet s.path = kinds RelayInfo.subnet l := by
  have haside : unknown RelayInfo.subnet s.leftover = 0 := by
    rw [unknown, List.countP_eq_zero]
    intro r hr
    obtain ⟨k, -, hk⟩ := h.aside r hr
    simp [hk]
  refine ⟨?_, ?_⟩
  · have hall : unknown RelayInfo.subnet (s.path ++ s.leftover) = unknown RelayInfo.subnet l := hl.countP_eq _
    have hsplit : unknown RelayInfo.subnet (s.path ++ s.leftover) =
        unknown RelayInfo.subnet s.path + unknown RelayInfo.subnet s.leftover := List.countP_append
    omega
  · refine le_antisymm (kinds_mono fun r hr => hl.subset (List.mem_append_left _ hr)) (Finset.card_le_card ?_)
    intro k hk
    obtain ⟨r, hr, hrk⟩ := mem_keys.1 hk
    rcases List.mem_append.1 (hl.symm.subset hr) with hr | hr
    · exact mem_keys.2 ⟨r, hr, hrk⟩
    · obtain ⟨k', hk', hrk'⟩ := h.aside r hr
      rw [hrk] at hrk'
      cases hrk'
      rw [h.used] at hk'
      simpa [keys] using hk'

theorem Picked.path_length {s : Selection} (h : Picked s) {l : List RelayInfo}
    (hl : (s.path ++ s.leftover).Perm l) :
    s.path.length = unknown RelayInfo.subnet l + kinds RelayInfo.subnet l := by
  obtain ⟨hu, hk⟩ := h.counts hl
  have hadd := repeats_add (f := RelayInfo.subnet) s.path
  rw [repeats_eq_zero_iff.2 h.noRepeats] at hadd
  omega

/-! ## The path -/

/-- The repeats of a path: none while the kept relays suffice, then one for each relay that was set aside. -/
theorem Picked.repeats_take {s : Selection} (h : Picked s) {l : List RelayInfo} (hl : (s.path ++ s.leftover).Perm l)
    {n : Nat} (hn : n ≤ l.length) :
    subnetRepeats ((s.path ++ s.leftover).take n) = n - unknown RelayInfo.subnet l - kinds RelayInfo.subnet l := by
  have hlen := h.path_length hl
  have htake : List.Sublist ((s.path ++ s.leftover).take n) (s.path ++ s.leftover) := List.take_sublist _ _
  by_cases hshort : n ≤ s.path.length
  · rw [List.take_append_of_le_length hshort]
    have hnodup : ((s.path.take n).filterMap RelayInfo.subnet).Nodup :=
      ((List.take_sublist _ _).filterMap _).nodup h.noRepeats
    rw [subnetRepeats, repeats_eq_zero_iff.2 hnodup]
    omega
  · -- all the kept relays are there, so nothing is missing of the unknown ones and of the subnets
    have hkept : List.Sublist s.path ((s.path ++ s.leftover).take n) := by
      rw [List.take_append, List.take_of_length_le (by omega)]
      exact List.sublist_append_left _ _
    obtain ⟨hu, hk⟩ := h.counts hl
    have hadd := repeats_add (f := RelayInfo.subnet) ((s.path ++ s.leftover).take n)
    have hcount := hl.length_eq
    rw [List.length_take, hcount, Nat.min_eq_left hn] at hadd
    have hsub : List.Subperm ((s.path ++ s.leftover).take n) l := htake.subperm.trans hl.subperm
    have hu₁ := unknown_mono (f := RelayInfo.subnet) hkept.subperm
    have hu₂ := unknown_mono (f := RelayInfo.subnet) hsub
    have hk₁ := kinds_mono (f := RelayInfo.subnet) hkept.subset
    have hk₂ := kinds_mono (f := RelayInfo.subnet) hsub.subset
    rw [subnetRepeats]
    omega

theorem choice_of_selectDiversePath {topology : Topology} {n : Nat} {candidates : Shuffle topology}
    {path : List RelayInfo} (h : selectDiversePath topology n candidates = .ok path) : topology.Choice n path := by
  obtain ⟨hlen, hsub, hnodup⟩ := selectDiversePath_ok h
  exact .of_subperm (hnodup.subperm hsub) hlen

theorem selectDiversePath_error_iff {topology : Topology} {n : Nat} (candidates : Shuffle topology) :
    (∃ e, selectDiversePath topology n candidates = .error e) ↔ topology.relays.length < n := by
  by_cases hn : topology.relays.length < n
  · rw [selectDiversePath_error candidates hn]
    simp [hn]
  · rw [selectDiversePath_eq candidates (by omega)]
    simp [hn]

/-- The repeats of the path drawn are what the topology forces. -/
theorem repeats_selectDiversePath {topology : Topology} {n : Nat} {candidates : Shuffle topology}
    {path : List RelayInfo} (h : selectDiversePath topology n candidates = .ok path) :
    subnetRepeats path = n - topology.unknownSubnets - topology.knownSubnets := by
  have hchoice := choice_of_selectDiversePath h
  have hn : n ≤ topology.relays.length := hchoice.length ▸ hchoice.subperm.length_le
  rw [selectDiversePath_eq candidates hn] at h
  cases h
  exact (firstPass_picked candidates.1).repeats_take ((firstPass_perm candidates.1).trans candidates.2) hn

/-- And no choice has fewer. -/
theorem Topology.Choice.le_repeats {topology : Topology} {n : Nat} {path : List RelayInfo}
    (h : topology.Choice n path) : n - topology.unknownSubnets - topology.knownSubnets ≤ subnetRepeats path := by
  have hle := Repeats.le_repeats (f := RelayInfo.subnet) h.subperm
  rwa [h.length] at hle

/-- **Diverse path selection is optimal**, whatever the shuffle: it fails only for want of relays, and otherwise
draws `hop_count` different relays with the fewest subnet repeats any such choice has, none when the relays of
unknown subnet and the subnets are enough. -/
theorem selectDiversePath_optimal (topology : Topology) (hopCount : Nat) (candidates : Shuffle topology) :
    ((∃ e, selectDiversePath topology hopCount candidates = .error e) ↔ topology.relays.length < hopCount) ∧
    ∀ path, selectDiversePath topology hopCount candidates = .ok path →
      topology.Choice hopCount path ∧
      subnetRepeats path = hopCount - topology.unknownSubnets - topology.knownSubnets ∧
      (∀ other, topology.Choice hopCount other → subnetRepeats path ≤ subnetRepeats other) ∧
      (hopCount ≤ topology.unknownSubnets + topology.knownSubnets →
        (path.filterMap RelayInfo.subnet).Nodup) := by
  refine ⟨selectDiversePath_error_iff candidates, fun path h => ?_⟩
  have hrep := repeats_selectDiversePath h
  refine ⟨choice_of_selectDiversePath h, hrep, ?_, ?_⟩
  · intro other hother
    rw [hrep]
    exact hother.le_repeats
  · intro henough
    apply repeats_eq_zero_iff.1
    rw [show repeats RelayInfo.subnet path = _ from hrep]
    omega

/-! ## Which orders can be drawn -/

/-- The loop only appends. -/
theorem foldl_selectStep_append (l : List RelayInfo) (s : Selection) :
    ∃ p q, (l.foldl selectStep s).path = s.path ++ p ∧ (l.foldl selectStep s).leftover = s.leftover ++ q := by
  induction l generalizing s with
  | nil => exact ⟨[], [], by simp, by simp⟩
  | cons r l ih =>
    obtain ⟨p, q, hp, hq⟩ := ih (selectStep s r)
    have hstep : ∃ p' q', (selectStep s r).path = s.path ++ p' ∧ (selectStep s r).leftover = s.leftover ++ q' := by
      rcases selectStep_deals s r with ⟨hp, hq⟩ | ⟨hp, hq⟩
      · exact ⟨[r], [], hp, by simp [hq]⟩
      · exact ⟨[], [r], by simp [hp], hq⟩
    obtain ⟨p', q', hp', hq'⟩ := hstep
    exact ⟨p' ++ p, q' ++ q, by rw [List.foldl_cons, hp, hp', List.append_assoc],
      by rw [List.foldl_cons, hq, hq', List.append_assoc]⟩

/-- Candidates of new subnets are kept, in their order. -/
theorem foldl_selectStep_fresh {l : List RelayInfo} {s : Selection}
    (h : (s.usedSubnets ++ l.filterMap RelayInfo.subnet).Nodup) :
    (l.foldl selectStep s).path = s.path ++ l ∧ (l.foldl selectStep s).leftover = s.leftover := by
  induction l generalizing s with
  | nil => simp
  | cons r l ih =>
    rw [List.foldl_cons]
    cases hk : r.subnet with
    | none =>
      have hstep := selectStep_unknown (s := s) hk
      rw [List.filterMap_cons_none hk] at h
      have hrest := ih (s := selectStep s r) (by rw [hstep]; exact h)
      rw [hrest.1, hrest.2, hstep]
      simp
    | some k =>
      rw [List.filterMap_cons_some hk] at h
      have hnew : k ∉ s.usedSubnets := by
        intro hmem
        exact (List.nodup_append.1 h).2.2 k hmem k (by simp) rfl
      have hstep := selectStep_new (s := s) hk hnew
      have hrest := ih (s := selectStep s r) (by rw [hstep]; simpa using h)
      rw [hrest.1, hrest.2, hstep]
      simp

/-- Candidates of used subnets are set aside, in their order. -/
theorem foldl_selectStep_used {l : List RelayInfo} {s : Selection}
    (h : ∀ r ∈ l, ∃ k ∈ s.usedSubnets, r.subnet = some k) :
    l.foldl selectStep s = { s with leftover := s.leftover ++ l } := by
  induction l generalizing s with
  | nil => simp
  | cons r l ih =>
    obtain ⟨k, hk, hr⟩ := h r (by simp)
    have hstep := selectStep_used (s := s) hr hk
    have hrest := ih (s := selectStep s r) fun r' hr' => by
      rw [hstep]
      exact h r' (List.mem_cons_of_mem _ hr')
    rw [List.foldl_cons, hrest, hstep]
    simp

/-- Every best choice, in every order, is what some shuffle yields. -/
def ReachesEvery (topology : Topology) (hopCount : Nat) : Prop :=
  ∀ path, topology.Choice hopCount path →
    (∀ other, topology.Choice hopCount other → subnetRepeats path ≤ subnetRepeats other) →
    ∃ candidates : Shuffle topology, selectDiversePath topology hopCount candidates = .ok path

section
variable {topology : Topology} {n : Nat} {path : List RelayInfo}

theorem firstPass_path_length (candidates : Shuffle topology) :
    (firstPass candidates.1).path.length = topology.unknownSubnets + topology.knownSubnets :=
  (firstPass_picked candidates.1).path_length ((firstPass_perm candidates.1).trans candidates.2)

/-- A shuffle that puts the wanted path first. -/
theorem Topology.Choice.exists_shuffle (h : topology.Choice n path) :
    ∃ (candidates : Shuffle topology) (rest : List RelayInfo), candidates.1 = path ++ rest := by
  obtain ⟨l, hperm, hsub⟩ := h.subperm
  obtain ⟨rest, hrest⟩ := hsub.exists_perm_append
  exact ⟨⟨path ++ rest, (hrest.trans (hperm.append_right rest)).symm⟩, rest, rfl⟩

theorem Topology.Choice.le_size (h : topology.Choice n path) : n ≤ topology.relays.length :=
  h.length ▸ h.subperm.length_le

/-- `select_path` draws every choice in every order. -/
theorem reached_by_selectPath (h : topology.Choice n path) :
    ∃ candidates : Shuffle topology, selectPath topology n candidates = .ok path := by
  obtain ⟨candidates, rest, hcand⟩ := h.exists_shuffle
  have hlen := h.length
  refine ⟨candidates, ?_⟩
  rw [selectPath, hcand, if_neg (by rw [List.length_append]; omega), ← hlen, List.take_left]

/-- A path without repeats is drawn by putting it first. -/
theorem reached_of_noRepeats (h : topology.Choice n path) (hrep : (path.filterMap RelayInfo.subnet).Nodup) :
    ∃ candidates : Shuffle topology, selectDiversePath topology n candidates = .ok path := by
  obtain ⟨candidates, rest, hcand⟩ := h.exists_shuffle
  refine ⟨candidates, ?_⟩
  obtain ⟨hpath, -⟩ := foldl_selectStep_fresh (l := path) (s := ⟨[], [], []⟩) hrep
  obtain ⟨p, q, hp, hq⟩ := foldl_selectStep_append rest (path.foldl selectStep ⟨[], [], []⟩)
  rw [selectDiversePath_eq candidates h.le_size, firstPass, hcand, List.foldl_append, hp, hpath, ← h.length]
  simp

/-- So is any path when all relays share one subnet. -/
theorem reached_of_oneSubnet (h : topology.Choice n path) {k : UInt8 × UInt8 × UInt8}
    (hk : ∀ r ∈ topology.relays, r.subnet = some k) :
    ∃ candidates : Shuffle topology, selectDiversePath topology n candidates = .ok path := by
  obtain ⟨candidates, rest, hcand⟩ := h.exists_shuffle
  refine ⟨candidates, ?_⟩
  rw [selectDiversePath_eq candidates h.le_size]
  have hall : ∀ r ∈ candidates.1, r.subnet = some k := fun r hr => hk r (candidates.2.subset hr)
  rw [hcand] at hall ⊢
  cases path with
  | nil => simp [← h.length]
  | cons r path =>
    have hstep : selectStep ⟨[], [], []⟩ r = ⟨[r], [k], []⟩ := selectStep_new (hall r (by simp)) (by simp)
    rw [firstPass, List.cons_append, List.foldl_cons, hstep, foldl_selectStep_used]
    · simp [← h.length]
    · intro r' hr'
      exact ⟨k, by simp, hall r' (by rw [List.cons_append]; exact List.mem_cons_of_mem _ hr')⟩

/-- With `hop_count` beyond `U + D` and at most one of these, the relays all share one subnet. -/
theorem oneSubnet {topology : Topology} {n : Nat} (hn : n ≤ topology.relays.length)
    (hmany : topology.unknownSubnets + topology.knownSubnets < n)
    (hone : topology.unknownSubnets + topology.knownSubnets ≤ 1) :
    ∃ k, ∀ r ∈ topology.relays, r.subnet = some k := by
  have hD : topology.knownSubnets ≠ 0 := by
    intro hD
    have hlen : _ + topology.unknownSubnets = _ := length_filterMap_add_unknown topology.relays
    have hnil : topology.relays.filterMap RelayInfo.subnet = [] := by
      rwa [Topology.knownSubnets, kinds, keys, Finset.card_eq_zero, List.toFinset_eq_empty_iff] at hD
    rw [hnil] at hlen
    simp only [List.length_nil] at hlen
    omega
  have hU : topology.unknownSubnets = 0 := by omega
  obtain ⟨k, hk⟩ := Finset.card_eq_one.1 (show topology.knownSubnets = 1 by omega)
  refine ⟨k, fun r hr => ?_⟩
  have hsome := List.countP_eq_zero.1 hU r hr
  cases hsub : r.subnet with
  | none => simp [hsub] at hsome
  | some k' =>
    have hmem : k' ∈ keys RelayInfo.subnet topology.relays := mem_keys.2 ⟨r, hr, hsub⟩
    rw [hk, Finset.mem_singleton] at hmem
    rw [hmem]

/-- A path drawn with two relays kept or more does not start with two of one subnet. -/
theorem head_subnets_ne {a b : RelayInfo} {rest : List RelayInfo} {k : UInt8 × UInt8 × UInt8}
    (htwo : 2 ≤ topology.unknownSubnets + topology.knownSubnets) (ha : a.subnet = some k) (hb : b.subnet = some k)
    (candidates : Shuffle topology) : selectDiversePath topology n candidates ≠ .ok (a :: b :: rest) := by
  intro h
  have hpicked := firstPass_picked candidates.1
  have hlen := firstPass_path_length candidates
  have hchoice := choice_of_selectDiversePath h
  rw [selectDiversePath_eq candidates hchoice.le_size] at h
  have hnodup := hpicked.noRepeats
  have hn := hchoice.length
  cases hp : (firstPass candidates.1).path with
  | nil => simp [hp] at hlen; omega
  | cons x xs =>
    cases xs with
    | nil => simp [hp] at hlen; omega
    | cons y ys =>
      rw [hp] at h hnodup
      obtain ⟨m, rfl⟩ : ∃ m, n = m + 2 := ⟨rest.length, by rw [← hn]; rfl⟩
      simp only [List.cons_append, List.take_succ_cons, Except.ok.injEq, List.cons.injEq] at h
      obtain ⟨rfl, rfl, -⟩ := h
      rw [List.filterMap_cons_some ha, List.filterMap_cons_some hb] at hnodup
      simp at hnodup

/-- A best choice that starts with two relays of one subnet. -/
theorem exists_choice_same_subnet (hn : n ≤ topology.relays.length)
    (hmany : topology.unknownSubnets + topology.knownSubnets < n) :
    ∃ a b rest k, topology.Choice n (a :: b :: rest) ∧ a.subnet = some k ∧ b.subnet = some k ∧
      subnetRepeats (a :: b :: rest) = n - topology.unknownSubnets - topology.knownSubnets := by
  have hsel := selectDiversePath_eq ⟨topology.relays, .refl _⟩ hn
  have hchoice := choice_of_selectDiversePath hsel
  have hrep := repeats_selectDiversePath hsel
  have hpicked := firstPass_picked topology.relays
  have hperm := firstPass_perm topology.relays
  have hlen := firstPass_path_length (⟨topology.relays, .refl _⟩ : Shuffle topology)
  have hall := hperm.length_eq
  simp only at hsel hlen
  generalize firstPass topology.relays = s at *
  obtain ⟨path, used, leftover⟩ := s
  simp only at hpicked hall hlen
  -- the first relay set aside, and the kept one of its subnet
  cases leftover with
  | nil => simp at hall hlen; omega
  | cons b leftover =>
    obtain ⟨k, hk, hb⟩ := hpicked.aside b (by simp)
    rw [hpicked.used] at hk
    obtain ⟨a, hmem, ha⟩ := List.mem_filterMap.1 hk
    obtain ⟨pre, post, rfl⟩ := List.append_of_mem hmem
    obtain ⟨m, hm⟩ : ∃ m, n = (pre ++ a :: post).length + (m + 1) :=
      ⟨n - (pre ++ a :: post).length - 1, by simp at hlen ⊢; omega⟩
    have htake : (pre ++ a :: post ++ b :: leftover).take n = pre ++ a :: post ++ b :: leftover.take m := by
      rw [hm, List.take_length_add_append, List.take_succ_cons]
    have hmove : (a :: b :: (pre ++ post ++ leftover.take m)).Perm (pre ++ a :: post ++ b :: leftover.take m) := by
      have h1 : (b :: (pre ++ post ++ leftover.take m)).Perm (pre ++ post ++ b :: leftover.take m) :=
        List.perm_middle.symm
      have h2 : (a :: (pre ++ post ++ b :: leftover.take m)).Perm (pre ++ a :: post ++ b :: leftover.take m) := by
        rw [List.append_assoc, List.append_assoc, List.cons_append]
        exact List.perm_middle.symm
      exact (h1.cons a).trans h2
    simp only [htake] at hchoice hrep
    exact ⟨a, b, _, k, hchoice.perm hmove, ha, hb, (repeats_perm hmove).trans hrep⟩

/-- Beyond `U + D` hops some order is out of reach. -/
theorem not_reachesEvery (hn : n ≤ topology.relays.length)
    (hmany : topology.unknownSubnets + topology.knownSubnets < n)
    (htwo : 2 ≤ topology.unknownSubnets + topology.knownSubnets) : ¬ ReachesEvery topology n := by
  intro h
  obtain ⟨a, b, rest, k, hchoice, ha, hb, hrep⟩ := exists_choice_same_subnet hn hmany
  obtain ⟨candidates, hsel⟩ := h _ hchoice fun other hother => by
    rw [hrep]
    exact hother.le_repeats
  exact head_subnets_ne htwo ha hb candidates hsel

end

/-- **Exactly when no best path is barred.** Every order of every best choice can be drawn if and only if the
second loop is not needed (`hop_count ≤ U + D`), or there is but one subnet and no other relay. -/
theorem reachesEvery_iff {topology : Topology} {hopCount : Nat} (hn : hopCount ≤ topology.relays.length) :
    ReachesEvery topology hopCount ↔
      hopCount ≤ topology.unknownSubnets + topology.knownSubnets ∨
      topology.unknownSubnets + topology.knownSubnets ≤ 1 := by
  by_cases hfew : hopCount ≤ topology.unknownSubnets + topology.knownSubnets
  · refine iff_of_true (fun path hpath hbest => ?_) (.inl hfew)
    obtain ⟨best, hsel⟩ := selectDiversePath_isOk ⟨topology.relays, .refl _⟩ hn
    have hle := hbest best (choice_of_selectDiversePath hsel)
    rw [repeats_selectDiversePath hsel] at hle
    exact reached_of_noRepeats hpath (repeats_eq_zero_iff.1 (show subnetRepeats path = 0 by omega))
  by_cases hone : topology.unknownSubnets + topology.knownSubnets ≤ 1
  · refine iff_of_true (fun path hpath _ => ?_) (.inr hone)
    obtain ⟨k, hk⟩ := oneSubnet hn (by omega) hone
    exact reached_of_oneSubnet hpath hk
  · exact iff_of_false (not_reachesEvery hn (by omega) (by omega)) (by omega)

/-- Two relays of one /24 and a third elsewhere. -/
def sharedSubnet : Topology where
  relays := [⟨"relay-0", "10.0.1.1:9001", Arr.zeros 32⟩, ⟨"relay-1", "10.0.1.2:9001", Arr.zeros 32⟩,
    ⟨"relay-2", "10.0.2.1:9001", Arr.zeros 32⟩]
  ids_nodup := by decide

/-- Two hops fit its two subnets. -/
theorem reachesEvery_two : ReachesEvery sharedSubnet 2 :=
  (reachesEvery_iff (by decide)).2 (.inl (by decide))

/-- Three hops do not: all three relays are needed, and the two that share a subnet never come first. -/
theorem sharedSubnet_barred :
    sharedSubnet.Choice 3 sharedSubnet.relays ∧
    (∀ other, sharedSubnet.Choice 3 other → subnetRepeats sharedSubnet.relays ≤ subnetRepeats other) ∧
    ∀ candidates, selectDiversePath sharedSubnet 3 candidates ≠ .ok sharedSubnet.relays := by
  refine ⟨⟨rfl, List.Subset.refl _, sharedSubnet.ids_nodup⟩, fun other hother => ?_, fun candidates => ?_⟩
  · have hrep : subnetRepeats sharedSubnet.relays =
        3 - sharedSubnet.unknownSubnets - sharedSubnet.knownSubnets := by decide
    rw [hrep]
    exact hother.le_repeats
  · exact head_subnets_ne (k := (10, 0, 1)) (by decide) (by decide) (by decide) candidates

end VeilFabric
