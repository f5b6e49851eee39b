import VeilFabric.Routing.Diversity
import VeilFabric.Lib.Arrangements

/-!
# How evenly paths are drawn (`veil-routing/src/path_selection.rs:23-97`)

`shuffle` leaves every order of the candidates equally often. So what a selection draws how often is a matter of counting
orders: `shuffles` lists them.

`selection_uniform`: `select_path` draws all ordered choices of relays equally often. `select_diverse_path` does the same
on a topology that is diverse already. On any other topology it still enters the fabric evenly: the entry relay is
the first candidate, whatever subnets there are.
-/

namespace VeilFabric
open Arrangements

/-- The orders in which the shuffle may leave the relays, each once. -/
def shuffles (topology : Topology) : List (Shuffle topology) :=
  topology.relays.permutations.attach.map fun l => ⟨l.1, List.mem_permutations.1 l.2⟩

variable {topology : Topology} {n : Nat}

theorem countP_shuffles (p : List RelayInfo → Bool) :
    (shuffles topology).countP (fun c => p c.1) = topology.relays.permutations.countP p := by
  rw [shuffles, List.countP_map]
  exact List.countP_attach (l := topology.relays.permutations)

theorem selectPath_eq (hn : n ≤ topology.relays.length) (c : Shuffle topology) :
    selectPath topology n c = .ok (c.1.take n) := by
  rw [selectPath, c.2.length_eq, if_neg (Nat.not_lt.2 hn)]

/-- If no known subnet comes twice, nothing is set aside. -/
theorem selectDiversePath_eq_selectPath (h : (topology.relays.filterMap RelayInfo.subnet).Nodup)
    (hn : n ≤ topology.relays.length) (c : Shuffle topology) :
    selectDiversePath topology n c = selectPath topology n c := by
  have hfresh : (c.1.filterMap RelayInfo.subnet).Nodup := (c.2.filterMap _).nodup_iff.2 h
  obtain ⟨hpath, hleft⟩ := foldl_selectStep_fresh (l := c.1) (s := ⟨[], [], []⟩) hfresh
  rw [selectDiversePath_eq c hn, selectPath_eq hn, firstPass, hpath, hleft, List.nil_append, List.append_nil]

/-- The entry relay is the first candidate. -/
theorem selectDiversePath_head (hpos : 0 < n) (hn : n ≤ topology.relays.length) (c : Shuffle topology) :
    (selectDiversePath topology n c).toOption.bind List.head? = c.1.head? := by
  rw [selectDiversePath_eq c hn]
  obtain ⟨first, rest, hc⟩ := List.exists_cons_of_ne_nil (l := c.1) (by
    rintro hnil
    have hlen := c.2.length_eq
    rw [hnil, List.length_nil] at hlen
    omega)
  obtain ⟨m, rfl⟩ := Nat.exists_eq_succ_of_ne_zero (Nat.ne_of_gt hpos)
  have hstep : (selectStep ⟨[], [], []⟩ first).path = [first] := by
    cases hk : subnetKey first.address with
    | none => rw [selectStep_unknown hk]; rfl
    | some k => rw [selectStep_new hk (by simp)]; rfl
  obtain ⟨p, q, hp, -⟩ := foldl_selectStep_append rest (selectStep ⟨[], [], []⟩ first)
  rw [firstPass, hc, List.foldl_cons, hp, hstep]
  rfl

theorem isPrefixOf_iff_take {path l : List RelayInfo} : path.isPrefixOf l = true ↔ l.take path.length = path := by
  rw [List.isPrefixOf_iff_prefix, List.prefix_iff_eq_take, eq_comm]

/-- **Uniform selection.** Over all orders of the shuffle, `select_path` draws each ordered choice of `n` relays equally
often, `(N - n)!` times. If no known subnet comes twice `select_diverse_path` draws the same path from the same
order. And on every topology it draws each relay as the entry equally often, `(N - 1)!` times. -/
theorem selection_uniform (topology : Topology) (n : Nat) (hn : n ≤ topology.relays.length) :
    (∀ path, topology.Choice n path →
      (shuffles topology).countP (fun c => (selectPath topology n c).toOption = some path) =
        (topology.relays.length - n).factorial) ∧
    ((topology.relays.filterMap RelayInfo.subnet).Nodup →
      ∀ c, selectDiversePath topology n c = selectPath topology n c) ∧
    (0 < n → ∀ r ∈ topology.relays,
      (shuffles topology).countP (fun c => (selectDiversePath topology n c).toOption.bind List.head? = some r) =
        (topology.relays.length - 1).factorial) := by
  refine ⟨fun path hpath => ?_, fun h => selectDiversePath_eq_selectPath h hn, fun hpos r hr => ?_⟩
  · have hcount := count_startsWith topology.relays_nodup hpath.subperm
    rw [hpath.length, ← countP_shuffles] at hcount
    rw [← hcount]
    refine List.countP_congr fun c _ => ?_
    rw [selectPath_eq hn, isPrefixOf_iff_take, hpath.length]
    simp [Except.toOption]
  · have hone : ([r] : List RelayInfo).Subperm topology.relays := List.singleton_subperm_iff.2 hr
    have hcount := count_startsWith topology.relays_nodup hone
    rw [List.length_singleton, ← countP_shuffles] at hcount
    rw [← hcount]
    refine List.countP_congr fun c _ => ?_
    rw [selectDiversePath_head hpos hn, isPrefixOf_iff_take]
    cases c.1 <;> simp

/-- Two of three relays share a subnet; each of the three is the entry in two of the six orders. -/
theorem selection_uniform_shared : sharedSubnet.relays.map (fun r => (shuffles sharedSubnet).countP
    fun c => (selectDiversePath sharedSubnet 2 c).toOption.bind List.head? = some r) = [2, 2, 2] := by
  rw [List.map_congr_left fun r hr => (selection_uniform sharedSubnet 2 (by decide)).2.2 (by decide) r hr]
  rfl

end VeilFabric
