import VeilFabric.Core.Crypto
import Mathlib.Data.List.Perm.Basic
import Mathlib.Data.List.Nodup

/-!
# Topologies and path selection (`veil-routing/src/topology.rs`, `path_selection.rs`)

| here | there |
| --- | --- |
| `RelayInfo`, `Topology`     | topology.rs:8, :15; the `HashMap`'s values in one of its iteration orders |
| `Shuffle`                   | what `candidates.shuffle(rng)` may leave (path_selection.rs:68): the relays in any order |
| `selectPath`                | `select_path` (path_selection.rs:23) |
| `selectStep`, `fillFrom`    | the two loops of `select_diverse_path` (path_selection.rs:74-93) |
| `selectDiversePath`         | `select_diverse_path` (path_selection.rs:56) |
| `subnetKey`, `parseIpv4`    | `subnet_key` (path_selection.rs:104), `str::parse::<Ipv4Addr>` |

`selectDiversePath_ok` is what the rest of the fabric needs of a path: it is `hop_count` different relays
of the topology.
-/

namespace VeilFabric
open Wire

/-! ## Topologies -/

structure RelayInfo where
  id : String
  address : String
  publicKey : Key
deriving DecidableEq

structure Topology where
  relays : List RelayInfo
  ids_nodup : (relays.map RelayInfo.id).Nodup

namespace Topology

/-- `Topology::new` (topology.rs:20). -/
def new : Topology := ⟨[], List.nodup_nil⟩

/-- `Topology::add_relay` (topology.rs:26): a relay of the same id is replaced. -/
def addRelay (self : Topology) (relay : RelayInfo) : Topology where
  relays := relay :: self.relays.filter fun r => r.id ≠ relay.id
  ids_nodup := by
    rw [List.map_cons, List.nodup_cons]
    refine ⟨?_, (List.Sublist.map _ List.filter_sublist).nodup self.ids_nodup⟩
    simp

/-- `Topology::get` (topology.rs:30). -/
def get (self : Topology) (id : String) : Option RelayInfo := self.relays.find? fun r => r.id = id

/-- `Topology::len` (topology.rs:38). -/
def len (self : Topology) : Nat := self.relays.length

theorem relays_nodup (self : Topology) : self.relays.Nodup := List.Nodup.of_map _ self.ids_nodup

end Topology

/-- The relays of a topology, in the order the shuffle left them. -/
abbrev Shuffle (topology : Topology) := { l : List RelayInfo // l.Perm topology.relays }

/-! ## Subnets -/

/-- One octet as `Ipv4Addr` reads it: one to three digits, no leading zero, at most 255. -/
def parseOctet (cs : List Char) : Option UInt8 :=
  if cs = [] ∨ 3 < cs.length ∨ cs.any (fun c => !c.isDigit) then none
  else if cs.head? = some '0' ∧ cs ≠ ['0'] then none
  else
    let n := cs.foldl (fun n c => n * 10 + (c.toNat - '0'.toNat)) 0
    if n ≤ 255 then some (UInt8.ofNat n) else none

/-- `host.parse::<Ipv4Addr>()`. -/
def parseIpv4 (host : List Char) : Option (UInt8 × UInt8 × UInt8 × UInt8) :=
  match host.splitOn '.' with
  | [a, b, c, d] => do return (← parseOctet a, ← parseOctet b, ← parseOctet c, ← parseOctet d)
  | _ => none

/-- `subnet_key` (path_selection.rs:104); the host is what stands before the last colon. -/
def subnetKey (address : String) : Option (UInt8 × UInt8 × UInt8) :=
  match address.toList.reverse.dropWhile (· ≠ ':') with
  | [] => none
  | _ :: host => do
    let (a, b, c, _) ← parseIpv4 host.reverse
    return (a, b, c)

/-! ## Selection -/

inductive PathSelectionError where
  | insufficientRelays (needed available : Nat)
deriving DecidableEq, Repr

/-- `select_path` (path_selection.rs:23). -/
def selectPath (topology : Topology) (hopCount : Nat) (candidates : Shuffle topology) :
    Except PathSelectionError (List RelayInfo) :=
  if candidates.1.length < hopCount then .error (.insufficientRelays hopCount candidates.1.length)
  else .ok (candidates.1.take hopCount)

/-- The three vectors of `select_diverse_path`. -/
structure Selection where
  path : List RelayInfo
  usedSubnets : List (UInt8 × UInt8 × UInt8)
  leftover : List RelayInfo

/-- A turn of the first loop (path_selection.rs:74-83). -/
def selectStep (s : Selection) (relay : RelayInfo) : Selection :=
  match subnetKey relay.address with
  | some key =>
    if key ∈ s.usedSubnets then { s with leftover := s.leftover ++ [relay] }
    else { s with usedSubnets := s.usedSubnets ++ [key], path := s.path ++ [relay] }
  | none => { s with path := s.path ++ [relay] }

/-- The second loop (path_selection.rs:88-93). -/
def fillFrom (hopCount : Nat) : (path leftover : List RelayInfo) → List RelayInfo
  | path, [] => path
  | path, relay :: rest => if path.length = hopCount then path else fillFrom hopCount (path ++ [relay]) rest

/-- `select_diverse_path` (path_selection.rs:56). -/
def selectDiversePath (topology : Topology) (hopCount : Nat) (candidates : Shuffle topology) :
    Except PathSelectionError (List RelayInfo) :=
  if candidates.1.length < hopCount then .error (.insufficientRelays hopCount candidates.1.length)
  else
    let s := candidates.1.foldl selectStep ⟨[], [], []⟩
    .ok ((fillFrom hopCount s.path s.leftover).take hopCount)

section
variable {s : Selection} {r : RelayInfo} {k : UInt8 × UInt8 × UInt8}

theorem selectStep_unknown (hk : subnetKey r.address = none) :
    selectStep s r = { s with path := s.path ++ [r] } := by
  simp [selectStep, hk]

theorem selectStep_used (hk : subnetKey r.address = some k) (hu : k ∈ s.usedSubnets) :
    selectStep s r = { s with leftover := s.leftover ++ [r] } := by
  simp [selectStep, hk, hu]

theorem selectStep_new (hk : subnetKey r.address = some k) (hu : k ∉ s.usedSubnets) :
    selectStep s r = { s with usedSubnets := s.usedSubnets ++ [k], path := s.path ++ [r] } := by
  simp [selectStep, hk, hu]

/-- A turn appends its relay to one of the two lists. -/
theorem selectStep_deals (s : Selection) (r : RelayInfo) :
    ((selectStep s r).path = s.path ++ [r] ∧ (selectStep s r).leftover = s.leftover) ∨
    ((selectStep s r).path = s.path ∧ (selectStep s r).leftover = s.leftover ++ [r]) := by
  cases hk : subnetKey r.address with
  | none =>
    rw [selectStep_unknown hk]
    exact .inl ⟨rfl, rfl⟩
  | some k =>
    by_cases hu : k ∈ s.usedSubnets
    · rw [selectStep_used hk hu]
      exact .inr ⟨rfl, rfl⟩
    · rw [selectStep_new hk hu]
      exact .inl ⟨rfl, rfl⟩

end

/-- The first loop deals every candidate to one of the two lists. -/
theorem foldl_selectStep_perm (l : List RelayInfo) (s : Selection) :
    ((l.foldl selectStep s).path ++ (l.foldl selectStep s).leftover).Perm (s.path ++ s.leftover ++ l) := by
  induction l generalizing s with
  | nil => simp
  | cons r l ih =>
    have hstep : ((selectStep s r).path ++ (selectStep s r).leftover).Perm (s.path ++ s.leftover ++ [r]) := by
      rcases selectStep_deals s r with ⟨hp, hq⟩ | ⟨hp, hq⟩
      · rw [hp, hq, List.append_assoc, List.append_assoc]
        exact List.Perm.append_left _ List.perm_append_comm
      · rw [hp, hq, List.append_assoc]
    have h := (ih (selectStep s r)).trans (hstep.append_right l)
    simpa using h

/-- `path`, `used_subnets` and `leftover` after the first loop. -/
def firstPass (candidates : List RelayInfo) : Selection := candidates.foldl selectStep ⟨[], [], []⟩

theorem firstPass_perm (candidates : List RelayInfo) :
    ((firstPass candidates).path ++ (firstPass candidates).leftover).Perm candidates := by
  have h := foldl_selectStep_perm candidates ⟨[], [], []⟩
  rwa [List.append_nil, List.nil_append] at h

/-- The second loop and `path.truncate(hop_count)`. -/
theorem fillFrom_take (n : Nat) (path leftover : List RelayInfo) :
    (fillFrom n path leftover).take n = (path ++ leftover).take n := by
  induction leftover generalizing path with
  | nil => simp [fillFrom]
  | cons r rest ih =>
    unfold fillFrom
    split
    · rename_i hn
      rw [← hn, List.take_left, List.take_length]
    · rw [ih]
      simp

/-- `select_diverse_path` in one equation. -/
theorem selectDiversePath_eq {topology : Topology} {n : Nat} (candidates : Shuffle topology)
    (hn : n ≤ topology.relays.length) :
    selectDiversePath topology n candidates =
      .ok (((firstPass candidates.1).path ++ (firstPass candidates.1).leftover).take n) := by
  have hlen := candidates.2.length_eq
  rw [selectDiversePath, if_neg (by omega)]
  exact congrArg Except.ok (fillFrom_take n _ _)

theorem selectDiversePath_error {topology : Topology} {n : Nat} (candidates : Shuffle topology)
    (hn : topology.relays.length < n) :
    selectDiversePath topology n candidates = .error (.insufficientRelays n topology.relays.length) := by
  rw [selectDiversePath, candidates.2.length_eq, if_pos hn]

/-- **A selected path is `hop_count` different relays of the topology.** -/
theorem selectDiversePath_ok {topology : Topology} {n : Nat} {candidates : Shuffle topology} {path : List RelayInfo}
    (h : selectDiversePath topology n candidates = .ok path) :
    path.length = n ∧ path ⊆ topology.relays ∧ path.Nodup := by
  by_cases hn : topology.relays.length < n
  · rw [selectDiversePath_error candidates hn] at h
    cases h
  · rw [selectDiversePath_eq candidates (by omega)] at h
    cases h
    have hall := (firstPass_perm candidates.1).trans candidates.2
    have hsub := List.take_sublist n ((firstPass candidates.1).path ++ (firstPass candidates.1).leftover)
    refine ⟨?_, List.Subset.trans hsub.subset hall.subset, hsub.nodup (hall.nodup_iff.2 topology.relays_nodup)⟩
    rw [List.length_take, hall.length_eq]
    omega

/-- A path exists as soon as the topology has enough relays. -/
theorem selectDiversePath_isOk {topology : Topology} {n : Nat} (candidates : Shuffle topology)
    (hn : n ≤ topology.relays.length) : ∃ path, selectDiversePath topology n candidates = .ok path :=
  ⟨_, selectDiversePath_eq candidates hn⟩

end VeilFabric
