import VeilFabric.Routing.PathSelection
import VeilFabric.Relay.Mailbox
import Mathlib.Data.Finset.Card

/-!
# Topology discovery (`veil-routing/src/discovery.rs`)

| here | there |
| --- | --- |
| `UnreachableRelay`  | discovery.rs:16 |
| `discoverTopology`  | `discover_topology` (discovery.rs:30); `describe` is what `pull_listener::describe` returned for each address |

`discoverTopology_eq` takes the loop apart: the answers go through `add_relay` in their order, the errors are
collected. `add_relay` replaces the entry of an id it has seen, and the id is the relay's own word, so the
topology has one entry for each id reported (`addAll_len`), the last one to report it. `accounted_iff` says
when that is one for each relay that answered.
-/

namespace VeilFabric
open Wire

structure UnreachableRelay where
  address : String
  error : IoError
deriving DecidableEq

/-- The entry an answer becomes (discovery.rs:37-41). -/
def RelayIdentity.info (identity : RelayIdentity) : RelayInfo where
  id := identity.id
  address := identity.mainAddr
  publicKey := identity.publicKey

/-- What a relay says about itself (main.rs:42-46). -/
def RelayInfo.identity (r : RelayInfo) : RelayIdentity := ⟨r.id, r.publicKey, r.address⟩

variable (describe : String → Except IoError RelayIdentity)

/-- A turn of the loop (discovery.rs:34-47). -/
def discoverStep (s : Topology × List UnreachableRelay) (address : String) : Topology × List UnreachableRelay :=
  match describe address with
  | .ok identity => (s.1.addRelay identity.info, s.2)
  | .error error => (s.1, s.2 ++ [⟨address, error⟩])

/-- `discover_topology` (discovery.rs:30). -/
def discoverTopology (addresses : List String) : Topology × List UnreachableRelay :=
  addresses.foldl (discoverStep describe) (Topology.new, [])

/-! ## The loop taken apart -/

/-- The entries reported, in the order of the queries. -/
def answers (addresses : List String) : List RelayInfo :=
  addresses.filterMap fun address => (describe address).toOption.map RelayIdentity.info

def failures (addresses : List String) : List UnreachableRelay :=
  addresses.filterMap fun address =>
    match describe address with
    | .ok _ => none
    | .error error => some ⟨address, error⟩

def Topology.addAll (self : Topology) (relays : List RelayInfo) : Topology := relays.foldl Topology.addRelay self

variable {describe}

theorem foldl_discoverStep (addresses : List String) (s : Topology × List UnreachableRelay) :
    addresses.foldl (discoverStep describe) s =
      (s.1.addAll (answers describe addresses), s.2 ++ failures describe addresses) := by
  induction addresses generalizing s with
  | nil => simp [Topology.addAll, answers, failures]
  | cons address addresses ih =>
    rw [List.foldl_cons, ih]
    cases h : describe address with
    | ok identity => simp [discoverStep, answers, failures, Topology.addAll, h, Except.toOption]
    | error error => simp [discoverStep, answers, failures, h, Except.toOption]

theorem discoverTopology_eq (addresses : List String) :
    discoverTopology describe addresses =
      (Topology.new.addAll (answers describe addresses), failures describe addresses) := by
  rw [discoverTopology, foldl_discoverStep, List.nil_append]

/-- Every query is answered or fails. -/
theorem answers_add_failures (addresses : List String) :
    (answers describe addresses).length + (failures describe addresses).length = addresses.length := by
  induction addresses with
  | nil => rfl
  | cons address addresses ih =>
    cases h : describe address with
    | ok identity => simp [answers, failures, h, Except.toOption] at ih ⊢; omega
    | error error => simp [answers, failures, h, Except.toOption] at ih ⊢; omega

/-! ## `add_relay` again and again -/

namespace Topology

/-- The ids of a topology. -/
def ids (self : Topology) : Finset String := (self.relays.map RelayInfo.id).toFinset

theorem card_ids (self : Topology) : self.ids.card = self.len := by
  rw [ids, List.toFinset_card_of_nodup self.ids_nodup, List.length_map, len]

theorem ids_addRelay (self : Topology) (relay : RelayInfo) : (self.addRelay relay).ids = insert relay.id self.ids := by
  ext id
  simp only [ids, addRelay, List.mem_toFinset, List.mem_map, List.mem_cons, List.mem_filter, Finset.mem_insert]
  constructor
  · rintro ⟨r, rfl | ⟨hr, -⟩, rfl⟩
    · exact .inl rfl
    · exact .inr ⟨r, hr, rfl⟩
  · rintro (rfl | ⟨r, hr, rfl⟩)
    · exact ⟨relay, .inl rfl, rfl⟩
    · by_cases h : r.id = relay.id
      · exact ⟨relay, .inl rfl, h.symm⟩
      · exact ⟨r, .inr ⟨hr, by simpa using h⟩, rfl⟩

/-- The ids are those there were and those added. -/
theorem ids_addAll (self : Topology) (relays : List RelayInfo) :
    (self.addAll relays).ids = self.ids ∪ (relays.map RelayInfo.id).toFinset := by
  induction relays generalizing self with
  | nil => simp [addAll]
  | cons r relays ih =>
    change ((self.addRelay r).addAll relays).ids = _
    rw [ih, ids_addRelay]
    ext id
    simp only [Finset.mem_union, Finset.mem_insert, List.map_cons, List.toFinset_cons]
    tauto

/-- An entry stays as long as no other relay reports its id. -/
theorem mem_addAll_of_mem {self : Topology} {r : RelayInfo} {relays : List RelayInfo} (h : r ∈ self.relays)
    (hids : ∀ r' ∈ relays, r'.id ≠ r.id) : r ∈ (self.addAll relays).relays := by
  induction relays generalizing self with
  | nil => exact h
  | cons r' relays ih =>
    change r ∈ ((self.addRelay r').addAll relays).relays
    refine ih ?_ fun q hq => hids q (List.mem_cons_of_mem _ hq)
    have hne : r.id ≠ r'.id := (hids r' List.mem_cons_self).symm
    exact List.mem_cons_of_mem _ (List.mem_filter.2 ⟨h, by simpa using hne⟩)

theorem mem_addAll {self : Topology} {r : RelayInfo} {relays : List RelayInfo}
    (hids : (relays.map RelayInfo.id).Nodup) (h : r ∈ relays) : r ∈ (self.addAll relays).relays := by
  induction relays generalizing self with
  | nil => simp at h
  | cons r' relays ih =>
    rw [List.map_cons, List.nodup_cons] at hids
    rcases List.mem_cons.1 h with rfl | h
    · change r ∈ ((self.addRelay r).addAll relays).relays
      refine mem_addAll_of_mem List.mem_cons_self fun q hq hid => hids.1 ?_
      exact List.mem_map.2 ⟨q, hq, hid⟩
    · exact ih hids.2 h

/-- Relays added any number of times, under ids that belong to one relay each, are there. -/
theorem mem_addAll_iff {self : Topology} {relays : List RelayInfo} {r : RelayInfo}
    (h : ∀ q ∈ self.relays ++ relays, ∀ q' ∈ self.relays ++ relays, q.id = q'.id → q = q') :
    r ∈ (self.addAll relays).relays ↔ r ∈ self.relays ∨ r ∈ relays := by
  induction relays generalizing self with
  | nil => simp [addAll]
  | cons q relays ih =>
    have hadd : ∀ x, x ∈ (self.addRelay q).relays ↔ x ∈ self.relays ∨ x = q := by
      intro x
      simp only [addRelay, List.mem_cons, List.mem_filter]
      constructor
      · rintro (rfl | ⟨hx, -⟩)
        · exact .inr rfl
        · exact .inl hx
      · rintro (hx | rfl)
        · by_cases hid : x.id = q.id
          · exact .inl (h x (by simp [hx]) q (by simp) hid)
          · exact .inr ⟨hx, by simpa using hid⟩
        · exact .inl rfl
    have hsub : ∀ x ∈ (self.addRelay q).relays ++ relays, x ∈ self.relays ++ q :: relays := by
      intro x hx
      rcases List.mem_append.1 hx with hx | hx
      · rcases (hadd x).1 hx with hx | rfl
        · simp [hx]
        · simp
      · simp [hx]
    change r ∈ ((self.addRelay q).addAll relays).relays ↔ _
    rw [ih fun x hx y hy => h x (hsub x hx) y (hsub y hy), hadd, List.mem_cons, or_assoc]

/-- One entry for each id reported. -/
theorem addAll_len (relays : List RelayInfo) :
    (new.addAll relays).len = (relays.map RelayInfo.id).toFinset.card := by
  rw [← card_ids, ids_addAll]
  simp [ids, new]

end Topology

/-! ## Is every relay accounted for? -/

variable (describe) in
/-- Each address is in one of two places: what it reported is in the topology, or its error is in the list. -/
structure Accounted (addresses : List String) : Prop where
  answered : ∀ address ∈ addresses, ∀ identity, describe address = .ok identity →
    identity.info ∈ (discoverTopology describe addresses).1.relays ∧
    ∀ u ∈ (discoverTopology describe addresses).2, u.address ≠ address
  failed : ∀ address ∈ addresses, ∀ error, describe address = .error error →
    ⟨address, error⟩ ∈ (discoverTopology describe addresses).2
  count : (discoverTopology describe addresses).1.len + (discoverTopology describe addresses).2.length =
    addresses.length

theorem mem_answers {addresses : List String} {address : String} {identity : RelayIdentity}
    (h : address ∈ addresses) (hd : describe address = .ok identity) :
    identity.info ∈ answers describe addresses :=
  List.mem_filterMap.2 ⟨address, h, by simp [hd, Except.toOption]⟩

theorem mem_failures {addresses : List String} {u : UnreachableRelay} :
    u ∈ failures describe addresses ↔ u.address ∈ addresses ∧ describe u.address = .error u.error := by
  simp only [failures, List.mem_filterMap]
  constructor
  · rintro ⟨address, h, hu⟩
    cases hd : describe address with
    | ok identity => simp [hd] at hu
    | error error =>
      simp only [hd, Option.some.injEq] at hu
      subst hu
      exact ⟨h, hd⟩
  · rintro ⟨h, hd⟩
    exact ⟨u.address, h, by simp [hd]⟩

/-- The count is right exactly when the ids reported are different. -/
theorem count_iff (addresses : List String) :
    (discoverTopology describe addresses).1.len + (discoverTopology describe addresses).2.length =
      addresses.length ↔ ((answers describe addresses).map RelayInfo.id).Nodup := by
  have hsum : (answers describe addresses).length + _ = _ := answers_add_failures addresses
  have hnodup : ((answers describe addresses).map RelayInfo.id).toFinset.card =
      ((answers describe addresses).map RelayInfo.id).length ↔ ((answers describe addresses).map RelayInfo.id).Nodup :=
    Multiset.toFinset_card_eq_card_iff_nodup
  rw [discoverTopology_eq, Topology.addAll_len, ← hnodup, List.length_map]
  simp only
  omega

/-- **Exactly when discovery accounts for every relay**: the relays that answer report different ids. -/
theorem accounted_iff (describe : String → Except IoError RelayIdentity) (addresses : List String) :
    Accounted describe addresses ↔ ((answers describe addresses).map RelayInfo.id).Nodup := by
  constructor
  · intro h
    exact (count_iff addresses).1 h.count
  · intro h
    refine ⟨fun address hmem identity hd => ⟨?_, ?_⟩, fun address hmem error hd => ?_, (count_iff addresses).2 h⟩
    · rw [discoverTopology_eq]
      exact Topology.mem_addAll h (mem_answers hmem hd)
    · intro u hu
      rw [discoverTopology_eq] at hu
      rintro rfl
      rw [(mem_failures.1 hu).2] at hd
      cases hd
    · rw [discoverTopology_eq]
      exact mem_failures.2 ⟨hmem, hd⟩

/-- Two relays that report one id: the second answer replaces the first. -/
theorem impostor_replaces_relay :
    ["10.0.1.1:10001", "10.0.2.1:10001"].Nodup ∧
    ¬ Accounted (fun address => .ok ⟨"relay-0", Arr.zeros 32, address⟩) ["10.0.1.1:10001", "10.0.2.1:10001"] := by
  refine ⟨by decide, fun h => ?_⟩
  have hcount := h.count
  revert hcount
  decide

end VeilFabric
