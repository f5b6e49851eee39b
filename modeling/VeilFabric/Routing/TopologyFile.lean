import VeilFabric.Lib.Json
import VeilFabric.Lib.Keyed
import VeilFabric.Routing.Discovery

/-!
# Topology files (`veil-routing/src/topology_file.rs`)

| here | there |
| --- | --- |
| `RelayMap`, `Iteration`     | the `HashMap` of a `Topology` (topology.rs:15), and what `all` may yield |
| `TopologyFile`, `RelayEntry` | the structs written and read (topology_file.rs:50, :56) |
| `FileCrates`                | `serde_json` at `TopologyFile` and `hex`, which are not part of the repository |
| `readEntry`, `addEntry`     | a turn of the loop of `from_json` (topology_file.rs:88-110) |
| `fromJson`, `toJson`        | `Topology::from_json`, `Topology::to_json` (topology_file.rs:78, :117) |

Elsewhere a `Topology` is the values of its map in one order. Here the keys matter: `to_json` writes the values only,
and `from_json` takes each key from the value written. So a file can only be read back because every entry
stands under its own relay's id (`IdKeyed`), which holds of each topology the code builds (`Built.idKeyed`);
`toTopology` is the `Topology` of such a map, and `get_toTopology`, `addRelay_toTopology` say that the two agree.

`fromJson_meaning` is what a file means that no `to_json` need have written: the last entry of each id, or the error of
the first entry that cannot be read.
-/

namespace VeilFabric
open Wire

/-! ## The map -/

abbrev RelayMap := Keyed.Store String RelayInfo

namespace RelayMap

/-- `Topology::new` (topology.rs:20). -/
def new : RelayMap := ∅

/-- `Topology::add_relay` (topology.rs:26). -/
def addRelay (self : RelayMap) (relay : RelayInfo) : RelayMap := self.insert relay.id relay

/-- `Topology::get` (topology.rs:30). -/
def get (self : RelayMap) (id : String) : Option RelayInfo := self.lookup id

def addAll (self : RelayMap) (relays : List RelayInfo) : RelayMap := relays.foldl addRelay self

/-- What `all` (topology.rs:34) may yield: the values, in any order. -/
abbrev Iteration (self : RelayMap) := { l : List RelayInfo // (l : Multiset RelayInfo) = self.entries.map Sigma.snd }

/-- Every entry stands under its relay's id. -/
def IdKeyed (self : RelayMap) : Prop := ∀ id r, self.get id = some r → r.id = id

variable {m : RelayMap} {relay : RelayInfo} {id : String}

@[simp] theorem get_new : new.get id = none := Finmap.lookup_empty id

theorem get_addRelay : (m.addRelay relay).get id = if relay.id = id then some relay else m.get id := by
  unfold addRelay get
  by_cases h : relay.id = id
  · subst h
    rw [if_pos rfl, Finmap.lookup_insert]
  · rw [if_neg h, Finmap.lookup_insert_of_ne _ (Ne.symm h)]

/-- Of the relays added under one id, the last one stands there. -/
theorem get_addAll {relays : List RelayInfo} :
    (m.addAll relays).get id = (relays.reverse.find? fun r => r.id = id).or (m.get id) := by
  induction relays generalizing m with
  | nil => rfl
  | cons r relays ih =>
    change ((m.addRelay r).addAll relays).get id = _
    rw [ih, get_addRelay, List.reverse_cons, List.find?_append, Option.or_assoc]
    congr 1
    by_cases h : r.id = id
    · simp [h]
    · simp [h]

theorem mem_iteration {order : Iteration m} {r : RelayInfo} : r ∈ order.1 ↔ ∃ id, m.get id = some r := by
  rw [← Multiset.mem_coe, order.2, Multiset.mem_map]
  constructor
  · rintro ⟨⟨id, r⟩, hmem, rfl⟩
    exact ⟨id, Finmap.lookup_eq_some_iff.2 hmem⟩
  · rintro ⟨id, hget⟩
    exact ⟨⟨id, r⟩, Finmap.lookup_eq_some_iff.1 hget, rfl⟩

namespace IdKeyed

theorem new : IdKeyed RelayMap.new := by
  intro id r h
  rw [get_new] at h
  cases h

theorem addRelay (hm : m.IdKeyed) : (m.addRelay relay).IdKeyed := by
  intro id r h
  rw [get_addRelay] at h
  split at h
  · rename_i hid
    cases h
    exact hid
  · exact hm id r h

theorem addAll (hm : m.IdKeyed) (relays : List RelayInfo) : (m.addAll relays).IdKeyed := by
  induction relays generalizing m with
  | nil => exact hm
  | cons r relays ih => exact ih hm.addRelay

theorem mem_iteration (hm : m.IdKeyed) {order : Iteration m} {r : RelayInfo} :
    r ∈ order.1 ↔ m.get r.id = some r := by
  rw [RelayMap.mem_iteration]
  constructor
  · rintro ⟨id, hget⟩
    rwa [hm id r hget]
  · intro hget
    exact ⟨r.id, hget⟩

/-- A search by id through the relays finds what stands under the id, in whatever order it goes. -/
theorem find?_eq_get (hm : m.IdKeyed) {l : List RelayInfo} (hl : ∀ {r}, r ∈ l ↔ m.get r.id = some r) (id : String) :
    (l.find? fun r => r.id = id) = m.get id := by
  cases hfind : l.find? fun r => r.id = id with
  | some r =>
    have hid : r.id = id := by simpa using List.find?_some hfind
    rw [← hid]
    exact (hl.1 (List.mem_of_find?_eq_some hfind)).symm
  | none =>
    cases hget : m.get id with
    | none => rfl
    | some r =>
      have hid := hm id r hget
      have hmem : r ∈ l := hl.2 (by rw [hid, hget])
      exact absurd (decide_eq_true hid) (List.find?_eq_none.1 hfind r hmem)

/-- The relays of a map, added again in any order, give the map. -/
theorem addAll_iteration (hm : m.IdKeyed) (order : Iteration m) : RelayMap.new.addAll order.1 = m := by
  apply Finmap.ext_lookup
  intro id
  change (RelayMap.new.addAll order.1).get id = m.get id
  have hfind := hm.find?_eq_get (l := order.1.reverse) (List.mem_reverse.trans hm.mem_iteration) id
  rw [get_addAll, hfind, get_new, Option.or_none]

end IdKeyed

/-! ## Maps and topologies -/

theorem IdKeyed.ids_nodup (hm : m.IdKeyed) (order : Iteration m) : (order.1.map RelayInfo.id).Nodup := by
  have hkeys : m.entries.map (fun e => e.2.id) = m.entries.keys := by
    apply Multiset.map_congr rfl
    rintro ⟨id, r⟩ hmem
    exact hm id r (Finmap.lookup_eq_some_iff.2 hmem)
  have hids : ((order.1.map RelayInfo.id : List String) : Multiset String) = m.entries.keys := by
    rw [← Multiset.map_coe, order.2, Multiset.map_map, ← hkeys]
    rfl
  rw [← Multiset.coe_nodup, hids]
  exact Multiset.nodup_keys.2 m.nodupKeys

/-- A map in one of its iteration orders. -/
def toTopology (m : RelayMap) (hm : m.IdKeyed) (order : Iteration m) : Topology := ⟨order.1, hm.ids_nodup order⟩

theorem get_toTopology (hm : m.IdKeyed) (order : Iteration m) (id : String) :
    (m.toTopology hm order).get id = m.get id := hm.find?_eq_get hm.mem_iteration id

/-- `add_relay` on the map and on the list are the same up to the order. -/
theorem addRelay_toTopology (hm : m.IdKeyed) (order : Iteration m) (order' : Iteration (m.addRelay relay)) :
    ((m.addRelay relay).toTopology hm.addRelay order').relays.Perm ((m.toTopology hm order).addRelay relay).relays := by
  rw [List.perm_ext_iff_of_nodup (Topology.relays_nodup _) (Topology.relays_nodup _)]
  intro r
  change r ∈ order'.1 ↔ r ∈ relay :: order.1.filter fun q => q.id ≠ relay.id
  rw [hm.addRelay.mem_iteration, get_addRelay, List.mem_cons, List.mem_filter, hm.mem_iteration]
  by_cases hid : relay.id = r.id
  · rw [if_pos hid]
    simp [hid, eq_comm]
  · have hne : r ≠ relay := by
      rintro rfl
      exact hid rfl
    rw [if_neg hid]
    simp [hne, Ne.symm hid]

end RelayMap

/-! ## The file -/

abbrev CURRENT_VERSION : UInt32 := 1

structure RelayEntry where
  id : String
  address : String
  publicKey : String
deriving DecidableEq

structure TopologyFile where
  version : UInt32
  relays : List RelayEntry
deriving DecidableEq

/-- The errors of `from_json`; `Read` and `Write` are those of the file system. -/
inductive TopologyFileError (JsonError : Type) where
  | parse (error : JsonError)
  | invalidPublicKey (id reason : String)
  | unsupportedVersion (found expected : UInt32)
deriving DecidableEq

/-- `serde_json::to_string_pretty` and `serde_json::from_str` at `TopologyFile`, `hex::encode` and `hex::decode`. -/
structure FileCrates (JsonError : Type) where
  toStringPretty : TopologyFile → Except JsonError String
  fromStr : String → Except JsonError TopologyFile
  hexEncode : Bytes → String
  hexDecode : String → Option Bytes

/-- Parsing inverts the pretty printer, and decoding inverts encoding. -/
structure FileCrates.Lawful {JsonError : Type} (K : FileCrates JsonError) : Prop where
  json : ∀ file, ∃ raw, K.toStringPretty file = .ok raw ∧ K.fromStr raw = .ok file
  hex : ∀ bytes, K.hexDecode (K.hexEncode bytes) = some bytes

variable {JsonError : Type} (K : FileCrates JsonError)

/-- `public_key_to_hex` (keys.rs:115). -/
def publicKeyToHex (publicKey : Key) : String := K.hexEncode publicKey.1

/-- The entry's relay (topology_file.rs:89-109). -/
def readEntry (entry : RelayEntry) : Except (TopologyFileError JsonError) RelayInfo :=
  match K.hexDecode entry.publicKey with
  | none => .error (.invalidPublicKey entry.id "not valid hex")
  | some bytes =>
    if h : bytes.length = 32 then .ok ⟨entry.id, entry.address, ⟨bytes, h⟩⟩
    else .error (.invalidPublicKey entry.id "must decode to exactly 32 bytes")

/-- A turn of the loop (topology_file.rs:88-110). -/
def addEntry (topology : RelayMap) (entry : RelayEntry) : Except (TopologyFileError JsonError) RelayMap := do
  let relay ← readEntry K entry
  return topology.addRelay relay

/-- `Topology::from_json` (topology_file.rs:78). -/
def fromJson (raw : String) : Except (TopologyFileError JsonError) RelayMap := do
  let file ← (K.fromStr raw).mapError .parse
  if file.version ≠ CURRENT_VERSION then
    throw (.unsupportedVersion file.version CURRENT_VERSION)
  file.relays.foldlM (addEntry K) RelayMap.new

/-- What `to_json` writes of a relay (topology_file.rs:122-126). -/
def RelayInfo.entry (r : RelayInfo) : RelayEntry where
  id := r.id
  address := r.address
  publicKey := publicKeyToHex K r.publicKey

/-- `Topology::to_json` (topology_file.rs:117), with the order in which the map is iterated; `none` is a panic. -/
def toJson (topology : RelayMap) (all : topology.Iteration) : Option String :=
  let file : TopologyFile := ⟨CURRENT_VERSION, all.1.map (RelayInfo.entry K)⟩
  (K.toStringPretty file).toOption

/-- The topologies the code can have: new ones, with relays added, and those read from a file. -/
inductive Built : RelayMap → Prop where
  | new : Built RelayMap.new
  | addRelay {m} (relay : RelayInfo) : Built m → Built (m.addRelay relay)
  | fromJson {m} (raw : String) : fromJson K raw = .ok m → Built m

variable {K}

theorem readEntry_entry (hK : K.Lawful) (r : RelayInfo) : readEntry K (r.entry K) = .ok r := by
  have hdecode : K.hexDecode (r.entry K).publicKey = some r.publicKey.1 := hK.hex r.publicKey.1
  rw [readEntry, hdecode]
  exact dif_pos r.publicKey.2

/-- **What the loop does.** It reads every entry, and adds the relays one after the other. -/
theorem foldlM_addEntry_ok_iff {entries : List RelayEntry} {m m' : RelayMap} :
    entries.foldlM (addEntry K) m = .ok m' ↔ ∃ relays, entries.mapM (readEntry K) = .ok relays ∧ m' = m.addAll relays := by
  induction entries generalizing m with
  | nil =>
    constructor
    · intro h
      cases h
      exact ⟨[], rfl, rfl⟩
    · rintro ⟨relays, h, rfl⟩
      cases h
      rfl
  | cons entry entries ih =>
    rw [List.foldlM_cons, List.mapM_cons]
    cases hread : readEntry K entry with
    | error e => simp [addEntry, hread, bind, Except.bind]
    | ok relay =>
      have hturn : addEntry K m entry = .ok (m.addRelay relay) := by rw [addEntry, hread]; rfl
      rw [hturn]
      change entries.foldlM (addEntry K) (m.addRelay relay) = .ok m' ↔ _
      rw [ih]
      cases hrest : entries.mapM (readEntry K) with
      | error e => simp [bind, Except.bind]
      | ok relays =>
        constructor
        · rintro ⟨relays', h, rfl⟩
          cases h
          exact ⟨relay :: relays, rfl, rfl⟩
        · rintro ⟨relays', h, rfl⟩
          cases h
          exact ⟨relays, rfl, rfl⟩

/-- **What is accepted.** A file of this version whose keys are all 32 bytes in hex; its relays are added in turn. -/
theorem fromJson_eq_ok_iff {raw : String} {m : RelayMap} :
    fromJson K raw = .ok m ↔ ∃ entries relays, K.fromStr raw = .ok ⟨CURRENT_VERSION, entries⟩ ∧
      entries.mapM (readEntry K) = .ok relays ∧ m = RelayMap.new.addAll relays := by
  unfold fromJson
  cases hparse : K.fromStr raw with
  | error e => simp [Except.mapError, bind, Except.bind]
  | ok file =>
    obtain ⟨version, entries⟩ := file
    by_cases hversion : version = CURRENT_VERSION
    · subst hversion
      simp [Except.mapError, bind, Except.bind, foldlM_addEntry_ok_iff]
    · simp [Except.mapError, bind, Except.bind, hversion, throw, throwThe, MonadExceptOf.throw]

/-- **The invariant of the map**: kept by every way to build one. -/
theorem Built.idKeyed {m : RelayMap} (hm : Built K m) : m.IdKeyed := by
  induction hm with
  | new => exact RelayMap.IdKeyed.new
  | addRelay relay _ ih => exact ih.addRelay
  | fromJson raw h =>
    obtain ⟨entries, relays, -, -, rfl⟩ := fromJson_eq_ok_iff.1 h
    exact RelayMap.IdKeyed.new.addAll relays

theorem mapM_readEntry_entry (hK : K.Lawful) (relays : List RelayInfo) :
    (relays.map (RelayInfo.entry K)).mapM (readEntry K) = .ok relays := by
  induction relays with
  | nil => rfl
  | cons r relays ih =>
    rw [List.map_cons, List.mapM_cons, readEntry_entry hK, ih]
    rfl

/-! ## The format (topology_file.rs:9-17) -/

def versionFormat : Codec Char UInt32 :=
  (Json.decimal ',' rfl).map (fun n => if n < 2 ^ 32 then some (UInt32.ofNat n) else none) UInt32.toNat
    (by
      intro v
      rw [if_pos v.toNat_lt, UInt32.ofNat_toNat])
    (by
      intro n v h
      split at h
      · rename_i hlt
        cases h
        exact UInt32.toNat_ofNat_of_lt' hlt
      · cases h)

def entryFormat : Codec Char RelayEntry :=
  ((Json.string.between ('\x7b' :: Json.field 6 "id") []).seq
    ((Json.string.between (',' :: Json.field 6 "address") []).seq
      (Json.string.between (',' :: Json.field 6 "public_key") (Json.newline 4 ++ ['\x7d'])))).map
    (fun x => some ⟨x.1, x.2.1, x.2.2⟩) (fun e => (e.id, e.address, e.publicKey)) (by simp) (by rintro x e ⟨⟩; rfl)

def fileFormat : Codec Char TopologyFile :=
  ((versionFormat.between ('\x7b' :: Json.field 2 "version") []).seq
    ((Json.array 2 entryFormat).between (Json.field 2 "relays") ['\n', '\x7d'])).map
    (fun x => some ⟨x.1, x.2⟩) (fun f => (f.version, f.relays)) (by simp) (by rintro x f ⟨⟩; rfl)

theorem fileFormat_valid (file : TopologyFile) : fileFormat.valid file := by
  have hentry : ∀ e, entryFormat.valid e := fun e =>
    ⟨Json.string_valid e.id, Json.string_valid e.address, Json.string_valid e.publicKey⟩
  exact ⟨trivial, Json.array_valid hentry file.relays⟩

/-- The crates on printed files: the text as it is printed, and no other. -/
def printedFiles : FileCrates Unit where
  toStringPretty file := .ok (String.ofList (fileFormat.encode file))
  fromStr raw :=
    match fileFormat.decode raw.toList with
    | some (file, []) => .ok file
    | _ => .error ()
  hexEncode := Hex.encode
  hexDecode := Hex.decode

theorem printedFiles_lawful : printedFiles.Lawful where
  json file := by
    refine ⟨_, rfl, ?_⟩
    have hread := Codec.decode_encode_nil (fileFormat_valid file)
    simp only [printedFiles, String.toList_ofList, hread]
  hex := Hex.decode_encode

/-! ## Round trips -/

/-- **Topology files round-trip.** Any topology the code built, written in any iteration order of its map, is read
back as the same map from ids to relays. -/
theorem fromJson_toJson (hK : K.Lawful) {m : RelayMap} (hm : Built K m) (all : m.Iteration) :
    ∃ raw, toJson K m all = some raw ∧ fromJson K raw = .ok m := by
  obtain ⟨raw, hwrite, hparse⟩ := hK.json ⟨CURRENT_VERSION, all.1.map (RelayInfo.entry K)⟩
  refine ⟨raw, ?_, ?_⟩
  · rw [toJson, hwrite]
    rfl
  · rw [fromJson_eq_ok_iff]
    exact ⟨_, all.1, hparse, mapM_readEntry_entry hK all.1, (hm.idKeyed.addAll_iteration all).symm⟩

def movedRelay : RelayMap :=
  let publicKey : Key := ⟨List.replicate 32 0xa7, rfl⟩
  (RelayMap.new.addRelay ⟨"relay-1", "127.0.0.1:9001", publicKey⟩).addRelay ⟨"relay-1", "10.0.0.1:9001", publicKey⟩

def movedRelayOrder : movedRelay.Iteration := ⟨[⟨"relay-1", "10.0.0.1:9001", ⟨List.replicate 32 0xa7, rfl⟩⟩], rfl⟩

theorem fromJson_toJson_moved :
    toJson printedFiles movedRelay movedRelayOrder = some ("\x7b\n  \"version\": 1,\n  \"relays\": [\n    \x7b\n" ++
      "      \"id\": \"relay-1\",\n      \"address\": \"10.0.0.1:9001\",\n      \"public_key\": " ++
      "\"a7a7a7a7a7a7a7a7a7a7a7a7a7a7a7a7a7a7a7a7a7a7a7a7a7a7a7a7a7a7a7a7\"\n    \x7d\n  ]\n\x7d") ∧
    ∃ raw, toJson printedFiles movedRelay movedRelayOrder = some raw ∧ fromJson printedFiles raw = .ok movedRelay :=
  ⟨by decide +kernel, fromJson_toJson printedFiles_lawful (.addRelay _ (.addRelay _ .new)) movedRelayOrder⟩

/-! ## What a file means -/

/-- The two faults an entry can have; the error names the entry's id. -/
theorem readEntry_error_iff {entry : RelayEntry} {e : TopologyFileError JsonError} :
    readEntry K entry = .error e ↔
      (K.hexDecode entry.publicKey = none ∧ e = .invalidPublicKey entry.id "not valid hex") ∨
      ∃ bytes, K.hexDecode entry.publicKey = some bytes ∧ bytes.length ≠ 32 ∧
        e = .invalidPublicKey entry.id "must decode to exactly 32 bytes" := by
  unfold readEntry
  cases hdecode : K.hexDecode entry.publicKey with
  | none => simp [eq_comm]
  | some bytes =>
    by_cases hlen : bytes.length = 32
    · simp [hlen]
    · simp [hlen, eq_comm]

theorem readEntry_id {entry : RelayEntry} {r : RelayInfo} (h : readEntry K entry = .ok r) : r.id = entry.id := by
  unfold readEntry at h
  split at h
  · cases h
  · split at h
    · cases h
      rfl
    · cases h

/-- The first entry that cannot be read ends the loop. -/
theorem foldlM_addEntry_error_iff {entries : List RelayEntry} {m : RelayMap} {e : TopologyFileError JsonError} :
    entries.foldlM (addEntry K) m = .error e ↔ ∃ before entry after, entries = before ++ entry :: after ∧
      (∀ b ∈ before, ∃ r, readEntry K b = .ok r) ∧ readEntry K entry = .error e := by
  induction entries generalizing m with
  | nil =>
    constructor
    · intro h
      cases h
    · rintro ⟨before, entry, after, h, -⟩
      cases before <;> cases h
  | cons first entries ih =>
    rw [List.foldlM_cons]
    cases hread : readEntry K first with
    | error e' =>
      have hturn : addEntry K m first = .error e' := by rw [addEntry, hread]; rfl
      rw [hturn]
      constructor
      · rintro ⟨⟩
        exact ⟨[], first, entries, rfl, nofun, hread⟩
      · rintro ⟨before, entry, after, heq, hbefore, hentry⟩
        cases before with
        | nil =>
          cases heq
          rw [hread] at hentry
          cases hentry
          rfl
        | cons b before =>
          cases heq
          obtain ⟨r, hr⟩ := hbefore first List.mem_cons_self
          rw [hread] at hr
          cases hr
    | ok relay =>
      have hturn : addEntry K m first = .ok (m.addRelay relay) := by rw [addEntry, hread]; rfl
      rw [hturn]
      change entries.foldlM (addEntry K) (m.addRelay relay) = .error e ↔ _
      rw [ih]
      constructor
      · rintro ⟨before, entry, after, rfl, hbefore, hentry⟩
        refine ⟨first :: before, entry, after, rfl, fun b hb => ?_, hentry⟩
        rcases List.mem_cons.1 hb with rfl | hb
        · exact ⟨relay, hread⟩
        · exact hbefore b hb
      · rintro ⟨before, entry, after, heq, hbefore, hentry⟩
        cases before with
        | nil =>
          cases heq
          rw [hread] at hentry
          cases hentry
        | cons b before =>
          cases heq
          exact ⟨before, entry, after, rfl, fun b hb => hbefore b (List.mem_cons_of_mem _ hb), hentry⟩

/-- What the entries say, if all can be read. -/
theorem mapM_readEntry_isOk {entries : List RelayEntry} (h : ∀ b ∈ entries, ∃ r, readEntry K b = .ok r) :
    ∃ relays, entries.mapM (readEntry K) = .ok relays := by
  induction entries with
  | nil => exact ⟨[], rfl⟩
  | cons entry entries ih =>
    obtain ⟨r, hr⟩ := h entry List.mem_cons_self
    obtain ⟨relays, hrelays⟩ := ih fun b hb => h b (List.mem_cons_of_mem _ hb)
    refine ⟨r :: relays, ?_⟩
    rw [List.mapM_cons, hr, hrelays]
    rfl

theorem mapM_readEntry_forall₂ {entries : List RelayEntry} {relays : List RelayInfo}
    (h : entries.mapM (readEntry K) = .ok relays) : List.Forall₂ (fun b r => readEntry K b = .ok r) entries relays := by
  induction entries generalizing relays with
  | nil =>
    cases h
    exact .nil
  | cons entry entries ih =>
    rw [List.mapM_cons] at h
    cases hread : readEntry K entry with
    | error e =>
      rw [hread] at h
      cases h
    | ok r =>
      rw [hread] at h
      cases hrest : entries.mapM (readEntry K) with
      | error e =>
        rw [hrest] at h
        cases h
      | ok relays' =>
        rw [hrest] at h
        cases h
        exact .cons hread (ih hrest)

/-- Searching the relays by id is searching the entries. -/
theorem find?_readEntry {entries : List RelayEntry} {relays : List RelayInfo}
    (h : List.Forall₂ (fun b r => readEntry K b = .ok r) entries relays) (id : String) :
    (relays.find? fun r => r.id = id) =
      (entries.find? fun b => b.id = id).bind fun b => (readEntry K b).toOption := by
  induction h with
  | nil => rfl
  | @cons entry r entries relays hread _ ih =>
    have hid := readEntry_id hread
    by_cases hmatch : entry.id = id
    · rw [List.find?_cons_of_pos (by simpa [hid] using hmatch), List.find?_cons_of_pos (by simpa using hmatch)]
      rw [Option.bind_some, hread]
      rfl
    · rw [List.find?_cons_of_neg (by simpa [hid] using hmatch), List.find?_cons_of_neg (by simpa using hmatch), ih]

/-- **What a topology file means.** A file of another version is refused by its version. Otherwise the first entry with
a bad key decides: it is reported with its id and what is wrong with it. If there is none, the topology has
under each id the last entry of that id, and nothing else. -/
theorem fromJson_meaning (K : FileCrates JsonError) (raw : String) (version : UInt32) (entries : List RelayEntry)
    (hparse : K.fromStr raw = .ok ⟨version, entries⟩) :
    (version ≠ CURRENT_VERSION → fromJson K raw = .error (.unsupportedVersion version CURRENT_VERSION)) ∧
    (version = CURRENT_VERSION →
      (∀ e, fromJson K raw = .error e ↔ ∃ before entry after, entries = before ++ entry :: after ∧
        (∀ b ∈ before, ∃ bytes, K.hexDecode b.publicKey = some bytes ∧ bytes.length = 32) ∧
        ((K.hexDecode entry.publicKey = none ∧ e = .invalidPublicKey entry.id "not valid hex") ∨
          ∃ bytes, K.hexDecode entry.publicKey = some bytes ∧ bytes.length ≠ 32 ∧
            e = .invalidPublicKey entry.id "must decode to exactly 32 bytes")) ∧
      ∀ m, fromJson K raw = .ok m ↔
        (∀ b ∈ entries, ∃ bytes, K.hexDecode b.publicKey = some bytes ∧ bytes.length = 32) ∧
        ∀ id, m.get id = (entries.reverse.find? fun b => b.id = id).bind fun b => (readEntry K b).toOption) := by
  have hreadable : ∀ b : RelayEntry, (∃ bytes, K.hexDecode b.publicKey = some bytes ∧ bytes.length = 32) ↔
      ∃ r, readEntry K b = .ok r := by
    intro b
    unfold readEntry
    cases K.hexDecode b.publicKey with
    | none => simp
    | some bytes => by_cases hlen : bytes.length = 32 <;> simp [hlen]
  refine ⟨fun hversion => ?_, ?_⟩
  · unfold fromJson
    rw [hparse]
    simp [Except.mapError, bind, Except.bind, hversion, throw, throwThe, MonadExceptOf.throw]
  · rintro rfl
    have hloop : fromJson K raw = entries.foldlM (addEntry K) RelayMap.new := by
      unfold fromJson
      rw [hparse]
      simp [Except.mapError, bind, Except.bind]
    refine ⟨fun e => ?_, fun m => ?_⟩
    · rw [hloop, foldlM_addEntry_error_iff]
      simp only [hreadable, readEntry_error_iff]
    · simp only [hreadable]
      rw [hloop, foldlM_addEntry_ok_iff]
      constructor
      · rintro ⟨relays, hread, rfl⟩
        have hall := mapM_readEntry_forall₂ hread
        refine ⟨fun b hb => ?_, fun id => ?_⟩
        · obtain ⟨i, hi, rfl⟩ := List.getElem_of_mem hb
          exact ⟨_, hall.get hi (hall.length_eq ▸ hi)⟩
        · rw [RelayMap.get_addAll, RelayMap.get_new, Option.or_none, find?_readEntry (List.rel_reverse hall)]
      · rintro ⟨hall, hget⟩
        obtain ⟨relays, hrelays⟩ := mapM_readEntry_isOk hall
        refine ⟨relays, hrelays, Finmap.ext_lookup fun id => ?_⟩
        change m.get id = (RelayMap.new.addAll relays).get id
        rw [hget, RelayMap.get_addAll, RelayMap.get_new, Option.or_none,
          find?_readEntry (List.rel_reverse (mapM_readEntry_forall₂ hrelays))]

/-- A key that is too short, after one that is not. -/
theorem fromJson_meaning_short : ∃ raw, fromJson printedFiles raw =
    .error (.invalidPublicKey "relay-2" "must decode to exactly 32 bytes") := by
  obtain ⟨raw, -, hparse⟩ := printedFiles_lawful.json ⟨CURRENT_VERSION,
    [⟨"relay-1", "127.0.0.1:9001", String.ofList (List.replicate 64 'A')⟩, ⟨"relay-2", "127.0.0.1:9002", "aabbcc"⟩]⟩
  refine ⟨raw, (((fromJson_meaning printedFiles raw _ _ hparse).2 rfl).1 _).2
    ⟨[_], ⟨"relay-2", "127.0.0.1:9002", "aabbcc"⟩, [], rfl, ?_, .inr ⟨[0xaa, 0xbb, 0xcc], by decide +kernel, by decide, rfl⟩⟩⟩
  intro b hb
  rw [List.mem_singleton.1 hb]
  exact ⟨List.replicate 32 0xaa, by decide +kernel, rfl⟩

end VeilFabric
