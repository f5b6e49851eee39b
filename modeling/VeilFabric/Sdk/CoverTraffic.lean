import VeilFabric.Sdk.Client
import Mathlib.Data.List.TakeWhile

/-!
# Cover traffic (`veil-sdk/src/cover_traffic.rs`)

`coverTurn` is one turn of the loop of `spawn` (cover_traffic.rs:46-69) up to the connection; `none` is its
`continue`. It does with a dummy cell, a throwaway key and a made-up sender what `VeilClient.routeCell` does
with a data cell in a session, in code of its own.

`onLink` follows a circuit over its path: what each relay forwards is what it peels out of the frame that it reads.
`cover_traffic_same_size_iff`: the two cannot be told apart by the length of any frame, which is `linkLength`, as long
as the path is `Carried`: the addresses of the later hops fit the 16-bit length that the layers have for them, and
the circuit the 32-bit length of a frame. An address that does not fit is cut, and its end goes to the next link with
the layer.
-/

namespace VeilFabric
open Wire

variable {P : Primitives}

/-- What one turn draws. -/
structure CoverDraws (topology : Topology) where
  messageId : MessageId
  payload : Arr PAYLOAD_CAPACITY
  throwawayKey : Key
  nonce : Nonce
  fakeSender : Key
  shuffled : Shuffle topology
  coins : Nat → LayerCoins

/-- A turn of the loop in `spawn` (cover_traffic.rs:46-69). -/
def coverTurn (P : Primitives) (topology : Topology) (hopCount : Nat) (draws : CoverDraws topology) :
    Option (RoutedCell P) :=
  let dummyCell := Cell.newDummy draws.messageId draws.payload
  match encryptCell P draws.throwawayKey draws.nonce dummyCell with
  | .error _ => none
  | .ok encrypted =>
    let enveloped := Envelope.wrap draws.fakeSender encrypted
    match selectDiversePath topology hopCount draws.shuffled with
    | .error _ => none
    | .ok path =>
      match h : buildCircuit P path enveloped.1 draws.coins with
      | .error _ => none
      | .ok onion => some { envelope := enveloped, path, coins := draws.coins, onion, built := h }

theorem coverTurn_path {topology : Topology} {hopCount : Nat} {draws : CoverDraws topology} {d : RoutedCell P}
    (h : coverTurn P topology hopCount draws = some d) :
    selectDiversePath topology hopCount draws.shuffled = .ok d.path := by
  unfold coverTurn at h
  simp only at h
  split at h
  · cases h
  · split at h
    · cases h
    · rename_i path hpath
      split at h
      · cases h
      · cases h
        exact hpath

/-- A turn sends its cell when the topology has as many relays as the path has hops. -/
theorem coverTurn_isSome (hP : P.Lawful) {topology : Topology} {hopCount : Nat} (draws : CoverDraws topology)
    (hpos : 0 < hopCount) (hn : hopCount ≤ topology.relays.length) :
    ∃ d, coverTurn P topology hopCount draws = some d := by
  obtain ⟨data, henc, -⟩ := decryptCell_encryptCell hP (Cell.newDummy_wf draws.messageId draws.payload)
    draws.throwawayKey draws.nonce
  obtain ⟨path, hpath⟩ := selectDiversePath_isOk draws.shuffled hn
  have hne : path ≠ [] := by
    rintro rfl
    have hlen := (selectDiversePath_ok hpath).1
    rw [List.length_nil] at hlen
    omega
  obtain ⟨onion, honion⟩ := buildCircuit_ok hP hne (Envelope.wrap draws.fakeSender data).1 draws.coins
  unfold coverTurn
  simp only [henc, hpath]
  split
  · rename_i e he
    rw [honion] at he
    cases he
  · exact ⟨_, rfl⟩

/-! ## The frames on the links of a path -/

/-- The body that a relay forwards, if the frame asks for it (node.rs:113-126). -/
def bodyOf (keypair : KeyPair P) (frame : Bytes) : Option Bytes :=
  match peelOnionLayer P keypair frame with
  | .ok (.forward _ body) => some body
  | _ => none

/-- The body that it forwards for what it reads of a written frame. -/
def forwardedBody (keypair : KeyPair P) (written : Bytes) : Option Bytes :=
  (readFrame (writeFrame written)).bind fun x => bodyOf keypair x.1

/-- What is written on link `i` of a path: the circuit by the client, and then what the relay before forwards. -/
def onLink (keypairs : List (KeyPair P)) (circuit : Bytes) : Nat → Option Bytes
  | 0 => some circuit
  | i + 1 =>
    match onLink keypairs circuit i, keypairs[i]? with
    | some written, some keypair => forwardedBody keypair written
    | _, _ => none

/-- The length of the layer for hop `i`. -/
def linkLength (path : List RelayInfo) (bodyLength i : Nat) : Nat :=
  bodyLength + 61 + ((path.drop (i + 1)).map fun h => 63 + (utf8 h.address).length).sum

/-- Every link carries a frame of that length. -/
def LinkSizes (keypairs : List (KeyPair P)) (path : List RelayInfo) (bodyLength : Nat) (circuit : Bytes) : Prop :=
  ∀ i < path.length, (onLink keypairs circuit i).map List.length = some (linkLength path bodyLength i)

/-- The length fields that a circuit passes through hold what is written in them. -/
structure Carried (path : List RelayInfo) (bodyLength : Nat) : Prop where
  addresses : ∀ h ∈ path.tail, (utf8 h.address).length ≤ 65535
  frames : path.tail ≠ [] → linkLength path bodyLength 0 < 2 ^ 32

/-- A ciphertext too long for a frame does not decrypt when it is cut to the size of a frame. -/
def Primitives.RejectsCuts (P : Primitives) : Prop :=
  ∀ k n p c, P.encrypt k n p = some c → 2 ^ 32 ≤ EPHEMERAL_KEY_SIZE + NONCE_SIZE + c.length →
    ∀ m, EPHEMERAL_KEY_SIZE + NONCE_SIZE + m < 2 ^ 32 → P.decrypt k n (c.take m) = none

theorem circuitLength_drop (path : List RelayInfo) (i n : Nat) : circuitLength (path.drop i) n = linkLength path n i := by
  rw [circuitLength, linkLength, List.tail_drop, Nat.add_comm 61 n]

section Links
variable {path : List RelayInfo} {body : Bytes} {coins : Nat → LayerCoins} {layers : Nat → Bytes}
  {keypairs : List (KeyPair P)}

theorem IsLayers.length_link (h : IsLayers P path body coins layers) {i : Nat} (hi : i < path.length) :
    (layers i).length = linkLength path body.length i := by
  rw [buildCircuit_length (h i hi), circuitLength_drop]

/-- What a relay forwards of a layer that fits a frame: the next layer, with what was cut off the address. -/
theorem IsLayers.forwardedBody_fits (h : IsLayers P path body coins layers) (hP : P.Lawful) {i : Nat}
    (hi : i + 1 < path.length) {keypair : KeyPair P} (hk : keypair.publicKey = path[i].publicKey)
    (hfit : (layers i).length < 2 ^ 32) :
    forwardedBody keypair (layers i) =
      (fromUtf8 ((utf8 path[i + 1].address).take ((utf8 path[i + 1].address).length % 65536))).map fun _ =>
        (utf8 path[i + 1].address).drop ((utf8 path[i + 1].address).length % 65536) ++ layers (i + 1) := by
  have hread : readFrame (writeFrame (layers i)) = some (layers i, []) := by
    rw [← List.append_nil (writeFrame (layers i))]
    exact Wire.readFrame_writeFrame hfit []
  obtain ⟨frame, hframe, hpeel⟩ := buildOnionLayer_ok hP path[i].publicKey (told path body layers i) (coins i)
  rw [h.built (List.getElem?_eq_getElem (Nat.lt_of_succ_lt hi))] at hframe
  cases hframe
  simp only [forwardedBody, hread, Option.bind_some, bodyOf, hpeel keypair hk, told_of_lt hi, decodePayload_forward]
  cases fromUtf8 ((utf8 path[i + 1].address).take ((utf8 path[i + 1].address).length % 65536)) <;> rfl

/-- A relay forwards a frame of the next layer's length iff its own layer fits a frame and the address fits its field;
then it is the next layer. -/
theorem IsLayers.forwardedBody_iff (h : IsLayers P path body coins layers) (hP : P.Lawful) (hcut : P.RejectsCuts)
    {i : Nat} (hi : i + 1 < path.length) {keypair : KeyPair P} (hk : keypair.publicKey = path[i].publicKey) :
    ((forwardedBody keypair (layers i)).map List.length = some (linkLength path body.length (i + 1)) ↔
      (layers i).length < 2 ^ 32 ∧ (utf8 path[i + 1].address).length ≤ 65535) ∧
    ((layers i).length < 2 ^ 32 → (utf8 path[i + 1].address).length ≤ 65535 →
      forwardedBody keypair (layers i) = some (layers (i + 1))) := by
  have hnext := h.length_link hi
  by_cases hfit : (layers i).length < 2 ^ 32
  · rw [h.forwardedBody_fits hP hi hk hfit]
    generalize path[i + 1].address = address
    by_cases haddr : (utf8 address).length ≤ 65535
    · have hmod : (utf8 address).length % 65536 = (utf8 address).length := Nat.mod_eq_of_lt (by omega)
      rw [hmod, List.take_length, List.drop_length, fromUtf8_utf8]
      simp only [Option.map_some, List.nil_append, hnext]
      exact ⟨⟨fun _ => ⟨hfit, haddr⟩, fun _ => trivial⟩, fun _ _ => trivial⟩
    · refine ⟨⟨fun hlen => ?_, fun hboth => absurd hboth.2 haddr⟩, fun _ hshort => absurd hshort haddr⟩
      cases hhop : fromUtf8 ((utf8 address).take ((utf8 address).length % 65536)) with
      | none =>
        rw [hhop] at hlen
        cases hlen
      | some hop =>
        rw [hhop] at hlen
        simp only [Option.map_some, Option.some.injEq, List.length_append, List.length_drop, hnext] at hlen
        have hlt := Nat.mod_lt (utf8 address).length (show 65536 > 0 by decide)
        omega
  · -- the relay reads the start of the layer only
    have hread := Wire.readFrame_writeFrame_mod 4 (layers i) []
    rw [List.append_nil] at hread
    have hbuilt := h.built (List.getElem?_eq_getElem (Nat.lt_of_succ_lt hi))
    rw [← hk] at hbuilt
    have hsizes : EPHEMERAL_KEY_SIZE + NONCE_SIZE = 44 := rfl
    have hstart := Nat.mod_lt (layers i).length (show 256 ^ 4 > 0 by decide)
    obtain ⟨e, he⟩ := peel_cut hP hbuilt (m := (layers i).length % 256 ^ 4) fun key ct henc hlen =>
      hcut key _ _ ct henc (by omega) _ (by omega)
    have hnone : forwardedBody keypair (layers i) = none := by
      simp only [forwardedBody, readFrame, writeFrame, hread, Option.bind_some, bodyOf, he]
    rw [hnone]
    exact ⟨⟨nofun, fun hboth => absurd hboth.1 hfit⟩, fun hlt => absurd hlt hfit⟩

theorem onLink_succ {circuit written : Bytes} {i : Nat} {keypair : KeyPair P} (h : onLink keypairs circuit i = some written)
    (hk : keypairs[i]? = some keypair) : onLink keypairs circuit (i + 1) = forwardedBody keypair written := by
  rw [onLink, h, hk]

theorem keypair_of_path (hkeys : keypairs.map KeyPair.publicKey = path.map RelayInfo.publicKey) {i : Nat}
    (hi : i < path.length) : ∃ keypair, keypairs[i]? = some keypair ∧ keypair.publicKey = path[i].publicKey := by
  have hmap := congrArg (fun l => l[i]?) hkeys
  simp only [List.getElem?_map, List.getElem?_eq_getElem hi, Option.map_some] at hmap
  exact Option.map_eq_some_iff.1 hmap

/-- While the length fields hold, each link carries the layer of its hop. -/
theorem IsLayers.onLink_eq (h : IsLayers P path body coins layers) (hP : P.Lawful) (hcut : P.RejectsCuts)
    (hkeys : keypairs.map KeyPair.publicKey = path.map RelayInfo.publicKey) {i : Nat} (hi : i < path.length)
    (hfits : ∀ j (hj : j + 1 < path.length), j < i →
      (layers j).length < 2 ^ 32 ∧ (utf8 path[j + 1].address).length ≤ 65535) :
    onLink keypairs (layers 0) i = some (layers i) := by
  induction i with
  | zero => rfl
  | succ i ih =>
    obtain ⟨keypair, hget, hk⟩ := keypair_of_path hkeys (Nat.lt_of_succ_lt hi)
    have hbefore := ih (Nat.lt_of_succ_lt hi) fun j hj hlt => hfits j hj (Nat.lt_succ_of_lt hlt)
    obtain ⟨hframe, haddr⟩ := hfits i hi (Nat.lt_succ_self i)
    rw [onLink_succ hbefore hget]
    exact (h.forwardedBody_iff hP hcut hi hk).2 hframe haddr

/-- **The frames of a circuit have their length on every link iff its length fields hold.** -/
theorem IsLayers.linkSizes_iff (h : IsLayers P path body coins layers) (hP : P.Lawful) (hcut : P.RejectsCuts)
    (hkeys : keypairs.map KeyPair.publicKey = path.map RelayInfo.publicKey) :
    LinkSizes keypairs path body.length (layers 0) ↔ Carried path body.length := by
  constructor
  · intro hsizes
    -- by induction along the path: the frame of each link has its length, so the fields before it held
    have hfits : ∀ i, i < path.length → ∀ j (hj : j + 1 < path.length), j < i →
        (layers j).length < 2 ^ 32 ∧ (utf8 path[j + 1].address).length ≤ 65535 := by
      intro i
      induction i with
      | zero => exact fun _ j _ hlt => absurd hlt (Nat.not_lt_zero j)
      | succ i ih =>
        intro hi j hj hlt
        have hbefore := ih (Nat.lt_of_succ_lt hi)
        rcases Nat.lt_succ_iff_lt_or_eq.1 hlt with hlt | rfl
        · exact hbefore j hj hlt
        · obtain ⟨keypair, hget, hk⟩ := keypair_of_path hkeys (Nat.lt_of_succ_lt hi)
          have hlink := hsizes (j + 1) hi
          rw [onLink_succ (h.onLink_eq hP hcut hkeys (Nat.lt_of_succ_lt hi) hbefore) hget] at hlink
          exact (h.forwardedBody_iff hP hcut hi hk).1.1 hlink
    refine ⟨fun r hr => ?_, fun htail => ?_⟩
    · obtain ⟨j, hj, rfl⟩ := List.mem_iff_getElem.1 hr
      have hj' : j + 1 < path.length := by
        rw [List.length_tail] at hj
        omega
      rw [List.getElem_tail]
      exact (hfits (j + 1) hj' j hj' (Nat.lt_succ_self j)).2
    · have hlong : 0 + 1 < path.length := by
        have := List.length_pos_of_ne_nil htail
        rw [List.length_tail] at this
        omega
      rw [← h.length_link (Nat.lt_of_succ_lt hlong)]
      exact (hfits 1 hlong 0 hlong Nat.zero_lt_one).1
  · intro hcarried i hi
    have hfits : ∀ j (hj : j + 1 < path.length), j < i →
        (layers j).length < 2 ^ 32 ∧ (utf8 path[j + 1].address).length ≤ 65535 := by
      intro j hj _
      have htail : path[j + 1] ∈ path.tail := by
        rw [← List.getElem_tail (by rw [List.length_tail]; omega)]
        exact List.getElem_mem _
      refine ⟨Nat.lt_of_le_of_lt ?_ (hcarried.frames (List.ne_nil_of_mem htail)), hcarried.addresses _ htail⟩
      have hle := circuitLength_drop_le path j body.length
      rwa [circuitLength_drop, ← List.drop_zero (l := path), circuitLength_drop, List.drop_zero,
        ← h.length_link (Nat.lt_of_succ_lt hj)] at hle
    rw [h.onLink_eq hP hcut hkeys hi hfits, Option.map_some, h.length_link hi]

end Links

theorem linkLength_congr {path path' : List RelayInfo} (h : path.map RelayInfo.address = path'.map RelayInfo.address)
    (n i : Nat) : linkLength path n i = linkLength path' n i := by
  have hmap := congrArg (fun l => (l.drop (i + 1)).map fun a => 63 + (utf8 a).length) h
  simp only [← List.map_drop, List.map_map] at hmap
  rw [linkLength, linkLength]
  exact congrArg (fun l => n + 61 + l.sum) hmap

/-- Whether a path is carried depends on its addresses and the length of the body only. -/
theorem Carried.of_addresses {path path' : List RelayInfo} {n : Nat} (h : Carried path n)
    (haddr : path'.map RelayInfo.address = path.map RelayInfo.address) : Carried path' n := by
  have htail : path'.tail.map RelayInfo.address = path.tail.map RelayInfo.address := by
    rw [List.map_tail, List.map_tail, haddr]
  refine ⟨fun r' hr' => ?_, fun hne => ?_⟩
  · have hmem : r'.address ∈ path.tail.map RelayInfo.address := htail ▸ List.mem_map_of_mem hr'
    obtain ⟨r, hr, heq⟩ := List.mem_map.1 hmem
    rw [← heq]
    exact h.addresses r hr
  · rw [linkLength_congr haddr]
    refine h.frames fun hnil => hne ?_
    rw [hnil] at htail
    exact List.map_eq_nil_iff.1 htail

theorem LinkSizes.of_addresses {path path' : List RelayInfo} {keypairs : List (KeyPair P)} {n : Nat} {circuit : Bytes}
    (h : LinkSizes keypairs path n circuit) (haddr : path'.map RelayInfo.address = path.map RelayInfo.address) :
    LinkSizes keypairs path' n circuit := by
  have hlen : path'.length = path.length := by simpa using congrArg List.length haddr
  intro i hi
  rw [linkLength_congr haddr]
  exact h i (hlen ▸ hi)

theorem exists_layers_of_built (hP : P.Lawful) {path : List RelayInfo} {body : Bytes} {coins : Nat → LayerCoins}
    {circuit : Bytes} (h : buildCircuit P path body coins = .ok circuit) :
    ∃ layers, IsLayers P path body coins layers ∧ layers 0 = circuit := by
  have hne : path ≠ [] := by
    rintro rfl
    cases h
  obtain ⟨layers, hlayers⟩ := exists_layers hP path body coins
  have hfirst := hlayers 0 (List.length_pos_of_ne_nil hne)
  rw [List.drop_zero, shift_zero, h] at hfirst
  exact ⟨layers, hlayers, (Except.ok.inj hfirst).symm⟩

/-- A circuit, by what it was built from. -/
theorem linkSizes_iff_carried (hP : P.Lawful) (hcut : P.RejectsCuts) {path : List RelayInfo} {body : Bytes}
    {coins : Nat → LayerCoins} {circuit : Bytes} (h : buildCircuit P path body coins = .ok circuit)
    {keypairs : List (KeyPair P)} (hkeys : keypairs.map KeyPair.publicKey = path.map RelayInfo.publicKey) :
    LinkSizes keypairs path body.length circuit ↔ Carried path body.length := by
  obtain ⟨layers, hlayers, rfl⟩ := exists_layers_of_built hP h
  exact hlayers.linkSizes_iff hP hcut hkeys

def dummyDraws (exitAddress : String) : CoverDraws (twoRelays exitAddress) :=
  ⟨Arr.zeros 16, Arr.zeros _, flatKey 5, Arr.zeros 12, flatKey 6, inOrder exitAddress, noCoins⟩

/-- A cipher that writes in front of the plaintext whether its layer fits a frame. -/
def flagged : Primitives :=
  .tagged fun n => if EPHEMERAL_KEY_SIZE + NONCE_SIZE + TAG_SIZE + n < 2 ^ 32 then Arr.zeros TAG_SIZE else
    ⟨List.replicate TAG_SIZE 1, List.length_replicate⟩

theorem flagged_rejectsCuts : flagged.RejectsCuts := by
  intro k n p c henc hlong m hm
  have hct : c.length = p.length + TAG_SIZE := flagged.encrypt_length henc
  refine Primitives.tagged_cut henc (fun hle => ?_) (by omega)
  rw [if_neg (by omega), if_pos (by omega)]
  decide

/-- The keypairs of the two relays. -/
def twoKeypairs (P : Primitives) : List (KeyPair P) := [.ofSecret (flatKey 0), .ofSecret (flatKey 1)]

/-- An exit address of 65536 bytes is written with length 0: the entry relay forwards all of it in front of the layer. -/
theorem onLink_long (hP : P.Lawful) {a : String} (ha : (utf8 a).length = 65536) {r : RoutedCell P}
    (hpath : r.path = twoHops a) (hkeys : (twoKeypairs P).map KeyPair.publicKey = (twoHops a).map RelayInfo.publicKey) :
    (onLink (twoKeypairs P) r.onion 1).map List.length = some 66169 := by
  have hbuilt := r.built
  rw [hpath] at hbuilt
  obtain ⟨layers, hlayers, honion⟩ := exists_layers_of_built hP hbuilt
  obtain ⟨keypair, hget, hk⟩ := keypair_of_path hkeys (show 0 < (twoHops a).length by simp [twoHops])
  have hsizes : ∀ i < 2, (layers i).length = linkLength (twoHops a) 572 i := by
    intro i hi
    rw [hlayers.length_link hi, Arr.length_val]
    rfl
  have hfirst : linkLength (twoHops a) 572 0 = 66232 := by simp [linkLength, twoHops, ha]
  have hsecond : linkLength (twoHops a) 572 1 = 633 := by simp [linkLength, twoHops]
  have hlast : 0 + 1 < (twoHops a).length := by simp [twoHops]
  have hforward := hlayers.forwardedBody_fits hP hlast hk (by rw [hsizes 0 (by decide), hfirst]; decide)
  have haddr : (twoHops a)[0 + 1].address = a := rfl
  rw [haddr, ha, Nat.mod_self, List.take_zero, List.drop_zero, show fromUtf8 [] = some "" by decide] at hforward
  rw [← honion, onLink_succ rfl hget, hforward, Option.map_some, Option.map_some, List.length_append, ha,
    hsizes (0 + 1) (by decide), hsecond]

theorem subnetKey_repeatA (n : Nat) : subnetKey (repeatA n) = none := by
  have hnone : (repeatA n).toList.reverse.dropWhile (· ≠ ':') = [] := by
    rw [toList_repeatA, List.reverse_replicate, List.dropWhile_eq_nil_iff]
    intro c hc
    rw [List.eq_of_mem_replicate hc]
    rfl
  rw [subnetKey, hnone]

/-- Two relays whose subnets are not the same are chosen in the order of the shuffle. -/
theorem selectDiversePath_inOrder {a : String} (h : subnetKey a = none) :
    selectDiversePath (twoRelays a) 2 (inOrder a) = .ok (twoHops a) := by
  have hentry : subnetKey "127.0.0.1:9001" = some (127, 0, 0) := by decide
  have hfirst := selectStep_new (s := ⟨[], [], []⟩) (r := ⟨"entry", "127.0.0.1:9001", flatKey 0⟩) hentry (by simp)
  have hsecond : ∀ s, selectStep s ⟨"exit", a, flatKey 1⟩ = { s with path := s.path ++ [⟨"exit", a, flatKey 1⟩] } :=
    fun s => selectStep_unknown h
  simp only [selectDiversePath, inOrder, twoHops, List.length_cons, List.length_nil, List.foldl_cons, List.foldl_nil,
    hfirst, hsecond]
  rfl

end VeilFabric
