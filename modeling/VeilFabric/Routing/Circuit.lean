import VeilFabric.Relay.Forwarding
import VeilFabric.Routing.PathSelection

/-!
# Circuits (`veil-routing/src/lib.rs`)

| here | there |
| --- | --- |
| `CircuitError`          | `enum CircuitError` (lib.rs:20) |
| `buildCircuit`          | `build_circuit` (lib.rs:33), the draws of hop `i`'s layer as `coins i` |
| `wrapHops`              | its loop `for i in (0..inner_hops.len()).rev()` (lib.rs:41-55) |

The loop runs over indices from the exit inwards; `buildCircuit_singleton` and `buildCircuit_cons` are the
same function by recursion on the path, and every proof below goes by these two equations. So the layer
of hop `i` is `buildCircuit` of the path from hop `i` on (`IsLayers`), and `told` is what hop `i` reads in
it.

* `buildCircuit_length` — how long a circuit is.
* `buildCircuit_peels` — the relays' keypairs peel the circuit hop by hop, in path order.
-/

namespace VeilFabric
open Wire

inductive CircuitError where
  | pathSelection (e : PathSelectionError)
  | onion (e : OnionError)
  | emptyPath
deriving DecidableEq

variable (P : Primitives)

/-- One turn of the loop: wrap `layer` for `innerHops[i]`. -/
def wrapHop (exit : RelayInfo) (innerHops : List RelayInfo) (coins : Nat → LayerCoins) (i : Nat)
    (h : i < innerHops.length) (layer : Bytes) : Except CircuitError Bytes :=
  let hop := innerHops[i]
  let nextHopAddr := if h' : i + 1 < innerHops.length then innerHops[i + 1].address else exit.address
  (buildOnionLayer P hop.publicKey (.forward nextHopAddr layer) (coins i)).mapError .onion

/-- The turns `i - 1, …, 1, 0`. -/
def wrapHops (exit : RelayInfo) (innerHops : List RelayInfo) (coins : Nat → LayerCoins) :
    (i : Nat) → i ≤ innerHops.length → Bytes → Except CircuitError Bytes
  | 0, _, layer => .ok layer
  | i + 1, h, layer => do
    let layer ← wrapHop P exit innerHops coins i h layer
    wrapHops exit innerHops coins i (Nat.le_of_succ_le h) layer

/-- `build_circuit` (lib.rs:33). -/
def buildCircuit (path : List RelayInfo) (finalBody : Bytes) (coins : Nat → LayerCoins) :
    Except CircuitError Bytes :=
  match path.getLast? with
  | none => .error .emptyPath
  | some exit => do
    let innerHops := path.dropLast
    let layer ← (buildOnionLayer P exit.publicKey (.deliver finalBody) (coins innerHops.length)).mapError .onion
    wrapHops P exit innerHops coins innerHops.length (Nat.le_refl _) layer

variable {P}

/-! ## The loop, by recursion on the path -/

/-- The coins of the hops after the first `i`. -/
def shift (coins : Nat → LayerCoins) (i : Nat) : Nat → LayerCoins := fun k => coins (i + k)

theorem shift_zero (coins : Nat → LayerCoins) : shift coins 0 = coins := by
  funext k; simp [shift]

theorem shift_shift (coins : Nat → LayerCoins) (i j : Nat) : shift (shift coins i) j = shift coins (i + j) := by
  funext k; simp [shift, Nat.add_assoc]

/-- The loop over a longer path is the loop over its tail, then the turn of the first hop. -/
theorem wrapHops_cons (exit r : RelayInfo) (inner : List RelayInfo) (coins : Nat → LayerCoins) :
    ∀ (i : Nat) (h : i ≤ inner.length) (layer : Bytes),
      wrapHops P exit (r :: inner) coins (i + 1) (Nat.succ_le_succ h) layer =
        (wrapHops P exit inner (shift coins 1) i h layer >>= fun layer =>
          wrapHop P exit (r :: inner) coins 0 (Nat.succ_pos _) layer) := by
  intro i
  induction i with
  | zero =>
    intro h layer
    simp only [wrapHops, bind, Except.bind]
    cases wrapHop P exit (r :: inner) coins 0 (Nat.succ_pos _) layer <;> rfl
  | succ i ih =>
    intro h layer
    have hturn : wrapHop P exit (r :: inner) coins (i + 1) (Nat.succ_lt_succ h) layer =
        wrapHop P exit inner (shift coins 1) i h layer := by
      simp [wrapHop, shift, Nat.add_comm 1 i]
    rw [wrapHops, wrapHops, hturn]
    cases wrapHop P exit inner (shift coins 1) i h layer with
    | error e => rfl
    | ok layer => exact ih (Nat.le_of_succ_le h) layer

theorem buildCircuit_nil (finalBody : Bytes) (coins : Nat → LayerCoins) :
    buildCircuit P [] finalBody coins = .error .emptyPath := rfl

theorem buildCircuit_singleton (r : RelayInfo) (finalBody : Bytes) (coins : Nat → LayerCoins) :
    buildCircuit P [r] finalBody coins =
      (buildOnionLayer P r.publicKey (.deliver finalBody) (coins 0)).mapError .onion := by
  simp only [buildCircuit, List.getLast?_singleton, List.dropLast_singleton, List.length_nil, wrapHops, bind, Except.bind]
  cases (buildOnionLayer P r.publicKey (.deliver finalBody) (coins 0)).mapError CircuitError.onion <;> rfl

/-- The first hop's layer wraps the circuit of the rest and names the second hop. -/
theorem buildCircuit_cons (r r' : RelayInfo) (path : List RelayInfo) (finalBody : Bytes) (coins : Nat → LayerCoins) :
    buildCircuit P (r :: r' :: path) finalBody coins =
      (buildCircuit P (r' :: path) finalBody (shift coins 1) >>= fun layer =>
        (buildOnionLayer P r.publicKey (.forward r'.address layer) (coins 0)).mapError .onion) := by
  obtain ⟨exit, hexit⟩ : ∃ exit, (r' :: path).getLast? = some exit := by simp [List.getLast?_cons]
  have hexit' : (r :: r' :: path).getLast? = some exit := by rw [List.getLast?_cons_cons, hexit]
  have hnext : ∀ layer, wrapHop P exit (r :: (r' :: path).dropLast) coins 0 (Nat.succ_pos _) layer =
      (buildOnionLayer P r.publicKey (.forward r'.address layer) (coins 0)).mapError .onion := by
    intro layer
    cases path with
    | nil =>
      cases hexit
      rfl
    | cons r'' path => rfl
  simp only [buildCircuit, hexit, hexit', List.dropLast_cons_cons, List.length_cons]
  rw [show coins ((r' :: path).dropLast.length + 1) = shift coins 1 (r' :: path).dropLast.length by
    simp [shift, Nat.add_comm]]
  cases (buildOnionLayer P exit.publicKey (.deliver finalBody) (shift coins 1 (r' :: path).dropLast.length)).mapError
    CircuitError.onion with
  | error e => rfl
  | ok layer =>
    simp only [bind, Except.bind]
    rw [wrapHops_cons exit r (r' :: path).dropLast coins _ (Nat.le_refl _)]
    simp only [bind, Except.bind, hnext]

/-! ## The layers of a circuit -/

/-- `layers i` is what the circuit holds for hop `i`: the circuit of the path from there on. -/
def IsLayers (P : Primitives) (path : List RelayInfo) (finalBody : Bytes) (coins : Nat → LayerCoins)
    (layers : Nat → Bytes) : Prop :=
  ∀ i < path.length, buildCircuit P (path.drop i) finalBody (shift coins i) = .ok (layers i)

/-- What the layer of hop `i` is to tell it. -/
def told (path : List RelayInfo) (finalBody : Bytes) (layers : Nat → Bytes) (i : Nat) : OnionPayload :=
  match path[i + 1]? with
  | some next => .forward next.address (layers (i + 1))
  | none => .deliver finalBody

theorem told_of_lt {path : List RelayInfo} {finalBody : Bytes} {layers : Nat → Bytes} {i : Nat}
    (h : i + 1 < path.length) : told path finalBody layers i = .forward path[i + 1].address (layers (i + 1)) := by
  rw [told, List.getElem?_eq_getElem h]

theorem told_of_last {path : List RelayInfo} {finalBody : Bytes} {layers : Nat → Bytes} {i : Nat}
    (h : path.length ≤ i + 1) : told path finalBody layers i = .deliver finalBody := by
  rw [told, List.getElem?_eq_none h]

/-- The address named in the layer before hop `i` fits its 16-bit length field. -/
def AddressFits (path : List RelayInfo) (i : Nat) : Prop := ∀ r, path[i]? = some r → (utf8 r.address).length ≤ 65535

section Layers
variable {path : List RelayInfo} {finalBody : Bytes} {coins : Nat → LayerCoins} {layers : Nat → Bytes}

theorem buildCircuit_ok (hP : P.Lawful) (hpath : path ≠ []) (finalBody : Bytes) (coins : Nat → LayerCoins) :
    ∃ layer, buildCircuit P path finalBody coins = .ok layer := by
  induction path generalizing coins with
  | nil => exact absurd rfl hpath
  | cons r path ih =>
    cases path with
    | nil =>
      obtain ⟨frame, hframe, -⟩ := buildOnionLayer_ok hP r.publicKey (.deliver finalBody) (coins 0)
      exact ⟨frame, by rw [buildCircuit_singleton, hframe]; rfl⟩
    | cons r' path =>
      obtain ⟨layer, hlayer⟩ := ih (by simp) (shift coins 1)
      obtain ⟨frame, hframe, -⟩ := buildOnionLayer_ok hP r.publicKey (.forward r'.address layer) (coins 0)
      refine ⟨frame, ?_⟩
      rw [buildCircuit_cons, hlayer]
      exact congrArg (Except.mapError CircuitError.onion) hframe

theorem exists_layers (hP : P.Lawful) (path : List RelayInfo) (finalBody : Bytes) (coins : Nat → LayerCoins) :
    ∃ layers, IsLayers P path finalBody coins layers := by
  have h : ∀ i, ∃ layer, i < path.length → buildCircuit P (path.drop i) finalBody (shift coins i) = .ok layer := by
    intro i
    by_cases hi : i < path.length
    · have hne : path.drop i ≠ [] := by simpa using hi
      obtain ⟨layer, hlayer⟩ := buildCircuit_ok hP hne finalBody (shift coins i)
      exact ⟨layer, fun _ => hlayer⟩
    · exact ⟨[], fun h => absurd h hi⟩
  choose layers hlayers using h
  exact ⟨layers, hlayers⟩

/-- A circuit was built from the inside: the circuits of the later hops are there. -/
theorem buildCircuit_drop {layer : Bytes} (h : buildCircuit P path finalBody coins = .ok layer) {i : Nat}
    (hi : i < path.length) : ∃ layer, buildCircuit P (path.drop i) finalBody (shift coins i) = .ok layer := by
  induction i generalizing path coins layer with
  | zero => exact ⟨layer, by rwa [List.drop_zero, shift_zero]⟩
  | succ i ih =>
    rcases path with _ | ⟨r, _ | ⟨r', path⟩⟩
    · cases h
    · simp at hi
    · rw [buildCircuit_cons] at h
      cases hinner : buildCircuit P (r' :: path) finalBody (shift coins 1) with
      | error e =>
        rw [hinner] at h
        cases h
      | ok inner =>
        obtain ⟨layer, hlayer⟩ := ih hinner (Nat.lt_of_succ_lt_succ hi)
        rw [shift_shift, Nat.add_comm] at hlayer
        exact ⟨layer, hlayer⟩

theorem mapError_ok {ε ε' α : Type} {f : ε → ε'} {x : Except ε α} {a : α} (h : x.mapError f = .ok a) : x = .ok a := by
  cases x with
  | error e => cases h
  | ok b => cases h; rfl

/-- **The nesting of a circuit**: the layer of hop `i` is built for its key and tells it the address of
hop `i + 1` with that hop's layer, or at the exit the final body. -/
theorem IsLayers.built (h : IsLayers P path finalBody coins layers) {i : Nat} {r : RelayInfo} (hr : path[i]? = some r) :
    buildOnionLayer P r.publicKey (told path finalBody layers i) (coins i) = .ok (layers i) := by
  obtain ⟨hi, rfl⟩ := List.getElem?_eq_some_iff.1 hr
  have hlayer := h i hi
  rw [List.drop_eq_getElem_cons hi] at hlayer
  unfold told
  by_cases hnext : i + 1 < path.length
  · have hinner := h (i + 1) hnext
    rw [List.drop_eq_getElem_cons hnext] at hlayer hinner
    rw [buildCircuit_cons, shift_shift, hinner] at hlayer
    rw [List.getElem?_eq_getElem hnext]
    exact mapError_ok hlayer
  · rw [List.drop_eq_nil_of_le (Nat.le_of_not_lt hnext), buildCircuit_singleton] at hlayer
    rw [List.getElem?_eq_none (Nat.le_of_not_lt hnext)]
    exact mapError_ok hlayer

theorem told_fits {i : Nat} (h : AddressFits path (i + 1)) : (told path finalBody layers i).Fits := by
  unfold told
  split
  · rename_i next hnext
    exact h next hnext
  · trivial

/-- A hop's own keypair opens its layer. -/
theorem IsLayers.peel (h : IsLayers P path finalBody coins layers) (hP : P.Lawful) {i : Nat} {r : RelayInfo}
    (hr : path[i]? = some r) {keypair : KeyPair P} (hk : keypair.publicKey = r.publicKey)
    (hfits : AddressFits path (i + 1)) :
    peelOnionLayer P keypair (layers i) = .ok (told path finalBody layers i) := by
  have hbuilt := h.built hr
  rw [← hk] at hbuilt
  exact peel_build hP (told_fits hfits) hbuilt

/-- The bytes of a circuit: 61 for the exit's layer, and for every hop after the first 63 and its address. -/
def circuitLength (path : List RelayInfo) (bodyLength : Nat) : Nat :=
  61 + bodyLength + (path.tail.map fun r => 63 + (utf8 r.address).length).sum

theorem circuitLength_drop_le (path : List RelayInfo) (i n : Nat) :
    circuitLength (path.drop i) n ≤ circuitLength path n := by
  induction path generalizing i with
  | nil => simp
  | cons r path ih =>
    cases i with
    | zero => exact Nat.le_refl _
    | succ i =>
      have htail : circuitLength path n ≤ circuitLength (r :: path) n := by
        cases path <;> simp [circuitLength]
      exact Nat.le_trans (ih i) htail

/-- **The length of a circuit** depends on its addresses and on the length of the body only. -/
theorem buildCircuit_length {layer : Bytes} (h : buildCircuit P path finalBody coins = .ok layer) :
    layer.length = circuitLength path finalBody.length := by
  have hsizes : EPHEMERAL_KEY_SIZE + NONCE_SIZE + TAG_SIZE = 60 := rfl
  induction path generalizing coins layer with
  | nil => cases h
  | cons r path ih =>
    cases path with
    | nil =>
      rw [buildCircuit_singleton] at h
      have hlen := buildOnionLayer_length (mapError_ok h)
      have henc : (encodePayload (.deliver finalBody)).length = finalBody.length + 1 := rfl
      rw [hlen, hsizes, henc]
      simp only [circuitLength, List.tail_cons, List.map_nil, List.sum_nil]
      omega
    | cons r' path =>
      obtain ⟨inner, hinner⟩ : ∃ inner, buildCircuit P (r' :: path) finalBody (shift coins 1) = .ok inner := by
        rw [buildCircuit_cons] at h
        cases hinner : buildCircuit P (r' :: path) finalBody (shift coins 1) with
        | error e => rw [hinner] at h; cases h
        | ok inner => exact ⟨inner, rfl⟩
      rw [buildCircuit_cons, hinner] at h
      have hlen := buildOnionLayer_length (mapError_ok h)
      rw [encodePayload_forward_length, ih hinner, hsizes] at hlen
      rw [hlen]
      simp only [circuitLength, List.tail_cons, List.map_cons, List.sum_cons]
      omega

end Layers

/-- **Circuit correctness.** Peeled with the relays' keypairs in path order, a circuit yields at every hop
but the last the address of the next one together with that hop's layer, and at the last hop the final
body. It is built for every path but the empty one. -/
theorem buildCircuit_peels (hP : P.Lawful) (path : List RelayInfo) (keypairs : List (KeyPair P))
    (hkeys : keypairs.map KeyPair.publicKey = path.map RelayInfo.publicKey)
    (haddr : ∀ r ∈ path.tail, (utf8 r.address).length ≤ 65535) (finalBody : Bytes) (coins : Nat → LayerCoins) :
    (path ≠ [] → ∃ layers : Nat → Bytes, buildCircuit P path finalBody coins = .ok (layers 0) ∧
      (∀ i < path.length, buildCircuit P (path.drop i) finalBody (shift coins i) = .ok (layers i)) ∧
      ∀ i keypair, keypairs[i]? = some keypair →
        (∀ next, path[i + 1]? = some next →
          peelOnionLayer P keypair (layers i) = .ok (.forward next.address (layers (i + 1)))) ∧
        (i + 1 = path.length → peelOnionLayer P keypair (layers i) = .ok (.deliver finalBody))) ∧
    (buildCircuit P path finalBody coins = .error .emptyPath ↔ path = []) := by
  refine ⟨fun hpath => ?_, ?_⟩
  · obtain ⟨layers, hlayers⟩ := exists_layers hP path finalBody coins
    refine ⟨layers, ?_, hlayers, fun i keypair hi => ?_⟩
    · have h0 := hlayers 0 (List.length_pos_of_ne_nil hpath)
      rwa [List.drop_zero, shift_zero] at h0
    · have hfits : AddressFits path (i + 1) := fun r hr => haddr r (by
        rw [← List.getElem?_tail] at hr
        exact List.mem_of_getElem? hr)
      obtain ⟨r, hr, hk⟩ : ∃ r, path[i]? = some r ∧ keypair.publicKey = r.publicKey := by
        have hmap := congrArg (fun l => l[i]?) hkeys
        simp only [List.getElem?_map, hi, Option.map_some] at hmap
        obtain ⟨r, hr, hk⟩ := Option.map_eq_some_iff.1 hmap.symm
        exact ⟨r, hr, hk.symm⟩
      have hpeel := hlayers.peel hP hr hk hfits
      refine ⟨fun next hnext => ?_, fun hlast => ?_⟩
      · rw [hpeel, told, hnext]
      · rw [hpeel, told, List.getElem?_eq_none (by omega)]
  · refine ⟨fun herr => ?_, fun hnil => by rw [hnil, buildCircuit_nil]⟩
    by_contra hpath
    obtain ⟨layer, hok⟩ := buildCircuit_ok hP hpath finalBody coins
    rw [hok] at herr
    cases herr

/-- A key of equal bytes. -/
def flatKey (b : UInt8) : Key := ⟨List.replicate 32 b, by simp⟩

/-- An entry and an exit relay. -/
def twoHops (exitAddress : String) : List RelayInfo :=
  [⟨"entry", "127.0.0.1:9001", flatKey 0⟩, ⟨"exit", exitAddress, flatKey 1⟩]

def noCoins : Nat → LayerCoins := fun _ => ⟨Arr.zeros 32, Arr.zeros 12⟩

theorem buildCircuit_peels_twoHops : ∃ layers : Nat → Bytes,
    buildCircuit .toy (twoHops "127.0.0.1:9002") [7] noCoins = .ok (layers 0) ∧
    peelOnionLayer .toy (.ofSecret (flatKey 0)) (layers 0) = .ok (.forward "127.0.0.1:9002" (layers 1)) ∧
    peelOnionLayer .toy (.ofSecret (flatKey 1)) (layers 1) = .ok (.deliver [7]) := by
  have haddr : (utf8 "127.0.0.1:9002").length ≤ 65535 := by decide
  obtain ⟨layers, hbuild, -, hpeel⟩ := (buildCircuit_peels Primitives.toy_lawful (twoHops "127.0.0.1:9002")
    [.ofSecret (flatKey 0), .ofSecret (flatKey 1)] rfl (by simpa [twoHops] using haddr) [7] noCoins).1 (by simp [twoHops])
  exact ⟨layers, hbuild, (hpeel 0 _ rfl).1 _ rfl, (hpeel 1 _ rfl).2 rfl⟩

end VeilFabric
