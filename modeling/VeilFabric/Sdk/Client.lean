import VeilFabric.Core.RoundTrip
import VeilFabric.Routing.Circuit

/-!
# Sending (`veil-sdk/src/session.rs`, `envelope.rs`, `client.rs`)

| here | there |
| --- | --- |
| `Session`, `Session.establish`     | session.rs:13, :24, the ephemeral secret as an argument |
| `Envelope.wrap`, `Envelope.unwrap` | envelope.rs:27, :40 |
| `VeilClient.routeCell`             | the body of the loop in `VeilClient::send` up to the connection (client.rs:71-80) |
| `VeilClient.send`                  | `VeilClient::send` (client.rs:61), its draws and the outcome of each connection as arguments |
-/

namespace VeilFabric
open Wire

/-! ## Sessions -/

/-- `b"veil-sdk-session-v1"` (session.rs:27, receiver.rs:47). -/
def SESSION_KEY_CONTEXT : Bytes := utf8 "veil-sdk-session-v1"

structure Session (P : Primitives) where
  keypair : KeyPair P
  cellKey : Key

variable {P : Primitives}

/-- `Session::establish` (session.rs:24). -/
def Session.establish (recipientPublic secret : Key) : Except VeilError (Session P) := do
  let keypair : KeyPair P := .ofSecret secret
  let shared := keypair.diffieHellman recipientPublic
  let cellKey ← deriveKey P shared SESSION_KEY_CONTEXT
  return { keypair, cellKey }

/-- `Session::public_key` (session.rs:33). -/
def Session.publicKey (self : Session P) : Key := self.keypair.publicKey

/-! ## Envelopes -/

abbrev ENVELOPE_SIZE : Nat := 32 + ENCRYPTED_CELL_SIZE

inductive EnvelopeError where
  | wrongLength (expected actual : Nat)
deriving DecidableEq, Repr

namespace Envelope

/-- `wrap` (envelope.rs:27). -/
def wrap (senderPublic : Key) (encryptedCell : Arr ENCRYPTED_CELL_SIZE) : Arr ENVELOPE_SIZE :=
  senderPublic.append encryptedCell

/-- `unwrap` (envelope.rs:40). -/
def unwrap (envelope : Bytes) : Except EnvelopeError (Key × Arr ENCRYPTED_CELL_SIZE) :=
  if h : envelope.length = ENVELOPE_SIZE then
    let b : Arr ENVELOPE_SIZE := ⟨envelope, h⟩
    .ok (b.slice 0 32 (by decide), b.slice 32 ENCRYPTED_CELL_SIZE (by decide))
  else .error (.wrongLength ENVELOPE_SIZE envelope.length)

/-- What was wrapped comes apart again. -/
theorem unwrap_wrap (senderPublic : Key) (encryptedCell : Arr ENCRYPTED_CELL_SIZE) :
    unwrap (wrap senderPublic encryptedCell).1 = .ok (senderPublic, encryptedCell) := by
  have hcell := Arr.slice_val_append senderPublic.1 encryptedCell.1 [] (by simp) 32 ENCRYPTED_CELL_SIZE
    (by simp) (by simp) (show 32 + ENCRYPTED_CELL_SIZE ≤ ENVELOPE_SIZE by decide)
  have hkey : ((wrap senderPublic encryptedCell).slice 0 32 (by decide)) = senderPublic :=
    Subtype.ext (by simp [wrap, Arr.append, Arr.slice])
  unfold unwrap
  rw [dif_pos (Arr.length_val _)]
  simp only [Except.ok.injEq, Prod.mk.injEq]
  exact ⟨hkey, Subtype.ext (by simpa [wrap, Arr.append] using hcell)⟩

end Envelope

/-! ## `send` -/

inductive ClientError where
  | core (e : VeilError)
  | routing (e : CircuitError)
  | io (e : IoError)
deriving DecidableEq

structure SentCircuit where
  exitRelayId : String
deriving DecidableEq

structure VeilClient where
  topology : Topology
  hopCount : Nat

/-- What one turn of the loop draws. -/
structure CellDraws (topology : Topology) where
  nonce : Nonce
  shuffled : Shuffle topology
  coins : Nat → LayerCoins

/-- A cell on its way: its envelope, the path chosen for it and the circuit built. -/
structure RoutedCell (P : Primitives) where
  envelope : Arr ENVELOPE_SIZE
  path : List RelayInfo
  coins : Nat → LayerCoins
  onion : Bytes
  built : buildCircuit P path envelope.1 coins = .ok onion

namespace RoutedCell

/-- As `build_circuit` refuses an empty path, `path[0]` and `path.last().unwrap()` are there. -/
theorem path_ne (r : RoutedCell P) : r.path ≠ [] := by
  intro hnil
  have hbuilt := r.built
  rw [hnil] at hbuilt
  cases hbuilt

/-- `path[0].address` -/
def firstHopAddr (r : RoutedCell P) : String := (r.path.head r.path_ne).address

/-- `path.last().unwrap().id` -/
def exitRelayId (r : RoutedCell P) : String := (r.path.getLast r.path_ne).id

/-- The circuit as hop `i` is to receive it. -/
def layer (r : RoutedCell P) (i : Nat) : Bytes :=
  match buildCircuit P (r.path.drop i) r.envelope.1 (shift r.coins i) with
  | .ok layer => layer
  | .error _ => []

theorem isLayers (r : RoutedCell P) : IsLayers P r.path r.envelope.1 r.coins r.layer := by
  intro i hi
  obtain ⟨layer, hlayer⟩ := buildCircuit_drop r.built hi
  rw [RoutedCell.layer, hlayer]

theorem layer_zero (r : RoutedCell P) : r.layer 0 = r.onion := by
  rw [layer, List.drop_zero, shift_zero, r.built]

end RoutedCell

/-- Encrypt, wrap, choose a path, build the circuit (client.rs:71-76). -/
def VeilClient.routeCell (self : VeilClient) (session : Session P) (cell : Cell) (draws : CellDraws self.topology) :
    Except ClientError (RoutedCell P) :=
  match encryptCell P session.cellKey draws.nonce cell with
  | .error e => .error (.core e)
  | .ok encrypted =>
    let envelope := Envelope.wrap session.publicKey encrypted
    match selectDiversePath self.topology self.hopCount draws.shuffled with
    | .error e => .error (.routing (.pathSelection e))
    | .ok path =>
      match h : buildCircuit P path envelope.1 draws.coins with
      | .error e => .error (.routing e)
      | .ok onion => .ok { envelope, path, coins := draws.coins, onion, built := h }

/-- A frame written to a fresh connection to `addr`. -/
structure Transmission where
  addr : String
  frame : Bytes
deriving DecidableEq

/-- The loop of `send`: the frames written in full, and the result. `network i` is the error with which the
`i`-th connection or its write fails, if it does. -/
def VeilClient.sendCells (self : VeilClient) (session : Session P) (draws : Nat → CellDraws self.topology)
    (network : Nat → Option IoError) : Nat → List Cell → List Transmission × Except ClientError (List SentCircuit)
  | _, [] => ([], .ok [])
  | i, cell :: cells =>
    match self.routeCell session cell (draws i) with
    | .error e => ([], .error e)
    | .ok routed =>
      match network i with
      | some e => ([], .error (.io e))
      | none =>
        let (sent, result) := self.sendCells session draws network (i + 1) cells
        (⟨routed.firstHopAddr, writeFrame routed.onion⟩ :: sent, result.map (⟨routed.exitRelayId⟩ :: ·))

/-- `VeilClient::send` (client.rs:61). -/
def VeilClient.send (self : VeilClient) (session : Session P) (message : Bytes) (messageId : MessageId)
    (draws : Nat → CellDraws self.topology) (network : Nat → Option IoError) :
    List Transmission × Except ClientError (List SentCircuit) :=
  match fragmentMessage message messageId with
  | .error e => ([], .error (.core e))
  | .ok cells => self.sendCells session draws network 0 cells

/-! ## What a call of `send` puts on the network -/

/-- The cells that the loop routes, up to the first error. -/
def VeilClient.routedCells (self : VeilClient) (session : Session P) (draws : Nat → CellDraws self.topology) :
    Nat → List Cell → List (RoutedCell P)
  | _, [] => []
  | i, cell :: cells =>
    match self.routeCell session cell (draws i) with
    | .error _ => []
    | .ok routed => routed :: self.routedCells session draws (i + 1) cells

/-- While connections succeed, the loop writes the circuits of these cells, each to its first hop, and what it
returns names their exits. -/
theorem VeilClient.sendCells_routed (self : VeilClient) (session : Session P) (draws : Nat → CellDraws self.topology)
    (i : Nat) (cells : List Cell) :
    (self.sendCells session draws (fun _ => none) i cells).1 =
      (self.routedCells session draws i cells).map (fun r => ⟨r.firstHopAddr, writeFrame r.onion⟩) ∧
    ∀ sent, (self.sendCells session draws (fun _ => none) i cells).2 = .ok sent →
      sent = (self.routedCells session draws i cells).map fun r => ⟨r.exitRelayId⟩ := by
  induction cells generalizing i with
  | nil => exact ⟨rfl, by rintro sent ⟨⟩; rfl⟩
  | cons cell cells ih =>
    unfold sendCells routedCells
    cases self.routeCell session cell (draws i) with
    | error e => exact ⟨rfl, nofun⟩
    | ok routed =>
      obtain ⟨hframes, hexits⟩ := ih (i + 1)
      refine ⟨congrArg (_ :: ·) hframes, fun sent hsent => ?_⟩
      cases hrest : (self.sendCells session draws (fun _ => none) (i + 1) cells).2 with
      | error e =>
        simp only [hrest, Except.map] at hsent
        cases hsent
      | ok more =>
        simp only [hrest, Except.map, Except.ok.injEq] at hsent
        rw [← hsent, hexits more hrest]
        rfl

theorem VeilClient.routeCell_path {self : VeilClient} {session : Session P} {cell : Cell}
    {draws : CellDraws self.topology} {r : RoutedCell P} (h : self.routeCell session cell draws = .ok r) :
    selectDiversePath self.topology self.hopCount draws.shuffled = .ok r.path := by
  unfold routeCell at h
  split at h
  · cases h
  · simp only at h
    split at h
    · cases h
    · rename_i path hpath
      split at h
      · cases h
      · cases h
        exact hpath

/-- Where a routed cell comes from. -/
theorem VeilClient.routed_of_mem {self : VeilClient} {session : Session P} {draws : Nat → CellDraws self.topology}
    {i : Nat} {cells : List Cell} {r : RoutedCell P} (h : r ∈ self.routedCells session draws i cells) :
    ∃ j c, self.routeCell session c (draws j) = .ok r := by
  induction cells generalizing i with
  | nil => cases h
  | cons cell cells ih =>
    unfold routedCells at h
    split at h
    · cases h
    · rename_i routed hrouted
      rcases List.mem_cons.1 h with rfl | h
      · exact ⟨i, cell, hrouted⟩
      · exact ih h

theorem VeilClient.routedCells_path {self : VeilClient} {session : Session P} {draws : Nat → CellDraws self.topology}
    {i : Nat} {cells : List Cell} {r : RoutedCell P} (h : r ∈ self.routedCells session draws i cells) :
    r.path ⊆ self.topology.relays := by
  obtain ⟨j, c, hrouted⟩ := routed_of_mem h
  exact (selectDiversePath_ok (routeCell_path hrouted)).2.1

/-- Every cell finds its way when the topology has as many relays as the path has hops. -/
theorem VeilClient.routeCell_isOk (hP : P.Lawful) (self : VeilClient) (session : Session P) {cell : Cell}
    (hc : cell.WF) (draws : CellDraws self.topology) (hpos : 0 < self.hopCount)
    (hn : self.hopCount ≤ self.topology.relays.length) : ∃ r, self.routeCell session cell draws = .ok r := by
  obtain ⟨data, henc, -⟩ := decryptCell_encryptCell hP hc session.cellKey draws.nonce
  obtain ⟨path, hpath⟩ := selectDiversePath_isOk draws.shuffled hn
  have hne : path ≠ [] := by
    rintro rfl
    have hlen := (selectDiversePath_ok hpath).1
    rw [List.length_nil] at hlen
    omega
  obtain ⟨onion, honion⟩ := buildCircuit_ok hP hne (Envelope.wrap session.publicKey data).1 draws.coins
  unfold routeCell
  rw [henc]
  simp only [hpath]
  split
  · rename_i e he
    rw [honion] at he; cases he
  · exact ⟨_, rfl⟩

/-- With enough relays every cell is routed. -/
theorem VeilClient.routedCells_length {self : VeilClient} {session : Session P} {draws : Nat → CellDraws self.topology}
    {cells : List Cell} (hP : P.Lawful) (hwf : ∀ c ∈ cells, c.WF) (hpos : 0 < self.hopCount)
    (hn : self.hopCount ≤ self.topology.relays.length) (i : Nat) :
    (self.routedCells session draws i cells).length = cells.length := by
  induction cells generalizing i with
  | nil => rfl
  | cons cell cells ih =>
    obtain ⟨r, hr⟩ := self.routeCell_isOk hP session (hwf cell List.mem_cons_self) (draws i) hpos hn
    simp only [routedCells, hr, List.length_cons, ih (fun c hc => hwf c (List.mem_cons_of_mem _ hc)) (i + 1)]

/-! ## A client of two relays -/

/-- An entry and an exit relay that anyone may choose. -/
def twoRelays (exitAddress : String) : Topology := ⟨twoHops exitAddress, show ["entry", "exit"].Nodup by decide⟩

/-- The two in the order of their list. -/
def inOrder (exitAddress : String) : Shuffle (twoRelays exitAddress) := ⟨twoHops exitAddress, .refl _⟩

def dataDraws (exitAddress : String) : CellDraws (twoRelays exitAddress) := ⟨Arr.zeros 12, inOrder exitAddress, noCoins⟩

abbrev twoHopClient : VeilClient := ⟨twoRelays "127.0.0.1:9002", 2⟩

theorem twoHopClient_path {session : Session P} {i : Nat} {cells : List Cell} {r : RoutedCell P}
    (h : r ∈ twoHopClient.routedCells session (fun _ => dataDraws _) i cells) :
    r.path = twoHops "127.0.0.1:9002" := by
  have hselect : selectDiversePath (twoRelays "127.0.0.1:9002") 2 (inOrder "127.0.0.1:9002") =
      .ok (twoHops "127.0.0.1:9002") := by decide
  obtain ⟨j, c, hrouted⟩ := VeilClient.routed_of_mem h
  exact Except.ok.inj ((VeilClient.routeCell_path hrouted).symm.trans hselect)

end VeilFabric
