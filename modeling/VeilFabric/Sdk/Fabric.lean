import VeilFabric.Relay.Node
import VeilFabric.Relay.Mailbox
import VeilFabric.Sdk.Client
import VeilFabric.Lib.Queues
import VeilFabric.Lib.Transition

/-!
# The fabric: clients, relays and mailboxes together

Any number of calls of `VeilClient::send` run at once over a set of relays. `Fabric.Step` has the steps that
interleave:

| step | source |
| --- | --- |
| `write`   | a turn of the loop of `send`: connect to the first hop and `write_frame` (client.rs:81-82) |
| `relay`   | a turn of `handle_connection` on one inbound connection: read a frame, peel it, forward its body or send it to the delivery channel (node.rs:104-132) |
| `deliver` | a turn of the bridge: `delivery_rx.recv()`, `mailbox.push` (main.rs:72-78) |

Connections are byte streams. A client opens one for every cell; a relay keeps one for every address it forwards
to. They all succeed, and none is refused.

A `Census` says where the cells are: it is a list of the cells sent, each once and with its place, a hop of its
own path, the channel or the mailbox of its exit, and every stream, channel and mailbox holds what the list
shows there, in order. `conserved_of_reachable`: every reachable state has one, as long as each circuit fits
a frame.
-/

namespace VeilFabric
open Wire Queues

/-! ## The network -/

/-- The relays, with the keypair of each by its id. What a topology says of them is true. -/
structure Network (P : Primitives) where
  relays : Topology
  keypair : String → KeyPair P
  keys : ∀ r ∈ relays.relays, (keypair r.id).publicKey = r.publicKey
  addresses_nodup : (relays.relays.map RelayInfo.address).Nodup
  short : ∀ r ∈ relays.relays, (utf8 r.address).length ≤ 65535

variable {P : Primitives}

/-- A call of `send`. The client may know only some of the relays. -/
structure SendCall (net : Network P) where
  client : VeilClient
  known : client.topology.relays ⊆ net.relays.relays
  session : Session P
  message : Bytes
  messageId : MessageId
  draws : Nat → CellDraws client.topology

/-- The cells the call routes, in order. -/
def SendCall.routed {net : Network P} (call : SendCall net) : List (RoutedCell P) :=
  match fragmentMessage call.message call.messageId with
  | .error _ => []
  | .ok cells => call.client.routedCells call.session call.draws 0 cells

/-- They are what the call writes while connections succeed, and the circuits it reports. -/
theorem SendCall.send_routed {net : Network P} (call : SendCall net) :
    (call.client.send call.session call.message call.messageId call.draws fun _ => none).1 =
      call.routed.map (fun r => ⟨r.firstHopAddr, writeFrame r.onion⟩) ∧
    ∀ sent, (call.client.send call.session call.message call.messageId call.draws fun _ => none).2 = .ok sent →
      sent = call.routed.map fun r => ⟨r.exitRelayId⟩ := by
  unfold VeilClient.send SendCall.routed
  cases fragmentMessage call.message call.messageId with
  | error e => exact ⟨rfl, nofun⟩
  | ok cells => exact call.client.sendCells_routed call.session call.draws 0 cells

theorem SendCall.routed_path {net : Network P} {call : SendCall net} {r : RoutedCell P} (h : r ∈ call.routed) :
    r.path ⊆ net.relays.relays := by
  unfold routed at h
  split at h
  · cases h
  · exact List.Subset.trans (VeilClient.routedCells_path h) call.known

/-- Who opened a connection: a client, for its `n`-th cell over all, or a relay. -/
inductive Source where
  | client (n : Nat)
  | relay (id : String)
deriving DecidableEq

structure Connection where
  source : Source
  addr : String
deriving DecidableEq

/-- Relays are named by their ids. -/
structure Fabric (P : Primitives) (ι : Type) where
  nodes : String → RelayNode P
  /-- What has been written to a connection and not been read. -/
  streams : Connection → Bytes
  /-- `delivery_tx` and `delivery_rx`. -/
  channel : String → List Bytes
  mailbox : String → Mailbox
  /-- What each call has still to write. -/
  pending : ι → List (RoutedCell P)
  /-- The cells written so far. -/
  sent : List (RoutedCell P)

namespace Fabric
variable {ι : Type}

def initial (net : Network P) (calls : ι → SendCall net) : Fabric P ι where
  nodes id := .fresh (net.keypair id)
  streams _ := []
  channel _ := []
  mailbox _ := []
  pending i := (calls i).routed
  sent := []

/-- `write_frame` on a connection. -/
def put (s : Fabric P ι) (c : Connection) (body : Bytes) : Fabric P ι :=
  { s with streams := Function.update s.streams c (s.streams c ++ writeFrame body) }

/-- What relay `id` does to the fabric. -/
def perform (id : String) (s : Fabric P ι) : Effect → Fabric P ι
  | .forwarded nextHop body => s.put ⟨.relay id, nextHop⟩ body
  | .delivered body => { s with channel := Function.update s.channel id (s.channel id ++ [body]) }

/-- Relay `id` has read `frame` from `c`, where `rest` is left. Its dials and writes succeed. -/
def handle (s : Fabric P ι) (id : String) (c : Connection) (frame rest : Bytes) : Fabric P ι :=
  ((s.nodes id).handleFrame connected frame).2.1.foldl (perform id)
    { s with
      nodes := Function.update s.nodes id ((s.nodes id).handleFrame connected frame).1
      streams := Function.update s.streams c rest }

section Steps
variable [DecidableEq ι]

inductive Step (net : Network P) : Fabric P ι → Fabric P ι → Prop
  | write (s : Fabric P ι) (i : ι) (r : RoutedCell P) (rest : List (RoutedCell P)) : s.pending i = r :: rest →
      Step net s { s.put ⟨.client s.sent.length, r.firstHopAddr⟩ r.onion with
        pending := Function.update s.pending i rest
        sent := s.sent ++ [r] }
  | relay (s : Fabric P ι) (info : RelayInfo) (source : Source) (frame rest : Bytes) : info ∈ net.relays.relays →
      readFrame (s.streams ⟨source, info.address⟩) = some (frame, rest) →
      Step net s (s.handle info.id ⟨source, info.address⟩ frame rest)
  | deliver (s : Fabric P ι) (info : RelayInfo) (body : Bytes) (rest : List Bytes) : info ∈ net.relays.relays →
      s.channel info.id = body :: rest →
      Step net s { s with
        channel := Function.update s.channel info.id rest
        mailbox := Function.update s.mailbox info.id ((s.mailbox info.id).push body) }

def system (net : Network P) (calls : ι → SendCall net) : Transition.System (Fabric P ι) :=
  ⟨fun s => s = initial net calls, Step net⟩

end Steps

/-! ## Where a cell can be -/

end Fabric

namespace RoutedCell

def hopAddress (r : RoutedCell P) (i : Nat) : String := ((r.path[i]?).map RelayInfo.address).getD ""

/-- The circuit can be framed: its length fits the `u32` that `write_frame` writes. -/
def FitsFrame (r : RoutedCell P) : Prop := circuitLength r.path ENVELOPE_SIZE < 2 ^ 32

theorem hopAddress_eq {r : RoutedCell P} {i : Nat} (h : i < r.path.length) : r.hopAddress i = r.path[i].address := by
  simp [hopAddress, h]

theorem hopAddress_zero (r : RoutedCell P) : r.hopAddress 0 = r.firstHopAddr := by
  rw [hopAddress_eq (List.length_pos_of_ne_nil r.path_ne), firstHopAddr, List.head_eq_getElem]

/-- Every layer fits when the outermost does. -/
theorem layer_lt {r : RoutedCell P} (hfit : r.FitsFrame) {i : Nat} (hi : i < r.path.length) :
    (r.layer i).length < 2 ^ 32 := by
  have hlen := buildCircuit_length (r.isLayers i hi)
  rw [Arr.length_val] at hlen
  rw [hlen]
  exact Nat.lt_of_le_of_lt (circuitLength_drop_le _ _ _) hfit

end RoutedCell

/-- A place on the way of a cell: the connection from `source` to a hop, or the channel or mailbox of its exit. -/
inductive Place where
  | link (source : Source) (hop : Nat)
  | channel
  | mailbox
deriving DecidableEq

/-- The queues of the fabric. -/
inductive Spot where
  | link (c : Connection)
  | channel (id : String)
  | mailbox (id : String)
deriving DecidableEq

/-- In which queue a cell at a place of its path stands, and as what: on a connection to a hop as the layer for
that hop, at its exit as the envelope. -/
def spot : RoutedCell P × Place → Spot × Bytes
  | (r, .link source hop) => (.link ⟨source, r.hopAddress hop⟩, r.layer hop)
  | (r, .channel) => (.channel r.exitRelayId, r.envelope.1)
  | (r, .mailbox) => (.mailbox r.exitRelayId, r.envelope.1)

namespace Fabric
variable {ι : Type}

/-- The queues of the fabric are `q`. -/
structure Shows (s : Fabric P ι) (q : Spot → List Bytes) : Prop where
  streams : ∀ c, s.streams c = (q (.link c)).flatMap writeFrame
  channels : ∀ id, s.channel id = q (.channel id)
  mailboxes : ∀ id, s.mailbox id = q (.mailbox id)

section Shows
variable {s t : Fabric P ι} {q : Spot → List Bytes}

theorem Shows.setStream (h : Shows s q) {c : Connection} {bs : List Bytes}
    (hstreams : t.streams = Function.update s.streams c (bs.flatMap writeFrame)) (hchannel : t.channel = s.channel)
    (hmailbox : t.mailbox = s.mailbox) : Shows t (Function.update q (.link c) bs) := by
  refine ⟨fun c' => ?_, fun id => ?_, fun id => ?_⟩
  · rw [hstreams]
    by_cases hc : c' = c
    · subst hc; simp
    · simp [hc, h.streams c']
  · rw [hchannel, h.channels id]; simp
  · rw [hmailbox, h.mailboxes id]; simp

theorem Shows.setChannel (h : Shows s q) {id : String} {bs : List Bytes} (hstreams : t.streams = s.streams)
    (hchannel : t.channel = Function.update s.channel id bs) (hmailbox : t.mailbox = s.mailbox) :
    Shows t (Function.update q (.channel id) bs) := by
  refine ⟨fun c => ?_, fun id' => ?_, fun id' => ?_⟩
  · rw [hstreams, h.streams c]; simp
  · rw [hchannel]
    by_cases hid : id' = id
    · subst hid; simp
    · simp [hid, h.channels id']
  · rw [hmailbox, h.mailboxes id']; simp

theorem Shows.setMailbox (h : Shows s q) {id : String} {bs : List Bytes} (hstreams : t.streams = s.streams)
    (hchannel : t.channel = s.channel) (hmailbox : t.mailbox = Function.update s.mailbox id bs) :
    Shows t (Function.update q (.mailbox id) bs) := by
  refine ⟨fun c => ?_, fun id' => ?_, fun id' => ?_⟩
  · rw [hstreams, h.streams c]; simp
  · rw [hchannel, h.channels id']; simp
  · rw [hmailbox]
    by_cases hid : id' = id
    · subst hid; simp
    · simp [hid, h.mailboxes id']

/-- A frame written to a connection joins its queue. -/
theorem Shows.put (h : Shows s q) (c : Connection) (body : Bytes) :
    Shows (s.put c body) (Function.update q (.link c) (q (.link c) ++ [body])) := by
  refine h.setStream ?_ rfl rfl
  rw [Fabric.put, h.streams c]
  simp

end Shows

/-- The steps a cell has still to go from its place. -/
def togo : RoutedCell P × Place → Nat
  | (r, .link _ hop) => r.path.length - hop + 1
  | (_, .channel) => 1
  | (_, .mailbox) => 0

/-- What the cells of a census have still to go. -/
def distance (census : List (RoutedCell P × Place)) : Nat := (census.map togo).sum

theorem distance_append (census census' : List (RoutedCell P × Place)) :
    distance (census ++ census') = distance census + distance census' := by
  rw [distance, List.map_append, List.sum_append]
  rfl

/-- Every cell that was sent has one place, and the queues of the fabric hold the cells with a place there and
nothing else. -/
structure Census (s : Fabric P ι) (census : List (RoutedCell P × Place)) : Prop where
  once : (census.map Prod.fst).Perm s.sent
  onPath : ∀ r source hop, (r, .link source hop) ∈ census → hop < r.path.length
  shows : Shows s (queue spot census)

theorem census_initial (net : Network P) (calls : ι → SendCall net) : Census (initial net calls) [] where
  once := .nil
  onPath := nofun
  shows := ⟨fun _ => rfl, fun _ => rfl, fun _ => rfl⟩

/-- The cell at the front of a queue can take any place further on its way: it leaves the queue and joins
another. -/
theorem Census.move {s : Fabric P ι} {census : List (RoutedCell P × Place)} (h : Census s census) {k : Spot}
    {b : Bytes} {bs : List Bytes} (hfront : queue spot census k = b :: bs) :
    ∃ r p, (r, p) ∈ census ∧ spot (r, p) = (k, b) ∧
      ∀ p', (∀ source hop, p' = .link source hop → hop < r.path.length) →
        ∃ census', (census'.map Prod.fst).Perm s.sent ∧
          (∀ r source hop, (r, .link source hop) ∈ census' → hop < r.path.length) ∧
          queue spot census' = Function.update (Function.update (queue spot census) k bs) (spot (r, p')).1
            (Function.update (queue spot census) k bs (spot (r, p')).1 ++ [(spot (r, p')).2]) ∧
          distance census' + togo (r, p) = distance census + togo (r, p') := by
  obtain ⟨pre, ⟨r, p⟩, post, rfl, hspot, hpop⟩ := exists_pop hfront
  refine ⟨r, p, by simp, hspot, fun p' hp' => ⟨pre ++ post ++ [(r, p')], ?_, ?_, ?_, ?_⟩⟩
  · refine List.Perm.trans ?_ h.once
    simp only [List.map_append, List.map_cons, List.map_nil, List.append_assoc]
    exact List.Perm.append_left _ List.perm_append_comm
  · intro r' source hop hmem
    simp only [List.mem_append, List.mem_singleton, Prod.mk.injEq] at hmem
    rcases hmem with (hmem | hmem) | ⟨rfl, rfl⟩
    · exact h.onPath r' source hop (by simp [hmem])
    · exact h.onPath r' source hop (by simp [hmem])
    · exact hp' source hop rfl
  · rw [queue_push, hpop]
  · simp only [distance, List.map_append, List.map_cons, List.map_nil, List.sum_append, List.sum_cons, List.sum_nil]
    omega

end Fabric

/-! ## Every step keeps the census -/

/-- Two relays of one address are one relay. -/
theorem Network.relay_ext {net : Network P} {a b : RelayInfo} (ha : a ∈ net.relays.relays) (hb : b ∈ net.relays.relays)
    (h : a.address = b.address) : a = b :=
  List.inj_on_of_nodup_map net.addresses_nodup ha hb h

namespace Fabric
variable {ι : Type}

theorem handle_eq (s : Fabric P ι) (id : String) (c : Connection) (frame rest : Bytes) :
    s.handle id c frame rest =
      let base : Fabric P ι := { s with
        nodes := Function.update s.nodes id ((s.nodes id).handleFrame connected frame).1
        streams := Function.update s.streams c rest }
      match peelOnionLayer P (s.nodes id).keypair frame with
      | .error _ => base
      | .ok (.forward nextHop body) => base.put ⟨.relay id, nextHop⟩ body
      | .ok (.deliver body) => { base with channel := Function.update s.channel id (s.channel id ++ [body]) } := by
  rw [handle, ((s.nodes id).handleFrame_eq connected frame).2.2, fateOf]
  cases peelOnionLayer P (s.nodes id).keypair frame with
  | error e => rfl
  | ok payload =>
    cases payload with
    | deliver body => rfl
    | forward nextHop body =>
      simp only [connected_failure]
      rfl

theorem handle_sent (s : Fabric P ι) (id : String) (c : Connection) (frame rest : Bytes) :
    (s.handle id c frame rest).sent = s.sent ∧ (s.handle id c frame rest).pending = s.pending := by
  rw [handle_eq]
  simp only
  split <;> exact ⟨rfl, rfl⟩

theorem handle_nodes (s : Fabric P ι) (id : String) (c : Connection) (frame rest : Bytes) :
    (s.handle id c frame rest).nodes =
      Function.update s.nodes id ((s.nodes id).handleFrame connected frame).1 := by
  rw [handle_eq]
  simp only
  split <;> rfl

/-- What every reachable state keeps, whatever the circuits are. -/
structure Sound (net : Network P) (s : Fabric P ι) : Prop where
  sent : ∀ r ∈ s.sent, r.path ⊆ net.relays.relays
  pending : ∀ i, ∀ r ∈ s.pending i, r.path ⊆ net.relays.relays
  keypair : ∀ id, (s.nodes id).keypair = net.keypair id

/-- A layer for a relay fits a frame and tells the relay where to pass it on. -/
theorem Sound.peel {s : Fabric P ι} {net : Network P} (hs : Sound net s) (hP : P.Lawful)
    (hfit : ∀ r ∈ s.sent, r.FitsFrame) {info : RelayInfo} (hinfo : info ∈ net.relays.relays) {r : RoutedCell P}
    (hsent : r ∈ s.sent) {hop : Nat} (hhop : hop < r.path.length) (haddr : r.hopAddress hop = info.address) :
    (r.layer hop).length < 2 ^ 32 ∧ r.path[hop]? = some info ∧
      peelOnionLayer P (s.nodes info.id).keypair (r.layer hop) = .ok (told r.path r.envelope.1 r.layer hop) := by
  rw [RoutedCell.hopAddress_eq hhop] at haddr
  have hrelay : r.path[hop] = info := Network.relay_ext (hs.sent r hsent (List.getElem_mem hhop)) hinfo haddr
  have hr : r.path[hop]? = some info := by rw [List.getElem?_eq_getElem hhop, hrelay]
  have hkey : (s.nodes info.id).keypair.publicKey = info.publicKey := by rw [hs.keypair]; exact net.keys info hinfo
  refine ⟨RoutedCell.layer_lt (hfit r hsent) hhop, hr, r.isLayers.peel hP hr hkey ?_⟩
  intro next hnext
  exact net.short next (hs.sent r hsent (List.mem_of_getElem? hnext))

/-- A cell on a connection to a relay is the layer its circuit has for this relay, which fits a frame and tells
the relay where to pass it on. -/
theorem Census.peel {s : Fabric P ι} {census : List (RoutedCell P × Place)} (h : Census s census) (hP : P.Lawful)
    {net : Network P} (hs : Sound net s) (hfit : ∀ r ∈ s.sent, r.FitsFrame) {info : RelayInfo}
    (hinfo : info ∈ net.relays.relays) {source : Source} {r : RoutedCell P} {p : Place} {b : Bytes}
    (hmem : (r, p) ∈ census) (hspot : spot (r, p) = (.link ⟨source, info.address⟩, b)) :
    b.length < 2 ^ 32 ∧ ∃ hop, p = .link source hop ∧ r.path[hop]? = some info ∧
      peelOnionLayer P (s.nodes info.id).keypair b = .ok (told r.path r.envelope.1 r.layer hop) := by
  cases p with
  | channel => cases hspot
  | mailbox => cases hspot
  | link source' hop =>
    simp only [spot, Prod.mk.injEq, Spot.link.injEq, Connection.mk.injEq] at hspot
    obtain ⟨⟨rfl, haddr⟩, rfl⟩ := hspot
    have hsent : r ∈ s.sent := h.once.mem_iff.1 (List.mem_map.2 ⟨_, hmem, rfl⟩)
    obtain ⟨hlt, hr, hpeel⟩ := hs.peel hP hfit hinfo hsent (h.onPath r _ hop hmem) haddr
    exact ⟨hlt, hop, rfl, hr, hpeel⟩

theorem exitRelayId_of_last {r : RoutedCell P} {hop : Nat} {info : RelayInfo} (hr : r.path[hop]? = some info)
    (hlast : r.path.length ≤ hop + 1) : r.exitRelayId = info.id := by
  obtain ⟨hhop, rfl⟩ := List.getElem?_eq_some_iff.1 hr
  have hidx : r.path.length - 1 = hop := by omega
  simp only [RoutedCell.exitRelayId, List.getLast_eq_getElem, hidx]

/-- A relay passes the cell on to the next hop, or to its own channel if it is the exit. Either way it is a step
closer to its mailbox. -/
theorem Census.relay {s : Fabric P ι} {census : List (RoutedCell P × Place)} (h : Census s census) (hP : P.Lawful)
    {net : Network P} (hs : Sound net s) (hfit : ∀ r ∈ s.sent, r.FitsFrame) {info : RelayInfo}
    (hinfo : info ∈ net.relays.relays) {source : Source} {frame rest : Bytes}
    (hread : readFrame (s.streams ⟨source, info.address⟩) = some (frame, rest)) :
    (∃ payload, peelOnionLayer P (s.nodes info.id).keypair frame = .ok payload) ∧
    ∃ census', Census (s.handle info.id ⟨source, info.address⟩ frame rest) census' ∧
      distance census' + 1 = distance census := by
  rw [h.shows.streams] at hread
  cases hq : queue spot census (.link ⟨source, info.address⟩) with
  | nil =>
    rw [hq] at hread
    cases hread
  | cons b bs =>
    obtain ⟨r, p, hmem, hspot, hmove⟩ := h.move hq
    obtain ⟨hlt, hop, rfl, hr, hpeel⟩ := h.peel hP hs hfit hinfo hmem hspot
    have hhop := h.onPath r source hop hmem
    -- the frame read is the front of the queue
    have hfront : readFrame (writeFrame b ++ bs.flatMap writeFrame) = some (b, bs.flatMap writeFrame) :=
      Wire.readFrame_writeFrame hlt _
    rw [hq, List.flatMap_cons, hfront] at hread
    cases hread
    refine ⟨⟨_, hpeel⟩, ?_⟩
    rw [handle_eq, hpeel]
    have htaken := h.shows.setStream (c := ⟨source, info.address⟩) (t := { s with
      nodes := Function.update s.nodes info.id ((s.nodes info.id).handleFrame connected frame).1
      streams := Function.update s.streams ⟨source, info.address⟩ (bs.flatMap writeFrame) }) rfl rfl rfl
    by_cases hlast : hop + 1 < r.path.length
    · obtain ⟨census', honce, honPath, hqueue, hcloser⟩ :=
        hmove (.link (.relay info.id) (hop + 1)) (by rintro _ _ ⟨⟩; exact hlast)
      rw [told_of_lt hlast]
      simp only [togo] at hcloser
      refine ⟨census', ⟨honce, honPath, ?_⟩, by omega⟩
      rw [hqueue]
      simp only [spot, RoutedCell.hopAddress_eq hlast]
      exact htaken.put _ _
    · obtain ⟨census', honce, honPath, hqueue, hcloser⟩ := hmove .channel nofun
      rw [told_of_last (by omega)]
      simp only [togo] at hcloser
      refine ⟨census', ⟨honce, honPath, ?_⟩, by omega⟩
      rw [hqueue]
      simp only [spot, exitRelayId_of_last hr (by omega)]
      refine htaken.setChannel rfl ?_ rfl
      rw [← htaken.channels info.id]

/-- A cell is written: it takes its place on a connection to its first hop. -/
theorem Census.write {s : Fabric P ι} {census : List (RoutedCell P × Place)} (h : Census s census)
    (r : RoutedCell P) (pending : ι → List (RoutedCell P)) :
    Census { s.put ⟨.client s.sent.length, r.firstHopAddr⟩ r.onion with pending, sent := s.sent ++ [r] }
      (census ++ [(r, .link (.client s.sent.length) 0)]) where
  once := by simpa using h.once.append_right [r]
  onPath r' source hop hmem := by
    rcases List.mem_append.1 hmem with hmem | hmem
    · exact h.onPath r' source hop hmem
    · cases List.mem_singleton.1 hmem
      exact List.length_pos_of_ne_nil r.path_ne
  shows := by
    have hput := h.shows.put ⟨.client s.sent.length, r.firstHopAddr⟩ r.onion
    rw [queue_push]
    simp only [spot, RoutedCell.hopAddress_zero, RoutedCell.layer_zero]
    exact ⟨hput.streams, hput.channels, hput.mailboxes⟩

/-- The bridge takes an envelope from the channel to the mailbox. -/
theorem Census.deliver {s : Fabric P ι} {census : List (RoutedCell P × Place)} (h : Census s census) {id : String}
    {body : Bytes} {rest : List Bytes} (hfront : s.channel id = body :: rest) :
    ∃ census', Census { s with
      channel := Function.update s.channel id rest
      mailbox := Function.update s.mailbox id ((s.mailbox id).push body) } census' ∧
      distance census' + 1 = distance census := by
  rw [h.shows.channels] at hfront
  obtain ⟨r, p, -, hspot, hmove⟩ := h.move hfront
  obtain ⟨rfl, hid, henv⟩ : p = .channel ∧ r.exitRelayId = id ∧ r.envelope.1 = body := by
    cases p with
    | link source hop => cases hspot
    | channel => exact ⟨rfl, by simpa [spot] using hspot⟩
    | mailbox => cases hspot
  obtain ⟨census', honce, honPath, hqueue, hcloser⟩ := hmove .mailbox nofun
  refine ⟨census', ⟨honce, honPath, ?_⟩, hcloser⟩
  have htaken := h.shows.setChannel (t := { s with channel := Function.update s.channel id rest }) rfl rfl rfl
  rw [hqueue]
  simp only [spot, hid, henv]
  refine htaken.setMailbox rfl rfl ?_
  rw [← htaken.mailboxes id]
  rfl

theorem sound_initial (net : Network P) (calls : ι → SendCall net) : Sound net (initial net calls) where
  sent := nofun
  pending _ _ hr := SendCall.routed_path hr
  keypair _ := rfl

section Runs
variable [DecidableEq ι] {net : Network P} {s t : Fabric P ι}

theorem Step.sent_extends (hst : Step net s t) : s.sent <+: t.sent := by
  cases hst with
  | write i r rest _ => exact List.prefix_append _ _
  | relay info source frame rest _ _ => rw [(s.handle_sent _ _ _ _).1]
  | deliver info body rest _ _ => exact List.prefix_rfl

theorem sound_step (h : Sound net s) (hst : Step net s t) : Sound net t := by
  cases hst with
  | write i r rest hpending =>
    refine ⟨fun r' hr' => ?_, fun j r' hr' => ?_, h.keypair⟩
    · rcases List.mem_append.1 hr' with hr' | hr'
      · exact h.sent r' hr'
      · rw [List.mem_singleton.1 hr']
        exact h.pending i r (by rw [hpending]; exact List.mem_cons_self)
    · by_cases hj : j = i
      · subst hj
        simp only [Function.update_self] at hr'
        exact h.pending j r' (by rw [hpending]; exact List.mem_cons_of_mem _ hr')
      · simp only [Function.update_of_ne hj] at hr'
        exact h.pending j r' hr'
  | relay info source frame rest _ _ =>
    obtain ⟨hsent, hpending⟩ := s.handle_sent info.id ⟨source, info.address⟩ frame rest
    refine ⟨hsent ▸ h.sent, hpending ▸ h.pending, fun id => ?_⟩
    rw [handle_nodes]
    by_cases hid : id = info.id
    · subst hid
      rw [Function.update_self, ((s.nodes info.id).handleFrame_eq connected frame).1]
      exact h.keypair info.id
    · rw [Function.update_of_ne hid]
      exact h.keypair id
  | deliver info body rest _ _ => exact ⟨h.sent, h.pending, h.keypair⟩

/-- Every cell is accounted for, and no frame failed to peel. -/
structure Conserved (s : Fabric P ι) : Prop where
  census : ∃ census, Census s census
  failures : ∀ id, (s.nodes id).metrics.decryptFailures = 0

theorem conserved_step (hP : P.Lawful) (hs : Sound net s) (hfit : ∀ r ∈ s.sent, r.FitsFrame) (h : Conserved s)
    (hst : Step net s t) : Conserved t := by
  obtain ⟨census, hcensus⟩ := h.census
  cases hst with
  | write i r rest _ => exact ⟨⟨_, hcensus.write r _⟩, h.failures⟩
  | relay info source frame rest hinfo hread =>
    obtain ⟨⟨payload, hpeel⟩, census', hnext, -⟩ := hcensus.relay hP hs hfit hinfo hread
    refine ⟨⟨census', hnext⟩, fun id => ?_⟩
    rw [handle_nodes]
    by_cases hid : id = info.id
    · subst hid
      rw [Function.update_self, RelayNode.handleFrame_decryptFailures, hpeel]
      exact h.failures info.id
    · rw [Function.update_of_ne hid]
      exact h.failures id
  | deliver info body rest _ hfront =>
    obtain ⟨census', hnext, -⟩ := hcensus.deliver hfront
    exact ⟨⟨census', hnext⟩, h.failures⟩

theorem conserved_of_reachable (hP : P.Lawful) {calls : ι → SendCall net} (hs : (system net calls).Reachable s) :
    Sound net s ∧ ((∀ r ∈ s.sent, r.FitsFrame) → Conserved s) := by
  refine hs.invariant (I := fun s => Sound net s ∧ ((∀ r ∈ s.sent, r.FitsFrame) → Conserved s)) ?_ ?_
  · rintro _ rfl
    exact ⟨sound_initial net calls, fun _ => ⟨⟨[], census_initial net calls⟩, fun _ => rfl⟩⟩
  · rintro s t ⟨hsound, hcons⟩ (hst : Step net s t)
    refine ⟨sound_step hsound hst, fun hfit => ?_⟩
    have hfit' : ∀ r ∈ s.sent, r.FitsFrame := fun r hr => hfit r (hst.sent_extends.subset hr)
    exact conserved_step hP hsound hfit' (hcons hfit') hst

end Runs
end Fabric
end VeilFabric
