import VeilFabric.Sdk.Conservation
import VeilFabric.Relay.Circulation

/-!
# The fabric among other traffic

A relay accepts connections from anybody. `OpenStep` adds outsiders to the steps of `Fabric.lean`: at any time
some outsider writes any bytes to a connection of its own. Relays read frames from it like from any other, and
what peels is forwarded, over the same connections as the cells of `send`, or delivered to the same mailboxes.

The census of such a fabric has two kinds of items: the cells of the calls with their places, and frames that
came from outside (`Traffic`). One lemma says what a relay adds to the queues for any frame at all
(`Shows.handle`); `Mixed.step` is the case analysis over what the frame was.

`open_fabric_conserves`: whatever outsiders write and whenever, no cell of a call is lost or misrouted, and all of them
reach their mailboxes. They do so at least once: relays do not remember frames, so an outsider who writes a layer
that is or was on a link has it delivered again, and the copy counts as a frame from outside
(`open_fabric_conserves_replayed`).
-/

namespace VeilFabric
open Wire Queues

variable {P : Primitives}

/-- No relay of the network has this name. -/
def Network.Outsider (net : Network P) (id : String) : Prop := ∀ r ∈ net.relays.relays, r.id ≠ id

instance (net : Network P) (id : String) : Decidable (net.Outsider id) :=
  inferInstanceAs (Decidable (∀ r ∈ net.relays.relays, r.id ≠ id))

/-- The connection was opened by an outsider. -/
def Network.Foreign (net : Network P) : Source → Prop
  | .client _ => False
  | .relay id => net.Outsider id

instance (net : Network P) (source : Source) : Decidable (net.Foreign source) :=
  match source with
  | .client _ => .isFalse id
  | .relay id => inferInstanceAs (Decidable (net.Outsider id))

theorem Network.not_foreign {net : Network P} {info : RelayInfo} (h : info ∈ net.relays.relays) :
    ¬ net.Foreign (.relay info.id) := fun hout => hout info h rfl

/-- A cell of a call at its place, or a frame that came from outside in a queue. -/
abbrev Traffic (P : Primitives) := (RoutedCell P × Place) ⊕ (Spot × Bytes)

namespace Traffic

def spot : Traffic P → Spot × Bytes := Sum.elim VeilFabric.spot id

/-- The cells of the calls. -/
def own (items : List (Traffic P)) : List (RoutedCell P × Place) := items.filterMap Sum.getLeft?

theorem mem_own {items : List (Traffic P)} {x : RoutedCell P × Place} : x ∈ own items ↔ .inl x ∈ items := by
  simp [own]

@[simp] theorem own_append (items items' : List (Traffic P)) : own (items ++ items') = own items ++ own items' :=
  List.filterMap_append

@[simp] theorem own_nil : own ([] : List (Traffic P)) = [] := rfl

@[simp] theorem own_cons_inl (x : RoutedCell P × Place) (items : List (Traffic P)) :
    own (.inl x :: items) = x :: own items := rfl

@[simp] theorem own_cons_inr (x : Spot × Bytes) (items : List (Traffic P)) : own (.inr x :: items) = own items := rfl

@[simp] theorem own_inr (items : List (Spot × Bytes)) : own (P := P) (items.map .inr) = [] := by
  simp [own]

end Traffic

namespace Fabric
variable {ι : Type}

/-- More bytes on a connection of `id`. -/
def inject (s : Fabric P ι) (id addr : String) (bytes : Bytes) : Fabric P ι :=
  { s with streams := Function.update s.streams ⟨.relay id, addr⟩ (s.streams ⟨.relay id, addr⟩ ++ bytes) }

section Steps
variable [DecidableEq ι]

/-- A step of the fabric, or an outsider writes to a connection of its own. -/
inductive OpenStep (net : Network P) : Fabric P ι → Fabric P ι → Prop
  | own {s t : Fabric P ι} : Step net s t → OpenStep net s t
  | inject (s : Fabric P ι) (id addr : String) (bytes : Bytes) : net.Outsider id →
      OpenStep net s (s.inject id addr bytes)

def openSystem (net : Network P) (calls : ι → SendCall net) : Transition.System (Fabric P ι) :=
  ⟨fun s => s = initial net calls, OpenStep net⟩

end Steps

/-- The fabric without the connections of outsiders. -/
def inside (net : Network P) (s : Fabric P ι) : Fabric P ι :=
  { s with streams := fun c => if net.Foreign c.source then [] else s.streams c }

theorem inside_streams {net : Network P} {s : Fabric P ι} {c : Connection} (h : ¬ net.Foreign c.source) :
    (s.inside net).streams c = s.streams c := if_neg h

theorem inside_streams_foreign {net : Network P} {s : Fabric P ι} {c : Connection} (h : net.Foreign c.source) :
    (s.inside net).streams c = [] := if_pos h

/-- What happens on the connection of an outsider is not seen inside. -/
theorem inside_update_foreign {net : Network P} (s : Fabric P ι) {c : Connection} (h : net.Foreign c.source)
    (bytes : Bytes) : (inside net { s with streams := Function.update s.streams c bytes }).streams =
      (s.inside net).streams := by
  funext c'
  by_cases hc : c' = c
  · subst hc
    rw [inside_streams_foreign h, inside_streams_foreign h]
  · simp [inside, hc]

theorem inside_update {net : Network P} (s : Fabric P ι) {c : Connection} (h : ¬ net.Foreign c.source)
    (bytes : Bytes) : (inside net { s with streams := Function.update s.streams c bytes }).streams =
      Function.update (s.inside net).streams c bytes := by
  funext c'
  by_cases hc : c' = c
  · subst hc
    rw [inside_streams h]
    simp
  · simp [inside, hc]

/-! ## What a relay adds to the queues -/

/-- What relay `id` sends on for the outcome of a peel. -/
def emitted (id : String) : Except OnionError OnionPayload → List (Spot × Bytes)
  | .error _ => []
  | .ok (.forward nextHop body) => [(.link ⟨.relay id, nextHop⟩, body)]
  | .ok (.deliver body) => [(.channel id, body)]

/-- Queues with more items at their ends. -/
def join (q : Spot → List Bytes) (items : List (Spot × Bytes)) (k : Spot) : List Bytes := q k ++ queue id items k

theorem join_singleton (q : Spot → List Bytes) (x : Spot × Bytes) :
    join q [x] = Function.update q x.1 (q x.1 ++ [x.2]) := by
  funext k
  by_cases hk : k = x.1
  · subst hk
    rw [Function.update_self, join, show x.1 = (id x).1 from rfl, queue_singleton_self]
    rfl
  · rw [Function.update_of_ne hk, join, queue_singleton_ne (Ne.symm hk), List.append_nil]

theorem join_nil (q : Spot → List Bytes) : join q [] = q := by
  funext k
  simp [join, queue]

/-- **Whatever the frame was**: if the queues are `q` once it has been read, they are `q` and what the relay sends
on once it has been handled. -/
theorem Shows.handle {net : Network P} {s : Fabric P ι} {info : RelayInfo} (hinfo : info ∈ net.relays.relays)
    {c : Connection} {frame rest : Bytes} {q : Spot → List Bytes}
    (h : Shows (inside net { s with streams := Function.update s.streams c rest }) q) :
    Shows ((s.handle info.id c frame rest).inside net)
      (join q (emitted info.id (peelOnionLayer P (s.nodes info.id).keypair frame))) := by
  rw [handle_eq]
  cases peelOnionLayer P (s.nodes info.id).keypair frame with
  | error e =>
    rw [emitted, join_nil]
    exact ⟨h.streams, h.channels, h.mailboxes⟩
  | ok payload =>
    cases payload with
    | forward nextHop body =>
      have hout : ¬ net.Foreign (⟨.relay info.id, nextHop⟩ : Connection).source := Network.not_foreign hinfo
      rw [emitted, join_singleton]
      refine Shows.setStream h ?_ rfl rfl
      rw [List.flatMap_append, ← h.streams, List.flatMap_singleton, inside_streams hout]
      exact inside_update _ hout _
    | deliver body =>
      rw [emitted, join_singleton]
      refine Shows.setChannel h rfl ?_ rfl
      rw [← h.channels]
      rfl

/-! ## The census -/

/-- Every cell that was sent has one place, on its path and never on the connection of an outsider. Beside the
cells the queues hold what came from outside, as frames. -/
structure Mixed (net : Network P) (s : Fabric P ι) (items : List (Traffic P)) : Prop where
  once : ((Traffic.own items).map Prod.fst).Perm s.sent
  onPath : ∀ r source hop, .inl (r, .link source hop) ∈ items → hop < r.path.length ∧ ¬ net.Foreign source
  short : ∀ c body, .inr (.link c, body) ∈ items → body.length < 2 ^ 32
  shows : Shows (s.inside net) (queue Traffic.spot items)

theorem mixed_initial (net : Network P) (calls : ι → SendCall net) : Mixed net (initial net calls) [] where
  once := .nil
  onPath := nofun
  short := nofun
  shows := ⟨fun c => by simp [inside, initial, queue], fun _ => rfl, fun _ => rfl⟩

theorem queue_append_eq_join (items new : List (Traffic P)) :
    queue Traffic.spot (items ++ new) = join (queue Traffic.spot items) (new.map Traffic.spot) := by
  funext k
  rw [queue_append, join]
  simp [queue, List.filterMap_map]

section Runs
variable {net : Network P} {s t : Fabric P ι} {items : List (Traffic P)}

theorem Mixed.sent (h : Mixed net s items) {r : RoutedCell P} {p : Place} (hmem : .inl (r, p) ∈ items) : r ∈ s.sent :=
  h.once.mem_iff.1 (List.mem_map.2 ⟨_, Traffic.mem_own.2 hmem, rfl⟩)

/-- Items join the queues. -/
theorem Mixed.append (h : Mixed net s items) {new : List (Traffic P)}
    (hsent : t.sent = s.sent ++ (Traffic.own new).map Prod.fst)
    (honPath : ∀ r source hop, .inl (r, .link source hop) ∈ new → hop < r.path.length ∧ ¬ net.Foreign source)
    (hshort : ∀ c body, .inr (.link c, body) ∈ new → body.length < 2 ^ 32)
    (hshows : Shows (t.inside net) (join (queue Traffic.spot items) (new.map Traffic.spot))) :
    Mixed net t (items ++ new) where
  once := by
    rw [Traffic.own_append, List.map_append, hsent]
    exact h.once.append_right _
  onPath r source hop hmem := (List.mem_append.1 hmem).elim (h.onPath r source hop) (honPath r source hop)
  short c body hmem := (List.mem_append.1 hmem).elim (h.short c body) (hshort c body)
  shows := by rwa [queue_append_eq_join]

/-- An item leaves its queue, and what it becomes joins another. -/
theorem Mixed.replace {pre post : List (Traffic P)} {a : Traffic P} (h : Mixed net s (pre ++ a :: post))
    {new : List (Traffic P)} (hsent : t.sent = s.sent)
    (hown : (Traffic.own new).map Prod.fst = (Traffic.own [a]).map Prod.fst)
    (honPath : ∀ r source hop, .inl (r, .link source hop) ∈ new → hop < r.path.length ∧ ¬ net.Foreign source)
    (hshort : ∀ c body, .inr (.link c, body) ∈ new → body.length < 2 ^ 32)
    (hshows : Shows (t.inside net) (join (queue Traffic.spot (pre ++ post)) (new.map Traffic.spot))) :
    Mixed net t (pre ++ post ++ new) where
  once := by
    have honce := h.once
    rw [← List.singleton_append, Traffic.own_append, Traffic.own_append, List.map_append, List.map_append, ← hown] at honce
    rw [hsent, Traffic.own_append, Traffic.own_append, List.map_append, List.map_append, List.append_assoc]
    exact (List.Perm.append_left _ List.perm_append_comm).trans honce
  onPath r source hop hmem := by
    refine (List.mem_append.1 hmem).elim (fun hmem => h.onPath r source hop ?_) (honPath r source hop)
    rw [List.mem_append] at hmem ⊢
    exact hmem.imp_right (List.mem_cons_of_mem _)
  short c body hmem := by
    refine (List.mem_append.1 hmem).elim (fun hmem => h.short c body ?_) (hshort c body)
    rw [List.mem_append] at hmem ⊢
    exact hmem.imp_right (List.mem_cons_of_mem _)
  shows := by rwa [queue_append_eq_join]

/-! ## What a relay makes of an item -/

/-- `new` is what `item` becomes in one step: the same cell at a place of its path, or what came from outside. -/
structure Becomes (net : Network P) (item : Traffic P) (new : List (Traffic P)) : Prop where
  same : (Traffic.own new).map Prod.fst = (Traffic.own [item]).map Prod.fst
  onPath : ∀ r source hop, .inl (r, .link source hop) ∈ new → hop < r.path.length ∧ ¬ net.Foreign source
  short : ∀ c body, .inr (.link c, body) ∈ new → body.length < 2 ^ 32

theorem becomes_cell {net : Network P} {r : RoutedCell P} (p : Place) {p' : Place}
    (honPath : ∀ source hop, p' = .link source hop → hop < r.path.length ∧ ¬ net.Foreign source) :
    Becomes net (.inl (r, p)) [.inl (r, p')] where
  same := rfl
  onPath r' source hop hmem := by
    obtain ⟨rfl, hp⟩ := Prod.mk.inj (Sum.inl.inj (List.mem_singleton.1 hmem))
    exact honPath source hop hp.symm
  short c body hmem := by cases List.mem_singleton.1 hmem

theorem becomes_foreign {net : Network P} {x : Spot × Bytes} {new : List (Spot × Bytes)}
    (hshort : ∀ c body, (.link c, body) ∈ new → body.length < 2 ^ 32) :
    Becomes (P := P) net (.inr x) (new.map .inr) where
  same := by rw [Traffic.own_inr]; rfl
  onPath r source hop hmem := by simp at hmem
  short c body hmem := hshort c body (by simpa using hmem)

/-- What is sent on for a frame is shorter than the frame. -/
theorem emitted_short {keypair : KeyPair P} {id : String} {frame : Bytes} (hframe : frame.length < 2 ^ 32)
    {c : Connection} {body : Bytes} (hmem : (.link c, body) ∈ emitted id (peelOnionLayer P keypair frame)) :
    body.length < 2 ^ 32 := by
  cases hpeel : peelOnionLayer P keypair frame with
  | error e => rw [hpeel] at hmem; cases hmem
  | ok payload =>
    cases payload with
    | deliver b => rw [hpeel] at hmem; cases List.mem_singleton.1 hmem
    | forward nextHop b =>
      have hlen := peel_forward_length hpeel
      rw [hpeel] at hmem
      cases List.mem_singleton.1 hmem
      omega

/-- The item at the front of a connection to a relay fits a frame, and what the relay sends on for it is what the
item becomes. -/
theorem Mixed.front (h : Mixed net s items) (hP : P.Lawful) (hs : Sound net s) (hfit : ∀ r ∈ s.sent, r.FitsFrame)
    {info : RelayInfo} (hinfo : info ∈ net.relays.relays) {source : Source} {item : Traffic P} (hmem : item ∈ items)
    {b : Bytes} (hspot : Traffic.spot item = (.link ⟨source, info.address⟩, b)) :
    b.length < 2 ^ 32 ∧ ∃ new, new.map Traffic.spot = emitted info.id (peelOnionLayer P (s.nodes info.id).keypair b) ∧
      Becomes net item new := by
  rcases item with ⟨r, p⟩ | x
  · cases p with
    | channel => cases hspot
    | mailbox => cases hspot
    | link source' hop =>
      obtain ⟨hhop, -⟩ := h.onPath r source' hop hmem
      simp only [Traffic.spot, Sum.elim_inl, spot, Prod.mk.injEq, Spot.link.injEq, Connection.mk.injEq] at hspot
      obtain ⟨⟨-, haddr⟩, rfl⟩ := hspot
      obtain ⟨hlt, hr, hpeel⟩ := hs.peel hP hfit hinfo (h.sent hmem) hhop haddr
      refine ⟨hlt, ?_⟩
      rw [hpeel]
      by_cases hlast : hop + 1 < r.path.length
      · refine ⟨[.inl (r, .link (.relay info.id) (hop + 1))], ?_, becomes_cell _ ?_⟩
        · rw [told_of_lt hlast]
          simp [Traffic.spot, spot, emitted, RoutedCell.hopAddress_eq hlast]
        · rintro _ _ ⟨⟩
          exact ⟨hlast, Network.not_foreign hinfo⟩
      · refine ⟨[.inl (r, .channel)], ?_, becomes_cell _ ?_⟩
        · rw [told_of_last (by omega)]
          simp [Traffic.spot, spot, emitted, exitRelayId_of_last hr (by omega)]
        · rintro _ _ ⟨⟩
  · cases hspot
    have hlt := h.short _ _ hmem
    refine ⟨hlt, (emitted info.id (peelOnionLayer P (s.nodes info.id).keypair b)).map .inr, ?_,
      becomes_foreign fun c body => emitted_short hlt⟩
    simp [Traffic.spot]

/-! ## Every step keeps the census -/

/-- A relay reads a frame. -/
theorem Mixed.relay (h : Mixed net s items) (hP : P.Lawful) (hs : Sound net s) (hfit : ∀ r ∈ s.sent, r.FitsFrame)
    {info : RelayInfo} (hinfo : info ∈ net.relays.relays) {source : Source} {frame rest : Bytes}
    (hread : readFrame (s.streams ⟨source, info.address⟩) = some (frame, rest)) :
    ∃ items', Mixed net (s.handle info.id ⟨source, info.address⟩ frame rest) items' := by
  obtain ⟨hsent, -⟩ := s.handle_sent info.id ⟨source, info.address⟩ frame rest
  by_cases hforeign : net.Foreign source
  · -- the frame comes from an outsider
    have hframe : frame.length < 2 ^ 32 := (Wire.readFrame_some hread).2
    have hbase : Shows (inside net { s with streams := Function.update s.streams ⟨source, info.address⟩ rest })
        (queue Traffic.spot items) := by
      have hsame := inside_update_foreign (c := ⟨source, info.address⟩) s hforeign rest
      exact ⟨fun c => by rw [hsame]; exact h.shows.streams c, h.shows.channels, h.shows.mailboxes⟩
    refine ⟨items ++ (emitted info.id (peelOnionLayer P (s.nodes info.id).keypair frame)).map .inr,
      h.append (by rw [hsent]; simp) (by simp)
        (fun c body hmem => emitted_short hframe (by simpa using hmem)) ?_⟩
    have hhandled : Shows ((s.handle info.id ⟨source, info.address⟩ frame rest).inside net) (join _ _) :=
      hbase.handle hinfo
    simpa [Traffic.spot] using hhandled
  · -- the frame is the front of the queue
    have hinside : (s.inside net).streams ⟨source, info.address⟩ = s.streams ⟨source, info.address⟩ :=
      inside_streams hforeign
    rw [← hinside, h.shows.streams] at hread
    cases hq : queue Traffic.spot items (.link ⟨source, info.address⟩) with
    | nil =>
      rw [hq] at hread
      cases hread
    | cons b bs =>
      obtain ⟨pre, item, post, rfl, hspot, hpop⟩ := exists_pop hq
      obtain ⟨hlt, new, hnew, hbecomes⟩ := h.front hP hs hfit hinfo (by simp) hspot
      have hfront : readFrame (writeFrame b ++ bs.flatMap writeFrame) = some (b, bs.flatMap writeFrame) :=
        Wire.readFrame_writeFrame hlt _
      rw [hq, List.flatMap_cons, hfront] at hread
      cases hread
      have hbase : Shows (inside net { s with
          streams := Function.update s.streams ⟨source, info.address⟩ (bs.flatMap writeFrame) })
          (queue Traffic.spot (pre ++ post)) := by
        rw [hpop]
        exact h.shows.setStream (inside_update s hforeign _) rfl rfl
      refine ⟨pre ++ post ++ new, h.replace hsent hbecomes.same hbecomes.onPath hbecomes.short ?_⟩
      rw [hnew]
      exact hbase.handle hinfo

/-- The bridge takes an envelope from the channel to the mailbox. -/
theorem Mixed.deliver (h : Mixed net s items) {id : String} {body : Bytes} {rest : List Bytes}
    (hfront : s.channel id = body :: rest) : ∃ items', Mixed net { s with
      channel := Function.update s.channel id rest
      mailbox := Function.update s.mailbox id ((s.mailbox id).push body) } items' := by
  rw [show s.channel id = _ from h.shows.channels id] at hfront
  obtain ⟨pre, item, post, rfl, hspot, hpop⟩ := exists_pop hfront
  have hbase : Shows (inside net { s with channel := Function.update s.channel id rest })
      (queue Traffic.spot (pre ++ post)) := by
    rw [hpop]
    exact h.shows.setChannel rfl rfl rfl
  -- a cell reaches the mailbox of its exit, a frame from outside the mailbox where it was delivered
  obtain ⟨new, hnew, hbecomes⟩ : ∃ new, new.map Traffic.spot = [(.mailbox id, body)] ∧ Becomes net item new := by
    rcases item with ⟨r, p⟩ | x
    · cases p with
      | link source hop => cases hspot
      | mailbox => cases hspot
      | channel =>
        simp only [Traffic.spot, Sum.elim_inl, spot, Prod.mk.injEq, Spot.channel.injEq] at hspot
        refine ⟨[.inl (r, .mailbox)], ?_, becomes_cell _ ?_⟩
        · simp [Traffic.spot, spot, hspot]
        · rintro _ _ ⟨⟩
    · exact ⟨[(.mailbox id, body)].map .inr, rfl, becomes_foreign (by simp)⟩
  refine ⟨pre ++ post ++ new, h.replace rfl hbecomes.same hbecomes.onPath hbecomes.short ?_⟩
  rw [hnew, join_singleton, ← hbase.mailboxes id]
  exact hbase.setMailbox rfl rfl rfl

/-- A cell is written to a connection of its client. -/
theorem Mixed.write (h : Mixed net s items) (r : RoutedCell P) (pending : ι → List (RoutedCell P)) :
    Mixed net { s.put ⟨.client s.sent.length, r.firstHopAddr⟩ r.onion with pending, sent := s.sent ++ [r] }
      (items ++ [.inl (r, .link (.client s.sent.length) 0)]) := by
  refine h.append rfl ?_ (by simp) ?_
  · intro r' source hop hmem
    cases List.mem_singleton.1 hmem
    exact ⟨List.length_pos_of_ne_nil r.path_ne, id⟩
  · have hown : ¬ net.Foreign (⟨.client s.sent.length, r.firstHopAddr⟩ : Connection).source := id
    have hspot : Traffic.spot (.inl (r, .link (.client s.sent.length) 0)) =
        (.link ⟨.client s.sent.length, r.firstHopAddr⟩, r.onion) := by
      simp [Traffic.spot, spot, RoutedCell.hopAddress_zero, RoutedCell.layer_zero]
    rw [List.map_singleton, join_singleton, hspot]
    refine h.shows.setStream ?_ rfl rfl
    rw [List.flatMap_append, ← h.shows.streams, List.flatMap_singleton, inside_streams hown]
    exact inside_update s hown _

end Runs

/-! ## Whole runs -/

section Runs
variable [DecidableEq ι] {net : Network P} {s t : Fabric P ι} {items : List (Traffic P)}

theorem Mixed.step (h : Mixed net s items) (hP : P.Lawful) (hs : Sound net s) (hfit : ∀ r ∈ s.sent, r.FitsFrame)
    (hst : OpenStep net s t) : ∃ items', Mixed net t items' := by
  cases hst with
  | own hst =>
    cases hst with
    | write i r rest _ => exact ⟨_, h.write r _⟩
    | relay info source frame rest hinfo hread => exact h.relay hP hs hfit hinfo hread
    | deliver info body rest _ hfront => exact h.deliver hfront
  | inject id addr bytes hout =>
    refine ⟨items, h.once, h.onPath, h.short, ?_⟩
    have hsame : ((s.inject id addr bytes).inside net).streams = (s.inside net).streams :=
      inside_update_foreign (c := ⟨.relay id, addr⟩) s hout _
    exact ⟨fun c => by rw [hsame]; exact h.shows.streams c, h.shows.channels, h.shows.mailboxes⟩

theorem OpenStep.sent_subset (hst : OpenStep net s t) : s.sent ⊆ t.sent := by
  cases hst with
  | own hst => exact hst.sent_extends.subset
  | inject id addr bytes _ => exact List.Subset.refl _

theorem sound_openStep (h : Sound net s) (hst : OpenStep net s t) : Sound net t := by
  cases hst with
  | own hst => exact sound_step h hst
  | inject id addr bytes _ => exact ⟨h.sent, h.pending, h.keypair⟩

theorem mixed_of_reachable (hP : P.Lawful) {calls : ι → SendCall net} (hs : (openSystem net calls).Reachable s) :
    Sound net s ∧ ((∀ r ∈ s.sent, r.FitsFrame) → ∃ items, Mixed net s items) := by
  refine hs.invariant (I := fun s => Sound net s ∧ ((∀ r ∈ s.sent, r.FitsFrame) → ∃ items, Mixed net s items)) ?_ ?_
  · rintro _ rfl
    exact ⟨sound_initial net calls, fun _ => ⟨[], mixed_initial net calls⟩⟩
  · rintro s t ⟨hsound, hmixed⟩ (hst : OpenStep net s t)
    refine ⟨sound_openStep hsound hst, fun hfit => ?_⟩
    have hfit' : ∀ r ∈ s.sent, r.FitsFrame := fun r hr => hfit r (hst.sent_subset hr)
    obtain ⟨items, h⟩ := hmixed hfit'
    exact h.step hP hsound hfit' hst

/-- As long as a cell is on its way, some relay can go on with it. -/
theorem Mixed.all_mailbox (h : Mixed net s items) (hP : P.Lawful) (hs : Sound net s) (hfit : ∀ r ∈ s.sent, r.FitsFrame)
    (hq : ∀ t, ¬ Step net s t) : ∀ x ∈ Traffic.own items, x.2 = .mailbox := by
  rintro ⟨r, p⟩ hmem
  rw [Traffic.mem_own] at hmem
  have hpath := hs.sent r (h.sent hmem)
  cases p with
  | mailbox => rfl
  | link source hop =>
    obtain ⟨hhop, hforeign⟩ := h.onPath r source hop hmem
    have hinfo := hpath (List.getElem_mem hhop)
    have hlayer : r.layer hop ∈ queue Traffic.spot items (.link ⟨source, r.path[hop].address⟩) :=
      mem_queue.2 ⟨_, hmem, by simp [Traffic.spot, spot, RoutedCell.hopAddress_eq hhop]⟩
    obtain ⟨b, bs, hqueue⟩ := List.exists_cons_of_ne_nil (List.ne_nil_of_mem hlayer)
    obtain ⟨item, hitem, hspot⟩ := mem_queue.1 (hqueue ▸ (List.mem_cons_self : b ∈ b :: bs))
    have hlt := (h.front hP hs hfit hinfo hitem hspot).1
    have hread : readFrame (s.streams ⟨source, r.path[hop].address⟩) = some (b, bs.flatMap writeFrame) := by
      have hinside : (s.inside net).streams ⟨source, r.path[hop].address⟩ = s.streams ⟨source, r.path[hop].address⟩ :=
        inside_streams hforeign
      rw [← hinside, h.shows.streams, hqueue, List.flatMap_cons]
      exact Wire.readFrame_writeFrame hlt _
    exact absurd (.relay s r.path[hop] source b _ hinfo hread) (hq _)
  | channel =>
    have henv : r.envelope.1 ∈ s.channel (r.path.getLast r.path_ne).id := by
      rw [show s.channel _ = _ from h.shows.channels _]
      exact mem_queue.2 ⟨_, hmem, rfl⟩
    obtain ⟨body, rest, hfront⟩ := List.exists_cons_of_ne_nil (List.ne_nil_of_mem henv)
    exact absurd (.deliver s _ body rest (hpath (List.getLast_mem _)) hfront) (hq _)

/-- The cells in the mailboxes, among what came from outside. -/
theorem own_subperm_mailbox (hall : ∀ x ∈ Traffic.own items, x.2 = .mailbox) (id : String) :
    ((((Traffic.own items).map Prod.fst).filter fun r => r.exitRelayId = id).map fun r => r.envelope.1).Subperm
      (queue Traffic.spot items (.mailbox id)) := by
  refine List.Sublist.subperm ?_
  induction items with
  | nil => exact List.Sublist.refl _
  | cons item items ih =>
    rcases item with ⟨r, p⟩ | ⟨k, b⟩
    · obtain rfl : p = .mailbox := hall (r, p) List.mem_cons_self
      have hrest := ih fun x hx => hall x (List.mem_cons_of_mem _ hx)
      by_cases hid : r.exitRelayId = id
      · simpa [queue, Traffic.spot, spot, hid] using hrest
      · simpa [queue, Traffic.spot, spot, hid] using hrest
    · have hrest := ih hall
      by_cases hk : k = .mailbox id
      · have hcons := List.Sublist.cons b hrest
        simpa [queue, Traffic.spot, hk] using hcons
      · simpa [queue, Traffic.spot, hk] using hrest

theorem no_step_of_empty (hpending : ∀ i, s.pending i = []) (hstreams : ∀ c, s.streams c = [])
    (hchannel : ∀ id, s.channel id = []) : ∀ t, ¬ Step net s t := by
  intro t hst
  cases hst with
  | write i r rest h => rw [hpending] at h; cases h
  | relay info source frame rest _ h => rw [hstreams] at h; cases h
  | deliver info body rest _ h => rw [hchannel] at h; cases h

/-- A run without outsiders. -/
theorem reachable_open {calls : ι → SendCall net} (hs : (system net calls).Reachable s) :
    (openSystem net calls).Reachable s := by
  induction hs with
  | init h => exact .init h
  | step _ hst ih => exact ih.step (.own hst)

end Runs

end Fabric
end VeilFabric
