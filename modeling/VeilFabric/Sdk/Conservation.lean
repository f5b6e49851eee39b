import VeilFabric.Sdk.RunLength

/-!
# Conservation in the fabric

`fabric_conserves` puts the invariant of `Fabric.lean` and its consequence for a quiescent fabric together:
nothing is lost, duplicated or misrouted while every circuit fits a frame. `write_frame` writes the length as
a `u32`, so of a longer circuit the relay reads the wrapped length, and the cell is gone
(`oversized_circuit_lost`).
-/

namespace VeilFabric
open Wire Queues

variable {P : Primitives}

namespace Fabric
variable {ι : Type}

section Runs
variable [DecidableEq ι] {net : Network P} {s : Fabric P ι}

/-! ## When nothing can move any more -/

theorem queue_mailbox {census : List (RoutedCell P × Place)} (h : ∀ x ∈ census, x.2 = .mailbox) (id : String) :
    queue spot census (.mailbox id) =
      ((census.map Prod.fst).filter fun r => r.exitRelayId = id).map fun r => r.envelope.1 := by
  induction census with
  | nil => rfl
  | cons x census ih =>
    obtain ⟨r, p⟩ := x
    obtain rfl : p = .mailbox := h (r, p) List.mem_cons_self
    have hrest := ih fun x hx => h x (List.mem_cons_of_mem _ hx)
    by_cases hid : r.exitRelayId = id <;> simpa [queue, spot, hid] using hrest

/-- Everything has been written and is in the mailbox of its exit. -/
theorem Census.settled {census : List (RoutedCell P × Place)} (h : Census s census) (hP : P.Lawful) (hs : Sound net s)
    (hfit : ∀ r ∈ s.sent, r.FitsFrame) (hq : ∀ t, ¬ Step net s t) :
    (∀ i, s.pending i = []) ∧ (∀ c, s.streams c = []) ∧ (∀ id, s.channel id = []) ∧
      ∀ id, (s.mailbox id).Perm ((s.sent.filter fun r => r.exitRelayId = id).map fun r => r.envelope.1) := by
  have hall := h.all_mailbox hP hs hfit hq
  have hempty : ∀ k, (∀ id, k ≠ .mailbox id) → queue spot census k = [] := by
    intro k hk
    refine List.eq_nil_iff_forall_not_mem.2 fun b hb => ?_
    obtain ⟨⟨r, p⟩, hmem, hspot⟩ := mem_queue.1 hb
    obtain rfl : p = .mailbox := hall _ hmem
    exact hk r.exitRelayId (congrArg Prod.fst hspot).symm
  refine ⟨fun i => ?_, fun c => ?_, fun id => ?_, fun id => ?_⟩
  · cases hpending : s.pending i with
    | nil => rfl
    | cons r rest => exact absurd (.write s i r rest hpending) (hq _)
  · rw [h.shows.streams, hempty _ (by simp)]; rfl
  · rw [h.shows.channels, hempty _ (by simp)]
  · rw [h.shows.mailboxes, queue_mailbox hall]
    exact (h.once.filter _).map _

/-- **Conservation.** Take any relays, any calls of `send` over them and any interleaving, in which every cell
written so far has a circuit that fits a frame. Then each cell sent exists exactly once, as a layer on a
connection to a hop of its path, or as its envelope in the channel or the mailbox of its exit, and the
connections, channels and mailboxes hold nothing else. When no step is enabled, everything has been written
and has arrived: each mailbox holds exactly the envelopes whose exit it is. No frame fails to peel. -/
theorem fabric_conserves (hP : P.Lawful) (net : Network P) (calls : ι → SendCall net) (s : Fabric P ι)
    (hs : (system net calls).Reachable s) (hfit : ∀ r ∈ s.sent, circuitLength r.path ENVELOPE_SIZE < 2 ^ 32) :
    (∃ census, Census s census) ∧
    ((system net calls).Quiescent s →
      (∀ i, s.pending i = []) ∧ (∀ c, s.streams c = []) ∧ (∀ id, s.channel id = []) ∧
      ∀ id, (s.mailbox id).Perm ((s.sent.filter fun r => r.exitRelayId = id).map fun r => r.envelope.1)) ∧
    ∀ id, (s.nodes id).metrics.decryptFailures = 0 := by
  obtain ⟨hsound, hcons⟩ := conserved_of_reachable hP hs
  obtain ⟨⟨census, h⟩, hfailures⟩ := hcons hfit
  exact ⟨⟨census, h⟩, h.settled hP hsound hfit, hfailures⟩

end Runs

/-! ## Two messages over two relays -/

section Moves
variable [DecidableEq ι] {net : Network P} {s : Fabric P ι}

/-- A call writes its next cell. -/
theorem exists_write (net : Network P) {i : ι} {r : RoutedCell P} {rest : List (RoutedCell P)} (h : s.pending i = r :: rest) :
    ∃ t, Step net s t ∧ t.sent = s.sent ++ [r] ∧ t.pending = Function.update s.pending i rest ∧ t.nodes = s.nodes ∧
      t.streams = (s.put ⟨.client s.sent.length, r.firstHopAddr⟩ r.onion).streams :=
  ⟨_, .write s i r rest h, rfl, rfl, rfl, rfl⟩

variable {info : RelayInfo} (hinfo : info ∈ net.relays.relays) {source : Source} {frame rest body : Bytes}
  (hread : readFrame (s.streams ⟨source, info.address⟩) = some (frame, rest))
include hinfo hread

/-- A relay forwards a frame. -/
theorem exists_forward {nextHop : String}
    (hpeel : peelOnionLayer P (s.nodes info.id).keypair frame = .ok (.forward nextHop body)) :
    ∃ t, Step net s t ∧ t.sent = s.sent ∧ t.pending = s.pending ∧
      t.streams = (put { s with streams := Function.update s.streams ⟨source, info.address⟩ rest }
        ⟨.relay info.id, nextHop⟩ body).streams := by
  have hst := Step.relay s info source frame rest hinfo hread
  rw [handle_eq, hpeel] at hst
  exact ⟨_, hst, rfl, rfl, rfl⟩

/-- A relay sends the body of a frame to its delivery channel. -/
theorem exists_exit (hpeel : peelOnionLayer P (s.nodes info.id).keypair frame = .ok (.deliver body)) :
    ∃ t, Step net s t ∧ t.sent = s.sent ∧ t.pending = s.pending ∧
      t.streams = Function.update s.streams ⟨source, info.address⟩ rest ∧
      t.channel = Function.update s.channel info.id (s.channel info.id ++ [body]) ∧ t.mailbox = s.mailbox := by
  have hst := Step.relay s info source frame rest hinfo hread
  rw [handle_eq, hpeel] at hst
  exact ⟨_, hst, rfl, rfl, rfl, rfl, rfl⟩

end Moves

/-- Peeled by the relay of its hop, a layer of a cell tells what comes next. -/
theorem pairCalls_peel {first : Bool} {r : RoutedCell .toy} (hr : r ∈ (pairCalls first).routed) :
    peelOnionLayer .toy (pairNetwork.keypair "entry") (r.layer 0) = .ok (.forward "127.0.0.1:9002" (r.layer 1)) ∧
    peelOnionLayer .toy (pairNetwork.keypair "exit") (r.layer 1) = .ok (.deliver r.envelope.1) := by
  obtain ⟨-, -, -, hpath⟩ := pairCalls_routed first
  have hlayers := r.isLayers
  rw [hpath r hr] at hlayers
  exact ⟨hlayers.peel Primitives.toy_lawful (i := 0) rfl (pairNetwork.keys _ List.mem_cons_self)
      (by intro x hx; cases hx; decide),
    hlayers.peel Primitives.toy_lawful (i := 1) rfl (pairNetwork.keys _ (List.mem_cons_of_mem _ List.mem_cons_self))
      (by intro x hx; cases hx)⟩

/-- The entry relay has forwarded the first cell before the others are written. -/
theorem pair_interleaved : ∃ a a' b b', ∃ m : Fabric .toy Bool,
    (pairCalls true).routed = [a, a'] ∧ (pairCalls false).routed = [b, b'] ∧
    (system pairNetwork pairCalls).Reachable m ∧ m.sent = [a, b, a', b'] ∧
    m.streams ⟨.relay "entry", "127.0.0.1:9002"⟩ = writeFrame (a.layer 1) := by
  obtain ⟨a, a', ha, hpath⟩ := pairCalls_routed true
  obtain ⟨b, b', hb, -⟩ := pairCalls_routed false
  have hmem : a ∈ (pairCalls true).routed := by simp [ha]
  have hfirst : a.firstHopAddr = "127.0.0.1:9001" := by
    simp only [RoutedCell.firstHopAddr, hpath a hmem]
    rfl
  have hinfo : ⟨"entry", "127.0.0.1:9001", flatKey 0⟩ ∈ pairNetwork.relays.relays := List.mem_cons_self
  have hlong : a.onion.length < 2 ^ 32 := by
    rw [buildCircuit_length a.built, Arr.length_val]
    exact pairCalls_fit true a hmem
  have hpending : (initial pairNetwork pairCalls).pending true = [a, a'] := by simp only [initial, ha]
  obtain ⟨s₁, hst₁, hsent₁, hpending₁, hnodes₁, hstreams₁⟩ := exists_write pairNetwork hpending
  have hread : readFrame (s₁.streams ⟨.client 0, "127.0.0.1:9001"⟩) = some (a.onion, []) := by
    have hframe : readFrame (writeFrame a.onion ++ []) = some (a.onion, []) := Wire.readFrame_writeFrame hlong []
    rw [hstreams₁]
    simpa [put, initial, hfirst] using hframe
  have hpeel : peelOnionLayer .toy (s₁.nodes "entry").keypair a.onion = .ok (.forward "127.0.0.1:9002" (a.layer 1)) := by
    rw [hnodes₁, ← a.layer_zero]
    exact (pairCalls_peel hmem).1
  obtain ⟨s₂, hst₂, hsent₂, hpending₂, hstreams₂⟩ := exists_forward hinfo hread hpeel
  have hleft : s₂.pending false = [b, b'] := by simp [hpending₂, hpending₁, initial, hb]
  obtain ⟨s₃, hst₃, hsent₃, hpending₃, -, hstreams₃⟩ := exists_write pairNetwork hleft
  have hleft' : s₃.pending true = [a'] := by simp [hpending₃, hpending₂, hpending₁]
  obtain ⟨s₄, hst₄, hsent₄, hpending₄, -, hstreams₄⟩ := exists_write pairNetwork hleft'
  have hlast : s₄.pending false = [b'] := by simp [hpending₄, hpending₃]
  obtain ⟨m, hst, hsent, -, -, hstreams⟩ := exists_write pairNetwork hlast
  refine ⟨a, a', b, b', m, ha, hb, (((((.init rfl : (system pairNetwork pairCalls).Reachable _).step hst₁).step
    hst₂).step hst₃).step hst₄).step hst, ?_, ?_⟩
  · simp [hsent, hsent₄, hsent₃, hsent₂, hsent₁, initial]
  · simp [hstreams, put, hstreams₄, hstreams₃, hstreams₂, hstreams₁, initial]

/-- Left alone from there, the fabric comes to rest with the four cells written. -/
theorem pair_settles : ∃ a a' b b', ∃ m s : Fabric .toy Bool,
    ((pairCalls true).routed = [a, a'] ∧ (pairCalls false).routed = [b, b']) ∧
    ((system pairNetwork pairCalls).Reachable m ∧ m.sent = [a, b, a', b'] ∧
      m.streams ⟨.relay "entry", "127.0.0.1:9002"⟩ = writeFrame (a.layer 1)) ∧
    (system pairNetwork pairCalls).Reachable s ∧ s.sent = [a, b, a', b'] ∧ ∀ t, ¬ Step pairNetwork s t := by
  obtain ⟨a, a', b, b', m, ha, hb, hm, hsent, hstream⟩ := pair_interleaved
  obtain ⟨s₀, n, rfl, hchain⟩ := hm.chain
  obtain ⟨j, s, hj, -, hquiet⟩ := hchain.exists_end_of_bound fun n t h =>
    (chain_bound Primitives.toy_lawful pairCalls_fit h).1
  have hs : (system pairNetwork pairCalls).Reachable s := hj.reachable hm
  have hcount : ∑ i, (pairCalls i).routed.length = 4 := by
    rw [Finset.sum_congr rfl fun i _ => show (pairCalls i).routed.length = 2 by cases i <;> simp [ha, hb]]
    rfl
  have hlen := sent_length_le hs
  rw [hcount] at hlen
  have hall : m.sent = s.sent := (sent_of_chain hj).eq_of_length_le (by rw [hsent]; exact hlen)
  exact ⟨a, a', b, b', m, s, ⟨ha, hb⟩, ⟨hm, hsent, hstream⟩, hs, hall ▸ hsent, hquiet⟩

theorem pairCalls_path {a a' b b' : RoutedCell .toy} (ha : (pairCalls true).routed = [a, a'])
    (hb : (pairCalls false).routed = [b, b']) : ∀ r ∈ [a, b, a', b'], r.path = twoHops "127.0.0.1:9002" := by
  obtain ⟨-, -, -, htrue⟩ := pairCalls_routed true
  obtain ⟨-, -, -, hfalse⟩ := pairCalls_routed false
  rw [ha] at htrue
  rw [hb] at hfalse
  simpa [and_comm, and_left_comm, and_assoc] using And.intro htrue hfalse

theorem filter_exit {rs : List (RoutedCell P)} (h : ∀ r ∈ rs, r.path = twoHops "127.0.0.1:9002") :
    rs.filter (fun r => r.exitRelayId = "exit") = rs := by
  refine List.filter_eq_self.2 fun r hr => ?_
  simp only [RoutedCell.exitRelayId, h r hr]
  rfl

/-- One cell is on its second link when the others are written. In the end all four are in the mailbox of the exit. -/
theorem fabric_conserves_two : ∃ a a' b b', ∃ m s : Fabric .toy Bool,
    (pairCalls true).routed = [a, a'] ∧ (pairCalls false).routed = [b, b'] ∧
    (m.sent = [a, b, a', b'] ∧ m.streams ⟨.relay "entry", "127.0.0.1:9002"⟩ = writeFrame (a.layer 1) ∧
      ∃ census, Census m census) ∧
    (system pairNetwork pairCalls).Quiescent s ∧
    (s.mailbox "exit").Perm ([a, b, a', b'].map fun r => r.envelope.1) := by
  obtain ⟨a, a', b, b', m, s, ⟨ha, hb⟩, ⟨hm, hsent, hstream⟩, hs, hall, hquiet⟩ := pair_settles
  have hpath := pairCalls_path ha hb
  have hfit : ∀ r ∈ [a, b, a', b'], circuitLength r.path ENVELOPE_SIZE < 2 ^ 32 := fun r hr => by
    rw [hpath r hr]
    decide
  obtain ⟨hcensus, -⟩ := fabric_conserves Primitives.toy_lawful pairNetwork pairCalls m hm (by rw [hsent]; exact hfit)
  obtain ⟨-, hsettled, -⟩ := fabric_conserves Primitives.toy_lawful pairNetwork pairCalls s hs (by rw [hall]; exact hfit)
  have hmail := (hsettled hquiet).2.2.2 "exit"
  rw [hall, filter_exit hpath] at hmail
  exact ⟨a, a', b, b', m, s, ha, hb, ⟨hsent, hstream, hcensus⟩, hquiet, hmail⟩

/-! ## A circuit too long for a frame -/

/-- A call of `send` with `b"hi"`, by a client that knows every relay. -/
def hiCall (net : Network P) (hopCount : Nat) : SendCall net where
  client := ⟨net.relays, hopCount⟩
  known := List.Subset.refl _
  session := ⟨.ofSecret (flatKey 0), flatKey 0⟩
  message := [104, 105]
  messageId := Arr.zeros 16
  draws _ := ⟨Arr.zeros 12, ⟨net.relays.relays, .refl _⟩, noCoins⟩

/-- It sends one cell. -/
theorem hiCall_routed (hP : P.Lawful) (net : Network P) (hopCount : Nat) (hpos : 0 < hopCount)
    (hn : hopCount ≤ net.relays.relays.length) :
    ∃ r, (hiCall net hopCount).routed = [r] ∧ r.path.length = hopCount ∧ r.path ⊆ net.relays.relays := by
  have hwf := SentMessage.hi.frag.wf SentMessage.hiCell (by simp [SentMessage.hi])
  have hfrag : fragmentMessage (hiCall net hopCount).message (hiCall net hopCount).messageId =
      .ok [SentMessage.hiCell] := SentMessage.hi.sent
  obtain ⟨r, hr⟩ := (hiCall net hopCount).client.routeCell_isOk hP (hiCall net hopCount).session hwf
    ((hiCall net hopCount).draws 0) hpos hn
  obtain ⟨hlen, hsub, -⟩ := selectDiversePath_ok (VeilClient.routeCell_path hr)
  refine ⟨r, ?_, hlen, hsub⟩
  rw [SendCall.routed, hfrag]
  simp only [VeilClient.routedCells, hr]

/-- The state after the only cell of the only call has been written. -/
def wroteOne (net : Network P) (calls : Unit → SendCall net) (r : RoutedCell P) : Fabric P Unit :=
  { (initial net calls).put ⟨.client 0, r.firstHopAddr⟩ r.onion with
    pending := Function.update (initial net calls).pending () []
    sent := [r] }

theorem wroteOne_reachable {net : Network P} {calls : Unit → SendCall net} {r : RoutedCell P}
    (h : (calls ()).routed = [r]) : (system net calls).Reachable (wroteOne net calls r) :=
  .step (.init rfl) (.write (initial net calls) () r [] h)

theorem wroteOne_stream (net : Network P) (calls : Unit → SendCall net) (r : RoutedCell P) :
    (wroteOne net calls r).streams ⟨.client 0, r.firstHopAddr⟩ = writeFrame r.onion := by
  simp [wroteOne, put, initial]

/-- A cipher that writes the length of the plaintext in front of it and checks it, so that what was cut does not
decrypt. -/
def measured : Primitives := .tagged fun n => ⟨beBytes TAG_SIZE n, beBytes_length _ _⟩

theorem measured_lawful : measured.Lawful := Primitives.tagged_lawful _

theorem measured_cut {payload : OnionPayload} {coins : LayerCoins} {frame : Bytes} {keypair : KeyPair measured}
    (h : buildOnionLayer measured keypair.publicKey payload coins = .ok frame) (hframe : frame.length < 256 ^ TAG_SIZE)
    {m : Nat} (hcut : m < frame.length) : ∃ e, peelOnionLayer measured keypair (frame.take m) = .error e := by
  refine peel_cut measured_lawful h fun key ct henc hlen => Primitives.tagged_cut henc (fun htag heq => ?_) (by omega)
  have htagSize : TAG_SIZE = 16 := rfl
  have hct : ct.length = (encodePayload payload).length + TAG_SIZE := measured.encrypt_length henc
  have hval := congrArg beVal (congrArg Subtype.val heq)
  rw [beVal_beBytes, beVal_beBytes, Nat.mod_eq_of_lt (by omega), Nat.mod_eq_of_lt (by omega)] at hval
  omega

/-- Like every other address of the network below 65535 bytes long: one `b` among `a`s. -/
def wideAddress (k : Nat) : String := (repeatA k).push 'b' ++ repeatA (65534 - k)

theorem wideAddress_length {k : Nat} (hk : k < 65535) : (utf8 (wideAddress k)).length = 65535 := by
  have hk' := utf8_repeatA_length k
  have hrest := utf8_repeatA_length (65534 - k)
  rw [utf8_length] at hk' hrest
  rw [utf8_length, wideAddress, String.utf8ByteSize_append, String.utf8ByteSize_push, hk', hrest]
  change k + 1 + (65534 - k) = 65535
  omega

theorem wideAddress_inj {j k : Nat} (h : wideAddress j = wideAddress k) : j = k := by
  have hlist : ∀ n, ((wideAddress n).toList.takeWhile (· = 'a')).length = n := by
    intro n
    simp [wideAddress, toList_repeatA]
  rw [← hlist j, h, hlist k]

def wideRelay (k : Nat) : RelayInfo := ⟨wideAddress k, wideAddress k, flatKey 0⟩

/-- `n` relays, all with addresses of 65535 bytes. -/
def wideNetwork (n : Nat) (hn : n ≤ 65535) : Network measured where
  relays := ⟨(List.range n).map wideRelay, by
    rw [List.map_map]
    exact List.nodup_range.map fun _ _ h => wideAddress_inj h⟩
  keypair _ := .ofSecret (flatKey 0)
  keys r hr := by
    obtain ⟨k, -, rfl⟩ := List.mem_map.1 hr
    rfl
  addresses_nodup := by
    rw [List.map_map]
    exact List.nodup_range.map fun _ _ h => wideAddress_inj h
  short r hr := by
    obtain ⟨k, hk, rfl⟩ := List.mem_map.1 hr
    exact Nat.le_of_eq (wideAddress_length (Nat.lt_of_lt_of_le (List.mem_range.1 hk) hn))

theorem wideNetwork_address {n : Nat} {hn : n ≤ 65535} {r : RelayInfo} (hr : r ∈ (wideNetwork n hn).relays.relays) :
    (utf8 r.address).length = 65535 := by
  obtain ⟨k, hk, rfl⟩ := List.mem_map.1 hr
  exact wideAddress_length (Nat.lt_of_lt_of_le (List.mem_range.1 hk) hn)

theorem circuitLength_wide {n : Nat} {hn : n ≤ 65535} {path : List RelayInfo}
    (h : path ⊆ (wideNetwork n hn).relays.relays) (bodyLength : Nat) :
    circuitLength path bodyLength = 61 + bodyLength + (path.length - 1) * 65598 := by
  have hconst : path.tail.map (fun r => 63 + (utf8 r.address).length) = List.replicate path.tail.length 65598 := by
    rw [List.eq_replicate_iff]
    refine ⟨by simp, fun b hb => ?_⟩
    obtain ⟨r, hr, rfl⟩ := List.mem_map.1 hb
    rw [wideNetwork_address (h (List.mem_of_mem_tail hr))]
  rw [circuitLength, hconst, List.sum_replicate_nat, List.length_tail]

/-- What a connection can carry of one cell is a frame with one of its layers, or nothing. -/
theorem Census.single_length {s : Fabric measured Unit} {census : List (RoutedCell measured × Place)}
    (h : Census s census) {r : RoutedCell measured} (hsent : s.sent = [r]) {n : Nat} {hn : n ≤ 65535}
    (hsub : r.path ⊆ (wideNetwork n hn).relays.relays) (c : Connection) :
    (s.streams c).length = 0 ∨ ∃ j, (s.streams c).length = 637 + j * 65598 := by
  have honce := h.once
  rw [hsent] at honce
  obtain ⟨⟨r', p⟩, rfl, rfl⟩ := List.map_eq_singleton_iff.1 (List.perm_singleton.1 honce)
  rw [h.shows.streams]
  by_cases hspot : (spot (r', p)).1 = .link c
  · cases p with
    | channel => cases hspot
    | mailbox => cases hspot
    | link source hop =>
      have hhop := h.onPath r' source hop List.mem_cons_self
      have hlayer := buildCircuit_length (r'.isLayers hop hhop)
      have hdrop : r'.path.drop hop ⊆ (wideNetwork n hn).relays.relays :=
        List.Subset.trans (List.drop_subset _ _) hsub
      have hsize : ENVELOPE_SIZE = 572 := rfl
      rw [Arr.length_val, circuitLength_wide hdrop, hsize] at hlayer
      refine .inr ⟨(r'.path.drop hop).length - 1, ?_⟩
      rw [← hspot, queue_singleton_self, List.flatMap_singleton]
      change (writeFrame (r'.layer hop)).length = _
      rw [writeFrame, Wire.writeFrame_length, hlayer]
      omega
  · exact .inl (by rw [queue_singleton_ne hspot]; rfl)

/-- The run for `n` relays whose circuit has `m` bytes more than a frame can name. -/
theorem wide_lost {n : Nat} (hn : n ≤ 65535) (hpos : 0 < n) {m : Nat} (hlong : 633 + (n - 1) * 65598 = 2 ^ 32 + m)
    (hshort : m < 2 ^ 32) : ∃ s : Fabric measured Unit,
    (system (wideNetwork n hn) fun _ => hiCall _ n).Reachable s ∧ s.sent.length = 1 ∧
    (¬ ∃ census, Census s census) ∧ ∃ id, (s.nodes id).metrics.decryptFailures = 1 := by
  obtain ⟨r, hr, hlen, hsub⟩ := hiCall_routed measured_lawful (wideNetwork n hn) n hpos (by simp [wideNetwork])
  have hinfo : r.path.head r.path_ne ∈ (wideNetwork n hn).relays.relays := hsub (List.head_mem _)
  have hsize : ENVELOPE_SIZE = 572 := rfl
  have honion : r.onion.length = 2 ^ 32 + m := by
    rw [buildCircuit_length r.built, Arr.length_val, circuitLength_wide hsub, hlen, hsize]
    omega
  have h1 : (system (wideNetwork n hn) fun _ => hiCall _ n).Reachable (wroteOne (wideNetwork n hn) _ r) :=
    wroteOne_reachable hr
  have hread : readFrame ((wroteOne (wideNetwork n hn) (fun _ => hiCall _ n) r).streams
      ⟨.client 0, r.firstHopAddr⟩) = some (r.onion.take m, r.onion.drop m) := by
    have hmod : r.onion.length % 256 ^ 4 = m := by rw [honion]; omega
    rw [wroteOne_stream, ← List.append_nil (writeFrame r.onion), readFrame, writeFrame,
      Wire.readFrame_writeFrame_mod, hmod, List.append_nil]
  obtain ⟨e, hpeel⟩ : ∃ e, peelOnionLayer measured ((wroteOne (wideNetwork n hn) (fun _ => hiCall _ n) r).nodes
      (r.path.head r.path_ne).id).keypair (r.onion.take m) = .error e := by
    have hbuilt := r.isLayers.built (i := 0) (r := r.path.head r.path_ne) (by
      rw [← List.head?_eq_getElem?, List.head?_eq_some_head r.path_ne])
    rw [r.layer_zero] at hbuilt
    have hbound : 2 ^ 33 ≤ 256 ^ TAG_SIZE := by decide
    rw [← (wideNetwork n hn).keys _ hinfo] at hbuilt
    exact measured_cut hbuilt (by rw [honion]; omega) (by rw [honion]; omega)
  have h2 := h1.step (.relay _ (r.path.head r.path_ne) (.client 0) _ _ hinfo hread)
  refine ⟨_, h2, by rw [(handle_sent _ _ _ _ _).1]; rfl, ?_, (r.path.head r.path_ne).id, ?_⟩
  · rintro ⟨census, h⟩
    have hstream : ((wroteOne (wideNetwork n hn) (fun _ => hiCall _ n) r).handle (r.path.head r.path_ne).id
        ⟨.client 0, r.firstHopAddr⟩ (r.onion.take m) (r.onion.drop m)).streams ⟨.client 0, r.firstHopAddr⟩ =
        r.onion.drop m := by
      rw [handle_eq, hpeel]
      simp
    have hleft : (r.onion.drop m).length = 2 ^ 32 := by rw [List.length_drop, honion]; omega
    rcases h.single_length (by rw [(handle_sent _ _ _ _ _).1]; rfl) hsub ⟨.client 0, r.firstHopAddr⟩ with hl | ⟨j, hl⟩
    · exact absurd (hleft.symm.trans ((congrArg List.length hstream).symm.trans hl)) (by decide)
    · have hgap := hleft.symm.trans ((congrArg List.length hstream).symm.trans hl)
      omega
  · rw [handle_nodes, Function.update_self, RelayNode.handleFrame_decryptFailures, hpeel]
    rfl

/-- **A cell whose circuit does not fit a frame is lost.** A path over 65535 relays with addresses of 65535 bytes
is a circuit of 4298899965 bytes. `write_frame` writes its length modulo 2³²; the first relay reads the first
3932669 bytes as the frame, which do not peel, and what is left on the connection is not a layer of the
circuit. -/
theorem oversized_circuit_lost : ∃ s : Fabric measured Unit,
    (system (wideNetwork 65535 (Nat.le_refl _)) fun _ => hiCall _ 65535).Reachable s ∧ s.sent.length = 1 ∧
    (¬ ∃ census, Census s census) ∧ ∃ id, (s.nodes id).metrics.decryptFailures = 1 :=
  wide_lost (Nat.le_refl _) (by omega) (m := 3932669) (by omega) (by omega)

end Fabric
end VeilFabric
