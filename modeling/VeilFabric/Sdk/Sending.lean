import VeilFabric.Sdk.Receiver

/-!
# What a call of `send` does (`veil-sdk/src/client.rs:61-88`)

`send` has four ways to end: the message has no cells or too many, there is no path, a connection fails on the way, or
all cells are written. `send_outcome` says which it is and what has been written by then. A caller that gets an
`io` error has cells out there that will never make a message: the recipient opens them and waits.
-/

namespace VeilFabric
open Wire

variable {P : Primitives} {identity : KeyPair P}

/-! ## The cells of a call, as the recipient opens them -/

/-- What `identity` opens of some cells on their way. -/
def opened (identity : KeyPair P) (rs : List (RoutedCell P)) : List Cell :=
  rs.filterMap fun r => openEnvelope identity r.envelope.1

theorem VeilClient.routeCell_envelope {self : VeilClient} {session : Session P} {cell : Cell}
    {draws : CellDraws self.topology} {r : RoutedCell P} (h : self.routeCell session cell draws = .ok r) :
    ∃ data, encryptCell P session.cellKey draws.nonce cell = .ok data ∧ r.envelope = Envelope.wrap session.publicKey data := by
  unfold routeCell at h
  split at h
  · cases h
  · rename_i data henc
    simp only at h
    split at h
    · cases h
    · split at h
      · cases h
      · cases h
        exact ⟨data, henc, rfl⟩

/-- The `j`-th routed cell is the `j`-th cell, routed with the draws of its turn. -/
theorem VeilClient.routedCells_getElem {self : VeilClient} {session : Session P} {draws : Nat → CellDraws self.topology}
    {i j : Nat} {cells : List Cell} {c : Cell} {r : RoutedCell P} (hc : cells[j]? = some c)
    (hr : (self.routedCells session draws i cells)[j]? = some r) : self.routeCell session c (draws (i + j)) = .ok r := by
  induction cells generalizing i j with
  | nil => cases hc
  | cons cell cells ih =>
    unfold routedCells at hr
    split at hr
    · cases hr
    · rename_i routed hrouted
      cases j with
      | zero =>
        cases hc
        cases hr
        exact hrouted
      | succ j =>
        rw [← Nat.add_assoc, Nat.add_right_comm]
        exact ih hc hr

theorem VeilClient.routedCells_length_le (self : VeilClient) (session : Session P)
    (draws : Nat → CellDraws self.topology) (i : Nat) (cells : List Cell) :
    (self.routedCells session draws i cells).length ≤ cells.length := by
  induction cells generalizing i with
  | nil => exact Nat.le_refl 0
  | cons cell cells ih =>
    unfold routedCells
    split
    · exact Nat.zero_le _
    · exact Nat.succ_le_succ (ih (i + 1))

section Opened
variable {self : VeilClient} {session : Session P} {secret : Key} {cells : List Cell}

/-- The recipient opens the cells of a call as they were before, up to the one that could not be routed. -/
theorem opened_routedCells (hP : P.Lawful) (hs : Session.establish identity.publicKey secret = .ok session)
    (hwf : ∀ c ∈ cells, c.WF) (draws : Nat → CellDraws self.topology) (i : Nat) :
    opened identity (self.routedCells session draws i cells) <+: cells := by
  induction cells generalizing i with
  | nil => exact List.nil_prefix
  | cons cell cells ih =>
    unfold VeilClient.routedCells
    split
    · exact List.nil_prefix
    · rename_i r hr
      obtain ⟨data, henc, hdata⟩ := VeilClient.routeCell_envelope hr
      have hopen : openEnvelope identity r.envelope.1 = some cell := by
        rw [hdata]
        exact openEnvelope_wrap hP hs (hwf cell List.mem_cons_self) henc
      have hrest := ih (fun c hc => hwf c (List.mem_cons_of_mem _ hc)) (i + 1)
      simpa [opened, hopen, List.cons_prefix_cons] using hrest

/-- With as many relays as the path has hops, of the first cells written it opens the first. -/
theorem opened_take (hP : P.Lawful) (hs : Session.establish identity.publicKey secret = .ok session)
    (hwf : ∀ c ∈ cells, c.WF) (draws : Nat → CellDraws self.topology) (hpos : 0 < self.hopCount)
    (hn : self.hopCount ≤ self.topology.relays.length) (i k : Nat) :
    opened identity ((self.routedCells session draws i cells).take k) = cells.take k := by
  induction cells generalizing i k with
  | nil => simp [VeilClient.routedCells, opened]
  | cons cell cells ih =>
    obtain ⟨r, hr⟩ := self.routeCell_isOk hP session (hwf cell List.mem_cons_self) (draws i) hpos hn
    obtain ⟨data, henc, hdata⟩ := VeilClient.routeCell_envelope hr
    have hopen : openEnvelope identity r.envelope.1 = some cell := by
      rw [hdata]
      exact openEnvelope_wrap hP hs (hwf cell List.mem_cons_self) henc
    cases k with
    | zero => rfl
    | succ k =>
      have hrest := ih (fun c hc => hwf c (List.mem_cons_of_mem _ hc)) (i + 1) k
      simp only [VeilClient.routedCells, hr, List.take_succ_cons]
      simpa [opened, hopen] using hrest

/-- All of them, in the end. -/
theorem opened_routedCells_eq (hP : P.Lawful) (hs : Session.establish identity.publicKey secret = .ok session)
    (hwf : ∀ c ∈ cells, c.WF) (draws : Nat → CellDraws self.topology) (hpos : 0 < self.hopCount)
    (hn : self.hopCount ≤ self.topology.relays.length) (i : Nat) :
    opened identity (self.routedCells session draws i cells) = cells := by
  have htake := opened_take hP hs hwf draws hpos hn i cells.length
  rwa [List.take_of_length_le (self.routedCells_length_le session draws i cells), List.take_length] at htake

end Opened

/-! ## The four ends -/

/-- The frame of a cell, to its first hop. -/
def RoutedCell.transmission (r : RoutedCell P) : Transmission := ⟨r.firstHopAddr, writeFrame r.onion⟩

section Loop
variable {self : VeilClient} {session : Session P} {draws : Nat → CellDraws self.topology}
  {network : Nat → Option IoError} {cells : List Cell}

theorem VeilClient.sendCells_ok (hP : P.Lawful) (hwf : ∀ c ∈ cells, c.WF) (hpos : 0 < self.hopCount)
    (hn : self.hopCount ≤ self.topology.relays.length) {i : Nat} (hnet : ∀ j < cells.length, network (i + j) = none) :
    self.sendCells session draws network i cells =
      ((self.routedCells session draws i cells).map RoutedCell.transmission,
        .ok ((self.routedCells session draws i cells).map fun r => ⟨r.exitRelayId⟩)) := by
  induction cells generalizing i with
  | nil => rfl
  | cons cell cells ih =>
    obtain ⟨r, hr⟩ := self.routeCell_isOk hP session (hwf cell List.mem_cons_self) (draws i) hpos hn
    have hfirst : network i = none := hnet 0 (by simp)
    have hrest := ih (fun c hc => hwf c (List.mem_cons_of_mem _ hc)) (i := i + 1) fun j hj => by
      have hj' := hnet (j + 1) (by simpa using hj)
      rwa [Nat.add_comm j 1, ← Nat.add_assoc] at hj'
    simp only [sendCells, routedCells, hr, hfirst, hrest]
    rfl

/-- The first connection that fails ends the loop. -/
theorem VeilClient.sendCells_fails (hP : P.Lawful) (hwf : ∀ c ∈ cells, c.WF) (hpos : 0 < self.hopCount)
    (hn : self.hopCount ≤ self.topology.relays.length) {i k : Nat} {e : IoError} (hk : k < cells.length)
    (hnet : ∀ j < k, network (i + j) = none) (hfail : network (i + k) = some e) :
    self.sendCells session draws network i cells =
      (((self.routedCells session draws i cells).take k).map RoutedCell.transmission, .error (.io e)) := by
  induction cells generalizing i k with
  | nil => simp at hk
  | cons cell cells ih =>
    obtain ⟨r, hr⟩ := self.routeCell_isOk hP session (hwf cell List.mem_cons_self) (draws i) hpos hn
    cases k with
    | zero =>
      have hfirst : network i = some e := hfail
      simp only [sendCells, hr, hfirst, List.take_zero, List.map_nil]
    | succ k =>
      have hfirst : network i = none := hnet 0 (Nat.succ_pos k)
      have hrest := ih (fun c hc => hwf c (List.mem_cons_of_mem _ hc)) (i := i + 1) (k := k) (by simpa using hk)
        (fun j hj => by
          have hj' := hnet (j + 1) (by omega)
          rwa [Nat.add_comm j 1, ← Nat.add_assoc] at hj')
        (by rwa [Nat.add_comm k 1, ← Nat.add_assoc] at hfail)
      simp only [sendCells, routedCells, hr, hfirst, hrest, List.take_succ_cons, List.map_cons]
      rfl

end Loop

/-- Without a path the first cell already fails. -/
theorem VeilClient.routeCell_noPath (hP : P.Lawful) (self : VeilClient) (session : Session P) {cell : Cell}
    (hc : cell.WF) (draws : CellDraws self.topology) :
    (self.hopCount = 0 → self.routeCell session cell draws = .error (.routing .emptyPath)) ∧
    (self.topology.relays.length < self.hopCount → self.routeCell session cell draws =
      .error (.routing (.pathSelection (.insufficientRelays self.hopCount self.topology.relays.length)))) := by
  obtain ⟨data, henc, -⟩ := decryptCell_encryptCell hP hc session.cellKey draws.nonce
  refine ⟨fun hzero => ?_, fun hfew => ?_⟩
  · obtain ⟨path, hpath⟩ := selectDiversePath_isOk draws.shuffled (show self.hopCount ≤ _ by omega)
    obtain rfl : path = [] := List.length_eq_zero_iff.1 ((selectDiversePath_ok hpath).1.trans hzero)
    unfold routeCell
    simp only [henc, hpath]
    rfl
  · unfold routeCell
    simp only [henc, selectDiversePath_error draws.shuffled hfew]

/-- A recipient that gets only some cells of a message returns nothing, however often and in whatever order they come. -/
theorem nothing_returned {x : SentMessage} {cs : List Cell} (hsub : cs ⊆ x.cells) (hinc : ¬ x.cells ⊆ cs) :
    ∃ r results, Reassembler.new.insertAll cs = some (r, results) ∧ returned results = [] := by
  obtain ⟨r, hr, -⟩ := insertAll_new fun c hc => x.frag.wf c (hsub hc)
  exact ⟨r, _, hr, returned_incomplete hsub hinc⟩

/-- **How `send` ends.** A message that is empty or too long is refused, and one that has no path; nothing is written then.
Otherwise the cells are routed in order, each in its session with the draws of its turn. If all connections succeed,
every cell is written and the exits are returned. If the `k`-th is the first to fail, the cells before it have been
written and the call returns its error; what was written is lost to the recipient, who returns nothing for it, whatever
arrives how often and in what order. -/
theorem send_outcome (hP : P.Lawful) (self : VeilClient) (session : Session P) (message : Bytes) (messageId : MessageId)
    (draws : Nat → CellDraws self.topology) (network : Nat → Option IoError) :
    (message = [] ∨ MAX_MESSAGE_SIZE < message.length → self.send session message messageId draws network =
      ([], .error (.core (.messageTooLarge message.length MAX_MESSAGE_SIZE)))) ∧
    ∀ cells, fragmentMessage message messageId = .ok cells →
      (self.hopCount = 0 → self.send session message messageId draws network = ([], .error (.routing .emptyPath))) ∧
      (self.topology.relays.length < self.hopCount → self.send session message messageId draws network =
        ([], .error (.routing (.pathSelection (.insufficientRelays self.hopCount self.topology.relays.length))))) ∧
      (0 < self.hopCount → self.hopCount ≤ self.topology.relays.length →
        ∃ routed : List (RoutedCell P), routed.length = cells.length ∧
          (∀ i c r, cells[i]? = some c → routed[i]? = some r → self.routeCell session c (draws i) = .ok r) ∧
          ((∀ i < cells.length, network i = none) → self.send session message messageId draws network =
            (routed.map RoutedCell.transmission, .ok (routed.map fun r => ⟨r.exitRelayId⟩))) ∧
          ∀ k e, k < cells.length → (∀ i < k, network i = none) → network k = some e →
            self.send session message messageId draws network =
              ((routed.take k).map RoutedCell.transmission, .error (.io e)) ∧
            ∀ (identity : KeyPair P) (secret : Key), Session.establish identity.publicKey secret = .ok session →
              ∀ arrived, arrived ⊆ routed.take k → ∃ r results,
                Reassembler.new.insertAll (opened identity arrived) = some (r, results) ∧ returned results = []) := by
  refine ⟨fun hbad => ?_, fun cells hcells => ?_⟩
  · unfold VeilClient.send
    rw [fragmentMessage_error_iff.2 ⟨hbad, rfl⟩]
  · let x : SentMessage := ⟨messageId, message, cells, hcells⟩
    have hwf : ∀ c ∈ cells, c.WF := x.frag.wf
    have hsend : self.send session message messageId draws network = self.sendCells session draws network 0 cells := by
      unfold VeilClient.send
      rw [hcells]
    obtain ⟨first, rest, hfirst⟩ := List.exists_cons_of_ne_nil (List.ne_nil_of_length_pos x.frag.nonempty)
    have hmem : first ∈ cells := by
      rw [show cells = first :: rest from hfirst]
      exact List.mem_cons_self
    have hnoPath := self.routeCell_noPath hP session (hwf first hmem) (draws 0)
    refine ⟨fun hzero => ?_, fun hfew => ?_, fun hpos hn => ?_⟩
    · rw [hsend, show cells = first :: rest from hfirst, VeilClient.sendCells, hnoPath.1 hzero]
    · rw [hsend, show cells = first :: rest from hfirst, VeilClient.sendCells, hnoPath.2 hfew]
    · refine ⟨self.routedCells session draws 0 cells, VeilClient.routedCells_length hP hwf hpos hn 0,
        fun i c r hc hr => ?_, fun hnet => ?_,
        fun k e hk hnet hfail => ⟨?_, fun identity secret hs arrived harrived => ?_⟩⟩
      · rw [← Nat.zero_add i]
        exact VeilClient.routedCells_getElem hc hr
      · rw [hsend]
        exact VeilClient.sendCells_ok hP hwf hpos hn fun j hj => by rw [Nat.zero_add]; exact hnet j hj
      · rw [hsend]
        exact VeilClient.sendCells_fails hP hwf hpos hn hk (fun j hj => by rw [Nat.zero_add]; exact hnet j hj)
          (by rw [Nat.zero_add]; exact hfail)
      · -- the recipient opens at most the first `k` cells, and the `k`-th is not among them
        have hopened : opened identity arrived ⊆ cells.take k := by
          rw [← opened_take hP hs hwf draws hpos hn 0 k]
          intro c hc
          obtain ⟨r, hr, hopen⟩ := List.mem_filterMap.1 hc
          exact List.mem_filterMap.2 ⟨r, harrived hr, hopen⟩
        have hown : opened identity arrived ⊆ x.cells := fun c hc => List.take_subset k cells (hopened hc)
        refine nothing_returned hown fun hsub => ?_
        have hcut : x.cells ⊆ cells.take k := fun c hc => hopened (hsub hc)
        have hlen := (x.frag.nodup.subperm hcut).length_le
        rw [List.length_take] at hlen
        have hx : x.cells.length = cells.length := rfl
        omega

/-- A message of two cells, and the second connection is refused: one frame was written. -/
theorem send_outcome_second_refused : ∃ c d, ∃ r : RoutedCell .toy, (SentMessage.twoCells 7).cells = [c, d] ∧
    twoHopClient.routeCell ⟨.ofSecret (flatKey 0), flatKey 0⟩ c (dataDraws _) = .ok r ∧
    twoHopClient.send (P := .toy) ⟨.ofSecret (flatKey 0), flatKey 0⟩ (List.replicate 489 7) (SentMessage.twoCells 7).id
      (fun _ => dataDraws _) (fun i => if i = 1 then some ⟨"connection refused"⟩ else none) =
        ([r.transmission], .error (.io ⟨"connection refused"⟩)) := by
  obtain ⟨c, d, hcells⟩ := SentMessage.twoCells_cells 7
  have hsent := (SentMessage.twoCells 7).sent
  rw [hcells] at hsent
  obtain ⟨routed, hrouted, heach, -, hfails⟩ := ((send_outcome Primitives.toy_lawful twoHopClient
    ⟨.ofSecret (flatKey 0), flatKey 0⟩ (List.replicate 489 7) (SentMessage.twoCells 7).id (fun _ => dataDraws _)
    fun i => if i = 1 then some ⟨"connection refused"⟩ else none).2 _ hsent).2.2 (by decide) (by decide)
  obtain ⟨r, r', rfl⟩ := List.length_eq_two.1 hrouted
  refine ⟨c, d, r, hcells, heach 0 c r rfl rfl, ?_⟩
  exact (hfails 1 ⟨"connection refused"⟩ (by simp) (fun i hi => if_neg (by omega)) (if_pos rfl)).1

end VeilFabric
