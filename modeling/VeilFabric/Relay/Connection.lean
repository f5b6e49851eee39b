import VeilFabric.Relay.Framing

/-!
# A connection among others (`veil-relay/src/node.rs:96-134`)

`Node.lean` runs one connection from its first byte to its last. `Task` is the same `handle_connection` as one of
many tasks, which makes one access to something shared at a time (`Task.Step`): bytes arrive in pieces, a body is
sent or forwarded in one step and counted in a later one, a forward ends as the network likes, and the connection
can break off at any time. `Event` is what the others see of a step.

`Task.Inv.as_alone`: a task that has ended did what `handle_connection` does on its bytes by itself.
-/

namespace VeilFabric
open Wire

variable {P : Primitives}

/-- What the relay does with a payload, if the forward succeeds. -/
def OnionPayload.effect : OnionPayload → Effect
  | .forward nextHop body => .forwarded nextHop body
  | .deliver body => .delivered body

/-- What a frame asks for. -/
def intended (keypair : KeyPair P) (frame : Bytes) : List Effect :=
  match peelOnionLayer P keypair frame with
  | .error _ => []
  | .ok payload => [payload.effect]

/-- Where a task stands in `handle_connection`. -/
inductive Stage where
  | reading
  | peeled (payload : OnionPayload)
  /-- The payload is dealt with, the counter not yet incremented. -/
  | counting (effect : Effect)
  | closed (result : Except RelayError Unit)
  | unreachable (nextHop : String) (body : Bytes) (e : IoError)

/-- What `handle_connection` has returned. -/
def Stage.result : Stage → Option (Except RelayError Unit)
  | .closed result => some result
  | .unreachable _ _ e => some (.error (.io e))
  | _ => none

/-- A payload that has been peeled and not dealt with. -/
def Stage.pending : Stage → Option OnionPayload
  | .peeled payload => some payload
  | .unreachable nextHop body _ => some (.forward nextHop body)
  | _ => none

/-- A connection: the bytes that have arrived on it, those not yet read, the frames read and what was done. -/
structure Task where
  received : Bytes
  unread : Bytes
  stage : Stage
  frames : List Bytes
  effects : List Effect

/-- What others see of a step. -/
inductive Event where
  | quiet
  | sent (body : Bytes)
  | failed
  | counted (effect : Effect)
  | ended
deriving DecidableEq

namespace Task

def new : Task := ⟨[], [], .reading, [], []⟩

inductive Step (keypair : KeyPair P) : Task → Event → Task → Prop
  | arrive (t : Task) (bytes : Bytes) : t.stage.result = none →
      Step keypair t .quiet { t with received := t.received ++ bytes, unread := t.unread ++ bytes }
  | skip (t : Task) (frame rest : Bytes) (e : OnionError) : t.stage = .reading →
      readFrame t.unread = some (frame, rest) → peelOnionLayer P keypair frame = .error e →
      Step keypair t .failed { t with unread := rest, frames := t.frames ++ [frame] }
  | peel (t : Task) (frame rest : Bytes) (payload : OnionPayload) : t.stage = .reading →
      readFrame t.unread = some (frame, rest) → peelOnionLayer P keypair frame = .ok payload →
      Step keypair t .quiet { t with unread := rest, frames := t.frames ++ [frame], stage := .peeled payload }
  | deliver (t : Task) (body : Bytes) : t.stage = .peeled (.deliver body) →
      Step keypair t (.sent body)
        { t with stage := .counting (.delivered body), effects := t.effects ++ [.delivered body] }
  | forward (t : Task) (nextHop : String) (body : Bytes) : t.stage = .peeled (.forward nextHop body) →
      Step keypair t .quiet
        { t with stage := .counting (.forwarded nextHop body), effects := t.effects ++ [.forwarded nextHop body] }
  | fail (t : Task) (nextHop : String) (body : Bytes) (e : IoError) : t.stage = .peeled (.forward nextHop body) →
      Step keypair t .ended { t with stage := .unreachable nextHop body e }
  | count (t : Task) (effect : Effect) : t.stage = .counting effect →
      Step keypair t (.counted effect) { t with stage := .reading }
  /-- The peer closes the connection or it breaks: not an error before a length (node.rs:107). -/
  | close (t : Task) (e : IoError) : t.stage = .reading → readFrame t.unread = none →
      Step keypair t .ended
        { t with stage := .closed (if t.unread.length < 4 then .ok () else .error (.io e)) }

end Task

/-! ## What one connection does -/

theorem intended_ok {keypair : KeyPair P} {frame : Bytes} {payload : OnionPayload}
    (h : peelOnionLayer P keypair frame = .ok payload) : intended keypair frame = [payload.effect] := by
  rw [intended, h]

theorem intended_error {keypair : KeyPair P} {frame : Bytes} {e : OnionError}
    (h : peelOnionLayer P keypair frame = .error e) : intended keypair frame = [] := by
  rw [intended, h]

namespace Task

structure Inv (keypair : KeyPair P) (t : Task) : Prop where
  read : t.received = t.frames.flatMap writeFrame ++ t.unread
  short : ∀ f ∈ t.frames, f.length < 2 ^ 32
  done : t.effects ++ (t.stage.pending.map OnionPayload.effect).toList = t.frames.flatMap (intended keypair)
  /-- What is pending came with the last frame. -/
  last : ∀ payload, t.stage.pending = some payload →
    ∃ fs f, t.frames = fs ++ [f] ∧ peelOnionLayer P keypair f = .ok payload
  counting : ∀ effect, t.stage = .counting effect → effect ∈ t.effects
  closed : ∀ r, t.stage = .closed r → readFrame t.unread = none ∧ (r.isOk = true ↔ t.unread.length < 4)

variable {keypair : KeyPair P} {t t' : Task} {ev : Event}

theorem inv_new : new.Inv keypair :=
  ⟨rfl, by simp [new], rfl, nofun, nofun, nofun⟩

theorem Inv.took (h : t.Inv keypair) {frame rest : Bytes} (hread : readFrame t.unread = some (frame, rest)) :
    t.received = (t.frames ++ [frame]).flatMap writeFrame ++ rest ∧ ∀ f ∈ t.frames ++ [frame], f.length < 2 ^ 32 := by
  obtain ⟨hunread, hlt⟩ := Wire.readFrame_some hread
  refine ⟨?_, fun f hf => ?_⟩
  · rw [h.read, hunread]
    simp [writeFrame]
  · rcases List.mem_append.1 hf with hf | hf
    · exact h.short f hf
    · rwa [List.mem_singleton.1 hf]

theorem Inv.step (h : t.Inv keypair) (hst : Step keypair t ev t') : t'.Inv keypair := by
  have hdone := h.done
  cases hst with
  | arrive bytes hactive =>
    refine ⟨?_, h.short, h.done, h.last, h.counting, fun r hr => ?_⟩
    · simp only [h.read, List.append_assoc]
    · rw [show t.stage = _ from hr] at hactive
      cases hactive
  | skip frame rest e hstage hread hpeel =>
    obtain ⟨hreceived, hshort⟩ := h.took hread
    refine ⟨hreceived, hshort, ?_, ?_, h.counting, ?_⟩
    · simpa [hstage, Stage.pending, intended_error hpeel] using hdone
    · simp [hstage, Stage.pending]
    · simp [hstage]
  | peel frame rest payload hstage hread hpeel =>
    obtain ⟨hreceived, hshort⟩ := h.took hread
    refine ⟨hreceived, hshort, ?_, ?_, nofun, nofun⟩
    · rw [hstage] at hdone
      simpa [Stage.pending, intended_ok hpeel] using hdone
    · rintro _ ⟨⟩
      exact ⟨t.frames, frame, rfl, hpeel⟩
  | deliver body hstage =>
    refine ⟨h.read, h.short, ?_, nofun, ?_, nofun⟩
    · simpa [hstage, Stage.pending, OnionPayload.effect] using hdone
    · rintro _ ⟨⟩
      exact List.mem_append_right _ (List.mem_singleton.2 rfl)
  | forward nextHop body hstage =>
    refine ⟨h.read, h.short, ?_, nofun, ?_, nofun⟩
    · simpa [hstage, Stage.pending, OnionPayload.effect] using hdone
    · rintro _ ⟨⟩
      exact List.mem_append_right _ (List.mem_singleton.2 rfl)
  | fail nextHop body e hstage =>
    have hlast := h.last
    rw [hstage] at hdone hlast
    exact ⟨h.read, h.short, hdone, hlast, nofun, nofun⟩
  | count effect hstage =>
    refine ⟨h.read, h.short, ?_, nofun, nofun, nofun⟩
    simpa [hstage, Stage.pending] using hdone
  | close e hstage hread =>
    refine ⟨h.read, h.short, ?_, nofun, nofun, ?_⟩
    · simpa [hstage, Stage.pending] using hdone
    · rintro _ ⟨⟩
      refine ⟨hread, ?_⟩
      split <;> simp_all [Except.isOk, Except.toBool]

end Task

/-- A frame whose forward does not fail does what it asks for. -/
theorem fateOf_intended {keypair : KeyPair P} {pool : Finset String} {net : Answers} {frame : Bytes}
    (h : (fateOf keypair pool net frame).failure = none) :
    (fateOf keypair pool net frame).effects = intended keypair frame := by
  unfold fateOf at h ⊢
  unfold intended
  cases hpeel : peelOnionLayer P keypair frame with
  | error e => rfl
  | ok payload =>
    cases payload with
    | deliver body => rfl
    | forward nextHop body =>
      rw [hpeel] at h
      cases hfail : net.failure (nextHop ∈ pool) with
      | none =>
        simp only [hfail]
        rfl
      | some e =>
        simp only [hfail] at h
        cases h

/-- Frames whose forwards do not fail first: the rest is handled as if it came alone. -/
theorem RelayNode.handleConnection_after (self : RelayNode P) (net : Nat → Answers) {bodies : List Bytes} (rest : Bytes)
    (h : ∀ b ∈ bodies, b.length < 2 ^ 32)
    (hd : ∀ x ∈ fates self.keypair self.outbound net bodies, x.failure = none) :
    ∃ self' : RelayNode P, self'.keypair = self.keypair ∧
      (self.handleConnection net (bodies.flatMap writeFrame ++ rest)).2 =
        (bodies.flatMap (intended self.keypair) ++
            (self'.handleConnection (fun i => net (i + bodies.length)) rest).2.1,
          (self'.handleConnection (fun i => net (i + bodies.length)) rest).2.2) := by
  induction bodies generalizing self net with
  | nil => exact ⟨self, rfl, rfl⟩
  | cons b bodies ih =>
    have hread : readFrame ((b :: bodies).flatMap writeFrame ++ rest) = some (b, bodies.flatMap writeFrame ++ rest) := by
      rw [List.flatMap_cons, List.append_assoc]
      exact Wire.readFrame_writeFrame (h b (by simp)) _
    rw [fates, List.forall_mem_cons] at hd
    obtain ⟨self₁, hk, hpool, heq⟩ := self.handleConnection_frame net hread
    obtain ⟨self', hk', htail⟩ := ih self₁ (later net) (fun c hc => h c (by simp [hc])) (by rw [hk, hpool]; exact hd.2)
    refine ⟨self', hk'.trans hk, ?_⟩
    rw [heq, hd.1, fateOf_intended hd.1]
    simp only [htail, hk, List.flatMap_cons, List.append_assoc]
    rfl

/-- The stream ends before another frame is complete. -/
theorem RelayNode.handleConnection_end (self : RelayNode P) (net : Nat → Answers) {rest : Bytes}
    (h : readFrame rest = none) :
    (self.handleConnection net rest).2.1 = [] ∧
    ((self.handleConnection net rest).2.2.isOk = true ↔ rest.length < 4) := by
  rcases self.handleConnection_read net rest with ⟨-, hnil⟩ | ⟨f, rest', hread, -⟩
  · refine ⟨hnil, ?_⟩
    unfold readFrame Wire.readFrame at h
    rw [handleConnection]
    by_cases h4 : rest.length < 4
    · simp [h4, Except.isOk, Except.toBool]
    · by_cases hlen : (rest.drop 4).length < beVal (rest.take 4)
      · simp only [h4, hlen, dite_false, if_true]
        simp [Except.isOk, Except.toBool]
      · simp only [h4, hlen, if_false] at h
        cases h
  · rw [h] at hread
    cases hread

/-- A frame whose forward fails ends the connection. -/
theorem RelayNode.handleConnection_failed (self : RelayNode P) (net : Nat → Answers) {frame : Bytes} (rest : Bytes)
    (h : frame.length < 2 ^ 32) {e : IoError}
    (hfail : (fateOf self.keypair self.outbound (net 0) frame).failure = some e) :
    (self.handleConnection net (writeFrame frame ++ rest)).2 = ([], .error (.io e)) := by
  have hread : readFrame (writeFrame frame ++ rest) = some (frame, rest) := Wire.readFrame_writeFrame h rest
  obtain ⟨self', -, -, heq⟩ := self.handleConnection_frame net hread
  rw [heq, hfail, fateOf_failed hfail]

namespace Task
variable {keypair : KeyPair P} {t : Task}

/-- `net` answers the frames of this connection as they were answered: the forwards that succeeded succeed, and the one
that ended the connection fails with its error, whatever is pooled. -/
structure Saw (keypair : KeyPair P) (t : Task) (net : Nat → Answers) : Prop where
  reached : ∀ i frame nextHop body, t.frames[i]? = some frame →
    peelOnionLayer P keypair frame = .ok (.forward nextHop body) → (i + 1 < t.frames.length ∨ t.stage.pending = none) →
    ∀ pooled, (net i).failure pooled = none
  failed : ∀ nextHop body e, t.stage = .unreachable nextHop body e →
    ∀ pooled, (net (t.frames.length - 1)).failure pooled = some e

/-- There are such answers. -/
theorem exists_saw (keypair : KeyPair P) (t : Task) : ∃ net, t.Saw keypair net := by
  by_cases hfailed : ∃ nextHop body e, t.stage = .unreachable nextHop body e
  · obtain ⟨nextHop, body, e, hstage⟩ := hfailed
    refine ⟨fun i => if i + 1 < t.frames.length then connected else ⟨some e, some e, some e, none⟩, ?_, ?_⟩
    · intro i frame nextHop' body' _ _ hdone pooled
      rw [hstage] at hdone
      rw [if_pos (hdone.resolve_right nofun), connected_failure]
    · intro nextHop' body' e' hstage' pooled
      rw [hstage] at hstage'
      cases hstage'
      rw [if_neg (by omega)]
      cases pooled <;> rfl
  · refine ⟨fun _ => connected, fun _ _ _ _ _ _ _ pooled => connected_failure pooled, ?_⟩
    intro nextHop body e hstage
    exact absurd ⟨nextHop, body, e, hstage⟩ hfailed

/-- Frames that are answered with success do not fail. -/
theorem fates_reached {frames : List Bytes} {net : Nat → Answers} (pool : Finset String)
    (h : ∀ i frame nextHop body, frames[i]? = some frame →
      peelOnionLayer P keypair frame = .ok (.forward nextHop body) → ∀ pooled, (net i).failure pooled = none) :
    ∀ x ∈ fates keypair pool net frames, x.failure = none := by
  induction frames generalizing pool net with
  | nil => simp [fates]
  | cons f fs ih =>
    intro x hx
    rcases List.mem_cons.1 hx with rfl | hx
    · unfold fateOf
      split
      · rfl
      · rfl
      · rename_i nextHop body hpeel
        simp only [h 0 f nextHop body rfl hpeel]
    · exact ih _ (fun i frame nextHop body hi => h (i + 1) frame nextHop body hi) x hx

theorem Inv.frames_isInitial (h : t.Inv keypair) : t.frames <+: readFrames t.received := by
  rw [h.read]
  have hshort := h.short
  generalize t.frames = frames at hshort
  induction frames with
  | nil => exact List.nil_prefix
  | cons f fs ih =>
    rw [List.flatMap_cons, List.append_assoc, readFrames_append (hshort f (by simp))]
    exact (List.prefix_cons_inj f).2 (ih fun g hg => hshort g (by simp [hg]))

/-- A connection that has ended did what `handle_connection` does by itself. -/
theorem Inv.as_alone (h : t.Inv keypair) {result : Except RelayError Unit} (hresult : t.stage.result = some result)
    {net : Nat → Answers} (hsaw : t.Saw keypair net) (node : RelayNode P) (hnode : node.keypair = keypair) :
    (node.handleConnection net t.received).2.1 = t.effects ∧
    (node.handleConnection net t.received).2.2.isOk = result.isOk := by
  subst hnode
  have hdone := h.done
  cases hstage : t.stage with
  | reading => rw [hstage] at hresult; cases hresult
  | peeled payload => rw [hstage] at hresult; cases hresult
  | counting effect => rw [hstage] at hresult; cases hresult
  | closed r =>
    -- every frame was dealt with
    have hreached := fates_reached node.outbound fun i f nextHop body hi hpeel =>
      hsaw.reached i f nextHop body hi hpeel (.inr (by rw [hstage]; rfl))
    rw [hstage] at hresult hdone
    cases hresult
    simp only [Stage.pending, Option.map_none, Option.toList_none, List.append_nil] at hdone
    obtain ⟨hnone, hok⟩ := h.closed result hstage
    obtain ⟨node', -, heq⟩ := node.handleConnection_after net t.unread h.short hreached
    obtain ⟨hnil, hend⟩ := node'.handleConnection_end (fun i => net (i + t.frames.length)) hnone
    rw [h.read, heq, hnil, hdone, List.append_nil]
    exact ⟨rfl, by rw [Bool.eq_iff_iff, hend, hok]⟩
  | unreachable nextHop body e =>
    -- every frame but the last
    rw [hstage] at hresult hdone
    cases hresult
    obtain ⟨fs, f, hframes, hpeel⟩ := h.last (.forward nextHop body) (by rw [hstage]; rfl)
    have hshort := h.short
    rw [hframes] at hdone hshort
    have heffects : fs.flatMap (intended node.keypair) = t.effects := by
      simpa [Stage.pending, intended_ok hpeel] using hdone.symm
    have hreached : ∀ x ∈ fates node.keypair node.outbound net fs, x.failure = none := by
      refine fates_reached node.outbound fun i g nextHop' body' hi hpeel' => ?_
      have hlt := (List.getElem?_eq_some_iff.1 hi).1
      refine hsaw.reached i g nextHop' body' ?_ hpeel' (.inl ?_)
      · rw [hframes, List.getElem?_append_left hlt, hi]
      · rw [hframes, List.length_append, List.length_singleton]
        omega
    have hlast := hsaw.failed nextHop body e hstage
    rw [hframes, List.length_append, List.length_singleton, Nat.add_sub_cancel] at hlast
    obtain ⟨node', hk, heq⟩ := node.handleConnection_after net (writeFrame f ++ t.unread)
      (fun b hb => hshort b (by simp [hb])) hreached
    have hfail : (fateOf node'.keypair node'.outbound (net (0 + fs.length)) f).failure = some e := by
      rw [Nat.zero_add, hk]
      unfold fateOf
      rw [hpeel]
      simp only [hlast]
    have hend := node'.handleConnection_failed (fun i => net (i + fs.length)) t.unread (hshort f (by simp)) hfail
    rw [h.read, hframes, List.flatMap_append, List.append_assoc, List.flatMap_singleton, heq, hend, List.append_nil]
    exact ⟨heffects, rfl⟩

end Task

end VeilFabric
