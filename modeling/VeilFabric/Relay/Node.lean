import VeilFabric.Relay.Forwarding
import Mathlib.Data.Finset.Basic

/-!
# One inbound connection of a relay (`veil-relay/src/node.rs`)

| here | there |
| --- | --- |
| `RelayNode`                 | `struct RelayNode` (node.rs:32), the keypair, the pool and the counters of `metrics` |
| `RelayNode.getOrConnect`    | `RelayNode::get_or_connect` (node.rs:153) |
| `RelayNode.forward`         | `RelayNode::forward` (node.rs:136), run without interruption |
| `RelayNode.handleFrame`     | the body of the loop after the frame is read (node.rs:113-132) |
| `RelayNode.handleConnection`| `RelayNode::handle_connection` (node.rs:96), on all the bytes the peer sends |

The world outside is `Answers`: how each dial and each write of a call of `forward` ends. They are independent of each
other and of what is pooled: a live connection is written to although its peer takes no new ones, a stale one may
take a frame or two before it errs. `forward_eq` says when a call fails, `fates` what becomes of the frames of a
connection one by one, and `handleConnection_effects` reads a whole connection in these terms.

`handleConnection_independent_iff`: the frames of a connection are independent of each other iff none whose forward
fails comes before one that has an effect. A frame that does not peel is skipped, but one that cannot be forwarded
ends the connection (`self.forward(..).await?`).
-/

namespace VeilFabric
open Wire

/-- The variants of `enum RelayError` (node.rs:19) that a connection returns. -/
inductive RelayError where
  | io (e : IoError)
deriving DecidableEq

/-- How the network answers one call of `forward`: the dial, if nothing is pooled, the write, and if that fails the
dial and the write of the second try. `none` is success. -/
structure Answers where
  dial : Option IoError
  write : Option IoError
  redial : Option IoError
  rewrite : Option IoError
deriving DecidableEq

/-- Every dial and every write succeeds. -/
def connected : Answers := ⟨none, none, none, none⟩

/-- The counters of `Metrics` (metrics.rs:6) that a connection touches; `fetch_add` wraps. -/
structure Metrics where
  cellsForwarded : UInt64
  cellsDelivered : UInt64
  decryptFailures : UInt64
deriving DecidableEq

structure RelayNode (P : Primitives) where
  keypair : KeyPair P
  /-- The addresses to which a connection is pooled. -/
  outbound : Finset String
  metrics : Metrics

/-- What leaves the relay: a body written to a next hop, or sent to the delivery channel. -/
inductive Effect where
  | forwarded (nextHop : String) (body : Bytes)
  | delivered (body : Bytes)
deriving DecidableEq

variable {P : Primitives}

namespace RelayNode

/-- `get_or_connect` (node.rs:153); `dial` is how `TcpStream::connect` ends, if it is called. -/
def getOrConnect (self : RelayNode P) (dial : Option IoError) (addr : String) : RelayNode P × Except RelayError Unit :=
  if addr ∈ self.outbound then (self, .ok ())
  else
    match dial with
    | some e => (self, .error (.io e))
    | none => ({ self with outbound := insert addr self.outbound }, .ok ())

/-- `forward` (node.rs:136): write on the pooled connection; on failure evict it and try once more. -/
def forward (self : RelayNode P) (net : Answers) (nextHop : String) (body : Bytes) :
    RelayNode P × List Effect × Except RelayError Unit :=
  match self.getOrConnect net.dial nextHop with
  | (self, .error e) => (self, [], .error e)
  | (self, .ok ()) =>
    match net.write with
    | none => (self, [.forwarded nextHop body], .ok ())
    | some _ =>
      match RelayNode.getOrConnect { self with outbound := self.outbound.erase nextHop } net.redial nextHop with
      | (self, .error e) => (self, [], .error e)
      | (self, .ok ()) =>
        match net.rewrite with
        | none => (self, [.forwarded nextHop body], .ok ())
        | some e => (self, [], .error (.io e))

/-- One frame (node.rs:113-132). -/
def handleFrame (self : RelayNode P) (net : Answers) (frame : Bytes) :
    RelayNode P × List Effect × Except RelayError Unit :=
  match peelOnionLayer P self.keypair frame with
  | .error _ =>
    ({ self with metrics := { self.metrics with decryptFailures := self.metrics.decryptFailures + 1 } }, [], .ok ())
  | .ok (.forward nextHop body) =>
    match self.forward net nextHop body with
    | (self, out, .error e) => (self, out, .error e)
    | (self, out, .ok ()) =>
      ({ self with metrics := { self.metrics with cellsForwarded := self.metrics.cellsForwarded + 1 } }, out, .ok ())
  | .ok (.deliver body) =>
    ({ self with metrics := { self.metrics with cellsDelivered := self.metrics.cellsDelivered + 1 } },
      [.delivered body], .ok ())

end RelayNode

/-- The answers to the frames after the first. -/
def later (net : Nat → Answers) : Nat → Answers := fun i => net (i + 1)

namespace RelayNode

/-- `handle_connection` (node.rs:96), the peer closing after `stream`; `net i` answers the forward of the `i`-th frame.
An end inside the length ends the connection silently, one inside a frame with an error. -/
def handleConnection (self : RelayNode P) (net : Nat → Answers) (stream : Bytes) :
    RelayNode P × List Effect × Except RelayError Unit :=
  if _ : stream.length < 4 then (self, [], .ok ())
  else
    let len := beVal (stream.take 4)
    let rest := stream.drop 4
    if rest.length < len then (self, [], .error (.io ⟨"early eof"⟩))
    else
      match self.handleFrame (net 0) (rest.take len) with
      | (self, out, .error e) => (self, out, .error e)
      | (self, out, .ok ()) =>
        let (self, more, result) := self.handleConnection (later net) (rest.drop len)
        (self, out ++ more, result)
termination_by stream.length
decreasing_by simp only [List.length_drop]; omega

/-- The frames one after the other, each on a connection of its own. -/
def eachAlone (self : RelayNode P) (net : Nat → Answers) : List Bytes → List Effect
  | [] => []
  | frame :: frames =>
    let (self, out, _) := self.handleConnection (fun _ => net 0) (writeFrame frame)
    out ++ self.eachAlone (later net) frames

end RelayNode

/-! ## The frames of a stream -/

/-- `read_frame` over and over, until it errs. -/
def readFrames (stream : Bytes) : List Bytes :=
  match _h : readFrame stream with
  | none => []
  | some (frame, rest) => frame :: readFrames rest
termination_by stream.length
decreasing_by exact Wire.readFrame_shorter (by decide) _h

theorem readFrames_none {stream : Bytes} (h : readFrame stream = none) : readFrames stream = [] := by
  rw [readFrames]
  split
  · rfl
  · rename_i h'
    rw [h] at h'; cases h'

theorem readFrames_some {stream frame rest : Bytes} (h : readFrame stream = some (frame, rest)) :
    readFrames stream = frame :: readFrames rest := by
  rw [readFrames]
  split
  · rename_i h'
    rw [h] at h'; cases h'
  · rename_i h'
    rw [h] at h'; cases h'
    rfl

theorem readFrames_append {frame : Bytes} (h : frame.length < 2 ^ 32) (rest : Bytes) :
    readFrames (writeFrame frame ++ rest) = frame :: readFrames rest :=
  readFrames_some (Wire.readFrame_writeFrame h rest)

/-- A frame on a connection of its own. -/
theorem readFrames_writeFrame {frame : Bytes} (h : frame.length < 2 ^ 32) : readFrames (writeFrame frame) = [frame] := by
  have hnil : readFrames [] = [] := readFrames_none rfl
  have hread := readFrames_append h []
  rwa [List.append_nil, hnil] at hread

/-- Every frame that arrives is shorter than 2³² bytes. -/
theorem length_of_mem_readFrames {stream frame : Bytes} (h : frame ∈ readFrames stream) : frame.length < 2 ^ 32 := by
  induction hn : stream.length using Nat.strong_induction_on generalizing stream with
  | _ n ih =>
    cases hread : readFrame stream with
    | none =>
      rw [readFrames_none hread] at h
      cases h
    | some p =>
      obtain ⟨f, rest⟩ := p
      rw [readFrames_some hread] at h
      rcases List.mem_cons.1 h with rfl | h
      · exact (Wire.readFrame_some hread).2
      · exact ih rest.length (hn ▸ Wire.readFrame_shorter (by decide) hread) h rfl

/-! ## One frame -/

/-- The error with which a call of `forward` ends, if a connection is pooled or not. -/
def Answers.failure (net : Answers) (pooled : Bool) : Option IoError :=
  match pooled, net.dial with
  | false, some e => some e
  | _, _ =>
    match net.write, net.redial with
    | none, _ => none
    | some _, some e => some e
    | some _, none => net.rewrite

@[simp] theorem connected_failure (pooled : Bool) : connected.failure pooled = none := by
  cases pooled <;> rfl

/-- A connection is pooled after the call: also one on which the second write failed. -/
def Answers.pools (net : Answers) (pooled : Bool) : Bool :=
  (pooled || net.dial.isNone) && (net.write.isNone || net.redial.isNone)

/-- What becomes of a frame: the error with which its forward ends, if it does, and what it does. -/
structure Fate where
  failure : Option IoError
  effects : List Effect
deriving DecidableEq

/-- How the body of the loop ends. -/
def Fate.result (x : Fate) : Except RelayError Unit :=
  match x.failure with
  | none => .ok ()
  | some e => .error (.io e)

/-- The fate of a frame by itself, given what is pooled. -/
def fateOf (keypair : KeyPair P) (pool : Finset String) (net : Answers) (frame : Bytes) : Fate :=
  match peelOnionLayer P keypair frame with
  | .error _ => ⟨none, []⟩
  | .ok (.deliver body) => ⟨none, [.delivered body]⟩
  | .ok (.forward nextHop body) =>
    match net.failure (nextHop ∈ pool) with
    | some e => ⟨some e, []⟩
    | none => ⟨none, [.forwarded nextHop body]⟩

/-- What is pooled after it. -/
def poolAfter (keypair : KeyPair P) (pool : Finset String) (net : Answers) (frame : Bytes) : Finset String :=
  match peelOnionLayer P keypair frame with
  | .ok (.forward nextHop _) => if net.pools (nextHop ∈ pool) then insert nextHop pool else pool.erase nextHop
  | _ => pool

/-- The fates of frames that come one after the other. -/
def fates (keypair : KeyPair P) : Finset String → (Nat → Answers) → List Bytes → List Fate
  | _, _, [] => []
  | pool, net, frame :: frames =>
    fateOf keypair pool (net 0) frame :: fates keypair (poolAfter keypair pool (net 0) frame) (later net) frames

/-- A frame whose forward fails does nothing. -/
theorem fateOf_failed {keypair : KeyPair P} {pool : Finset String} {net : Answers} {frame : Bytes} {e : IoError}
    (h : (fateOf keypair pool net frame).failure = some e) : (fateOf keypair pool net frame).effects = [] := by
  unfold fateOf at h ⊢
  split
  · rfl
  · rename_i hpeel
    rw [hpeel] at h
    cases h
  · rename_i nextHop body hpeel
    rw [hpeel] at h
    cases hfail : net.failure (nextHop ∈ pool) with
    | some e => rfl
    | none =>
      simp only [hfail] at h
      cases h

namespace RelayNode

theorem getOrConnect_pooled {self : RelayNode P} {addr : String} (h : addr ∈ self.outbound) (dial : Option IoError) :
    self.getOrConnect dial addr = (self, .ok ()) := if_pos h

theorem getOrConnect_dial {self : RelayNode P} {addr : String} (h : addr ∉ self.outbound) (dial : Option IoError) :
    self.getOrConnect dial addr =
      match dial with
      | some e => (self, .error (.io e))
      | none => ({ self with outbound := insert addr self.outbound }, .ok ()) := if_neg h

/-- **When `forward` fails**: nothing is pooled and the dial fails, or the write fails and so does the second try. Only the
pool changes. -/
theorem forward_eq (self : RelayNode P) (net : Answers) (nextHop : String) (body : Bytes) :
    self.forward net nextHop body =
      ({ self with outbound :=
          if net.pools (nextHop ∈ self.outbound) then insert nextHop self.outbound else self.outbound.erase nextHop },
        match net.failure (nextHop ∈ self.outbound) with
        | none => ([.forwarded nextHop body], .ok ())
        | some e => ([], .error (.io e))) := by
  obtain ⟨dial, write, redial, rewrite⟩ := net
  have hagain : nextHop ∉ self.outbound.erase nextHop := Finset.notMem_erase _ _
  unfold forward
  by_cases hpool : nextHop ∈ self.outbound
  · rw [getOrConnect_pooled hpool]
    cases write with
    | none => simp [Answers.pools, Answers.failure, hpool]
    | some e =>
      simp only
      rw [getOrConnect_dial hagain]
      cases redial with
      | some e' => simp [Answers.pools, Answers.failure, hpool]
      | none => cases rewrite <;> simp [Answers.pools, Answers.failure, hpool]
  · rw [getOrConnect_dial hpool]
    cases dial with
    | some e => simp [Answers.pools, Answers.failure, hpool]
    | none =>
      cases write with
      | none => simp [Answers.pools, Answers.failure, hpool]
      | some e =>
        simp only
        rw [Finset.erase_insert hpool, getOrConnect_dial hpool]
        cases redial with
        | some e' => simp [Answers.pools, Answers.failure, hpool]
        | none => cases rewrite <;> simp [Answers.pools, Answers.failure, hpool]

/-- A frame meets its fate. -/
theorem handleFrame_eq (self : RelayNode P) (net : Answers) (frame : Bytes) :
    (self.handleFrame net frame).1.keypair = self.keypair ∧
    (self.handleFrame net frame).1.outbound = poolAfter self.keypair self.outbound net frame ∧
    (self.handleFrame net frame).2 =
      ((fateOf self.keypair self.outbound net frame).effects, (fateOf self.keypair self.outbound net frame).result) := by
  unfold handleFrame poolAfter fateOf
  cases hpeel : peelOnionLayer P self.keypair frame with
  | error e => exact ⟨rfl, rfl, rfl⟩
  | ok payload =>
    cases payload with
    | deliver body => exact ⟨rfl, rfl, rfl⟩
    | forward nextHop body =>
      simp only [forward_eq]
      cases net.failure (nextHop ∈ self.outbound) with
      | none => exact ⟨rfl, rfl, rfl⟩
      | some e => exact ⟨rfl, rfl, rfl⟩

/-- Only a frame that does not peel counts as a failure. -/
theorem handleFrame_decryptFailures (self : RelayNode P) (net : Answers) (frame : Bytes) :
    (self.handleFrame net frame).1.metrics.decryptFailures =
      match peelOnionLayer P self.keypair frame with
      | .error _ => self.metrics.decryptFailures + 1
      | .ok _ => self.metrics.decryptFailures := by
  unfold handleFrame
  cases hpeel : peelOnionLayer P self.keypair frame with
  | error e => rfl
  | ok payload =>
    cases payload with
    | deliver body => rfl
    | forward nextHop body =>
      simp only [forward_eq]
      cases net.failure (nextHop ∈ self.outbound) <;> rfl

/-! ## A whole connection -/

/-- The effects of frames that share a connection: the first whose forward fails is the last. -/
def untilFailure : List Fate → List Effect
  | [] => []
  | x :: xs => if x.failure.isSome then x.effects else x.effects ++ untilFailure xs

/-- `handle_connection` reads with its own code what `read_frame` reads. -/
theorem handleConnection_read (self : RelayNode P) (net : Nat → Answers) (stream : Bytes) :
    (readFrame stream = none ∧ (self.handleConnection net stream).2.1 = []) ∨
    ∃ frame rest, readFrame stream = some (frame, rest) ∧ self.handleConnection net stream =
      match self.handleFrame (net 0) frame with
      | (self, out, .error e) => (self, out, .error e)
      | (self, out, .ok ()) =>
        ((self.handleConnection (later net) rest).1, out ++ (self.handleConnection (later net) rest).2.1,
          (self.handleConnection (later net) rest).2.2) := by
  rw [handleConnection]
  unfold readFrame Wire.readFrame
  by_cases h4 : stream.length < 4
  · exact .inl ⟨by simp [h4], by simp [h4]⟩
  · by_cases hlen : (stream.drop 4).length < beVal (stream.take 4)
    · exact .inl ⟨by simp only [h4, hlen, if_false, if_true], by simp only [h4, hlen, if_true, dite_false]⟩
    · refine .inr ⟨(stream.drop 4).take (beVal (stream.take 4)), (stream.drop 4).drop (beVal (stream.take 4)), ?_, ?_⟩
      · simp only [h4, hlen, if_false]
      · simp only [h4, hlen, if_false, dite_false]

/-- The loop after one frame, by the fate of the frame. -/
theorem handleConnection_frame (self : RelayNode P) (net : Nat → Answers) {stream frame rest : Bytes}
    (h : readFrame stream = some (frame, rest)) :
    ∃ self' : RelayNode P, self'.keypair = self.keypair ∧
      self'.outbound = poolAfter self.keypair self.outbound (net 0) frame ∧ self.handleConnection net stream =
      match (fateOf self.keypair self.outbound (net 0) frame).failure with
      | some e => (self', (fateOf self.keypair self.outbound (net 0) frame).effects, .error (.io e))
      | none =>
        ((self'.handleConnection (later net) rest).1,
          (fateOf self.keypair self.outbound (net 0) frame).effects ++ (self'.handleConnection (later net) rest).2.1,
          (self'.handleConnection (later net) rest).2.2) := by
  rcases self.handleConnection_read net stream with ⟨hnone, -⟩ | ⟨frame', rest', hread, heq⟩
  · rw [h] at hnone
    cases hnone
  · rw [h] at hread
    cases hread
    obtain ⟨hk, hpool, hout⟩ := self.handleFrame_eq (net 0) frame
    generalize self.handleFrame (net 0) frame = r at heq hk hpool hout
    obtain ⟨self', out, result⟩ := r
    cases hout
    refine ⟨self', hk, hpool, ?_⟩
    rw [heq]
    unfold Fate.result
    cases (fateOf self.keypair self.outbound (net 0) frame).failure <;> rfl

/-- **A connection is the list of its frames**, up to the first whose forward fails. -/
theorem handleConnection_effects (self : RelayNode P) (net : Nat → Answers) (stream : Bytes) :
    (self.handleConnection net stream).2.1 =
      untilFailure (fates self.keypair self.outbound net (readFrames stream)) := by
  induction hn : stream.length using Nat.strong_induction_on generalizing self net stream with
  | _ n ih =>
    rcases self.handleConnection_read net stream with ⟨hread, hnil⟩ | ⟨frame, rest, hread, -⟩
    · rw [hnil, readFrames_none hread]; rfl
    · obtain ⟨self', hk, hpool, heq⟩ := self.handleConnection_frame net hread
      have hrest := ih rest.length (hn ▸ Wire.readFrame_shorter (by decide) hread) self' (later net) rest rfl
      rw [readFrames_some hread, fates, untilFailure, heq]
      cases (fateOf self.keypair self.outbound (net 0) frame).failure with
      | some e => rfl
      | none => simp only [hrest, hk, hpool, Option.isSome_none, Bool.false_eq_true, if_false]

/-- One frame on a connection of its own: its fate, and what is pooled afterwards. -/
theorem handleConnection_single (self : RelayNode P) (net : Answers) {frame : Bytes} (h : frame.length < 2 ^ 32) :
    (self.handleConnection (fun _ => net) (writeFrame frame)).1.keypair = self.keypair ∧
    (self.handleConnection (fun _ => net) (writeFrame frame)).1.outbound =
      poolAfter self.keypair self.outbound net frame ∧
    (self.handleConnection (fun _ => net) (writeFrame frame)).2.1 = (fateOf self.keypair self.outbound net frame).effects := by
  have hread : readFrame (writeFrame frame) = some (frame, []) := by
    rw [← List.append_nil (writeFrame frame)]
    exact Wire.readFrame_writeFrame h []
  obtain ⟨self', hk, hpool, heq⟩ := self.handleConnection_frame (fun _ => net) hread
  have hend : ∀ net', self'.handleConnection net' [] = (self', [], .ok ()) := by
    intro net'
    rw [handleConnection]
    rfl
  rw [heq]
  cases (fateOf self.keypair self.outbound net frame).failure with
  | some e => exact ⟨hk, hpool, rfl⟩
  | none =>
    simp only [hend, List.append_nil]
    exact ⟨hk, hpool, trivial⟩

theorem eachAlone_eq (self : RelayNode P) (net : Nat → Answers) {frames : List Bytes}
    (h : ∀ f ∈ frames, f.length < 2 ^ 32) :
    self.eachAlone net frames = (fates self.keypair self.outbound net frames).flatMap Fate.effects := by
  induction frames generalizing self net with
  | nil => rfl
  | cons f fs ih =>
    obtain ⟨hk, hpool, hout⟩ := self.handleConnection_single (net 0) (h f List.mem_cons_self)
    rw [eachAlone, fates, List.flatMap_cons]
    simp only
    rw [ih _ _ fun g hg => h g (List.mem_cons_of_mem _ hg), hout, hk, hpool]

theorem failed_effects {keypair : KeyPair P} {pool : Finset String} {net : Nat → Answers} {frames : List Bytes} :
    ∀ x ∈ fates keypair pool net frames, x.failure.isSome = true → x.effects = [] := by
  induction frames generalizing pool net with
  | nil => simp [fates]
  | cons f fs ih =>
    intro x hx hfail
    rcases List.mem_cons.1 hx with rfl | hx
    · obtain ⟨e, he⟩ := Option.isSome_iff_exists.1 hfail
      exact fateOf_failed he
    · exact ih x hx hfail

theorem untilFailure_eq_iff {xs : List Fate} (h : ∀ x ∈ xs, x.failure.isSome = true → x.effects = []) :
    untilFailure xs = xs.flatMap Fate.effects ↔
      xs.Pairwise fun x y => x.failure.isSome = true → y.effects = [] := by
  induction xs with
  | nil => simp [untilFailure]
  | cons x xs ih =>
    have ih := ih fun y hy => h y (List.mem_cons_of_mem _ hy)
    rw [untilFailure, List.flatMap_cons, List.pairwise_cons, ← ih]
    by_cases hx : x.failure.isSome = true
    · rw [if_pos hx, h x List.mem_cons_self hx, List.nil_append]
      constructor
      · intro hall
        have hidle := List.flatMap_eq_nil_iff.1 hall.symm
        exact ⟨fun y hy _ => hidle y hy, ih.2 (List.pairwise_of_forall_mem_list fun _ _ y hy _ => hidle y hy)⟩
      · intro hall
        exact (List.flatMap_eq_nil_iff.2 fun y hy => hall.1 y hy hx).symm
    · rw [if_neg hx, List.append_cancel_left_eq]
      exact ⟨fun hall => ⟨fun _ _ hf => absurd hf hx, hall⟩, fun hall => hall.2⟩

/-- **Independence of the frames of a connection.** For every byte stream a peer may send, whatever is pooled and however
the dials and the writes of each forward end: what the relay forwards and delivers is what the frames of the
stream yield, each on a connection of its own, iff no frame whose forward fails comes before one that has an
effect. -/
theorem handleConnection_independent_iff (self : RelayNode P) (net : Nat → Answers) (stream : Bytes) :
    (self.handleConnection net stream).2.1 = self.eachAlone net (readFrames stream) ↔
    (fates self.keypair self.outbound net (readFrames stream)).Pairwise fun x y =>
      x.failure.isSome = true → y.effects = [] := by
  rw [handleConnection_effects, self.eachAlone_eq net fun f hf => length_of_mem_readFrames hf]
  exact untilFailure_eq_iff failed_effects

/-- A relay with an empty pool and all counters at zero. -/
def fresh (keypair : KeyPair P) : RelayNode P := ⟨keypair, ∅, ⟨0, 0, 0⟩⟩

/-- Every dial is refused. -/
def isolated : Answers := ⟨some ⟨"connection refused"⟩, none, some ⟨"connection refused"⟩, none⟩

/-- A frame that goes to "127.0.0.1:9", and one for this relay. -/
theorem two_frames : ∃ f g : Bytes, f.length < 2 ^ 32 ∧ g.length < 2 ^ 32 ∧
    peelOnionLayer .toy (.ofSecret (Arr.zeros 32)) f = .ok (.forward "127.0.0.1:9" [1]) ∧
    peelOnionLayer .toy (.ofSecret (Arr.zeros 32)) g = .ok (.deliver [2]) := by
  have hfits : (OnionPayload.forward "127.0.0.1:9" [1]).Fits := show (utf8 "127.0.0.1:9").length ≤ 65535 by decide
  have henc : (encodePayload (.forward "127.0.0.1:9" [1])).length = 15 := by decide
  obtain ⟨f, hf, -⟩ := buildOnionLayer_ok Primitives.toy_lawful (Arr.zeros 32) (.forward "127.0.0.1:9" [1])
    ⟨Arr.zeros 32, Arr.zeros 12⟩
  obtain ⟨g, hg, -⟩ := buildOnionLayer_ok Primitives.toy_lawful (Arr.zeros 32) (.deliver [2])
    ⟨Arr.zeros 32, Arr.zeros 12⟩
  refine ⟨f, g, ?_, ?_, ?_, ?_⟩
  · rw [buildOnionLayer_length hf, henc]; decide
  · rw [buildOnionLayer_length hg]; decide
  · exact @peel_build .toy Primitives.toy_lawful (.ofSecret (Arr.zeros 32)) _ hfits _ _ hf
  · exact @peel_build .toy Primitives.toy_lawful (.ofSecret (Arr.zeros 32)) (.deliver [2]) trivial _ _ hg

/-- A cell for an unreachable hop, then a cell for this relay: the second one is not delivered, although alone
it would be. -/
theorem undeliverable_frame_ends_connection : ∃ f g,
    peelOnionLayer .toy (.ofSecret (Arr.zeros 32)) f = .ok (.forward "127.0.0.1:9" [1]) ∧
    peelOnionLayer .toy (.ofSecret (Arr.zeros 32)) g = .ok (.deliver [2]) ∧
    readFrames (writeFrame f ++ writeFrame g) = [f, g] ∧
    ((fresh (.ofSecret (Arr.zeros 32) : KeyPair .toy)).handleConnection (fun _ => isolated)
      (writeFrame f ++ writeFrame g)).2.1 = [] ∧
    (fresh (.ofSecret (Arr.zeros 32) : KeyPair .toy)).eachAlone (fun _ => isolated) [f, g] = [.delivered [2]] := by
  obtain ⟨f, g, hfl, hgl, hpf, hpg⟩ := two_frames
  have hread : readFrames (writeFrame f ++ writeFrame g) = [f, g] := by
    rw [readFrames_append hfl, readFrames_writeFrame hgl]
  have hfates : fates (.ofSecret (Arr.zeros 32) : KeyPair .toy) ∅ (fun _ => isolated) [f, g] =
      [⟨some ⟨"connection refused"⟩, []⟩, ⟨none, [.delivered [2]]⟩] := by
    simp [fates, fateOf, hpf, hpg, isolated, Answers.failure]
  refine ⟨f, g, hpf, hpg, hread, ?_, ?_⟩
  · rw [handleConnection_effects, hread]
    exact congrArg untilFailure hfates
  · have hshort : ∀ b ∈ [f, g], b.length < 2 ^ 32 := by
      rintro b (_ | ⟨_, _ | ⟨_, ⟨⟩⟩⟩)
      · exact hfl
      · exact hgl
    rw [eachAlone_eq _ _ hshort]
    exact congrArg (List.flatMap Fate.effects) hfates

end RelayNode

end VeilFabric
