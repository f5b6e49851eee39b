import VeilFabric.Relay.Node
import VeilFabric.Lib.Codec

/-!
# The frame reader inside `handle_connection` (`veil-relay/src/node.rs:104-121`)

`handle_connection` does not call `read_frame`: it has a copy of its code, in which an end of the stream inside
the length is no error. `tracedConnection` is `handle_connection` with a record of the frames it read
(`tracedConnection_eq`), and `traced_frames` says which these are: those `read_frame` yields one after the other,
up to the first whose forward fails.

A length-prefixed frame is a format (`Codec.frame`), so a stream of them that is cut anywhere is a shorter list of
whole frames and an incomplete one, which neither reader hands over (`readFrames_cut`).
-/

namespace VeilFabric
open Wire

variable {P : Primitives}

namespace RelayNode

/-- `handle_connection` (node.rs:96) once more, with the frames it has read. -/
def tracedConnection (self : RelayNode P) (net : Nat → Answers) (stream : Bytes) :
    List Bytes × RelayNode P × List Effect × Except RelayError Unit :=
  if _ : stream.length < 4 then ([], self, [], .ok ())
  else
    let len := beVal (stream.take 4)
    let rest := stream.drop 4
    if rest.length < len then ([], self, [], .error (.io ⟨"early eof"⟩))
    else
      match self.handleFrame (net 0) (rest.take len) with
      | (self, out, .error e) => ([rest.take len], self, out, .error e)
      | (self, out, .ok ()) =>
        let (frames, self, more, result) := self.tracedConnection (later net) (rest.drop len)
        (rest.take len :: frames, self, out ++ more, result)
termination_by stream.length
decreasing_by simp only [List.length_drop]; omega

/-- One turn of the traced loop, in terms of `read_frame`. -/
theorem tracedConnection_read (self : RelayNode P) (net : Nat → Answers) (stream : Bytes) :
    (readFrame stream = none ∧ (self.tracedConnection net stream).1 = [] ∧
      (self.tracedConnection net stream).2 = self.handleConnection net stream) ∨
    ∃ frame rest, readFrame stream = some (frame, rest) ∧ self.tracedConnection net stream =
      match self.handleFrame (net 0) frame with
      | (self, out, .error e) => ([frame], self, out, .error e)
      | (self, out, .ok ()) =>
        (frame :: (self.tracedConnection (later net) rest).1, (self.tracedConnection (later net) rest).2.1,
          out ++ (self.tracedConnection (later net) rest).2.2.1, (self.tracedConnection (later net) rest).2.2.2) := by
  rw [tracedConnection, handleConnection]
  unfold readFrame Wire.readFrame
  by_cases h4 : stream.length < 4
  · exact .inl ⟨by simp [h4], by simp [h4], by simp [h4]⟩
  · by_cases hlen : (stream.drop 4).length < beVal (stream.take 4)
    · refine .inl ⟨?_, ?_, ?_⟩
      · simp only [h4, hlen, if_false, if_true]
      · simp only [h4, hlen, if_true, dite_false]
      · simp only [h4, hlen, if_true, dite_false]
    · refine .inr ⟨(stream.drop 4).take (beVal (stream.take 4)), (stream.drop 4).drop (beVal (stream.take 4)), ?_, ?_⟩
      · simp only [h4, hlen, if_false]
      · simp only [h4, hlen, if_false, dite_false]

/-- The record changes nothing. -/
theorem tracedConnection_eq (self : RelayNode P) (net : Nat → Answers) (stream : Bytes) :
    (self.tracedConnection net stream).2 = self.handleConnection net stream := by
  induction hn : stream.length using Nat.strong_induction_on generalizing self net stream with
  | _ n ih =>
    rcases self.tracedConnection_read net stream with ⟨-, -, heq⟩ | ⟨frame, rest, hread, heq⟩
    · exact heq
    · rcases self.handleConnection_read net stream with ⟨hnone, -⟩ | ⟨frame', rest', hread', hconn⟩
      · rw [hread] at hnone
        cases hnone
      · rw [hread] at hread'
        cases hread'
        rw [heq, hconn]
        generalize self.handleFrame (net 0) frame = r
        obtain ⟨self', out, result⟩ := r
        cases result with
        | error e => rfl
        | ok u =>
          have hrest := ih rest.length (hn ▸ Wire.readFrame_shorter (by decide) hread) self' (later net) rest rfl
          simp only [hrest]

/-- The frames up to the first whose forward fails. -/
def readUntilFailure (keypair : KeyPair P) : Finset String → (Nat → Answers) → List Bytes → List Bytes
  | _, _, [] => []
  | pool, net, f :: fs =>
    if (fateOf keypair pool (net 0) f).failure.isSome then [f]
    else f :: readUntilFailure keypair (poolAfter keypair pool (net 0) f) (later net) fs

theorem readUntilFailure_isInitial (keypair : KeyPair P) (pool : Finset String) (net : Nat → Answers)
    (frames : List Bytes) : readUntilFailure keypair pool net frames <+: frames := by
  induction frames generalizing pool net with
  | nil => exact List.nil_prefix
  | cons f fs ih =>
    rw [readUntilFailure]
    split
    · exact ⟨fs, rfl⟩
    · exact (List.prefix_cons_inj f).2 (ih _ _)

theorem readUntilFailure_eq {keypair : KeyPair P} {pool : Finset String} {net : Nat → Answers} {frames : List Bytes}
    (h : ∀ x ∈ fates keypair pool net frames, x.failure = none) : readUntilFailure keypair pool net frames = frames := by
  induction frames generalizing pool net with
  | nil => rfl
  | cons f fs ih =>
    rw [fates, List.forall_mem_cons] at h
    rw [readUntilFailure, h.1, if_neg (by simp), ih h.2]

/-- **Which frames a connection reads**: what `read_frame` yields over and over, up to the first failing
forward. -/
theorem traced_frames (self : RelayNode P) (net : Nat → Answers) (stream : Bytes) :
    (self.tracedConnection net stream).1 = readUntilFailure self.keypair self.outbound net (readFrames stream) := by
  induction hn : stream.length using Nat.strong_induction_on generalizing self net stream with
  | _ n ih =>
    rcases self.tracedConnection_read net stream with ⟨hread, hnil, -⟩ | ⟨frame, rest, hread, heq⟩
    · rw [hnil, readFrames_none hread]
      rfl
    · obtain ⟨hk, hpool, hout⟩ := self.handleFrame_eq (net 0) frame
      generalize self.handleFrame (net 0) frame = r at heq hk hpool hout
      obtain ⟨self', out, result⟩ := r
      cases hout
      have hrest := ih rest.length (hn ▸ Wire.readFrame_shorter (by decide) hread) self' (later net) rest rfl
      rw [readFrames_some hread, heq, readUntilFailure]
      unfold Fate.result
      cases (fateOf self.keypair self.outbound (net 0) frame).failure with
      | some e => rfl
      | none =>
        simp only at hk hpool
        simp only [hrest, hk, hpool, Option.isSome_none, Bool.false_eq_true, if_false]

end RelayNode

/-! ## Streams of written frames -/

theorem readFrames_flatMap {bodies : List Bytes} (h : ∀ b ∈ bodies, b.length < 2 ^ 32) :
    readFrames (bodies.flatMap writeFrame) = bodies := by
  induction bodies with
  | nil => exact readFrames_none rfl
  | cons b bodies ih =>
    rw [List.flatMap_cons, readFrames_append (h b (by simp)), ih fun c hc => h c (by simp [hc])]

/-- A stream of frames that is cut: the whole frames are read, the incomplete one is not. -/
theorem readFrames_cut {bodies : List Bytes} (h : ∀ b ∈ bodies, b.length < 2 ^ 32) {s : Bytes}
    (hs : s <+: bodies.flatMap writeFrame) : readFrames s <+: bodies := by
  induction bodies generalizing s with
  | nil =>
    obtain rfl := List.prefix_nil.1 hs
    rw [readFrames_none rfl]
  | cons b bodies ih =>
    rcases Codec.prefix_of_flatMap (C := Codec.frame 4) hs with ⟨t, ht, hcut⟩ | ⟨s', rfl, hs'⟩
    · have hnone : readFrame s = none := Codec.decode_cut (C := Codec.frame 4) (h b (by simp)) hcut ht
      rw [readFrames_none hnone]
      exact List.nil_prefix
    · have hread : readFrames (writeFrame b ++ s') = b :: readFrames s' := readFrames_append (h b (by simp)) s'
      rw [show (Codec.frame 4).encode b ++ s' = writeFrame b ++ s' from rfl, hread]
      exact (List.prefix_cons_inj b).2 (ih (fun c hc => h c (by simp [hc])) hs')

/-- A connection whose frames are all whole ends without an error. -/
theorem RelayNode.handleConnection_whole (self : RelayNode P) (net : Nat → Answers) {bodies : List Bytes}
    (h : ∀ b ∈ bodies, b.length < 2 ^ 32)
    (hd : ∀ x ∈ fates self.keypair self.outbound net bodies, x.failure = none) :
    (self.handleConnection net (bodies.flatMap writeFrame)).2.2 = .ok () := by
  induction bodies generalizing self net with
  | nil =>
    rw [List.flatMap_nil, handleConnection]
    rfl
  | cons b bodies ih =>
    have hread : readFrame ((b :: bodies).flatMap writeFrame) = some (b, bodies.flatMap writeFrame) :=
      Wire.readFrame_writeFrame (h b (by simp)) _
    obtain ⟨self', hk, hpool, heq⟩ := self.handleConnection_frame net hread
    rw [fates, List.forall_mem_cons] at hd
    rw [heq, hd.1]
    refine ih self' (later net) (fun c hc => h c (by simp [hc])) ?_
    rw [hk, hpool]
    exact hd.2

/-- **The two frame readers agree, and neither loses its place.** While no forward fails a connection reads the
frames that `read_frame` yields until it errs; on frames written one after the other it reads these and ends
without an error; and on any beginning of such a stream it reads the first of them, each whole. -/
theorem RelayNode.frame_readers_agree (self : RelayNode P) (net : Nat → Answers) :
    (∀ stream, (self.tracedConnection net stream).2 = self.handleConnection net stream) ∧
    (∀ stream, (self.tracedConnection net stream).1 <+: readFrames stream ∧
      ((∀ x ∈ fates self.keypair self.outbound net (readFrames stream), x.failure = none) →
        (self.tracedConnection net stream).1 = readFrames stream)) ∧
    (∀ bodies : List Bytes, (∀ b ∈ bodies, b.length < 2 ^ 32) →
      (∀ x ∈ fates self.keypair self.outbound net bodies, x.failure = none) →
      (self.tracedConnection net (bodies.flatMap writeFrame)).1 = bodies ∧
      (self.handleConnection net (bodies.flatMap writeFrame)).2.2 = .ok ()) ∧
    ∀ bodies : List Bytes, (∀ b ∈ bodies, b.length < 2 ^ 32) → ∀ s, s <+: bodies.flatMap writeFrame →
      (self.tracedConnection net s).1 <+: bodies := by
  refine ⟨self.tracedConnection_eq net, ?_, ?_, ?_⟩
  · intro stream
    rw [traced_frames]
    exact ⟨readUntilFailure_isInitial _ _ _ _, readUntilFailure_eq⟩
  · intro bodies h hd
    refine ⟨?_, self.handleConnection_whole net h hd⟩
    rw [traced_frames, readFrames_flatMap h, readUntilFailure_eq hd]
  · intro bodies h s hs
    rw [traced_frames]
    exact (readUntilFailure_isInitial _ _ _ _).trans (readFrames_cut h hs)

end VeilFabric
