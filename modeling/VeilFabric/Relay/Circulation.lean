import VeilFabric.Relay.Node
import VeilFabric.Lib.Transition

/-!
# How far one frame travels

There is no hop counter in a frame and no loop check in a relay. What bounds the travels of a frame is its
length: each peel takes 63 bytes and the next hop's address off it (`peel_forward_length`), whatever the frame
holds and whoever made it. The relays here are of any number, with any keypairs, and `route` is any way in
which a relay's next hop leads to a relay, or to none.
-/

namespace VeilFabric
open Wire

variable {P : Primitives}

/-- **What a peel takes off.** -/
theorem peel_forward_length {keypair : KeyPair P} {frame : Bytes} {nextHop : String} {body : Bytes}
    (h : peelOnionLayer P keypair frame = .ok (.forward nextHop body)) :
    body.length + (utf8 nextHop).length + 63 = frame.length := by
  have hsizes : EPHEMERAL_KEY_SIZE + NONCE_SIZE = 44 ∧ TAG_SIZE = 16 := ⟨rfl, rfl⟩
  unfold peelOnionLayer at h
  split at h
  · cases h
  · rename_i hlong
    simp only at h
    split at h
    · cases h
    · split at h
      · cases h
      · rename_i plaintext hplain
        have hdec := P.decrypt_length hplain
        have henc := congrArg List.length (decodePayload_ok h).1
        rw [encodePayload_forward_length] at henc
        rw [List.length_drop] at hdec
        omega

/-- A frame read from a stream is a part of it, with its length field. -/
theorem length_le_of_mem_readFrames {stream frame : Bytes} (h : frame ∈ readFrames stream) :
    4 + frame.length ≤ stream.length := by
  induction hn : stream.length using Nat.strong_induction_on generalizing stream with
  | _ n ih =>
    cases hread : readFrame stream with
    | none =>
      rw [readFrames_none hread] at h
      cases h
    | some p =>
      obtain ⟨f, rest⟩ := p
      have hlen := congrArg List.length (Wire.readFrame_some hread).1
      rw [List.length_append, Wire.writeFrame_length] at hlen
      rw [readFrames_some hread] at h
      rcases List.mem_cons.1 h with rfl | h
      · omega
      · have hshort := Wire.readFrame_shorter (by decide) hread
        have hrest := ih rest.length (by omega) h rfl
        omega

section Travel
variable {R : Type} (keypair : R → KeyPair P) (route : R → String → Option R)

/-- A relay forwards: it peels the frame it holds and writes the body to the next hop, which reads it from the
connection (node.rs:104-126). -/
def Forwards (x y : R × Bytes) : Prop :=
  ∃ nextHop body, peelOnionLayer P (keypair x.1) x.2 = .ok (.forward nextHop body) ∧
    route x.1 nextHop = some y.1 ∧ y.2 ∈ readFrames (writeFrame body)

/-- The travels are over: the relay delivers the frame, cannot peel it, or cannot reach its next hop. -/
def Ended (x : R × Bytes) : Prop :=
  (∃ body, peelOnionLayer P (keypair x.1) x.2 = .ok (.deliver body)) ∨
  (∃ e, peelOnionLayer P (keypair x.1) x.2 = .error e) ∨
  ∃ nextHop body, peelOnionLayer P (keypair x.1) x.2 = .ok (.forward nextHop body) ∧ route x.1 nextHop = none

variable {keypair route}

theorem Forwards.shorter {x y : R × Bytes} (h : Forwards keypair route x y) : y.2.length + 63 ≤ x.2.length := by
  obtain ⟨nextHop, body, hpeel, -, hread⟩ := h
  have hbody := peel_forward_length hpeel
  have hframe := length_le_of_mem_readFrames hread
  rw [writeFrame, Wire.writeFrame_length] at hframe
  omega

theorem ended_of_stuck {x : R × Bytes} (h : ∀ y, ¬ Forwards keypair route x y) : Ended keypair route x := by
  cases hpeel : peelOnionLayer P (keypair x.1) x.2 with
  | error e => exact .inr (.inl ⟨e, hpeel⟩)
  | ok payload =>
    cases payload with
    | deliver body => exact .inl ⟨body, hpeel⟩
    | forward nextHop body =>
      refine .inr (.inr ⟨nextHop, body, hpeel, ?_⟩)
      cases hroute : route x.1 nextHop with
      | none => rfl
      | some r =>
        have hread := Wire.readFrame_writeFrame_mod 4 body []
        rw [List.append_nil] at hread
        refine absurd ⟨nextHop, body, hpeel, hroute, ?_⟩ (h (r, body.take (body.length % 256 ^ 4)))
        rw [show readFrames (writeFrame body) = _ from readFrames_some hread]
        exact List.mem_cons_self

end Travel

open Transition in
/-- **Every frame dies out.** For any relays with any keypairs, any assignment of next hops to relays and any
injected frame: a peel that yields a next hop takes 63 bytes and the address off the frame; so a frame is
forwarded at most `len / 63` times, however the route runs, and every chain of forwards can be continued to
one that ends in a delivery or an error. There is no infinite one. -/
theorem frame_dies_out {R : Type} (keypair : R → KeyPair P) (route : R → String → Option R) (r : R) (frame : Bytes) :
    (∀ (kp : KeyPair P) (f : Bytes) nextHop body, peelOnionLayer P kp f = .ok (.forward nextHop body) →
      body.length + (utf8 nextHop).length + 63 = f.length) ∧
    (∀ n x, Chain (Forwards keypair route) n (r, frame) x →
      n ≤ frame.length / 63 ∧
      ∃ n' y, n ≤ n' ∧ n' ≤ frame.length / 63 ∧ Chain (Forwards keypair route) n' (r, frame) y ∧
        Ended keypair route y) ∧
    ∀ f : Nat → R × Bytes, f 0 = (r, frame) → ¬ ∀ k, Forwards keypair route (f k) (f (k + 1)) := by
  have hbound : ∀ n x, Chain (Forwards keypair route) n (r, frame) x → n ≤ frame.length / 63 := by
    intro n x h
    exact h.length_le (m := fun x => x.2.length) (by decide) fun _ _ => Forwards.shorter
  refine ⟨fun _ _ _ _ => peel_forward_length, fun n x h => ⟨hbound n x h, ?_⟩, fun f h0 hrun => ?_⟩
  · obtain ⟨n', y, hn, hy, hend⟩ :=
      h.exists_end (m := fun x => x.2.length) (k := 63) (by decide) fun _ _ => Forwards.shorter
    exact ⟨n', y, hn, hbound n' y hy, hy, ended_of_stuck hend⟩
  · have hlong := Chain.of_run hrun (frame.length / 63 + 1)
    rw [h0] at hlong
    have hle := hbound _ _ hlong
    omega

end VeilFabric
