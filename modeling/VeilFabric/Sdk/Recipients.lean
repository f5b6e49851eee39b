import VeilFabric.Relay.Mailbox
import VeilFabric.Sdk.Receiver
import VeilFabric.Lib.Transition
import Mathlib.Data.Multiset.Bind
import Mathlib.Tactic.Abel

/-!
# Several clients pulling the same mailboxes

Mailboxes are shared and unaddressed: "any client that connects and asks receives *every* currently queued
cell" (mailbox.rs:4). Here any number of clients pull any number of relays while cells keep being pushed.
A pull is three steps, the request, `handle_request` at the relay, and the response reaching the client,
and the steps of all clients interleave freely; there is no network failure, and clients have the memory their
pulls ask for (`pulled`).

`envelope_accounted` is what the design gives: every envelope ever pushed is in exactly one place, still
queued, in a response under way to one client, or returned by one client's pull. Which client that is, is
decided by who asks first (`eavesdropper_takes_envelope`).
-/

namespace VeilFabric
open Wire

/-- A response to a PULL request, under way. -/
structure InTransit (Client Relay : Type) where
  client : Client
  relay : Relay
  bytes : Bytes

/-- What a pull returned to its caller. -/
structure Pulled (Client Relay : Type) where
  client : Client
  relay : Relay
  cells : List Bytes

structure MailboxNet (Client Relay : Type) where
  queue : Relay → Mailbox
  requests : Multiset (Client × Relay)
  transit : Multiset (InTransit Client Relay)
  obtained : Multiset (Pulled Client Relay)
  /-- Everything ever pushed, by mailbox. -/
  pushed : Relay → List Bytes

namespace MailboxNet
variable {Client Relay : Type} [DecidableEq Relay]

/-- Nothing pushed, nobody pulling. -/
def initial : MailboxNet Client Relay := ⟨fun _ => [], 0, 0, 0, fun _ => []⟩

/-- A delivered body came out of a frame, so it is shorter than 2³² bytes; a mailbox stays below the 2³² cells
that the count of a response can name. -/
inductive Step (identity : Relay → RelayIdentity) : MailboxNet Client Relay → MailboxNet Client Relay → Prop
  | push (s : MailboxNet Client Relay) (m : Relay) (cell : Bytes) : cell.length < 2 ^ 32 →
      (s.queue m).length + 1 < 2 ^ 32 →
      Step identity s { s with
        queue := Function.update s.queue m ((s.queue m).push cell)
        pushed := Function.update s.pushed m (s.pushed m ++ [cell]) }
  | request (s : MailboxNet Client Relay) (c : Client) (m : Relay) :
      Step identity s { s with requests := (c, m) ::ₘ s.requests }
  | serve (s : MailboxNet Client Relay) (c : Client) (m : Relay) (requests : Multiset (Client × Relay)) :
      s.requests = (c, m) ::ₘ requests →
      Step identity s { s with
        requests
        queue := Function.update s.queue m (handleRequest PULL_REQUEST_BYTE (s.queue m) (identity m)).1
        transit := ⟨c, m, (handleRequest PULL_REQUEST_BYTE (s.queue m) (identity m)).2⟩ ::ₘ s.transit }
  | arrive (s : MailboxNet Client Relay) (r : InTransit Client Relay) (transit : Multiset (InTransit Client Relay))
      (cells : List Bytes) : s.transit = r ::ₘ transit → pulled r.bytes = some cells →
      Step identity s { s with transit, obtained := ⟨r.client, r.relay, cells⟩ ::ₘ s.obtained }

def system (identity : Relay → RelayIdentity) : Transition.System (MailboxNet Client Relay) :=
  ⟨fun s => s = initial, Step identity⟩

/-! ## Where an envelope can be -/

/-- The cells of `m` in a response: what `pull` will read in it. -/
def InTransitFrom (m : Relay) (r : InTransit Client Relay) : Multiset Bytes :=
  if r.relay = m then ↑((pulled r.bytes).getD []) else 0

def PulledFrom (m : Relay) (p : Pulled Client Relay) : Multiset Bytes := if p.relay = m then ↑p.cells else 0

/-- A response to `c` carries `e` from `m`. -/
def InTransitTo (s : MailboxNet Client Relay) (c : Client) (m : Relay) (e : Bytes) : Prop :=
  ∃ r ∈ s.transit, r.client = c ∧ e ∈ InTransitFrom m r

/-- A pull of `m` made by `c` returned `e`. -/
def ObtainedBy (s : MailboxNet Client Relay) (c : Client) (m : Relay) (e : Bytes) : Prop :=
  ∃ p ∈ s.obtained, p.client = c ∧ e ∈ PulledFrom m p

/-- Each pushed envelope is in exactly one place. -/
structure Accounted (s : MailboxNet Client Relay) : Prop where
  count : ∀ m, (s.queue m).length < 2 ^ 32
  short : ∀ m, ∀ e ∈ s.queue m, e.length < 2 ^ 32
  place : ∀ m, (↑(s.pushed m) : Multiset Bytes) =
    ↑(s.queue m) + s.transit.bind (InTransitFrom m) + s.obtained.bind (PulledFrom m)

theorem accounted_initial : Accounted (initial : MailboxNet Client Relay) where
  count m := by simp [initial]
  short m e he := by simp [initial] at he
  place m := by simp [initial]

/-- Every step moves envelopes from one place to the next. -/
theorem accounted_step {identity : Relay → RelayIdentity} {s t : MailboxNet Client Relay} (h : Accounted s)
    (hst : Step identity s t) : Accounted t := by
  cases hst with
  | push m cell hcell hcount =>
    refine ⟨fun m' => ?_, fun m' e he => ?_, fun m' => ?_⟩
    · by_cases hm : m' = m
      · subst hm; simpa [Mailbox.push] using hcount
      · simpa [hm] using h.count m'
    · by_cases hm : m' = m
      · subst hm
        simp only [Function.update_self, Mailbox.push, List.mem_append, List.mem_singleton] at he
        rcases he with he | rfl
        · exact h.short m' e he
        · exact hcell
      · simp only [Function.update_of_ne hm] at he
        exact h.short m' e he
    · by_cases hm : m' = m
      · subst hm
        simp only [Function.update_self, Mailbox.push, ← Multiset.coe_add, h.place m']
        abel
      · simpa [hm] using h.place m'
  | request c m => exact ⟨h.count, h.short, h.place⟩
  | serve c m requests hreq =>
    obtain ⟨hempty, hread⟩ := pulled_handleRequest (h.count m) (h.short m) (identity m)
    refine ⟨fun m' => ?_, fun m' e he => ?_, fun m' => ?_⟩
    · by_cases hm : m' = m
      · subst hm; simp [hempty]
      · simpa [hm] using h.count m'
    · by_cases hm : m' = m
      · subst hm; simp [hempty] at he
      · simp only [Function.update_of_ne hm] at he
        exact h.short m' e he
    · rw [Multiset.cons_bind, h.place m']
      by_cases hm : m' = m
      · subst hm
        simp [InTransitFrom, hempty, hread]
      · simp [InTransitFrom, hm, Ne.symm hm]
  | arrive r transit cells htransit hpull =>
    refine ⟨h.count, h.short, fun m' => ?_⟩
    have hplace := h.place m'
    rw [htransit, Multiset.cons_bind] at hplace
    rw [Multiset.cons_bind, hplace]
    simp only [InTransitFrom, PulledFrom, hpull, Option.getD_some]
    abel

theorem reachable_accounted {identity : Relay → RelayIdentity} {s : MailboxNet Client Relay}
    (h : (system identity).Reachable s) : Accounted s := by
  refine h.invariant (I := Accounted) ?_ fun _ _ hs (hst : Step identity _ _) => accounted_step hs hst
  rintro _ rfl
  exact accounted_initial

/-- **Every pushed envelope is accounted for.** In every reachable state of any number of clients pulling any
relays, the envelopes ever pushed to a mailbox are, each exactly once, those still queued there, those in a
response under way to some client and those some client's pull returned. So an envelope stays available
to `R`, queued, under way to `R` or obtained by `R`, unless the pull of another client drained it. -/
theorem envelope_accounted (identity : Relay → RelayIdentity) (s : MailboxNet Client Relay)
    (hs : (system identity).Reachable s) (m : Relay) :
    (↑(s.pushed m) : Multiset Bytes) =
      ↑(s.queue m) + s.transit.bind (InTransitFrom m) + s.obtained.bind (PulledFrom m) ∧
    ∀ R e, e ∈ s.pushed m → (∀ c, c ≠ R → ¬ s.InTransitTo c m e ∧ ¬ s.ObtainedBy c m e) →
      e ∈ s.queue m ∨ s.InTransitTo R m e ∨ s.ObtainedBy R m e := by
  have hplace := (reachable_accounted hs).place m
  refine ⟨hplace, fun R e he hothers => ?_⟩
  have hmem : e ∈ (↑(s.pushed m) : Multiset Bytes) := he
  rw [hplace, Multiset.mem_add, Multiset.mem_add, Multiset.mem_bind, Multiset.mem_bind] at hmem
  rcases hmem with (hq | ⟨r, hr, her⟩) | ⟨p, hp, hep⟩
  · exact .inl hq
  · by_cases hc : r.client = R
    · exact .inr (.inl ⟨r, hr, hc, her⟩)
    · exact absurd ⟨r, hr, rfl, her⟩ (hothers r.client hc).1
  · by_cases hc : p.client = R
    · exact .inr (.inr ⟨p, hp, hc, hep⟩)
    · exact absurd ⟨p, hp, rfl, hep⟩ (hothers p.client hc).2

/-! ## One mailbox, one envelope -/

/-- `e` was pushed to the only mailbox, and the pull of `c` has drained it and returned. -/
def takenState (c : Client) (e : Bytes) : MailboxNet Client Unit where
  queue := Function.update (Function.update (fun _ => []) () [e]) () []
  requests := 0
  transit := 0
  obtained := {⟨c, (), [e]⟩}
  pushed := Function.update (fun _ => []) () [e]

theorem takenState_reachable (identity : Unit → RelayIdentity) (c : Client) {e : Bytes} (he : e.length < 2 ^ 32) :
    (system identity).Reachable (takenState c e) := by
  have hread := (@pulled_handleRequest [e] (by simp) (by simpa using he) (identity ())).2
  have h0 : (system identity).Reachable (initial : MailboxNet Client Unit) := .init rfl
  have h1 := h0.step (Step.push initial () e he (by simp [initial]))
  have h2 := h1.step (Step.request _ c ())
  have h3 := h2.step (Step.serve _ c () 0 rfl)
  have h4 := h3.step (Step.arrive _ _ 0 [e] rfl (by simpa [initial, Mailbox.push] using hread))
  simpa [takenState, initial, Mailbox.push, handleRequest, Mailbox.drain] using h4

theorem envelope_accounted_taken : (takenState true [7]).ObtainedBy true () [7] := by
  have hreach := takenState_reachable (fun _ => ⟨"exit", flatKey 1, "127.0.0.1:9002"⟩) true
    (show ([7] : Bytes).length < 2 ^ 32 by decide)
  have h := (envelope_accounted _ (takenState true [7]) hreach ()).2 true [7] (by simp [takenState]) ?_
  · simpa [takenState, InTransitTo] using h
  · rintro c hc
    refine ⟨by simp [InTransitTo, takenState], ?_⟩
    rintro ⟨p, hp, rfl, -⟩
    rw [Multiset.mem_singleton.1 hp] at hc
    exact hc rfl

/-- Another key than the recipient's does not open the envelope of `b"hi"`. -/
theorem hi_envelope_closed {data : Arr ENCRYPTED_CELL_SIZE}
    (henc : encryptCell .toy (flatKey 1) (Arr.zeros 12) SentMessage.hiCell = .ok data) :
    openEnvelope (.ofSecret (flatKey 2) : KeyPair .toy) (Envelope.wrap (flatKey 1) data).1 = none := by
  obtain ⟨ct, hct, hdata⟩ := encryptCell_ok henc
  cases hct
  by_contra hsome
  obtain ⟨c, hc⟩ := Option.ne_none_iff_exists'.1 hsome
  obtain ⟨senderPublic, encrypted, key, hunwrap, hkey, hdec⟩ := openEnvelope_some hc
  rw [Envelope.unwrap_wrap] at hunwrap
  cases hunwrap
  cases hkey
  obtain ⟨buf, hbuf, -⟩ := decryptCell_ok hdec
  have hdrop : data.1.drop NONCE_SIZE = (toyTag (flatKey 1)).1 ++ SentMessage.hiCell.toBytes.1 := by
    rw [hdata]
    exact List.drop_left' (Arr.length_val _)
  have htake : ((toyTag (flatKey 1)).1 ++ SentMessage.hiCell.toBytes.1).take TAG_SIZE = (toyTag (flatKey 1)).1 :=
    List.take_left' (Arr.length_val _)
  rw [hdrop, Primitives.toy_decrypt_none (by rw [htake]; decide)] at hbuf
  cases hbuf

/-- An envelope for one identity is drained by the pull of another, who cannot open it: it is neither queued nor
with its recipient any more. -/
theorem eavesdropper_takes_envelope : ∃ e,
    openEnvelope (.ofSecret (flatKey 0) : KeyPair .toy) e = some SentMessage.hiCell ∧
    openEnvelope (.ofSecret (flatKey 2) : KeyPair .toy) e = none ∧
    ∃ s : MailboxNet (KeyPair .toy) Unit,
      (system fun _ => ⟨"exit", flatKey 1, "127.0.0.1:9002"⟩).Reachable s ∧ e ∈ s.pushed () ∧
      ¬ (e ∈ s.queue () ∨ s.InTransitTo (.ofSecret (flatKey 0)) () e ∨ s.ObtainedBy (.ofSecret (flatKey 0)) () e) := by
  obtain ⟨data, henc, hopen⟩ := envelope_opens (SentMessage.hi.frag.wf SentMessage.hiCell (by simp [SentMessage.hi]))
  have hclosed := hi_envelope_closed henc
  have hlen : (Envelope.wrap (flatKey 1) data).1.length < 2 ^ 32 := by rw [Arr.length_val]; decide
  generalize (Envelope.wrap (flatKey 1) data).1 = e at hopen hclosed hlen
  refine ⟨e, hopen, hclosed, takenState (.ofSecret (flatKey 2)) e, takenState_reachable _ _ hlen, ?_, ?_⟩
  · simp [takenState]
  · rintro (hq | ⟨r, hr, -⟩ | ⟨p, hp, hc, -⟩)
    · simp [takenState] at hq
    · simp [takenState] at hr
    · rw [Multiset.mem_singleton.1 hp] at hc
      exact absurd (congrArg KeyPair.secret hc) (show flatKey 2 ≠ flatKey 0 by decide)

end MailboxNet
end VeilFabric
