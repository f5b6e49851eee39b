import VeilFabric.Sdk.Client

/-!
# Receiving (`veil-sdk/src/receiver.rs`)

| here | there |
| --- | --- |
| `PullOutcome`        | what `pull_listener::pull` returned for one address |
| `openEnvelope`       | the body of the inner loop of `receive` (receiver.rs:42-56) |
| `receive`            | `receive` (receiver.rs:33), over the outcomes of its pulls in order |
| `Receiver.poll`      | `Receiver::poll` (receiver.rs:95); `none` is a panic of the reassembler |

A pull that succeeded has emptied the mailbox, whatever becomes of the rest of the poll: `drained` are the
envelopes a poll removed, `insertCalls` the cells it handed to the reassembler. `run_spec` reduces a whole
sequence of polls to one stream of inserts.

* `received_messages_were_sent` — under an ideal channel every byte string a poll ever returns is one
  message passed to `send`, whatever the relays hand back.
* `drained_cells_inserted_iff` — a poll inserts all it drained iff no pull fails after some envelope of
  this identity was drained. The error path returns before anything is inserted.
-/

namespace VeilFabric
open Wire

inductive ReceiveError where
  | io (e : IoError)
deriving DecidableEq

abbrev PullOutcome := Except IoError (List Bytes)

variable {P : Primitives}

/-- One raw envelope: unwrap, derive the key, decrypt; any failure discards it (receiver.rs:42-56). -/
def openEnvelope (identity : KeyPair P) (raw : Bytes) : Option Cell :=
  match Envelope.unwrap raw with
  | .error _ => none
  | .ok (senderPublic, encrypted) =>
    match deriveKey P (identity.diffieHellman senderPublic) SESSION_KEY_CONTEXT with
    | .error _ => none
    | .ok key => (decryptCell P key encrypted).toOption

/-- The loop over the addresses (receiver.rs:39-58). -/
def receiveLoop (identity : KeyPair P) : (decrypted : List Cell) → List PullOutcome → Except ReceiveError (List Cell)
  | decrypted, [] => .ok decrypted
  | _, .error e :: _ => .error (.io e)
  | decrypted, .ok envelopes :: pulls =>
    receiveLoop identity (decrypted ++ envelopes.filterMap (openEnvelope identity)) pulls

/-- `receive` (receiver.rs:33). -/
def receive (identity : KeyPair P) (pulls : List PullOutcome) : Except ReceiveError (List Cell) :=
  receiveLoop identity [] pulls

structure Receiver (P : Primitives) where
  identity : KeyPair P
  reassembler : Reassembler

namespace Receiver

/-- `Receiver::new` (receiver.rs:80). -/
def new (identity : KeyPair P) : Receiver P := ⟨identity, Reassembler.new⟩

/-- `Receiver::poll` (receiver.rs:95). -/
def poll (self : Receiver P) (pulls : List PullOutcome) : Option (Receiver P × Except ReceiveError (List Bytes)) :=
  match receive self.identity pulls with
  | .error e => some (self, .error e)
  | .ok cells => do
    let (reassembler, results) ← self.reassembler.insertAll cells
    return ({ self with reassembler }, .ok (returned results))

/-- Polls one after the other. -/
def run : Receiver P → List (List PullOutcome) → Option (Receiver P × List (Except ReceiveError (List Bytes)))
  | self, [] => some (self, [])
  | self, pulls :: polls => do
    let (self, o) ← self.poll pulls
    let (self, os) ← self.run polls
    return (self, o :: os)

end Receiver

/-- Every byte string a sequence of polls returned. -/
def messages (outs : List (Except ReceiveError (List Bytes))) : List Bytes :=
  outs.flatMap fun o => o.toOption.getD []

/-! ## What a poll drains and what it inserts -/

/-- The envelopes that the successful pulls of one poll removed from the mailboxes; `receive` makes no pull
after one that failed. -/
def drained : List PullOutcome → List Bytes
  | [] => []
  | .error _ :: _ => []
  | .ok envelopes :: pulls => envelopes ++ drained pulls

/-- The cells among these that decrypt under the identity. -/
def drainedCells (identity : KeyPair P) (pulls : List PullOutcome) : List Cell :=
  (drained pulls).filterMap (openEnvelope identity)

/-- The cells on which a poll calls `insert`. -/
def insertCalls (identity : KeyPair P) (pulls : List PullOutcome) : List Cell :=
  (receive identity pulls).toOption.getD []

theorem receiveLoop_eq (identity : KeyPair P) (decrypted : List Cell) (pulls : List PullOutcome) :
    (receiveLoop identity decrypted pulls = .ok (decrypted ++ drainedCells identity pulls) ∧ ∀ e, .error e ∉ pulls) ∨
    ∃ e, receiveLoop identity decrypted pulls = .error e ∧ ∃ e, .error e ∈ pulls := by
  induction pulls generalizing decrypted with
  | nil => exact .inl ⟨by simp [receiveLoop, drainedCells, drained], by simp⟩
  | cons p pulls ih =>
    cases p with
    | error e => exact .inr ⟨_, rfl, e, by simp⟩
    | ok envelopes =>
      rcases ih (decrypted ++ envelopes.filterMap (openEnvelope identity)) with ⟨h, hno⟩ | ⟨e, h, e', he'⟩
      · refine .inl ⟨?_, by simpa using hno⟩
        rw [receiveLoop, h]
        simp [drainedCells, drained]
      · exact .inr ⟨e, h, e', by simp [he']⟩

/-- `receive` either returns all it drained, or fails because some pull did. -/
theorem receive_eq (identity : KeyPair P) (pulls : List PullOutcome) :
    (receive identity pulls = .ok (drainedCells identity pulls) ∧ ∀ e, .error e ∉ pulls) ∨
    ∃ e, receive identity pulls = .error e ∧ ∃ e, .error e ∈ pulls := receiveLoop_eq identity [] pulls

/-- The pulls of a poll, had they handed over only some of their envelopes. -/
def keepEnvelopes (keep : Bytes → Bool) (pulls : List PullOutcome) : List PullOutcome :=
  pulls.map (Except.map (List.filter keep))

theorem receiveLoop_keepEnvelopes (identity : KeyPair P) (keep : Bytes → Bool) (pulls : List PullOutcome)
    (decrypted decrypted' : List Cell) :
    receiveLoop identity decrypted (keepEnvelopes keep pulls) =
      (receiveLoop identity decrypted' pulls).map fun _ =>
        decrypted ++ ((drained pulls).filter keep).filterMap (openEnvelope identity) := by
  induction pulls generalizing decrypted decrypted' with
  | nil => simp [keepEnvelopes, receiveLoop, drained, Except.map]
  | cons p pulls ih =>
    cases p with
    | error e => rfl
    | ok envelopes =>
      have h := ih (decrypted ++ (envelopes.filter keep).filterMap (openEnvelope identity))
        (decrypted' ++ envelopes.filterMap (openEnvelope identity))
      rw [List.append_assoc, ← List.filterMap_append, ← List.filter_append] at h
      exact h

/-- Leaving envelopes out leaves their cells out, and fails when the poll fails. -/
theorem receive_keepEnvelopes (identity : KeyPair P) (keep : Bytes → Bool) (pulls : List PullOutcome) :
    receive identity (keepEnvelopes keep pulls) =
      (receive identity pulls).map fun _ => ((drained pulls).filter keep).filterMap (openEnvelope identity) :=
  receiveLoop_keepEnvelopes identity keep pulls [] []

theorem openEnvelope_some {identity : KeyPair P} {raw : Bytes} {c : Cell} (h : openEnvelope identity raw = some c) :
    ∃ senderPublic encrypted key, Envelope.unwrap raw = .ok (senderPublic, encrypted) ∧
      deriveKey P (identity.diffieHellman senderPublic) SESSION_KEY_CONTEXT = .ok key ∧
      decryptCell P key encrypted = .ok c := by
  unfold openEnvelope at h
  split at h
  · cases h
  · rename_i senderPublic encrypted hunwrap
    split at h
    · cases h
    · rename_i key hkey
      refine ⟨senderPublic, encrypted, key, hunwrap, hkey, ?_⟩
      cases hdec : decryptCell P key encrypted with
      | error e => rw [hdec] at h; cases h
      | ok d => rw [hdec] at h; cases h; rfl

/-- **What a session sends, the recipient opens.** -/
theorem openEnvelope_wrap (hP : P.Lawful) {identity : KeyPair P} {secret : Key} {session : Session P}
    (hs : Session.establish identity.publicKey secret = .ok session) {cell : Cell} (hc : cell.WF) {nonce : Nonce}
    {data : Arr ENCRYPTED_CELL_SIZE} (henc : encryptCell P session.cellKey nonce cell = .ok data) :
    openEnvelope identity (Envelope.wrap session.publicKey data).1 = some cell := by
  have hkey : deriveKey P (identity.diffieHellman session.publicKey) SESSION_KEY_CONTEXT = .ok session.cellKey := by
    unfold Session.establish at hs
    cases hd : deriveKey P ((KeyPair.ofSecret secret : KeyPair P).diffieHellman identity.publicKey) SESSION_KEY_CONTEXT with
    | error e => simp [hd, bind, Except.bind] at hs
    | ok key =>
      simp only [hd, bind, Except.bind, pure, Except.pure, Except.ok.injEq] at hs
      subst hs
      rw [← hd, identity.publicKey_eq]
      exact congrArg (fun shared => deriveKey P shared SESSION_KEY_CONTEXT) (hP.dh_comm _ _)
  obtain ⟨data', henc', hdec⟩ := decryptCell_encryptCell hP hc session.cellKey nonce
  rw [henc] at henc'
  cases henc'
  simp [openEnvelope, Envelope.unwrap_wrap, hkey, hdec, Except.toOption]

/-- So any cell can be put in an envelope that the identity opens. -/
theorem exists_envelope (hP : P.Lawful) (identity : KeyPair P) (secret : Key) {cell : Cell} (hc : cell.WF) :
    ∃ data, openEnvelope identity (Envelope.wrap (P.publicKey secret) data).1 = some cell := by
  obtain ⟨key, hkey⟩ := hP.hkdf_some ((KeyPair.ofSecret secret : KeyPair P).diffieHellman identity.publicKey)
    SESSION_KEY_CONTEXT
  have hs : Session.establish identity.publicKey secret = .ok (⟨.ofSecret secret, key⟩ : Session P) := by
    simp [Session.establish, deriveKey, hkey, bind, Except.bind, pure, Except.pure]
  obtain ⟨data, henc, -⟩ := decryptCell_encryptCell hP hc key (Arr.zeros 12)
  exact ⟨data, openEnvelope_wrap hP hs hc henc⟩

/-- An identity of the toy cipher. -/
abbrev toyIdentity : KeyPair .toy := .ofSecret (flatKey 0)

/-- Where an inserted cell comes from. -/
theorem mem_insertCalls {identity : KeyPair P} {pulls : List PullOutcome} {c : Cell}
    (h : c ∈ insertCalls identity pulls) : ∃ raw, openEnvelope identity raw = some c := by
  unfold insertCalls at h
  rcases receive_eq identity pulls with ⟨heq, -⟩ | ⟨e, heq, -⟩
  · rw [heq] at h
    obtain ⟨raw, -, hraw⟩ := List.mem_filterMap.1 h
    exact ⟨raw, hraw⟩
  · rw [heq] at h
    cases h

theorem insertCalls_wf (identity : KeyPair P) (pulls : List PullOutcome) : ∀ c ∈ insertCalls identity pulls, c.WF := by
  intro c hc
  obtain ⟨raw, hraw⟩ := mem_insertCalls hc
  obtain ⟨_, _, _, -, -, hdec⟩ := openEnvelope_some hraw
  exact decryptCell_wf hdec

/-- **A poll acts on the reassembler through `insertCalls` alone**, in every state. -/
theorem poll_eq (rc : Receiver P) (pulls : List PullOutcome) :
    rc.poll pulls = (rc.reassembler.insertAll (insertCalls rc.identity pulls)).map fun q =>
      ({ rc with reassembler := q.1 }, (receive rc.identity pulls).map fun _ => returned q.2) := by
  unfold Receiver.poll insertCalls
  cases receive rc.identity pulls with
  | error e => rfl
  | ok cells =>
    change (rc.reassembler.insertAll cells >>= _) = (rc.reassembler.insertAll cells).map _
    cases rc.reassembler.insertAll cells <;> rfl

/-! ## Polls as one stream of inserts -/

/-- One poll does not panic, inserts `insertCalls` and returns what these inserts returned. -/
theorem poll_spec {rc : Receiver P} {past : List Cell} (hr : Agrees rc.reassembler (past.map .insert))
    (pulls : List PullOutcome) :
    ∃ rc' o, rc.poll pulls = some (rc', o) ∧ rc'.identity = rc.identity ∧
      Agrees rc'.reassembler ((past ++ insertCalls rc.identity pulls).map .insert) ∧
      messages [o] = returned (results past (insertCalls rc.identity pulls)) := by
  obtain ⟨r, hins, hag⟩ := insertAll_refines hr (insertCalls_wf rc.identity pulls)
  refine ⟨{ rc with reassembler := r }, _, by rw [poll_eq, hins]; rfl, rfl, hag, ?_⟩
  unfold insertCalls
  cases receive rc.identity pulls with
  | error e => rfl
  | ok cells => simp [messages, Except.map, Except.toOption]

/-- **Any sequence of polls is one stream of inserts**: it never panics, and the byte strings it returns, in
order, are those the inserts returned. -/
theorem run_spec {rc : Receiver P} {past : List Cell} (hr : Agrees rc.reassembler (past.map .insert))
    (polls : List (List PullOutcome)) :
    ∃ rc' outs, rc.run polls = some (rc', outs) ∧ rc'.identity = rc.identity ∧
      Agrees rc'.reassembler ((past ++ polls.flatMap (insertCalls rc.identity)).map .insert) ∧
      messages outs = returned (results past (polls.flatMap (insertCalls rc.identity))) := by
  induction polls generalizing rc past with
  | nil => exact ⟨rc, [], rfl, rfl, by simpa using hr, rfl⟩
  | cons pulls polls ih =>
    obtain ⟨rc₁, o, h₁, hid, hag, hmsg⟩ := poll_spec hr pulls
    obtain ⟨rc₂, outs, h₂, hid₂, hag₂, hmsgs⟩ := ih hag
    rw [hid] at hag₂ hmsgs
    refine ⟨rc₂, o :: outs, by simp [Receiver.run, h₁, h₂], hid₂.trans hid, ?_, ?_⟩
    · rwa [List.flatMap_cons, ← List.append_assoc]
    rw [List.flatMap_cons, results_append, returned, List.filterMap_append]
    have hcons : messages (o :: outs) = messages [o] ++ messages outs := by simp [messages]
    rw [hcons, hmsg, hmsgs]
    rfl

theorem run_new (identity : KeyPair P) (polls : List (List PullOutcome)) :
    ∃ rc outs, (Receiver.new identity).run polls = some (rc, outs) ∧ rc.identity = identity ∧
      Agrees rc.reassembler ((polls.flatMap (insertCalls identity)).map .insert) ∧
      messages outs = returned (results [] (polls.flatMap (insertCalls identity))) :=
  @run_spec P (Receiver.new identity) [] agrees_new polls

theorem mem_messages {outs : List (Except ReceiveError (List Bytes))} {m : Bytes} :
    m ∈ messages outs ↔ ∃ ms, .ok ms ∈ outs ∧ m ∈ ms := by
  simp only [messages, List.mem_flatMap]
  constructor
  · rintro ⟨o, ho, hm⟩
    cases o with
    | error e => cases hm
    | ok ms => exact ⟨ms, ho, hm⟩
  · rintro ⟨ms, ho, hm⟩
    exact ⟨_, ho, hm⟩

/-! ## Integrity -/

/-- A call of `encrypt_cell`, with the nonce it drew. -/
structure EncryptCall where
  key : Key
  nonce : Nonce
  cell : Cell

/-- A call of `VeilClient::send` for `identity` whose message `fragment_message` accepted. -/
structure SendTo (identity : KeyPair P) where
  client : VeilClient
  secret : Key
  session : Session P
  established : Session.establish identity.publicKey secret = .ok session
  message : SentMessage
  draws : Nat → CellDraws client.topology

/-- The calls of `encrypt_cell` that `send` makes: cell `i` under the session's key. -/
def SendTo.Encrypts {identity : KeyPair P} (s : SendTo identity) (call : EncryptCall) : Prop :=
  ∃ i c, s.message.cells[i]? = some c ∧ call = ⟨s.session.cellKey, (s.draws i).nonce, c⟩

/-- Ideal encryption towards `identity`: under a key it derives with any sender key, only what some call of
`encrypt_cell` produced under that key decrypts, and to the bytes that were encrypted. -/
def IdealFor (identity : KeyPair P) (calls : Set EncryptCall) : Prop :=
  ∀ (senderPublic key : Key) (data : Arr ENCRYPTED_CELL_SIZE) (plaintext : Bytes),
    deriveKey P (identity.diffieHellman senderPublic) SESSION_KEY_CONTEXT = .ok key →
    P.decrypt key (nonceOf data) (data.1.drop NONCE_SIZE) = some plaintext →
    ∃ call ∈ calls, call.key = key ∧ encryptCell P key call.nonce call.cell = .ok data ∧
      plaintext = call.cell.toBytes.1

/-- Every one of these calls under a key of `identity` was made by one of the `sends`. -/
def OnlySends (identity : KeyPair P) (calls : Set EncryptCall) (sends : Set (SendTo identity)) : Prop :=
  ∀ call ∈ calls, (∃ senderPublic,
    deriveKey P (identity.diffieHellman senderPublic) SESSION_KEY_CONTEXT = .ok call.key) → ∃ s ∈ sends, s.Encrypts call

section Integrity
variable {identity : KeyPair P} {calls : Set EncryptCall} {sends : Set (SendTo identity)}

/-- A cell that opens is a cell of a sent message. -/
theorem openEnvelope_sent (hideal : IdealFor identity calls) (honly : OnlySends identity calls sends) {raw : Bytes}
    {c : Cell} (h : openEnvelope identity raw = some c) : ∃ s ∈ sends, c ∈ s.message.cells := by
  obtain ⟨senderPublic, data, key, -, hkey, hdec⟩ := openEnvelope_some h
  obtain ⟨buf, hbuf, hparse⟩ := decryptCell_ok hdec
  obtain ⟨call, hcall, rfl, -, hplain⟩ := hideal senderPublic key data buf.1 hkey hbuf
  obtain ⟨s, hs, i, d, hd, rfl⟩ := honly call hcall ⟨senderPublic, hkey⟩
  have hmem := List.mem_of_getElem? hd
  have hcell := Cell.fromBytes_toBytes (s.message.frag.wf d hmem)
  rw [← Subtype.ext hplain, hparse] at hcell
  cases hcell
  exact ⟨s, hs, hmem⟩

/-- A stream of cells of sent messages with distinct ids returns only these messages. -/
theorem returned_sent (hids : Set.InjOn (fun s : SendTo identity => s.message.id) sends) {cs : List Cell}
    (hcs : ∀ c ∈ cs, ∃ s ∈ sends, c ∈ s.message.cells) {m : Bytes} (hm : m ∈ returned (results [] cs)) :
    ∃ s ∈ sends, m = s.message.bytes := by
  obtain ⟨o, ho, hom⟩ := List.mem_filterMap.1 hm
  obtain ⟨pre, c, post, rfl, rfl⟩ := mem_results ho
  obtain ⟨s, hs, hc⟩ := hcs c (by simp)
  have honly : s.message.Only pre := by
    intro d hd hid
    obtain ⟨t, ht, hdt⟩ := hcs d (by simp [hd])
    rwa [hids hs ht (hid.symm.trans (t.message.frag.id d hdt))]
  rcases SentMessage.step_own honly hc with ⟨-, hres, -⟩ | ⟨-, hres, -⟩
  · rw [List.nil_append, hres] at hom
    cases hom
    exact ⟨s, hs, rfl⟩
  · rw [List.nil_append, hres] at hom
    cases hom

end Integrity

/-- **Receiver integrity under an adversarial network.** Whatever the relays hand back, in whatever order, with
any repetition, loss, garbage or failed pulls in between, a sequence of polls does not panic, and every
byte string it returns is the complete message of one `send` to this identity. -/
theorem received_messages_were_sent (identity : KeyPair P) (calls : Set EncryptCall) (sends : Set (SendTo identity))
    (hideal : IdealFor identity calls) (honly : OnlySends identity calls sends)
    (hids : ∀ s ∈ sends, ∀ t ∈ sends, s.message.id = t.message.id → s = t) (polls : List (List PullOutcome)) :
    ∃ rc outs, (Receiver.new identity).run polls = some (rc, outs) ∧
      ∀ ms, .ok ms ∈ outs → ∀ m ∈ ms, ∃ s ∈ sends, m = s.message.bytes := by
  obtain ⟨rc, outs, hrun, -, -, hmsgs⟩ := run_new identity polls
  refine ⟨rc, outs, hrun, fun ms hms m hm => ?_⟩
  have hmem : m ∈ messages outs := mem_messages.2 ⟨ms, hms, hm⟩
  rw [hmsgs] at hmem
  refine returned_sent (fun s hs t ht h => hids s hs t ht h) (fun c hc => ?_) hmem
  obtain ⟨pulls, -, hins⟩ := List.mem_flatMap.1 hc
  obtain ⟨raw, hraw⟩ := mem_insertCalls hins
  exact openEnvelope_sent hideal honly hraw

/-- A cipher under which nothing opens but the one cell of `b"hi"`, sealed under one key and nonce. -/
def hiCipher : Primitives where
  publicKey := Primitives.toy.publicKey
  diffieHellman := Primitives.toy.diffieHellman
  hkdf := Primitives.toy.hkdf
  encrypt := Primitives.toy.encrypt
  decrypt k n c :=
    if k = flatKey 1 ∧ n = Arr.zeros 12 ∧ c = (toyTag k).1 ++ SentMessage.hiCell.toBytes.1 then
      some SentMessage.hiCell.toBytes.1
    else none
  encrypt_length := Primitives.toy.encrypt_length
  decrypt_length {k n p c} h := by
    split at h
    · rename_i hc
      cases h
      rw [hc.2.2, List.length_append, (toyTag k).2, Nat.add_comm]
    · cases h

/-- `b"hi"` sent to the identity with secret `flatKey 0`. -/
def hiSend : SendTo (KeyPair.ofSecret (flatKey 0) : KeyPair hiCipher) where
  client := ⟨.new, 1⟩
  secret := flatKey 1
  session := ⟨.ofSecret (flatKey 1), flatKey 1⟩
  established := rfl
  message := .hi
  draws _ := ⟨Arr.zeros 12, ⟨[], .refl _⟩, noCoins⟩

theorem hiCipher_ideal : IdealFor (KeyPair.ofSecret (flatKey 0) : KeyPair hiCipher)
    {⟨flatKey 1, Arr.zeros 12, SentMessage.hiCell⟩} := by
  intro senderPublic key data plaintext _ hdec
  by_cases hcond : key = flatKey 1 ∧ nonceOf data = Arr.zeros 12 ∧
      data.1.drop NONCE_SIZE = (toyTag key).1 ++ SentMessage.hiCell.toBytes.1
  · have hplain : plaintext = SentMessage.hiCell.toBytes.1 :=
      Option.some.inj (hdec.symm.trans (if_pos hcond))
    obtain ⟨rfl, hnonce, hct⟩ := hcond
    refine ⟨_, rfl, rfl, ?_, hplain⟩
    have hdata : data.1 = (Arr.zeros 12).1 ++ ((toyTag (flatKey 1)).1 ++ SentMessage.hiCell.toBytes.1) := by
      rw [← List.take_append_drop NONCE_SIZE data.1, hct, ← hnonce]
      simp [nonceOf, Arr.slice]
    exact congrArg Except.ok (Subtype.ext hdata.symm)
  · have hno := hdec.symm.trans (if_neg hcond)
    cases hno

/-- One send of `b"hi"`, handed back twice with garbage in between, and once more in a later poll. -/
theorem received_messages_were_sent_hi : ∃ data, encryptCell hiCipher (flatKey 1) (Arr.zeros 12) SentMessage.hiCell = .ok data ∧
    ∃ rc outs, (Receiver.new (.ofSecret (flatKey 0) : KeyPair hiCipher)).run
        [[.ok [(Envelope.wrap (flatKey 1) data).1, [1, 2, 3], (Envelope.wrap (flatKey 1) data).1]],
          [.ok [(Envelope.wrap (flatKey 1) data).1]]] = some (rc, outs) ∧
      ∀ ms, .ok ms ∈ outs → ∀ m ∈ ms, ∃ s ∈ ({hiSend} : Set _), m = s.message.bytes :=
  ⟨_, rfl, received_messages_were_sent (.ofSecret (flatKey 0)) {⟨flatKey 1, Arr.zeros 12, SentMessage.hiCell⟩} {hiSend}
    hiCipher_ideal (by rintro _ rfl _; exact ⟨hiSend, rfl, 0, _, rfl, rfl⟩) (by rintro _ rfl _ rfl _; rfl) _⟩

/-! ## Loss -/

/-- No pull of the poll fails, or nothing that was drained before decrypts under the identity. -/
def NothingAtRisk (identity : KeyPair P) (pulls : List PullOutcome) : Prop :=
  (∀ e, .error e ∉ pulls) ∨ ∀ raw ∈ drained pulls, openEnvelope identity raw = none

/-- A poll inserts everything it drained iff nothing was at risk. -/
theorem insertCalls_eq_iff (identity : KeyPair P) (pulls : List PullOutcome) :
    insertCalls identity pulls = drainedCells identity pulls ↔ NothingAtRisk identity pulls := by
  have hnone : drainedCells identity pulls = [] ↔ ∀ raw ∈ drained pulls, openEnvelope identity raw = none := by
    rw [drainedCells, List.filterMap_eq_nil_iff]
  unfold insertCalls NothingAtRisk
  rcases receive_eq identity pulls with ⟨h, hok⟩ | ⟨e, h, e', hfail⟩
  · rw [h]
    exact ⟨fun _ => .inl hok, fun _ => rfl⟩
  · rw [h, ← hnone]
    constructor
    · intro heq
      exact .inr heq.symm
    · rintro (hok | hnil)
      · exact absurd hfail (hok e')
      · rw [hnil]; rfl

/-- **No cell is lost, unless a pull fails.** In every state of a receiver, the cells a poll inserts are all
those it drained and could decrypt iff no pull failed or nothing drained before the failure decrypts. And
in a sequence of polls each of which meets this condition, a message all of whose cells were drained is
returned by some poll, as long as no other cell under its id was. -/
theorem drained_cells_inserted_iff (identity : KeyPair P) :
    (∀ (r : Reassembler) (pulls : List PullOutcome),
      (Receiver.mk identity r).poll pulls = (r.insertAll (insertCalls identity pulls)).map (fun q =>
        (⟨identity, q.1⟩, (receive identity pulls).map fun _ => returned q.2)) ∧
      (insertCalls identity pulls = drainedCells identity pulls ↔ NothingAtRisk identity pulls)) ∧
    ∀ (polls : List (List PullOutcome)), (∀ pulls ∈ polls, NothingAtRisk identity pulls) →
      ∀ x : SentMessage, x.Only (polls.flatMap (drainedCells identity)) →
        x.cells ⊆ polls.flatMap (drainedCells identity) →
        ∃ rc outs ms, (Receiver.new identity).run polls = some (rc, outs) ∧ .ok ms ∈ outs ∧ x.bytes ∈ ms := by
  refine ⟨fun r pulls => ⟨poll_eq ⟨identity, r⟩ pulls, insertCalls_eq_iff identity pulls⟩,
    fun polls hpolls x honly hall => ?_⟩
  obtain ⟨rc, outs, hrun, -, -, hmsgs⟩ := run_new identity polls
  have hins : polls.flatMap (insertCalls identity) = polls.flatMap (drainedCells identity) :=
    List.flatMap_congr fun pulls hp => (insertCalls_eq_iff identity pulls).2 (hpolls pulls hp)
  have hmem : x.bytes ∈ messages outs := by
    rw [hmsgs, hins]
    exact List.mem_filterMap.2 ⟨_, SentMessage.mem_results_of_complete honly hall, rfl⟩
  obtain ⟨ms, hms, hm⟩ := mem_messages.1 hmem
  exact ⟨rc, outs, ms, hrun, hms, hm⟩

/-- The envelope of a cell for the identity with secret `flatKey 0`. -/
theorem envelope_opens {cell : Cell} (hwf : cell.WF) : ∃ data,
    encryptCell .toy (flatKey 1) (Arr.zeros 12) cell = .ok data ∧
    openEnvelope (.ofSecret (flatKey 0) : KeyPair .toy) (Envelope.wrap (flatKey 1) data).1 = some cell := by
  obtain ⟨data, henc, -⟩ := decryptCell_encryptCell Primitives.toy_lawful hwf (flatKey 1) (Arr.zeros 12)
  exact ⟨data, henc, @openEnvelope_wrap .toy Primitives.toy_lawful (.ofSecret (flatKey 0)) (flatKey 1)
    ⟨.ofSecret (flatKey 1), flatKey 1⟩ rfl _ hwf _ _ henc⟩

/-- The second cell of a message comes first, beside a byte that is no envelope. The next poll drains such a byte
only and then finds a relay unreachable. The last one hands over the second cell once more, and the first. -/
theorem drained_cells_inserted_two : ∃ c d first second, (SentMessage.twoCells 1).cells = [c, d] ∧
    drainedCells (.ofSecret (flatKey 0) : KeyPair .toy) [.ok [second], .ok [first]] = [d, c] ∧
    ∃ rc outs ms, (Receiver.new (.ofSecret (flatKey 0) : KeyPair .toy)).run
      [[.ok [[9], second]], [.ok [[9]], .error ⟨"connection refused"⟩], [.ok [second], .ok [first]]] = some (rc, outs) ∧
      .ok ms ∈ outs ∧ List.replicate 489 1 ∈ ms := by
  obtain ⟨c, d, hcells⟩ := SentMessage.twoCells_cells 1
  obtain ⟨first, -, hfirst⟩ := envelope_opens ((SentMessage.twoCells 1).frag.wf c (by simp [hcells]))
  obtain ⟨second, -, hsecond⟩ := envelope_opens ((SentMessage.twoCells 1).frag.wf d (by simp [hcells]))
  have hjunk : openEnvelope (.ofSecret (flatKey 0) : KeyPair .toy) [9] = none := rfl
  generalize (Envelope.wrap (flatKey 1) first).1 = first at hfirst
  generalize (Envelope.wrap (flatKey 1) second).1 = second at hsecond
  have hdrained : [[.ok [[9], second]], [.ok [[9]], .error ⟨"connection refused"⟩], [.ok [second], .ok [first]]].flatMap
      (drainedCells (.ofSecret (flatKey 0) : KeyPair .toy)) = [d, d, c] := by
    simp [drainedCells, drained, hjunk, hfirst, hsecond]
  refine ⟨c, d, first, second, hcells, by simp [drainedCells, drained, hfirst, hsecond],
    (drained_cells_inserted_iff (.ofSecret (flatKey 0))).2 _ ?_ (.twoCells 1) ?_ ?_⟩
  · simp [NothingAtRisk, drained, hjunk]
  · rw [hdrained]
    intro b hb _
    simp only [List.mem_cons, List.not_mem_nil, or_false, or_self_left] at hb
    simpa [hcells] using hb.symm
  · rw [hdrained, hcells]
    simp

/-- The first relay hands the message over, the second cannot be reached: the poll fails, the receiver is as
before, and the mailbox has been emptied. -/
theorem poll_loses_hi : ∃ raw,
    SentMessage.hiCell ∈ drainedCells (.ofSecret (flatKey 0) : KeyPair .toy) [.ok [raw], .error ⟨"connection refused"⟩] ∧
    SentMessage.hiCell ∉ insertCalls (.ofSecret (flatKey 0) : KeyPair .toy) [.ok [raw], .error ⟨"connection refused"⟩] ∧
    (Receiver.new (.ofSecret (flatKey 0) : KeyPair .toy)).poll [.ok [raw], .error ⟨"connection refused"⟩] =
      some (.new (.ofSecret (flatKey 0)), .error (.io ⟨"connection refused"⟩)) := by
  obtain ⟨data, -, hopen⟩ := envelope_opens (SentMessage.hi.frag.wf SentMessage.hiCell (by simp [SentMessage.hi]))
  exact ⟨(Envelope.wrap (flatKey 1) data).1, by simp [drainedCells, drained, hopen],
    show SentMessage.hiCell ∉ [] from List.not_mem_nil, rfl⟩

end VeilFabric
