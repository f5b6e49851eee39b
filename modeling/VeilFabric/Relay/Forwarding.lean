import VeilFabric.Core.Crypto

/-!
# Onion layers and frames (`veil-relay/src/forwarding.rs`)

| here | there |
| --- | --- |
| `OnionError`, `OnionPayload`       | forwarding.rs:32, :43 |
| `buildOnionLayer`                  | `build_onion_layer` (forwarding.rs:51), its two draws as `LayerCoins` |
| `peelOnionLayer`                   | `peel_onion_layer` (forwarding.rs:78) |
| `deriveKeyFromBytes`               | `derive_key_from_bytes` (forwarding.rs:107) |
| `encodePayload`, `decodePayload`   | forwarding.rs:115, :135 |
| `writeFrame`, `readFrame`          | `write_frame`, `read_frame` (forwarding.rs:160, :169), on the byte stream |

`decodePayload_ok_iff` says the decoder accepts exactly the encodings of the payloads that fit the 16-bit
hop length (and `decodePayload_canonical` what that makes of the format). `buildOnionLayer_ok` is the one fact
about a layer: the keypair it was built for peels it to whatever the encoded payload decodes to. For a hop
that fits this is the payload itself (`peel_build`); a longer one is cut at the wrapped length and comes out
as something else (`decodePayload_encodePayload_long`), so layers are faithful exactly for the hops that fit
(`layerFaithful_iff`).
-/

namespace VeilFabric
open Wire

abbrev EPHEMERAL_KEY_SIZE : Nat := 32

/-- `ONION_KEY_CONTEXT` (forwarding.rs:29). -/
def ONION_KEY_CONTEXT : Bytes := utf8 "veil-onion-layer-v1"

inductive OnionError where
  | frameTooShort
  | decryptionFailed
  | malformed
  | keyDerivation
deriving DecidableEq, Repr

inductive OnionPayload where
  | forward (nextHop : String) (body : Bytes)
  | deliver (body : Bytes)
deriving DecidableEq

/-! ## The payload codec -/

/-- `encode_payload` (forwarding.rs:115); `hop_bytes.len() as u16` wraps. -/
def encodePayload : OnionPayload → Bytes
  | .forward nextHop body => 0 :: (beBytes 2 (utf8 nextHop).length ++ (utf8 nextHop ++ body))
  | .deliver body => 1 :: body

theorem encodePayload_forward_length (nextHop : String) (body : Bytes) :
    (encodePayload (.forward nextHop body)).length = 3 + (utf8 nextHop).length + body.length := by
  simp only [encodePayload, List.length_cons, List.length_append, beBytes_length]
  omega

/-- `decode_payload` (forwarding.rs:135). -/
def decodePayload : Bytes → Except OnionError OnionPayload
  | [] => .error .malformed
  | flag :: rest =>
    if flag = 0 then
      if rest.length < 2 then .error .malformed
      else
        let hopLen := beVal (rest.take 2)
        let rest := rest.drop 2
        if rest.length < hopLen then .error .malformed
        else match fromUtf8 (rest.take hopLen) with
          | none => .error .malformed
          | some nextHop => .ok (.forward nextHop (rest.drop hopLen))
    else if flag = 1 then .ok (.deliver rest)
    else .error .malformed

/-- The hop is representable in the 16-bit length field. -/
def OnionPayload.Fits : OnionPayload → Prop
  | .forward nextHop _ => (utf8 nextHop).length ≤ 65535
  | .deliver _ => True

/-- After the flag, a forward is a frame with the hop in front of the body. -/
theorem encodePayload_forward (nextHop : String) (body : Bytes) :
    encodePayload (.forward nextHop body) = 0 :: (Wire.writeFrame 2 (utf8 nextHop) ++ body) := by
  rw [encodePayload, Wire.writeFrame, List.append_assoc]

theorem decodePayload_zero (rest : Bytes) :
    decodePayload (0 :: rest) =
      match Wire.readFrame 2 rest with
      | none => .error .malformed
      | some (hop, body) =>
        match fromUtf8 hop with
        | none => .error .malformed
        | some nextHop => .ok (.forward nextHop body) := by
  rw [decodePayload, Wire.readFrame, if_pos rfl]
  by_cases h2 : rest.length < 2
  · rw [if_pos h2, if_pos h2]
  · rw [if_neg h2, if_neg h2]
    by_cases hl : (rest.drop 2).length < beVal (rest.take 2)
    · simp only [hl, if_true]
    · simp only [hl, if_false]

/-- Decoding an encoded forward cuts the hop at the wrapped length. -/
theorem decodePayload_forward (nextHop : String) (body : Bytes) :
    decodePayload (encodePayload (.forward nextHop body)) =
      match fromUtf8 ((utf8 nextHop).take ((utf8 nextHop).length % 65536)) with
      | none => .error .malformed
      | some hop => .ok (.forward hop ((utf8 nextHop).drop ((utf8 nextHop).length % 65536) ++ body)) := by
  rw [encodePayload_forward, decodePayload_zero, readFrame_writeFrame_mod, show (256 : Nat) ^ 2 = 65536 from rfl]

/-- A payload that fits is read back. -/
theorem decodePayload_encodePayload {p : OnionPayload} (h : p.Fits) : decodePayload (encodePayload p) = .ok p := by
  cases p with
  | forward nextHop body =>
    have hlen : (utf8 nextHop).length % 65536 = (utf8 nextHop).length :=
      Nat.mod_eq_of_lt (Nat.lt_succ_of_le h)
    simp [decodePayload_forward, hlen]
  | deliver body => rfl

/-- A hop that does not fit never comes back: what is read is malformed or names a shorter hop. -/
theorem decodePayload_encodePayload_long {nextHop : String} {body : Bytes} (h : 65535 < (utf8 nextHop).length) :
    ∀ p, decodePayload (encodePayload (.forward nextHop body)) = .ok p →
      ∃ hop rest, p = .forward hop rest ∧ hop ≠ nextHop := by
  intro p hp
  rw [decodePayload_forward] at hp
  split at hp
  · cases hp
  · rename_i hop hhop
    cases hp
    refine ⟨hop, _, rfl, ?_⟩
    rintro rfl
    have hlen := congrArg List.length (utf8_of_fromUtf8 hhop)
    rw [List.length_take] at hlen
    omega

/-- Whatever the decoder accepts is the encoding of a payload that fits. -/
theorem decodePayload_ok {b : Bytes} {p : OnionPayload} (h : decodePayload b = .ok p) :
    b = encodePayload p ∧ p.Fits := by
  cases b with
  | nil => cases h
  | cons flag rest =>
    by_cases h0 : flag = 0
    · subst h0
      rw [decodePayload_zero] at h
      split at h
      · cases h
      · rename_i hop body hread
        split at h
        · cases h
        · rename_i nextHop hhop
          cases h
          obtain ⟨rfl, hlen⟩ := readFrame_some hread
          rw [← utf8_of_fromUtf8 hhop] at hlen ⊢
          exact ⟨(encodePayload_forward nextHop body).symm, Nat.le_of_lt_succ hlen⟩
    · rw [decodePayload, if_neg h0] at h
      split at h
      · rename_i h1
        cases h
        exact ⟨by rw [encodePayload, h1], trivial⟩
      · cases h

/-- **The decoder accepts exactly the encodings of representable payloads.** -/
theorem decodePayload_ok_iff {b : Bytes} {p : OnionPayload} :
    decodePayload b = .ok p ↔ b = encodePayload p ∧ p.Fits :=
  ⟨decodePayload_ok, fun h => by rw [h.1, decodePayload_encodePayload h.2]⟩

/-- `decode_payload` once more, with every index and slice checked as Rust does it; `none` is a panic. -/
def decodePayloadIndexed : Bytes → Option (Except OnionError OnionPayload)
  | [] => some (.error .malformed)
  | flag :: rest =>
    if flag = 0 then
      if rest.length < 2 then some (.error .malformed)
      else do
        let b₀ ← rest[0]?
        let b₁ ← rest[1]?
        let hopLen := beVal [b₀, b₁]
        let rest ← sliceFrom rest 2
        if rest.length < hopLen then return .error .malformed
        let hop ← sliceTo rest hopLen
        match fromUtf8 hop with
        | none => return .error .malformed
        | some nextHop =>
          let body ← sliceFrom rest hopLen
          return .ok (.forward nextHop body)
    else if flag = 1 then some (.ok (.deliver rest))
    else some (.error .malformed)

/-- No index or slice of the decoder is out of range. -/
theorem decodePayloadIndexed_eq (b : Bytes) : decodePayloadIndexed b = some (decodePayload b) := by
  cases b with
  | nil => rfl
  | cons flag rest =>
    rw [decodePayloadIndexed, decodePayload]
    by_cases h0 : flag = 0
    · rw [if_pos h0, if_pos h0]
      match rest with
      | [] => rfl
      | [_] => rfl
      | b₀ :: b₁ :: rest =>
        have h2 : ¬ (b₀ :: b₁ :: rest).length < 2 := by simp
        have hfrom : sliceFrom (b₀ :: b₁ :: rest) 2 = some rest := sliceFrom_eq (by simp)
        rw [if_neg h2, if_neg h2]
        simp only [List.getElem?_cons_zero, List.getElem?_cons_succ, Option.bind_eq_bind, Option.bind_some, hfrom,
          List.take_succ_cons, List.take_zero, List.drop_succ_cons, List.drop_zero]
        by_cases hl : rest.length < beVal [b₀, b₁]
        · rw [if_pos hl, if_pos hl]
          rfl
        · rw [if_neg hl, if_neg hl, sliceTo_eq (by omega), Option.bind_some]
          cases fromUtf8 (rest.take (beVal [b₀, b₁])) with
          | none => rfl
          | some nextHop =>
            rw [sliceFrom_eq (by omega)]
            rfl
    · rw [if_neg h0, if_neg h0]
      split <;> rfl

/-- The decoder has one error. -/
theorem decodePayload_error {b : Bytes} {e : OnionError} (h : decodePayload b = .error e) : e = .malformed := by
  unfold decodePayload at h
  grind

/-- **The payload decoder accepts exactly the canonical encodings**, each as the one payload it encodes; any
other byte string is malformed, and none makes the decoder read out of range. -/
theorem decodePayload_canonical :
    (∀ b p, decodePayload b = .ok p ↔ b = encodePayload p ∧ p.Fits) ∧
    (∀ b b' p, decodePayload b = .ok p → decodePayload b' = .ok p → b = b') ∧
    (∀ p p' : OnionPayload, p.Fits → p'.Fits → encodePayload p = encodePayload p' → p = p') ∧
    (∀ b, (∀ p : OnionPayload, p.Fits → b ≠ encodePayload p) → decodePayload b = .error .malformed) ∧
    ∀ b, decodePayloadIndexed b = some (decodePayload b) := by
  refine ⟨fun b p => decodePayload_ok_iff, ?_, ?_, ?_, decodePayloadIndexed_eq⟩
  · intro b b' p h h'
    rw [(decodePayload_ok h).1, (decodePayload_ok h').1]
  · intro p p' hp hp' he
    have hread := decodePayload_encodePayload hp
    rw [he, decodePayload_encodePayload hp'] at hread
    exact (Except.ok.inj hread).symm
  · intro b hb
    cases hread : decodePayload b with
    | error e => rw [decodePayload_error hread]
    | ok p =>
      obtain ⟨heq, hfits⟩ := decodePayload_ok hread
      exact absurd heq (hb p hfits)

/-! ## Layers -/

/-- What `build_onion_layer` draws from the random source. -/
structure LayerCoins where
  ephemeral : Key
  nonce : Nonce
deriving DecidableEq

variable (P : Primitives)

/-- `derive_key_from_bytes` (forwarding.rs:107). -/
def deriveKeyFromBytes (sharedSecret : Key) : Except OnionError Key :=
  match P.hkdf sharedSecret ONION_KEY_CONTEXT with
  | some okm => .ok okm
  | none => .error .keyDerivation

/-- `build_onion_layer` (forwarding.rs:51). -/
def buildOnionLayer (relayPublic : Key) (payload : OnionPayload) (coins : LayerCoins) :
    Except OnionError Bytes := do
  let ephemeralPublic := P.publicKey coins.ephemeral
  let shared := P.diffieHellman coins.ephemeral relayPublic
  let key ← deriveKeyFromBytes P shared
  let plaintext := encodePayload payload
  match P.encrypt key coins.nonce plaintext with
  | none => throw .keyDerivation
  | some ciphertext => return ephemeralPublic.1 ++ (coins.nonce.1 ++ ciphertext)

/-- `peel_onion_layer` (forwarding.rs:78). -/
def peelOnionLayer (keypair : KeyPair P) (frame : Bytes) : Except OnionError OnionPayload :=
  if h : frame.length < EPHEMERAL_KEY_SIZE + NONCE_SIZE + TAG_SIZE then .error .frameTooShort
  else
    let ephemeralPublic : Key := Arr.slice ⟨frame, rfl⟩ 0 EPHEMERAL_KEY_SIZE (by omega)
    let shared := keypair.diffieHellman ephemeralPublic
    match deriveKey P shared ONION_KEY_CONTEXT with
    | .error _ => .error .keyDerivation
    | .ok key =>
      let nonce : Nonce := Arr.slice ⟨frame, rfl⟩ EPHEMERAL_KEY_SIZE NONCE_SIZE (by omega)
      match P.decrypt key nonce (frame.drop (EPHEMERAL_KEY_SIZE + NONCE_SIZE)) with
      | none => .error .decryptionFailed
      | some plaintext => decodePayload plaintext

variable {P}

/-- The parts of a built layer, by construction. -/
theorem buildOnionLayer_inv {relayPublic : Key} {payload : OnionPayload} {coins : LayerCoins} {frame : Bytes}
    (h : buildOnionLayer P relayPublic payload coins = .ok frame) :
    ∃ key ciphertext, P.hkdf (P.diffieHellman coins.ephemeral relayPublic) ONION_KEY_CONTEXT = some key ∧
      P.encrypt key coins.nonce (encodePayload payload) = some ciphertext ∧
      frame = (P.publicKey coins.ephemeral).1 ++ (coins.nonce.1 ++ ciphertext) := by
  unfold buildOnionLayer deriveKeyFromBytes at h
  cases hk : P.hkdf (P.diffieHellman coins.ephemeral relayPublic) ONION_KEY_CONTEXT with
  | none => simp [hk, bind, Except.bind] at h
  | some key =>
    cases hc : P.encrypt key coins.nonce (encodePayload payload) with
    | none => simp [hk, hc, bind, Except.bind, throw, throwThe, MonadExceptOf.throw] at h
    | some ciphertext =>
      simp only [hk, hc, bind, Except.bind, pure, Except.pure, Except.ok.injEq] at h
      exact ⟨key, ciphertext, rfl, hc, h.symm⟩

/-- A layer is 60 bytes longer than its payload. -/
theorem buildOnionLayer_length {relayPublic : Key} {payload : OnionPayload} {coins : LayerCoins} {frame : Bytes}
    (h : buildOnionLayer P relayPublic payload coins = .ok frame) :
    frame.length = EPHEMERAL_KEY_SIZE + NONCE_SIZE + TAG_SIZE + (encodePayload payload).length := by
  obtain ⟨key, ct, -, hc, rfl⟩ := buildOnionLayer_inv h
  have hlen := P.encrypt_length hc
  have hkey : EPHEMERAL_KEY_SIZE = 32 := rfl
  simp only [List.length_append, Arr.length_val, hlen]
  omega

/-- Peeling a frame of the layer's shape runs the primitives on its three parts. -/
theorem peelOnionLayer_parts (keypair : KeyPair P) (ephemeral : Key) (nonce : Nonce) {ct : Bytes}
    (hct : TAG_SIZE ≤ ct.length) :
    peelOnionLayer P keypair (ephemeral.1 ++ (nonce.1 ++ ct)) =
      match P.hkdf (keypair.diffieHellman ephemeral) ONION_KEY_CONTEXT with
      | none => .error .keyDerivation
      | some key => match P.decrypt key nonce ct with
        | none => .error .decryptionFailed
        | some plaintext => decodePayload plaintext := by
  have hlen : ¬ (ephemeral.1 ++ (nonce.1 ++ ct)).length < EPHEMERAL_KEY_SIZE + NONCE_SIZE + TAG_SIZE := by
    have hkey : EPHEMERAL_KEY_SIZE = 32 := rfl
    simp only [List.length_append, Arr.length_val]
    omega
  have he : (Arr.slice ⟨ephemeral.1 ++ (nonce.1 ++ ct), rfl⟩ 0 EPHEMERAL_KEY_SIZE (by omega) : Key) = ephemeral := by
    apply Subtype.ext
    simp [Arr.slice]
  have hn : (Arr.slice ⟨ephemeral.1 ++ (nonce.1 ++ ct), rfl⟩ EPHEMERAL_KEY_SIZE NONCE_SIZE (by omega) : Nonce) = nonce :=
    Subtype.ext (Arr.slice_val_append _ _ _ rfl _ _ (by simp) (by simp) (by omega))
  have hd : (ephemeral.1 ++ (nonce.1 ++ ct)).drop (EPHEMERAL_KEY_SIZE + NONCE_SIZE) = ct := by
    rw [← List.append_assoc]
    exact List.drop_left' (by simp)
  unfold peelOnionLayer deriveKey
  rw [dif_neg hlen]
  simp only [he, hn, hd]
  cases P.hkdf (keypair.diffieHellman ephemeral) ONION_KEY_CONTEXT <;> rfl

/-- Sender and relay derive the same secret. -/
theorem Primitives.Lawful.shared (hP : P.Lawful) (keypair : KeyPair P) (ephemeral : Key) :
    keypair.diffieHellman (P.publicKey ephemeral) = P.diffieHellman ephemeral keypair.publicKey := by
  rw [keypair.publicKey_eq]
  exact hP.dh_comm _ _

/-- **A layer opens under the keypair it was built for**, to what its encoded payload decodes to: sender
and relay derive the same key although each does so with its own function. -/
theorem buildOnionLayer_ok (hP : P.Lawful) (relayPublic : Key) (payload : OnionPayload) (coins : LayerCoins) :
    ∃ frame, buildOnionLayer P relayPublic payload coins = .ok frame ∧
      ∀ keypair : KeyPair P, keypair.publicKey = relayPublic →
        peelOnionLayer P keypair frame = decodePayload (encodePayload payload) := by
  obtain ⟨key, hkey⟩ := hP.hkdf_some (P.diffieHellman coins.ephemeral relayPublic) ONION_KEY_CONTEXT
  obtain ⟨ct, henc, hdec⟩ := hP.seal_open key coins.nonce (encodePayload payload)
  refine ⟨(P.publicKey coins.ephemeral).1 ++ (coins.nonce.1 ++ ct), ?_, ?_⟩
  · simp [buildOnionLayer, deriveKeyFromBytes, hkey, henc, bind, Except.bind, pure, Except.pure]
  · rintro keypair rfl
    have hct : TAG_SIZE ≤ ct.length := by
      have := P.encrypt_length henc
      omega
    rw [peelOnionLayer_parts keypair _ _ hct, hP.shared keypair, hkey]
    simp only [hdec]

/-- The round trip of one layer. -/
theorem peel_build (hP : P.Lawful) {keypair : KeyPair P} {payload : OnionPayload} (hfits : payload.Fits)
    {coins : LayerCoins} {frame : Bytes}
    (h : buildOnionLayer P keypair.publicKey payload coins = .ok frame) :
    peelOnionLayer P keypair frame = .ok payload := by
  obtain ⟨frame', h', hpeel⟩ := buildOnionLayer_ok hP keypair.publicKey payload coins
  rw [h] at h'
  cases h'
  rw [hpeel keypair rfl, decodePayload_encodePayload hfits]

/-- A layer that lost its end does not peel if what is left of its ciphertext does not decrypt. -/
theorem peel_cut (hP : P.Lawful) {keypair : KeyPair P} {payload : OnionPayload} {coins : LayerCoins} {frame : Bytes}
    (h : buildOnionLayer P keypair.publicKey payload coins = .ok frame) {m : Nat}
    (hcut : ∀ key ct, P.encrypt key coins.nonce (encodePayload payload) = some ct →
      frame.length = EPHEMERAL_KEY_SIZE + NONCE_SIZE + ct.length →
      P.decrypt key coins.nonce (ct.take (m - (EPHEMERAL_KEY_SIZE + NONCE_SIZE))) = none) :
    ∃ e, peelOnionLayer P keypair (frame.take m) = .error e := by
  have hsizes : EPHEMERAL_KEY_SIZE = 32 ∧ NONCE_SIZE = 12 := ⟨rfl, rfl⟩
  by_cases hshort : (frame.take m).length < EPHEMERAL_KEY_SIZE + NONCE_SIZE + TAG_SIZE
  · refine ⟨.frameTooShort, ?_⟩
    unfold peelOnionLayer
    rw [dif_pos hshort]
  · obtain ⟨key, ct, hkey, henc, rfl⟩ := buildOnionLayer_inv h
    have hnone := hcut key ct henc (by simp only [List.length_append, Arr.length_val]; omega)
    rw [List.length_take] at hshort
    obtain ⟨j, rfl⟩ := Nat.exists_eq_add_of_le (show EPHEMERAL_KEY_SIZE + NONCE_SIZE ≤ m by omega)
    have htake : ((P.publicKey coins.ephemeral).1 ++ (coins.nonce.1 ++ ct)).take (EPHEMERAL_KEY_SIZE + NONCE_SIZE + j) =
        (P.publicKey coins.ephemeral).1 ++ (coins.nonce.1 ++ ct.take j) := by
      have hhead : ((P.publicKey coins.ephemeral).1 ++ coins.nonce.1).length = EPHEMERAL_KEY_SIZE + NONCE_SIZE := by
        simp only [List.length_append, Arr.length_val]
      rw [← hhead, ← List.append_assoc, List.take_length_add_append, List.append_assoc]
    rw [Nat.add_sub_cancel_left] at hnone
    refine ⟨.decryptionFailed, ?_⟩
    simp only [List.length_append, Arr.length_val] at hshort
    rw [htake, peelOnionLayer_parts keypair _ _ (by rw [List.length_take]; omega), hP.shared keypair, hkey]
    simp only [hnone]

/-! ## Hops that do not fit -/

/-- A layer that is built comes off as the payload it was built from, and a hop beyond the length field is
refused by the builder. -/
structure LayerFaithful (keypair : KeyPair P) (payload : OnionPayload) : Prop where
  same : ∀ coins frame, buildOnionLayer P keypair.publicKey payload coins = .ok frame →
    peelOnionLayer P keypair frame = .ok payload
  refused : ¬ payload.Fits → ∀ coins, ∃ e, buildOnionLayer P keypair.publicKey payload coins = .error e

/-- A hop that does not fit is not refused, and the relay peels something else. -/
theorem long_hop_built (hP : P.Lawful) (keypair : KeyPair P) {payload : OnionPayload} (hlong : ¬ payload.Fits)
    (coins : LayerCoins) : ∃ frame, buildOnionLayer P keypair.publicKey payload coins = .ok frame ∧
      peelOnionLayer P keypair frame ≠ .ok payload := by
  obtain ⟨frame, hbuild, hpeel⟩ := buildOnionLayer_ok hP keypair.publicKey payload coins
  refine ⟨frame, hbuild, ?_⟩
  intro hsame
  rw [hpeel keypair rfl] at hsame
  exact hlong (decodePayload_ok hsame).2

/-- **Exactly when a layer is faithful**: the next hop fits the 16-bit length. With a longer one both halves
fail, whatever the draws. -/
theorem layerFaithful_iff (hP : P.Lawful) (keypair : KeyPair P) (payload : OnionPayload) :
    (LayerFaithful keypair payload ↔ payload.Fits) ∧
    (¬ payload.Fits → ∀ coins, ∃ frame, buildOnionLayer P keypair.publicKey payload coins = .ok frame ∧
      peelOnionLayer P keypair frame ≠ .ok payload) := by
  refine ⟨⟨?_, ?_⟩, fun hlong coins => long_hop_built hP keypair hlong coins⟩
  · intro h
    by_contra hlong
    obtain ⟨frame, hbuild, hother⟩ := long_hop_built hP keypair hlong ⟨Arr.zeros 32, Arr.zeros 12⟩
    exact hother (h.same _ frame hbuild)
  · intro hfits
    exact ⟨fun coins frame => peel_build hP hfits, fun hlong => absurd hfits hlong⟩

/-- A representable hop, with primitives that obey the laws. -/
theorem layerFaithful_toy : LayerFaithful (.ofSecret (Arr.zeros 32) : KeyPair .toy) (.forward "127.0.0.1:9002" [7]) :=
  (layerFaithful_iff Primitives.toy_lawful _ _).1.2 (show (utf8 "127.0.0.1:9002").length ≤ 65535 by decide)

/-- A hop of 65536 bytes is built into a layer that peels to the empty hop, the address in front of the body. -/
theorem long_hop_recut :
    (utf8 (repeatA 65536)).length = 65536 ∧
    (∃ coins frame, buildOnionLayer .toy (KeyPair.ofSecret (Arr.zeros 32) : KeyPair .toy).publicKey
        (.forward (repeatA 65536) [7]) coins = .ok frame ∧
      peelOnionLayer .toy (.ofSecret (Arr.zeros 32)) frame = .ok (.forward "" (utf8 (repeatA 65536) ++ [7]))) ∧
    ¬ LayerFaithful (.ofSecret (Arr.zeros 32) : KeyPair .toy) (.forward (repeatA 65536) [7]) := by
  have hlen := utf8_repeatA_length 65536
  generalize repeatA 65536 = hop at hlen ⊢
  obtain ⟨frame, hbuild, hpeel⟩ := buildOnionLayer_ok Primitives.toy_lawful
    (KeyPair.ofSecret (Arr.zeros 32) : KeyPair .toy).publicKey (.forward hop [7]) ⟨Arr.zeros 32, Arr.zeros 12⟩
  have hcut : peelOnionLayer .toy (.ofSecret (Arr.zeros 32)) frame = .ok (.forward "" (utf8 hop ++ [7])) := by
    rw [hpeel _ rfl, decodePayload_forward, hlen, Nat.mod_self, List.take_zero, List.drop_zero]
    rfl
  refine ⟨hlen, ⟨_, frame, hbuild, hcut⟩, fun h => ?_⟩
  have hsame := h.same _ frame hbuild
  rw [hcut] at hsame
  cases hsame
  exact absurd hlen (by decide)

/-! ## Frames -/

/-- `std::io::Error`, by its text. -/
structure IoError where
  text : String
deriving DecidableEq

/-- `write_frame` (forwarding.rs:160): the bytes it puts on the connection; `body.len() as u32` wraps. -/
def writeFrame (body : Bytes) : Bytes := Wire.writeFrame 4 body

/-- `read_frame` (forwarding.rs:169): the body and the rest of the stream, `none` on an early end. -/
def readFrame (stream : Bytes) : Option (Bytes × Bytes) := Wire.readFrame 4 stream

end VeilFabric
