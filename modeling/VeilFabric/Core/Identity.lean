import VeilFabric.Core.Crypto
import VeilFabric.Lib.Json
import VeilFabric.Lib.Text

/-!
# A relay's identity as text (`veil-core/src/crypto/keys.rs:58-73`, `veil-relay/src/main.rs:28-34`)

| here | there |
| --- | --- |
| `HexCrate`           | `hex::encode` and `hex::decode`, which are not part of the repository |
| `KeyPair.toHex`      | `KeyPair::to_hex` (keys.rs:58), which `veil-relay-keygen` prints |
| `KeyPair.fromHex`    | `KeyPair::from_hex` (keys.rs:64) |
| `startIdentity`      | the keypair of `main` (main.rs:28-34), from `static_secret_hex` or a drawn secret |

`startIdentity_exact`: with which identity a relay starts, from which text, and which texts stop it with which
message. So a relay keeps its identity over a restart.
-/

namespace VeilFabric
open Wire Text

variable {P : Primitives}

/-- `hex::encode` and `hex::decode`. -/
structure HexCrate where
  encode : Bytes → String
  decode : String → Option Bytes

/-- Decoding inverts encoding, which writes lower-case digits. The decoder takes letters of either case, and what it
accepts are the digits of what it returns. -/
structure HexCrate.Lawful (H : HexCrate) : Prop where
  decode_encode : ∀ bytes, H.decode (H.encode bytes) = some bytes
  digits : ∀ bytes, ∀ c ∈ (H.encode bytes).toList, c ∈ "0123456789abcdef".toList
  anyCase : ∀ s s' : String, s.toList.map Char.toLower = s'.toList.map Char.toLower → H.decode s = H.decode s'
  of_decode : ∀ s bytes, H.decode s = some bytes → s.toList.map Char.toLower = (H.encode bytes).toList

section Hex
variable (H : HexCrate)

def KeyPair.toHex (self : KeyPair P) : String := H.encode self.secret.1

def KeyPair.fromHex (hexStr : String) : Except VeilError (KeyPair P) :=
  match H.decode (String.ofList (trim hexStr.toList)) with
  | none => .error (.invalidKey "secret key is not valid hex")
  | some bytes =>
    if h : bytes.length = 32 then .ok (.ofSecret ⟨bytes, h⟩)
    else .error (.invalidKey "secret key must decode to exactly 32 bytes")

/-- `load_keypair_from_hex` (main.rs:87) of the configured text, or a secret drawn for this run. -/
def startIdentity (staticSecretHex : Option String) (drawn : Key) : Except VeilError (KeyPair P) :=
  match staticSecretHex with
  | some hex => KeyPair.fromHex H hex
  | none => .ok (.ofSecret drawn)

/-- `digits` is what `encode` gives for `bytes`, in upper or lower case. -/
def IsHexOf (digits : List Char) (bytes : Bytes) : Prop := digits.map Char.toLower = (H.encode bytes).toList

end Hex

variable {H : HexCrate}

theorem HexCrate.Lawful.encode_lower (hH : H.Lawful) (bytes : Bytes) :
    (H.encode bytes).toList.map Char.toLower = (H.encode bytes).toList := by
  have hlower : ∀ c ∈ "0123456789abcdef".toList, c.toLower = c := by simp
  exact (List.map_congr_left fun c hc => hlower c (hH.digits bytes c hc)).trans (List.map_id _)

theorem HexCrate.Lawful.decode_eq_some_iff (hH : H.Lawful) {digits : List Char} {bytes : Bytes} :
    H.decode (String.ofList digits) = some bytes ↔ IsHexOf H digits bytes := by
  constructor
  · intro h
    have hdigits := hH.of_decode _ _ h
    rwa [String.toList_ofList] at hdigits
  · intro h
    rw [hH.anyCase _ (H.encode bytes), hH.decode_encode]
    rw [String.toList_ofList, hH.encode_lower]
    exact h

theorem IsHexOf.inj (hH : H.Lawful) {digits : List Char} {bytes bytes' : Bytes} (h : IsHexOf H digits bytes)
    (h' : IsHexOf H digits bytes') : bytes = bytes' := by
  have hdec := hH.decode_eq_some_iff.2 h
  rw [hH.decode_eq_some_iff.2 h'] at hdec
  exact (Option.some.inj hdec).symm

theorem KeyPair.ext_secret {k k' : KeyPair P} (h : k.secret = k'.secret) : k = k' := by
  obtain ⟨secret, publicKey, rfl⟩ := k
  obtain ⟨secret', publicKey', rfl⟩ := k'
  cases h
  rfl

/-- What `from_hex` returns for a text that is hex. -/
theorem KeyPair.fromHex_hex (hH : H.Lawful) {hexStr : String} {bytes : Bytes}
    (h : IsHexOf H (trim hexStr.toList) bytes) :
    (fromHex H hexStr : Except VeilError (KeyPair P)) = if hlen : bytes.length = 32 then .ok (.ofSecret ⟨bytes, hlen⟩)
      else .error (.invalidKey "secret key must decode to exactly 32 bytes") := by
  rw [fromHex, hH.decode_eq_some_iff.2 h]

theorem KeyPair.fromHex_bad (hH : H.Lawful) {hexStr : String} (h : ∀ bytes, ¬ IsHexOf H (trim hexStr.toList) bytes) :
    (fromHex H hexStr : Except VeilError (KeyPair P)) = .error (.invalidKey "secret key is not valid hex") := by
  have hnone : H.decode (String.ofList (trim hexStr.toList)) = none := by
    rw [Option.eq_none_iff_forall_ne_some]
    exact fun bytes hdec => h bytes (hH.decode_eq_some_iff.1 hdec)
  rw [fromHex, hnone]

/-- White space is in neither case a letter. -/
theorem toLower_white {c : Char} (h : isWhitespace c) : c.toLower = c := by
  unfold Char.toLower
  rw [dif_neg]
  rintro ⟨hge, hle⟩
  have hge' : 65 ≤ c.toNat := hge
  have hle' : c.toNat ≤ 90 := hle
  simp [isWhitespace] at h
  omega

theorem IsHexOf.not_white (hH : H.Lawful) {digits : List Char} {bytes : Bytes} (h : IsHexOf H digits bytes) :
    ∀ c ∈ digits, ¬ isWhitespace c := by
  intro c hc hwhite
  have hdigit : ∀ d ∈ "0123456789abcdef".toList, isWhitespace d = false := by simp [isWhitespace]
  have hmem : c.toLower ∈ (H.encode bytes).toList := by
    rw [← h]
    exact List.mem_map_of_mem hc
  rw [toLower_white hwhite] at hmem
  rw [hdigit c (hH.digits bytes c hmem)] at hwhite
  cases hwhite

/-- What `to_hex` gives for the keypair, in either case and with white space of any kind around it. -/
def IsTextOf (H : HexCrate) (hexStr : String) (k : KeyPair P) : Prop :=
  ∃ before digits after, hexStr.toList = before ++ digits ++ after ∧ (∀ c ∈ before, isWhitespace c) ∧
    (∀ c ∈ after, isWhitespace c) ∧ digits.map Char.toLower = (k.toHex H).toList

theorem isTextOf_iff (hH : H.Lawful) {hexStr : String} {k : KeyPair P} :
    IsTextOf H hexStr k ↔ IsHexOf H (trim hexStr.toList) k.secret.1 := by
  constructor
  · rintro ⟨before, digits, after, hs, hbefore, hafter, hdigits⟩
    have hhex : IsHexOf H digits k.secret.1 := hdigits
    rwa [(trim_eq_iff (hhex.not_white hH)).2 ⟨before, after, hs, hbefore, hafter⟩]
  · intro h
    obtain ⟨before, after, hs, hbefore, hafter⟩ := trim_spec hexStr.toList
    exact ⟨before, _, after, hs, hbefore, hafter, h⟩

/-- `from_hex` loads a keypair from its text, and from nothing else. Other hex is refused for its length, and what is
not hex as such. -/
theorem KeyPair.fromHex_iff (hH : H.Lawful) (hexStr : String) :
    (∀ k : KeyPair P, fromHex H hexStr = .ok k ↔ IsTextOf H hexStr k) ∧
    ((fromHex H hexStr : Except VeilError (KeyPair P)) =
        .error (.invalidKey "secret key must decode to exactly 32 bytes") ↔
      ∃ bytes : Bytes, bytes.length ≠ 32 ∧ IsHexOf H (trim hexStr.toList) bytes) ∧
    ((fromHex H hexStr : Except VeilError (KeyPair P)) = .error (.invalidKey "secret key is not valid hex") ↔
      ∀ bytes : Bytes, ¬ IsHexOf H (trim hexStr.toList) bytes) := by
  by_cases hhex : ∃ bytes, IsHexOf H (trim hexStr.toList) bytes
  · obtain ⟨bytes, hbytes⟩ := hhex
    rw [fromHex_hex hH hbytes]
    by_cases hlen : bytes.length = 32
    · refine ⟨fun k => ?_, iff_of_false (by simp [hlen]) ?_, iff_of_false (by simp [hlen]) fun h => h bytes hbytes⟩
      · rw [dif_pos hlen, isTextOf_iff hH, Except.ok.injEq]
        constructor
        · rintro rfl
          exact hbytes
        · intro h
          exact ext_secret (Subtype.ext (hbytes.inj hH h))
      · rintro ⟨bytes', hlen', h⟩
        rw [hbytes.inj hH h] at hlen
        exact hlen' hlen
    · refine ⟨fun k => iff_of_false (by simp [hlen]) fun h => ?_, iff_of_true (by simp [hlen]) ⟨bytes, hlen, hbytes⟩,
        iff_of_false (by simp [hlen]) fun h => h bytes hbytes⟩
      rw [hbytes.inj hH ((isTextOf_iff hH).1 h)] at hlen
      exact hlen k.secret.2
  · have hnot : ∀ bytes, ¬ IsHexOf H (trim hexStr.toList) bytes := fun bytes h => hhex ⟨bytes, h⟩
    rw [fromHex_bad hH hnot]
    exact ⟨fun k => iff_of_false nofun fun h => hnot _ ((isTextOf_iff hH).1 h),
      iff_of_false (by simp) fun ⟨bytes, _, h⟩ => hnot bytes h, iff_of_true rfl hnot⟩

/-- The line that `veil-relay-keygen` prints. -/
theorem isTextOf_toHex (hH : H.Lawful) (k : KeyPair P) : IsTextOf H (k.toHex H) k :=
  ⟨[], (k.toHex H).toList, [], by simp, nofun, nofun, hH.encode_lower _⟩

/-- **With which identity a relay starts.** Without a configured text it is the drawn one. With one it is the keypair
whose `to_hex` the text is, in either case and with white space around it, and of no other text does a relay
start: hex of another length and what is not hex are refused with their messages. In particular a relay that is
configured with the line printed for its keypair is the same relay after every restart. -/
theorem startIdentity_exact (H : HexCrate) (hH : H.Lawful) (staticSecretHex : Option String) (drawn : Key) :
    (∀ k : KeyPair P, startIdentity H staticSecretHex drawn = .ok k ↔
      (staticSecretHex = none ∧ k = .ofSecret drawn) ∨ ∃ text, staticSecretHex = some text ∧ IsTextOf H text k) ∧
    ((startIdentity H staticSecretHex drawn : Except VeilError (KeyPair P)) =
        .error (.invalidKey "secret key must decode to exactly 32 bytes") ↔
      ∃ text, staticSecretHex = some text ∧ ∃ bytes : Bytes, bytes.length ≠ 32 ∧ IsHexOf H (trim text.toList) bytes) ∧
    ((startIdentity H staticSecretHex drawn : Except VeilError (KeyPair P)) =
        .error (.invalidKey "secret key is not valid hex") ↔
      ∃ text, staticSecretHex = some text ∧ ∀ bytes : Bytes, ¬ IsHexOf H (trim text.toList) bytes) ∧
    ∀ k : KeyPair P, startIdentity H (some (k.toHex H)) drawn = .ok k := by
  have hrestart : ∀ k : KeyPair P, startIdentity H (some (k.toHex H)) drawn = .ok k := fun k =>
    ((KeyPair.fromHex_iff hH (k.toHex H)).1 k).2 (isTextOf_toHex hH k)
  cases staticSecretHex with
  | none =>
    refine ⟨fun k => ?_, by simp [startIdentity], by simp [startIdentity], hrestart⟩
    simp [startIdentity, eq_comm]
  | some text =>
    obtain ⟨hok, hlength, hbad⟩ := KeyPair.fromHex_iff (P := P) hH text
    refine ⟨fun k => ?_, ?_, ?_, hrestart⟩
    · simpa [startIdentity] using hok k
    · simpa [startIdentity] using hlength
    · simpa [startIdentity] using hbad

/-- The crate, by the digits of each byte. -/
def hexDigits : HexCrate := ⟨Hex.encode, Hex.decode⟩

theorem hexDigits_lawful : hexDigits.Lawful where
  decode_encode := Hex.decode_encode
  digits bytes c hc := by
    have hdigit : ∀ n < 16, Nat.digitChar n ∈ "0123456789abcdef".toList := by decide
    change c ∈ (Hex.encode bytes).toList at hc
    rw [Hex.encode, String.toList_ofList, List.mem_flatMap] at hc
    obtain ⟨b, -, hb⟩ := hc
    have hlt := b.toNat_lt
    simp only [List.mem_cons, List.not_mem_nil, or_false] at hb
    rcases hb with rfl | rfl
    · exact hdigit _ (by omega)
    · exact hdigit _ (by omega)
  anyCase s s' h := by
    refine Option.ext fun bytes => ?_
    change Hex.decodeDigits s.toList = some bytes ↔ Hex.decodeDigits s'.toList = some bytes
    rw [Hex.decodeDigits_eq_some_iff, Hex.decodeDigits_eq_some_iff, h]
  of_decode s bytes h := by
    change _ = (Hex.encode bytes).toList
    rw [Hex.encode, String.toList_ofList]
    exact Hex.decodeDigits_eq_some_iff.1 h

/-- The secret of 32 bytes 0xAB, in upper case between a tab and a line feed. -/
theorem startIdentity_upper :
    startIdentity hexDigits (some (String.ofList ('\t' :: (List.replicate 32 ['A', 'B']).flatten ++ ['\n']))) (Arr.zeros 32) =
      .ok (.ofSecret ⟨List.replicate 32 0xAB, List.length_replicate⟩ : KeyPair .toy) := by
  refine ((startIdentity_exact hexDigits hexDigits_lawful _ (Arr.zeros 32)).1 _).2 (.inr ⟨_, rfl, ?_⟩)
  refine ⟨['\t'], (List.replicate 32 ['A', 'B']).flatten, ['\n'], ?_, by simp [isWhitespace], by simp [isWhitespace], ?_⟩
  · rw [String.toList_ofList]
    rfl
  · decide

end VeilFabric
