import VeilFabric.Core.Cell

/-!
# Keys and cell encryption (`veil-core/src/crypto`)

| here | there |
| --- | --- |
| `Primitives`   | the crates `x25519_dalek`, `hkdf`, `chacha20poly1305`, which are not part of the repository |
| `KeyPair`      | `struct KeyPair` (keys.rs:25); both constructors compute the public key from the secret |
| `deriveKey`    | `SharedSecret::derive_key` (keys.rs:92) |
| `encryptCell`  | `encrypt_cell` (encryption.rs:28), the drawn nonce as an argument |
| `decryptCell`  | `decrypt_cell` (encryption.rs:54) |

The primitives are a parameter. Their *lengths* are fields, as the code copies ciphertexts and
plaintexts into arrays of fixed size; everything else a result relies on is a hypothesis of that result:
`Primitives.Lawful` where both sides of a channel have to agree.
-/

namespace VeilFabric
open Wire

abbrev NONCE_SIZE : Nat := 12
abbrev TAG_SIZE : Nat := 16
abbrev ENCRYPTED_CELL_SIZE : Nat := NONCE_SIZE + CELL_SIZE + TAG_SIZE

/-- 32 bytes: a secret, a public key, a shared secret or a symmetric key. -/
abbrev Key := Arr 32
abbrev Nonce := Arr NONCE_SIZE

/-- X25519, HKDF-SHA256 without salt to 32 bytes, and ChaCha20-Poly1305. -/
structure Primitives where
  publicKey : Key → Key
  diffieHellman : (secret peerPublic : Key) → Key
  hkdf : (secret : Key) → (context : Bytes) → Option Key
  encrypt : Key → Nonce → Bytes → Option Bytes
  decrypt : Key → Nonce → Bytes → Option Bytes
  encrypt_length : ∀ {k n p c}, encrypt k n p = some c → c.length = p.length + TAG_SIZE
  decrypt_length : ∀ {k n p c}, decrypt k n c = some p → c.length = p.length + TAG_SIZE

/-- The primitives work: the exchange commutes, the 32-byte expansion is defined, and what is encrypted
decrypts under the same key and nonce. -/
structure Primitives.Lawful (P : Primitives) : Prop where
  dh_comm : ∀ a b, P.diffieHellman a (P.publicKey b) = P.diffieHellman b (P.publicKey a)
  hkdf_some : ∀ s ctx, ∃ k, P.hkdf s ctx = some k
  seal_open : ∀ k n p, ∃ c, P.encrypt k n p = some c ∧ P.decrypt k n c = some p

structure KeyPair (P : Primitives) where
  secret : Key
  publicKey : Key
  publicKey_eq : publicKey = P.publicKey secret

variable {P : Primitives}

/-- `KeyPair::generate` (keys.rs:33) from the drawn secret. -/
def KeyPair.ofSecret (secret : Key) : KeyPair P := ⟨secret, P.publicKey secret, rfl⟩

/-- `KeyPair::diffie_hellman` (keys.rs:49). -/
def KeyPair.diffieHellman (self : KeyPair P) (peerPublic : Key) : Key := P.diffieHellman self.secret peerPublic

variable (P)

/-- `SharedSecret::derive_key` (keys.rs:92). -/
def deriveKey (shared : Key) (context : Bytes) : Except VeilError Key :=
  match P.hkdf shared context with
  | some okm => .ok okm
  | none => .error (.invalidKey "HKDF expand failed: invalid output length")

/-- `encrypt_cell` (encryption.rs:28). -/
def encryptCell (key : Key) (nonce : Nonce) (cell : Cell) : Except VeilError (Arr ENCRYPTED_CELL_SIZE) :=
  match h : P.encrypt key nonce cell.toBytes.1 with
  | none => .error .encryptionFailed
  | some ciphertext => .ok ⟨nonce.1 ++ ciphertext, by
      rw [List.length_append, nonce.2, P.encrypt_length h, cell.toBytes.2]
      rfl⟩

/-- `&data[..NONCE_SIZE]` -/
def nonceOf (data : Arr ENCRYPTED_CELL_SIZE) : Nonce := data.slice 0 NONCE_SIZE (by decide)

/-- `decrypt_cell` (encryption.rs:54). -/
def decryptCell (key : Key) (data : Arr ENCRYPTED_CELL_SIZE) : Except VeilError Cell :=
  match h : P.decrypt key (nonceOf data) (data.1.drop NONCE_SIZE) with
  | none => .error .decryptionFailed
  | some plaintext => Cell.fromBytes ⟨plaintext, by
      have hlen := P.decrypt_length h
      rw [List.length_drop, data.2] at hlen
      exact (Nat.add_right_cancel (show CELL_SIZE + TAG_SIZE = plaintext.length + TAG_SIZE from hlen)).symm⟩

variable {P}

/-- What `encrypt_cell` puts on the wire. -/
theorem encryptCell_ok {key : Key} {nonce : Nonce} {cell : Cell} {data : Arr ENCRYPTED_CELL_SIZE}
    (h : encryptCell P key nonce cell = .ok data) :
    ∃ ciphertext, P.encrypt key nonce cell.toBytes.1 = some ciphertext ∧ data.1 = nonce.1 ++ ciphertext := by
  unfold encryptCell at h
  split at h
  · cases h
  · rename_i ciphertext hc
    cases h
    exact ⟨ciphertext, hc, rfl⟩

/-- A decrypted cell was parsed from the authenticated plaintext. -/
theorem decryptCell_ok {key : Key} {data : Arr ENCRYPTED_CELL_SIZE} {cell : Cell}
    (h : decryptCell P key data = .ok cell) :
    ∃ buf : Arr CELL_SIZE, P.decrypt key (nonceOf data) (data.1.drop NONCE_SIZE) = some buf.1 ∧
      Cell.fromBytes buf = .ok cell := by
  unfold decryptCell at h
  split at h
  · cases h
  · rename_i plaintext hp
    exact ⟨⟨plaintext, _⟩, hp, h⟩

theorem decryptCell_wf {key : Key} {data : Arr ENCRYPTED_CELL_SIZE} {cell : Cell}
    (h : decryptCell P key data = .ok cell) : cell.WF := by
  obtain ⟨buf, -, hbuf⟩ := decryptCell_ok h
  exact Cell.fromBytes_wf hbuf

/-- **Decryption inverts encryption**, cell for cell. -/
theorem decryptCell_encryptCell (hP : P.Lawful) {cell : Cell} (hc : cell.WF) (key : Key) (nonce : Nonce) :
    ∃ data, encryptCell P key nonce cell = .ok data ∧ decryptCell P key data = .ok cell := by
  obtain ⟨ct, henc, hdec⟩ := hP.seal_open key nonce cell.toBytes.1
  obtain ⟨data, hdata⟩ : ∃ data, encryptCell P key nonce cell = .ok data := by
    unfold encryptCell
    split
    · rename_i hnone
      rw [henc] at hnone; cases hnone
    · exact ⟨_, rfl⟩
  obtain ⟨ct', henc', hval⟩ := encryptCell_ok hdata
  rw [henc] at henc'
  cases henc'
  have hnonce : nonceOf data = nonce := by
    apply Subtype.ext
    simp [nonceOf, Arr.slice, hval]
  have hbody : data.1.drop NONCE_SIZE = ct := by simp [hval]
  refine ⟨data, hdata, ?_⟩
  unfold decryptCell
  split
  · rename_i hnone
    rw [hnonce, hbody, hdec] at hnone; cases hnone
  · rename_i plaintext hp
    rw [hnonce, hbody, hdec] at hp
    cases hp
    exact Cell.fromBytes_toBytes hc

/-! ## A lawful instance -/

/-- The first half of a key. -/
def toyTag (k : Key) : Arr TAG_SIZE := k.slice 0 TAG_SIZE (by decide)

/-- Byte-wise addition as the exchange, and a cipher that writes the first half of the key in front of the
plaintext and checks it. It keeps no secrets; it shows that the laws are consistent and lets concrete
circuits be computed. -/
def Primitives.toy : Primitives where
  publicKey s := s
  diffieHellman a b := ⟨List.zipWith (· + ·) a.1 b.1, by simp⟩
  hkdf s _ := some s
  encrypt k _ p := some ((toyTag k).1 ++ p)
  decrypt k _ c := if c.take TAG_SIZE = (toyTag k).1 then some (c.drop TAG_SIZE) else none
  encrypt_length {k _ p c} h := by
    cases h
    rw [List.length_append, (toyTag k).2, Nat.add_comm]
  decrypt_length {k _ p c} h := by
    split at h
    · rename_i htag
      cases h
      have hlen := congrArg List.length htag
      rw [List.length_take, (toyTag k).2] at hlen
      rw [List.length_drop]
      omega
    · cases h

theorem Primitives.toy_decrypt_none {k : Key} {c : Bytes} (h : c.take TAG_SIZE ≠ (toyTag k).1) (n : Nonce) :
    toy.decrypt k n c = none := if_neg h

theorem Primitives.toy_lawful : toy.Lawful where
  dh_comm a b := Subtype.ext (List.zipWith_comm_of_comm UInt8.add_comm)
  hkdf_some s _ := ⟨s, rfl⟩
  seal_open k _ p := by
    refine ⟨_, rfl, ?_⟩
    have htake : ((toyTag k).1 ++ p).take TAG_SIZE = (toyTag k).1 := List.take_left' (toyTag k).2
    have hdrop : ((toyTag k).1 ++ p).drop TAG_SIZE = p := List.drop_left' (toyTag k).2
    simp only [toy, htake, hdrop, if_true]

/-- The exchange of `toy`, with a cipher that writes a tag for the length of the plaintext in front of it and checks
it. -/
def Primitives.tagged (tag : Nat → Arr TAG_SIZE) : Primitives where
  __ := Primitives.toy
  encrypt _ _ p := some ((tag p.length).1 ++ p)
  decrypt _ _ c :=
    if TAG_SIZE ≤ c.length ∧ c.take TAG_SIZE = (tag (c.length - TAG_SIZE)).1 then some (c.drop TAG_SIZE) else none
  encrypt_length {k _ p c} h := by
    cases h
    rw [List.length_append, Arr.length_val, Nat.add_comm]
  decrypt_length {k _ p c} h := by
    split at h
    · rename_i htag
      cases h
      rw [List.length_drop]
      omega
    · cases h

theorem Primitives.tagged_lawful (tag : Nat → Arr TAG_SIZE) : (tagged tag).Lawful where
  dh_comm := toy_lawful.dh_comm
  hkdf_some := toy_lawful.hkdf_some
  seal_open k _ p := by
    refine ⟨_, rfl, ?_⟩
    have htake : ((tag p.length).1 ++ p).take TAG_SIZE = (tag p.length).1 := List.take_left' (Arr.length_val _)
    have hdrop : ((tag p.length).1 ++ p).drop TAG_SIZE = p := List.drop_left' (Arr.length_val _)
    have hlen : ((tag p.length).1 ++ p).length = TAG_SIZE + p.length := by rw [List.length_append, Arr.length_val]
    simp only [tagged, htake, hdrop, hlen, Nat.add_sub_cancel_left, Nat.le_add_right, and_self, if_true]

/-- What is left of a ciphertext does not decrypt if the tag for its length is another one. -/
theorem Primitives.tagged_cut {tag : Nat → Arr TAG_SIZE} {k : Key} {n : Nonce} {p c : Bytes}
    (henc : (tagged tag).encrypt k n p = some c) {m : Nat} (hm : TAG_SIZE ≤ m → tag p.length ≠ tag (m - TAG_SIZE))
    (hc : m ≤ c.length) : (tagged tag).decrypt k n (c.take m) = none := by
  cases henc
  refine if_neg ?_
  rintro ⟨hlen, htag⟩
  rw [List.length_take, Nat.min_eq_left hc] at hlen htag
  rw [List.take_take, Nat.min_eq_left hlen, List.take_left' (Arr.length_val _)] at htag
  exact hm hlen (Subtype.ext htag)

end VeilFabric
