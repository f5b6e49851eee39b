import VeilFabric.Routing.Circuit

/-!
# What colluding relays learn of a circuit

`THREAT_MODEL.md` ("A note on trust assumptions") promises that compromised relays see no further than the
first honest one. Here the compromised keypairs are a set `S`, and `Recovers S frame ps` are all the ways
in which they can peel `frame`, then the body found in it, and so on, trying any key at any layer.

The primitives are assumed ideal for the keypairs in `S` (`Separates`): under a key agreed with another
public key nothing decrypts. `stopsAtHonest_iff` says the promise holds exactly when the addresses that
`S` reads fit the 16-bit length field of a layer. A longer one is cut short by the encoder.
-/

namespace VeilFabric
open Wire

variable {P : Primitives}

/-- Nothing sealed for the public key `pk` opens under `keypair`. -/
def Separates (P : Primitives) (pk : Key) (keypair : KeyPair P) : Prop :=
  ∀ (ephemeral key key' : Key) (nonce : Nonce) (plaintext ciphertext : Bytes),
    P.hkdf (P.diffieHellman ephemeral pk) ONION_KEY_CONTEXT = some key →
    P.hkdf (P.diffieHellman keypair.secret (P.publicKey ephemeral)) ONION_KEY_CONTEXT = some key' →
    P.encrypt key nonce plaintext = some ciphertext → P.decrypt key' nonce ciphertext = none

/-- Successful peels with keypairs of `S`: of the frame, then of the body each one reveals. -/
inductive Recovers (S : Set (KeyPair P)) : Bytes → List OnionPayload → Prop
  | stop (frame : Bytes) : Recovers S frame []
  | deliver {keypair : KeyPair P} {frame body : Bytes} : keypair ∈ S →
      peelOnionLayer P keypair frame = .ok (.deliver body) → Recovers S frame [.deliver body]
  | forward {keypair : KeyPair P} {frame body : Bytes} {nextHop : String} {ps : List OnionPayload} : keypair ∈ S →
      peelOnionLayer P keypair frame = .ok (.forward nextHop body) → Recovers S body ps →
      Recovers S frame (.forward nextHop body :: ps)

/-- The key of hop `i` belongs to `S`. -/
def Compromised (S : Set (KeyPair P)) (path : List RelayInfo) (i : Nat) : Prop :=
  ∃ r keypair, path[i]? = some r ∧ keypair ∈ S ∧ keypair.publicKey = r.publicKey

/-- `j` is the first hop at or after `i` whose key is not in `S`, or the end of the path. -/
structure FirstHonest (S : Set (KeyPair P)) (path : List RelayInfo) (i j : Nat) : Prop where
  le : i ≤ j
  le_length : j ≤ path.length
  before : ∀ k, i ≤ k → k < j → Compromised S path k
  honest : j < path.length → ¬ Compromised S path j

/-- From the layer of hop `i`, `S` recovers what hops `i, …, j - 1` are told and any initial part of it,
nothing else; the layer of hop `j` stays closed; and the final body is recovered iff every hop from `i` on
is compromised. -/
structure StopsAtHonest (S : Set (KeyPair P)) (path : List RelayInfo) (finalBody : Bytes) (layers : Nat → Bytes)
    (i j : Nat) : Prop where
  recovers : ∀ ps, Recovers S (layers i) ps ↔ ps <+: (List.range' i (j - i)).map (told path finalBody layers)
  closed : j < path.length → ∀ keypair ∈ S, peelOnionLayer P keypair (layers j) = .error .decryptionFailed
  body : (∃ ps, Recovers S (layers i) ps ∧ .deliver finalBody ∈ ps) ↔ ∀ k, i ≤ k → k < path.length → Compromised S path k

section
variable {S : Set (KeyPair P)} {path : List RelayInfo} {finalBody : Bytes} {coins : Nat → LayerCoins}
  {layers : Nat → Bytes}

/-- A keypair of another public key gets `DecryptionFailed`. -/
theorem peel_other (hP : P.Lawful) {pk : Key} {keypair : KeyPair P} (hsep : Separates P pk keypair)
    {payload : OnionPayload} {coins : LayerCoins} {frame : Bytes}
    (h : buildOnionLayer P pk payload coins = .ok frame) :
    peelOnionLayer P keypair frame = .error .decryptionFailed := by
  obtain ⟨key, ct, hkey, henc, rfl⟩ := buildOnionLayer_inv h
  obtain ⟨key', hkey'⟩ := hP.hkdf_some (keypair.diffieHellman (P.publicKey coins.ephemeral)) ONION_KEY_CONTEXT
  have hct : TAG_SIZE ≤ ct.length := by
    have := P.encrypt_length henc
    omega
  rw [peelOnionLayer_parts keypair _ _ hct, hkey']
  simp only [hsep _ _ _ _ _ _ hkey hkey' henc]

/-- Peeling a frame that tells `p` can only go on from there. -/
theorem recovers_cons_inv {frame : Bytes} {p : OnionPayload} {ps : List OnionPayload} (h : Recovers S frame (p :: ps)) :
    ∃ keypair ∈ S, peelOnionLayer P keypair frame = .ok p ∧
      (∀ body, p = .deliver body → ps = []) ∧ ∀ nextHop body, p = .forward nextHop body → Recovers S body ps := by
  cases h with
  | deliver hk hp => exact ⟨_, hk, hp, fun _ _ => rfl, nofun⟩
  | forward hk hp hps =>
    refine ⟨_, hk, hp, nofun, ?_⟩
    rintro _ _ ⟨⟩
    exact hps

/-- Conversely a chain of peels reads every layer it passes as its hop is told. -/
theorem recovers_chain {i m : Nat} (hlen : i + m ≤ path.length)
    (h : Recovers S (layers i) ((List.range' i m).map (told path finalBody layers))) {k : Nat} (hik : i ≤ k)
    (hkm : k < i + m) : ∃ keypair ∈ S, peelOnionLayer P keypair (layers k) = .ok (told path finalBody layers k) := by
  induction m generalizing i with
  | zero => omega
  | succ m ih =>
    rw [List.range'_succ, List.map_cons] at h
    obtain ⟨keypair, hk, hp, -, hrest⟩ := recovers_cons_inv h
    rcases Nat.eq_or_lt_of_le hik with rfl | hlt
    · exact ⟨keypair, hk, hp⟩
    · exact ih (by omega) (hrest _ _ (told_of_lt (by omega))) (by omega) (by omega)

variable (hP : P.Lawful) (hlayers : IsLayers P path finalBody coins layers)
  (hsep : ∀ r ∈ path, ∀ keypair ∈ S, keypair.publicKey ≠ r.publicKey → Separates P r.publicKey keypair)
include hP hlayers hsep

/-- A keypair of `S` either owns the layer of hop `k` and reads what its encoded payload decodes to, or
gets `DecryptionFailed`. -/
theorem peel_layer {k : Nat} {r : RelayInfo} (hr : path[k]? = some r) {keypair : KeyPair P} (hk : keypair ∈ S) :
    (keypair.publicKey = r.publicKey ∧
      peelOnionLayer P keypair (layers k) = decodePayload (encodePayload (told path finalBody layers k))) ∨
    (keypair.publicKey ≠ r.publicKey ∧ peelOnionLayer P keypair (layers k) = .error .decryptionFailed) := by
  have hbuilt := hlayers.built hr
  by_cases hpk : keypair.publicKey = r.publicKey
  · obtain ⟨frame, hframe, hpeel⟩ := buildOnionLayer_ok hP r.publicKey (told path finalBody layers k) (coins k)
    rw [hbuilt] at hframe
    cases hframe
    exact .inl ⟨hpk, hpeel keypair hpk⟩
  · exact .inr ⟨hpk, peel_other hP (hsep r (List.mem_of_getElem? hr) keypair hk hpk) hbuilt⟩

theorem peel_honest {k : Nat} (hk : k < path.length) (hno : ¬ Compromised S path k) :
    ∀ keypair ∈ S, peelOnionLayer P keypair (layers k) = .error .decryptionFailed := by
  intro keypair hkp
  have hr := List.getElem?_eq_getElem hk
  rcases peel_layer hP hlayers hsep hr hkp with ⟨hpk, -⟩ | ⟨-, h⟩
  · exact absurd ⟨_, keypair, hr, hkp, hpk⟩ hno
  · exact h

/-- Whatever `S` reads in the layer of a hop with a fitting address is what the hop is told. -/
theorem peel_layer_ok {k : Nat} (hk : k < path.length) (hfits : AddressFits path (k + 1)) {keypair : KeyPair P}
    (hkp : keypair ∈ S) {p : OnionPayload} (hp : peelOnionLayer P keypair (layers k) = .ok p) :
    p = told path finalBody layers k := by
  rcases peel_layer hP hlayers hsep (List.getElem?_eq_getElem hk) hkp with ⟨-, h⟩ | ⟨-, h⟩
  · rw [decodePayload_encodePayload (told_fits hfits), hp] at h
    exact Except.ok.inj h
  · rw [hp] at h; cases h

/-- Nothing is recovered from the layer of an honest hop. -/
theorem recovers_honest {i : Nat} (hi : i < path.length) (hno : ¬ Compromised S path i) (ps : List OnionPayload) :
    Recovers S (layers i) ps ↔ ps = [] := by
  have hclosed := peel_honest hP hlayers hsep hi hno
  constructor
  · intro h
    cases ps with
    | nil => rfl
    | cons p ps =>
      obtain ⟨keypair, hk, hp, -, -⟩ := recovers_cons_inv h
      rw [hclosed keypair hk] at hp
      cases hp
  · rintro rfl
    exact .stop _

section
variable {i : Nat} (hi : Compromised S path i) (hfit : AddressFits path (i + 1)) (p : OnionPayload)
  (ps : List OnionPayload)
include hi hfit

/-- From the layer of a compromised hop: what the hop is told, and then what the next layer yields. -/
theorem recovers_forward (hnext : i + 1 < path.length) :
    Recovers S (layers i) (p :: ps) ↔ p = told path finalBody layers i ∧ Recovers S (layers (i + 1)) ps := by
  obtain ⟨r, keypair, hr, hk, hpk⟩ := hi
  have hpeel := hlayers.peel hP hr hpk hfit
  have htold := @told_of_lt path finalBody layers i hnext
  constructor
  · intro h
    obtain ⟨keypair, hk, hp, -, hrest⟩ := recovers_cons_inv h
    have hp := peel_layer_ok hP hlayers hsep (by omega) hfit hk hp
    exact ⟨hp, hrest _ _ (hp.trans htold)⟩
  · rintro ⟨rfl, hps⟩
    rw [htold] at hpeel ⊢
    exact .forward hk hpeel hps

/-- From the layer of a compromised exit: what it is told, and nothing more. -/
theorem recovers_deliver (hlast : path.length ≤ i + 1) :
    Recovers S (layers i) (p :: ps) ↔ p = told path finalBody layers i ∧ ps = [] := by
  obtain ⟨r, keypair, hr, hk, hpk⟩ := hi
  have hlt := (List.getElem?_eq_some_iff.1 hr).1
  have hpeel := hlayers.peel hP hr hpk hfit
  have htold := @told_of_last path finalBody layers i hlast
  constructor
  · intro h
    obtain ⟨keypair, hk, hp, hrest, -⟩ := recovers_cons_inv h
    have hp := peel_layer_ok hP hlayers hsep hlt hfit hk hp
    exact ⟨hp, hrest _ (hp.trans htold)⟩
  · rintro ⟨rfl, rfl⟩
    rw [htold] at hpeel ⊢
    exact .deliver hk hpeel

end

/-- **What is recovered**, when the addresses on the way fit: exactly the initial parts of what the hops
before the first honest one are told. -/
theorem recovers_iff {i j : Nat} (hi : i < path.length) (hj : FirstHonest S path i j)
    (hfits : ∀ k, i < k → k ≤ j → AddressFits path k) (ps : List OnionPayload) :
    Recovers S (layers i) ps ↔ ps <+: (List.range' i (j - i)).map (told path finalBody layers) := by
  obtain ⟨m, rfl⟩ := Nat.exists_eq_add_of_le hj.le
  rw [Nat.add_sub_cancel_left]
  -- one hop at a time: `m` hops are left before the first honest one
  induction m generalizing i ps with
  | zero =>
    rw [List.range'_zero, List.map_nil, List.prefix_nil]
    exact recovers_honest hP hlayers hsep hi (hj.honest hi) ps
  | succ m ih =>
    have hcomp := hj.before i (Nat.le_refl i) (by omega)
    have hfit : AddressFits path (i + 1) := hfits (i + 1) (by omega) (by omega)
    rw [List.range'_succ, List.map_cons]
    cases ps with
    | nil => exact ⟨fun _ => List.nil_prefix, fun _ => .stop _⟩
    | cons p ps =>
      rw [List.cons_prefix_cons]
      by_cases hnext : i + 1 < path.length
      · have hj' : FirstHonest S path (i + 1) (i + 1 + m) := by
          rw [show i + (m + 1) = i + 1 + m by omega] at hj
          exact ⟨by omega, hj.le_length, fun k h1 h2 => hj.before k (by omega) h2, hj.honest⟩
        have hrest := ih hnext ps hj' fun k h1 h2 => hfits k (by omega) (by omega)
        rw [recovers_forward hP hlayers hsep hcomp hfit p ps hnext, hrest]
      · have hlen := hj.le_length
        obtain rfl : m = 0 := by omega
        rw [List.range'_zero, List.map_nil, List.prefix_nil]
        exact recovers_deliver hP hlayers hsep hcomp hfit p ps (Nat.le_of_not_lt hnext)

/-- An address that `S` should read but that does not fit comes out as another one, or not at all. -/
theorem not_stopsAtHonest {i j : Nat} (hj : FirstHonest S path i j) {k : Nat} (hik : i < k) (hkj : k ≤ j)
    (hlong : ¬ AddressFits path k) : ¬ StopsAtHonest S path finalBody layers i j := by
  intro h
  unfold AddressFits at hlong
  push Not at hlong
  obtain ⟨r, hr, hlong⟩ := hlong
  obtain ⟨hk, rfl⟩ := List.getElem?_eq_some_iff.1 hr
  obtain ⟨k, rfl⟩ : ∃ k', k = k' + 1 := ⟨k - 1, by omega⟩
  have hle := hj.le
  have hjl := hj.le_length
  obtain ⟨keypair, hkp, hp⟩ := recovers_chain (by omega) ((h.recovers _).2 (List.prefix_refl _))
    (k := k) (by omega) (by omega)
  rcases peel_layer hP hlayers hsep (List.getElem?_eq_getElem (show k < path.length by omega)) hkp with
    ⟨-, hpeel⟩ | ⟨-, hpeel⟩
  · rw [hp, told_of_lt hk] at hpeel
    obtain ⟨hop, rest, heq, hne⟩ := decodePayload_encodePayload_long hlong _ hpeel.symm
    cases heq
    exact hne rfl
  · rw [hp] at hpeel; cases hpeel

end

/-- **Colluding relays stop at the first honest hop.** For every path, body, coins, set `S` of compromised
keypairs and hop `i`, with `j` the first honest hop at or after `i`: what `S` recovers from the layer of
hop `i` is exactly what the hops before `j` are told, iff the addresses of the hops `i + 1, …, j` fit the
16-bit length field of a layer. -/
theorem stopsAtHonest_iff (hP : P.Lawful) (S : Set (KeyPair P)) (path : List RelayInfo) (finalBody : Bytes)
    (coins : Nat → LayerCoins) (layers : Nat → Bytes) (hlayers : IsLayers P path finalBody coins layers)
    (hsep : ∀ r ∈ path, ∀ keypair ∈ S, keypair.publicKey ≠ r.publicKey → Separates P r.publicKey keypair)
    (i j : Nat) (hi : i < path.length) (hj : FirstHonest S path i j) :
    StopsAtHonest S path finalBody layers i j ↔
      ∀ k r, i < k → k ≤ j → path[k]? = some r → (utf8 r.address).length ≤ 65535 := by
  constructor
  · intro h k r hik hkj hr
    by_contra hlong
    exact not_stopsAtHonest hP hlayers hsep hj hik hkj (fun hfits => hlong (hfits r hr)) h
  · intro hfits
    have hrec := recovers_iff hP hlayers hsep hi hj fun k h1 h2 r hr => hfits k r h1 h2 hr
    refine ⟨hrec, fun hjl => peel_honest hP hlayers hsep hjl (hj.honest hjl), ?_, ?_⟩
    · rintro ⟨ps, hps, hmem⟩ k hik hk
      obtain ⟨k', hk', htold⟩ := List.mem_map.1 (((hrec ps).1 hps).subset hmem)
      rw [List.mem_range'_1] at hk'
      by_cases hlast : k' + 1 < path.length
      · rw [told_of_lt hlast] at htold; cases htold
      · exact hj.before k hik (by omega)
    · intro hall
      have hle := hj.le_length
      have hjn : j = path.length := by
        by_contra hne
        exact hj.honest (by omega) (hall j hj.le (by omega))
      refine ⟨_, (hrec _).2 (List.prefix_refl _), List.mem_map.2 ⟨path.length - 1, ?_, told_of_last (by omega)⟩⟩
      rw [List.mem_range'_1]
      omega

/-! ## Two hops, the entry compromised -/

/-- The toy cipher tells keys apart by their first byte. -/
theorem toy_separates {pk : Key} {keypair : KeyPair .toy} (h : pk.1.getD 0 0 ≠ keypair.secret.1.getD 0 0) :
    Separates .toy pk keypair := by
  have hhead : ∀ a b : Key, (toyTag (Primitives.toy.diffieHellman a b)).1.getD 0 0 = a.1.getD 0 0 + b.1.getD 0 0 := by
    rintro ⟨_ | ⟨x, xs⟩, hx⟩ ⟨_ | ⟨y, ys⟩, hy⟩
    · cases hx
    · cases hx
    · cases hy
    · rfl
  rintro ephemeral _ _ nonce plaintext _ ⟨⟩ ⟨⟩ ⟨⟩
  have htag : ((toyTag (Primitives.toy.diffieHellman ephemeral pk)).1 ++ plaintext).take TAG_SIZE =
      (toyTag (Primitives.toy.diffieHellman ephemeral pk)).1 := List.take_left' (Arr.length_val _)
  refine Primitives.toy_decrypt_none (fun heq => h ?_) nonce
  rw [htag] at heq
  have hb := congrArg (fun l : Bytes => l.getD 0 0) heq
  simp only [hhead] at hb
  rw [UInt8.add_comm] at hb
  exact (UInt8.add_left_inj _).1 hb

/-- The entry relay's keypair. -/
def entryOnly : Set (KeyPair .toy) := {.ofSecret (flatKey 0)}

theorem entryOnly_separates (exitAddress : String) : ∀ r ∈ twoHops exitAddress, ∀ keypair ∈ entryOnly,
    keypair.publicKey ≠ r.publicKey → Separates .toy r.publicKey keypair := by
  rintro r hr _ rfl hne
  simp only [twoHops, List.mem_cons, List.not_mem_nil, or_false] at hr
  rcases hr with rfl | rfl
  · exact absurd rfl hne
  · exact toy_separates (show (flatKey 1).1.getD 0 0 ≠ (flatKey 0).1.getD 0 0 by decide)

theorem entryOnly_firstHonest (exitAddress : String) : FirstHonest entryOnly (twoHops exitAddress) 0 1 where
  le := by decide
  le_length := by simp [twoHops]
  before k _ hk := by
    obtain rfl : k = 0 := by omega
    exact ⟨_, _, rfl, rfl, rfl⟩
  honest _ := by
    rintro ⟨r, keypair, hr, rfl, hpk⟩
    cases hr
    exact absurd hpk (show flatKey 0 ≠ flatKey 1 by decide)

theorem stopsAtHonest_twoHops : ∃ layers, IsLayers .toy (twoHops "127.0.0.1:9002") [7] noCoins layers ∧
    StopsAtHonest entryOnly (twoHops "127.0.0.1:9002") [7] layers 0 1 := by
  obtain ⟨layers, hlayers⟩ := exists_layers Primitives.toy_lawful (twoHops "127.0.0.1:9002") [7] noCoins
  refine ⟨layers, hlayers, (stopsAtHonest_iff Primitives.toy_lawful entryOnly _ _ _ layers hlayers
    (entryOnly_separates _) 0 1 (by simp [twoHops]) (entryOnly_firstHonest _)).2 ?_⟩
  intro k r hk hk' hr
  obtain rfl : k = 1 := by omega
  cases hr
  decide

theorem twoHops_not_stopsAtHonest {a : String} (hlong : 65535 < (utf8 a).length) {layers : Nat → Bytes}
    (hlayers : IsLayers .toy (twoHops a) [7] noCoins layers) :
    ¬ StopsAtHonest entryOnly (twoHops a) [7] layers 0 1 := by
  refine not_stopsAtHonest Primitives.toy_lawful hlayers (entryOnly_separates a) (entryOnly_firstHonest a)
    Nat.zero_lt_one (Nat.le_refl 1) fun hfits => ?_
  exact Nat.not_le.2 hlong (hfits ⟨"exit", a, flatKey 1⟩ rfl)

/-- An exit address of 65 536 bytes is written with length 0: the entry relay's keypair reads the empty
address, and the address itself as part of the body. -/
theorem stopsAtHonest_fails_twoHops : ∃ layers, IsLayers .toy (twoHops (repeatA 65536)) [7] noCoins layers ∧
    FirstHonest entryOnly (twoHops (repeatA 65536)) 0 1 ∧
    (∀ r ∈ twoHops (repeatA 65536), ∀ keypair ∈ entryOnly,
      keypair.publicKey ≠ r.publicKey → Separates .toy r.publicKey keypair) ∧
    ¬ StopsAtHonest entryOnly (twoHops (repeatA 65536)) [7] layers 0 1 := by
  have hlong : 65535 < (utf8 (repeatA 65536)).length := by rw [utf8_repeatA_length]; decide
  generalize repeatA 65536 = a at hlong ⊢
  obtain ⟨layers, hlayers⟩ := exists_layers Primitives.toy_lawful (twoHops a) [7] noCoins
  exact ⟨layers, hlayers, entryOnly_firstHonest a, entryOnly_separates a, twoHops_not_stopsAtHonest hlong hlayers⟩

end VeilFabric
