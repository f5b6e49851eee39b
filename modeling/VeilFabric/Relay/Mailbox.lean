import VeilFabric.Relay.Forwarding
import VeilFabric.Lib.Codec

/-!
# The mailbox and its pull protocol (`veil-relay/src/mailbox.rs`, `pull_listener.rs`)

| here | there |
| --- | --- |
| `Mailbox.push`, `Mailbox.drain` | mailbox.rs:31, :38; the lock makes each of them one step |
| `handleRequest`                 | `handle_request` (pull_listener.rs:68): the mailbox it leaves and the bytes it writes |
| `pull`                          | `pull` (pull_listener.rs:115), on the bytes of the response |
| `describe`                      | `describe` (pull_listener.rs:133), likewise |
| `allocate`                      | `Vec::with_capacity`, `vec![0u8; len]`: a request the allocator refuses aborts the process |

Server and client are separate code on the two ends of a connection. `pullFormat` and `describeFormat` are the
formats they share: the server writes them (`handleRequest_pull_bytes`, `handleRequest_describe_bytes`), and the
client reads them as long as its requests for memory are granted (`pull_reads`, `describe_reads`). What the library
knows of formats is then true of the protocol (`mailbox_protocol_iff`). The requests are for what the response
announces, before any of it has arrived: four bytes are enough to ask for 96 GiB (`announced_count_aborts`).

Where memory is not the question, `pulled` and `described` are what the client returns.
-/

namespace VeilFabric
open Wire

/-- The delivery queue, oldest first. -/
abbrev Mailbox := List Bytes

/-- `Mailbox::push` (mailbox.rs:31). -/
def Mailbox.push (self : Mailbox) (cell : Bytes) : Mailbox := self ++ [cell]

/-- `Mailbox::drain` (mailbox.rs:38): what is left, and what is returned. -/
def Mailbox.drain (self : Mailbox) : Mailbox × List Bytes := ([], self)

structure RelayIdentity where
  id : String
  publicKey : Key
  mainAddr : String

def PULL_REQUEST_BYTE : UInt8 := 0x01
def DESCRIBE_REQUEST_BYTE : UInt8 := 0x02

/-- `write_len_prefixed` (pull_listener.rs:96); `bytes.len() as u16` wraps. -/
def writeLenPrefixed (bytes : Bytes) : Bytes := Wire.writeFrame 2 bytes

/-- `handle_request` (pull_listener.rs:68). -/
def handleRequest (request : UInt8) (mailbox : Mailbox) (identity : RelayIdentity) : Mailbox × Bytes :=
  if request = PULL_REQUEST_BYTE then
    let (mailbox, cells) := mailbox.drain
    (mailbox, beBytes 4 cells.length ++ cells.flatMap writeFrame)
  else if request = DESCRIBE_REQUEST_BYTE then
    (mailbox, writeLenPrefixed (utf8 identity.id) ++ (identity.publicKey.1 ++ writeLenPrefixed (utf8 identity.mainAddr)))
  else (mailbox, [])

/-! ## The client -/

/-- How a call ends: with a value, with an error, or with the whole process. -/
inductive Outcome (α : Type) where
  | ok (a : α)
  | error (e : IoError)
  | aborted
deriving DecidableEq

def Outcome.bind {α β : Type} : Outcome α → (α → Outcome β) → Outcome β
  | .ok a, f => f a
  | .error e, _ => .error e
  | .aborted, _ => .aborted

instance : Monad Outcome where
  pure := .ok
  bind := .bind

/-- A buffer of `n` bytes. Nothing is asked for an empty one; `handle_alloc_error` aborts. -/
def allocate (granted : Nat → Bool) (n : Nat) : Outcome Unit := if n = 0 ∨ granted n = true then .ok () else .aborted

/-- `stream.read_exact(&mut buf)` with a buffer of `n` bytes. -/
def readExact (n : Nat) (stream : Bytes) : Outcome (Arr n × Bytes) :=
  if h : stream.length < n then .error ⟨"early eof"⟩
  else .ok (⟨stream.take n, by simp; omega⟩, stream.drop n)

/-- A length of `w` bytes, a buffer of that length, and its content. -/
def readSized (w : Nat) (granted : Nat → Bool) (stream : Bytes) : Outcome (Bytes × Bytes) := do
  let (lenBuf, rest) ← readExact w stream
  allocate granted (beVal lenBuf.1)
  let (buf, rest) ← readExact (beVal lenBuf.1) rest
  return (buf.1, rest)

/-- `count` calls of `read_frame` (forwarding.rs:169). -/
def pullCells (grants : Nat → Nat → Bool) : (count : Nat) → Bytes → Outcome (List Bytes × Bytes)
  | 0, stream => .ok ([], stream)
  | count + 1, stream => do
    let (cell, rest) ← readSized 4 (grants 0) stream
    let (cells, rest) ← pullCells (fun i => grants (i + 1)) count rest
    return (cell :: cells, rest)

/-- `size_of::<Vec<u8>>()`, on 64 bits. -/
def VEC_SIZE : Nat := 24

/-- `pull` (pull_listener.rs:115), on the response, with what it leaves unread; `grants i` answers the `i`-th request. -/
def pull (grants : Nat → Nat → Bool) (response : Bytes) : Outcome (List Bytes × Bytes) := do
  let (countBuf, rest) ← readExact 4 response
  let count := beVal countBuf.1
  allocate (grants 0) (VEC_SIZE * count)
  pullCells (fun i => grants (i + 1)) count rest

/-- `read_len_prefixed_string` (pull_listener.rs:103). -/
def readLenPrefixedString (granted : Nat → Bool) (stream : Bytes) : Outcome (String × Bytes) := do
  let (buf, rest) ← readSized 2 granted stream
  match fromUtf8 buf with
  | some s => return (s, rest)
  | none => .error ⟨"not valid utf-8"⟩

/-- `describe` (pull_listener.rs:133), on the response, with what it leaves unread. -/
def describe (grants : Nat → Nat → Bool) (response : Bytes) : Outcome (RelayIdentity × Bytes) := do
  let (id, rest) ← readLenPrefixedString (grants 0) response
  let (publicKey, rest) ← readExact 32 rest
  let (mainAddr, rest) ← readLenPrefixedString (grants 1) rest
  return (⟨id, publicKey, mainAddr⟩, rest)

/-! ## What the client asks for -/

/-- The number that the first `w` bytes announce. -/
def announced (w : Nat) (stream : Bytes) : Option Nat := if stream.length < w then none else some (beVal (stream.take w))

theorem announced_eq_none {w : Nat} {stream : Bytes} : announced w stream = none ↔ stream.length < w := by
  unfold announced
  split <;> simp [*]

/-- The buffers for `count` frames, as far as the stream goes. -/
def frameRequests : (count : Nat) → Bytes → List Nat
  | 0, _ => []
  | count + 1, stream =>
    (announced 4 stream).toList ++
      match readFrame stream with
      | none => []
      | some (_, rest) => frameRequests count rest

/-- The buffers that `pull` asks for: the list of the cells, and each of them. -/
def pullRequests (response : Bytes) : List Nat :=
  match announced 4 response with
  | none => []
  | some count => VEC_SIZE * count :: frameRequests count (response.drop 4)

/-- The buffers that `describe` asks for. -/
def describeRequests (response : Bytes) : List Nat :=
  (announced 2 response).toList ++
    match (Codec.text 2).decode response with
    | none => []
    | some (_, rest) => (announced 2 (rest.drop 32)).toList

/-- The allocator grants these requests, one after the other. -/
def Granted (grants : Nat → Nat → Bool) (requests : List Nat) : Prop :=
  ∀ i n, requests[i]? = some n → n = 0 ∨ grants i n = true

theorem granted_nil (grants : Nat → Nat → Bool) : Granted grants [] := by
  intro i n h
  cases h

theorem granted_cons (grants : Nat → Nat → Bool) (n : Nat) (ns : List Nat) :
    Granted grants (n :: ns) ↔ (n = 0 ∨ grants 0 n = true) ∧ Granted (fun i => grants (i + 1)) ns := by
  constructor
  · intro h
    exact ⟨h 0 n rfl, fun i m hm => h (i + 1) m hm⟩
  · rintro ⟨hfirst, hrest⟩ i m hm
    cases i with
    | zero =>
      cases hm
      exact hfirst
    | succ i => exact hrest i m hm

theorem granted_option {grants : Nat → Nat → Bool} {request : Option Nat} :
    Granted grants request.toList ↔ ∀ n, request = some n → n = 0 ∨ grants 0 n = true := by
  cases request with
  | none => simp [granted_nil]
  | some n => simp [granted_cons, granted_nil]

/-! ## Readers -/

/-- The value, if there is one. -/
def Outcome.value {α : Type} : Outcome α → Option α
  | .ok a => some a
  | _ => none

/-- A call that ends the process iff its requests are not granted, and else reads `decoded`. -/
structure Reads {α : Type} (x : Outcome α) (granted : Prop) (decoded : Option α) : Prop where
  aborts : x = .aborted ↔ ¬ granted
  reads : granted → x.value = decoded

namespace Reads
variable {α β : Type} {x : Outcome α} {granted : Prop} {decoded : Option α}

theorem congr {granted' : Prop} {decoded' : Option α} (h : Reads x granted decoded) (hgranted : granted ↔ granted')
    (hdecoded : decoded = decoded') : Reads x granted' decoded' := by
  rw [← hdecoded]
  exact ⟨h.aborts.trans (not_congr hgranted), fun hg => h.reads (hgranted.2 hg)⟩

/-- One call after the other. -/
theorem bind {f : α → Outcome β} {granted' : α → Prop} {decoded' : α → Option β} (h : Reads x granted decoded)
    (hf : ∀ a, decoded = some a → Reads (f a) (granted' a) (decoded' a)) :
    Reads (x >>= f) (granted ∧ ∀ a, decoded = some a → granted' a) (decoded >>= decoded') := by
  by_cases hg : granted
  · have hvalue := h.reads hg
    cases x with
    | aborted => exact absurd hg (h.aborts.1 rfl)
    | error e =>
      obtain rfl : decoded = none := hvalue.symm
      exact ⟨⟨nofun, fun hno => absurd ⟨hg, nofun⟩ hno⟩, fun _ => rfl⟩
    | ok a =>
      obtain rfl : decoded = some a := hvalue.symm
      refine (hf a rfl).congr ⟨fun hrest => ⟨hg, ?_⟩, fun hboth => hboth.2 a rfl⟩ rfl
      rintro _ ⟨⟩
      exact hrest
  · obtain rfl : x = .aborted := h.aborts.2 hg
    exact ⟨⟨fun _ hboth => hg hboth.1, fun _ => rfl⟩, fun hboth => absurd hboth.1 hg⟩

/-- What is returned is what was decoded. -/
theorem of_ok (h : Reads x granted decoded) {a : α} (hx : x = .ok a) : decoded = some a := by
  subst hx
  have hg : granted := by
    by_contra hno
    cases h.aborts.2 hno
  exact (h.reads hg).symm

/-- **A reader is exact on the values of its format iff its requests are granted**: a written value is read back, and one
cut short is an error. -/
theorem exact_iff {C : Codec UInt8 α} {x : Outcome (α × Bytes)} {a : α} (ha : C.valid a) {s t : Bytes}
    (hs : s ++ t = C.encode a) (h : Reads x granted (C.decode s)) :
    (t = [] → x = .ok (a, [])) ∧ (t ≠ [] → ∃ e, x = .error e) ↔ granted := by
  constructor
  · rintro ⟨hwhole, hcut⟩
    by_contra hno
    obtain rfl := h.aborts.2 hno
    by_cases ht : t = []
    · cases hwhole ht
    · obtain ⟨e, he⟩ := hcut ht
      cases he
  · intro hg
    have hvalue := h.reads hg
    have hstays := mt h.aborts.1 (not_not.2 hg)
    refine ⟨fun ht => ?_, fun ht => ?_⟩
    · rw [ht, List.append_nil] at hs
      rw [hs, Codec.decode_encode_nil ha] at hvalue
      cases x with
      | ok y =>
        cases hvalue
        rfl
      | error e => cases hvalue
      | aborted => cases hvalue
    · rw [Codec.decode_cut ha hs ht] at hvalue
      cases x with
      | ok y => cases hvalue
      | error e => exact ⟨e, rfl⟩
      | aborted => exact absurd rfl hstays

end Reads

/-! ## The two answers as formats -/

/-- The answer to PULL: the number of cells, and each of them in a frame. -/
def pullFormat : Codec UInt8 (List Bytes) := .counted (.be 4) (.frame 4)

/-- The answer to DESCRIBE: two texts around the 32 bytes of the key. -/
def describeFormat : Codec UInt8 RelayIdentity :=
  ((Codec.text 2).seq ((Codec.bytes 32).seq (Codec.text 2))).map (fun x => some ⟨x.1, x.2.1, x.2.2⟩)
    (fun identity => (identity.id, identity.publicKey, identity.mainAddr)) (fun _ => rfl) (by rintro _ _ ⟨⟩; rfl)

theorem handleRequest_pull_bytes (cells : Mailbox) (identity : RelayIdentity) :
    (handleRequest PULL_REQUEST_BYTE cells identity).2 = pullFormat.encode cells := rfl

theorem handleRequest_describe_bytes (mailbox : Mailbox) (identity : RelayIdentity) :
    (handleRequest DESCRIBE_REQUEST_BYTE mailbox identity).2 = describeFormat.encode identity := rfl

theorem readExact_reads (n : Nat) (stream : Bytes) : Reads (readExact n stream) True ((Codec.bytes n).decode stream) := by
  change Reads _ _ (dite _ _ _)
  unfold readExact
  split
  · exact ⟨⟨nofun, fun h => absurd trivial h⟩, fun _ => rfl⟩
  · exact ⟨⟨nofun, fun h => absurd trivial h⟩, fun _ => rfl⟩

theorem allocate_reads (granted : Nat → Bool) (n : Nat) :
    Reads (allocate granted n) (n = 0 ∨ granted n = true) (some ()) := by
  unfold allocate
  split
  · rename_i h
    exact ⟨⟨nofun, fun hno => absurd h hno⟩, fun _ => rfl⟩
  · rename_i h
    exact ⟨⟨fun _ => h, fun _ => rfl⟩, fun hg => absurd hg h⟩

theorem ok_reads {α : Type} (a : α) : Reads (.ok a) True (some a) :=
  ⟨⟨nofun, fun h => absurd trivial h⟩, fun _ => rfl⟩

/-- A frame with a length of `w` bytes, for one request. -/
theorem readSized_reads (w : Nat) (granted : Nat → Bool) (stream : Bytes) :
    Reads (readSized w granted stream) (∀ n, announced w stream = some n → n = 0 ∨ granted n = true)
      (Wire.readFrame w stream) := by
  have h := (readExact_reads w stream).bind fun x _ =>
    (allocate_reads granted (beVal x.1.1)).bind fun _ _ =>
      (readExact_reads (beVal x.1.1) x.2).bind fun y _ => ok_reads (y.1.1, y.2)
  refine Reads.congr h ?_ ?_
  · change (_ ∧ ∀ x, dite _ _ _ = some x → _) ↔ ∀ n, ite _ _ _ = some n → _
    split
    · simp
    · simp
  · change (dite _ _ _ >>= _) = Wire.readFrame w stream
    unfold Wire.readFrame
    split
    · rfl
    · change ((Codec.bytes (beVal (stream.take w))).decode (stream.drop w) >>= fun y => some (y.1.1, y.2)) = ite _ _ _
      change (dite _ _ _ >>= _) = _
      split <;> rfl

theorem readLenPrefixedString_reads (granted : Nat → Bool) (stream : Bytes) :
    Reads (readLenPrefixedString granted stream) (∀ n, announced 2 stream = some n → n = 0 ∨ granted n = true)
      ((Codec.text 2).decode stream) := by
  have htext : ∀ x : Bytes × Bytes, Reads (match fromUtf8 x.1 with
      | some s => pure (s, x.2)
      | none => .error ⟨"not valid utf-8"⟩ : Outcome (String × Bytes)) True (fromUtf8 x.1 >>= fun s => some (s, x.2)) := by
    intro x
    cases fromUtf8 x.1 with
    | none => exact ⟨⟨nofun, fun h => absurd trivial h⟩, fun _ => rfl⟩
    | some s => exact ok_reads (s, x.2)
  have h := (readSized_reads 2 granted stream).bind fun x _ => htext x
  exact h.congr ⟨fun hboth => hboth.1, fun hg => ⟨hg, fun _ _ => trivial⟩⟩ rfl

theorem pullCells_reads (grants : Nat → Nat → Bool) (count : Nat) (stream : Bytes) :
    Reads (pullCells grants count stream) (Granted grants (frameRequests count stream))
      ((Codec.frame 4).decodeTimes count stream) := by
  induction count generalizing grants stream with
  | zero => exact (ok_reads ([], stream)).congr ⟨fun _ => granted_nil grants, fun _ => trivial⟩ rfl
  | succ count ih =>
    have h := (readSized_reads 4 (grants 0) stream).bind fun x _ =>
      (ih (fun i => grants (i + 1)) x.2).bind fun y _ => ok_reads (x.1 :: y.1, y.2)
    refine Reads.congr h ?_ rfl
    rw [frameRequests]
    unfold announced readFrame
    by_cases hlen : stream.length < 4
    · have hnone : Wire.readFrame 4 stream = none := by simp [Wire.readFrame, hlen]
      simp [hlen, hnone, granted_nil]
    · cases hread : Wire.readFrame 4 stream with
      | none => simp [hlen, granted_cons, granted_nil]
      | some x => simp [hlen, granted_cons]

theorem pull_reads (grants : Nat → Nat → Bool) (response : Bytes) :
    Reads (pull grants response) (Granted grants (pullRequests response)) (pullFormat.decode response) := by
  have h := (readExact_reads 4 response).bind fun x _ =>
    (allocate_reads (grants 0) (VEC_SIZE * beVal x.1.1)).bind fun _ _ =>
      pullCells_reads (fun i => grants (i + 1)) (beVal x.1.1) x.2
  refine Reads.congr h ?_ ?_
  · change (_ ∧ ∀ x, dite _ _ _ = some x → _) ↔ _
    unfold pullRequests announced
    by_cases hlen : response.length < 4
    · simp [hlen, granted_nil]
    · simp [hlen, granted_cons]
  · change (dite _ _ _ >>= _) = ((if response.length < 4 then none else some (beVal (response.take 4), response.drop 4) :
      Option (Nat × Bytes)) >>= _)
    split <;> rfl

theorem granted_describe {grants : Nat → Nat → Bool} {response : Bytes} :
    Granted grants (describeRequests response) ↔
      (∀ n, announced 2 response = some n → n = 0 ∨ grants 0 n = true) ∧
      ∀ x, (Codec.text 2).decode response = some x →
        ∀ n, announced 2 (x.2.drop 32) = some n → n = 0 ∨ grants 1 n = true := by
  unfold describeRequests
  cases hid : announced 2 response with
  | none =>
    have hnone : (Codec.text 2).decode response = none := by
      rw [announced_eq_none] at hid
      change Wire.readFrame 2 response >>= _ = none
      simp [Wire.readFrame, hid]
    simp [hnone, granted_nil]
  | some n =>
    cases (Codec.text 2).decode response with
    | none => simp [granted_cons, granted_nil]
    | some x => simp [granted_cons, granted_option]

/-- What comes after a key is announced only if the key is there. -/
theorem announced_after_bytes {stream : Bytes} {ok : Nat → Prop} :
    (∀ y, (Codec.bytes 32).decode stream = some y → ∀ n, announced 2 y.2 = some n → ok n) ↔
      ∀ n, announced 2 (stream.drop 32) = some n → ok n := by
  by_cases hlen : stream.length < 32
  · have hkey : (Codec.bytes 32).decode stream = none := dif_pos hlen
    have hnone : announced 2 (stream.drop 32) = none := by
      rw [announced_eq_none, List.length_drop]
      omega
    simp [hkey, hnone]
  · have hkey : (Codec.bytes 32).decode stream = some (⟨stream.take 32, by simp; omega⟩, stream.drop 32) := dif_neg hlen
    constructor
    · intro h
      exact h _ hkey
    · rintro h y hy
      rw [hkey] at hy
      cases hy
      exact h

theorem describe_reads (grants : Nat → Nat → Bool) (response : Bytes) :
    Reads (describe grants response) (Granted grants (describeRequests response)) (describeFormat.decode response) := by
  have h := (readLenPrefixedString_reads (grants 0) response).bind fun x _ =>
    (readExact_reads 32 x.2).bind fun y _ =>
      (readLenPrefixedString_reads (grants 1) y.2).bind fun z _ => ok_reads ((⟨x.1, y.1, z.1⟩ : RelayIdentity), z.2)
  refine Reads.congr h ?_ ?_
  · rw [granted_describe]
    refine and_congr_right fun _ => forall₂_congr fun x _ => ?_
    rw [true_and, ← announced_after_bytes]
    exact forall₂_congr fun y _ => and_iff_left fun _ _ => trivial
  · simp only [describeFormat, Codec.map, Codec.seq, Option.bind_eq_bind, Option.bind_assoc, Option.pure_def,
      Option.bind_some]

/-! ## With memory to spare -/

/-- Every request is granted. -/
def ample : Nat → Nat → Bool := fun _ _ => true

theorem granted_ample (requests : List Nat) : Granted ample requests := fun _ _ _ => .inr rfl

/-- What `pull` returns then; `none` is an error. -/
def pulled (response : Bytes) : Option (List Bytes) := (pull ample response).value.map Prod.fst

/-- What `describe` returns then. -/
def described (response : Bytes) : Except IoError RelayIdentity :=
  match describe ample response with
  | .ok (identity, _) => .ok identity
  | .error e => .error e
  | .aborted => .error ⟨"memory allocation failed"⟩

theorem pulled_eq (response : Bytes) : pulled response = (pullFormat.decode response).map Prod.fst := by
  rw [pulled, (pull_reads ample response).reads (granted_ample _)]

theorem described_toOption (response : Bytes) :
    (described response).toOption = (describeFormat.decode response).map Prod.fst := by
  rw [← (describe_reads ample response).reads (granted_ample _), described]
  cases describe ample response <;> rfl

/-- **A pull returns what the mailbox held.** -/
theorem pulled_handleRequest {cells : Mailbox} (hcount : cells.length < 2 ^ 32) (h : ∀ c ∈ cells, c.length < 2 ^ 32)
    (identity : RelayIdentity) :
    (handleRequest PULL_REQUEST_BYTE cells identity).1 = [] ∧
    pulled (handleRequest PULL_REQUEST_BYTE cells identity).2 = some cells := by
  have hvalid : pullFormat.valid cells := ⟨hcount, h⟩
  refine ⟨rfl, ?_⟩
  rw [pulled_eq, handleRequest_pull_bytes, Codec.decode_encode_nil hvalid]
  rfl

/-- What a pull reads of a response, whole or cut, are the first cells of the mailbox; all of them if the count
fits its field. -/
theorem pulled_of_prefix {cells : Mailbox} (h : ∀ c ∈ cells, c.length < 2 ^ 32) {identity : RelayIdentity} {read : Bytes}
    (hread : read <+: (handleRequest PULL_REQUEST_BYTE cells identity).2) {cells' : List Bytes}
    (hpull : pulled read = some cells') : cells' <+: cells ∧ (cells.length < 2 ^ 32 → cells' = cells) := by
  rw [pulled_eq] at hpull
  obtain ⟨⟨_, rest⟩, hdec, rfl⟩ := Option.map_eq_some_iff.1 hpull
  obtain ⟨rfl, hcount, hcells⟩ := pullFormat.of_decode hdec
  rename_i cells'
  obtain ⟨t, ht⟩ := hread
  -- the count and the frames, one after the other
  change beBytes 4 cells'.length ++ cells'.flatMap (Codec.frame 4).encode ++ rest ++ t =
    beBytes 4 cells.length ++ cells.flatMap (Codec.frame 4).encode at ht
  simp only [List.append_assoc] at ht
  obtain ⟨hlen, hframes⟩ := List.append_inj ht (by rw [beBytes_length, beBytes_length])
  have hlen' := congrArg beVal hlen
  rw [beVal_beBytes, beVal_beBytes, Nat.mod_eq_of_lt hcount] at hlen'
  have hcut : cells' <+: cells := by
    refine Codec.prefix_of_flatMap_append hcells h (fun c _ hnil => ?_) hframes
    have hwritten := congrArg List.length (show Wire.writeFrame 4 c = [] from hnil)
    rw [Wire.writeFrame_length] at hwritten
    simp at hwritten
  refine ⟨hcut, fun hlt => hcut.eq_of_length ?_⟩
  rw [hlen']
  exact Nat.mod_eq_of_lt hlt

/-- The identities whose texts fit their length fields. -/
theorem describeFormat_valid_iff {identity : RelayIdentity} :
    describeFormat.valid identity ↔ (utf8 identity.id).length ≤ 65535 ∧ (utf8 identity.mainAddr).length ≤ 65535 := by
  change ((utf8 identity.id).length < 256 ^ 2 ∧ True ∧ (utf8 identity.mainAddr).length < 256 ^ 2) ↔ _
  rw [true_and]
  omega

/-! ## The protocol -/

/-- **The client reads what the server writes, and nothing else, iff its requests for memory are granted.** For PULL and
for DESCRIBE: on the response to a request, whole or cut, the client returns what it was written from, with nothing
left over, or an error if it is cut, iff the allocator grants the buffers that the bytes announce. And whatever is
returned from any stream was written so, byte for byte as far as it was consumed. -/
theorem mailbox_protocol_iff (grants : Nat → Nat → Bool) (mailbox : Mailbox) (identity : RelayIdentity) :
    (∀ cells : List Bytes, cells.length < 2 ^ 32 → (∀ c ∈ cells, c.length < 2 ^ 32) →
      ∀ s t, s ++ t = (handleRequest PULL_REQUEST_BYTE cells identity).2 →
        ((t = [] → pull grants s = .ok (cells, [])) ∧ (t ≠ [] → ∃ e, pull grants s = .error e) ↔
          Granted grants (pullRequests s))) ∧
    (∀ stream cells rest, pull grants stream = .ok (cells, rest) →
      stream = (handleRequest PULL_REQUEST_BYTE cells identity).2 ++ rest) ∧
    ((utf8 identity.id).length ≤ 65535 → (utf8 identity.mainAddr).length ≤ 65535 →
      ∀ s t, s ++ t = (handleRequest DESCRIBE_REQUEST_BYTE mailbox identity).2 →
        ((t = [] → describe grants s = .ok (identity, [])) ∧ (t ≠ [] → ∃ e, describe grants s = .error e) ↔
          Granted grants (describeRequests s))) ∧
    ∀ stream rest, describe grants stream = .ok (identity, rest) →
      stream = (handleRequest DESCRIBE_REQUEST_BYTE mailbox identity).2 ++ rest := by
  refine ⟨?_, ?_, ?_, ?_⟩
  · intro cells hcount hshort s t hs
    have hvalid : pullFormat.valid cells := ⟨hcount, hshort⟩
    exact (pull_reads grants s).exact_iff hvalid hs
  · intro stream cells rest h
    exact (pullFormat.of_decode ((pull_reads grants stream).of_ok h)).1
  · intro hid haddr s t hs
    exact (describe_reads grants s).exact_iff (describeFormat_valid_iff.2 ⟨hid, haddr⟩) hs
  · intro stream rest h
    exact (describeFormat.of_decode ((describe_reads grants stream).of_ok h)).1

/-- An allocator with 64 GiB. -/
def grants64GiB : Nat → Nat → Bool := fun _ n => n ≤ 2 ^ 36

/-- **Four bytes end the client.** They are the start of the answer of a mailbox with 2³² - 1 empty cells, and announce
as many: the client asks for 103079215080 bytes and is aborted before it has read a frame, where a cut answer is to
be an error. -/
theorem announced_count_aborts : ∃ (cells : List Bytes) (t : Bytes), cells.length < 2 ^ 32 ∧
    (∀ c ∈ cells, c.length < 2 ^ 32) ∧ t ≠ [] ∧
    [255, 255, 255, 255] ++ t = (handleRequest PULL_REQUEST_BYTE cells ⟨"relay", Arr.zeros 32, "127.0.0.1:9001"⟩).2 ∧
    pullRequests [255, 255, 255, 255] = [103079215080] ∧
    pull grants64GiB [255, 255, 255, 255] = .aborted ∧ ∀ e, pull grants64GiB [255, 255, 255, 255] ≠ .error e := by
  obtain ⟨n, hn⟩ : ∃ n, n = 2 ^ 32 - 2 := ⟨_, rfl⟩
  have hlen : (List.replicate (n + 1) ([] : Bytes)).length = 2 ^ 32 - 1 := by
    rw [List.length_replicate]
    omega
  have hbytes : beBytes 4 (2 ^ 32 - 1) = [255, 255, 255, 255] := by decide
  have hrequests : pullRequests [255, 255, 255, 255] = [103079215080] := by
    have hannounced : announced 4 [255, 255, 255, 255] = some 4294967295 := by decide
    have hframes : ∀ count, frameRequests count [] = [] := by
      intro count
      cases count <;> rfl
    rw [pullRequests, hannounced]
    exact congrArg (103079215080 :: ·) (hframes _)
  have haborts : pull grants64GiB [255, 255, 255, 255] = .aborted := by
    refine (pull_reads grants64GiB _).aborts.2 fun hgranted => ?_
    rw [hrequests] at hgranted
    exact absurd (hgranted 0 103079215080 rfl) (by decide)
  refine ⟨List.replicate (n + 1) [], (List.replicate (n + 1) []).flatMap writeFrame, ?_, ?_, ?_, ?_, hrequests, haborts, ?_⟩
  · rw [hlen]; decide
  · intro c hc
    rw [List.eq_of_mem_replicate hc]
    decide
  · rw [List.replicate_succ, List.flatMap_cons]
    exact List.append_ne_nil_of_left_ne_nil (by decide) _
  · change _ = beBytes 4 (List.replicate (n + 1) ([] : Bytes)).length ++ _
    rw [hlen, hbytes]
  · intro e he
    rw [haborts] at he
    cases he

end VeilFabric
