import VeilFabric.Lib.Wire

/-!
# Formats: a writer and a reader that belong together

A `Codec` is a writer, a reader that hands back what it did not consume, and the two laws that make them one
format: the reader reads a written value in front of anything, and whatever it reads was written. Values the
writer cannot represent (a list longer than its count field) are excluded by `valid`.

The laws are kept by putting formats one after the other, by renaming values, and by lists whose length
stands in front. What a reader needs to be safe on any input follows from them once and for all:
`decode_eq_some_iff` is exact acceptance, `decode_cut` says that a stream cut short is refused, and
`prefix_of_flatMap` that a cut list of values is a shorter list of whole values and an incomplete one.
-/

/-- A format for values of `α` over the symbols `β`. -/
structure Codec (β α : Type) where
  valid : α → Prop
  encode : α → List β
  decode : List β → Option (α × List β)
  decode_encode : ∀ {a : α}, valid a → ∀ rest, decode (encode a ++ rest) = some (a, rest)
  of_decode : ∀ {s : List β} {a : α} {rest : List β}, decode s = some (a, rest) → s = encode a ++ rest ∧ valid a

namespace Codec
open Wire
variable {α β γ : Type} (C : Codec β α)

theorem decode_eq_some_iff {s : List β} {a : α} {rest : List β} :
    C.decode s = some (a, rest) ↔ s = C.encode a ++ rest ∧ C.valid a := by
  constructor
  · intro h
    exact C.of_decode h
  · rintro ⟨rfl, ha⟩
    exact C.decode_encode ha rest

variable {C}

theorem decode_encode_nil {a : α} (ha : C.valid a) : C.decode (C.encode a) = some (a, []) := by
  rw [C.decode_eq_some_iff, List.append_nil]
  exact ⟨rfl, ha⟩

/-- No written value is the beginning of another. -/
theorem encode_append_inj {a b : α} (ha : C.valid a) (hb : C.valid b) {r r' : List β}
    (h : C.encode a ++ r = C.encode b ++ r') : a = b ∧ r = r' := by
  have hread := C.decode_encode ha r
  rw [h, C.decode_encode hb r'] at hread
  cases hread
  exact ⟨rfl, rfl⟩

/-- **A written value cut short is refused.** -/
theorem decode_cut {a : α} (ha : C.valid a) {s t : List β} (h : s ++ t = C.encode a) (ht : t ≠ []) :
    C.decode s = none := by
  cases hread : C.decode s with
  | none => rfl
  | some p =>
    obtain ⟨b, rest⟩ := p
    obtain ⟨rfl, hb⟩ := C.of_decode hread
    rw [List.append_assoc, ← List.append_nil (C.encode a)] at h
    have hrest := (encode_append_inj hb ha h).2
    exact absurd (List.append_eq_nil_iff.1 hrest).2 ht

/-- The beginning of some written values one after the other: cut inside the first, or the first whole and the
beginning of the others. -/
theorem prefix_of_flatMap {a : α} {as : List α} {s : List β} (h : s <+: (a :: as).flatMap C.encode) :
    (∃ t, t ≠ [] ∧ s ++ t = C.encode a) ∨ ∃ s', s = C.encode a ++ s' ∧ s' <+: as.flatMap C.encode := by
  obtain ⟨t, ht⟩ := h
  rw [List.flatMap_cons] at ht
  rcases List.append_eq_append_iff.1 ht with ⟨u, hu, -⟩ | ⟨s', rfl, hs'⟩
  · by_cases hnil : u = []
    · subst hnil
      rw [List.append_nil] at hu
      exact .inr ⟨[], by rw [hu, List.append_nil], List.nil_prefix⟩
    · exact .inl ⟨u, hnil, hu.symm⟩
  · exact .inr ⟨s', rfl, t, hs'.symm⟩

/-- Values written one after the other are the first of any values whose writing starts so. -/
theorem prefix_of_flatMap_append {as bs : List α} (ha : ∀ a ∈ as, C.valid a) (hb : ∀ b ∈ bs, C.valid b)
    (hne : ∀ a ∈ as, C.encode a ≠ []) {r : List β} (h : as.flatMap C.encode ++ r = bs.flatMap C.encode) : as <+: bs := by
  induction as generalizing bs with
  | nil => exact List.nil_prefix
  | cons a as ih =>
    cases bs with
    | nil =>
      rw [List.flatMap_cons, List.flatMap_nil, List.append_assoc] at h
      exact absurd (List.append_eq_nil_iff.1 h).1 (hne a List.mem_cons_self)
    | cons b bs =>
      rw [List.flatMap_cons, List.flatMap_cons, List.append_assoc] at h
      obtain ⟨rfl, hrest⟩ := encode_append_inj (ha a List.mem_cons_self) (hb b List.mem_cons_self) h
      rw [List.cons_prefix_cons]
      exact ⟨rfl, ih (fun x hx => ha x (List.mem_cons_of_mem _ hx)) (fun x hx => hb x (List.mem_cons_of_mem _ hx))
        (fun x hx => hne x (List.mem_cons_of_mem _ hx)) hrest⟩

/-! ## Putting formats together -/

/-- One after the other. -/
def seq (C : Codec β α) (D : Codec β γ) : Codec β (α × γ) where
  valid x := C.valid x.1 ∧ D.valid x.2
  encode x := C.encode x.1 ++ D.encode x.2
  decode s := do
    let (a, s) ← C.decode s
    let (c, s) ← D.decode s
    return ((a, c), s)
  decode_encode := by
    rintro ⟨a, c⟩ ⟨ha, hc⟩ rest
    simp only [List.append_assoc, C.decode_encode ha, Option.bind_eq_bind, Option.bind_some, D.decode_encode hc]
    rfl
  of_decode := by
    intro s x rest h
    obtain ⟨⟨a, s₁⟩, h₁, h⟩ := Option.bind_eq_some_iff.1 h
    obtain ⟨⟨c, s₂⟩, h₂, h⟩ := Option.bind_eq_some_iff.1 h
    cases h
    obtain ⟨rfl, ha⟩ := C.of_decode h₁
    obtain ⟨rfl, hc⟩ := D.of_decode h₂
    exact ⟨(List.append_assoc _ _ _).symm, ha, hc⟩

/-- Other values for what is written: `raw` represents them, `ofRaw` finds the value represented if there is one. -/
def map (C : Codec β α) (ofRaw : α → Option γ) (raw : γ → α) (hraw : ∀ c, ofRaw (raw c) = some c)
    (hof : ∀ {a c}, ofRaw a = some c → raw c = a) : Codec β γ where
  valid c := C.valid (raw c)
  encode c := C.encode (raw c)
  decode s := do
    let (a, s) ← C.decode s
    let c ← ofRaw a
    return (c, s)
  decode_encode := by
    intro c hc rest
    simp only [C.decode_encode hc, Option.bind_eq_bind, Option.bind_some, hraw]
    rfl
  of_decode := by
    intro s c rest h
    obtain ⟨⟨a, s₁⟩, h₁, h⟩ := Option.bind_eq_some_iff.1 h
    obtain ⟨c', hc', h⟩ := Option.bind_eq_some_iff.1 h
    cases h
    obtain ⟨rfl, ha⟩ := C.of_decode h₁
    rw [hof hc']
    exact ⟨rfl, ha⟩

/-- `n` reads in a row. -/
def decodeTimes (C : Codec β α) : Nat → List β → Option (List α × List β)
  | 0, s => some ([], s)
  | n + 1, s => do
    let (a, s) ← C.decode s
    let (as, s) ← decodeTimes C n s
    return (a :: as, s)

theorem decodeTimes_flatMap {as : List α} (h : ∀ a ∈ as, C.valid a) (rest : List β) :
    C.decodeTimes as.length (as.flatMap C.encode ++ rest) = some (as, rest) := by
  induction as with
  | nil => rfl
  | cons a as ih =>
    have hrest := ih fun b hb => h b (by simp [hb])
    simp only [List.length_cons, decodeTimes, List.flatMap_cons, List.append_assoc, C.decode_encode (h a (by simp)),
      Option.bind_eq_bind, Option.bind_some, hrest]
    rfl

theorem of_decodeTimes {n : Nat} {s : List β} {as : List α} {rest : List β}
    (h : C.decodeTimes n s = some (as, rest)) :
    s = as.flatMap C.encode ++ rest ∧ as.length = n ∧ ∀ a ∈ as, C.valid a := by
  induction n generalizing s as with
  | zero =>
    cases h
    exact ⟨rfl, rfl, by simp⟩
  | succ n ih =>
    obtain ⟨⟨a, s₁⟩, h₁, h⟩ := Option.bind_eq_some_iff.1 h
    obtain ⟨⟨as', s₂⟩, h₂, h⟩ := Option.bind_eq_some_iff.1 h
    cases h
    obtain ⟨rfl, ha⟩ := C.of_decode h₁
    obtain ⟨rfl, rfl, has⟩ := ih h₂
    refine ⟨by rw [List.flatMap_cons, List.append_assoc], rfl, ?_⟩
    intro b hb
    rcases List.mem_cons.1 hb with rfl | hb
    · exact ha
    · exact has b hb

/-- A list with its length in front. -/
def counted (N : Codec β Nat) (C : Codec β α) : Codec β (List α) where
  valid as := N.valid as.length ∧ ∀ a ∈ as, C.valid a
  encode as := N.encode as.length ++ as.flatMap C.encode
  decode s := do
    let (n, s) ← N.decode s
    C.decodeTimes n s
  decode_encode := by
    rintro as ⟨hn, has⟩ rest
    simp only [List.append_assoc, N.decode_encode hn, Option.bind_eq_bind, Option.bind_some, decodeTimes_flatMap has]
  of_decode := by
    intro s as rest h
    obtain ⟨⟨n, s₁⟩, h₁, h₂⟩ := Option.bind_eq_some_iff.1 h
    obtain ⟨rfl, hn⟩ := N.of_decode h₁
    obtain ⟨rfl, rfl, has⟩ := of_decodeTimes h₂
    exact ⟨(List.append_assoc _ _ _).symm, hn, has⟩

/-! ## Bytes -/

/-- `n` bytes. -/
def bytes (n : Nat) : Codec UInt8 (Arr n) where
  valid _ := True
  encode a := a.1
  decode s := if h : s.length < n then none else some (⟨s.take n, by simp; omega⟩, s.drop n)
  decode_encode := by
    intro a _ rest
    have hlen : ¬ (a.1 ++ rest).length < n := by simp
    rw [dif_neg hlen]
    simp [List.take_left' a.2, List.drop_left' a.2]
  of_decode := by
    intro s a rest h
    split at h
    · cases h
    · cases h
      exact ⟨(List.take_append_drop n s).symm, trivial⟩

/-- A big-endian number of `w` bytes. -/
def be (w : Nat) : Codec UInt8 Nat where
  valid n := n < 256 ^ w
  encode n := beBytes w n
  decode s := if s.length < w then none else some (beVal (s.take w), s.drop w)
  decode_encode := by
    intro n hn rest
    have hlen : ¬ (beBytes w n ++ rest).length < w := by simp
    rw [if_neg hlen, List.take_left' (beBytes_length w n), List.drop_left' (beBytes_length w n), beVal_beBytes,
      Nat.mod_eq_of_lt hn]
  of_decode := by
    intro s n rest h
    split at h
    · cases h
    · rename_i hlen
      cases h
      have htake : (s.take w).length = w := by simp; omega
      have hlt := beVal_lt (s.take w)
      have hb := beBytes_beVal (s.take w)
      rw [htake] at hlt hb
      exact ⟨by rw [hb, List.take_append_drop], hlt⟩

/-- A frame: its length in `w` bytes, then its body. -/
def frame (w : Nat) : Codec UInt8 Bytes where
  valid b := b.length < 256 ^ w
  encode := writeFrame w
  decode := readFrame w
  decode_encode := readFrame_writeFrame
  of_decode := readFrame_some

/-- UTF-8 text in a frame. -/
def text (w : Nat) : Codec UInt8 String := (frame w).map fromUtf8 utf8 fromUtf8_utf8 utf8_of_fromUtf8

end Codec
