import VeilFabric.Sdk.RunLength
import VeilFabric.Sdk.Sending

/-!
# Calls of `send` to one recipient, among others

`Mail` is the calls under way over a network: those for one recipient and those for others. `Mail.Fresh` is what
the fabric keeps about them: no cell for the recipient is written twice.
-/

namespace VeilFabric
open Wire

variable {P : Primitives} {identity : KeyPair P}

/-- A call of `send` for `identity` over a network. -/
def SendTo.call (x : SendTo identity) {net : Network P} (known : x.client.topology.relays ⊆ net.relays.relays) :
    SendCall net := ⟨x.client, known, x.session, x.message.bytes, x.message.id, x.draws⟩

theorem SendTo.call_routed (x : SendTo identity) {net : Network P}
    (known : x.client.topology.relays ⊆ net.relays.relays) :
    (x.call known).routed = x.client.routedCells x.session x.draws 0 x.message.cells := by
  unfold SendCall.routed SendTo.call
  simp only [x.message.sent]

theorem SendTo.opened_initial (hP : P.Lawful) (x : SendTo identity) {net : Network P}
    (known : x.client.topology.relays ⊆ net.relays.relays) :
    opened identity (x.call known).routed <+: x.message.cells := by
  rw [x.call_routed known]
  exact opened_routedCells hP x.established x.message.frag.wf x.draws 0

/-- The calls under way: those for `identity`, whose messages have ids of their own, and those for others, whose
envelopes `identity` cannot open. Every circuit fits a frame. -/
structure Mail (net : Network P) (identity : KeyPair P) (ι κ : Type) where
  sends : ι → SendTo identity
  known : ∀ i, (sends i).client.topology.relays ⊆ net.relays.relays
  ids : Function.Injective fun i => (sends i).message.id
  others : κ → SendCall net
  unreadable : ∀ k, ∀ r ∈ (others k).routed, openEnvelope identity r.envelope.1 = none
  fits : ∀ i, ∀ r ∈ ((sends i).call (known i)).routed, r.FitsFrame
  fits_others : ∀ k, ∀ r ∈ (others k).routed, r.FitsFrame

namespace Mail
variable {net : Network P} {ι κ : Type} (mail : Mail net identity ι κ)

def calls : ι ⊕ κ → SendCall net := Sum.elim (fun i => (mail.sends i).call (mail.known i)) mail.others

theorem calls_fit (j : ι ⊕ κ) : ∀ r ∈ (mail.calls j).routed, r.FitsFrame :=
  match j with
  | .inl i => mail.fits i
  | .inr k => mail.fits_others k

/-- What is opened of the cells of any call belongs to a message for `identity`. -/
theorem mem_opened (hP : P.Lawful) {j : ι ⊕ κ} {rs : List (RoutedCell P)} (hrs : rs ⊆ (mail.calls j).routed) {c : Cell}
    (hc : c ∈ opened identity rs) : ∃ i, j = .inl i ∧ c ∈ (mail.sends i).message.cells := by
  obtain ⟨r, hr, hopen⟩ := List.mem_filterMap.1 hc
  cases j with
  | inl i =>
    have hmem : c ∈ opened identity (mail.calls (.inl i)).routed := List.mem_filterMap.2 ⟨r, hrs hr, hopen⟩
    exact ⟨i, rfl, ((mail.sends i).opened_initial hP (mail.known i)).subset hmem⟩
  | inr k =>
    rw [mail.unreadable k r (hrs hr)] at hopen
    cases hopen

/-- No call opens a cell twice. -/
theorem opened_nodup (hP : P.Lawful) (j : ι ⊕ κ) : (opened identity (mail.calls j).routed).Nodup := by
  cases j with
  | inl i => exact ((mail.sends i).message.frag.nodup).sublist ((mail.sends i).opened_initial hP (mail.known i)).sublist
  | inr k =>
    have hnil : opened identity (mail.others k).routed = [] := List.filterMap_eq_nil_iff.2 (mail.unreadable k)
    exact hnil ▸ List.nodup_nil

section Runs
variable [DecidableEq ι] [DecidableEq κ] {mail} {s t : Fabric P (ι ⊕ κ)}

/-- No cell for `identity` was written twice, and none that is still to be written was written before. -/
structure Fresh (mail : Mail net identity ι κ) (s : Fabric P (ι ⊕ κ)) : Prop where
  written : Fabric.Written mail.calls s
  nodup : (opened identity s.sent).Nodup
  apart : ∀ j, ∀ c ∈ opened identity (s.pending j), c ∉ opened identity s.sent

omit [DecidableEq ι] [DecidableEq κ] in
/-- Every cell opened so far belongs to a message for `identity`. -/
theorem Fresh.drawn (hP : P.Lawful) (h : Fresh mail s) :
    ∀ c ∈ opened identity s.sent, ∃ i, c ∈ (mail.sends i).message.cells := by
  intro c hc
  obtain ⟨r, hr, hopen⟩ := List.mem_filterMap.1 hc
  obtain ⟨j, hj⟩ := h.written.sent r hr
  obtain ⟨i, -, hi⟩ := mail.mem_opened hP (List.Subset.refl _) (List.mem_filterMap.2 ⟨r, hj, hopen⟩)
  exact ⟨i, hi⟩

omit [DecidableEq ι] [DecidableEq κ] in
theorem Fresh.fits (h : Fresh mail s) : ∀ r ∈ s.sent, r.FitsFrame := by
  intro r hr
  obtain ⟨j, hj⟩ := h.written.sent r hr
  exact mail.calls_fit j r hj

theorem Fresh.step (hP : P.Lawful) (h : Fresh mail s) (hst : Fabric.Step net s t) : Fresh mail t := by
  have hwritten := h.written.step hst
  cases hst with
  | relay info source frame rest _ _ =>
    obtain ⟨hsent, hpending⟩ := s.handle_sent info.id ⟨source, info.address⟩ frame rest
    exact ⟨hwritten, hsent ▸ h.nodup, hsent ▸ hpending ▸ h.apart⟩
  | deliver info body rest _ _ => exact ⟨hwritten, h.nodup, h.apart⟩
  | write j r rest hpending =>
    have hsuffix := h.written.pending j
    rw [hpending] at hsuffix
    have happend : ∀ l : List (RoutedCell P), opened identity (l ++ [r]) = opened identity l ++ opened identity [r] :=
      fun l => List.filterMap_append
    have hcons : opened identity (r :: rest) = opened identity [r] ++ opened identity rest :=
      List.filterMap_append (l := [r])
    -- what is opened of the cell written was to be written
    have hnew : ∀ c ∈ opened identity [r], c ∉ opened identity s.sent := by
      intro c hc
      refine h.apart j c ?_
      rw [hpending, hcons]
      exact List.mem_append_left _ hc
    have honce : (opened identity [r] ++ opened identity rest).Nodup := by
      rw [← hcons]
      exact (mail.opened_nodup hP j).sublist (hsuffix.sublist.filterMap _)
    refine ⟨hwritten, ?_, fun j' c hc => ?_⟩
    · simp only [happend]
      rw [List.nodup_append]
      refine ⟨h.nodup, (List.nodup_append.1 honce).1, fun a ha b hb hab => hnew b hb (hab ▸ ha)⟩
    · simp only [happend, List.mem_append, not_or]
      by_cases hj : j' = j
      · subst hj
        simp only [Function.update_self] at hc
        refine ⟨h.apart j' c ?_, fun hr => (List.nodup_append.1 honce).2.2 c hr c hc rfl⟩
        rw [hpending, hcons]
        exact List.mem_append_right _ hc
      · simp only [Function.update_of_ne hj] at hc
        refine ⟨h.apart j' c hc, fun hr => ?_⟩
        -- cells of two calls have different ids
        obtain ⟨i, rfl, hi⟩ := mail.mem_opened hP (h.written.pending j').subset hc
        obtain ⟨i', rfl, hi'⟩ := mail.mem_opened hP (List.Subset.trans (by simp) hsuffix.subset) hr
        have hid := ((mail.sends i).message.frag.id c hi).symm.trans ((mail.sends i').message.frag.id c hi')
        exact hj (congrArg Sum.inl (mail.ids hid))

theorem fresh_of_reachable (hP : P.Lawful) (hs : (Fabric.system net mail.calls).Reachable s) : Fresh mail s := by
  refine hs.invariant (I := Fresh mail) ?_ fun _ _ h hst => h.step hP hst
  rintro _ rfl
  exact ⟨Fabric.written_initial net mail.calls, List.nodup_nil, fun _ _ _ => List.not_mem_nil⟩

end Runs
end Mail

end VeilFabric
