import VeilFabric.Sdk.Polls
import Mathlib.Data.Fintype.Sum
import Mathlib.Algebra.Order.BigOperators.Group.Finset

/-!
# From `send` to `poll`

What polls of the fabric return (`Polls.lean`), in terms of the messages passed to `send`, when every circuit fits a frame
(`Mail.fits`). Whatever happens, a message is returned at most once (`delivery_at_most_once`). Let the hop count of each
client be within its topology and fewer than 2³² cells be written: then it is returned exactly once when all polls
succeeded and nothing is left (`delivery_exactly_once`), and as long as no poll has failed, this can be brought about
(`delivery_completes`).
-/

namespace VeilFabric
open Wire Queues

variable {P : Primitives} {identity : KeyPair P}

namespace Delivery
variable {net : Network P} {ι κ : Type}

section Runs
variable [DecidableEq ι] [DecidableEq κ] {mail : Mail net identity ι κ} {s t : Delivery P (ι ⊕ κ)}
  {taken : List (String × Bytes)} {past hand lost : List Bytes}

/-! ## What polls return -/

/-- The cells handed to the reassembler are among those written, each at most once. -/
theorem Accounts.inserted (h : Accounts mail s taken past hand lost) (hP : P.Lawful) :
    (past.filterMap (openEnvelope identity)).Nodup ∧
    ∀ c ∈ past.filterMap (openEnvelope identity), ∃ i, c ∈ (mail.sends i).message.cells := by
  have hfresh := Mail.fresh_of_reachable hP h.reachable
  have hpast : past.Subperm (s.fabric.sent.map fun r => r.envelope.1) := by
    refine List.Subperm.trans ?_ (h.taken_subperm hP)
    refine List.Subperm.trans ?_ h.perm.symm.subperm
    rw [List.append_assoc]
    exact (List.sublist_append_left _ _).subperm
  obtain ⟨l, hperm, hsub⟩ := hpast
  have hopened := hsub.filterMap (openEnvelope identity)
  rw [List.filterMap_map] at hopened
  have hcells := hperm.filterMap (openEnvelope identity)
  refine ⟨hcells.nodup_iff.1 (hfresh.nodup.sublist hopened), fun c hc => hfresh.drawn hP c ?_⟩
  exact hopened.subset (hcells.mem_iff.2 hc)

/-- **At most once.** Take any relays, any calls of `send` to a recipient with message ids of their own, any calls
to others whose envelopes the recipient cannot open, all with circuits that fit a frame, and any interleaving of
the fabric with polls of the recipient, in which connections of pulls may fail or break at any point. No poll
panics, and the messages returned so far are those of some of the calls, each of them once. -/
theorem delivery_at_most_once (hP : P.Lawful) (net : Network P) (mail : Mail net identity ι κ)
    (s : Delivery P (ι ⊕ κ)) (hs : (system mail).Reachable s) :
    (∃ is : List ι, is.Nodup ∧ messages s.outs = is.map fun i => (mail.sends i).message.bytes) ∧
    ∀ done, s.polling = .pulling done [] → ∃ receiver out, s.receiver.poll done = some (receiver, out) := by
  obtain ⟨taken, past, hand, lost, h⟩ := accounts_of_reachable hP hs
  obtain ⟨hnd, hdrawn⟩ := h.inserted hP
  obtain ⟨is, his, hret, -⟩ := returned_family mail.ids hnd hdrawn
  refine ⟨⟨is, his, h.returned.trans hret⟩, fun done hpolling => ?_⟩
  obtain ⟨receiver, out, hpoll, -⟩ := h.finish hpolling
  exact ⟨receiver, out, hpoll⟩

/-- When nothing moves and the mailboxes are empty, everything written was taken. -/
theorem Accounts.taken_perm (h : Accounts mail s taken past hand lost) (hP : P.Lawful)
    (hquiet : ∀ f, ¬ Fabric.Step net s.fabric f) (hempty : ∀ info ∈ net.relays.relays, s.fabric.mailbox info.id = []) :
    (taken.map Prod.snd).Perm (s.fabric.sent.map fun r => r.envelope.1) := by
  have hfresh := Mail.fresh_of_reachable hP h.reachable
  obtain ⟨hsound, hcons⟩ := Fabric.conserved_of_reachable hP h.reachable
  obtain ⟨census, hcensus⟩ := (hcons hfresh.fits).census
  have hall := hcensus.all_mailbox hP hsound hfresh.fits fun f hf => hf.of_restore.elim hquiet
  have hqueues : ∀ k, queue (fun x : String × Bytes => (Spot.mailbox x.1, x.2)) taken k = queue spot census k := by
    have hnone : ∀ k, (∀ name, k ≠ .mailbox name) → queue spot census k = [] := by
      intro k hk
      refine List.eq_nil_iff_forall_not_mem.2 fun b hb => ?_
      obtain ⟨⟨r, p⟩, hmem, hspot⟩ := mem_queue.1 hb
      obtain rfl : p = .mailbox := hall _ hmem
      exact hk r.exitRelayId (congrArg Prod.fst hspot).symm
    intro k
    cases k with
    | link c => rw [hnone _ (by simp)]; simp [queue]
    | channel name => rw [hnone _ (by simp)]; simp [queue]
    | mailbox name =>
      have htaken : queue (fun x : String × Bytes => (Spot.mailbox x.1, x.2)) taken (.mailbox name) =
          queue (fun x => x) taken name := by simp [queue]
      have hmail : (s.fabric.restore taken).mailbox name = queue spot census (.mailbox name) :=
        hcensus.shows.mailboxes name
      -- only the mailboxes of relays ever hold anything
      have hnil : s.fabric.mailbox name = [] := by
        refine List.eq_nil_iff_forall_not_mem.2 fun b hb => ?_
        have hmem : b ∈ (s.fabric.restore taken).mailbox name := List.mem_append_right _ hb
        rw [hmail] at hmem
        obtain ⟨⟨r, p⟩, hr, hspot⟩ := mem_queue.1 hmem
        obtain rfl : p = .mailbox := hall _ hr
        cases hspot
        have hsent : r ∈ s.fabric.sent := hcensus.once.mem_iff.1 (List.mem_map.2 ⟨_, hr, rfl⟩)
        have hrelay := hempty _ (hsound.sent r hsent (List.getLast_mem r.path_ne))
        rw [show (r.path.getLast r.path_ne).id = r.exitRelayId from rfl] at hrelay
        rw [hrelay] at hb
        cases hb
      rw [htaken, ← hmail, Fabric.restore]
      simp only [hnil, List.append_nil]
  have hperm := (perm_of_queues hqueues).map Prod.snd
  have hcells : (census.map spot).map Prod.snd = (census.map Prod.fst).map fun r => r.envelope.1 := by
    rw [List.map_map, List.map_map]
    refine List.map_congr_left fun x hx => ?_
    obtain ⟨r, p⟩ := x
    obtain rfl : p = .mailbox := hall _ hx
    rfl
  rw [hcells, List.map_map] at hperm
  exact hperm.trans (hcensus.once.map _)

/-- Every message has been returned, once, and the receiver waits for nothing. -/
def Complete (mail : Mail net identity ι κ) (s : Delivery P (ι ⊕ κ)) : Prop :=
  (∃ is : List ι, is.Nodup ∧ (∀ i, i ∈ is) ∧ messages s.outs = is.map fun i => (mail.sends i).message.bytes) ∧
  s.receiver.pendingCount = 0

omit [DecidableEq ι] [DecidableEq κ] in
/-- The recipient opens a message's cells from what its call routes. -/
theorem mem_opened_sent (hP : P.Lawful) {sent : List (RoutedCell P)} {i : ι}
    (hall : ∀ r ∈ (mail.calls (.inl i)).routed, r ∈ sent) (hpos : 0 < (mail.sends i).client.hopCount)
    (hn : (mail.sends i).client.hopCount ≤ (mail.sends i).client.topology.relays.length) :
    (mail.sends i).message.cells ⊆ opened identity sent := by
  intro c hc
  have hcells : opened identity (mail.calls (.inl i)).routed = (mail.sends i).message.cells := by
    rw [show (mail.calls (.inl i)).routed = _ from (mail.sends i).call_routed (mail.known i)]
    exact opened_routedCells_eq hP (mail.sends i).established (mail.sends i).message.frag.wf _ hpos hn 0
  rw [← hcells] at hc
  obtain ⟨r, hr, hopen⟩ := List.mem_filterMap.1 hc
  exact List.mem_filterMap.2 ⟨r, hall r hr, hopen⟩

theorem Accounts.complete (h : Accounts mail s taken past hand lost) (hP : P.Lawful)
    (hhops : ∀ i, 0 < (mail.sends i).client.hopCount ∧
      (mail.sends i).client.hopCount ≤ (mail.sends i).client.topology.relays.length)
    (hquiet : ∀ f, ¬ Fabric.Step net s.fabric f) (hempty : ∀ info ∈ net.relays.relays, s.fabric.mailbox info.id = [])
    (hidle : s.polling = .idle) (houts : ∀ o ∈ s.outs, ∃ ms, o = .ok ms) (hcount : s.fabric.sent.length < 2 ^ 32) :
    Complete mail s := by
  have hfresh := Mail.fresh_of_reachable hP h.reachable
  have hlost := h.clean ⟨houts, by rw [hidle]; exact fun _ => List.not_mem_nil⟩ hcount
  have hhand : hand = [] := by
    have hholds := h.holds
    rw [hidle] at hholds
    cases hholds
    rfl
  -- everything that was written has been inserted
  have hpast : (opened identity s.fabric.sent).Perm (past.filterMap (openEnvelope identity)) := by
    have hperm := (h.taken_perm hP hquiet hempty).symm.trans h.perm
    rw [hhand, hlost, List.append_nil, List.append_nil] at hperm
    have hcells := hperm.filterMap (openEnvelope identity)
    rwa [List.filterMap_map] at hcells
  have hall : ∀ i, (mail.sends i).message.cells ⊆ past.filterMap (openEnvelope identity) := by
    intro i c hc
    have hsent : ∀ r ∈ (mail.calls (.inl i)).routed, r ∈ s.fabric.sent := by
      intro r hr
      rcases hfresh.written.all (.inl i) r hr with hpending | hsent
      · have hnil : s.fabric.pending (.inl i) = [] := by
          cases hp : s.fabric.pending (.inl i) with
          | nil => rfl
          | cons x rest => exact absurd (.write s.fabric (.inl i) x rest hp) (hquiet _)
        rw [show (s.fabric.restore taken).pending (.inl i) = s.fabric.pending (.inl i) from rfl, hnil] at hpending
        cases hpending
      · exact hsent
    exact hpast.mem_iff.1 (mem_opened_sent hP hsent (hhops i).1 (hhops i).2 hc)
  obtain ⟨hnd, hdrawn⟩ := h.inserted hP
  obtain ⟨is, his, hret, hmem⟩ := returned_family mail.ids hnd hdrawn
  exact ⟨⟨is, his, fun i => (hmem i).2 (hall i), h.returned.trans hret⟩,
    pendingCount_family mail.ids hnd hdrawn hall h.agrees⟩

/-- A pull whose answer arrives whole. -/
theorem pull_steps {done : List PullOutcome} {info : RelayInfo} {left : List String}
    (hpolling : s.polling = .pulling done (info.id :: left)) (hinfo : info ∈ net.relays.relays) :
    Transition.Chain (Step net) 2 s { s with
      fabric := s.fabric.setMailbox info.id []
      polling := .next done left
        (handleRequest PULL_REQUEST_BYTE (s.fabric.mailbox info.id) info.identity).2 } :=
  .snoc (.snoc (.nil s) (.serve s done info left hpolling hinfo)) (.arrive _ done _ left _ rfl List.prefix_rfl)

/-- A poll without a failed pull can be brought to its end. It empties the mailboxes it has left. -/
theorem Accounts.poll_ends (h : Accounts mail s taken past hand lost) (hP : P.Lawful) {done : List PullOutcome}
    {left : List String} (hpolling : s.polling = .pulling done left) (hclean : s.Clean)
    (hcount : s.fabric.sent.length < 2 ^ 32) :
    ∃ n t, Transition.Chain (Step net) n s t ∧ t.polling = .idle ∧ t.Clean ∧
      ∃ mailbox, t.fabric = { s.fabric with mailbox } ∧ (∀ name ∈ left, mailbox name = []) ∧
        ∀ name, s.fabric.mailbox name = [] → mailbox name = [] := by
  induction left generalizing s taken hand lost done with
  | nil =>
    obtain ⟨receiver, out, hpoll, -, hok⟩ := h.finish hpolling
    have hout := hok (by have := hclean.polling; rwa [hpolling] at this)
    refine ⟨1, _, .snoc (.nil s) (.finish s done receiver out hpolling hpoll), rfl, ⟨?_, fun _ => List.not_mem_nil⟩,
      s.fabric.mailbox, rfl, nofun, fun _ hname => hname⟩
    intro o ho
    rcases List.mem_append.1 ho with ho | ho
    · exact hclean.outs o ho
    · rwa [List.mem_singleton.1 ho]
  | cons name left ih =>
    obtain ⟨hok, info, hinfo, rfl⟩ : (∀ e, .error e ∉ done) ∧ ∃ info ∈ net.relays.relays, info.id = name := by
      have hholds := h.holds
      rw [hpolling] at hholds
      cases hholds with
      | pulling hok hleft => exact ⟨hok, hleft name List.mem_cons_self⟩
    -- the relay serves the pull, and its answer arrives
    have hserved := h.serve hP hpolling
    have hlen : (s.fabric.mailbox info.id).length ≤ s.fabric.sent.length := by
      have htaken := (hserved.taken_subperm hP).length_le
      simp only [List.map_append, List.length_append, List.length_map] at htaken
      exact Nat.le_trans (Nat.le_add_left _ _) htaken
    have hshort : ∀ c ∈ s.fabric.mailbox info.id, c.length < 2 ^ 32 := fun c hc => by
      rw [h.mailbox_length hP info.id c hc]
      decide
    have hpull := (pulled_handleRequest (Nat.lt_of_le_of_lt hlen hcount) hshort info.identity).2
    have hnext := Polling.next_some hpull done left
    obtain ⟨hand', lost', harrived⟩ := hserved.arrive hP rfl List.prefix_rfl
    rw [hnext] at harrived
    obtain ⟨n, t, hchain, hidle, htclean, mailbox, hfabric, hleft, hkept⟩ := ih harrived rfl
      ⟨hclean.outs, by simpa [Polling.done] using hok⟩ hcount
    have hpulled := pull_steps hpolling hinfo
    rw [hnext] at hpulled
    refine ⟨2 + n, t, hpulled.trans hchain, hidle, htclean, mailbox, hfabric, ?_, ?_⟩
    · intro name hname
      rcases List.mem_cons.1 hname with rfl | hname
      · exact hkept _ (by simp [Fabric.setMailbox])
      · exact hleft name hname
    · intro name hname
      refine hkept name ?_
      by_cases hne : name = info.id
      · simp [Fabric.setMailbox, hne]
      · simpa [Fabric.setMailbox, hne] using hname

/-- Only mailboxes differ: the fabric can do what it could do before. -/
theorem quiet_of_mailbox {f : Fabric P ι} (hquiet : ∀ g, ¬ Fabric.Step net f g) (mailbox : String → Mailbox) :
    ∀ g, ¬ Fabric.Step net { f with mailbox } g := by
  intro g hg
  cases hg with
  | write i r rest h => exact hquiet _ (.write f i r rest h)
  | relay info source frame rest hinfo h => exact hquiet _ (.relay f info source frame rest hinfo h)
  | deliver info body rest hinfo h => exact hquiet _ (.deliver f info body rest hinfo h)

/-- The poll under way, if any, can be brought to its end. -/
theorem Accounts.idles (h : Accounts mail s taken past hand lost) (hP : P.Lawful) (hclean : s.Clean)
    (hcount : s.fabric.sent.length < 2 ^ 32) :
    ∃ n t, Transition.Chain (Step net) n s t ∧ t.polling = .idle ∧ t.Clean ∧
      ∃ mailbox, t.fabric = { s.fabric with mailbox } := by
  cases hpolling : s.polling with
  | idle => exact ⟨0, s, .nil s, hpolling, hclean, s.fabric.mailbox, rfl⟩
  | pulling done left =>
    obtain ⟨n, t, hchain, hidle, htclean, mailbox, hfabric, -⟩ := h.poll_ends hP hpolling hclean hcount
    exact ⟨n, t, hchain, hidle, htclean, mailbox, hfabric⟩
  | awaiting done response left =>
    have hholds := h.holds
    rw [hpolling] at hholds
    cases hholds with
    | awaiting cells who hok _ hshort =>
      have hlen : cells.length ≤ s.fabric.sent.length := by
        have htaken := (h.taken_subperm hP).length_le
        rw [h.perm.length_eq] at htaken
        simp only [List.length_append, List.length_map] at htaken
        omega
      have hnext := Polling.next_some (pulled_handleRequest (Nat.lt_of_le_of_lt hlen hcount) hshort who).2 done left
      obtain ⟨hand', lost', harrived⟩ := h.arrive hP hpolling List.prefix_rfl
      have hstep : Step net s _ := .arrive s done _ left _ hpolling List.prefix_rfl
      rw [hnext] at harrived hstep
      obtain ⟨n, t, hchain, hidle, htclean, mailbox, hfabric, -⟩ := harrived.poll_ends hP rfl
        ⟨hclean.outs, by simpa [Polling.done] using hok⟩ hcount
      exact ⟨n + 1, t, hchain.cons hstep, hidle, htclean, mailbox, hfabric⟩

section Completion
variable [Fintype ι] [Fintype κ]

/-- The fabric can be left alone until nothing moves. -/
theorem Accounts.settles (h : Accounts mail s taken past hand lost) (hP : P.Lawful) :
    ∃ n f, Transition.Chain (Step net) n s { s with fabric := f } ∧ ∀ g, ¬ Fabric.Step net f g := by
  obtain ⟨s₀, m, rfl, hchain⟩ := h.reachable.chain
  have hbound : ∀ n f, Transition.Chain (Fabric.Step net) n s.fabric f → n ≤ Fabric.total mail.calls := by
    intro n f hf
    have hlong := hchain.trans (hf.map fun _ _ hst => hst.restore taken)
    have hle := (Fabric.chain_bound hP mail.calls_fit hlong).1
    omega
  obtain ⟨n, f, hf, -, hend⟩ := (Transition.Chain.nil s.fabric).exists_end_of_bound hbound
  exact ⟨n, f, hf.map (f := fun f => { s with fabric := f }) fun f g hst => .fabric { s with fabric := f } g hst, hend⟩

open Transition in
/-- From any state in which no poll has failed: the fabric settles, the poll under way ends, and one more poll empties
all mailboxes. -/
theorem reaches_quiet (hP : P.Lawful) (hcount : ∑ j, (mail.calls j).routed.length < 2 ^ 32)
    (hs : (system mail).Reachable s) (hclean : s.Clean) :
    ∃ n t, Chain (Step net) n s t ∧ (system mail).Reachable t ∧ (∀ f, ¬ Fabric.Step net t.fabric f) ∧
      (∀ info ∈ net.relays.relays, t.fabric.mailbox info.id = []) ∧ t.polling = .idle ∧
      (∀ o ∈ t.outs, ∃ ms, o = .ok ms) ∧ t.fabric.sent.length < 2 ^ 32 := by
  have hsent : ∀ {t : Delivery P (ι ⊕ κ)}, (system mail).Reachable t → t.fabric.sent.length < 2 ^ 32 := by
    intro t ht
    obtain ⟨taken, past, hand, lost, h⟩ := accounts_of_reachable hP ht
    have hle := Fabric.sent_length_le h.reachable
    exact Nat.lt_of_le_of_lt (show t.fabric.sent.length ≤ _ from hle) hcount
  obtain ⟨_, _, _, _, h⟩ := accounts_of_reachable hP hs
  obtain ⟨n₁, f, hchain₁, hquiet⟩ := h.settles hP
  have hs₁ : (system mail).Reachable { s with fabric := f } := Chain.reachable (S := system mail) hchain₁ hs
  obtain ⟨_, _, _, _, h₁⟩ := accounts_of_reachable hP hs₁
  obtain ⟨n₂, t₂, hchain₂, hidle₂, hclean₂, mailbox₂, hfabric₂⟩ := h₁.idles hP ⟨hclean.outs, hclean.polling⟩ (hsent hs₁)
  have hs₂ : (system mail).Reachable t₂ := Chain.reachable (S := system mail) hchain₂ hs₁
  have hquiet₂ : ∀ g, ¬ Fabric.Step net t₂.fabric g := hfabric₂ ▸ quiet_of_mailbox hquiet mailbox₂
  have hstart : Step net t₂ { t₂ with polling := .pulling [] (net.relays.relays.map RelayInfo.id) } :=
    .start t₂ _ hidle₂ fun name hname => by simpa using hname
  have hs₃ := hs₂.step hstart
  obtain ⟨_, _, _, _, h₃⟩ := accounts_of_reachable hP hs₃
  obtain ⟨n₄, t, hchain₄, hidle, htclean, mailbox, hfabric, hempty, -⟩ := h₃.poll_ends hP rfl
    ⟨hclean₂.outs, fun _ => List.not_mem_nil⟩ (hsent hs₃)
  have hchain := (hchain₁.trans hchain₂).trans (hchain₄.cons hstart)
  have ht : (system mail).Reachable t := Chain.reachable (S := system mail) hchain hs
  refine ⟨_, t, hchain, ht, hfabric ▸ quiet_of_mailbox hquiet₂ mailbox, ?_, hidle, htclean.outs, hsent ht⟩
  intro info hinfo
  rw [hfabric]
  exact hempty info.id (List.mem_map_of_mem hinfo)

end Completion
end Runs

/-! ## Two messages over two relays -/

section Example
open Fabric (pairNetwork)

/-- Two calls of `send` with two cells each. -/
def pairSend (first : Bool) : SendTo toyIdentity where
  client := twoHopClient
  secret := flatKey 1
  session := ⟨.ofSecret (flatKey 1), flatKey 1⟩
  established := rfl
  message := .twoCells (if first then 1 else 2)
  draws _ := dataDraws _

theorem pairSend_known (first : Bool) : (pairSend first).client.topology.relays ⊆ pairNetwork.relays.relays :=
  List.Subset.refl _

def pairMail : Mail pairNetwork toyIdentity Bool Empty where
  sends := pairSend
  known := pairSend_known
  ids first first' h := by
    have hbyte := SentMessage.twoCells_id_inj h
    revert hbyte
    cases first <;> cases first' <;> decide
  others := nofun
  unreadable := nofun
  fits first r hr := by
    rw [(pairSend first).call_routed] at hr
    rw [RoutedCell.FitsFrame, twoHopClient_path hr]
    decide
  fits_others := nofun

theorem pairMail_routed (first : Bool) : ∃ r r', (pairMail.calls (.inl first)).routed = [r, r'] := by
  obtain ⟨c, d, hcells⟩ := SentMessage.twoCells_cells (if first then 1 else 2)
  have hwf := (pairMail.sends first).message.frag.wf
  refine List.length_eq_two.1 ?_
  rw [show (pairMail.calls (.inl first)).routed = _ from (pairMail.sends first).call_routed (pairMail.known first),
    VeilClient.routedCells_length Primitives.toy_lawful hwf Nat.two_pos (Nat.le_refl 2)]
  exact congrArg List.length hcells

theorem pairMail_count : ∑ j, (pairMail.calls j).routed.length < 2 ^ 32 := by
  have heach : ∀ j, (pairMail.calls j).routed.length = 2 := by
    rintro (first | k)
    · obtain ⟨r, r', hr⟩ := pairMail_routed first
      rw [hr]
      rfl
    · cases k
  rw [Finset.sum_congr rfl fun j _ => heach j]
  decide

theorem pairMail_hops (first : Bool) : 0 < (pairMail.sends first).client.hopCount ∧
    (pairMail.sends first).client.hopCount ≤ (pairMail.sends first).client.topology.relays.length :=
  ⟨Nat.two_pos, Nat.le_refl 2⟩

/-- The messages of all calls, in some order. -/
theorem pairMail_all {is : List Bool} (his : is.Nodup) (hall : ∀ first, first ∈ is) :
    (is.map fun first => (pairMail.sends first).message.bytes).Perm [List.replicate 489 1, List.replicate 489 2] := by
  have hperm : is.Perm [true, false] := by
    refine (List.perm_ext_iff_of_nodup his (by decide)).2 fun first => ?_
    cases first <;> simp [hall]
  exact hperm.map _

/-- One cell of one message is on its way when a poll of the exit begins. -/
theorem pairMail_begun : ∃ s, (system pairMail).Reachable s ∧ s.fabric.sent.length = 1 ∧
    s.polling = .pulling [] ["exit"] ∧ s.outs = [] := by
  obtain ⟨r, r', hr⟩ := pairMail_routed true
  have hpending : (initial pairMail).fabric.pending (.inl true) = [r, r'] := by
    simp only [initial, Fabric.initial, hr]
  have hst : Fabric.Step pairNetwork _ _ := .write (initial pairMail).fabric (.inl true) r [r'] hpending
  have hwrite := (.init rfl : (system pairMail).Reachable (initial pairMail)).step (.fabric _ _ hst)
  have hnames : ∀ name ∈ ["exit"], ∃ info ∈ pairNetwork.relays.relays, info.id = name := by decide
  exact ⟨_, hwrite.step (.start _ ["exit"] rfl hnames), rfl, rfl, rfl⟩

/-- From there: everything has arrived and been polled. -/
theorem pairMail_settles : ∃ s, (system pairMail).Reachable s ∧ (∀ f, ¬ Fabric.Step pairNetwork s.fabric f) ∧
    (∀ info ∈ pairNetwork.relays.relays, s.fabric.mailbox info.id = []) ∧ s.polling = .idle ∧
    (∀ o ∈ s.outs, ∃ ms, o = .ok ms) ∧ s.fabric.sent.length < 2 ^ 32 := by
  obtain ⟨s, hs, -, hpolling, houts⟩ := pairMail_begun
  obtain ⟨n, t, -, ht⟩ := reaches_quiet Primitives.toy_lawful pairMail_count hs
    ⟨by rw [houts]; nofun, by rw [hpolling]; nofun⟩
  exact ⟨t, ht⟩

/-- Then one more poll finds the exit unreachable. -/
theorem delivery_at_most_once_refused : ∃ s, (system pairMail).Reachable s ∧ (∃ e, .error e ∈ s.outs) ∧
    ∃ is : List Bool, is.Nodup ∧ is.length = 2 ∧
      messages s.outs = is.map fun first => (pairMail.sends first).message.bytes := by
  obtain ⟨s, hs, hquiet, hempty, hidle, houts, hsent⟩ := pairMail_settles
  obtain ⟨_, _, _, _, h⟩ := accounts_of_reachable Primitives.toy_lawful hs
  obtain ⟨⟨js, hjs, hall, hreturned⟩, -⟩ := h.complete Primitives.toy_lawful pairMail_hops hquiet hempty hidle houts hsent
  have hnames : ∀ name ∈ ["exit"], ∃ info ∈ pairNetwork.relays.relays, info.id = name := by decide
  have ht := ((hs.step (.start s ["exit"] hidle hnames)).step
    (.refuse _ [] "exit" [] ⟨"connection refused"⟩ rfl)).step
    (.finish _ _ s.receiver (.error (.io ⟨"connection refused"⟩)) rfl rfl)
  obtain ⟨⟨is, his, hmessages⟩, -⟩ := delivery_at_most_once Primitives.toy_lawful pairNetwork pairMail _ ht
  have hsame : messages (s.outs ++ [.error (.io ⟨"connection refused"⟩)]) = messages s.outs := by
    rw [messages, List.flatMap_append]
    exact List.append_nil _
  have hlen : is.length = 2 := by
    have hjslen := (pairMail_all hjs hall).length_eq
    rw [← hreturned, ← hsame, hmessages, List.length_map] at hjslen
    exact hjslen
  exact ⟨_, ht, ⟨_, List.mem_append_right _ (List.mem_singleton.2 rfl)⟩, is, his, hlen, hmessages⟩

end Example
end Delivery
end VeilFabric
