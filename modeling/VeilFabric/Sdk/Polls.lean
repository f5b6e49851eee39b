import VeilFabric.Sdk.Mail
import VeilFabric.Routing.Discovery

/-!
# Polling the fabric

The fabric of `Fabric.lean` together with one `Receiver` that polls it, while cells are still on their way.
`Delivery.Step` has every step of the fabric, and

| step | source |
| --- | --- |
| `start`  | `Receiver::poll` is called with the mailboxes of some relays (receiver.rs:95) |
| `refuse` | `TcpStream::connect` of a pull fails (pull_listener.rs:116) |
| `serve`  | `handle_request` drains the mailbox and writes its answer (pull_listener.rs:76-84) |
| `arrive` | `pull` reads the answer, or as much of it as arrives before the connection breaks (pull_listener.rs:119-127) |
| `finish` | the cells go to the reassembler and `poll` returns (receiver.rs:97-104) |

Mailboxes are named by the ids of their relays, and a pull has the memory it asks for (`pulled`). A failed pull ends its
poll, and what it had drained is lost; the calls for other recipients run over the same relays and mailboxes.

`Accounts` says where the envelopes are that polls have taken. Put them back, and every state here is one of the fabric
(`Accounts.reachable`): the census then says that each cell was taken at most once. `Accounts.step` is the case
analysis over the steps.
-/

namespace VeilFabric
open Wire Queues

variable {P : Primitives} {identity : KeyPair P}

/-! ## The fabric with what was taken put back -/

namespace Fabric
variable {ι : Type}

/-- Envelopes put back in front of their mailboxes. -/
def restore (s : Fabric P ι) (taken : List (String × Bytes)) : Fabric P ι :=
  { s with mailbox := fun name => queue (fun x => x) taken name ++ s.mailbox name }

def setMailbox (s : Fabric P ι) (name : String) (mailbox : Mailbox) : Fabric P ι :=
  { s with mailbox := Function.update s.mailbox name mailbox }

theorem restore_handle (s : Fabric P ι) (taken : List (String × Bytes)) (name : String) (c : Connection)
    (frame rest : Bytes) : (s.handle name c frame rest).restore taken = (s.restore taken).handle name c frame rest := by
  rw [handle_eq, handle_eq, show (s.restore taken).nodes = s.nodes from rfl]
  cases peelOnionLayer P (s.nodes name).keypair frame with
  | error e => rfl
  | ok payload => cases payload <;> rfl

/-- What is drained and put back is where it was. -/
theorem restore_drain (s : Fabric P ι) (taken : List (String × Bytes)) (name : String) :
    (s.setMailbox name []).restore (taken ++ (s.mailbox name).map (name, ·)) = s.restore taken := by
  have hmail : (fun name' => queue (fun x => x) (taken ++ (s.mailbox name).map (name, ·)) name' ++
      Function.update s.mailbox name [] name') = fun name' => queue (fun x => x) taken name' ++ s.mailbox name' := by
    funext name'
    rw [queue_append, List.append_assoc]
    by_cases hname : name' = name
    · subst hname
      simp [queue, List.filterMap_map]
    · simp [queue, List.filterMap_map, hname, Ne.symm hname]
  simp only [restore, setMailbox, hmail]

section Steps
variable [DecidableEq ι] {net : Network P} {s t : Fabric P ι}

theorem Step.restore (h : Step net s t) (taken : List (String × Bytes)) :
    Step net (s.restore taken) (t.restore taken) := by
  cases h with
  | write i r rest hpending => exact .write (s.restore taken) i r rest hpending
  | relay info source frame rest hinfo hread =>
    rw [restore_handle]
    exact .relay (s.restore taken) info source frame rest hinfo hread
  | deliver info body rest hinfo hfront =>
    have hmail : (fun name => queue (fun x => x) taken name ++
        Function.update s.mailbox info.id ((s.mailbox info.id).push body) name) =
        Function.update (fun name => queue (fun x => x) taken name ++ s.mailbox name) info.id
          (Mailbox.push (queue (fun x => x) taken info.id ++ s.mailbox info.id) body) := by
      funext name
      by_cases hname : name = info.id
      · subst hname
        simp [Mailbox.push]
      · simp [hname]
    have hstep : Step net (s.restore taken) _ := .deliver (s.restore taken) info body rest hinfo hfront
    simp only [Fabric.restore, hmail] at hstep ⊢
    exact hstep

/-- Mailboxes enable nothing. -/
theorem Step.of_restore {taken : List (String × Bytes)} (h : Step net (s.restore taken) t) : ∃ t', Step net s t' := by
  cases h with
  | write i r rest hpending => exact ⟨_, .write s i r rest hpending⟩
  | relay info source frame rest hinfo hread => exact ⟨_, .relay s info source frame rest hinfo hread⟩
  | deliver info body rest hinfo hfront => exact ⟨_, .deliver s info body rest hinfo hfront⟩

end Steps
end Fabric

/-! ## The system -/

/-- `Receiver::pending_count` (receiver.rs:109). -/
def Receiver.pendingCount (self : Receiver P) : Nat := self.reassembler.pendingCount

/-- A call of `Receiver::poll` under way: the outcomes of its pulls so far and the mailboxes left to pull; while an
answer is awaited, what the relay wrote. -/
inductive Polling where
  | idle
  | pulling (done : List PullOutcome) (left : List String)
  | awaiting (done : List PullOutcome) (response : Bytes) (left : List String)

/-- The outcomes so far. -/
def Polling.done : Polling → List PullOutcome
  | .idle => []
  | .pulling done _ => done
  | .awaiting done _ _ => done

/-- After a pull that read `read`: the next one, or the end of the poll (receiver.rs:40). -/
def Polling.next (done : List PullOutcome) (left : List String) (read : Bytes) : Polling :=
  match pulled read with
  | some cells => .pulling (done ++ [.ok cells]) left
  | none => .pulling (done ++ [.error ⟨"early eof"⟩]) []

theorem Polling.next_some {read : Bytes} {cells : List Bytes} (h : pulled read = some cells) (done : List PullOutcome)
    (left : List String) : Polling.next done left read = .pulling (done ++ [.ok cells]) left := by
  rw [Polling.next, h]

structure Delivery (P : Primitives) (ι : Type) where
  fabric : Fabric P ι
  receiver : Receiver P
  polling : Polling
  /-- What the polls returned. -/
  outs : List (Except ReceiveError (List Bytes))

namespace Delivery
variable {net : Network P} {ι κ : Type}

def initial (mail : Mail net identity ι κ) : Delivery P (ι ⊕ κ) where
  fabric := .initial net mail.calls
  receiver := .new identity
  polling := .idle
  outs := []

section Steps
variable [DecidableEq ι] [DecidableEq κ]

inductive Step (net : Network P) : Delivery P (ι ⊕ κ) → Delivery P (ι ⊕ κ) → Prop
  | fabric (s : Delivery P (ι ⊕ κ)) (fabric : Fabric P (ι ⊕ κ)) : Fabric.Step net s.fabric fabric →
      Step net s { s with fabric }
  | start (s : Delivery P (ι ⊕ κ)) (names : List String) : s.polling = .idle →
      (∀ name ∈ names, ∃ info ∈ net.relays.relays, info.id = name) → Step net s { s with polling := .pulling [] names }
  | refuse (s : Delivery P (ι ⊕ κ)) (done : List PullOutcome) (name : String) (left : List String) (e : IoError) :
      s.polling = .pulling done (name :: left) → Step net s { s with polling := .pulling (done ++ [.error e]) [] }
  | serve (s : Delivery P (ι ⊕ κ)) (done : List PullOutcome) (info : RelayInfo) (left : List String) :
      s.polling = .pulling done (info.id :: left) → info ∈ net.relays.relays →
      Step net s { s with
        fabric := s.fabric.setMailbox info.id
          (handleRequest PULL_REQUEST_BYTE (s.fabric.mailbox info.id) info.identity).1
        polling := .awaiting done
          (handleRequest PULL_REQUEST_BYTE (s.fabric.mailbox info.id) info.identity).2 left }
  | arrive (s : Delivery P (ι ⊕ κ)) (done : List PullOutcome) (response : Bytes) (left : List String) (read : Bytes) :
      s.polling = .awaiting done response left → read <+: response →
      Step net s { s with polling := .next done left read }
  | finish (s : Delivery P (ι ⊕ κ)) (done : List PullOutcome) (receiver : Receiver P)
      (out : Except ReceiveError (List Bytes)) : s.polling = .pulling done [] →
      s.receiver.poll done = some (receiver, out) →
      Step net s { s with receiver, polling := .idle, outs := s.outs ++ [out] }

def system (mail : Mail net identity ι κ) : Transition.System (Delivery P (ι ⊕ κ)) :=
  ⟨fun s => s = initial mail, Step net⟩

end Steps

/-! ## Where the envelopes are -/

/-- The envelopes a poll has in hand. A failed pull is its last. -/
inductive Holds (net : Network P) : Polling → List Bytes → Prop
  | idle : Holds net .idle []
  | pulling {done : List PullOutcome} {left : List String} : (∀ e, .error e ∉ done) →
      (∀ name ∈ left, ∃ info ∈ net.relays.relays, info.id = name) → Holds net (.pulling done left) (drained done)
  | failed {done : List PullOutcome} {e : IoError} : .error e ∈ done → Holds net (.pulling done []) (drained done)
  | awaiting {done : List PullOutcome} {left : List String} (cells : List Bytes) (who : RelayIdentity) :
      (∀ e, .error e ∉ done) → (∀ name ∈ left, ∃ info ∈ net.relays.relays, info.id = name) →
      (∀ c ∈ cells, c.length < 2 ^ 32) →
      Holds net (.awaiting done (handleRequest PULL_REQUEST_BYTE cells who).2 left) (drained done ++ cells)

/-- No poll has failed so far, and the one under way has no failed pull. -/
structure Clean (s : Delivery P ι) : Prop where
  outs : ∀ o ∈ s.outs, ∃ ms, o = .ok ms
  polling : ∀ e, .error e ∉ s.polling.done

/-- With the envelopes `taken` put back, the fabric is in a state it reaches by itself. What was taken is what
polls have handed to the reassembler (`past`), have in hand, or have lost. -/
structure Accounts [DecidableEq ι] [DecidableEq κ] (mail : Mail net identity ι κ) (s : Delivery P (ι ⊕ κ))
    (taken : List (String × Bytes)) (past hand lost : List Bytes) : Prop where
  receiver : s.receiver.identity = identity
  reachable : (Fabric.system net mail.calls).Reachable (s.fabric.restore taken)
  holds : Holds net s.polling hand
  perm : (taken.map Prod.snd).Perm (past ++ hand ++ lost)
  agrees : Agrees s.receiver.reassembler ((past.filterMap (openEnvelope identity)).map .insert)
  returned : messages s.outs = returned (results [] (past.filterMap (openEnvelope identity)))
  clean : s.Clean → s.fabric.sent.length < 2 ^ 32 → lost = []

theorem drained_append {done : List PullOutcome} (h : ∀ e, .error e ∉ done) (pulls : List PullOutcome) :
    drained (done ++ pulls) = drained done ++ drained pulls := by
  induction done with
  | nil => rfl
  | cons p done ih =>
    cases p with
    | error e => exact absurd List.mem_cons_self (h e)
    | ok envelopes =>
      simp only [List.cons_append, drained, List.append_assoc]
      rw [ih fun e he => h e (List.mem_cons_of_mem _ he)]

section Runs
variable [DecidableEq ι] [DecidableEq κ] {mail : Mail net identity ι κ} {s t : Delivery P (ι ⊕ κ)}
  {taken : List (String × Bytes)} {past hand lost : List Bytes}

/-- Every envelope in a mailbox has the size of one. -/
theorem Accounts.mailbox_length (h : Accounts mail s taken past hand lost) (hP : P.Lawful) (name : String) :
    ∀ c ∈ s.fabric.mailbox name, c.length = ENVELOPE_SIZE := by
  intro c hc
  have hfresh := Mail.fresh_of_reachable hP h.reachable
  obtain ⟨census, hcensus⟩ := ((Fabric.conserved_of_reachable hP h.reachable).2 hfresh.fits).census
  have hmem : c ∈ (s.fabric.restore taken).mailbox name := List.mem_append_right _ hc
  rw [hcensus.shows.mailboxes] at hmem
  obtain ⟨⟨r, p⟩, -, hspot⟩ := mem_queue.1 hmem
  cases p with
  | link source hop => cases hspot
  | channel => cases hspot
  | mailbox =>
    cases hspot
    exact r.envelope.2

/-- What was taken are cells that were written. -/
theorem Accounts.taken_subperm (h : Accounts mail s taken past hand lost) (hP : P.Lawful) :
    (taken.map Prod.snd).Subperm (s.fabric.sent.map fun r => r.envelope.1) := by
  have hfresh := Mail.fresh_of_reachable hP h.reachable
  obtain ⟨census, hcensus⟩ := ((Fabric.conserved_of_reachable hP h.reachable).2 hfresh.fits).census
  have hqueues : ∀ k, queue (fun x : String × Bytes => (Spot.mailbox x.1, x.2)) taken k <+:
      queue spot (census.filter fun x => x.2 = .mailbox) k := by
    intro k
    cases k with
    | link c => simp [queue]
    | channel name => simp [queue]
    | mailbox name =>
      have hcells : queue spot (census.filter fun x => x.2 = .mailbox) (.mailbox name) =
          queue spot census (.mailbox name) := by
        rw [queue, queue, List.filterMap_filter]
        congr 1
        funext x
        obtain ⟨r, p⟩ := x
        cases p <;> simp [spot]
      have htaken : queue (fun x : String × Bytes => (Spot.mailbox x.1, x.2)) taken (.mailbox name) =
          queue (fun x => x) taken name := by simp [queue]
      rw [hcells, htaken, ← hcensus.shows.mailboxes]
      exact List.prefix_append _ _
  obtain ⟨l, hperm, hsub⟩ := subperm_of_queues hqueues
  have hcells : ((census.filter fun x => x.2 = .mailbox).map spot).map Prod.snd =
      (census.filter fun x => x.2 = .mailbox).map fun x => x.1.envelope.1 := by
    rw [List.map_map]
    refine List.map_congr_left fun x hx => ?_
    obtain ⟨r, p⟩ := x
    obtain rfl : p = .mailbox := by simpa using (List.mem_filter.1 hx).2
    rfl
  have hbodies : (taken.map Prod.snd).Subperm ((census.filter fun x => x.2 = .mailbox).map fun x => x.1.envelope.1) := by
    rw [← hcells]
    refine ⟨l.map Prod.snd, ?_, hsub.map _⟩
    have hsnd := hperm.map Prod.snd
    rwa [List.map_map] at hsnd
  have hsent := hcensus.once.map fun r => r.envelope.1
  rw [List.map_map] at hsent
  exact hbodies.trans (((List.filter_sublist (l := census)).map _).subperm.trans hsent.subperm)

/-! ## Every step keeps the accounts -/

theorem Accounts.start (h : Accounts mail s taken past hand lost) (hidle : s.polling = .idle) {names : List String}
    (hnames : ∀ name ∈ names, ∃ info ∈ net.relays.relays, info.id = name) :
    Accounts mail { s with polling := .pulling [] names } taken past [] lost where
  receiver := h.receiver
  reachable := h.reachable
  holds := .pulling (fun _ => List.not_mem_nil) hnames
  perm := by
    have hholds := h.holds
    rw [hidle] at hholds
    cases hholds
    exact h.perm
  agrees := h.agrees
  returned := h.returned
  clean hclean := h.clean ⟨hclean.outs, by rw [hidle]; exact fun _ => List.not_mem_nil⟩

theorem Accounts.refuse (h : Accounts mail s taken past hand lost) {done : List PullOutcome} {name : String}
    {left : List String} (hpolling : s.polling = .pulling done (name :: left)) (e : IoError) :
    Accounts mail { s with polling := .pulling (done ++ [.error e]) [] } taken past hand lost where
  receiver := h.receiver
  reachable := h.reachable
  holds := by
    have hholds := h.holds
    rw [hpolling] at hholds
    cases hholds with
    | pulling hok _ =>
      have hfailed : Holds net (.pulling (done ++ [.error e]) []) (drained (done ++ [.error e])) :=
        .failed (e := e) (by simp)
      rwa [drained_append hok, drained, List.append_nil] at hfailed
  perm := h.perm
  agrees := h.agrees
  returned := h.returned
  clean hclean := absurd (List.mem_append_right done List.mem_cons_self) (hclean.polling e)

theorem Accounts.serve (h : Accounts mail s taken past hand lost) (hP : P.Lawful) {done : List PullOutcome}
    {info : RelayInfo} {left : List String} (hpolling : s.polling = .pulling done (info.id :: left)) :
    Accounts mail { s with
        fabric := s.fabric.setMailbox info.id []
        polling := .awaiting done
          (handleRequest PULL_REQUEST_BYTE (s.fabric.mailbox info.id) info.identity).2 left }
      (taken ++ (s.fabric.mailbox info.id).map (info.id, ·)) past (hand ++ s.fabric.mailbox info.id) lost where
  receiver := h.receiver
  reachable := by
    rw [Fabric.restore_drain]
    exact h.reachable
  holds := by
    have hholds := h.holds
    rw [hpolling] at hholds
    cases hholds with
    | pulling hok hleft =>
      refine .awaiting _ _ hok (fun name hname => hleft name (List.mem_cons_of_mem _ hname)) fun c hc => ?_
      rw [h.mailbox_length hP info.id c hc]
      decide
  perm := by
    have hperm := h.perm.append_right (s.fabric.mailbox info.id)
    rw [List.append_assoc, List.append_assoc] at hperm
    rw [List.map_append, List.map_map, List.append_assoc, List.append_assoc]
    simp only [Function.comp_def, List.map_id']
    exact hperm.trans (List.Perm.append_left _ (List.Perm.append_left _ List.perm_append_comm))
  agrees := h.agrees
  returned := h.returned
  clean hclean := h.clean ⟨hclean.outs, by rw [hpolling]; exact hclean.polling⟩

theorem Accounts.arrive (h : Accounts mail s taken past hand lost) (hP : P.Lawful) {done : List PullOutcome}
    {response : Bytes} {left : List String} (hpolling : s.polling = .awaiting done response left) {read : Bytes}
    (hread : read <+: response) :
    ∃ hand' lost', Accounts mail { s with polling := .next done left read } taken past hand' lost' := by
  have hholds := h.holds
  rw [hpolling] at hholds
  cases hholds with
  | awaiting cells who hok hleft hshort =>
    have hclean : (∀ o ∈ s.outs, ∃ ms, o = .ok ms) → s.Clean := fun houts =>
      ⟨houts, by rw [hpolling]; exact hok⟩
    unfold Polling.next
    cases hpull : pulled read with
    | none =>
      -- the pull fails, and the relay has forgotten what it wrote
      have hfailed : Holds net (.pulling (done ++ [.error ⟨"early eof"⟩]) []) (drained (done ++ [.error ⟨"early eof"⟩])) :=
        .failed (e := ⟨"early eof"⟩) (by simp)
      rw [drained_append hok, drained, List.append_nil] at hfailed
      refine ⟨drained done, cells ++ lost, h.receiver, h.reachable, hfailed, ?_, h.agrees, h.returned, fun hclean' => ?_⟩
      · have hperm := h.perm
        simp only [List.append_assoc] at hperm ⊢
        exact hperm
      · exact absurd (List.mem_append_right done List.mem_cons_self) (hclean'.polling ⟨"early eof"⟩)
    | some cells' =>
      obtain ⟨⟨rest, rfl⟩, hall⟩ := pulled_of_prefix hshort hread hpull
      have hhand : Holds net (.pulling (done ++ [.ok cells']) left) (drained (done ++ [.ok cells'])) :=
        .pulling (by simpa using hok) hleft
      rw [drained_append hok, drained, drained, List.append_nil] at hhand
      refine ⟨drained done ++ cells', rest ++ lost, h.receiver, h.reachable, hhand, ?_, h.agrees, h.returned, ?_⟩
      · have hperm := h.perm
        simp only [List.append_assoc] at hperm ⊢
        exact hperm
      · intro hclean' hsent
        have hcells : (cells' ++ rest).length ≤ s.fabric.sent.length := by
          have htaken := (h.taken_subperm hP).length_le
          rw [h.perm.length_eq] at htaken
          simp only [List.length_append, List.length_map] at htaken ⊢
          omega
        have hrest := hall (Nat.lt_of_le_of_lt hcells hsent)
        rw [h.clean (hclean hclean'.outs) hsent, List.append_nil]
        simpa using hrest

theorem returned_append (xs ys : List Cell) :
    returned (results [] (xs ++ ys)) = returned (results [] xs) ++ returned (results xs ys) := by
  rw [results_append, returned, List.filterMap_append]
  rfl

theorem Accounts.finish (h : Accounts mail s taken past hand lost) {done : List PullOutcome}
    (hpolling : s.polling = .pulling done []) : ∃ receiver out, s.receiver.poll done = some (receiver, out) ∧
    (∃ past' lost', Accounts mail { s with receiver, polling := .idle, outs := s.outs ++ [out] } taken past' [] lost') ∧
    ((∀ e, .error e ∉ done) → ∃ ms, out = .ok ms) := by
  obtain ⟨receiver, out, hpoll, hident, hagrees, hout⟩ := poll_spec h.agrees done
  rw [h.receiver] at hident hagrees hout
  refine ⟨receiver, out, hpoll, ?_⟩
  have hhand : hand = drained done := by
    have hholds := h.holds
    rw [hpolling] at hholds
    cases hholds <;> rfl
  have hmessages : messages (s.outs ++ [out]) = messages s.outs ++ messages [out] := List.flatMap_append
  -- `poll` fails iff `receive` does
  have hresult : ∃ ms, out = (receive identity done).map fun _ => ms := by
    rw [poll_eq, h.receiver] at hpoll
    obtain ⟨q, -, hq⟩ := Option.map_eq_some_iff.1 hpoll
    exact ⟨_, (Prod.mk.inj hq).2.symm⟩
  obtain ⟨ms, hresult⟩ := hresult
  rcases receive_eq identity done with ⟨hreceive, hok⟩ | ⟨e, hreceive, e', hfailed⟩
  · -- every pull succeeded: what was drained has been inserted
    have hins : insertCalls identity done = hand.filterMap (openEnvelope identity) := by
      rw [insertCalls, hreceive, hhand]
      rfl
    rw [hins] at hagrees hout
    refine ⟨⟨past ++ hand, lost, hident, h.reachable, .idle, ?_, ?_, ?_, fun hclean => ?_⟩, fun _ => ⟨ms, ?_⟩⟩
    · rw [List.append_nil]
      exact h.perm
    · rw [List.filterMap_append]
      exact hagrees
    · rw [hmessages, hout, List.filterMap_append, returned_append, h.returned]
    · refine h.clean ⟨fun o ho => hclean.outs o (List.mem_append_left _ ho), ?_⟩
      rw [hpolling]
      exact hok
    · rw [hresult, hreceive]
      rfl
  · -- a pull failed: what was drained is lost
    have hins : insertCalls identity done = [] := by
      rw [insertCalls, hreceive]
      rfl
    have hfail : out = .error e := by
      rw [hresult, hreceive]
      rfl
    rw [hins, List.append_nil] at hagrees
    rw [hins] at hout
    refine ⟨⟨past, hand ++ lost, hident, h.reachable, .idle, ?_, hagrees, ?_, fun hclean => ?_⟩,
      fun hok => absurd hfailed (hok e')⟩
    · rw [List.append_nil, ← List.append_assoc]
      exact h.perm
    · rw [hmessages, hout, h.returned]
      exact List.append_nil _
    · obtain ⟨ms, hms⟩ := hclean.outs out (by simp)
      rw [hfail] at hms
      cases hms

theorem sent_initial {f g : Fabric P ι} (h : Fabric.Step net f g) : f.sent <+: g.sent := by
  cases h with
  | write i r rest _ => exact List.prefix_append _ _
  | relay info source frame rest _ _ => rw [(f.handle_sent _ _ _ _).1]
  | deliver info body rest _ _ => exact List.prefix_rfl

theorem Accounts.step (h : Accounts mail s taken past hand lost) (hP : P.Lawful) (hst : Step net s t) :
    ∃ taken past hand lost, Accounts mail t taken past hand lost := by
  cases hst with
  | fabric fabric hst =>
    refine ⟨taken, past, hand, lost, h.receiver, h.reachable.step (hst.restore taken), h.holds, h.perm, h.agrees,
      h.returned, fun hclean hsent => h.clean ⟨hclean.outs, hclean.polling⟩ ?_⟩
    exact Nat.lt_of_le_of_lt (sent_initial hst).length_le hsent
  | start names hidle hnames => exact ⟨taken, past, [], lost, h.start hidle hnames⟩
  | refuse done name left e hpolling => exact ⟨taken, past, hand, lost, h.refuse hpolling e⟩
  | serve done info left hpolling _ => exact ⟨_, past, _, lost, h.serve hP hpolling⟩
  | arrive done response left read hpolling hread =>
    obtain ⟨hand', lost', h'⟩ := h.arrive hP hpolling hread
    exact ⟨taken, past, hand', lost', h'⟩
  | finish done receiver out hpolling hpoll =>
    obtain ⟨receiver', out', hpoll', ⟨past', lost', h'⟩, -⟩ := h.finish hpolling
    rw [hpoll] at hpoll'
    cases hpoll'
    exact ⟨taken, past', [], lost', h'⟩

theorem accounts_of_reachable (hP : P.Lawful) (hs : (system mail).Reachable s) :
    ∃ taken past hand lost, Accounts mail s taken past hand lost := by
  refine hs.invariant (I := fun s => ∃ taken past hand lost, Accounts mail s taken past hand lost) ?_ ?_
  · rintro _ rfl
    exact ⟨[], [], [], [], rfl, .init rfl, .idle, .nil, agrees_new, rfl, fun _ _ => rfl⟩
  · rintro s t ⟨taken, past, hand, lost, h⟩ hst
    exact h.step hP hst

end Runs
end Delivery
end VeilFabric
