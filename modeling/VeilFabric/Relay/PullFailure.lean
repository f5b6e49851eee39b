import VeilFabric.Relay.Mailbox
import VeilFabric.Lib.Transition
import Mathlib.Algebra.Order.BigOperators.Group.Multiset
import Mathlib.Data.Multiset.Bind
import Mathlib.Tactic.Abel

/-!
# PULL responses that fail (`veil-relay/src/pull_listener.rs:68`)

`handle_request` drains the mailbox and then writes the count and the frames one after the other; each write
can fail, and `?` then ends the handler. Handlers of any number of clients run at the same time as the pushes.
A handler under way is a `Response`: what it drained, and how many bytes of its response have been written so
far. `Response.written` are the cells whose frames are among these bytes.

In every reachable state the queue is the last part of what was pushed, in order, and every pushed cell is in
the queue or in the hands of one handler (`Inv`). A handler that fails drops the cells it has not written, so
nothing is lost exactly when every handler that failed had drained nothing (`pull_failure_iff`).
-/

namespace VeilFabric
open Wire

/-- The bytes `handle_request` writes for the drained cells. -/
def pullResponse (cells : List Bytes) : Bytes := beBytes 4 cells.length ++ cells.flatMap writeFrame

theorem handleRequest_pull (mailbox : Mailbox) (identity : RelayIdentity) :
    handleRequest PULL_REQUEST_BYTE mailbox identity = (mailbox.drain.1, pullResponse mailbox.drain.2) := rfl

/-- The cells whose frames are complete among the first `budget` bytes of the frames. -/
def writtenFrames : (budget : Nat) → List Bytes → List Bytes
  | _, [] => []
  | budget, cell :: cells =>
    if (writeFrame cell).length ≤ budget then cell :: writtenFrames (budget - (writeFrame cell).length) cells else []

/-- A handler between its `drain` and its end. -/
structure Response (Client : Type) where
  client : Client
  cells : List Bytes
  sent : Nat

/-- The cells it has completely written to its client; the count takes the first four bytes. -/
def Response.written {Client : Type} (self : Response Client) : List Bytes := writtenFrames (self.sent - 4) self.cells

structure PullState (Client : Type) where
  queue : Mailbox
  active : Multiset (Response Client)
  finished : Multiset (Response Client)
  failed : Multiset (Response Client)
  /-- Everything ever pushed, in order. -/
  pushed : List Bytes

namespace PullState
variable {Client : Type}

def initial : PullState Client := ⟨[], 0, 0, 0, []⟩

/-- A write that fails leaves at least one byte of the response unwritten; the point is arbitrary. -/
inductive Step : PullState Client → PullState Client → Prop
  | push (s : PullState Client) (cell : Bytes) :
      Step s { s with queue := s.queue.push cell, pushed := s.pushed ++ [cell] }
  | request (s : PullState Client) (client : Client) :
      Step s { s with queue := s.queue.drain.1, active := ⟨client, s.queue.drain.2, 0⟩ ::ₘ s.active }
  | write (s : PullState Client) (r : Response Client) (active : Multiset (Response Client)) (n : Nat) :
      s.active = r ::ₘ active → r.sent + n ≤ (pullResponse r.cells).length →
      Step s { s with active := { r with sent := r.sent + n } ::ₘ active }
  | finish (s : PullState Client) (r : Response Client) (active : Multiset (Response Client)) :
      s.active = r ::ₘ active → r.sent = (pullResponse r.cells).length →
      Step s { s with active, finished := r ::ₘ s.finished }
  | fail (s : PullState Client) (r : Response Client) (active : Multiset (Response Client)) :
      s.active = r ::ₘ active → r.sent < (pullResponse r.cells).length →
      Step s { s with active, failed := r ::ₘ s.failed }

def system : Transition.System (PullState Client) := ⟨fun s => s = initial, Step⟩

/-- The cells some responses drained. -/
def drainedBy (rs : Multiset (Response Client)) : Multiset Bytes := rs.bind fun r => (r.cells : Multiset Bytes)

/-- The cells among these that were completely written, each to the client of its response. -/
def writtenBy (rs : Multiset (Response Client)) : Multiset Bytes := rs.bind fun r => (r.written : Multiset Bytes)

/-- Each pushed cell is in the queue, under way in one response, or completely written to one client. -/
def Conserved (s : PullState Client) : Prop :=
  (s.pushed : Multiset Bytes) =
    (s.queue : Multiset Bytes) + drainedBy s.active + writtenBy s.finished + writtenBy s.failed

/-! ## What a response has written -/

theorem writtenFrames_length_le (budget : Nat) (cells : List Bytes) :
    (writtenFrames budget cells).length ≤ cells.length := by
  induction cells generalizing budget with
  | nil => simp [writtenFrames]
  | cons c cells ih =>
    unfold writtenFrames
    split
    · simpa using ih _
    · simp

/-- All cells are written exactly when all the bytes are. -/
theorem writtenFrames_length_eq_iff (budget : Nat) (cells : List Bytes) :
    (writtenFrames budget cells).length = cells.length ↔ (cells.flatMap writeFrame).length ≤ budget := by
  induction cells generalizing budget with
  | nil => simp [writtenFrames]
  | cons c cells ih =>
    unfold writtenFrames
    rw [List.flatMap_cons, List.length_append]
    split
    · have := ih (budget - (writeFrame c).length)
      simp only [List.length_cons, Nat.add_right_cancel_iff, this]
      omega
    · simp only [List.length_nil, List.length_cons]
      omega

theorem writtenFrames_eq (budget : Nat) {cells : List Bytes} (h : (cells.flatMap writeFrame).length ≤ budget) :
    writtenFrames budget cells = cells := by
  induction cells generalizing budget with
  | nil => rfl
  | cons c cells ih =>
    rw [List.flatMap_cons, List.length_append] at h
    rw [writtenFrames, if_pos (by omega), ih _ (by omega)]

theorem pullResponse_length (cells : List Bytes) :
    (pullResponse cells).length = 4 + (cells.flatMap writeFrame).length := by
  rw [pullResponse, List.length_append, beBytes_length]

/-- A response that is not complete has written all its cells only if there were none. -/
theorem written_length_eq_iff {r : Response Client} (h : r.sent < (pullResponse r.cells).length) :
    r.written.length = r.cells.length ↔ r.cells = [] := by
  rw [Response.written, writtenFrames_length_eq_iff]
  rw [pullResponse_length] at h
  cases hcells : r.cells with
  | nil => simp
  | cons c cells =>
    rw [hcells] at h
    have hframe : 4 ≤ ((c :: cells).flatMap writeFrame).length := by
      rw [List.flatMap_cons, List.length_append, writeFrame, Wire.writeFrame_length]
      omega
    simp only [reduceCtorEq, iff_false]
    omega

/-! ## The invariant -/

structure Inv (s : PullState Client) : Prop where
  order : s.queue <:+ s.pushed
  held : (s.pushed : Multiset Bytes) =
    (s.queue : Multiset Bytes) + drainedBy s.active + drainedBy s.finished + drainedBy s.failed
  finished : ∀ r ∈ s.finished, r.sent = (pullResponse r.cells).length
  failed : ∀ r ∈ s.failed, r.sent < (pullResponse r.cells).length

theorem drainedBy_cons (r : Response Client) (rs : Multiset (Response Client)) :
    drainedBy (r ::ₘ rs) = (r.cells : Multiset Bytes) + drainedBy rs := Multiset.cons_bind _ _ _

theorem inv_step {s t : PullState Client} (h : Inv s) (hst : Step s t) : Inv t := by
  cases hst with
  | push cell =>
    refine ⟨?_, ?_, h.finished, h.failed⟩
    · obtain ⟨pre, hpre⟩ := h.order
      exact ⟨pre, by simp [Mailbox.push, ← hpre]⟩
    · simp only [Mailbox.push, ← Multiset.coe_add, h.held]
      abel
  | request client =>
    refine ⟨List.nil_suffix, ?_, h.finished, h.failed⟩
    simp only [Mailbox.drain, drainedBy_cons, h.held, Multiset.coe_nil]
    abel
  | write r active n hact hn =>
    refine ⟨h.order, ?_, h.finished, h.failed⟩
    have hheld := h.held
    rw [hact, drainedBy_cons] at hheld
    rw [drainedBy_cons, hheld]
  | finish r active hact hdone =>
    refine ⟨h.order, ?_, ?_, h.failed⟩
    · have hheld := h.held
      rw [hact, drainedBy_cons] at hheld
      simp only [drainedBy_cons, hheld]
      abel
    · intro r' hr'
      rcases Multiset.mem_cons.1 hr' with rfl | hr'
      · exact hdone
      · exact h.finished r' hr'
  | fail r active hact hshort =>
    refine ⟨h.order, ?_, h.finished, ?_⟩
    · have hheld := h.held
      rw [hact, drainedBy_cons] at hheld
      simp only [drainedBy_cons, hheld]
      abel
    · intro r' hr'
      rcases Multiset.mem_cons.1 hr' with rfl | hr'
      · exact hshort
      · exact h.failed r' hr'

theorem reachable_inv {s : PullState Client} (h : system.Reachable s) : Inv s := by
  refine h.invariant (I := Inv) ?_ fun _ _ hs (hst : Step _ _) => inv_step hs hst
  rintro _ rfl
  exact ⟨List.suffix_rfl, rfl, by simp [initial], by simp [initial]⟩

/-- Conservation is a matter of the failed responses alone. -/
theorem Inv.conserved_iff {s : PullState Client} (h : Inv s) :
    s.Conserved ↔ writtenBy s.failed = drainedBy s.failed := by
  have hfinished : writtenBy s.finished = drainedBy s.finished := by
    apply Multiset.bind_congr
    intro r hr
    have hlen := h.finished r hr
    rw [pullResponse_length] at hlen
    rw [Response.written, writtenFrames_eq _ (by omega)]
  rw [Conserved, hfinished, h.held]
  constructor
  · intro heq
    exact (add_left_cancel heq).symm
  · intro heq
    rw [heq]

theorem Inv.failed_bind_iff {s : PullState Client} (h : Inv s) :
    writtenBy s.failed = drainedBy s.failed ↔ ∀ r ∈ s.failed, r.cells = [] := by
  constructor
  · intro heq r hr
    by_contra hcells
    have hcard := congrArg Multiset.card heq
    rw [writtenBy, drainedBy, Multiset.card_bind, Multiset.card_bind] at hcard
    refine absurd hcard (Nat.ne_of_lt (Multiset.sum_lt_sum ?_ ⟨r, hr, ?_⟩))
    · intro r' _
      exact writtenFrames_length_le _ _
    · have hlt := mt (written_length_eq_iff (h.failed r hr)).1 hcells
      have hle := writtenFrames_length_le (r.sent - 4) r.cells
      exact lt_of_le_of_ne hle hlt
  · intro hempty
    apply Multiset.bind_congr
    intro r hr
    rw [Response.written, hempty r hr]
    rfl

/-- **When no PULL response loses a cell.** In every reachable state, each pushed cell is in the queue, under way
in one response or completely written to one client, and the queue has its push order, if and only if every
response whose writing failed had found the mailbox empty. -/
theorem pull_failure_iff (s : PullState Client) (hs : system.Reachable s) :
    (s.Conserved ∧ s.queue <:+ s.pushed) ↔ ∀ r ∈ s.failed, r.cells = [] := by
  have hinv := reachable_inv hs
  rw [hinv.conserved_iff, hinv.failed_bind_iff]
  exact and_iff_left hinv.order

/-- A response to a pull of the empty mailbox fails, and a cell is pushed afterwards. -/
theorem pull_failure_empty : Conserved (⟨[[7]], 0, 0, {⟨true, [], 0⟩}, [[7]]⟩ : PullState Bool) := by
  have h0 : system.Reachable (initial : PullState Bool) := .init rfl
  have h1 := h0.step (Step.request initial true)
  have h2 := h1.step (Step.fail _ ⟨true, [], 0⟩ 0 rfl (by decide))
  have h3 := h2.step (Step.push _ [7])
  exact ((pull_failure_iff _ h3).2 (by simp [initial])).1

/-- A response with one cell has failed one byte before its end. -/
def cutShort : PullState Bool := ⟨[], 0, 0, {⟨true, [[7]], 8⟩}, [[7]]⟩

theorem cutShort_reachable : system.Reachable cutShort := by
  have h0 : system.Reachable (initial : PullState Bool) := .init rfl
  have h1 := h0.step (Step.push initial [7])
  have h2 := h1.step (Step.request _ true)
  have h3 := h2.step (Step.write _ ⟨true, [[7]], 0⟩ 0 8 rfl (by decide))
  exact h3.step (Step.fail _ ⟨true, [[7]], 8⟩ 0 rfl (by decide))

/-- Its cell is in no queue and was not completely written. -/
theorem failed_pull_loses_cell : system.Reachable cutShort ∧ ¬ cutShort.Conserved := by
  refine ⟨cutShort_reachable, ?_⟩
  have hinv := reachable_inv cutShort_reachable
  rw [hinv.conserved_iff, hinv.failed_bind_iff]
  simp [cutShort]

end PullState
end VeilFabric
