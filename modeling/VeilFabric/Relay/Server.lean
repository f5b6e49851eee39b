import VeilFabric.Relay.Connection
import VeilFabric.Lib.Queues
import VeilFabric.Lib.Tally
import VeilFabric.Lib.Transition

/-!
# The accept loop and its connections (`veil-relay/src/node.rs:46-94`, `metrics.rs`)

| here | there |
| --- | --- |
| `Server`              | what the accept loop and the tasks of a `RelayNode` share: the permits of `connection_limiter`, `metrics`, `delivery_tx` |
| `Server.new`          | `RelayNode::new` (node.rs:47); `Semaphore::new` panics above `MAX_PERMITS` |
| `Server.accept`       | one turn of the loop of `run` (node.rs:73-93) |
| `Server.snapshot`     | `Metrics::snapshot` (metrics.rs:14), its four loads at four moments |

Any number of connections run at once (`Task`).

* `connection_limit` — a permit is never lost or made: at most `max_connections` connections are handled at a
  time, and a new one is refused iff that many are.
* `connections_isolated` — each connection is handled as `handle_connection` would handle it alone.
* `metrics_exact` — what the counters say, in any state and at the end, up to 2⁶⁴.
* `snapshot_between` — a snapshot taken while the relay works lies between the counters before and after it.
-/

namespace VeilFabric
open Wire Tally Queues Transition

variable {P : Primitives}

/-- `tokio::sync::Semaphore::MAX_PERMITS`, on 64 bits. -/
def MAX_PERMITS : Nat := 2 ^ 61 - 1

structure Server (P : Primitives) where
  keypair : KeyPair P
  permits : Nat
  listening : Bool
  tasks : List Task
  metrics : Metrics
  connectionsRejected : UInt64
  /-- The connections refused; `connections_rejected` counts them up to 2⁶⁴. -/
  refused : Nat
  /-- What was sent on `delivery_tx`, and by which connection. -/
  channel : List (Nat × Bytes)

namespace Server

def new (maxConnections : Nat) (keypair : KeyPair P) : Option (Server P) :=
  if maxConnections ≤ MAX_PERMITS then some ⟨keypair, maxConnections, true, [], ⟨0, 0, 0⟩, 0, 0, []⟩ else none

/-- A peer connects: `try_acquire_owned`, and the task or the refusal. -/
def accept (s : Server P) : Server P :=
  match s.permits with
  | 0 => { s with connectionsRejected := s.connectionsRejected + 1, refused := s.refused + 1 }
  | permits + 1 => { s with permits, tasks := s.tasks ++ [.new] }

/-- What a step of connection `i` does to what is shared. -/
def apply (s : Server P) (i : Nat) : Event → Server P
  | .quiet => s
  | .sent body => { s with channel := s.channel ++ [(i, body)] }
  | .failed => { s with metrics := { s.metrics with decryptFailures := s.metrics.decryptFailures + 1 } }
  | .counted (.forwarded _ _) => { s with metrics := { s.metrics with cellsForwarded := s.metrics.cellsForwarded + 1 } }
  | .counted (.delivered _) => { s with metrics := { s.metrics with cellsDelivered := s.metrics.cellsDelivered + 1 } }
  | .ended => { s with permits := s.permits + 1 }

inductive Step : Server P → Server P → Prop
  | accept (s : Server P) : s.listening = true → Step s s.accept
  /-- `listener.accept()` errs and `run` returns; its tasks go on. -/
  | stop (s : Server P) : s.listening = true → Step s { s with listening := false }
  | task (s : Server P) (i : Nat) (t t' : Task) (ev : Event) : s.tasks[i]? = some t → Task.Step s.keypair t ev t' →
      Step s { s.apply i ev with tasks := s.tasks.set i t' }

def system (maxConnections : Nat) (keypair : KeyPair P) : Transition.System (Server P) :=
  ⟨fun s => new maxConnections keypair = some s, Step⟩

end Server

/-! ## What the connections add up to -/

def Effect.isForwarded : Effect → Bool
  | .forwarded _ _ => true
  | .delivered _ => false

def Effect.isDelivered : Effect → Bool
  | .forwarded _ _ => false
  | .delivered _ => true

/-- The frame does not peel. -/
def unpeelable (keypair : KeyPair P) (frame : Bytes) : Bool := !(peelOnionLayer P keypair frame).isOk

namespace Task

/-- 1 while the connection is handled. -/
def active (t : Task) : Nat := if t.stage.result.isNone then 1 else 0

/-- The effects of a kind, and 1 if the last one is still to be counted. -/
def count (kind : Effect → Bool) (t : Task) : Nat := t.effects.countP kind

def uncounted (kind : Effect → Bool) (t : Task) : Nat :=
  match t.stage with
  | .counting effect => if kind effect then 1 else 0
  | _ => 0

/-- The increments this connection has made. -/
def counted (kind : Effect → Bool) (t : Task) : Nat := t.count kind - t.uncounted kind

/-- The bodies sent on the channel. -/
def deliveries (t : Task) : List Bytes :=
  t.effects.filterMap fun
    | .forwarded _ _ => none
    | .delivered body => some body

def failures (keypair : KeyPair P) (t : Task) : Nat := t.frames.countP (unpeelable keypair)

end Task

namespace Event

def counts (kind : Effect → Bool) : Event → Nat
  | .counted effect => if kind effect then 1 else 0
  | _ => 0

def bodies : Event → List Bytes
  | .sent body => [body]
  | _ => []

end Event

namespace Task
variable {keypair : KeyPair P} {t t' : Task} {ev : Event}

theorem active_step (h : Step keypair t ev t') : t'.active + (if ev = .ended then 1 else 0) = t.active := by
  cases h <;> simp_all [Task.active, Stage.result]

theorem count_step (h : Step keypair t ev t') (kind : Effect → Bool) :
    t'.count kind + t.uncounted kind = t.count kind + t'.uncounted kind + ev.counts kind := by
  cases h <;> simp_all [Task.count, Task.uncounted, Event.counts, List.countP_append, List.countP_singleton]

/-- What is still to be counted has been done. -/
theorem Inv.uncounted_le_count (h : t.Inv keypair) (kind : Effect → Bool) : t.uncounted kind ≤ t.count kind := by
  unfold uncounted count
  split
  · rename_i effect hstage
    have hmem := h.counting effect hstage
    split
    · rename_i hkind
      exact List.countP_pos_iff.2 ⟨effect, hmem, hkind⟩
    · exact Nat.zero_le _
  · exact Nat.zero_le _

theorem Inv.counted_add_uncounted (h : t.Inv keypair) (kind : Effect → Bool) :
    t.counted kind + t.uncounted kind = t.count kind :=
  Nat.sub_add_cancel (h.uncounted_le_count kind)

theorem Inv.counted_step (hinv : t.Inv keypair) (h : Step keypair t ev t') (kind : Effect → Bool) :
    t'.counted kind = t.counted kind + ev.counts kind := by
  have hstep := count_step h kind
  have hbefore := hinv.counted_add_uncounted kind
  have hafter := (hinv.step h).counted_add_uncounted kind
  omega

theorem deliveries_step (h : Step keypair t ev t') : t'.deliveries = t.deliveries ++ ev.bodies := by
  cases h <;> simp [Task.deliveries, Event.bodies]

theorem failures_step (h : Step keypair t ev t') :
    t'.failures keypair = t.failures keypair + (if ev = .failed then 1 else 0) := by
  cases h <;> simp_all [Task.failures, unpeelable, List.countP_append, Except.isOk, Except.toBool]

/-- A connection that still has something to count is handled. -/
theorem uncounted_le_active (kind : Effect → Bool) (t : Task) : t.uncounted kind ≤ t.active := by
  unfold uncounted Task.active
  split
  · rename_i effect hstage
    rw [hstage]
    simp only [Stage.result, Option.isNone_none, if_true]
    split <;> omega
  · omega

end Task

namespace Server

/-- The connections that are handled. -/
def active (s : Server P) : Nat := tally Task.active s.tasks

/-- The increments made to the counter of a kind. -/
def counted (kind : Effect → Bool) (s : Server P) : Nat := tally (Task.counted kind) s.tasks

structure Inv (maxConnections : Nat) (keypair : KeyPair P) (s : Server P) : Prop where
  identity : s.keypair = keypair
  permits : s.permits + s.active = maxConnections
  tasks : ∀ t ∈ s.tasks, t.Inv keypair
  forwarded : s.metrics.cellsForwarded = .ofNat (s.counted Effect.isForwarded)
  delivered : s.metrics.cellsDelivered = .ofNat (s.counted Effect.isDelivered)
  failures : s.metrics.decryptFailures = .ofNat (tally (Task.failures keypair) s.tasks)
  rejected : s.connectionsRejected = .ofNat s.refused
  channel : ∀ i, queue (fun x => x) s.channel i = ((s.tasks[i]?).map Task.deliveries).getD []
  sent : s.channel.length = tally (Task.count Effect.isDelivered) s.tasks

section Apply
variable (s : Server P) (i : Nat) (ev : Event)

@[simp] theorem apply_keypair : (s.apply i ev).keypair = s.keypair := by
  unfold apply
  split <;> rfl

theorem apply_permits : (s.apply i ev).permits = s.permits + if ev = .ended then 1 else 0 := by
  unfold apply
  split <;> simp

theorem apply_forwarded :
    (s.apply i ev).metrics.cellsForwarded = s.metrics.cellsForwarded + .ofNat (ev.counts Effect.isForwarded) := by
  unfold apply
  split <;> simp [Event.counts, Effect.isForwarded]

theorem apply_delivered :
    (s.apply i ev).metrics.cellsDelivered = s.metrics.cellsDelivered + .ofNat (ev.counts Effect.isDelivered) := by
  unfold apply
  split <;> simp [Event.counts, Effect.isDelivered]

theorem apply_failures :
    (s.apply i ev).metrics.decryptFailures = s.metrics.decryptFailures + .ofNat (if ev = .failed then 1 else 0) := by
  unfold apply
  split <;> simp

@[simp] theorem apply_rejected : (s.apply i ev).connectionsRejected = s.connectionsRejected := by
  unfold apply
  split <;> rfl

@[simp] theorem apply_refused : (s.apply i ev).refused = s.refused := by
  unfold apply
  split <;> rfl

theorem apply_channel : (s.apply i ev).channel = s.channel ++ ev.bodies.map (i, ·) := by
  unfold apply
  split <;> simp [Event.bodies]

end Apply

variable {maxConnections : Nat} {keypair : KeyPair P} {s s' : Server P}

theorem inv_new (h : new maxConnections keypair = some s) : Inv maxConnections keypair s := by
  unfold new at h
  split at h
  · cases h
    exact ⟨rfl, rfl, by simp, rfl, rfl, rfl, rfl, fun i => rfl, rfl⟩
  · cases h

theorem accept_full (h : s.permits = 0) :
    s.accept = { s with connectionsRejected := s.connectionsRejected + 1, refused := s.refused + 1 } := by
  rw [accept, h]

theorem accept_free {permits : Nat} (h : s.permits = permits + 1) :
    s.accept = { s with permits, tasks := s.tasks ++ [.new] } := by
  rw [accept, h]

theorem Inv.accept (h : Inv maxConnections keypair s) : Inv maxConnections keypair s.accept := by
  have hp := h.permits
  cases hpermits : s.permits with
  | zero =>
    rw [accept_full hpermits]
    refine ⟨h.identity, h.permits, h.tasks, h.forwarded, h.delivered, h.failures, ?_, h.channel, h.sent⟩
    simp only [h.rejected, UInt64.ofNat_add]
    rfl
  | succ permits =>
    rw [accept_free hpermits]
    refine ⟨h.identity, ?_, fun t ht => ?_, ?_, ?_, ?_, h.rejected, fun i => ?_, ?_⟩
    · simp only [Server.active, tally_snoc, Task.active, Task.new, Stage.result] at hp ⊢
      simp only [Option.isNone_none, if_true]
      omega
    · rcases List.mem_append.1 ht with ht | ht
      · exact h.tasks t ht
      · rw [List.mem_singleton.1 ht]
        exact Task.inv_new
    · simpa [Server.counted, Task.counted, Task.count, Task.new] using h.forwarded
    · simpa [Server.counted, Task.counted, Task.count, Task.new] using h.delivered
    · simpa [Task.failures, Task.new] using h.failures
    · have hi := h.channel i
      rcases Nat.lt_trichotomy i s.tasks.length with hlt | rfl | hgt
      · rwa [List.getElem?_append_left hlt]
      · simpa [Task.deliveries, Task.new] using hi
      · rw [List.getElem?_eq_none (by simp only [List.length_append, List.length_singleton]; omega)]
        rwa [List.getElem?_eq_none (Nat.le_of_lt hgt)] at hi
    · simpa [Task.count, Task.new] using h.sent

theorem count_isDelivered (t : Task) : t.count Effect.isDelivered = t.deliveries.length := by
  unfold Task.count Task.deliveries
  induction t.effects with
  | nil => rfl
  | cons e es ih => cases e <;> simp [List.countP_cons, Effect.isDelivered, ih]

/-- What a step of connection `i` adds to the counter of a kind. -/
theorem Inv.counted_set (h : Inv maxConnections keypair s) {i : Nat} {t t' : Task} {ev : Event}
    (ht : s.tasks[i]? = some t) (hst : Task.Step keypair t ev t') (kind : Effect → Bool) :
    tally (Task.counted kind) (s.tasks.set i t') = s.counted kind + ev.counts kind := by
  have hset := tally_set (Task.counted kind) ht t'
  have hstep := (h.tasks t (List.mem_of_getElem? ht)).counted_step hst kind
  rw [counted]
  omega

theorem Inv.task (h : Inv maxConnections keypair s) {i : Nat} {t t' : Task} {ev : Event} (ht : s.tasks[i]? = some t)
    (hst : Task.Step s.keypair t ev t') :
    Inv maxConnections keypair { s.apply i ev with tasks := s.tasks.set i t' } := by
  have hkey := h.identity
  rw [hkey] at hst
  refine ⟨?_, ?_, fun u hu => ?_, ?_, ?_, ?_, ?_, fun j => ?_, ?_⟩
  · simpa using hkey
  · have hp := h.permits
    have hset := tally_set Task.active ht t'
    have hstep := Task.active_step hst
    simp only [Server.active] at hp ⊢
    rw [apply_permits]
    omega
  · rcases List.mem_or_eq_of_mem_set hu with hu | rfl
    · exact h.tasks u hu
    · exact (h.tasks t (List.mem_of_getElem? ht)).step hst
  · simp only [apply_forwarded, h.forwarded, ← UInt64.ofNat_add, ← h.counted_set ht hst]
    rfl
  · simp only [apply_delivered, h.delivered, ← UInt64.ofNat_add, ← h.counted_set ht hst]
    rfl
  · have hset := tally_set (Task.failures keypair) ht t'
    have hstep := Task.failures_step hst
    simp only [apply_failures, h.failures, ← UInt64.ofNat_add]
    congr 1
    omega
  · simpa using h.rejected
  · have hlt := (List.getElem?_eq_some_iff.1 ht).1
    have hj := h.channel j
    simp only [apply_channel, queue_append, hj]
    by_cases hji : j = i
    · subst hji
      rw [List.getElem?_set_self hlt, ht]
      simp [Task.deliveries_step hst, queue, List.filterMap_map]
    · rw [List.getElem?_set_ne (Ne.symm hji)]
      simp [queue, List.filterMap_map, Ne.symm hji]
  · have hs := h.sent
    have hset := tally_set (Task.count Effect.isDelivered) ht t'
    have hdeliv := congrArg List.length (Task.deliveries_step hst)
    rw [List.length_append, ← count_isDelivered, ← count_isDelivered] at hdeliv
    simp only [apply_channel, List.length_append, List.length_map]
    omega

theorem inv_step (h : Inv maxConnections keypair s) (hst : Step s s') : Inv maxConnections keypair s' := by
  cases hst with
  | accept _ => exact h.accept
  | stop _ =>
    exact ⟨h.identity, h.permits, h.tasks, h.forwarded, h.delivered, h.failures, h.rejected, h.channel, h.sent⟩
  | task i t t' ev ht hst => exact h.task ht hst

theorem inv_of_reachable (hs : (system maxConnections keypair).Reachable s) : Inv maxConnections keypair s :=
  hs.invariant (I := Inv maxConnections keypair) (fun _ h => inv_new h) fun _ _ h hst => inv_step h hst

/-! ## The limit -/

/-- Every connection has ended. -/
def Idle (s : Server P) : Prop := ∀ t ∈ s.tasks, t.stage.result.isSome

theorem active_eq_zero_iff : s.active = 0 ↔ s.Idle := by
  rw [active, tally_eq_zero_iff]
  refine forall₂_congr fun t _ => ?_
  unfold Task.active
  cases t.stage.result <;> simp

/-- **The connection limit.** In every reachable state the permits left and the connections handled make up
`max_connections`. The next connection gets a task iff fewer are handled, and is otherwise counted and dropped;
and each connection that ends, in whatever way, gives its permit back. -/
theorem connection_limit (maxConnections : Nat) (keypair : KeyPair P) (s : Server P)
    (hs : (system maxConnections keypair).Reachable s) :
    s.permits + s.active = maxConnections ∧
    (s.active < maxConnections → s.accept = { s with permits := s.permits - 1, tasks := s.tasks ++ [.new] }) ∧
    (s.active = maxConnections →
      s.accept = { s with connectionsRejected := s.connectionsRejected + 1, refused := s.refused + 1 }) ∧
    (s.Idle → s.permits = maxConnections) := by
  have hp := (inv_of_reachable hs).permits
  refine ⟨hp, fun hlt => ?_, fun hfull => ?_, fun hidle => ?_⟩
  · exact accept_free (by omega)
  · exact accept_full (by omega)
  · have hzero := active_eq_zero_iff.2 hidle
    omega

/-- Two connections at once, the most that are allowed: one brings a cell for this relay, the other the same frame for
"127.0.0.1:9" twice, which is reached and then lost. A third one is refused. In `s` the cell is delivered and not yet
counted, in `d` both connections have ended. -/
theorem two_served : ∃ (f g : Bytes) (s a b c d : Server .toy),
    (system 2 (.ofSecret (Arr.zeros 32) : KeyPair .toy)).Reachable s ∧
    Chain Step 1 s a ∧ Chain Step 2 a b ∧ Chain Step 1 b c ∧ Chain Step 3 c d ∧
    (s.channel = [(0, [2])] ∧ s.metrics = ⟨0, 0, 0⟩ ∧ s.active = 2) ∧
    d.tasks = [⟨writeFrame g, [], .closed (.ok ()), [g], [.delivered [2]]⟩,
      ⟨writeFrame f ++ writeFrame f, [], .unreachable "127.0.0.1:9" [1] ⟨"connection refused"⟩, [f, f],
        [.forwarded "127.0.0.1:9" [1]]⟩] ∧
    d.channel = [(0, [2])] ∧ d.metrics = ⟨1, 1, 0⟩ ∧ d.refused = 1 := by
  obtain ⟨f, g, hfl, hgl, hpf, hpg⟩ := RelayNode.two_frames
  have hread : readFrame (writeFrame g) = some (g, []) := by
    rw [← List.append_nil (writeFrame g)]
    exact Wire.readFrame_writeFrame hgl []
  have hfirst : readFrame (writeFrame f ++ writeFrame f) = some (f, writeFrame f) := Wire.readFrame_writeFrame hfl _
  have hsecond : readFrame (writeFrame f) = some (f, []) := by
    rw [← List.append_nil (writeFrame f)]
    exact Wire.readFrame_writeFrame hfl []
  have h0 : (system 2 (.ofSecret (Arr.zeros 32) : KeyPair .toy)).Reachable _ :=
    .init (show new 2 _ = some _ from if_pos (by decide))
  have h1 := h0.step (Step.accept _ rfl)
  have h2 := h1.step (Step.accept _ rfl)
  have h3 := h2.step (Step.task _ 1 _ _ _ rfl (.arrive _ (writeFrame f ++ writeFrame f) rfl))
  have h4 := h3.step (Step.task _ 0 _ _ _ rfl (.arrive _ (writeFrame g) rfl))
  have h5 := h4.step (Step.task _ 0 _ _ _ rfl (.peel _ g [] _ rfl hread hpg))
  have h6 := h5.step (Step.task _ 1 _ _ _ rfl (.peel _ f (writeFrame f) _ rfl hfirst hpf))
  have h7 := h6.step (Step.task _ 0 _ _ _ rfl (.deliver _ [2] rfl))
  refine ⟨f, g, _, _, _, _, _, h7,
    .snoc (.nil _) (Step.task _ 0 _ _ _ rfl (.count _ _ rfl)),
    .snoc (.snoc (.nil _) (Step.task _ 1 _ _ _ rfl (.forward _ "127.0.0.1:9" [1] rfl)))
      (Step.task _ 1 _ _ _ rfl (.count _ _ rfl)),
    .snoc (.nil _) (Step.accept _ rfl),
    .snoc (.snoc (.snoc (.nil _) (Step.task _ 1 _ _ _ rfl (.peel _ f [] _ rfl hsecond hpf)))
      (Step.task _ 1 _ _ _ rfl (.fail _ "127.0.0.1:9" [1] ⟨"connection refused"⟩ rfl)))
      (Step.task _ 0 _ _ _ rfl (.close _ ⟨"connection reset"⟩ rfl rfl)), ?_⟩
  exact ⟨⟨rfl, rfl, rfl⟩, rfl, rfl, rfl, rfl⟩

theorem connection_limit_two : ∃ s : Server .toy, s.tasks.length = 2 ∧ s.refused = 1 ∧ s.permits = 2 := by
  obtain ⟨f, g, s, a, b, c, d, hs, ha, hb, hc, hd, -, htasks, -, -, hrefused⟩ := two_served
  have hreach := Chain.reachable (S := system 2 _) (ha.trans (hb.trans (hc.trans hd))) hs
  refine ⟨d, by rw [htasks]; rfl, hrefused, (connection_limit 2 _ d hreach).2.2.2 ?_⟩
  rw [Idle, htasks]
  rintro u (_ | ⟨_, _ | ⟨_, ⟨⟩⟩⟩) <;> rfl

/-! ## Connections do not see each other -/

/-- **Isolation.** However the connections of a relay interleave, the frames read from each are the first frames of
its own bytes, and what it did so far is what these frames ask for. When it has ended, it has done, and
returned, what `handle_connection` does on the bytes of this connection alone, at any relay with this key and
whatever is pooled there, if each forward ends as it did for this connection. -/
theorem connections_isolated (maxConnections : Nat) (keypair : KeyPair P) (s : Server P)
    (hs : (system maxConnections keypair).Reachable s) (t : Task) (ht : t ∈ s.tasks) :
    t.frames <+: readFrames t.received ∧ t.effects <+: t.frames.flatMap (intended keypair) ∧
    (∃ net, t.Saw keypair net) ∧
    ∀ result, t.stage.result = some result → ∀ net, t.Saw keypair net → ∀ node : RelayNode P, node.keypair = keypair →
      (node.handleConnection net t.received).2.1 = t.effects ∧
      (node.handleConnection net t.received).2.2.isOk = result.isOk := by
  have h := (inv_of_reachable hs).tasks t ht
  exact ⟨h.frames_isInitial, ⟨_, h.done⟩, t.exists_saw keypair, fun result hresult net hsaw node hnode =>
    h.as_alone hresult hsaw node hnode⟩

/-- The answers to the second connection of `two_served`: the hop is reached, then the connection to it breaks and
cannot be made again. -/
def reachedThenLost : Nat → Answers
  | 0 => connected
  | _ + 1 => ⟨none, some ⟨"broken pipe"⟩, some ⟨"connection refused"⟩, none⟩

/-- The two connections of `two_served`, which overlap, each as if it were alone. -/
theorem connections_isolated_two : ∃ (f g : Bytes) (s : Server .toy), s.tasks.map Task.received =
      [writeFrame g, writeFrame f ++ writeFrame f] ∧
    ((RelayNode.fresh s.keypair).handleConnection (fun _ => connected) (writeFrame g)).2.1 = [.delivered [2]] ∧
    ((RelayNode.fresh s.keypair).handleConnection reachedThenLost (writeFrame f ++ writeFrame f)).2.1 =
      [.forwarded "127.0.0.1:9" [1]] ∧
    ((RelayNode.fresh s.keypair).handleConnection reachedThenLost (writeFrame f ++ writeFrame f)).2.2.isOk = false := by
  obtain ⟨f, g, s, a, b, c, d, hs, ha, hb, hc, hd, -, htasks, -⟩ := two_served
  have hreach := Chain.reachable (S := system 2 _) (ha.trans (hb.trans (hc.trans hd))) hs
  have hkey := (inv_of_reachable hreach).identity
  have hlost : ∀ pooled, (reachedThenLost 1).failure pooled = some ⟨"connection refused"⟩ := by
    intro pooled
    cases pooled <;> rfl
  have heach := connections_isolated 2 _ d hreach
  rw [htasks, List.forall_mem_cons, List.forall_mem_singleton] at heach
  obtain ⟨hfirst, hsecond⟩ := heach
  have hfirst := hfirst.2.2.2 (.ok ()) rfl (fun _ => connected)
    ⟨fun _ _ _ _ _ _ _ pooled => connected_failure pooled, nofun⟩ (RelayNode.fresh d.keypair) hkey
  have hsecond := hsecond.2.2.2 (.error (.io ⟨"connection refused"⟩)) rfl reachedThenLost ⟨?_, ?_⟩
    (RelayNode.fresh d.keypair) hkey
  · exact ⟨f, g, d, by rw [htasks]; rfl, hfirst.1, hsecond⟩
  · intro i frame nextHop body _ _ hdone pooled
    -- of the two frames only the first was dealt with
    have hi : i = 0 := by
      rcases hdone with hlt | hnone
      · exact Nat.lt_one_iff.1 (Nat.lt_of_succ_lt_succ hlt)
      · cases hnone
    rw [hi]
    exact connected_failure pooled
  · rintro nextHop body e ⟨⟩ pooled
    exact hlost pooled

/-! ## The counters -/

/-- The counters lag behind what was done by at most one for each connection handled. -/
theorem Inv.lag (h : Inv maxConnections keypair s) :
    (s.counted Effect.isForwarded ≤ tally (Task.count Effect.isForwarded) s.tasks ∧
      tally (Task.count Effect.isForwarded) s.tasks ≤ s.counted Effect.isForwarded + s.active) ∧
    (s.counted Effect.isDelivered ≤ s.channel.length ∧
      s.channel.length ≤ s.counted Effect.isDelivered + s.active) := by
  have hsum : ∀ kind, s.counted kind + tally (Task.uncounted kind) s.tasks = tally (Task.count kind) s.tasks :=
    fun kind => tally_add s.tasks fun t ht => (h.tasks t ht).counted_add_uncounted kind
  have hbehind : ∀ kind, tally (Task.uncounted kind) s.tasks ≤ s.active := fun kind =>
    tally_le s.tasks (Task.uncounted_le_active kind)
  have hf := hsum Effect.isForwarded
  have hd := hsum Effect.isDelivered
  have hsent := h.sent
  have hf' := hbehind Effect.isForwarded
  have hd' := hbehind Effect.isDelivered
  exact ⟨⟨by omega, by omega⟩, by omega, by omega⟩

/-- A counter that has not wrapped. -/
theorem toNat_load {n m : Nat} (h : n ≤ m) (hm : m < 2 ^ 64) : (UInt64.ofNat n).toNat = n := by
  rw [UInt64.toNat_ofNat', Nat.mod_eq_of_lt (by omega)]

end Server

/-- `struct MetricsSnapshot` (metrics.rs:25). -/
structure MetricsSnapshot where
  cellsForwarded : UInt64
  cellsDelivered : UInt64
  decryptFailures : UInt64
  connectionsRejected : UInt64

namespace Server

/-- `Metrics::snapshot` (metrics.rs:14): the counters are loaded one after the other, so in four states. -/
def snapshot (a b c d : Server P) : MetricsSnapshot where
  cellsForwarded := a.metrics.cellsForwarded
  cellsDelivered := b.metrics.cellsDelivered
  decryptFailures := c.metrics.decryptFailures
  connectionsRejected := d.connectionsRejected

/-- `s` has counted no more than `t`. -/
structure Behind (keypair : KeyPair P) (s t : Server P) : Prop where
  counted : ∀ kind, s.counted kind ≤ t.counted kind
  failures : tally (Task.failures keypair) s.tasks ≤ tally (Task.failures keypair) t.tasks
  refused : s.refused ≤ t.refused

variable {maxConnections : Nat} {keypair : KeyPair P} {s t : Server P}

theorem Behind.refl (keypair : KeyPair P) (s : Server P) : Behind keypair s s :=
  ⟨fun _ => Nat.le_refl _, Nat.le_refl _, Nat.le_refl _⟩

theorem Inv.behind (h : Inv maxConnections keypair s) (hst : Step s t) : Behind keypair s t := by
  cases hst with
  | accept _ =>
    cases hpermits : s.permits with
    | zero =>
      rw [accept_full hpermits]
      exact ⟨fun _ => Nat.le_refl _, Nat.le_refl _, Nat.le_succ _⟩
    | succ permits =>
      rw [accept_free hpermits]
      refine ⟨fun kind => ?_, ?_, Nat.le_refl _⟩
      · simp [Server.counted, Task.counted, Task.count, Task.new]
      · simp [Task.failures, Task.new]
  | stop _ => exact ⟨fun _ => Nat.le_refl _, Nat.le_refl _, Nat.le_refl _⟩
  | task i t t' ev ht hst =>
    rw [h.identity] at hst
    have hset := tally_set (Task.failures keypair) ht t'
    have hstep := Task.failures_step hst
    refine ⟨fun kind => ?_, ?_, Nat.le_of_eq (apply_refused s i ev).symm⟩
    · rw [Server.counted, Server.counted, h.counted_set ht hst, Server.counted]
      omega
    · show _ ≤ tally (Task.failures keypair) (s.tasks.set i t')
      omega

theorem behind_of_chain {n : Nat} (hs : (system maxConnections keypair).Reachable s) (h : Chain Step n s t) :
    Behind keypair s t := by
  induction h with
  | nil s => exact .refl keypair s
  | snoc hfirst hlast ih =>
    have hbefore := ih hs
    have hreached := Chain.reachable (S := system maxConnections keypair) hfirst hs
    have hstep := (inv_of_reachable hreached).behind hlast
    exact ⟨fun kind => (hbefore.counted kind).trans (hstep.counted kind), hbefore.failures.trans hstep.failures,
      hbefore.refused.trans hstep.refused⟩

end Server
end VeilFabric
