import VeilFabric.Relay.Forwarding
import VeilFabric.Lib.Transition
import Mathlib.Logic.Function.Basic
import Mathlib.Data.List.Nodup

/-!
# Concurrent forwarding over pooled connections (`veil-relay/src/node.rs:136-162`)

`RelayNode::forward` runs in any number of tasks at once. Its awaits are the points where tasks interleave:
taking the pool's lock, dialling (with the pool locked), taking a connection's lock, and every write to the
socket. `Pc` is where a call of `forward` stands; `Step` has one constructor for each stretch of code between
two awaits.

| `Pc` | node.rs |
| --- | --- |
| `lockPool a`, `dialing a` | `get_or_connect` (:153): waiting for `self.outbound.lock()`, in `TcpStream::connect` |
| `lockConn a c`            | waiting for `conn.lock()` (:139, :148); the `Arc` has been cloned out of the pool |
| `writing a c rest`        | in `write_frame` (:140, :149), `rest` still to be written |
| `evicting`                | waiting for the lock in `self.outbound.lock().await.remove(next_hop)` (:146) |
| `ok`, `err`               | returned |

Of the outside world the model assumes what a TCP stream and a tokio `Mutex` give: a write that fails leaves a
strict prefix of its bytes and a connection on which every later write fails, and a lock has one holder.
`forward_all_or_nothing` is the result: what is on a connection is always complete frames of different calls
and at most one cut frame after them, a call that returned `Ok` has one complete frame, one that returned
`Err` has none.
-/

namespace VeilFabric
open Wire

/-- The two tries of `forward`. -/
inductive Attempt where
  | first
  | second
deriving DecidableEq

inductive Pc where
  | idle
  | lockPool (a : Attempt)
  | dialing (a : Attempt)
  | lockConn (a : Attempt) (c : Nat)
  | writing (a : Attempt) (c : Nat) (rest : Bytes)
  | evicting
  | ok
  | err
deriving DecidableEq

/-- An outbound connection: the bytes put on it, whether a write failed, and who holds its lock. -/
structure Link (ι : Type) where
  written : Bytes
  broken : Bool
  lock : Option ι

def Link.new {ι : Type} : Link ι := ⟨[], false, none⟩

/-- The calls of `forward` are named by `ι`. Connections are numbered in the order they were dialled. -/
structure PoolState (ι : Type) where
  pc : ι → Pc
  pool : String → Option Nat
  poolLock : Option ι
  links : Nat → Link ι
  next : Nat
  /-- Which frames have been written to the end, on which connection, in order. -/
  done : List (Nat × ι)

namespace PoolState
variable {ι : Type}

def initial : PoolState ι := ⟨fun _ => .idle, fun _ => none, none, fun _ => .new, 0, []⟩

/-- The calls whose frames are complete on connection `c`, in order. -/
def framesOn (s : PoolState ι) (c : Nat) : List ι := (s.done.filter fun d => d.1 = c).map Prod.snd

section Steps
variable [DecidableEq ι] (nextHop : ι → String) (body : ι → Bytes)

/-- One step of the call `i`. -/
inductive Step : PoolState ι → PoolState ι → Prop
  | start (s : PoolState ι) (i : ι) : s.pc i = .idle →
      Step s { s with pc := Function.update s.pc i (.lockPool .first) }
  /-- The address is pooled: clone the connection and give the lock back. -/
  | hit (s : PoolState ι) (i : ι) (a : Attempt) (c : Nat) : s.pc i = .lockPool a → s.poolLock = none →
      s.pool (nextHop i) = some c → Step s { s with pc := Function.update s.pc i (.lockConn a c) }
  | miss (s : PoolState ι) (i : ι) (a : Attempt) : s.pc i = .lockPool a → s.poolLock = none →
      s.pool (nextHop i) = none →
      Step s { s with pc := Function.update s.pc i (.dialing a), poolLock := some i }
  | dialOk (s : PoolState ι) (i : ι) (a : Attempt) : s.pc i = .dialing a →
      Step s { s with
        pc := Function.update s.pc i (.lockConn a s.next)
        pool := Function.update s.pool (nextHop i) (some s.next)
        poolLock := none
        links := Function.update s.links s.next .new
        next := s.next + 1 }
  | dialFail (s : PoolState ι) (i : ι) (a : Attempt) : s.pc i = .dialing a →
      Step s { s with pc := Function.update s.pc i .err, poolLock := none }
  | lock (s : PoolState ι) (i : ι) (a : Attempt) (c : Nat) : s.pc i = .lockConn a c → (s.links c).lock = none →
      Step s { s with
        pc := Function.update s.pc i (.writing a c (writeFrame (body i)))
        links := Function.update s.links c { s.links c with lock := some i } }
  /-- The socket takes some bytes, not all that are left. -/
  | write (s : PoolState ι) (i : ι) (a : Attempt) (c : Nat) (chunk rest : Bytes) :
      s.pc i = .writing a c (chunk ++ rest) → (s.links c).broken = false → chunk ≠ [] → rest ≠ [] →
      Step s { s with
        pc := Function.update s.pc i (.writing a c rest)
        links := Function.update s.links c { s.links c with written := (s.links c).written ++ chunk } }
  /-- The socket takes the last bytes. -/
  | writeLast (s : PoolState ι) (i : ι) (a : Attempt) (c : Nat) (rest : Bytes) :
      s.pc i = .writing a c rest → (s.links c).broken = false → rest ≠ [] →
      Step s { s with
        pc := Function.update s.pc i (.writing a c [])
        links := Function.update s.links c { s.links c with written := (s.links c).written ++ rest }
        done := s.done ++ [(c, i)] }
  | finish (s : PoolState ι) (i : ι) (a : Attempt) (c : Nat) : s.pc i = .writing a c [] →
      Step s { s with
        pc := Function.update s.pc i .ok
        links := Function.update s.links c { s.links c with lock := none } }
  /-- The write fails; the first time the call goes on to evict the connection, the second time it gives up. -/
  | fail (s : PoolState ι) (i : ι) (a : Attempt) (c : Nat) (rest : Bytes) : s.pc i = .writing a c rest → rest ≠ [] →
      Step s { s with
        pc := Function.update s.pc i (match a with | .first => .evicting | .second => .err)
        links := Function.update s.links c { s.links c with broken := true, lock := none } }
  | evict (s : PoolState ι) (i : ι) : s.pc i = .evicting → s.poolLock = none →
      Step s { s with
        pc := Function.update s.pc i (.lockPool .second)
        pool := Function.update s.pool (nextHop i) none }

def system : Transition.System (PoolState ι) := ⟨fun s => s = initial, Step nextHop body⟩

end Steps

/-! ## The invariant -/

section Invariant
variable (body : ι → Bytes)

/-- What connection `c` carries: complete frames, then what the holder of its lock has written of its own, or
what a failed write has left. -/
def LinkOk (s : PoolState ι) (c : Nat) : Prop :=
  ∃ tail, (s.links c).written = (s.framesOn c).flatMap (fun i => writeFrame (body i)) ++ tail ∧
    ((s.links c).broken = true → ∃ j rest, rest ≠ [] ∧ tail ++ rest = writeFrame (body j)) ∧
    ((s.links c).broken = false → (s.links c).lock = none → tail = []) ∧
    ((s.links c).broken = false → ∀ i a rest, s.pc i = .writing a c rest →
      (rest = [] → tail = []) ∧ (rest ≠ [] → tail ++ rest = writeFrame (body i)))

structure Inv (s : PoolState ι) : Prop where
  lock : ∀ c i, (s.links c).lock = some i ↔ ∃ a rest, s.pc i = .writing a c rest
  fresh : ∀ c, s.next ≤ c → s.links c = .new
  known : ∀ i a c, s.pc i = .lockConn a c → c < s.next
  pooled : ∀ addr c, s.pool addr = some c → c < s.next
  /-- On a broken connection nobody gets any byte through. -/
  stuck : ∀ i a c rest, s.pc i = .writing a c rest → (s.links c).broken = true → rest = writeFrame (body i)
  bytes : ∀ c, LinkOk body s c
  complete : ∀ i, i ∈ s.done.map Prod.snd ↔ s.pc i = .ok ∨ ∃ a c, s.pc i = .writing a c []
  once : (s.done.map Prod.snd).Nodup

variable {body}

theorem inv_initial : Inv body (initial : PoolState ι) where
  lock c i := by simp [initial, Link.new]
  fresh c _ := rfl
  known i a c h := by cases h
  pooled addr c h := by cases h
  stuck i a c rest h := by cases h
  bytes c := by
    refine ⟨[], by simp [initial, Link.new, framesOn], ?_, fun _ _ => rfl, ?_⟩
    · intro h
      cases h
    · rintro _ i a rest ⟨⟩
  complete i := by simp [initial]
  once := by simp [initial]

/-- What `LinkOk` looks at: the connection, the frames on it and its writer. -/
theorem LinkOk.congr {s t : PoolState ι} {c : Nat} (h : LinkOk body s c) (hlink : t.links c = s.links c)
    (hdone : t.framesOn c = s.framesOn c)
    (hpc : ∀ i a rest, t.pc i = .writing a c rest → s.pc i = .writing a c rest) : LinkOk body t c := by
  obtain ⟨tail, hw, hb, hl, hwr⟩ := h
  unfold LinkOk
  rw [hlink, hdone]
  exact ⟨tail, hw, hb, hl, fun hb i a rest hi => hwr hb i a rest (hpc i a rest hi)⟩

/-- A frame completed on one connection is no frame on another. -/
theorem framesOn_other {s t : PoolState ι} {i : ι} {c d : Nat} (hdone : t.done = s.done ∨ t.done = s.done ++ [(c, i)])
    (hd : d ≠ c) : t.framesOn d = s.framesOn d := by
  rcases hdone with e | e
  · rw [framesOn, e]
    rfl
  · rw [framesOn, e]
    simp [framesOn, Ne.symm hd]

/-- The connection has one writer. -/
theorem Inv.writer_unique {s : PoolState ι} (h : Inv body s) {i j : ι} {a b : Attempt} {c : Nat} {rest rest' : Bytes}
    (hi : s.pc i = .writing a c rest) (hj : s.pc j = .writing b c rest') : j = i := by
  have h1 := (h.lock c i).2 ⟨a, rest, hi⟩
  have h2 := (h.lock c j).2 ⟨b, rest', hj⟩
  rw [h1] at h2
  exact (Option.some.inj h2).symm

theorem Inv.not_complete {s : PoolState ι} (h : Inv body s) {i : ι} (hok : s.pc i ≠ .ok)
    (hw : ∀ a c, s.pc i ≠ .writing a c []) : i ∉ s.done.map Prod.snd := by
  rw [h.complete i]
  rintro (e | ⟨a, c, e⟩)
  · exact hok e
  · exact hw a c e

theorem Inv.not_complete_of_writing {s : PoolState ι} (h : Inv body s) {i : ι} {a : Attempt} {c : Nat}
    {rest : Bytes} (hi : s.pc i = .writing a c rest) (hrest : rest ≠ []) : i ∉ s.done.map Prod.snd := by
  refine h.not_complete (by rw [hi]; nofun) fun b d hw => ?_
  rw [hi] at hw
  injection hw with _ _ hnil
  exact hrest hnil

theorem Inv.writing_lt {s : PoolState ι} (h : Inv body s) {i : ι} {a : Attempt} {c : Nat} {rest : Bytes}
    (hi : s.pc i = .writing a c rest) : c < s.next := by
  by_contra hc
  have hl := (h.lock c i).2 ⟨a, rest, hi⟩
  rw [h.fresh c (Nat.le_of_not_lt hc)] at hl
  cases hl

theorem Inv.link_frames {s : PoolState ι} (h : Inv body s) (c : Nat) :
    ∃ tail, (s.links c).written = (s.framesOn c).flatMap (fun i => writeFrame (body i)) ++ tail ∧
      (tail = [] ∨ ∃ i rest, rest ≠ [] ∧ tail ++ rest = writeFrame (body i)) := by
  obtain ⟨tail, hw, hbroken, hidle, hwriting⟩ := h.bytes c
  refine ⟨tail, hw, ?_⟩
  cases hb : (s.links c).broken with
  | true => exact .inr (hbroken hb)
  | false =>
    cases hl : (s.links c).lock with
    | none => exact .inl (hidle hb hl)
    | some i =>
      obtain ⟨a, rest, hi⟩ := (h.lock c i).1 hl
      by_cases hrest : rest = []
      · exact .inl ((hwriting hb i a rest hi).1 hrest)
      · exact .inr ⟨i, rest, hrest, (hwriting hb i a rest hi).2 hrest⟩

/-! ### Steps away from the connections -/

variable [DecidableEq ι]

/-- Not writing, and not past it. -/
def Quiet : Pc → Prop
  | .writing _ _ _ => False
  | .ok => False
  | _ => True

/-- Between quiet places a call touches the pool only. -/
theorem Inv.quiet {s : PoolState ι} (h : Inv body s) {i : ι} {p : Pc} (hfrom : Quiet (s.pc i)) (hto : Quiet p)
    {pool : String → Option Nat} {poolLock : Option ι} {next : Nat} (hnext : s.next ≤ next)
    (hp : ∀ a c, p = .lockConn a c → c < next) (hpool : ∀ addr c, pool addr = some c → c < next) :
    Inv body { s with pc := Function.update s.pc i p, pool, poolLock, next } := by
  have hpc : ∀ j a c rest, Function.update s.pc i p j = .writing a c rest ↔ s.pc j = .writing a c rest := by
    intro j a c rest
    by_cases hj : j = i
    · subst hj
      rw [Function.update_self]
      constructor
      · rintro rfl
        exact hto.elim
      · intro hw
        rw [hw] at hfrom
        exact hfrom.elim
    · rw [Function.update_of_ne hj]
  refine ⟨fun c j => ?_, fun c hc => h.fresh c (Nat.le_trans hnext hc), fun j a c hj => ?_, hpool,
    fun j a c rest hj => h.stuck j a c rest ((hpc j a c rest).1 hj),
    fun c => (h.bytes c).congr rfl rfl fun j a rest => (hpc j a c rest).1, fun j => ?_, h.once⟩
  · rw [h.lock c j]
    simp only [hpc]
  · by_cases hji : j = i
    · subst hji
      exact hp a c (by simpa using hj)
    · simp only [Function.update_of_ne hji] at hj
      exact Nat.lt_of_lt_of_le (h.known j a c hj) hnext
  · rw [h.complete j]
    simp only [hpc]
    by_cases hji : j = i
    · subst hji
      have hno : s.pc j ≠ .ok := fun hok => by rw [hok] at hfrom; exact hfrom.elim
      have hno' : p ≠ .ok := fun hok => by rw [hok] at hto; exact hto.elim
      simp [hno, hno']
    · simp [Function.update_of_ne hji]

/-! ### Steps on a connection -/

theorem writeFrame_ne_nil (b : Bytes) : writeFrame b ≠ [] := by
  intro h
  have hlen := congrArg List.length h
  rw [writeFrame, Wire.writeFrame_length] at hlen
  simp at hlen

/-- A step of the call `i` on connection `c`, where it is alone: the call goes to `p`, the connection becomes `l`. -/
structure OnLink (s t : PoolState ι) (i : ι) (c : Nat) (p : Pc) (l : Link ι) : Prop where
  pc : t.pc = Function.update s.pc i p
  links : t.links = Function.update s.links c l
  comes_from : ∀ a d rest, s.pc i = .writing a d rest → d = c
  stays : ∀ a d rest, p = .writing a d rest → d = c
  alone : ∀ j, j ≠ i → ∀ a rest, s.pc j ≠ .writing a c rest

namespace OnLink
variable {s t : PoolState ι} {i j : ι} {c d : Nat} {p : Pc} {l : Link ι} {a : Attempt} {rest : Bytes}

theorem pc_self (m : OnLink s t i c p l) : t.pc i = p := by rw [m.pc, Function.update_self]

theorem pc_other (m : OnLink s t i c p l) (hj : j ≠ i) : t.pc j = s.pc j := by rw [m.pc, Function.update_of_ne hj]

theorem link_self (m : OnLink s t i c p l) : t.links c = l := by rw [m.links, Function.update_self]

theorem link_other (m : OnLink s t i c p l) (hd : d ≠ c) : t.links d = s.links d := by
  rw [m.links, Function.update_of_ne hd]

/-- The only writer on the connection is the call, if it goes on writing. -/
theorem writing_here (m : OnLink s t i c p l) : t.pc j = .writing a c rest ↔ j = i ∧ p = .writing a c rest := by
  by_cases hj : j = i
  · subst hj
    rw [m.pc_self]
    exact (and_iff_right rfl).symm
  · rw [m.pc_other hj]
    exact iff_of_false (m.alone j hj a rest) fun e => hj e.1

/-- The writers on another connection are those there were. -/
theorem writing_other (m : OnLink s t i c p l) (hd : d ≠ c) :
    t.pc j = .writing a d rest ↔ s.pc j = .writing a d rest := by
  by_cases hj : j = i
  · subst hj
    rw [m.pc_self]
    exact iff_of_false (fun e => hd (m.stays a d rest e)) fun e => hd (m.comes_from a d rest e)
  · rw [m.pc_other hj]

end OnLink

/-- A call that is writing holds the connection's lock, so it is alone there. -/
theorem Inv.onLink_of_writing {s t : PoolState ι} (h : Inv body s) {i : ι} {a : Attempt} {c : Nat} {rest : Bytes} {p : Pc}
    {l : Link ι} (hi : s.pc i = .writing a c rest) (hpc : t.pc = Function.update s.pc i p)
    (hlinks : t.links = Function.update s.links c l) (hstays : ∀ b d rest', p = .writing b d rest' → d = c) :
    OnLink s t i c p l where
  pc := hpc
  links := hlinks
  comes_from := by
    rw [hi]
    rintro _ _ _ ⟨⟩
    rfl
  stays := hstays
  alone j hji b rest' hj := hji (h.writer_unique hi hj)

/-- A step on a connection keeps the invariant if it does so there: the other calls and connections are not
concerned. -/
theorem Inv.on_link {s t : PoolState ι} (h : Inv body s) {i : ι} {c : Nat} {p : Pc} {l : Link ι}
    (m : OnLink s t i c p l) (hpool : t.pool = s.pool) (hnext : t.next = s.next) (hc : c < s.next)
    (hp : ∀ a d, p ≠ .lockConn a d)
    (hlock : ∀ j, l.lock = some j ↔ j = i ∧ ∃ a rest, p = .writing a c rest)
    (hstuck : ∀ a rest, p = .writing a c rest → l.broken = true → rest = writeFrame (body i))
    (hdone : t.done = s.done ∧ (i ∈ s.done.map Prod.snd ↔ p = .ok ∨ ∃ a, p = .writing a c []) ∨
      t.done = s.done ++ [(c, i)] ∧ i ∉ s.done.map Prod.snd ∧ ∃ a, p = .writing a c [])
    (hbytes : ∃ tail, l.written = (t.framesOn c).flatMap (fun i => writeFrame (body i)) ++ tail ∧
      (l.broken = true → ∃ j rest, rest ≠ [] ∧ tail ++ rest = writeFrame (body j)) ∧
      (l.broken = false → l.lock = none → tail = []) ∧
      (l.broken = false → ∀ a rest, p = .writing a c rest →
        (rest = [] → tail = []) ∧ (rest ≠ [] → tail ++ rest = writeFrame (body i)))) : Inv body t := by
  refine { lock := ?lock, fresh := ?fresh, known := ?known, pooled := ?pooled, stuck := ?stuck, bytes := ?bytes,
           complete := ?complete, once := ?once }
  case lock =>
    intro d j
    by_cases hd : d = c
    · subst hd
      rw [m.link_self, hlock j]
      simp only [m.writing_here, exists_and_left]
    · rw [m.link_other hd, h.lock d j]
      simp only [m.writing_other hd]
  case fresh =>
    intro d hd
    rw [hnext] at hd
    rw [m.link_other (by omega)]
    exact h.fresh d hd
  case known =>
    intro j a d hj
    rw [hnext]
    by_cases hji : j = i
    · subst hji
      rw [m.pc_self] at hj
      exact absurd hj (hp a d)
    · rw [m.pc_other hji] at hj
      exact h.known j a d hj
  case pooled =>
    intro addr d hd
    rw [hpool] at hd
    rw [hnext]
    exact h.pooled addr d hd
  case stuck =>
    intro j a d rest hj hb
    by_cases hd : d = c
    · subst hd
      rw [m.link_self] at hb
      obtain ⟨rfl, hj⟩ := m.writing_here.1 hj
      exact hstuck a rest hj hb
    · rw [m.link_other hd] at hb
      exact h.stuck j a d rest ((m.writing_other hd).1 hj) hb
  case bytes =>
    intro d
    by_cases hd : d = c
    · subst hd
      obtain ⟨tail, hw, hbroken, hidle, hwriting⟩ := hbytes
      unfold LinkOk
      rw [m.link_self]
      refine ⟨tail, hw, hbroken, hidle, ?_⟩
      intro hb j a rest hj
      obtain ⟨rfl, hj⟩ := m.writing_here.1 hj
      exact hwriting hb a rest hj
    · have hframes := framesOn_other (hdone.imp And.left And.left) hd
      exact (h.bytes d).congr (m.link_other hd) hframes fun j a rest => (m.writing_other hd).1
  case complete =>
    intro j
    by_cases hji : j = i
    · subst hji
      have hwriting : (∃ a d, p = .writing a d []) ↔ ∃ a, p = .writing a c [] :=
        ⟨fun ⟨a, d, e⟩ => ⟨a, m.stays a d [] e ▸ e⟩, fun ⟨a, e⟩ => ⟨a, c, e⟩⟩
      rw [m.pc_self, hwriting]
      rcases hdone with ⟨e, hiff⟩ | ⟨e, -, hw⟩
      · rw [e]
        exact hiff
      · rw [e]
        simp [hw]
    · rw [m.pc_other hji, ← h.complete j]
      rcases hdone with ⟨e, -⟩ | ⟨e, -⟩
      · rw [e]
      · rw [e]
        simp [hji]
  case once =>
    rcases hdone with ⟨e, -⟩ | ⟨e, hnew, -⟩
    · rw [e]
      exact h.once
    · rw [e, List.map_append, List.nodup_append]
      refine ⟨h.once, by simp, ?_⟩
      rintro j hj j' hj' rfl
      simp only [List.map_cons, List.map_nil, List.mem_singleton] at hj'
      exact hnew (hj' ▸ hj)

/-- The call takes the connection's lock and starts a frame. -/
theorem Inv.locked {s : PoolState ι} (h : Inv body s) {i : ι} {a : Attempt} {c : Nat} (hi : s.pc i = .lockConn a c)
    (hfree : (s.links c).lock = none) :
    Inv body { s with
      pc := Function.update s.pc i (.writing a c (writeFrame (body i)))
      links := Function.update s.links c { s.links c with lock := some i } } := by
  have halone : ∀ j, j ≠ i → ∀ a' rest, s.pc j ≠ .writing a' c rest := by
    intro j _ a' rest hj
    have hl := (h.lock c j).2 ⟨a', rest, hj⟩
    rw [hfree] at hl
    cases hl
  have hnew : i ∉ s.done.map Prod.snd := h.not_complete (by rw [hi]; nofun) (by rw [hi]; nofun)
  have hne := writeFrame_ne_nil (body i)
  obtain ⟨tail, hw, hbroken, hidle, -⟩ := h.bytes c
  refine h.on_link ⟨rfl, rfl, by rw [hi]; nofun, by rintro _ _ _ ⟨⟩; rfl, halone⟩ rfl rfl (h.known i a c hi) nofun
    (fun j => ?_) (by rintro _ _ ⟨⟩ _; rfl) (.inl ⟨rfl, iff_of_false hnew (by simp [hne])⟩)
    ⟨tail, hw, hbroken, fun _ => nofun, ?_⟩
  · simp [eq_comm]
  · rintro hb _ _ ⟨⟩
    rw [hidle hb hfree]
    exact ⟨fun e => absurd e hne, fun _ => rfl⟩

/-- Some bytes get through: they extend the cut frame at the end of the connection. -/
theorem Inv.wrote {s : PoolState ι} (h : Inv body s) {i : ι} {a : Attempt} {c : Nat} {chunk rest : Bytes}
    (hi : s.pc i = .writing a c (chunk ++ rest)) (hb : (s.links c).broken = false) (hrest : rest ≠ []) :
    Inv body { s with
      pc := Function.update s.pc i (.writing a c rest)
      links := Function.update s.links c { s.links c with written := (s.links c).written ++ chunk } } := by
  have hall : chunk ++ rest ≠ [] := by simp [hrest]
  have hlock := (h.lock c i).2 ⟨a, _, hi⟩
  have hnew := h.not_complete_of_writing hi hall
  obtain ⟨tail, hw, -, -, hwriting⟩ := h.bytes c
  have htail := (hwriting hb i a _ hi).2 hall
  refine h.on_link (h.onLink_of_writing hi rfl rfl (by rintro _ _ _ ⟨⟩; rfl)) rfl rfl (h.writing_lt hi) nofun
    (fun j => ?_) (fun _ _ _ hb' => absurd (hb.symm.trans hb') nofun)
    (.inl ⟨rfl, iff_of_false hnew (by simp [hrest])⟩)
    ⟨tail ++ chunk, ?_, fun hb' => absurd (hb.symm.trans hb') nofun,
      fun _ hfree => absurd (hlock.symm.trans hfree) nofun, ?_⟩
  · simp [hlock, eq_comm]
  · rw [← List.append_assoc]
    exact congrArg (· ++ chunk) hw
  · rintro _ _ _ ⟨⟩
    exact ⟨fun e => absurd e hrest, fun _ => by rw [List.append_assoc]; exact htail⟩

/-- The last bytes get through: the frame is complete. -/
theorem Inv.wroteLast {s : PoolState ι} (h : Inv body s) {i : ι} {a : Attempt} {c : Nat} {rest : Bytes}
    (hi : s.pc i = .writing a c rest) (hb : (s.links c).broken = false) (hrest : rest ≠ []) :
    Inv body { s with
      pc := Function.update s.pc i (.writing a c [])
      links := Function.update s.links c { s.links c with written := (s.links c).written ++ rest }
      done := s.done ++ [(c, i)] } := by
  have hlock := (h.lock c i).2 ⟨a, _, hi⟩
  have hnew := h.not_complete_of_writing hi hrest
  obtain ⟨tail, hw, -, -, hwriting⟩ := h.bytes c
  have htail := (hwriting hb i a _ hi).2 hrest
  refine h.on_link (h.onLink_of_writing hi rfl rfl (by rintro _ _ _ ⟨⟩; rfl)) rfl rfl (h.writing_lt hi) nofun
    (fun j => ?_) (fun _ _ _ hb' => absurd (hb.symm.trans hb') nofun)
    (.inr ⟨rfl, hnew, a, rfl⟩)
    ⟨[], ?_, fun hb' => absurd (hb.symm.trans hb') nofun, fun _ _ => rfl, ?_⟩
  · simp [hlock, eq_comm]
  · -- the cut frame at the end has become a complete one
    simp [framesOn, hw, ← htail]
  · rintro _ _ _ ⟨⟩
    exact ⟨fun _ => rfl, fun e => absurd rfl e⟩

/-- The call gives the lock back and returns `Ok`. -/
theorem Inv.finished {s : PoolState ι} (h : Inv body s) {i : ι} {a : Attempt} {c : Nat}
    (hi : s.pc i = .writing a c []) :
    Inv body { s with
      pc := Function.update s.pc i .ok
      links := Function.update s.links c { s.links c with lock := none } } := by
  have hdone := (h.complete i).2 (.inr ⟨a, c, hi⟩)
  have hb : (s.links c).broken = false := by
    by_contra hb
    exact writeFrame_ne_nil (body i) (h.stuck i a c [] hi (by simpa using hb)).symm
  obtain ⟨tail, hw, -, -, hwriting⟩ := h.bytes c
  obtain rfl := (hwriting hb i a [] hi).1 rfl
  refine h.on_link (h.onLink_of_writing hi rfl rfl nofun) rfl rfl (h.writing_lt hi) nofun (by simp) nofun
    (.inl ⟨rfl, iff_of_true hdone (.inl rfl)⟩)
    ⟨[], hw, fun hb' => absurd (hb.symm.trans hb') nofun, fun _ _ => rfl, fun _ => nofun⟩

/-- The write fails: what it has written stays as the last bytes of the connection. -/
theorem Inv.failed {s : PoolState ι} (h : Inv body s) {i : ι} {a : Attempt} {c : Nat} {rest : Bytes}
    (hi : s.pc i = .writing a c rest) (hrest : rest ≠ []) {p : Pc} (hp : p = .evicting ∨ p = .err) :
    Inv body { s with
      pc := Function.update s.pc i p
      links := Function.update s.links c { s.links c with broken := true, lock := none } } := by
  have hnew := h.not_complete_of_writing hi hrest
  obtain ⟨tail, hw, hbroken, -, hwriting⟩ := h.bytes c
  have hcut : ∃ j rest, rest ≠ [] ∧ tail ++ rest = writeFrame (body j) := by
    cases hb : (s.links c).broken with
    | true => exact hbroken hb
    | false => exact ⟨i, rest, hrest, (hwriting hb i a rest hi).2 hrest⟩
  refine h.on_link (h.onLink_of_writing hi rfl rfl ?_) rfl rfl (h.writing_lt hi) ?_ ?_ ?_
    (.inl ⟨rfl, iff_of_false hnew ?_⟩) ⟨tail, hw, fun _ => hcut, nofun, nofun⟩
  all_goals rcases hp with rfl | rfl <;> simp

/-- Every step keeps the invariant. -/
theorem inv_step {nextHop : ι → String} {s t : PoolState ι} (h : Inv body s) (hst : Step nextHop body s t) :
    Inv body t := by
  cases hst with
  | start i hi => exact h.quiet (by rw [hi]; trivial) (by trivial) (Nat.le_refl _) nofun h.pooled
  | hit i a c hi _ hc =>
    refine h.quiet (by rw [hi]; trivial) (by trivial) (Nat.le_refl _) ?_ h.pooled
    rintro a' c' ⟨⟩
    exact h.pooled _ c hc
  | miss i a hi _ _ => exact h.quiet (by rw [hi]; trivial) (by trivial) (Nat.le_refl _) nofun h.pooled
  | dialOk i a hi =>
    -- the new connection is one that was never used
    have hnew : Function.update s.links s.next .new = s.links :=
      Function.update_eq_self_iff.2 (h.fresh s.next (Nat.le_refl _)).symm
    rw [hnew]
    refine h.quiet (by rw [hi]; trivial) (by trivial) (Nat.le_succ _) ?_ ?_
    · rintro a' c ⟨⟩
      exact Nat.lt_succ_self _
    · intro addr c hc
      by_cases haddr : addr = nextHop i
      · subst haddr
        simp only [Function.update_self, Option.some.injEq] at hc
        omega
      · simp only [Function.update_of_ne haddr] at hc
        exact Nat.lt_succ_of_lt (h.pooled addr c hc)
  | dialFail i a hi => exact h.quiet (by rw [hi]; trivial) (by trivial) (Nat.le_refl _) nofun h.pooled
  | lock i a c hi hfree => exact h.locked hi hfree
  | write i a c chunk rest hi hb _ hrest => exact h.wrote hi hb hrest
  | writeLast i a c rest hi hb hrest => exact h.wroteLast hi hb hrest
  | finish i a c hi => exact h.finished hi
  | fail i a c rest hi hrest => exact h.failed hi hrest (by cases a <;> simp)
  | evict i hi _ =>
    refine h.quiet (by rw [hi]; trivial) (by trivial) (Nat.le_refl _) nofun fun addr c hc => ?_
    by_cases haddr : addr = nextHop i
    · subst haddr; simp at hc
    · simp only [Function.update_of_ne haddr] at hc
      exact h.pooled addr c hc

theorem reachable_inv {nextHop : ι → String} {s : PoolState ι} (hs : (system nextHop body).Reachable s) :
    Inv body s := by
  refine hs.invariant (I := Inv body) ?_ fun _ _ h (hst : Step nextHop body _ _) => inv_step h hst
  rintro _ rfl
  exact inv_initial

end Invariant

/-- **Frames stay whole and `forward` is all or nothing.** In every reachable state of any number of calls of
`forward`, whatever dials and writes failed: the frames written to the end, `done`, are of different calls; the
bytes on each connection are its complete frames, in order, and then at most one strict prefix of a frame; a
call that returned `Ok` has exactly one complete frame over all connections, and one that returned `Err` has
none. -/
theorem forward_all_or_nothing [DecidableEq ι] (nextHop : ι → String) (body : ι → Bytes) (s : PoolState ι)
    (hs : (system nextHop body).Reachable s) :
    (s.done.map Prod.snd).Nodup ∧
    (∀ c, ∃ tail, (s.links c).written = (s.framesOn c).flatMap (fun i => writeFrame (body i)) ++ tail ∧
      (tail = [] ∨ ∃ i rest, rest ≠ [] ∧ tail ++ rest = writeFrame (body i))) ∧
    (∀ i, s.pc i = .ok → ∃! c, (c, i) ∈ s.done) ∧
    (∀ i, s.pc i = .err → ∀ c, (c, i) ∉ s.done) := by
  have h := reachable_inv hs
  refine ⟨h.once, h.link_frames, fun i hi => ?_, fun i hi c hc => ?_⟩
  · have hmem := (h.complete i).2 (.inl hi)
    obtain ⟨⟨c, j⟩, hc, rfl⟩ := List.mem_map.1 hmem
    refine ⟨c, hc, fun c' hc' => ?_⟩
    exact congrArg Prod.fst (List.inj_on_of_nodup_map h.once hc' hc rfl)
  · rcases (h.complete i).1 (List.mem_map.2 ⟨_, hc, rfl⟩) with hok | ⟨a, d, hw⟩
    · rw [hi] at hok; cases hok
    · rw [hi] at hw; cases hw

/-- A stale connection: the first write is cut after two bytes, the retry gets the frame through. -/
theorem forward_all_or_nothing_retry : ∃ s : PoolState Unit,
    (system (fun _ => "127.0.0.1:9002") fun _ => [7]).Reachable s ∧ (s.links 0).written = [0, 0] ∧
    s.pc () = .ok ∧ ∃! c, (c, ()) ∈ s.done := by
  have h0 : (system (fun _ => "127.0.0.1:9002") fun _ => [7]).Reachable (initial : PoolState Unit) := .init rfl
  have h1 := h0.step (Step.start _ () rfl)
  have h2 := h1.step (Step.miss _ () .first (by simp) rfl rfl)
  have h3 := h2.step (Step.dialOk _ () .first (by simp))
  have h4 := h3.step (Step.lock _ () .first 0 (by simp [initial]) (by simp [initial, Link.new]))
  have h5 := h4.step (Step.write _ () .first 0 [0, 0] [0, 1, 7] (by simp; decide) (by simp [initial, Link.new]) nofun nofun)
  have h6 := h5.step (Step.fail _ () .first 0 [0, 1, 7] (by simp) nofun)
  have h7 := h6.step (Step.evict _ () (by simp) rfl)
  have h8 := h7.step (Step.miss _ () .second (by simp) rfl (by simp))
  have h9 := h8.step (Step.dialOk _ () .second (by simp))
  have h10 := h9.step (Step.lock _ () .second 1 (by simp [initial]) (by simp [initial, Link.new]))
  have h11 := h10.step (Step.writeLast _ () .second 1 _ (by simp) (by simp [initial, Link.new])
    (writeFrame_ne_nil [7]))
  have h12 := h11.step (Step.finish _ () .second 1 (by simp))
  refine ⟨_, h12, ?_, by simp, (forward_all_or_nothing _ _ _ h12).2.2.1 () (by simp)⟩
  simp [initial, Link.new]

end PoolState
end VeilFabric
