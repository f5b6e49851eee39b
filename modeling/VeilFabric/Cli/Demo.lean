import VeilFabric.Cli.MailboxAddress
import VeilFabric.Routing.Discovery
import VeilFabric.Sdk.Sending

/-!
# The demonstration harness (`veil-cli/src/main.rs`)

| here | there |
| --- | --- |
| `Mode`, `parseArgs`           | `enum Mode`, `parse_args` (main.rs:30, :41); `none` is the panic of `expect` |
| `spawnRelay`, `spawnRelays`   | a turn of the loop of `run_self_hosted` and the whole loop (main.rs:93-135): ids, addresses and keys; `none` is a panic |
| `runSelfHosted`               | `run_self_hosted` up to `send_and_receive` (main.rs:85) |
| `runExternal`                 | `run_external` up to `send_and_receive` (main.rs:145), on the topology that the file gave |
| `Plan`                        | the arguments of `send_and_receive` (main.rs:189) |

`parseArgs_exact` is what a command line means. `self_hosted_exact` is how many relays a self-hosted run can have, and from
which number on two of them want one address. Both modes hand the same kind of plan to `send_and_receive`, though they
compute the mailbox addresses each in its own way; `demo_polls_exits` is that what is sent there can be received.
-/

namespace VeilFabric
open Wire Text

/-! ## The command line -/

inductive Mode where
  | selfHosted (message : String) (hopCount : Nat)
  | external (topologyPath message : String)
deriving DecidableEq

def TOPOLOGY_FLAG : String := "--topology"

def DEFAULT_MESSAGE : String := "hello from veil-cli"

/-- `s.parse::<usize>().ok()`, on 64 bits. -/
def parseUsize (s : String) : Option Nat := parseUnsigned 64 s.toList

/-- `parse_args` (main.rs:41), without the name of the program. -/
def parseArgs (args : List String) : Option Mode :=
  match args.findIdx? (· = TOPOLOGY_FLAG) with
  | some flagPos => do
    let topologyPath ← args[flagPos + 1]?
    let others := (args.zipIdx.filter fun x => x.2 ≠ flagPos ∧ x.2 ≠ flagPos + 1).map Prod.fst
    return .external topologyPath (others.head?.getD DEFAULT_MESSAGE)
  | none =>
    some (.selfHosted (args.head?.getD DEFAULT_MESSAGE) ((args[1]?.bind parseUsize).getD 3))

/-- Taking the flag and its value out leaves what is around them. -/
theorem filter_zipIdx (before after : List String) (x y : String) :
    ((before ++ x :: y :: after).zipIdx.filter fun z => z.2 ≠ before.length ∧ z.2 ≠ before.length + 1).map Prod.fst =
      before ++ after := by
  have hbefore : before.zipIdx.filter (fun z => z.2 ≠ before.length ∧ z.2 ≠ before.length + 1) = before.zipIdx := by
    rw [List.filter_eq_self]
    rintro ⟨a, i⟩ hmem
    have hlt := List.snd_lt_of_mem_zipIdx hmem
    simp
    omega
  have hafter : (after.zipIdx (before.length + 2)).filter (fun z => z.2 ≠ before.length ∧ z.2 ≠ before.length + 1) =
      after.zipIdx (before.length + 2) := by
    rw [List.filter_eq_self]
    rintro ⟨a, i⟩ hmem
    have hle := List.le_snd_of_mem_zipIdx hmem
    simp
    omega
  rw [List.zipIdx_append, List.filter_append, Nat.zero_add, List.zipIdx_cons, List.zipIdx_cons, hbefore]
  rw [List.filter_cons_of_neg (by simp), List.filter_cons_of_neg (by simp), hafter, List.map_append]
  simp

theorem findIdx?_noFlag {args : List String} (h : TOPOLOGY_FLAG ∉ args) :
    args.findIdx? (· = TOPOLOGY_FLAG) = none := by
  rw [List.findIdx?_eq_none_iff]
  intro a ha
  simpa using fun heq : a = TOPOLOGY_FLAG => h (heq ▸ ha)

theorem findIdx?_flag {before : List String} (h : TOPOLOGY_FLAG ∉ before) (rest : List String) :
    (before ++ TOPOLOGY_FLAG :: rest).findIdx? (· = TOPOLOGY_FLAG) = some before.length := by
  rw [List.findIdx?_append, findIdx?_noFlag h, List.findIdx?_cons]
  simp

/-- The first flag is the one that counts. -/
theorem parseArgs_flag {before : List String} (h : TOPOLOGY_FLAG ∉ before) (rest : List String) :
    parseArgs (before ++ TOPOLOGY_FLAG :: rest) =
      match rest with
      | [] => none
      | topologyPath :: after => some (.external topologyPath ((before ++ after).head?.getD DEFAULT_MESSAGE)) := by
  have hvalue : (before ++ TOPOLOGY_FLAG :: rest)[before.length + 1]? = rest.head? := by
    rw [List.getElem?_append_right (by omega), Nat.add_sub_cancel_left]
    cases rest <;> rfl
  unfold parseArgs
  rw [findIdx?_flag h]
  simp only [hvalue]
  cases rest with
  | nil => rfl
  | cons topologyPath after =>
    rw [filter_zipIdx]
    rfl

theorem parseArgs_plain {args : List String} (h : TOPOLOGY_FLAG ∉ args) :
    parseArgs args = some (.selfHosted (args.head?.getD DEFAULT_MESSAGE) ((args[1]?.bind parseUsize).getD 3)) := by
  unfold parseArgs
  rw [findIdx?_noFlag h]

/-- **What a command line means.** With the flag somewhere and a value after its first occurrence: external mode, and
the message is the first of all other arguments. With the flag last: a panic. Without it: self-hosted mode, the
first argument is the message and the second the number of hops if it is a number, else there are three. -/
theorem parseArgs_exact (args : List String) :
    (∀ topologyPath message, parseArgs args = some (.external topologyPath message) ↔ ∃ before after,
      args = before ++ TOPOLOGY_FLAG :: topologyPath :: after ∧ TOPOLOGY_FLAG ∉ before ∧
      message = (before ++ after).head?.getD DEFAULT_MESSAGE) ∧
    (parseArgs args = none ↔ ∃ before, args = before ++ [TOPOLOGY_FLAG] ∧ TOPOLOGY_FLAG ∉ before) ∧
    ∀ message hopCount, parseArgs args = some (.selfHosted message hopCount) ↔ TOPOLOGY_FLAG ∉ args ∧
      message = args.head?.getD DEFAULT_MESSAGE ∧ hopCount = (args[1]?.bind parseUsize).getD 3 := by
  by_cases hflag : TOPOLOGY_FLAG ∈ args
  · obtain ⟨before, rest, rfl, hbefore⟩ := List.eq_append_cons_of_mem hflag
    rw [parseArgs_flag hbefore]
    -- there is one way to split at the first flag
    have hsplit : ∀ {before' rest'}, before ++ TOPOLOGY_FLAG :: rest = before' ++ TOPOLOGY_FLAG :: rest' →
        TOPOLOGY_FLAG ∉ before' → before = before' ∧ rest = rest' := by
      intro before' rest' heq hbefore'
      have hpos := findIdx?_flag hbefore rest
      rw [heq, findIdx?_flag hbefore' rest', Option.some.injEq] at hpos
      obtain ⟨hb, hr⟩ := List.append_inj heq hpos.symm
      exact ⟨hb, (List.cons.inj hr).2⟩
    cases rest with
    | nil =>
      refine ⟨fun topologyPath message => iff_of_false nofun ?_, iff_of_true rfl ⟨before, rfl, hbefore⟩,
        fun message hopCount => iff_of_false nofun fun h => h.1 hflag⟩
      rintro ⟨before', after, heq, hbefore', -⟩
      cases (hsplit heq hbefore').2
    | cons path after =>
      refine ⟨fun topologyPath message => ?_, iff_of_false nofun ?_,
        fun message hopCount => iff_of_false (by simp) fun h => h.1 hflag⟩
      · constructor
        · rintro ⟨⟩
          exact ⟨before, after, rfl, hbefore, rfl⟩
        · rintro ⟨before', after', heq, hbefore', rfl⟩
          obtain ⟨rfl, hrest⟩ := hsplit heq hbefore'
          cases hrest
          rfl
      · rintro ⟨before', heq, hbefore'⟩
        cases (hsplit heq hbefore').2
  · rw [parseArgs_plain hflag]
    refine ⟨fun topologyPath message => iff_of_false (by simp) ?_, iff_of_false nofun ?_, fun message hopCount => ?_⟩
    · rintro ⟨before, after, rfl, -⟩
      exact hflag (by simp)
    · rintro ⟨before, rfl, -⟩
      exact hflag (by simp)
    · simp [hflag, eq_comm]

/-! ## What is sent where -/

/-- The arguments of `send_and_receive` (main.rs:189): where to send and which mailboxes to poll. -/
structure Plan where
  topology : Topology
  hopCount : Nat
  mailboxAddrs : List String

def Plan.client (self : Plan) : VeilClient := ⟨self.topology, self.hopCount⟩

/-- A relay of `run_self_hosted`: its id, where it listens, and its public key. -/
structure SpawnedRelay where
  relayId : String
  addr : SocketAddr
  mailboxAddr : SocketAddr
  publicKey : Key
deriving DecidableEq

/-- The entry of the topology (main.rs:130). -/
def SpawnedRelay.info (self : SpawnedRelay) : RelayInfo := ⟨self.relayId, self.addr.toString, self.publicKey⟩

def LOCALHOST : Ipv4Addr := ⟨127, 0, 0, 1⟩

/-- `format!("127.0.0.1:{}", 20000 + i).parse().unwrap()` (main.rs:94): a port of more than 16 bits is refused. -/
def localAddr (i : Nat) : Option SocketAddr :=
  if 20000 + i < 2 ^ 16 then some (.v4 LOCALHOST (.ofNat (20000 + i))) else none

/-- A turn of the loop (main.rs:93-135). -/
def spawnRelay (checks : Bool) (keys : Nat → Key) (i : Nat) : Option SpawnedRelay := do
  let addr ← localAddr i
  let mailbox ← mailboxAddr checks addr
  return ⟨"relay-" ++ toString i, addr, mailbox, keys i⟩

/-- The loop of `run_self_hosted`. -/
def spawnRelays (checks : Bool) (keys : Nat → Key) (hopCount : Nat) : Option (List SpawnedRelay) :=
  (List.range hopCount).mapM (spawnRelay checks keys)

/-- `run_self_hosted` (main.rs:85) up to `send_and_receive`. -/
def runSelfHosted (checks : Bool) (keys : Nat → Key) (hopCount : Nat) : Option Plan := do
  let relays ← spawnRelays checks keys hopCount
  return {
    topology := Topology.new.addAll (relays.map SpawnedRelay.info)
    hopCount
    mailboxAddrs := relays.map fun r => r.mailboxAddr.toString }

/-- `run_external` (main.rs:145) up to `send_and_receive`, the topology loaded. -/
def runExternal (checks : Bool) (topology : Topology) : Except MailboxAddressPanic Plan := do
  let mailboxAddrs ← topology.relays.mapM fun r => mailboxAddressFrom checks r.address
  return { topology, hopCount := max 1 (min topology.len 3), mailboxAddrs }

/-! ## Self-hosted relays -/

/-- With overflow checks the first mailbox port that is none panics, without them the first main port that is none. -/
def maxRelays (checks : Bool) : Nat := if checks then 44536 else 45536

/-- Relay `i` as the loop spawns it, when it does. -/
def spawned (keys : Nat → Key) (i : Nat) : SpawnedRelay :=
  ⟨"relay-" ++ toString i, .v4 LOCALHOST (.ofNat (20000 + i)), .v4 LOCALHOST (.ofNat (21000 + i)), keys i⟩

theorem addU16_local (checks : Bool) {i : Nat} (hport : 20000 + i < 2 ^ 16) :
    addU16 checks (.ofNat (20000 + i)) 1000 = if i < maxRelays checks then some (.ofNat (21000 + i)) else none := by
  have h1000 : (1000 : UInt16).toNat = 1000 := rfl
  have hmain : (UInt16.ofNat (20000 + i)).toNat = 20000 + i := UInt16.toNat_ofNat_of_lt hport
  have hsum : UInt16.ofNat (20000 + i) + 1000 = UInt16.ofNat (21000 + i) := by
    apply UInt16.toNat_inj.1
    rw [UInt16.toNat_add, hmain, h1000, UInt16.toNat_ofNat']
    omega
  rw [addU16, hmain, h1000, hsum]
  cases checks with
  | false =>
    have hi : i < maxRelays false := show i < 45536 by omega
    rw [if_neg (by simp), if_pos hi]
  | true =>
    by_cases hi : i < 44536
    · rw [if_neg (by omega), if_pos (show i < maxRelays true from hi)]
    · rw [if_pos ⟨rfl, by omega⟩, if_neg (show ¬ i < maxRelays true from hi)]

theorem port_of_lt {checks : Bool} {i : Nat} (hi : i < maxRelays checks) : 20000 + i < 2 ^ 16 := by
  have hle : maxRelays checks ≤ 45536 := by cases checks <;> decide
  omega

theorem spawnRelay_eq (checks : Bool) (keys : Nat → Key) (i : Nat) :
    spawnRelay checks keys i = if i < maxRelays checks then some (spawned keys i) else none := by
  unfold spawnRelay localAddr
  by_cases hport : 20000 + i < 2 ^ 16
  · rw [if_pos hport]
    simp only [Option.bind_eq_bind, Option.bind_some, mailboxAddr, SocketAddr.port, addU16_local checks hport]
    split <;> rfl
  · rw [if_neg hport, if_neg fun hi => hport (port_of_lt hi)]
    rfl

/-- The loop, one relay more. -/
theorem spawnRelays_succ (checks : Bool) (keys : Nat → Key) (n : Nat) :
    spawnRelays checks keys (n + 1) =
      (spawnRelays checks keys n).bind fun relays => (spawnRelay checks keys n).map fun r => relays ++ [r] := by
  unfold spawnRelays
  rw [List.range_succ, List.mapM_append]
  cases (List.range n).mapM (spawnRelay checks keys) with
  | none => rfl
  | some relays => cases h : spawnRelay checks keys n <;> simp [h]

theorem spawnRelays_eq (checks : Bool) (keys : Nat → Key) (n : Nat) :
    spawnRelays checks keys n = if n ≤ maxRelays checks then some ((List.range n).map (spawned keys)) else none := by
  induction n with
  | zero => rw [if_pos (Nat.zero_le _)]; rfl
  | succ n ih =>
    rw [spawnRelays_succ, ih, spawnRelay_eq]
    by_cases h : n < maxRelays checks
    · rw [if_pos h.le, if_pos h, if_pos (Nat.succ_le_of_lt h), List.range_succ, List.map_append]
      rfl
    · rw [if_neg h, if_neg (fun hle => h (Nat.lt_of_succ_le hle))]
      split <;> rfl

theorem relayId_inj (keys : Nat → Key) {i j : Nat} (h : (spawned keys i).relayId = (spawned keys j).relayId) : i = j := by
  have htext : "relay-" ++ toString i = "relay-" ++ toString j := h
  exact toString_inj ((String.append_right_inj _).1 htext)

/-- The client would compute the address on which the mailbox listens. -/
theorem mailboxAddressFrom_spawned {checks : Bool} (keys : Nat → Key) {i : Nat} (hi : i < maxRelays checks) :
    mailboxAddressFrom checks (spawned keys i).info.address = .ok (spawned keys i).mailboxAddr.toString := by
  have haddr : (spawned keys i).info.address =
      LOCALHOST.display ++ ":" ++ toString (UInt16.ofNat (20000 + i)).toNat := rfl
  rw [haddr, mailboxAddressFrom_eq, addU16_local checks (port_of_lt hi), if_pos hi]
  rfl

/-- The plan of a self-hosted run, when there is one. -/
theorem runSelfHosted_eq_some_iff {checks : Bool} {keys : Nat → Key} {n : Nat} {plan : Plan} :
    runSelfHosted checks keys n = some plan ↔ n ≤ maxRelays checks ∧ plan = {
      topology := Topology.new.addAll ((List.range n).map fun i => (spawned keys i).info)
      hopCount := n
      mailboxAddrs := (List.range n).map fun i => (spawned keys i).mailboxAddr.toString } := by
  unfold runSelfHosted
  rw [spawnRelays_eq]
  by_cases h : n ≤ maxRelays checks
  · rw [if_pos h, and_iff_right h]
    simp only [Option.bind_eq_bind, Option.bind_some, Option.pure_def, Option.some.injEq, List.map_map]
    exact eq_comm
  · simp [h]

section
variable (keys : Nat → Key) (n : Nat)

theorem mem_selfHosted {r : RelayInfo} :
    r ∈ (Topology.new.addAll ((List.range n).map fun i => (spawned keys i).info)).relays ↔
      ∃ i < n, r = (spawned keys i).info := by
  rw [Topology.mem_addAll_iff]
  · simp only [Topology.new, List.not_mem_nil, false_or, List.mem_map, List.mem_range]
    exact exists_congr fun i => and_congr_right fun _ => eq_comm
  · intro q hq q' hq' hid
    simp only [Topology.new, List.nil_append, List.mem_map] at hq hq'
    obtain ⟨i, -, rfl⟩ := hq
    obtain ⟨j, -, rfl⟩ := hq'
    rw [relayId_inj keys hid]

theorem len_selfHosted : (Topology.new.addAll ((List.range n).map fun i => (spawned keys i).info)).len = n := by
  have hnodup : (((List.range n).map fun i => (spawned keys i).info).map RelayInfo.id).Nodup := by
    rw [List.map_map]
    exact List.Nodup.map (fun i j hid => relayId_inj keys hid) List.nodup_range
  rw [Topology.addAll_len, List.toFinset_card_of_nodup hnodup]
  simp

/-- The main ports are 20000 and up, the mailbox ports 21000 and up: the relays get into each other's way from the
one with number 1000 on, which wants the port of the mailbox of the first. -/
theorem addrs_nodup_iff (h : n ≤ 45536) :
    ((List.range n).map (fun i => (spawned keys i).addr) ++
      (List.range n).map fun i => (spawned keys i).mailboxAddr).Nodup ↔ n ≤ 1000 := by
  have hport : ∀ a b : Nat, SocketAddr.v4 LOCALHOST (.ofNat a) = .v4 LOCALHOST (.ofNat b) ↔ a % 2 ^ 16 = b % 2 ^ 16 := by
    intro a b
    rw [SocketAddr.v4.injEq, ← UInt16.toNat_inj, UInt16.toNat_ofNat', UInt16.toNat_ofNat']
    simp
  have hmain : ((List.range n).map fun i => (spawned keys i).addr).Nodup := by
    refine List.Nodup.map_on ?_ List.nodup_range
    intro i hi j hj heq
    rw [List.mem_range] at hi hj
    have := (hport _ _).1 heq
    omega
  have hmailbox : ((List.range n).map fun i => (spawned keys i).mailboxAddr).Nodup := by
    refine List.Nodup.map_on ?_ List.nodup_range
    intro i hi j hj heq
    rw [List.mem_range] at hi hj
    have := (hport _ _).1 heq
    omega
  rw [List.nodup_append]
  constructor
  · rintro ⟨-, -, hdisjoint⟩
    by_contra hn
    refine hdisjoint (spawned keys 1000).addr ?_ (spawned keys 0).mailboxAddr ?_ rfl
    · exact List.mem_map.2 ⟨1000, List.mem_range.2 (by omega), rfl⟩
    · exact List.mem_map.2 ⟨0, List.mem_range.2 (by omega), rfl⟩
  · intro hn
    refine ⟨hmain, hmailbox, fun a ha b hb heq => ?_⟩
    obtain ⟨i, hi, rfl⟩ := List.mem_map.1 ha
    obtain ⟨j, hj, rfl⟩ := List.mem_map.1 hb
    rw [List.mem_range] at hi hj
    have := (hport _ _).1 heq
    omega

end

/-- **How many relays a self-hosted run can have.** The loop panics exactly past `maxRelays`. Up to there every relay has
an id of its own and the topology has them all; the addresses they bind are all different exactly up to 1000. -/
theorem self_hosted_exact (checks : Bool) (keys : Nat → Key) (hopCount : Nat) :
    (runSelfHosted checks keys hopCount = none ↔ maxRelays checks < hopCount) ∧
    ∀ relays, spawnRelays checks keys hopCount = some relays →
      (Topology.new.addAll (relays.map SpawnedRelay.info)).len = hopCount ∧
      ((relays.map SpawnedRelay.addr ++ relays.map SpawnedRelay.mailboxAddr).Nodup ↔ hopCount ≤ 1000) := by
  constructor
  · rw [runSelfHosted, spawnRelays_eq]
    by_cases h : hopCount ≤ maxRelays checks
    · rw [if_pos h]
      exact iff_of_false (by simp) (Nat.not_lt.2 h)
    · rw [if_neg h]
      exact iff_of_true rfl (Nat.lt_of_not_le h)
  · intro relays hrelays
    rw [spawnRelays_eq] at hrelays
    split at hrelays
    · rename_i h
      have hle : maxRelays checks ≤ 45536 := by cases checks <;> decide
      cases hrelays
      rw [List.map_map, List.map_map, List.map_map]
      exact ⟨len_selfHosted keys hopCount, addrs_nodup_iff keys hopCount (h.trans hle)⟩
    · cases hrelays

/-- Three relays, six addresses. -/
theorem self_hosted_exact_three : ∃ relays, spawnRelays true (fun _ => Arr.zeros 32) 3 = some relays ∧
    (relays.map SpawnedRelay.addr ++ relays.map SpawnedRelay.mailboxAddr).Nodup := by
  have hrelays := spawnRelays_eq true (fun _ => Arr.zeros 32) 3
  rw [if_pos (by decide)] at hrelays
  exact ⟨_, hrelays, (((self_hosted_exact true (fun _ => Arr.zeros 32) 3).2 _ hrelays).2).2 (by decide)⟩

/-! ## The exits are polled -/

/-- What `send_and_receive` may be called with. -/
inductive Planned (checks : Bool) : Plan → Prop
  | selfHosted {keys : Nat → Key} {hopCount : Nat} {plan : Plan} :
    runSelfHosted checks keys hopCount = some plan → Planned checks plan
  | external {topology : Topology} {plan : Plan} : runExternal checks topology = .ok plan → Planned checks plan

/-- The addresses of a list of relays, when none of them makes `mailbox_address_from` panic. -/
theorem mem_mailboxAddrs {checks : Bool} {relays : List RelayInfo} {addrs : List String}
    (h : relays.mapM (fun r => mailboxAddressFrom checks r.address) = .ok addrs) :
    (∀ r ∈ relays, ∃ m ∈ addrs, mailboxAddressFrom checks r.address = .ok m) ∧
    ∀ m ∈ addrs, ∃ r ∈ relays, mailboxAddressFrom checks r.address = .ok m := by
  induction relays generalizing addrs with
  | nil =>
    cases h
    simp
  | cons r relays ih =>
    rw [List.mapM_cons] at h
    cases hr : mailboxAddressFrom checks r.address with
    | error e =>
      rw [hr] at h
      cases h
    | ok m =>
      cases hrest : relays.mapM fun r => mailboxAddressFrom checks r.address with
      | error e =>
        rw [hr, hrest] at h
        cases h
      | ok ms =>
        rw [hr, hrest] at h
        cases h
        obtain ⟨hall, honly⟩ := ih hrest
        constructor
        · intro q hq
          rcases List.mem_cons.1 hq with rfl | hq
          · exact ⟨m, List.mem_cons_self, hr⟩
          · obtain ⟨m', hm', hok⟩ := hall q hq
            exact ⟨m', List.mem_cons_of_mem _ hm', hok⟩
        · intro m' hm'
          rcases List.mem_cons.1 hm' with rfl | hm'
          · exact ⟨r, List.mem_cons_self, hr⟩
          · obtain ⟨q, hq, hok⟩ := honly m' hm'
            exact ⟨q, List.mem_cons_of_mem _ hq, hok⟩

theorem runExternal_ok {checks : Bool} {topology : Topology} {plan : Plan} (h : runExternal checks topology = .ok plan) :
    ∃ addrs, topology.relays.mapM (fun r => mailboxAddressFrom checks r.address) = .ok addrs ∧
      plan = { topology, hopCount := max 1 (min topology.len 3), mailboxAddrs := addrs } := by
  cases haddrs : topology.relays.mapM fun r => mailboxAddressFrom checks r.address with
  | error e =>
    rw [runExternal, haddrs] at h
    cases h
  | ok addrs =>
    rw [runExternal, haddrs] at h
    exact ⟨addrs, rfl, (Except.ok.inj h).symm⟩

namespace Planned
variable {checks : Bool} {plan : Plan}

/-- The mailboxes polled are those of the relays of the topology, in either mode. -/
theorem polls (h : Planned checks plan) :
    (∀ r ∈ plan.topology.relays, ∃ m ∈ plan.mailboxAddrs, mailboxAddressFrom checks r.address = .ok m) ∧
    ∀ m ∈ plan.mailboxAddrs, ∃ r ∈ plan.topology.relays, mailboxAddressFrom checks r.address = .ok m := by
  cases h with
  | @selfHosted keys hopCount _ h =>
    obtain ⟨hn, rfl⟩ := runSelfHosted_eq_some_iff.1 h
    constructor
    · intro r hr
      obtain ⟨i, hi, rfl⟩ := (mem_selfHosted keys hopCount).1 hr
      refine ⟨_, List.mem_map.2 ⟨i, List.mem_range.2 hi, rfl⟩, ?_⟩
      exact mailboxAddressFrom_spawned keys (hi.trans_le hn)
    · intro m hm
      obtain ⟨i, hi, rfl⟩ := List.mem_map.1 hm
      rw [List.mem_range] at hi
      refine ⟨_, (mem_selfHosted keys hopCount).2 ⟨i, hi, rfl⟩, ?_⟩
      exact mailboxAddressFrom_spawned keys (hi.trans_le hn)
  | @external topology _ h =>
    obtain ⟨addrs, haddrs, rfl⟩ := runExternal_ok h
    exact mem_mailboxAddrs haddrs

/-- The circuits are as long as the topology allows, but for external topologies of more than three relays. -/
theorem hopCount_le (h : Planned checks plan) (hpos : 0 < plan.topology.len) :
    0 < plan.hopCount ∧ plan.hopCount ≤ plan.topology.len := by
  cases h with
  | @selfHosted keys hopCount _ h =>
    obtain ⟨-, rfl⟩ := runSelfHosted_eq_some_iff.1 h
    simp only [len_selfHosted] at hpos ⊢
    exact ⟨hpos, Nat.le_refl _⟩
  | @external topology _ h =>
    obtain ⟨addrs, -, rfl⟩ := runExternal_ok h
    simp only at hpos ⊢
    omega

end Planned

/-- **Whatever is sent can be polled.** In either mode, a cell is routed exactly when there is a relay at all. It then leaves
the circuit at a relay whose mailbox is polled, and no mailbox is polled but those of the topology's relays. -/
theorem demo_polls_exits {P : Primitives} (hP : P.Lawful) {checks : Bool} {plan : Plan} (h : Planned checks plan)
    (session : Session P) {cell : Cell} (hc : cell.WF) (draws : CellDraws plan.topology) :
    ((∃ r, plan.client.routeCell session cell draws = .ok r) ↔ 0 < plan.topology.len) ∧
    (∀ r, plan.client.routeCell session cell draws = .ok r → r.path.length = plan.hopCount ∧ r.path.Nodup ∧
      ∃ exit ∈ plan.topology.relays, exit.id = r.exitRelayId ∧
        ∃ m ∈ plan.mailboxAddrs, mailboxAddressFrom checks exit.address = .ok m) ∧
    ∀ m ∈ plan.mailboxAddrs, ∃ r ∈ plan.topology.relays, mailboxAddressFrom checks r.address = .ok m := by
  have hpath : ∀ r, plan.client.routeCell session cell draws = .ok r →
      r.path.length = plan.hopCount ∧ r.path ⊆ plan.topology.relays ∧ r.path.Nodup :=
    fun r hr => selectDiversePath_ok (VeilClient.routeCell_path hr)
  refine ⟨⟨?_, fun hpos => ?_⟩, fun r hr => ?_, h.polls.2⟩
  · rintro ⟨r, hr⟩
    exact List.length_pos_of_mem ((hpath r hr).2.1 (List.head_mem r.path_ne))
  · obtain ⟨hone, hle⟩ := h.hopCount_le hpos
    exact plan.client.routeCell_isOk hP session hc draws hone hle
  · obtain ⟨hlen, hsub, hnodup⟩ := hpath r hr
    have hexit := hsub (List.getLast_mem r.path_ne)
    exact ⟨hlen, hnodup, _, hexit, rfl, h.polls.1 _ hexit⟩

/-- An external topology of one relay under a host name, as in `docker-compose.yml`. -/
def dockerTopology : Topology := ⟨[⟨"relay-2", "relay2:9001", Arr.zeros 32⟩], by decide⟩

def dockerPlan : Plan := ⟨dockerTopology, 1, ["relay2:10001"]⟩

theorem dockerPlan_planned : Planned true dockerPlan := by
  have haddr : mailboxAddressFrom true "relay2:9001" = .ok "relay2:10001" := by decide +kernel
  refine @Planned.external true dockerTopology dockerPlan ?_
  simp only [runExternal, dockerTopology, List.mapM_cons, List.mapM_nil, haddr]
  rfl

theorem demo_polls_exits_docker : ∃ r : RoutedCell .toy,
    dockerPlan.client.routeCell ⟨.ofSecret (flatKey 0), flatKey 0⟩ (.newDummy (Arr.zeros 16) (Arr.zeros _))
      ⟨Arr.zeros 12, ⟨dockerTopology.relays, .refl _⟩, noCoins⟩ = .ok r :=
  (demo_polls_exits Primitives.toy_lawful dockerPlan_planned ⟨.ofSecret (flatKey 0), flatKey 0⟩
    (Cell.newDummy_wf _ _) ⟨Arr.zeros 12, ⟨dockerTopology.relays, .refl _⟩, noCoins⟩).1.2 (by decide)

end VeilFabric
