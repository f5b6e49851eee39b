import VeilFabric.Lib.SocketAddr
import VeilFabric.Lib.Text

/-!
# Where a relay's mailbox is (`veil-relay/src/main.rs:39`, `veil-cli/src/main.rs:175`)

| here | there |
| --- | --- |
| `mailboxAddr`          | `mailbox_addr` in the relay's `main` (main.rs:39-40) |
| `mailboxAddressFrom`   | `mailbox_address_from` (veil-cli main.rs:175) |
| `addU16`               | `+` at `u16` |

The mailbox port is the main port plus 1000 by convention. The relay computes it on its `SocketAddr`, the client on
the text of the address, where the host need not be an IP address. They agree, on the text and on the number,
as long as the sum is a port (`mailbox_address_iff`): nothing checks it, so with overflow checks both panic, and
without them both wrap.
-/

namespace VeilFabric
open Text

/-- `a + b` at `u16`. A build with overflow checks panics (`none`) where one without them wraps. -/
def addU16 (checks : Bool) (a b : UInt16) : Option UInt16 :=
  if checks ∧ 2 ^ 16 ≤ a.toNat + b.toNat then none else some (a + b)

/-- `mailbox_addr` (main.rs:39-40). -/
def mailboxAddr (checks : Bool) (listenAddr : SocketAddr) : Option SocketAddr :=
  (addU16 checks listenAddr.port 1000).map fun port => listenAddr.setPort port

/-- The panics of `mailbox_address_from`: its two messages, each with the address, and the overflow. -/
inductive MailboxAddressPanic where
  | notHostPort (addr : String)
  | nonNumericPort (addr : String)
  | overflow
deriving DecidableEq

/-- `mailbox_address_from` (veil-cli main.rs:175). -/
def mailboxAddressFrom (checks : Bool) (addr : String) : Except MailboxAddressPanic String :=
  match rsplitOnce ':' addr.toList with
  | none => .error (.notHostPort addr)
  | some (host, portStr) =>
    match parseUnsigned 16 portStr with
    | none => .error (.nonNumericPort addr)
    | some port =>
      match addU16 checks (UInt16.ofNat port) 1000 with
      | none => .error .overflow
      | some port => .ok (String.ofList host ++ ":" ++ toString port.toNat)

/-- A port with 1000 added is the sum exactly when it is a port. -/
theorem addU16_toNat_iff (checks : Bool) (port : UInt16) :
    (∃ p, addU16 checks port 1000 = some p ∧ p.toNat = port.toNat + 1000) ↔ port.toNat ≤ 64535 := by
  have hlt := port.toNat_lt
  have h1000 : (1000 : UInt16).toNat = 1000 := rfl
  unfold addU16
  rw [h1000]
  constructor
  · rintro ⟨p, -, hp⟩
    have hp' := p.toNat_lt
    omega
  · intro h
    refine ⟨port + 1000, if_neg (by omega), ?_⟩
    rw [UInt16.toNat_add, h1000, Nat.mod_eq_of_lt (by omega)]

/-- Only the port is touched, whatever the host looks like. -/
theorem mailboxAddressFrom_eq (checks : Bool) (h : String) (port : UInt16) :
    mailboxAddressFrom checks (h ++ ":" ++ toString port.toNat) =
      match addU16 checks port 1000 with
      | none => .error .overflow
      | some p => .ok (h ++ ":" ++ toString p.toNat) := by
  have htext : (h ++ ":" ++ toString port.toNat).toList = h.toList ++ ':' :: (toString port.toNat).toList := by
    simp
  unfold mailboxAddressFrom
  rw [htext, rsplitOnce_number (by decide)]
  simp only [parseUnsigned_toString (show port.toNat < 2 ^ 16 from port.toNat_lt), UInt16.ofNat_toNat,
    String.ofList_toList]

/-- The relay listens where the client looks: its own host, 1000 ports up. The two may be different builds. -/
def MailboxAgrees (relayChecks clientChecks : Bool) (listenAddr : SocketAddr) : Prop :=
  ∃ m, mailboxAddr relayChecks listenAddr = some m ∧ m = listenAddr.setPort m.port ∧
    m.port.toNat = listenAddr.port.toNat + 1000 ∧
    mailboxAddressFrom clientChecks listenAddr.toString = .ok m.toString

theorem shifted_iff (checks : Bool) (h : String) (port : UInt16) :
    mailboxAddressFrom checks (h ++ ":" ++ toString port.toNat) = .ok (h ++ ":" ++ toString (port.toNat + 1000)) ↔
      port.toNat ≤ 64535 := by
  rw [mailboxAddressFrom_eq, ← addU16_toNat_iff checks port]
  cases addU16 checks port 1000 with
  | none => simp
  | some p =>
    constructor
    · intro he
      have htext := congrArg String.toList (Except.ok.inj he)
      have hport : toString p.toNat = toString (port.toNat + 1000) := by
        apply String.toList_inj.1
        simpa using htext
      exact ⟨p, rfl, toString_inj hport⟩
    · rintro ⟨q, hq, hp⟩
      cases hq
      simp only [hp]

/-- **Exactly when relay and client agree on the mailbox address**: the main port is at most 64535. For any two
builds, any IPv4 or IPv6 address, and any host text in front of the port. -/
theorem mailbox_address_iff (relayChecks clientChecks : Bool) :
    (∀ listenAddr, MailboxAgrees relayChecks clientChecks listenAddr ↔ listenAddr.port.toNat ≤ 64535) ∧
    ∀ (h : String) (port : UInt16),
      mailboxAddressFrom clientChecks (h ++ ":" ++ toString port.toNat) = .ok (h ++ ":" ++ toString (port.toNat + 1000)) ↔
        port.toNat ≤ 64535 := by
  refine ⟨?_, shifted_iff clientChecks⟩
  intro addr
  constructor
  · rintro ⟨m, hm, -, hport, -⟩
    obtain ⟨p, hp, rfl⟩ := Option.map_eq_some_iff.1 hm
    rw [SocketAddr.port_setPort] at hport
    exact (addU16_toNat_iff relayChecks addr.port).1 ⟨p, hp, hport⟩
  · intro h
    obtain ⟨p, hp, hport⟩ := (addU16_toNat_iff relayChecks addr.port).2 h
    refine ⟨addr.setPort p, by rw [mailboxAddr, hp]; rfl, by simp, by simpa using hport, ?_⟩
    rw [addr.toString_eq, SocketAddr.toString_eq, SocketAddr.host_setPort, SocketAddr.port_setPort, hport]
    exact (shifted_iff clientChecks addr.host addr.port).2 h

/-- 127.0.0.1:65000. -/
def highPort : SocketAddr := .v4 ⟨127, 0, 0, 1⟩ 65000

/-- A build with overflow checks panics, one without them listens on port 464. -/
theorem highPort_overflows :
    mailboxAddr true highPort = none ∧ mailboxAddr false highPort = some (.v4 ⟨127, 0, 0, 1⟩ 464) ∧
    ∀ relayChecks clientChecks, ¬ MailboxAgrees relayChecks clientChecks highPort := by
  refine ⟨by decide, by decide, ?_⟩
  rintro relayChecks clientChecks ⟨m, hm, -, hport, -⟩
  have hlt := m.port.toNat_lt
  have h65000 : highPort.port.toNat = 65000 := rfl
  omega

end VeilFabric
