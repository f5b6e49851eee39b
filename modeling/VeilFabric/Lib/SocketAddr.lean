import Mathlib.Data.List.Basic

/-!
# Socket addresses (`std::net::SocketAddr`)

An IP address and a port, and their `Display`: dotted decimal for IPv4; for IPv6 the eight groups in hexadecimal, the
first longest run of two or more zero groups written as `::`, between brackets and with a scope that is not
zero after a `%`. In both the text is a host, a colon and the port (`toString_eq`), and `set_port` leaves the host
as it is (`host_setPort`).
-/

structure Ipv4Addr where
  a : UInt8
  b : UInt8
  c : UInt8
  d : UInt8
deriving DecidableEq

structure Ipv6Addr where
  segments : List UInt16
  length_eq : segments.length = 8
deriving DecidableEq

inductive SocketAddr where
  | v4 (ip : Ipv4Addr) (port : UInt16)
  | v6 (ip : Ipv6Addr) (port : UInt16) (flowinfo scopeId : UInt32)
deriving DecidableEq

/-- `Display for Ipv4Addr`. -/
def Ipv4Addr.display (ip : Ipv4Addr) : String :=
  toString ip.a.toNat ++ "." ++ toString ip.b.toNat ++ "." ++ toString ip.c.toNat ++ "." ++ toString ip.d.toNat

namespace Ipv6Addr

/-- `to_ipv4_mapped`. -/
def toIpv4Mapped (ip : Ipv6Addr) : Option Ipv4Addr :=
  match ip.segments with
  | [0, 0, 0, 0, 0, 0xffff, x, y] => some ⟨(x >>> 8).toUInt8, x.toUInt8, (y >>> 8).toUInt8, y.toUInt8⟩
  | _ => none

/-- A run of zero groups. -/
structure Span where
  start : Nat
  len : Nat

/-- The first longest run: the longest so far and the one being read. -/
def longestZeroes (segments : List UInt16) : Span :=
  (segments.zipIdx.foldl (fun (s : Span × Span) (x : UInt16 × Nat) =>
    if x.1 = 0 then
      let current : Span := ⟨if s.2.len = 0 then x.2 else s.2.start, s.2.len + 1⟩
      (if current.len > s.1.len then current else s.1, current)
    else (s.1, ⟨0, 0⟩)) (⟨0, 0⟩, ⟨0, 0⟩)).1

/-- `{:x}` of each group, with colons between them. -/
def groups (segments : List UInt16) : String :=
  String.intercalate ":" (segments.map fun s => String.ofList (Nat.toDigits 16 s.toNat))

/-- `Display for Ipv6Addr`. -/
def display (ip : Ipv6Addr) : String :=
  match ip.toIpv4Mapped with
  | some ipv4 => "::ffff:" ++ ipv4.display
  | none =>
    let zeroes := longestZeroes ip.segments
    if zeroes.len > 1 then
      groups (ip.segments.take zeroes.start) ++ "::" ++ groups (ip.segments.drop (zeroes.start + zeroes.len))
    else groups ip.segments

end Ipv6Addr

namespace SocketAddr

/-- `SocketAddr::port`. -/
def port : SocketAddr → UInt16
  | v4 _ port => port
  | v6 _ port _ _ => port

/-- `SocketAddr::set_port`. -/
def setPort (port : UInt16) : SocketAddr → SocketAddr
  | v4 ip _ => v4 ip port
  | v6 ip _ flowinfo scopeId => v6 ip port flowinfo scopeId

/-- `Display for SocketAddr`. -/
protected def toString : SocketAddr → String
  | v4 ip port => ip.display ++ ":" ++ toString port.toNat
  | v6 ip port _ scopeId =>
    if scopeId = 0 then "[" ++ ip.display ++ "]:" ++ toString port.toNat
    else "[" ++ ip.display ++ "%" ++ toString scopeId.toNat ++ "]:" ++ toString port.toNat

/-- What stands before the last colon. -/
def host : SocketAddr → String
  | v4 ip _ => ip.display
  | v6 ip _ _ scopeId =>
    if scopeId = 0 then "[" ++ ip.display ++ "]" else "[" ++ ip.display ++ "%" ++ toString scopeId.toNat ++ "]"

theorem toString_eq (addr : SocketAddr) : addr.toString = addr.host ++ ":" ++ toString addr.port.toNat := by
  cases addr with
  | v4 ip port => rfl
  | v6 ip port flowinfo scopeId =>
    have hclose : "]:" = "]" ++ ":" := rfl
    simp only [SocketAddr.toString, host]
    by_cases hscope : scopeId = 0
    · rw [if_pos hscope, if_pos hscope, hclose, ← String.append_assoc]
      rfl
    · rw [if_neg hscope, if_neg hscope, hclose, ← String.append_assoc]
      rfl

@[simp] theorem port_setPort (addr : SocketAddr) (p : UInt16) : (addr.setPort p).port = p := by
  cases addr <;> rfl

@[simp] theorem host_setPort (addr : SocketAddr) (p : UInt16) : (addr.setPort p).host = addr.host := by
  cases addr <;> rfl

end SocketAddr
