import Nets.Program.InetSockAddress
import Nets.Verification.ByteBuffer.Encoding

/-! # Addresses from texts

A text that `inet_pton` accepts comes back from `ip`, out of every copy. A text that it does not accept
is not refused. -/

namespace Nets

open Library

/-- What an address is presented as is accepted again, and has no more than the 45 characters of the
longest text of a family. -/
structure Inet.Posix (inet : Inet) : Prop where
  ntop_pton : ∀ {family : Family} {text : List Char} {address : Vector UInt8 family.size},
    inet.pton family text = .address address → ∃ text', inet.ntop family address = some text' ∧
      inet.pton family text' = .address address ∧ text'.length ≤ 45 ∧ NulFree text'

namespace InetSockAddress

variable {inet : Inet} {a b : InetSockAddress} {ip : List Char} {port : BitVec 16} {ipv6 : Bool}

def familyOf (ipv6 : Bool) : Family := if ipv6 then .inet6 else .inet

/-- The string is a textual address of the family. -/
def Textual (inet : Inet) (ip : List Char) (ipv6 : Bool) : Prop :=
  NulFree ip ∧ ∃ address, inet.pton (familyOf ipv6) ip = .address address

/-- What copies and moves lead to from an object. -/
inductive CopyOf (a : InetSockAddress) : InetSockAddress → Prop where
  | self : CopyOf a a
  | copy {b : InetSockAddress} (h : CopyOf a b) : CopyOf a b.copy
  | move {b : InetSockAddress} (h : CopyOf a b) : CopyOf a b.move.1
  | assign {b : InetSockAddress} (h : CopyOf a b) (c : InetSockAddress) :
      CopyOf a (c.assign false b)
  | assignSelf {b : InetSockAddress} (h : CopyOf a b) : CopyOf a (b.assign true b)
  | moveAssign {b : InetSockAddress} (h : CopyOf a b) (c : InetSockAddress) :
      CopyOf a (c.moveAssign false b).1
  | moveAssignSelf {b : InetSockAddress} (h : CopyOf a b) : CopyOf a (b.moveAssign true b).1

/-- The object reads back as the address of the text and the port, and so does every copy. -/
structure Yields (inet : Inet) (ip : List Char) (port : BitVec 16) (ipv6 : Bool)
    (a : InetSockAddress) : Prop where
  ip : ∃ text address, a.ip inet = .ok text ∧ inet.pton (familyOf ipv6) text = .address address ∧
    inet.pton (familyOf ipv6) ip = .address address
  port : a.port = port
  copies : ∀ b, CopyOf a b → b.ip inet = a.ip inet ∧ b.port = a.port ∧
    b.toString inet = a.toString inet

/-- The constructor yields such an object or throws, and it throws for every other string. -/
structure ParsedOrRefused (inet : Inet) (ip : List Char) (port : BitVec 16) (ipv6 : Bool) : Prop where
  yields : ∀ a, ofIp inet ip port ipv6 = .ok a → Yields inet ip port ipv6 a
  refuses : ¬Textual inet ip ipv6 → ∃ message, ofIp inet ip port ipv6 = .error message

/-! ## Copies -/

/-- The members that belong to the family of the object are the same. -/
structure SameMembers (a b : InetSockAddress) : Prop where
  family : b.family = a.family
  sinPort : b.sinPort = a.sinPort
  sinAddr : a.family = Family.inet.toNat → b.sinAddr = a.sinAddr
  sin6Addr : a.family = Family.inet6.toNat → b.sin6Addr = a.sin6Addr

theorem SameMembers.trans {c : InetSockAddress} (hab : SameMembers a b) (hbc : SameMembers b c) :
    SameMembers a c := by
  refine ⟨hbc.family.trans hab.family, hbc.sinPort.trans hab.sinPort, fun h => ?_, fun h => ?_⟩
  · exact (hbc.sinAddr (hab.family.trans h)).trans (hab.sinAddr h)
  · exact (hbc.sin6Addr (hab.family.trans h)).trans (hab.sin6Addr h)

/-- The object has one of the two families. -/
def HasFamily (a : InetSockAddress) : Prop :=
  a.family = Family.inet6.toNat ∨ a.family = Family.inet.toNat

theorem SameMembers.hasFamily (h : SameMembers a b) (ha : HasFamily a) : HasFamily b := by
  rw [HasFamily, h.family]
  exact ha

theorem sameMembers_copy (h : HasFamily a) : SameMembers a a.copy := by
  rw [copy]
  obtain h | h := h
  · rw [if_pos h]
    exact ⟨rfl, rfl, fun _ => rfl, fun _ => rfl⟩
  · have hne : a.family ≠ Family.inet6.toNat := by
      rw [h]
      decide
    rw [if_neg hne, if_pos h]
    constructor
    · simp only [copyAddr4]
    · simp only [copyAddr4]
    · simp only [copyAddr4, implies_true]
    · exact fun h => absurd h hne

theorem CopyOf.sameMembers (h : CopyOf a b) (ha : HasFamily a) : SameMembers a b := by
  induction h with
  | self => exact ⟨rfl, rfl, fun _ => rfl, fun _ => rfl⟩
  | assignSelf _ ih =>
      rw [InetSockAddress.assign, if_pos rfl]
      exact ih
  | moveAssignSelf _ ih =>
      rw [InetSockAddress.moveAssign, if_pos rfl]
      exact ih
  | copy _ ih | move _ ih => exact ih.trans (sameMembers_copy (ih.hasFamily ha))
  | assign _ c ih =>
      rw [InetSockAddress.assign, if_neg Bool.false_ne_true]
      exact ih.trans (sameMembers_copy (ih.hasFamily ha))
  | moveAssign _ c ih =>
      rw [InetSockAddress.moveAssign, if_neg Bool.false_ne_true]
      exact ih.trans (sameMembers_copy (ih.hasFamily ha))

theorem SameMembers.ip_eq (h : SameMembers a b) : b.ip inet = a.ip inet := by
  rw [InetSockAddress.ip, InetSockAddress.ip, h.family]
  split
  case isTrue hfamily => rw [h.sin6Addr hfamily]
  case isFalse =>
    split
    case isTrue hfamily => rw [h.sinAddr hfamily]
    case isFalse => rfl

theorem SameMembers.port_eq (h : SameMembers a b) : b.port = a.port := by
  rw [InetSockAddress.port, InetSockAddress.port, h.sinPort]

theorem SameMembers.toString_eq (h : SameMembers a b) : b.toString inet = a.toString inet := by
  have hport (buffer separator : List Char) :
      b.withPort buffer separator = a.withPort buffer separator := by
    rw [withPort, withPort, h.port_eq]
  simp only [toString, h.family, hport]
  split
  case isTrue hfamily => rw [h.sin6Addr hfamily]
  case isFalse =>
    split
    case isTrue hfamily => rw [h.sinAddr hfamily]
    case isFalse => rfl

theorem copies_preserve (ha : HasFamily a) (h : CopyOf a b) :
    b.ip inet = a.ip inet ∧ b.port = a.port ∧ b.toString inet = a.toString inet := by
  have hsame := h.sameMembers ha
  exact ⟨hsame.ip_eq, hsame.port_eq, hsame.toString_eq⟩

/-! ## The constructor -/

theorem htobe_htobe (k : ℕ) (value : BitVec (8 * k)) :
    ByteBuffer.htobe k (ByteBuffer.htobe k value) = value := by
  rw [ByteBuffer.htobe, ByteBuffer.leBytes_htobe, ofBeBytes_beBytes, ByteBuffer.pow_256,
    Nat.mod_eq_of_lt value.isLt, BitVec.ofNat_toNat, BitVec.setWidth_eq]

theorem present_of_ntop {family : Family} {address : Vector UInt8 family.size} {text : List Char}
    {size : ℕ} (h : inet.ntop family address = some text) (hlength : text.length < size) :
    inet.present family address size = .ok text := by
  simp [Inet.present, h, hlength]

theorem ofIp_of_address {address : Vector UInt8 (familyOf ipv6).size} {text : List Char}
    (hpton : inet.pton (familyOf ipv6) (cString ip) = .address address)
    (hntop : inet.ntop (familyOf ipv6) address = some text) (hlength : text.length ≤ 45)
    (hnul : NulFree text) : ∃ a, ofIp inet ip port ipv6 = .ok a ∧ HasFamily a ∧ a.port = port ∧
      a.ip inet = .ok text := by
  have hsize : text.length < 64 := by omega
  cases ipv6 with
  | true =>
      refine ⟨{ zero with
        family := Family.inet6.toNat
        sinPort := ByteBuffer.htobe 2 port
        sin6Addr := address }, ?_, .inl rfl, htobe_htobe 2 port, ?_⟩
      · change inet.pton .inet6 (cString ip) = _ at hpton
        simp [ofIp, hpton]
      · have hpresent := present_of_ntop hntop hsize
        change inet.present .inet6 address 64 = _ at hpresent
        simp [InetSockAddress.ip, hpresent, cString_of_nulFree hnul]
  | false =>
      refine ⟨{ zero with
        family := Family.inet.toNat
        sinPort := ByteBuffer.htobe 2 port
        sinAddr := address }, ?_, .inr rfl, htobe_htobe 2 port, ?_⟩
      · change inet.pton .inet (cString ip) = _ at hpton
        simp [ofIp, hpton]
      · have hpresent := present_of_ntop hntop hsize
        change inet.present .inet address 64 = _ at hpresent
        have hne : Family.inet.toNat ≠ Family.inet6.toNat := by decide
        simp [InetSockAddress.ip, hne, hpresent, cString_of_nulFree hnul]

theorem ofIp_of_malformed (h : inet.pton (familyOf ipv6) (cString ip) = .malformed) :
    ∃ a, ofIp inet ip port ipv6 = .ok a := by
  cases ipv6 with
  | true =>
      change inet.pton .inet6 (cString ip) = _ at h
      exact ⟨_, by simp [ofIp, h]; rfl⟩
  | false =>
      change inet.pton .inet (cString ip) = _ at h
      exact ⟨_, by simp [ofIp, h]; rfl⟩

theorem ofIp_of_unsupported (h : inet.pton (familyOf ipv6) (cString ip) = .unsupported) :
    ∃ message, ofIp inet ip port ipv6 = .error message := by
  cases ipv6 with
  | true =>
      change inet.pton .inet6 (cString ip) = _ at h
      exact ⟨_, by simp [ofIp, h]; rfl⟩
  | false =>
      change inet.pton .inet (cString ip) = _ at h
      exact ⟨_, by simp [ofIp, h]; rfl⟩

/-- A textual address is read back. -/
theorem yields_of_textual (hinet : inet.Posix) (hip : Textual inet ip ipv6) :
    ∃ a, ofIp inet ip port ipv6 = .ok a ∧ Yields inet ip port ipv6 a := by
  obtain ⟨hnul, address, hpton⟩ := hip
  obtain ⟨text, hntop, hback, hlength, hnul'⟩ := hinet.ntop_pton hpton
  have haddress : inet.pton (familyOf ipv6) (cString ip) = .address address := by
    rw [cString_of_nulFree hnul, hpton]
  obtain ⟨a, hok, hfamily, hport, htext⟩ := ofIp_of_address haddress hntop hlength hnul'
  exact ⟨a, hok, ⟨text, address, htext, hback, hpton⟩, hport, fun b hb => copies_preserve hfamily hb⟩

/-- The constructor does what is asked of it exactly for the textual addresses of the family, and where
`inet_pton` does not support the family. -/
theorem parsed_or_refused_iff (hinet : inet.Posix) : ParsedOrRefused inet ip port ipv6 ↔
    Textual inet ip ipv6 ∨ inet.pton (familyOf ipv6) (cString ip) = .unsupported := by
  constructor
  · intro hparsed
    by_contra hneither
    obtain ⟨hip, hsupported⟩ := not_or.mp hneither
    obtain ⟨message, herror⟩ := hparsed.refuses hip
    have hok : ∃ a, ofIp inet ip port ipv6 = .ok a := by
      cases hpton : inet.pton (familyOf ipv6) (cString ip) with
      | address address =>
          obtain ⟨text, hntop, -, hlength, hnul⟩ := hinet.ntop_pton hpton
          obtain ⟨a, hok, -⟩ := ofIp_of_address hpton hntop hlength hnul
          exact ⟨a, hok⟩
      | malformed => exact ofIp_of_malformed hpton
      | unsupported => exact absurd hpton hsupported
    obtain ⟨a, hok⟩ := hok
    rw [herror] at hok
    cases hok
  · rintro (hip | hunsupported)
    · obtain ⟨a, hok, hyields⟩ := yields_of_textual hinet hip
      refine ⟨fun b hb => ?_, fun hnot => absurd hip hnot⟩
      cases hok.symm.trans hb
      exact hyields
    · obtain ⟨message, herror⟩ := ofIp_of_unsupported hunsupported
      refine ⟨fun a ha => ?_, fun _ => ⟨message, herror⟩⟩
      rw [herror] at ha
      cases ha

/-- The address of the loopback device, and a text with a number too large. -/
def loopback : List Char := ['1', '2', '7', '.', '0', '.', '0', '.', '1']

def tooLarge : List Char := ['1', '2', '7', '.', '0', '.', '0', '.', '2', '5', '6']

/-- Two functions that know the loopback address. -/
def loopbackInet : Inet where
  pton
    | .inet, text => if text = loopback then .address #v[127, 0, 0, 1] else .malformed
    | .inet6, _ => .malformed
  ntop
    | .inet, _ => some loopback
    | .inet6, _ => none

theorem pton_loopback : loopbackInet.pton .inet loopback = .address #v[127, 0, 0, 1] := by
  simp only [loopbackInet, if_true]

theorem pton_tooLarge : loopbackInet.pton .inet tooLarge = .malformed := by
  have hne : tooLarge ≠ loopback := by decide
  simp only [loopbackInet, hne, if_false]

theorem posix_loopbackInet : loopbackInet.Posix := by
  constructor
  intro family text address h
  cases family with
  | inet =>
      simp only [loopbackInet] at h
      split at h
      case isTrue htext =>
          subst htext
          cases h
          exact ⟨loopback, rfl, pton_loopback, by decide, by decide⟩
      · cases h
  | inet6 => cases h

theorem parsed_or_refused_loopback : ParsedOrRefused loopbackInet loopback 8080 false :=
  (parsed_or_refused_iff posix_loopbackInet).mpr (.inl ⟨by decide, _, pton_loopback⟩)

/-- The text with the number too large becomes the address of zeros. -/
theorem not_refused_malformed :
    (∃ a, ofIp loopbackInet tooLarge 8080 false = .ok a ∧ a.sinAddr = Vector.replicate 4 0) ∧
      ¬ParsedOrRefused loopbackInet tooLarge 8080 false := by
  have hok : ∃ a, ofIp loopbackInet tooLarge 8080 false = .ok a ∧
      a.sinAddr = Vector.replicate 4 0 := ⟨_, rfl, rfl⟩
  refine ⟨hok, fun hparsed => ?_⟩
  obtain ⟨a, ha, -⟩ := hok
  obtain ⟨message, herror⟩ := hparsed.refuses fun ⟨_, address, haddress⟩ => by
    cases pton_tooLarge.symm.trans haddress
  rw [herror] at ha
  cases ha

end InetSockAddress

end Nets
