import Nets.Library.CStrings
import Nets.Program.ByteBuffer

/-! # Socket addresses

`net/core/InetSockAddress.cpp`. `inet_pton` and `inet_ntop` are parameters. -/

namespace Nets

open Library

/-! ## `<arpa/inet.h>` -/

/-- The families the two functions are called with. -/
inductive Family where
  | inet
  | inet6
  deriving DecidableEq

namespace Family

/-- `AF_INET` and `AF_INET6`. -/
def toNat : Family → ℕ
  | inet => 2
  | inet6 => 10

/-- The bytes of an address. -/
def size : Family → ℕ
  | inet => 4
  | inet6 => 16

end Family

/-- What `inet_pton` returns: 1 with the address, 0, or -1. -/
inductive Parsed (n : ℕ) where
  | address (bytes : Vector UInt8 n)
  | malformed
  | unsupported
  deriving DecidableEq

/-- The text `inet_ntop` writes, if the family is supported. -/
structure Inet where
  pton (family : Family) (text : List Char) : Parsed family.size
  ntop (family : Family) (address : Vector UInt8 family.size) : Option (List Char)

def EAFNOSUPPORT : ℕ := 97

def ENOSPC : ℕ := 28

/-- `inet_ntop` into a buffer of the given size: the text, or `errno`. -/
def Inet.present (inet : Inet) (family : Family) (address : Vector UInt8 family.size) (size : ℕ) :
    Except ℕ (List Char) :=
  match inet.ntop family address with
  | none => .error EAFNOSUPPORT
  | some text => if text.length < size then .ok text else .error ENOSPC

/-! ## Exceptions -/

/-- The message of `THROW_FMT`, which is formatted into 255 characters. -/
def throwFmt (exception : String) (text : List Char) : List Char :=
  snprintf 255 (exception.toList ++ ':' :: text)

/-! ## The union -/

/-- `sin_family` and `sin_port` have the same place in both members of the union. `sin_addr` is in the
place of `sin6_flowinfo`, and `sin_zero` is the first half of `sin6_addr`. -/
structure InetSockAddress where
  family : ℕ
  sinPort : BitVec 16
  sinAddr : Vector UInt8 4
  sin6Addr : Vector UInt8 16
  sin6ScopeId : Vector UInt8 4
  deriving DecidableEq

namespace InetSockAddress

/-- `MEMZERO(&addr6_, sizeof(SockAddr6))`. -/
def zero : InetSockAddress where
  family := 0
  sinPort := 0
  sinAddr := Vector.replicate 4 0
  sin6Addr := Vector.replicate 16 0
  sin6ScopeId := Vector.replicate 4 0

/-- `InetSockAddress(ip, port, ipv6)`. Only -1 throws: a text that is malformed leaves the address of
zeros. -/
def ofIp (inet : Inet) (ip : List Char) (port : BitVec 16) (ipv6 : Bool) :
    Except (List Char) InetSockAddress :=
  if ipv6 then
    let a := { zero with family := Family.inet6.toNat, sinPort := ByteBuffer.htobe 2 port }
    match inet.pton .inet6 (cString ip) with
    | .unsupported => .error (throwFmt "InetSockAddressException"
        ("InetSockAddress inet_pton AF_INET6,ip=".toList ++ cString ip))
    | .address bytes => .ok { a with sin6Addr := bytes }
    | .malformed => .ok a
  else
    let a := { zero with family := Family.inet.toNat, sinPort := ByteBuffer.htobe 2 port }
    match inet.pton .inet (cString ip) with
    | .unsupported => .error (throwFmt "InetSockAddressException"
        ("InetSockAddress inet_pton AF_INET,ip=".toList ++ cString ip))
    | .address bytes => .ok { a with sinAddr := bytes }
    | .malformed => .ok a

/-! ## Copy and move -/

/-- `addr4_ = other.addr4_`: the sixteen bytes of a `sockaddr_in`. -/
def copyAddr4 (a other : InetSockAddress) : InetSockAddress where
  family := other.family
  sinPort := other.sinPort
  sinAddr := other.sinAddr
  sin6Addr := Vector.ofFn fun i => if i.val < 8 then other.sin6Addr.get i else a.sin6Addr.get i
  sin6ScopeId := a.sin6ScopeId

/-- The copy constructor. -/
def copy (other : InetSockAddress) : InetSockAddress :=
  if other.family = Family.inet6.toNat then other
  else if other.family = Family.inet.toNat then copyAddr4 zero other
  else zero

/-- The move constructor: the new object, and what is left of the other one. -/
def move (other : InetSockAddress) : InetSockAddress × InetSockAddress := (copy other, zero)

/-- Assignment, where the other object may be this one. -/
def assign (self : Bool) (a other : InetSockAddress) : InetSockAddress :=
  if self then a else copy other

def moveAssign (self : Bool) (a other : InetSockAddress) : InetSockAddress × InetSockAddress :=
  if self then (a, other) else move other

/-! ## Text -/

def ip (inet : Inet) (a : InetSockAddress) : Except (List Char) (List Char) :=
  if a.family = Family.inet6.toNat then
    match inet.present .inet6 a.sin6Addr 64 with
    | .error errno => .error (throwFmt "InetSockAddressException"
        ("InetSockAddress inet_ntop AF_INET6 failed,errno=".toList ++ decimal errno))
    | .ok text => .ok (cString text)
  else if a.family = Family.inet.toNat then
    match inet.present .inet a.sinAddr 64 with
    | .error errno => .error (throwFmt "InetSockAddressException"
        ("InetSockAddress inet_ntop AF_INET failed,errno=".toList ++ decimal errno))
    | .ok text => .ok (cString text)
  else .ok []

def port (a : InetSockAddress) : BitVec 16 := ByteBuffer.htobe 2 a.sinPort

/-- What is in the buffer, followed by the port in the rest of its 128 characters. -/
def withPort (buffer separator : List Char) (a : InetSockAddress) : List Char :=
  let ip := cString buffer
  ip ++ snprintf (128 - ip.length) (separator ++ decimal a.port.toNat)

/-- An address of the family `AF_INET6` is in brackets. -/
def toString (inet : Inet) (a : InetSockAddress) : Except (List Char) (List Char) :=
  if a.family = Family.inet6.toNat then
    match inet.present .inet6 a.sin6Addr 128 with
    | .error errno => .error (throwFmt "InetSockAddressException"
        ("InetSockAddress inet_ntop AF_INET6 failed,errno=".toList ++ decimal errno))
    | .ok text => .ok (a.withPort ('[' :: text) [']', ':'])
  else if a.family = Family.inet.toNat then
    match inet.present .inet a.sinAddr 128 with
    | .error errno => .error (throwFmt "InetSockAddressException"
        ("InetSockAddress inet_ntop AF_INET faile0,errno=".toList ++ decimal errno))
    | .ok text => .ok (a.withPort text [':'])
  else .ok []

end InetSockAddress

end Nets
