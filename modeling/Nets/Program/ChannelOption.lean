import Nets.Library.Assignments
import Nets.Program.InetSockAddress

/-! # Options of channels

`net/core/ChannelOption.h`, `Channel::setChannelOption` of `net/channel/Channel.cpp`, the setters of
`net/core/Socket.cpp` it calls, and the loops over options in the channels. An unordered map is gone through
in an order that is not known. -/

namespace Nets

open Library

inductive SockOption where
  | backlog
  | reuseAddr
  | reusePort
  | keepAlive
  | keepIdle
  | keepCnt
  | keepIntvl
  | tcpNoDelay
  | linger
  | broadcast
  | ip4MulticastIf
  | ip6MulticastIf
  | ip4MulticastTtl
  | ip6MulticastHops
  | ip4MulticastLoop
  | ip6MulticastLoop
  | sndBuf
  | rcvBuf
  deriving DecidableEq, Repr

structure SockLinger where
  onoff : Int32
  linger : Int32
  deriving DecidableEq, Repr

namespace ChannelOption

/-- The alternatives of the variant. -/
inductive ValueType where
  | bool (enable : Bool)
  | uint8 (n : UInt8)
  | optVal (n : Int32)
  | sockLinger (linger : SockLinger)
  | string (s : String)
  deriving DecidableEq, Repr

end ChannelOption

open ChannelOption (ValueType)

abbrev ChannelOptionList := SockOption → Option ValueType

/-! ## The socket -/

/-- The level and the name of an option of a socket, as Linux has them. -/
structure OptionName where
  level : ℕ
  optname : ℕ
  deriving DecidableEq, Repr

/-- What a pointer to an option leads to. -/
inductive OptionData where
  | int (n : Int32)
  | char (n : UInt8)
  | linger (l : SockLinger)
  | inAddr (address : UInt32)
  | index (n : UInt32)
  deriving DecidableEq, Repr

/-- Which options the kernel takes for a socket, and what it says of names. -/
structure Host where
  takes : OptionName → OptionData → Bool
  inetPton : String → Option UInt32
  ifNametoindex : String → UInt32

/-- The options that were set. -/
abbrev SocketOptions := OptionName → Option OptionData

def SOL_SOCKET : ℕ := 1
def IPPROTO_IP : ℕ := 0
def IPPROTO_TCP : ℕ := 6
def IPPROTO_IPV6 : ℕ := 41
def SO_REUSEADDR : ℕ := 2
def SO_BROADCAST : ℕ := 6
def SO_SNDBUF : ℕ := 7
def SO_RCVBUF : ℕ := 8
def SO_KEEPALIVE : ℕ := 9
def SO_LINGER : ℕ := 13
def SO_REUSEPORT : ℕ := 15
def TCP_NODELAY : ℕ := 1
def TCP_KEEPIDLE : ℕ := 4
def TCP_KEEPINTVL : ℕ := 5
def TCP_KEEPCNT : ℕ := 6
def IP_MULTICAST_IF : ℕ := 32
def IP_MULTICAST_LOOP : ℕ := 34
def IPV6_MULTICAST_IF : ℕ := 17
def IPV6_MULTICAST_HOPS : ℕ := 18
def IPV6_MULTICAST_LOOP : ℕ := 19

def SOMAXCONN : Int32 := 4096

def kDefaultMaximumOfBackLog : Int32 := SOMAXCONN

namespace socket

/-- A failure is logged and nothing else. -/
def setsockopt (host : Host) (level optname : ℕ) (data : OptionData) (options : SocketOptions) :
    SocketOptions :=
  if host.takes ⟨level, optname⟩ data then Function.update options ⟨level, optname⟩ (some data)
  else options

def toOptVal (enable : Bool) : OptionData := .int (if enable then 1 else 0)

def setSockReuseAddr (host : Host) (enable : Bool) : SocketOptions → SocketOptions :=
  setsockopt host SOL_SOCKET SO_REUSEADDR (toOptVal enable)

def setSockReusePort (host : Host) (enable : Bool) : SocketOptions → SocketOptions :=
  setsockopt host SOL_SOCKET SO_REUSEPORT (toOptVal enable)

def setSockKeepAlive (host : Host) (enable : Bool) : SocketOptions → SocketOptions :=
  setsockopt host SOL_SOCKET SO_KEEPALIVE (toOptVal enable)

def setSockKeepIdle (host : Host) (idleTime : Int32) : SocketOptions → SocketOptions :=
  setsockopt host IPPROTO_TCP TCP_KEEPIDLE (.int idleTime)

def setSockKeepCnt (host : Host) (cnt : Int32) : SocketOptions → SocketOptions :=
  setsockopt host IPPROTO_TCP TCP_KEEPCNT (.int cnt)

def setSockKeepIntvl (host : Host) (interval : Int32) : SocketOptions → SocketOptions :=
  setsockopt host IPPROTO_TCP TCP_KEEPINTVL (.int interval)

def setTcpNoDelay (host : Host) (enable : Bool) : SocketOptions → SocketOptions :=
  setsockopt host IPPROTO_TCP TCP_NODELAY (toOptVal enable)

def setSockLinger (host : Host) (linger : SockLinger) : SocketOptions → SocketOptions :=
  setsockopt host SOL_SOCKET SO_LINGER (.linger linger)

def setSockBroadcast (host : Host) (enable : Bool) : SocketOptions → SocketOptions :=
  setsockopt host SOL_SOCKET SO_BROADCAST (toOptVal enable)

/-- An address that is none stays zero. -/
def setIpMulticastIf (host : Host) (ifAddr : String) : SocketOptions → SocketOptions :=
  setsockopt host IPPROTO_IP IP_MULTICAST_IF (.inAddr ((host.inetPton ifAddr).getD 0))

def setIpv6MulticastIf (host : Host) (ifName : String) : SocketOptions → SocketOptions :=
  setsockopt host IPPROTO_IPV6 IPV6_MULTICAST_IF (.index (host.ifNametoindex ifName))

-- the option is that of `setIpMulticastIf`
def setIpMulticastTTL (host : Host) (ttl : UInt8) : SocketOptions → SocketOptions :=
  setsockopt host IPPROTO_IP IP_MULTICAST_IF (.char ttl)

def setIpv6MulticastHops (host : Host) (hops : UInt8) : SocketOptions → SocketOptions :=
  setsockopt host IPPROTO_IPV6 IPV6_MULTICAST_HOPS (.char hops)

def setIpMulticastLoop (host : Host) (enable : Bool) : SocketOptions → SocketOptions :=
  setsockopt host IPPROTO_IP IP_MULTICAST_LOOP (.char (if enable then 1 else 0))

def setIpv6MulticastLoop (host : Host) (enable : Bool) : SocketOptions → SocketOptions :=
  setsockopt host IPPROTO_IPV6 IPV6_MULTICAST_LOOP (toOptVal enable)

def setSockSendBuf (host : Host) (sendBufLen : Int32) : SocketOptions → SocketOptions :=
  setsockopt host SOL_SOCKET SO_SNDBUF (.int sendBufLen)

def setSockRecvBuf (host : Host) (recvBufLen : Int32) : SocketOptions → SocketOptions :=
  setsockopt host SOL_SOCKET SO_RCVBUF (.int recvBufLen)

end socket

/-! ## Channels -/

/-- `std::invalid_argument` and `std::runtime_error`. -/
inductive OptionException where
  | invalidArgument (message : List Char)
  | runtimeError (message : List Char)
  deriving DecidableEq, Repr

/-- The options of the socket of a channel. Only a `ServerSocketChannel` has a `backlog_`. -/
structure Configured where
  backlog : Option Int32
  options : SocketOptions

namespace Configured

/-- A channel with a new socket. -/
def server : Configured where
  backlog := some 0
  options := fun _ => none

def client : Configured where
  backlog := none
  options := fun _ => none

/-- `Channel::setBacklog` and what `ServerSocketChannel` has in its place. -/
def setBacklog (backlog : Int32) (c : Configured) : Except OptionException Configured :=
  match c.backlog with
  | none => .error (.runtimeError (throwFmt "::std::runtime_error"
      "Channel does not support setting backlog".toList))
  | some _ => .ok { c with backlog := some backlog }

def set (setter : SocketOptions → SocketOptions) (c : Configured) : Except OptionException Configured :=
  .ok { c with options := setter c.options }

/-- `std::get` throws where the variant has another alternative. -/
def setChannelOption (host : Host) (sockOption : SockOption) (value : ValueType) (c : Configured) :
    Except OptionException Configured :=
  match sockOption, value with
  | .backlog, .optVal backlog => c.setBacklog backlog
  | .reuseAddr, .bool enable => c.set (socket.setSockReuseAddr host enable)
  | .reusePort, .bool enable => c.set (socket.setSockReusePort host enable)
  | .keepAlive, .bool enable => c.set (socket.setSockKeepAlive host enable)
  | .keepIdle, .optVal idleTime => c.set (socket.setSockKeepIdle host idleTime)
  | .keepCnt, .optVal cnt => c.set (socket.setSockKeepCnt host cnt)
  | .keepIntvl, .optVal interval => c.set (socket.setSockKeepIntvl host interval)
  | .tcpNoDelay, .bool enable => c.set (socket.setTcpNoDelay host enable)
  | .linger, .sockLinger linger => c.set (socket.setSockLinger host linger)
  | .broadcast, .bool enable => c.set (socket.setSockBroadcast host enable)
  | .ip4MulticastIf, .string ifAddr => c.set (socket.setIpMulticastIf host ifAddr)
  | .ip6MulticastIf, .string ifName => c.set (socket.setIpv6MulticastIf host ifName)
  | .ip4MulticastTtl, .uint8 ttl => c.set (socket.setIpMulticastTTL host ttl)
  | .ip6MulticastHops, .uint8 hops => c.set (socket.setIpv6MulticastHops host hops)
  | .ip4MulticastLoop, .bool enable => c.set (socket.setIpMulticastLoop host enable)
  | .ip6MulticastLoop, .bool enable => c.set (socket.setIpv6MulticastLoop host enable)
  | .sndBuf, .optVal sendBufLen => c.set (socket.setSockSendBuf host sendBufLen)
  | .rcvBuf, .optVal recvBufLen => c.set (socket.setSockRecvBuf host recvBufLen)
  | _, _ => .error (.invalidArgument (throwFmt "::std::invalid_argument"
      "Channel set invalid ChannelOption,cause std::get: wrong index for variant".toList))

/-- The loop in `bind` and in `SocketChannel::setChannelOptions`: the channel where it ends or is left, and
the exception that leaves it. -/
def setAll (host : Host) : List (SockOption × ValueType) → Configured → Configured × Option OptionException
  | [], c => (c, none)
  | (sockOption, value) :: rest, c =>
    match c.setChannelOption host sockOption value with
    | .error exception => (c, some exception)
    | .ok c => setAll host rest c

def setChannelOptions (host : Host) (order : List SockOption) (channelOptions : ChannelOptionList)
    (c : Configured) : Configured × Option OptionException :=
  c.setAll host (entries order channelOptions)

/-- What `ServerSocketChannel::bind` hands to `listen`. -/
def listenBacklog (backlog : Int32) : Int32 :=
  if backlog > kDefaultMaximumOfBackLog ∨ backlog ≤ 0 then kDefaultMaximumOfBackLog else backlog

end Configured

namespace ChannelOptionList

def none : ChannelOptionList := fun _ => Option.none

/-- `channelOptions_[sockOption] = value`. -/
def insertOrAssign (sockOption : SockOption) (value : ValueType) (options : ChannelOptionList) :
    ChannelOptionList :=
  Function.update options sockOption (some value)

/-- `ServerSocketChannel::setChannelOptions`, `setChildOptions` and
`DatagramChannel::setChannelOptions`. -/
def insertAll (options : ChannelOptionList) (order : List SockOption)
    (channelOptions : ChannelOptionList) : ChannelOptionList :=
  (entries order channelOptions).foldl (fun options e => options.insertOrAssign e.1 e.2) options

/-- The defaults of a `DatagramChannel` and of accepted connections. -/
def reuse : ChannelOptionList :=
  (none.insertOrAssign .reuseAddr (.bool true)).insertOrAssign .reusePort (.bool true)

/-- The defaults of a `ServerSocketChannel`. -/
def server : ChannelOptionList := reuse.insertOrAssign .backlog (.optVal kDefaultMaximumOfBackLog)

end ChannelOptionList

end Nets
