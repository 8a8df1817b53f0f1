import Nets.Program.ChannelOption

/-! # The order of options

Options are set in the order in which an unordered map is gone through. Whether an exception is thrown does
not depend on it; which options the socket has at the end does, where `setIpMulticastTTL` writes the
interface that `setIpMulticastIf` writes. -/

namespace Nets

open Library ChannelOption

/-! ## The types of the values -/

inductive Alternative where
  | bool
  | uint8
  | optVal
  | sockLinger
  | string
  deriving DecidableEq, Repr

def alternativeOf : ValueType → Alternative
  | .bool _ => .bool
  | .uint8 _ => .uint8
  | .optVal _ => .optVal
  | .sockLinger _ => .sockLinger
  | .string _ => .string

namespace SockOption

/-- As noted beside each option in `ChannelOption.h`. -/
def alternative : SockOption → Alternative
  | .reuseAddr | .reusePort | .keepAlive | .tcpNoDelay | .broadcast | .ip4MulticastLoop
  | .ip6MulticastLoop => .bool
  | .backlog | .keepIdle | .keepCnt | .keepIntvl | .sndBuf | .rcvBuf => .optVal
  | .linger => .sockLinger
  | .ip4MulticastIf | .ip6MulticastIf => .string
  | .ip4MulticastTtl | .ip6MulticastHops => .uint8

def all : List SockOption :=
  [.backlog, .reuseAddr, .reusePort, .keepAlive, .keepIdle, .keepCnt, .keepIntvl, .tcpNoDelay, .linger,
    .broadcast, .ip4MulticastIf, .ip6MulticastIf, .ip4MulticastTtl, .ip6MulticastHops, .ip4MulticastLoop,
    .ip6MulticastLoop, .sndBuf, .rcvBuf]

theorem mem_all (k : SockOption) : k ∈ all := by
  cases k <;> decide

/-- The keys of a map, in the order of the declaration. -/
theorem visits_filter_all (m : ChannelOptionList) : Traverses (all.filter fun k => (m k).isSome) m where
  nodup := List.Pairwise.filter _ (by decide)
  mem_iff k := by rw [List.mem_filter, and_iff_right (mem_all k)]

/-! ## Where an option is written -/

/-- `backlog_`, or an option of the socket. -/
inductive Cell where
  | backlog
  | socket (name : OptionName)
  deriving DecidableEq

inductive Content where
  | backlog (n : Int32)
  | data (data : OptionData)
  deriving DecidableEq

def cell : SockOption → Cell
  | .backlog => .backlog
  | .reuseAddr => .socket ⟨SOL_SOCKET, SO_REUSEADDR⟩
  | .reusePort => .socket ⟨SOL_SOCKET, SO_REUSEPORT⟩
  | .keepAlive => .socket ⟨SOL_SOCKET, SO_KEEPALIVE⟩
  | .keepIdle => .socket ⟨IPPROTO_TCP, TCP_KEEPIDLE⟩
  | .keepCnt => .socket ⟨IPPROTO_TCP, TCP_KEEPCNT⟩
  | .keepIntvl => .socket ⟨IPPROTO_TCP, TCP_KEEPINTVL⟩
  | .tcpNoDelay => .socket ⟨IPPROTO_TCP, TCP_NODELAY⟩
  | .linger => .socket ⟨SOL_SOCKET, SO_LINGER⟩
  | .broadcast => .socket ⟨SOL_SOCKET, SO_BROADCAST⟩
  | .ip4MulticastIf | .ip4MulticastTtl => .socket ⟨IPPROTO_IP, IP_MULTICAST_IF⟩
  | .ip6MulticastIf => .socket ⟨IPPROTO_IPV6, IPV6_MULTICAST_IF⟩
  | .ip6MulticastHops => .socket ⟨IPPROTO_IPV6, IPV6_MULTICAST_HOPS⟩
  | .ip4MulticastLoop => .socket ⟨IPPROTO_IP, IP_MULTICAST_LOOP⟩
  | .ip6MulticastLoop => .socket ⟨IPPROTO_IPV6, IPV6_MULTICAST_LOOP⟩
  | .sndBuf => .socket ⟨SOL_SOCKET, SO_SNDBUF⟩
  | .rcvBuf => .socket ⟨SOL_SOCKET, SO_RCVBUF⟩

/-- No two options have one cell, but for the interface and the time to live of multicasts. -/
theorem eq_of_cell {k k' : SockOption} (h : k.cell = k'.cell) :
    k = k' ∨ (k = .ip4MulticastIf ∧ k' = .ip4MulticastTtl) ∨
      (k = .ip4MulticastTtl ∧ k' = .ip4MulticastIf) := by
  have hall : ∀ k ∈ all, ∀ k' ∈ all, k.cell = k'.cell →
      k = k' ∨ (k = .ip4MulticastIf ∧ k' = .ip4MulticastTtl) ∨
        (k = .ip4MulticastTtl ∧ k' = .ip4MulticastIf) := by
    decide
  exact hall k (mem_all k) k' (mem_all k') h

/-- What is written, unless `std::get` throws. -/
def content (host : Host) : SockOption → ValueType → Option Content
  | .backlog, .optVal n => some (.backlog n)
  | .reuseAddr, .bool enable | .reusePort, .bool enable | .keepAlive, .bool enable
  | .tcpNoDelay, .bool enable | .broadcast, .bool enable | .ip6MulticastLoop, .bool enable =>
    some (.data (socket.toOptVal enable))
  | .ip4MulticastLoop, .bool enable => some (.data (.char (if enable then 1 else 0)))
  | .keepIdle, .optVal n | .keepCnt, .optVal n | .keepIntvl, .optVal n | .sndBuf, .optVal n
  | .rcvBuf, .optVal n => some (.data (.int n))
  | .linger, .sockLinger l => some (.data (.linger l))
  | .ip4MulticastIf, .string s => some (.data (.inAddr ((host.inetPton s).getD 0)))
  | .ip6MulticastIf, .string s => some (.data (.index (host.ifNametoindex s)))
  | .ip4MulticastTtl, .uint8 n | .ip6MulticastHops, .uint8 n => some (.data (.char n))
  | _, _ => none

theorem isSome_content (host : Host) (k : SockOption) (x : ValueType) :
    (k.content host x).isSome = decide (alternativeOf x = k.alternative) := by
  cases k <;> cases x <;> rfl

/-- `backlog_` gets a number, and an option of the socket what the setter points to. -/
theorem content_eq {host : Host} {k : SockOption} {x : ValueType} {content : Content}
    (h : k.content host x = some content) :
    (k = .backlog ∧ ∃ n, content = .backlog n) ∨
      ∃ name data, k.cell = .socket name ∧ content = .data data := by
  cases k <;> cases x <;> cases h <;>
    first
    | exact .inl ⟨rfl, _, rfl⟩
    | exact .inr ⟨_, _, rfl, rfl⟩

end SockOption

namespace Configured

open SockOption

variable {host : Host} {c : Configured}

def store (c : Configured) : Cell → Option Content
  | .backlog => c.backlog.map .backlog
  | .socket name => (c.options name).map .data

theorem store_injective : Function.Injective store := by
  rintro ⟨backlog, options⟩ ⟨backlog', options'⟩ h
  have hbacklog : backlog = backlog' :=
    Option.map_injective (fun _ _ => Content.backlog.inj) (congrFun h .backlog)
  have hoptions : options = options' := funext fun name =>
    Option.map_injective (fun _ _ => Content.data.inj) (congrFun h (.socket name))
  rw [hbacklog, hoptions]

/-- The kernel may refuse an option. -/
def taken (host : Host) : Cell → Content → Bool
  | .socket name, .data data => host.takes name data
  | _, _ => true

def write (host : Host) (e : SockOption × ValueType) : Option (Cell × Content) :=
  (e.1.content host e.2).bind fun content =>
    if taken host e.1.cell content then some (e.1.cell, content) else none

/-- The value has the type of the option, and the channel has a backlog if one is set. -/
def Suits (c : Configured) (e : SockOption × ValueType) : Prop :=
  alternativeOf e.2 = e.1.alternative ∧ (e.1 = .backlog → c.backlog.isSome = true)

/-! ## One option -/

def put (host : Host) (c : Configured) : Cell → Content → Except OptionException Configured
  | .backlog, .backlog n => c.setBacklog n
  | .socket name, .data data => c.set (socket.setsockopt host name.level name.optname data)
  | _, _ => .ok c

theorem setChannelOption_eq (k : SockOption) (x : ValueType) (c : Configured) :
    c.setChannelOption host k x =
      match k.content host x with
      | some content => c.put host k.cell content
      | none => .error (.invalidArgument (throwFmt "::std::invalid_argument"
          "Channel set invalid ChannelOption,cause std::get: wrong index for variant".toList)) := by
  cases k <;> cases x <;> rfl

theorem store_setBacklog (c : Configured) (n : Int32) :
    store { c with backlog := some n } = Function.update c.store .backlog (some (.backlog n)) := by
  funext cell
  cases cell with
  | backlog => rw [Function.update_self]; rfl
  | socket name => rw [Function.update_of_ne (by simp)]; rfl

theorem store_setsockopt (name : OptionName) (data : OptionData) :
    store { c with options := socket.setsockopt host name.level name.optname data c.options } =
      if host.takes name data then Function.update c.store (.socket name) (some (.data data))
      else c.store := by
  rw [socket.setsockopt]
  by_cases htakes : host.takes name data = true
  · rw [if_pos htakes, if_pos htakes]
    funext cell
    cases cell with
    | backlog => rw [Function.update_of_ne (by simp)]; rfl
    | socket name' =>
        by_cases hname : name' = name
        · subst hname
          simp [store]
        · have hcell : Cell.socket name' ≠ .socket name := fun h => hname (Cell.socket.inj h)
          rw [Function.update_of_ne hcell]
          simp [store, Function.update_of_ne hname]
  · rw [if_neg htakes, if_neg htakes]

variable (host) in
/-- An option that suits the channel is written. -/
theorem setChannelOption_of_suits {e : SockOption × ValueType} (h : c.Suits e) :
    ∃ c', c.setChannelOption host e.1 e.2 = .ok c' ∧
      c'.store = writeAll (write host e).toList c.store ∧
      c'.backlog.isSome = c.backlog.isSome := by
  obtain ⟨k, x⟩ := e
  have hsome : (k.content host x).isSome = true := by
    rw [isSome_content]
    exact decide_eq_true h.1
  obtain ⟨content, hcontent⟩ := Option.isSome_iff_exists.mp hsome
  rw [setChannelOption_eq, write, hcontent]
  obtain ⟨rfl, n, rfl⟩ | ⟨name, data, hcell, rfl⟩ := content_eq hcontent
  · obtain ⟨old, hold⟩ := Option.isSome_iff_exists.mp (h.2 rfl)
    refine ⟨{ c with backlog := some n }, ?_, store_setBacklog c n, by rw [hold]; rfl⟩
    simp [put, cell, setBacklog, hold]
  · refine ⟨{ c with options := socket.setsockopt host name.level name.optname data c.options }, ?_,
      ?_, rfl⟩
    · simp [put, hcell, set]
    · rw [store_setsockopt]
      by_cases htakes : host.takes name data = true <;> simp [hcell, taken, htakes]

variable (host) in
/-- Any other option throws. -/
theorem setChannelOption_of_not_suits {e : SockOption × ValueType} (h : ¬ c.Suits e) :
    ∃ exception, c.setChannelOption host e.1 e.2 = .error exception := by
  obtain ⟨k, x⟩ := e
  rw [setChannelOption_eq]
  cases hcontent : k.content host x with
  | none => exact ⟨_, rfl⟩
  | some content =>
      have htype : alternativeOf x = k.alternative := by
        have hsome := isSome_content host k x
        rw [hcontent] at hsome
        exact of_decide_eq_true hsome.symm
      have hbacklog : k = .backlog ∧ c.backlog = none := by
        by_contra hother
        refine h ⟨htype, fun hk => ?_⟩
        exact Option.isSome_iff_ne_none.mpr fun hnone => hother ⟨hk, hnone⟩
      obtain ⟨rfl, hnone⟩ := hbacklog
      obtain ⟨-, n, rfl⟩ | ⟨name, data, hcell, -⟩ := content_eq hcontent
      · simp [put, cell, setBacklog, hnone]
      · cases hcell

/-! ## All options -/

theorem suits_congr {c c' : Configured} (h : c'.backlog.isSome = c.backlog.isSome)
    (e : SockOption × ValueType) : c'.Suits e ↔ c.Suits e := by
  rw [Suits, Suits, h]

variable (host) in
theorem setAll_of_suits {es : List (SockOption × ValueType)} (h : ∀ e ∈ es, c.Suits e) :
    (c.setAll host es).2 = none ∧
      (c.setAll host es).1.store = writeAll (es.filterMap (write host)) c.store := by
  induction es generalizing c with
  | nil => exact ⟨rfl, rfl⟩
  | cons e es ih =>
      obtain ⟨he, hes⟩ := List.forall_mem_cons.mp h
      obtain ⟨c', hc', hstore, hbacklog⟩ := setChannelOption_of_suits host he
      have hall : c.setAll host (e :: es) = c'.setAll host es := by
        rw [setAll, hc']
      rw [hall]
      obtain ⟨hnone, hrest⟩ := ih fun e he => (suits_congr hbacklog e).mpr (hes e he)
      refine ⟨hnone, ?_⟩
      rw [hrest, hstore, ← writeAll_append]
      cases hwrite : write host e with
      | none => rw [List.filterMap_cons_none hwrite]; rfl
      | some w => rw [List.filterMap_cons_some hwrite]; rfl

variable (host) in
theorem setAll_of_not_suits {es : List (SockOption × ValueType)} {e : SockOption × ValueType}
    (hmem : e ∈ es) (h : ¬ c.Suits e) : (c.setAll host es).2.isSome = true := by
  induction es generalizing c with
  | nil => cases hmem
  | cons e' es ih =>
      rw [setAll]
      by_cases he' : c.Suits e'
      · obtain ⟨c', hc', -, hbacklog⟩ := setChannelOption_of_suits host he'
        obtain rfl | hmem := List.mem_cons.mp hmem
        · exact absurd he' h
        · rw [hc']
          exact ih hmem fun he => h ((suits_congr hbacklog e).mp he)
      · obtain ⟨exception, hexception⟩ := setChannelOption_of_not_suits host he'
        rw [hexception]
        rfl

/-! ## The order -/

/-- The time to live and the interface of multicasts are both set, and the kernel takes both. -/
def MulticastConflict (host : Host) (m : ChannelOptionList) : Prop :=
  ∃ ifAddr ttl, m .ip4MulticastIf = some (.string ifAddr) ∧ m .ip4MulticastTtl = some (.uint8 ttl) ∧
    host.takes ⟨IPPROTO_IP, IP_MULTICAST_IF⟩ (.inAddr ((host.inetPton ifAddr).getD 0)) = true ∧
    host.takes ⟨IPPROTO_IP, IP_MULTICAST_IF⟩ (.char ttl) = true

theorem write_eq_some {k : SockOption} {x : ValueType} {cell : Cell} {content : Content} :
    write host (k, x) = some (cell, content) ↔
      k.content host x = some content ∧ k.cell = cell ∧ taken host cell content = true := by
  rw [write, Option.bind_eq_some_iff]
  constructor
  · rintro ⟨content', hcontent, hwrite⟩
    split at hwrite
    case isTrue htaken =>
      obtain ⟨rfl, rfl⟩ := Prod.mk.inj (Option.some.inj hwrite)
      exact ⟨hcontent, rfl, htaken⟩
    · cases hwrite
  · rintro ⟨hcontent, rfl, htaken⟩
    exact ⟨content, hcontent, if_pos htaken⟩

/-- What is written for the interface and for the time to live is never the same. -/
theorem conflict_of_writes {m : ChannelOptionList} {x x' : ValueType} {cell : Cell}
    {content content' : Content} (hx : m .ip4MulticastIf = some x) (hx' : m .ip4MulticastTtl = some x')
    (hw : write host (.ip4MulticastIf, x) = some (cell, content))
    (hw' : write host (.ip4MulticastTtl, x') = some (cell, content')) : MulticastConflict host m := by
  obtain ⟨hcontent, rfl, htaken⟩ := write_eq_some.mp hw
  obtain ⟨hcontent', -, htaken'⟩ := write_eq_some.mp hw'
  cases x <;> cases hcontent
  cases x' <;> cases hcontent'
  exact ⟨_, _, hx, hx', htaken, htaken'⟩

theorem collide_iff (m : ChannelOptionList) :
    Collide (write host) m ↔ MulticastConflict host m := by
  constructor
  · rintro ⟨k, x, k', x', cell, y, y', hx, hx', hy, hy', hne⟩
    have hcell : k.cell = k'.cell :=
      (write_eq_some.mp hy).2.1.trans (write_eq_some.mp hy').2.1.symm
    obtain rfl | ⟨rfl, rfl⟩ | ⟨rfl, rfl⟩ := eq_of_cell hcell
    · obtain rfl := Option.some.inj (hx.symm.trans hx')
      obtain ⟨-, rfl⟩ := Prod.mk.inj (Option.some.inj (hy.symm.trans hy'))
      exact absurd rfl hne
    · exact conflict_of_writes hx hx' hy hy'
    · exact conflict_of_writes hx' hx hy' hy
  · rintro ⟨ifAddr, ttl, hx, hx', htaken, htaken'⟩
    exact ⟨_, _, _, _, _, _, _, hx, hx', write_eq_some.mpr ⟨rfl, rfl, htaken⟩,
      write_eq_some.mpr ⟨rfl, rfl, htaken'⟩, by simp⟩

theorem entries_suit {order : List SockOption} {m : ChannelOptionList} (h : Traverses order m)
    (hsuit : ∀ k x, m k = some x → c.Suits (k, x)) : ∀ e ∈ entries order m, c.Suits e := by
  rintro ⟨k, x⟩ he
  exact hsuit k x (h.mem_entries.mp he)

/-- Whether setting the options throws is the same in every order: it does where one of them has a value of
another type than its own, or the channel has no backlog and is to get one. Otherwise every order has the
same effect exactly if not both the interface and the time to live of multicasts are set with values that
the kernel takes for the option they both write; where it takes no single byte for that, all orders have. -/
theorem setChannelOptions_order_iff (host : Host) (c : Configured) (m : ChannelOptionList) :
    (∀ order, Traverses order m →
      ((c.setChannelOptions host order m).2 = none ↔ ∀ k x, m k = some x → c.Suits (k, x))) ∧
    ((∀ k x, m k = some x → c.Suits (k, x)) →
      ((∀ order₁ order₂, Traverses order₁ m → Traverses order₂ m →
        c.setChannelOptions host order₁ m = c.setChannelOptions host order₂ m) ↔
          ¬ MulticastConflict host m)) ∧
    ((∀ k x, m k = some x → c.Suits (k, x)) →
      (∀ ttl, host.takes ⟨IPPROTO_IP, IP_MULTICAST_IF⟩ (.char ttl) = false) →
        ∀ order₁ order₂, Traverses order₁ m → Traverses order₂ m →
          c.setChannelOptions host order₁ m = c.setChannelOptions host order₂ m) := by
  have hiff : (∀ k x, m k = some x → c.Suits (k, x)) →
      ((∀ order₁ order₂, Traverses order₁ m → Traverses order₂ m →
        c.setChannelOptions host order₁ m = c.setChannelOptions host order₂ m) ↔
          ¬ MulticastConflict host m) := by
    intro hsuit
    rw [← collide_iff, ← writeAll_order_iff (write host) (visits_filter_all m) c.store]
    refine forall_congr' fun order₁ => forall_congr' fun order₂ => ?_
    refine forall_congr' fun h₁ => forall_congr' fun h₂ => ?_
    obtain ⟨hnone₁, hstore₁⟩ := setAll_of_suits host (entries_suit h₁ hsuit)
    obtain ⟨hnone₂, hstore₂⟩ := setAll_of_suits host (entries_suit h₂ hsuit)
    rw [writesOf, writesOf, ← hstore₁, ← hstore₂, store_injective.eq_iff]
    exact ⟨congrArg Prod.fst, fun h => Prod.ext h (hnone₁.trans hnone₂.symm)⟩
  refine ⟨?_, hiff, fun hsuit hrefuses => (hiff hsuit).mpr ?_⟩
  · intro order horder
    constructor
    · intro hnone k x hx
      by_contra hsuit
      have hthrown := setAll_of_not_suits host (horder.mem_entries.mpr hx) hsuit
      rw [setChannelOptions] at hnone
      rw [hnone] at hthrown
      cases hthrown
    · exact fun hsuit => (setAll_of_suits host (entries_suit horder hsuit)).1
  · rintro ⟨ifAddr, ttl, -, -, -, htaken⟩
    rw [hrefuses ttl] at htaken
    cases htaken

/-- An interface and a time to live. -/
def multicasts : ChannelOptionList :=
  (ChannelOptionList.none.insertOrAssign .ip4MulticastIf (.string "10.0.0.1")).insertOrAssign
    .ip4MulticastTtl (.uint8 4)

/-- A kernel that takes one byte for `IP_MULTICAST_LOOP`, and for no other option. -/
def takesOneByte (name : OptionName) : OptionData → Bool
  | .char _ => name = ⟨IPPROTO_IP, IP_MULTICAST_LOOP⟩
  | _ => true

/-- Where the kernel refuses the byte of the time to live, the socket has the interface in every order;
where it takes everything, it has one or the other. -/
theorem setChannelOptions_order_multicasts :
    (∀ order₁ order₂, Traverses order₁ multicasts → Traverses order₂ multicasts →
      client.setChannelOptions ⟨takesOneByte, fun _ => some 167772161, fun _ => 0⟩ order₁ multicasts =
        client.setChannelOptions ⟨takesOneByte, fun _ => some 167772161, fun _ => 0⟩ order₂
          multicasts) ∧
      ¬ ∀ order₁ order₂, Traverses order₁ multicasts → Traverses order₂ multicasts →
        client.setChannelOptions ⟨fun _ _ => true, fun _ => some 167772161, fun _ => 0⟩ order₁
            multicasts =
          client.setChannelOptions ⟨fun _ _ => true, fun _ => some 167772161, fun _ => 0⟩ order₂
            multicasts := by
  have hsuit : ∀ k x, multicasts k = some x → client.Suits (k, x) := by
    intro k x hx
    cases k <;> cases hx <;> exact ⟨rfl, nofun⟩
  refine ⟨?_, fun hsame => ?_⟩
  · exact (setChannelOptions_order_iff _ client _).2.2 hsuit fun ttl => rfl
  · exact ((setChannelOptions_order_iff _ client _).2.1 hsuit).mp hsame ⟨_, _, rfl, rfl, rfl, rfl⟩

end Configured

end Nets
