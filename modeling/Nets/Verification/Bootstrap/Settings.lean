import Nets.Library.Handover
import Nets.Program.Settings
import Nets.Verification.ChannelOption.Orders

/-! # One bootstrap for several clients

`connect` and `bind` share the options of a `Bootstrap`, and each has handlers and a callback of its own. What
is set goes to the first channel that can have it, and to no other; but a callback that throws in `bind` is
called by the next `bind` too. -/

namespace Nets.ConfiguredClient

open Library

variable {η ω χ ψ : Type} {host : Host} {s t : ConfiguredClient η ω χ ψ}

/-- What the calls of a new bootstrap set. -/
def settingsOf (calls : List (Action η ω χ ψ)) : ClientSettings η ω χ ψ := calls.foldl set .create

/-! ## Parts of the settings -/

theorem filterMap_set {α β : Type} {f : α → Option β} {xs : List α} {i : ℕ} {x y : α}
    (hy : xs[i]? = some y) (h : f x = f y) : (xs.set i x).filterMap f = xs.filterMap f := by
  obtain ⟨hi, rfl⟩ := List.getElem?_eq_some_iff.mp hy
  have hmap : (xs.set i x).map f = xs.map f := by
    have hmapped : i < (xs.map f).length := by rwa [List.length_map]
    have hx : f x = (xs.map f)[i] := h.trans (List.getElem_map f).symm
    rw [List.map_set, hx, List.set_getElem_self]
  have hid : ∀ ys : List α, ys.filterMap f = (ys.map f).filterMap id := fun ys => by
    rw [List.filterMap_map]
    rfl
  rw [hid, hmap, ← hid]

theorem filterMap_concat {α β : Type} {f : α → Option β} (xs : List α) (x : α) :
    (xs ++ [x]).filterMap f = xs.filterMap f ++ (f x).toList := by
  rw [List.filterMap_append]
  cases hx : f x with
  | none => rw [List.filterMap_cons_none hx]; rfl
  | some y => rw [List.filterMap_cons_some hx]; rfl

/-- A part of the settings that no call changes by what is in the others, and what the channels have got
of it. -/
structure Part (η ω χ ψ π : Type) where
  get : ClientSettings η ω χ ψ → π
  put : π → ClientSettings η ω χ ψ
  get_set : ∀ s a, get (set s a) = get (set (put (get s)) a)
  of : ConfiguredConnector η χ ⊕ BoundDatagram ω ψ → Option π
  of_made : ∀ connector made, of (.inl { connector with made }) = of (.inl connector)

namespace Part

variable {π : Type} (part : Part η ω χ ψ π)

def handed (s : ConfiguredClient η ω χ ψ) : List π := s.channels.filterMap part.of

theorem collect_eq (calls : List (Action η ω χ ψ)) (start : ClientSettings η ω χ ψ) :
    Handover.collect some (fun p a => part.get (set (part.put p) a)) (part.get start) calls =
      part.get (calls.foldl set start) := by
  induction calls generalizing start with
  | nil => rfl
  | cons a rest ih =>
      rw [Handover.collect_cons, Option.elim_some, ← part.get_set, ih, List.foldl_cons]

theorem handed_newSocketChannel {i : ℕ} {it : Iteration} (h : s.newSocketChannel host i it = some t) :
    t.settings = s.settings ∧ part.handed t = part.handed s := by
  rw [newSocketChannel] at h
  split at h
  case h_1 connector hconnector =>
      split at h
      · obtain rfl := Option.some.inj h
        exact ⟨rfl, filterMap_set hconnector (part.of_made connector _)⟩
      · cases h
  · cases h

end Part

/-- Takes a part, or not, of what was set. -/
def makesConnector : Action η ω χ ψ → Bool
  | .connect => true
  | _ => false

def makesDatagram : Action η ω χ ψ → Bool
  | .bind _ _ _ => true
  | _ => false

/-- A `bind` whose callback returns, or that has none. -/
def initializesDatagram : Action η ω χ ψ → Bool
  | .bind _ returns _ => returns
  | _ => false

def makesChannel (a : Action η ω χ ψ) : Bool := makesConnector a || makesDatagram a

/-- A call that sets something, or a connector that comes to its connection. -/
theorem Part.step_of_not_makesChannel {π : Type} (part : Part η ω χ ψ π) {action : Action η ω χ ψ}
    (h : s.step host action = some t) (hmakes : makesChannel action = false) :
    t.settings = set s.settings action ∧ part.handed t = part.handed s := by
  cases action with
  | connect => cases hmakes
  | bind it returns outcome => cases hmakes
  | newSocketChannel i it => exact part.handed_newSocketChannel h
  | _ =>
      obtain rfl := Option.some.inj h
      exact ⟨rfl, rfl⟩

theorem set_of_makesChannel {action : Action η ω χ ψ} (h : makesChannel action = true)
    (settings : ClientSettings η ω χ ψ) : set settings action = settings := by
  cases action <;> first | rfl | cases h

/-- What the calls that clear a part do with it: each of their channels gets it, and no other channel. -/
structure Part.TakenBy {π : Type} (part : Part η ω χ ψ π) (host : Host)
    (takes : Action η ω χ ψ → Bool) : Prop where
  makes : ∀ action, takes action = true → makesChannel action = true
  keep : ∀ s action t, step host s action = some t → makesChannel action = true →
    takes action = false → part.get t.settings = part.get s.settings ∧ part.handed t = part.handed s
  take : ∀ s action t, step host s action = some t → takes action = true →
    part.get t.settings = part.get .create ∧ part.handed t = part.handed s ++ [part.get s.settings]

theorem Part.TakenBy.run {π : Type} {part : Part η ω χ ψ π} {takes : Action η ω χ ψ → Bool}
    (htaken : part.TakenBy host takes) {actions : List (Action η ω χ ψ)}
    (h : (system η ω χ ψ host).run create actions = some s) :
    ∃ before last, actions.splitOnP takes = before ++ [last] ∧
      part.handed s = before.map (fun calls => part.get (settingsOf calls)) ∧
      part.get s.settings = part.get (settingsOf last) := by
  have hhandover : Handover (system η ω χ ψ host) some takes
      (fun p a => part.get (set (part.put p) a)) (part.get .create) id (fun s => part.get s.settings)
      part.handed := by
    refine ⟨fun s action t hstep htakes => ?_, htaken.take⟩
    rw [Option.elim_some, ← part.get_set]
    cases hmakes : makesChannel action with
    | true =>
        rw [set_of_makesChannel hmakes]
        exact htaken.keep s action t hstep hmakes htakes
    | false =>
        obtain ⟨hsettings, hhanded⟩ := part.step_of_not_makesChannel hstep hmakes
        exact ⟨congrArg _ hsettings, hhanded⟩
  obtain ⟨before, last, hsplit, hhanded, hlast⟩ := hhandover.run_initial rfl rfl h
  simp only [part.collect_eq, id] at hhanded hlast
  exact ⟨before, last, hsplit, hhanded, hlast⟩

/-! ## The four parts -/

def options : Part η ω χ ψ ChannelOptionList where
  get settings := settings.channelOptions
  put channelOptions := { (.create : ClientSettings η ω χ ψ) with channelOptions }
  get_set settings action := by
    cases action <;> first | rfl | (rename_i pointer; cases pointer <;> rfl)
  of
    | .inl connector => some connector.channelOptions
    | .inr datagram => some datagram.channelOptions
  of_made _ _ := rfl

/-- The handlers and the callback of connections. -/
def connecting : Part η ω χ ψ (List η × Option χ) where
  get settings := (settings.socketChannelHandlers, settings.socketChannelInitializationCallback)
  put p :=
    { (.create : ClientSettings η ω χ ψ) with
      socketChannelHandlers := p.1
      socketChannelInitializationCallback := p.2 }
  get_set settings action := by
    cases action <;> first | rfl | (rename_i pointer; cases pointer <;> rfl)
  of
    | .inl connector => some (connector.channelHandlers, connector.channelInitializationCallback)
    | .inr _ => none
  of_made _ _ := rfl

/-- The handlers of a `DatagramChannel`. -/
def datagramHandlers : Part η ω χ ψ (List ω) where
  get settings := settings.datagramChannelHandlers
  put datagramChannelHandlers :=
    { (.create : ClientSettings η ω χ ψ) with datagramChannelHandlers }
  get_set settings action := by
    cases action <;> first | rfl | (rename_i pointer; cases pointer <;> rfl)
  of
    | .inl _ => none
    | .inr datagram => some datagram.handlers
  of_made _ _ := rfl

/-- The callback of a `DatagramChannel` that was initialized with it. -/
def datagramCallback : Part η ω χ ψ (Option ψ) where
  get settings := settings.datagramChannelInitializationCallback
  put datagramChannelInitializationCallback :=
    { (.create : ClientSettings η ω χ ψ) with datagramChannelInitializationCallback }
  get_set settings action := by
    cases action <;> first | rfl | (rename_i pointer; cases pointer <;> rfl)
  of
    | .inl _ => none
    | .inr datagram => if datagram.initialized then some datagram.called else none
  of_made _ _ := rfl

theorem Part.handed_doConnect {π : Type} (part : Part η ω χ ψ π) (s : ConfiguredClient η ω χ ψ) :
    part.handed s.doConnect =
      part.handed s ++ (part.of (.inl s.settings.initConnectorChannel.1)).toList :=
  filterMap_concat _ _

theorem Part.handed_doBind {π : Type} (part : Part η ω χ ψ π) (it : Iteration) (returns : Bool)
    (outcome : Binding) (s : ConfiguredClient η ω χ ψ) :
    part.handed (s.doBind host it returns outcome) =
      part.handed s ++ (part.of (.inr (s.settings.bindDatagram host it returns outcome).1)).toList :=
  filterMap_concat _ _

theorem eq_of_step_bind {it : Iteration} {returns : Bool} {outcome : Binding}
    (h : s.step host (.bind it returns outcome) = some t) : s.doBind host it returns outcome = t :=
  Option.some.inj (Option.ite_none_right_eq_some.mp h).2

/-- A channel of either kind takes the options. -/
theorem options_takenBy : (options : Part η ω χ ψ _).TakenBy host makesChannel where
  makes _ h := h
  keep _ _ _ _ hmakes htakes := by
    rw [htakes] at hmakes
    cases hmakes
  take s action t h htakes := by
    cases action with
    | connect =>
        obtain rfl := Option.some.inj h
        exact ⟨rfl, options.handed_doConnect s⟩
    | bind it returns outcome =>
        obtain rfl := eq_of_step_bind h
        exact ⟨rfl, options.handed_doBind it returns outcome s⟩
    | _ => cases htakes

theorem connecting_takenBy : (connecting : Part η ω χ ψ _).TakenBy host makesConnector where
  makes action h := by rw [makesChannel, h, Bool.true_or]
  keep s action t h hmakes htakes := by
    cases action with
    | connect => cases htakes
    | bind it returns outcome =>
        obtain rfl := eq_of_step_bind h
        exact ⟨rfl, (connecting.handed_doBind it returns outcome s).trans (List.append_nil _)⟩
    | _ => cases hmakes
  take s action t h htakes := by
    cases action with
    | connect =>
        obtain rfl := Option.some.inj h
        exact ⟨rfl, connecting.handed_doConnect s⟩
    | _ => cases htakes

theorem datagramHandlers_takenBy :
    (datagramHandlers : Part η ω χ ψ _).TakenBy host makesDatagram where
  makes action h := by rw [makesChannel, h, Bool.or_true]
  keep s action t h hmakes htakes := by
    cases action with
    | connect =>
        obtain rfl := Option.some.inj h
        exact ⟨rfl, (datagramHandlers.handed_doConnect s).trans (List.append_nil _)⟩
    | bind it returns outcome => cases htakes
    | _ => cases hmakes
  take s action t h htakes := by
    cases action with
    | bind it returns outcome =>
        obtain rfl := eq_of_step_bind h
        exact ⟨rfl, datagramHandlers.handed_doBind it returns outcome s⟩
    | _ => cases htakes

/-- A `bind` whose callback throws leaves it where it is. -/
theorem datagramCallback_takenBy :
    (datagramCallback : Part η ω χ ψ _).TakenBy host initializesDatagram where
  makes action h := by
    cases action with
    | bind it returns outcome => rfl
    | _ => cases h
  keep s action t h hmakes htakes := by
    cases action with
    | connect =>
        obtain rfl := Option.some.inj h
        exact ⟨rfl, (datagramCallback.handed_doConnect s).trans (List.append_nil _)⟩
    | bind it returns outcome =>
        obtain rfl : returns = false := htakes
        obtain rfl := eq_of_step_bind h
        exact ⟨rfl, (datagramCallback.handed_doBind it false outcome s).trans (List.append_nil _)⟩
    | _ => cases hmakes
  take s action t h htakes := by
    cases action with
    | bind it returns outcome =>
        obtain rfl : returns = true := htakes
        obtain rfl := eq_of_step_bind h
        exact ⟨rfl, datagramCallback.handed_doBind it true outcome s⟩
    | _ => cases htakes

/-! ## Connections -/

/-- What a connector makes of its connection is initialized with all that the connector has. -/
def Derived (host : Host) (s : ConfiguredClient η ω χ ψ) : Prop :=
  ∀ connector channel, .inl connector ∈ s.channels → connector.made = some channel →
    ∃ it, channel = initSocketChannel host it connector.channelOptions connector.channelHandlers
      connector.channelInitializationCallback

theorem Derived.step {action : Action η ω χ ψ} (hs : Derived host s)
    (h : s.step host action = some t) : Derived host t := by
  cases action with
  | connect =>
      obtain rfl := Option.some.inj h
      intro connector channel hmem hmade
      obtain hold | hnew := List.mem_append.mp hmem
      · exact hs connector channel hold hmade
      · obtain rfl := Sum.inl.inj (List.mem_singleton.mp hnew)
        cases hmade
  | bind it returns outcome =>
      obtain rfl := eq_of_step_bind h
      intro connector channel hmem hmade
      obtain hold | hnew := List.mem_append.mp hmem
      · exact hs connector channel hold hmade
      · cases List.mem_singleton.mp hnew
  | newSocketChannel i it =>
      change s.newSocketChannel host i it = some t at h
      rw [newSocketChannel] at h
      split at h
      · split at h
        · obtain rfl := Option.some.inj h
          intro connector channel hmem hmade
          obtain hold | heq := List.mem_or_eq_of_mem_set hmem
          · exact hs connector channel hold hmade
          · obtain rfl := Sum.inl.inj heq
            exact ⟨it, (Option.some.inj hmade).symm⟩
        · cases h
      · cases h
  | _ =>
      obtain rfl := Option.some.inj h
      exact hs

/-- In every run, the options of each channel, connector or not, are those that were set since the channel
before; the handlers and the callback of each connector are those that were set since the connector before,
however many datagram channels came between, and the handlers of each datagram channel those that were set
since the datagram channel before. The callback of a `bind` is the one that was set last since the `bind`
before whose callback returned, so that one that throws is called again. A connector gives all it has to
the one channel it makes. -/
theorem settings_reach_one_channel {actions : List (Action η ω χ ψ)}
    (h : (system η ω χ ψ host).run create actions = some s) :
    (∃ before last, actions.splitOnP makesChannel = before ++ [last] ∧
      options.handed s = before.map (fun calls => options.get (settingsOf calls)) ∧
      options.get s.settings = options.get (settingsOf last)) ∧
    (∃ before last, actions.splitOnP makesConnector = before ++ [last] ∧
      connecting.handed s = before.map (fun calls => connecting.get (settingsOf calls)) ∧
      connecting.get s.settings = connecting.get (settingsOf last)) ∧
    (∃ before last, actions.splitOnP makesDatagram = before ++ [last] ∧
      datagramHandlers.handed s = before.map (fun calls => datagramHandlers.get (settingsOf calls)) ∧
      datagramHandlers.get s.settings = datagramHandlers.get (settingsOf last)) ∧
    (∃ before last, actions.splitOnP initializesDatagram = before ++ [last] ∧
      datagramCallback.handed s = before.map (fun calls => datagramCallback.get (settingsOf calls)) ∧
      ∀ it returns outcome t, s.step host (.bind it returns outcome) = some t →
        ∃ datagram, t.channels = s.channels ++ [.inr datagram] ∧
          datagram.called = datagramCallback.get (settingsOf last)) ∧
    ∀ connector channel, .inl connector ∈ s.channels → connector.made = some channel →
      ∃ it, channel = initSocketChannel host it connector.channelOptions connector.channelHandlers
        connector.channelInitializationCallback := by
  have hderived : Derived host s :=
    System.run_invariant (I := Derived host) (fun _ _ _ hs hstep => hs.step hstep)
      (by simp [Derived, create]) h
  obtain ⟨before, last, hsplit, hhanded, hlast⟩ := datagramCallback_takenBy.run h
  refine ⟨options_takenBy.run h, connecting_takenBy.run h, datagramHandlers_takenBy.run h,
    ⟨before, last, hsplit, hhanded, fun it returns outcome t hstep => ?_⟩, hderived⟩
  obtain rfl := eq_of_step_bind hstep
  exact ⟨_, rfl, hlast⟩

/-- The options that are set before a `bind` do not reach the connector after it, and the handlers do. The
callback of the first `bind` throws, and the second `bind` calls it too. -/
theorem settings_reach_one_channel_mixed :
    ∃ s : ConfiguredClient ℕ ℕ ℕ ℕ,
      connecting.handed s = [([7], none)] ∧ datagramHandlers.handed s = [[8], []] ∧
      datagramCallback.handed s = [some 9] ∧
      (options.handed s).map (fun m => m .tcpNoDelay) = [some (.bool true), none, none] := by
  let it : Iteration := ⟨_, SockOption.visits_filter_all⟩
  let calls : List (Action ℕ ℕ ℕ ℕ) := [.socketChannelHandler (some 7), .option .tcpNoDelay (.bool true),
    .datagramChannelHandler (some 8), .datagramChannelInitializationCallback (some 9)]
  let binds : List (Action ℕ ℕ ℕ ℕ) := [.bind it false ⟨true, true⟩, .bind it true ⟨true, true⟩]
  have hrun : (system ℕ ℕ ℕ ℕ ⟨fun _ _ => true, fun _ => none, fun _ => 0⟩).run create
      (calls ++ binds ++ [.connect]) = some _ := rfl
  obtain ⟨⟨channelStretches, channelLast, hchannelSplit, hoptions, -⟩,
    ⟨connectorStretches, connectorLast, hconnectorSplit, hconnecting, -⟩,
    ⟨datagramStretches, datagramLast, hdatagramSplit, hhandlers, -⟩,
    ⟨initializedStretches, initializedLast, hinitializedSplit, hcallback, -⟩, -⟩ :=
    settings_reach_one_channel hrun
  have hchannels : [calls, [], []] ++ [[]] = channelStretches ++ [channelLast] := hchannelSplit
  have hconnectors : [calls ++ binds] ++ [[]] = connectorStretches ++ [connectorLast] := hconnectorSplit
  have hdatagrams : [calls, []] ++ [[.connect]] = datagramStretches ++ [datagramLast] := hdatagramSplit
  have hinitializeds : [calls ++ [.bind it false ⟨true, true⟩]] ++ [[.connect]] =
      initializedStretches ++ [initializedLast] := hinitializedSplit
  obtain ⟨rfl, -⟩ := List.append_inj' hchannels rfl
  obtain ⟨rfl, -⟩ := List.append_inj' hconnectors rfl
  obtain ⟨rfl, -⟩ := List.append_inj' hdatagrams rfl
  obtain ⟨rfl, -⟩ := List.append_inj' hinitializeds rfl
  exact ⟨_, hconnecting, hhandlers, hcallback, by rw [hoptions]; rfl⟩

end Nets.ConfiguredClient
