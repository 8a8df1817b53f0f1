import Nets.Library.Handover
import Nets.Program.Settings
import Nets.Verification.ChannelOption.Orders

/-! # One bootstrap for several servers

A bootstrap that binds several times is as good as a new one for each: every channel has what was set since
the one before it was made, on top of the defaults, and so do all the connections it accepts. -/

namespace Nets

open Library ChannelOption

/-! ## Defaults -/

theorem ChannelOptionList.insertAll_eq (it : Iteration) (options m : ChannelOptionList) :
    options.insertAll (it.val m) m = overlay m options :=
  writeAll_entries (it.property m) options

namespace ServerSettings

variable {η χ : Type}

/-- What was set, and the defaults of `ServerSocketChannel` for the rest. -/
def onDefaults (s : ServerSettings η χ) : ServerSettings η χ :=
  { s with
    channelOptions := overlay s.channelOptions ChannelOptionList.server
    childOptions := overlay s.childOptions ChannelOptionList.reuse }

theorem initServerSocketChannel_eq (it : Iteration) (s : ServerSettings η χ) :
    s.initServerSocketChannel it = s.onDefaults := by
  simp only [initServerSocketChannel, onDefaults, ChannelOptionList.insertAll_eq]

theorem bind_settings (host : Host) (it : Iteration) (outcome : Binding) (s : ServerSettings η χ) :
    (s.bind host it outcome).settings = s := by
  rw [bind]
  split
  · split <;> rfl
  · rfl

theorem exists_backlog (s : ServerSettings η χ) :
    ∃ value, s.onDefaults.channelOptions .backlog = some value := by
  cases hbacklog : s.channelOptions .backlog with
  | none => exact ⟨.optVal kDefaultMaximumOfBackLog, by simp [onDefaults, overlay, hbacklog]; rfl⟩
  | some value => exact ⟨value, by simp [onDefaults, overlay, hbacklog]⟩

end ServerSettings

/-! ## The backlog -/

namespace Configured

variable {host : Host} {c : Configured}

/-- Options that are all set leave the backlog that is among them. -/
theorem backlog_of_setChannelOptions {order : List SockOption} {m : ChannelOptionList}
    {value : ValueType} (horder : Traverses order m) (hvalue : m .backlog = some value)
    (hnone : (c.setChannelOptions host order m).2 = none) :
    ∃ n, value = .optVal n ∧ (c.setChannelOptions host order m).1.backlog = some n := by
  have hsuit : ∀ e ∈ entries order m, c.Suits e := by
    intro e he
    by_contra hnot
    have hthrown := setAll_of_not_suits host he hnot
    rw [setChannelOptions] at hnone
    rw [hnone] at hthrown
    cases hthrown
  have hmem : (SockOption.backlog, value) ∈ entries order m := horder.mem_entries.mpr hvalue
  have htype := (hsuit _ hmem).1
  cases value with
  | optVal n =>
      have hwrite : write host (.backlog, .optVal n) = some (.backlog, .backlog n) := rfl
      have hstore := congrFun (setAll_of_suits host hsuit).2 .backlog
      rw [writeAll_of_mem (List.mem_filterMap.mpr ⟨_, hmem, hwrite⟩)] at hstore
      · obtain ⟨n', hn', heq⟩ := Option.map_eq_some_iff.mp hstore
        obtain rfl := SockOption.Content.backlog.inj heq
        exact ⟨n', rfl, hn'⟩
      · rintro ⟨cell, content⟩ hw rfl
        obtain ⟨⟨k, x⟩, hx, hw⟩ := List.mem_filterMap.mp hw
        obtain ⟨hcontent, hcell, -⟩ := write_eq_some.mp hw
        have hcells : SockOption.backlog.cell = k.cell := hcell.symm
        obtain rfl | ⟨-, hother⟩ | ⟨-, hother⟩ := SockOption.eq_of_cell hcells
        · obtain rfl := Option.some.inj (hvalue.symm.trans (horder.mem_entries.mp hx))
          exact (Option.some.inj hcontent).symm
        · cases hother; cases hcell
        · cases hother; cases hcell
  | _ => cases htype

end Configured

/-- What a server listens with is the backlog it was given, within the bounds of the kernel. -/
theorem ServerSettings.listening_of_bind {η χ : Type} {host : Host} {it : Iteration}
    {outcome : Binding} {s : ServerSettings η χ} {value : ValueType} {n : Int32}
    (hvalue : s.channelOptions .backlog = some value)
    (hn : (s.bind host it outcome).listening = some n) :
    ∃ b, value = .optVal b ∧ n = Configured.listenBacklog b := by
  rw [bind] at hn
  split at hn
  · split at hn
    · cases hn
    case h_2 configured hset =>
      split at hn
      · have hnone : (Configured.server.setChannelOptions host (it.val s.channelOptions)
            s.channelOptions).2 = none := by
          rw [hset]
        obtain ⟨b, rfl, hbacklog⟩ :=
          Configured.backlog_of_setChannelOptions (it.property _) hvalue hnone
        rw [hset] at hbacklog
        rw [hbacklog] at hn
        exact ⟨b, rfl, (Option.some.inj hn).symm⟩
      · cases hn
  · cases hn

/-! ## All calls -/

namespace ConfiguredServer

variable {η χ : Type} {host : Host} {s t : ConfiguredServer η χ}

/-- A `bind` that comes as far as the channel. -/
def makesServer : Action η χ → Bool
  | .bind made _ _ => made
  | _ => false

/-- What the calls of a new bootstrap set. -/
def settingsOf (calls : List (Action η χ)) : ServerSettings η χ := calls.foldl set .create

theorem collect_eq (calls : List (Action η χ)) :
    Handover.collect some set .create calls = settingsOf calls := by
  rw [Handover.collect, settingsOf, List.filterMap_some]

theorem step_of_not_makesServer {action : Action η χ} (h : s.step host action = some t)
    (hmakes : makesServer action = false) :
    t.settings = set s.settings action ∧ t.servers = s.servers := by
  cases action with
  | accept i it =>
      obtain ⟨server, -, haccept⟩ := Option.bind_eq_some_iff.mp h
      split at haccept
      · obtain rfl := Option.some.inj haccept
        exact ⟨rfl, rfl⟩
      · cases haccept
  | bind made it outcome =>
      obtain rfl : made = false := hmakes
      obtain rfl := Option.some.inj h
      exact ⟨rfl, rfl⟩
  | _ =>
      obtain rfl := Option.some.inj h
      exact ⟨rfl, rfl⟩

theorem handover (host : Host) :
    Handover (system η χ host) some makesServer set .create ServerSettings.onDefaults
      (fun s => s.settings) (fun s => s.servers.map fun server => server.settings) where
  give s action t h hmakes := by
    obtain ⟨hsettings, hservers⟩ := step_of_not_makesServer h hmakes
    exact ⟨hsettings, congrArg _ hservers⟩
  take s action t h hmakes := by
    cases action with
    | bind made it outcome =>
        obtain rfl : made = true := hmakes
        obtain rfl := Option.some.inj h
        refine ⟨rfl, ?_⟩
        simp only [doBind, List.map_append, List.map_cons, List.map_nil,
          ServerSettings.initServerSocketChannel_eq, ServerSettings.bind_settings]
    | _ => cases hmakes

/-- What `bind` has made of the settings of each server, and what its connections were given. -/
structure Derived (host : Host) (s : ConfiguredServer η χ) : Prop where
  listening : ∀ server ∈ s.servers, ∀ n, server.listening = some n →
    ∃ b, server.settings.channelOptions .backlog = some (.optVal b) ∧ n = Configured.listenBacklog b
  accepted : ∀ i channel, (i, channel) ∈ s.accepted →
    ∃ server it, s.servers[i]? = some server ∧
      channel = initSocketChannel host it server.settings.childOptions
        server.settings.childHandlers server.settings.childInitializationCallback

theorem Derived.step {action : Action η χ} (hs : Derived host s) (h : s.step host action = some t) :
    Derived host t := by
  cases action with
  | accept i it =>
      obtain ⟨server, hserver, haccept⟩ := Option.bind_eq_some_iff.mp h
      split at haccept
      · obtain rfl := Option.some.inj haccept
        refine ⟨hs.listening, fun j channel hmem => ?_⟩
        obtain hold | hnew := List.mem_append.mp hmem
        · exact hs.accepted j channel hold
        · obtain ⟨rfl, rfl⟩ := Prod.mk.inj (List.mem_singleton.mp hnew)
          exact ⟨server, it, hserver, rfl⟩
      · cases haccept
  | bind made it outcome =>
      cases made with
      | false =>
          obtain rfl := Option.some.inj h
          exact ⟨hs.listening, hs.accepted⟩
      | true =>
          obtain rfl := Option.some.inj h
          refine ⟨fun server hmem n hn => ?_, fun i channel hmem => ?_⟩
          · obtain hold | hnew := List.mem_append.mp hmem
            · exact hs.listening server hold n hn
            · obtain rfl := List.mem_singleton.mp hnew
              rw [ServerSettings.initServerSocketChannel_eq] at hn ⊢
              rw [ServerSettings.bind_settings]
              obtain ⟨value, hvalue⟩ := s.settings.exists_backlog
              obtain ⟨b, rfl, hb⟩ := ServerSettings.listening_of_bind hvalue hn
              exact ⟨b, hvalue, hb⟩
          · obtain ⟨server, it', hserver, hchannel⟩ := hs.accepted i channel hmem
            have hi : i < s.servers.length := (List.getElem?_eq_some_iff.mp hserver).1
            exact ⟨server, it', (List.getElem?_append_left hi).trans hserver, hchannel⟩
  | _ =>
      obtain rfl := Option.some.inj h
      exact ⟨hs.listening, hs.accepted⟩

/-- Each `bind` that makes a channel gives it what a new bootstrap would have after the calls since the one
before, and nothing of that to any other; the socket listens with the backlog that is among it, and each
connection gets the options, the handlers and the callback that are. -/
theorem settings_reach_one_server {actions : List (Action η χ)}
    (h : (system η χ host).run create actions = some s) :
    ∃ before last, actions.splitOnP makesServer = before ++ [last] ∧
      s.servers.map (fun server => server.settings) =
        before.map (fun calls => (settingsOf calls).onDefaults) ∧
      s.settings = settingsOf last ∧
      (∀ server ∈ s.servers, ∀ n, server.listening = some n →
        ∃ b, server.settings.channelOptions .backlog = some (.optVal b) ∧
          n = Configured.listenBacklog b) ∧
      ∀ i channel, (i, channel) ∈ s.accepted →
        ∃ calls it, before[i]? = some calls ∧
          channel = initSocketChannel host it (settingsOf calls).onDefaults.childOptions
            (settingsOf calls).childHandlers (settingsOf calls).childInitializationCallback := by
  obtain ⟨before, last, hsplit, hservers, hsettings⟩ := (handover host).run_initial rfl rfl h
  simp only [collect_eq] at hservers hsettings
  have hderived : Derived host s :=
    System.run_invariant (I := Derived host) (fun _ _ _ hs hstep => hs.step hstep)
      ⟨by simp [create], by simp [create]⟩ h
  refine ⟨before, last, hsplit, hservers, hsettings, hderived.listening, fun i channel hmem => ?_⟩
  obtain ⟨server, it, hserver, rfl⟩ := hderived.accepted i channel hmem
  have hget := congrArg (fun settings => settings[i]?) hservers
  simp only [List.getElem?_map, hserver, Option.map_some] at hget
  obtain ⟨calls, hcalls, heq⟩ := Option.map_eq_some_iff.mp hget.symm
  refine ⟨calls, it, hcalls, ?_⟩
  rw [← heq]
  rfl

/-- Two servers and what is left for a third. -/
theorem settings_reach_one_server_two :
    ∃ s : ConfiguredServer ℕ ℕ,
      s.servers.map (fun server => server.settings.childHandlers) = [[1], [2, 3]] ∧
      s.settings.childHandlers = [4] := by
  let it : Iteration := ⟨_, SockOption.visits_filter_all⟩
  have hrun : (system ℕ ℕ ⟨fun _ _ => true, fun _ => none, fun _ => 0⟩).run create
      [.childHandler (some 1), .bind true it ⟨true, true⟩, .childHandler (some 2),
        .childHandler (some 3), .bind true it ⟨true, true⟩, .childHandler (some 4)] = some _ := rfl
  obtain ⟨before, last, hsplit, hservers, hsettings, -⟩ := settings_reach_one_server hrun
  have hstretches : [[.childHandler (some 1)], [.childHandler (some 2), .childHandler (some 3)]] ++
      [[.childHandler (some 4)]] = before ++ [last] := hsplit
  obtain ⟨rfl, hlast⟩ := List.append_inj' hstretches rfl
  rw [← (List.cons.inj hlast).1] at hsettings
  refine ⟨_, ?_, congrArg ServerSettings.childHandlers hsettings⟩
  have hhandlers := congrArg (List.map ServerSettings.childHandlers) hservers
  rw [List.map_map] at hhandlers
  exact hhandlers

end ConfiguredServer

end Nets
