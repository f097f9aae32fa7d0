import NeoTavern.Lib.Proc
import NeoTavern.Lib.Runs
import NeoTavern.Frontend.Services

namespace Frontend

namespace ServiceHost

variable {h h' : ServiceHost} {pluginId serviceId : String} {granted : Bool} {params : Value}

-- A connection to the registration that it has been opened against.
def isLive (h : ServiceHost) (c : ServiceConnection) : Bool :=
  (Assoc.get h.registry c.serviceId).any (·.stamp = c.opened)

def liveConnections (h : ServiceHost) : List ServiceConnection :=
  (h.connections.map (·.snd)).filter h.isLive

structure Linked (h : ServiceHost) : Prop where
  live     : ∀ e ∈ h.connections, h.isLive e.snd
  consumer : ∀ e ∈ h.connections, (Assoc.get h.frames e.snd.consumerPluginId).isSome
  provider : ∀ e ∈ h.connections, ∀ s ∈ Assoc.get h.registry e.snd.serviceId,
    (Assoc.get h.frames s.entry.providerPluginId).isSome
  distinct : ∀ e ∈ h.registry, ∀ f ∈ h.registry, e.snd.entry.serviceId = f.snd.entry.serviceId →
    e.snd.entry.providerPluginId = f.snd.entry.providerPluginId
  quota    : ∀ pluginId granted params token e, connect h pluginId granted params token = .error e →
    e.code = .pluginQuotaExceeded →
    maxConnectionsPerConsumer ≤ (h.liveConnections.filter (·.consumerPluginId = pluginId)).length ∨
      maxServiceConnections ≤ h.liveConnections.length

-- What holds whatever happens.
structure Kept (h : ServiceHost) : Prop where
  registry    : (h.registry.map (·.fst)).Nodup
  connections : (h.connections.map (·.fst)).Nodup
  key         : ∀ e ∈ h.registry, e.fst = e.snd.entry.serviceId
  stamp       : ∀ e ∈ h.registry, e.snd.stamp < h.stamp
  opened      : ∀ e ∈ h.connections, e.snd.opened < h.stamp
  provider    : ∀ e ∈ h.registry, (Assoc.get h.frames e.snd.entry.providerPluginId).isSome
  consumer    : ∀ e ∈ h.connections, (Assoc.get h.frames e.snd.consumerPluginId).isSome

-- The removal of a frame leaves no connection of another plugin to one of its services.
def Disconnected (h : ServiceHost) : Event → Prop
  | .finalizeFrameRemovalNow pluginId => (Assoc.get h.frames pluginId).isSome →
    ∀ e ∈ h.connections, e.snd.consumerPluginId ≠ pluginId →
      ∀ s ∈ Assoc.get h.registry e.snd.serviceId, s.entry.providerPluginId ≠ pluginId
  | _ => True

section Handlers

theorem providedEntry_provider (hok : providedEntry pluginId params = .ok entry) :
    entry.providerPluginId = pluginId := by
  rw [providedEntry] at hok
  split at hok
  case h_2 => cases hok
  case h_1 record _ =>
    split at hok
    case h_2 => cases hok
    case h_1 name _ =>
      have ⟨_, hok⟩ := Except.guard_eq_ok.mp hok
      split at hok
      case h_2 => cases hok
      case h_1 rawMethods _ =>
        have ⟨_, hok⟩    := Except.guard_eq_ok.mp hok
        have ⟨_, hok⟩    := Except.guard_eq_ok.mp hok
        have ⟨_, _, hok⟩ := Except.bind_eq_ok.mp hok
        have ⟨_, _, hok⟩ := Except.bind_eq_ok.mp hok
        have ⟨_, _, hok⟩ := Except.bind_eq_ok.mp hok
        have ⟨_, _, hok⟩ := Except.bind_eq_ok.mp hok
        exact Except.pure_eq_ok.mp hok ▸ rfl

theorem provide_eq_ok (hok : provide h pluginId granted params = .ok (reply, h')) :
    ∃ entry, entry.providerPluginId = pluginId ∧ h.kernelServiceRegister entry = some h' := by
  rw [provide] at hok
  have ⟨_, hok⟩        := Except.guard_eq_ok.mp hok
  have ⟨entry, he, hok⟩ := Except.bind_eq_ok.mp hok
  have ⟨_, hok⟩        := Except.guard_eq_ok.mp hok
  refine ⟨entry, providedEntry_provider he, ?_⟩
  split at hok
  case h_1 hr =>
    cases hok
    exact hr
  case h_2 => cases hok

theorem unprovide_eq_ok (hok : unprovide h pluginId granted params = .ok (reply, h')) :
    ∃ serviceId, h' = h.kernelServiceRemoveService serviceId pluginId := by
  rw [unprovide] at hok
  have ⟨_, hok⟩            := Except.guard_eq_ok.mp hok
  have ⟨serviceId, _, hok⟩ := Except.bind_eq_ok.mp hok
  cases hok
  exact ⟨serviceId, rfl⟩

theorem connect_eq_ok (hok : connect h pluginId granted params token = .ok (reply, h')) :
    ∃ serviceId s, Assoc.get h.registry serviceId = some s ∧ h.providerAlive serviceId ∧
      h' = { h with connections := Assoc.set h.connections token ⟨token, pluginId, serviceId, s.stamp⟩ } := by
  rw [connect] at hok
  obtain ⟨_, hok⟩            := Except.guard_eq_ok.mp hok
  obtain ⟨serviceId, _, hok⟩ := Except.bind_eq_ok.mp hok
  split at hok
  case h_1 => cases hok
  case h_2 s hs =>
    obtain ⟨halive, hok⟩ := Except.guard_eq_ok.mp hok
    obtain ⟨_, hok⟩      := Except.guard_eq_ok.mp hok
    refine ⟨serviceId, s, hs, by simpa using halive, ?_⟩
    split at hok
    case h_1 => cases hok
    case h_2 hc =>
      cases hok
      rw [kernelServiceCreateConnection] at hc
      split at hc
      case isTrue  => cases hc
      case isFalse => exact (Option.some.inj hc).symm

theorem disconnect_eq_ok (hok : disconnect h pluginId granted params = .ok (reply, h')) :
    ∃ connectionId, h' = h.kernelServiceRemoveConnection pluginId connectionId := by
  rw [disconnect] at hok
  have ⟨_, hok⟩               := Except.guard_eq_ok.mp hok
  have ⟨connectionId, _, hok⟩ := Except.bind_eq_ok.mp hok
  cases hok
  exact ⟨connectionId, rfl⟩

theorem requiredServiceText_eq_error (herr : requiredServiceText key method params = .error e) :
    e.code = .validationFailed := by
  rw [requiredServiceText] at herr
  split at herr
  case h_2 =>
    cases herr
    rfl
  case h_1 =>
    split at herr
    case h_1 => cases herr
    case h_2 =>
      cases herr
      rfl

theorem connect_quota (herr : connect h pluginId granted params token = .error e)
    (hcode : e.code = .pluginQuotaExceeded) :
    maxConnectionsPerConsumer ≤ h.kernelServiceConnectionCount pluginId ∨
      maxServiceConnections ≤ h.connections.length := by
  rw [connect] at herr
  rcases Except.guard_eq_error.mp herr with ⟨_, rfl⟩ | ⟨_, herr⟩
  · cases hcode
  · rcases Except.bind_eq_error.mp herr with herr | ⟨serviceId, _, herr⟩
    · rw [requiredServiceText_eq_error herr] at hcode
      cases hcode
    · split at herr
      case h_1 =>
        cases herr
        cases hcode
      case h_2 s _ =>
        rcases Except.guard_eq_error.mp herr with ⟨_, rfl⟩ | ⟨_, herr⟩
        · cases hcode
        · rcases Except.guard_eq_error.mp herr with ⟨hcount, _⟩ | ⟨_, herr⟩
          · exact .inl hcount
          · split at herr
            case h_2 => cases herr
            case h_1 hc =>
              rw [kernelServiceCreateConnection] at hc
              split at hc
              case isTrue hlen => exact .inr hlen
              case isFalse     => cases hc

end Handlers

section Kept

theorem Kept.start : Kept {} where
  registry    := List.nodup_nil
  connections := List.nodup_nil
  key         := fun _ he => by cases he
  stamp       := fun _ he => by cases he
  opened      := fun _ he => by cases he
  provider    := fun _ he => by cases he
  consumer    := fun _ he => by cases he

theorem isAlive_isSome (ha : h.isAlive pluginId) : (Assoc.get h.frames pluginId).isSome := by
  rw [isAlive] at ha
  cases hget : Assoc.get h.frames pluginId
  case none => simp [hget] at ha
  case some => rfl

-- What is kept of a part of the tables.
theorem Kept.sub (hk : Kept h) {registry connections} (hr : registry.Sublist h.registry)
    (hc : connections.Sublist h.connections) (frames : List (String × Bool))
    (hp : ∀ e ∈ registry, (Assoc.get frames e.snd.entry.providerPluginId).isSome)
    (hcons : ∀ e ∈ connections, (Assoc.get frames e.snd.consumerPluginId).isSome) :
    Kept { h with frames, registry, connections } where
  registry    := hk.registry.sublist <| hr.map _
  connections := hk.connections.sublist <| hc.map _
  key         := fun e he => hk.key e <| hr.subset he
  stamp       := fun e he => hk.stamp e <| hr.subset he
  opened      := fun e he => hk.opened e <| hc.subset he
  provider    := hp
  consumer    := hcons

theorem Kept.register (hk : Kept h) (hr : h.kernelServiceRegister entry = some h')
    (hp : (Assoc.get h.frames entry.providerPluginId).isSome) : Kept h' := by
  rw [kernelServiceRegister] at hr
  split at hr
  case isTrue  => cases hr
  case isFalse =>
    cases hr
    constructor
    case registry    => exact Assoc.nodup_set hk.registry
    case connections => exact hk.connections
    case key         =>
      intro e he
      rcases Assoc.mem_set he with rfl | he
      · rfl
      · exact hk.key e he
    case stamp       =>
      intro e he
      rcases Assoc.mem_set he with rfl | he
      · exact Nat.lt_succ_self _
      · exact Nat.lt_succ_of_lt <| hk.stamp e he
    case opened      => exact fun e he => Nat.lt_succ_of_lt <| hk.opened e he
    case provider    =>
      intro e he
      rcases Assoc.mem_set he with rfl | he
      · exact hp
      · exact hk.provider e he
    case consumer    => exact hk.consumer

theorem Kept.connect (hk : Kept h) (hs : Assoc.get h.registry serviceId = some s)
    (hp : (Assoc.get h.frames pluginId).isSome) :
    Kept { h with connections := Assoc.set h.connections token ⟨token, pluginId, serviceId, s.stamp⟩ } where
  registry    := hk.registry
  connections := Assoc.nodup_set hk.connections
  key         := hk.key
  stamp       := hk.stamp
  opened      := by
    intro e he
    rcases Assoc.mem_set he with rfl | he
    · exact hk.stamp _ <| Assoc.mem_of_get hs
    · exact hk.opened e he
  provider    := hk.provider
  consumer    := by
    intro e he
    rcases Assoc.mem_set he with rfl | he
    · exact hp
    · exact hk.consumer e he

theorem Kept.removeService (hk : Kept h) : Kept (h.kernelServiceRemoveService serviceId pluginId) := by
  rw [kernelServiceRemoveService]
  split
  case h_1 => exact hk
  case h_2 =>
    split
    case isTrue  => exact hk
    case isFalse =>
      exact hk.sub List.filter_sublist List.filter_sublist h.frames
        (fun e he => hk.provider e (List.mem_filter.mp he).left)
        (fun e he => hk.consumer e (List.mem_filter.mp he).left)

theorem Kept.removeConnection (hk : Kept h) :
    Kept (h.kernelServiceRemoveConnection pluginId connectionId) := by
  rw [kernelServiceRemoveConnection]
  split
  case isFalse => exact hk
  case isTrue  =>
    exact hk.sub (List.Sublist.refl _) List.filter_sublist h.frames hk.provider
      (fun e he => hk.consumer e (List.mem_filter.mp he).left)

theorem Kept.frames (hk : Kept h) {v : Bool} :
    Kept { h with frames := Assoc.set h.frames pluginId v } := by
  have hsome {l : String} (hl : (Assoc.get h.frames l).isSome) :
      (Assoc.get (Assoc.set h.frames pluginId v) l).isSome := by
    by_cases heq : l = pluginId
    case pos => simp [heq]
    case neg => rwa [Assoc.get_set_of_ne heq]
  exact hk.sub (List.Sublist.refl _) (List.Sublist.refl _) _ (fun e he => hsome <| hk.provider e he)
    (fun e he => hsome <| hk.consumer e he)

-- What is left when a plugin has gone.
def without (h : ServiceHost) (pluginId : String) : ServiceHost :=
  { h with
    frames      := Assoc.delete h.frames pluginId
    registry    := h.registry.filter fun e => e.snd.entry.providerPluginId ≠ pluginId
    connections := h.connections.filter fun e => e.snd.consumerPluginId ≠ pluginId
  }

-- The services have gone before their connections are looked for, so all of these stay.
theorem finalizeFrameRemovalNow_eq (hp : (Assoc.get h.frames pluginId).isSome) :
    h.step (.finalizeFrameRemovalNow pluginId) = h.without pluginId := by
  have hall : (h.connections.filter fun c =>
      !(Assoc.get (h.registry.filter fun e => e.snd.entry.providerPluginId ≠ pluginId) c.snd.serviceId).any
        fun s => s.entry.providerPluginId = pluginId) = h.connections := by
    apply List.filter_eq_self.mpr
    intro c _
    cases hget : Assoc.get (h.registry.filter fun e => e.snd.entry.providerPluginId ≠ pluginId) c.snd.serviceId
    case none   => rfl
    case some s =>
      have hne := of_decide_eq_true (List.mem_filter.mp <| Assoc.mem_of_get hget).right
      simp [hne]
  simp only [step, hp, if_true, kernelServiceRemoveByPlugin, kernelServiceRemoveByConsumer, without]
  rw [hall]

theorem Kept.without (hk : Kept h) : Kept (h.without pluginId) := by
  refine hk.sub List.filter_sublist List.filter_sublist _ (fun e he => ?_) (fun e he => ?_)
  · have ⟨hmem, hne⟩ := List.mem_filter.mp he
    rw [Assoc.get_delete_of_ne <| of_decide_eq_true hne]
    exact hk.provider e hmem
  · have ⟨hmem, hne⟩ := List.mem_filter.mp he
    rw [Assoc.get_delete_of_ne <| of_decide_eq_true hne]
    exact hk.consumer e hmem

theorem Kept.handle (hk : Kept h) (hp : (Assoc.get h.frames pluginId).isSome) {r : ServiceRequest}
    (hok : handle h pluginId granted r = .ok (reply, h')) : Kept h' := by
  cases r
  case provide params =>
    have ⟨entry, hprovider, hr⟩ := provide_eq_ok hok
    exact hk.register hr <| hprovider ▸ hp
  case unprovide params =>
    have ⟨serviceId, heq⟩ := unprovide_eq_ok hok
    exact heq ▸ hk.removeService
  case connect params token =>
    have ⟨serviceId, s, hs, _, heq⟩ := connect_eq_ok hok
    exact heq ▸ hk.connect hs hp
  case disconnect params =>
    have ⟨connectionId, heq⟩ := disconnect_eq_ok hok
    exact heq ▸ hk.removeConnection

theorem Kept.step (hk : Kept h) (e : Event) : Kept (h.step e) := by
  cases e
  case createFrame pluginId =>
    rw [ServiceHost.step]
    split
    case isTrue  => exact hk
    case isFalse => exact hk.frames
  case session pluginId alive =>
    rw [ServiceHost.step]
    split
    case isTrue  => exact hk.frames
    case isFalse => exact hk
  case request pluginId granted r =>
    rw [ServiceHost.step]
    split
    case isFalse     => exact hk
    case isTrue hp =>
      split
      case h_1 hok => exact hk.handle (isAlive_isSome hp) hok
      case h_2     => exact hk
  case finalizeFrameRemovalNow pluginId =>
    by_cases hp : (Assoc.get h.frames pluginId).isSome
    case pos => exact finalizeFrameRemovalNow_eq hp ▸ hk.without
    case neg => simpa [ServiceHost.step, hp] using hk

end Kept

section Linked

-- All that may fail is that each connection still has what it has been opened against.
theorem Kept.linked_iff (hk : Kept h) : Linked h ↔ ∀ e ∈ h.connections, h.isLive e.snd := by
  constructor
  case mp  => exact fun hl => hl.live
  case mpr =>
    intro hlive
    have hall : h.liveConnections = h.connections.map (·.snd) := by
      apply List.filter_eq_self.mpr
      intro c hc
      obtain ⟨e, he, rfl⟩ := List.mem_map.mp hc
      exact hlive e he
    constructor
    case live     => exact hlive
    case consumer => exact hk.consumer
    case provider => exact fun e _ s hs => hk.provider _ <| Assoc.mem_of_get hs
    case distinct =>
      intro e he f hf heq
      have hkey : e.fst = f.fst := (hk.key e he).trans <| heq.trans (hk.key f hf).symm
      have hget := Assoc.get_of_mem hk.registry (k := e.fst) (v := e.snd) he
      rw [hkey, Assoc.get_of_mem hk.registry (k := f.fst) (v := f.snd) hf] at hget
      exact Option.some.inj hget ▸ rfl
    case quota    =>
      intro pluginId granted params token e herr hcode
      have hcount : (h.liveConnections.filter (·.consumerPluginId = pluginId)).length =
          h.kernelServiceConnectionCount pluginId := by
        rw [hall, kernelServiceConnectionCount, List.filter_map, List.length_map]
        rfl
      rw [hcount, hall, List.length_map]
      exact connect_quota herr hcode

theorem isLive_iff : h.isLive c ↔ ∃ s, Assoc.get h.registry c.serviceId = some s ∧ s.stamp = c.opened := by
  cases hget : Assoc.get h.registry c.serviceId
  case none   => simp [isLive, hget]
  case some s => simp [isLive, hget]

theorem live_register (hlive : ∀ e ∈ h.connections, h.isLive e.snd)
    (hr : h.kernelServiceRegister entry = some h') : ∀ e ∈ h'.connections, h'.isLive e.snd := by
  rw [kernelServiceRegister] at hr
  split at hr
  case isTrue      => cases hr
  case isFalse hno =>
    cases hr
    intro e he
    obtain ⟨s, hs, hstamp⟩ := isLive_iff.mp <| hlive e he
    have hne : e.snd.serviceId ≠ entry.serviceId := fun heq => hno <| heq ▸ Option.isSome_iff_exists.mpr ⟨s, hs⟩
    exact isLive_iff.mpr ⟨s, (Assoc.get_set_of_ne hne).trans hs, hstamp⟩

theorem live_removeService (hlive : ∀ e ∈ h.connections, h.isLive e.snd) :
    ∀ e ∈ (h.kernelServiceRemoveService serviceId pluginId).connections,
      (h.kernelServiceRemoveService serviceId pluginId).isLive e.snd := by
  rw [kernelServiceRemoveService]
  split
  case h_1 => exact hlive
  case h_2 =>
    split
    case isTrue  => exact hlive
    case isFalse =>
      intro e he
      have ⟨hmem, hne⟩     := List.mem_filter.mp he
      have ⟨s, hs, hstamp⟩ := isLive_iff.mp <| hlive e hmem
      exact isLive_iff.mpr ⟨s, (Assoc.get_delete_of_ne <| of_decide_eq_true hne).trans hs, hstamp⟩

theorem live_handle (hlive : ∀ e ∈ h.connections, h.isLive e.snd) {r : ServiceRequest}
    (hok : handle h pluginId granted r = .ok (reply, h')) : ∀ e ∈ h'.connections, h'.isLive e.snd := by
  cases r
  case provide params =>
    have ⟨entry, _, hr⟩ := provide_eq_ok hok
    exact live_register hlive hr
  case unprovide params =>
    have ⟨serviceId, heq⟩ := unprovide_eq_ok hok
    exact heq ▸ live_removeService hlive
  case connect params token =>
    have ⟨serviceId, s, hs, _, heq⟩ := connect_eq_ok hok
    subst heq
    intro e he
    rcases Assoc.mem_set he with rfl | he
    · exact isLive_iff.mpr ⟨s, hs, rfl⟩
    · exact hlive e he
  case disconnect params =>
    have ⟨connectionId, heq⟩ := disconnect_eq_ok hok
    subst heq
    rw [kernelServiceRemoveConnection]
    split
    case isFalse => exact hlive
    case isTrue  => exact fun e he => hlive e (List.mem_filter.mp he).left

theorem live_without_iff (hk : Kept h) (hlive : ∀ e ∈ h.connections, h.isLive e.snd) :
    (∀ e ∈ (h.without pluginId).connections, (h.without pluginId).isLive e.snd) ↔
    ∀ e ∈ h.connections, e.snd.consumerPluginId ≠ pluginId →
      ∀ s ∈ Assoc.get h.registry e.snd.serviceId, s.entry.providerPluginId ≠ pluginId := by
  have hget (serviceId : String) : Assoc.get (h.without pluginId).registry serviceId =
      (Assoc.get h.registry serviceId).filter (·.entry.providerPluginId ≠ pluginId) :=
    Assoc.get_filter_snd (p := fun s : Registered => decide (s.entry.providerPluginId ≠ pluginId)) hk.registry
  constructor
  case mp =>
    intro h' e he hne s hs heq
    have ⟨t, ht, _⟩ := isLive_iff.mp <| h' e <| List.mem_filter.mpr ⟨he, decide_eq_true hne⟩
    rw [hget, Option.mem_def.mp hs] at ht
    simp [Option.filter, heq] at ht
  case mpr =>
    intro h' e he
    have ⟨hmem, hne⟩     := List.mem_filter.mp he
    have ⟨s, hs, hstamp⟩ := isLive_iff.mp <| hlive e hmem
    refine isLive_iff.mpr ⟨s, ?_, hstamp⟩
    have hother := h' e hmem (of_decide_eq_true hne) s hs
    simp [hget, hs, Option.filter, hother]

theorem Kept.step_linked_iff (hk : Kept h) (hl : Linked h) (e : Event) :
    Linked (h.step e) ↔ Disconnected h e := by
  rw [(hk.step e).linked_iff]
  have hlive := hl.live
  cases e
  case createFrame pluginId =>
    refine iff_of_true ?_ trivial
    rw [ServiceHost.step]
    split
    case isTrue  => exact hlive
    case isFalse => exact hlive
  case session pluginId alive =>
    refine iff_of_true ?_ trivial
    rw [ServiceHost.step]
    split
    case isTrue  => exact hlive
    case isFalse => exact hlive
  case request pluginId granted r =>
    refine iff_of_true ?_ trivial
    rw [ServiceHost.step]
    split
    case isFalse => exact hlive
    case isTrue  =>
      split
      case h_1 hok => exact live_handle hlive hok
      case h_2     => exact hlive
  case finalizeFrameRemovalNow pluginId =>
    by_cases hp : (Assoc.get h.frames pluginId).isSome
    case pos =>
      rw [finalizeFrameRemovalNow_eq hp, live_without_iff hk hlive, Disconnected]
      exact ⟨fun h _ => h, fun h => h hp⟩
    case neg =>
      refine iff_of_true ?_ fun h => absurd h hp
      simpa [ServiceHost.step, hp] using hlive

-- The links hold throughout a run exactly if no provider goes while others are connected to it.
theorem linked_throughout_iff (es : List Event) : Runs.Throughout step Linked {} es ↔
    Runs.Meets step Disconnected {} es := by
  have hstart : Linked {} := Kept.start.linked_iff.mpr fun _ he => by cases he
  have hinv (h : ServiceHost) (e : Event) (hk : Kept h) : Kept (step h e) := hk.step e
  have hstep (h : ServiceHost) (e : Event) (hk : Kept h) (hl : Linked h) :
      Linked (step h e) ↔ Disconnected h e := hk.step_linked_iff hl e
  exact Runs.throughout_iff_meets hinv hstep Kept.start hstart

-- The connection that another plugin has opened stays when the frame of the provider is removed.
theorem connection_dangles : ¬∀ es, Runs.Throughout step Linked {} es := by
  intro h
  let methods : Value := .array [.string "say"]
  have hlinked := (h [.createFrame "a", .session "a" true, .createFrame "b", .session "b" true,
    .request "a" true <| .provide <| .object [("name", .string "greet"), ("methods", methods)],
    .request "b" true <| .connect (.object [("serviceId", .string "a.greet")]) "conn-1",
    .finalizeFrameRemovalNow "a"]).last
  have hlive := hlinked.live ("conn-1", ⟨"conn-1", "b", "a.greet", 0⟩) (by decide +kernel)
  revert hlive
  decide +kernel

end Linked

end ServiceHost
end Frontend
