import NeoTavern.Lib.Proc
import NeoTavern.Lib.Runs
import NeoTavern.Frontend.Registrations

namespace Frontend

-- What a request is to register, whether or not the table takes it.
def RegistrationRequest.requested (plugin : InstalledPlugin) :
    RegistrationRequest → Option PluginUiRegistration
  | .commandsRegister granted params       => (Commands.commandRegistration plugin granted params).toOption
  | .surfacesRegister granted params token =>
    (Commands.surfaceRegistration plugin granted params token).toOption
  | .registerRenderer granted params       => (Blocks.rendererRegistration plugin granted params).toOption
  | .register message                      => sanitizeRegistration plugin message
  | _                                      => none

-- What a request is to take out of the table.
def RegistrationRequest.withdrawn (h : RegistrationHost) (plugin : InstalledPlugin) :
    RegistrationRequest → Option String
  | .commandsUnregister granted params   => (Commands.commandUnregistered granted params).toOption
  | .surfacesUnregister granted params   => (Commands.surfaceUnregistered granted params).toOption
  | .unregisterRenderer _ params         =>
    (Blocks.rendererUnregistered (h.renderersOf plugin.id) params).map (·.rendererId)
  | .unregister registrationId           => some registrationId
  | _                                    => none

-- The second version of the interface puts a registration in the place of another one.
def RegistrationRequest.overwrites : RegistrationRequest → Bool
  | .register _ => true
  | _           => false

namespace RegistrationHost

variable {h h' : RegistrationHost} {plugin : InstalledPlugin} {r : RegistrationRequest}

-- What a request that is carried out makes of the table.
inductive Change (h : RegistrationHost) (plugin : InstalledPlugin) (r : RegistrationRequest)
    (table : List (String × PluginUiRegistration)) : Prop
  | adds (registration : PluginUiRegistration) (hr : r.requested plugin = some registration)
    (hid : registration.pluginId = plugin.id) (hover : r.overwrites = false)
    (htable : table = (h.kernelAddRegistration registration).registrations)
  | overwrites (registration : PluginUiRegistration) (hr : r.requested plugin = some registration)
    (hid : registration.pluginId = plugin.id) (hover : r.overwrites = true)
    (htable : table = Assoc.set h.registrations registration.registrationId registration)
  | removes (registrationId : String) (hr : r.requested plugin = none)
    (hw : r.withdrawn h plugin = some registrationId)
    (htable : table = Assoc.delete h.registrations registrationId)
  | keeps (hr : r.requested plugin = none) (hw : r.withdrawn h plugin = none)
    (htable : table = h.registrations)

theorem Change.nodup {table : List (String × PluginUiRegistration)} (hc : Change h plugin r table)
    (hn : (h.registrations.map (·.fst)).Nodup) : (table.map (·.fst)).Nodup := by
  cases hc
  case adds registration _ _ _ htable =>
    rw [htable, kernelAddRegistration]
    split
    case isTrue  => exact hn
    case isFalse => exact Assoc.nodup_set hn
  case overwrites htable => exact htable ▸ Assoc.nodup_set hn
  case removes htable    => exact htable ▸ Assoc.nodup_delete hn
  case keeps htable      => exact htable ▸ hn

theorem commandRegistration_pluginId
    (hok : Commands.commandRegistration plugin granted params = .ok registration) :
    registration.pluginId = plugin.id := by
  have ⟨_, _, hok⟩ := Except.bind_eq_ok.mp hok
  have ⟨_, _, hok⟩ := Except.bind_eq_ok.mp hok
  have ⟨_, _, hok⟩ := Except.bind_eq_ok.mp hok
  have ⟨_, _, hok⟩ := Except.bind_eq_ok.mp hok
  have ⟨_, _, hok⟩ := Except.bind_eq_ok.mp hok
  have ⟨_, _, hok⟩ := Except.bind_eq_ok.mp hok
  exact Except.pure_eq_ok.mp hok ▸ rfl

theorem surfaceRegistration_pluginId
    (hok : Commands.surfaceRegistration plugin granted params token = .ok registration) :
    registration.pluginId = plugin.id := by
  have ⟨_, _, hok⟩ := Except.bind_eq_ok.mp hok
  have ⟨_, _, hok⟩ := Except.bind_eq_ok.mp hok
  split at hok
  case h_2 => cases hok
  case h_1 =>
    split at hok
    case h_2 => cases hok
    case h_1 => exact Except.pure_eq_ok.mp hok ▸ rfl

theorem rendererRegistration_pluginId
    (hok : Blocks.rendererRegistration plugin granted params = .ok registration) :
    registration.pluginId = plugin.id := by
  have ⟨_, _, hok⟩ := Except.bind_eq_ok.mp hok
  split at hok
  case h_2 => cases hok
  case h_1 =>
    split at hok
    case h_2 => cases hok
    case h_1 => exact Except.pure_eq_ok.mp hok ▸ rfl

theorem sanitizeRegistration_pluginId (h : sanitizeRegistration plugin message = some registration) :
    registration.pluginId = plugin.id := by
  have ⟨_, _, h⟩ := Option.bind_eq_some_iff.mp h
  have ⟨_, _, h⟩ := Option.bind_eq_some_iff.mp h
  have ⟨_, _, h⟩ := Option.bind_eq_some_iff.mp h
  have ⟨_, _, h⟩ := Option.bind_eq_some_iff.mp h
  have ⟨_, _, h⟩ := Option.bind_eq_some_iff.mp h
  have ⟨_, _, h⟩ := Option.bind_eq_some_iff.mp h
  exact Option.some.inj h ▸ rfl

theorem kernelAddRegistration_frames {registration : PluginUiRegistration} :
    (h.kernelAddRegistration registration).frames = h.frames := by
  rw [kernelAddRegistration]
  split
  case isTrue  => rfl
  case isFalse => rfl

theorem handle_eq_some (hh : h.handle plugin r = some h') :
    h'.frames = h.frames ∧ Change h plugin r h'.registrations := by
  cases r
  case commandsRegister granted params =>
    have ⟨_, hok, heq⟩           := Option.map_eq_some_iff.mp hh
    have ⟨registration, hr, hok⟩ := Except.bind_eq_ok.mp <| Except.toOption_eq_some_iff.mp hok
    cases hok
    subst heq
    exact ⟨kernelAddRegistration_frames, .adds registration (Except.toOption_eq_some_iff.mpr hr)
      (commandRegistration_pluginId hr) rfl rfl⟩
  case commandsUnregister granted params =>
    have ⟨_, hok, heq⟩        := Option.map_eq_some_iff.mp hh
    have ⟨commandId, hr, hok⟩ := Except.bind_eq_ok.mp <| Except.toOption_eq_some_iff.mp hok
    cases hok
    subst heq
    exact ⟨rfl, .removes commandId rfl (Except.toOption_eq_some_iff.mpr hr) rfl⟩
  case surfacesRegister granted params token =>
    have ⟨_, hok, heq⟩           := Option.map_eq_some_iff.mp hh
    have ⟨registration, hr, hok⟩ := Except.bind_eq_ok.mp <| Except.toOption_eq_some_iff.mp hok
    cases hok
    subst heq
    exact ⟨kernelAddRegistration_frames, .adds registration (Except.toOption_eq_some_iff.mpr hr)
      (surfaceRegistration_pluginId hr) rfl rfl⟩
  case surfacesUnregister granted params =>
    have ⟨_, hok, heq⟩        := Option.map_eq_some_iff.mp hh
    have ⟨surfaceId, hr, hok⟩ := Except.bind_eq_ok.mp <| Except.toOption_eq_some_iff.mp hok
    cases hok
    subst heq
    exact ⟨rfl, .removes surfaceId rfl (Except.toOption_eq_some_iff.mpr hr) rfl⟩
  case registerRenderer granted params =>
    have ⟨_, hok, heq⟩           := Option.map_eq_some_iff.mp hh
    have ⟨registration, hr, hok⟩ := Except.bind_eq_ok.mp <| Except.toOption_eq_some_iff.mp hok
    have ⟨_, hok⟩                := Except.guard_eq_ok.mp hok
    cases hok
    subst heq
    exact ⟨kernelAddRegistration_frames, .adds registration (Except.toOption_eq_some_iff.mpr hr)
      (rendererRegistration_pluginId hr) rfl rfl⟩
  case unregisterRenderer granted params =>
    have ⟨_, hok, heq⟩ := Option.map_eq_some_iff.mp hh
    have ⟨_, _, hok⟩   := Except.bind_eq_ok.mp <| Except.toOption_eq_some_iff.mp hok
    dsimp only at hok
    split at hok
    case h_1 hnone       =>
      cases hok
      subst heq
      exact ⟨rfl, .keeps rfl (by rw [RegistrationRequest.withdrawn, hnone]; rfl) rfl⟩
    case h_2 entry hsome =>
      cases hok
      subst heq
      exact ⟨rfl, .removes entry.rendererId rfl (by rw [RegistrationRequest.withdrawn, hsome]; rfl) rfl⟩
  case register message =>
    have ⟨registration, hr, hh⟩ := Option.bind_eq_some_iff.mp hh
    have ⟨_, _, hh⟩             := Option.bind_eq_some_iff.mp hh
    have ⟨_, _, hh⟩             := Option.bind_eq_some_iff.mp hh
    cases hh
    exact ⟨rfl, .overwrites registration hr (sanitizeRegistration_pluginId hr) rfl rfl⟩
  case unregister registrationId =>
    have ⟨_, _, hh⟩ := Option.bind_eq_some_iff.mp hh
    cases hh
    exact ⟨rfl, .removes registrationId rfl rfl rfl⟩

end RegistrationHost

-- The host, with what it has acknowledged to each plugin and what has not been withdrawn since.
structure RegistrationWorld where
  host         : RegistrationHost := {}
  acknowledged : List ((String × String) × PluginUiRegistration) := []
  deriving DecidableEq

namespace RegistrationWorld

inductive Event
  | createFrame (plugin : InstalledPlugin)
  | request (pluginId : String) (r : RegistrationRequest)
  | finalizeFrameRemovalNow (pluginId : String) (replacement : Option InstalledPlugin)

-- What the plugin may rely on after a request that has been carried out.
def acknowledge (w : RegistrationWorld) (plugin : InstalledPlugin) (r : RegistrationRequest) :
    List ((String × String) × PluginUiRegistration) :=
  match r.requested plugin with
  | some registration =>
    Assoc.set w.acknowledged (plugin.id, registration.registrationId) registration
  | none              =>
    match r.withdrawn w.host plugin with
    | some registrationId => Assoc.delete w.acknowledged (plugin.id, registrationId)
    | none                => w.acknowledged

def step (w : RegistrationWorld) : Event → RegistrationWorld
  | .createFrame plugin                            =>
    if (Assoc.get w.host.frames plugin.id).isSome then w else { w with host := w.host.createFrame plugin }
  | .request pluginId r                            =>
    match Assoc.get w.host.frames pluginId with
    | none        => w
    | some plugin =>
      match w.host.handle plugin r with
      | none    => w
      | some h' => ⟨h', w.acknowledge plugin r⟩
  | .finalizeFrameRemovalNow pluginId replacement =>
    if (Assoc.get w.host.frames pluginId).isSome then
      let h' := w.host.finalizeFrameRemovalNow pluginId
      {
        host         := replacement.elim h' h'.createFrame
        acknowledged := w.acknowledged.filter fun e => e.fst.fst ≠ pluginId
      }
    else
      w

-- What has been acknowledged stands in the table.
def Standing (w : RegistrationWorld) : Prop :=
  ∀ pluginId registrationId registration,
    Assoc.get w.acknowledged (pluginId, registrationId) = some registration →
    registration.pluginId = pluginId ∧ Assoc.get w.host.registrations registrationId = some registration

-- The entries of all plugins but one are the same in both tables.
def SameOthers (pluginId : String) (table table' : List (String × PluginUiRegistration)) : Prop :=
  ∀ registrationId registration, registration.pluginId ≠ pluginId →
    (Assoc.get table registrationId = some registration ↔ Assoc.get table' registrationId = some registration)

-- A request neither adds, nor overwrites, nor removes an entry of another plugin.
def Undisturbed (w : RegistrationWorld) : Event → Prop
  | .request pluginId r =>
    SameOthers pluginId w.host.registrations (w.step (.request pluginId r)).host.registrations
  | _                   => True

-- A request that is carried out names an id that nobody has, or that the plugin itself has. What does not
-- overwrite must find the very same registration there.
def Own (w : RegistrationWorld) : Event → Prop
  | .request pluginId r => ∀ plugin ∈ Assoc.get w.host.frames pluginId, (w.host.handle plugin r).isSome →
    match r.requested plugin with
    | some registration => ∀ held ∈ Assoc.get w.host.registrations registration.registrationId,
      if r.overwrites then held.pluginId = pluginId else held = registration
    | none              => ∀ registrationId ∈ r.withdrawn w.host plugin,
      ∀ held ∈ Assoc.get w.host.registrations registrationId, held.pluginId = pluginId
  | _                   => True

structure Kept (w : RegistrationWorld) : Prop where
  registrations : (w.host.registrations.map (·.fst)).Nodup
  frames        : ∀ pluginId plugin, Assoc.get w.host.frames pluginId = some plugin → plugin.id = pluginId

section Tables

variable {w : RegistrationWorld} {h' : RegistrationHost} {pluginId registrationId : String}
  {registration : PluginUiRegistration}

-- The plugin has been told of a registration that the table has.
theorem Standing.set (hs : Standing w) (hid : registration.pluginId = pluginId)
    (hget : Assoc.get h'.registrations registration.registrationId = some registration)
    (hother : ∀ l ≠ registration.registrationId,
      Assoc.get h'.registrations l = Assoc.get w.host.registrations l)
    (hheld : ∀ held ∈ Assoc.get w.host.registrations registration.registrationId,
      held.pluginId = pluginId) :
    Standing ⟨h', Assoc.set w.acknowledged (pluginId, registration.registrationId) registration⟩ := by
  intro p l r hr
  by_cases hp : (p, l) = (pluginId, registration.registrationId)
  case pos =>
    obtain ⟨rfl, rfl⟩ := Prod.mk.inj hp
    rw [Assoc.get_set_self] at hr
    cases hr
    exact ⟨hid, hget⟩
  case neg =>
    rw [Assoc.get_set_of_ne hp] at hr
    have ⟨hrp, hrl⟩ := hs p l r hr
    have hl : l ≠ registration.registrationId := by
      rintro rfl
      exact hp <| Prod.ext (hrp.symm.trans <| hheld r hrl) rfl
    exact ⟨hrp, (hother l hl).trans hrl⟩

theorem standing_adds_iff (hs : Standing w) (hid : registration.pluginId = pluginId)
    (htable : h'.registrations = (w.host.kernelAddRegistration registration).registrations) :
    Standing ⟨h', Assoc.set w.acknowledged (pluginId, registration.registrationId) registration⟩ ∧
      SameOthers pluginId w.host.registrations h'.registrations ↔
    ∀ held ∈ Assoc.get w.host.registrations registration.registrationId, held = registration := by
  rw [RegistrationHost.kernelAddRegistration] at htable
  split at htable
  case isTrue hsome =>
    constructor
    case mp  =>
      rintro ⟨hs', _⟩ held hheld
      have hget := (hs' _ _ _ Assoc.get_set_self).right
      rw [htable, Option.mem_def.mp hheld] at hget
      exact Option.some.inj hget
    case mpr =>
      intro hheld
      obtain ⟨held, hget⟩ := Option.isSome_iff_exists.mp hsome
      obtain rfl := hheld held hget
      refine ⟨hs.set hid (htable ▸ hget) (fun l _ => htable ▸ rfl) fun held' h => ?_, fun l r _ => htable ▸ .rfl⟩
      exact Option.some.inj (hget.symm.trans h) ▸ hid
  case isFalse hnone =>
    have hnone : Assoc.get w.host.registrations registration.registrationId = none := by simpa using hnone
    refine iff_of_true ⟨?_, ?_⟩ fun held h => by rw [hnone] at h; cases h
    · refine hs.set hid (htable ▸ Assoc.get_set_self) (fun l hl => htable ▸ Assoc.get_set_of_ne hl) ?_
      intro held h
      rw [hnone] at h
      cases h
    · intro l r hr
      rw [htable]
      by_cases hl : l = registration.registrationId
      case pos =>
        subst hl
        rw [hnone, Assoc.get_set_self]
        exact iff_of_false (by simp) fun h => hr <| Option.some.inj h ▸ hid
      case neg => rw [Assoc.get_set_of_ne hl]

theorem standing_overwrites_iff (hs : Standing w) (hid : registration.pluginId = pluginId)
    (htable : h'.registrations = Assoc.set w.host.registrations registration.registrationId registration) :
    Standing ⟨h', Assoc.set w.acknowledged (pluginId, registration.registrationId) registration⟩ ∧
      SameOthers pluginId w.host.registrations h'.registrations ↔
    ∀ held ∈ Assoc.get w.host.registrations registration.registrationId, held.pluginId = pluginId := by
  constructor
  case mp  =>
    intro ⟨_, hothers⟩ held hheld
    by_contra hne
    have hget := (hothers _ held hne).mp hheld
    rw [htable, Assoc.get_set_self] at hget
    exact hne <| Option.some.inj hget ▸ hid
  case mpr =>
    intro hheld
    constructor
    case left  => exact hs.set hid (htable ▸ Assoc.get_set_self) (fun l hl => htable ▸ Assoc.get_set_of_ne hl) hheld
    case right =>
      intro l r hr
      rw [htable]
      by_cases hl : l = registration.registrationId
      case pos =>
        subst hl
        rw [Assoc.get_set_self]
        exact iff_of_false (fun h => hr <| hheld r h) fun h => hr <| Option.some.inj h ▸ hid
      case neg => rw [Assoc.get_set_of_ne hl]

theorem standing_removes_iff (hs : Standing w)
    (htable : h'.registrations = Assoc.delete w.host.registrations registrationId) :
    Standing ⟨h', Assoc.delete w.acknowledged (pluginId, registrationId)⟩ ∧
      SameOthers pluginId w.host.registrations h'.registrations ↔
    ∀ held ∈ Assoc.get w.host.registrations registrationId, held.pluginId = pluginId := by
  constructor
  case mp  =>
    intro ⟨_, hothers⟩ held hheld
    by_contra hne
    have hget := (hothers _ held hne).mp hheld
    rw [htable, Assoc.get_delete_self] at hget
    cases hget
  case mpr =>
    intro hheld
    constructor
    case left  =>
      intro p l r hr
      have ⟨hmem, hne⟩ := Assoc.mem_delete.mp <| Assoc.mem_of_get hr
      rw [Assoc.get_delete_of_ne hne] at hr
      have ⟨hrp, hrl⟩ := hs p l r hr
      have hl : l ≠ registrationId := by
        rintro rfl
        exact hne <| Prod.ext (hrp.symm.trans <| hheld r hrl) rfl
      exact ⟨hrp, htable ▸ (Assoc.get_delete_of_ne hl).trans hrl⟩
    case right =>
      intro l r hr
      rw [htable]
      by_cases hl : l = registrationId
      case pos =>
        subst hl
        rw [Assoc.get_delete_self]
        exact iff_of_false (fun h => hr <| hheld r h) nofun
      case neg => rw [Assoc.get_delete_of_ne hl]

end Tables

section Steps

variable {w : RegistrationWorld} {h' : RegistrationHost} {plugin : InstalledPlugin} {r : RegistrationRequest}

-- What a request that is carried out does to the table and to what may be relied on.
theorem standing_request_iff (hs : Standing w) (hh : w.host.handle plugin r = some h') :
    Standing ⟨h', w.acknowledge plugin r⟩ ∧ SameOthers plugin.id w.host.registrations h'.registrations ↔
    match r.requested plugin with
    | some registration => ∀ held ∈ Assoc.get w.host.registrations registration.registrationId,
      if r.overwrites then held.pluginId = plugin.id else held = registration
    | none              => ∀ registrationId ∈ r.withdrawn w.host plugin,
      ∀ held ∈ Assoc.get w.host.registrations registrationId, held.pluginId = plugin.id := by
  cases (RegistrationHost.handle_eq_some hh).right
  case adds registration hr hid hover htable =>
    simp only [acknowledge, hr, hover, Bool.false_eq_true, if_false]
    exact standing_adds_iff hs hid htable
  case overwrites registration hr hid hover htable =>
    simp only [acknowledge, hr, hover, if_true]
    exact standing_overwrites_iff hs hid htable
  case removes registrationId hr hw htable =>
    simp only [acknowledge, hr, hw, Option.mem_some_iff, forall_eq']
    exact standing_removes_iff hs htable
  case keeps hr hw htable =>
    simp only [acknowledge, hr, hw]
    refine iff_of_true ⟨fun p l r hget => htable ▸ hs p l r hget, fun l r _ => htable ▸ .rfl⟩ ?_
    intro _ h
    cases h

theorem Kept.start : Kept {} :=
  ⟨List.nodup_nil, fun _ _ h => by cases h⟩

theorem Kept.created (hk : Kept w) {l : String} {other : InstalledPlugin}
    (hget : Assoc.get (w.host.createFrame plugin).frames l = some other) : other.id = l := by
  by_cases hl : l = plugin.id
  case pos =>
    subst hl
    exact congrArg InstalledPlugin.id (Option.some.inj <| Assoc.get_set_self.symm.trans hget).symm
  case neg => exact hk.frames l other <| (Assoc.get_set_of_ne hl).symm.trans hget

theorem Kept.step_iff (hk : Kept w) (hs : Standing w) (e : Event) :
    Standing (w.step e) ∧ w.Undisturbed e ↔ w.Own e := by
  cases e
  case createFrame plugin =>
    refine iff_of_true ⟨?_, trivial⟩ trivial
    rw [step]
    split
    case isTrue  => exact hs
    case isFalse => exact hs
  case request pluginId r =>
    rw [Undisturbed, Own, step]
    cases hget : Assoc.get w.host.frames pluginId
    case none => exact iff_of_true ⟨hs, fun _ _ _ => .rfl⟩ fun _ h => by cases h
    case some plugin =>
      have hid := hk.frames _ _ hget
      subst hid
      cases hh : w.host.handle plugin r
      case none =>
        simp only [hh]
        exact iff_of_true ⟨hs, fun _ _ _ => .rfl⟩ fun plugin' h => by cases h; simp [hh]
      case some h' =>
        simp only [hh]
        rw [standing_request_iff hs hh]
        exact ⟨fun h plugin' hp' _ => by cases hp'; exact h, fun h => h plugin rfl (by rw [hh]; rfl)⟩
  case finalizeFrameRemovalNow pluginId replacement =>
    refine iff_of_true ⟨?_, trivial⟩ trivial
    rw [step]
    split
    case isFalse => exact hs
    case isTrue  =>
      -- What is left has been acknowledged to others, and their entries stay.
      have hstands : Standing ⟨w.host.finalizeFrameRemovalNow pluginId,
          w.acknowledged.filter fun e => e.fst.fst ≠ pluginId⟩ := by
        intro p l r hr
        have hacknowledged := Assoc.get_filter (m := w.acknowledged) (k := (p, l))
          (p := fun k => decide (k.fst ≠ pluginId))
        replace hr := hacknowledged.symm.trans hr
        split at hr
        case isFalse   => cases hr
        case isTrue hp =>
          obtain ⟨hrp, hrl⟩ := hs p l r hr
          refine ⟨hrp, ?_⟩
          have hget := Assoc.get_filter_snd (k := l)
            (p := fun r : PluginUiRegistration => decide (r.pluginId ≠ pluginId)) hk.registrations
          rw [hrl] at hget
          refine hget.trans ?_
          simpa [Option.filter, hrp] using hp
      cases replacement
      case none => exact hstands
      case some => exact hstands

theorem Kept.step (hk : Kept w) (e : Event) : Kept (w.step e) := by
  cases e
  case createFrame plugin =>
    rw [RegistrationWorld.step]
    split
    case isTrue  => exact hk
    case isFalse => exact ⟨hk.registrations, fun _ _ hget => hk.created hget⟩
  case request pluginId r =>
    rw [RegistrationWorld.step]
    split
    case h_1 => exact hk
    case h_2 =>
      split
      case h_1       => exact hk
      case h_2 h' hh =>
        obtain ⟨hframes, hchange⟩ := RegistrationHost.handle_eq_some hh
        exact ⟨hchange.nodup hk.registrations, hframes ▸ hk.frames⟩
  case finalizeFrameRemovalNow pluginId replacement =>
    rw [RegistrationWorld.step]
    split
    case isFalse => exact hk
    case isTrue  =>
      have hremoved : Kept ⟨w.host.finalizeFrameRemovalNow pluginId,
          w.acknowledged.filter fun e => e.fst.fst ≠ pluginId⟩ := by
        refine ⟨hk.registrations.sublist <| List.filter_sublist.map _, fun l plugin hget => ?_⟩
        obtain ⟨hmem, hne⟩ := Assoc.mem_delete.mp <| Assoc.mem_of_get hget
        exact hk.frames l plugin <| (Assoc.get_delete_of_ne hne).symm.trans hget
      cases replacement
      case none             => exact hremoved
      case some replacement => exact ⟨hremoved.registrations, fun _ _ hget => hremoved.created hget⟩

end Steps

-- Every registration stands, and no plugin touches those of another one, exactly if each plugin names its own.
theorem standing_throughout_iff (es : List Event) :
    Runs.Throughout step Standing {} es ∧ Runs.Meets step Undisturbed {} es ↔ Runs.Meets step Own {} es := by
  have hstart : Standing {} := fun _ _ _ h => by cases h
  have hinv (w : RegistrationWorld) (e : Event) (hk : Kept w) : Kept (step w e) := hk.step e
  have hstep (w : RegistrationWorld) (e : Event) (hk : Kept w) (hs : Standing w) :
      Standing (step w e) ∧ Undisturbed w e ↔ Own w e := hk.step_iff hs e
  exact Runs.throughout_and_meets_iff hinv hstep Kept.start hstart

-- Another plugin takes a command away by its id.
theorem command_taken_away :
    ¬∀ es, Runs.Throughout step Standing {} es ∧ Runs.Meets step Undisturbed {} es := by
  intro h
  let command : Value := .object [("id", .string "go"), ("title", .string "Go")]
  let registration : PluginUiRegistration :=
    ⟨"a", "A", "cmd:go", .commands, some false, { id := "go", title := "Go" }⟩
  have hs := (h [.createFrame { id := "a", name := "A" }, .createFrame { id := "b", name := "B" },
    .request "a" <| .commandsRegister true command,
    .request "b" <| .commandsUnregister true <| .object [("commandId", .string "cmd:go")]]).left.last
  have hstands := hs "a" "cmd:go" registration (by decide +kernel)
  revert hstands
  decide +kernel

end RegistrationWorld
end Frontend
