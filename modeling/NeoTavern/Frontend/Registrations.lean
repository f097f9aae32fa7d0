import NeoTavern.Frontend.Request
import Mathlib

namespace Frontend

open Wire (utf16Length)

inductive PluginRegistrationKind
  | messageActions
  | toolbarActions
  | pages
  | settingsPanels
  | sidebarPanels
  | contextMenuItems
  | messageRenderers
  | characterTabs
  | dialogs
  | commands
  | hotkeys
  | slash
  | interceptors
  | slots
  | overlays
  | messageBlocks
  deriving DecidableEq

namespace PluginRegistrationKind

def text : PluginRegistrationKind → String
  | messageActions   => "messageActions"
  | toolbarActions   => "toolbarActions"
  | pages            => "pages"
  | settingsPanels   => "settingsPanels"
  | sidebarPanels    => "sidebarPanels"
  | contextMenuItems => "contextMenuItems"
  | messageRenderers => "messageRenderers"
  | characterTabs    => "characterTabs"
  | dialogs          => "dialogs"
  | commands         => "commands"
  | hotkeys          => "hotkeys"
  | slash            => "slash"
  | interceptors     => "interceptors"
  | slots            => "slots"
  | overlays         => "overlays"
  | messageBlocks    => "messageBlocks"

-- What a text stands for among some kinds.
def ofText? (kinds : List PluginRegistrationKind) (s : String) : Option PluginRegistrationKind :=
  kinds.find? (·.text = s)

def registrationKinds : List PluginRegistrationKind :=
  [messageActions, toolbarActions, pages, settingsPanels, sidebarPanels, contextMenuItems, messageRenderers,
    characterTabs, dialogs, commands, hotkeys, slash, interceptors, slots]

def surfaceKinds : List PluginRegistrationKind :=
  [toolbarActions, messageActions, contextMenuItems, sidebarPanels, characterTabs, dialogs, pages,
    settingsPanels, slash, hotkeys, messageRenderers, commands]

def requiredPermission : PluginRegistrationKind → Option String
  | messageActions   => some "ui.messageActions"
  | toolbarActions   => some "ui.toolbar"
  | pages            => some "ui.shell"
  | settingsPanels   => some "ui.sidebar"
  | sidebarPanels    => some "ui.sidebar"
  | contextMenuItems => some "ui.messageActions"
  | messageRenderers => some "chat.read"
  | characterTabs    => some "characters.read"
  | dialogs          => some "ui.shell"
  | commands         => some "ui.toolbar"
  | hotkeys          => some "ui.toolbar"
  | slash            => some "chat.write"
  | interceptors     => some "prompt.modify"
  | slots            => some "ui.slots"
  | _                => none

end PluginRegistrationKind

inductive RegistrationAction
  | command (commandId : String)
  | event (event : String)
  deriving DecidableEq

structure RegistrationDefinition where
  id          : String
  title       : String
  path        : Option String := none
  slot        : Option String := none
  context     : Option String := none
  combo       : Option String := none
  icon        : Option String := none
  description : Option String := none
  placement   : Option String := none
  permission  : Option String := none
  priority    : Option Rat := none
  timeoutMs   : Option Rat := none
  order       : Option Rat := none
  action      : Option RegistrationAction := none
  deriving DecidableEq

structure PluginUiRegistration where
  pluginId       : String
  pluginName     : String
  registrationId : String
  kind           : PluginRegistrationKind
  kernel         : Option Bool := none
  definition     : RegistrationDefinition
  deriving DecidableEq

structure BlockRendererEntry where
  rendererId : String
  blockType  : String
  title      : String
  deriving DecidableEq

-- The frames there are, the table of registrations, and for each plugin its renderers by block type.
structure RegistrationHost where
  frames        : List (String × InstalledPlugin) := []
  registrations : List (String × PluginUiRegistration) := []
  renderers     : List (String × List (String × BlockRendererEntry)) := []
  deriving DecidableEq

namespace RegistrationHost

variable (h : RegistrationHost)

-- An id that is taken stays with what has it.
def kernelAddRegistration (registration : PluginUiRegistration) : RegistrationHost :=
  if (Assoc.get h.registrations registration.registrationId).isSome then
    h
  else
    { h with registrations := Assoc.set h.registrations registration.registrationId registration }

def kernelRemoveRegistration (registrationId : String) : RegistrationHost :=
  { h with registrations := Assoc.delete h.registrations registrationId }

end RegistrationHost

namespace Commands

def failParams (method reason : String) (extra : List (String × Detail) := []) : KernelError :=
  ⟨.validationFailed, ("method", .text method) :: ("reason", .text reason) :: extra⟩

def paramsRecord (method : String) (params : Value) : Except KernelError (List (String × Value)) :=
  match params with
  | .object record => return record
  | _              => throw <| failParams method "params-not-object"

def requiredString (record : List (String × Value)) (key method : String) : Except KernelError String :=
  match field record key with
  | .string value =>
    if value = "" || utf16Length value > 500 then
      throw <| failParams method "invalid-field" [("field", .text key)]
    else
      return value
  | _             => throw <| failParams method "invalid-field" [("field", .text key)]

def requireCapability (granted : Bool) (capability method : String) : Except KernelError Unit :=
  if granted then
    return ()
  else
    throw <| denied capability [("method", .text method)]

def optionalText (record : List (String × Value)) (key method : String) :
    Except KernelError (Option String) :=
  match field record key with
  | .undefined    => return none
  | .null         => return none
  | .string value => return some value
  | _             => throw <| failParams method "invalid-field" [("field", .text key)]

def surfaceDefinition (surfaceId : String) (raw : List (String × Value)) : RegistrationDefinition :=
  let text (key : String) := (field raw key).string?
  {
    id          := surfaceId
    title       := ((text "title").filter (· ≠ "")).getD surfaceId
    path        := text "path"
    slot        := text "slot"
    context     := text "context"
    combo       := text "combo"
    icon        := text "icon"
    description := text "description"
    placement   := text "placement"
    priority    := (field raw "priority").number?
    timeoutMs   := (field raw "timeoutMs").number?
    order       := (field raw "order").boundedInteger? 10000
  }

-- What `commands.register` registers.
def commandRegistration (plugin : InstalledPlugin) (granted : Bool) (params : Value) :
    Except KernelError PluginUiRegistration := do
  let method := "commands.register"
  requireCapability granted "ui.commands" method
  let record ← paramsRecord method params
  let id ← requiredString record "id" method
  let title ← requiredString record "title" method
  let description ← optionalText record "description" method
  let _ ← optionalText record "category" method
  return {
    pluginId       := plugin.id
    pluginName     := plugin.name
    registrationId := "cmd:" ++ id
    kind           := .commands
    kernel         := some (field record "kernel").isTrue
    definition     := { id, title, description := description.filter (· ≠ "") }
  }

-- `token` is the random one of the new surface.
def surfaceRegistration (plugin : InstalledPlugin) (granted : Bool) (params : Value) (token : String) :
    Except KernelError PluginUiRegistration := do
  let method := "surfaces.register"
  requireCapability granted "ui.surfaces" method
  let record ← paramsRecord method params
  let some kind := (field record "kind").string?.bind <| PluginRegistrationKind.ofText? PluginRegistrationKind.surfaceKinds
    | throw <| failParams method "invalid-field" [("field", .text "kind")]
  let some raw := (field record "definition").record?
    | throw <| failParams method "invalid-field" [("field", .text "definition")]
  let registrationId := "surf:" ++ token
  return {
    pluginId       := plugin.id
    pluginName     := plugin.name
    registrationId, kind
    kernel         := some (field record "kernel").isTrue
    definition     := surfaceDefinition registrationId raw
  }

-- What `commands.unregister` and `surfaces.unregister` are to remove.
def unregistered (capability method key : String) (granted : Bool) (params : Value) :
    Except KernelError String := do
  requireCapability granted capability method
  let record ← paramsRecord method params
  requiredString record key method

def commandUnregistered : Bool → Value → Except KernelError String :=
  unregistered "ui.commands" "commands.unregister" "commandId"

def surfaceUnregistered : Bool → Value → Except KernelError String :=
  unregistered "ui.surfaces" "surfaces.unregister" "surfaceId"

end Commands

namespace Blocks

def maxBlockTypeLength : Nat :=
  100

def maxTitleLength : Nat :=
  200

def maxRendererIdLength : Nat :=
  4 + maxBlockTypeLength

def boundedString (value : Value) (max : Nat) : Option String :=
  value.string?.filter fun s => s ≠ "" ∧ utf16Length s ≤ max

-- The field of what should be a record.
def param (params : Value) (key : String) : Value :=
  (params.record?.map fun record => field record key).getD .undefined

def requireCapability (granted : Bool) : Except KernelError Unit :=
  if granted then
    return ()
  else
    throw <| denied "ui.messageBlock"

-- What `blocks.registerRenderer` registers.
def rendererRegistration (plugin : InstalledPlugin) (granted : Bool) (params : Value) :
    Except KernelError PluginUiRegistration := do
  requireCapability granted
  let invalid : KernelError :=
    ⟨.validationFailed, [("method", .text "blocks.registerRenderer"), ("reason", .text "invalid-params")]⟩
  let some blockType := boundedString (param params "blockType") maxBlockTypeLength | throw invalid
  let some title := boundedString (param params "title") maxTitleLength | throw invalid
  return {
    pluginId       := plugin.id
    pluginName     := plugin.name
    registrationId := "blk:" ++ blockType
    kind           := .messageBlocks
    definition     := { id := blockType, title }
  }

-- The renderer of the plugin that the parameters name.
def rendererUnregistered (byPlugin : List (String × BlockRendererEntry)) (params : Value) :
    Option BlockRendererEntry := do
  let rendererId ← boundedString (param params "rendererId") maxRendererIdLength
  (byPlugin.map (·.snd)).find? (·.rendererId = rendererId)

end Blocks

-- A message of the second version of the interface. An id that is missing is the empty one.
structure SandboxMessage where
  registrationId : String := ""
  kind           : String := ""
  definition     : Value := .undefined

def optionalSafeString (value : Value) (maxLength : Nat) : Option String :=
  value.string?.filter fun s => s ≠ "" ∧ utf16Length s ≤ maxLength

def registrationAction (action : Value) : Option RegistrationAction := do
  let record ← action.record?
  let type ← (field record "type").string?
  if type = "command" then
    .command <$> optionalSafeString (field record "commandId") 200
  else if type = "event" then
    .event <$> optionalSafeString (field record "event") 200
  else
    none

def isSafePath (path : String) : Bool :=
  path.toList.head? = some '/' ∧ ¬['.', '.'] <:+: path.toList ∧ '\\' ∉ path.toList

def sanitizeRegistration (plugin : InstalledPlugin) (message : SandboxMessage) :
    Option PluginUiRegistration := do
  guard <| message.registrationId ≠ ""
  let kind ← PluginRegistrationKind.ofText? PluginRegistrationKind.registrationKinds message.kind
  let definition ← message.definition.record?
  let id ← optionalSafeString (field definition "id") 160
  let title ← optionalSafeString (field definition "title") 200
  let path := optionalSafeString (field definition "path") 300
  guard <| kind ≠ .pages || path.any isSafePath
  return {
    pluginId       := plugin.id
    pluginName     := plugin.name
    registrationId := message.registrationId
    kind
    definition     := {
      id, title, path
      slot        := optionalSafeString (field definition "slot") 32
      context     := optionalSafeString (field definition "context") 20
      combo       := optionalSafeString (field definition "combo") 100
      icon        := optionalSafeString (field definition "icon") 100
      description := optionalSafeString (field definition "description") 500
      placement   := optionalSafeString (field definition "placement") 20
      permission  := optionalSafeString (field definition "permission") 64
      action      := registrationAction (field definition "action")
      priority    := (field definition "priority").boundedInteger? 60000
      timeoutMs   := (field definition "timeoutMs").boundedInteger? 60000
      order       := (field definition "order").boundedInteger? 10000
    }
  }

def permissionAllows (plugin : InstalledPlugin) (kind : PluginRegistrationKind) : Bool :=
  kind.requiredPermission.all fun permission => permission ∈ plugin.grantedPermissions

-- What a plugin may say of the table. It may be granted and refused a capability at any time.
inductive RegistrationRequest
  | commandsRegister (granted : Bool) (params : Value)
  | commandsUnregister (granted : Bool) (params : Value)
  | surfacesRegister (granted : Bool) (params : Value) (token : String)
  | surfacesUnregister (granted : Bool) (params : Value)
  | registerRenderer (granted : Bool) (params : Value)
  | unregisterRenderer (granted : Bool) (params : Value)
  | register (message : SandboxMessage)
  | unregister (registrationId : String)

inductive RegistrationReply
  | command (commandId : String)
  | surface (surfaceId registrationId : String)
  | renderer (rendererId : String)
  | done
  deriving DecidableEq

namespace RegistrationHost

variable (h : RegistrationHost) (plugin : InstalledPlugin)

def renderersOf (pluginId : String) : List (String × BlockRendererEntry) :=
  (Assoc.get h.renderers pluginId).getD []

def commandsRegister (granted : Bool) (params : Value) :
    Except KernelError (RegistrationReply × RegistrationHost) := do
  let registration ← Commands.commandRegistration plugin granted params
  return (.command registration.registrationId, h.kernelAddRegistration registration)

def commandsUnregister (granted : Bool) (params : Value) :
    Except KernelError (RegistrationReply × RegistrationHost) := do
  let commandId ← Commands.commandUnregistered granted params
  return (.done, h.kernelRemoveRegistration commandId)

def surfacesRegister (granted : Bool) (params : Value) (token : String) :
    Except KernelError (RegistrationReply × RegistrationHost) := do
  let registration ← Commands.surfaceRegistration plugin granted params token
  return (.surface registration.registrationId registration.registrationId,
    h.kernelAddRegistration registration)

def surfacesUnregister (granted : Bool) (params : Value) :
    Except KernelError (RegistrationReply × RegistrationHost) := do
  let surfaceId ← Commands.surfaceUnregistered granted params
  return (.done, h.kernelRemoveRegistration surfaceId)

def registerRenderer (granted : Bool) (params : Value) :
    Except KernelError (RegistrationReply × RegistrationHost) := do
  let registration ← Blocks.rendererRegistration plugin granted params
  let rendererId := registration.registrationId
  let blockType := registration.definition.id
  let byPlugin := h.renderersOf plugin.id
  if (Assoc.get byPlugin blockType).isSome then
    throw ⟨.validationFailed, [("method", .text "blocks.registerRenderer"),
      ("reason", .text "duplicate-block-type"), ("blockType", .text blockType)]⟩
  let entry := { rendererId, blockType, title := registration.definition.title }
  let h' := h.kernelAddRegistration registration
  return (.renderer rendererId,
    { h' with renderers := Assoc.set h.renderers plugin.id <| Assoc.set byPlugin blockType entry })

def unregisterRenderer (granted : Bool) (params : Value) :
    Except KernelError (RegistrationReply × RegistrationHost) := do
  Blocks.requireCapability granted
  let byPlugin := h.renderersOf plugin.id
  match Blocks.rendererUnregistered byPlugin params with
  | none       => return (.done, h)
  | some entry =>
    let h' := h.kernelRemoveRegistration entry.rendererId
    return (.done,
      { h' with renderers := Assoc.set h.renderers plugin.id <| Assoc.delete byPlugin entry.blockType })

-- What `onMessage` makes of a registration, if it does not ignore the message.
def register (message : SandboxMessage) : Option RegistrationHost := do
  let registration ← sanitizeRegistration plugin message
  guard <| permissionAllows plugin registration.kind
  let frameRegistrations := (h.registrations.filter fun e => e.snd.pluginId = plugin.id).length
  guard <| (Assoc.get h.registrations registration.registrationId).isSome || frameRegistrations < 256
  return { h with registrations := Assoc.set h.registrations registration.registrationId registration }

def unregister (registrationId : String) : Option RegistrationHost := do
  guard <| registrationId ≠ ""
  return h.kernelRemoveRegistration registrationId

-- What there is after a request that is neither refused nor ignored.
def handle : RegistrationRequest → Option RegistrationHost
  | .commandsRegister granted params       => (h.commandsRegister plugin granted params).toOption.map (·.snd)
  | .commandsUnregister granted params     => (h.commandsUnregister granted params).toOption.map (·.snd)
  | .surfacesRegister granted params token =>
    (h.surfacesRegister plugin granted params token).toOption.map (·.snd)
  | .surfacesUnregister granted params     => (h.surfacesUnregister granted params).toOption.map (·.snd)
  | .registerRenderer granted params       => (h.registerRenderer plugin granted params).toOption.map (·.snd)
  | .unregisterRenderer granted params     =>
    (h.unregisterRenderer plugin granted params).toOption.map (·.snd)
  | .register message                      => h.register plugin message
  | .unregister registrationId             => h.unregister registrationId

def createFrame : RegistrationHost :=
  { h with frames := Assoc.set h.frames plugin.id plugin }

-- The renderers go with what listens for the removal of a plugin.
def finalizeFrameRemovalNow (pluginId : String) : RegistrationHost :=
  { h with
    frames        := Assoc.delete h.frames pluginId
    registrations := h.registrations.filter fun e => e.snd.pluginId ≠ pluginId
    renderers     := Assoc.delete h.renderers pluginId
  }

end RegistrationHost
end Frontend
