import NeoTavern.Messages.Repository
import NeoTavern.Wire.Format

namespace Capability

open Messages (isTrimmed)
open Wire (utf16Length)

-- Whether the URL parser takes a text as an origin of the web.
class Origins where
  isValidOrigin : String → Bool

export Origins (isValidOrigin)

-- What a grant covers. The parameters of a plugin's own scopes are of the type `P`.
inductive CapabilityScope (P : Type)
  | currentChat
  | selectedChats (chatIds : List String)
  | chat (chatId : String)
  | all
  | user
  | workspace (workspaceId : Option String)
  | installation
  | origins (origins : List String)
  | custom (params : P)
  deriving DecidableEq

-- A scope as a manifest gives it: a shorthand or a descriptor.
inductive Scope (P : Type)
  | text (s : String)
  | descriptor (d : CapabilityScope P)
  deriving DecidableEq

structure CapabilityRequest (P : Type) where
  name  : String
  scope : Option (Scope P) := none
  deriving DecidableEq

def capabilityNames : List String := [
  "chats.read.current", "chats.read.selected", "chats.read.all", "chats.list", "chats.search",
  "chats.write.plugin", "chats.write.assistant", "chats.edit.own", "chats.delete.own",
  "chats.draft", "storage.installation", "storage.user", "storage.workspace", "storage.chat",
  "storage.blobs", "ui.panel", "ui.overlay", "ui.overlay.full", "ui.modal", "ui.commands",
  "ui.surfaces", "ui.global-shortcuts", "ui.messageBlock", "ui.notification", "compute.worker",
  "compute.backend", "jobs.background", "network.domains", "auth.connections", "secrets.use",
  "files.pick", "files.save", "clipboard.read", "clipboard.write", "notifications.show",
  "audio.play", "camera.request", "microphone.request", "system.openExternal",
  "services.provide", "services.connect", "storage.kv", "files.plugin", "files.system",
  "network.http", "network.websocket", "network.tcp", "network.udp", "network.listen",
  "network.dns", "network.local", "network.private", "network.metadata", "network.listen.public",
  "process.spawn", "process.exec", "process.signal", "system.env.read", "system.info",
  "system.unrestricted", "secrets.manageOwn", "secrets.reveal", "models.list", "models.invoke",
  "models.stream", "providers.read", "providers.register", "providers.configure",
  "database.core.read", "database.core.write", "jobs.longRunning", "scheduler.register",
  "settings.read", "settings.write", "characters.read", "characters.write", "lorebook.read",
  "lorebook.write", "chats.read", "chats.write", "diagnostics.own", "server.routes",
  "server.middleware"
]

def legacyAlias : List (String × String) := [
  ("chat.read", "chats.read.current"), ("chat.write", "chats.write.plugin"),
  ("characters.read", "chats.read.current"), ("characters.write", "chats.write.plugin"),
  ("lorebook.read", "chats.read.current"), ("lorebook.write", "chats.write.plugin"),
  ("prompt.inspect", "chats.read.current"), ("prompt.modify", "chats.write.plugin"),
  ("providers.register", "compute.backend"), ("ui.toolbar", "ui.commands"),
  ("ui.sidebar", "ui.panel"), ("ui.messageActions", "ui.commands"), ("ui.shell", "ui.panel"),
  ("clipboard.read", "clipboard.read"), ("clipboard.write", "clipboard.write"),
  ("notifications", "notifications.show"), ("server.routes", "compute.backend")
]

def trim (s : String) : String :=
  .ofList <| s.toList.dropWhile isTrimmed |>.reverse.dropWhile isTrimmed |>.reverse

def isHost (s : String) : Bool :=
  s ≠ "" && s.toList.all fun c => c.isAlphanum || c = '.' || c = '-'

section Parse

variable {P : Type} [Origins]

-- The part of a `network:` permission after its colon.
def parseNetwork (scope : String) : Option (CapabilityRequest P) :=
  if scope = "*" then
    some { name := "network.domains", scope := some <| .descriptor .all }
  else if !isValidOrigin scope && !isHost scope then
    none
  else
    let origin := if "://".toList <:+: scope.toList then scope else s!"https://{scope}"
    some { name := "network.domains", scope := some <| .descriptor <| .origins [origin] }

-- The names of the prototype of an object, which the lookup of an alias finds as well, are the names
-- of no grant.
def parseCapability (raw : String) : Option (CapabilityRequest P) :=
  let value := trim raw
  if value = "" || utf16Length value > 128 then
    none
  else if "network:".toList <+: value.toList then
    parseNetwork <| .ofList <| value.toList.drop 8
  else if value = "files:plugin" then
    some { name := "storage.installation" }
  else if value = "files:user-selected" then
    some { name := "files.pick" }
  else if value = "legacy.trusted" then
    none
  else if value ∈ capabilityNames then
    some { name := value }
  else
    (legacyAlias.lookup value).map fun name => { name }

end Parse

section Scopes

variable {P : Type}

def parseCapabilityScope : Scope P → Option (CapabilityScope P)
  | .text "current-chat"       => some .currentChat
  | .text "selected-chats"     => some <| .selectedChats []
  | .text "all"                => some .all
  | .text "user"               => some .user
  | .text "installation"       => some .installation
  | .text _                    => none
  | .descriptor (.origins [])  => none
  | .descriptor d              => some d

-- Whether a descriptor covers another one. The kinds are compared first, so selected chats never
-- cover a chat.
def covers : CapabilityScope P → CapabilityScope P → Bool
  | .all,             _                => true
  | .currentChat,     .currentChat     => true
  | .selectedChats _, .selectedChats _ => true
  | .chat has,        .chat want       => has = want
  | .user,            .user            => true
  | .workspace _,     .workspace _     => true
  | .installation,    .installation    => true
  | .origins has,     .origins want    => want.all has.contains
  | .custom _,        .custom _        => true
  | _,                _                => false

def CapabilityRequest.want (request : CapabilityRequest P) : Option (CapabilityScope P) :=
  match request.scope with
  | some (.text s)       => parseCapabilityScope <| .text s
  | some (.descriptor d) => some d
  | none                 => none

-- A grant whose scope is no descriptor covers the requests without a scope only.
def grantSatisfies (name : String) (scope : Option (Scope P)) (request : CapabilityRequest P) : Bool :=
  name = request.name &&
    match request.want with
    | none      => true
    | some want =>
      match scope with
      | some (.descriptor has) => covers has want
      | _                      => false

end Scopes
end Capability

namespace Capability

-- A row of `plugin_capability_grants`. Without a descriptor the scope is the empty record.
structure GrantEntry (P : Type) where
  pluginId  : String
  name      : String
  scope     : Option (Scope P)
  revision  : Nat := 1
  grantedAt : Int
  expiresAt : Option Int := none
  revokedAt : Option Int := none
  deriving DecidableEq

structure CapabilityGrant (P : Type) where
  name      : String
  scope     : Option (Scope P)
  revision  : Nat
  grantedAt : Int
  deriving DecidableEq

structure CapabilityRevokedPayload where
  pluginId : String
  name     : String
  revision : Nat
  deriving DecidableEq

structure Manifest (P : Type) where
  requiredCapabilities : List (CapabilityRequest P) := []
  optionalCapabilities : List (CapabilityRequest P) := []

-- The table of grants, and what has been emitted on the event bus.
structure Broker (P : Type) where
  grants : List (GrantEntry P) := []
  events : List CapabilityRevokedPayload := []
  deriving DecidableEq

inductive Event (P : Type)
  | grantConsented (pluginId : String) (manifest : Manifest P) (grantedPermissions : List String)
      (now : Int)
  | grantRuntime (pluginId : String) (request : CapabilityRequest P) (now : Int)
  | revoke (pluginId name : String) (now : Int)
  | revokeAll (pluginId : String) (now : Int)

namespace GrantEntry

variable {P : Type}

def isFor (e : GrantEntry P) (pluginId name : String) : Bool :=
  e.pluginId = pluginId && e.name = name

def isActive (e : GrantEntry P) (now : Int) : Bool :=
  e.revokedAt.isNone && e.expiresAt.all (now < ·)

def toGrant (e : GrantEntry P) : CapabilityGrant P where
  name      := e.name
  scope     := e.scope
  revision  := e.revision
  grantedAt := e.grantedAt

end GrantEntry

namespace Broker

variable {P : Type}

section Repository

def get (s : Broker P) (pluginId name : String) : Option (GrantEntry P) :=
  s.grants.find? (·.isFor pluginId name)

def listActive (s : Broker P) (pluginId : String) (now : Int) : List (GrantEntry P) :=
  s.grants.filter (fun e => e.pluginId = pluginId && e.isActive now)
    |>.mergeSort fun e e' => e.name ≤ e'.name

-- Issues a grant, or issues it again with the next revision.
def grant (s : Broker P) (pluginId name : String) (scope : Option (Scope P)) (now : Int) : Broker P :=
  if (s.get pluginId name).isSome then
    { s with grants := s.grants.map fun e => if e.isFor pluginId name then { e with
        scope
        revision  := e.revision + 1
        grantedAt := now
        expiresAt := none
        revokedAt := none
      } else e }
  else
    { s with grants := s.grants ++ [{ pluginId, name, scope, grantedAt := now }] }

end Repository

variable [Origins]

-- The consent to a request of the manifest: its exact name, or a permission that satisfies it.
def consentFor (request : CapabilityRequest P) (grantedPermissions : List String) :
    Option (CapabilityRequest P) :=
  grantedPermissions.findSome? fun raw =>
    if raw = request.name then
      some request
    else
      match parseCapability raw with
      | some parsed => if grantSatisfies parsed.name parsed.scope request then some parsed else none
      | none        => none

-- The active grant of a request, or a new one if the user consented to it.
def grantRequest (grantedPermissions : List String) (pluginId : String) (now : Int)
    (s : Broker P × List (CapabilityGrant P)) (request : CapabilityRequest P) :
    Broker P × List (CapabilityGrant P) :=
  match (s.fst.get pluginId request.name).filter (·.isActive now) with
  | some existing => (s.fst, s.snd ++ [existing.toGrant])
  | none =>
    match consentFor request grantedPermissions with
    | some consent =>
      let t := s.fst.grant pluginId request.name consent.scope now
      (t, s.snd ++ ((t.get pluginId request.name).map (·.toGrant)).toList)
    | none => s

def grantConsented (s : Broker P) (pluginId : String) (manifest : Manifest P)
    (grantedPermissions : List String) (now : Int) : Broker P × List (CapabilityGrant P) :=
  (manifest.requiredCapabilities ++ manifest.optionalCapabilities).foldl
    (grantRequest grantedPermissions pluginId now) (s, [])

omit [Origins] in
def activeGrants (s : Broker P) (pluginId : String) (now : Int) : List (CapabilityGrant P) :=
  (s.listActive pluginId now).map (·.toGrant)

-- The scope of a runtime grant: the one that was asked for, else the one of the name.
def runtimeScope (request parsed : CapabilityRequest P) : Option (Scope P) :=
  (request.scope.bind parseCapabilityScope).map .descriptor <|> parsed.scope

def grantRuntime (s : Broker P) (pluginId : String) (request : CapabilityRequest P) (now : Int) :
    Broker P × Option (CapabilityGrant P) :=
  match parseCapability request.name with
  | none => (s, none)
  | some parsed =>
    match (s.get pluginId parsed.name).filter (·.isActive now) with
    | some existing => (s, some existing.toGrant)
    | none =>
      let t := s.grant pluginId parsed.name (runtimeScope request parsed) now
      (t, (t.get pluginId parsed.name).map (·.toGrant))

omit [Origins] in
def check (s : Broker P) (pluginId : String) (request : CapabilityRequest P) (now : Int) : Bool :=
  match s.get pluginId request.name with
  | some e => e.isActive now && grantSatisfies e.name e.scope request
  | none   => false

omit [Origins] in
def revoke (s : Broker P) (pluginId name : String) (now : Int) : Broker P × Option Nat :=
  match (s.get pluginId name).filter (·.revokedAt.isNone) with
  | none => (s, none)
  | some entry =>
    ({
      grants := s.grants.map fun e =>
        if e.isFor pluginId name && e.revokedAt.isNone then { e with revokedAt := some now } else e
      events := s.events ++ [{ pluginId, name, revision := entry.revision }]
    }, some entry.revision)

omit [Origins] in
def revokeAll (s : Broker P) (pluginId : String) (now : Int) : Broker P × Nat :=
  ({
    grants := s.grants.map fun e =>
      if e.pluginId = pluginId && e.revokedAt.isNone then { e with revokedAt := some now } else e
    events := s.events ++ (s.listActive pluginId now).map fun e =>
      { pluginId, name := e.name, revision := e.revision }
  }, s.grants.countP fun e => e.pluginId = pluginId && e.revokedAt.isNone)

def step (s : Broker P) : Event P → Broker P
  | .grantConsented pluginId manifest grantedPermissions now =>
    (s.grantConsented pluginId manifest grantedPermissions now).fst
  | .grantRuntime pluginId request now => (s.grantRuntime pluginId request now).fst
  | .revoke pluginId name now          => (s.revoke pluginId name now).fst
  | .revokeAll pluginId now            => (s.revokeAll pluginId now).fst

def run (s : Broker P) (events : List (Event P)) : Broker P :=
  events.foldl step s

end Broker
end Capability
