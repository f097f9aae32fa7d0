import NeoTavern.Frontend.Request

namespace Frontend

open Wire (utf16Length)

structure ServiceEntry where
  serviceId        : String
  providerPluginId : String
  name             : String
  methods          : List String
  version          : Option String
  description      : Option String
  timeoutMs        : Rat
  deriving DecidableEq

-- An entry of the registry. No two registrations have the same stamp: the code keeps none, it is there to
-- tell one registration from another one of the same name.
structure Registered where
  entry : ServiceEntry
  stamp : Nat
  deriving DecidableEq

-- `opened` is the stamp of the registration that the connection has been opened against.
structure ServiceConnection where
  connectionId     : String
  consumerPluginId : String
  serviceId        : String
  opened           : Nat
  deriving DecidableEq

-- The frames there are, with whether they have a session that is not disposed, and the two tables.
structure ServiceHost where
  frames      : List (String × Bool) := []
  registry    : List (String × Registered) := []
  connections : List (String × ServiceConnection) := []
  stamp       : Nat := 0
  deriving DecidableEq

def maxServicesPerPlugin : Nat :=
  16

def maxMethodsPerService : Nat :=
  64

def maxConnectionsPerConsumer : Nat :=
  64

def maxServiceConnections : Nat :=
  256

-- `/^[a-zA-Z][a-zA-Z0-9_.]{0,63}$/u`
def isServiceName (s : String) : Bool :=
  match s.toList with
  | []      => false
  | c :: cs => c.isAlpha && cs.length ≤ 63 && cs.all fun c => c.isAlphanum || c = '_' || c = '.'

def failParams (reason : String) (details : List (String × Detail) := []) : KernelError :=
  ⟨.validationFailed, ("reason", .text reason) :: details⟩

section Params

def optionalString (record : List (String × Value)) (key : String) (maxLength : Nat) (method : String) :
    Except KernelError (Option String) :=
  let value := field record key
  if value.isNullish then
    return none
  else
    match value.string? with
    | some s =>
      if s = "" || utf16Length s > maxLength then
        throw <| failParams "invalid-field" [("field", .text key), ("method", .text method)]
      else
        return some s
    | none   => throw <| failParams "invalid-field" [("field", .text key), ("method", .text method)]

def serviceMethods (method : String) : List Value → List String → Except KernelError (List String)
  | [], methods          => return methods
  | raw :: rest, methods =>
    match raw.string? with
    | some s =>
      if !isServiceName s || s ∈ methods then
        throw <| failParams "invalid-methods" [("method", .text method)]
      else
        serviceMethods method rest (methods ++ [s])
    | none   => throw <| failParams "invalid-methods" [("method", .text method)]

def serviceTimeout (value : Value) (method : String) : Except KernelError Rat :=
  match value with
  | .undefined       => return 10000
  | .null            => return 10000
  | .number (some n) => return min (max 1000 n) 60000
  | _                => throw <| failParams "invalid-field" [("field", .text "timeoutMs"), ("method", .text method)]

-- What is provided under the name that the parameters give.
def providedEntry (pluginId : String) (params : Value) : Except KernelError ServiceEntry := do
  let method := "services.provide"
  let some record := params.record? | throw <| failParams "params-not-object" [("method", .text method)]
  let some name := (field record "name").string? | throw <| failParams "invalid-name" [("method", .text method)]
  if !isServiceName name then
    throw <| failParams "invalid-name" [("method", .text method)]
  let .array rawMethods := field record "methods"
    | throw <| failParams "methods-required" [("method", .text method)]
  if rawMethods.isEmpty then
    throw <| failParams "methods-required" [("method", .text method)]
  if rawMethods.length > maxMethodsPerService then
    throw <| failParams "methods-too-many" [("max", .number maxMethodsPerService), ("method", .text method)]
  let methods ← serviceMethods method rawMethods []
  let version ← optionalString record "version" 32 method
  let description ← optionalString record "description" 200 method
  let timeoutMs ← serviceTimeout (field record "timeoutMs") method
  return {
    serviceId        := pluginId ++ "." ++ name
    providerPluginId := pluginId
    name, methods, version, description, timeoutMs
  }

def requiredServiceText (key : String) (method : String) (params : Value) : Except KernelError String := do
  let some record := params.record? | throw <| failParams (key ++ "-required") [("method", .text method)]
  let some s := (field record key).string? | throw <| failParams (key ++ "-required") [("method", .text method)]
  return s

end Params

namespace ServiceHost

variable (h : ServiceHost)

def isAlive (pluginId : String) : Bool :=
  (Assoc.get h.frames pluginId).getD false

def providerAlive (serviceId : String) : Bool :=
  (Assoc.get h.registry serviceId).any fun s => h.isAlive s.entry.providerPluginId

def kernelServiceRegister (entry : ServiceEntry) : Option ServiceHost :=
  if (Assoc.get h.registry entry.serviceId).isSome then
    none
  else
    some { h with
      registry := Assoc.set h.registry entry.serviceId ⟨entry, h.stamp⟩
      stamp    := h.stamp + 1
    }

-- The services go first, and then the connections to those among them that are still registered.
def kernelServiceRemoveByPlugin (pluginId : String) : ServiceHost :=
  let registry := h.registry.filter fun e => e.snd.entry.providerPluginId ≠ pluginId
  { h with
    registry
    connections := h.connections.filter fun c =>
      !(Assoc.get registry c.snd.serviceId).any fun s => s.entry.providerPluginId = pluginId
  }

def kernelServiceRemoveService (serviceId providerPluginId : String) : ServiceHost :=
  match Assoc.get h.registry serviceId with
  | none   => h
  | some s =>
    if s.entry.providerPluginId ≠ providerPluginId then
      h
    else
      { h with
        registry    := Assoc.delete h.registry serviceId
        connections := h.connections.filter fun c => c.snd.serviceId ≠ serviceId
      }

def kernelServiceConnectionCount (consumerPluginId : String) : Nat :=
  (h.connections.filter fun c => c.snd.consumerPluginId = consumerPluginId).length

def kernelServiceRemoveByConsumer (pluginId : String) : ServiceHost :=
  { h with connections := h.connections.filter fun c => c.snd.consumerPluginId ≠ pluginId }

-- `token` is the random one of the new connection.
def kernelServiceCreateConnection (consumerPluginId serviceId token : String) (opened : Nat) :
    Option ServiceHost :=
  if h.connections.length ≥ maxServiceConnections then
    none
  else
    some { h with connections := Assoc.set h.connections token ⟨token, consumerPluginId, serviceId, opened⟩ }

def kernelServiceRemoveConnection (consumerPluginId connectionId : String) : ServiceHost :=
  if (Assoc.get h.connections connectionId).any (·.consumerPluginId = consumerPluginId) then
    { h with connections := Assoc.delete h.connections connectionId }
  else
    h

end ServiceHost

inductive ServiceRequest
  | provide (params : Value)
  | unprovide (params : Value)
  | connect (params : Value) (token : String)
  | disconnect (params : Value)

inductive ServiceReply
  | provided (serviceId : String)
  | done
  | connected (connectionId serviceId : String) (methods : List String)
  deriving DecidableEq

section Handlers

variable (h : ServiceHost) (pluginId : String)

def provide (granted : Bool) (params : Value) : Except KernelError (ServiceReply × ServiceHost) := do
  if !granted then
    throw <| denied "services.provide"
  let entry ← providedEntry pluginId params
  let method := "services.provide"
  let providerServices := (h.registry.filter fun e => e.snd.entry.providerPluginId = pluginId).length
  if providerServices ≥ maxServicesPerPlugin then
    throw ⟨.pluginQuotaExceeded, [("limit", .text "services.perPlugin"),
      ("max", .number maxServicesPerPlugin), ("method", .text method)]⟩
  match h.kernelServiceRegister entry with
  | some h' => return (.provided entry.serviceId, h')
  | none    =>
    throw <| failParams "service-already-provided"
      [("serviceId", .text entry.serviceId), ("method", .text method)]

def unprovide (granted : Bool) (params : Value) : Except KernelError (ServiceReply × ServiceHost) := do
  if !granted then
    throw <| denied "services.provide"
  let serviceId ← requiredServiceText "serviceId" "services.unprovide" params
  return (.done, h.kernelServiceRemoveService serviceId pluginId)

def connect (granted : Bool) (params : Value) (token : String) :
    Except KernelError (ServiceReply × ServiceHost) := do
  if !granted then
    throw <| denied "services.connect"
  let method := "services.connect"
  let serviceId ← requiredServiceText "serviceId" method params
  match Assoc.get h.registry serviceId with
  | none   => throw ⟨.serviceNotFound, [("serviceId", .text serviceId)]⟩
  | some s =>
    if !h.providerAlive serviceId then
      throw ⟨.serviceUnavailable, [("serviceId", .text serviceId)]⟩
    if h.kernelServiceConnectionCount pluginId ≥ maxConnectionsPerConsumer then
      throw ⟨.pluginQuotaExceeded, [("limit", .text "services.perConsumer"),
        ("max", .number maxConnectionsPerConsumer), ("method", .text method)]⟩
    match h.kernelServiceCreateConnection pluginId serviceId token s.stamp with
    | none    =>
      throw ⟨.pluginQuotaExceeded, [("limit", .text "services.hostTotal"), ("method", .text method)]⟩
    | some h' => return (.connected token serviceId s.entry.methods, h')

def disconnect (granted : Bool) (params : Value) : Except KernelError (ServiceReply × ServiceHost) := do
  if !granted then
    throw <| denied "services.connect"
  let connectionId ← requiredServiceText "connectionId" "services.disconnect" params
  return (.done, h.kernelServiceRemoveConnection pluginId connectionId)

-- A plugin may be granted and refused a capability at any time.
def handle (granted : Bool) : ServiceRequest → Except KernelError (ServiceReply × ServiceHost)
  | .provide params       => provide h pluginId granted params
  | .unprovide params     => unprovide h pluginId granted params
  | .connect params token => connect h pluginId granted params token
  | .disconnect params    => disconnect h pluginId granted params

end Handlers

namespace ServiceHost

inductive Event
  | createFrame (pluginId : String)
  | session (pluginId : String) (alive : Bool)
  | request (pluginId : String) (granted : Bool) (r : ServiceRequest)
  | finalizeFrameRemovalNow (pluginId : String)

-- Only what a live session says is heard.
def step (h : ServiceHost) : Event → ServiceHost
  | .createFrame pluginId             =>
    if (Assoc.get h.frames pluginId).isSome then h else { h with frames := Assoc.set h.frames pluginId false }
  | .session pluginId alive           =>
    if (Assoc.get h.frames pluginId).isSome then
      { h with frames := Assoc.set h.frames pluginId alive }
    else
      h
  | .request pluginId granted r       =>
    if h.isAlive pluginId then
      match handle h pluginId granted r with
      | .ok (_, h') => h'
      | .error _    => h
    else
      h
  | .finalizeFrameRemovalNow pluginId =>
    if (Assoc.get h.frames pluginId).isSome then
      let h' := { h with frames := Assoc.delete h.frames pluginId }
      (h'.kernelServiceRemoveByPlugin pluginId).kernelServiceRemoveByConsumer pluginId
    else
      h

end ServiceHost
end Frontend
