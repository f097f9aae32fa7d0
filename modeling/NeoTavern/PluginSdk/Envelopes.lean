import Mathlib

namespace PluginProtocol

inductive Number
  | finite (q : ℚ)
  | infinite (negative : Bool)
  | nan
  deriving DecidableEq

def Number.isPositive : Number → Bool
  | finite q          => 0 < q
  | infinite negative => !negative
  | nan               => false

-- What `postMessage` brings. Of objects only the properties matter, and a property that is missing is
-- undefined. `exotic` are the dates, maps and the like.
inductive Value
  | undefined
  | null
  | bool (b : Bool)
  | number (n : Number)
  | bigint (n : Int)
  | string (s : String)
  | buffer (bytes : List UInt8)
  | array (items : List Value)
  | exotic (n : Nat)
  | object (property : String → Value)

namespace Value

def get : Value → String → Value
  | object property, key => property key
  | _,               _   => undefined

-- `typeof v === 'object' && v !== null`
def isObject : Value → Bool
  | buffer _ | array _ | exotic _ | object _ => true
  | _                                        => false

def isArray : Value → Bool
  | array _ => true
  | _       => false

-- A `Record<string, unknown>`.
def isRecord (v : Value) : Bool :=
  v.isObject && !v.isArray

def string? : Value → Option String
  | string s => some s
  | _        => none

def number? : Value → Option Number
  | number n => some n
  | _        => none

def buffer? : Value → Option (List UInt8)
  | buffer bytes => some bytes
  | _            => none

def object? (v : Value) : Option Value :=
  if v.isObject then some v else none

def ofString? (s : Option String) : Value :=
  s.elim undefined string

def fields (properties : List (String × Value)) : Value :=
  object fun key => (properties.lookup key).getD undefined

-- A `PluginErrorWire`.
def isErrorWire (v : Value) : Bool :=
  v.isRecord && (v.get "code").string?.isSome &&
    (match v.get "retryable" with | bool _ => true | _ => false) &&
    (match v.get "retryAfterMs" with | undefined | number _ => true | _ => false) &&
    (match v.get "details" with | undefined => true | details => details.isRecord)

end Value

open Value

inductive Direction
  | hostToPlugin
  | pluginToHost
  deriving DecidableEq

def Direction.text : Direction → String
  | hostToPlugin => "host-to-plugin"
  | pluginToHost => "plugin-to-host"

def direction? : Value → Option Direction
  | .string "host-to-plugin" => some .hostToPlugin
  | .string "plugin-to-host" => some .pluginToHost
  | _                        => none

-- The errors and the metadata are values of any kind here. `IsTyped` asks for their types.
inductive Envelope
  | rpcRequest (id instanceId method : String) (params : Value) (deadline : Option Number)
      (idempotencyKey : Option String)
  | rpcResult (id : String) (result : Value)
  | rpcFailure (id : String) (error : Value)
  | rpcCancel (id : String)
  | evtEmit (event : String) (payload : Value) (eventId : String) (cursor : Option String)
  | streamOpen (streamId : String) (direction : Direction) (metadata : Value)
  | streamCredit (streamId : String) (bytes : Number)
  | streamChunk (streamId : String) (seq : Number) (buffer : List UInt8)
  | streamEnd (streamId : String)
  | streamError (streamId : String) (error : Value)
  | streamCancel (streamId : String)
  | capabilityRevoked (name : String) (revision : Number)
  | lifecycle (state : String)

namespace Envelope

def kind : Envelope → String
  | rpcRequest ..        => "rpc.request"
  | rpcResult ..         => "rpc.response"
  | rpcFailure ..        => "rpc.response"
  | rpcCancel ..         => "rpc.cancel"
  | evtEmit ..           => "evt.emit"
  | streamOpen ..        => "stream.open"
  | streamCredit ..      => "stream.credit"
  | streamChunk ..       => "stream.chunk"
  | streamEnd ..         => "stream.end"
  | streamError ..       => "stream.error"
  | streamCancel ..      => "stream.cancel"
  | capabilityRevoked .. => "capability.revoked"
  | lifecycle ..         => "lifecycle"

def properties : Envelope → List (String × Value)
  | rpcRequest id instanceId method params deadline idempotencyKey => [
      ("id", string id), ("instanceId", string instanceId), ("method", string method), ("params", params),
      ("deadline", deadline.elim null number), ("idempotencyKey", ofString? idempotencyKey)
    ]
  | rpcResult id result                   => [("id", string id), ("ok", bool true), ("result", result)]
  | rpcFailure id error                   => [("id", string id), ("ok", bool false), ("error", error)]
  | rpcCancel id                          => [("id", string id)]
  | evtEmit event payload eventId cursor  => [
      ("event", string event), ("payload", payload), ("eventId", string eventId), ("cursor", ofString? cursor)
    ]
  | streamOpen streamId direction metadata => [
      ("streamId", string streamId), ("direction", string direction.text), ("meta", metadata)
    ]
  | streamCredit streamId bytes           => [("streamId", string streamId), ("bytes", number bytes)]
  | streamChunk streamId seq bytes        => [
      ("streamId", string streamId), ("seq", number seq), ("buffer", .buffer bytes)
    ]
  | streamEnd streamId                    => [("streamId", string streamId)]
  | streamError streamId error            => [("streamId", string streamId), ("error", error)]
  | streamCancel streamId                 => [("streamId", string streamId)]
  | capabilityRevoked name revision       => [("name", string name), ("revision", number revision)]
  | lifecycle state                       => [("state", string state)]

def value (e : Envelope) : Value :=
  fields <| ("kind", string e.kind) :: e.properties

def IsTyped : Envelope → Prop
  | rpcFailure _ error      => error.isErrorWire
  | streamError _ error     => error.isErrorWire
  | streamOpen _ _ metadata => metadata.isRecord
  | _                       => True

def HasPositiveCredit : Envelope → Prop
  | streamCredit _ bytes => bytes.isPositive
  | _                    => True

end Envelope

open Envelope

-- The cases of the switch, each with what it takes of the record. `stream.cancel` has none.
def readKind (record : Value) : (kind : String) → Option Envelope
  | "rpc.request"        => do
    let id ← (record.get "id").string?
    let method ← (record.get "method").string?
    let instanceId ← (record.get "instanceId").string?
    return rpcRequest id instanceId method (record.get "params") (record.get "deadline").number?
      (record.get "idempotencyKey").string?
  | "rpc.response"       => do
    let id ← (record.get "id").string?
    match record.get "ok" with
    | .bool true  => return rpcResult id (record.get "result")
    | .bool false => return rpcFailure id (← (record.get "error").object?)
    | _           => none
  | "rpc.cancel"         => return rpcCancel (← (record.get "id").string?)
  | "evt.emit"           => do
    let event ← (record.get "event").string?
    let eventId ← (record.get "eventId").string?
    return evtEmit event (record.get "payload") eventId (record.get "cursor").string?
  | "stream.open"        => do
    let streamId ← (record.get "streamId").string?
    let direction ← direction? (record.get "direction")
    return streamOpen streamId direction <| (record.get "meta").object?.getD <| fields []
  | "stream.credit"      => do
    let streamId ← (record.get "streamId").string?
    let bytes ← (record.get "bytes").number?
    if bytes.isPositive then return streamCredit streamId bytes else none
  | "stream.chunk"       => do
    let streamId ← (record.get "streamId").string?
    let seq ← (record.get "seq").number?
    return streamChunk streamId seq (← (record.get "buffer").buffer?)
  | "stream.end"         => return streamEnd (← (record.get "streamId").string?)
  | "stream.error"       => do
    let streamId ← (record.get "streamId").string?
    return streamError streamId (← (record.get "error").object?)
  | "capability.revoked" => do
    let name ← (record.get "name").string?
    return capabilityRevoked name (← (record.get "revision").number?)
  | "lifecycle"          => return lifecycle (← (record.get "state").string?)
  | _                    => none

def parseEnvelope (value : Value) : Option Value :=
  if value.isRecord then
    (value.get "kind").string? >>= fun kind => (readKind value kind).map Envelope.value
  else
    none

-- What the switch lets through.
def Envelope.Accepted : Envelope → Prop
  | rpcFailure _ error      => error.isObject
  | streamError _ error     => error.isObject
  | streamOpen _ _ metadata => metadata.isObject
  | streamCredit _ bytes    => bytes.isPositive
  | streamCancel _          => False
  | _                       => True

section Reads

@[simp]
theorem get_fields_nil : (fields []).get key = undefined :=
  rfl

@[simp]
theorem get_fields_cons {ps : List (String × Value)} :
    (fields ((k, v) :: ps)).get key = if key = k then v else (fields ps).get key := by
  by_cases h : key = k
  case pos => simp [fields, Value.get, List.lookup, h]
  case neg => simp [fields, Value.get, List.lookup, h, beq_false_of_ne h]

@[simp]
theorem string?_string : (string s).string? = some s :=
  rfl

@[simp]
theorem number?_number : (number n).number? = some n :=
  rfl

@[simp]
theorem buffer?_buffer : (buffer bytes).buffer? = some bytes :=
  rfl

@[simp]
theorem string?_ofString? {s : Option String} : (ofString? s).string? = s := by
  cases s <;> rfl

@[simp]
theorem number?_elim {n : Option Number} : (n.elim null number).number? = n := by
  cases n <;> rfl

@[simp]
theorem direction?_text {d : Direction} : direction? (.string d.text) = some d := by
  cases d <;> rfl

end Reads

variable {e : Envelope} {v r : Value}

@[simp]
theorem isObject_fields {ps : List (String × Value)} : (fields ps).isObject :=
  rfl

theorem object?_of_isObject (h : v.isObject) : v.object? = some v :=
  if_pos h

theorem readKind_value (h : e.Accepted) : readKind e.value e.kind = some e := by
  cases e
  case rpcFailure id error        => simp [readKind, value, kind, properties, object?_of_isObject h]
  case streamError id error       => simp [readKind, value, kind, properties, object?_of_isObject h]
  case streamOpen id dir metadata => simp [readKind, value, kind, properties, object?_of_isObject h]
  case streamCredit id bytes      =>
    have hbytes : bytes.isPositive := h
    simp [readKind, value, kind, properties, hbytes]
  case streamCancel id            => cases h
  all_goals simp [readKind, value, kind, properties]

theorem parseEnvelope_value (h : e.Accepted) : parseEnvelope e.value = some e.value := by
  have hkind : e.value.get "kind" = .string e.kind := rfl
  have hrecord : e.value.isRecord := rfl
  simp [parseEnvelope, hrecord, hkind, readKind_value h]

theorem object?_eq_some : v.object? = some r ↔ v.isObject ∧ v = r := by
  simp [object?]

-- What the switch takes of a record. Only errors and metadata can be of another type than the
-- protocol has them.
structure Reading (v : Value) (e : Envelope) : Prop where
  accepted : e.Accepted
  failure  : ∀ id error, e = rpcFailure id error → (v.get "id").string? = some id ∧
    v.get "ok" = .bool false ∧ v.get "error" = error
  error    : ∀ id error, e = streamError id error → (v.get "streamId").string? = some id ∧ v.get "error" = error
  metadata : ∀ id direction metadata, e = streamOpen id direction metadata →
    (v.get "streamId").string? = some id ∧ direction? (v.get "direction") = some direction ∧
      (v.get "meta" = metadata ∨ metadata = fields [])

theorem reading_of_readKind {k : String} (h : readKind v k = some e) : Reading v e ∧ e.kind = k := by
  unfold readKind at h
  split at h
  case h_2 =>
    simp only [Option.bind_eq_bind, Option.bind_eq_some_iff] at h
    have ⟨id, hid, h⟩ := h
    split at h
    case h_1 =>
      have he := Option.some.inj h
      exact he ▸ ⟨⟨trivial, nofun, nofun, nofun⟩, rfl⟩
    case h_2 hok =>
      simp only [Option.bind_eq_some_iff, object?_eq_some] at h
      have ⟨error, ⟨hobject, herror⟩, he⟩ := h
      have he := Option.some.inj he
      refine he ▸ ⟨⟨herror ▸ hobject, ?_, nofun, nofun⟩, rfl⟩
      intro id' error' he
      have ⟨h₁, h₂⟩ := rpcFailure.inj he
      exact ⟨h₁ ▸ hid, hok, herror.trans h₂⟩
    case h_3 => cases h
  case h_5 =>
    simp only [Option.bind_eq_bind, Option.bind_eq_some_iff] at h
    have ⟨streamId, hid, direction, hdirection, he⟩ := h
    have he := Option.some.inj he
    have hmeta : ((v.get "meta").object?.getD <| fields []).isObject ∧
        (v.get "meta" = (v.get "meta").object?.getD (fields []) ∨
          (v.get "meta").object?.getD (fields []) = fields []) := by
      by_cases ho : (v.get "meta").isObject
      case pos => simp [object?, ho]
      case neg => simp [object?, ho]
    refine he ▸ ⟨⟨hmeta.left, nofun, nofun, ?_⟩, rfl⟩
    intro id' direction' metadata he
    have ⟨h₁, h₂, h₃⟩ := streamOpen.inj he
    exact ⟨h₁ ▸ hid, h₂ ▸ hdirection, h₃ ▸ hmeta.right⟩
  case h_6 =>
    simp only [Option.bind_eq_bind, Option.bind_eq_some_iff] at h
    have ⟨_, _, bytes, _, h⟩ := h
    split at h
    case isTrue hbytes =>
      have he := Option.some.inj h
      exact he ▸ ⟨⟨hbytes, nofun, nofun, nofun⟩, rfl⟩
    case isFalse => cases h
  case h_9 =>
    simp only [Option.bind_eq_bind, Option.bind_eq_some_iff, object?_eq_some] at h
    have ⟨streamId, hid, error, ⟨hobject, herror⟩, he⟩ := h
    have he := Option.some.inj he
    refine he ▸ ⟨⟨herror ▸ hobject, nofun, ?_, nofun⟩, rfl⟩
    intro id' error' he
    have ⟨h₁, h₂⟩ := streamError.inj he
    exact ⟨h₁ ▸ hid, herror.trans h₂⟩
  case h_12 => cases h
  -- The others bring nothing that can be of another type.
  all_goals
    simp only [Option.bind_eq_bind, Option.bind_eq_some_iff, Option.pure_def, Option.some.injEq] at h
  case h_1         => have ⟨_, _, _, _, _, _, he⟩ := h; exact he ▸ ⟨⟨trivial, nofun, nofun, nofun⟩, rfl⟩
  case h_4 | h_10  => have ⟨_, _, _, _, he⟩ := h; exact he ▸ ⟨⟨trivial, nofun, nofun, nofun⟩, rfl⟩
  case h_7         => have ⟨_, _, _, _, _, _, he⟩ := h; exact he ▸ ⟨⟨trivial, nofun, nofun, nofun⟩, rfl⟩
  all_goals have ⟨_, _, he⟩ := h; exact he ▸ ⟨⟨trivial, nofun, nofun, nofun⟩, rfl⟩

-- What is to become of a value that arrives.
structure Covered (v : Value) : Prop where
  complete : ∀ e : Envelope, e.IsTyped → e.HasPositiveCredit → e.value = v → parseEnvelope v = some v
  sound    : ∀ r, parseEnvelope v = some r →
    (∃ e : Envelope, e.IsTyped ∧ e.value = r) ∧ r.get "kind" = v.get "kind" ∧ parseEnvelope r = some r

-- An envelope of the protocol that no case of the switch reads.
def Lost (v : Value) : Prop :=
  ∃ streamId, v = (streamCancel streamId).value

-- The records that are let through with a part that has not the type of the protocol: an error
-- that is any object, or an array for the metadata.
inductive Loose (v : Value) : Prop
  | failure (hkind : v.get "kind" = .string "rpc.response") (hid : (v.get "id").string?.isSome)
      (hok : v.get "ok" = .bool false) (hobject : (v.get "error").isObject)
      (herror : ¬ (v.get "error").isErrorWire)
  | error (hkind : v.get "kind" = .string "stream.error") (hid : (v.get "streamId").string?.isSome)
      (hobject : (v.get "error").isObject) (herror : ¬ (v.get "error").isErrorWire)
  | metadata (hkind : v.get "kind" = .string "stream.open") (hid : (v.get "streamId").string?.isSome)
      (hdirection : (direction? (v.get "direction")).isSome) (hmeta : (v.get "meta").isArray)

theorem string?_eq_some : v.string? = some s ↔ v = .string s := by
  cases v <;> simp [string?]

theorem parseEnvelope_eq_some : parseEnvelope v = some r ↔
    v.isRecord ∧ ∃ k e, v.get "kind" = .string k ∧ readKind v k = some e ∧ e.value = r := by
  rw [parseEnvelope]
  split
  case isTrue h  => simp [h, Option.bind_eq_some_iff, string?_eq_some]
  case isFalse h => simp [h]

theorem isObject_of_isErrorWire (h : v.isErrorWire) : v.isObject := by
  simp only [isErrorWire, isRecord, Bool.and_eq_true] at h
  exact h.left.left.left.left.left

theorem accepted_of_isTyped (ht : e.IsTyped) (hc : e.HasPositiveCredit) (hl : ¬ Lost e.value) : e.Accepted := by
  cases e
  case rpcFailure      => exact isObject_of_isErrorWire ht
  case streamError     => exact isObject_of_isErrorWire ht
  case streamOpen      => exact (Bool.and_eq_true_iff.mp ht).left
  case streamCredit    => exact hc
  case streamCancel id => exact hl ⟨id, rfl⟩
  all_goals trivial

theorem isTyped_of_reading (h : Reading v e) (hkind : v.get "kind" = .string e.kind) (hl : ¬ Loose v) :
    e.IsTyped := by
  cases e
  case rpcFailure id error =>
    have ⟨hid, hok, he⟩ := h.failure id error rfl
    by_contra herror
    exact hl <| .failure hkind (hid ▸ rfl) hok (he ▸ h.accepted) (he ▸ herror)
  case streamError id error =>
    have ⟨hid, he⟩ := h.error id error rfl
    by_contra herror
    exact hl <| .error hkind (hid ▸ rfl) (he ▸ h.accepted) (he ▸ herror)
  case streamOpen id direction metadata =>
    have ⟨hid, hdirection, he⟩ := h.metadata id direction metadata rfl
    cases he
    case inr he => exact he ▸ rfl
    case inl he =>
      by_contra hmeta
      have harray : metadata.isArray := by
        have hobject : metadata.isObject := h.accepted
        simpa [IsTyped, isRecord, hobject] using hmeta
      exact hl <| .metadata hkind (hid ▸ rfl) (hdirection ▸ rfl) (he ▸ harray)
  all_goals trivial

-- A loose record is read as it is, with the part that has the wrong type.
theorem read_of_loose (h : Loose v) : ∃ k e, v.get "kind" = .string k ∧ readKind v k = some e ∧
    ∀ e' : Envelope, e'.IsTyped → e'.value ≠ e.value := by
  cases h
  case failure hkind hid hok hobject herror =>
    have ⟨id, hid⟩ := Option.isSome_iff_exists.mp hid
    refine ⟨_, rpcFailure id (v.get "error"), hkind, ?_, ?_⟩
    · simp [readKind, hid, hok, object?_of_isObject hobject]
    · intro e' ht heq
      have hk := congrArg (·.get "kind") heq
      have ho := congrArg (·.get "ok") heq
      have he := congrArg (·.get "error") heq
      cases e' <;> simp [value, kind, properties] at hk ho he
      exact herror <| he ▸ ht
  case error hkind hid hobject herror =>
    have ⟨id, hid⟩ := Option.isSome_iff_exists.mp hid
    refine ⟨_, streamError id (v.get "error"), hkind, ?_, ?_⟩
    · simp [readKind, hid, object?_of_isObject hobject]
    · intro e' ht heq
      have hk := congrArg (·.get "kind") heq
      have he := congrArg (·.get "error") heq
      cases e' <;> simp [value, kind, properties] at hk he
      exact herror <| he ▸ ht
  case metadata hkind hid hdirection hmeta =>
    have ⟨id, hid⟩ := Option.isSome_iff_exists.mp hid
    have ⟨direction, hdirection⟩ := Option.isSome_iff_exists.mp hdirection
    have hobject : (v.get "meta").isObject := by
      cases hm : v.get "meta" <;> simp_all [isArray, isObject]
    refine ⟨_, streamOpen id direction (v.get "meta"), hkind, ?_, ?_⟩
    · simp [readKind, hid, hdirection, object?_of_isObject hobject]
    · intro e' ht heq
      have hk := congrArg (·.get "kind") heq
      have hm := congrArg (·.get "meta") heq
      cases e' <;> simp [value, kind, properties] at hk hm
      simp [IsTyped, isRecord, hm, hmeta] at ht

theorem not_covered_of_loose (hr : v.isRecord) (hl : Loose v) : ¬ Covered v := by
  intro h
  have ⟨k, e, hkind, hread, hne⟩ := read_of_loose hl
  have ⟨⟨e', ht, he⟩, _⟩ := h.sound e.value <| parseEnvelope_eq_some.mpr ⟨hr, k, e, hkind, hread, rfl⟩
  exact hne e' ht he

theorem not_covered_of_lost (hl : Lost v) : ¬ Covered v := by
  intro h
  have ⟨streamId, hv⟩ := hl
  have hsome := h.complete (streamCancel streamId) trivial trivial hv.symm
  have ⟨_, k, e, hkind, hread, _⟩ := parseEnvelope_eq_some.mp hsome
  rw [hv] at hkind hread
  have hk : k = "stream.cancel" := (Value.string.inj hkind).symm
  rw [hk] at hread
  simp [readKind] at hread

-- Envelopes survive the parser and only envelopes do, but for these two kinds of values.
theorem covered_iff : Covered v ↔ ¬ Lost v ∧ ¬ (v.isRecord ∧ Loose v) := by
  constructor
  case mp =>
    intro h
    exact ⟨fun hl => not_covered_of_lost hl h, fun hl => not_covered_of_loose hl.left hl.right h⟩
  case mpr =>
    intro ⟨hlost, hloose⟩
    constructor
    case complete =>
      intro e ht hc he
      rw [← he] at hlost ⊢
      exact parseEnvelope_value <| accepted_of_isTyped ht hc hlost
    case sound =>
      intro r hr
      have ⟨hrecord, k, e, hkind, hread, he⟩ := parseEnvelope_eq_some.mp hr
      have ⟨hreading, hk⟩ := reading_of_readKind hread
      rw [← hk] at hkind
      have htyped := isTyped_of_reading hreading hkind fun hl => hloose ⟨hrecord, hl⟩
      rw [← he, hkind]
      exact ⟨⟨e, htyped, rfl⟩, rfl, parseEnvelope_value hreading.accepted⟩

-- A producer is never told that its stream has been cancelled.
theorem not_covered_streamCancel : ¬ Covered (streamCancel "s1").value := by
  intro h
  have hsome := h.complete (streamCancel "s1") trivial trivial rfl
  simp [parseEnvelope, readKind, value, kind, properties, string?] at hsome

end PluginProtocol
