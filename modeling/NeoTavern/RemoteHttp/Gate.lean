import NeoTavern.RemoteHttp.Pairing
import NeoTavern.RemoteHttp.RateLimit

namespace RemoteHttp

inductive AuditKind
  | started
  | shutdown
  | pairCreated
  | pairRevoked
  | authGranted
  | authDenied
  | rateLimited
  | streamLimitReached
  | originDenied
  deriving DecidableEq

structure AuditEvent where
  kind   : AuditKind
  detail : String
  deriving DecidableEq

structure AuditLog where
  capacity : Nat
  events   : List AuditEvent := []
  deriving DecidableEq

def AuditLog.record (log : AuditLog) (e : AuditEvent) : AuditLog :=
  { log with
    events := (if log.events.length ≥ log.capacity then log.events.tail else log.events) ++ [e] }

inductive Method
  | get
  | post
  | options
  | other
  deriving DecidableEq

def eqIgnoreAsciiCase (s t : String) : Bool :=
  s.toList.map Char.toLower = t.toList.map Char.toLower

-- What `trim` takes from a header, which is ASCII.
def isWhitespace (c : Char) : Bool :=
  c = ' ' || (9 ≤ c.toNat && c.toNat ≤ 13)

def trim (s : List Char) : List Char :=
  ((s.dropWhile isWhitespace).reverse.dropWhile isWhitespace).reverse

-- An address, which is that of the peer or is read from a header.
structure Addresses (ι : Type) where
  parse : String → Option ι
  text  : ι → String

structure Request (ι : Type) where
  method     : Method
  url        : String
  headers    : List (String × String)
  remoteAddr : Option ι
  deriving DecidableEq

structure Response where
  status  : Nat
  code    : Option String := none
  params  : List (String × String) := []
  headers : List (String × String) := []
  deriving DecidableEq

def withCors (response : Response) : Option String → Response
  | some origin =>
    { response with
      headers := response.headers ++ [("Access-Control-Allow-Origin", origin), ("Vary", "Origin")] }
  | none        => response

def transportError (status : Nat) (code : String) (params : List (String × String))
    (origin : Option String) : Response :=
  withCors { status, code, params, headers := [("Content-Type", "application/json")] } origin

namespace Request

variable {ι : Type} (request : Request ι)

def header (name : String) : Option String :=
  (request.headers.find? fun h => eqIgnoreAsciiCase h.fst name).map (·.snd)

def path : String :=
  .ofList <| request.url.toList.takeWhile (· ≠ '?')

def origin : Option String :=
  ((request.header "Origin").map fun value => String.ofList <| trim value.toList).filter fun value => value ≠ ""

end Request

-- The scheme, the first blank, and then the token.
def bearerToken (value : String) : Option String :=
  match value.toList.span (· ≠ ' ') with
  | (_, [])              => none
  | (scheme, _ :: token) =>
    if !eqIgnoreAsciiCase (.ofList scheme) "Bearer" || token = [] then none else some <| .ofList token

-- From the right, the first address that is not that of a trusted proxy.
def clientIpResolve {ι : Type} [DecidableEq ι] (addresses : Addresses ι) (peer : Option ι)
    (xForwardedFor : Option String) (trusted : List ι) : String :=
  match peer with
  | none      => "unknown-peer"
  | some peer =>
    if peer ∉ trusted then
      addresses.text peer
    else
      match xForwardedFor with
      | none        => addresses.text peer
      | some header =>
        let entries := ((header.toList.splitOn ',').map trim).filter (· ≠ [])
        let forwarded := entries.reverse.findSome? fun entry =>
          (addresses.parse <| .ofList entry).filter (· ∉ trusted)
        addresses.text <| forwarded.getD peer

structure Shared (δ ι : Type) where
  auth            : Option (PairingStore δ)
  rate            : Option RateLimiter
  audit           : AuditLog
  streams         : Nat := 0
  maxStreams      : Nat
  maxRequestBytes : Nat
  allowedOrigins  : List String
  trustedProxies  : List ι

-- The time of a decision, and the orders in which it goes through the maps.
structure Moment (δ : Type) where
  now         : Rat
  credentials : Iteration (String × Credential δ)
  buckets     : Iteration (String × Bucket)

inductive GateOutcome
  | admitted (credential : Option String)
  | rejected (status : Nat) (code : String) (params : List (String × String))
  deriving DecidableEq

-- What a decision does besides: its records, and the call of `allow` with a key.
structure Decision where
  outcome : GateOutcome
  records : List AuditEvent
  rate    : Option RateLimiter
  allowed : Option String
  deriving DecidableEq

section Gate

variable {δ ι : Type} [DecidableEq δ] [DecidableEq ι] (digest : String → δ) (addresses : Addresses ι)
variable (shared : Shared δ ι) (m : Moment δ) (request : Request ι)

-- The rule that a request breaks, or its credential.
def pairingGate : Except String (Option String) :=
  match shared.auth with
  | none       => .ok none
  | some store =>
    match (request.header "Authorization").bind bearerToken with
    | none       => .error "missing_credential"
    | some token =>
      match store.verify digest m.credentials token with
      | none    => .error "invalid_credential"
      | some id => .ok <| some id

def clientIpForRateLimit : String :=
  clientIpResolve addresses request.remoteAddr (request.header "X-Forwarded-For") shared.trustedProxies

def gateRequest : Decision :=
  match pairingGate digest shared m request with
  | .error rule    => ⟨.rejected 401 "UNAUTHORIZED" [("rule", rule)], [⟨.authDenied, rule⟩], shared.rate, none⟩
  | .ok credential =>
    let granted := credential.toList.map fun id => AuditEvent.mk .authGranted id
    match shared.rate with
    | none         => ⟨.admitted credential, granted, none, none⟩
    | some limiter =>
      let key := credential.getD <| clientIpForRateLimit addresses shared request
      let (allowed, limiter) := limiter.allow m.buckets m.now key
      if allowed then
        ⟨.admitted credential, granted, some limiter, some key⟩
      else
        ⟨.rejected 429 "RATE_LIMITED" [("rule", "rate_limited"), ("retry_after_seconds", "1")],
          granted ++ [⟨.rateLimited, "rate_limited"⟩], some limiter, some key⟩

-- The answer that `gate_respond` makes of a decision of its own.
def rejectedAnswer (origin : Option String) : GateOutcome → Option Response
  | .admitted _                 => none
  | .rejected status code params =>
    let bearer := if status = 401 then [("WWW-Authenticate", "Bearer")] else []
    let retry := if status = 429 then [("Retry-After", "1")] else []
    some <| withCors
      { status, code, params, headers := [("Content-Type", "application/json")] ++ bearer ++ retry } origin

end Gate

-- How a request goes on after the first part of `handle_request`.
inductive Course
  | answered (answer : Response)
  | respondEnvelope (streaming : Bool) (credential : Option String) (origin : Option String)
  | gateRespond (origin : Option String)
  deriving DecidableEq

-- What becomes of the body of a request that is admitted, and of what it asks of the kernel.
inductive Upshot
  | tooLarge
  | unreadable
  | failed (status : Nat) (code : String) (params : List (String × String))
  | protocolMismatch
  | dispatched (operationId : String)
  deriving DecidableEq

section Handle

variable {δ ι : Type} [DecidableEq δ] [DecidableEq ι] (digest : String → δ) (addresses : Addresses ι)
variable (shared : Shared δ ι) (m : Moment δ) (request : Request ι)

-- A request for an operation goes through the gate.
def gated (streaming : Bool) (origin : Option String) : Course × Option Decision :=
  let decision := gateRequest digest addresses shared m request
  match decision.outcome with
  | .admitted credential => (.respondEnvelope streaming credential origin, some decision)
  | .rejected ..         => (.gateRespond origin, some decision)

def corsPreflight (origin : String) : Response where
  status  := 204
  headers := [("Access-Control-Allow-Origin", origin), ("Vary", "Origin"),
    ("Access-Control-Allow-Methods", "GET, POST, OPTIONS"),
    ("Access-Control-Allow-Headers", "Authorization, Content-Type, Last-Event-ID"),
    ("Access-Control-Max-Age", "600")]

def route (origin : Option String) : Course × Option Decision :=
  match request.path, request.method with
  | "/meta", .get         => (.answered <| withCors { status := 200 } origin, none)
  | "/meta", _            => (.answered <| transportError 405 "VALIDATION" [] origin, none)
  | "/rpc", .post         => gated digest addresses shared m request false origin
  | "/rpc", _             => (.answered <| transportError 405 "VALIDATION" [] origin, none)
  | "/rpc/stream", .post  => gated digest addresses shared m request true origin
  | "/rpc/stream", _      => (.answered <| transportError 405 "VALIDATION" [] origin, none)
  | _, _                  => (.answered <| transportError 404 "NOT_FOUND" [] origin, none)

-- A request from elsewhere is turned down first.
def handleRequest : Course × Option Decision :=
  match request.origin with
  | none        => route digest addresses shared m request none
  | some origin =>
    if origin ∉ shared.allowedOrigins then
      let params := [("rule", "origin_not_allowed")]
      (.answered <| transportError 403 "ORIGIN_NOT_ALLOWED" params none,
        some ⟨.rejected 403 "ORIGIN_NOT_ALLOWED" params, [⟨.originDenied, "origin_not_allowed"⟩],
          shared.rate, none⟩)
    else if request.method = .options then
      (.answered <| corsPreflight origin, none)
    else
      route digest addresses shared m request (some origin)

-- A stream holds a place as long as it is open.
def respondEnvelope (streaming : Bool) (origin : Option String) (served : Upshot) :
    Response × List AuditEvent × Nat :=
  match served with
  | .tooLarge                => (transportError 413 "QUOTA_EXCEEDED"
      [("limit", toString shared.maxRequestBytes), ("rule", "request_too_large")] origin, [], shared.streams)
  | .unreadable              => (transportError 400 "CONTRACT_VIOLATION"
      [("rule", "body_read_failed")] origin, [], shared.streams)
  | .failed status code params => (transportError status code params origin, [], shared.streams)
  | .protocolMismatch        => (withCors { status := 426 } origin, [], shared.streams)
  | .dispatched operationId  =>
    if streaming && ["generation.start", "generation.retry", "generation.events"].contains operationId then
      if shared.streams ≥ shared.maxStreams then
        (transportError 429 "RATE_LIMITED"
          [("rule", "stream_limit"), ("max_streams", toString shared.maxStreams)] origin,
          [⟨.streamLimitReached, "stream_limit"⟩], shared.streams)
      else
        (withCors { status := 200 } origin, [], shared.streams + 1)
    else
      (withCors { status := 200 } origin, [], shared.streams)

end Handle
end RemoteHttp
