import NeoTavern.Lib.Runs
import NeoTavern.Network.Destination

namespace Network

open Internet

def networkMaxRedirects := 8
def networkMaxHeaders := 32
def networkMaxBodyBytes := 8 * 1024 * 1024

structure Url where
  href     : String
  protocol : String
  host     : Host
  origin   : String
  deriving DecidableEq

abbrev Headers := List (String × String)

structure SdkNetworkFetchArgs where
  url      : String
  method   : Option String := none
  headers  : Option Headers := none
  body     : Option String := none
  redirect : Option String := none
  secretId : Option String := none
  deriving DecidableEq

structure NetworkSecret where
  origin  : String
  headers : Headers
  deriving DecidableEq

structure LiveSecret where
  pluginId : String
  secret   : NetworkSecret
  deriving DecidableEq

structure ResolvedSecret where
  secret       : NetworkSecret
  secretOrigin : String
  deriving DecidableEq

structure RequestInit where
  method  : String
  headers : Headers
  body    : Option String
  deriving DecidableEq

-- A request that has been issued, with what the lookup of its host has given.
structure Request where
  url       : Url
  addresses : List Address
  init      : RequestInit
  deriving DecidableEq

structure Response where
  status     : Nat
  statusText : String
  headers    : Headers
  text       : String
  deriving DecidableEq

structure SdkNetworkFetchResult where
  status     : Nat
  statusText : String
  headers    : Headers
  body       : String
  url        : String
  redirects  : List String
  deriving DecidableEq

inductive Outcome
  | resolved (result : SdkNetworkFetchResult)
  | rejected (error : BrokerCallError)
  deriving DecidableEq

-- What a plugin's executor is given: the parser of URLs, the plugin's reach and the secrets.
structure Executor where
  parseUrl       : String → Option Url
  resolveUrl     : String → String → Option Url
  scope          : NetworkScope
  liveSecrets    : List (String × LiveSecret) := []
  networkSecrets : List (String × NetworkSecret) := []

-- What the net answers in one hop. A lookup and a request can fail.
structure Answer where
  lookup   : Option (List Address)
  response : Option Response
  deriving DecidableEq

structure Fetch where
  resolvedSecret : Option ResolvedSecret := none
  currentUrl     : String
  redirects      : List String := []
  isRedirectHop  : Bool := false
  hop            : Nat := 0
  requests       : List Request := []
  outcome        : Option Outcome := none
  deriving DecidableEq

namespace Executor

def resolveSecret (x : Executor) (args : SdkNetworkFetchArgs) (pluginId : String) :
    Except BrokerCallError (Option ResolvedSecret) :=
  match args.secretId with
  | none          => .ok none
  | some secretId =>
    if "sec-".toList.isPrefixOf secretId.toList then
      match x.liveSecrets.lookup secretId with
      | none      => .error <| .secretNotFound secretId
      | some live =>
        if live.pluginId ≠ pluginId then
          .error <| .secretNotFound secretId
        else
          .ok <| some { secret := live.secret, secretOrigin := live.secret.origin }
    else
      match x.networkSecrets.lookup secretId with
      | none        => .error <| .secretNotFound secretId
      | some secret =>
        match x.parseUrl secret.origin with
        | none     => .error .secretInvalid
        | some url => .ok <| some { secret, secretOrigin := url.origin }

def start (x : Executor) (args : SdkNetworkFetchArgs) (pluginId : String) : Fetch :=
  match x.resolveSecret args pluginId with
  | .error e           => { currentUrl := args.url, outcome := some <| .rejected e }
  | .ok resolvedSecret => { currentUrl := args.url, resolvedSecret }

-- Later headers replace earlier ones of the same name.
def spread (headers more : Headers) : Headers :=
  headers.filter (fun h => more.all (·.fst ≠ h.fst)) ++ more

def responseEnvelope (response : Response) (finalUrl : String) (redirects : List String) :
    SdkNetworkFetchResult where
  status     := response.status
  statusText := response.statusText
  headers    := response.headers.take networkMaxHeaders
  body       :=
    if response.text.length > networkMaxBodyBytes then
      String.ofList (response.text.toList.take networkMaxBodyBytes)
    else
      response.text
  url        := finalUrl
  redirects

def requestInit (args : SdkNetworkFetchArgs) (s : Fetch) (parsed : Url) : RequestInit :=
  let headers := args.headers.getD []
  let method := args.method.getD "GET"
  let hopHeaders := match s.resolvedSecret with
    | none                => headers
    | some resolvedSecret =>
      if parsed.origin = resolvedSecret.secretOrigin then
        spread headers resolvedSecret.secret.headers
      else
        headers
  { method, headers := hopHeaders, body := if method ≠ "GET" && method ≠ "HEAD" then args.body else none }

-- What becomes of a hop once its request is on its way.
def receive (x : Executor) (args : SdkNetworkFetchArgs) (s : Fetch) : Option Response → Fetch
  | none          => { s with outcome := some <| .rejected .rejected }
  | some response =>
    let envelope := { s with
      outcome := some <| .resolved <| responseEnvelope response s.currentUrl s.redirects
    }
    match response.headers.lookup "location" with
    | none          => envelope
    | some location =>
      if ¬(300 ≤ response.status ∧ response.status < 400) then
        envelope
      else if args.redirect = some "manual" then
        envelope
      else
        match x.resolveUrl location s.currentUrl with
        | none      => { s with outcome := some <| .rejected .rejected }
        | some next => { s with
            redirects     := s.redirects ++ [next.href]
            currentUrl    := next.href
            isRedirectHop := true
            hop           := s.hop + 1
            outcome       :=
              if s.hop + 1 > networkMaxRedirects then
                some <| .rejected <| .tooManyRedirects (networkMaxRedirects + 1)
              else
                none
          }

def mismatch (s : Fetch) (parsed : Url) : Bool :=
  match s.resolvedSecret with
  | none                => false
  | some resolvedSecret => !s.isRedirectHop && parsed.origin ≠ resolvedSecret.secretOrigin

-- One turn of the loop of `performFetch`.
def step (x : Executor) (args : SdkNetworkFetchArgs) (s : Fetch) (answer : Answer) : Fetch :=
  let reject (e : BrokerCallError) : Fetch := { s with outcome := some <| .rejected e }
  if s.outcome.isSome then
    s
  else
    match x.parseUrl s.currentUrl with
    | none        => reject <| .invalidUrl s.currentUrl
    | some parsed =>
      if parsed.protocol ≠ "http:" && parsed.protocol ≠ "https:" then
        reject <| .schemeDenied s.isRedirectHop parsed.protocol
      else
        match if looksLikeIp parsed.host.hostname then some [] else answer.lookup with
        | none           => reject .rejected
        | some addresses =>
          match checkDestination parsed.host.hostname s.isRedirectHop x.scope addresses with
          | .error e => reject e
          | .ok _    =>
            if mismatch s parsed then
              reject <| .secretOriginMismatch args.secretId parsed.origin
            else
              let request := { url := parsed, addresses, init := requestInit args s parsed }
              x.receive args { s with requests := s.requests ++ [request] } answer.response

def performFetch (x : Executor) (args : SdkNetworkFetchArgs) (pluginId : String)
    (answers : List Answer) : Fetch :=
  answers.foldl (x.step args) (x.start args pluginId)

end Executor

end Network
