import NeoTavern.Lib.Lists
import NeoTavern.Network.Confinement

namespace Network

def secretsMaxLive := 16

-- The values that a request sends under a name: names are the same in any letter case.
def valuesOf (headers : Headers) (name : String) : List String :=
  (headers.filter fun h => h.fst.toList.map Char.toLower = name.toList.map Char.toLower).map (·.snd)

-- What the host is given.
structure Environment where
  parseUrl       : String → Option Url
  resolveUrl     : String → String → Option Url
  scopeProvider  : String → NetworkScope
  networkSecrets : List (String × NetworkSecret) := []

-- A fetch that runs, with the tables as it has found them.
structure Running where
  pluginId : String
  args     : SdkNetworkFetchArgs
  executor : Executor
  fetch    : Fetch

-- A call that waits for the provider is the plugin that made it. For the history, `minted` are the handles
-- there have been, with the plugin and the number of each.
structure MemoryHost where
  liveSecrets : List (String × LiveSecret) := []
  secretSeq   : Nat := 0
  uses        : List (Option String) := []
  fetches     : List Running := []
  minted      : List (String × String × Nat) := []

-- The provider answers or fails, and a hop of a fetch takes place.
inductive Event
  | use (pluginId : String)
  | answer (use : Nat) (secret : NetworkSecret)
  | fail (use : Nat)
  | revoke (pluginId : String)
  | fetch (pluginId : String) (args : SdkNetworkFetchArgs)
  | hop (fetch : Nat) (answer : Answer)

namespace MemoryHost

variable (env : Environment) (s : MemoryHost)

def owned (pluginId : String) : Nat :=
  s.liveSecrets.countP (·.snd.pluginId = pluginId)

def waiting (pluginId : String) : Nat :=
  s.uses.count (some pluginId)

def handle (pluginId : String) (n : Nat) : String :=
  "sec-" ++ String.ofList (pluginId.toList.take 16) ++ "-" ++ toString n

def executor (pluginId : String) : Executor where
  parseUrl       := env.parseUrl
  resolveUrl     := env.resolveUrl
  scope          := env.scopeProvider pluginId
  liveSecrets    := s.liveSecrets
  networkSecrets := env.networkSecrets

def step (s : MemoryHost) : Event → MemoryHost
  | .use pluginId          =>
    if secretsMaxLive ≤ s.owned pluginId then s else { s with uses := s.uses ++ [some pluginId] }
  | .answer use secret     =>
    match s.uses[use]? with
    | some (some pluginId) =>
      let handle := handle pluginId (s.secretSeq + 1)
      { s with
        uses        := s.uses.set use none
        secretSeq   := s.secretSeq + 1
        liveSecrets := s.liveSecrets ++ [(handle, { pluginId, secret })]
        minted      := s.minted ++ [(handle, pluginId, s.secretSeq + 1)]
      }
    | _                    => s
  | .fail use              => { s with uses := s.uses.set use none }
  | .revoke pluginId       => { s with liveSecrets := s.liveSecrets.filter (·.snd.pluginId ≠ pluginId) }
  | .fetch pluginId args   =>
    let executor := s.executor env pluginId
    { s with fetches := s.fetches ++ [{ pluginId, args, executor, fetch := executor.start args pluginId }] }
  | .hop fetch answer      =>
    { s with
      fetches := s.fetches.modify fetch fun f => { f with fetch := f.executor.step f.args f.fetch answer }
    }

-- The secrets that an id names.
def Names (secretId : String) (secret : NetworkSecret) : Prop :=
  (∃ live, s.liveSecrets.lookup secretId = some live ∧ live.secret = secret) ∨
  env.networkSecrets.lookup secretId = some secret

end MemoryHost

-- A header of the caller gives way to one of the secret, or has nothing to do with any of them.
def Apart (headers secret : Headers) : Prop :=
  ∀ h ∈ headers, (∃ g ∈ secret, g.fst = h.fst) ∨
    ∀ g ∈ secret, h.fst.toList.map Char.toLower ≠ g.fst.toList.map Char.toLower

-- The values of the secret, at its origin and nowhere else.
def Guarded (headers : Headers) (resolved : ResolvedSecret) (r : Request) : Prop :=
  if r.url.origin = resolved.secretOrigin then
    ∀ g ∈ resolved.secret.headers, valuesOf r.init.headers g.fst = valuesOf resolved.secret.headers g.fst
  else
    r.init.headers = headers

namespace Executor

variable {x : Executor} {args : SdkNetworkFetchArgs} {s : Fetch} {answer : Answer} {parsed : Url}
  {resolved : ResolvedSecret} {headers secret : Headers}

theorem valuesOf_spread (h : Apart headers secret) {name : String} (hname : ∃ g ∈ secret, g.fst = name) :
    valuesOf (spread headers secret) name = valuesOf secret name := by
  have hnone : (headers.filter fun h => secret.all (·.fst ≠ h.fst)).filter
      (fun h => h.fst.toList.map Char.toLower = name.toList.map Char.toLower) = [] := by
    rw [List.filter_eq_nil_iff]
    intro g hg hlower
    have ⟨hmem, hall⟩ := List.mem_filter.mp hg
    simp only [List.all_eq_true, decide_eq_true_eq] at hall hlower
    cases h g hmem
    case inl hsame =>
      have ⟨g', hg', heq⟩ := hsame
      exact hall g' hg' heq
    case inr hother =>
      have ⟨g', hg', heq⟩ := hname
      exact hother g' hg' <| by rw [hlower, heq]
  rw [valuesOf, spread, List.filter_append, hnone, List.nil_append, valuesOf]

theorem guarded_requestInit {addresses : List Address} (hs : s.resolvedSecret = some resolved)
    (h : Apart (args.headers.getD []) resolved.secret.headers) :
    Guarded (args.headers.getD []) resolved ⟨parsed, addresses, requestInit args s parsed⟩ := by
  rw [Guarded]
  simp only [requestInit, hs]
  split
  case isTrue  => exact fun g hg => valuesOf_spread h ⟨g, hg, rfl⟩
  case isFalse => rfl

theorem receive_resolvedSecret {response : Option Response} :
    (x.receive args s response).resolvedSecret = s.resolvedSecret := by
  cases response
  case none          => rfl
  case some response =>
    rw [receive]
    split
    case h_1 => rfl
    case h_2 =>
      split
      case isTrue  => rfl
      case isFalse =>
        split
        case isTrue  => rfl
        case isFalse => split <;> rfl

theorem step_resolvedSecret : (x.step args s answer).resolvedSecret = s.resolvedSecret := by
  rw [Executor.step]
  dsimp only
  split
  case isTrue  => rfl
  case isFalse =>
    cases x.parseUrl s.currentUrl
    case none        => rfl
    case some parsed =>
      dsimp only
      split
      case isTrue  => rfl
      case isFalse =>
        cases if looksLikeIp parsed.host.hostname then some [] else answer.lookup
        case none           => rfl
        case some addresses =>
          dsimp only
          cases checkDestination parsed.host.hostname s.isRedirectHop x.scope addresses
          case error e => rfl
          case ok u    =>
            dsimp only
            split
            case isTrue  => rfl
            case isFalse => exact receive_resolvedSecret

theorem guarded_step (hs : s.resolvedSecret = some resolved)
    (h : Apart (args.headers.getD []) resolved.secret.headers)
    (hrequests : ∀ r ∈ s.requests, Guarded (args.headers.getD []) resolved r) :
    ∀ r ∈ (x.step args s answer).requests, Guarded (args.headers.getD []) resolved r := by
  by_cases hgoes : ∃ parsed addresses, x.Goes s answer parsed addresses
  case neg =>
    rw [step_requests fun parsed addresses hg => hgoes ⟨parsed, addresses, hg⟩]
    exact hrequests
  case pos =>
    have ⟨parsed, addresses, hg⟩ := hgoes
    rw [hg.step, List.forall_mem_append]
    refine ⟨hrequests, fun r hr => ?_⟩
    rw [List.mem_singleton.mp hr]
    exact guarded_requestInit hs h

end Executor

namespace MemoryHost

variable {env : Environment} {s : MemoryHost} {e : Event} {pluginId : String}

-- A plugin starts no call that there will be no room for, and no fetch whose headers meet those of its
-- secret in another letter case.
def Regular (env : Environment) (s : MemoryHost) : Event → Prop
  | .use pluginId   => s.owned pluginId < secretsMaxLive → s.owned pluginId + s.waiting pluginId < secretsMaxLive
  | .fetch _ args   => ∀ secretId, args.secretId = some secretId → ∀ secret, s.Names env secretId secret →
    Apart (args.headers.getD []) secret.headers
  | _               => True

structure Safe (env : Environment) (s : MemoryHost) : Prop where
  guarded : ∀ f ∈ s.fetches, ∀ resolved, f.fetch.resolvedSecret = some resolved →
    ∀ r ∈ f.fetch.requests, Guarded (f.args.headers.getD []) resolved r
  unknown : ∀ m ∈ s.minted, ∀ pluginId, pluginId ≠ m.snd.fst → ∀ args : SdkNetworkFetchArgs,
    args.secretId = some m.fst →
      (s.executor env pluginId).resolveSecret args pluginId = .error (.secretNotFound m.fst)
  bounded : ∀ pluginId, s.owned pluginId ≤ secretsMaxLive

structure Inv (s : MemoryHost) : Prop where
  handles : ∀ m ∈ s.minted, m.fst = handle m.snd.fst m.snd.snd ∧ m.snd.snd ≤ s.secretSeq
  unique  : (s.minted.map (·.snd.snd)).Nodup
  live    : ∀ l ∈ s.liveSecrets, ∃ n, (l.fst, l.snd.pluginId, n) ∈ s.minted
  room    : ∀ pluginId, s.owned pluginId + s.waiting pluginId ≤ secretsMaxLive
  fetches : ∀ f ∈ s.fetches, ∀ resolved, f.fetch.resolvedSecret = some resolved →
    Apart (f.args.headers.getD []) resolved.secret.headers ∧
    ∀ r ∈ f.fetch.requests, Guarded (f.args.headers.getD []) resolved r

theorem isPrefixOf_handle {p : String} {n : Nat} : "sec-".toList.isPrefixOf (handle p n).toList := by
  simp [handle]

theorem mem_of_lookup {α : Type} {l : List (String × α)} {k : String} {v : α} (h : l.lookup k = some v) :
    (k, v) ∈ l := by
  have ⟨l₁, l₂, heq, _⟩ := List.lookup_eq_some_iff.mp h
  simp [heq]

theorem Inv.safe (h : s.Inv) : Safe env s := by
  constructor
  case guarded => exact fun f hf resolved hr => (h.fetches f hf resolved hr).right
  case bounded =>
    intro pluginId
    exact (Nat.le_add_right _ _).trans <| h.room pluginId
  case unknown =>
    intro m hm pluginId hne args hid
    have ⟨hhandle, _⟩ := h.handles m hm
    have hprefix : "sec-".toList.isPrefixOf m.fst.toList := by
      rw [hhandle]
      exact isPrefixOf_handle
    rw [Executor.resolveSecret, hid]
    dsimp only
    rw [if_pos hprefix]
    cases hl : (s.executor env pluginId).liveSecrets.lookup m.fst
    case none => rfl
    case some live =>
      have ⟨n, hmem⟩ := h.live _ <| mem_of_lookup hl
      have hnumber : m.snd.snd = n := NumberedNames.number_eq <| hhandle.symm.trans (h.handles _ hmem).left
      have heq := List.inj_on_of_nodup_map h.unique hm hmem hnumber
      have hother : live.pluginId ≠ pluginId := by
        rw [heq] at hne
        exact hne.symm
      dsimp only
      rw [if_pos hother]

theorem names_of_resolveSecret {args : SdkNetworkFetchArgs} {resolved : ResolvedSecret}
    (h : (s.executor env pluginId).resolveSecret args pluginId = .ok (some resolved)) :
    ∃ secretId, args.secretId = some secretId ∧ s.Names env secretId resolved.secret := by
  rw [Executor.resolveSecret] at h
  split at h
  case h_1 => cases h
  case h_2 secretId hid =>
    refine ⟨secretId, hid, ?_⟩
    split at h
    case isTrue =>
      split at h
      case h_1 => cases h
      case h_2 live hl =>
        split at h
        case isTrue => cases h
        case isFalse =>
          cases h
          exact .inl ⟨live, hl, rfl⟩
    case isFalse =>
      split at h
      case h_1 => cases h
      case h_2 secret hl =>
        split at h
        case h_1 => cases h
        case h_2 =>
          cases h
          exact .inr hl

theorem Inv.use (h : s.Inv) (hreg : Regular env s (.use pluginId)) : (s.step env (.use pluginId)).Inv := by
  rw [step]
  split
  case isTrue => exact h
  case isFalse hlt =>
    refine ⟨h.handles, h.unique, h.live, fun other => ?_, h.fetches⟩
    have hroom := h.room other
    have hwaiting : { s with uses := s.uses ++ [some pluginId] }.waiting other =
        s.waiting other + if some pluginId = some other then 1 else 0 := by
      rw [waiting, waiting, List.count_append, List.count_singleton]
      simp
    rw [hwaiting]
    split
    case isFalse => exact hroom
    case isTrue heq =>
      cases heq
      exact hreg <| Nat.lt_of_not_le hlt

theorem waiting_set {use : Nat} {p : Option String} (huse : s.uses[use]? = some p) (other : String) :
    { s with uses := s.uses.set use none }.waiting other + (if p = some other then 1 else 0) = s.waiting other := by
  have ⟨hlt, hget⟩ := List.getElem?_eq_some_iff.mp huse
  rw [waiting, waiting, List.count_set hlt, hget]
  by_cases hp : p = some other
  case neg => simp [hp]
  case pos =>
    have hpos : 0 < s.uses.count (some other) := List.count_pos_iff.mpr <| hp ▸ List.mem_of_getElem? huse
    simp only [hp, beq_self_eq_true, if_true, reduceCtorEq, beq_iff_eq, if_false, Nat.add_zero]
    omega

theorem Inv.answer {use : Nat} {secret : NetworkSecret} (h : s.Inv) : (s.step env (.answer use secret)).Inv := by
  rw [step]
  split
  case h_2 => exact h
  case h_1 pluginId huse =>
    constructor
    case fetches => exact h.fetches
    case handles =>
      intro m hm
      cases List.mem_append.mp hm
      case inl hm => exact ⟨(h.handles m hm).left, Nat.le_succ_of_le (h.handles m hm).right⟩
      case inr hm =>
        rw [List.mem_singleton.mp hm]
        exact ⟨rfl, le_rfl⟩
    case unique =>
      rw [List.map_append, List.nodup_append]
      refine ⟨h.unique, List.nodup_singleton _, fun n hn n' hn' heq => ?_⟩
      obtain ⟨m, hm, hmn⟩ := List.mem_map.mp hn
      have hle := (h.handles m hm).right
      simp only [List.map_singleton, List.mem_singleton] at hn'
      omega
    case live =>
      intro l hl
      cases List.mem_append.mp hl
      case inl hl =>
        obtain ⟨n, hn⟩ := h.live l hl
        exact ⟨n, List.mem_append_left _ hn⟩
      case inr hl =>
        rw [List.mem_singleton.mp hl]
        exact ⟨s.secretSeq + 1, List.mem_append_right _ <| List.mem_singleton_self _⟩
    case room =>
      intro other
      have hroom := h.room other
      have hwaiting := waiting_set huse other
      have howned : (s.liveSecrets ++ [(handle pluginId (s.secretSeq + 1), (⟨pluginId, secret⟩ : LiveSecret))]).countP
          (·.snd.pluginId = other) = s.owned other + if some pluginId = some other then 1 else 0 := by
        rw [owned, List.countP_append, List.countP_singleton]
        simp
      rw [← hwaiting] at hroom
      rw [owned, howned]
      have heq : { s with uses := s.uses.set use none }.waiting other =
          (s.uses.set use none).count (some other) := rfl
      rw [heq] at hroom
      rw [waiting]
      dsimp only
      omega

theorem Inv.fail {use : Nat} (h : s.Inv) : (s.step env (.fail use)).Inv := by
  refine ⟨h.handles, h.unique, h.live, fun pluginId => ?_, h.fetches⟩
  apply (Nat.add_le_add_left _ _).trans <| h.room pluginId
  cases huse : s.uses[use]?
  case some p =>
    rw [← waiting_set huse pluginId]
    exact Nat.le_add_right _ _
  case none =>
    have hset : s.uses.set use none = s.uses := List.set_eq_of_length_le <| List.getElem?_eq_none_iff.mp huse
    rw [step, hset]

theorem Inv.revoke (h : s.Inv) : (s.step env (.revoke pluginId)).Inv := by
  constructor
  case handles => exact h.handles
  case unique  => exact h.unique
  case fetches => exact h.fetches
  case live    => exact fun l hl => h.live l (List.mem_filter.mp hl).left
  case room    =>
    intro other
    apply (Nat.add_le_add_right _ _).trans <| h.room other
    exact List.filter_sublist.countP_le

theorem Inv.fetch {args : SdkNetworkFetchArgs} (h : s.Inv) (hreg : Regular env s (.fetch pluginId args)) :
    (s.step env (.fetch pluginId args)).Inv := by
  refine ⟨h.handles, h.unique, h.live, h.room, fun f hf resolved hresolved => ?_⟩
  cases List.mem_append.mp hf
  case inl hf => exact h.fetches f hf resolved hresolved
  case inr hf =>
    rw [List.mem_singleton.mp hf] at hresolved ⊢
    simp only at hresolved ⊢
    constructor
    case left =>
      rw [Executor.start] at hresolved
      split at hresolved
      case h_1 => cases hresolved
      case h_2 found hfound =>
        have hsome : found = some resolved := hresolved
        rw [hsome] at hfound
        obtain ⟨secretId, hid, hnames⟩ := names_of_resolveSecret hfound
        exact hreg secretId hid resolved.secret hnames
    case right =>
      rw [Executor.start_requests]
      simp

theorem Inv.hop {fetch : Nat} {answer : Answer} (h : s.Inv) : (s.step env (.hop fetch answer)).Inv := by
  refine ⟨h.handles, h.unique, h.live, h.room, fun f hf resolved hresolved => ?_⟩
  have ⟨i, hi⟩ := List.getElem?_of_mem hf
  rw [step, List.getElem?_modify] at hi
  have ⟨old, hold, heq⟩ := Option.map_eq_some_iff.mp hi
  have hmem := List.mem_of_getElem? hold
  by_cases hfetch : fetch = i
  case neg =>
    rw [if_neg hfetch] at heq
    exact h.fetches f (heq ▸ hmem) resolved hresolved
  case pos =>
    rw [if_pos hfetch] at heq
    rw [← heq] at hresolved ⊢
    have hbefore : old.fetch.resolvedSecret = some resolved := by
      rw [← hresolved]
      exact Executor.step_resolvedSecret.symm
    have ⟨hapart, hguarded⟩ := h.fetches old hmem resolved hbefore
    exact ⟨hapart, Executor.guarded_step hbefore hapart hguarded⟩

theorem step_inv (h : s.Inv) (hreg : Regular env s e) : (s.step env e).Inv := by
  cases e
  case use    => exact h.use hreg
  case answer => exact h.answer
  case fail   => exact h.fail
  case revoke => exact h.revoke
  case fetch  => exact h.fetch hreg
  case hop    => exact h.hop

theorem inv_empty : ({} : MemoryHost).Inv where
  handles _ h := absurd h List.not_mem_nil
  unique      := List.nodup_nil
  live _ h    := absurd h List.not_mem_nil
  room _      := Nat.zero_le _
  fetches _ h := absurd h List.not_mem_nil

-- In every run that keeps to what is regular, a secret stays with its origin and its owner, whatever the
-- net and the provider answer and in whatever order.
theorem safe_throughout (env : Environment) (es : List Event) (h : Runs.Meets (step env) (Regular env) {} es) :
    Runs.Throughout (step env) (Safe env) {} es := by
  have hinv : Runs.Throughout (step env) Inv {} es :=
    Runs.throughout_of_meets (fun _ _ hs hreg => step_inv hs hreg) inv_empty h
  exact hinv.mono fun _ hs => hs.safe

private def apiUrl : Url where
  href     := "http://203.0.114.7/"
  protocol := "http:"
  host     := .v4 ⟨203, 0, 114, 7⟩
  origin   := "http://203.0.114.7"

private def apiSecret : NetworkSecret where
  origin  := apiUrl.origin
  headers := [("Authorization", "Bearer s")]

private def apiEnvironment : Environment where
  parseUrl text   := if text = apiUrl.href then some apiUrl else none
  resolveUrl _ _  := none
  scopeProvider _ := { «local» := false, «private» := false, metadata := false }

private def apiFetch (name : String) : SdkNetworkFetchArgs where
  url      := apiUrl.href
  headers  := some [(name, "x")]
  secretId := some "sec-p-1"

private def apiAnswer : Answer where
  lookup   := some []
  response := some { status := 200, statusText := "OK", headers := [], text := "" }

private def apiRun (name : String) : List Event :=
  [.use "p", .answer 0 apiSecret, .fetch "p" (apiFetch name), .hop 0 apiAnswer]

private def apiResolved : ResolvedSecret where
  secret       := apiSecret
  secretOrigin := apiUrl.origin

private def apiRequest : Request where
  url       := apiUrl
  addresses := []
  init      := { method := "GET", headers := [("authorization", "x"), ("Authorization", "Bearer s")], body := none }

-- A header of the caller in another letter case goes out beside that of the secret.
theorem not_guarded_lowercase :
    ¬Runs.Throughout (step apiEnvironment) (Safe apiEnvironment) {} (apiRun "authorization") := by
  intro h
  have hfetch : ∃ f ∈ ((apiRun "authorization").foldl (step apiEnvironment) {}).fetches,
      f.fetch.resolvedSecret = some apiResolved ∧ apiRequest ∈ f.fetch.requests := by
    decide +kernel
  have ⟨f, hf, hresolved, hrequest⟩ := hfetch
  have hguarded := h.last.guarded f hf apiResolved hresolved apiRequest hrequest
  have horigin : apiRequest.url.origin = apiResolved.secretOrigin := rfl
  rw [Guarded, if_pos horigin] at hguarded
  have hvalues := hguarded ("Authorization", "Bearer s") (List.mem_singleton_self _)
  revert hvalues
  decide +kernel

theorem safe_throughout_accept :
    Runs.Throughout (step apiEnvironment) (Safe apiEnvironment) {} (apiRun "Accept") := by
  apply safe_throughout
  refine ⟨fun _ => by decide, trivial, ?_, trivial, trivial⟩
  intro secretId hid secret hnames
  cases hid
  have hsecret : secret = apiSecret := by
    cases hnames
    case inl hlive =>
      have ⟨live, hlookup, heq⟩ := hlive
      have hlookup' : some (⟨"p", apiSecret⟩ : LiveSecret) = some live := by
        rw [← hlookup]
        decide +kernel
      cases hlookup'
      exact heq.symm
    case inr hnone => cases hnone
  rw [hsecret, Apart]
  decide +kernel

end MemoryHost
end Network
