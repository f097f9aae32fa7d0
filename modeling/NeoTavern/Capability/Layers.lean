import NeoTavern.Broker.Policy
import NeoTavern.Broker.Schedules
import NeoTavern.Capability.Histories
import NeoTavern.Runtime.Backpressure

namespace Regrant

open Broker (BrokerCallError PolicyCall Policy assertBrokerCallShape authorize pairKey maxDeadlineMs)
open Capability (GrantEntry Origins Scope)
open Forwarding (AdmitParams BrokerWorkerRef)

-- The body of a BROKER_REVOKE frame.
structure BrokerRevokeBody where
  pluginId : String
  name     : Option String
  reason   : Option String
  deriving DecidableEq

-- The rows of the database, the core of the host, the frames that are on their way to the runtime, and
-- the core of the runtime.
structure System (P R : Type) where
  table   : Capability.Broker P := {}
  host    : Broker.Core R := {}
  frames  : List BrokerRevokeBody := []
  runtime : Forwarding.Core R := {}

-- What the cores do besides taking requests and revocations goes on beside that.
inductive Event (P R : Type)
  | table (e : Capability.Event P)
  | grant (pluginId name : String) (scope : Option (Scope P)) (now : Int)
  | rpcRequest (call : PolicyCall) (now : Int)
  | host (e : Broker.Event R) (hs : ∀ call decision now, e ≠ .submit call decision now)
      (hr : ∀ pluginId name reason, e ≠ .revoke pluginId name reason)
  | revoke (body : BrokerRevokeBody)
  | brokerRevoke
  | runtime (e : Forwarding.Event R) (hr : ∀ pluginId name reason, e ≠ .revoke pluginId name reason)
  | runtimeSpawn

-- The envelope of a call as the runtime reads it.
def paramsOf (call : PolicyCall) (worker : BrokerWorkerRef) : AdmitParams where
  requestId      := call.requestId
  pluginId       := call.pluginId
  capabilityName := call.capabilityName
  causalChain    := call.causalChain
  deadlineAt     := call.deadlineAt
  worker

-- Whether the sets of a core tell that a capability of a plugin is revoked.
def BrokerRevokeBody.Covers (body : BrokerRevokeBody) (p n : String) : Prop :=
  match body.name with
  | none      => body.pluginId = p
  | some name => pairKey body.pluginId name = pairKey p n

namespace System

variable {P R : Type} (policy : Policy R) (maxInflight : Nat)

def rejection (s : System P R) (call : PolicyCall) (now : Int) : Option (BrokerCallError R) :=
  s.host.rejection policy maxInflight (s.table.activeGrants call.pluginId now) call now

variable [Origins]

def step (s : System P R) : Event P R → System P R
  | .table e                       => { s with table := s.table.step e }
  | .grant pluginId name scope now => { s with table := s.table.grant pluginId name scope now }
  | .rpcRequest call now           =>
    let grants := s.table.activeGrants call.pluginId now
    { s with host := s.host.handleRpcRequest policy maxInflight grants call now }
  | .host e _ _                    => { s with host := s.host.step e }
  | .revoke body                   => { s with
      host   := s.host.revoke body.pluginId body.name body.reason
      frames := s.frames ++ [body]
    }
  | .brokerRevoke                  =>
    match s.frames with
    | []             => s
    | body :: frames =>
      { s with frames, runtime := s.runtime.revoke body.pluginId body.name body.reason }
  | .runtime e _                   => { s with runtime := s.runtime.step e }
  | .runtimeSpawn                  =>
    { s with frames := [], runtime := { maxInflight := s.runtime.maxInflight } }

def run (s : System P R) (events : List (Event P R)) : System P R :=
  events.foldl (step policy maxInflight) s

end System

section Revoked

variable {R : Type} {p n : String} {body : BrokerRevokeBody}

-- What a revocation does to the sets of a core.
theorem isRevoked_add (pairs plugins : List String) (body : BrokerRevokeBody) (p n : String) :
    (match body.name with
      | none      => (plugins ++ [body.pluginId]).contains p || pairs.contains (pairKey p n)
      | some name => plugins.contains p || (pairs ++ [pairKey body.pluginId name]).contains (pairKey p n)) ↔
    (plugins.contains p || pairs.contains (pairKey p n)) ∨ body.Covers p n := by
  unfold BrokerRevokeBody.Covers
  cases body.name
  all_goals
    simp only [List.contains_append, List.contains_cons, List.contains_nil, Bool.or_false, Bool.or_eq_true,
      beq_iff_eq]
    constructor
    all_goals
      intro h
      grind

theorem host_revoke_iff (body : BrokerRevokeBody) (s : Broker.Core R) :
    (s.revoke body.pluginId body.name body.reason).isRevoked p n ↔ s.isRevoked p n ∨ body.Covers p n := by
  rcases body with ⟨pluginId, name, reason⟩
  rw [Broker.Core.isRevoked, Broker.Core.isRevoked, ← isRevoked_add]
  dsimp only
  have hfold (name : Option String) (t : Broker.Core R) : _ ∧ _ :=
    (Broker.Core.foldl_abortEntry pluginId name reason t.inFlight t).right.right
  cases name
  case none =>
    obtain ⟨hpairs, hplugins⟩ := hfold none { s with revokedPlugins := s.revokedPlugins ++ [pluginId] }
    rw [Broker.Core.revoke, Broker.Core.abortInFlight, hpairs, hplugins]
  case some name =>
    obtain ⟨hpairs, hplugins⟩ := hfold (some name) { s with
      revokedPairs := s.revokedPairs ++ [pairKey pluginId name] }
    rw [Broker.Core.revoke, Broker.Core.abortInFlight, hpairs, hplugins]

theorem runtime_revoke_iff (s : Forwarding.Core R) :
    (s.revoke body.pluginId body.name body.reason).isRevoked p n ↔ s.isRevoked p n ∨ body.Covers p n := by
  rcases body with ⟨pluginId, name, reason⟩
  rw [Forwarding.Core.isRevoked, Forwarding.Core.isRevoked, ← isRevoked_add]
  cases name
  case none   => rfl
  case some _ => rfl

-- Nothing but a revocation adds to the sets.
theorem host_isRevoked_step {e : Broker.Event R} (s : Broker.Core R)
    (hr : ∀ pluginId name reason, e ≠ .revoke pluginId name reason) :
    (s.step e).isRevoked p n = s.isRevoked p n := by
  rw [Broker.Core.isRevoked, Broker.Core.isRevoked]
  cases e
  case revoke pluginId name reason => exact absurd rfl (hr pluginId name reason)
  case submit call decision now    =>
    rcases Broker.Core.submit_cases s call decision now with ⟨error, heq⟩ | ⟨_, _, heq⟩
    all_goals rw [Broker.Core.step, heq]
  case complete k outcome =>
    rcases Broker.Core.complete_cases s k outcome with heq | ⟨_, _, _, heq⟩
    all_goals rw [Broker.Core.step, heq]
  case shutdown =>
    obtain ⟨_, hpairs, hplugins⟩ := Broker.Core.foldl_abort
      { code := Broker.BrokerErrorCode.capabilityRevoked, message := "broker shutting down" } s.inFlight s
    rw [Broker.Core.step, Broker.Core.shutdown]
    dsimp only
    rw [hpairs, hplugins]
  case deadline k =>
    rw [Broker.Core.step, Broker.Core.deadline]
    split
    case h_2 => rfl
    case h_1 =>
      dsimp only
      split <;> rfl

theorem runtime_isRevoked_step {e : Forwarding.Event R} (s : Forwarding.Core R)
    (hr : ∀ pluginId name reason, e ≠ .revoke pluginId name reason) :
    (s.step e).isRevoked p n = s.isRevoked p n := by
  rw [Forwarding.Core.isRevoked, Forwarding.Core.isRevoked]
  cases e
  case revoke pluginId name reason => exact absurd rfl (hr pluginId name reason)
  case rpcResponse                 => rfl
  case shutdown                    => rfl
  case workerSpawn                 => rfl
  case workerExit                  => rfl
  case submit params sent now =>
    rw [Forwarding.Core.step, Forwarding.Core.admitAndRegister]
    split
    · rfl
    · dsimp only
      split <;> rfl
  case rpcResponseData worker requestId =>
    rw [Forwarding.Core.step, Forwarding.Core.post]
    split <;> rfl
  case rpcResponseStream worker requestId final =>
    rw [Forwarding.Core.step, Forwarding.Core.post]
    split
    · split <;> rfl
    · rfl
  case deadline k =>
    rw [Forwarding.Core.step, Forwarding.Core.deadline]
    split <;> rfl

end Revoked

section Admission

variable {P R : Type} {policy : Policy R} {maxInflight : Nat} {call : PolicyCall} {now : Int}

theorem authorize_eq_allowed_iff {grants : List (Capability.CapabilityGrant P)}
    (hcap : policy.catalog call.method = some (some call.capabilityName)) :
    authorize policy grants call = .allowed ↔
      ∃ g, grants.find? (·.name = call.capabilityName) = some g ∧ (∀ r ∈ call.revision, r = g.revision) ∧
        (policy.trusted call.capabilityName → call.trustLevel = .trusted) := by
  rw [authorize, hcap]
  simp only [ne_eq, not_true_eq_false, if_false]
  cases grants.find? (·.name = call.capabilityName)
  case none   => simp
  case some g => cases call.revision <;> simp [ite_eq_iff]

theorem rejection_eq_none_iff {s : Broker.Core R} {grants : List (Capability.CapabilityGrant P)} :
    s.rejection policy maxInflight grants call now = none ↔
      assertBrokerCallShape call.toBrokerCallRequest ∧ s.pendingCount < maxInflight ∧
        (now ≤ call.deadlineAt ∧ call.deadlineAt ≤ now + maxDeadlineMs) ∧ call.pluginId ∉ call.causalChain ∧
          ¬s.isRevoked call.pluginId call.capabilityName ∧ authorize policy grants call = .allowed ∧
            ¬s.has call.requestId := by
  simp only [Broker.Core.rejection, Broker.Core.admission]
  cases authorize policy grants call
  case denied  => simp [ite_eq_iff]
  case allowed =>
    simp only [ite_eq_iff, reduceCtorEq, and_false, false_or, and_true, Bool.not_eq_true', Bool.not_eq_false,
      not_le, List.contains_iff_mem, true_and, Int.not_lt, gt_iff_lt]
    tauto

theorem admission_eq_none_iff {s : Forwarding.Core R} {params : AdmitParams} :
    s.admission params now = none ↔
      (now ≤ params.deadlineAt ∧ params.deadlineAt ≤ now + maxDeadlineMs) ∧
        params.pluginId ∉ params.causalChain ∧ ¬s.isRevoked params.pluginId params.capabilityName ∧
          ¬s.has params.requestId ∧ s.pendingCount < s.maxInflight := by
  simp [Forwarding.Core.admission, Forwarding.Core.pendingCount, ite_eq_iff, and_assoc]

end Admission

namespace System

variable {P R : Type} [Origins] {policy : Policy R} {maxInflight : Nat} {s : System P R} {e : Event P R}
  {es : List (Event P R)} {p n : String} {body : BrokerRevokeBody}

-- Whatever the runtime takes for revoked, or is about to, the host takes for revoked.
structure Sound (s : System P R) : Prop where
  table   : s.table.Sound
  frames  : ∀ body ∈ s.frames, ∀ p n, body.Covers p n → s.host.isRevoked p n
  runtime : ∀ p n, s.runtime.isRevoked p n → s.host.isRevoked p n

omit [Origins] in
theorem isRevoked_handleRpcRequest {grants : List (Capability.CapabilityGrant P)} {call : PolicyCall}
    {now : Int} (host : Broker.Core R) :
    (host.handleRpcRequest policy maxInflight grants call now).isRevoked p n = host.isRevoked p n := by
  rw [Broker.Core.handleRpcRequest]
  split
  case isTrue  => rfl
  case isFalse =>
    exact host_isRevoked_step (e := .submit call.toBrokerCallRequest (authorize policy grants call) now)
      host nofun

-- Which step makes the host take a capability for revoked.
theorem host_step_iff (s : System P R) (e : Event P R) (p n : String) :
    (s.step policy maxInflight e).host.isRevoked p n ↔
      s.host.isRevoked p n ∨ ∃ body, e = .revoke body ∧ body.Covers p n := by
  cases e
  case revoke body  => simpa [step] using host_revoke_iff body s.host
  case host e hs hr => simp [step, host_isRevoked_step s.host hr]
  case rpcRequest   => simp [step, isRevoked_handleRpcRequest]
  case brokerRevoke =>
    rw [step]
    split <;> simp
  case table        => simp [step]
  case grant        => simp [step]
  case runtime      => simp [step]
  case runtimeSpawn => simp [step]

theorem host_run_iff : (s.run policy maxInflight es).host.isRevoked p n ↔
    s.host.isRevoked p n ∨ ∃ body, .revoke body ∈ es ∧ body.Covers p n := by
  induction es generalizing s
  case nil => simp [run]
  case cons e es ih =>
    rw [run, List.foldl_cons, ← run, ih, host_step_iff]
    simp only [List.mem_cons]
    grind

theorem Sound.step (h : s.Sound) : (s.step policy maxInflight e).Sound := by
  have hmono {p n : String} (hr : s.host.isRevoked p n) :
      (s.step policy maxInflight e).host.isRevoked p n := (host_step_iff s e p n).mpr <| .inl hr
  cases e
  case table e =>
    exact ⟨h.table.step, fun body hb p n hc => hmono <| h.frames body hb p n hc,
      fun p n hr => hmono <| h.runtime p n hr⟩
  case grant =>
    exact ⟨h.table.grant, h.frames, h.runtime⟩
  case rpcRequest =>
    exact ⟨h.table, fun body hb p n hc => hmono <| h.frames body hb p n hc,
      fun p n hr => hmono <| h.runtime p n hr⟩
  case host =>
    exact ⟨h.table, fun body hb p n hc => hmono <| h.frames body hb p n hc,
      fun p n hr => hmono <| h.runtime p n hr⟩
  case revoke body =>
    refine ⟨h.table, fun body' hb p n hc => ?_, fun p n hr => hmono <| h.runtime p n hr⟩
    rcases List.mem_append.mp hb with hb | hb
    · exact hmono <| h.frames body' hb p n hc
    · rw [List.mem_singleton.mp hb] at hc
      exact (host_step_iff s (.revoke body) p n).mpr <| .inr ⟨body, rfl, hc⟩
  case brokerRevoke =>
    rw [System.step]
    split
    case h_1 => exact h
    case h_2 body frames hf =>
      refine ⟨h.table, fun body' hb => h.frames body' (hf ▸ List.mem_cons_of_mem _ hb), fun p n hr => ?_⟩
      rcases (runtime_revoke_iff s.runtime).mp hr with hr | hc
      · exact h.runtime p n hr
      · exact h.frames body (hf ▸ List.mem_cons_self) p n hc
  case runtime e hr =>
    refine ⟨h.table, h.frames, fun p n hrev => h.runtime p n ?_⟩
    rwa [System.step, runtime_isRevoked_step s.runtime hr] at hrev
  case runtimeSpawn =>
    exact ⟨h.table, nofun, nofun⟩

theorem Sound.run (h : s.Sound) : (s.run policy maxInflight es).Sound := by
  induction es generalizing s
  case nil          => exact h
  case cons e es ih => exact ih h.step

-- Everything that the cores and the policy ask of a call besides that nothing has been revoked. The
-- runtime reads the clock first, then the host.
structure Admissible (policy : Policy R) (maxInflight : Nat) (s : System P R) (row : GrantEntry P)
    (call : PolicyCall) (now now' : Int) : Prop where
  shape    : assertBrokerCallShape call.toBrokerCallRequest
  deadline : ∀ t ∈ [now, now'], t ≤ call.deadlineAt ∧ call.deadlineAt ≤ t + maxDeadlineMs
  acyclic  : call.pluginId ∉ call.causalChain
  revision : ∀ r ∈ call.revision, r = row.revision
  trust    : policy.trusted call.capabilityName → call.trustLevel = .trusted
  fresh    : ¬s.runtime.has call.requestId ∧ ¬s.host.has call.requestId
  room     : s.runtime.pendingCount < s.runtime.maxInflight ∧ s.host.pendingCount < maxInflight

-- Both cores take a call.
def Admits (policy : Policy R) (maxInflight : Nat) (s : System P R) (call : PolicyCall)
    (worker : BrokerWorkerRef) (now now' : Int) : Prop :=
  s.runtime.admission (paramsOf call worker) now = none ∧ s.rejection policy maxInflight call now' = none

omit [Origins] in
theorem find?_activeGrants {table : Capability.Broker P} (h : table.Sound)
    {g : Capability.CapabilityGrant P} {now : Int} :
    (table.activeGrants p now).find? (·.name = n) = some g ↔
      ∃ row, table.get p n = some row ∧ row.revokedAt = none ∧ row.toGrant = g := by
  have hmem {g : Capability.CapabilityGrant P} : g ∈ table.activeGrants p now ↔ _ :=
    Capability.Broker.mem_activeGrants h
  have hfound {g : Capability.CapabilityGrant P}
      (hg : (table.activeGrants p now).find? (·.name = n) = some g) :
      ∃ row, table.get p n = some row ∧ row.revokedAt = none ∧ row.toGrant = g := by
    have hname : g.name = n := by simpa using List.find?_some hg
    exact hname ▸ hmem.mp (List.mem_of_find?_eq_some hg)
  constructor
  · exact hfound
  · rintro ⟨row, hget, hrev, rfl⟩
    have hname : row.toGrant.name = n := Capability.Broker.name_of_get hget
    have hin : row.toGrant ∈ table.activeGrants p now := hmem.mpr ⟨row, hname ▸ hget, hrev, rfl⟩
    cases hf : (table.activeGrants p now).find? (·.name = n)
    case none    => exact absurd (List.find?_eq_none.mp hf _ hin) (by simpa using hname)
    case some g' =>
      have ⟨row', hget', _, heq⟩ := hfound hf
      cases hget.symm.trans hget'
      rw [heq]

omit [Origins] in
theorem rejection_iff (h : s.table.Sound) {call : PolicyCall} {now : Int}
    (hcap : policy.catalog call.method = some (some call.capabilityName)) :
    s.rejection policy maxInflight call now = none ↔ (∃ row, s.table.get call.pluginId call.capabilityName =
      some row ∧ row.revokedAt = none ∧ (∀ r ∈ call.revision, r = row.revision) ∧
        (policy.trusted call.capabilityName → call.trustLevel = .trusted)) ∧
      assertBrokerCallShape call.toBrokerCallRequest ∧ s.host.pendingCount < maxInflight ∧
        (now ≤ call.deadlineAt ∧ call.deadlineAt ≤ now + maxDeadlineMs) ∧ call.pluginId ∉ call.causalChain ∧
          ¬s.host.isRevoked call.pluginId call.capabilityName ∧ ¬s.host.has call.requestId := by
  rw [rejection, rejection_eq_none_iff, authorize_eq_allowed_iff hcap]
  simp only [find?_activeGrants h]
  constructor
  · rintro ⟨hs, hc, hd, ha, hr, ⟨_, ⟨row, hget, hrev, rfl⟩, hv, ht⟩, hh⟩
    exact ⟨⟨row, hget, hrev, hv, ht⟩, hs, hc, hd, ha, hr, hh⟩
  · rintro ⟨⟨row, hget, hrev, hv, ht⟩, hs, hc, hd, ha, hr, hh⟩
    exact ⟨hs, hc, hd, ha, hr, ⟨_, ⟨row, hget, hrev, rfl⟩, hv, ht⟩, hh⟩

-- In every history, both cores take an admissible call with a capability whose grant is active if and
-- only if that capability has never been revoked in the cores, and the host takes none whose grant is
-- revoked in the database.
theorem admits_iff (policy : Policy R) (maxInflight maxInflight' : Nat) (es : List (Event P R))
    (call : PolicyCall) (worker : BrokerWorkerRef) (now now' : Int)
    (hcap : policy.catalog call.method = some (some call.capabilityName)) :
    let s := run policy maxInflight { runtime := { maxInflight := maxInflight' } } es
    (s.Admits policy maxInflight call worker now now' ↔
      (∃ row, s.table.get call.pluginId call.capabilityName = some row ∧ row.revokedAt = none ∧
        s.Admissible policy maxInflight row call now now') ∧
      ∀ body, .revoke body ∈ es → ¬body.Covers call.pluginId call.capabilityName) ∧
    (∀ row, s.table.get call.pluginId call.capabilityName = some row → row.revokedAt ≠ none →
      s.rejection policy maxInflight call now' ≠ none) := by
  intro s
  have hs : s.Sound := by
    refine Sound.run ⟨Capability.Broker.sound_nil, by simp, by rintro _ _ ⟨⟩⟩
  have hrevoked : s.host.isRevoked call.pluginId call.capabilityName ↔
      ∃ body, .revoke body ∈ es ∧ body.Covers call.pluginId call.capabilityName := by
    refine host_run_iff.trans ?_
    simp [Broker.Core.isRevoked]
  constructor
  · rw [Admits, rejection_iff hs.table hcap, admission_eq_none_iff]
    constructor
    · rintro ⟨⟨hd, _, _, hh, hc⟩, ⟨row, hget, hrev, hv, ht⟩, hshape, hc', hd', ha, hr, hh'⟩
      refine ⟨⟨row, hget, hrev, hshape, ?_, ha, hv, ht, ⟨hh, hh'⟩, hc, hc'⟩, fun body hb hcov => ?_⟩
      · intro t ht
        rcases List.mem_pair.mp ht with rfl | rfl
        · exact hd
        · exact hd'
      · exact hr <| hrevoked.mpr ⟨body, hb, hcov⟩
    · rintro ⟨⟨row, hget, hrev, ha⟩, hnone⟩
      have hr : ¬s.host.isRevoked call.pluginId call.capabilityName := by
        intro hr
        obtain ⟨body, hb, hcov⟩ := hrevoked.mp hr
        exact hnone body hb hcov
      have hd := ha.deadline now List.mem_cons_self
      have hd' := ha.deadline now' (List.mem_cons_of_mem _ List.mem_cons_self)
      exact ⟨⟨hd, ha.acyclic, fun h => hr <| hs.runtime _ _ h, ha.fresh.left, ha.room.left⟩,
        ⟨row, hget, hrev, ha.revision, ha.trust⟩, ha.shape, ha.room.right, hd', ha.acyclic, hr, ha.fresh.right⟩
  · intro row hget hrev hnone
    obtain ⟨⟨row', hget', hrev', _⟩, _⟩ := (rejection_iff hs.table hcap).mp hnone
    cases hget.symm.trans hget'
    exact hrev hrev'

-- The last revocation in the cores is followed by a grant.
def Regranted (es : List (Event P R)) (p n : String) : Prop :=
  ∀ pre body post, es = pre ++ .revoke body :: post → body.Covers p n →
    ∃ scope now, .grant p n scope now ∈ post

end System

section Sample

-- No text is an origin here.
local instance noOrigin : Origins := ⟨fun _ => false⟩

private def kvPolicy : Policy Unit where
  catalog method := if method = "storage.kv.get" then some (some "storage.kv") else none
  trusted _      := false
  record _ _     := ()

private def kvGet : PolicyCall where
  requestId      := "req-00000001"
  pluginId       := "p1"
  installationId := "i1"
  method         := "storage.kv.get"
  capabilityName := "storage.kv"
  deadlineAt     := 30000
  causalChain    := []
  trustLevel     := .sandbox

private def worker : BrokerWorkerRef := { workerId := 3, workerEpoch := 1 }

private def granted : List (Event Unit Unit) := [.grant "p1" "storage.kv" none 0]

private def regranted : List (Event Unit Unit) := granted ++ [
  .revoke { pluginId := "p1", name := some "storage.kv", reason := none }, .brokerRevoke,
  .table (.revoke "p1" "storage.kv" 1), .grant "p1" "storage.kv" none 2]

private def after (es : List (Event Unit Unit)) : System Unit Unit :=
  System.run kvPolicy 8 { runtime := { maxInflight := 8 } } es

private theorem admissible (row : GrantEntry Unit) (es : List (Event Unit Unit))
    (h : (after es).runtime.inFlight = [] ∧ (after es).runtime.maxInflight = 8 ∧
      (after es).host.inFlight = []) : (after es).Admissible kvPolicy 8 row kvGet 10 20 := by
  have ⟨hruntime, hmax, hhost⟩ := h
  constructor
  case shape    => decide +kernel
  case deadline => decide
  case acyclic  => decide
  case revision => exact nofun
  case trust    => exact nofun
  case fresh    => simp [Forwarding.Core.has, Broker.Core.has, hruntime, hhost]
  case room     => simp [Forwarding.Core.pendingCount, Broker.Core.pendingCount, hruntime, hhost, hmax]

theorem admits_iff_granted : (after granted).Admits kvPolicy 8 kvGet worker 10 20 :=
  (System.admits_iff kvPolicy 8 8 granted kvGet worker 10 20 (by decide +kernel)).left.mpr
    ⟨⟨{ pluginId := "p1", name := "storage.kv", scope := none, grantedAt := 0 }, by decide +kernel, rfl,
      admissible _ granted (by decide +kernel)⟩, nofun⟩

-- The grant is active again, and both cores still refuse.
theorem regranted_refused :
    ¬∀ (es : List (Event Unit Unit)) row call worker now now', System.Regranted es call.pluginId
      call.capabilityName → (after es).table.get call.pluginId call.capabilityName = some row →
        row.revokedAt = none → (after es).Admissible kvPolicy 8 row call now now' →
          (after es).Admits kvPolicy 8 call worker now now' := by
  intro h
  have hregranted : System.Regranted regranted "p1" "storage.kv" := by
    intro pre body post hes _
    have hmem : Event.grant "p1" "storage.kv" none 2 ∈ post := by
      have hlast : regranted.getLast? = some (.grant "p1" "storage.kv" none 2) := rfl
      rcases List.eq_nil_or_concat post with rfl | ⟨rest, e, rfl⟩
      · simp [hes] at hlast
      · rw [List.concat_eq_append] at hes ⊢
        rw [hes, ← List.cons_append, ← List.append_assoc, List.getLast?_concat] at hlast
        exact Option.some.inj hlast ▸ List.mem_append_right _ List.mem_cons_self
    exact ⟨_, _, hmem⟩
  have hadmits := h regranted
    { pluginId := "p1", name := "storage.kv", scope := none, revision := 2, grantedAt := 2 }
    kvGet worker 10 20 hregranted (by decide +kernel) rfl (admissible _ _ (by decide +kernel))
  revert hadmits
  simp only [System.Admits]
  decide +kernel

end Sample

end Regrant
