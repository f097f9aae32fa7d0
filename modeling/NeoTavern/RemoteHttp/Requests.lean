import NeoTavern.Lib.Runs
import NeoTavern.RemoteHttp.Gate

namespace RemoteHttp

-- What happens to a request.
inductive Happening
  | decided (outcome : GateOutcome)
  | recorded (e : AuditEvent)
  | allowed (key : String)
  | answered (answer : Response)
  deriving DecidableEq

def Decision.happenings (d : Decision) : List Happening :=
  .decided d.outcome :: d.records.map Happening.recorded ++ d.allowed.toList.map Happening.allowed

section

variable {δ ι : Type}

def Shared.record (shared : Shared δ ι) (records : List AuditEvent) : Shared δ ι :=
  { shared with audit := records.foldl AuditLog.record shared.audit }

def Shared.decide (shared : Shared δ ι) (d : Decision) : Shared δ ι :=
  { shared.record d.records with rate := d.rate }

-- A request that a worker still has at hand.
structure Pending (ι : Type) where
  number  : Nat
  request : Request ι
  course  : Course
  deriving DecidableEq

structure GateWorld (δ ι : Type) where
  shared  : Shared δ ι
  arrived : Nat := 0
  atHand  : List (Pending ι) := []
  trace   : List (Nat × Happening) := []

namespace GateWorld

-- A worker takes a request in, and goes on with it later. Meanwhile there are other requests, clients are
-- paired and revoked, and streams end.
inductive Event (δ ι : Type)
  | arrive (request : Request ι) (m : Moment δ)
  | goOn (number : Nat) (m : Moment δ) (served : Upshot)
  | pair (token id : Option (List UInt8))
  | revoke (id : String)
  | streamEnd

def happen (w : GateWorld δ ι) (n : Nat) (hs : List Happening) : GateWorld δ ι :=
  { w with trace := w.trace ++ hs.map (n, ·) }

def finish (w : GateWorld δ ι) (n : Nat) : GateWorld δ ι :=
  { w with atHand := w.atHand.filter (·.number ≠ n) }

section Step

variable [DecidableEq δ] [DecidableEq ι] (digest : String → δ) (addresses : Addresses ι)

def arrive (w : GateWorld δ ι) (request : Request ι) (m : Moment δ) : GateWorld δ ι :=
  let (course, decision) := handleRequest digest addresses w.shared m request
  let hs := decision.elim [] Decision.happenings
  let w' := { w with shared := decision.elim w.shared w.shared.decide, arrived := w.arrived + 1 }
  match course with
  | .answered answer => w'.happen w.arrived (hs ++ [Happening.answered answer])
  | course           =>
    { w'.happen w.arrived hs with atHand := w.atHand ++ [⟨w.arrived, request, course⟩] }

-- A request that is rejected is decided once more for its answer.
def gateRespond (w : GateWorld δ ι) (task : Pending ι) (m : Moment δ) (origin : Option String) : GateWorld δ ι :=
  let d := gateRequest digest addresses w.shared m task.request
  { w with shared := w.shared.decide d }.happen task.number
    (d.happenings ++ ((rejectedAnswer origin d.outcome).map Happening.answered).toList)

def serve (w : GateWorld δ ι) (task : Pending ι) (streaming : Bool) (origin : Option String)
    (served : Upshot) : GateWorld δ ι :=
  let (answer, records, streams) := respondEnvelope w.shared streaming origin served
  { w with shared := { w.shared.record records with streams } }.happen task.number
    (records.map Happening.recorded ++ [Happening.answered answer])

def step (w : GateWorld δ ι) : Event δ ι → GateWorld δ ι
  | .arrive request m     => w.arrive digest addresses request m
  | .goOn number m served =>
    match w.atHand.find? (·.number = number) with
    | none      => w
    | some task =>
      match task.course with
      | .answered _                         => w.finish number
      | .gateRespond origin                 => (w.gateRespond digest addresses task m origin).finish number
      | .respondEnvelope streaming _ origin => (w.serve task streaming origin served).finish number
  | .pair token id        =>
    match w.shared.auth with
    | none       => w
    | some store =>
      match store.pair digest token id with
      | .error _            => w
      | .ok (issued, store) => { w with shared :=
          { w.shared.record [⟨.pairCreated, issued.fst⟩] with auth := some store } }
  | .revoke id            =>
    match w.shared.auth with
    | none       => w
    | some store =>
      match store.revoke id with
      | (false, _)    => w
      | (true, store) => { w with shared :=
          { w.shared.record [⟨.pairRevoked, id⟩] with auth := some store } }
  | .streamEnd            => { w with shared := { w.shared with streams := w.shared.streams - 1 } }

end Step

def start (shared : Shared δ ι) : GateWorld δ ι where
  shared := shared

end GateWorld
end

-- What has come of a request by what happened to it.
section Handled

def answers (hs : List Happening) : List Response :=
  hs.filterMap fun
    | .answered answer => some answer
    | _                => none

def AuditEvent.isRejection (e : AuditEvent) : Bool :=
  e.kind = .authDenied || e.kind = .rateLimited || e.kind = .originDenied

def rejections (hs : List Happening) : Nat :=
  hs.countP fun
    | .recorded e => e.isRejection
    | _           => false

def calls (hs : List Happening) : Nat :=
  hs.countP fun
    | .allowed _ => true
    | _          => false

def RejectedWith (hs : List Happening) (status : Nat) : Prop :=
  ∃ code params, .decided (.rejected status code params) ∈ hs

-- A request is answered exactly once. If it is rejected, the answer is that of the decision, it is recorded once,
-- and only a decision of the limiter has called it, once.
structure HandledOnce (hs : List Happening) : Prop where
  answered : (answers hs).length = 1
  status   : ∀ status, RejectedWith hs status → ∀ answer ∈ answers hs, answer.status = status
  recorded : ∀ status, RejectedWith hs status → rejections hs = 1
  called   : ∀ status, RejectedWith hs status → calls hs = if status = 429 then 1 else 0

end Handled

namespace GateWorld

variable {δ ι : Type}

def happenings (w : GateWorld δ ι) (n : Nat) : List Happening :=
  (w.trace.filter (·.fst = n)).map (·.snd)

def Done (w : GateWorld δ ι) (n : Nat) : Prop :=
  n < w.arrived ∧ ∀ task ∈ w.atHand, task.number ≠ n

def Orderly (w : GateWorld δ ι) : Prop :=
  ∀ n, w.Done n → HandledOnce (w.happenings n)

end GateWorld

-- The requests that come to the gate.
def ForGate {δ ι : Type} (shared : Shared δ ι) (request : Request ι) : Prop :=
  (∀ origin ∈ request.origin, origin ∈ shared.allowedOrigins) ∧ request.method = .post ∧
    (request.path = "/rpc" ∨ request.path = "/rpc/stream")

section

variable {δ ι : Type} [DecidableEq δ] [DecidableEq ι] (digest : String → δ) (addresses : Addresses ι)

-- A request with a credential that is live, whose key has a token left.
structure Admissible (shared : Shared δ ι) (m : Moment δ) (request : Request ι) : Prop where
  auth : ∀ store ∈ shared.auth, ∃ token ∈ (request.header "Authorization").bind bearerToken,
    (store.verify digest m.credentials token).isSome
  rate : ∀ limiter ∈ shared.rate, ∀ credential, pairingGate digest shared m request = .ok credential →
    let key := credential.getD <| clientIpForRateLimit addresses shared request
    1 ≤ limiter.refilled m.now (limiter.bucket m.now key)

def GateWorld.Admits (w : GateWorld δ ι) : GateWorld.Event δ ι → Prop
  | .arrive request m => ForGate w.shared request → Admissible digest addresses w.shared m request
  | _                 => True

end

section Happenings

variable {hs hs' : List Happening} {d : Decision} {status : Nat}

theorem answers_append : answers (hs ++ hs') = answers hs ++ answers hs' :=
  List.filterMap_append

theorem rejections_append : rejections (hs ++ hs') = rejections hs + rejections hs' :=
  List.countP_append

theorem calls_append : calls (hs ++ hs') = calls hs + calls hs' :=
  List.countP_append

theorem rejectedWith_append :
    RejectedWith (hs ++ hs') status ↔ RejectedWith hs status ∨ RejectedWith hs' status := by
  simp only [RejectedWith, List.mem_append, exists_or]

theorem answers_decision : answers d.happenings = [] := by
  simp [answers, Decision.happenings]

theorem rejections_decision : rejections d.happenings = d.records.countP AuditEvent.isRejection := by
  simp [rejections, Decision.happenings, List.countP_map, Function.comp_def]

theorem calls_decision : calls d.happenings = if d.allowed.isSome then 1 else 0 := by
  cases h : d.allowed
  case none => simp [calls, Decision.happenings, h, List.countP_map, Function.comp_def]
  case some => simp [calls, Decision.happenings, h, List.countP_map, Function.comp_def]

theorem rejectedWith_decision : RejectedWith d.happenings status ↔
    ∃ code params, d.outcome = .rejected status code params := by
  simp [RejectedWith, Decision.happenings, eq_comm]

-- What is neither a decision nor a record of one.
theorem not_rejectedWith_of_forall (h : ∀ x ∈ hs, ∀ outcome, x ≠ .decided outcome) : ¬RejectedWith hs status :=
  fun ⟨_, _, hmem⟩ => h _ hmem _ rfl

end Happenings

section Gate

variable {δ ι : Type} [DecidableEq δ] {digest : String → δ} {addresses : Addresses ι}
variable {shared : Shared δ ι} {m : Moment δ} {request : Request ι}

theorem allow_fst_iff (limiter : RateLimiter) (it : Iteration (String × Bucket)) (now : Rat) (key : String) :
    (limiter.allow it now key).fst = true ↔ 1 ≤ limiter.refilled now (limiter.bucket now key) := by
  rw [RateLimiter.allow]
  split
  case isTrue h  => exact iff_of_true rfl h
  case isFalse h => exact iff_of_false Bool.false_ne_true h

theorem pairingGate_ok_iff : (∃ credential, pairingGate digest shared m request = .ok credential) ↔
    ∀ store ∈ shared.auth, ∃ token ∈ (request.header "Authorization").bind bearerToken,
      (store.verify digest m.credentials token).isSome := by
  rw [pairingGate]
  cases hauth : shared.auth
  case none       => simp
  case some store =>
    cases htoken : (request.header "Authorization").bind bearerToken
    case none       => simp
    case some token =>
      cases hverify : store.verify digest m.credentials token
      case none => simp [hverify]
      case some => simp [hverify]

variable [DecidableEq ι]

-- What a decision does, by its outcome.
structure Sound (d : Decision) : Prop where
  rejected : ∀ status code params, d.outcome = .rejected status code params →
    d.records.countP AuditEvent.isRejection = 1 ∧ (d.allowed.isSome ↔ status = 429)

theorem gateRequest_sound : Sound (gateRequest digest addresses shared m request) := by
  constructor
  intro status code params
  rw [gateRequest]
  have hgranted (credential : Option String) :
      (credential.toList.map fun id => AuditEvent.mk .authGranted id).countP AuditEvent.isRejection = 0 := by
    cases credential <;> simp [AuditEvent.isRejection]
  split
  case h_1 rule _       =>
    intro heq
    cases heq
    exact ⟨rfl, iff_of_false Bool.false_ne_true (by decide)⟩
  case h_2 credential _ =>
    dsimp only
    split
    case h_1 => exact fun heq => by cases heq
    case h_2 =>
      split
      case isTrue  => exact fun heq => by cases heq
      case isFalse =>
        intro heq
        cases heq
        rw [List.countP_append, hgranted]
        exact ⟨rfl, iff_of_true rfl rfl⟩

theorem gateRequest_admitted_iff :
    (∃ credential, (gateRequest digest addresses shared m request).outcome = .admitted credential) ↔
    Admissible digest addresses shared m request := by
  rw [gateRequest]
  split
  case h_1 rule hgate       =>
    refine iff_of_false nofun fun h => ?_
    have ⟨credential, hok⟩ := pairingGate_ok_iff.mpr h.auth
    rw [hgate] at hok
    cases hok
  case h_2 credential hgate =>
    have hauth := pairingGate_ok_iff.mp ⟨credential, hgate⟩
    dsimp only
    split
    case h_1 hnone         =>
      exact iff_of_true ⟨_, rfl⟩ ⟨hauth, fun limiter h => by rw [hnone] at h; cases h⟩
    case h_2 limiter hsome =>
      have hiff := allow_fst_iff limiter m.buckets m.now
        (credential.getD <| clientIpForRateLimit addresses shared request)
      split
      case isTrue h  =>
        refine iff_of_true ⟨_, rfl⟩ ⟨hauth, fun l hl c hc => ?_⟩
        cases hsome.symm.trans hl
        cases hgate.symm.trans hc
        exact hiff.mp h
      case isFalse h =>
        exact iff_of_false nofun fun ha => h <| hiff.mpr <| ha.rate limiter hsome credential hgate

end Gate

section Course

variable {δ ι : Type} [DecidableEq δ] [DecidableEq ι] {digest : String → δ} {addresses : Addresses ι}
variable {shared : Shared δ ι} {m : Moment δ} {request : Request ι}

-- What has to come of a request that is still at hand.
def Waiting (course : Course) (hs : List Happening) : Prop :=
  answers hs = [] ∧
    match course with
    | .answered _         => False
    | .respondEnvelope .. => ∀ status, ¬RejectedWith hs status
    | .gateRespond _      => ∃ status, RejectedWith hs status ∧ rejections hs = 1

-- A request that is rejected and is left without an answer, or recorded again.
def HandledTwice (hs : List Happening) : Prop :=
  ∃ status, RejectedWith hs status ∧ (answers hs = [] ∨ rejections hs ≠ 1)

theorem HandledTwice.not_once {hs : List Happening} (h : HandledTwice hs) : ¬HandledOnce hs := by
  intro ho
  have ⟨status, hrejected, hbad⟩ := h
  cases hbad
  case inl hnone =>
    have := ho.answered
    rw [hnone] at this
    cases this
  case inr hne   => exact hne <| ho.recorded status hrejected

-- A request that no decision rejects only has to be answered.
theorem handledOnce_of_answer {hs : List Happening} {answer : Response} (h : answers hs = [answer])
    (hno : ∀ status, ¬RejectedWith hs status) : HandledOnce hs where
  answered := by rw [h]; rfl
  status   := fun status hrejected => absurd hrejected <| hno status
  recorded := fun status hrejected => absurd hrejected <| hno status
  called   := fun status hrejected => absurd hrejected <| hno status

-- One that is rejected has its answer from the decision.
theorem handledOnce_of_rejection {d : Decision} {status : Nat} {code : String} {params : List (String × String)}
    {answer : Response} (h : d.outcome = .rejected status code params)
    (hd : d.records.countP AuditEvent.isRejection = 1 ∧ (d.allowed.isSome ↔ status = 429))
    (ha : answer.status = status) : HandledOnce (d.happenings ++ [.answered answer]) := by
  have hstatus (s : Nat) (hr : RejectedWith (d.happenings ++ [.answered answer]) s) : s = status := by
    rcases rejectedWith_append.mp hr with hr | ⟨_, _, hr⟩
    · obtain ⟨_, _, heq⟩ := rejectedWith_decision.mp hr
      cases h.symm.trans heq
      rfl
    · cases List.mem_singleton.mp hr
  have hanswers : answers (d.happenings ++ [.answered answer]) = [answer] := by
    rw [answers_append, answers_decision]
    rfl
  constructor
  case answered => rw [hanswers]; rfl
  case status   =>
    intro s hr a hmem
    rw [hanswers] at hmem
    rw [List.mem_singleton.mp hmem, hstatus s hr, ha]
  case recorded =>
    intro s _
    rw [rejections_append, rejections_decision, hd.left]
    rfl
  case called   =>
    intro s hr
    rw [calls_append, calls_decision, hstatus s hr]
    simp only [hd.right]
    rfl

-- A request that comes to the gate, and one that does not.
variable (digest addresses m) in
theorem handleRequest_of_forGate (h : ForGate shared request) : ∃ streaming origin,
    handleRequest digest addresses shared m request = gated digest addresses shared m request streaming origin := by
  have ⟨horigin, hmethod, hpath⟩ := h
  have hroute (origin : Option String) : ∃ streaming, route digest addresses shared m request origin =
      gated digest addresses shared m request streaming origin := by
    cases hpath
    case inl hpath => exact ⟨false, by rw [route, hpath, hmethod]; rfl⟩
    case inr hpath => exact ⟨true, by rw [route, hpath, hmethod]; rfl⟩
  rw [handleRequest]
  cases ho : request.origin
  case none        => exact ⟨_, none, (hroute none).choose_spec⟩
  case some origin =>
    have hallowed : origin ∈ shared.allowedOrigins := horigin origin ho
    have hoptions : request.method ≠ .options := by rw [hmethod]; decide
    simp only [hallowed, hoptions, not_true_eq_false, if_false]
    exact ⟨_, some origin, (hroute <| some origin).choose_spec⟩

variable (digest addresses shared m) in
theorem route_of_not (origin : Option String)
    (h : ¬(request.method = .post ∧ (request.path = "/rpc" ∨ request.path = "/rpc/stream"))) :
    ∃ answer, route digest addresses shared m request origin = (.answered answer, none) := by
  rw [route]
  split
  case h_3 hpath hmethod => exact absurd ⟨hmethod, .inl hpath⟩ h
  case h_5 hpath hmethod => exact absurd ⟨hmethod, .inr hpath⟩ h
  all_goals exact ⟨_, rfl⟩

variable (digest addresses m) in
theorem handleRequest_of_not (h : ¬ForGate shared request) : ∃ answer decision,
    handleRequest digest addresses shared m request = (.answered answer, decision) ∧
    HandledOnce (decision.elim [] Decision.happenings ++ [.answered answer]) := by
  have hplain (answer : Response) :
      HandledOnce ((none : Option Decision).elim [] Decision.happenings ++ [.answered answer]) :=
    handledOnce_of_answer rfl fun _ => not_rejectedWith_of_forall (by simp)
  rw [handleRequest]
  cases ho : request.origin
  case none        =>
    have hnot : ¬(request.method = .post ∧ (request.path = "/rpc" ∨ request.path = "/rpc/stream")) :=
      fun hr => h ⟨fun _ hmem => absurd (ho.symm.trans hmem) nofun, hr⟩
    have ⟨answer, heq⟩ := route_of_not digest addresses shared m none hnot
    exact ⟨answer, none, heq, hplain answer⟩
  case some origin =>
    dsimp only
    split
    case isTrue hdenied   =>
      refine ⟨_, _, rfl, handledOnce_of_rejection rfl ⟨rfl, iff_of_false Bool.false_ne_true (by decide)⟩ rfl⟩
    case isFalse hallowed =>
      split
      case isTrue  => exact ⟨_, none, rfl, hplain _⟩
      case isFalse =>
        have hnot : ¬(request.method = .post ∧ (request.path = "/rpc" ∨ request.path = "/rpc/stream")) := by
          refine fun hr => h ⟨fun o hmem => ?_, hr⟩
          cases ho.symm.trans hmem
          exact not_not.mp hallowed
        have ⟨answer, heq⟩ := route_of_not digest addresses shared m (some origin) hnot
        exact ⟨answer, none, heq, hplain answer⟩

end Course

namespace GateWorld

section Happen

variable {δ ι : Type} {w w' : GateWorld δ ι} {n k : Nat} {hs : List Happening}

theorem happenings_of_trace (h : w'.trace = w.trace ++ hs.map (n, ·)) :
    w'.happenings k = w.happenings k ++ if k = n then hs else [] := by
  rw [happenings, happenings, h, List.filter_append, List.map_append]
  congr 1
  by_cases hk : k = n
  case pos => simp [hk, List.filter_map, Function.comp_def]
  case neg => simp [hk, List.filter_map, Function.comp_def, eq_comm (a := n)]

end Happen

section Change

variable {δ ι : Type}

-- What a step does to the requests, and when it lets pass what it should.
inductive Change (w w' : GateWorld δ ι) (ok : Prop) : Prop
  | quiet (harrived : w'.arrived = w.arrived) (hhand : w'.atHand = w.atHand) (htrace : w'.trace = w.trace) (hok : ok)
  | answered (hs : List Happening) (harrived : w'.arrived = w.arrived + 1) (hhand : w'.atHand = w.atHand)
      (htrace : w'.trace = w.trace ++ hs.map (w.arrived, ·)) (honce : HandledOnce hs) (hok : ok)
  | taken (hs : List Happening) (p : Pending ι) (harrived : w'.arrived = w.arrived + 1)
      (hhand : w'.atHand = w.atHand ++ [p]) (hnumber : p.number = w.arrived)
      (htrace : w'.trace = w.trace ++ hs.map (w.arrived, ·)) (hwaiting : Waiting p.course hs)
      (hok : ok ↔ ∀ origin, p.course ≠ .gateRespond origin)
  | finished (hs : List Happening) (p : Pending ι) (harrived : w'.arrived = w.arrived) (hp : p ∈ w.atHand)
      (hhand : w'.atHand = w.atHand.filter (·.number ≠ p.number))
      (htrace : w'.trace = w.trace ++ hs.map (p.number, ·))
      (honce : (∀ origin, p.course ≠ .gateRespond origin) → HandledOnce (w.happenings p.number ++ hs))
      (htwice : ∀ origin, p.course = .gateRespond origin → HandledTwice (w.happenings p.number ++ hs)) (hok : ok)

-- Each request is told from the others, and is at hand or has been handled.
structure Kept (w : GateWorld δ ι) : Prop where
  fresh   : ∀ n, w.arrived ≤ n → w.happenings n = []
  hand    : ∀ p ∈ w.atHand, p.number < w.arrived
  waiting : ∀ p ∈ w.atHand, Waiting p.course (w.happenings p.number)
  handled : ∀ n, w.Done n → HandledOnce (w.happenings n) ∨ HandledTwice (w.happenings n)

-- No request has been decided twice, and none will be.
structure Clean (w : GateWorld δ ι) : Prop where
  course  : ∀ p ∈ w.atHand, ∀ origin, p.course ≠ .gateRespond origin
  orderly : w.Orderly


variable {w w' : GateWorld δ ι} {ok : Prop} {n : Nat}

theorem Kept.fresh_change (hk : Kept w) (h : Change w w' ok) (hn : w'.arrived ≤ n) : w'.happenings n = [] := by
  cases h
  case quiet harrived _ htrace _ =>
    rw [happenings, htrace]
    exact hk.fresh n <| harrived ▸ hn
  case answered hs harrived _ htrace _ _ =>
    rw [happenings_of_trace htrace, hk.fresh n (by omega), if_neg (by omega)]
    rfl
  case taken hs p harrived _ _ htrace _ _ =>
    rw [happenings_of_trace htrace, hk.fresh n (by omega), if_neg (by omega)]
    rfl
  case finished hs p harrived hp _ htrace _ _ _ =>
    have hlt := hk.hand p hp
    rw [happenings_of_trace htrace, hk.fresh n (by omega), if_neg (by omega)]
    rfl

-- What is at hand after a step was at hand before, or has just come in.
theorem Kept.hand_change (hk : Kept w) (h : Change w w' ok) {p : Pending ι} (hp : p ∈ w'.atHand) :
    (p ∈ w.atHand ∧ w'.happenings p.number = w.happenings p.number ∧ w.arrived ≤ w'.arrived) ∨
    (p.number = w.arrived ∧ w'.arrived = w.arrived + 1 ∧ Waiting p.course (w'.happenings p.number) ∧
      (ok ↔ ∀ origin, p.course ≠ .gateRespond origin)) := by
  cases h
  case quiet harrived hhand htrace _ =>
    refine .inl ⟨hhand ▸ hp, ?_, harrived.ge⟩
    rw [happenings, happenings, htrace]
  case answered hs harrived hhand htrace _ _ =>
    have hmem : p ∈ w.atHand := hhand ▸ hp
    have hne : p.number ≠ w.arrived := Nat.ne_of_lt <| hk.hand p hmem
    refine .inl ⟨hmem, ?_, by omega⟩
    rw [happenings_of_trace htrace, if_neg hne, List.append_nil]
  case taken hs q harrived hhand hnumber htrace hwaiting hok =>
    rw [hhand] at hp
    cases List.mem_append.mp hp
    case inl hmem =>
      have hne : p.number ≠ w.arrived := Nat.ne_of_lt <| hk.hand p hmem
      refine .inl ⟨hmem, ?_, by omega⟩
      rw [happenings_of_trace htrace, if_neg hne, List.append_nil]
    case inr hmem =>
      obtain rfl := List.mem_singleton.mp hmem
      refine .inr ⟨hnumber, harrived, ?_, hok⟩
      rw [happenings_of_trace htrace, if_pos hnumber, hk.fresh _ hnumber.ge]
      exact hwaiting
  case finished hs q harrived _ hhand htrace _ _ _ =>
    rw [hhand] at hp
    have ⟨hmem, hne⟩ := List.mem_filter.mp hp
    have hne : p.number ≠ q.number := of_decide_eq_true hne
    refine .inl ⟨hmem, ?_, harrived.ge⟩
    rw [happenings_of_trace htrace, if_neg hne, List.append_nil]

-- What has been handled after a step was handled before, or is handled by it.
theorem Kept.done_change (hk : Kept w) (h : Change w w' ok) (hn : w'.Done n) :
    (w.Done n ∧ w'.happenings n = w.happenings n) ∨ HandledOnce (w'.happenings n) ∨
    HandledTwice (w'.happenings n) ∧ ∃ p ∈ w.atHand, ∃ origin, p.course = .gateRespond origin := by
  have ⟨hlt, hnot⟩ := hn
  cases h
  case quiet harrived hhand htrace _ =>
    refine .inl ⟨⟨harrived ▸ hlt, hhand ▸ hnot⟩, ?_⟩
    rw [happenings, happenings, htrace]
  case answered hs harrived hhand htrace honce _ =>
    by_cases hnew : n = w.arrived
    case pos =>
      refine .inr <| .inl ?_
      rw [happenings_of_trace htrace, if_pos hnew, hk.fresh n hnew.ge]
      exact honce
    case neg =>
      refine .inl ⟨⟨by omega, hhand ▸ hnot⟩, ?_⟩
      rw [happenings_of_trace htrace, if_neg hnew, List.append_nil]
  case taken hs p harrived hhand hnumber htrace _ _ =>
    rw [hhand] at hnot
    have hnew : n ≠ w.arrived := fun heq => hnot p (by simp) <| hnumber.trans heq.symm
    refine .inl ⟨⟨by omega, fun q hq => hnot q <| List.mem_append_left _ hq⟩, ?_⟩
    rw [happenings_of_trace htrace, if_neg hnew, List.append_nil]
  case finished hs p harrived hp hhand htrace honce htwice _ =>
    by_cases hself : n = p.number
    case pos =>
      refine .inr ?_
      rw [happenings_of_trace htrace, if_pos hself, hself]
      by_cases hcourse : ∀ origin, p.course ≠ .gateRespond origin
      case pos => exact .inl <| honce hcourse
      case neg =>
        have ⟨origin, heq⟩ := not_forall_not.mp hcourse
        exact .inr ⟨htwice origin heq, p, hp, origin, heq⟩
    case neg =>
      refine .inl ⟨⟨harrived ▸ hlt, fun q hq heq => ?_⟩, ?_⟩
      · have hne : q.number ≠ p.number := heq ▸ hself
        exact hnot q (by rw [hhand]; exact List.mem_filter.mpr ⟨hq, decide_eq_true hne⟩) heq
      · rw [happenings_of_trace htrace, if_neg hself, List.append_nil]

theorem Kept.change (hk : Kept w) (h : Change w w' ok) : Kept w' where
  fresh   := fun n hn => hk.fresh_change h hn
  hand    := fun p hp => by
    rcases hk.hand_change h hp with ⟨hmem, _, hle⟩ | ⟨hnumber, harrived, _⟩
    · exact (hk.hand p hmem).trans_le hle
    · omega
  waiting := fun p hp => by
    rcases hk.hand_change h hp with ⟨hmem, heq, _⟩ | ⟨_, _, hwaiting, _⟩
    · exact heq ▸ hk.waiting p hmem
    · exact hwaiting
  handled := fun n hn => by
    rcases hk.done_change h hn with ⟨hdone, heq⟩ | honce | ⟨htwice, _⟩
    · exact heq ▸ hk.handled n hdone
    · exact .inl honce
    · exact .inr htwice

theorem Kept.clean_change_iff (hk : Kept w) (hc : Clean w) (h : Change w w' ok) : Clean w' ↔ ok := by
  constructor
  case mp  =>
    intro hc'
    cases h
    case quiet hok    => exact hok
    case answered hok => exact hok
    case finished hok => exact hok
    case taken hs p harrived hhand hnumber htrace hwaiting hok =>
      have hmem : p ∈ w'.atHand := by simp [hhand]
      exact hok.mpr <| hc'.course p hmem
  case mpr =>
    intro hok
    constructor
    case course  =>
      intro p hp
      rcases hk.hand_change h hp with ⟨hmem, _⟩ | ⟨_, _, _, hiff⟩
      · exact hc.course p hmem
      · exact hiff.mp hok
    case orderly =>
      intro n hn
      rcases hk.done_change h hn with ⟨hdone, heq⟩ | honce | ⟨_, p, hp, origin, heq⟩
      · exact heq ▸ hc.orderly n hdone
      · exact honce
      · exact absurd heq <| hc.course p hp origin

-- What a request has come to stays.
theorem Kept.clean_of_change (hk : Kept w) (h : Change w w' ok) (hc : Clean w') : Clean w := by
  have hstays {n : Nat} (hn : w.Done n) : w'.Done n ∧ w'.happenings n = w.happenings n := by
    have ⟨hlt, hnot⟩ := hn
    cases h
    case quiet harrived hhand htrace _ =>
      refine ⟨⟨harrived ▸ hlt, hhand ▸ hnot⟩, ?_⟩
      rw [happenings, happenings, htrace]
    case answered hs harrived hhand htrace _ _ =>
      refine ⟨⟨by omega, hhand ▸ hnot⟩, ?_⟩
      rw [happenings_of_trace htrace, if_neg (by omega), List.append_nil]
    case taken hs p harrived hhand hnumber htrace _ _ =>
      refine ⟨⟨by omega, fun q hq => ?_⟩, ?_⟩
      · rw [hhand] at hq
        cases List.mem_append.mp hq
        case inl hq => exact hnot q hq
        case inr hq =>
          rw [List.mem_singleton.mp hq]
          omega
      · rw [happenings_of_trace htrace, if_neg (by omega), List.append_nil]
    case finished hs p harrived hp hhand htrace _ _ _ =>
      refine ⟨⟨harrived ▸ hlt, fun q hq => ?_⟩, ?_⟩
      · rw [hhand] at hq
        exact hnot q (List.mem_filter.mp hq).left
      · rw [happenings_of_trace htrace, if_neg fun heq => hnot p hp heq.symm, List.append_nil]
  constructor
  case course  =>
    intro p hp origin heq
    by_cases hp' : p ∈ w'.atHand
    case pos => exact hc.course p hp' origin heq
    case neg =>
      cases h
      case quiet hhand _ _           => exact hp' <| hhand ▸ hp
      case answered hhand _ _ _      => exact hp' <| hhand ▸ hp
      case taken hhand _ _ _ _       => exact hp' <| hhand ▸ List.mem_append_left _ hp
      case finished hs q harrived hq hhand htrace honce htwice _ =>
        have hnumber : p.number = q.number := by
          by_contra hne
          exact hp' <| by rw [hhand]; exact List.mem_filter.mpr ⟨hp, decide_eq_true hne⟩
        have hdone : w'.Done q.number := by
          refine ⟨harrived ▸ hk.hand q hq, fun r hr => ?_⟩
          rw [hhand] at hr
          exact of_decide_eq_true (List.mem_filter.mp hr).right
        have hp := hk.waiting p hp
        rw [heq, hnumber] at hp
        have ⟨_, status, hrejected, _⟩ := hp
        have hw := hk.waiting q hq
        cases hcourse : q.course
        case answered        =>
          rw [hcourse] at hw
          exact hw.right
        case respondEnvelope =>
          rw [hcourse] at hw
          exact hw.right status hrejected
        case gateRespond o   =>
          have htwice := htwice o hcourse
          have hhappenings : w'.happenings q.number = w.happenings q.number ++ hs := by
            rw [happenings_of_trace htrace, if_pos rfl]
          exact htwice.not_once <| hhappenings ▸ hc.orderly _ hdone
  case orderly => exact fun n hn => (hstays hn).right ▸ hc.orderly n (hstays hn).left

theorem serve_once {shared : Shared δ ι} {streaming : Bool} {credential origin : Option String} {served : Upshot}
    {hs : List Happening} (h : Waiting (.respondEnvelope streaming credential origin) hs) :
    HandledOnce (hs ++ ((respondEnvelope shared streaming origin served).snd.fst.map Happening.recorded ++
      [Happening.answered (respondEnvelope shared streaming origin served).fst])) := by
  have ⟨hanswers, hno⟩ := h
  have hrecorded (records : List AuditEvent) : answers (records.map .recorded) = [] := by
    simp [answers]
  have hanswer : answers (hs ++ ((respondEnvelope shared streaming origin served).snd.fst.map Happening.recorded ++
      [Happening.answered (respondEnvelope shared streaming origin served).fst])) =
      [(respondEnvelope shared streaming origin served).fst] := by
    rw [answers_append, answers_append, hanswers, hrecorded]
    rfl
  apply handledOnce_of_answer hanswer
  intro status hr
  cases rejectedWith_append.mp hr
  case inl hr => exact hno status hr
  case inr hr =>
    refine not_rejectedWith_of_forall (fun x hx outcome heq => ?_) hr
    subst heq
    simp at hx

theorem kept_start (shared : Shared δ ι) : Kept (start shared) where
  fresh   := fun _ _ => rfl
  hand    := fun _ h => by cases h
  waiting := fun _ h => by cases h
  handled := fun _ h => absurd h.left <| Nat.not_lt_zero _

theorem clean_start (shared : Shared δ ι) : Clean (start shared) where
  course  := fun _ h => by cases h
  orderly := fun _ h => absurd h.left <| Nat.not_lt_zero _

end Change

section Step

variable {δ ι : Type} [DecidableEq δ] [DecidableEq ι] {digest : String → δ} {addresses : Addresses ι}
variable {w : GateWorld δ ι}

theorem arrive_of_not {request : Request ι} {m : Moment δ} (h : ¬ForGate w.shared request) :
    Change w (w.arrive digest addresses request m) True := by
  have ⟨answer, decision, heq, honce⟩ := handleRequest_of_not digest addresses m h
  have hcourse : w.arrive digest addresses request m =
      { w with shared := decision.elim w.shared w.shared.decide, arrived := w.arrived + 1 }.happen w.arrived
        (decision.elim [] Decision.happenings ++ [Happening.answered answer]) := by
    rw [arrive, heq]
  rw [hcourse]
  exact .answered _ rfl rfl rfl honce trivial

theorem arrive_of_forGate {request : Request ι} {m : Moment δ} (h : ForGate w.shared request) :
    Change w (w.arrive digest addresses request m) (Admissible digest addresses w.shared m request) := by
  have ⟨streaming, origin, heq⟩ := handleRequest_of_forGate digest addresses m h
  have hadmitted :
      (∃ credential, (gateRequest digest addresses w.shared m request).outcome = .admitted credential) ↔
      Admissible digest addresses w.shared m request := gateRequest_admitted_iff
  have hsound : Sound (gateRequest digest addresses w.shared m request) := gateRequest_sound
  rw [arrive, heq, gated]
  generalize gateRequest digest addresses w.shared m request = d at hadmitted hsound ⊢
  cases ho : d.outcome
  case admitted credential          =>
    refine .taken d.happenings ⟨w.arrived, request, .respondEnvelope streaming credential origin⟩ rfl rfl rfl rfl
      ⟨answers_decision, fun status hr => ?_⟩ (iff_of_true (hadmitted.mp ⟨_, ho⟩) nofun)
    have ⟨_, _, heq⟩ := rejectedWith_decision.mp hr
    cases ho.symm.trans heq
  case rejected status code params =>
    refine .taken d.happenings ⟨w.arrived, request, .gateRespond origin⟩ rfl rfl rfl rfl
      ⟨answers_decision, status, rejectedWith_decision.mpr ⟨code, params, ho⟩, ?_⟩
      (iff_of_false (fun ha => ?_) fun hne => hne origin rfl)
    · rw [rejections_decision]
      exact (hsound.rejected status code params ho).left
    · have ⟨_, heq⟩ := hadmitted.mpr ha
      cases ho.symm.trans heq

theorem gateRespond_twice {p : Pending ι} {m : Moment δ} {origin : Option String} {hs : List Happening}
    (h : Waiting (.gateRespond origin) hs) :
    HandledTwice (hs ++ ((gateRequest digest addresses w.shared m p.request).happenings ++
      ((rejectedAnswer origin (gateRequest digest addresses w.shared m p.request).outcome).map
        Happening.answered).toList)) := by
  have ⟨hanswers, status, hrejected, hone⟩ := h
  have hsound : Sound (gateRequest digest addresses w.shared m p.request) := gateRequest_sound
  generalize gateRequest digest addresses w.shared m p.request = d at hsound ⊢
  refine ⟨status, rejectedWith_append.mpr <| .inl hrejected, ?_⟩
  cases ho : d.outcome
  case admitted credential         =>
    refine .inl ?_
    rw [answers_append, answers_append, hanswers, answers_decision]
    rfl
  case rejected status code params =>
    refine .inr ?_
    rw [rejections_append, rejections_append, hone, rejections_decision,
      (hsound.rejected status code params ho).left]
    have hanswer (answer : Response) : rejections [.answered answer] = 0 := rfl
    simp [rejectedAnswer, hanswer]

theorem Kept.step_change (hk : Kept w) (e : Event δ ι) :
    Change w (w.step digest addresses e) (w.Admits digest addresses e) := by
  cases e
  case arrive request m       =>
    by_cases h : ForGate w.shared request
    case pos =>
      have hiff : Admissible digest addresses w.shared m request ↔ w.Admits digest addresses (.arrive request m) :=
        ⟨fun ha _ => ha, fun ha => ha h⟩
      exact propext hiff ▸ arrive_of_forGate h
    case neg =>
      have htrue : True ↔ w.Admits digest addresses (.arrive request m) := iff_of_true trivial fun hf => absurd hf h
      exact propext htrue ▸ arrive_of_not h
  case goOn number m served   =>
    rw [step]
    cases hfind : w.atHand.find? (·.number = number)
    case none   => exact .quiet rfl rfl rfl trivial
    case some p =>
      have hp := List.mem_of_find?_eq_some hfind
      have hnumber : p.number = number := by simpa using List.find?_some hfind
      have hw := hk.waiting p hp
      subst hnumber
      dsimp only
      cases hcourse : p.course
      case answered answer =>
        rw [hcourse] at hw
        exact hw.right.elim
      case gateRespond origin =>
        rw [hcourse] at hw
        exact .finished _ p rfl hp rfl rfl (fun hne => absurd hcourse <| hne origin)
          (fun _ _ => gateRespond_twice hw) trivial
      case respondEnvelope streaming credential origin =>
        rw [hcourse] at hw
        exact .finished _ p rfl hp rfl rfl (fun _ => serve_once hw)
          (fun o ho => by rw [hcourse] at ho; cases ho) trivial
  case pair token id          =>
    rw [step]
    split
    case h_1 => exact .quiet rfl rfl rfl trivial
    case h_2 =>
      split
      case h_1 => exact .quiet rfl rfl rfl trivial
      case h_2 => exact .quiet rfl rfl rfl trivial
  case revoke id              =>
    rw [step]
    split
    case h_1 => exact .quiet rfl rfl rfl trivial
    case h_2 =>
      split
      case h_1 => exact .quiet rfl rfl rfl trivial
      case h_2 => exact .quiet rfl rfl rfl trivial
  case streamEnd              => exact .quiet rfl rfl rfl trivial

variable (digest addresses) in
theorem clean_iff_meets (shared : Shared δ ι) (es : List (Event δ ι)) :
    Runs.Throughout (step digest addresses) Clean (start shared) es ↔
      Runs.Meets (step digest addresses) (Admits digest addresses) (start shared) es := by
  have hinv (w : GateWorld δ ι) (e : Event δ ι) (hk : Kept w) : Kept (w.step digest addresses e) :=
    hk.change <| hk.step_change e
  have hstep (w : GateWorld δ ι) (e : Event δ ι) (hk : Kept w) (hc : Clean w) :
      Clean (w.step digest addresses e) ↔ w.Admits digest addresses e :=
    hk.clean_change_iff hc <| hk.step_change e
  exact Runs.throughout_iff_meets hinv hstep (kept_start shared) (clean_start shared)

-- Every request is handled once throughout if the gate admits every one that comes to it, and in a run that
-- leaves no request at hand only then.
theorem orderly_iff (digest : String → δ) (addresses : Addresses ι) (shared : Shared δ ι)
    (es : List (Event δ ι)) :
    (Runs.Meets (step digest addresses) (Admits digest addresses) (start shared) es →
      Runs.Throughout (step digest addresses) Orderly (start shared) es) ∧
    ((es.foldl (step digest addresses) (start shared)).atHand = [] →
      Runs.Throughout (step digest addresses) Orderly (start shared) es →
      Runs.Meets (step digest addresses) (Admits digest addresses) (start shared) es) := by
  have hinv (w : GateWorld δ ι) (e : Event δ ι) (hk : Kept w) : Kept (w.step digest addresses e) :=
    hk.change <| hk.step_change e
  have hback (w : GateWorld δ ι) (e : Event δ ι) (hk : Kept w) (hc : Clean (w.step digest addresses e)) :
      Clean w := hk.clean_of_change (hk.step_change e) hc
  constructor
  case left  =>
    intro hmeets
    exact ((clean_iff_meets digest addresses shared es).mpr hmeets).mono fun _ hc => hc.orderly
  case right =>
    intro hhand horderly
    have hcourse : ∀ p ∈ (es.foldl (step digest addresses) (start shared)).atHand,
        ∀ origin, p.course ≠ .gateRespond origin := by
      rw [hhand]
      exact fun p hp => by cases hp
    have hlast : Clean (es.foldl (step digest addresses) (start shared)) := ⟨hcourse, horderly.last⟩
    exact (clean_iff_meets digest addresses shared es).mp <|
      Runs.throughout_of_last hinv hback (kept_start shared) hlast

end Step

section Runs

def noAddresses : Addresses String where
  parse _ := none
  text s  := s

-- An adapter that lets a client ask once in a second.
def limited : Shared String String where
  auth            := none
  rate            := some ⟨{ requestsPerSecond := 1, burst := 1 }, []⟩
  audit           := { capacity := 16 }
  maxStreams      := 1
  maxRequestBytes := 1024
  allowedOrigins  := []
  trustedProxies  := []

def rpc : Request String where
  method     := .post
  url        := "/rpc"
  headers    := []
  remoteAddr := some "10.0.0.1"

def moment (now : Rat) : Moment String :=
  ⟨now, .inOrder, .inOrder⟩

theorem orderly_alone : Runs.Throughout (step (fun s => s) noAddresses) Orderly (start limited)
      [.arrive rpc (moment 0), .goOn 0 (moment 0) .tooLarge] ∧
    Runs.Meets (step (fun s => s) noAddresses) (Admits (fun s => s) noAddresses) (start limited)
      [.arrive rpc (moment 0), .goOn 0 (moment 0) .tooLarge] := by
  have hadmissible : Admissible (fun s => s) noAddresses limited (moment 0) rpc :=
    gateRequest_admitted_iff.mp ⟨none, by decide +kernel⟩
  have h := orderly_iff (fun s : String => s) noAddresses limited
    [.arrive rpc (moment 0), .goOn 0 (moment 0) .tooLarge]
  have horderly := h.left ⟨fun _ => hadmissible, trivial, trivial⟩
  exact ⟨horderly, h.right (by decide +kernel) horderly⟩

-- The second decision on a request lets it pass, or turns it down again.
theorem decided_again : ¬Runs.Throughout (step (fun s => s) noAddresses) Orderly (start limited)
      [.arrive rpc (moment 0), .goOn 0 (moment 0) .tooLarge, .arrive rpc (moment (1 / 2)),
        .goOn 1 (moment 1) .tooLarge] ∧
    ¬Runs.Throughout (step (fun s => s) noAddresses) Orderly (start limited)
      [.arrive rpc (moment 0), .goOn 0 (moment 0) .tooLarge, .arrive rpc (moment (1 / 2)),
        .goOn 1 (moment (1 / 2)) .tooLarge] := by
  constructor
  case left  =>
    intro h
    have hanswered := (h.last 1 ⟨by decide +kernel, by decide +kernel⟩).answered
    revert hanswered
    decide +kernel
  case right =>
    intro h
    have hrecorded := (h.last 1 ⟨by decide +kernel, by decide +kernel⟩).recorded 429
      ⟨"RATE_LIMITED", [("rule", "rate_limited"), ("retry_after_seconds", "1")], by decide +kernel⟩
    revert hrecorded
    decide +kernel

end Runs
end GateWorld
end RemoteHttp
