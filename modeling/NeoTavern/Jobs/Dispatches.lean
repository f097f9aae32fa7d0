import NeoTavern.Lib.Runs
import NeoTavern.Jobs.Cron
import NeoTavern.Jobs.Effects

namespace Jobs

-- What has been seen of a job that waits for acknowledgements. A dispatch keeps what was on its file.
inductive Mark (P : Type)
  | dispatched (time : Int) (record : Option (JobRecord P))
  | acknowledged (time : Int) (ok : Bool)
  | timedOut (time : Int)
  | retried (time : Int)
  deriving DecidableEq

def Mark.time {P : Type} : Mark P → Int
  | .dispatched t _   => t
  | .acknowledged t _ => t
  | .timedOut t       => t
  | .retried t        => t

def Mark.isDispatch {P : Type} : Mark P → Bool
  | .dispatched _ _ => true
  | _               => false

section Histories

variable {P : Type}

-- The last thing seen comes first.
def outstanding : List (Mark P) → Option Int
  | .dispatched t _ :: _ => some t
  | _                    => none

-- The failures since the last success or retry.
def failures : List (Mark P) → Nat
  | .acknowledged _ false :: h => failures h + 1
  | .timedOut _ :: h           => failures h + 1
  | .dispatched _ _ :: h       => failures h
  | _                          => 0

def lastFailure : List (Mark P) → Option Int
  | .acknowledged t false :: _ => some t
  | .timedOut t :: _           => some t
  | _                          => none

-- The scheduled times that have been dispatched.
def scheduledTimes (h : List (Mark P)) : List Int :=
  h.filterMap fun
    | .dispatched _ record => record.map (·.nextRunAt)
    | _                    => none

-- Those that a success has come after, and no retry since.
def served : List (Mark P) → List Int
  | .acknowledged _ true :: h => scheduledTimes h
  | .retried _ :: _           => []
  | _ :: h                    => served h
  | []                        => []

structure Due (time : Int) (record : JobRecord P) : Prop where
  active : record.status ≠ some .failed
  run    : record.nextRunAt ≤ time
  retry  : ∀ t ∈ record.nextRetryAt, t ≤ time
  free   : record.dispatchAt = none

-- A dispatch is made of a job that is due and after its backoff, once none is outstanding, and of a time
-- that has been served no more. What concludes a dispatch comes right after it.
def Regular (config : Config P) : List (Mark P) → Prop
  | []                          => True
  | .dispatched t record? :: h  =>
    (∃ record ∈ record?, Due t record ∧ (∀ s ∈ lastFailure h, s + backoffFor record (failures h) ≤ t) ∧
      failures h ≤ record.budget ∧ record.nextRunAt ∉ served h) ∧
    outstanding h = none ∧ Regular config h
  | .acknowledged _ _ :: h      => (outstanding h).isSome ∧ Regular config h
  | .timedOut t :: h            => (∃ d ∈ outstanding h, d + config.ackTimeoutMs ≤ t) ∧ Regular config h
  | .retried _ :: h             => Regular config h

end Histories

structure World (P : Type) where
  manager : Manager P
  time    : Int
  history : Key → List (Mark P)

namespace World

open Manager

variable {P : Type} (config : Config P) (order : List String → List String)

def start (time : Int) : World P where
  manager := Manager.start .empty
  time    := time
  history := fun _ => []

-- What a scan shows of a job that it has emitted `n` times. Only a job with a budget waits for
-- acknowledgements.
def scanned (now : Int) (n : Nat) (before after : Option (JobRecord P)) (h : List (Mark P)) :
    List (Mark P) :=
  let held (record? : Option (JobRecord P)) := record?.any (·.dispatchAt.isSome)
  if before.any (·.budget = 0) then
    h
  else
    List.replicate n (.dispatched now before) ++
      if held before && !held after then .timedOut now :: h else h

-- What an operation and its result show of a job. Its history starts when it is scheduled.
def observe (operation : Operation P) (now : Int) (result : Except JobError (Result P))
    (m m' : Manager P) (k : Key) (h : List (Mark P)) : List (Mark P) :=
  match operation, result with
  | .schedule _, .ok (.scheduled record)               => if record.key = k then [] else h
  | .ack pluginId jobId outcome, .ok (.acknowledged true) =>
    if (pluginId, jobId) = k then .acknowledged now outcome.ok :: h else h
  | .retry pluginId jobId, .ok (.retried (some _))     => if (pluginId, jobId) = k then .retried now :: h else h
  | .scanOnce, _                                       =>
    scanned now (m'.emissions k - m.emissions k) (m.job? k) (m'.job? k) h
  | _, _                                               => h

-- One operation from its call to its end.
def step (w : World P) (e : Operation P × Env) : World P :=
  let r := w.manager.perform config order e.snd e.fst
  {
    manager := r.snd
    time    := e.snd.now
    history := fun k => observe e.fst e.snd.now r.fst w.manager r.snd k (w.history k)
  }

structure Matched (w : World P) : Prop where
  regular     : ∀ k, Regular config (w.history k)
  outstanding : ∀ k, ∀ record ∈ w.manager.job? k, record.dispatchAt = Jobs.outstanding (w.history k)
  failed      : ∀ k, ∀ record ∈ w.manager.job? k,
    record.status = some .failed ↔ failures (w.history k) = record.budget + 1
  ack         : ∀ k outcome env, Jobs.outstanding (w.history k) = none →
    (w.manager.perform config order env <| .ack k.fst k.snd outcome).snd = w.manager

end World

-- What the record of a job says of its history.
structure Kept {P : Type} (record : JobRecord P) (h : List (Mark P)) : Prop where
  outstanding : record.dispatchAt = outstanding h
  attempts    : record.attempts.getD 0 = failures h
  bounded     : failures h ≤ record.budget + 1
  held        : record.dispatchAt.isSome → failures h ≤ record.budget
  failed      : record.status = some .failed ↔ failures h = record.budget + 1
  retry       : ∀ s ∈ lastFailure h, failures h ≤ record.budget →
    record.nextRetryAt = some (s + backoffFor record (failures h))
  served      : ∀ t ∈ served h, t < record.nextRunAt
  interval    : ∀ i ∈ record.intervalMs, 0 < i
  plain       : record.budget = 0 → ∀ mark ∈ h, ∃ t, mark = .retried t

section Kept

variable {P : Type} {config : Config P} {record : JobRecord P} {h : List (Mark P)}

theorem Kept.fresh (hf : Manager.Fresh record) : Kept record [] where
  outstanding := hf.dispatchAt
  attempts    := by rw [hf.attempts]; rfl
  bounded     := Nat.zero_le _
  held        := fun _ => Nat.zero_le _
  failed      := by simp [hf.status, failures]
  retry       := fun s hs => by cases hs
  served      := fun t ht => by cases ht
  interval    := hf.interval
  plain       := fun _ mark hmark => by cases hmark

theorem Kept.budget_pos (hk : Kept record h) (hd : record.dispatchAt.isSome) : 0 < record.budget := by
  apply Nat.pos_of_ne_zero
  intro hb
  have hplain := hk.plain hb
  rw [hk.outstanding] at hd
  cases h
  case nil         => cases hd
  case cons mark h =>
    obtain ⟨t, rfl⟩ := hplain mark List.mem_cons_self
    cases hd

theorem Kept.not_failed (hk : Kept record h) (hd : record.dispatchAt.isSome) :
    record.status ≠ some .failed := by
  intro hs
  have := hk.held hd
  have := hk.failed.mp hs
  omega

theorem Kept.served_eq_nil (hk : Kept record h) (hb : record.budget = 0) : Jobs.served h = [] := by
  have hplain := hk.plain hb
  cases h
  case nil         => rfl
  case cons mark h =>
    obtain ⟨t, rfl⟩ := hplain mark List.mem_cons_self
    rfl

theorem Kept.afterDispatch (hk : Kept record h) (hd : Due t record) (hb : 0 < record.budget) :
    Kept (record.afterDispatch t) (.dispatched t (some record) :: h) where
  outstanding := rfl
  attempts    := hk.attempts
  bounded     := hk.bounded
  held        := by
    intro _
    have hne : failures h ≠ record.budget + 1 := fun heq => hd.active <| hk.failed.mpr heq
    have := hk.bounded
    rw [failures]
    change failures h ≤ record.budget
    omega
  failed      := hk.failed
  retry       := fun s hs => by cases hs
  served      := hk.served
  interval    := hk.interval
  plain       := fun h0 => absurd h0 <| Nat.ne_of_gt hb

-- A dispatch has failed, by an acknowledgement or for want of one.
def Mark.IsFailure (mark : Mark P) (t : Int) : Prop :=
  mark = .timedOut t ∨ mark = .acknowledged t false

theorem Mark.IsFailure.eqs {mark : Mark P} (hm : mark.IsFailure t) : failures (mark :: h) = failures h + 1 ∧
    lastFailure (mark :: h) = some t ∧ Jobs.served (mark :: h) = Jobs.served h ∧
    Jobs.outstanding (mark :: h) = none := by
  rcases hm with rfl | rfl
  · exact ⟨rfl, rfl, rfl, rfl⟩
  · exact ⟨rfl, rfl, rfl, rfl⟩

theorem Kept.afterFailure {mark : Mark P} (hk : Kept record h) (hd : record.dispatchAt.isSome)
    (hm : mark.IsFailure t) : Kept (record.afterFailure error t) (mark :: h) := by
  have ⟨hfail, hlast, hserved, hout⟩ := hm.eqs (h := h)
  have hle := hk.held hd
  have hb := hk.budget_pos hd
  have hattempts := hk.attempts
  constructor
  case outstanding => rw [hout, record.afterFailure_dispatchAt]
  case attempts    => rw [hfail, record.afterFailure_attempts, Option.getD_some, hattempts]
  case bounded     =>
    rw [hfail, record.afterFailure_budget]
    omega
  case held =>
    intro h
    rw [record.afterFailure_dispatchAt] at h
    cases h
  case failed =>
    rw [hfail, record.afterFailure_budget, record.afterFailure_status <| hk.not_failed hd, hattempts]
    omega
  case retry =>
    intro s hs hle'
    rw [hlast] at hs
    obtain rfl := Option.some.inj hs
    rw [hfail, record.afterFailure_budget] at hle'
    rw [hfail, JobRecord.backoffFor_afterFailure, record.afterFailure_nextRetryAt <| hattempts ▸ hle', hattempts]
  case served   => rw [hserved, record.afterFailure_nextRunAt]; exact hk.served
  case interval => rw [record.afterFailure_intervalMs]; exact hk.interval
  case plain    => exact fun h0 => absurd (record.afterFailure_budget ▸ h0) <| Nat.ne_of_gt hb

theorem Kept.afterSuccess (hk : Kept record h) (hd : record.dispatchAt.isSome) (ht : t < time)
    (hs : ∀ s ∈ scheduledTimes h, s ≤ t) :
    Kept (record.afterSuccess time) (.acknowledged t true :: h) where
  outstanding := rfl
  attempts    := rfl
  bounded     := Nat.zero_le _
  held        := fun _ => Nat.zero_le _
  failed      := iff_of_false (hk.not_failed hd) nofun
  retry       := fun s hs => by cases hs
  served      := fun s hmem => Int.lt_of_le_of_lt (hs s hmem) ht
  interval    := hk.interval
  plain       := fun h0 => absurd h0 <| Nat.ne_of_gt <| hk.budget_pos hd

theorem Kept.afterRetry (hk : Kept record h) : Kept (record.afterRetry t) (.retried t :: h) where
  outstanding := rfl
  attempts    := rfl
  bounded     := Nat.zero_le _
  held        := fun _ => Nat.zero_le _
  failed      := iff_of_false nofun nofun
  retry       := fun s hs => by cases hs
  served      := fun s hs => by cases hs
  interval    := hk.interval
  plain       := fun h0 => List.forall_mem_cons.mpr ⟨⟨t, rfl⟩, hk.plain h0⟩

theorem Kept.afterFiring (hk : Kept record h) (hb : record.budget = 0) :
    Kept (record.afterFiring t time) h where
  outstanding := hk.outstanding
  attempts    := hk.attempts
  bounded     := hk.bounded
  held        := hk.held
  failed      := hk.failed
  retry       := hk.retry
  served      := fun s hs => by rw [hk.served_eq_nil hb] at hs; cases hs
  interval    := hk.interval
  plain       := hk.plain

theorem le_of_mem_scheduledTimes (hr : Regular config h) (hle : ∀ mark ∈ h, mark.time ≤ t) :
    ∀ s ∈ scheduledTimes h, s ≤ t := by
  induction h
  case nil => exact fun s hs => by cases hs
  case cons mark h ih =>
    have ⟨hmark, hmarks⟩ := List.forall_mem_cons.mp hle
    cases mark
    case dispatched d record? =>
      have ⟨⟨record, hrec, hdue, _⟩, _, hregular⟩ := hr
      obtain rfl := Option.mem_def.mp hrec
      intro s hs
      cases List.mem_cons.mp hs
      case inl heq => exact heq ▸ Int.le_trans hdue.run hmark
      case inr hs  => exact ih hregular hmarks s hs
    case acknowledged => exact ih hr.right hmarks
    case timedOut     => exact ih hr.right hmarks
    case retried      => exact ih hr hmarks

end Kept

-- The history of a job agrees with what is on its file.
structure Sound {P : Type} (config : Config P) (time : Int) (record? : Option (JobRecord P))
    (h : List (Mark P)) : Prop where
  regular : Regular config h
  past    : ∀ mark ∈ h, mark.time ≤ time
  kept    : ∀ record ∈ record?, Kept record h

section Sound

variable {P : Type} {config : Config P} {time now : Int} {record? : Option (JobRecord P)}
  {record : JobRecord P} {h : List (Mark P)}

theorem Sound.later (hs : Sound config time record? h) (hle : time ≤ now) : Sound config now record? h where
  regular := hs.regular
  past    := fun mark hm => Int.le_trans (hs.past mark hm) hle
  kept    := hs.kept

theorem Sound.fresh (hf : Manager.Fresh record) : Sound config time (some record) [] where
  regular := trivial
  past    := fun _ hm => by cases hm
  kept    := fun _ hr => Option.some.inj hr ▸ .fresh hf

theorem Sound.removed (hs : Sound config time record? h) : Sound config time none h where
  regular := hs.regular
  past    := hs.past
  kept    := fun _ hr => by cases hr

theorem Sound.put {record' : JobRecord P} (hs : Sound config time record? h) (hk : Kept record' h) :
    Sound config time (some record') h where
  regular := hs.regular
  past    := hs.past
  kept    := fun _ hr => Option.some.inj hr ▸ hk

theorem Sound.mark {mark : Mark P} (hs : Sound config time record? h) (hle : time ≤ now)
    (ht : mark.time = now) (hr : Regular config (mark :: h)) : Sound config now none (mark :: h) where
  regular := hr
  past    := List.forall_mem_cons.mpr ⟨Int.le_of_eq ht, (hs.later hle).past⟩
  kept    := fun _ hr => by cases hr

theorem Sound.dispatch (hs : Sound config time (some record) h) (hle : time ≤ now) (hd : Due now record)
    (hb : 0 < record.budget) :
    Sound config now (some <| record.afterDispatch now) (.dispatched now (some record) :: h) := by
  have hk := hs.kept record rfl
  have hk' := hk.afterDispatch hd hb
  have hout : outstanding h = none := hk.outstanding.symm.trans hd.free
  have hle' : failures h ≤ record.budget := hk'.held rfl
  have hretry : ∀ s ∈ lastFailure h, s + backoffFor record (failures h) ≤ now :=
    fun s hlast => hd.retry _ <| hk.retry s hlast hle'
  have hnew : record.nextRunAt ∉ served h := fun hmem => Int.lt_irrefl _ <| hk.served _ hmem
  have hr : Regular config (.dispatched now (some record) :: h) :=
    ⟨⟨record, rfl, hd, hretry, hle', hnew⟩, hout, hs.regular⟩
  exact (hs.mark hle rfl hr).put hk'

theorem Sound.fail {mark : Mark P} (hs : Sound config time (some record) h) (hle : time ≤ now)
    (hd : record.dispatchAt.isSome) (hm : mark.IsFailure now) (hr : Regular config (mark :: h)) :
    Sound config now (some <| record.afterFailure error now) (mark :: h) := by
  have ht : mark.time = now := by
    rcases hm with rfl | rfl
    · rfl
    · rfl
  exact (hs.mark hle ht hr).put <| (hs.kept record rfl).afterFailure hd hm

theorem Sound.regular_acknowledged (hs : Sound config time (some record) h)
    (hd : record.dispatchAt.isSome) : Regular config (.acknowledged now ok :: h) :=
  ⟨(hs.kept record rfl).outstanding ▸ hd, hs.regular⟩

end Sound

namespace World

open Manager

variable {P : Type} {config : Config P} {order : List String → List String} {time now : Int}
  {m m' : Manager P} {k : Key} {h : List (Mark P)} {result : Except JobError (Result P)}

-- One turn of a scan.
theorem sound_scanned {n : Nat} {record? record?' : Option (JobRecord P)}
    (hturn : Turn config now record? n record?') (hs : Sound config time record? h) (hle : time ≤ now) :
    Sound config now record?' (scanned now n record? record?' h) := by
  cases hturn
  case same =>
    simp only [scanned, List.replicate_zero, List.nil_append, Bool.and_not_self, Bool.false_eq_true,
      if_false, ite_self]
    exact hs.later hle
  case fire record hb hr =>
    have hk := hs.kept record rfl
    simp only [scanned, Option.any_some, hb, decide_true, if_true]
    refine ⟨hs.regular, (hs.later hle).past, fun record' hrecord' => ?_⟩
    rcases hr record' hrecord' with rfl | ⟨_, rfl⟩
    · exact hk
    · exact hk.afterFiring hb
  case dispatch record hb hactive hd hretry hrun =>
    simp only [scanned, Option.any_some, hd, Nat.ne_of_gt hb, decide_false, Option.isSome_none,
      Bool.false_and, Bool.false_eq_true, if_false]
    exact hs.dispatch hle ⟨hactive, hrun, hretry, hd⟩ hb
  case timeout dispatchAt record hactive hd ht =>
    have hk   := hs.kept record rfl
    have hout : dispatchAt ∈ outstanding h := hk.outstanding ▸ hd
    have hd'  : record.dispatchAt.isSome := Option.isSome_iff_exists.mpr ⟨_, hd⟩
    simp only [scanned, Option.any_some, Nat.ne_of_gt <| hk.budget_pos hd', decide_false, hd',
      JobRecord.afterFailure_dispatchAt, Option.isSome_none, Bool.not_false, Bool.and_self,
      Bool.false_eq_true, if_false, if_true, List.replicate_zero, List.nil_append]
    exact hs.fail hle hd' (.inl rfl) ⟨⟨dispatchAt, hout, ht⟩, hs.regular⟩

structure Good (config : Config P) (w : World P) : Prop where
  tidy  : w.manager.Tidy
  sound : ∀ k, Sound config w.time (w.manager.job? k) (w.history k)

variable {w : World P} {env : Env}

theorem Good.unchanged (hg : Good config w) (hle : w.time ≤ now) {k : Key} :
    Sound config now (w.manager.job? k) (w.history k) :=
  (hg.sound k).later hle

-- A file has been written, and the history of its job has moved with it.
theorem Good.put (hg : Good config w) (hle : w.time ≤ now) {base : Option Nat} {histories : Key → List (Mark P)}
    (hp : validId record.key.fst) (hj : validId record.key.snd)
    (hsame : ∀ k ≠ record.key, histories k = w.history k)
    (hs : Sound config now (some record) (histories record.key)) :
    Good config ⟨w.manager.put record base, now, histories⟩ where
  tidy  := hg.tidy.put hp hj
  sound := by
    intro k
    by_cases hk : k = record.key
    case pos =>
      subst hk
      exact job?_put.symm ▸ hs
    case neg =>
      have hput : Same k w.manager (w.manager.put record base) := same_put hk
      simp only [hput.job?, hsame k hk]
      exact hg.unchanged hle

theorem Good.drop (hg : Good config w) (hle : w.time ≤ now) {histories : Key → List (Mark P)}
    (hsame : ∀ l ≠ k, histories l = w.history l) (hs : Sound config now none (histories k)) :
    Good config ⟨w.manager.drop k, now, histories⟩ where
  tidy  := hg.tidy.drop
  sound := by
    intro l
    by_cases hl : l = k
    case pos =>
      subst hl
      exact job?_drop.symm ▸ hs
    case neg =>
      have hjob := (same_drop (m := w.manager) hl).job?
      simp only [hjob, hsame l hl]
      exact hg.unchanged hle

theorem Good.same (hg : Good config w) (hle : w.time ≤ now) {histories : Key → List (Mark P)}
    (hsame : ∀ l, histories l = w.history l) : Good config ⟨w.manager, now, histories⟩ where
  tidy  := hg.tidy
  sound := by
    intro k
    simp only [hsame k]
    exact hg.unchanged hle

theorem Good.step_schedule (hg : Good config w)
    (hle : w.time ≤ env.now) (input : ScheduleInput P) :
    Good config (w.step config order (.schedule input, env)) := by
  rcases eval_schedule config order env w.manager input
    with ⟨e, heval⟩ | ⟨record, hf, heval⟩
  · rw [step, perform_schedule heval]
    exact hg.same hle fun _ => rfl
  · rw [step, perform_schedule heval]
    refine hg.put hle hf.pluginId hf.jobId (fun k hk => if_neg fun h => hk h.symm) ?_
    simp only [observe, Except.map, if_true]
    exact .fresh hf

theorem Good.step_removal (hg : Good config w) (hle : w.time ≤ env.now) {operation : Operation P}
    (hobserve : ∀ result m m' k h, observe operation env.now result m m' k h = h)
    (h : ∃ result, w.manager.perform config order env operation = (result, w.manager) ∨
      w.manager.perform config order env operation = (result, w.manager.drop k)) :
    Good config (w.step config order (operation, env)) := by
  rcases h with ⟨result, h | h⟩
  · rw [step, h]
    exact hg.same hle fun _ => hobserve ..
  · rw [step, h]
    refine hg.drop hle (fun _ _ => hobserve ..) ?_
    rw [hobserve]
    exact (hg.unchanged hle).removed

theorem Good.step_retry (horder : ∀ l, (order l).Perm l) (hg : Good config w)
    (hle : w.time ≤ env.now) (pluginId jobId : String) :
    Good config (w.step config order (.retry pluginId jobId, env)) := by
  rcases eval_retry env pluginId jobId horder hg.tidy
    with heval | ⟨r, hread, heval⟩
  · rw [step, perform_retry heval]
    exact hg.same hle fun _ => rfl
  · have hkey := key_of_reading hread
    have ⟨hp, hj⟩ : validId r.record.key.fst ∧ validId r.record.key.snd := hkey ▸ hg.tidy.valid hread
    have hk := (hg.sound _).kept _ <| job?_of_reading hread
    rw [step, perform_retry heval]
    refine hg.put hle hp hj (fun k hne => if_neg fun h => hne <| h.symm.trans hkey.symm) ?_
    have hs : Sound config env.now (w.manager.job? (pluginId, jobId)) (w.history (pluginId, jobId)) :=
      hg.unchanged hle
    rw [JobRecord.afterRetry_key, hkey]
    simp only [observe, Except.map, if_true]
    have hr : Regular config (.retried env.now :: w.history (pluginId, jobId)) := hs.regular
    exact (hs.mark (Int.le_refl _) rfl hr).put hk.afterRetry

theorem Good.step_ack (horder : ∀ l, (order l).Perm l) (hcron : ∀ t c time,
    config.cron.nextCronAfter t c = some time → t < time) (hg : Good config w)
    (hle : w.time ≤ env.now) (pluginId jobId : String) (outcome : Outcome) :
    Good config (w.step config order (.ack pluginId jobId outcome, env)) := by
  rcases eval_ack config env pluginId jobId horder hg.tidy outcome
    with ⟨result, heval, hno⟩ | ⟨r, m', heval, hread, hd, hacked⟩
  · rw [step, perform_ack heval]
    refine hg.same hle fun _ => ?_
    rcases result with _ | _ | _
    · rfl
    · rfl
    · exact absurd rfl hno
  · have hkey := key_of_reading hread
    have ⟨hp, hj⟩ : validId r.record.key.fst ∧ validId r.record.key.snd := hkey ▸ hg.tidy.valid hread
    have hs : Sound config env.now (some r.record) (w.history r.record.key) := by
      have h : Sound config env.now (w.manager.job? (pluginId, jobId)) (w.history (pluginId, jobId)) :=
        hg.unchanged hle
      rwa [job?_of_reading hread, ← hkey] at h
    have hk := hs.kept _ rfl
    have hr : Regular config (.acknowledged env.now outcome.ok :: w.history r.record.key) :=
      hs.regular_acknowledged hd
    have hsame (m₁ : Manager P) (k : Key) (hne : k ≠ r.record.key) : observe (.ack pluginId jobId outcome)
        env.now (.ok <| .acknowledged true) w.manager m₁ k (w.history k) = w.history k :=
      if_neg fun h => hne <| h.symm.trans hkey.symm
    have hthere (m₁ : Manager P) : observe (.ack pluginId jobId outcome) env.now
        (.ok <| .acknowledged true) w.manager m₁ r.record.key (w.history r.record.key) =
        .acknowledged env.now outcome.ok :: w.history r.record.key := if_pos hkey.symm
    rw [step, perform_ack heval]
    simp only [Except.map]
    cases hacked
    case failure hok =>
      have hafter : (r.record.afterFailure outcome.message env.now).key = r.record.key :=
        r.record.afterFailure_key
      refine hg.put hle (hafter ▸ hp) (hafter ▸ hj) (fun k hne => hsame _ k <| hafter ▸ hne) ?_
      rw [hafter, hthere, hok]
      exact hs.fail (Int.le_refl _) hd (.inr rfl) <| hs.regular_acknowledged hd
    case finish hok =>
      refine hg.drop hle (hsame _) ?_
      rw [hthere]
      exact hs.mark (Int.le_refl _) rfl hr
    case success time hok hnext =>
      have hlt : env.now < time := by
        rcases hnext with ⟨i, hi, hle⟩ | ⟨cron, _, hnext⟩
        · have := hk.interval i hi
          omega
        · exact hcron _ _ _ hnext
      have hpast := le_of_mem_scheduledTimes hs.regular hs.past
      refine hg.put hle hp hj (hsame _) ?_
      rw [JobRecord.afterSuccess_key, hthere]
      refine (hs.mark (Int.le_refl _) rfl hr).put ?_
      rw [hok]
      exact hk.afterSuccess hd hlt hpast

theorem Good.step (horder : ∀ l, (order l).Perm l) (hcron : ∀ t c time,
    config.cron.nextCronAfter t c = some time → t < time) (hg : Good config w) (operation : Operation P)
    (hle : w.time ≤ env.now) : Good config (w.step config order (operation, env)) := by
  have ht := hg.tidy
  cases operation
  case scanOnce =>
    have hscan := scanned_scanOnce config env horder ht
    refine ⟨hscan.tidy, fun k => ?_⟩
    have ⟨n, hn, hturn⟩ := hscan.turned k trivial
    have hcount : (w.manager.perform config order env .scanOnce).snd.emissions k -
      w.manager.emissions k = n := by omega
    have h := sound_scanned hturn (hg.sound k) hle
    rw [← hcount] at h
    exact h
  case schedule input         => exact hg.step_schedule hle input
  case cancel pluginId jobId  =>
    have ⟨result, h⟩ := eval_cancel order env w.manager pluginId jobId
    exact hg.step_removal hle (fun _ _ _ _ _ => rfl) ⟨_, h.imp perform_cancel perform_cancel⟩
  case remove pluginId jobId  =>
    have ⟨result, h⟩ := eval_remove order env w.manager pluginId jobId
    exact hg.step_removal hle (fun _ _ _ _ _ => rfl) ⟨_, h.imp perform_remove perform_remove⟩
  case ack pluginId jobId outcome => exact hg.step_ack horder hcron hle pluginId jobId outcome
  case retry pluginId jobId => exact hg.step_retry horder hle pluginId jobId

theorem Good.start (time : Int) : Good config (start time) where
  tidy  := ⟨List.nodup_nil, List.nodup_nil, fun _ _ hf => by cases hf⟩
  sound := by
    intro k
    constructor
    case regular => trivial
    case past    => exact fun _ hm => by cases hm
    case kept    => exact fun _ hr => by cases hr

theorem Good.matched (horder : ∀ l, (order l).Perm l) (hg : Good config w) : w.Matched config order where
  regular     := fun k => (hg.sound k).regular
  outstanding := fun k record hr => ((hg.sound k).kept record hr).outstanding
  failed      := fun k record hr => ((hg.sound k).kept record hr).failed
  ack         := by
    intro k outcome env hout
    rcases eval_ack config env k.fst k.snd horder hg.tidy outcome
      with ⟨result, heval, _⟩ | ⟨r, m', _, hread, hd, _⟩
    · rw [perform_ack heval]
    · have hkept := (hg.sound k).kept r.record <| job?_of_reading hread
      rw [hkept.outstanding, hout] at hd
      cases hd

end World

def Config.utc {P : Type} (config : Config P) (parse : String → Option CronSchedule) : Config P :=
  { config with cron := utcCron parse }

namespace World

variable {P : Type} {order : List String → List String}

-- An acknowledgement tells a job and no dispatch: it concludes the one that is outstanding, or nothing.
theorem dispatches_matched (config : Config P) (parse : String → Option CronSchedule)
    (horder : ∀ l, (order l).Perm l) (time : Int) (es : List (Operation P × Env))
    (h : Runs.Meets (step (config.utc parse) order) (fun w e => w.time ≤ e.snd.now) (start time) es) :
    Runs.Throughout (step (config.utc parse) order) (Matched (config.utc parse) order) (start time) es := by
  have hgood : Runs.Throughout (step (config.utc parse) order) (Good (config.utc parse)) (start time) es :=
    Runs.throughout_of_meets
      (fun w e hg hle => hg.step horder (fun _ _ _ hnext => lt_of_nextCronAfter hnext) e.fst hle) (.start time) h
  exact hgood.mono fun w hg => hg.matched horder

section Examples

private def settings : Config Unit where
  cron           := utcCron fun _ => none
  payloadBytes _ := some 2
  maxRunAtMs     := 10000000
  ackTimeoutMs   := 500

private def everySecond : ScheduleInput Unit where
  pluginId     := "p"
  name         := "a"
  intervalMs   := some 1000
  retries      := some 1
  retryDelayMs := some 1000

-- The first dispatch times out, and there is a second one.
private def dispatchedTwice : List (Operation Unit × Env) := [
  (.schedule everySecond, ⟨0, "a"⟩), (.scanOnce, ⟨1000, ""⟩), (.scanOnce, ⟨2000, ""⟩),
  (.scanOnce, ⟨3000, ""⟩)
]

theorem dispatches_matched_twice : Runs.Throughout (step (settings.utc fun _ => none) id)
    (Matched (settings.utc fun _ => none) id) (start 0)
    (dispatchedTwice ++ [(.ack "p" "a" { ok := false }, ⟨3001, ""⟩), (.scanOnce, ⟨9000, ""⟩)]) :=
  dispatches_matched settings (fun _ => none) (fun _ => .refl _) 0 _ (by decide +kernel)

-- The acknowledgement that the first dispatch has waited for in vain concludes the second one.
theorem late_ack_concludes : ¬∀ (es : List (Operation Unit × Env)) (k : Key) (outcome : Outcome) (env : Env),
    Runs.Meets (step settings id) (fun w e => w.time ≤ e.snd.now) (start 0)
      (es ++ [(.ack k.fst k.snd outcome, env)]) →
    (∃ mark ∈ ((es.foldl (step settings id) (start 0)).history k).tail, mark.isDispatch) →
    ((es.foldl (step settings id) (start 0)).manager.perform settings id env
      (.ack k.fst k.snd outcome)).snd = (es.foldl (step settings id) (start 0)).manager := by
  intro h
  have hsame := congrArg Manager.files <| h dispatchedTwice ("p", "a") { ok := true } ⟨3001, ""⟩
    (by decide +kernel) (by decide +kernel)
  revert hsame
  decide +kernel

end Examples

end World
end Jobs
