import NeoTavern.Jobs.Turns

namespace Jobs.Manager

open Capability (trim)

variable {P : Type} {config : Config P} {order : List String → List String} {env : Env}
  {m : Manager P} {pluginId jobId : String} {r : Read P}

-- What a call does whose result is a part of what the operation answers.
theorem perform_eq {α : Type} {job : Job P α} {f : α → Result P} {result : Except JobError α}
    (h : operation.job config = f <$> job)
    (heval : eval order env job (env, m) = (result, (env, m'))) :
    m.perform config order env operation = (result.map f, m') := by
  rw [perform, h, eval_map, heval]

section Ack

-- What an acknowledgement can do to a job whose dispatch it concludes.
inductive Acked (config : Config P) (timestamp : Int) (outcome : Outcome) (m : Manager P) (r : Read P) :
    Manager P → Prop
  | failure (h : outcome.ok = false) :
    Acked config timestamp outcome m r (m.put (r.record.afterFailure outcome.message timestamp) r.stamp)
  | finish (h : outcome.ok = true) : Acked config timestamp outcome m r (m.drop r.record.key)
  | success (h : outcome.ok = true)
    (hnext : (∃ i ∈ r.record.intervalMs, timestamp + i ≤ time) ∨
      ∃ cron ∈ r.record.cron, config.cron.nextCronAfter timestamp cron = some time) :
    Acked config timestamp outcome m r (m.put (r.record.afterSuccess time) r.stamp)

variable (config env pluginId jobId) in
theorem eval_ack (horder : ∀ l, (order l).Perm l) (ht : m.Tidy) (outcome : Outcome) :
    (∃ result, eval order env (ack config pluginId jobId outcome) (env, m) = (result, (env, m)) ∧
      result ≠ .ok true) ∨
    ∃ r m', eval order env (ack config pluginId jobId outcome) (env, m) = (.ok true, (env, m')) ∧
      m.reading (pluginId, jobId) = some r ∧ r.record.dispatchAt.isSome ∧
      Acked config env.now outcome m r m' := by
  have hno : ∃ result : Except JobError Bool, (Except.ok false, (env, m)) = (result, (env, m)) ∧
      result ≠ .ok true := ⟨_, rfl, nofun⟩
  rw [ack]
  split
  case isTrue  => exact .inl hno
  case isFalse =>
    rw [eval_bind, eval_readDir]
    simp only [find_readings ht horder]
    cases hread : m.reading (pluginId, jobId)
    case none   => exact .inl hno
    case some r =>
      have ⟨hp, hj⟩ : validId r.record.key.fst ∧ validId r.record.key.snd :=
        key_of_reading hread ▸ ht.valid hread
      simp only
      split
      case isTrue     => exact .inl hno
      case isFalse hd =>
        have hd : r.record.dispatchAt.isSome := by simpa [Option.isSome_iff_ne_none] using hd
        rw [eval_bind, eval_now]
        simp only
        cases hok : outcome.ok
        case false =>
          simp only [Bool.false_eq_true, if_false]
          rw [eval_bind, eval_recordFailure hp hj]
          exact .inr ⟨r, _, rfl, rfl, hd, .failure hok⟩
        case true =>
          simp only [if_true]
          rw [eval_bind]
          rcases eval_recordSuccess config order env m env.now hp hj
            with heval | heval | ⟨time, heval, hnext⟩
          · rw [heval]
            exact .inl ⟨_, rfl, nofun⟩
          · rw [heval]
            exact .inr ⟨r, _, rfl, rfl, hd, .finish hok⟩
          · rw [heval]
            exact .inr ⟨r, _, rfl, rfl, hd, .success hok hnext⟩

end Ack

section Others

theorem retry_eq : retry (P := P) pluginId jobId =
    (if !validId pluginId || !validId jobId then
      pure none
    else do
      let records ← readDir pluginId
      match find records jobId with
      | none   => pure none
      | some r => do
        let timestamp ← now
        writeAtomic (r.record.afterRetry timestamp) r.stamp
        let records ← readDir pluginId
        pure <| (find records jobId).map (·.record)) :=
  rfl

variable (env pluginId jobId) in
theorem eval_retry (horder : ∀ l, (order l).Perm l) (ht : m.Tidy) :
    eval order env (retry pluginId jobId) (env, m) = (.ok none, (env, m)) ∨
    ∃ r, m.reading (pluginId, jobId) = some r ∧
      eval order env (retry pluginId jobId) (env, m) =
        (.ok <| some <| r.record.afterRetry env.now,
          (env, m.put (r.record.afterRetry env.now) r.stamp)) := by
  rw [retry_eq]
  split
  case isTrue  => exact .inl rfl
  case isFalse =>
    rw [eval_bind, eval_readDir]
    simp only [find_readings ht horder]
    cases hread : m.reading (pluginId, jobId)
    case none   => exact .inl rfl
    case some r =>
      have hkey := key_of_reading hread
      have ⟨hp, hj⟩ : validId r.record.key.fst ∧ validId r.record.key.snd := hkey ▸ ht.valid hread
      have hwrite : eval order env (writeAtomic (r.record.afterRetry env.now) r.stamp) (env, m) =
          (.ok (), (env, m.put (r.record.afterRetry env.now) r.stamp)) := eval_writeAtomic hp hj
      have ht' : (m.put (r.record.afterRetry env.now) r.stamp).Tidy := ht.put hp hj
      have hjob : (m.put (r.record.afterRetry env.now) r.stamp).job? (r.record.afterRetry env.now).key =
          some (r.record.afterRetry env.now) := job?_put
      rw [JobRecord.afterRetry_key, hkey, job?] at hjob
      refine .inr ⟨r, rfl, ?_⟩
      simp only [eval_bind, eval_now, hwrite, eval_readDir, eval_pure, find_readings ht' horder, hjob]

-- A file is removed under its own name, or the call fails.
variable (order env m pluginId jobId) in
theorem eval_cancel : ∃ result, eval order env (cancel pluginId jobId) (env, m) = (result, (env, m)) ∨
    eval order env (cancel pluginId jobId) (env, m) = (result, (env, m.drop (pluginId, jobId))) := by
  rw [cancel]
  split
  case isTrue  => exact ⟨.error (.notFound jobId), .inl rfl⟩
  case isFalse =>
    cases hget : Assoc.get m.files (pluginId, jobId)
    case none   => exact ⟨.error (.notFound jobId), .inl <| by simp [eval_bind, exec, hget]; rfl⟩
    case some f => exact ⟨.ok (), .inr <| by simp [eval_bind, exec, hget]; rfl⟩

variable (order env m pluginId jobId) in
theorem eval_remove : ∃ result, eval order env (remove pluginId jobId) (env, m) = (result, (env, m)) ∨
    eval order env (remove pluginId jobId) (env, m) = (result, (env, m.drop (pluginId, jobId))) := by
  rw [remove]
  split
  case isTrue  => exact ⟨.ok false, .inl rfl⟩
  case isFalse =>
    cases hget : Assoc.get m.files (pluginId, jobId)
    case none   => exact ⟨.ok false, .inl <| by simp [eval_bind, exec, hget]⟩
    case some f => exact ⟨.ok true, .inr <| by simp [eval_bind, exec, hget]; rfl⟩

-- A job as it is scheduled.
structure Fresh (record : JobRecord P) : Prop where
  status      : record.status = none
  attempts    : record.attempts = none
  dispatchAt  : record.dispatchAt = none
  nextRetryAt : record.nextRetryAt = none
  interval    : ∀ i ∈ record.intervalMs, 0 < i
  pluginId    : validId record.pluginId
  jobId       : validId record.jobId

theorem interval_pos {input : ScheduleInput P} (h : input.invalid config = none) :
    ∀ i ∈ input.intervalMs, 0 < i := by
  intro i hi
  by_contra hneg
  have hany : input.intervalMs.any fun i => i < 1000 || i > 365 * 24 * 3600 * 1000 := by
    simp [Option.mem_def.mp hi]
    omega
  simp only [ScheduleInput.invalid, hany, if_true] at h
  grind

-- The record of a job is written, or its token is no identifier.
theorem eval_save : (∃ e, eval order env (do writeAtomic record none; pure record) (env, m) =
      (.error e, (env, m))) ∨
    validId record.pluginId ∧ validId record.jobId ∧
      eval order env (do writeAtomic record none; pure record) (env, m) =
        (.ok record, (env, m.put record none)) := by
  have hinvalid (h : (!validId record.pluginId || !validId record.jobId) = true) :
      eval order env (writeAtomic record none) (env, m) = (.error .idInvalid, (env, m)) := by
    simp only [writeAtomic, h]
    rfl
  by_cases hp : validId record.pluginId
  case neg => exact .inl ⟨.idInvalid, by simp [eval_bind, hinvalid, hp]⟩
  case pos =>
    by_cases hj : validId record.jobId
    case neg => exact .inl ⟨.idInvalid, by simp [eval_bind, hinvalid, hj]⟩
    case pos => exact .inr ⟨hp, hj, by simp [eval_bind, eval_writeAtomic hp hj]⟩

variable (order env m) in
theorem eval_saveFresh (record : JobRecord P) (h : ∀ i ∈ record.intervalMs, 0 < i) (hs : record.status = none)
    (ha : record.attempts = none) (hd : record.dispatchAt = none) (hn : record.nextRetryAt = none) :
    (∃ e, eval order env (do writeAtomic record none; pure record) (env, m) = (.error e, (env, m))) ∨
    ∃ record', Fresh record' ∧ eval order env (do writeAtomic record none; pure record) (env, m) =
      (.ok record', (env, m.put record' none)) := by
  refine eval_save.imp_right fun ⟨hp, hj, heval⟩ => ?_
  exact ⟨record, ⟨hs, ha, hd, hn, h, hp, hj⟩, heval⟩

variable (config order env m) in
theorem eval_schedule (input : ScheduleInput P) :
    (∃ e, eval order env (schedule config input) (env, m) = (.error e, (env, m))) ∨
    ∃ record, Fresh record ∧
      eval order env (schedule config input) (env, m) = (.ok record, (env, m.put record none)) := by
  rw [schedule]
  cases hin : input.invalid config
  case some e => exact .inl ⟨e, rfl⟩
  case none   =>
    have hi := interval_pos hin
    simp only [eval_bind, eval_readDir]
    split
    case isTrue       => exact .inl ⟨_, rfl⟩
    case isFalse hlen =>
      clear hlen
      simp only [eval_bind, eval_now, eval_get]
      obtain ⟨pluginId, name, runAt, intervalMs, cron, payload, retries, retryDelayMs⟩ := input
      have hsave (nextRunAt : Int) := eval_saveFresh order env m {
          jobId        := env.token
          pluginId     := pluginId
          name         := trim name
          nextRunAt    := nextRunAt
          runCount     := 0
          createdAt    := env.now
          runAt        := runAt
          intervalMs   := intervalMs
          cron         := cron
          payload      := payload
          maxRetries   := retries.map Int.toNat
          retryDelayMs := retryDelayMs
        } hi rfl rfl rfl rfl
      cases intervalMs
      case some i =>
        have h := hsave (env.now + i)
        simp only [eval_bind, eval_pure] at h ⊢
        exact h
      case none   =>
        cases cron
        case none      =>
          have h := hsave (runAt.getD 0)
          simp only [eval_bind, eval_pure] at h ⊢
          exact h
        case some cron =>
          simp only [eval_bind, eval_nextCronAfter]
          cases config.cron.parses cron
          case false => exact .inl ⟨.cronThrows, rfl⟩
          case true  =>
            cases config.cron.nextCronAfter env.now cron
            case none      => exact .inl ⟨.cronThrows, rfl⟩
            case some time =>
              have h := hsave time
              simp only [eval_bind] at h
              exact h

end Others

section Operations

variable {m' : Manager P}

theorem perform_schedule {input : ScheduleInput P} {result : Except JobError (JobRecord P)}
    (h : eval order env (schedule config input) (env, m) = (result, (env, m'))) :
    m.perform config order env (.schedule input) = (result.map .scheduled, m') :=
  perform_eq rfl h

theorem perform_cancel {result : Except JobError Unit}
    (h : eval order env (cancel pluginId jobId) (env, m) = (result, (env, m'))) :
    m.perform config order env (.cancel pluginId jobId) = (result.map fun _ => .cancelled, m') :=
  perform_eq rfl h

theorem perform_remove {result : Except JobError Bool}
    (h : eval order env (remove pluginId jobId) (env, m) = (result, (env, m'))) :
    m.perform config order env (.remove pluginId jobId) = (result.map .removed, m') :=
  perform_eq rfl h

theorem perform_ack {outcome : Outcome} {result : Except JobError Bool}
    (h : eval order env (ack config pluginId jobId outcome) (env, m) = (result, (env, m'))) :
    m.perform config order env (.ack pluginId jobId outcome) = (result.map .acknowledged, m') :=
  perform_eq rfl h

theorem perform_retry {result : Except JobError (Option (JobRecord P))}
    (h : eval order env (retry pluginId jobId) (env, m) = (result, (env, m'))) :
    m.perform config order env (.retry pluginId jobId) = (result.map .retried, m') :=
  perform_eq rfl h

end Operations

end Jobs.Manager
