import NeoTavern.Jobs.Perform

namespace Jobs

namespace JobRecord

variable {P : Type} (record : JobRecord P)

def budget : Nat :=
  record.maxRetries.getD 0

-- What is written of a job when it is dispatched, and when a dispatch of it has failed or succeeded.
def afterDispatch (timestamp : Int) : JobRecord P :=
  { record with
    runCount   := record.runCount + 1
    lastRunAt  := some timestamp
    dispatchAt := some timestamp
  }

def afterFailure (error : String) (timestamp : Int) : JobRecord P :=
  let attempts := record.attempts.getD 0 + 1
  if attempts > record.budget then
    { record with
      status      := some .failed
      attempts    := some attempts
      lastError   := some error
      failedAt    := some timestamp
      dispatchAt  := none
      nextRetryAt := none
    }
  else
    { record with
      attempts    := some attempts
      lastError   := some error
      dispatchAt  := none
      nextRetryAt := some (timestamp + backoffFor record attempts)
    }

def afterSuccess (nextRunAt : Int) : JobRecord P :=
  { record with
    attempts    := some 0
    lastError   := none
    dispatchAt  := none
    nextRetryAt := none
    nextRunAt   := nextRunAt
  }

def afterRetry (timestamp : Int) : JobRecord P :=
  { record with
    status      := some .active
    attempts    := some 0
    lastError   := none
    failedAt    := none
    dispatchAt  := none
    nextRetryAt := none
    nextRunAt   := timestamp
  }

-- The same of a job whose dispatches nothing is awaited for.
def afterFiring (timestamp nextRunAt : Int) : JobRecord P :=
  { record with
    runCount  := record.runCount + 1
    lastRunAt := some timestamp
    nextRunAt := nextRunAt
  }

@[simp]
theorem afterDispatch_key : (record.afterDispatch timestamp).key = record.key :=
  rfl

@[simp]
theorem afterFiring_key : (record.afterFiring timestamp time).key = record.key :=
  rfl

@[simp]
theorem afterFailure_key : (record.afterFailure error timestamp).key = record.key := by
  rw [afterFailure]
  split <;> rfl

section AfterFailure

variable {error : String} {timestamp : Int}

@[simp]
theorem afterFailure_attempts :
    (record.afterFailure error timestamp).attempts = some (record.attempts.getD 0 + 1) := by
  rw [afterFailure]
  split <;> rfl

@[simp]
theorem afterFailure_dispatchAt : (record.afterFailure error timestamp).dispatchAt = none := by
  rw [afterFailure]
  split <;> rfl

@[simp]
theorem afterFailure_budget : (record.afterFailure error timestamp).budget = record.budget := by
  rw [afterFailure]
  split <;> rfl

@[simp]
theorem afterFailure_nextRunAt : (record.afterFailure error timestamp).nextRunAt = record.nextRunAt := by
  rw [afterFailure]
  split <;> rfl

@[simp]
theorem afterFailure_intervalMs : (record.afterFailure error timestamp).intervalMs = record.intervalMs := by
  rw [afterFailure]
  split <;> rfl

@[simp]
theorem backoffFor_afterFailure :
    backoffFor (record.afterFailure error timestamp) n = backoffFor record n := by
  rw [afterFailure]
  split <;> rfl

theorem afterFailure_status (h : record.status ≠ some .failed) :
    (record.afterFailure error timestamp).status = some .failed ↔
    record.budget < record.attempts.getD 0 + 1 := by
  rw [afterFailure]
  split
  case isTrue hover  => exact iff_of_true rfl hover
  case isFalse hover => exact iff_of_false h hover

theorem afterFailure_nextRetryAt (h : record.attempts.getD 0 + 1 ≤ record.budget) :
    (record.afterFailure error timestamp).nextRetryAt =
    some (timestamp + backoffFor record (record.attempts.getD 0 + 1)) := by
  rw [afterFailure, if_neg <| Nat.not_lt.mpr h]

end AfterFailure

@[simp]
theorem afterSuccess_key : (record.afterSuccess time).key = record.key :=
  rfl

@[simp]
theorem afterRetry_key : (record.afterRetry timestamp).key = record.key :=
  rfl

end JobRecord

namespace Manager

variable {P : Type} {config : Config P} {order : List String → List String} {env : Env}
  {m m' m'' : Manager P} {k l : Key} {r : Read P} {record : JobRecord P} {base : Option Nat}

section Writes

def put (m : Manager P) (record : JobRecord P) (base : Option Nat) : Manager P :=
  (m.exec id (.write record base)).snd

def drop (m : Manager P) (k : Key) : Manager P :=
  (m.exec id (.rm k)).snd

theorem exec_write : m.exec order (.write record base) = ((), m.put record base) :=
  rfl

theorem exec_rm : m.exec order (.rm k) = ((), m.drop k) :=
  rfl

def emit (m : Manager P) (k : Key) : Manager P :=
  { m with log := .emitted k :: m.log }

theorem exec_emit {due : JobDuePayload P} :
    m.exec order (.emit due) = ((), m.emit (due.pluginId, due.jobId)) :=
  rfl

-- How often a job has been emitted.
def emissions (m : Manager P) (k : Key) : Nat :=
  m.log.count (.emitted k)

@[simp]
theorem emissions_put : (m.put record base).emissions k = m.emissions k := by
  simp [put, emissions, exec]

@[simp]
theorem emissions_drop : (m.drop l).emissions k = m.emissions k :=
  rfl

theorem get_put_of_ne (h : k ≠ record.key) :
    Assoc.get (m.put record base).files k = Assoc.get m.files k :=
  Assoc.get_set_of_ne h

theorem get_drop_of_ne (h : k ≠ l) : Assoc.get (m.drop l).files k = Assoc.get m.files k :=
  Assoc.get_delete_of_ne h

@[simp]
theorem job?_put : (m.put record base).job? record.key = some record := by
  simp [job?, reading, put, exec]

@[simp]
theorem job?_drop : (m.drop k).job? k = none := by
  simp [job?, reading, drop, exec]

theorem job?_of_reading (h : m.reading k = some r) : m.job? k = some r.record := by
  simp [job?, h]

theorem Tidy.put (h : m.Tidy) (hp : validId record.key.fst) (hj : validId record.key.snd) :
    (m.put record base).Tidy := by
  constructor
  case nodup => exact Assoc.nodup_set h.nodup
  case dirs  =>
    have hdirs : (m.put record base).dirs =
        if record.pluginId ∈ m.dirs then m.dirs else m.dirs ++ [record.pluginId] := rfl
    rw [hdirs]
    split
    case isTrue       => exact h.dirs
    case isFalse hnew =>
      exact List.nodup_append.mpr ⟨h.dirs, List.nodup_singleton _,
        fun p hp q hq heq => hnew <| List.mem_singleton.mp hq ▸ heq ▸ hp⟩
  case files =>
    intro k f hf
    by_cases hk : k = record.key
    case neg => exact h.files k f <| (get_put_of_ne hk).symm.trans hf
    case pos =>
      subst hk
      have hget : some _ = some f := (Assoc.get_set_self).symm.trans hf
      obtain rfl := Option.some.inj hget
      exact ⟨hp, hj, record, rfl, rfl⟩

theorem Tidy.drop (h : m.Tidy) : (m.drop k).Tidy := by
  constructor
  case nodup => exact Assoc.nodup_delete h.nodup
  case dirs  => exact h.dirs
  case files =>
    intro l f hf
    by_cases hl : l = k
    case neg => exact h.files l f <| (get_drop_of_ne hl).symm.trans hf
    case pos =>
      subst hl
      have hnone : Assoc.get (m.drop l).files l = none := Assoc.get_delete_self
      rw [hnone] at hf
      cases hf

end Writes

section Programs

theorem eval_writeAtomic (hp : validId record.pluginId) (hj : validId record.jobId) :
    eval order env (writeAtomic record base) (env, m) = (.ok (), (env, m.put record base)) := by
  simp only [writeAtomic, hp, hj, Bool.not_true, Bool.or_self, Bool.false_eq_true]
  rfl

theorem eval_recordFailure (hp : validId r.record.pluginId) (hj : validId r.record.jobId) :
    eval order env (recordFailure r error timestamp) (env, m) =
    (.ok (), (env, m.put (r.record.afterFailure error timestamp) r.stamp)) := by
  have hwrite : recordFailure r error timestamp =
      writeAtomic (r.record.afterFailure error timestamp) r.stamp := by
    rw [recordFailure, JobRecord.afterFailure, JobRecord.budget]
    split <;> rfl
  have hkey : (r.record.afterFailure error timestamp).key = r.record.key := r.record.afterFailure_key
  have hp' : (r.record.afterFailure error timestamp).pluginId = r.record.pluginId := congrArg Prod.fst hkey
  have hj' : (r.record.afterFailure error timestamp).jobId = r.record.jobId := congrArg Prod.snd hkey
  rw [hwrite, eval_writeAtomic (hp' ▸ hp) (hj' ▸ hj)]

theorem eval_nextCronAfter : eval order env (nextCronAfter config timestamp cron) (env, m) =
    (if config.cron.parses cron then
      match config.cron.nextCronAfter timestamp cron with
      | some time => .ok time
      | none      => .error .cronThrows
    else .error .cronThrows, (env, m)) := by
  rw [nextCronAfter]
  split
  case isFalse => rfl
  case isTrue  =>
    cases config.cron.nextCronAfter timestamp cron
    case none => rfl
    case some => rfl

theorem recordSuccess_eq : recordSuccess config r timestamp =
    match r.record.intervalMs, r.record.cron with
    | some intervalMs, _ =>
      let time := max (r.record.nextRunAt + intervalMs) (timestamp + intervalMs)
      writeAtomic (r.record.afterSuccess time) r.stamp
    | none, some cron    =>
      nextCronAfter config timestamp cron >>= fun time => writeAtomic (r.record.afterSuccess time) r.stamp
    | none, none         => Jobs.perform <| .rm r.record.key :=
  rfl

-- A success puts off the next run of a job, or there is none.
variable (config order env m) in
theorem eval_recordSuccess (timestamp : Int) (hp : validId r.record.pluginId) (hj : validId r.record.jobId) :
    eval order env (recordSuccess config r timestamp) (env, m) = (.error .cronThrows, (env, m)) ∨
    eval order env (recordSuccess config r timestamp) (env, m) = (.ok (), (env, m.drop r.record.key)) ∨
    ∃ time, eval order env (recordSuccess config r timestamp) (env, m) =
      (.ok (), (env, m.put (r.record.afterSuccess time) r.stamp)) ∧
      ((∃ i ∈ r.record.intervalMs, timestamp + i ≤ time) ∨
        ∃ cron ∈ r.record.cron, config.cron.nextCronAfter timestamp cron = some time) := by
  have hwrite (time : Int) : eval order env (writeAtomic (r.record.afterSuccess time) r.stamp) (env, m) =
      (.ok (), (env, m.put (r.record.afterSuccess time) r.stamp)) := eval_writeAtomic hp hj
  rw [recordSuccess_eq]
  cases hi : r.record.intervalMs
  case some i =>
    let time := max (r.record.nextRunAt + i) (timestamp + i)
    exact .inr <| .inr ⟨time, hwrite time, .inl ⟨i, rfl, Int.le_max_right ..⟩⟩
  case none =>
    cases hc : r.record.cron
    case none      => exact .inr <| .inl rfl
    case some cron =>
      simp only [eval_bind, eval_nextCronAfter]
      cases hp : config.cron.parses cron
      case false => exact .inl rfl
      case true  =>
        cases hnext : config.cron.nextCronAfter timestamp cron
        case none      => exact .inl rfl
        case some time => exact .inr <| .inr ⟨time, hwrite time, .inr ⟨cron, rfl, hnext⟩⟩

def announce (record : JobRecord P) : Job P Unit :=
  Jobs.perform <| .emit ⟨record.pluginId, record.jobId, record.name, record.payload⟩

def finish (record : JobRecord P) : Job P Unit :=
  Jobs.perform <| .rm record.key

theorem eval_announce : eval order env (announce record) (env, m) = (.ok (), (env, m.emit record.key)) :=
  rfl

theorem eval_finish : eval order env (finish record) (env, m) = (.ok (), (env, m.drop record.key)) :=
  rfl

-- What is done with a job that is due and that nothing is awaited for.
def fire (config : Config P) (timestamp : Int) (r : Read P) : Job P Unit := do
  announce r.record
  match r.record.intervalMs, r.record.cron with
  | some intervalMs, _ =>
    let time := max (r.record.nextRunAt + intervalMs) (timestamp + intervalMs)
    writeAtomic (r.record.afterFiring timestamp time) r.stamp
  | none, some cron    => do
    let time ← nextCronAfter config timestamp cron
    writeAtomic (r.record.afterFiring timestamp time) r.stamp
  | none, none         => finish r.record

theorem scanRecord_eq (hp : r.record.pluginId = pluginId) :
    scanRecord config timestamp pluginId r =
    (if r.record.status = some .failed then
      pure ()
    else
      match r.record.dispatchAt with
      | some dispatchAt =>
        if dispatchAt + config.ackTimeoutMs > timestamp then
          pure ()
        else
          recordFailure r "ack-timeout" timestamp
      | none            =>
        if r.record.nextRetryAt.any (· > timestamp) || r.record.nextRunAt > timestamp then
          pure ()
        else if 0 < r.record.budget then do
          writeAtomic (r.record.afterDispatch timestamp) r.stamp
          announce r.record
        else
          fire config timestamp r) := by
  subst hp
  rfl

end Programs

section Scans

-- What a scan does with a job: how often it emits it, and what becomes of its record.
inductive Turn (config : Config P) (timestamp : Int) :
    Option (JobRecord P) → Nat → Option (JobRecord P) → Prop
  | same : Turn config timestamp record? 0 record?
  | fire {record : JobRecord P} (hb : record.budget = 0)
    (h : ∀ record' ∈ record?, record' = record ∨ ∃ time, record' = record.afterFiring timestamp time) :
    Turn config timestamp (some record) n record?
  | dispatch {record : JobRecord P} (hb : 0 < record.budget) (hs : record.status ≠ some .failed) (hd : record.dispatchAt = none)
    (hretry : ∀ time ∈ record.nextRetryAt, time ≤ timestamp) (hrun : record.nextRunAt ≤ timestamp) :
    Turn config timestamp (some record) 1 (some <| record.afterDispatch timestamp)
  | timeout {record : JobRecord P} (hs : record.status ≠ some .failed) (hd : record.dispatchAt = some dispatchAt)
    (ht : dispatchAt + config.ackTimeoutMs ≤ timestamp) :
    Turn config timestamp (some record) 0 (some <| record.afterFailure "ack-timeout" timestamp)

structure Same (k : Key) (m m' : Manager P) : Prop where
  file      : Assoc.get m'.files k = Assoc.get m.files k
  emissions : m'.emissions k = m.emissions k

def Turned (config : Config P) (timestamp : Int) (k : Key) (m m' : Manager P) : Prop :=
  ∃ n, m'.emissions k = m.emissions k + n ∧ Turn config timestamp (m.job? k) n (m'.job? k)

-- Each of the jobs `keys` has had its turn, and no other one.
structure Scanned (config : Config P) (timestamp : Int) (keys : Key → Prop) (m m' : Manager P) : Prop where
  tidy   : m'.Tidy
  same   : ∀ k, ¬keys k → Same k m m'
  turned : ∀ k, keys k → Turned config timestamp k m m'

variable {timestamp : Int} {keys keys' : Key → Prop}

theorem Same.refl : Same k m m :=
  ⟨rfl, rfl⟩

theorem Same.trans (h : Same k m m') (h' : Same k m' m'') : Same k m m'' :=
  ⟨h'.file.trans h.file, h'.emissions.trans h.emissions⟩

theorem Same.job? (h : Same k m m') : m'.job? k = m.job? k := by
  rw [Manager.job?, Manager.job?, reading_congr h.file]

theorem Same.turned (h : Same k m m') : Turned config timestamp k m m' :=
  ⟨0, h.emissions, h.job? ▸ .same⟩

theorem Turned.trans_same (h : Turned config timestamp k m m') (h' : Same k m' m'') :
    Turned config timestamp k m m'' := by
  have ⟨n, hn, hturn⟩ := h
  exact ⟨n, h'.emissions.trans hn, h'.job?.symm ▸ hturn⟩

theorem Same.trans_turned (h : Same k m m') (h' : Turned config timestamp k m' m'') :
    Turned config timestamp k m m'' := by
  have ⟨n, hn, hturn⟩ := h'
  exact ⟨n, h.emissions ▸ hn, h.job? ▸ hturn⟩

theorem Scanned.refl (h : m.Tidy) : Scanned config timestamp keys m m where
  tidy   := h
  same   := fun _ _ => .refl
  turned := fun _ _ => Same.refl.turned

theorem Scanned.mono (h : Scanned config timestamp keys m m') (hk : ∀ k, keys k → keys' k) :
    Scanned config timestamp keys' m m' where
  tidy   := h.tidy
  same   := fun k hn => h.same k fun hkeys => hn <| hk k hkeys
  turned := by
    intro k _
    by_cases hkeys : keys k
    case pos => exact h.turned k hkeys
    case neg => exact (h.same k hkeys).turned

theorem Scanned.trans (h : Scanned config timestamp keys m m') (h' : Scanned config timestamp keys' m' m'')
    (hd : ∀ k, keys k → ¬keys' k) : Scanned config timestamp (fun k => keys k ∨ keys' k) m m'' where
  tidy   := h'.tidy
  same   := fun k hn => (h.same k <| hn ∘ .inl).trans <| h'.same k <| hn ∘ .inr
  turned := by
    intro k hk
    by_cases hkeys : keys k
    case pos => exact (h.turned k hkeys).trans_same <| h'.same k <| hd k hkeys
    case neg => exact (h.same k hkeys).trans_turned <| h'.turned k <| hk.resolve_left hkeys

theorem same_put (h : k ≠ record.key) : Same k m (m.put record base) :=
  ⟨get_put_of_ne h, emissions_put⟩

theorem same_drop (h : k ≠ l) : Same k m (m.drop l) :=
  ⟨get_drop_of_ne h, emissions_drop⟩

theorem same_emit (h : k ≠ l) : Same k m (m.emit l) :=
  ⟨rfl, List.count_cons_of_ne fun heq => h (Entry.emitted.inj heq).symm⟩

theorem emissions_emit : (m.emit k).emissions k = m.emissions k + 1 :=
  List.count_cons_self

theorem Tidy.emit (h : m.Tidy) : (m.emit k).Tidy :=
  ⟨h.nodup, h.dirs, h.files⟩

-- A job that nothing is awaited for is put off, or it is over.
theorem eval_fire (ht : m.Tidy) (hr : m.reading r.record.key = some r) (hb : r.record.budget = 0) :
    ∃ result m', eval order env (fire config timestamp r) (env, m) = (result, (env, m')) ∧
      Scanned config timestamp (· = r.record.key) m m' := by
  have ⟨hp, hj⟩ := ht.valid hr
  let m₁ := m.emit r.record.key
  have hjob : m₁.job? r.record.key = some r.record := job?_of_reading hr
  have hfired {m' : Manager P} (ht' : m'.Tidy) (hsame : ∀ k ≠ r.record.key, Same k m₁ m')
      (hn : m'.emissions r.record.key = m₁.emissions r.record.key)
      (h : ∀ record' ∈ m'.job? r.record.key, record' = r.record ∨
        ∃ time, record' = r.record.afterFiring timestamp time) :
      Scanned config timestamp (· = r.record.key) m m' := by
    refine ⟨ht', fun k hk => (same_emit hk).trans <| hsame k hk, ?_⟩
    rintro _ rfl
    exact ⟨1, hn.trans emissions_emit, job?_of_reading hr ▸ .fire hb h⟩
  have hput (time : Int) : Scanned config timestamp (· = r.record.key) m
      (m₁.put (r.record.afterFiring timestamp time) r.stamp) := by
    refine hfired (ht.emit.put hp hj) (fun k hk => same_put hk) emissions_put fun record' h => ?_
    have hput : (m₁.put (r.record.afterFiring timestamp time) r.stamp).job? r.record.key =
        some (r.record.afterFiring timestamp time) := job?_put
    exact .inr ⟨time, Option.some.inj <| h.symm.trans hput⟩
  have hwrite (time : Int) : eval order env (writeAtomic (r.record.afterFiring timestamp time) r.stamp)
      (env, m₁) = (.ok (), (env, m₁.put (r.record.afterFiring timestamp time) r.stamp)) :=
    eval_writeAtomic hp hj
  have hthrow : Scanned config timestamp (· = r.record.key) m m₁ :=
    hfired ht.emit (fun _ _ => .refl) rfl fun record' h => .inl <| Option.some.inj <| h.symm.trans hjob
  rw [fire, eval_bind, eval_announce]
  cases r.record.intervalMs
  case some i =>
    let time := max (r.record.nextRunAt + i) (timestamp + i)
    exact ⟨.ok (), _, hwrite time, hput time⟩
  case none   =>
    cases r.record.cron
    case none =>
      refine ⟨.ok (), m₁.drop r.record.key, rfl, hfired ht.emit.drop (fun k hk => same_drop hk) rfl ?_⟩
      intro record' h
      rw [job?_drop] at h
      cases h
    case some cron =>
      simp only [eval_bind, eval_nextCronAfter]
      cases config.cron.parses cron
      case false => exact ⟨.error .cronThrows, m₁, rfl, hthrow⟩
      case true  =>
        cases config.cron.nextCronAfter timestamp cron
        case none      => exact ⟨.error .cronThrows, m₁, rfl, hthrow⟩
        case some time => exact ⟨.ok (), _, hwrite time, hput time⟩

variable (config order env timestamp) in
theorem eval_scanRecord (ht : m.Tidy) (hr : m.reading r.record.key = some r)
    (hp : r.record.pluginId = pluginId) : ∃ result m',
      eval order env (scanRecord config timestamp pluginId r) (env, m) = (result, (env, m')) ∧
      Scanned config timestamp (· = r.record.key) m m' := by
  have ⟨hpid, hjid⟩ := ht.valid hr
  have hjob := job?_of_reading hr
  have hpure : ∃ result m', eval (α := Unit) order env (pure ()) (env, m) = (result, (env, m')) ∧
      Scanned config timestamp (· = r.record.key) m m' := ⟨_, m, rfl, .refl ht⟩
  rw [scanRecord_eq hp]
  split
  case isTrue     => exact hpure
  case isFalse hs =>
    cases hd : r.record.dispatchAt
    case some dispatchAt =>
      dsimp only
      split
      case isTrue       => exact hpure
      case isFalse hout =>
        let after := r.record.afterFailure "ack-timeout" timestamp
        have hkey : after.key = r.record.key := r.record.afterFailure_key
        refine ⟨_, m.put after r.stamp, eval_recordFailure hpid hjid, ?_, fun k hk => ?_, ?_⟩
        · exact ht.put (hkey ▸ hpid) (hkey ▸ hjid)
        · exact same_put <| hkey ▸ hk
        · rintro _ rfl
          have hput : (m.put after r.stamp).job? r.record.key = some after := hkey ▸ job?_put
          refine ⟨0, emissions_put, ?_⟩
          rw [hjob, hput]
          exact .timeout hs hd <| Int.not_lt.mp hout
    case none =>
      dsimp only
      split
      case isTrue       => exact hpure
      case isFalse hdue =>
        have hretry : ∀ time ∈ r.record.nextRetryAt, time ≤ timestamp := by
          intro time htime
          simp only [Bool.or_eq_true, not_or] at hdue
          simpa [Option.mem_def.mp htime] using hdue.left
        have hrun : r.record.nextRunAt ≤ timestamp := by
          simp only [Bool.or_eq_true, not_or] at hdue
          simpa using hdue.right
        by_cases hb : 0 < r.record.budget
        case neg =>
          rw [if_neg hb]
          exact eval_fire ht hr <| Nat.eq_zero_of_not_pos hb
        case pos =>
          have hwrite : eval order env (writeAtomic (r.record.afterDispatch timestamp) r.stamp) (env, m) =
              (.ok (), (env, m.put (r.record.afterDispatch timestamp) r.stamp)) := eval_writeAtomic hpid hjid
          rw [if_pos hb, eval_bind, hwrite]
          let after := r.record.afterDispatch timestamp
          let m₁ := m.put after r.stamp
          have ht₁ : m₁.Tidy := ht.put hpid hjid
          refine ⟨.ok (), m₁.emit r.record.key, rfl, ht₁.emit, fun k hk => ?_, ?_⟩
          · have hput : Same k m m₁ := same_put hk
            exact hput.trans <| same_emit hk
          · rintro _ rfl
            have hput : (m₁.emit r.record.key).job? r.record.key = some after :=
              (job?_put : m₁.job? after.key = some after)
            refine ⟨1, emissions_emit.trans <| congrArg (· + 1) emissions_put, ?_⟩
            rw [hjob, hput]
            exact .dispatch hb hs hd hretry hrun

variable (config order env timestamp) in
theorem eval_scanRecords {rs : List (Read P)} (ht : m.Tidy)
    (hr : ∀ r ∈ rs, r.record.pluginId = pluginId ∧ m.reading r.record.key = some r)
    (hn : (rs.map (·.record.key)).Nodup) : ∃ result m',
      eval order env (scanRecords config timestamp pluginId rs) (env, m) = (result, (env, m')) ∧
      Scanned config timestamp (· ∈ rs.map (·.record.key)) m m' := by
  induction rs generalizing m
  case nil          => exact ⟨.ok (), m, rfl, .refl ht⟩
  case cons r rs ih =>
    have ⟨hrp, hread⟩ := hr r List.mem_cons_self
    rw [List.map_cons, List.nodup_cons] at hn
    have ⟨hnew, hn⟩ := hn
    have ⟨result, m₁, heval, hscan⟩ := eval_scanRecord config order env timestamp ht hread hrp
    rw [scanRecords, eval_bind, heval]
    cases result
    case error e => exact ⟨.error e, m₁, rfl, hscan.mono fun k hk => hk ▸ List.mem_cons_self⟩
    case ok      =>
      have hr' : ∀ r' ∈ rs, r'.record.pluginId = pluginId ∧ m₁.reading r'.record.key = some r' := by
        intro r' hr'
        have ⟨hp', hread'⟩ := hr r' <| List.mem_cons_of_mem _ hr'
        have hne : r'.record.key ≠ r.record.key := fun heq =>
          hnew <| heq ▸ List.mem_map.mpr ⟨r', hr', rfl⟩
        exact ⟨hp', (reading_congr (hscan.same _ hne).file).trans hread'⟩
      have ⟨result, m', heval', hscan'⟩ := ih hscan.tidy hr' hn
      refine ⟨result, m', heval', ?_⟩
      have hboth := hscan.trans hscan' fun k hk hmem => hnew <| hk ▸ hmem
      exact hboth.mono fun k hk => List.mem_cons.mpr hk

variable (config order env timestamp) in
theorem eval_scanPlugins {pluginIds : List String} (horder : ∀ l, (order l).Perm l) (ht : m.Tidy)
    (hn : pluginIds.Nodup) : ∃ result m',
      eval order env (scanPlugins config timestamp pluginIds) (env, m) = (result, (env, m')) ∧
      Scanned config timestamp (·.fst ∈ pluginIds) m m' := by
  induction pluginIds generalizing m
  case nil                        => exact ⟨.ok (), m, rfl, .refl ht⟩
  case cons pluginId pluginIds ih =>
    have ⟨hnew, hn⟩ := List.nodup_cons.mp hn
    by_cases hp : validId pluginId
    case neg =>
      have ⟨result, m', heval, hscan⟩ := ih ht hn
      simp only [scanPlugins, hp, Bool.false_eq_true, if_false]
      exact ⟨result, m', heval, hscan.mono fun k hk => List.mem_cons_of_mem _ hk⟩
    case pos =>
      have hr : ∀ r ∈ m.readings order pluginId,
          r.record.pluginId = pluginId ∧ m.reading r.record.key = some r :=
        fun r hr => (mem_readings ht horder).mp hr
      have ⟨result, m₁, heval, hscan⟩ :=
        eval_scanRecords config order env timestamp ht hr <| nodup_readings ht horder
      have hplugin {k : Key} (hk : k ∈ (m.readings order pluginId).map (·.record.key)) : k.fst = pluginId := by
        obtain ⟨r, hr', rfl⟩ := List.mem_map.mp hk
        exact (hr r hr').left
      simp only [scanPlugins, hp, if_true, eval_bind, eval_readDir, heval]
      cases result
      case error e =>
        exact ⟨.error e, m₁, rfl, hscan.mono fun k hk => hplugin hk ▸ List.mem_cons_self⟩
      case ok      =>
        have ⟨result, m', heval', hscan'⟩ := ih hscan.tidy hn
        have hboth := hscan.trans hscan' fun k hk hmem => hnew <| hplugin hk ▸ hmem
        refine ⟨result, m', heval', hboth.mono fun k hk => ?_⟩
        exact List.mem_cons.mpr <| hk.imp_left hplugin

-- Each job gets at most one turn.
variable (config env) in
theorem scanned_scanOnce (horder : ∀ l, (order l).Perm l) (ht : m.Tidy) :
    Scanned config env.now (fun _ => True) m (m.perform config order env .scanOnce).snd := by
  have hn : (order m.dirs).Nodup := (horder _).nodup_iff.mpr ht.dirs
  have ⟨result, m', heval, hscan⟩ := eval_scanPlugins config order env env.now horder ht hn
  have hperform : (m.perform config order env .scanOnce).snd = m' := by
    rw [perform, Operation.job, eval_map]
    exact congrArg (·.snd.snd) heval
  exact hperform ▸ hscan.mono fun _ _ => trivial

end Scans

end Manager
end Jobs
