import NeoTavern.Capability.Kernel
import NeoTavern.Lib.Assoc
import NeoTavern.Lib.Tasks
import NeoTavern.Wire.Format

namespace Jobs

open Tasks
open Wire (utf16Length)
open Capability (trim)

-- The plugin and the job of a file.
abbrev Key := String × String

inductive JobStatus
  | active
  | failed
  deriving DecidableEq

-- Times are in milliseconds. `P` is the type of the payloads.
structure JobRecord (P : Type) where
  jobId        : String
  pluginId     : String
  name         : String
  runAt        : Option Int := none
  intervalMs   : Option Int := none
  cron         : Option String := none
  payload      : Option P := none
  createdAt    : Int
  nextRunAt    : Int
  runCount     : Nat
  lastRunAt    : Option Int := none
  status       : Option JobStatus := none
  attempts     : Option Nat := none
  maxRetries   : Option Nat := none
  retryDelayMs : Option Int := none
  nextRetryAt  : Option Int := none
  dispatchAt   : Option Int := none
  lastError    : Option String := none
  failedAt     : Option Int := none
  deriving DecidableEq

namespace JobRecord

variable {P : Type} (record : JobRecord P)

def key : Key :=
  (record.pluginId, record.jobId)

def isOneShot : Bool :=
  record.intervalMs.isNone && record.cron.isNone

end JobRecord

structure JobDuePayload (P : Type) where
  pluginId : String
  jobId    : String
  name     : String
  payload  : Option P
  deriving DecidableEq

-- What `lib/cron` does. Both of its functions can throw.
structure Cron where
  parses        : String → Bool
  nextCronAfter : Int → String → Option Int

structure Config (P : Type) where
  cron           : Cron
  -- `none` where `JSON.stringify` gives `undefined`.
  payloadBytes   : P → Option Nat
  maxRunAtMs     : Int
  ackTimeoutMs   : Int := 5 * 60000

-- A file with a record, or with a text that is none. Each write gives a file a stamp of its own.
structure File (P : Type) where
  record : Option (JobRecord P)
  stamp  : Nat
  deriving DecidableEq

-- A record as it has been read.
structure Read (P : Type) where
  record : JobRecord P
  stamp  : Nat
  deriving DecidableEq

-- The clock and the next random token.
structure Env where
  now   : Int
  token : String
  deriving DecidableEq

inductive JobError
  | nameInvalid (max : Nat)
  | scheduleInvalid
  | scheduleExclusive
  | cronInvalid (cron : String)
  | retriesInvalid (max : Nat)
  | retryDelayInvalid (min max : Int)
  | runAtInvalid
  | intervalInvalid (min max : Int)
  | fileTooLarge (limitBytes : Nat)
  | limitExceeded (limit : Nat)
  | idInvalid
  | notFound (jobId : String)
  | cronThrows
  deriving DecidableEq

-- What the code waits for. `base` is the stamp of what has been read before a write.
inductive Action (P : Type)
  | readRoot
  | readdir (pluginId : String)
  | readFile (k : Key)
  | write (record : JobRecord P) (base : Option Nat)
  | rm (k : Key)
  | emit (due : JobDuePayload P)
  deriving DecidableEq

def Action.Reply {P : Type} : Action P → Type
  | .readRoot   => List String
  | .readdir _  => List String
  | .readFile _ => Option (File P)
  | .write _ _  => Unit
  | .rm _       => Unit
  | .emit _     => Unit

-- With each reply comes the environment at that time.
def interface (P : Type) : Interface where
  Request := Action P
  Reply a := a.Reply × Env

abbrev Job (P α : Type) := ExceptT JobError (StateT Env (Task (interface P))) α

section Programs

variable {P : Type}

def perform (a : Action P) : Job P a.Reply := do
  let (reply, env) ← (Task.request (I := interface P) a : Task (interface P) _)
  set env
  return reply

def now : Job P Int :=
  return (← get).now

def maxJobsPerPlugin : Nat :=
  100

-- `/^[a-z0-9][a-z0-9_.:-]{0,127}$/i`
def validId (s : String) : Bool :=
  match s.toList with
  | []      => false
  | c :: cs => c.isAlphanum && cs.length ≤ 127 && cs.all fun c => c.isAlphanum || c ∈ "_.:-".toList

def writeAtomic (record : JobRecord P) (base : Option Nat) : Job P Unit := do
  if !validId record.pluginId || !validId record.jobId then
    throw .idInvalid
  perform <| .write record base

def readFiles (pluginId : String) : List String → Job P (List (Read P))
  | []              => return []
  | jobId :: jobIds => do
    if !validId jobId then
      readFiles pluginId jobIds
    else
      let file ← perform <| .readFile (pluginId, jobId)
      let records ← readFiles pluginId jobIds
      match file with
      | some ⟨some record, stamp⟩ =>
        return if record.key = (pluginId, jobId) then ⟨record, stamp⟩ :: records else records
      | _                         => return records

def readDir (pluginId : String) : Job P (List (Read P)) := do
  if !validId pluginId then
    return []
  else
    let jobIds ← perform <| .readdir pluginId
    readFiles pluginId jobIds

def find (records : List (Read P)) (jobId : String) : Option (Read P) :=
  records.find? (·.record.jobId = jobId)

def backoffFor (record : JobRecord P) (attempt : Nat) : Int :=
  min (record.retryDelayMs.getD 5000 * 2 ^ (attempt - 1)) 3600000

def recordFailure (r : Read P) (error : String) (timestamp : Int) : Job P Unit := do
  let attempts := r.record.attempts.getD 0 + 1
  if attempts > r.record.maxRetries.getD 0 then
    writeAtomic { r.record with
      status      := some .failed
      attempts    := some attempts
      lastError   := some error
      failedAt    := some timestamp
      dispatchAt  := none
      nextRetryAt := none
    } r.stamp
  else
    writeAtomic { r.record with
      attempts    := some attempts
      lastError   := some error
      dispatchAt  := none
      nextRetryAt := some (timestamp + backoffFor r.record attempts)
    } r.stamp

variable (config : Config P)

def nextCronAfter (timestamp : Int) (cron : String) : Job P Int := do
  if config.cron.parses cron then
    match config.cron.nextCronAfter timestamp cron with
    | some time => return time
    | none      => throw .cronThrows
  else
    throw .cronThrows

def recordSuccess (r : Read P) (timestamp : Int) : Job P Unit := do
  let base := { r.record with
    attempts := some 0, lastError := none, dispatchAt := none, nextRetryAt := none
  }
  match r.record.intervalMs, r.record.cron with
  | some intervalMs, _ =>
    writeAtomic { base with
      nextRunAt := max (r.record.nextRunAt + intervalMs) (timestamp + intervalMs)
    } r.stamp
  | none, some cron    =>
    let nextRunAt ← nextCronAfter config timestamp cron
    writeAtomic { base with nextRunAt := nextRunAt } r.stamp
  | none, none         => perform <| .rm r.record.key

structure ScheduleInput (P : Type) where
  pluginId     : String
  name         : String
  runAt        : Option Int := none
  intervalMs   : Option Int := none
  cron         : Option String := none
  payload      : Option P := none
  retries      : Option Int := none
  retryDelayMs : Option Int := none
  deriving DecidableEq

-- What is wrong with an input, by the first check that it fails.
def ScheduleInput.invalid (input : ScheduleInput P) : Option JobError :=
  let name := trim input.name
  let given := input.runAt.isSome.toNat + input.intervalMs.isSome.toNat + input.cron.isSome.toNat
  if utf16Length name = 0 || utf16Length name > 200 then
    some <| .nameInvalid 200
  else if given = 0 then
    some .scheduleInvalid
  else if given > 1 then
    some .scheduleExclusive
  else if input.cron.any fun cron => !config.cron.parses cron then
    some <| .cronInvalid (input.cron.getD "")
  else if input.retries.any fun retries => retries < 0 || retries > 20 then
    some <| .retriesInvalid 20
  else if input.retryDelayMs.any fun delay => delay < 1000 || delay > 3600000 then
    some <| .retryDelayInvalid 1000 3600000
  else if input.runAt.any fun runAt =>
      runAt > 9007199254740991 || runAt ≤ 0 || runAt > config.maxRunAtMs then
    some .runAtInvalid
  else if input.intervalMs.any fun interval => interval < 1000 || interval > 365 * 24 * 3600 * 1000 then
    some <| .intervalInvalid 1000 (365 * 24 * 3600 * 1000)
  else if input.payload.any fun payload => (config.payloadBytes payload).all (· > 64 * 1024) then
    some <| .fileTooLarge (64 * 1024)
  else
    none

def schedule (input : ScheduleInput P) : Job P (JobRecord P) := do
  if let some e := input.invalid config then
    throw e
  let existing ← readDir (P := P) input.pluginId
  if existing.length ≥ maxJobsPerPlugin then
    throw <| .limitExceeded maxJobsPerPlugin
  let timestamp ← now
  let jobId := (← get).token
  let nextRunAt ← match input.intervalMs, input.cron with
    | some intervalMs, _ => pure (timestamp + intervalMs)
    | none, some cron    => nextCronAfter config timestamp cron
    | none, none         => pure (input.runAt.getD 0)
  let record : JobRecord P := {
    jobId        := jobId
    pluginId     := input.pluginId
    name         := trim input.name
    nextRunAt    := nextRunAt
    runCount     := 0
    createdAt    := timestamp
    runAt        := input.runAt
    intervalMs   := input.intervalMs
    cron         := input.cron
    payload      := input.payload
    maxRetries   := input.retries.map Int.toNat
    retryDelayMs := input.retryDelayMs
  }
  writeAtomic record none
  return record

def cancel (pluginId jobId : String) : Job P Unit := do
  if !validId pluginId || !validId jobId then
    throw <| .notFound jobId
  let file ← perform <| .readFile (P := P) (pluginId, jobId)
  if file.isNone then
    throw <| .notFound jobId
  perform <| .rm (pluginId, jobId)

def remove (pluginId jobId : String) : Job P Bool := do
  if !validId pluginId || !validId jobId then
    return false
  let file ← perform <| .readFile (P := P) (pluginId, jobId)
  if file.isNone then
    return false
  perform <| .rm (P := P) (pluginId, jobId)
  return true

structure Outcome where
  ok    : Bool
  error : Option String := none
  deriving DecidableEq

def Outcome.message (outcome : Outcome) : String :=
  match outcome.error.map trim with
  | some error => if error = "" then "job-failed" else error
  | none       => "job-failed"

def ack (pluginId jobId : String) (outcome : Outcome) : Job P Bool := do
  if !validId pluginId || !validId jobId then
    return false
  let records ← readDir (P := P) pluginId
  match find records jobId with
  | none   => return false
  | some r =>
    if r.record.dispatchAt.isNone then
      return false
    let timestamp ← now
    if outcome.ok then
      recordSuccess config r timestamp
    else
      recordFailure r outcome.message timestamp
    return true

def retry (pluginId jobId : String) : Job P (Option (JobRecord P)) := do
  if !validId pluginId || !validId jobId then
    return none
  let records ← readDir pluginId
  match find records jobId with
  | none   => return none
  | some r =>
    let timestamp ← now
    writeAtomic { r.record with
      status      := some .active
      attempts    := some 0
      lastError   := none
      failedAt    := none
      dispatchAt  := none
      nextRetryAt := none
      nextRunAt   := timestamp
    } r.stamp
    let records ← readDir pluginId
    return (find records jobId).map (·.record)

-- One record of the directory of a plugin, as the scan has found it.
def scanRecord (timestamp : Int) (pluginId : String) (r : Read P) : Job P Unit := do
  let record := r.record
  if record.status = some .failed then
    return
  match record.dispatchAt with
  | some dispatchAt =>
    if dispatchAt + config.ackTimeoutMs > timestamp then
      return
    recordFailure r "ack-timeout" timestamp
  | none            =>
    if record.nextRetryAt.any (· > timestamp) || record.nextRunAt > timestamp then
      return
    let due : JobDuePayload P := ⟨pluginId, record.jobId, record.name, record.payload⟩
    let fired := { record with runCount := record.runCount + 1, lastRunAt := some timestamp }
    if record.maxRetries.getD 0 > 0 then
      writeAtomic { fired with dispatchAt := some timestamp } r.stamp
      perform <| .emit due
    else
      perform <| .emit due
      match record.intervalMs, record.cron with
      | some intervalMs, _ =>
        writeAtomic { fired with
          nextRunAt := max (record.nextRunAt + intervalMs) (timestamp + intervalMs)
        } r.stamp
      | none, some cron    =>
        let nextRunAt ← nextCronAfter config timestamp cron
        writeAtomic { fired with nextRunAt := nextRunAt } r.stamp
      | none, none         => perform <| .rm (pluginId, record.jobId)

def scanRecords (timestamp : Int) (pluginId : String) : List (Read P) → Job P Unit
  | []           => return
  | r :: records => do
    scanRecord config timestamp pluginId r
    scanRecords timestamp pluginId records

def scanPlugins (timestamp : Int) : List String → Job P Unit
  | []                    => return
  | pluginId :: pluginIds => do
    if validId pluginId then
      let records ← readDir pluginId
      scanRecords config timestamp pluginId records
    scanPlugins timestamp pluginIds

def scanOnce : Job P Unit := do
  let timestamp ← now
  let directories ← perform (P := P) .readRoot
  scanPlugins config timestamp directories

end Programs
end Jobs

namespace Jobs

open Tasks

-- A jobs directory as the manager finds it: a file each for some keys.
structure Directory (P : Type) where
  files   : List (Key × Option (JobRecord P))
  nodup   : (files.map (·.fst)).Nodup
  bounded : ∀ p, (files.filter (·.fst.fst = p)).length ≤ maxJobsPerPlugin

def Directory.empty {P : Type} : Directory P where
  files   := []
  nodup   := List.nodup_nil
  bounded := by simp

inductive Operation (P : Type)
  | schedule (input : ScheduleInput P)
  | cancel (pluginId jobId : String)
  | remove (pluginId jobId : String)
  | ack (pluginId jobId : String) (outcome : Outcome)
  | retry (pluginId jobId : String)
  | scanOnce
  deriving DecidableEq

inductive Result (P : Type)
  | scheduled (record : JobRecord P)
  | cancelled
  | removed (existed : Bool)
  | acknowledged (acknowledged : Bool)
  | retried (record : Option (JobRecord P))
  | scanned
  deriving DecidableEq

def Operation.job {P : Type} (config : Config P) : Operation P → Job P (Result P)
  | .schedule input            => .scheduled <$> Jobs.schedule config input
  | .cancel pluginId jobId     => (fun _ => .cancelled) <$> Jobs.cancel pluginId jobId
  | .remove pluginId jobId     => .removed <$> Jobs.remove pluginId jobId
  | .ack pluginId jobId outcome => .acknowledged <$> Jobs.ack config pluginId jobId outcome
  | .retry pluginId jobId      => .retried <$> Jobs.retry pluginId jobId
  | .scanOnce                  => (fun _ => .scanned) <$> Jobs.scanOnce config

def Operation.isScan {P : Type} : Operation P → Bool
  | .scanOnce => true
  | _         => false

-- A call that has not returned. `removed` and `written` are the files that it has removed, and has written
-- under which stamp. All removals are of jobs that the call is to finish.
structure Call (P : Type) where
  operation : Operation P
  task      : Task (interface P) (Except JobError (Result P) × Env)
  removed   : List Key := []
  written   : List (Key × Nat) := []

def Call.isScanning {P : Type} (call : Call P) : Bool :=
  call.operation.isScan && !call.task.isDone

inductive Entry
  | emitted (k : Key)
  | wrote (k : Key) (base : Option Nat)
  | acknowledged (k : Key) (stamp : Nat)
  | finished (k : Key)
  deriving DecidableEq

-- `known` has the keys that have been in use or have been removed. `log` has what has happened, the last
-- thing first.
structure Manager (P : Type) where
  files : List (Key × File P)
  dirs  : List String
  stamp : Nat := 1
  known : List Key
  calls : List (Call P) := []
  log   : List Entry := []

namespace Manager

variable {P : Type} (config : Config P) (order : List String → List String)

def start (d : Directory P) : Manager P where
  files := d.files.map fun f => (f.fst, ⟨f.snd, 0⟩)
  dirs  := (d.files.map (·.fst.fst)).dedup
  known := d.files.map (·.fst)

section Steps

variable (m : Manager P)

-- How many files a plugin has.
def count (pluginId : String) : Nat :=
  (m.files.filter (·.fst.fst = pluginId)).length

def scanning : Bool :=
  m.calls.any (·.isScanning)

-- The file system and the bus of events. `order` is the one in which a directory is listed.
def exec : (a : Action P) → a.Reply × Manager P
  | .readRoot          => (order m.dirs, m)
  | .readdir pluginId  => (order <| (m.files.filter (·.fst.fst = pluginId)).map (·.fst.snd), m)
  | .readFile k        => (Assoc.get m.files k, m)
  | .write record base => ((), { m with
      files := Assoc.set m.files record.key ⟨some record, m.stamp⟩
      dirs  := if record.pluginId ∈ m.dirs then m.dirs else m.dirs ++ [record.pluginId]
      stamp := m.stamp + 1
      known := record.key :: m.known
      log   := .wrote record.key base :: m.log
    })
  | .rm k              => ((), { m with files := Assoc.delete m.files k, known := k :: m.known })
  | .emit due          => ((), { m with log := .emitted (due.pluginId, due.jobId) :: m.log })

def recordAction (call : Call P) : Action P → Call P
  | .write record _ => { call with written := (record.key, m.stamp) :: call.written }
  | .rm k           => { call with removed := k :: call.removed }
  | _               => call

-- One call up to its next await.
def advance (i : Nat) (env : Env) : Manager P :=
  match m.calls[i]? with
  | none      => m
  | some call =>
    match call.task with
    | .done _       => m
    | .await a next =>
      let (reply, m') := m.exec order a
      { m' with calls := m.calls.set i { m.recordAction call a with task := next (reply, env) } }

-- A scan does not overlap another one.
def call (operation : Operation P) (env : Env) : Manager P :=
  if operation.isScan && m.scanning then
    m
  else
    { m with calls := m.calls ++ [{ operation, task := ((operation.job config).run).run env }] }

def entries (call : Call P) : List Entry :=
  call.removed.map .finished ++ call.written.map fun w => .acknowledged w.fst w.snd

-- A call whose code has come to its end returns.
def return_ (i : Nat) : Manager P :=
  match m.calls[i]? with
  | none      => m
  | some call =>
    match call.task with
    | .done (.ok _, _)    => { m with calls := m.calls.eraseIdx i, log := entries call ++ m.log }
    | .done (.error _, _) => { m with calls := m.calls.eraseIdx i }
    | .await _ _          => m

end Steps

inductive Event (P : Type)
  | call (operation : Operation P) (env : Env)
  | advance (i : Nat) (env : Env)
  | return_ (i : Nat)

def step : Manager P → Event P → Manager P
  | m, .call operation env => m.call config operation env
  | m, .advance i env      => m.advance order i env
  | m, .return_ i          => m.return_ i

end Manager
end Jobs
