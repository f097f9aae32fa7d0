import NeoTavern.Jobs.Cron
import NeoTavern.Lib.Assoc
import NeoTavern.Lib.NumberText

namespace JobScan

abbrev Text := CodeUnits

inductive Json
  | null
  | boolean (b : Bool)
  | number (n : Number)
  | string (t : Text)
  | array (items : List Json)
  | object (members : List (Text × Json))

inductive JobStatus
  | active
  | failed
  deriving DecidableEq

-- A count of runs that a file has is a safe integer and not negative.
structure JobRecord where
  jobId        : Text
  pluginId     : Text
  name         : Text
  runAt        : Option Number := none
  intervalMs   : Option Number := none
  cron         : Option Text := none
  payload      : Option Json := none
  createdAt    : Number
  nextRunAt    : Number
  runCount     : Nat
  lastRunAt    : Option Number := none
  status       : Option JobStatus := none
  attempts     : Option Int := none
  maxRetries   : Option Int := none
  retryDelayMs : Option Number := none
  nextRetryAt  : Option Number := none
  dispatchAt   : Option Number := none
  lastError    : Option Text := none
  failedAt     : Option Number := none

namespace Json

-- Of two members of one name, the last one counts.
def get (members : List (Text × Json)) (name : String) : Option Json :=
  Assoc.get members.reverse <| .ofString name

def number? : Option Json → Option Number
  | some (number n) => some n
  | _               => none

def string? : Option Json → Option Text
  | some (string t) => some t
  | _               => none

def safe? (j : Option Json) : Option Int :=
  number? j >>= Number.safeInteger

end Json

open Json (number? string? safe?)

def statusOf : Option Json → Option JobStatus
  | some (.string t) =>
    if t = .ofString "active" then some .active else if t = .ofString "failed" then some .failed else none
  | _                => none

-- A text that is no JSON is `none` here.
def parseRecord : Option Json → Option JobRecord
  | some (.object raw) => do
    let field := Json.get raw
    let jobId ← string? <| field "jobId"
    let pluginId ← string? <| field "pluginId"
    let name ← string? <| field "name"
    let nextRunAt ← number? <| field "nextRunAt"
    let runCount ← safe? <| field "runCount"
    let createdAt ← number? <| field "createdAt"
    if runCount < 0 then
      none
    else
      some {
        jobId, pluginId, name, nextRunAt, createdAt
        runCount     := runCount.toNat
        runAt        := number? <| field "runAt"
        intervalMs   := number? <| field "intervalMs"
        cron         := string? <| field "cron"
        lastRunAt    := number? <| field "lastRunAt"
        payload      := field "payload"
        status       := statusOf <| field "status"
        attempts     := safe? <| field "attempts"
        maxRetries   := safe? <| field "maxRetries"
        retryDelayMs := number? <| field "retryDelayMs"
        nextRetryAt  := number? <| field "nextRetryAt"
        dispatchAt   := number? <| field "dispatchAt"
        lastError    := string? <| field "lastError"
        failedAt     := number? <| field "failedAt"
      }
  | _                  => none

-- What `JSON.stringify` makes of a number.
def Json.ofNumber : Number → Json
  | .finite q => .number (.finite q)
  | _         => .null

mutual

-- A value as it is read again from its text.
def Json.written : Json → Json
  | .number n       => .ofNumber n
  | .array items    => .array (writtenItems items)
  | .object members => .object (writtenMembers members)
  | j               => j

def Json.writtenItems : List Json → List Json
  | []            => []
  | item :: items => item.written :: writtenItems items

def Json.writtenMembers : List (Text × Json) → List (Text × Json)
  | []                   => []
  | (name, j) :: members => (name, j.written) :: writtenMembers members

end

def JobStatus.text : JobStatus → Text
  | active => .ofString "active"
  | failed => .ofString "failed"

def JobRecord.fields (record : JobRecord) : List (String × Option Json) := [
  ("jobId", some <| .string record.jobId),
  ("pluginId", some <| .string record.pluginId),
  ("name", some <| .string record.name),
  ("nextRunAt", some <| .number record.nextRunAt),
  ("runCount", some <| .number <| .ofInt record.runCount),
  ("createdAt", some <| .number record.createdAt),
  ("runAt", record.runAt.map .number),
  ("intervalMs", record.intervalMs.map .number),
  ("cron", record.cron.map .string),
  ("lastRunAt", record.lastRunAt.map .number),
  ("payload", record.payload),
  ("status", record.status.map (.string ·.text)),
  ("attempts", record.attempts.map (.number <| .ofInt ·)),
  ("maxRetries", record.maxRetries.map (.number <| .ofInt ·)),
  ("retryDelayMs", record.retryDelayMs.map .number),
  ("nextRetryAt", record.nextRetryAt.map .number),
  ("dispatchAt", record.dispatchAt.map .number),
  ("lastError", record.lastError.map .string),
  ("failedAt", record.failedAt.map .number)
]

-- The value of the text that `JSON.stringify` gives, where a field that is undefined is left out.
def stringify (record : JobRecord) : Json :=
  Json.written <| .object <| record.fields.filterMap fun f => f.snd.map (CodeUnits.ofString f.fst, ·)

section Stringify

variable {record : JobRecord}

def fieldNames : List String := [
  "jobId", "pluginId", "name", "nextRunAt", "runCount", "createdAt", "runAt", "intervalMs", "cron", "lastRunAt",
  "payload", "status", "attempts", "maxRetries", "retryDelayMs", "nextRetryAt", "dispatchAt", "lastError",
  "failedAt"
]

theorem nodup_fieldNames : (fieldNames.map CodeUnits.ofString).Nodup := by decide +kernel

theorem map_fst_fields : record.fields.map (·.fst) = fieldNames :=
  rfl

theorem writtenMembers_eq {members : List (Text × Json)} :
    Json.writtenMembers members = members.map fun m => (m.fst, m.snd.written) := by
  induction members
  case nil             => rfl
  case cons m members ih => simp [Json.writtenMembers, ih]

-- The names of the fields that are defined are in order among all of them.
theorem defined_sublist {fields : List (String × Option Json)} :
    ((fields.filterMap fun f => f.snd.map (CodeUnits.ofString f.fst, ·)).map (·.fst)).Sublist
      (fields.map fun f => CodeUnits.ofString f.fst) := by
  induction fields
  case nil              => simp
  case cons f fields ih =>
    match hf : f.snd with
    | none   => simpa [hf] using ih.cons _
    | some j => simpa [hf] using ih.cons_cons (CodeUnits.ofString f.fst)

def JobRecord.written (record : JobRecord) : List (Text × Json) :=
  Json.writtenMembers <| record.fields.filterMap fun f => f.snd.map (CodeUnits.ofString f.fst, ·)

theorem nodup_written : (record.written.reverse.map (·.fst)).Nodup := by
  have hnodup : (record.fields.map fun f => CodeUnits.ofString f.fst).Nodup := by
    simpa [← @map_fst_fields record, List.map_map, Function.comp_def] using nodup_fieldNames
  have hkeys := defined_sublist.nodup hnodup
  simpa [JobRecord.written, writtenMembers_eq, List.map_reverse, Function.comp_def] using hkeys

-- A field is read as it has been written.
theorem get_written (h : (name, some j) ∈ record.fields) : Json.get record.written name = some j.written := by
  apply Assoc.get_of_mem nodup_written
  simp only [List.mem_reverse, JobRecord.written, writtenMembers_eq, List.mem_map, List.mem_filterMap]
  exact ⟨(.ofString name, j), ⟨(name, some j), h, rfl⟩, rfl⟩

theorem stringify_eq : stringify record = .object record.written := by
  rw [stringify, Json.written, JobRecord.written]

-- A record whose next time is no finite number is none once it has been written.
theorem nextRunAt_of_parse (h : parseRecord (some <| stringify record) = some after) :
    after.nextRunAt = record.nextRunAt := by
  have hget : Json.get record.written "nextRunAt" = some (.ofNumber record.nextRunAt) := by
    have hfield : ("nextRunAt", some <| .number record.nextRunAt) ∈ record.fields := by simp [JobRecord.fields]
    simpa [Json.written] using get_written hfield
  simp only [stringify_eq, parseRecord, hget, Option.bind_eq_bind, Option.bind_eq_some_iff] at h
  have ⟨_, _, _, _, _, _, nextRunAt, hnext, _, _, _, _, hread⟩ := h
  split at hread
  case isTrue  => cases hread
  case isFalse =>
    cases hread
    cases hn : record.nextRunAt
    all_goals simp_all [Json.ofNumber, Json.number?]

theorem dispatchAt_of_parse (h : parseRecord (some <| stringify record) = some after)
    (hd : record.dispatchAt = some (.finite q)) : after.dispatchAt = some (.finite q) := by
  have hget : Json.get record.written "dispatchAt" = some (.number <| .finite q) := by
    have hfield : ("dispatchAt", some <| .number <| .finite q) ∈ record.fields := by simp [JobRecord.fields, hd]
    simpa [Json.written, Json.ofNumber] using get_written hfield
  simp only [stringify_eq, parseRecord, hget, Option.bind_eq_bind, Option.bind_eq_some_iff] at h
  have ⟨_, _, _, _, _, _, _, _, _, _, _, _, hread⟩ := h
  split at hread
  case isTrue  => cases hread
  case isFalse =>
    cases hread
    rfl

end Stringify
end JobScan

namespace JobScan

open Jobs (CronError nextOf)

-- The plugin and the job of a file.
abbrev Key := Text × Text

-- The files of a plugin by their names. A file whose text is no JSON is `none`.
abbrev Folder := List (Text × Option Json)

structure Disk where
  folders     : List (Text × Folder)
  nodup       : (folders.map (·.fst)).Nodup
  nodup_files : ∀ f ∈ folders, (f.snd.map (·.fst)).Nodup

def JobRecord.key (record : JobRecord) : Key :=
  (record.pluginId, record.jobId)

def dotJson : Text :=
  .ofString ".json"

namespace Disk

variable (disk : Disk)

def names : List Text :=
  disk.folders.map (·.fst)

def files (pluginId : Text) : Folder :=
  (Assoc.get disk.folders pluginId).getD []

theorem nodup_files_of (pluginId : Text) : ((disk.files pluginId).map (·.fst)).Nodup := by
  cases h : Assoc.get disk.folders pluginId
  case none     => simp [files, h]
  case some fs  => simpa [files, h] using disk.nodup_files _ <| Assoc.mem_of_get h

def set (pluginId : Text) (folder : Folder) (h : (folder.map (·.fst)).Nodup) : Disk where
  folders     := Assoc.set disk.folders pluginId folder
  nodup       := Assoc.nodup_set disk.nodup
  nodup_files := by
    intro f hf
    match Assoc.mem_set hf with
    | .inl heq  => exact heq ▸ h
    | .inr hmem => exact disk.nodup_files f hmem

def write (record : JobRecord) : Disk :=
  disk.set record.pluginId
    (Assoc.set (disk.files record.pluginId) (record.jobId ++ dotJson) (some <| stringify record))
    (Assoc.nodup_set <| disk.nodup_files_of _)

def remove (k : Key) : Disk :=
  if k.fst ∈ disk.names then
    disk.set k.fst (Assoc.delete (disk.files k.fst) (k.snd ++ dotJson)) (Assoc.nodup_delete <| disk.nodup_files_of _)
  else
    disk

end Disk

structure JobDuePayload where
  pluginId : Text
  jobId    : Text
  name     : Text
  payload  : Option Json

def JobDuePayload.key (due : JobDuePayload) : Key :=
  (due.pluginId, due.jobId)

inductive Operation
  | readRoot
  | readdir (pluginId : Text)
  | readFile (pluginId entry : Text)
  | mkdir (k : Key)
  | writeFile (k : Key)
  | rename (k : Key)
  | rmTemporary (k : Key)
  | rm (k : Key)
  deriving DecidableEq

inductive ScanError
  | idInvalid
  | cron (e : CronError)
  | failed (op : Operation)
  deriving DecidableEq

structure State where
  disk     : Disk
  emitted  : List JobDuePayload := []
  scanning : Bool := false

abbrev Scan := EStateM ScanError State

def idUnit (u : UInt16) : Bool :=
  0x30 ≤ u && u ≤ 0x39 || 0x41 ≤ u && u ≤ 0x5a || 0x61 ≤ u && u ≤ 0x7a

-- `/^[a-z0-9][a-z0-9_.:-]{0,127}$/i`
def validId : Text → Bool
  | []     => false
  | u :: t =>
    idUnit u && t.length ≤ 127 &&
    t.all fun v => idUnit v || v = 0x5f || v = 0x2e || v = 0x3a || v = 0x2d

section Reading

variable (fails : Operation → Bool) (disk : Disk) (pluginId : Text)

-- A file is skipped where it cannot be read, or is no record of its own name.
def readEntry (file : Text × Option Json) : Option JobRecord :=
  if dotJson.isSuffixOf file.fst then
    let jobId := file.fst.take (file.fst.length - dotJson.length)
    if validId jobId && !fails (.readFile pluginId file.fst) then
      (parseRecord file.snd).filter fun record => record.key = (pluginId, jobId)
    else
      none
  else
    none

def readDir : List JobRecord :=
  if validId pluginId && !fails (.readdir pluginId) then
    (disk.files pluginId).filterMap <| readEntry fails pluginId
  else
    []

end Reading

structure Options where
  ackTimeoutMs : Option Number := none
  deriving DecidableEq

def defaultAckTimeoutMs : Int :=
  5 * 60000

def Options.timeout (options : Options) : Number :=
  options.ackTimeoutMs.getD <| .ofInt defaultAckTimeoutMs

section Programs

-- `fails` tells the operations on files that fail. `timestamp` is the time of the scan.
variable (fails : Operation → Bool) (options : Options) (timestamp : Int)

def perform (op : Operation) : Scan Unit := do
  if fails op then
    throw <| .failed op

def writeAtomic (record : JobRecord) : Scan Unit := do
  if !validId record.pluginId || !validId record.jobId then
    throw .idInvalid
  perform fails <| .mkdir record.key
  try
    perform fails <| .writeFile record.key
    perform fails <| .rename record.key
  catch e =>
    perform fails <| .rmTemporary record.key
    throw e
  modify fun s => { s with disk := s.disk.write record }

def backoffFor (record : JobRecord) (attempt : Int) : Number :=
  .min ((record.retryDelayMs.getD <| .ofInt 5000).mul <| .powTwo (attempt - 1)) (.ofInt 3600000)

-- The record of one more failed attempt.
def failedRecord (record : JobRecord) (error : String) : JobRecord :=
  let attempts := record.attempts.getD 0 + 1
  if attempts > record.maxRetries.getD 0 then
    { record with
      status      := some .failed
      attempts    := some attempts
      lastError   := some <| .ofString error
      failedAt    := some <| .ofInt timestamp
      dispatchAt  := none
      nextRetryAt := none
    }
  else
    { record with
      attempts    := some attempts
      lastError   := some <| .ofString error
      dispatchAt  := none
      nextRetryAt := some <| (Number.ofInt timestamp).add <| backoffFor record attempts
    }

def recordFailure (record : JobRecord) (error : String) : Scan Unit :=
  writeAtomic fails <| failedRecord timestamp record error

def nextCronAfter (cron : Text) : Scan Number :=
  match nextOf timestamp cron with
  | .ok time => return .ofInt time
  | .error e => throw <| .cron e

def emit (due : JobDuePayload) : Scan Unit :=
  modify fun s => { s with emitted := s.emitted ++ [due] }

def rm (k : Key) : Scan Unit := do
  perform fails <| .rm k
  modify fun s => { s with disk := s.disk.remove k }

def scanRecord (record : JobRecord) : Scan Unit := do
  let t := Number.ofInt timestamp
  if record.status = some .failed then
    return
  match record.dispatchAt with
  | some dispatchAt =>
    if t.lt <| dispatchAt.add options.timeout then
      return
    recordFailure fails timestamp record "ack-timeout"
  | none            =>
    if record.nextRetryAt.any t.lt then
      return
    if t.lt record.nextRunAt then
      return
    let due : JobDuePayload := ⟨record.pluginId, record.jobId, record.name, record.payload⟩
    let fired := { record with runCount := record.runCount + 1, lastRunAt := some t }
    if record.maxRetries.getD 0 > 0 then
      writeAtomic fails { fired with dispatchAt := some t }
      emit due
    else
      emit due
      match record.intervalMs, record.cron with
      | some intervalMs, _ =>
        writeAtomic fails { fired with
          nextRunAt := .max (record.nextRunAt.add intervalMs) (t.add intervalMs)
        }
      | none, some cron    =>
        let nextRunAt ← nextCronAfter timestamp cron
        writeAtomic fails { fired with nextRunAt := nextRunAt }
      | none, none         => rm fails record.key

def scanPlugin (pluginId : Text) : Scan Unit := do
  (readDir fails (← get).disk pluginId).forM <| scanRecord fails options timestamp

def scanOnce : Scan Unit := do
  if (← get).scanning then
    return
  modify fun s => { s with scanning := true }
  try
    let directories := (← get).disk.names
    (if fails .readRoot then [] else directories).forM <| scanPlugin fails options timestamp
  finally
    modify fun s => { s with scanning := false }

end Programs
end JobScan
