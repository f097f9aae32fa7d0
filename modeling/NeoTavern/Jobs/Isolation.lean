import NeoTavern.Jobs.Scan
import NeoTavern.Lib.Proc

namespace JobScan

open Jobs (CronError nextOf lt_of_nextOf)

section Conditions

variable (fails : Operation → Bool) (options : Options) (timestamp : Int) (record : JobRecord)

namespace JobRecord

-- Active, not outstanding, and at its time.
def isDue : Bool :=
  record.status ≠ some .failed && record.dispatchAt.isNone &&
  !record.nextRetryAt.any (Number.ofInt timestamp).lt && !(Number.ofInt timestamp).lt record.nextRunAt

-- Active, but without an ack in time.
def hasTimedOut : Bool :=
  record.status ≠ some .failed && record.dispatchAt.any fun dispatchAt =>
    !(Number.ofInt timestamp).lt (dispatchAt.add options.timeout)

def isAckBased : Bool :=
  record.maxRetries.getD 0 > 0

end JobRecord

def writable (k : Key) : Bool :=
  !fails (.mkdir k) && !fails (.writeFile k) && !fails (.rename k)

-- The scan ends with an error at such a record.
def stops : Bool :=
  if record.hasTimedOut options timestamp then
    !writable fails record.key
  else if record.isDue timestamp then
    if record.isAckBased then
      !writable fails record.key
    else
      match record.intervalMs, record.cron with
      | some _, _       => !writable fails record.key
      | none, some cron => !(nextOf timestamp cron).isOk || !writable fails record.key
      | none, none      => fails (.rm record.key)
  else
    false

end Conditions

section Records

variable {fails : Operation → Bool} {options : Options} {timestamp : Int} {record : JobRecord} {s : State}

def valid (k : Key) : Prop :=
  validId k.fst ∧ validId k.snd

-- A record that waits for the ack of its dispatch.
def JobRecord.held (timestamp : Int) (record : JobRecord) : JobRecord :=
  { record with
    runCount   := record.runCount + 1
    lastRunAt  := some <| .ofInt timestamp
    dispatchAt := some <| .ofInt timestamp
  }

-- A record as it is written after its dispatch, unless it is removed.
def advanced (timestamp : Int) (record : JobRecord) : Option JobRecord :=
  let t := Number.ofInt timestamp
  let fired := { record with runCount := record.runCount + 1, lastRunAt := some t }
  if record.isAckBased then
    some <| record.held timestamp
  else
    match record.intervalMs, record.cron with
    | some intervalMs, _ =>
      some { fired with nextRunAt := .max (record.nextRunAt.add intervalMs) (t.add intervalMs) }
    | none, some cron    =>
      (nextOf timestamp cron).toOption.map fun time => { fired with nextRunAt := .ofInt time }
    | none, none         => none

def JobRecord.due (record : JobRecord) : JobDuePayload :=
  ⟨record.pluginId, record.jobId, record.name, record.payload⟩

def settleDisk (timestamp : Int) (disk : Disk) (record : JobRecord) : Disk :=
  match advanced timestamp record with
  | some r => disk.write r
  | none   => disk.remove record.key

-- What the scan makes of a record that does not stop it.
def settle (options : Options) (timestamp : Int) (s : State) (record : JobRecord) : State :=
  if record.hasTimedOut options timestamp then
    { s with disk := s.disk.write <| failedRecord timestamp record "ack-timeout" }
  else if record.isDue timestamp then
    { s with disk := settleDisk timestamp s.disk record, emitted := s.emitted ++ [record.due] }
  else
    s

theorem perform_ok (h : fails op = false) : perform fails op s = .ok ⟨⟩ s := by
  simp [perform, h, pure, EStateM.pure]

theorem perform_error (h : fails op = true) : perform fails op s = .error (.failed op) s := by
  simp [perform, h, throw, throwThe, MonadExceptOf.throw, EStateM.throw]

theorem writeAtomic_ok (hv : valid record.key) (h : writable fails record.key = true) :
    writeAtomic fails record s = .ok ⟨⟩ { s with disk := s.disk.write record } := by
  have hid : validId record.pluginId ∧ validId record.jobId := hv
  simp only [writable, Bool.and_eq_true, Bool.not_eq_true'] at h
  simp [writeAtomic, hid.left, hid.right, bind, EStateM.bind, perform_ok h.left.left, perform_ok h.left.right,
    perform_ok h.right, tryCatch, tryCatchThe, MonadExceptOf.tryCatch, EStateM.tryCatch, modify, modifyGet,
    MonadStateOf.modifyGet, EStateM.modifyGet]

theorem writeAtomic_error (h : writable fails record.key = false) :
    ∃ e s', writeAtomic fails record s = .error e s' := by
  by_cases hid : validId record.pluginId ∧ validId record.jobId
  case neg =>
    have hne : (!validId record.pluginId || !validId record.jobId) = true := by
      cases hp : validId record.pluginId <;> simp_all
    exact ⟨.idInvalid, s, by simp [writeAtomic, hne, bind, EStateM.bind, throw, throwThe, MonadExceptOf.throw,
      EStateM.throw]⟩
  case pos =>
    cases hm : fails (.mkdir record.key)
    case true  =>
      exact ⟨.failed (.mkdir record.key), s, by
        simp [writeAtomic, hid.left, hid.right, bind, EStateM.bind, perform_error hm]⟩
    case false =>
      -- Whichever of the two fails, its error or the one of the removal is thrown.
      cases hw : fails (.writeFile record.key) <;> cases hr : fails (.rename record.key) <;>
        cases ht : fails (.rmTemporary record.key) <;>
        simp [writable, hm, hw, hr] at h <;>
        simp [writeAtomic, hid.left, hid.right, bind, EStateM.bind, perform_ok, perform_error, hm, hw, hr, ht,
          tryCatch, tryCatchThe, MonadExceptOf.tryCatch, EStateM.tryCatch, throw, throwThe, MonadExceptOf.throw,
          EStateM.throw, EStateM.Backtrackable.save, EStateM.Backtrackable.restore]

theorem isDue_of_hasTimedOut (h : record.hasTimedOut options timestamp) : record.isDue timestamp = false := by
  cases hd : record.dispatchAt
  case none   => simp [JobRecord.hasTimedOut, hd] at h
  case some d => simp [JobRecord.isDue, hd]

theorem scanRecord_timedOut (h : record.hasTimedOut options timestamp) :
    scanRecord fails options timestamp record = recordFailure fails timestamp record "ack-timeout" := by
  cases hd : record.dispatchAt
  case none   => simp [JobRecord.hasTimedOut, hd] at h
  case some d =>
    simp only [JobRecord.hasTimedOut, hd, Option.any_some, Bool.and_eq_true, decide_eq_true_eq,
      Bool.not_eq_true'] at h
    simp [scanRecord, hd, h.left, h.right]

theorem scanRecord_idle (h : record.hasTimedOut options timestamp = false) (h' : record.isDue timestamp = false) :
    scanRecord fails options timestamp record s = .ok ⟨⟩ s := by
  by_cases hf : record.status = some .failed
  case pos => simp [scanRecord, hf, pure, EStateM.pure]
  case neg =>
    cases hd : record.dispatchAt
    case some d =>
      simp only [JobRecord.hasTimedOut, hd, hf, Option.any_some, ne_eq, not_false_iff, decide_true, Bool.true_and,
        Bool.not_eq_false'] at h
      simp [scanRecord, hd, hf, h, pure, EStateM.pure]
    case none =>
      cases hr : record.nextRetryAt.any (Number.ofInt timestamp).lt
      case true  => simp [scanRecord, hd, hf, hr, pure, EStateM.pure]
      case false =>
        have hnext : (Number.ofInt timestamp).lt record.nextRunAt = true := by
          simpa [JobRecord.isDue, hd, hf, hr] using h'
        simp [scanRecord, hd, hf, hr, hnext, pure, EStateM.pure]

theorem not_hasTimedOut_of_isDue (h : record.isDue timestamp) : record.hasTimedOut options timestamp = false := by
  cases ht : record.hasTimedOut options timestamp
  case false => rfl
  case true  => exact absurd h <| by simp [isDue_of_hasTimedOut ht]

theorem emit_ok {due : JobDuePayload} : emit due s = .ok ⟨⟩ { s with emitted := s.emitted ++ [due] } :=
  rfl

-- What is done with a record once its job has been emitted without a wait for an ack.
def reschedule (fails : Operation → Bool) (timestamp : Int) (record : JobRecord) : Scan Unit := do
  let t := Number.ofInt timestamp
  let fired := { record with runCount := record.runCount + 1, lastRunAt := some t }
  match record.intervalMs, record.cron with
  | some intervalMs, _ =>
    writeAtomic fails { fired with
      nextRunAt := .max (record.nextRunAt.add intervalMs) (t.add intervalMs)
    }
  | none, some cron    =>
    let nextRunAt ← nextCronAfter timestamp cron
    writeAtomic fails { fired with nextRunAt := nextRunAt }
  | none, none         => rm fails record.key

theorem scanRecord_ackBased (h : record.isDue timestamp) (hack : record.isAckBased) :
    scanRecord fails options timestamp record =
      (do writeAtomic fails <| record.held timestamp; emit record.due) := by
  simp only [JobRecord.isDue, Bool.and_eq_true, decide_eq_true_eq, Option.isNone_iff_eq_none,
    Bool.not_eq_true'] at h
  have ⟨⟨⟨hstatus, hdispatch⟩, hretry⟩, hnext⟩ := h
  simp only [JobRecord.isAckBased, decide_eq_true_eq] at hack
  simp [scanRecord, hstatus, hdispatch, hretry, hnext, hack, JobRecord.due, JobRecord.held]

theorem scanRecord_plain (h : record.isDue timestamp) (hack : record.isAckBased = false) :
    scanRecord fails options timestamp record = (do emit record.due; reschedule fails timestamp record) := by
  simp only [JobRecord.isDue, Bool.and_eq_true, decide_eq_true_eq, Option.isNone_iff_eq_none,
    Bool.not_eq_true'] at h
  have ⟨⟨⟨hstatus, hdispatch⟩, hretry⟩, hnext⟩ := h
  simp only [JobRecord.isAckBased, decide_eq_false_iff_not] at hack
  simp only [scanRecord, hstatus, hdispatch, hretry, hnext, hack, JobRecord.due, reschedule, if_false,
    Bool.false_eq_true]
  all_goals rfl

theorem reschedule_ok (hv : valid record.key) (hack : record.isAckBased = false)
    (hdue : record.isDue timestamp) (h : stops fails options timestamp record = false) :
    reschedule fails timestamp record s = .ok ⟨⟩ { s with disk := settleDisk timestamp s.disk record } := by
  simp only [stops, not_hasTimedOut_of_isDue hdue, hdue, hack, if_true, if_false, Bool.false_eq_true] at h
  cases hi : record.intervalMs
  case some intervalMs =>
    simp only [hi, Bool.not_eq_false'] at h
    simp only [reschedule, hi, settleDisk, advanced, hack, Bool.false_eq_true, if_false]
    exact writeAtomic_ok hv h
  case none =>
    cases hc : record.cron
    case none =>
      simp only [hi, hc] at h
      simp [reschedule, hi, hc, settleDisk, advanced, hack, rm, bind, EStateM.bind, perform_ok h, modify, modifyGet,
        MonadStateOf.modifyGet, EStateM.modifyGet]
    case some cron =>
      simp only [hi, hc, Bool.or_eq_false_iff, Bool.not_eq_false'] at h
      cases hn : nextOf timestamp cron
      case error e => simp [hn, Except.isOk, Except.toBool] at h
      case ok time =>
        simp only [reschedule, hi, hc, settleDisk, advanced, hack, hn, nextCronAfter, Bool.false_eq_true, if_false]
        exact writeAtomic_ok hv h.right

theorem reschedule_error (hack : record.isAckBased = false) (hdue : record.isDue timestamp)
    (h : stops fails options timestamp record = true) :
    ∃ e s', reschedule fails timestamp record s = .error e s' := by
  simp only [stops, not_hasTimedOut_of_isDue hdue, hdue, hack, if_true, if_false, Bool.false_eq_true] at h
  cases hi : record.intervalMs
  case some intervalMs =>
    simp only [hi, Bool.not_eq_true'] at h
    simp only [reschedule, hi]
    exact writeAtomic_error h
  case none =>
    cases hc : record.cron
    case none =>
      simp only [hi, hc] at h
      exact ⟨.failed (.rm record.key), s, by simp [reschedule, hi, hc, rm, bind, EStateM.bind, perform_error h]⟩
    case some cron =>
      simp only [hi, hc] at h
      cases hn : nextOf timestamp cron
      case error e =>
        exact ⟨.cron e, s, by simp [reschedule, hi, hc, nextCronAfter, hn, bind, EStateM.bind, throw, throwThe,
          MonadExceptOf.throw, EStateM.throw]⟩
      case ok time =>
        simp only [hn, Except.isOk, Except.toBool, Bool.not_true, Bool.false_or, Bool.not_eq_true'] at h
        simp only [reschedule, hi, hc, nextCronAfter, hn]
        exact writeAtomic_error h

theorem scanRecord_ok (hv : valid record.key) (h : stops fails options timestamp record = false) :
    scanRecord fails options timestamp record s = .ok ⟨⟩ (settle options timestamp s record) := by
  cases ht : record.hasTimedOut options timestamp
  case true =>
    simp only [stops, ht, if_true, Bool.not_eq_false'] at h
    have hkey : (failedRecord timestamp record "ack-timeout").key = record.key := by
      simp only [failedRecord]
      split <;> rfl
    rw [scanRecord_timedOut ht, settle, if_pos ht]
    exact writeAtomic_ok (hkey ▸ hv) (hkey ▸ h)
  case false =>
    cases hdue : record.isDue timestamp
    case false => simp [scanRecord_idle ht hdue, settle, ht, hdue]
    case true  =>
      cases hack : record.isAckBased
      case true =>
        simp only [stops, ht, hdue, hack, if_true, if_false, Bool.false_eq_true, Bool.not_eq_false'] at h
        have hwrite : writeAtomic fails (record.held timestamp) s =
            .ok ⟨⟩ { s with disk := s.disk.write <| record.held timestamp } := writeAtomic_ok hv h
        simp [scanRecord_ackBased hdue hack, bind, EStateM.bind, hwrite, emit_ok, settle, ht, hdue, settleDisk,
          advanced, hack]
      case false =>
        simp [scanRecord_plain hdue hack, bind, EStateM.bind, emit_ok, reschedule_ok hv hack hdue h, settle, ht,
          hdue]

theorem scanRecord_error (h : stops fails options timestamp record = true) :
    ∃ e s', scanRecord fails options timestamp record s = .error e s' := by
  cases ht : record.hasTimedOut options timestamp
  case true =>
    simp only [stops, ht, if_true, Bool.not_eq_true'] at h
    have hkey : (failedRecord timestamp record "ack-timeout").key = record.key := by
      simp only [failedRecord]
      split <;> rfl
    rw [scanRecord_timedOut ht]
    exact writeAtomic_error (hkey ▸ h)
  case false =>
    cases hdue : record.isDue timestamp
    case false => simp [stops, ht, hdue] at h
    case true  =>
      cases hack : record.isAckBased
      case true =>
        simp only [stops, ht, hdue, hack, if_true, if_false, Bool.false_eq_true, Bool.not_eq_true'] at h
        have ⟨e, s', hwrite⟩ : ∃ e s', writeAtomic fails (record.held timestamp) s = .error e s' :=
          writeAtomic_error h
        exact ⟨e, s', by simp [scanRecord_ackBased hdue hack, bind, EStateM.bind, hwrite]⟩
      case false =>
        have ⟨e, s', hres⟩ :=
          reschedule_error (s := { s with emitted := s.emitted ++ [record.due] }) hack hdue h
        exact ⟨e, s', by simp [scanRecord_plain hdue hack, bind, EStateM.bind, emit_ok, hres]⟩

end Records

section Files

variable {disk : Disk} {record : JobRecord} {k : Key} {fails : Operation → Bool} {pluginId : Text}

namespace Disk

-- The file of a job.
def entry (disk : Disk) (k : Key) : Option (Option Json) :=
  Assoc.get (disk.files k.fst) (k.snd ++ dotJson)

def job (disk : Disk) (k : Key) : Option JobRecord :=
  (disk.entry k).bind parseRecord

theorem files_set {folder : Folder} {h : (folder.map (·.fst)).Nodup} :
    (disk.set pluginId folder h).files p = if p = pluginId then folder else disk.files p := by
  by_cases hp : p = pluginId
  case pos => simp [files, set, hp]
  case neg => simp [files, set, hp, Assoc.get_set_of_ne hp]

theorem files_write : (disk.write record).files p =
    if p = record.pluginId then
      Assoc.set (disk.files record.pluginId) (record.jobId ++ dotJson) (some <| stringify record)
    else
      disk.files p :=
  files_set

theorem files_remove : (disk.remove k).files p =
    if p = k.fst then Assoc.delete (disk.files k.fst) (k.snd ++ dotJson) else disk.files p := by
  rw [remove]
  split
  case isTrue      => exact files_set
  case isFalse hk =>
    have hnone : disk.files k.fst = [] := by
      have hget : Assoc.get disk.folders k.fst = none := by
        simpa [names, Assoc.isSome_get_iff, Option.isSome_iff_ne_none] using
          (not_congr Assoc.isSome_get_iff).mpr hk
      simp [files, hget]
    split
    case isTrue hp => simp [hp, hnone, Assoc.delete]
    case isFalse   => rfl

theorem entry_write_self : (disk.write record).entry record.key = some (some <| stringify record) := by
  simp [entry, files_write, JobRecord.key]

theorem entry_write_of_ne (h : k ≠ record.key) : (disk.write record).entry k = disk.entry k := by
  rw [entry, files_write, entry]
  split
  case isFalse   => rfl
  case isTrue hp =>
    rw [hp]
    apply Assoc.get_set_of_ne
    intro hj
    exact h <| Prod.ext hp <| List.append_cancel_right hj

theorem entry_remove_self : (disk.remove k).entry k = none := by
  simp [entry, files_remove]

theorem entry_remove_of_ne (h : k ≠ l) : (disk.remove l).entry k = disk.entry k := by
  rw [entry, files_remove, entry]
  split
  case isFalse   => rfl
  case isTrue hp =>
    rw [hp]
    apply Assoc.get_delete_of_ne
    intro hj
    exact h <| Prod.ext hp <| List.append_cancel_right hj

end Disk

-- The records of a file are of the plugin and the job that the file is of.
theorem readEntry_iff {file : Text × Option Json} : readEntry fails pluginId file = some record ↔
    file.fst = record.jobId ++ dotJson ∧ validId record.jobId ∧ fails (.readFile pluginId file.fst) = false ∧
      record.pluginId = pluginId ∧ parseRecord file.snd = some record := by
  rw [readEntry]
  split
  case isFalse hsuffix =>
    constructor
    case mp  => simp
    case mpr =>
      intro ⟨hname, _⟩
      exact absurd (by simp [hname]) hsuffix
  case isTrue hsuffix =>
    have ⟨jobId, hname⟩ := List.isSuffixOf_iff_suffix.mp hsuffix
    have htake : file.fst.take (file.fst.length - dotJson.length) = jobId := by simp [← hname]
    simp only [htake]
    split
    case isTrue hread =>
      simp only [Bool.and_eq_true, Bool.not_eq_true'] at hread
      have hf : fails (.readFile pluginId (jobId ++ dotJson)) = false := hname ▸ hread.right
      simp only [Option.filter_eq_some_iff, decide_eq_true_eq, JobRecord.key, Prod.mk.injEq, ← hname, hf, true_and,
        List.append_left_inj]
      constructor
      case mp  => exact fun ⟨hparse, hp, hj⟩ => ⟨hj.symm, hj ▸ hread.left, hp, hparse⟩
      case mpr => exact fun ⟨hj, _, hp, hparse⟩ => ⟨hparse, hp, hj.symm⟩
    case isFalse hread =>
      constructor
      case mp  => simp
      case mpr =>
        intro ⟨hj, hv, hf, _⟩
        have heq : jobId = record.jobId := List.append_cancel_right (hname.trans hj)
        exact absurd (by simp [heq, hv, hf]) hread

theorem mem_readDir : record ∈ readDir fails disk pluginId ↔
    validId pluginId ∧ fails (.readdir pluginId) = false ∧ validId record.jobId ∧
      fails (.readFile pluginId (record.jobId ++ dotJson)) = false ∧ record.pluginId = pluginId ∧
      disk.job record.key = some record := by
  rw [readDir]
  split
  case isFalse h =>
    constructor
    case mp  => simp
    case mpr =>
      intro ⟨hv, hf, _⟩
      exact absurd (by simp [hv, hf]) h
  case isTrue h =>
    simp only [Bool.and_eq_true, Bool.not_eq_true'] at h
    simp only [List.mem_filterMap, readEntry_iff, h.left, h.right, true_and]
    constructor
    case mp =>
      intro ⟨file, hmem, hname, hv, hf, hp, hparse⟩
      have hget : disk.entry record.key = some file.snd := by
        rw [Disk.entry, JobRecord.key, hp, ← hname]
        exact Assoc.get_of_mem (disk.nodup_files_of _) hmem
      exact ⟨hv, hname ▸ hf, hp, by simp [Disk.job, hget, hparse]⟩
    case mpr =>
      intro ⟨hv, hf, hp, hjob⟩
      have ⟨content, hget, hparse⟩ := Option.bind_eq_some_iff.mp hjob
      rw [Disk.entry, JobRecord.key, hp] at hget
      exact ⟨(record.jobId ++ dotJson, content), Assoc.mem_of_get hget, rfl, hv, hf, hp, hparse⟩

theorem nodup_readDir : ((readDir fails disk pluginId).map (·.key)).Nodup := by
  rw [readDir]
  split
  case isFalse => simp
  case isTrue  =>
    have hnames := List.pairwise_map.mp <| disk.nodup_files_of pluginId
    rw [List.Nodup, List.pairwise_map, List.pairwise_filterMap]
    apply hnames.imp
    intro f g hne r hr r' hr' hkey
    have hf := (readEntry_iff.mp hr).left
    have hg := (readEntry_iff.mp hr').left
    simp only [JobRecord.key, Prod.mk.injEq] at hkey
    exact hne <| by rw [hf, hg, hkey.right]

-- The records that a scan finds.
def seen (fails : Operation → Bool) (disk : Disk) : List JobRecord :=
  (if fails .readRoot then [] else disk.names).flatMap <| readDir fails disk

-- All records of the directory.
def Disk.jobs (disk : Disk) : List JobRecord :=
  seen (fun _ => false) disk

theorem mem_seen : record ∈ seen fails disk ↔
    record ∈ disk.jobs ∧ fails .readRoot = false ∧ fails (.readdir record.pluginId) = false ∧
      fails (.readFile record.pluginId (record.jobId ++ dotJson)) = false := by
  simp only [Disk.jobs, seen, List.mem_flatMap, mem_readDir, if_false, Bool.false_eq_true, true_and]
  constructor
  case mp =>
    intro ⟨p, hp, hv, hdir, hj, hfile, heq, hjob⟩
    cases hroot : fails .readRoot
    case true  => simp [hroot] at hp
    case false =>
      cases heq
      simp only [hroot, Bool.false_eq_true, if_false] at hp
      exact ⟨⟨_, hp, hv, hj, rfl, hjob⟩, rfl, hdir, hfile⟩
  case mpr =>
    intro ⟨⟨p, hp, hv, hj, heq, hjob⟩, hroot, hdir, hfile⟩
    cases heq
    exact ⟨_, by simpa [hroot] using hp, hv, hdir, hj, hfile, rfl, hjob⟩

theorem nodup_seen : ((seen fails disk).map (·.key)).Nodup := by
  have hnodup : (if fails .readRoot then [] else disk.names).Nodup := by
    split
    case isTrue  => exact List.nodup_nil
    case isFalse => exact disk.nodup
  rw [seen, List.map_flatMap, List.nodup_flatMap]
  constructor
  case left  => exact fun p _ => nodup_readDir
  case right =>
    apply hnodup.imp
    intro p q hne k hp hq
    have ⟨r, hr, hrk⟩ := List.mem_map.mp hp
    have ⟨r', hr', hrk'⟩ := List.mem_map.mp hq
    have hplugin := (mem_readDir.mp hr).right.right.right.right.left
    have hplugin' := (mem_readDir.mp hr').right.right.right.right.left
    apply hne
    calc p = r.key.fst  := hplugin.symm
      _    = r'.key.fst := by rw [hrk, hrk']
      _    = q          := hplugin'

theorem valid_of_mem_readDir (h : record ∈ readDir fails disk pluginId) : valid record.key := by
  have ⟨hp, _, hj, _, heq, _⟩ := mem_readDir.mp h
  exact ⟨by simpa [JobRecord.key, heq] using hp, hj⟩

theorem readDir_congr {disk' : Disk} (h : disk'.files pluginId = disk.files pluginId) :
    readDir fails disk' pluginId = readDir fails disk pluginId := by
  rw [readDir, h, readDir]

end Files

section Runs

variable {fails : Operation → Bool} {options : Options} {timestamp : Int} {disk : Disk} {record : JobRecord}
  {records : List JobRecord} {s : State} {pluginId : Text} {names : List Text}

theorem key_of_advanced (h : advanced timestamp record = some r) : r.key = record.key := by
  rw [advanced] at h
  split at h
  case isTrue  => cases h; rfl
  case isFalse =>
    split at h
    case h_1 => cases h; rfl
    case h_2 =>
      have ⟨_, _, hr⟩ := Option.map_eq_some_iff.mp h
      cases hr
      rfl
    case h_3 => cases h

theorem key_failedRecord : (failedRecord timestamp record error).key = record.key := by
  simp only [failedRecord]
  split <;> rfl

theorem entry_settleDisk_self : (settleDisk timestamp disk record).entry record.key =
    (advanced timestamp record).map (some <| stringify ·) := by
  rw [settleDisk]
  split
  case h_1 r hr => rw [hr, ← key_of_advanced hr, Disk.entry_write_self, Option.map_some]
  case h_2 hr   => rw [hr, Disk.entry_remove_self, Option.map_none]

theorem entry_settleDisk_of_ne (h : k ≠ record.key) :
    (settleDisk timestamp disk record).entry k = disk.entry k := by
  rw [settleDisk]
  split
  case h_1 r hr => exact Disk.entry_write_of_ne <| key_of_advanced hr ▸ h
  case h_2      => exact Disk.entry_remove_of_ne h

theorem files_settle (h : record.pluginId ≠ p) : (settle options timestamp s record).disk.files p = s.disk.files p := by
  have hwrite {d : Disk} {r : JobRecord} (hr : r.key = record.key) : (d.write r).files p = d.files p := by
    have hp : p ≠ r.pluginId := by
      intro hp
      exact h <| (congrArg Prod.fst hr).symm.trans hp.symm
    rw [Disk.files_write, if_neg hp]
  rw [settle]
  split
  case isTrue  => exact hwrite key_failedRecord
  case isFalse =>
    split
    case isFalse => rfl
    case isTrue  =>
      simp only [settleDisk]
      split
      case h_1 r hr => exact hwrite <| key_of_advanced hr
      case h_2      => rw [Disk.files_remove, if_neg fun hp => h hp.symm]

theorem files_foldl_settle (h : ∀ r ∈ records, r.pluginId ≠ p) :
    (records.foldl (settle options timestamp) s).disk.files p = s.disk.files p := by
  induction records generalizing s
  case nil              => rfl
  case cons r records ih =>
    rw [List.foldl_cons, ih fun r hr => h r <| List.mem_cons_of_mem _ hr, files_settle <| h r <| by simp]

theorem entry_settle_of_ne (h : k ≠ record.key) :
    (settle options timestamp s record).disk.entry k = s.disk.entry k := by
  rw [settle]
  split
  case isTrue  => exact Disk.entry_write_of_ne <| by rwa [key_failedRecord]
  case isFalse =>
    split
    case isTrue  => exact entry_settleDisk_of_ne h
    case isFalse => rfl

theorem entry_foldl_settle_of_not_mem (h : k ∉ records.map (·.key)) :
    (records.foldl (settle options timestamp) s).disk.entry k = s.disk.entry k := by
  induction records generalizing s
  case nil              => rfl
  case cons r records ih =>
    simp only [List.map_cons, List.mem_cons, not_or] at h
    rw [List.foldl_cons, ih h.right, entry_settle_of_ne h.left]

-- Each record that is due is left in its own file as it goes on, and no other record touches the file.
theorem entry_foldl_settle (hn : (records.map (·.key)).Nodup) (h : record ∈ records)
    (hdue : record.isDue timestamp) : (records.foldl (settle options timestamp) s).disk.entry record.key =
      (advanced timestamp record).map (some <| stringify ·) := by
  induction records generalizing s
  case nil              => cases h
  case cons r records ih =>
    rw [List.map_cons, List.nodup_cons] at hn
    rw [List.foldl_cons]
    cases h
    case head =>
      rw [entry_foldl_settle_of_not_mem hn.left, settle, if_neg (by simp [not_hasTimedOut_of_isDue hdue]),
        if_pos hdue]
      exact entry_settleDisk_self
    case tail h => exact ih hn.right h

theorem emitted_foldl_settle : (records.foldl (settle options timestamp) s).emitted =
    s.emitted ++ (records.filter (·.isDue timestamp)).map (·.due) := by
  induction records generalizing s
  case nil              => simp
  case cons r records ih =>
    rw [List.foldl_cons, ih, settle]
    cases ht : r.hasTimedOut options timestamp
    case true  => simp [isDue_of_hasTimedOut ht]
    case false => cases hd : r.isDue timestamp <;> simp [hd]

theorem scanPlugin_eq (h : s.disk.files pluginId = disk.files pluginId) :
    scanPlugin fails options timestamp pluginId s =
      (readDir fails disk pluginId).forM (scanRecord fails options timestamp) s := by
  rw [← readDir_congr h]
  rfl

-- What holds of the directories that a scan has still to read.
def Untouched (fails : Operation → Bool) (disk : Disk) (names : List Text) (s : State) : Prop :=
  names.Nodup ∧ ∀ p ∈ names, s.disk.files p = disk.files p

theorem Untouched.step (h : Untouched fails disk (pluginId :: names) s) :
    Untouched fails disk names <| (readDir fails disk pluginId).foldl (settle options timestamp) s := by
  have ⟨hn, hfiles⟩ := h
  rw [List.nodup_cons] at hn
  constructor
  case left  => exact hn.right
  case right =>
    intro p hp
    rw [files_foldl_settle, hfiles p <| List.mem_cons_of_mem _ hp]
    intro r hr heq
    have hplugin := (mem_readDir.mp hr).right.right.right.right.left
    exact hn.left <| hplugin.symm.trans heq ▸ hp

theorem scanRecords_ok (hv : ∀ r ∈ records, valid r.key)
    (h : ∀ r ∈ records, stops fails options timestamp r = false) :
    records.forM (scanRecord fails options timestamp) s =
      .ok ⟨⟩ (records.foldl (settle options timestamp) s) := by
  apply Loops.forM_ok (I := fun l _ => ∀ r ∈ l, valid r.key ∧ stops fails options timestamp r = false)
  case h  =>
    intro r l s hr
    exact ⟨scanRecord_ok (hr r <| by simp).left (hr r <| by simp).right,
      fun r' hr' => hr r' <| List.mem_cons_of_mem _ hr'⟩
  case hs => exact fun r hr => ⟨hv r hr, h r hr⟩

theorem scanRecords_error (hv : ∀ r ∈ records, valid r.key)
    (h : ∃ r ∈ records, stops fails options timestamp r) :
    ∃ e s', records.forM (scanRecord fails options timestamp) s = .error e s' := by
  apply Loops.forM_error (g := settle options timestamp) (I := fun l _ => ∀ r ∈ l, valid r.key)
    (B := fun r => stops fails options timestamp r)
  case h    =>
    intro r l s hr hok
    exact ⟨scanRecord_ok (hr r <| by simp) <| Bool.eq_false_iff.mpr hok,
      fun r' hr' => hr r' <| List.mem_cons_of_mem _ hr'⟩
  case hbad => exact fun r l s _ hbad => scanRecord_error hbad
  case hs   => exact hv
  case ha   => exact h

theorem scanPlugin_ok (hs : s.disk.files pluginId = disk.files pluginId)
    (h : ∀ r ∈ readDir fails disk pluginId, stops fails options timestamp r = false) :
    scanPlugin fails options timestamp pluginId s =
      .ok ⟨⟩ ((readDir fails disk pluginId).foldl (settle options timestamp) s) := by
  rw [scanPlugin_eq hs]
  exact scanRecords_ok (fun _ hr => valid_of_mem_readDir hr) h

theorem scanPlugins_ok (hs : Untouched fails disk names s)
    (h : ∀ r ∈ names.flatMap (readDir fails disk), stops fails options timestamp r = false) :
    names.forM (scanPlugin fails options timestamp) s =
      .ok ⟨⟩ ((names.flatMap (readDir fails disk)).foldl (settle options timestamp) s) := by
  rw [List.foldl_flatMap]
  apply Loops.forM_ok (I := fun l s => Untouched fails disk l s ∧
    ∀ p ∈ l, ∀ r ∈ readDir fails disk p, stops fails options timestamp r = false)
  case h  =>
    intro p l s ⟨hl, hok⟩
    exact ⟨scanPlugin_ok (hl.right p <| by simp) <| hok p <| by simp,
      hl.step, fun q hq => hok q <| List.mem_cons_of_mem _ hq⟩
  case hs => exact ⟨hs, fun p hp r hr => h r <| List.mem_flatMap.mpr ⟨p, hp, hr⟩⟩

theorem scanPlugins_error (hs : Untouched fails disk names s)
    (h : ∃ r ∈ names.flatMap (readDir fails disk), stops fails options timestamp r) :
    ∃ e s', names.forM (scanPlugin fails options timestamp) s = .error e s' := by
  apply Loops.forM_error (I := Untouched fails disk)
    (g := fun s p => (readDir fails disk p).foldl (settle options timestamp) s)
    (B := fun p => ∃ r ∈ readDir fails disk p, stops fails options timestamp r)
  case h    =>
    intro p l s hl hok
    refine ⟨scanPlugin_ok (hl.right p <| by simp) fun r hr => ?_, hl.step⟩
    exact Bool.eq_false_iff.mpr fun hstops => hok ⟨r, hr, hstops⟩
  case hbad =>
    intro p l s hl hbad
    rw [scanPlugin_eq <| hl.right p <| by simp]
    exact scanRecords_error (fun _ hr => valid_of_mem_readDir hr) hbad
  case hs   => exact hs
  case ha   =>
    have ⟨r, hr, hstops⟩ := h
    have ⟨p, hp, hmem⟩ := List.mem_flatMap.mp hr
    exact ⟨p, hp, r, hmem, hstops⟩

end Runs

section Scans

variable (fails : Operation → Bool) (options : Options) (timestamp : Int) (disk : Disk)

-- A scan that no other one overlaps: how it ends, and the state that it leaves.
def scan : Option ScanError × State :=
  match scanOnce fails options timestamp { disk } with
  | .ok _ s    => (none, s)
  | .error e s => (some e, s)

variable {fails options timestamp disk}

theorem scan_eq : scan fails options timestamp disk =
    match (if fails .readRoot then [] else disk.names).forM (scanPlugin fails options timestamp)
        { disk, scanning := true } with
    | .ok _ s    => (none, { s with scanning := false })
    | .error e s => (some e, { s with scanning := false }) := by
  simp only [scan, scanOnce, bind, EStateM.bind, get, getThe, MonadStateOf.get, EStateM.get, Bool.false_eq_true,
    if_false, modify, modifyGet, MonadStateOf.modifyGet, EStateM.modifyGet, tryFinally, MonadFinally.tryFinally',
    Functor.map, EStateM.map]
  cases (if fails .readRoot then [] else disk.names).forM (scanPlugin fails options timestamp)
    { disk, scanning := true } <;> rfl

theorem untouched : Untouched fails disk (if fails .readRoot then [] else disk.names) { disk, scanning := true } := by
  constructor
  case left  =>
    split
    case isTrue  => exact List.nodup_nil
    case isFalse => exact disk.nodup
  case right => exact fun _ _ => rfl

theorem scan_of_not_stops (h : ∀ r ∈ seen fails disk, stops fails options timestamp r = false) :
    scan fails options timestamp disk =
      (none, { (seen fails disk).foldl (settle options timestamp) { disk, scanning := true } with
        scanning := false }) := by
  rw [scan_eq, scanPlugins_ok untouched h, seen]

theorem scan_of_stops (h : ∃ r ∈ seen fails disk, stops fails options timestamp r) :
    ∃ e s, scan fails options timestamp disk = (some e, s) := by
  have ⟨e, s, hrun⟩ := scanPlugins_error untouched h
  exact ⟨e, { s with scanning := false }, by rw [scan_eq, hrun]⟩

end Scans

section Isolation

variable (fails : Operation → Bool) (options : Options) (timestamp : Int) (disk : Disk)

-- What a job has come to be once it has been dispatched: its file has gone or is no record any more, it awaits
-- an ack, or it waits for the next time that its interval or its cron gives.
inductive Settled (timestamp : Int) (before : JobRecord) : Option JobRecord → Prop
  | gone : Settled timestamp before none
  | held (h : after.dispatchAt = some (.ofInt timestamp)) : Settled timestamp before (some after)
  | interval (hi : before.intervalMs = some intervalMs)
      (h : after.nextRunAt =
        .max (before.nextRunAt.add intervalMs) ((Number.ofInt timestamp).add intervalMs)) :
      Settled timestamp before (some after)
  | cron (hc : before.cron = some cron) (hn : nextOf timestamp cron = .ok time) (hlt : timestamp < time)
      (h : after.nextRunAt = .ofInt time) : Settled timestamp before (some after)

-- A job of whose own operations one fails, among them the computation of its next time.
def failing (record : JobRecord) : Bool :=
  fails (.readFile record.pluginId <| record.jobId ++ dotJson) || stops fails options timestamp record

-- The jobs that the scan dispatches, one entry for each time that it does.
def dispatches : List Key :=
  (scan fails options timestamp disk).snd.emitted.map JobDuePayload.key

-- One bad job does not stop the others.
structure Isolated : Prop where
  resolves   : (scan fails options timestamp disk).fst = none
  dispatched : ∀ record ∈ disk.jobs, record.isDue timestamp → failing fails options timestamp record = false →
    (dispatches fails options timestamp disk).count record.key = 1
  settled    : ∀ record ∈ disk.jobs, record.key ∈ dispatches fails options timestamp disk →
    Settled timestamp record ((scan fails options timestamp disk).snd.disk.job record.key)

-- No job stops the scan that it finds, and no listing that fails hides a job that is due.
structure Harmless : Prop where
  goes_on : ∀ record ∈ seen fails disk, stops fails options timestamp record = false
  listed  : ∀ record ∈ disk.jobs, record.isDue timestamp → failing fails options timestamp record = false →
    fails .readRoot = false ∧ fails (.readdir record.pluginId) = false

variable {fails options timestamp disk}

theorem settled_advanced {record : JobRecord} :
    Settled timestamp record (((advanced timestamp record).map (some <| stringify ·)).bind parseRecord) := by
  cases hafter : ((advanced timestamp record).map (some <| stringify ·)).bind parseRecord
  case none       => exact .gone
  case some after =>
    have ⟨_, hmap, hparse⟩ := Option.bind_eq_some_iff.mp hafter
    have ⟨r, hr, heq⟩ := Option.map_eq_some_iff.mp hmap
    cases heq
    have hnext := nextRunAt_of_parse hparse
    rw [advanced] at hr
    split at hr
    case isTrue =>
      cases hr
      exact .held <| dispatchAt_of_parse hparse rfl
    case isFalse =>
      split at hr
      case h_1 intervalMs cron hi =>
        cases hr
        exact .interval hi hnext
      case h_2 cron hi hc =>
        have ⟨time, htime, heq⟩ := Option.map_eq_some_iff.mp hr
        cases heq
        have hn : nextOf timestamp cron = .ok time := by
          cases hn : nextOf timestamp cron
          case ok t    => simpa [hn, Except.toOption] using htime
          case error e => simp [hn, Except.toOption] at htime
        exact .cron hc hn (lt_of_nextOf hn) hnext
      case h_3 => cases hr

theorem dispatches_eq (h : ∀ r ∈ seen fails disk, stops fails options timestamp r = false) :
    dispatches fails options timestamp disk =
      ((seen fails disk).filter (·.isDue timestamp)).map (·.key) := by
  rw [dispatches, scan_of_not_stops h, emitted_foldl_settle]
  simp [Function.comp_def, JobRecord.due, JobDuePayload.key, JobRecord.key]

theorem mem_seen_of_dispatched (h : ∀ r ∈ seen fails disk, stops fails options timestamp r = false)
    (hk : k ∈ dispatches fails options timestamp disk) :
    ∃ record ∈ seen fails disk, record.isDue timestamp ∧ record.key = k := by
  rw [dispatches_eq h, List.mem_map] at hk
  have ⟨record, hmem, hkey⟩ := hk
  have ⟨hseen, hdue⟩ := List.mem_filter.mp hmem
  exact ⟨record, hseen, hdue, hkey⟩

theorem Harmless.dispatched (h : Harmless fails options timestamp disk) (hr : record ∈ disk.jobs)
    (hdue : record.isDue timestamp) (hok : failing fails options timestamp record = false) :
    (dispatches fails options timestamp disk).count record.key = 1 := by
  have hlisted := h.listed record hr hdue hok
  simp only [failing, Bool.or_eq_false_iff] at hok
  have hseen := mem_seen.mpr ⟨hr, hlisted.left, hlisted.right, hok.left⟩
  rw [dispatches_eq h.goes_on]
  apply List.count_eq_one_of_mem
  case d => exact (List.filter_sublist.map _).nodup nodup_seen
  case h => exact List.mem_map_of_mem <| List.mem_filter.mpr ⟨hseen, hdue⟩

theorem eq_of_key_eq (hr : r ∈ disk.jobs) (hr' : r' ∈ disk.jobs) (h : r.key = r'.key) : r = r' :=
  List.inj_on_of_nodup_map nodup_seen hr hr' h

theorem Harmless.settled (h : Harmless fails options timestamp disk) (hr : record ∈ disk.jobs)
    (hk : record.key ∈ dispatches fails options timestamp disk) :
    Settled timestamp record ((scan fails options timestamp disk).snd.disk.job record.key) := by
  have ⟨r, hseen, hdue, hkey⟩ := mem_seen_of_dispatched h.goes_on hk
  cases eq_of_key_eq (mem_seen.mp hseen).left hr hkey
  rw [scan_of_not_stops h.goes_on, Disk.job]
  simp only [entry_foldl_settle nodup_seen hseen hdue]
  exact settled_advanced

theorem goes_on_of_isolated (h : Isolated fails options timestamp disk) :
    ∀ record ∈ seen fails disk, stops fails options timestamp record = false := by
  intro record hr
  cases hs : stops fails options timestamp record
  case false => rfl
  case true  =>
    have ⟨e, s, hrun⟩ := scan_of_stops ⟨record, hr, hs⟩
    have hend := h.resolves
    simp [hrun] at hend

theorem isolated_iff : Isolated fails options timestamp disk ↔ Harmless fails options timestamp disk := by
  constructor
  case mpr =>
    intro h
    exact {
      resolves   := by rw [scan_of_not_stops h.goes_on]
      dispatched := fun _ hr hdue hok => h.dispatched hr hdue hok
      settled    := fun _ hr hk => h.settled hr hk
    }
  case mp =>
    intro h
    have hok := goes_on_of_isolated h
    refine ⟨hok, fun record hr hdue hfine => ?_⟩
    have hmem : record.key ∈ dispatches fails options timestamp disk :=
      List.count_pos_iff.mp <| by simp [h.dispatched record hr hdue hfine]
    -- What is dispatched has been found, so that no listing has failed.
    have ⟨r, hseen, _, hkey⟩ := mem_seen_of_dispatched hok hmem
    have ⟨hjob, hroot, hdir, _⟩ := mem_seen.mp hseen
    cases eq_of_key_eq hjob hr hkey
    exact ⟨hroot, hdir⟩

end Isolation

section Example

private def jobFile (pluginId jobId : String) (fields : List (String × Json)) : Text × Option Json :=
  (.ofString jobId ++ dotJson, some <| .object <| [
    ("jobId", .string <| .ofString jobId), ("pluginId", .string <| .ofString pluginId),
    ("name", .string <| .ofString "job"), ("nextRunAt", .number <| .ofInt 0), ("runCount", .number <| .ofInt 0),
    ("createdAt", .number <| .ofInt 0)
  ].map (fun f => (CodeUnits.ofString f.fst, f.snd)) ++ fields.map fun f => (CodeUnits.ofString f.fst, f.snd))

private def february : Disk where
  folders     := [
    (.ofString "a", [jobFile "a" "cron" [("cron", .string <| .ofString "0 0 31")]]),
    (.ofString "b", [jobFile "b" "once" []])
  ]
  nodup       := by decide +kernel
  nodup_files := by decide +kernel

private def noFailure : Operation → Bool :=
  fun _ => false

-- The job whose cron does not parse is dispatched by one scan after the other, and the job of the other plugin by
-- none.
theorem bad_cron_stops_others : ¬Isolated noFailure {} 1000 february ∧
    dispatches noFailure {} 1000 february = [(.ofString "a", .ofString "cron")] ∧
    dispatches noFailure {} 2000 (scan noFailure {} 1000 february).snd.disk =
      [(.ofString "a", .ofString "cron")] := by
  have hend : (scan noFailure {} 1000 february).fst = some (.cron <| .fieldCount 3) := by decide +kernel
  constructor
  case left  =>
    intro h
    have hnone := h.resolves
    rw [hend] at hnone
    cases hnone
  case right => decide +kernel

end Example
end JobScan
