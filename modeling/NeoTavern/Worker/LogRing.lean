import NeoTavern.Lib.Runs

namespace Console

inductive Level
  | debug
  | log
  | info
  | warn
  | error
  | trace
  deriving DecidableEq

-- A record of the ring, with the time of its first call and how many calls it stands for.
structure Record where
  level    : Level
  message  : String
  loggedAt : Int
  count    : Nat := 1
  deriving DecidableEq

structure LogRing where
  records      : List Record := []
  bytes        : Nat := 0
  droppedCount : Nat := 0
  deriving DecidableEq

structure Payload where
  seq          : Nat
  droppedCount : Nat
  records      : List Record
  deriving DecidableEq

-- The sink of a worker, with the batches that it has posted.
structure Sink where
  logRing : LogRing := {}
  credits : Nat := 8
  logSeq  : Nat := 0
  posted  : List Payload := []
  deriving DecidableEq

inductive Event
  | emitConsole (level : Level) (message : String) (now : Int)
  | flush (force : Bool)
  | ack
  deriving DecidableEq

def logBatchMaxBytes := 16 * 1024
def logBatchMaxRecords := 256
def consoleRingBytes := 64 * 1024
def consoleRecordOverheadBytes := 96
def consoleFlushThresholdBytes := 4 * 1024
def consoleLogMaxCredits := 64
def maxCoalescedCount := 1000000

section Wire

def Level.text : Level → String
  | .debug => "debug"
  | .log   => "log"
  | .info  => "info"
  | .warn  => "warn"
  | .error => "error"
  | .trace => "trace"

-- The bytes of a character in a text of JSON.
def escapedLength (c : Char) : Nat :=
  if c.toNat ∈ [8, 9, 10, 12, 13, 34, 92] then
    2
  else if c.toNat < 32 then
    6
  else
    c.utf8Size

def jsonLength (s : String) : Nat :=
  2 + (s.toList.map escapedLength).sum

def digits (n : Int) : Nat :=
  (toString n).length

-- The bytes of a list of JSON without its brackets.
def joinedLength : List Nat → Nat
  | []      => 0
  | [n]     => n
  | n :: ns => n + 1 + joinedLength ns

def Record.jsonLength (r : Record) : Nat :=
  "\x7b\"level\":,\"message\":,\"at\":\x7d".length + (2 + r.level.text.length) +
    Console.jsonLength r.message + digits r.loggedAt +
      if r.count = 1 then 0 else ",\"count\":".length + digits r.count

def Payload.byteLength (p : Payload) : Nat :=
  "\x7b\"seq\":,\"droppedCount\":,\"records\":[]\x7d".length + digits p.seq + digits p.droppedCount +
    joinedLength (p.records.map Record.jsonLength)

end Wire

def recordCost (message : String) : Nat :=
  jsonLength message + consoleRecordOverheadBytes

namespace LogRing

-- Whether a call is one more of the last record.
def Coalesces (last : Record) (level : Level) (message : String) : Bool :=
  last.level = level && last.message = message && last.count < maxCoalescedCount

def push (s : LogRing) (level : Level) (message : String) (loggedAt : Int) : LogRing :=
  match s.records.getLast? with
  | some last =>
    if Coalesces last level message then
      { s with records := s.records.dropLast ++ [{ last with count := last.count + 1 }] }
    else
      append s
  | none => append s
where
  append (s : LogRing) : LogRing :=
    if s.bytes + recordCost message > consoleRingBytes then
      { s with droppedCount := s.droppedCount + 1 }
    else { s with
      records := s.records ++ [{ level, message, loggedAt }]
      bytes   := s.bytes + recordCost message
    }

-- How many records go into a batch that has `out` records and `outBytes` bytes so far.
def batchLength (maxRecords maxBytes : Nat) (out outBytes : Nat) : List Record → Nat
  | []           => 0
  | next :: rest =>
    if out < maxRecords && !(outBytes + recordCost next.message > maxBytes && out > 0) then
      1 + batchLength maxRecords maxBytes (out + 1) (outBytes + recordCost next.message) rest
    else
      0

def cost (records : List Record) : Nat :=
  (records.map fun r => recordCost r.message).sum

def drain (s : LogRing) (maxRecords maxBytes : Nat) : List Record × LogRing :=
  let n := batchLength maxRecords maxBytes 0 0 s.records
  (s.records.take n, { s with
    records := s.records.drop n
    bytes   := s.bytes - cost (s.records.take n)
  })

def countDropped (s : LogRing) (additional : Nat) : LogRing :=
  { s with droppedCount := s.droppedCount + additional }

end LogRing

namespace Sink

-- The batch that a flush would post now.
def batch (s : Sink) : Payload where
  seq          := s.logSeq
  droppedCount := s.logRing.droppedCount
  records      := (s.logRing.drain logBatchMaxRecords (logBatchMaxBytes - 512)).fst

def flushes (s : Sink) (force : Bool) : Bool :=
  !s.logRing.records.isEmpty && (force || s.credits > 0) && !s.batch.records.isEmpty

def fits (s : Sink) : Bool :=
  s.batch.byteLength ≤ logBatchMaxBytes

def flushLogBatch (s : Sink) (force : Bool) : Sink :=
  if s.flushes force then
    let logRing := (s.logRing.drain logBatchMaxRecords (logBatchMaxBytes - 512)).snd
    if s.fits then { s with
      logRing
      logSeq  := s.logSeq + 1
      credits := if force then s.credits else s.credits - 1
      posted  := s.posted ++ [s.batch]
    } else { s with
      logRing := logRing.countDropped s.batch.records.length
      logSeq  := s.logSeq + 1
    }
  else
    s

def emitConsole (s : Sink) (level : Level) (message : String) (now : Int) : Sink :=
  let s := { s with logRing := s.logRing.push level message now }
  if s.logRing.bytes ≥ consoleFlushThresholdBytes then s.flushLogBatch false else s

def ack (s : Sink) : Sink :=
  { s with credits := min consoleLogMaxCredits (s.credits + 1) }.flushLogBatch false

def step (s : Sink) : Event → Sink
  | .emitConsole level message now => s.emitConsole level message now
  | .flush force                   => s.flushLogBatch force
  | .ack                           => s.ack

end Sink
end Console

namespace Console

-- How many calls some records stand for.
def counts (records : List Record) : Nat :=
  (records.map Record.count).sum

@[simp]
theorem counts_append (xs ys : List Record) : counts (xs ++ ys) = counts xs + counts ys := by
  simp [counts]

theorem length_le_counts {records : List Record} (h : ∀ r ∈ records, 0 < r.count) :
    records.length ≤ counts records := by
  induction records
  case nil => exact Nat.le_refl _
  case cons r records ih =>
    have hr := h r List.mem_cons_self
    have hrest := ih fun x hx => h x <| List.mem_cons_of_mem _ hx
    simp only [counts, List.map_cons, List.sum_cons, List.length_cons] at hrest ⊢
    omega

theorem counts_eq_length_iff {records : List Record} (h : ∀ r ∈ records, 0 < r.count) :
    counts records = records.length ↔ ∀ r ∈ records, r.count = 1 := by
  induction records
  case nil => exact iff_of_true rfl nofun
  case cons r records ih =>
    have hr := h r List.mem_cons_self
    have hall : ∀ x ∈ records, 0 < x.count := fun x hx => h x <| List.mem_cons_of_mem _ hx
    have hle := length_le_counts hall
    have hcons : counts (r :: records) = r.count + counts records := by simp [counts]
    rw [List.forall_mem_cons, ← ih hall, hcons, List.length_cons]
    omega

namespace LogRing

variable {s : LogRing} {level : Level} {message : String} {now : Int}

@[simp]
theorem cost_append (xs ys : List Record) : cost (xs ++ ys) = cost xs + cost ys := by
  simp [cost]

-- The bytes are those of the records, within the budget, and each record stands for a call.
structure Sound (s : LogRing) : Prop where
  bytes  : s.bytes = cost s.records
  budget : s.bytes ≤ consoleRingBytes
  counts : ∀ r ∈ s.records, 0 < r.count

def total (s : LogRing) : Nat :=
  counts s.records + s.droppedCount

theorem push_cases (s : LogRing) (level : Level) (message : String) (now : Int) :
    (∃ records last, s.records = records ++ [last] ∧ s.push level message now =
      { s with records := records ++ [{ last with count := last.count + 1 }] }) ∨
    s.push level message now = { s with droppedCount := s.droppedCount + 1 } ∨
    (s.bytes + recordCost message ≤ consoleRingBytes ∧ s.push level message now = { s with
      records := s.records ++ [{ level, message, loggedAt := now }]
      bytes   := s.bytes + recordCost message
    }) := by
  have happend : push.append level message now s = { s with droppedCount := s.droppedCount + 1 } ∨
      (s.bytes + recordCost message ≤ consoleRingBytes ∧ push.append level message now s = { s with
        records := s.records ++ [{ level, message, loggedAt := now }]
        bytes   := s.bytes + recordCost message
      }) := by
    unfold push.append
    split
    case isTrue    => exact .inl rfl
    case isFalse h => exact .inr ⟨Nat.le_of_not_lt h, rfl⟩
  unfold push
  split
  case h_2 => exact .inr happend
  case h_1 last hlast =>
    split
    case isFalse => exact .inr happend
    case isTrue  =>
      have ⟨records, hrecords⟩ := List.getLast?_eq_some_iff.mp hlast
      refine .inl ⟨records, last, hrecords, ?_⟩
      rw [hrecords, List.dropLast_concat]

theorem total_push : (s.push level message now).total = s.total + 1 := by
  rcases push_cases s level message now with ⟨records, last, hrecords, heq⟩ | heq | ⟨_, heq⟩
  · rw [heq, total, total, hrecords, counts_append, counts_append]
    simp only [counts, List.map_cons, List.map_nil, List.sum_cons, List.sum_nil]
    omega
  · rw [heq, total, total]
    exact (Nat.add_assoc ..).symm
  · rw [heq, total, total, counts_append]
    simp only [counts, List.map_cons, List.map_nil, List.sum_cons, List.sum_nil]
    omega

theorem Sound.push (h : s.Sound) : (s.push level message now).Sound := by
  rcases push_cases s level message now with ⟨records, last, hrecords, heq⟩ | heq | ⟨hbudget, heq⟩
  · rw [heq]
    refine ⟨?_, h.budget, fun r hr => ?_⟩
    · rw [h.bytes, hrecords, cost_append, cost_append]
      rfl
    · rcases List.mem_append.mp hr with hr | hr
      · exact h.counts r <| hrecords ▸ List.mem_append_left _ hr
      · rw [List.mem_singleton.mp hr]
        exact Nat.succ_pos _
  · rw [heq]
    exact ⟨h.bytes, h.budget, h.counts⟩
  · rw [heq]
    refine ⟨?_, hbudget, fun r hr => ?_⟩
    · rw [cost_append, h.bytes]
      rfl
    · rcases List.mem_append.mp hr with hr | hr
      · exact h.counts r hr
      · rw [List.mem_singleton.mp hr]
        exact Nat.one_pos

theorem drain_append (s : LogRing) (maxRecords maxBytes : Nat) :
    (s.drain maxRecords maxBytes).fst ++ (s.drain maxRecords maxBytes).snd.records = s.records :=
  List.take_append_drop ..

theorem Sound.drain (h : s.Sound) (maxRecords maxBytes : Nat) :
    (s.drain maxRecords maxBytes).snd.Sound := by
  have hsplit := congrArg cost <| s.drain_append maxRecords maxBytes
  have hbytes := h.bytes
  have hbudget := h.budget
  rw [cost_append] at hsplit
  have hrest : (s.drain maxRecords maxBytes).snd.bytes =
    s.bytes - cost (s.drain maxRecords maxBytes).fst := rfl
  refine ⟨by omega, by omega, fun r hr => ?_⟩
  have := s.drain_append maxRecords maxBytes
  exact h.counts r <| this ▸ List.mem_append_right _ hr

end LogRing

namespace Sink

variable {s : Sink} {e : Event} {force : Bool}

def reported (s : Sink) : Nat :=
  (s.posted.map Payload.droppedCount).sum

-- How many calls the sink can tell of.
def total (s : Sink) : Nat :=
  (s.posted.map fun p => counts p.records).sum + s.logRing.total

-- What always holds of the sink.
structure Sound (s : Sink) : Prop where
  ring   : s.logRing.Sound
  posted : ∀ p ∈ s.posted, p.byteLength ≤ logBatchMaxBytes

theorem flushLogBatch_cases (s : Sink) (force : Bool) :
    (s.flushes force = false ∧ s.flushLogBatch force = s) ∨
    (s.flushes force ∧ s.fits ∧ ∃ credits, s.flushLogBatch force = { s with
      logRing := (s.logRing.drain logBatchMaxRecords (logBatchMaxBytes - 512)).snd
      logSeq  := s.logSeq + 1
      credits
      posted  := s.posted ++ [s.batch]
    }) ∨
    (s.flushes force ∧ s.fits = false ∧ s.flushLogBatch force = { s with
      logRing := (s.logRing.drain logBatchMaxRecords (logBatchMaxBytes - 512)).snd.countDropped
        s.batch.records.length
      logSeq  := s.logSeq + 1
    }) := by
  unfold flushLogBatch
  split
  case isFalse h => exact .inl ⟨Bool.eq_false_iff.mpr h, rfl⟩
  case isTrue h  =>
    dsimp only
    split
    case isTrue hf  => exact .inr <| .inl ⟨h, hf, _, rfl⟩
    case isFalse hf => exact .inr <| .inr ⟨h, Bool.eq_false_iff.mpr hf, rfl⟩

theorem Sound.flushLogBatch (h : s.Sound) : (s.flushLogBatch force).Sound := by
  rcases flushLogBatch_cases s force with ⟨_, heq⟩ | ⟨_, hfits, credits, heq⟩ | ⟨_, _, heq⟩
  · rwa [heq]
  · rw [heq]
    refine ⟨h.ring.drain .., fun p hp => ?_⟩
    rcases List.mem_append.mp hp with hp | hp
    · exact h.posted p hp
    · rw [List.mem_singleton.mp hp]
      exact of_decide_eq_true hfits
  · rw [heq]
    have hd := h.ring.drain logBatchMaxRecords (logBatchMaxBytes - 512)
    exact ⟨⟨hd.bytes, hd.budget, hd.counts⟩, h.posted⟩

-- What a flush may not do: report drops once more, or lose count of coalesced calls.
def Careful (s : Sink) (force : Bool) : Prop :=
  s.flushes force → if s.fits then ∀ p ∈ s.posted, p.droppedCount = 0
    else ∀ r ∈ s.batch.records, r.count = 1

-- Whether the sink tells of `calls` calls, and each drop that it reports is reported once.
structure Tells (s : Sink) (calls : Nat) : Prop where
  total    : calls = s.total
  reported : s.reported = (s.posted.getLast?.map Payload.droppedCount).getD 0

theorem tells_flush_iff {calls : Nat} (force : Bool) (h : s.Sound) (ht : s.Tells calls) :
    (s.flushLogBatch force).Tells calls ↔ s.Careful force := by
  have hsplit : counts s.batch.records +
      counts (s.logRing.drain logBatchMaxRecords (logBatchMaxBytes - 512)).snd.records =
        counts s.logRing.records := by
    rw [← counts_append]
    exact congrArg counts <| s.logRing.drain_append ..
  have htotal := ht.total
  simp only [total, LogRing.total] at htotal
  rcases flushLogBatch_cases s force with ⟨hno, heq⟩ | ⟨hyes, hfits, credits, heq⟩ | ⟨hyes, hfits, heq⟩
  · rw [heq]
    refine iff_of_true ht fun h => ?_
    rw [hno] at h
    cases h
  · have hcareful : s.Careful force ↔ s.reported = 0 := by
      rw [Careful, if_pos hfits, reported, List.sum_eq_zero_iff_forall_eq_nat]
      simp [hyes]
    rw [hcareful, heq]
    constructor
    · intro h
      have := h.reported
      simp only [reported, List.map_append, List.sum_append, List.getLast?_concat,
        Option.map_some, Option.getD_some, List.map_cons, List.map_nil, List.sum_cons,
        List.sum_nil] at this ⊢
      omega
    · intro hzero
      constructor
      case total =>
        simp only [total, LogRing.total, List.map_append, List.sum_append, List.map_cons,
          List.map_nil, List.sum_cons, List.sum_nil]
        have : (s.logRing.drain logBatchMaxRecords (logBatchMaxBytes - 512)).snd.droppedCount =
          s.logRing.droppedCount := rfl
        omega
      case reported =>
        simp only [reported] at hzero
        simp only [reported, List.map_append, List.sum_append, List.getLast?_concat,
          Option.map_some, Option.getD_some, List.map_cons, List.map_nil, List.sum_cons,
          List.sum_nil]
        omega
  · have hcounts : ∀ r ∈ s.batch.records, 0 < r.count := fun r hr =>
      h.ring.counts r <| List.mem_of_mem_take hr
    have hcareful : s.Careful force ↔ counts s.batch.records = s.batch.records.length := by
      rw [Careful, if_neg (by simp [hfits]), counts_eq_length_iff hcounts]
      simp [hyes]
    rw [hcareful, heq]
    have hdropped : ((s.logRing.drain logBatchMaxRecords (logBatchMaxBytes - 512)).snd.countDropped
        s.batch.records.length).droppedCount = s.logRing.droppedCount + s.batch.records.length := rfl
    have hrecords : ((s.logRing.drain logBatchMaxRecords (logBatchMaxBytes - 512)).snd.countDropped
        s.batch.records.length).records =
          (s.logRing.drain logBatchMaxRecords (logBatchMaxBytes - 512)).snd.records := rfl
    constructor
    · intro h
      have := h.total
      simp only [total, LogRing.total, hdropped, hrecords] at this
      omega
    · intro hlen
      refine ⟨?_, ht.reported⟩
      simp only [total, LogRing.total, hdropped, hrecords]
      omega

-- The sink at which an event flushes, if it does.
def flushing (s : Sink) : Event → Option (Sink × Bool)
  | .emitConsole level message now =>
    let s := { s with logRing := s.logRing.push level message now }
    if s.logRing.bytes ≥ consoleFlushThresholdBytes then some (s, false) else none
  | .flush force => some (s, force)
  | .ack         => some ({ s with credits := min consoleLogMaxCredits (s.credits + 1) }, false)

def Clear (s : Sink) (e : Event) : Prop :=
  ∀ t ∈ s.flushing e, t.fst.Careful t.snd

theorem Sound.push {level : Level} {message : String} {now : Int} (h : s.Sound) :
    Sound { s with logRing := s.logRing.push level message now } :=
  ⟨h.ring.push, h.posted⟩

theorem Sound.step (h : s.Sound) : (s.step e).Sound := by
  cases e
  case flush => exact h.flushLogBatch
  case ack   =>
    have h' : Sound { s with credits := min consoleLogMaxCredits (s.credits + 1) } := ⟨h.ring, h.posted⟩
    exact h'.flushLogBatch
  case emitConsole =>
    unfold Sink.step emitConsole
    dsimp only
    split
    · exact h.push.flushLogBatch
    · exact h.push

end Sink

-- The sink, and how many calls it has been given.
structure Accounts where
  sink  : Sink := {}
  calls : Nat := 0

namespace Accounts

variable {a : Accounts} {e : Event}

def step (a : Accounts) (e : Event) : Accounts where
  sink  := a.sink.step e
  calls := a.calls + match e with
    | .emitConsole .. => 1
    | _               => 0

-- The calls are those of the posted batches, those of the ring and those that were dropped; the
-- drops reported so far are each in one batch; and the ring and the batches keep to their bounds.
structure Balanced (a : Accounts) : Prop where
  tells  : a.sink.Tells a.calls
  bytes  : a.sink.logRing.bytes = LogRing.cost a.sink.logRing.records
  budget : a.sink.logRing.bytes ≤ consoleRingBytes
  posted : ∀ p ∈ a.sink.posted, p.byteLength ≤ logBatchMaxBytes

theorem balanced_iff (h : a.sink.Sound) : a.Balanced ↔ a.sink.Tells a.calls :=
  ⟨Balanced.tells, fun ht => ⟨ht, h.ring.bytes, h.ring.budget, h.posted⟩⟩

theorem tells_step_iff (h : a.sink.Sound) (ht : a.sink.Tells a.calls) :
    (a.step e).sink.Tells (a.step e).calls ↔ a.sink.Clear e := by
  cases e
  case flush force =>
    have := Sink.tells_flush_iff force h ht
    simpa [step, Sink.step, Sink.Clear, Sink.flushing] using this
  case ack =>
    have h' : Sink.Sound { a.sink with credits := min consoleLogMaxCredits (a.sink.credits + 1) } :=
      ⟨h.ring, h.posted⟩
    have := Sink.tells_flush_iff false h' ⟨ht.total, ht.reported⟩
    simpa [step, Sink.step, Sink.ack, Sink.Clear, Sink.flushing] using this
  case emitConsole level message now =>
    have htells : Sink.Tells { a.sink with logRing := a.sink.logRing.push level message now }
        (a.calls + 1) := by
      refine ⟨?_, ht.reported⟩
      rw [ht.total, Sink.total, Sink.total, LogRing.total_push]
      rfl
    simp only [step, Sink.step, Sink.emitConsole, Sink.Clear, Sink.flushing]
    split
    · have := Sink.tells_flush_iff false h.push htells
      simpa using this
    · exact iff_of_true htells (by simp)

-- The calls are all accounted for in every state of a run if and only if no batch is posted after
-- one that reported drops, and no coalesced record is in a batch that is too large to be posted.
theorem balanced_throughout_iff (es : List Event) :
    Runs.Throughout step Balanced {} es ↔ Runs.Meets step (fun a e => a.sink.Clear e) {} es := by
  have hsound : Sink.Sound {} := ⟨⟨rfl, Nat.zero_le _, nofun⟩, nofun⟩
  have hinv (a : Accounts) e (h : a.sink.Sound) : (a.step e).sink.Sound := h.step
  refine Runs.throughout_iff_meets hinv (fun a e h hb => ?_) hsound ?_
  · rw [balanced_iff (hinv a e h)]
    exact tells_step_iff h hb.tells
  · exact (balanced_iff hsound).mpr ⟨rfl, rfl⟩

section Sample

theorem sum_repeated (f : Char → Nat) (n : Nat) (xs : List Char) :
    ((List.replicate n xs).flatten.map f).sum = n * (xs.map f).sum := by
  induction n
  case zero      => simp
  case succ n ih =>
    rw [List.replicate_succ, List.flatten_cons, List.map_append, List.sum_append, ih, Nat.succ_mul,
      Nat.add_comm]

-- What `console.log` makes of an empty text and seven texts of 512 control characters each.
private def controls : String :=
  .ofList (List.replicate 7 (' ' :: List.replicate 512 (.ofNat 1))).flatten

theorem jsonLength_repeated (m n : Nat) : jsonLength
    (.ofList (List.replicate m (' ' :: List.replicate n (.ofNat 1))).flatten) = 2 + m * (1 + n * 6) := by
  have hsix : escapedLength (.ofNat 1) = 6 := by decide
  have hspace : escapedLength ' ' = 1 := by decide
  rw [jsonLength, String.toList_ofList, sum_repeated, List.map_cons, List.sum_cons,
    List.map_replicate, List.sum_replicate_nat, hsix, hspace]

-- A text that is too large for a batch leaves the ring at once.
theorem step_large {m : String} (h : jsonLength m = 21513) :
    ({} : Accounts).step (.emitConsole .log m 0) =
      { sink := { logRing := { droppedCount := 1 }, logSeq := 1 }, calls := 1 } := by
  have hcost : recordCost m = 21609 := by rw [recordCost, h, consoleRecordOverheadBytes]
  have hpush : LogRing.push {} .log m 0 =
      { records := [{ level := .log, message := m, loggedAt := 0 }], bytes := 21609 } := by
    simp [LogRing.push, LogRing.push.append, hcost, consoleRingBytes]
  have hlength : Record.jsonLength { level := .log, message := m, loggedAt := 0 } = 21546 := by
    have hfixed : "\x7b\"level\":,\"message\":,\"at\":\x7d".length + (2 + Level.log.text.length) = 32 := by
      decide +kernel
    have hdigits : digits 0 = 1 := by decide +kernel
    simp only [Record.jsonLength, h, hfixed, hdigits, if_true]
  have hdrain : LogRing.drain
      { records := [{ level := .log, message := m, loggedAt := 0 }], bytes := 21609 }
        logBatchMaxRecords (logBatchMaxBytes - 512) =
      ([{ level := .log, message := m, loggedAt := 0 }], {}) := by
    simp [LogRing.drain, LogRing.batchLength, hcost, LogRing.cost, logBatchMaxRecords]
  have hbatch : Sink.batch { logRing :=
      { records := [{ level := .log, message := m, loggedAt := 0 }], bytes := 21609 } } =
        { seq := 0, droppedCount := 0, records := [{ level := .log, message := m, loggedAt := 0 }] } := by
    rw [Sink.batch, hdrain]
  have hfits : Sink.fits { logRing :=
      { records := [{ level := .log, message := m, loggedAt := 0 }], bytes := 21609 } } = false := by
    rw [Sink.fits, hbatch]
    simp [Payload.byteLength, joinedLength, hlength, logBatchMaxBytes]
  have hflushes : Sink.flushes { logRing :=
      { records := [{ level := .log, message := m, loggedAt := 0 }], bytes := 21609 } } false := by
    rw [Sink.flushes, hbatch]
    simp
  simp only [step, Sink.step, Sink.emitConsole, hpush, consoleFlushThresholdBytes]
  rw [if_pos (by decide), Sink.flushLogBatch, if_pos hflushes]
  simp only [hfits, hdrain, hbatch]
  simp [LogRing.countDropped]

-- The drop of a text that is too large for a batch is reported by both of the batches after it.
theorem drop_reported_twice : ¬∀ es, Runs.Throughout Accounts.step Accounts.Balanced {} es := by
  intro h
  have hreported := (h [.emitConsole .log controls 0, .emitConsole .log "a" 1, .flush false,
    .emitConsole .log "b" 2, .flush false]).last.tells.reported
  have hlength : jsonLength controls = 21513 := jsonLength_repeated 7 512
  rw [List.foldl_cons, step_large hlength] at hreported
  revert hreported
  decide +kernel

end Sample

end Accounts
end Console
