import NeoTavern.Lib.Assoc

namespace Events

structure EventEntry (N P : Type) where
  seq       : Nat
  name      : N
  emittedAt : Int
  payload   : P
  deriving DecidableEq

structure EventNameState (N P : Type) where
  entries        : List (EventEntry N P) := []
  -- The number of the next event.
  nextSeq        : Nat := 1
  -- The highest number that has been removed.
  evictedUpToSeq : Nat := 0
  deriving DecidableEq

abbrev EventStates (N P : Type) := List (N × EventNameState N P)

def eventsPerName := 128
def eventsTotal := 4096
def eventsTtlMs : Int := 60000
def eventsMaxWaiters : Int := 64
def eventsMaxReplayLimit := 64

namespace EventNameState

variable {N P : Type}

def shift (s : EventNameState N P) : EventNameState N P :=
  match s.entries with
  | []           => s
  | e :: entries => { s with entries, evictedUpToSeq := max s.evictedUpToSeq e.seq }

-- Removes what has been emitted before the cutoff, up to the first entry that has not.
def sweep (s : EventNameState N P) (cutoff : Int) : EventNameState N P :=
  let removed := (s.entries.takeWhile (·.emittedAt < cutoff)).length
  { s with
    entries        := s.entries.drop removed
    evictedUpToSeq := (s.entries.take removed).foldl (fun seq e => max seq e.seq) s.evictedUpToSeq
  }

def push (s : EventNameState N P) (envelope : EventEntry N P) : EventNameState N P :=
  { s with nextSeq := s.nextSeq + 1, entries := s.entries ++ [envelope] }

-- The loop that removes the oldest entries while there are too many. There are `n` of them.
def trimFrom : Nat → EventNameState N P → EventNameState N P
  | 0, s     => s
  | n + 1, s => if n + 1 > eventsPerName then trimFrom n s.shift else s

def trim (s : EventNameState N P) : EventNameState N P :=
  trimFrom s.entries.length s

end EventNameState

-- An error of the broker with what it says of the request.
inductive BrokerError (N : Type)
  | eventCursorExpired (name : N) (cursor evictedUpToSeq : Nat)
  | validationFailed (name : N) (cursor nextSeq : Nat)
  | serviceUnavailable
  | aborted
  deriving DecidableEq

def BrokerError.message {N : Type} : BrokerError N → String
  | .eventCursorExpired .. => "cursor fell outside the replay window"
  | .validationFailed ..   => "cursor is ahead of the newest emitted event"
  | .serviceUnavailable    => "too many concurrent event waiters"
  | .aborted               => "This operation was aborted"

structure ReplayLimit where
  val : Nat
  pos : 1 ≤ val
  le  : val ≤ eventsMaxReplayLimit

structure SdkEventsReplayArgs (N : Type) where
  name   : N
  cursor : Option Nat
  limit  : Option ReplayLimit

structure SdkEventsReplayResult (N P : Type) where
  events     : List (EventEntry N P)
  nextCursor : Option Nat

namespace EventStates

variable {N P : Type} [DecidableEq N]

-- The state of a name, which comes into being when it is asked for.
def eventState (states : EventStates N P) (name : N) : EventStates N P × EventNameState N P :=
  match Assoc.get states name with
  | some state => (states, state)
  | none       => (Assoc.set states name {}, {})

def sweepExpired (states : EventStates N P) (name : N) (now : Int) : EventStates N P :=
  match Assoc.get states name with
  | some state => Assoc.set states name <| state.sweep (now - eventsTtlMs)
  | none       => states

-- The name whose first entry has the smallest number, and that number.
def oldest (states : EventStates N P) : Option (N × Nat) :=
  states.foldl (fun oldest (name, state) =>
    match state.entries.head? with
    | some first => if oldest.all (first.seq < ·.snd) then some (name, first.seq) else oldest
    | none       => oldest) none

-- Also gives the entry that is removed.
def evictGlobalOldest (states : EventStates N P) : EventStates N P × Option (EventEntry N P) :=
  match oldest states with
  | none           => (states, none)
  | some (name, _) =>
    match Assoc.get states name with
    | none       => (states, none)
    | some state => (Assoc.set states name state.shift, state.entries.head?)

def total (states : EventStates N P) : Nat :=
  (states.map (·.snd.entries.length)).sum

-- Everything that is retained.
def retained (states : EventStates N P) : List (EventEntry N P) :=
  states.flatMap (·.snd.entries)

-- An entry that the bound on all names has removed, and what was retained until then.
structure Eviction (N P : Type) where
  entry    : EventEntry N P
  retained : List (EventEntry N P)

-- The loop that evicts while there are too many. There are `total` of them.
def evictTotal : Nat → EventStates N P → EventStates N P × List (Eviction N P)
  | 0, states         => (states, [])
  | total + 1, states =>
    if total + 1 > eventsTotal then
      let (next, removed) := states.evictGlobalOldest
      let (last, evictions) := evictTotal total next
      (last, (removed.map ({ entry := ·, retained := states.retained })).toList ++ evictions)
    else
      (states, [])

-- The new envelope has joined the ring of its name.
def pushed (states : EventStates N P) (name : N) (payload : P) (sweptAt emittedAt : Int) :
    EventStates N P × EventEntry N P :=
  let states := (states.eventState name).fst.sweepExpired name sweptAt
  let state := (states.eventState name).snd
  let envelope := { seq := state.nextSeq, name, emittedAt, payload }
  (Assoc.set states name (state.push envelope).trim, envelope)

-- `readReplay`. Asking for a name without events leaves an empty ring behind.
def readReplay (states : EventStates N P) (args : SdkEventsReplayArgs N) :
    EventStates N P × Except (BrokerError N) (SdkEventsReplayResult N P) :=
  let (states, state) := states.eventState args.name
  let limit := args.limit.elim eventsMaxReplayLimit (·.val)
  match args.cursor with
  | none        =>
    let events := state.entries.take limit
    (states, .ok { events, nextCursor := events.getLast?.map (·.seq) })
  | some cursor =>
    if cursor < state.evictedUpToSeq then
      (states, .error <| .eventCursorExpired args.name cursor state.evictedUpToSeq)
    else if cursor ≥ state.nextSeq then
      (states, .error <| .validationFailed args.name cursor state.nextSeq)
    else
      match state.entries.findIdx? (·.seq > cursor) with
      | none       => (states, .ok { events := [], nextCursor := cursor })
      | some from_ =>
        let events := (state.entries.drop from_).take limit
        (states, .ok { events, nextCursor := some <| events.getLast?.elim cursor (·.seq) })

end EventStates
end Events

namespace Events

-- The waiters of each name and how many of them the host counts.
structure Waiters (N : Type) where
  byEvent : List (N × List Nat) := []
  count   : Int := 0

namespace Waiters

variable {N : Type} [DecidableEq N]

def waitersOf (w : Waiters N) (name : N) : List Nat :=
  (Assoc.get w.byEvent name).getD []

def register (w : Waiters N) (name : N) (i : Nat) : Waiters N where
  byEvent := Assoc.set w.byEvent name (w.waitersOf name ++ [i])
  count   := w.count + 1

def cleanup (w : Waiters N) (name : N) (i : Nat) : Waiters N :=
  match Assoc.get w.byEvent name with
  | none         => w
  | some waiters =>
    let rest := waiters.erase i
    { byEvent := if rest.isEmpty then Assoc.delete w.byEvent name else Assoc.set w.byEvent name rest
      count   := w.count - 1
    }

def clear (w : Waiters N) (name : N) : Waiters N :=
  match Assoc.get w.byEvent name with
  | none   => w
  | some _ => { w with byEvent := Assoc.set w.byEvent name [] }

end Waiters

-- How far a call of `events.replay` has come: there is none, it waits, its waiter has been resolved
-- (`woken`) or was too late, or it has failed.
inductive Phase (N : Type)
  | idle
  | waiting
  | woken
  | late
  | failed (error : BrokerError N)
  deriving DecidableEq

namespace Phase

variable {N : Type}

def isWaiting : Phase N → Bool
  | waiting => true
  | _       => false

-- Whether the next call can be made.
def isReady : Phase N → Bool
  | idle | failed _ => true
  | _               => false

end Phase

-- Someone who calls `events.replay` for a name again and again, each time with the cursor of the last
-- answer. `first` is the number after which the events that have been `yielded` begin. The deadline,
-- the limit and the signal are those of the last call.
structure Reader (N P : Type) where
  name     : N
  cursor   : Option Nat
  first    : Option Nat := cursor
  yielded  : List (EventEntry N P) := []
  limit    : Option ReplayLimit := none
  budgetMs : Int := 0
  deadline : Int := 0
  aborted  : Bool := false
  phase    : Phase N := .idle

namespace Reader

variable {N P : Type}

def args (r : Reader N P) : SdkEventsReplayArgs N where
  name   := r.name
  cursor := r.cursor
  limit  := r.limit

def settled (r : Reader N P) : Except (BrokerError N) (SdkEventsReplayResult N P) → Reader N P
  | .error e   => { r with phase := .failed e }
  | .ok result =>
    { r with
      cursor  := result.nextCursor
      first   := r.first.or <| result.events.head?.map (·.seq - 1)
      yielded := r.yielded ++ result.events
      phase   := .idle
    }

end Reader

-- `emitted` is what has been emitted so far, and `evictions` what the bound on all names has removed.
structure Host (N P : Type) where
  eventStates : EventStates N P := []
  waiters     : Waiters N := {}
  readers     : List (Reader N P) := []
  emitted     : List (EventEntry N P) := []
  evictions   : List (EventStates.Eviction N P) := []

-- The numbers of type `Int` are what the clock shows each time it is read.
inductive Event (N P : Type)
  | emit (name : N) (payload : P) (sweptAt emittedAt : Int)
  | follow (name : N) (cursor : Option Nat)
  | call (i : Nat) (limit : Option ReplayLimit) (budgetMs calledAt sweptAt checkedAt : Int)
  | resume (i : Nat) (sweptAt checkedAt : Int)
  | timeout (i : Nat)
  | abort (i : Nat)

namespace Host

variable {N P : Type} [DecidableEq N]

def put (h : Host N P) (i : Nat) (r : Reader N P) : Host N P :=
  { h with readers := h.readers.set i r }

-- The waiter of a reader is taken out of the sets. A waiter that is settled stays as it is.
def settle (h : Host N P) (i : Nat) (phase : Phase N) : Host N P :=
  match h.readers[i]? with
  | none   => h
  | some r =>
    if r.phase.isWaiting then
      { h.put i { r with phase } with waiters := h.waiters.cleanup r.name i }
    else
      h

def waitForEvent (h : Host N P) (i : Nat) (r : Reader N P) : Host N P :=
  if h.waiters.count ≥ eventsMaxWaiters then
    h.put i { r with phase := .failed .serviceUnavailable }
  else
    let h := { h.put i { r with phase := .waiting } with waiters := h.waiters.register r.name i }
    if r.aborted then h.settle i <| .failed .aborted else h

-- The body of the loop in `replayWithWait`.
def replayLoop (h : Host N P) (i : Nat) (r : Reader N P) (sweptAt checkedAt : Int) : Host N P :=
  let (eventStates, answer) := (h.eventStates.sweepExpired r.name sweptAt).readReplay r.args
  let h := { h with eventStates }
  match answer with
  | .error e   => h.put i <| r.settled <| .error e
  | .ok result =>
    if result.events.length > 0 || r.budgetMs ≤ 0 || r.deadline - checkedAt ≤ 0 then
      h.put i <| r.settled <| .ok result
    else
      h.waitForEvent i r

-- The wait is over and there is no time left.
def replayOnce (h : Host N P) (i : Nat) (r : Reader N P) : Host N P :=
  let (eventStates, answer) := h.eventStates.readReplay r.args
  { h with eventStates }.put i <| r.settled answer

def resolveWaiters (h : Host N P) (name : N) : Host N P :=
  let waiters := h.waiters.waitersOf name
  if waiters.length > 0 then
    let h := waiters.foldl (fun h i => h.settle i .woken) h
    { h with waiters := h.waiters.clear name }
  else
    h

def emit (h : Host N P) (name : N) (payload : P) (sweptAt emittedAt : Int) : Host N P :=
  let (states, envelope) := h.eventStates.pushed name payload sweptAt emittedAt
  let (eventStates, evictions) := EventStates.evictTotal states.total states
  let h := { h with
    eventStates
    emitted   := h.emitted ++ [envelope]
    evictions := h.evictions ++ evictions
  }
  h.resolveWaiters name

def step (h : Host N P) : Event N P → Host N P
  | .emit name payload sweptAt emittedAt => h.emit name payload sweptAt emittedAt
  | .follow name cursor => { h with readers := h.readers ++ [{ name, cursor }] }
  | .call i limit budgetMs calledAt sweptAt checkedAt =>
    match h.readers[i]? with
    | none   => h
    | some r =>
      if r.phase.isReady then
        let r := { r with limit, budgetMs, deadline := calledAt + budgetMs, aborted := false }
        h.replayLoop i r sweptAt checkedAt
      else
        h
  | .resume i sweptAt checkedAt =>
    match h.readers[i]? with
    | none   => h
    | some r =>
      match r.phase with
      | .woken => h.replayLoop i r sweptAt checkedAt
      | .late  => h.replayOnce i r
      | _      => h
  | .timeout i => h.settle i .late
  | .abort i   =>
    match h.readers[i]? with
    | none   => h
    | some r =>
      let h := h.put i { r with aborted := true }
      h.settle i <| .failed .aborted

end Host
end Events
