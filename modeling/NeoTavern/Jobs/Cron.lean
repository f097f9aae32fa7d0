import NeoTavern.Jobs.Store
import NeoTavern.Lib.NumberText

namespace Jobs

structure CronSchedule where
  minutes     : List Int
  hours       : List Int
  daysOfMonth : List Int
  months      : List Int
  daysOfWeek  : List Int
  deriving DecidableEq

def minuteMs : Int :=
  60 * 1000

def dayMs : Int :=
  24 * 60 * 60 * 1000

-- The UTC components of a time in milliseconds.
section Components

variable (time : Int)

def utcMinutes : Int :=
  time / minuteMs % 60

def utcHours : Int :=
  time / (60 * minuteMs) % 24

-- The epoch began on a Thursday.
def utcDay : Int :=
  (time / dayMs + 4) % 7

-- Days are counted from the first of March of the year 0, so that a leap day is the last day of its year.
def dayOfEra : Int :=
  (time / dayMs + 719468) % 146097

def dayOfYear : Int :=
  let d := dayOfEra time
  let year := (d - d / 1460 + d / 36524 - d / 146096) / 365
  d - (365 * year + year / 4 - year / 100)

def utcDate : Int :=
  let d := dayOfYear time
  d - (153 * ((5 * d + 2) / 153) + 2) / 5 + 1

-- The months count from 0.
def utcMonth : Int :=
  ((5 * dayOfYear time + 2) / 153 + 2) % 12

end Components

-- A `Date` holds times of up to 8.64e15 milliseconds from the epoch, and has no components beyond.
def isTime (time : Int) : Bool :=
  -8640000000000000 ≤ time && time ≤ 8640000000000000

def CronSchedule.fires (cron : CronSchedule) (time : Int) : Bool :=
  isTime time &&
  cron.daysOfWeek.contains (utcDay time) &&
  cron.daysOfMonth.contains (utcDate time) &&
  cron.months.contains (utcMonth time + 1) &&
  cron.hours.contains (utcHours time) &&
  cron.minutes.contains (utcMinutes time)

-- The first of the next `n` minutes from `timestamp` on, but not after `limit`, that the schedule fires.
def firstMatch (cron : CronSchedule) (limit : Int) : (n : Nat) → (timestamp : Int) → Option Int
  | 0, _             => none
  | n + 1, timestamp =>
    if timestamp ≤ limit then
      if cron.fires timestamp then
        some timestamp
      else
        firstMatch cron limit n (timestamp + minuteMs)
    else
      none

-- In five years there are 2628000 minutes.
def CronSchedule.nextAfter (cron : CronSchedule) (start : Int) : Option Int :=
  if isTime start then
    firstMatch cron (start + 5 * 365 * dayMs) 2628000 (start - start % minuteMs + minuteMs)
  else
    none

-- `parse` is `parseCron`, and `none` is what makes it throw.
def utcCron (parse : String → Option CronSchedule) : Cron where
  parses expression              := (parse expression).isSome
  nextCronAfter start expression := parse expression >>= fun cron => cron.nextAfter start

theorem le_of_firstMatch (h : firstMatch cron limit n timestamp = some time) : timestamp ≤ time := by
  induction n generalizing timestamp
  case zero      => cases h
  case succ n ih =>
    rw [firstMatch] at h
    split at h
    case isFalse => cases h
    case isTrue  =>
      split at h
      case isTrue  => exact Int.le_of_eq <| Option.some.inj h
      case isFalse =>
        have hle := ih h
        rw [minuteMs] at hle
        omega

-- The next time is strictly after `start`.
theorem lt_of_nextCronAfter (h : (utcCron parse).nextCronAfter start expression = some time) :
    start < time := by
  have ⟨cron, _, hnext⟩ := Option.bind_eq_some_iff.mp h
  rw [CronSchedule.nextAfter] at hnext
  split at hnext
  case isFalse => cases hnext
  case isTrue  =>
    have hle := le_of_firstMatch hnext
    rw [minuteMs] at hle
    omega

-- What `lib/cron` throws.
inductive CronError
  | fieldCount (count : Nat)
  | emptyField
  | badStep (part : CodeUnits)
  | badRange (part : CodeUnits)
  | badValue (part : CodeUnits)
  | neverFires
  deriving DecidableEq

def CronError.message : CronError → CodeUnits
  | fieldCount count => .ofString s!"cron must have 5 fields, got {count}"
  | emptyField       => .ofString "empty cron field"
  | badStep part     => .ofString "bad cron step: " ++ part
  | badRange part    => .ofString "bad cron range: " ++ part
  | badValue part    => .ofString "bad cron value: " ++ part
  | neverFires       => .ofString "cron never fires within 5 years"

open NumberText (isNumeral integer)

-- Each `step`-th number from `start` to `stop`.
def stepped (start stop : Int) (step : Nat) : List Int :=
  (List.range ((stop - start).toNat / step + 1)).map fun k => start + (k * step : Nat)

-- The numbers from `start` to `stop`, of which a numeral that is too large for a double is none.
def bounded (part : CodeUnits) (min max : Int) (step : Nat) : Option Int → Option Int → Except CronError (List Int)
  | some start, some stop =>
    if start < min ∨ stop > max ∨ start > stop then
      throw <| .badRange part
    else
      return stepped start stop step
  | _, _                  => throw <| .badRange part

-- `/^(\*|(\d+)(?:-(\d+))?)\/(\d+)$/u`
inductive StepMatch
  | star (step : CodeUnits)
  | single (start step : CodeUnits)
  | range (start stop step : CodeUnits)

def stepMatch (part : CodeUnits) : Option StepMatch :=
  match part.splitOn 0x2f with
  | [head, step] =>
    if !isNumeral step then
      none
    else if head = [0x2a] then
      some <| .star step
    else
      match head.splitOn 0x2d with
      | [start]       => if isNumeral start then some <| .single start step else none
      | [start, stop] => if isNumeral start && isNumeral stop then some <| .range start stop step else none
      | _             => none
  | _            => none

-- `/^(\d+)-(\d+)$/u`
def rangeMatch (part : CodeUnits) : Option (CodeUnits × CodeUnits) :=
  match part.splitOn 0x2d with
  | [start, stop] => if isNumeral start && isNumeral stop then some (start, stop) else none
  | _             => none

def stepOf (part step : CodeUnits) : Except CronError Nat :=
  match integer step with
  | some n => if n < 1 then throw <| .badStep part else return n.toNat
  | none   => throw <| .badStep part

def partValues (min max : Int) (part : CodeUnits) : Except CronError (List Int) := do
  let trimmed := part.trim
  if trimmed = [] then
    throw .emptyField
  match stepMatch trimmed with
  | some (.star step)             => bounded trimmed min max (← stepOf trimmed step) (some min) (some max)
  | some (.single start step)     =>
    bounded trimmed min max (← stepOf trimmed step) (integer start) (some max)
  | some (.range start stop step) =>
    bounded trimmed min max (← stepOf trimmed step) (integer start) (integer stop)
  | none                          =>
    match rangeMatch trimmed with
    | some (start, stop) => bounded trimmed min max 1 (integer start) (integer stop)
    | none               =>
      if trimmed = [0x2a] then
        return stepped min max 1
      match integer trimmed with
      | some single =>
        if single < min ∨ single > max then throw <| .badValue trimmed else return [single]
      | none        => throw <| .badValue trimmed

def fieldValues (expression : CodeUnits) (min max : Int) : Except CronError (List Int) := do
  let values ← (expression.splitOn 0x2c).flatMapM <| partValues min max
  if values.length = 0 then throw .emptyField else return values

def parseCron (expression : CodeUnits) : Except CronError CronSchedule :=
  match expression.trim.splitSpace with
  | [minute, hour, dayOfMonth, month, dayOfWeek] => do
    let dow ← fieldValues dayOfWeek 0 7
    return {
      -- The seventh day is Sunday, as day 0 is.
      daysOfWeek  := if dow.contains 7 then 0 :: dow else dow
      minutes     := ← fieldValues minute 0 59
      hours       := ← fieldValues hour 0 23
      daysOfMonth := ← fieldValues dayOfMonth 1 31
      months      := ← fieldValues month 1 12
    }
  | fields                                       => throw <| .fieldCount fields.length

-- The search of `CronSchedule.nextAfter`, which throws when it finds no time.
def nextAfter (start : Int) (cron : CronSchedule) : Except CronError Int :=
  match cron.nextAfter start with
  | some time => return time
  | none      => throw .neverFires

def nextOf (timestamp : Int) (expression : CodeUnits) : Except CronError Int := do
  nextAfter timestamp (← parseCron expression)

theorem lt_of_nextOf (h : nextOf timestamp expression = .ok time) : timestamp < time := by
  cases hparse : parseCron expression
  case error e => simp [nextOf, hparse, bind, Except.bind] at h
  case ok cron =>
    simp only [nextOf, hparse, bind, Except.bind, nextAfter] at h
    split at h
    case h_1 t hnext =>
      cases h
      have hcron : (utcCron fun _ => some cron).nextCronAfter timestamp "" = some _ := hnext
      exact lt_of_nextCronAfter hcron
    case h_2 => cases h

example : (parseCron <| .ofString "*/20 1-3 5,7 * 7").toOption.map (·.daysOfWeek) = some [0, 7] := by
  decide +kernel

end Jobs
