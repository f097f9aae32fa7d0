import NeoTavern.ClientSdk.Stream
import NeoTavern.Lib.CodeUnits

-- The events of a provider's response, however the network cuts it into chunks.
namespace ProviderSdk.Sse

open ClientSdk (Reading splitLine splitOn_append)
open Sql (Text)
open Transducer (run)

section Parser

-- The `length` of a text.
def units (t : Text) : Nat :=
  (t.flatMap CodeUnits.ofChar).length

def sseMaxBufferedBytes : Nat :=
  1024 * 1024

def tooLong : String :=
  "SSE stream line exceeds maximum buffered size"

def dataPrefix : Text :=
  ['d', 'a', 't', 'a', ':']

-- `line.slice(5).replace(/^ /, '')`
def dataOf (line : Text) : Text :=
  match line.drop 5 with
  | ' ' :: value => value
  | value        => value

def isData (line : Text) : Bool :=
  dataPrefix.isPrefixOf line

-- A line without the carriage return at its end.
def strip (rawLine : Text) : Text :=
  if rawLine.getLast? = some '\r' then rawLine.dropLast else rawLine

-- The payload of an event, where it has data.
def flush (dataLines : List Text) : List Text :=
  if dataLines = [] then [] else [['\n'].intercalate dataLines]

def takeLine (dataLines : List Text) (rawLine : Text) : List Text × List Text :=
  let line := strip rawLine
  if line = [] then
    ([], flush dataLines)
  else if isData line then
    (dataLines ++ [dataOf line], [])
  else
    (dataLines, [])

-- The loop over the complete lines of the buffer.
def drain (dataLines : List Text) (buffer : Text) : (List Text × Text) × List Text :=
  let newlineIndex := buffer.idxOf '\n'
  if newlineIndex < buffer.length then
    let (dataLines, payload) := takeLine dataLines (buffer.take newlineIndex)
    let (rest, payloads) := drain dataLines (buffer.drop (newlineIndex + 1))
    (rest, payload ++ payloads)
  else
    ((dataLines, buffer), [])
termination_by buffer.length
decreasing_by
  rw [List.length_drop]
  omega

-- The text behind the last line feed may be data as well.
def takeTail (dataLines : List Text) (buffer : Text) : List Text :=
  flush <| if isData buffer then dataLines ++ [dataOf buffer] else dataLines

-- The payloads, and the error that ends them.
def parseFrom (maxBufferedBytes : Nat) : Reading → List Text → List (List UInt8) → List Text × Option String
  | r, dataLines, []              => (takeTail dataLines r.tail, none)
  | r, dataLines, value :: chunks =>
    let (r, text) := r.decode value
    let buffer := r.buffer ++ text
    if units buffer > maxBufferedBytes then
      ([], some tooLong)
    else
      let ((dataLines, buffer), payloads) := drain dataLines buffer
      let (payloads', error) := parseFrom maxBufferedBytes { r with buffer } dataLines chunks
      (payloads ++ payloads', error)

def parseSseStream (maxBufferedBytes : Nat) (chunks : List (List UInt8)) : List Text × Option String :=
  parseFrom maxBufferedBytes {} [] chunks

end Parser

section Reference

-- The text of a whole response.
def textOf (bytes : List UInt8) : Text :=
  let (r, text) := ({} : Reading).decode bytes
  text ++ (run Utf8Decoder.dropMark r.begun r.decoder.flush).snd

-- The events of some lines, up to the first that is too long with its line feed. The last one has none.
def eventsOf (maxBufferedBytes : Nat) : List Text → List Text → List Text × Option String
  | dataLines, []                   => (flush dataLines, none)
  | dataLines, [tail]               =>
    if units tail > maxBufferedBytes then ([], some tooLong) else (takeTail dataLines tail, none)
  | dataLines, line :: next :: rest =>
    if units line + 1 > maxBufferedBytes then
      ([], some tooLong)
    else
      let (dataLines, payload) := takeLine dataLines line
      let (payloads, error) := eventsOf maxBufferedBytes dataLines (next :: rest)
      (payload ++ payloads, error)

def events (maxBufferedBytes : Nat) (bytes : List UInt8) : List Text × Option String :=
  eventsOf maxBufferedBytes [] ((textOf bytes).splitOn '\n')

end Reference

section Units

variable {s t line : Text}

@[simp]
theorem units_nil : units [] = 0 :=
  rfl

theorem units_cons (c : Char) : units (c :: t) = units [c] + units t := by
  simp [units]

theorem units_newline : units ['\n'] = 1 :=
  rfl

-- A complete line is in the text together with its line feed.
theorem units_line_lt (h : line ∈ (t.splitOn '\n').dropLast) : units line + 1 ≤ units t := by
  induction t generalizing line
  case nil         => cases h
  case cons c t ih =>
    rw [units_cons]
    cases hlines : t.splitOn '\n'
    case nil              => exact absurd hlines <| List.splitOn_ne_nil _ _
    case cons first lines =>
      rw [hlines] at ih
      rw [List.splitOn_cons_eq_if_modifyHead, hlines] at h
      by_cases hc : c = '\n'
      case pos =>
        subst hc
        rw [units_newline]
        rw [if_pos (by simp), List.dropLast_cons_of_ne_nil (List.cons_ne_nil _ _)] at h
        cases h
        case head   => exact Nat.le_add_right _ _
        case tail h => exact (ih h).trans <| Nat.le_add_left _ _
      case neg =>
        rw [if_neg (by simpa using hc), List.modifyHead_cons] at h
        cases lines
        case nil             => cases h
        case cons next lines =>
          rw [List.dropLast_cons_of_ne_nil (List.cons_ne_nil _ _)] at h ih
          cases h
          case head   =>
            have hfirst := ih List.mem_cons_self
            rw [units_cons]
            omega
          case tail h =>
            have hline := ih <| List.mem_cons_of_mem _ h
            omega

end Units

section Lines

variable {dataLines : List Text} {buffer : Text}

theorem splitOn_of_idxOf_lt (h : buffer.idxOf '\n' < buffer.length) :
    buffer.splitOn '\n' =
      buffer.take (buffer.idxOf '\n') :: (buffer.drop (buffer.idxOf '\n' + 1)).splitOn '\n' := by
  have hsplit : buffer = buffer.take (buffer.idxOf '\n') ++ '\n' :: buffer.drop (buffer.idxOf '\n' + 1) := by
    conv_lhs => rw [← List.take_append_drop (buffer.idxOf '\n') buffer, List.drop_eq_getElem_cons h,
      List.getElem_idxOf h]
  have hfront : '\n' ∉ buffer.take (buffer.idxOf '\n') := by
    rw [List.mem_take_iff_idxOf_lt <| List.idxOf_lt_length_iff.mp h]
    exact lt_irrefl _
  conv_lhs => rw [hsplit]
  exact List.splitOn_append_cons_self_of_not_mem hfront _

-- The loop takes the lines of the buffer but the last one, which stays in it.
theorem drain_eq : drain dataLines buffer =
    (((run takeLine dataLines (buffer.splitOn '\n').dropLast).fst, (buffer.splitOn '\n').getLast?.getD []),
      (run takeLine dataLines (buffer.splitOn '\n').dropLast).snd) := by
  fun_induction drain dataLines buffer
  case case1 dataLines buffer newlineIndex hlt dataLines' payload htake rest payloads hrest ih =>
    have hne := List.splitOn_ne_nil '\n' (buffer.drop (newlineIndex + 1))
    rw [hrest] at ih
    rw [splitOn_of_idxOf_lt hlt, List.dropLast_cons_of_ne_nil hne, Transducer.run_cons, htake,
      List.getLast?_cons_of_ne_nil hne]
    cases ih
    rfl
  case case2 dataLines buffer newlineIndex hge =>
    have hmem : '\n' ∉ buffer := fun h => hge <| List.idxOf_lt_length_iff.mpr h
    rw [List.splitOn_eq_singleton hmem]
    rfl

example : drain [] "data: a\n\nb".toList = (([], "b".toList), ["a".toList]) := by
  decide +kernel

end Lines

section Chunks

variable {max : Nat} {dataLines : List Text} {opened : Bool} {lines rest : List Text} {r : Reading}
  {chunk : List UInt8} {chunks : List (List UInt8)}

-- The lines of what comes, for what has been read.
def linesFrom (r : Reading) (chunks : List (List UInt8)) : List Text :=
  (run Reading.read r chunks).snd ++ [(run Reading.read r chunks).fst.tail]

-- Whether an event with data is open behind a line.
def opens (opened : Bool) (rawLine : Text) : Bool :=
  if strip rawLine = [] then false else opened || isData (strip rawLine)

-- A line that is too long comes before an event with data ends.
def Doomed (max : Nat) : Bool → List Text → Prop
  | _, []                        => False
  | _, [tail]                    => units tail > max
  | opened, line :: next :: rest =>
    units line + 1 > max ∨ ¬(opened ∧ strip line = []) ∧ Doomed max (opens opened line) (next :: rest)

-- No chunk is too long together with the unfinished line before it, or else a line is too long
-- before an event comes; and the last line, which no chunk ends, is not too long.
def Kept (max : Nat) : Reading → Bool → List (List UInt8) → Prop
  | r, _, []                   => units r.tail ≤ max
  | r, opened, chunk :: chunks =>
    let (r', lines) := r.read chunk
    if units (r.buffer ++ (r.decode chunk).snd) > max then
      Doomed max opened (linesFrom r (chunk :: chunks))
    else
      Kept max r' (lines.foldl opens opened) chunks

theorem linesFrom_cons : linesFrom r (chunk :: chunks) = (r.read chunk).snd ++ linesFrom (r.read chunk).fst chunks := by
  rw [linesFrom, linesFrom, Transducer.run_cons, List.append_assoc]

theorem linesFrom_ne_nil : linesFrom r chunks ≠ [] :=
  List.concat_ne_nil _ _

theorem buffer_decode : (r.decode chunk).fst.buffer = r.buffer :=
  rfl

theorem parseFrom_cons : parseFrom max r dataLines (chunk :: chunks) =
    if units (r.buffer ++ (r.decode chunk).snd) > max then
      ([], some tooLong)
    else
      let taken := run takeLine dataLines (r.read chunk).snd
      let later := parseFrom max (r.read chunk).fst taken.fst chunks
      (taken.snd ++ later.fst, later.snd) := by
  rw [parseFrom]
  simp only [drain_eq, buffer_decode]
  rfl

theorem eventsOf_cons (h : rest ≠ []) : eventsOf max dataLines (line :: rest) =
    if units line + 1 > max then
      ([], some tooLong)
    else
      ((takeLine dataLines line).snd ++ (eventsOf max (takeLine dataLines line).fst rest).fst,
        (eventsOf max (takeLine dataLines line).fst rest).snd) := by
  cases rest
  case nil  => exact absurd rfl h
  case cons => rw [eventsOf]

theorem eventsOf_append (h : rest ≠ []) (hfit : ∀ line ∈ lines, units line + 1 ≤ max) :
    eventsOf max dataLines (lines ++ rest) =
      ((run takeLine dataLines lines).snd ++ (eventsOf max (run takeLine dataLines lines).fst rest).fst,
        (eventsOf max (run takeLine dataLines lines).fst rest).snd) := by
  induction lines generalizing dataLines
  case nil             => rfl
  case cons line lines ih =>
    have hline := hfit line List.mem_cons_self
    have hne : lines ++ rest ≠ [] := List.append_ne_nil_of_right_ne_nil _ h
    rw [List.cons_append, eventsOf_cons hne, if_neg (by omega), Transducer.run_cons,
      ih fun l hl => hfit l <| List.mem_cons_of_mem _ hl]
    simp only [List.append_assoc]

theorem opens_takeLine {line : Text} :
    decide ((takeLine dataLines line).fst ≠ []) = opens (decide (dataLines ≠ [])) line := by
  rw [takeLine, opens]
  by_cases hblank : strip line = []
  case pos => simp [hblank]
  case neg => cases isData (strip line) <;> simp [hblank]

theorem opens_run :
    decide ((run takeLine dataLines lines).fst ≠ []) = lines.foldl opens (decide (dataLines ≠ [])) := by
  induction lines generalizing dataLines
  case nil                => rfl
  case cons line lines ih => rw [Transducer.run_cons, List.foldl_cons, ih, opens_takeLine]

theorem takeLine_eq_nil_iff {line : Text} : (takeLine dataLines line).snd = [] ↔ ¬(dataLines ≠ [] ∧ strip line = []) := by
  rw [takeLine]
  by_cases hblank : strip line = []
  case pos => simp [hblank, flush]
  case neg => cases isData (strip line) <;> simp [hblank]

theorem eventsOf_eq_tooLong_iff :
    eventsOf max dataLines lines = ([], some tooLong) ↔ Doomed max (decide (dataLines ≠ [])) lines := by
  induction lines generalizing dataLines
  case nil                => simp [eventsOf, Doomed]
  case cons line lines ih =>
    cases lines
    case nil =>
      rw [eventsOf, Doomed]
      split
      case isTrue h  => simp [h]
      case isFalse h => simp [h]
    case cons next lines =>
      rw [eventsOf_cons (List.cons_ne_nil _ _), Doomed, ← opens_takeLine, ← ih]
      split
      case isTrue h  => simp [h]
      case isFalse h =>
        rw [Prod.ext_iff, Prod.ext_iff]
        simp [h, takeLine_eq_nil_iff, and_assoc]

theorem read_fits (h : ¬units (r.buffer ++ (r.decode chunk).snd) > max) :
    ∀ line ∈ (r.read chunk).snd, units line + 1 ≤ max := by
  intro line hline
  have hlt : units line + 1 ≤ units (r.buffer ++ (r.decode chunk).snd) := units_line_lt hline
  omega

theorem parseFrom_eq_iff : parseFrom max r dataLines chunks = eventsOf max dataLines (linesFrom r chunks) ↔
    Kept max r (decide (dataLines ≠ [])) chunks := by
  induction chunks generalizing r dataLines
  case nil =>
    have hlines : linesFrom r [] = [r.tail] := rfl
    rw [hlines, parseFrom, eventsOf, Kept]
    by_cases h : units r.tail > max
    case pos => simp [h]
    case neg => simp [h, Nat.not_lt.mp h]
  case cons chunk chunks ih =>
    rw [parseFrom_cons, Kept]
    simp only
    by_cases h : units (r.buffer ++ (r.decode chunk).snd) > max
    case pos => rw [if_pos h, if_pos h, ← eventsOf_eq_tooLong_iff, eq_comm]
    case neg =>
      rw [if_neg h, if_neg h, linesFrom_cons, eventsOf_append linesFrom_ne_nil (read_fits h), ← opens_run, ← ih,
        Prod.ext_iff, Prod.ext_iff]
      simp

theorem run_splitLine {t buffer : Text} (h : '\n' ∉ t) : run splitLine buffer t = (buffer ++ t, []) := by
  induction t generalizing buffer
  case nil         => simp
  case cons c t ih =>
    have hc : c ≠ '\n' := fun he => h <| he ▸ List.mem_cons_self
    have ht : '\n' ∉ t := fun hmem => h <| List.mem_cons_of_mem _ hmem
    simp [Transducer.run_cons, splitLine, hc, ih ht]

theorem newline_not_mem_flush {decoder : Utf8Decoder} {begun : Bool} :
    '\n' ∉ (run Utf8Decoder.dropMark begun decoder.flush).snd := by
  rw [Utf8Decoder.flush]
  split
  case isTrue  => exact List.not_mem_nil
  case isFalse => cases begun <;> decide

theorem splitOn_append_of_not_mem {t t' : Text} (h : '\n' ∉ t') :
    (t ++ t').splitOn '\n' = (t.splitOn '\n').dropLast ++ [(t.splitOn '\n').getLast?.getD [] ++ t'] := by
  have hsplit (t : Text) : t.splitOn '\n' = (run splitLine [] t).snd ++ [(run splitLine [] t).fst] :=
    splitOn_append List.not_mem_nil t
  rw [hsplit, hsplit, Transducer.run_append, run_splitLine h]
  simp

theorem linesFrom_initial (chunks : List (List UInt8)) : linesFrom {} chunks = (textOf chunks.flatten).splitOn '\n' := by
  have hnone : '\n' ∉ ({} : Reading).buffer := List.not_mem_nil
  have hone : run Reading.read {} chunks = run Reading.read {} [chunks.flatten] := by
    rw [Reading.run_read hnone, Reading.run_read hnone, List.flatten_singleton]
  rw [linesFrom, hone, textOf, splitOn_append_of_not_mem newline_not_mem_flush, Transducer.run_cons,
    Transducer.run_nil, List.append_nil]
  rfl

-- However the bytes are cut, the events are those of the whole response exactly if the cut keeps them.
theorem parseSseStream_eq_iff (max : Nat) (chunks : List (List UInt8)) :
    parseSseStream max chunks = events max chunks.flatten ↔ Kept max {} false chunks := by
  rw [events, ← linesFrom_initial]
  exact parseFrom_eq_iff

-- Two events in one chunk are too much where one after the other is not.
theorem parseSseStream_ne_events :
    parseSseStream 8 ["data:a\n\n".toUTF8.toList, "data:b\n\n".toUTF8.toList] = ([['a'], ['b']], none) ∧
      parseSseStream 8 ["data:a\n\ndata:b\n\n".toUTF8.toList] = ([], some tooLong) ∧
      events 8 "data:a\n\ndata:b\n\n".toUTF8.toList = ([['a'], ['b']], none) := by
  decide +kernel

end Chunks

end ProviderSdk.Sse
