import Mathlib
import NeoTavern.Database.ReadGate
import NeoTavern.Lib.Utf8Decoder

namespace ClientSdk

open Database (trim)
open Sql (Text)
open Transducer (run pipe)

structure StreamEvent (Json : Type) where
  streamId : String
  sequence : Nat
  type     : String
  payload  : Json
  deriving DecidableEq

structure TransportError (SyntaxError : Type) where
  message   : String
  retryable : Bool
  timeout   : Bool
  resumable : Bool
  cause     : Option SyntaxError := none
  deriving DecidableEq

-- `JSON.parse`, and `Value.Check` for the event envelope with the fields that it has checked.
structure EventCodec (Json SyntaxError : Type) where
  parse : Text → Except SyntaxError Json
  check : Json → Option (StreamEvent Json)

section Stream

variable {Json SyntaxError : Type} (codec : EventCodec Json SyntaxError)

def parseEventLine (line : Text) : Except (TransportError SyntaxError) (StreamEvent Json) :=
  match codec.parse line with
  | .error error => .error {
      message   := "stream line is not valid JSON"
      retryable := false
      timeout   := false
      resumable := true
      cause     := some error
    }
  | .ok parsed   =>
    match codec.check parsed with
    | none       => .error {
        message   := "stream event violates wire.event.envelope"
        retryable := false
        timeout   := false
        resumable := true
      }
    | some event => .ok event

-- What the generator yields, and the error that ends it.
abbrev Yielded (Json SyntaxError : Type) :=
  List (StreamEvent Json) × Option (TransportError SyntaxError)

-- The loop over lines: blank ones are skipped, and the first one that does not parse ends it.
def yieldLines : List Text → Yielded Json SyntaxError
  | []            => ([], none)
  | line :: lines =>
    if trim line = [] then
      yieldLines lines
    else
      match parseEventLine codec (trim line) with
      | .error error => ([], some error)
      | .ok event    =>
        let (events, error) := yieldLines lines
        (event :: events, error)

-- The decoder with its flag for the byte order mark, and the buffer.
structure Reading where
  decoder : Utf8Decoder := {}
  begun   : Bool := false
  buffer  : Text := []
  deriving DecidableEq

namespace Reading

-- `decoder.decode(value, { stream: true })`
def decode (r : Reading) (value : List UInt8) : Reading × Text :=
  let (decoder, chars) := run Utf8Decoder.step r.decoder value
  let (begun, text) := run Utf8Decoder.dropMark r.begun chars
  ({ r with decoder, begun }, text)

-- One chunk: the buffer goes on with what stands behind the last line feed.
def read (r : Reading) (value : List UInt8) : Reading × List Text :=
  let (r, text) := r.decode value
  let lines := (r.buffer ++ text).splitOn '\n'
  ({ r with buffer := lines.getLast?.getD [] }, lines.dropLast)

-- What is left when the body has ended.
def tail (r : Reading) : Text :=
  r.buffer ++ (run Utf8Decoder.dropMark r.begun r.decoder.flush).snd

end Reading

def streamFrom : Reading → List (List UInt8) → Yielded Json SyntaxError
  | r, []              => yieldLines codec [r.tail]
  | r, value :: chunks =>
    let (r, lines) := r.read value
    match yieldLines codec lines with
    | (events, some error) => (events, some error)
    | (events, none)       =>
      let (events', error) := streamFrom r chunks
      (events ++ events', error)

def stream (chunks : List (List UInt8)) : Yielded Json SyntaxError :=
  streamFrom codec {} chunks

end Stream

section Lines

-- What the splitting at line feeds does with one character.
def splitLine (buffer : Text) (c : Char) : Text × List Text :=
  if c = '\n' then ([], [buffer]) else (buffer ++ [c], [])

theorem not_mem_splitLine (h : '\n' ∉ buffer) (c : Char) : '\n' ∉ (splitLine buffer c).fst := by
  by_cases hc : c = '\n'
  case pos => simp [splitLine, hc]
  case neg =>
    have hne : '\n' ≠ c := fun he => hc he.symm
    simp [splitLine, hc, h, hne]

theorem splitOn_append (h : '\n' ∉ buffer) (text : Text) :
    (buffer ++ text).splitOn '\n' =
      (run splitLine buffer text).snd ++ [(run splitLine buffer text).fst] := by
  induction text generalizing buffer
  case nil => simp [List.splitOn_eq_singleton h]
  case cons c text ih =>
    rw [Transducer.run_cons]
    by_cases hc : c = '\n'
    case pos =>
      have hrest : ([] ++ text).splitOn '\n' = _ := ih List.not_mem_nil
      rw [hc, List.splitOn_append_cons_self_of_not_mem h]
      simpa [splitLine] using hrest
    case neg =>
      have hrest := ih <| not_mem_splitLine h c
      simpa [splitLine, hc] using hrest

end Lines

namespace Reading

-- The chain of the three machines, on one byte.
def machine : (Utf8Decoder × Bool) × Text → UInt8 → ((Utf8Decoder × Bool) × Text) × List Text :=
  pipe (pipe Utf8Decoder.step Utf8Decoder.dropMark) splitLine

def ofMachine (s : (Utf8Decoder × Bool) × Text) : Reading where
  decoder := s.fst.fst
  begun   := s.fst.snd
  buffer  := s.snd

def toMachine (r : Reading) : (Utf8Decoder × Bool) × Text :=
  ((r.decoder, r.begun), r.buffer)

def step (r : Reading) (b : UInt8) : Reading × List Text :=
  let (s, lines) := machine r.toMachine b
  (ofMachine s, lines)

theorem run_step {r : Reading} {value : List UInt8} :
    run step r value = (ofMachine (run machine r.toMachine value).fst, (run machine r.toMachine value).snd) := by
  induction value generalizing r
  case nil             => rfl
  case cons b value ih => rw [Transducer.run_cons, ih, Transducer.run_cons]; rfl

theorem read_eq {r : Reading} (h : '\n' ∉ r.buffer) (value : List UInt8) : r.read value = run step r value := by
  rw [run_step, machine, toMachine, Transducer.run_pipe, Transducer.run_pipe]
  simp only [read, decode, splitOn_append h, List.getLast?_concat, List.dropLast_concat, Option.getD_some]
  rfl

theorem not_mem_step (r : Reading) (b : UInt8) (h : '\n' ∉ r.buffer) : '\n' ∉ (r.step b).fst.buffer := by
  have hline (buffer : Text) (c : Char) (hb : '\n' ∉ buffer) : '\n' ∉ (splitLine buffer c).fst :=
    not_mem_splitLine hb c
  have hrun (text : Text) : '\n' ∉ (run splitLine r.buffer text).fst := Transducer.run_invariant hline h text
  exact hrun _

-- Chunks are read like their bytes one after the other.
theorem run_read {r : Reading} (h : '\n' ∉ r.buffer) (chunks : List (List UInt8)) :
    run read r chunks = run step r chunks.flatten := by
  have hinv (r : Reading) (value : List UInt8) (hr : '\n' ∉ r.buffer) : '\n' ∉ (run step r value).fst.buffer :=
    Transducer.run_invariant not_mem_step hr value
  have hread (r : Reading) (value : List UInt8) (hr : '\n' ∉ r.buffer) : run step r value = r.read value :=
    (read_eq hr value).symm
  rw [← Transducer.run_run, Transducer.run_congr hinv hread h]

end Reading

section Chunks

variable {Json SyntaxError : Type} {codec : EventCodec Json SyntaxError} {lines lines' : List Text}

-- Lines that end with an error leave those behind them unread.
theorem yieldLines_append :
    yieldLines codec (lines ++ lines') =
      match yieldLines codec lines with
      | (events, some error) => (events, some error)
      | (events, none)       => (events ++ (yieldLines codec lines').fst, (yieldLines codec lines').snd) := by
  induction lines
  case nil => rfl
  case cons line lines ih =>
    rw [List.cons_append, yieldLines, yieldLines]
    by_cases hblank : trim line = []
    case pos => simp only [hblank, ite_true, ih]
    case neg =>
      simp only [hblank, ite_false]
      cases parseEventLine codec (trim line)
      case error error => rfl
      case ok event    =>
        dsimp only
        rw [ih]
        cases yieldLines codec lines
        case mk events error => cases error <;> rfl

theorem streamFrom_eq (r : Reading) (chunks : List (List UInt8)) :
    streamFrom codec r chunks =
      yieldLines codec ((run Reading.read r chunks).snd ++ [(run Reading.read r chunks).fst.tail]) := by
  induction chunks generalizing r
  case nil                  => rfl
  case cons value chunks ih =>
    rw [streamFrom, Transducer.run_cons, List.append_assoc, yieldLines_append, ← ih]

theorem stream_chunks (codec : EventCodec Json SyntaxError) (chunks : List (List UInt8)) :
    stream codec chunks = stream codec [chunks.flatten] := by
  have hempty : '\n' ∉ ({} : Reading).buffer := List.not_mem_nil
  rw [stream, stream, streamFrom_eq, streamFrom_eq, Reading.run_read hempty, Reading.run_read hempty,
    List.flatten_singleton]

end Chunks

end ClientSdk
