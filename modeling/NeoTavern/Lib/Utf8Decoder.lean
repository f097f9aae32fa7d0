import Mathlib

-- Machines that read their input one by one and write outputs as they go.
namespace Transducer

variable {σ τ ι κ ο : Type}

def run (step : σ → ι → σ × List ο) : σ → List ι → σ × List ο
  | s, []      => (s, [])
  | s, x :: xs =>
    let first := step s x
    let rest := run step first.fst xs
    (rest.fst, first.snd ++ rest.snd)

-- The outputs of the first machine are the inputs of the second one.
def pipe (f : σ → ι → σ × List κ) (g : τ → κ → τ × List ο) (s : σ × τ) (x : ι) : (σ × τ) × List ο :=
  let first := f s.fst x
  let rest := run g s.snd first.snd
  ((first.fst, rest.fst), rest.snd)

variable {step : σ → ι → σ × List ο} {f : σ → ι → σ × List κ} {g : τ → κ → τ × List ο} {s : σ} {t : τ}

@[simp]
theorem run_nil : run step s [] = (s, []) :=
  rfl

theorem run_cons :
    run step s (x :: xs) =
      ((run step (step s x).fst xs).fst, (step s x).snd ++ (run step (step s x).fst xs).snd) :=
  rfl

theorem run_append {xs ys : List ι} :
    run step s (xs ++ ys) =
      ((run step (run step s xs).fst ys).fst, (run step s xs).snd ++ (run step (run step s xs).fst ys).snd) := by
  induction xs generalizing s
  case nil          => simp
  case cons x xs ih => simp [run_cons, ih]

-- It makes no difference in which pieces the input comes.
theorem run_run {chunks : List (List ι)} : run (run step) s chunks = run step s chunks.flatten := by
  induction chunks generalizing s
  case nil               => rfl
  case cons chunk chunks ih => rw [run_cons, ih, List.flatten_cons, run_append]

theorem run_pipe {xs : List ι} :
    run (pipe f g) (s, t) xs =
      (((run f s xs).fst, (run g t (run f s xs).snd).fst), (run g t (run f s xs).snd).snd) := by
  induction xs generalizing s t
  case nil          => rfl
  case cons x xs ih =>
    rw [run_cons, run_cons, run_append, pipe, ih]

theorem run_invariant {inv : σ → Prop} (hinv : ∀ s x, inv s → inv (step s x).fst) (hs : inv s) (xs : List ι) :
    inv (run step s xs).fst := by
  induction xs generalizing s
  case nil          => exact hs
  case cons x xs ih => exact ih <| hinv s x hs

-- Two machines that agree on the states that they go through.
theorem run_congr {step' : σ → ι → σ × List ο} {inv : σ → Prop} (hinv : ∀ s x, inv s → inv (step s x).fst)
    (heq : ∀ s x, inv s → step s x = step' s x) (hs : inv s) (xs : List ι) : run step s xs = run step' s xs := by
  induction xs generalizing s
  case nil          => rfl
  case cons x xs ih => rw [run_cons, run_cons, ← heq s x hs, ih (hinv s x hs)]

end Transducer

-- The decoder of UTF-8 that writes a replacement character for each ill-formed sequence.
structure Utf8Decoder where
  codePoint : Nat := 0
  needed    : Nat := 0
  lower     : Nat := 0x80
  upper     : Nat := 0xbf
  deriving DecidableEq

namespace Utf8Decoder

open Transducer

def replacement : Char :=
  '\ufffd'

-- A byte that no sequence is open for.
def lead (b : UInt8) : Utf8Decoder × List Char :=
  let b := b.toNat
  if b ≤ 0x7f then
    ({}, [.ofNat b])
  else if 0xc2 ≤ b ∧ b ≤ 0xdf then
    ({ codePoint := b % 0x20, needed := 1 }, [])
  else if 0xe0 ≤ b ∧ b ≤ 0xef then
    ({
      codePoint := b % 0x10
      needed    := 2
      lower     := if b = 0xe0 then 0xa0 else 0x80
      upper     := if b = 0xed then 0x9f else 0xbf
    }, [])
  else if 0xf0 ≤ b ∧ b ≤ 0xf4 then
    ({
      codePoint := b % 8
      needed    := 3
      lower     := if b = 0xf0 then 0x90 else 0x80
      upper     := if b = 0xf4 then 0x8f else 0xbf
    }, [])
  else
    ({}, [replacement])

def step (s : Utf8Decoder) (b : UInt8) : Utf8Decoder × List Char :=
  if s.needed = 0 then
    lead b
  else if s.lower ≤ b.toNat ∧ b.toNat ≤ s.upper then
    let codePoint := s.codePoint * 0x40 + b.toNat % 0x40
    if s.needed = 1 then ({}, [.ofNat codePoint]) else ({ codePoint, needed := s.needed - 1 }, [])
  else
    let (s', out) := lead b
    (s', replacement :: out)

-- The end of the input.
def flush (s : Utf8Decoder) : List Char :=
  if s.needed = 0 then [] else [replacement]

-- A byte order mark is dropped where the text begins.
def dropMark (begun : Bool) (c : Char) : Bool × List Char :=
  (true, if begun = false ∧ c = '\ufeff' then [] else [c])

end Utf8Decoder
