import NeoTavern.Lib.CodeUnits

-- Regular expressions of a small part of the language: literals, anchors and groups `([^x]+)` that capture.
namespace RegExp

inductive Atom
  | start
  | stop
  | unit (unit : UInt16)
  | group (excluded : UInt16)
  deriving DecidableEq

section Source

-- `^$\.*+?()[]{}|`
def syntaxUnits : CodeUnits :=
  .ofString "^$\\.*+?()[]\x7b\x7d|"

-- `replace(/[.*+?^${}()|[\]\\]/gu, '\\$&')`
def escape (t : CodeUnits) : CodeUnits :=
  t.flatMap fun u => if u ∈ syntaxUnits then [0x5c, u] else [u]

-- The source in Unicode mode. What is not of this part of the language gives `none`.
def read : CodeUnits → Option (List Atom)
  | []     => some []
  | u :: t =>
    if u = 0x5e then
      (read t).map (.start :: ·)
    else if u = 0x24 then
      (read t).map (.stop :: ·)
    else if u = 0x5c then
      match t with
      | []     => none
      | v :: t => if v ∈ syntaxUnits then (read t).map (.unit v :: ·) else none
    else if u = 0x28 then
      match t with
      | a :: b :: x :: c :: d :: e :: t =>
        if [a, b, c, d, e] = CodeUnits.ofString "[^]+)" ∧ x ∉ syntaxUnits then (read t).map (.group x :: ·) else none
      | _ => none
    else if u ∈ syntaxUnits then
      none
    else
      (read t).map (.unit u :: ·)

-- `([^x]+)`
def groupSource (excluded : UInt16) : CodeUnits :=
  .ofString "([^" ++ [excluded] ++ .ofString "]+)"

theorem read_unit {u : UInt16} (h : u ∉ syntaxUnits) (t : CodeUnits) : read (u :: t) = (read t).map (.unit u :: ·) := by
  have hstart : u ≠ 0x5e := fun he => h (he ▸ by decide)
  have hstop : u ≠ 0x24 := fun he => h (he ▸ by decide)
  have hescape : u ≠ 0x5c := fun he => h (he ▸ by decide)
  have hgroup : u ≠ 0x28 := fun he => h (he ▸ by decide)
  rw [read.eq_def]
  simp [hstart, hstop, hescape, hgroup, h]

theorem read_start (t : CodeUnits) : read (0x5e :: t) = (read t).map (.start :: ·) := by
  rw [read.eq_def]
  simp

theorem read_escape (s t : CodeUnits) : read (escape s ++ t) = (read t).map (s.map Atom.unit ++ ·) := by
  induction s
  case nil         => simp [escape]
  case cons u s hi =>
    by_cases h : u ∈ syntaxUnits
    case pos =>
      have : escape (u :: s) ++ t = 0x5c :: u :: (escape s ++ t) := by simp [escape, h]
      simp [this, read, h, hi, Function.comp_def]
    case neg =>
      have : escape (u :: s) ++ t = u :: (escape s ++ t) := by simp [escape, h]
      simp [this, read_unit h, hi, Function.comp_def]

theorem read_group {x : UInt16} (h : x ∉ syntaxUnits) (t : CodeUnits) :
    read (groupSource x ++ t) = (read t).map (.group x :: ·) := by
  have hopen : CodeUnits.ofString "([^" = [0x28, 0x5b, 0x5e] := by decide
  have hclose : CodeUnits.ofString "]+)" = [0x5d, 0x2b, 0x29] := by decide
  have hall : CodeUnits.ofString "[^]+)" = [0x5b, 0x5e, 0x5d, 0x2b, 0x29] := by decide
  simp [groupSource, hopen, hclose, hall, read, h]

example : escape (.ofString "a.b") = .ofString "a\\.b" := by
  decide +kernel

end Source

section Exec

-- The first that works when longer runs are tried before shorter ones, to one unit at least.
def longest {β : Type} (f : ℕ → Option β) : ℕ → Option β
  | 0     => none
  | n + 1 => (f (n + 1)).or (longest f n)

-- What the groups capture. `first` tells whether the input begins here.
def matchAt : List Atom → (first : Bool) → CodeUnits → Option (List CodeUnits)
  | [], _, _                        => some []
  | .start :: atoms, first, t       => if first then matchAt atoms first t else none
  | .stop :: atoms, first, t        => if t = [] then matchAt atoms first t else none
  | .unit _ :: _, _, []             => none
  | .unit u :: atoms, _, v :: t     => if v = u then matchAt atoms false t else none
  | .group excluded :: atoms, _, t  =>
    longest (fun n => (matchAt atoms false (t.drop n)).map (t.take n :: ·)) (t.takeWhile (· ≠ excluded)).length

def search (atoms : List Atom) : CodeUnits → Option (List CodeUnits)
  | []     => matchAt atoms false []
  | u :: t => (matchAt atoms false (u :: t)).or (search atoms t)

def exec (atoms : List Atom) (t : CodeUnits) : Option (List CodeUnits) :=
  (matchAt atoms true t).or (search atoms t.tail)

theorem longest_eq_none {β : Type} {f : ℕ → Option β} {n : ℕ} (h : ∀ m < n + 1, 0 < m → f m = none) :
    longest f n = none := by
  induction n
  case zero      => rfl
  case succ n hi => simp [longest, h (n + 1) (by omega), hi fun m hm => h m (by omega)]

-- What begins at the start of the input does so nowhere else.
theorem exec_start (atoms : List Atom) (t : CodeUnits) : exec (.start :: atoms) t = matchAt atoms true t := by
  have hsearch (s : CodeUnits) : search (.start :: atoms) s = none := by
    induction s <;> simp_all [search, matchAt]
  simp [exec, hsearch, matchAt]

section Pieces

variable {sep : UInt16} {atoms : List Atom}

-- Nothing is matched but what begins with the separator or is empty.
def Separated (sep : UInt16) (atoms : List Atom) : Prop :=
  ∀ u t, u ≠ sep → matchAt atoms false (u :: t) = none

theorem matchAt_literal (ha : Separated sep atoms) {s p rest : CodeUnits} (hs : sep ∉ s) (hp : sep ∉ p)
    (hr : rest = [] ∨ ∃ t, rest = sep :: t) :
    matchAt (s.map Atom.unit ++ atoms) false (p ++ rest) = if s = p then matchAt atoms false rest else none := by
  induction s generalizing p
  case nil =>
    cases p
    case nil      => simp
    case cons u p => simpa using ha u (p ++ rest) (by aesop)
  case cons u s hi =>
    have hu : u ≠ sep := by aesop
    cases p
    case nil =>
      cases hr
      case inl h => simp [h, matchAt]
      case inr h =>
        obtain ⟨t, rfl⟩ := h
        simp [matchAt, hu.symm]
    case cons v p =>
      have hrest := @hi p (by aesop) (by aesop)
      by_cases hv : v = u
      case pos => simp [matchAt, hv, hrest]
      case neg => simp [matchAt, hv, Ne.symm hv]

theorem takeWhile_piece {p rest : CodeUnits} (hp : sep ∉ p) (hr : rest = [] ∨ ∃ t, rest = sep :: t) :
    (p ++ rest).takeWhile (· ≠ sep) = p := by
  have hall : ∀ u ∈ p, decide (u ≠ sep) := fun u hu => by simpa using ne_of_mem_of_not_mem hu hp
  rw [List.takeWhile_append_of_pos hall]
  cases hr
  case inl h => simp [h]
  case inr h =>
    obtain ⟨t, rfl⟩ := h
    simp

theorem matchAt_group (ha : Separated sep atoms) {p rest : CodeUnits} (hp : sep ∉ p)
    (hr : rest = [] ∨ ∃ t, rest = sep :: t) :
    matchAt (.group sep :: atoms) false (p ++ rest) =
      if p = [] then none else (matchAt atoms false rest).map (p :: ·) := by
  simp only [matchAt, takeWhile_piece hp hr]
  cases hlen : p.length
  case zero => simp [List.length_eq_zero_iff.mp hlen, longest]
  case succ n =>
    have hne : p ≠ [] := by rintro rfl; simp at hlen
    -- A shorter run leaves a unit other than the separator.
    have hshort : longest (fun n => (matchAt atoms false ((p ++ rest).drop n)).map ((p ++ rest).take n :: ·)) n = none := by
      refine longest_eq_none fun m hm _ => ?_
      have hlt : m < p.length := by omega
      have hdrop : (p ++ rest).drop m = p[m] :: ((p ++ rest).drop (m + 1)) := by
        rw [List.drop_eq_getElem_cons (by simp; omega)]
        simp [hlt]
      have hm : p[m] ≠ sep := fun he => hp (he ▸ List.getElem_mem hlt)
      rw [hdrop, ha _ _ hm]
      rfl
    simp [longest, hshort, hne, ← hlen]

end Pieces

end Exec

end RegExp
