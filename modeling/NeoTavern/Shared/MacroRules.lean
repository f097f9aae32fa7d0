import NeoTavern.Shared.Macros

namespace Shared.Macros

variable {ctx : MacroContext} {t rest body key s : Text} {parts : List Text} {u : UInt16}

-- What a name of the text stands for.
def ownValue (ctx : MacroContext) (key : Text) : Option Text :=
  (builtIn ctx key).or <| ctx.macroVariables.bind (Assoc.get · key)

def prepend (s : Text) : List Text → List Text
  | []            => [s]
  | part :: parts => (s ++ part) :: parts

-- Behind the macro that starts here, where `parts` reads the inside of a random macro.
def behind (parts : Text → Option (List Text × Text)) (t : Text) : Option Text :=
  match readVar t with
  | some (_, rest) => some rest
  | none           =>
    match readHead t with
    | none   => none
    | some t => if (closed t).isSome then none else (parts t).map (·.2)

-- The alternatives that a random macro lists: a macro inside belongs to an alternative as a whole.
def readParts : Nat → Text → Option (List Text × Text)
  | 0, _             => none
  | _ + 1, []        => none
  | fuel + 1, u :: t =>
    match closed (u :: t) with
    | some rest => some ([[]], rest)
    | none      =>
      match behind (readParts fuel) (u :: t) with
      | some rest => (readParts fuel rest).map fun (parts, r) => (prepend (Pattern.before (u :: t) rest) parts, r)
      | none      =>
        if u = 0x7d then
          none
        else
          (readParts fuel t).map fun (parts, r) => (if u = 0x7e then [] :: parts else prepend [u] parts, r)

def readNested (t : Text) : Option (List Text × Text) :=
  match readHead t with
  | none   => none
  | some t => if (closed t).isSome then none else readParts t.length t

-- The outputs that the rules for macros allow for a text.
inductive Resolves (ctx : MacroContext) : Text → Text → Prop
  | nil : Resolves ctx [] []
  | name {t key rest v out : Text} (hr : readVar t = some (key, rest)) (hv : ownValue ctx key = some v)
      (h : Resolves ctx rest out) : Resolves ctx t (v ++ out)
  | random {t rest part chosen out : Text} {parts : List Text} (hr : readNested t = some (parts, rest))
      (hp : part ∈ parts) (hc : Resolves ctx part.trim chosen) (h : Resolves ctx rest out) :
      Resolves ctx t (chosen ++ out)
  | plain {u : UInt16} {t out : Text} (hr : readNested (u :: t) = none)
      (hv : ∀ key rest, readVar (u :: t) = some (key, rest) → ownValue ctx key = none)
      (h : Resolves ctx t out) : Resolves ctx (u :: t) (u :: out)

-- What a random macro may be replaced by.
def choices (body : Text) : List Text :=
  if options body = [] then [[]] else options body

-- The texts between the two passes.
inductive Splice : Text → Text → Prop
  | nil : Splice [] []
  | unit {u : UInt16} {t s : Text} (hr : readRandom (u :: t) = none) (h : Splice t s) : Splice (u :: t) (u :: s)
  | hit {t rest body chosen s : Text} (hr : readRandom t = some (body, rest)) (hc : chosen ∈ choices body)
      (h : Splice rest s) : Splice t (chosen ++ s)

-- The places of a text at which the first pass looks for a match.
inductive Place (text : Text) : Text → Prop
  | start : Place text text
  | unit {u : UInt16} {t : Text} (h : Place text (u :: t)) (hr : readRandom (u :: t) = none) : Place text t
  | hit {t rest body : Text} (h : Place text t) (hr : readRandom t = some (body, rest)) : Place text rest

-- A name that the second pass replaces starts here.
def Replaced (ctx : MacroContext) (t : Text) : Prop :=
  ∃ key rest, readVar t = some (key, rest) ∧ (value ctx key).isSome

structure Clean (ctx : MacroContext) (text : Text) : Prop where
  -- No macro starts within the body of a random macro.
  flat {t body rest y z : Text} (hp : Place text t) (hr : readRandom t = some (body, rest)) (hb : body = y ++ z)
    (hz : z ≠ []) : readVar (z ++ 0x7d :: 0x7d :: rest) = none ∧ readRandom (z ++ 0x7d :: 0x7d :: rest) = none
  -- No name that is replaced starts within a chosen alternative,
  inside {t body rest chosen s y z : Text} (hp : Place text t) (hr : readRandom t = some (body, rest))
    (hc : chosen ∈ choices body) (hs : Splice rest s) (hb : chosen = y ++ z) (hz : z ≠ []) : ¬ Replaced ctx (z ++ s)
  -- and one that starts outside stands in the text itself.
  outside {u : UInt16} {t s : Text} (hp : Place text (u :: t)) (hr : readRandom (u :: t) = none) (hs : Splice t s)
    (h : Replaced ctx (u :: s)) : (readVar (u :: t)).isSome
  -- No name is one that objects inherit.
  own {s y z key rest : Text} (hs : Splice text s) (hb : s = y ++ z) (hr : readVar z = some (key, rest)) :
    value ctx key = ownValue ctx key

theorem value_of_ownValue {v : Text} (h : ownValue ctx key = some v) : value ctx key = some v := by
  cases hb : builtIn ctx key
  case some => simpa [ownValue, value, hb] using h
  case none =>
    cases hm : ctx.macroVariables
    case none      => simp [ownValue, hb, hm] at h
    case some vars =>
      have hg : Assoc.get vars key = some v := by simpa [ownValue, hb, hm] using h
      simp [value, hb, custom, hm, hg]

theorem ownValue_of_value_none (h : value ctx key = none) : ownValue ctx key = none := by
  cases ho : ownValue ctx key
  case none   => rfl
  case some v => simp [value_of_ownValue ho] at h

theorem splice_spec (draws : Nat → Draw) (k : Nat) (t : Text) : Splice t (splice draws k (random.scan t)) := by
  induction hn : t.length using Nat.strong_induction_on generalizing t k
  case _ n hi =>
    cases hr : random.read t
    case some hit =>
      have hr : random.read t = some (hit.1, hit.2) := hr
      rw [Pattern.scan_hit hr, splice]
      have hlt := Pattern.length_lt hr
      apply Splice.hit hr _ <| hi hit.2.length (by omega) (k + 1) hit.2 rfl
      cases pick_cases (draws k) hit.1
      case inl h => simp [choices, h]
      case inr h => simpa [choices, List.ne_nil_of_mem h] using h
    case none =>
      cases t
      case nil => exact .nil
      case cons u t =>
        rw [Pattern.scan_unit hr, splice]
        exact Splice.unit hr <| hi t.length (by simp [← hn]) k t rfl

theorem Place.extend {text : Text} (hp : Place text t) (hs : Splice t s) : ∃ y, Splice text (y ++ s) := by
  induction hp generalizing s
  case start => exact ⟨[], hs⟩
  case unit u t hp hr hi =>
    have ⟨y, hy⟩ := hi <| .unit hr hs
    exact ⟨y ++ [u], by simpa using hy⟩
  case hit t rest body hp hr hi =>
    have ⟨chosen, hc⟩ : ∃ chosen, chosen ∈ choices body := by
      by_cases ho : options body = []
      case pos => exact ⟨[], by simp [choices, ho]⟩
      case neg => exact ⟨(options body).head ho, by rw [choices, if_neg ho]; exact List.head_mem ho⟩
    have ⟨y, hy⟩ := hi <| .hit hr hc hs
    exact ⟨y ++ chosen, by simpa using hy⟩

theorem Place.append {text m : Text} (hp : Place text (m ++ t))
    (h : ∀ y z, m = y ++ z → z ≠ [] → readRandom (z ++ t) = none) : Place text t := by
  induction m
  case nil => exact hp
  case cons u m hi =>
    apply hi <| .unit hp <| h [] (u :: m) rfl <| List.cons_ne_nil u m
    intro y z hm hz
    exact h (u :: y) z (by rw [hm, List.cons_append]) hz

section Nesting

theorem dropWhile_of_lead {a : Text} (ha : ∀ u ∈ a, isLead u) :
    (0x7b :: 0x7b :: (a ++ t)).dropWhile (· ≠ 0x7d) = t.dropWhile (· ≠ 0x7d) := by
  rw [← List.cons_append, ← List.cons_append]
  apply List.dropWhile_append_of_pos
  intro u hu
  simp only [List.mem_cons] at hu
  rcases hu with hu | hu | hu
  · rw [hu]; decide
  · rw [hu]; decide
  · simpa using (isLead_ne <| ha u hu).2.1

theorem closed_of_readVar (h : readVar t = some (key, rest)) : (closed <| t.dropWhile (· ≠ 0x7d)).isSome := by
  have ⟨a, ha, ht⟩ := lead_of_readVar h
  rw [ht, dropWhile_of_lead ha]
  rfl

theorem dropWhile_of_readHead (h : readHead t = some rest) :
    t.dropWhile (· ≠ 0x7d) = rest.dropWhile (· ≠ 0x7d) := by
  have ⟨a, ha, ht⟩ := lead_of_readHead h
  rw [ht, dropWhile_of_lead ha, List.dropWhile_cons_of_pos (by decide)]

-- Whatever stands inside, the first closing brace of a macro is followed by another one.
theorem closed_of_readParts {fuel : Nat} (h : readParts fuel t = some (parts, rest)) :
    (closed <| t.dropWhile (· ≠ 0x7d)).isSome := by
  induction fuel generalizing t parts rest
  case zero => simp [readParts] at h
  case succ fuel hi =>
    cases t
    case nil => simp [readParts] at h
    case cons u t =>
      rw [readParts] at h
      cases hc : closed (u :: t)
      case some r =>
        rw [closed_eq_some.mp hc, List.dropWhile_cons_of_neg (by decide)]
        rfl
      case none =>
        rw [hc] at h
        cases hb : behind (readParts fuel) (u :: t)
        case some r =>
          cases hv : readVar (u :: t)
          case some hit => exact closed_of_readVar hv
          case none =>
            cases hh : readHead (u :: t)
            case none => simp [behind, hv, hh] at hb
            case some r' =>
              rw [dropWhile_of_readHead hh]
              simp only [behind, hv, hh] at hb
              split at hb
              case isTrue => cases hb
              case isFalse =>
                have ⟨hit, hp, _⟩ := Option.map_eq_some_iff.mp hb
                exact hi hp
        case none =>
          rw [hb] at h
          by_cases hu : u = 0x7d
          case pos => simp [hu] at h
          case neg =>
            simp only [hu, if_false, Option.map_eq_some_iff] at h
            have ⟨hit, hp, _⟩ := h
            rw [List.dropWhile_cons_of_pos (by simpa using hu)]
            exact hi hp

-- Where nothing reads as a random macro, nothing reads as one with macros inside.
theorem readHead_cases_of_readRandom_none (h : readRandom t = none) :
    readHead t = none ∨ ∃ r, readHead t = some r ∧ ((closed r).isSome ∨ ∀ fuel, readParts fuel r = none) := by
  cases hh : readHead t
  case none   => exact .inl rfl
  case some r =>
    refine .inr ⟨r, rfl, ?_⟩
    cases hc : closed <| r.dropWhile (· ≠ 0x7d)
    case none =>
      apply Or.inr
      intro fuel
      cases hp : readParts fuel r
      case none     => rfl
      case some hit =>
        have hs := closed_of_readParts hp
        rw [hc] at hs
        cases hs
    case some r' =>
      apply Or.inl
      have ht : r.takeWhile (· ≠ 0x7d) = [] := by
        simp only [readRandom, hh, hc, Option.bind_eq_bind, Option.bind_some] at h
        split at h
        case isTrue ht => exact ht
        case isFalse   => cases h
      rw [← List.takeWhile_append_dropWhile (p := (· ≠ 0x7d)) (l := r), ht, List.nil_append, hc]
      rfl

theorem readNested_eq_none (h : readRandom t = none) : readNested t = none := by
  cases readHead_cases_of_readRandom_none h
  case inl hh => simp [readNested, hh]
  case inr hr =>
    have ⟨r, hh, hr⟩ := hr
    cases hr
    case inl hc => simp [readNested, hh, hc]
    case inr hp => simp [readNested, hh, hp]

theorem behind_eq_none {fuel : Nat} (hv : readVar t = none) (hr : readRandom t = none) :
    behind (readParts fuel) t = none := by
  cases readHead_cases_of_readRandom_none hr
  case inl hh => simp [behind, hv, hh]
  case inr hr =>
    have ⟨r, hh, hr⟩ := hr
    cases hr
    case inl hc => simp [behind, hv, hh, hc]
    case inr hp => simp [behind, hv, hh, hp]

-- The parts of a body without macros are those that the code splits it into.
theorem readParts_of_flat {fuel : Nat} (hb : ∀ u ∈ body, u ≠ 0x7d)
    (h : ∀ y z, body = y ++ z → z ≠ [] →
      readVar (z ++ 0x7d :: 0x7d :: rest) = none ∧ readRandom (z ++ 0x7d :: 0x7d :: rest) = none)
    (hf : body.length < fuel) :
    readParts fuel (body ++ 0x7d :: 0x7d :: rest) = some (body.splitOn 0x7e, rest) := by
  induction body generalizing fuel
  case nil =>
    cases fuel
    case zero => simp at hf
    case succ => rfl
  case cons u body hi =>
    cases fuel
    case zero => simp at hf
    case succ fuel =>
      have hu : u ≠ 0x7d := hb u List.mem_cons_self
      have ⟨hv, hr⟩ := h [] (u :: body) rfl <| List.cons_ne_nil u body
      have hc : closed (u :: (body ++ 0x7d :: 0x7d :: rest)) = none := by
        cases hc : closed (u :: (body ++ 0x7d :: 0x7d :: rest))
        case none => rfl
        case some r =>
          have := closed_eq_some.mp hc
          simp [hu] at this
      have hrest : readParts fuel _ = _ := hi (fun v hv => hb v <| List.mem_cons_of_mem u hv)
        (fun y z hy hz => h (u :: y) z (by rw [hy, List.cons_append]) hz) (by simpa using hf)
      rw [List.cons_append] at hv hr ⊢
      rw [readParts, hc, behind_eq_none hv hr]
      simp only [hu, if_false, hrest, Option.map_some, Option.some.injEq, Prod.mk.injEq, and_true]
      rw [List.splitOn_cons_eq_if_modifyHead]
      by_cases htilde : u = 0x7e
      case pos => simp [htilde]
      case neg =>
        have hne := List.splitOn_ne_nil 0x7e body
        cases hs : body.splitOn 0x7e
        case nil  => exact absurd hs hne
        case cons => simp [htilde, prepend]

theorem readNested_of_flat (hr : readRandom t = some (body, rest))
    (h : ∀ y z, body = y ++ z → z ≠ [] →
      readVar (z ++ 0x7d :: 0x7d :: rest) = none ∧ readRandom (z ++ 0x7d :: 0x7d :: rest) = none) :
    readNested t = some (body.splitOn 0x7e, rest) := by
  simp only [readRandom, Option.bind_eq_bind, Option.bind_eq_some_iff] at hr
  obtain ⟨t₁, hh, t₂, hc, hr⟩ := hr
  rw [closed_eq_some] at hc
  split at hr
  case isTrue => cases hr
  case isFalse hne =>
    cases hr
    have hb : ∀ u ∈ t₁.takeWhile (· ≠ 0x7d), u ≠ 0x7d := by
      intro u hu
      simpa using List.mem_takeWhile_imp hu
    have ht : t₁ = t₁.takeWhile (· ≠ 0x7d) ++ 0x7d :: 0x7d :: rest := by
      rw [← hc, List.takeWhile_append_dropWhile]
    have hlen := congrArg List.length ht
    rw [List.length_append, List.length_cons] at hlen
    have hparts : readParts t₁.length _ = _ := readParts_of_flat hb h (by omega)
    rw [← ht] at hparts
    have hopen : closed t₁ = none := by
      cases ho : closed t₁
      case none   => rfl
      case some r => simp [closed_eq_some.mp ho] at hne
    simp [readNested, hh, hopen, hparts]

example : readNested (.ofString "\x7b\x7brandom:a~b\x7d\x7d") = some ([.ofString "a", .ofString "b"], []) := by
  decide +kernel

end Nesting

section Correctness

variable {text : Text} {draws : Nat → Draw}

def known (ctx : MacroContext) : Pattern UInt16 Text :=
  var.only fun key => (value ctx key).isSome

theorem known_read_eq_some {hit : Text × Text} :
    (known ctx).read t = some hit ↔ readVar t = some hit ∧ (value ctx hit.1).isSome :=
  Pattern.only_read_eq_some

theorem known_read_eq_none : (known ctx).read t = none ↔ ¬ Replaced ctx t := by
  rw [known, Pattern.only_read_eq_none, Replaced]
  simp only [not_exists, not_and, Bool.not_eq_true]
  rfl

def replaceKnown (ctx : MacroContext) (t : Text) : Text :=
  (known ctx).replace (fun key source => (value ctx key).getD source) t

theorem replaceMacros_eq : replaceMacros text ctx draws = replaceKnown ctx (splice draws 0 (random.scan text)) := by
  apply Pattern.replace_only var_separate
  intro key source hc
  rw [Option.isSome_eq_false_iff, Option.isNone_iff_eq_none] at hc
  rw [hc, Option.getD_none]

-- A text without a closing brace stands for itself.
theorem resolves_self (h : ∀ u ∈ t, u ≠ 0x7d) : Resolves ctx t t := by
  induction t
  case nil => exact .nil
  case cons u t hi =>
    have hend : (u :: t).dropWhile (· ≠ 0x7d) = [] := by
      rw [List.dropWhile_eq_nil_iff]
      intro v hv
      simpa using h v hv
    have hv : readVar (u :: t) = none := by
      cases hv : readVar (u :: t)
      case none     => rfl
      case some hit =>
        have hc := closed_of_readVar hv
        rw [hend] at hc
        cases hc
    have hr : readRandom (u :: t) = none := by
      cases hh : readHead (u :: t)
      case none => exact readRandom_eq_none_of_readHead hh
      case some r =>
        have hd := dropWhile_of_readHead hh
        rw [hend] at hd
        simp only [readRandom, hh, ← hd, Option.bind_eq_bind, Option.bind_some]
        rfl
    apply Resolves.plain (readNested_eq_none hr)
    case hv => simp [hv]
    case h  => exact hi fun v hv => h v <| List.mem_cons_of_mem u hv

theorem mem_choices {a : Text} (h : a ∈ choices body) : ∃ part ∈ body.splitOn 0x7e, a = CodeUnits.trim part := by
  by_cases ho : options body = []
  case neg =>
    rw [choices, if_neg ho, options, List.mem_filter, List.mem_map] at h
    have ⟨⟨part, hp, ha⟩, _⟩ := h
    exact ⟨part, hp, ha.symm⟩
  case pos =>
    rw [choices, if_pos ho, List.mem_singleton] at h
    rw [options, List.filter_eq_nil_iff] at ho
    have hm := List.head_mem <| List.splitOn_ne_nil 0x7e body
    have ht := ho _ <| List.mem_map_of_mem hm
    rw [decide_eq_true_iff, not_not] at ht
    exact ⟨_, hm, by rw [h, ht]⟩

theorem mem_trim {t : CodeUnits} (h : u ∈ t.trim) : u ∈ t := by
  rw [CodeUnits.trim, List.mem_reverse] at h
  have h := (List.dropWhile_suffix _).subset h
  rw [List.mem_reverse] at h
  exact (List.dropWhile_suffix _).subset h

-- A name of the text is read in the same way between the passes.
theorem splice_name (draws : Nat → Draw) (hv : readVar t = some (key, rest)) (k : Nat) :
    readVar (splice draws k (random.scan t)) = some (key, splice draws k (random.scan rest)) := by
  have ⟨m, _, ht⟩ := var.taken hv
  rw [ht] at hv ⊢
  rw [splice_of_readVar hv]
  exact readVar_append hv

theorem resolves_of_place (hc : Clean ctx text) (hp : Place text t) (k : Nat) :
    Resolves ctx t (replaceKnown ctx <| splice draws k (random.scan t)) := by
  induction hn : t.length using Nat.strong_induction_on generalizing t k
  case _ n hi =>
    cases hr : readRandom t
    case some hit =>
      replace hr : readRandom t = some (hit.1, hit.2) := hr
      have hlt := Pattern.length_lt (p := random) hr
      have hs := splice_spec draws (k + 1) hit.2
      have hchoice : pick (draws k) hit.1 ∈ choices hit.1 := by
        cases pick_cases (draws k) hit.1
        case inl h => simp [choices, h]
        case inr h => simpa [choices, List.ne_nil_of_mem h] using h
      obtain ⟨part, hpart, heq⟩ := mem_choices hchoice
      have hquiet : ∀ y z, pick (draws k) hit.1 = y ++ z → z ≠ [] →
          (known ctx).read (z ++ splice draws (k + 1) (random.scan hit.2)) = none :=
        fun y z hb hz => known_read_eq_none.mpr <| hc.inside hp hr hchoice hs hb hz
      rw [Pattern.scan_hit (p := random) hr, splice, replaceKnown, Pattern.replace_append hquiet]
      apply Resolves.random (readNested_of_flat hr fun y z hb hz => hc.flat hp hr hb hz) hpart
      case h => exact hi hit.2.length (by omega) (hp.hit hr) (k + 1) rfl
      case hc =>
        rw [heq]
        apply resolves_self
        intro u hu
        obtain ⟨_, _, _, hbody, _⟩ := lead_of_readRandom hr
        exact hbody u <| Lists.mem_of_mem_splitOn hpart <| mem_trim hu
    case none =>
      cases t
      case nil => exact .nil
      case cons u t =>
        have hs := splice_spec draws k t
        have hnext := hi t.length (by simp [← hn]) (hp.unit hr) k rfl
        rw [Pattern.scan_unit (p := random) hr, splice]
        cases hk : (known ctx).read (u :: splice draws k (random.scan t))
        case none =>
          rw [replaceKnown, Pattern.replace_unit hk]
          apply Resolves.plain (readNested_eq_none hr) _ hnext
          intro key rest hv
          have hread := splice_name draws hv k
          rw [Pattern.scan_unit (p := random) hr, splice] at hread
          apply ownValue_of_value_none
          rw [← Option.not_isSome_iff_eq_none]
          intro hsome
          exact known_read_eq_none.mp hk ⟨key, _, hread, hsome⟩
        case some hit =>
          obtain ⟨hread, hsome⟩ := known_read_eq_some.mp hk
          obtain ⟨v, hv⟩ := Option.isSome_iff_exists.mp hsome
          obtain ⟨found, hfound⟩ := Option.isSome_iff_exists.mp <| hc.outside hp hr hs ⟨hit.1, hit.2, hread, hsome⟩
          replace hfound : readVar (u :: t) = some (found.1, found.2) := hfound
          have hsame := splice_name draws hfound k
          rw [Pattern.scan_unit (p := random) hr, splice, hread, Option.some.injEq] at hsame
          rw [hsame] at hk hread hv
          have hlt := Pattern.length_lt (p := var) hfound
          have hplace : Place text found.2 := by
            obtain ⟨m, _, ht⟩ := var.taken hfound
            rw [ht] at hfound hp
            apply hp.append
            intro y z hm hz
            apply readRandom_eq_none_of_readHead
            exact readHead_within hfound hm hz
          obtain ⟨y, hy⟩ := hp.extend <| Splice.unit hr hs
          have hown := hc.own hy rfl hread
          rw [replaceKnown, Pattern.replace_hit hk, hv, Option.getD_some]
          rw [hv] at hown
          exact Resolves.name hfound hown.symm <| hi found.2.length (by omega) hplace k rfl

end Correctness

section Necessity

variable {text : Text}

def NoRandom (t : Text) : Prop :=
  ∀ y z, t = y ++ z → readRandom z = none

theorem NoRandom.suffix {m : Text} (h : NoRandom (m ++ t)) : NoRandom t := by
  intro y z ht
  exact h (m ++ y) z <| by rw [ht, List.append_assoc]

theorem noRandom_of_tails (h : ∀ z ∈ t.tails, readRandom z = none) : NoRandom t := by
  intro y z ht
  apply h
  rw [List.mem_tails]
  exact ⟨y, ht.symm⟩

theorem NoRandom.start (h : NoRandom t) : readRandom t = none :=
  h [] t rfl

theorem Splice.eq_of_noRandom (hs : Splice t s) (h : NoRandom t) : s = t := by
  induction hs
  case nil => rfl
  case unit u t s hr hs hi => rw [hi <| NoRandom.suffix (m := [u]) h]
  case hit t rest body chosen s hr hc hs hi =>
    rw [h.start] at hr
    cases hr

theorem Place.noRandom (hp : Place text t) (h : NoRandom text) : NoRandom t := by
  induction hp
  case start => exact h
  case unit u t hp hr hi => exact NoRandom.suffix (m := [u]) hi
  case hit t rest body hp hr hi =>
    rw [hi.start] at hr
    cases hr

def OwnOnly (ctx : MacroContext) (t : Text) : Prop :=
  ∀ y z key rest, t = y ++ z → readVar z = some (key, rest) → value ctx key = ownValue ctx key

theorem clean_iff_of_noRandom (h : NoRandom text) : Clean ctx text ↔ OwnOnly ctx text := by
  constructor
  case mp =>
    intro hc y z key rest hb hr
    have hs : Splice text text := by
      have hs := splice_spec (fun _ => ⟨0, le_rfl, one_pos⟩) 0 text
      rwa [hs.eq_of_noRandom h] at hs
    exact hc.own hs hb hr
  case mpr =>
    intro ho
    constructor
    case flat =>
      intro t body rest y z hp hr
      rw [(hp.noRandom h).start] at hr
      cases hr
    case inside =>
      intro t body rest chosen s y z hp hr
      rw [(hp.noRandom h).start] at hr
      cases hr
    case outside =>
      intro u t s hp hr hs hrep
      have hs := hs.eq_of_noRandom <| NoRandom.suffix (m := [u]) <| hp.noRandom h
      have ⟨key, rest, hread, _⟩ := hrep
      rw [← hs, hread]
      rfl
    case own =>
      intro s y z key rest hs hb hr
      rw [hs.eq_of_noRandom h] at hb
      exact ho y z key rest hb hr

-- What is inherited does not start with a brace.
theorem head_of_inherited {v : Text} (hv : value ctx key = some v) (ho : ownValue ctx key = none) :
    ∃ u v', v = u :: v' ∧ u ≠ 0x7b := by
  have hall : ∀ e ∈ objectPrototype, e.2.head?.isSome ∧ e.2.head? ≠ some 0x7b := by
    simp only [objectPrototype, List.map_cons, List.map_nil, List.forall_mem_cons]
    and_intros <;> decide +kernel
  have hget : Assoc.get objectPrototype key = some v := by
    rw [ownValue, Option.or_eq_none_iff] at ho
    rw [value, ho.1, Option.none_or, custom] at hv
    cases hm : ctx.macroVariables
    case none => simp [hm] at hv
    case some vars =>
      have hg : Assoc.get vars key = none := by simpa [hm] using ho.2
      simpa [hm, hg] using hv
  obtain ⟨hs, hne⟩ := hall _ <| Assoc.mem_of_get hget
  cases v
  case nil       => cases hs
  case cons u v' => exact ⟨u, v', rfl, by simpa using hne⟩

theorem Resolves.cases_of_noRandom {out : Text} (h : Resolves ctx t out) (hno : NoRandom t) :
    t = [] ∨
    (∃ key rest v out', readVar t = some (key, rest) ∧ ownValue ctx key = some v ∧ Resolves ctx rest out' ∧
      out = v ++ out') ∨
    ∃ u t' out', t = u :: t' ∧ (∀ key rest, readVar t = some (key, rest) → ownValue ctx key = none) ∧
      Resolves ctx t' out' ∧ out = u :: out' := by
  cases h
  case nil               => exact .inl rfl
  case name hv h hr      => exact .inr <| .inl ⟨_, _, _, _, hr, hv, h, rfl⟩
  case plain hr hv h     => exact .inr <| .inr ⟨_, _, _, rfl, hv, h, rfl⟩
  case random hp hc h hr =>
    rw [readNested_eq_none hno.start] at hr
    cases hr

theorem ownOnly_of_resolves (h : Resolves ctx t (replaceKnown ctx t)) (hno : NoRandom t) : OwnOnly ctx t := by
  induction hn : t.length using Nat.strong_induction_on generalizing t
  case _ n hi =>
    intro y z key rest hb hr
    cases hk : (known ctx).read t
    case some hit =>
      have ⟨name, left⟩ := hit
      have ⟨hread, hsome⟩ := known_read_eq_some.mp hk
      have ⟨v, hv⟩ := Option.isSome_iff_exists.mp hsome
      have ⟨m, _, hm⟩ := var.taken hread
      have hlt := Pattern.length_lt (p := var) hread
      rw [replaceKnown, Pattern.replace_hit hk, hv, Option.getD_some] at h
      obtain hnil | ⟨name', left', v', out', hread', hv', h', hout⟩ | ⟨u, t', out', ht, hv', _, hout⟩ :=
        h.cases_of_noRandom hno
      · rw [hnil] at hread
        cases hread
      · rw [hread] at hread'
        cases hread'
        have hown := value_of_ownValue hv'
        rw [hown, Option.some.injEq] at hv
        rw [hv, List.append_cancel_left_eq] at hout
        rw [← hout] at h'
        rw [hm] at hno
        have hrest := hi left.length (by omega) h' hno.suffix rfl
        rw [hb, List.append_eq_append_iff] at hm
        -- The place is within the first name or behind it.
        obtain ⟨as, hm, hz⟩ | ⟨bs, hy, hl⟩ := hm
        · by_cases has : as = []
          case pos => exact hrest [] z key rest (by rw [hz, has]; rfl) hr
          case neg =>
            by_cases hy : y = []
            case pos =>
              rw [hb, hy, List.nil_append, hr] at hread
              cases hread
              rw [hown, hv']
            case neg =>
              rw [hb, hz, ← List.append_assoc] at hread
              rw [hz, (quiet_within hread hy has).1] at hr
              cases hr
        · exact hrest bs z key rest hl hr
      · have ⟨a, v', hcons, hne⟩ := head_of_inherited hv <| hv' _ _ hread
        have ⟨_, _, hbrace⟩ := lead_of_readVar hread
        rw [hcons, List.cons_append, List.cons.injEq] at hout
        rw [ht, List.cons.injEq] at hbrace
        exact absurd (hout.1.trans hbrace.1) hne
    case none =>
      cases t
      case nil =>
        rw [List.nil_eq_append_iff] at hb
        rw [hb.2] at hr
        cases hr
      case cons u t =>
        rw [replaceKnown, Pattern.replace_unit hk] at h
        obtain hnil | ⟨key', rest', v', out', hread', hv', _, _⟩ | ⟨u, t', out', ht, hv', h', hout⟩ :=
          h.cases_of_noRandom hno
        · cases hnil
        · exact absurd ⟨key', rest', hread', by simp [value_of_ownValue hv']⟩ <| known_read_eq_none.mp hk
        · cases ht
          rw [List.cons.injEq] at hout
          rw [← hout.2] at h'
          have hrest := hi t.length (by simp [← hn]) h' (NoRandom.suffix (m := [u]) hno) rfl
          cases y
          case nil =>
            rw [List.nil_append] at hb
            rw [← hb] at hr
            have hnone : value ctx key = none := by
              rw [← Option.not_isSome_iff_eq_none]
              intro hsome
              exact known_read_eq_none.mp hk ⟨key, rest, hr, hsome⟩
            rw [hnone, ownValue_of_value_none hnone]
          case cons w y =>
            rw [List.cons_append, List.cons.injEq] at hb
            exact hrest y z key rest hb.2 hr

end Necessity

-- With no random macro in the text, the condition is the exact one.
theorem replaceMacros_resolves (text : Text) (ctx : MacroContext) (draws : Nat → Draw) :
    (Clean ctx text → Resolves ctx text (replaceMacros text ctx draws)) ∧
    (NoRandom text → (Resolves ctx text (replaceMacros text ctx draws) ↔ Clean ctx text)) := by
  constructor
  case left =>
    intro hc
    rw [replaceMacros_eq]
    exact resolves_of_place hc .start 0
  case right =>
    intro hno
    rw [replaceMacros_eq, (splice_spec draws 0 text).eq_of_noRandom hno, clean_iff_of_noRandom hno]
    constructor
    case mp =>
      intro h
      exact ownOnly_of_resolves h hno
    case mpr =>
      intro h
      have hc := (clean_iff_of_noRandom hno).mpr h
      have hr : Resolves ctx text (replaceKnown ctx <| splice draws 0 (random.scan text)) :=
        resolves_of_place hc .start 0
      rwa [(splice_spec draws 0 text).eq_of_noRandom hno] at hr

theorem replaceMacros_resolves_user :
    Resolves ⟨[0x41], [0x42], none, ⟨2024, 0, 1, 0, 0, "Monday"⟩⟩ (CodeUnits.ofString "\x7b\x7buser\x7d\x7d!")
      (replaceMacros (CodeUnits.ofString "\x7b\x7buser\x7d\x7d!")
        ⟨[0x41], [0x42], none, ⟨2024, 0, 1, 0, 0, "Monday"⟩⟩ fun _ => ⟨0, le_rfl, one_pos⟩) := by
  have hno : NoRandom (CodeUnits.ofString "\x7b\x7buser\x7d\x7d!") := noRandom_of_tails <| by decide
  apply (replaceMacros_resolves _ _ _).1
  rw [clean_iff_of_noRandom hno]
  intro y z key rest hb hr
  simp [value, custom, ownValue]

-- A name of the prototype is replaced by the text of a function.
theorem not_resolves_constructor :
    ¬ Resolves ⟨[0x41], [0x42], some [], ⟨2024, 0, 1, 0, 0, "Monday"⟩⟩
      (CodeUnits.ofString "\x7b\x7bconstructor\x7d\x7d")
      (replaceMacros (CodeUnits.ofString "\x7b\x7bconstructor\x7d\x7d")
        ⟨[0x41], [0x42], some [], ⟨2024, 0, 1, 0, 0, "Monday"⟩⟩ fun _ => ⟨0, le_rfl, one_pos⟩) := by
  have hno : NoRandom (CodeUnits.ofString "\x7b\x7bconstructor\x7d\x7d") := noRandom_of_tails <| by decide
  intro h
  rw [replaceMacros_eq, (splice_spec _ 0 _).eq_of_noRandom hno] at h
  have howned := ownOnly_of_resolves h hno [] _ (CodeUnits.ofString "constructor") [] rfl (by decide)
  exact absurd howned <| by decide

end Shared.Macros
