import Mathlib
import NeoTavern.Prompt.Audit

namespace Prompt

-- The mode of a profile. One that is empty, or none at all, leaves the messages as they are.
inductive PromptPostProcessingMode
  | off
  | merge
  | mergeTools
  | semi
  | semiTools
  | strict
  | strictTools
  | single
  deriving DecidableEq

structure PromptPostProcessingNames where
  charName : Option String := none
  userName : Option String := none
  deriving DecidableEq

structure MergeOptions where
  strict       : Bool := false
  placeholders : Bool := false
  single       : Bool := false
  tools        : Bool := false
  deriving DecidableEq

def defaultPromptPlaceholder : String :=
  "Let's get started."

def prefixOnce (content : String) (name : Option String) : String :=
  match name.filter (· ≠ "") with
  | none      => content
  | some name =>
    let start := name ++ ": "
    if start.toList.isPrefixOf content.toList then content else start ++ content

def toMessage (role : MessageRole) (content : String) : GenerationMessage where
  role
  content
  name := none

def normalizedRole (options : MergeOptions) (role : MessageRole) : MessageRole :=
  let role := if role = .tool && !options.tools then .user else role
  let role := if role = .plugin then .user else role
  if options.single then .user else role

-- The content of a message behind the names that are folded into it.
def normalizedContent (names : PromptPostProcessingNames) (options : MergeOptions)
    (source : GenerationMessage) : String :=
  let content := source.content
  let content := if source.role = .system && source.name = some "example_assistant" then
    prefixOnce content names.charName else content
  let content := if source.role = .system && source.name = some "example_user" then
    prefixOnce content names.userName else content
  let content := if source.role ≠ .system then prefixOnce content source.name else content
  if options.single then
    let role := normalizedRole { options with single := false } source.role
    let content := if role = .assistant then prefixOnce content names.charName else content
    if role = .user then prefixOnce content names.userName else content
  else
    content

def normalize (names : PromptPostProcessingNames) (options : MergeOptions)
    (source : GenerationMessage) : GenerationMessage :=
  toMessage (normalizedRole options source.role) (normalizedContent names options source)

def joins (last message : GenerationMessage) : Bool :=
  last.role = message.role && message.content ≠ "" && message.role ≠ .tool

def append (last message : GenerationMessage) : GenerationMessage :=
  { last with content := last.content ++ "\n\n" ++ message.content }

-- One round of the loop.
def squashMessage (merged : List GenerationMessage) (message : GenerationMessage) : List GenerationMessage :=
  match merged.getLast? with
  | none      => merged ++ [message]
  | some last => if joins last message then merged.dropLast ++ [append last message] else merged ++ [message]

def squash (messages : List GenerationMessage) : List GenerationMessage :=
  messages.foldl squashMessage []

def squashed (messages : List GenerationMessage) (names : PromptPostProcessingNames)
    (options : MergeOptions) (placeholder : String) : List GenerationMessage :=
  let merged := squash <| messages.map <| normalize names options
  if merged = [] then [toMessage .user placeholder] else merged

-- A message behind the first one does not speak for the system.
def demote (message : GenerationMessage) : GenerationMessage :=
  if message.role = .system then toMessage .user message.content else message

def rewriteSystem : List GenerationMessage → List GenerationMessage
  | []            => []
  | first :: rest => first :: rest.map demote

def insertPlaceholder (placeholder : String) : List GenerationMessage → List GenerationMessage
  | []            => []
  | first :: rest =>
    if first.role = .system && rest.head?.all (·.role ≠ .user) then
      first :: toMessage .user placeholder :: rest
    else if first.role ≠ .system && first.role ≠ .user then
      toMessage .user placeholder :: first :: rest
    else
      first :: rest

-- The call of itself at the end is not strict, so it is the first part once more.
def mergeMessages (messages : List GenerationMessage) (names : PromptPostProcessingNames)
    (options : MergeOptions) (placeholder : String) : List GenerationMessage :=
  let merged := squashed messages names options placeholder
  if options.strict then
    let rewritten := rewriteSystem merged
    let filled := if options.placeholders then insertPlaceholder placeholder rewritten else rewritten
    squashed filled names { options with strict := false, single := false } placeholder
  else
    merged

namespace PromptPostProcessingMode

def options : PromptPostProcessingMode → MergeOptions
  | .off         => {}
  | .merge       => {}
  | .mergeTools  => { tools := true }
  | .semi        => { strict := true }
  | .semiTools   => { strict := true, tools := true }
  | .strict      => { strict := true, placeholders := true }
  | .strictTools => { strict := true, placeholders := true, tools := true }
  | .single      => { strict := true, single := true }

end PromptPostProcessingMode

def postProcessMessages (messages : List GenerationMessage) (mode : PromptPostProcessingMode)
    (names : PromptPostProcessingNames) (placeholder : String) : List GenerationMessage :=
  if mode = .off then
    messages.map fun message => toMessage message.role message.content
  else
    mergeMessages messages names mode.options placeholder

end Prompt

namespace Prompt

section Shapes

-- Of two messages in a row with one role, both are those of tools.
def Alternate (m m' : GenerationMessage) : Prop :=
  m.role = m'.role → m.role = .tool

def SystemFirst (out : List GenerationMessage) : Prop :=
  ∀ m ∈ out.tail, m.role ≠ .system

def UserFirst (out : List GenerationMessage) : Prop :=
  (out.find? fun m => m.role ≠ .system).map (·.role) = some .user

def Shaped (out : List GenerationMessage) : PromptPostProcessingMode → Prop
  | .off                     => True
  | .merge | .mergeTools     => out.IsChain Alternate
  | .semi | .semiTools       => out.IsChain Alternate ∧ SystemFirst out
  | .strict | .strictTools   => out.IsChain Alternate ∧ SystemFirst out ∧ UserFirst out
  | .single                  => out.map (·.role) = [.user]

-- A message and the pieces that it is made of.
def Woven (m : GenerationMessage) (ps : List (Option Nat × String)) : Prop :=
  ps ≠ [] ∧ m.content = String.intercalate "\n\n" (ps.map (·.snd))

-- The pieces are the messages in order, behind the names that are folded into them, and placeholders.
structure Accounted (messages : List GenerationMessage) (placeholder : String)
    (ps : List (Option Nat × String)) : Prop where
  order    : ps.filterMap (·.fst) = List.range messages.length
  text     : ∀ i text, (some i, text) ∈ ps → ∃ m ∈ messages[i]?, ∃ start, text = start ++ m.content
  inserted : ∀ text, (none, text) ∈ ps → text = placeholder

def KeepsText (messages : List GenerationMessage) (placeholder : String) (out : List GenerationMessage) : Prop :=
  ∃ pieces, List.Forall₂ Woven out pieces ∧ Accounted messages placeholder pieces.flatten

end Shapes

section Conditions

-- A message without content directly follows one with the same role.
def NoBlank (m m' : GenerationMessage) : Prop :=
  m.role = m'.role → m'.role ≠ .tool → m'.content ≠ ""

def demotedRole (role : MessageRole) : MessageRole :=
  if role = .system then .user else role

-- The messages from the first one on that are squashed into it keep the role of the system.
def roleBehind (pre : List GenerationMessage) (prev : GenerationMessage) : MessageRole :=
  if (pre ++ [prev]).IsChain (fun m m' => joins m m') then prev.role else demotedRole prev.role

-- A message without content, into which the next one is not squashed, directly follows one that gets the
-- same role.
def RepeatsBlank (turns : List GenerationMessage) : Prop :=
  ∃ pre prev cur post, turns = pre ++ prev :: cur :: post ∧ cur.content = "" ∧ cur.role ≠ .tool ∧
    (∀ m ∈ post.head?, joins cur m = false) ∧ roleBehind pre prev = demotedRole cur.role

def Clear (names : PromptPostProcessingNames) (messages : List GenerationMessage)
    (mode : PromptPostProcessingMode) : Prop :=
  match mode with
  | .off                 => True
  | .merge | .mergeTools => (messages.map <| normalize names mode.options).IsChain NoBlank
  | _                    => ¬RepeatsBlank (messages.map <| normalize names mode.options)

end Conditions

section Squash

variable {l : List GenerationMessage} {m last : GenerationMessage}

theorem squash_concat : squash (l ++ [m]) = squashMessage (squash l) m := by
  rw [squash, List.foldl_append]
  rfl

theorem squashMessage_of_joins {merged : List GenerationMessage} (h : joins last m) :
    squashMessage (merged ++ [last]) m = merged ++ [append last m] := by
  simp [squashMessage, h]

theorem squashMessage_of_not {merged : List GenerationMessage} (h : joins last m = false) :
    squashMessage (merged ++ [last]) m = merged ++ [last] ++ [m] := by
  simp [squashMessage, h]

-- The last message so far has the role of the last one that has come.
theorem squash_last (l : List GenerationMessage) (m : GenerationMessage) :
    ∃ merged last, squash (l ++ [m]) = merged ++ [last] ∧ last.role = m.role := by
  rw [squash_concat]
  rcases (squash l).eq_nil_or_concat with hnil | ⟨merged, last, heq⟩
  · exact ⟨[], m, by rw [hnil]; rfl, rfl⟩
  · rw [List.concat_eq_append] at heq
    rw [heq]
    cases hj : joins last m
    case true  =>
      have hrole : last.role = m.role := by
        simp only [joins, Bool.and_eq_true, decide_eq_true_eq] at hj
        exact hj.left.left
      exact ⟨merged, append last m, squashMessage_of_joins hj, hrole⟩
    case false => exact ⟨merged ++ [last], m, squashMessage_of_not hj, rfl⟩

theorem isChain_concat {R : GenerationMessage → GenerationMessage → Prop} {merged : List GenerationMessage} :
    (merged ++ [last] ++ [m]).IsChain R ↔ (merged ++ [last]).IsChain R ∧ R last m := by
  rw [List.append_assoc, List.singleton_append, List.isChain_append_cons_cons]
  simp

theorem isChain_of_role {R : GenerationMessage → GenerationMessage → Prop} {merged : List GenerationMessage}
    (hr : ∀ x, R x last ↔ R x m) : (merged ++ [last]).IsChain R ↔ (merged ++ [m]).IsChain R := by
  rw [List.isChain_append, List.isChain_append]
  simp [hr]

-- Two messages in a row share a role exactly where one without content has followed.
theorem squash_alternates : (squash l).IsChain Alternate ↔ l.IsChain NoBlank := by
  induction l using List.reverseRecOn
  case nil          => exact iff_of_true .nil .nil
  case append_singleton l m ih =>
    rcases l.eq_nil_or_concat with rfl | ⟨l, prev, rfl⟩
    · exact iff_of_true (.singleton _) (.singleton _)
    · rw [List.concat_eq_append] at ih ⊢
      have ⟨merged, last, heq, hrole⟩ := squash_last l prev
      rw [squash_concat, isChain_concat, ← ih, heq]
      cases hj : joins last m
      case true  =>
        rw [squashMessage_of_joins hj]
        have hsame : (merged ++ [last]).IsChain Alternate ↔ (merged ++ [append last m]).IsChain Alternate :=
          isChain_of_role fun _ => Iff.rfl
        simp only [joins, Bool.and_eq_true, decide_eq_true_eq] at hj
        exact hsame.symm.trans (and_iff_left fun _ _ => hj.left.right).symm
      case false =>
        rw [squashMessage_of_not hj, isChain_concat]
        simp only [joins, Bool.and_eq_false_iff, decide_eq_false_iff_not] at hj
        refine and_congr_right fun _ => ?_
        rw [Alternate, NoBlank, hrole]
        constructor
        · intro h heq hne
          exact absurd (h heq) (heq ▸ hne)
        · intro h heq
          by_contra htool
          have hne : m.role ≠ .tool := heq ▸ htool
          have hcontent := h heq hne
          simp [heq, hrole, hcontent, hne] at hj

-- The roles only grow, by those of the messages that come.
theorem roles_foldl (l acc : List GenerationMessage) : ∃ rs : List MessageRole, rs.Sublist (l.map (·.role)) ∧
    (l.foldl squashMessage acc).map (·.role) = acc.map (·.role) ++ rs := by
  induction l generalizing acc
  case nil         => exact ⟨[], .slnil, (List.append_nil _).symm⟩
  case cons m l ih =>
    have hstep : (squashMessage acc m).map (·.role) = acc.map (·.role) ∨
        (squashMessage acc m).map (·.role) = acc.map (·.role) ++ [m.role] := by
      rcases acc.eq_nil_or_concat with rfl | ⟨merged, last, rfl⟩
      · exact .inr rfl
      · rw [List.concat_eq_append]
        cases hj : joins last m
        case true  =>
          rw [squashMessage_of_joins hj]
          exact .inl <| by simp [append]
        case false =>
          rw [squashMessage_of_not hj]
          exact .inr <| by simp
    have ⟨rs, hsub, heq⟩ := ih (squashMessage acc m)
    rw [List.foldl_cons, heq, List.map_cons]
    rcases hstep with hstep | hstep
    · exact ⟨rs, hsub.cons _, by rw [hstep]⟩
    · exact ⟨m.role :: rs, hsub.cons_cons _, by rw [hstep, List.append_assoc]; rfl⟩

theorem forall_foldl {P : GenerationMessage → Prop} {acc : List GenerationMessage}
    (happend : ∀ last m, P last → P (append last m)) (hacc : ∀ m ∈ acc, P m) (hl : ∀ m ∈ l, P m) :
    ∀ m ∈ l.foldl squashMessage acc, P m := by
  induction l generalizing acc
  case nil         => exact hacc
  case cons m l ih =>
    refine ih ?_ fun m' hm' => hl m' <| List.mem_cons_of_mem _ hm'
    have hm := hl m List.mem_cons_self
    rcases acc.eq_nil_or_concat with rfl | ⟨merged, last, rfl⟩
    · exact fun m' hm' => List.mem_singleton.mp hm' ▸ hm
    · rw [List.concat_eq_append] at hacc ⊢
      have hlast := hacc last (by simp)
      cases hj : joins last m
      case true  =>
        rw [squashMessage_of_joins hj]
        simp only [List.forall_mem_append, List.forall_mem_singleton] at hacc ⊢
        exact ⟨hacc.left, happend last m hlast⟩
      case false =>
        rw [squashMessage_of_not hj]
        simp only [List.forall_mem_append, List.forall_mem_singleton] at hacc ⊢
        exact ⟨hacc, hm⟩

end Squash

section Runs

variable {l g : List GenerationMessage} {m last : GenerationMessage}

-- What a run of messages is squashed into.
def joined : List GenerationMessage → GenerationMessage
  | []      => toMessage .user ""
  | m :: ms => ms.foldl append m

theorem joined_concat (h : g ≠ []) : joined (g ++ [m]) = append (joined g) m := by
  cases g
  case nil       => exact absurd rfl h
  case cons x xs => rw [List.cons_append, joined, joined, List.foldl_append]; rfl

theorem joined_role (h : g ≠ []) : (joined g).role = (g.head h).role := by
  induction g using List.reverseRecOn
  case nil                   => exact absurd rfl h
  case append_singleton g m ih =>
    by_cases hg : g = []
    case pos => subst hg; rfl
    case neg =>
      rw [joined_concat hg, List.head_append_of_ne_nil hg]
      exact ih hg

-- A run has one role, and content as soon as it has a second message.
theorem role_of_isChain (hg : g.IsChain fun m m' => joins m m') (h : g ≠ []) :
    (g.head h).role = (g.getLast h).role := by
  induction g
  case nil           => exact absurd rfl h
  case cons m g ih =>
    cases g
    case nil       => rfl
    case cons m' g =>
      have ⟨hj, hg⟩ := List.isChain_cons_cons.mp hg
      simp only [joins, Bool.and_eq_true, decide_eq_true_eq] at hj
      rw [List.getLast_cons (List.cons_ne_nil _ _), ← ih hg (List.cons_ne_nil _ _)]
      exact hj.left.left

theorem joined_content_eq_empty (h : g ≠ []) : (joined g).content = "" ↔ ∃ m, g = [m] ∧ m.content = "" := by
  induction g using List.reverseRecOn
  case nil                     => exact absurd rfl h
  case append_singleton g m ih =>
    by_cases hg : g = []
    case pos =>
      subst hg
      exact ⟨fun h => ⟨m, rfl, h⟩, fun ⟨_, heq, h⟩ => by cases heq; exact h⟩
    case neg =>
      rw [joined_concat hg]
      refine iff_of_false (fun h => ?_) fun ⟨x, heq, _⟩ => ?_
      · have hlength := congrArg (fun s => s.toList.length) h
        simp [append] at hlength
      · have hlength := congrArg List.length heq
        exact hg <| by simpa using hlength

theorem joins_congr {last' : GenerationMessage} (h : last.role = last'.role) : joins last m = joins last' m := by
  rw [joins, joins, h]

theorem splitBy_concat (prev : GenerationMessage) (hj : joins prev m) : ∃ gs g, g ≠ [] ∧
    (l ++ [prev]).splitBy joins = gs ++ [g] ∧ (l ++ [prev] ++ [m]).splitBy joins = gs ++ [g ++ [m]] := by
  have ⟨hflatten, hnil, hchain, hbetween⟩ := List.splitBy_eq_iff.mp (rfl : (l ++ [prev]).splitBy joins = _)
  rcases ((l ++ [prev]).splitBy joins).eq_nil_or_concat with hempty | ⟨gs, g, heq⟩
  · simp at hempty
  · rw [List.concat_eq_append] at heq
    rw [heq] at hflatten hnil hchain hbetween
    have hg : g ≠ [] := fun h => hnil (by simp [h])
    have hlast : g.getLast hg = prev := by
      have h := congrArg List.getLast? hflatten
      simpa [List.getLast?_append, List.getLast?_eq_some_getLast hg] using h.symm
    refine ⟨gs, g, hg, heq, List.splitBy_eq_iff.mpr ⟨?_, ?_, ?_, ?_⟩⟩
    · rw [hflatten]
      simp
    · simpa using fun h => hnil (by simp [h])
    · intro r hr
      rcases List.mem_append.mp hr with hr | hr
      · exact hchain r <| List.mem_append_left _ hr
      · obtain rfl := List.mem_singleton.mp hr
        refine List.isChain_append.mpr ⟨hchain g (by simp), .singleton _, fun x hx y hy => ?_⟩
        rw [List.getLast?_eq_some_getLast hg, hlast] at hx
        cases hx
        cases hy
        exact hj
    · refine (List.isChain_append.mp hbetween).left.append (.singleton _) fun x hx y hy => ?_
      have ⟨hx', _, hno⟩ := (List.isChain_append.mp hbetween).right.right x hx g rfl
      cases hy
      exact ⟨hx', by simp, by rw [List.head_append_of_ne_nil hg]; exact hno⟩

theorem squash_eq : squash l = (l.splitBy joins).map joined := by
  induction l using List.reverseRecOn
  case nil                     => rfl
  case append_singleton l m ih =>
    rcases l.eq_nil_or_concat with rfl | ⟨l, prev, rfl⟩
    · rfl
    · rw [List.concat_eq_append] at ih ⊢
      have ⟨merged, last, heq, hrole⟩ := squash_last l prev
      rw [squash_concat]
      cases hj : joins prev m
      case true  =>
        have ⟨gs, g, hg, hsplit, hsplit'⟩ := splitBy_concat (l := l) prev hj
        rw [ih, hsplit, List.map_append, List.map_singleton] at heq
        have ⟨hmerged, hlast⟩ := List.append_inj' heq rfl
        rw [ih, hsplit, hsplit', List.map_append, List.map_append, List.map_singleton, List.map_singleton,
          joined_concat hg]
        refine squashMessage_of_joins ?_
        rw [List.singleton_inj.mp hlast, joins_congr hrole]
        exact hj
      case false =>
        have hsplit : (l ++ [prev] ++ [m]).splitBy joins = (l ++ [prev]).splitBy joins ++ [[m]] :=
          List.splitBy_append_cons [] (by simpa using hj)
        rw [hsplit, List.map_append, ← ih, heq]
        exact squashMessage_of_not <| (joins_congr hrole).trans hj

end Runs

section Strict

variable {turns : List GenerationMessage}

theorem demote_role {m : GenerationMessage} : (demote m).role = demotedRole m.role := by
  rw [demote, demotedRole]
  split <;> rfl

theorem demote_content {m : GenerationMessage} : (demote m).content = m.content := by
  rw [demote]
  split <;> rfl

-- Two messages in a row of what is rewritten.
theorem isChain_rewriteSystem {R : GenerationMessage → GenerationMessage → Prop}
    {merged : List GenerationMessage} : (rewriteSystem merged).IsChain R ↔ ∀ pre m m' post, merged = pre ++ m :: m' :: post →
      R (if pre = [] then m else demote m) (demote m') := by
  cases merged
  case nil            => exact iff_of_true .nil fun pre m m' post h => by simp at h
  case cons first rest =>
    rw [rewriteSystem, List.isChain_cons, List.isChain_map, List.isChain_iff_forall_rel_of_append_cons_cons]
    constructor
    case mp  =>
      intro ⟨hfirst, hrest⟩ pre m m' post heq
      cases pre
      case nil       =>
        cases heq
        exact hfirst _ rfl
      case cons x pre =>
        rw [if_neg (List.cons_ne_nil _ _)]
        exact hrest (List.cons.inj heq).right
    case mpr =>
      intro h
      constructor
      case left  =>
        intro m' hm'
        cases rest
        case nil         => cases hm'
        case cons x rest =>
          cases hm'
          exact h [] first x rest rfl
      case right =>
        intro m m' pre post heq
        have hm := h (first :: pre) m m' post (by rw [heq]; rfl)
        rwa [if_neg (List.cons_ne_nil _ _)] at hm

theorem append_ne_nil_isChain {gs : List (List GenerationMessage)} {g : List GenerationMessage}
    (hnil : [] ∉ gs ++ [g]) (hchain : ∀ r ∈ gs ++ [g], r.IsChain fun m m' => joins m m')
    (hbetween : (gs ++ [g]).IsChain fun a b => ∃ ha hb, joins (a.getLast ha) (b.head hb) = false) :
    (gs.flatten ++ g).IsChain (fun m m' => joins m m') ↔ gs = [] := by
  constructor
  case mp  =>
    intro h
    by_contra hgs
    have hsplit := List.splitBy_flatten hnil hchain hbetween
    have hg : gs.flatten ++ g ≠ [] := by
      rcases gs.eq_nil_or_concat with heq | ⟨_, x, heq⟩
      · exact absurd heq hgs
      · have hx : x ≠ [] := fun hx => hnil (by simp [heq, hx])
        simp [heq, hx]
    have hone := List.splitBy_of_isChain hg h
    have hflatten : (gs ++ [g]).flatten = gs.flatten ++ g := by simp
    rw [hflatten, hone] at hsplit
    have hlength := congrArg List.length hsplit
    exact hgs <| by simpa using hlength
  case mpr =>
    rintro rfl
    exact hchain g (by simp)

-- The role of what stands before a message is that of the run it belongs to.
theorem roleBehind_eq {pre : List GenerationMessage} {prev : GenerationMessage} {gs : List (List GenerationMessage)}
    {g : List GenerationMessage} (h : (pre ++ [prev]).splitBy joins = gs ++ [g]) :
    (if gs.map joined = [] then joined g else demote (joined g)).role = roleBehind pre prev := by
  have ⟨hflatten, hnil, hchain, hbetween⟩ := List.splitBy_eq_iff.mp h
  have hg : g ≠ [] := fun h => hnil (by simp [h])
  have hlast : g.getLast hg = prev := by
    have h := congrArg List.getLast? hflatten
    simpa [List.getLast?_append, List.getLast?_eq_some_getLast hg] using h.symm
  have hrole : (joined g).role = prev.role := by
    rw [joined_role hg, role_of_isChain (hchain g (by simp)) hg, hlast]
  have hone : (pre ++ [prev]).IsChain (fun m m' => joins m m') ↔ gs.map joined = [] := by
    rw [hflatten, List.flatten_append, List.flatten_singleton, append_ne_nil_isChain hnil hchain hbetween,
      List.map_eq_nil_iff]
  rw [roleBehind]
  by_cases hgs : gs.map joined = []
  case pos => rw [if_pos hgs, if_pos (hone.mpr hgs), hrole]
  case neg => rw [if_neg hgs, if_neg (fun h => hgs (hone.mp h)), demote_role, hrole]

theorem splitBy_blank {cur : GenerationMessage} {pre post : List GenerationMessage} (hcur : cur.content = "")
    (hpost : ∀ m ∈ post.head?, joins cur m = false) :
    (pre ++ cur :: post).splitBy joins = pre.splitBy joins ++ [cur] :: post.splitBy joins := by
  have hbefore : ∀ m ∈ pre.getLast?, joins m cur = false := fun _ _ => by simp [joins, hcur]
  have hone : ([cur] ++ post).splitBy joins = [cur].splitBy joins ++ post.splitBy joins :=
    List.splitBy_append fun x hx y hy => by
      cases hx
      exact hpost y hy
  rw [List.splitBy_append_cons post hbefore]
  exact congrArg _ hone

-- Where the rewritten messages repeat a role without content, the messages did.
theorem rewriteSystem_iff : (rewriteSystem (squash turns)).IsChain NoBlank ↔ ¬RepeatsBlank turns := by
  rw [isChain_rewriteSystem, squash_eq]
  constructor
  case mp  =>
    rintro h ⟨pre, prev, cur, post, rfl, hcur, htool, hpost, hrole⟩
    have hsplit : (pre ++ prev :: cur :: post).splitBy joins =
        (pre ++ [prev]).splitBy joins ++ [cur] :: post.splitBy joins := by
      rw [← splitBy_blank hcur hpost]
      simp
    rcases ((pre ++ [prev]).splitBy joins).eq_nil_or_concat with hempty | ⟨gs, g, heq⟩
    · simp at hempty
    · rw [List.concat_eq_append] at heq
      have hno := h (gs.map joined) (joined g) (joined [cur]) ((post.splitBy joins).map joined) (by
        rw [hsplit, heq]
        simp)
      have hdemoted : (demote cur).role ≠ .tool := by
        rw [demote_role, demotedRole]
        split
        case isTrue  => decide
        case isFalse => exact htool
      refine hno ?_ hdemoted (demote_content.trans hcur)
      rw [roleBehind_eq heq, hrole]
      exact demote_role.symm
  case mpr =>
    intro h pre m m' post heq hrole htool hcontent
    have ⟨hflatten, hnil, hchain, hbetween⟩ := List.splitBy_eq_iff.mp (rfl : turns.splitBy joins = _)
    obtain ⟨gs, rest, hsplit, hpre, hrest⟩ := List.map_eq_append_iff.mp heq
    obtain ⟨g, rest, rfl, hm, hrest⟩ := List.map_eq_cons_iff.mp hrest
    obtain ⟨g', gs', rfl, hm', -⟩ := List.map_eq_cons_iff.mp hrest
    subst hpre hm hm'
    rw [hsplit] at hflatten hnil hchain hbetween
    have hg : g ≠ [] := fun h => hnil (by simp [h])
    have hg' : g' ≠ [] := fun h => hnil (by simp [h])
    rw [demote_content, joined_content_eq_empty hg'] at hcontent
    obtain ⟨cur, rfl, hcur⟩ := hcontent
    have hfront : g.dropLast ++ [g.getLast hg] = g := List.dropLast_append_getLast hg
    have hbefore : (gs.flatten ++ g.dropLast ++ [g.getLast hg]).splitBy joins = gs ++ [g] := by
      have hpart : gs.flatten ++ g.dropLast ++ [g.getLast hg] = (gs ++ [g]).flatten := by
        rw [List.append_assoc, hfront]
        simp
      rw [hpart]
      refine List.splitBy_flatten ?_ (fun r hr => hchain r ?_) ?_
      · exact fun hmem => hnil (by simp at hmem ⊢; exact hmem.imp_right .inl)
      · rcases List.mem_append.mp hr with hr | hr
        · exact List.mem_append_left _ hr
        · simp [List.mem_singleton.mp hr]
      · have hall : gs ++ g :: [cur] :: gs' = (gs ++ [g]) ++ [cur] :: gs' := by simp
        rw [hall] at hbetween
        exact hbetween.left_of_append
    refine h ⟨gs.flatten ++ g.dropLast, g.getLast hg, cur, gs'.flatten, ?_, hcur, ?_, ?_, ?_⟩
    · have hlast (t : List GenerationMessage) : g ++ t = g.dropLast ++ g.getLast hg :: t := by
        calc
          g ++ t = g.dropLast ++ [g.getLast hg] ++ t := by rw [hfront]
          _      = g.dropLast ++ g.getLast hg :: t   := by simp
      rw [hflatten]
      simp [hlast]
    · intro heq
      have hdemoted : (demote cur).role = .tool := by rw [demote_role, heq]; rfl
      exact htool hdemoted
    · intro x hx
      rcases gs' with _ | ⟨r, rs⟩
      · cases hx
      · have hall : gs ++ g :: [cur] :: r :: rs = (gs ++ [g]) ++ [cur] :: r :: rs := by simp
        rw [hall] at hbetween
        have ⟨_, hr, hno⟩ := (List.isChain_cons_cons.mp hbetween.right_of_append).left
        rw [List.flatten_cons, List.head?_append, List.head?_eq_some_head hr] at hx
        cases hx
        exact hno
    · rw [← roleBehind_eq hbefore, hrole, demote_role]
      rfl

end Strict
end Prompt
