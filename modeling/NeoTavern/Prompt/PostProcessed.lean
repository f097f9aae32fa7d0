import NeoTavern.Lib.Lists
import NeoTavern.Prompt.Turns

namespace Prompt

variable {messages : List GenerationMessage} {names : PromptPostProcessingNames} {options : MergeOptions}
variable {placeholder : String}

section Normalize

variable {m : GenerationMessage}

-- The options of the call at the end.
def MergeOptions.again (options : MergeOptions) : MergeOptions :=
  { options with strict := false, single := false }

structure Settled (options : MergeOptions) (m : GenerationMessage) : Prop where
  name : m.name = none
  role : normalizedRole options.again m.role = m.role

theorem settled_normalize : Settled options (normalize names options m) where
  name := rfl
  role := by
    rcases options with ⟨_, _, single, tools⟩
    cases hr : m.role <;> cases single <;> cases tools <;>
      simp [normalize, toMessage, normalizedRole, MergeOptions.again, hr]

theorem settled_user {content : String} : Settled options (toMessage .user content) where
  name := rfl
  role := by
    rcases options with ⟨_, _, single, tools⟩
    rfl

theorem normalize_of_settled (h : Settled options m) : normalize names options.again m = m := by
  have hcontent : normalizedContent names options.again m = m.content := by
    simp [normalizedContent, h.name, MergeOptions.again, prefixOnce]
  rcases m with ⟨role, content, name⟩
  rw [normalize, hcontent, h.role]
  cases h.name
  rfl

theorem map_normalize_of_settled {l : List GenerationMessage} (h : ∀ m ∈ l, Settled options m) :
    l.map (normalize names options.again) = l := by
  conv_rhs => rw [← List.map_id l]
  exact List.map_congr_left fun m hm => normalize_of_settled (h m hm)

theorem prefixOnce_suffix (content : String) (name : Option String) :
    ∃ start, prefixOnce content name = start ++ content := by
  rw [prefixOnce]
  split
  case h_1 => exact ⟨"", by simp⟩
  case h_2 name _ =>
    dsimp only
    split
    case isTrue  => exact ⟨"", by simp⟩
    case isFalse => exact ⟨name ++ ": ", rfl⟩

example : prefixOnce "hi" (some "Ann") = "Ann: hi" := by
  decide +kernel

-- Names only come before a content.
theorem normalizedContent_suffix : ∃ start, normalizedContent names options m = start ++ m.content := by
  have hfold {p : Prop} [Decidable p] {content : String} {name : Option String}
      (h : ∃ start, content = start ++ m.content) :
      ∃ start, (if p then prefixOnce content name else content) = start ++ m.content := by
    split
    case isFalse => exact h
    case isTrue  =>
      have ⟨start, heq⟩  := h
      have ⟨start', heq'⟩ := prefixOnce_suffix content name
      exact ⟨start' ++ start, by rw [heq', heq, String.append_assoc]⟩
  rw [normalizedContent]
  have hbase : ∃ start, m.content = start ++ m.content := ⟨"", by simp⟩
  split
  case isTrue  => exact hfold <| hfold <| hfold <| hfold <| hfold hbase
  case isFalse => exact hfold <| hfold <| hfold hbase

end Normalize

section Text

variable {l : List GenerationMessage} {m : GenerationMessage} {ps : List (Option Nat × String)}
variable {pss : List (List (Option Nat × String))}

theorem woven_append {last : GenerationMessage} {qs : List (Option Nat × String)} (h : Woven last qs)
    (hm : Woven m ps) : Woven (append last m) (qs ++ ps) := by
  have ⟨hqs, hlast⟩ := h
  have ⟨hps, hcontent⟩ := hm
  refine ⟨List.append_ne_nil_of_left_ne_nil hqs _, ?_⟩
  rw [List.map_append, String.intercalate_append_of_ne_nil (by simpa using hqs) (by simpa using hps),
    ← hlast, ← hcontent]
  rfl

theorem woven_squashMessage (h : List.Forall₂ Woven l pss) (hm : Woven m ps) :
    ∃ qss, List.Forall₂ Woven (squashMessage l m) qss ∧ qss.flatten = pss.flatten ++ ps := by
  have hpush : List.Forall₂ Woven (l ++ [m]) (pss ++ [ps]) := List.rel_append h <| .cons hm .nil
  rcases l.eq_nil_or_concat with rfl | ⟨merged, last, rfl⟩
  · exact ⟨pss ++ [ps], hpush, by simp⟩
  · rw [List.concat_eq_append] at h hpush ⊢
    cases hj : joins last m
    case false =>
      rw [squashMessage_of_not hj]
      exact ⟨pss ++ [ps], hpush, by simp⟩
    case true  =>
      rw [squashMessage_of_joins hj]
      obtain ⟨front, qs, hfront, hlast, rfl⟩ := Lists.forall₂_concat h
      exact ⟨front ++ [qs ++ ps], List.rel_append hfront <| .cons (woven_append hlast hm) .nil, by simp⟩

theorem woven_squash (h : List.Forall₂ Woven l pss) :
    ∃ qss, List.Forall₂ Woven (squash l) qss ∧ qss.flatten = pss.flatten := by
  have hfold {acc : List GenerationMessage} {rss : List (List (Option Nat × String))}
      (hacc : List.Forall₂ Woven acc rss) : ∃ qss, List.Forall₂ Woven (l.foldl squashMessage acc) qss ∧
        qss.flatten = rss.flatten ++ pss.flatten := by
    induction h generalizing acc rss
    case nil                     => exact ⟨rss, hacc, by simp⟩
    case cons m ps l pss hm _ ih =>
      have ⟨sss, hsss, hflatten⟩ := woven_squashMessage hacc hm
      have ⟨qss, hqss, hall⟩ := ih hsss
      exact ⟨qss, hqss, by rw [hall, hflatten]; simp⟩
  exact hfold .nil

theorem woven_rewriteSystem (h : List.Forall₂ Woven l pss) : List.Forall₂ Woven (rewriteSystem l) pss := by
  cases h
  case nil                     => exact .nil
  case cons m ps l pss hm hrest =>
    refine .cons hm ?_
    rw [List.forall₂_map_left_iff]
    exact hrest.imp fun _ _ ⟨hne, heq⟩ => ⟨hne, demote_content.trans heq⟩

theorem Accounted.insert (ps : List (Option Nat × String)) {qs : List (Option Nat × String)} (h : Accounted messages placeholder (ps ++ qs)) :
    Accounted messages placeholder (ps ++ (none, placeholder) :: qs) where
  order    := by simpa using h.order
  text     := fun i text hmem => h.text i text <| by simpa using hmem
  inserted := fun text hmem => by
    simp only [List.mem_append, List.mem_cons, Prod.mk.injEq, true_and] at hmem
    rcases hmem with hmem | heq | hmem
    · exact h.inserted text <| List.mem_append_left _ hmem
    · exact heq
    · exact h.inserted text <| List.mem_append_right _ hmem

theorem woven_insertPlaceholder (h : List.Forall₂ Woven l pss) (ha : Accounted messages placeholder pss.flatten) :
    ∃ qss, List.Forall₂ Woven (insertPlaceholder placeholder l) qss ∧
      Accounted messages placeholder qss.flatten := by
  have hplaceholder : Woven (toMessage .user placeholder) [(none, placeholder)] :=
    ⟨List.cons_ne_nil _ _, by simp [toMessage]⟩
  cases h
  case nil                         => exact ⟨[], .nil, ha⟩
  case cons first ps rest pss hm hrest =>
    rw [insertPlaceholder]
    split
    case isTrue  =>
      refine ⟨ps :: [(none, placeholder)] :: pss, .cons hm <| .cons hplaceholder hrest, ?_⟩
      exact Accounted.insert ps ha
    case isFalse =>
      split
      case isTrue  =>
        refine ⟨[(none, placeholder)] :: ps :: pss, .cons hplaceholder <| .cons hm hrest, ?_⟩
        exact Accounted.insert [] ha
      case isFalse => exact ⟨ps :: pss, .cons hm hrest, ha⟩

end Text

section Roles

variable {l : List GenerationMessage} {m : GenerationMessage}

theorem roles_squash (m : GenerationMessage) (l : List GenerationMessage) :
    ∃ rs : List MessageRole, rs.Sublist (l.map (·.role)) ∧ (squash (m :: l)).map (·.role) = m.role :: rs :=
  roles_foldl l [m]

theorem systemFirst_iff : SystemFirst l ↔ ∀ r ∈ (l.map (·.role)).tail, r ≠ .system := by
  rw [SystemFirst, ← List.map_tail, List.forall_mem_map]

theorem userFirst_iff : UserFirst l ↔ (l.map (·.role)).find? (· ≠ .system) = some .user := by
  rw [UserFirst, List.find?_map]
  rfl

theorem SystemFirst.squash (h : SystemFirst l) : SystemFirst (squash l) := by
  cases l
  case nil      => exact h
  case cons m l =>
    have ⟨rs, hsub, heq⟩ := roles_squash m l
    rw [systemFirst_iff, heq]
    rw [systemFirst_iff] at h
    exact fun r hr => h r <| hsub.subset hr

theorem systemFirst_rewriteSystem : SystemFirst (rewriteSystem l) := by
  cases l
  case nil      => exact fun m hm => by cases hm
  case cons m l =>
    intro m' hm'
    obtain ⟨x, _, rfl⟩ := List.mem_map.mp hm'
    rw [demote_role, demotedRole]
    split
    case isTrue    => decide
    case isFalse h => exact h

theorem SystemFirst.insertPlaceholder (h : SystemFirst l) : SystemFirst (insertPlaceholder placeholder l) := by
  cases l
  case nil            => exact h
  case cons first rest =>
    rw [Prompt.insertPlaceholder]
    split
    case isTrue  => exact fun m hm => (List.mem_cons.mp hm).elim (fun heq => heq ▸ nofun) (h m)
    case isFalse =>
      split
      case isTrue hne =>
        simp only [ne_eq, Bool.and_eq_true, decide_eq_true_eq] at hne
        exact fun m hm => (List.mem_cons.mp hm).elim (fun heq => heq ▸ hne.left) (h m)
      case isFalse    => exact h

-- The first message that does not speak for the system is of the user, before and after squashing.
theorem userFirst_squash (h : (∃ rest, l = m :: rest ∧ m.role = .user) ∨
      ∃ m' rest, l = m :: m' :: rest ∧ m.role = .system ∧ m'.role = .user) : UserFirst (squash l) := by
  rw [userFirst_iff]
  rcases h with ⟨rest, rfl, hm⟩ | ⟨m', rest, rfl, hm, hm'⟩
  · obtain ⟨rs, _, heq⟩ := roles_squash m rest
    rw [heq, hm]
    rfl
  · have hpush : squashMessage [m] m' = [m, m'] := by
      have hj : joins m m' = false := by simp [joins, hm, hm']
      have h : squashMessage ([] ++ [m]) m' = [] ++ [m] ++ [m'] := squashMessage_of_not hj
      exact h
    obtain ⟨rs, _, heq⟩ := roles_foldl rest [m, m']
    have hroles : (squash (m :: m' :: rest)).map (·.role) = [m, m'].map (·.role) ++ rs := by
      rw [← heq, ← hpush]
      rfl
    rw [hroles, List.map_cons, List.map_singleton, hm, hm']
    rfl

theorem userFirst_insertPlaceholder (hl : l ≠ []) : UserFirst (squash (insertPlaceholder placeholder l)) := by
  cases l
  case nil             => exact absurd rfl hl
  case cons first rest =>
    rw [insertPlaceholder]
    split
    case isTrue h   =>
      have hsystem : first.role = .system := by
        simp only [Bool.and_eq_true, decide_eq_true_eq] at h
        exact h.left
      exact userFirst_squash <| .inr ⟨_, rest, rfl, hsystem, rfl⟩
    case isFalse h =>
      split
      case isTrue     => exact userFirst_squash <| .inl ⟨_, rfl, rfl⟩
      case isFalse h' =>
        by_cases hsystem : first.role = .system
        case pos =>
          cases rest
          case nil            => simp [hsystem] at h
          case cons second rest =>
            have huser : second.role = .user := by simpa [hsystem] using h
            exact userFirst_squash <| .inr ⟨second, rest, rfl, hsystem, huser⟩
        case neg =>
          have huser : first.role = .user := by simpa [hsystem] using h'
          exact userFirst_squash <| .inl ⟨rest, rfl, huser⟩

-- A placeholder never stands next to a message of the user.
theorem insertPlaceholder_iff (h : SystemFirst l) :
    (insertPlaceholder placeholder l).IsChain NoBlank ↔ l.IsChain NoBlank := by
  cases l
  case nil             => exact Iff.rfl
  case cons first rest =>
    have hne (m m' : GenerationMessage) (h : m.role ≠ m'.role) : NoBlank m m' := fun heq => absurd heq h
    rw [insertPlaceholder]
    split
    case isTrue hfirst  =>
      simp only [Bool.and_eq_true, decide_eq_true_eq] at hfirst
      have hplaceholder : NoBlank first (toMessage .user placeholder) := hne _ _ (by rw [hfirst.left]; nofun)
      rw [List.isChain_cons_cons, and_iff_right hplaceholder]
      cases rest
      case nil              => exact iff_of_true (.singleton _) (.singleton _)
      case cons second rest =>
        have hsecond : second.role ≠ .user := by simpa using hfirst.right
        have hsystem : second.role ≠ .system := h second List.mem_cons_self
        have hfront : NoBlank first second := hne _ _ fun heq => hsystem <| heq ▸ hfirst.left
        have hback : NoBlank (toMessage .user placeholder) second := hne _ _ fun heq => hsecond heq.symm
        rw [List.isChain_cons_cons, List.isChain_cons_cons, and_iff_right hfront, and_iff_right hback]
    case isFalse =>
      split
      case isTrue hfirst =>
        simp only [ne_eq, Bool.and_eq_true, decide_eq_true_eq] at hfirst
        have hfront : NoBlank (toMessage .user placeholder) first := hne _ _ fun heq => hfirst.right heq.symm
        rw [List.isChain_cons_cons, and_iff_right hfront]
      case isFalse       => exact Iff.rfl

end Roles

section Modes

-- The messages of a turn, of which there is at least one.
def turns (messages : List GenerationMessage) (names : PromptPostProcessingNames) (options : MergeOptions)
    (placeholder : String) : List GenerationMessage :=
  if messages = [] then [toMessage .user placeholder] else messages.map (normalize names options)

theorem turns_ne_nil : turns messages names options placeholder ≠ [] := by
  rw [turns]
  split
  case isTrue    => exact List.cons_ne_nil _ _
  case isFalse h => simpa using h

theorem squash_ne_nil {l : List GenerationMessage} (h : l ≠ []) : squash l ≠ [] := by
  cases l
  case nil      => exact absurd rfl h
  case cons m l =>
    have ⟨rs, _, heq⟩ := roles_squash m l
    intro hnil
    rw [hnil] at heq
    cases heq

theorem squashed_eq : squashed messages names options placeholder =
    squash (turns messages names options placeholder) := by
  rw [squashed, turns]
  by_cases h : messages = []
  case pos => subst h; rfl
  case neg =>
    have hne : squash (messages.map (normalize names options)) ≠ [] := squash_ne_nil (by simpa using h)
    simp only [hne, h, if_false]

theorem settled_turns : ∀ m ∈ turns messages names options placeholder, Settled options m := by
  rw [turns]
  split
  case isTrue  => exact fun m hm => List.mem_singleton.mp hm ▸ settled_user
  case isFalse =>
    intro m hm
    obtain ⟨x, _, rfl⟩ := List.mem_map.mp hm
    exact settled_normalize

-- The messages that are squashed a second time.
def filled (messages : List GenerationMessage) (names : PromptPostProcessingNames) (options : MergeOptions)
    (placeholder : String) : List GenerationMessage :=
  let rewritten := rewriteSystem <| squash <| turns messages names options placeholder
  if options.placeholders then insertPlaceholder placeholder rewritten else rewritten

-- What holds of the turns and of each message of the user holds of these.
theorem forall_filled {P : GenerationMessage → Prop} (happend : ∀ last m, P last → P (append last m))
    (huser : ∀ content, P (toMessage .user content))
    (hturns : ∀ m ∈ turns messages names options placeholder, P m) :
    ∀ m ∈ filled messages names options placeholder, P m := by
  have hsquash : ∀ m ∈ squash (turns messages names options placeholder), P m :=
    forall_foldl happend (fun m hm => by cases hm) hturns
  have hrewritten : ∀ m ∈ rewriteSystem (squash (turns messages names options placeholder)), P m := by
    generalize squash (turns messages names options placeholder) = l at hsquash
    cases l
    case nil      => exact hsquash
    case cons m l =>
      intro m' hm'
      cases List.mem_cons.mp hm'
      case inl heq => exact heq ▸ hsquash m List.mem_cons_self
      case inr hm' =>
        obtain ⟨x, hx, rfl⟩ := List.mem_map.mp hm'
        rw [demote]
        split
        case isTrue  => exact huser _
        case isFalse => exact hsquash x <| List.mem_cons_of_mem _ hx
  dsimp only [filled]
  split
  case isFalse => exact hrewritten
  case isTrue  =>
    generalize rewriteSystem (squash (turns messages names options placeholder)) = l at hrewritten
    cases l
    case nil      => exact hrewritten
    case cons m l =>
      rw [insertPlaceholder]
      simp only [List.forall_mem_cons] at hrewritten
      split
      case isTrue  => simpa using ⟨hrewritten.left, huser placeholder, hrewritten.right⟩
      case isFalse =>
        split
        case isTrue  => simpa using ⟨huser placeholder, hrewritten⟩
        case isFalse => simpa using hrewritten

theorem settled_filled : ∀ m ∈ filled messages names options placeholder, Settled options m :=
  forall_filled (fun _ _ h => ⟨h.name, h.role⟩) (fun _ => settled_user) settled_turns

theorem rewriteSystem_ne_nil {l : List GenerationMessage} (h : l ≠ []) : rewriteSystem l ≠ [] := by
  cases l
  case nil  => exact h
  case cons => exact List.cons_ne_nil _ _

theorem insertPlaceholder_ne_nil {l : List GenerationMessage} (h : l ≠ []) :
    insertPlaceholder placeholder l ≠ [] := by
  cases l
  case nil  => exact h
  case cons =>
    rw [insertPlaceholder]
    repeat' split
    all_goals exact List.cons_ne_nil _ _

theorem filled_ne_nil : filled messages names options placeholder ≠ [] := by
  have h : rewriteSystem (squash (turns messages names options placeholder)) ≠ [] :=
    rewriteSystem_ne_nil <| squash_ne_nil turns_ne_nil
  dsimp only [filled]
  split
  case isTrue  => exact insertPlaceholder_ne_nil h
  case isFalse => exact h

theorem mergeMessages_of_strict (h : options.strict = true) : mergeMessages messages names options placeholder =
    squash (filled messages names options placeholder) := by
  have hagain : squashed (filled messages names options placeholder) names options.again placeholder =
      squash (filled messages names options placeholder) := by
    rw [squashed_eq, turns, if_neg filled_ne_nil, map_normalize_of_settled settled_filled]
  rw [← hagain]
  simp only [mergeMessages, h, if_true, squashed_eq, filled]
  rfl

theorem mergeMessages_of_not (h : options.strict = false) : mergeMessages messages names options placeholder =
    squash (turns messages names options placeholder) := by
  simp only [mergeMessages, h, Bool.false_eq_true, if_false, squashed_eq]

end Modes

section Text

-- Messages that keep their content behind something.
theorem keepsText_map {f : GenerationMessage → GenerationMessage}
    (hf : ∀ m, ∃ start, (f m).content = start ++ m.content) :
    KeepsText messages placeholder (messages.map f) := by
  have hflatten : ((messages.zipIdx.map fun e => [(some e.snd, (f e.fst).content)])).flatten =
      messages.zipIdx.map fun e => (some e.snd, (f e.fst).content) := by
    rw [← List.flatMap_def, List.map_eq_flatMap]
  refine ⟨messages.zipIdx.map fun e => [(some e.snd, (f e.fst).content)], ?_, ?_⟩
  · conv => arg 2; rw [← List.zipIdx_map_fst 0 messages, List.map_map]
    rw [List.forall₂_map_left_iff, List.forall₂_map_right_iff, List.forall₂_same]
    exact fun e _ => ⟨List.cons_ne_nil _ _, by simp⟩
  · rw [hflatten]
    constructor
    case order    =>
      rw [List.filterMap_map, List.range_eq_range', ← List.zipIdx_map_snd 0 messages, ← List.filterMap_eq_map]
      rfl
    case text     =>
      intro i text hmem
      obtain ⟨⟨m, j⟩, he, heq⟩ := List.mem_map.mp hmem
      cases heq
      exact ⟨m, List.mem_zipIdx_iff_getElem?.mp he, hf m⟩
    case inserted => simp

theorem keepsText_turns : KeepsText messages placeholder (turns messages names options placeholder) := by
  rw [turns]
  split
  case isTrue h  =>
    subst h
    refine ⟨[[(none, placeholder)]], .cons ⟨List.cons_ne_nil _ _, by simp [toMessage]⟩ .nil, rfl, ?_, ?_⟩
    · simp
    · simp
  case isFalse h => exact keepsText_map fun _ => normalizedContent_suffix

theorem KeepsText.squash {l : List GenerationMessage} (h : KeepsText messages placeholder l) :
    KeepsText messages placeholder (squash l) := by
  have ⟨pss, hwoven, haccounted⟩ := h
  have ⟨qss, hwoven', hflatten⟩ := woven_squash hwoven
  exact ⟨qss, hwoven', hflatten ▸ haccounted⟩

theorem keepsText_filled : KeepsText messages placeholder (filled messages names options placeholder) := by
  have hsquash : KeepsText messages placeholder (squash (turns messages names options placeholder)) :=
    keepsText_turns.squash
  have ⟨pss, hwoven, haccounted⟩ := hsquash
  have hrewritten := woven_rewriteSystem hwoven
  dsimp only [filled]
  split
  case isTrue  => exact woven_insertPlaceholder hrewritten haccounted
  case isFalse => exact ⟨pss, hrewritten, haccounted⟩

end Text

section Shape

theorem systemFirst_filled : SystemFirst (filled messages names options placeholder) := by
  dsimp only [filled]
  split
  case isTrue  => exact systemFirst_rewriteSystem.insertPlaceholder
  case isFalse => exact systemFirst_rewriteSystem

variable (messages names options placeholder) in
theorem repeatsBlank_turns : RepeatsBlank (turns messages names options placeholder) ↔
    RepeatsBlank (messages.map <| normalize names options) := by
  rw [turns]
  split
  case isFalse => exact Iff.rfl
  case isTrue h =>
    subst h
    constructor
    · rintro ⟨pre, prev, cur, post, heq, _⟩
      have hlength := congrArg List.length heq
      simp at hlength
      omega
    · rintro ⟨pre, prev, cur, post, heq, _⟩
      simp at heq

theorem isChain_turns : (turns messages names options placeholder).IsChain NoBlank ↔
    (messages.map <| normalize names options).IsChain NoBlank := by
  rw [turns]
  split
  case isFalse => exact Iff.rfl
  case isTrue h =>
    subst h
    exact iff_of_true (.singleton _) .nil

-- Turns alternate after the second squashing exactly where no message without content is left over.
theorem filled_alternates : (squash (filled messages names options placeholder)).IsChain Alternate ↔
    ¬RepeatsBlank (messages.map <| normalize names options) := by
  rw [squash_alternates, ← repeatsBlank_turns messages names options placeholder, ← rewriteSystem_iff]
  dsimp only [filled]
  split
  case isTrue  => exact insertPlaceholder_iff systemFirst_rewriteSystem
  case isFalse => exact Iff.rfl

theorem alternates_of_user {l : List GenerationMessage} (hl : l ≠ []) (h : ∀ m ∈ l, m.role = .user) :
    l.map (·.role) = [.user] ↔ l.IsChain Alternate := by
  rcases l with _ | ⟨m, _ | ⟨m', l⟩⟩
  · exact absurd rfl hl
  · exact iff_of_true (congrArg (fun r => [r]) <| h m List.mem_cons_self) (.singleton _)
  · have hm := h m (by simp)
    have hm' := h m' (by simp)
    refine iff_of_false (fun heq => ?_) fun halternate => ?_
    · simp at heq
    · have htool := (List.isChain_cons_cons.mp halternate).left (hm.trans hm'.symm)
      rw [hm] at htool
      cases htool

theorem user_of_single (h : options.single = true) :
    ∀ m ∈ squash (filled messages names options placeholder), m.role = .user := by
  have hturns : ∀ m ∈ turns messages names options placeholder, m.role = .user := by
    rw [turns]
    split
    case isTrue  => exact fun m hm => List.mem_singleton.mp hm ▸ rfl
    case isFalse =>
      intro m hm
      obtain ⟨x, _, rfl⟩ := List.mem_map.mp hm
      simp [normalize, toMessage, normalizedRole, h]
  have hfilled := forall_filled (fun _ _ h => h) (fun _ => rfl) hturns
  exact forall_foldl (fun _ _ h => h) (fun m hm => by cases hm) hfilled

end Shape

-- After each mode the text is there, and the turns have the shape of the mode exactly where no message without
-- content is left over next to one of its role.
theorem postProcessMessages_iff (messages : List GenerationMessage) (mode : PromptPostProcessingMode)
    (names : PromptPostProcessingNames) (placeholder : String) :
    KeepsText messages placeholder (postProcessMessages messages mode names placeholder) ∧
    (Shaped (postProcessMessages messages mode names placeholder) mode ↔ Clear names messages mode) := by
  have hstrict (mode : PromptPostProcessingMode) (hoff : mode ≠ .off) (h : mode.options.strict = true) :
      postProcessMessages messages mode names placeholder =
        squash (filled messages names mode.options placeholder) := by
    rw [postProcessMessages, if_neg hoff, mergeMessages_of_strict h]
  have hmerge (mode : PromptPostProcessingMode) (hoff : mode ≠ .off) (h : mode.options.strict = false) :
      postProcessMessages messages mode names placeholder =
        squash (turns messages names mode.options placeholder) := by
    rw [postProcessMessages, if_neg hoff, mergeMessages_of_not h]
  cases mode
  case off         => exact ⟨keepsText_map fun m => ⟨"", by simp [toMessage]⟩, Iff.rfl⟩
  case merge       =>
    rw [hmerge .merge nofun rfl]
    exact ⟨keepsText_turns.squash, squash_alternates.trans isChain_turns⟩
  case mergeTools  =>
    rw [hmerge .mergeTools nofun rfl]
    exact ⟨keepsText_turns.squash, squash_alternates.trans isChain_turns⟩
  case semi        =>
    rw [hstrict .semi nofun rfl]
    exact ⟨keepsText_filled.squash, (and_iff_left systemFirst_filled.squash).trans filled_alternates⟩
  case semiTools   =>
    rw [hstrict .semiTools nofun rfl]
    exact ⟨keepsText_filled.squash, (and_iff_left systemFirst_filled.squash).trans filled_alternates⟩
  case strict      =>
    rw [hstrict .strict nofun rfl]
    have huser : UserFirst
        (squash (filled messages names PromptPostProcessingMode.strict.options placeholder)) :=
      userFirst_insertPlaceholder <| rewriteSystem_ne_nil <| squash_ne_nil turns_ne_nil
    exact ⟨keepsText_filled.squash, (and_iff_left ⟨systemFirst_filled.squash, huser⟩).trans filled_alternates⟩
  case strictTools =>
    rw [hstrict .strictTools nofun rfl]
    have huser : UserFirst
        (squash (filled messages names PromptPostProcessingMode.strictTools.options placeholder)) :=
      userFirst_insertPlaceholder <| rewriteSystem_ne_nil <| squash_ne_nil turns_ne_nil
    exact ⟨keepsText_filled.squash, (and_iff_left ⟨systemFirst_filled.squash, huser⟩).trans filled_alternates⟩
  case single      =>
    rw [hstrict .single nofun rfl]
    exact ⟨keepsText_filled.squash,
      (alternates_of_user (squash_ne_nil filled_ne_nil) (user_of_single rfl)).trans filled_alternates⟩

-- A message without content stays a turn of its own.
theorem blank_left_over :
    ¬Shaped (postProcessMessages [⟨.user, "a", none⟩, ⟨.user, "", none⟩] .merge {}
      defaultPromptPlaceholder) .merge ∧
    ¬Shaped (postProcessMessages [⟨.user, "a", none⟩, ⟨.user, "", none⟩] .single {}
      defaultPromptPlaceholder) .single := by
  have hmerge : postProcessMessages [⟨.user, "a", none⟩, ⟨.user, "", none⟩] .merge {}
      defaultPromptPlaceholder = [⟨.user, "a", none⟩, ⟨.user, "", none⟩] := by decide +kernel
  constructor
  case left  =>
    rw [hmerge]
    intro h
    have htool := (List.isChain_cons_cons.mp h).left rfl
    cases htool
  case right =>
    intro h
    have hroles : (postProcessMessages [⟨.user, "a", none⟩, ⟨.user, "", none⟩] .single {}
      defaultPromptPlaceholder).map (·.role) = [.user, .user] := by decide +kernel
    cases hroles.symm.trans h

end Prompt
