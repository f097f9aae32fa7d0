import NeoTavern.Lib.Lists
import NeoTavern.Prompt.Assembly

namespace Prompt

-- Where a message of the merged prompt comes from: its place in the history, or a block and the place in it.
inductive Origin
  | history (i : Nat)
  | injected (b j : Nat)
  deriving DecidableEq

namespace Origin

def isHistory : Origin → Bool
  | .history _    => true
  | .injected _ _ => false

def message (history : List PromptMessage) (injections : List PreparedBlock) : Origin → Option PromptMessage
  | .history i    => history[i]?
  | .injected b j => injections[b]?.bind (·.messages[j]?)

end Origin

section Placed

variable (history : List PromptMessage) (injections : List PreparedBlock)

def depthOf (injection : PreparedBlock) : Nat :=
  injection.block.injectionDepth.getD 4

-- What the messages at one boundary are ordered by, the first number first.
def injectionKey (injection : PreparedBlock) (b j : Nat) : List Nat :=
  [injection.block.injectionOrder.getD 100, (injection.messages[j]?).elim 0 fun m => roleOrder m.role,
    injection.configuredIndex, b, j]

structure Placed (os : List Origin) : Prop where
  kept     : os.filter Origin.isHistory = (List.range history.length).map .history
  nodup    : os.Nodup
  injected : ∀ b j, .injected b j ∈ os ↔ ∃ injection ∈ injections[b]?, j < injection.messages.length
  followed : ∀ b j injection pre post, injection ∈ injections[b]? → os = pre ++ .injected b j :: post →
    post.countP Origin.isHistory = min (depthOf injection) history.length
  ordered  : os.Pairwise fun x y => ∀ b j injection b' j' injection', x = .injected b j → y = .injected b' j' →
    injection ∈ injections[b]? → injection' ∈ injections[b']? →
    min (depthOf injection) history.length = min (depthOf injection') history.length →
    injectionKey injection b j < injectionKey injection' b' j'

end Placed

section Tagged

variable (history : List PromptMessage) (injections : List PreparedBlock) (boundary : Nat)

-- An insertion with the place that it comes from.
structure Tagged where
  block     : Nat
  index     : Nat
  insertion : Insertion

namespace Tagged

def le (t t' : Tagged) : Bool :=
  t.insertion.le t'.insertion

def origin (t : Tagged) : Origin :=
  .injected t.block t.index

end Tagged

def insertionOf (injection : PreparedBlock) (message : PromptMessage) : Insertion where
  message
  injectionOrder  := injection.block.injectionOrder.getD 100
  configuredIndex := injection.configuredIndex

def taggedAt : List Tagged :=
  (injections.zipIdx.filter fun e => boundaryOf history e.fst = boundary).flatMap fun e =>
    e.fst.messages.zipIdx.map fun m => ⟨e.snd, m.snd, insertionOf e.fst m.fst⟩

def origins : List Origin :=
  (List.range (history.length + 1)).flatMap fun boundary =>
    ((taggedAt history injections boundary).mergeSort Tagged.le).map Tagged.origin ++
      if boundary < history.length then [.history boundary] else []

end Tagged

section Tagged

variable {history : List PromptMessage} {injections : List PreparedBlock} {boundary : Nat} {t : Tagged}

theorem insertion_taggedAt : (taggedAt history injections boundary).map (·.insertion) =
    insertionsAt history injections boundary := by
  have hfilter : (injections.zipIdx.filter fun e => boundaryOf history e.fst = boundary).map (·.fst) =
      injections.filter (boundaryOf history · = boundary) :=
    Lists.map_fst_filter_zipIdx injections (boundaryOf history · = boundary)
  have hmessages (injection : PreparedBlock) (b : Nat) :
      (injection.messages.zipIdx.map fun m => Tagged.mk b m.snd (insertionOf injection m.fst)).map (·.insertion) =
      injection.messages.map (insertionOf injection) := by
    rw [List.map_map]
    conv_rhs => rw [← List.zipIdx_map_fst 0 injection.messages, List.map_map]
    rfl
  rw [taggedAt, List.map_flatMap, insertionsAt, ← hfilter, List.flatMap_map]
  simp only [hmessages]
  rfl

theorem mem_taggedAt : t ∈ taggedAt history injections boundary ↔
    ∃ injection message, injections[t.block]? = some injection ∧ boundaryOf history injection = boundary ∧
      injection.messages[t.index]? = some message ∧ t.insertion = insertionOf injection message := by
  simp only [taggedAt, List.mem_flatMap, List.mem_filter, List.mem_map, decide_eq_true_eq]
  constructor
  case mp  =>
    rintro ⟨⟨injection, b⟩, ⟨he, hb⟩, ⟨message, j⟩, hm, rfl⟩
    exact ⟨injection, message, List.mem_zipIdx_iff_getElem?.mp he, hb, List.mem_zipIdx_iff_getElem?.mp hm, rfl⟩
  case mpr =>
    rintro ⟨injection, message, he, hb, hm, hinsertion⟩
    refine ⟨(injection, t.block), ⟨List.mem_zipIdx_iff_getElem?.mpr he, hb⟩, (message, t.index),
      List.mem_zipIdx_iff_getElem?.mpr hm, ?_⟩
    rw [← hinsertion]

theorem pairwise_taggedAt : (taggedAt history injections boundary).Pairwise fun t t' =>
    t.block < t'.block ∨ t.block = t'.block ∧ t.index < t'.index := by
  rw [taggedAt, List.pairwise_flatMap]
  constructor
  case left  =>
    intro e _
    rw [List.pairwise_map]
    exact Lists.pairwise_zipIdx.imp fun h => .inr ⟨rfl, h⟩
  case right =>
    refine (Lists.pairwise_zipIdx.filter _).imp fun hlt t ht t' ht' => .inl ?_
    obtain ⟨_, _, rfl⟩ := List.mem_map.mp ht
    obtain ⟨_, _, rfl⟩ := List.mem_map.mp ht'
    exact hlt

theorem message_origins : (origins history injections).map (Origin.message history injections) =
    (mergeInChatPrompts history injections).map some := by
  rw [origins, mergeInChatPrompts, List.map_flatMap, List.map_flatMap]
  congr 1
  funext boundary
  have hsorted : ((taggedAt history injections boundary).mergeSort Tagged.le).map (·.insertion) =
      (insertionsAt history injections boundary).mergeSort Insertion.le := by
    rw [← insertion_taggedAt]
    exact List.map_mergeSort fun _ _ _ _ => rfl
  have hmessage : ∀ t ∈ (taggedAt history injections boundary).mergeSort Tagged.le,
      t.origin.message history injections = some t.insertion.message := by
    intro t ht
    have ⟨injection, message, hb, _, hj, hinsertion⟩ := mem_taggedAt.mp <| List.mem_mergeSort.mp ht
    rw [Tagged.origin, Origin.message, hb, Option.bind_some, hj, hinsertion]
    rfl
  rw [List.map_append, List.map_append, List.map_map, ← hsorted, List.map_map, List.map_map]
  congr 1
  · exact List.map_congr_left hmessage
  · by_cases h : boundary < history.length
    case pos => simp [h, Origin.message]
    case neg => simp [h]

-- What stands before what in the merged prompt.
variable (history injections) in
def Before : Origin → Origin → Prop
  | .history i, .history i'         => i < i'
  | .history i, .injected b _       => ∀ injection ∈ injections[b]?, i < boundaryOf history injection
  | .injected b _, .history i       => ∀ injection ∈ injections[b]?, boundaryOf history injection ≤ i
  | .injected b j, .injected b' j'  => ∀ injection ∈ injections[b]?, ∀ injection' ∈ injections[b']?,
    boundaryOf history injection < boundaryOf history injection' ∨
      boundaryOf history injection = boundaryOf history injection' ∧
        injectionKey injection b j < injectionKey injection' b' j'

-- What stands at one boundary.
theorem mem_originsAt {o : Origin} (h : o ∈ ((taggedAt history injections boundary).mergeSort Tagged.le).map
      Tagged.origin ++ if boundary < history.length then [.history boundary] else []) :
    (o = .history boundary ∧ boundary < history.length) ∨
    ∃ b j injection message, o = .injected b j ∧ injections[b]? = some injection ∧
      boundaryOf history injection = boundary ∧ injection.messages[j]? = some message := by
  cases List.mem_append.mp h
  case inl h =>
    obtain ⟨t, ht, rfl⟩ := List.mem_map.mp h
    have ⟨injection, message, hb, hboundary, hj, _⟩ := mem_taggedAt.mp <| List.mem_mergeSort.mp ht
    exact .inr ⟨t.block, t.index, injection, message, rfl, hb, hboundary, hj⟩
  case inr h =>
    by_cases hlt : boundary < history.length
    case pos =>
      rw [if_pos hlt] at h
      exact .inl ⟨List.mem_singleton.mp h, hlt⟩
    case neg =>
      rw [if_neg hlt] at h
      cases h

theorem Insertion.le_trans (x y z : Insertion) (h : x.le y) (h' : y.le z) : x.le z := by
  simp only [Insertion.le, Bool.or_eq_true, Bool.and_eq_true, decide_eq_true_eq] at h h' ⊢
  omega

theorem Insertion.le_total (x y : Insertion) : x.le y || y.le x := by
  simp only [Insertion.le, Bool.or_eq_true, Bool.and_eq_true, decide_eq_true_eq]
  omega

theorem pairwise_at (boundary : Nat) :
    ((taggedAt history injections boundary).mergeSort Tagged.le).Pairwise fun t t' =>
      Before history injections t.origin t'.origin := by
  have hnodup : (taggedAt history injections boundary).Nodup := by
    refine pairwise_taggedAt.imp fun h heq => ?_
    subst heq
    omega
  have htrans (x y z : Tagged) (h : x.le y) (h' : y.le z) : x.le z := Insertion.le_trans _ _ _ h h'
  have htotal (x y : Tagged) : x.le y || y.le x := Insertion.le_total ..
  have hstable := Lists.pairwise_mergeSort_stable htrans htotal hnodup pairwise_taggedAt
  refine hstable.imp_of_mem fun {t t'} ht ht' h => ?_
  have ⟨inj, m, hb, hboundary, hj, hinsertion⟩ := mem_taggedAt.mp <| List.mem_mergeSort.mp ht
  have ⟨inj', m', hb', hboundary', hj', hinsertion'⟩ := mem_taggedAt.mp <| List.mem_mergeSort.mp ht'
  intro injection hmem injection' hmem'
  cases hb.symm.trans hmem
  cases hb'.symm.trans hmem'
  refine .inr ⟨hboundary.trans hboundary'.symm, ?_⟩
  have ⟨hle, hback⟩ := h
  simp only [Tagged.le, hinsertion, hinsertion', Insertion.le, insertionOf, Bool.or_eq_true, Bool.and_eq_true,
    decide_eq_true_eq] at hle hback
  simp only [injectionKey, hj, hj', Option.elim_some, List.cons_lt_cons_iff]
  omega

theorem pairwise_origins : (origins history injections).Pairwise (Before history injections) := by
  rw [origins, List.pairwise_flatMap]
  constructor
  case left  =>
    intro boundary _
    refine List.pairwise_append.mpr ⟨List.pairwise_map.mpr <| pairwise_at boundary, ?_, ?_⟩
    · split <;> simp
    · intro x hx y hy
      obtain ⟨t, ht, rfl⟩ := List.mem_map.mp hx
      have ⟨injection, _, hb, hboundary, _⟩ := mem_taggedAt.mp <| List.mem_mergeSort.mp ht
      split at hy
      case isTrue  =>
        rw [List.mem_singleton.mp hy]
        intro injection' hmem
        cases hb.symm.trans hmem
        exact hboundary.le
      case isFalse => cases hy
  case right =>
    refine List.pairwise_lt_range.imp fun {k k'} hlt x hx y hy => ?_
    rcases mem_originsAt hx with ⟨rfl, _⟩ | ⟨b, j, injection, _, rfl, hb, hboundary, _⟩
    · rcases mem_originsAt hy with ⟨rfl, _⟩ | ⟨b', j', injection', _, rfl, hb', hboundary', _⟩
      · exact hlt
      · intro inj hmem
        cases hb'.symm.trans hmem
        omega
    · rcases mem_originsAt hy with ⟨rfl, _⟩ | ⟨b', j', injection', _, rfl, hb', hboundary', _⟩
      · intro inj hmem
        cases hb.symm.trans hmem
        omega
      · intro inj hmem inj' hmem'
        cases hb.symm.trans hmem
        cases hb'.symm.trans hmem'
        exact .inl (by omega)

theorem mem_origins_injected {b j : Nat} : .injected b j ∈ origins history injections ↔
    ∃ injection ∈ injections[b]?, j < injection.messages.length := by
  rw [origins, List.mem_flatMap]
  constructor
  case mp  =>
    intro ⟨boundary, _, hmem⟩
    rcases mem_originsAt hmem with ⟨heq, _⟩ | ⟨b', j', injection, message, heq, hb, _, hj⟩
    · cases heq
    · cases heq
      exact ⟨injection, hb, (List.getElem?_eq_some_iff.mp hj).choose⟩
  case mpr =>
    intro ⟨injection, hb, hlt⟩
    have hle : boundaryOf history injection ≤ history.length := Nat.sub_le ..
    have hmem : ⟨b, j, insertionOf injection injection.messages[j]⟩ ∈
        taggedAt history injections (boundaryOf history injection) :=
      mem_taggedAt.mpr ⟨injection, injection.messages[j], hb, rfl, List.getElem?_eq_getElem hlt, rfl⟩
    refine ⟨boundaryOf history injection, List.mem_range.mpr <| Nat.lt_succ_of_le hle, ?_⟩
    exact List.mem_append_left _ <| List.mem_map.mpr ⟨_, List.mem_mergeSort.mpr hmem, rfl⟩

theorem filter_origins : (origins history injections).filter Origin.isHistory =
    (List.range history.length).map .history := by
  have hat (boundary : Nat) : (((taggedAt history injections boundary).mergeSort Tagged.le).map Tagged.origin ++
      if boundary < history.length then [Origin.history boundary] else []).filter Origin.isHistory =
      if boundary < history.length then [Origin.history boundary] else [] := by
    have hnone : ∀ o ∈ ((taggedAt history injections boundary).mergeSort Tagged.le).map Tagged.origin,
        ¬o.isHistory = true := by
      intro o ho
      obtain ⟨t, _, rfl⟩ := List.mem_map.mp ho
      exact Bool.false_ne_true
    rw [List.filter_append, List.filter_eq_nil_iff.mpr hnone]
    split <;> rfl
  have hbelow : (List.range history.length).flatMap (fun boundary =>
      if boundary < history.length then [Origin.history boundary] else []) =
      (List.range history.length).map .history := by
    rw [List.map_eq_flatMap]
    apply List.flatMap_congr
    intro boundary hmem
    exact if_pos <| List.mem_range.mp hmem
  rw [origins, List.filter_flatMap]
  simp only [hat]
  rw [List.range_succ, List.flatMap_append, hbelow]
  simp

theorem nodup_origins : (origins history injections).Nodup := by
  refine pairwise_origins.imp_of_mem fun {x y} hx _ hbefore heq => ?_
  subst heq
  cases x
  case history      => exact Nat.lt_irrefl _ hbefore
  case injected b j =>
    have ⟨injection, hb, _⟩ := mem_origins_injected.mp hx
    cases hbefore injection hb injection hb
    case inl hlt => exact Nat.lt_irrefl _ hlt
    case inr hlt => exact List.lt_irrefl _ hlt.right

-- The history from the boundary on comes after an injected message, and the rest of it before.
theorem followed_origins {b j : Nat} {injection : PreparedBlock} {pre post : List Origin}
    (hb : injection ∈ injections[b]?) (h : origins history injections = pre ++ .injected b j :: post) :
    post.countP Origin.isHistory = min (depthOf injection) history.length := by
  have hpairwise : (pre ++ .injected b j :: post).Pairwise (Before history injections) := h ▸ pairwise_origins
  have ⟨_, hpost, hpre⟩ := List.pairwise_append.mp hpairwise
  have hlater := (List.pairwise_cons.mp hpost).left
  let later : Origin → Bool
    | .history i    => boundaryOf history injection ≤ i
    | .injected _ _ => false
  have hcountPre : (pre.filter Origin.isHistory).countP later = 0 := by
    rw [List.countP_eq_zero]
    intro o ho
    cases o
    case history i    =>
      have hlt := hpre _ (List.mem_filter.mp ho).left _ List.mem_cons_self injection hb
      exact fun hle => Nat.not_lt.mpr (of_decide_eq_true hle) hlt
    case injected b j => exact Bool.false_ne_true
  have hcountPost : (post.filter Origin.isHistory).countP later = post.countP Origin.isHistory := by
    rw [List.countP_eq_length_filter (p := Origin.isHistory), List.countP_eq_length]
    intro o ho
    have ⟨hmem, hhistory⟩ := List.mem_filter.mp ho
    cases o
    case history i    => exact decide_eq_true <| hlater _ hmem injection hb
    case injected b j => cases hhistory
  have hall : pre.filter Origin.isHistory ++ post.filter Origin.isHistory =
      (List.range history.length).map .history := by
    have hfilter : (origins history injections).filter Origin.isHistory = (List.range history.length).map .history :=
      filter_origins
    rw [← hfilter, h, List.filter_append]
    rfl
  have hcount := congrArg (List.countP later) hall
  rw [List.countP_append, hcountPre, hcountPost, List.countP_map] at hcount
  have hrange : (List.range history.length).countP (later ∘ Origin.history) =
      history.length - boundaryOf history injection := Lists.countP_range_le
  rw [Nat.zero_add, hrange] at hcount
  rw [hcount, boundaryOf, depthOf]
  omega

theorem ordered_origins {x y : Origin} (h : Before history injections x y) {b j b' j' : Nat}
    {injection injection' : PreparedBlock} (hx : x = .injected b j) (hy : y = .injected b' j')
    (hb : injection ∈ injections[b]?) (hb' : injection' ∈ injections[b']?)
    (hdepth : min (depthOf injection) history.length = min (depthOf injection') history.length) :
    injectionKey injection b j < injectionKey injection' b' j' := by
  subst hx hy
  cases h injection hb injection' hb'
  case inr hkey => exact hkey.right
  case inl hlt  =>
    simp only [boundaryOf, depthOf] at hlt hdepth
    omega

end Tagged

-- The messages of the history and those that are injected each have one place in the merged prompt.
theorem mergeInChatPrompts_placed (history : List PromptMessage) (injections : List PreparedBlock) :
    ∃ os, os.map (Origin.message history injections) = (mergeInChatPrompts history injections).map some ∧
      Placed history injections os := by
  refine ⟨origins history injections, message_origins, filter_origins, nodup_origins,
    fun b j => mem_origins_injected, fun b j injection pre post => followed_origins, ?_⟩
  exact pairwise_origins.imp fun h b j injection b' j' injection' => ordered_origins h

end Prompt
