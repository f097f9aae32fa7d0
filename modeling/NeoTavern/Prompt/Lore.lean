import Mathlib
import NeoTavern.Lib.Lists
import NeoTavern.Prompt.Assembly

namespace Prompt

structure RetrievalEntry where
  id            : String
  lorebookId    : String
  keys          : List String
  secondaryKeys : List String
  content       : String
  position      : Int
  constant      : Bool
  selective     : Bool
  deriving DecidableEq

structure LoreBlock extends PipelineContextBlock where
  relevance : Option Rat := none
  deriving DecidableEq

-- Lower case, and the quotient of two counts as a floating point number.
structure LoreArithmetic where
  toLowerCase : String → String
  divide      : Nat → Nat → Rat

def maxInjectedBlocks : Nat :=
  100

def loreId (entry : RetrievalEntry) : Id :=
  ⟨"lore." ++ entry.id, by simp⟩

def LoreBlock.isRequired (block : LoreBlock) : Bool :=
  block.required = some true

-- The comparison of the sort: whether it does not put `b` in front of `a`.
def LoreBlock.notAfter (a b : LoreBlock) : Bool :=
  if a.required ≠ b.required then a.isRequired else b.relevance.getD 0 ≤ a.relevance.getD 0

section Retrieval

variable (w : LoreArithmetic) (haystack : String)

def matchesKey (key : String) : Bool :=
  trim key ≠ "" && decide ((w.toLowerCase key).toList <:+: haystack.toList)

def constantBlock (entry : RetrievalEntry) : LoreBlock where
  id        := loreId entry
  source    := .lorebook
  content   := entry.content
  required  := some true
  relevance := some 1

def matchedBlock (entry : RetrievalEntry) (matchedKeys : List String) : LoreBlock where
  id        := loreId entry
  source    := .lorebook
  content   := entry.content
  relevance := some <| max 0 <| min 1 <| w.divide matchedKeys.length entry.keys.length

-- The block of one entry, if it has one.
def loreBlock (entry : RetrievalEntry) : Option LoreBlock :=
  if entry.constant then
    some <| constantBlock entry
  else if entry.keys.length = 0 then
    none
  else
    let matchedKeys := entry.keys.filter (matchesKey w haystack)
    if matchedKeys.length = 0 then
      none
    else if entry.selective && !entry.secondaryKeys.any (matchesKey w haystack) then
      none
    else
      some <| matchedBlock w entry matchedKeys

def retrieveLoreBlocks (entries : List RetrievalEntry) (contextText : String) : List LoreBlock :=
  let blocks := entries.filterMap <| loreBlock w <| w.toLowerCase contextText
  (blocks.mergeSort LoreBlock.notAfter).take maxInjectedBlocks

structure Activated (entry : RetrievalEntry) : Prop where
  primary   : ∃ key ∈ entry.keys, matchesKey w haystack key
  secondary : entry.selective → ∃ key ∈ entry.secondaryKeys, matchesKey w haystack key

-- The blocks of two entries that come in this order.
def InOrder (entries : List RetrievalEntry) (a b : LoreBlock) : Prop :=
  ∃ e e', [e, e'].Sublist entries ∧ loreBlock w haystack e = some a ∧ loreBlock w haystack e' = some b

structure Retrieved (entries : List RetrievalEntry) (blocks : List LoreBlock) : Prop where
  nodup     : (blocks.map (·.id)).Nodup
  constant  : ∀ e ∈ entries, e.constant → constantBlock e ∈ blocks
  required  : ∀ b ∈ blocks, b.isRequired → ∃ e ∈ entries, e.constant ∧ b = constantBlock e
  activated : ∀ b ∈ blocks, ¬b.isRequired → ∃ e ∈ entries, ¬e.constant ∧ Activated w haystack e ∧
    b = matchedBlock w e (e.keys.filter <| matchesKey w haystack)
  best      : ∀ e ∈ entries, ∀ out, loreBlock w haystack e = some out → out ∉ blocks →
    ∀ b ∈ blocks, ¬b.isRequired → out.relevance.getD 0 ≤ b.relevance.getD 0
  ordered   : blocks.Pairwise fun a b =>
    a.isRequired = b.isRequired → a.relevance = b.relevance → InOrder w haystack entries a b

end Retrieval

section Blocks

variable {w : LoreArithmetic} {haystack : String} {entry e e' : RetrievalEntry} {entries : List RetrievalEntry}

theorem loreBlock_constant (h : entry.constant) : loreBlock w haystack entry = some (constantBlock entry) := by
  simp [loreBlock, h]

theorem loreBlock_matched (h : ¬entry.constant) (hb : loreBlock w haystack entry = some block) :
    Activated w haystack entry ∧ block = matchedBlock w entry (entry.keys.filter <| matchesKey w haystack) := by
  simp only [loreBlock, h, Bool.false_eq_true, ite_false, List.length_eq_zero_iff, Option.ite_none_left_eq_some,
    Option.some.injEq, List.filter_eq_nil_iff, Bool.and_eq_true, Bool.not_eq_true', not_and] at hb
  have ⟨_, hkeys, hsecondary, hblock⟩ := hb
  constructor
  case left =>
    constructor
    case primary =>
      by_contra hnone
      exact hkeys fun key hkey hm => hnone ⟨key, hkey, hm⟩
    case secondary =>
      intro hs
      have hany := hsecondary hs
      simpa using hany
  case right => exact hblock.symm

theorem loreBlock_cases (hb : loreBlock w haystack entry = some block) :
    entry.constant ∧ block = constantBlock entry ∨
    ¬entry.constant ∧ Activated w haystack entry ∧
      block = matchedBlock w entry (entry.keys.filter <| matchesKey w haystack) := by
  by_cases h : entry.constant
  case pos =>
    rw [loreBlock_constant h] at hb
    exact .inl ⟨h, (Option.some.inj hb).symm⟩
  case neg => exact .inr ⟨h, loreBlock_matched h hb⟩

theorem loreBlock_id (hb : loreBlock w haystack entry = some block) : block.id = loreId entry := by
  cases loreBlock_cases hb
  case inl h => exact h.right ▸ rfl
  case inr h => exact h.right.right ▸ rfl

theorem loreBlock_isRequired (hb : loreBlock w haystack entry = some block) : block.isRequired = entry.constant := by
  cases loreBlock_cases hb
  case inl h => rw [h.right, h.left]; rfl
  case inr h => rw [h.right.right, eq_false_of_ne_true h.left]; rfl

-- A block is required or it says nothing about this.
theorem loreBlock_required (hb : loreBlock w haystack entry = some block) :
    block.required = if block.isRequired then some true else none := by
  cases loreBlock_cases hb
  case inl h => exact h.right ▸ rfl
  case inr h => exact h.right.right ▸ rfl

theorem loreId_injective (h : loreId e = loreId e') : e.id = e'.id := by
  have htext := congrArg Subtype.val h
  simpa [loreId] using htext

end Blocks

section Order

variable {w : LoreArithmetic} {haystack : String} {entries : List RetrievalEntry} {a b c : LoreBlock}

-- Required blocks first, then by relevance.
def LoreBlock.ahead (a b : LoreBlock) : Bool :=
  if a.isRequired = b.isRequired then b.relevance.getD 0 ≤ a.relevance.getD 0 else a.isRequired

theorem LoreBlock.ahead_total (a b : LoreBlock) : a.ahead b || b.ahead a := by
  by_cases h : a.isRequired = b.isRequired
  case pos => simp [ahead, h, le_total]
  case neg =>
    cases ha : a.isRequired
    case true  => simp_all [ahead]
    case false => simp_all [ahead]

theorem LoreBlock.ahead_trans (a b c : LoreBlock) (hab : a.ahead b) (hbc : b.ahead c) : a.ahead c := by
  cases ha : a.isRequired <;> cases hb : b.isRequired <;> cases hc : c.isRequired <;>
    simp_all [ahead]
  all_goals exact hbc.trans hab

theorem LoreBlock.ahead_of_ne (h : a.ahead b) (hb : b.isRequired) : a.isRequired := by
  by_contra ha
  simp_all [ahead]

theorem LoreBlock.relevance_le (h : a.ahead b) (ha : ¬a.isRequired) : b.relevance.getD 0 ≤ a.relevance.getD 0 := by
  by_cases hb : b.isRequired
  case pos => exact absurd (ahead_of_ne h hb) ha
  case neg => simp_all [ahead]

def loreBlocks (w : LoreArithmetic) (haystack : String) (entries : List RetrievalEntry) : List LoreBlock :=
  entries.filterMap <| loreBlock w haystack

-- The blocks in the order of the sort, before the cut.
def rankedBlocks (w : LoreArithmetic) (haystack : String) (entries : List RetrievalEntry) : List LoreBlock :=
  (loreBlocks w haystack entries).mergeSort LoreBlock.notAfter

theorem mem_rankedBlocks :
    b ∈ rankedBlocks w haystack entries ↔ ∃ e ∈ entries, loreBlock w haystack e = some b := by
  rw [rankedBlocks, List.mem_mergeSort, loreBlocks, List.mem_filterMap]

theorem notAfter_eq_ahead (ha : a ∈ loreBlocks w haystack entries) (hb : b ∈ loreBlocks w haystack entries) :
    a.notAfter b = a.ahead b := by
  have ⟨_, _, ha⟩ := List.mem_filterMap.mp ha
  have ⟨_, _, hb⟩ := List.mem_filterMap.mp hb
  have ha := loreBlock_required ha
  have hb := loreBlock_required hb
  cases hra : a.isRequired <;> cases hrb : b.isRequired <;>
    simp [LoreBlock.notAfter, LoreBlock.ahead, ha, hb, hra, hrb]

theorem rankedBlocks_eq :
    rankedBlocks w haystack entries = (loreBlocks w haystack entries).mergeSort LoreBlock.ahead := by
  have h := List.map_mergeSort (l := loreBlocks w haystack entries) (f := fun b => b) (r := LoreBlock.notAfter)
    (s := LoreBlock.ahead) fun a ha b hb => notAfter_eq_ahead ha hb
  simpa [rankedBlocks] using h

theorem loreBlocks_ids : ((loreBlocks w haystack entries).map (·.id)).Sublist (entries.map loreId) := by
  induction entries
  case nil            => exact .slnil
  case cons e entries ih =>
    cases hb : loreBlock w haystack e
    case none       => simpa [loreBlocks, hb] using ih.cons _
    case some block =>
      have hcons := ih.cons_cons (loreId e)
      simpa [loreBlocks, hb, loreBlock_id hb] using hcons

theorem loreBlocks_ids_nodup (hn : (entries.map (·.id)).Nodup) :
    ((loreBlocks w haystack entries).map (·.id)).Nodup := by
  apply List.Nodup.sublist loreBlocks_ids
  have hinj := List.inj_on_of_nodup_map hn
  exact (List.Nodup.of_map _ hn).map_on fun e he e' he' h => hinj he he' <| loreId_injective h

theorem rankedBlocks_ids_nodup (hn : (entries.map (·.id)).Nodup) :
    ((rankedBlocks w haystack entries).map (·.id)).Nodup :=
  ((List.mergeSort_perm ..).map _).nodup_iff.mpr <| loreBlocks_ids_nodup hn

theorem loreBlocks_pairwise : (loreBlocks w haystack entries).Pairwise (InOrder w haystack entries) := by
  apply List.pairwise_filterMap.mpr
  apply List.pairwise_iff_forall_sublist.mpr
  intro e e' hsub a ha b hb
  exact ⟨e, e', hsub, ha, hb⟩

theorem rankedBlocks_pairwise (hn : (entries.map (·.id)).Nodup) :
    (rankedBlocks w haystack entries).Pairwise fun a b =>
      a.ahead b ∧ (b.ahead a → InOrder w haystack entries a b) := by
  rw [rankedBlocks_eq]
  exact Lists.pairwise_mergeSort_stable LoreBlock.ahead_trans LoreBlock.ahead_total
    (List.Nodup.of_map _ <| loreBlocks_ids_nodup hn) loreBlocks_pairwise

theorem countP_isRequired :
    (rankedBlocks w haystack entries).countP (·.isRequired) = entries.countP (·.constant) := by
  have hperm := (List.mergeSort_perm (loreBlocks w haystack entries) LoreBlock.notAfter).countP_eq (·.isRequired)
  rw [rankedBlocks, hperm, loreBlocks, List.countP_filterMap]
  apply List.countP_congr
  intro e _
  cases hb : loreBlock w haystack e
  case none =>
    by_cases he : e.constant
    case pos => simp [loreBlock_constant he] at hb
    case neg => simp [he]
  case some block => simp [loreBlock_isRequired hb]

end Order

section Cut

variable {w : LoreArithmetic} {haystack : String} {entries : List RetrievalEntry}

-- What the cut leaves out.
theorem mem_drop_of_not_mem_take {l : List LoreBlock} (h : b ∈ l) (hn : b ∉ l.take n) : b ∈ l.drop n := by
  rw [← List.take_append_drop n l] at h
  exact (List.mem_append.mp h).resolve_left hn

theorem ahead_of_cut (hn : (entries.map (·.id)).Nodup) (ha : a ∈ (rankedBlocks w haystack entries).take n)
    (hb : b ∈ (rankedBlocks w haystack entries).drop n) : a.ahead b := by
  have hpairwise : (rankedBlocks w haystack entries).Pairwise _ := rankedBlocks_pairwise hn
  rw [← List.take_append_drop n (rankedBlocks w haystack entries)] at hpairwise
  exact ((List.pairwise_append.mp hpairwise).right.right a ha b hb).left

-- A required block that is cut off has only required ones in front of it.
theorem required_of_cut (hn : (entries.map (·.id)).Nodup) (hb : b ∈ (rankedBlocks w haystack entries).drop n)
    (hr : b.isRequired) : n < entries.countP (·.constant) := by
  have hall : ∀ a ∈ (rankedBlocks w haystack entries).take n, a.isRequired := fun a ha =>
    LoreBlock.ahead_of_ne (ahead_of_cut hn ha hb) hr
  have htake := List.countP_eq_length.mpr hall
  have hdrop : 0 < ((rankedBlocks w haystack entries).drop n).countP (·.isRequired) :=
    List.countP_pos_iff.mpr ⟨b, hb, hr⟩
  have hlength := List.length_pos_of_mem hb
  have hsplit : (rankedBlocks w haystack entries).countP (·.isRequired) = _ := countP_isRequired
  rw [← List.take_append_drop n (rankedBlocks w haystack entries), List.countP_append, htake,
    List.length_take] at hsplit
  rw [List.length_drop] at hlength
  omega

variable {contextText : String}

theorem retrieveLoreBlocks_eq :
    retrieveLoreBlocks w entries contextText =
      (rankedBlocks w (w.toLowerCase contextText) entries).take maxInjectedBlocks :=
  rfl

theorem retrieveLoreBlocks_retrieved (hn : (entries.map (·.id)).Nodup)
    (hc : entries.countP (·.constant) ≤ maxInjectedBlocks) :
    Retrieved w (w.toLowerCase contextText) entries (retrieveLoreBlocks w entries contextText) := by
  rw [retrieveLoreBlocks_eq]
  have hsub := List.take_sublist maxInjectedBlocks (rankedBlocks w (w.toLowerCase contextText) entries)
  have hblock : ∀ b ∈ (rankedBlocks w (w.toLowerCase contextText) entries).take maxInjectedBlocks,
      ∃ e ∈ entries, loreBlock w (w.toLowerCase contextText) e = some b :=
    fun b hb => mem_rankedBlocks.mp <| hsub.subset hb
  constructor
  case nodup => exact (rankedBlocks_ids_nodup hn).sublist <| hsub.map _
  case constant =>
    intro e he hconstant
    by_contra hnot
    have hmem : constantBlock e ∈ rankedBlocks w (w.toLowerCase contextText) entries :=
      mem_rankedBlocks.mpr ⟨e, he, loreBlock_constant hconstant⟩
    have hcut := required_of_cut hn (mem_drop_of_not_mem_take hmem hnot) rfl
    omega
  case required =>
    intro b hb hr
    have ⟨e, he, hb⟩ := hblock b hb
    have hconstant : e.constant := loreBlock_isRequired hb ▸ hr
    rw [loreBlock_constant hconstant] at hb
    exact ⟨e, he, hconstant, (Option.some.inj hb).symm⟩
  case activated =>
    intro b hb hr
    have ⟨e, he, hb⟩ := hblock b hb
    have hconstant : ¬e.constant := loreBlock_isRequired hb ▸ hr
    have ⟨ha, hb⟩ := loreBlock_matched hconstant hb
    exact ⟨e, he, hconstant, ha, hb⟩
  case best =>
    intro e he out hout hnot b hb hr
    have hmem := mem_rankedBlocks.mpr ⟨e, he, hout⟩
    exact LoreBlock.relevance_le (ahead_of_cut hn hb <| mem_drop_of_not_mem_take hmem hnot) hr
  case ordered =>
    apply ((rankedBlocks_pairwise hn).sublist hsub).imp
    intro a b h hr hrel
    exact h.right <| by simp [LoreBlock.ahead, hr, hrel]

theorem countP_constant_le (hn : (entries.map (·.id)).Nodup)
    (h : Retrieved w (w.toLowerCase contextText) entries (retrieveLoreBlocks w entries contextText)) :
    entries.countP (·.constant) ≤ maxInjectedBlocks := by
  have hsubset : (rankedBlocks w (w.toLowerCase contextText) entries).filter (·.isRequired) ⊆
      retrieveLoreBlocks w entries contextText := by
    intro b hb
    have ⟨hb, hr⟩ := List.mem_filter.mp hb
    have ⟨e, he, hb⟩ := mem_rankedBlocks.mp hb
    have hconstant : e.constant := loreBlock_isRequired hb ▸ hr
    rw [loreBlock_constant hconstant] at hb
    exact Option.some.inj hb ▸ h.constant e he hconstant
  have hnodup : (rankedBlocks w (w.toLowerCase contextText) entries).Nodup :=
    List.Nodup.of_map _ <| rankedBlocks_ids_nodup hn
  have hle := (List.subperm_of_subset (hnodup.filter _) hsubset).length_le
  rw [← List.countP_eq_length_filter, countP_isRequired] at hle
  exact hle.trans <| List.length_take_le ..

theorem retrieveLoreBlocks_retrieved_iff (w : LoreArithmetic) (entries : List RetrievalEntry) (contextText : String)
    (hn : (entries.map (·.id)).Nodup) :
    Retrieved w (w.toLowerCase contextText) entries (retrieveLoreBlocks w entries contextText) ↔
      entries.countP (·.constant) ≤ maxInjectedBlocks :=
  ⟨countP_constant_le hn, retrieveLoreBlocks_retrieved hn⟩

def plainArithmetic : LoreArithmetic where
  toLowerCase s := String.ofList <| s.toList.map Char.toLower
  divide m n    := m / n

def dragonEntry : RetrievalEntry where
  id            := "dragon"
  lorebookId    := "book"
  keys          := ["Dragon", "wyrm"]
  secondaryKeys := ["cave"]
  content       := "It sleeps."
  position      := 1
  constant      := false
  selective     := true

def ruleEntry (id : String) : RetrievalEntry where
  id            := id
  lorebookId    := "book"
  keys          := []
  secondaryKeys := []
  content       := "A rule of the world."
  position      := 0
  constant      := true
  selective     := false

theorem retrieveLoreBlocks_dragon_and_rule :
    Retrieved plainArithmetic (plainArithmetic.toLowerCase "A dragon in a CAVE") [dragonEntry, ruleEntry "rule"]
      (retrieveLoreBlocks plainArithmetic [dragonEntry, ruleEntry "rule"] "A dragon in a CAVE") :=
  (retrieveLoreBlocks_retrieved_iff plainArithmetic [dragonEntry, ruleEntry "rule"] "A dragon in a CAVE"
    (by decide)).mpr (by decide)

def manyRules : List RetrievalEntry :=
  (List.range 101).map fun n => ruleEntry <| .ofList <| List.replicate n 'r'

theorem manyRules_ids_nodup : (manyRules.map (·.id)).Nodup := by
  rw [manyRules, List.map_map]
  apply List.nodup_range.map
  intro n m h
  have hlength := congrArg String.length h
  simpa [ruleEntry] using hlength

theorem manyRules_not_retrieved :
    (manyRules.map (·.id)).Nodup ∧
      ¬Retrieved plainArithmetic (plainArithmetic.toLowerCase "") manyRules
        (retrieveLoreBlocks plainArithmetic manyRules "") := by
  constructor
  case left  => exact manyRules_ids_nodup
  case right =>
    intro h
    have hle := countP_constant_le manyRules_ids_nodup h
    have hcount : manyRules.countP (·.constant) = 101 := by decide +kernel
    rw [hcount] at hle
    exact absurd hle (by decide)

end Cut

end Prompt
