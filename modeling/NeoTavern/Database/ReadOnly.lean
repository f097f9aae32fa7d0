import Mathlib
import NeoTavern.Database.ReadGate

namespace Database

open Sql

section Agreement

-- Whether the first regular expression finds a comment at the beginning of a text.
def opensBlock : Text → Bool
  | []     => false
  | c :: z => c = '/' && z.head? = some '*' && (closing (z.drop 1)).isSome

def opensLine : Text → Bool
  | []     => false
  | c :: z => c = '-' && z.head? = some '-'

-- Nothing that looks like a comment begins within a token that is none, and no block comment begins
-- within a line comment.
def Agrees (t : Token) : Prop :=
  match t.kind with
  | .blockComment | .openComment => True
  | .lineComment                 => ∀ i < t.text.length, opensBlock ((t.text ++ t.rest).drop i) = false
  | _                            => ∀ i < t.text.length,
    opensBlock ((t.text ++ t.rest).drop i) = false ∧ opensLine ((t.text ++ t.rest).drop i) = false

instance : DecidablePred Agrees := fun t => by
  unfold Agrees
  split <;> infer_instance

-- What the regular expressions leave of a token.
def shown (t : Token) : Text :=
  if t.kind = .lineComment ∨ t.kind = .blockComment ∨ t.kind = .openComment then [' '] else t.text

def strip (z : Text) : Text :=
  stripLines false (stripBlocks 0 z)

variable {z t r w : Text} {c : Char} {n : Nat}

theorem stripBlocks_skip : stripBlocks n z = stripBlocks 0 (z.drop n) := by
  induction n generalizing z
  case zero      => rfl
  case succ n ih =>
    cases z
    case nil      => rfl
    case cons c z => exact ih

theorem stripBlocks_cons (h : opensBlock (c :: z) = false) :
    stripBlocks 0 (c :: z) = c :: stripBlocks 0 z := by
  rw [stripBlocks]
  split
  case isFalse       => rfl
  case isTrue hstart =>
    rw [opensBlock, hstart, Bool.true_and, Option.isSome_eq_false_iff, Option.isNone_iff_eq_none] at h
    rw [h]

theorem stripBlocks_comment (h : closing w = some n) :
    stripBlocks 0 ('/' :: '*' :: w) = ' ' :: stripBlocks 0 (w.drop n) := by
  have hstart : (decide ('/' = '/') && decide (('*' :: w).head? = some '*')) = true := by simp
  rw [stripBlocks, if_pos hstart, List.drop_one, List.tail_cons, h]
  dsimp only
  rw [stripBlocks_skip, List.drop_succ_cons]

theorem stripBlocks_append (h : ∀ i < t.length, opensBlock ((t ++ r).drop i) = false) :
    stripBlocks 0 (t ++ r) = t ++ stripBlocks 0 r := by
  induction t
  case nil         => rfl
  case cons c t ih =>
    have hc : opensBlock (c :: (t ++ r)) = false := h 0 (Nat.succ_pos _)
    rw [List.cons_append, stripBlocks_cons hc, ih fun i hi => h (i + 1) (Nat.succ_lt_succ hi),
      List.cons_append]

-- A text begins as before, or with what a comment has been replaced by.
theorem head?_stripBlocks : (stripBlocks 0 z).head? = z.head? ∨ (stripBlocks 0 z).head? = some ' ' := by
  cases z
  case nil      => exact .inl rfl
  case cons c z =>
    rw [stripBlocks]
    split
    case isFalse => exact .inl rfl
    case isTrue  =>
      split
      case h_1 => exact .inr rfl
      case h_2 => exact .inl rfl

theorem head?_stripLines : (stripLines false z).head? = z.head? ∨ (stripLines false z).head? = some ' ' := by
  cases z
  case nil      => exact .inl rfl
  case cons c z =>
    rw [stripLines]
    split
    case isTrue  => exact .inr rfl
    case isFalse => exact .inl rfl

theorem head?_strip : (strip z).head? = z.head? ∨ (strip z).head? = some ' ' := by
  cases head?_stripLines (z := stripBlocks 0 z)
  case inr h => exact .inr h
  case inl h =>
    cases head?_stripBlocks (z := z)
    case inl h' => exact .inl <| h.trans h'
    case inr h' => exact .inr <| h.trans h'

theorem stripLines_cons (h : opensLine (c :: z) = false) :
    stripLines false (c :: z) = c :: stripLines false z := by
  rw [stripLines, if_neg]
  rw [opensLine] at h
  simp [h]

theorem stripLines_append (h : ∀ i < t.length, opensLine ((t ++ r).drop i) = false)
    (hr : w.head? = r.head? ∨ w.head? = some ' ') :
    stripLines false (t ++ w) = t ++ stripLines false w := by
  induction t
  case nil         => rfl
  case cons c t ih =>
    have hc : opensLine (c :: (t ++ w)) = false := by
      have hc := h 0 (Nat.succ_pos _)
      rw [List.cons_append, List.drop_zero, opensLine] at hc
      rw [opensLine]
      cases t
      case cons d t => exact hc
      case nil      =>
        rw [List.nil_append] at hc ⊢
        cases hr
        case inl hr => rw [hr, hc]
        case inr hr => rw [hr]; simp
    rw [List.cons_append, stripLines_cons hc, ih fun i hi => h (i + 1) (Nat.succ_lt_succ hi),
      List.cons_append]

theorem stripLines_inside (h : newline ∉ t) (hr : r.head? = some newline) :
    stripLines true (t ++ r) = stripLines false r := by
  induction t
  case nil =>
    cases r
    case nil      => cases hr
    case cons d r =>
      have hd : d = newline := by simpa using hr
      have hline : opensLine (d :: r) = false := by
        rw [hd, opensLine]
        rfl
      rw [List.nil_append, stripLines, if_pos hd, stripLines_cons hline]
  case cons c t ih =>
    have hc : c ≠ newline := fun heq => h (heq ▸ List.mem_cons_self ..)
    rw [List.cons_append, stripLines, if_neg hc]
    exact ih fun hmem => h <| List.mem_cons_of_mem _ hmem

theorem stripLines_comment (h : newline ∉ t) (hr : r.head? = some newline) :
    stripLines false ('-' :: '-' :: t ++ r) = ' ' :: stripLines false r := by
  have hdash : ('-' : Char) ≠ newline := by decide
  rw [List.cons_append, List.cons_append, stripLines, if_pos (by simp), stripLines, if_neg hdash,
    stripLines_inside h hr]

-- Nothing comes after a comment that is left open.
theorem strip_comment (hkind : (tokenOf c z).kind = .lineComment ∨ (tokenOf c z).kind = .blockComment ∨
      (tokenOf c z).kind = .openComment)
    (h : Agrees (tokenOf c z)) (hrest : tokens (tokenOf c z).rest ≠ []) :
    strip (c :: z) = ' ' :: strip (tokenOf c z).rest := by
  have hnul : ∀ d ∈ (tokenOf c z).rest.head?, d ≠ nul := by
    intro d hd heq
    cases hr : (tokenOf c z).rest
    case nil      => simp [hr] at hd
    case cons e r =>
      have he : e = nul := by
        rw [hr] at hd
        exact (by simpa using hd : e = d).trans heq
      rw [hr, he, tokens_nul] at hrest
      exact hrest rfl
  cases hkind
  case inr hkind =>
    rcases slash_cases hkind with ⟨w, n, hw, hn, hr⟩ | hr
    · rw [hw, hr, strip, stripBlocks_comment hn, strip, stripLines_cons rfl]
    · cases hhead : (tokenOf c z).rest.head?
      case none =>
        rw [List.head?_eq_none_iff.mp hhead] at hrest
        exact absurd rfl hrest
      case some d => exact absurd (hr d hhead) (hnul d hhead)
  case inl hkind =>
    have ⟨⟨m, hm, hnew⟩, hr⟩ := lineComment_text hkind
    have hhead : (tokenOf c z).rest.head? = some newline := by
      cases hhead : (tokenOf c z).rest.head?
      case none =>
        rw [List.head?_eq_none_iff.mp hhead] at hrest
        exact absurd rfl hrest
      case some d => exact congrArg some <| (hr d hhead).resolve_right <| hnul d hhead
    have hblock : (stripBlocks 0 (tokenOf c z).rest).head? = some newline := by
      cases hr : (tokenOf c z).rest
      case nil      => simp [hr] at hhead
      case cons d r =>
        have hd : d = newline := by simpa [hr] using hhead
        have hopens : opensBlock (d :: r) = false := by
          rw [hd, opensBlock]
          rfl
        rw [stripBlocks_cons hopens, hd]
        rfl
    rw [Agrees, hkind] at h
    rw [← text_append_rest (c := c) (z := z), strip, stripBlocks_append h, hm, stripLines_comment hnew hblock]
    rfl

theorem strip_other (h : ∀ i < (tokenOf c z).text.length,
      opensBlock (((tokenOf c z).text ++ (tokenOf c z).rest).drop i) = false ∧
        opensLine (((tokenOf c z).text ++ (tokenOf c z).rest).drop i) = false) :
    strip (c :: z) = (tokenOf c z).text ++ strip (tokenOf c z).rest := by
  rw [← text_append_rest (c := c) (z := z), strip, stripBlocks_append fun i hi => (h i hi).left,
    stripLines_append (fun i hi => (h i hi).right) head?_stripBlocks]
  rfl

-- The regular expressions leave a token, and put a space for a comment.
theorem strip_token (h : Agrees (tokenOf c z)) (hrest : tokens (tokenOf c z).rest ≠ [] ∨
      ¬((tokenOf c z).kind = .lineComment ∨ (tokenOf c z).kind = .blockComment ∨
        (tokenOf c z).kind = .openComment)) :
    strip (c :: z) = shown (tokenOf c z) ++ strip (tokenOf c z).rest := by
  rw [shown]
  by_cases hcomment : (tokenOf c z).kind = .lineComment ∨ (tokenOf c z).kind = .blockComment ∨
    (tokenOf c z).kind = .openComment
  case pos =>
    rw [if_pos hcomment]
    exact strip_comment hcomment h <| hrest.resolve_right <| not_not_intro hcomment
  case neg =>
    rw [if_neg hcomment]
    refine strip_other ?_
    rw [Agrees] at h
    split at h
    case h_1 hkind => exact absurd (.inr <| .inl hkind) hcomment
    case h_2 hkind => exact absurd (.inr <| .inr hkind) hcomment
    case h_3 hkind => exact absurd (.inl hkind) hcomment
    case h_4       => exact h

example : strip "a--b\nc/*d*/".toList = "a \nc ".toList := by
  decide +kernel

end Agreement

section Split

variable {sql rest : Text} {t : Token} {pre post : List Token}

-- Around a token that is no comment, the regular expressions leave what comes before and after it.
theorem strip_split (h : ∀ u ∈ tokens sql, Agrees u) (hsplit : tokens sql = pre ++ t :: post)
    (hkind : ¬(t.kind = .lineComment ∨ t.kind = .blockComment ∨ t.kind = .openComment)) :
    strip sql = pre.flatMap shown ++ (t.text ++ strip t.rest) ∧ post = tokens t.rest ∧
      ∃ c z, t = tokenOf c z := by
  induction pre generalizing sql
  case nil =>
    cases sql
    case nil      => cases hsplit
    case cons c z =>
      by_cases hc : c = nul
      case pos =>
        rw [hc, tokens_nul] at hsplit
        cases hsplit
      case neg =>
        rw [tokens_cons hc] at hsplit h
        injection hsplit with ht hpost
        have hagrees := h _ (List.mem_cons_self ..)
        rw [← ht] at hkind ⊢
        refine ⟨?_, hpost.symm, c, z, rfl⟩
        rw [strip_token hagrees (.inr hkind), shown, if_neg hkind]
        rfl
  case cons u pre ih =>
    cases sql
    case nil      => cases hsplit
    case cons c z =>
      by_cases hc : c = nul
      case pos =>
        rw [hc, tokens_nul] at hsplit
        cases hsplit
      case neg =>
        rw [tokens_cons hc] at hsplit h
        injection hsplit with hu hrest
        have hagrees := h _ (List.mem_cons_self ..)
        have ⟨hstrip, hpost⟩ := ih (fun v hv => h v <| List.mem_cons_of_mem _ hv) hrest
        refine ⟨?_, hpost⟩
        rw [strip_token hagrees (.inl <| by simp [hrest]), hstrip, hu, List.flatMap_cons, List.append_assoc]

end Split

section Trim

variable {l r w : Text} {c : Char}

-- Trimming leaves what comes after a character that is not white.
theorem trimStart_suffix (hc : isWhiteSpace c = false) :
    ∃ l', l' <:+ l ∧ trimStart (l ++ c :: r) = l' ++ c :: r ∧
      ((∀ d ∈ l, isWhiteSpace d = true) → l' = []) := by
  induction l
  case nil =>
    refine ⟨[], List.suffix_rfl, ?_, fun _ => rfl⟩
    rw [List.nil_append, trimStart, List.dropWhile_cons, if_neg (by simp [hc])]
  case cons d l ih =>
    rw [List.cons_append, trimStart, List.dropWhile_cons]
    split
    case isTrue  =>
      have ⟨l', hl', heq, hnil⟩ := ih
      exact ⟨l', hl'.trans <| List.suffix_cons .., heq, fun h => hnil fun e he => h e <| List.mem_cons_of_mem _ he⟩
    case isFalse hd =>
      exact ⟨d :: l, List.suffix_rfl, rfl, fun h => absurd (h d <| List.mem_cons_self ..) hd⟩

theorem trimEnd_append (hw : ∀ c ∈ w.getLast?, isWhiteSpace c = false) :
    trimEnd (w ++ r) = w ++ trimEnd r := by
  have hself : w.reverse.dropWhile isWhiteSpace = w.reverse := by
    cases hrev : w.reverse
    case nil      => rfl
    case cons c u =>
      have hc := hw c <| by rw [← List.head?_reverse, hrev]; rfl
      rw [List.dropWhile_cons, if_neg (by simp [hc])]
  rw [trimEnd, List.reverse_append, List.dropWhile_append]
  split
  case isTrue hempty =>
    rw [hself, List.reverse_reverse, trimEnd, List.isEmpty_iff.mp hempty]
    simp
  case isFalse => rw [List.reverse_append, List.reverse_reverse, trimEnd]

theorem trimEnd_prefix : trimEnd r <+: r := by
  have h := List.dropWhile_suffix (l := r.reverse) isWhiteSpace
  rw [← List.reverse_prefix] at h
  rwa [List.reverse_reverse] at h

theorem white_of_trimEnd (h : trimEnd r = []) : ∀ c ∈ r, isWhiteSpace c = true := by
  rw [trimEnd, List.reverse_eq_nil_iff, List.dropWhile_eq_nil_iff] at h
  intro c hc
  exact h c <| List.mem_reverse.mpr hc

theorem getLast?_word (hne : w ≠ []) (hwhite : ∀ c ∈ w, isWhiteSpace c = false) :
    ∀ c ∈ (l ++ w).getLast?, isWhiteSpace c = false := by
  intro c hc
  rw [List.getLast?_append_of_ne_nil _ hne] at hc
  exact hwhite c <| List.mem_of_getLast? hc

theorem stripped_append {sql : Text} (hstrip : strip sql = l ++ (w ++ r)) (hne : w ≠ [])
    (hwhite : ∀ c ∈ w, isWhiteSpace c = false) :
    ∃ l', l' <:+ l ∧ stripped sql = l' ++ w ++ trimEnd r ∧
      ((∀ c ∈ l, isWhiteSpace c = true) → l' = []) := by
  have ⟨c, w', hw⟩ := List.exists_cons_of_ne_nil hne
  have hc : isWhiteSpace c = false := hwhite c <| hw ▸ List.mem_cons_self ..
  have ⟨l', hl', hstart, hnil⟩ := trimStart_suffix (l := l) (r := w' ++ r) hc
  refine ⟨l', hl', ?_, hnil⟩
  have htrim : trimStart (strip sql) = l' ++ w ++ r := by
    rw [hstrip, hw, List.cons_append, hstart, List.append_assoc, List.cons_append]
  rw [stripped, trim, ← strip, htrim, trimEnd_append <| getLast?_word hne hwhite]

-- What is left of a word in the body of a statement, and of what comes before and after it.
theorem bodyOf_append {sql : Text} (hstrip : strip sql = l ++ (w ++ r)) (hne : w ≠ [])
    (hwhite : ∀ c ∈ w, isWhiteSpace c = false) :
    ∃ l' r', l' <:+ l ∧ r' <+: r ∧ ((∀ c ∈ l, isWhiteSpace c = true) → l' = []) ∧
      (bodyOf sql = l' ++ w ++ r' ∨ trimEnd r = [] ∧ w.getLast? = some ';') ∧
      (trimEnd r ≠ [] → bodyOf sql = l' ++ w ++ r') := by
  have ⟨l', hl', hstripped, hnil⟩ := stripped_append hstrip hne hwhite
  have hlast := getLast?_word (l := l') hne hwhite
  rw [bodyOf, hstripped]
  by_cases hr : trimEnd r = []
  case pos =>
    refine ⟨l', [], hl', List.nil_prefix, hnil, ?_, fun h => absurd hr h⟩
    rw [hr, List.append_nil]
    split
    case isTrue h  =>
      rw [List.getLast?_append_of_ne_nil _ hne] at h
      exact .inr ⟨rfl, h⟩
    case isFalse => exact .inl rfl
  case neg =>
    have ⟨r₁, d, hd⟩ : ∃ r₁ d, trimEnd r = r₁ ++ [d] :=
      ⟨_, _, (List.dropLast_append_getLast hr).symm⟩
    rw [hd, ← List.append_assoc, List.getLast?_concat, List.dropLast_concat]
    split
    case isTrue =>
      refine ⟨l', trimEnd r₁, hl', ?_, hnil, ?_, fun _ => trimEnd_append hlast⟩
      · exact trimEnd_prefix.trans <| (List.prefix_append r₁ [d]).trans <| hd ▸ trimEnd_prefix
      · exact .inl <| trimEnd_append hlast
    case isFalse =>
      refine ⟨l', trimEnd r, hl', trimEnd_prefix, hnil, ?_, fun _ => ?_⟩
      · exact .inl <| by rw [hd, List.append_assoc]
      · rw [hd, List.append_assoc]

-- A semicolon that is left has nothing but white space after it.
theorem white_of_semicolon {sql : Text} (hstrip : strip sql = l ++ ([';'] ++ r)) (hbody : ';' ∉ bodyOf sql) :
    ∀ c ∈ r, isWhiteSpace c = true := by
  have ⟨l', r', _, _, _, _, hrest⟩ := bodyOf_append hstrip (by simp) (by simp; rfl)
  refine white_of_trimEnd ?_
  by_contra hr
  rw [hrest hr] at hbody
  exact hbody <| List.mem_append_left _ <| List.mem_append_right _ <| List.mem_cons_self ..

example : trim " a ".toList = "a".toList := by
  decide +kernel

end Trim

section Keywords

variable {l r keyword : Text} {before : Bool} {table : Char → Text}

theorem toUpperCase_append : toUpperCase table (l ++ r) = toUpperCase table l ++ toUpperCase table r :=
  List.flatMap_append

theorem toUpperCase_ascii (h : ∀ c ∈ l, c.toNat < 128) : toUpperCase table l = l.map Char.toUpper := by
  induction l
  case nil         => rfl
  case cons c l ih =>
    rw [toUpperCase, List.flatMap_cons, if_pos (h c <| List.mem_cons_self ..), ← toUpperCase,
      ih fun d hd => h d <| List.mem_cons_of_mem _ hd]
    rfl

-- A keyword is found where no character of a word is next to it.
theorem hasKeyword_append (hl : l = [] → before = false) (hlast : ∀ c ∈ l.getLast?, isWordChar c = false)
    (hr : ∀ c ∈ r.head?, isWordChar c = false) (hne : keyword ≠ []) :
    hasKeyword keyword before (l ++ (keyword ++ r)) = true := by
  induction l generalizing before
  case nil =>
    have ⟨c, w, hw⟩ := List.exists_cons_of_ne_nil hne
    have hafter : (((keyword ++ r).drop keyword.length).head?.any isWordChar) = false := by
      rw [List.drop_left]
      cases hhead : r.head?
      case none   => rfl
      case some d => exact hr d hhead
    have hpre : keyword.isPrefixOf (keyword ++ r) = true :=
      List.isPrefixOf_iff_prefix.mpr <| List.prefix_append ..
    rw [hw, List.cons_append] at hafter hpre
    rw [hw, List.nil_append, List.cons_append, hasKeyword, hl rfl, hpre, hafter]
    rfl
  case cons c l ih =>
    rw [List.cons_append, hasKeyword]
    refine (Bool.or_eq_true _ _).mpr <| .inr <| ih (fun hnil => ?_) fun d hd => ?_
    · exact hlast c <| by rw [hnil]; rfl
    · refine hlast d ?_
      cases l
      case nil      => cases hd
      case cons e l => rwa [List.getLast?_cons_cons]

theorem toUpper_of_not_lower {c : Char} (h : c.isLower = false) : c.toUpper = c := by
  refine dif_neg fun hrange => ?_
  simp only [Char.isLower, Bool.and_eq_false_iff, decide_eq_false_iff_not] at h
  cases h
  case inl h => exact h hrange.left
  case inr h => exact h hrange.right

theorem toUpper_of_not_idChar {c : Char} (h : isIdChar c = false) :
    c.toNat < 128 ∧ c.toUpper = c ∧ isWordChar c = false := by
  simp only [isIdChar, Char.isAlphanum, Char.isAlpha, Bool.or_eq_false_iff, decide_eq_false_iff_not] at h
  have ⟨⟨⟨⟨⟨hupper, hlower⟩, hdigit⟩, hunder⟩, _⟩, hascii⟩ := h
  refine ⟨Nat.not_le.mp hascii, toUpper_of_not_lower hlower, ?_⟩
  simp [isWordChar, Char.isAlphanum, Char.isAlpha, hupper, hlower, hdigit, hunder]

-- What is a letter when it is made a capital one is a letter.
theorem isAlpha_of_toUpper {c : Char} (h : c.toUpper.isUpper = true) : c.isAlpha = true := by
  by_cases hlower : c.isLower = true
  case pos => simp [Char.isAlpha, hlower]
  case neg =>
    rw [toUpper_of_not_lower (by simpa using hlower)] at h
    simp [Char.isAlpha, h]

theorem range_of_isAlpha {c : Char} (h : c.isAlpha = true) : 65 ≤ c.toNat ∧ c.toNat ≤ 122 := by
  simp only [Char.isAlpha, Char.isUpper, Char.isLower, Bool.or_eq_true, Bool.and_eq_true,
    decide_eq_true_eq] at h
  have hnat (n : UInt32) : c.val ≤ n ↔ c.toNat ≤ n.toNat := UInt32.le_iff_toNat_le
  have hnat' (n : UInt32) : n ≤ c.val ↔ n.toNat ≤ c.toNat := UInt32.le_iff_toNat_le
  simp only [hnat, hnat'] at h
  rcases h with ⟨hge, hle⟩ | ⟨hge, hle⟩
  · exact ⟨hge, hle.trans (by decide)⟩
  · exact ⟨Nat.le_trans (by decide) hge, hle⟩

theorem not_white_of_isAlpha {c : Char} (h : c.isAlpha = true) : isWhiteSpace c = false := by
  have ⟨hge, hle⟩ := range_of_isAlpha h
  simp only [isWhiteSpace, Bool.or_eq_false_iff, Bool.and_eq_false_iff, decide_eq_false_iff_not]
  omega

-- The last character of what is in capital letters, and the first one.
theorem getLast?_toUpperCase (h : ∀ c ∈ l.getLast?, isIdChar c = false) :
    ∀ c ∈ (toUpperCase table l).getLast?, isWordChar c = false := by
  cases hl : l.getLast?
  case none =>
    rw [List.getLast?_eq_none_iff.mp hl]
    exact fun c hc => nomatch hc
  case some d =>
    have ⟨hascii, hupper, hword⟩ := toUpper_of_not_idChar <| h d hl
    have ⟨l', hl'⟩ := List.getLast?_eq_some_iff.mp hl
    have hlast : toUpperCase table [d] = [d] := by
      rw [toUpperCase_ascii (by simpa using hascii), List.map_singleton, hupper]
    rw [hl', toUpperCase_append, hlast, List.getLast?_concat]
    intro c hc
    rwa [← Option.some.inj hc]

theorem head?_toUpperCase (h : ∀ c ∈ l.head?, isIdChar c = false) :
    ∀ c ∈ (toUpperCase table l).head?, isWordChar c = false := by
  cases l
  case nil      => exact fun c hc => nomatch hc
  case cons d l =>
    have ⟨hascii, hupper, hword⟩ := toUpper_of_not_idChar <| h d rfl
    rw [toUpperCase, List.flatMap_cons, if_pos hascii, hupper]
    intro c hc
    rwa [← Option.some.inj hc]

example : hasKeyword "DROP".toList false "A DROP".toList := by
  decide +kernel

end Keywords

section Reads

-- The text is one statement that has no writing verb, and its own verb is one that reads.
structure Reads (ts : List Token) : Prop where
  single : ∀ pre t post, ts = pre ++ t :: post → t.kind = .semicolon → ∀ u ∈ post, u.kind.Skipped
  quiet  : ∀ t ∈ ts, t.kind = .word → ∀ keyword ∈ dbWriteKeywords, t.text.map Char.toUpper ≠ keyword.toList
  verb   : ∀ verb, topVerb ts = some verb → verb = "SELECT" ∨ verb = "VALUES"

-- The regular expressions read the text as SQLite does, no writing verb is written directly after a
-- name or a number, and what comes after a semicolon is not made of white space alone.
structure Plain (ts : List Token) : Prop where
  agrees  : ∀ t ∈ ts, Agrees t
  apart   : ∀ pre u t post, ts = pre ++ u :: t :: post → t.kind = .word →
    (∃ keyword ∈ dbWriteKeywords, t.text.map Char.toUpper = keyword.toList) →
      ∀ c ∈ u.text.getLast?, isIdChar c = false
  visible : ∀ pre t post, ts = pre ++ t :: post → t.kind = .semicolon →
    ∀ u ∈ post, ¬u.kind.Skipped → ∃ c ∈ u.text, isWhiteSpace c = false

variable {sql : Text} {table : Char → Text}

theorem assert_eq_ok (h : assertReadOnlyStatement table sql = .ok ()) : ';' ∉ bodyOf sql ∧
    (toUpperCase table (firstWord (bodyOf sql)) = "SELECT".toList ∨
      toUpperCase table (firstWord (bodyOf sql)) = "WITH".toList) ∧
    ∀ keyword ∈ dbWriteKeywords, hasKeyword keyword.toList false (toUpperCase table (bodyOf sql)) = false := by
  rw [assertReadOnlyStatement] at h
  dsimp only at h
  split at h
  case isTrue  => cases h
  case isFalse hsemi =>
    split at h
    case isTrue  => cases h
    case isFalse hfirst =>
      split at h
      case h_1 => cases h
      case h_2 hnone =>
        simp only [Bool.or_eq_true, not_or, List.contains_iff_mem] at hsemi
        refine ⟨hsemi.right, ?_, fun keyword hk => ?_⟩
        · simp only [Bool.and_eq_true, decide_eq_true_eq, not_and, ne_eq, not_not] at hfirst
          exact or_iff_not_imp_left.mpr hfirst
        · simpa using List.find?_eq_none.mp hnone keyword hk

theorem single_of_ok (hplain : Plain (tokens sql)) (hsemi : ';' ∉ bodyOf sql) :
    ∀ pre t post, tokens sql = pre ++ t :: post → t.kind = .semicolon → ∀ u ∈ post, u.kind.Skipped := by
  intro pre t post hsplit hkind u hu
  have ⟨hstrip, hpost, c, z, ht⟩ := strip_split hplain.agrees hsplit (by simp [hkind])
  have htext : t.text = [';'] := by
    rw [ht] at hkind ⊢
    exact semicolon_text hkind
  have hwhite := white_of_semicolon (htext ▸ hstrip) hsemi
  by_contra hskipped
  have ⟨d, hd, hvisible⟩ := hplain.visible pre t post hsplit hkind u hu hskipped
  have ⟨pre', post', hsplit'⟩ := List.append_of_mem hu
  have hcomment : ¬(u.kind = .lineComment ∨ u.kind = .blockComment ∨ u.kind = .openComment) :=
    fun h => hskipped <| .inr h
  have hagrees : ∀ v ∈ tokens t.rest, Agrees v := by
    intro v hv
    refine hplain.agrees v ?_
    rw [hsplit, hpost]
    exact List.mem_append_right _ <| List.mem_cons_of_mem _ hv
  have ⟨hrest, _⟩ := strip_split hagrees (hpost ▸ hsplit') hcomment
  have := hwhite d <| by
    rw [hrest]
    exact List.mem_append_right _ <| List.mem_append_left _ hd
  rw [hvisible] at this
  cases this

theorem mem_tokens {t : Token} (sql : Text) (h : t ∈ tokens sql) : ∃ c z, t = tokenOf c z := by
  induction hlength : sql.length using Nat.strongRecOn generalizing sql
  case ind n ih =>
    cases sql
    case nil      => cases h
    case cons c z =>
      by_cases hc : c = nul
      case pos =>
        rw [hc, tokens_nul] at h
        cases h
      case neg =>
        rw [tokens_cons hc] at h
        cases h
        case head   => exact ⟨c, z, rfl⟩
        case tail h =>
          have hlt : (tokenOf c z).rest.length < n := by
            have hpos := getToken_pos (c := c) (z := z)
            rw [tokenOf, List.length_drop, ← hlength, List.length_cons]
            omega
          exact ih _ hlt _ h rfl

theorem text_ne_nil {c : Char} {z : Text} : (tokenOf c z).text ≠ [] := by
  intro h
  have hpos := getToken_pos (c := c) (z := z)
  have := congrArg List.length h
  rw [tokenOf, List.length_take, List.length_cons, List.length_nil] at this
  omega

-- What is left of what comes before a verb does not end in a name.
theorem getLast?_shown {l' : Text} {pre post : List Token} {t : Token} (hplain : Plain (tokens sql))
    (hsplit : tokens sql = pre ++ t :: post) (hkind : t.kind = .word)
    (hverb : ∃ keyword ∈ dbWriteKeywords, t.text.map Char.toUpper = keyword.toList)
    (hl' : l' <:+ pre.flatMap shown) : ∀ c ∈ l'.getLast?, isIdChar c = false := by
  intro c hc
  have hlast : (pre.flatMap shown).getLast? = some c := by
    have ⟨l, hl⟩ := hl'
    rw [← hl, List.getLast?_append, Option.mem_def.mp hc]
    rfl
  cases hpre : pre.getLast?
  case none =>
    rw [List.getLast?_eq_none_iff.mp hpre] at hlast
    cases hlast
  case some u =>
    have ⟨pre', hpre'⟩ := List.getLast?_eq_some_iff.mp hpre
    have ⟨d, z, hu⟩ : ∃ d z, u = tokenOf d z := mem_tokens sql <| by
      rw [hsplit, hpre']
      exact List.mem_append_left _ <| List.mem_append_right _ <| List.mem_singleton_self u
    have hapart := hplain.apart pre' u t post (by rw [hsplit, hpre']; simp) hkind hverb
    have hne : shown u ≠ [] := by
      rw [shown]
      split
      case isTrue  => simp
      case isFalse => exact hu ▸ text_ne_nil
    rw [hpre', List.flatMap_append, List.flatMap_singleton, List.getLast?_append_of_ne_nil _ hne,
      shown] at hlast
    split at hlast
    case isTrue  =>
      have hc : c = ' ' := (Option.some.inj hlast).symm
      rw [hc]
      decide
    case isFalse => exact hapart c hlast

-- What is left of what comes after a word does not go on with it.
theorem head?_rest {r' : Text} {c : Char} {z : Text} (hkind : (tokenOf c z).kind = .word)
    (hr' : r' <+: strip (tokenOf c z).rest) : ∀ d ∈ r'.head?, isIdChar d = false := by
  intro d hd
  have hhead : (strip (tokenOf c z).rest).head? = some d := by
    have ⟨r, hr⟩ := hr'
    rw [← hr, List.head?_append, Option.mem_def.mp hd]
    rfl
  cases head?_strip (z := (tokenOf c z).rest)
  case inl h => exact word_rest hkind d <| h.symm.trans hhead
  case inr h =>
    have hd : d = ' ' := Option.some.inj <| hhead.symm.trans h
    rw [hd]
    decide

theorem quiet_of_ok (hplain : Plain (tokens sql))
    (hkeywords : ∀ keyword ∈ dbWriteKeywords,
      hasKeyword keyword.toList false (toUpperCase table (bodyOf sql)) = false) :
    ∀ t ∈ tokens sql, t.kind = .word → ∀ keyword ∈ dbWriteKeywords,
      t.text.map Char.toUpper ≠ keyword.toList := by
  intro t ht hkind keyword hk heq
  have ⟨pre, post, hsplit⟩ := List.append_of_mem ht
  have ⟨hstrip, _, c, z, htoken⟩ := strip_split hplain.agrees hsplit (by simp [hkind])
  have hupper : ∀ keyword ∈ dbWriteKeywords, ∀ c ∈ keyword.toList, c.isUpper = true := by
    simp only [← List.all_eq_true]
    decide
  have halpha : ∀ d ∈ t.text, d.isAlpha = true := by
    intro d hd
    exact isAlpha_of_toUpper <| hupper keyword hk _ <| heq ▸ List.mem_map_of_mem hd
  have hne : t.text ≠ [] := htoken ▸ text_ne_nil
  have ⟨l', r', hl', hr', _, hbody, _⟩ :=
    bodyOf_append hstrip hne fun d hd => not_white_of_isAlpha <| halpha d hd
  have hbody : bodyOf sql = l' ++ t.text ++ r' := by
    refine hbody.resolve_right fun hsemi => ?_
    have := halpha ';' <| List.mem_of_getLast? hsemi.right
    revert this
    decide
  have hascii : toUpperCase table t.text = keyword.toList := by
    rw [toUpperCase_ascii fun d hd => ?_, heq]
    have := range_of_isAlpha <| halpha d hd
    omega
  have hbefore := getLast?_shown hplain hsplit hkind ⟨keyword, hk, heq⟩ hl'
  have hafter := head?_rest (htoken ▸ hkind) (htoken ▸ hr')
  have hfound : hasKeyword keyword.toList false (toUpperCase table (bodyOf sql)) = true := by
    rw [hbody, toUpperCase_append, toUpperCase_append, hascii, List.append_assoc]
    refine hasKeyword_append (fun _ => rfl) (getLast?_toUpperCase hbefore) (head?_toUpperCase hafter) ?_
    intro hnil
    rw [hnil] at heq
    exact hne <| List.map_eq_nil_iff.mp heq
  rw [hkeywords keyword hk] at hfound
  cases hfound

theorem verb_spec {t : Token} {verb : String} (h : t.verb = some verb) :
    t.kind = .word ∧ verb ∈ statementVerbs ∧ t.text.map Char.toUpper = verb.toList := by
  rw [Token.verb] at h
  split at h
  case isFalse      => cases h
  case isTrue hkind =>
    have heq := List.find?_some h
    exact ⟨hkind, List.mem_of_find?_eq_some h, (of_decide_eq_true heq).symm⟩

theorem mainVerb_spec {depth : Nat} {ts : List Token} {verb : String} (h : mainVerb depth ts = some verb) :
    verb ∈ ["SELECT", "VALUES", "INSERT", "REPLACE", "UPDATE", "DELETE"] ∧ ∃ t ∈ ts, t.verb = some verb := by
  induction ts generalizing depth
  case nil => cases h
  case cons t ts ih =>
    have hlater {depth : Nat} (h : mainVerb depth ts = some verb) :
        verb ∈ ["SELECT", "VALUES", "INSERT", "REPLACE", "UPDATE", "DELETE"] ∧
          ∃ u ∈ t :: ts, u.verb = some verb := by
      have ⟨hverb, u, hu, heq⟩ := ih h
      exact ⟨hverb, u, List.mem_cons_of_mem _ hu, heq⟩
    rw [mainVerb] at h
    split at h
    case h_1 => exact hlater h
    case h_2 => exact hlater h
    case h_3 =>
      split at h
      case isFalse     => exact hlater h
      case isTrue hyes =>
        rw [Bool.and_eq_true, h] at hyes
        exact ⟨of_decide_eq_true hyes.right, t, List.mem_cons_self .., h⟩

theorem verb_of_ok (hplain : Plain (tokens sql))
    (hquiet : ∀ t ∈ tokens sql, t.kind = .word → ∀ keyword ∈ dbWriteKeywords,
      t.text.map Char.toUpper ≠ keyword.toList)
    (hfirst : toUpperCase table (firstWord (bodyOf sql)) = "SELECT".toList ∨
      toUpperCase table (firstWord (bodyOf sql)) = "WITH".toList)
    {verb : String} (h : topVerb (tokens sql) = some verb) : verb = "SELECT" ∨ verb = "VALUES" := by
  rw [topVerb] at h
  split at h
  case h_1             => cases h
  case h_2 t ts hfilter =>
    have ⟨pre, post, hsplit, hpre, _, hpost⟩ := List.filter_eq_cons_iff.mp hfilter
    have ⟨v, hv⟩ : ∃ v, t.verb = some v := by
      split at h
      case isTrue hwith => exact ⟨_, hwith⟩
      case isFalse      => exact ⟨_, h⟩
    have ⟨hkind, hmem, heq⟩ := verb_spec hv
    have ⟨hstrip, _, c, z, htoken⟩ := strip_split hplain.agrees hsplit (by simp [hkind])
    have hupper : ∀ v ∈ statementVerbs, ∀ c ∈ v.toList, c.isUpper = true := by
      simp only [← List.all_eq_true]
      decide
    have halpha : ∀ d ∈ t.text, d.isAlpha = true := by
      intro d hd
      exact isAlpha_of_toUpper <| hupper v hmem _ <| heq ▸ List.mem_map_of_mem hd
    have hwhite : ∀ d ∈ pre.flatMap shown, isWhiteSpace d = true := by
      intro d hd
      have ⟨u, hu, hd⟩ := List.mem_flatMap.mp hd
      have hskipped : u.kind.Skipped := by simpa using hpre u hu
      have ⟨e, y, heq⟩ : ∃ e y, u = tokenOf e y := mem_tokens sql <| by
        rw [hsplit]
        exact List.mem_append_left _ hu
      rw [shown] at hd
      split at hd
      case isTrue =>
        rw [List.mem_singleton.mp hd]
        decide
      case isFalse hcomment =>
        rw [heq] at hd hskipped hcomment
        exact space_text (hskipped.resolve_right hcomment) d hd
    have ⟨l', r', _, hr', hnil, hbody, _⟩ :=
      bodyOf_append hstrip (htoken ▸ text_ne_nil) fun d hd => not_white_of_isAlpha <| halpha d hd
    have hbody : bodyOf sql = t.text ++ r' := by
      rw [hnil hwhite, List.nil_append] at hbody
      refine hbody.resolve_right fun hsemi => ?_
      have := halpha ';' <| List.mem_of_getLast? hsemi.right
      revert this
      decide
    have hafter := head?_rest (htoken ▸ hkind) (htoken ▸ hr')
    have hrest : (r'.takeWhile fun c => c.isAlpha || c = '_') = [] := by
      cases r'
      case nil _ _       => rfl
      case cons d r' _ _ =>
        have hd := hafter d rfl
        have hd : (d.isAlpha || decide (d = '_')) = false := by
          simp only [isIdChar, Char.isAlphanum, Bool.or_eq_false_iff] at hd
          simp [hd]
        rw [List.takeWhile_cons, if_neg (by simp [hd])]
    have hword : firstWord (bodyOf sql) = t.text := by
      rw [firstWord, hbody, List.takeWhile_append_of_pos fun d hd => by simp [halpha d hd], hrest,
        List.append_nil]
    have hascii : toUpperCase table t.text = v.toList := by
      rw [toUpperCase_ascii fun d hd => ?_, heq]
      have := range_of_isAlpha <| halpha d hd
      omega
    rw [hword, hascii] at hfirst
    split at h
    case isFalse hwith =>
      have hverb := Option.some.inj <| h.symm.trans hv
      subst hverb
      cases hfirst
      case inl hselect => exact .inl <| String.toList_inj.mp hselect
      case inr heq     => exact absurd (hv.trans <| congrArg some <| String.toList_inj.mp heq) hwith
    case isTrue =>
      have ⟨hlist, u, hu, hverb⟩ := mainVerb_spec h
      have ⟨hkind, _, heq⟩ := verb_spec hverb
      have hu : u ∈ tokens sql := by
        rw [← hpost] at hu
        rw [hsplit]
        exact List.mem_append_right _ <| List.mem_cons_of_mem _ (List.mem_filter.mp hu).left
      have hnot (hwrites : verb ∈ dbWriteKeywords) : False := hquiet u hu hkind verb hwrites heq
      simp only [List.mem_cons, List.not_mem_nil, or_false] at hlist
      rcases hlist with hlist | hlist | hlist | hlist | hlist | hlist
      · exact .inl hlist
      · exact .inr hlist
      all_goals exact absurd (by rw [hlist]; decide) hnot

-- What is handed to SQLite is the text that has been checked, and it reads, if it is a plain one.
theorem prepared_reads (table : Char → Text) (sql text : Text) (hplain : Plain (tokens sql))
    (h : prepared table sql = .ok text) : text = sql ∧ Reads (tokens text) := by
  rw [prepared] at h
  cases hassert : assertReadOnlyStatement table sql
  case error e => rw [hassert] at h; cases h
  case ok u    =>
    rw [hassert] at h
    have htext : sql = text := by injection h
    subst htext
    have ⟨hsemi, hfirst, hkeywords⟩ := assert_eq_ok hassert
    have hquiet := quiet_of_ok hplain hkeywords
    exact ⟨rfl, single_of_ok hplain hsemi, hquiet, fun _ => verb_of_ok hplain hquiet hfirst⟩

theorem prepared_reads_query : Reads (tokens "SELECT id FROM chats".toList) := by
  have hquiet : ∀ t ∈ tokens "SELECT id FROM chats".toList, t.kind ≠ .semicolon ∧
      ∀ keyword ∈ dbWriteKeywords, t.text.map Char.toUpper ≠ keyword.toList := by decide +kernel
  refine (prepared_reads (fun c => [c]) "SELECT id FROM chats".toList _ ?_ rfl).right
  constructor
  case agrees  => decide
  case apart   =>
    intro pre u t post hsplit _ ⟨keyword, hmem, heq⟩
    exact absurd heq <| (hquiet t <| by rw [hsplit]; simp).right keyword hmem
  case visible =>
    intro pre t post hsplit hsemi
    exact absurd hsemi (hquiet t <| by rw [hsplit]; simp).left

-- The quotation marks hide the signs of a comment from SQLite and not from the regular expression.
theorem prepared_deletes :
    let sql := "WITH x AS (SELECT '/*') DELETE FROM chats RETURNING '*/'".toList
    prepared (fun c => [c]) sql = .ok sql ∧ ¬Reads (tokens sql) := by
  intro sql
  constructor
  case left  => decide +kernel
  case right =>
    intro h
    have hverb : topVerb (tokens sql) = some "DELETE" := by decide +kernel
    exact absurd (h.verb _ hverb) (by decide)

end Reads

end Database
