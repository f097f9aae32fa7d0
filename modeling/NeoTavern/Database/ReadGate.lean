import NeoTavern.Lib.SqlTokens

namespace Database

open Sql

section Regex

-- `sql.replace(/\/\*[\s\S]*?\*\//g, ' ')`, after `skip` characters that are part of a match.
def stripBlocks : Nat → Text → Text
  | _, []            => []
  | skip + 1, _ :: z => stripBlocks skip z
  | 0, c :: z        =>
    if c = '/' && z.head? = some '*' then
      match closing (z.drop 1) with
      | some n => ' ' :: stripBlocks (n + 1) z
      | none   => c :: stripBlocks 0 z
    else
      c :: stripBlocks 0 z

-- `replace(/--[^\n]*/g, ' ')`. `inside` tells whether what comes next is part of a match.
def stripLines : Bool → Text → Text
  | _, []         => []
  | true, c :: z  => if c = newline then c :: stripLines false z else stripLines true z
  | false, c :: z =>
    if c = '-' && z.head? = some '-' then ' ' :: stripLines true z else c :: stripLines false z

-- What `trim` takes for white space.
def isWhiteSpace (c : Char) : Bool :=
  9 ≤ c.toNat && c.toNat ≤ 13 || c.toNat = 0x20 || c.toNat = 0xa0 || c.toNat = 0x1680 ||
  0x2000 ≤ c.toNat && c.toNat ≤ 0x200a || c.toNat = 0x2028 || c.toNat = 0x2029 || c.toNat = 0x202f ||
  c.toNat = 0x205f || c.toNat = 0x3000 || c.toNat = 0xfeff

def trimStart (z : Text) : Text :=
  z.dropWhile isWhiteSpace

def trimEnd (z : Text) : Text :=
  (z.reverse.dropWhile isWhiteSpace).reverse

def trim (z : Text) : Text :=
  trimEnd (trimStart z)

-- Capital letters. `table` has those of the characters that are not ASCII.
def toUpperCase (table : Char → Text) (z : Text) : Text :=
  z.flatMap fun c => if c.toNat < 128 then [c.toUpper] else table c

-- `\w`
def isWordChar (c : Char) : Bool :=
  c.isAlphanum || c = '_'

-- Whether `\bkeyword\b` matches. `before` tells whether a character of a word comes before.
def hasKeyword (keyword : Text) : Bool → Text → Bool
  | _, []          => false
  | before, c :: z =>
    !before && keyword.isPrefixOf (c :: z) && !((c :: z).drop keyword.length).head?.any isWordChar ||
      hasKeyword keyword (isWordChar c) z

end Regex

def dbWriteKeywords : List String := [
  "ALTER", "ATTACH", "CREATE", "DELETE", "DETACH", "DROP", "INSERT", "PRAGMA", "REINDEX", "REPLACE",
  "UPDATE", "VACUUM"
]

-- An error with the code `POLICY_DENIED`.
inductive PolicyDenied
  | notSingle
  | notRead
  | keyword (keyword : String)
  deriving DecidableEq

def PolicyDenied.message : PolicyDenied → String
  | .notSingle       => "only a single SQL statement is allowed"
  | .notRead         => "only read-only SELECT/WITH statements are allowed"
  | .keyword name    => "keyword " ++ name ++ " is not allowed in a read-only query"

def stripped (sql : Text) : Text :=
  trim (stripLines false (stripBlocks 0 sql))

def bodyOf (sql : Text) : Text :=
  let stripped := stripped sql
  if stripped.getLast? = some ';' then trimEnd stripped.dropLast else stripped

-- What the regular expression `^[A-Za-z_]+` matches, if it does.
def firstWord (body : Text) : Text :=
  body.takeWhile fun c => c.isAlpha || c = '_'

def assertReadOnlyStatement (table : Char → Text) (sql : Text) : Except PolicyDenied Unit :=
  let body := bodyOf sql
  if body.isEmpty || body.contains ';' then
    .error .notSingle
  else
    let first := toUpperCase table (firstWord body)
    if first ≠ "SELECT".toList && first ≠ "WITH".toList then
      .error .notRead
    else
      match dbWriteKeywords.find? fun keyword => hasKeyword keyword.toList false (toUpperCase table body) with
      | some keyword => .error <| .keyword keyword
      | none         => .ok ()

-- The text that `database.core.query` hands to `sqlite.prepare`.
def prepared (table : Char → Text) (sql : Text) : Except PolicyDenied Text :=
  match assertReadOnlyStatement table sql with
  | .error e => .error e
  | .ok _    => .ok sql

end Database

namespace Database

open Sql

section Tokens

variable {c : Char} {z : Text} {n : Nat}

-- A token that is neither skipped, nor a semicolon, nor a word.
def Other (r : Kind × Nat) : Prop :=
  1 ≤ r.snd ∧ ¬r.fst.Skipped ∧ r.fst ≠ .semicolon ∧ r.fst ≠ .word

theorem other_of_kind {k : Kind} (hn : 1 ≤ n) (hk : k = .operator ∨ k = .illegal ∨ k = .quoted ∨
    k = .number ∨ k = .parameter ∨ k = .leftParen ∨ k = .rightParen) : Other (k, n) := by
  rcases hk with rfl | rfl | rfl | rfl | rfl | rfl | rfl
  all_goals exact ⟨hn, by dsimp only; decide, by simp, by simp⟩

theorem other_quoted : Other (quotedToken c z) := by
  rw [quotedToken]
  split
  case h_1 => exact other_of_kind (Nat.le_add_right ..) (by simp)
  case h_2 => exact other_of_kind (Nat.le_add_right ..) (by simp)

theorem other_bracket : Other (bracketToken z) := by
  rw [bracketToken]
  split
  case isTrue  => exact other_of_kind (Nat.le_add_left ..) (by simp)
  case isFalse => exact other_of_kind (Nat.le_add_left ..) (by simp)

theorem other_number : Other (numberToken z) := by
  rw [numberToken]
  refine other_of_kind (Nat.le_max_left ..) ?_
  split
  case isTrue  => simp
  case isFalse => simp

theorem other_parameter : Other (parameterToken z) := by
  have hkind (n : Nat) (z : Text) : (parameter n z).fst = .illegal ∨ (parameter n z).fst = .parameter := by
    induction hlength : z.length using Nat.strongRecOn generalizing n z
    case ind l ih =>
      cases z
      case nil =>
        rw [parameter.eq_def]
        dsimp only
        split
        case isTrue  => exact .inl rfl
        case isFalse => exact .inr rfl
      case cons c z =>
        rw [parameter.eq_def]
        dsimp only
        split
        case isTrue  => exact ih z.length (by simp [← hlength]) (n + 1) z rfl
        case isFalse =>
          split
          case isTrue =>
            split
            case isTrue  => exact .inr rfl
            case isFalse => exact .inl rfl
          case isFalse =>
            split
            case isTrue =>
              cases z
              case nil           => exact .inl rfl
              case cons d rest _ => exact ih rest.length (by rw [← hlength, List.length_cons, List.length_cons]; omega) n rest rfl
            case isFalse =>
              split
              case isTrue  => exact .inl rfl
              case isFalse => exact .inr rfl
  refine other_of_kind (Nat.le_add_right ..) ?_
  cases hkind 0 z
  case inl h => simp [h]
  case inr h => simp [h]

theorem other_blob : Other (blobToken z) := by
  rw [blobToken]
  split
  case isTrue  => exact other_of_kind (Nat.le_add_left ..) (by simp)
  case isFalse =>
    refine other_of_kind ?_ (by simp)
    split
    case isTrue  => exact Nat.le_add_left ..
    case isFalse => exact Nat.le_add_left ..

theorem other_operator : Other (operatorToken c z) := by
  rw [operatorToken]
  refine other_of_kind ?_ (by simp)
  split
  case isTrue  => exact Nat.le_succ 1
  case isFalse => exact Nat.le_refl 1

theorem isSpace_of_first (h : (c = ' ' || c.toNat = 9 || c.toNat = 10 || c.toNat = 12 || c.toNat = 13) = true) :
    isSpace c = true := by
  have hrange (hle : 9 ≤ c.toNat) (hge : c.toNat ≤ 13) : isSpace c = true := by
    rw [isSpace, decide_eq_true hle, decide_eq_true hge, Bool.and_self, Bool.or_true]
  rcases (Bool.or_eq_true _ _).mp h with h | h
  · rcases (Bool.or_eq_true _ _).mp h with h | h
    · rcases (Bool.or_eq_true _ _).mp h with h | h
      · rcases (Bool.or_eq_true _ _).mp h with h | h
        · rw [of_decide_eq_true h]
          rfl
        · have := of_decide_eq_true h
          exact hrange (by omega) (by omega)
      · have := of_decide_eq_true h
        exact hrange (by omega) (by omega)
    · have := of_decide_eq_true h
      exact hrange (by omega) (by omega)
  · have := of_decide_eq_true h
    exact hrange (by omega) (by omega)

theorem ite_eq_cases {α : Type} {p : Prop} [Decidable p] {a b r : α} (h : (if p then a else b) = r) :
    p ∧ r = a ∨ b = r := by
  split at h
  case isTrue hp => exact .inl ⟨hp, h.symm⟩
  case isFalse   => exact .inr h

-- By which branch of `getToken` a token comes about.
theorem getToken_cases (c : Char) (z : Text) :
    getToken c z = (.space, 1 + run isSpace z) ∧ isSpace c ∨
    getToken c z = (.space, 1) ∧ c = byteOrderMark ∨
    getToken c z = minusToken z ∧ c = '-' ∨
    getToken c z = slashToken z ∧ c = '/' ∨
    getToken c z = (.semicolon, 1) ∧ c = ';' ∨
    getToken c z = (.word, 1 + run isIdChar z) ∧ isIdStart c ∨
    Other (getToken c z) := by
  generalize hr : getToken c z = r
  rw [getToken] at hr
  rcases ite_eq_cases hr with ⟨h, hr⟩ | hr
  · exact .inl ⟨hr, isSpace_of_first h⟩
  rcases ite_eq_cases hr with ⟨h, hr⟩ | hr
  · exact .inr <| .inl ⟨hr, h⟩
  rcases ite_eq_cases hr with ⟨h, hr⟩ | hr
  · exact .inr <| .inr <| .inl ⟨hr, h⟩
  rcases ite_eq_cases hr with ⟨h, hr⟩ | hr
  · exact .inr <| .inr <| .inr <| .inl ⟨hr, h⟩
  rcases ite_eq_cases hr with ⟨h, hr⟩ | hr
  · exact .inr <| .inr <| .inr <| .inr <| .inl ⟨hr, h⟩
  refine .inr <| .inr <| .inr <| .inr <| .inr ?_
  rcases ite_eq_cases hr with ⟨_, hr⟩ | hr
  · exact .inr <| hr ▸ other_of_kind (Nat.le_refl 1) (by simp)
  rcases ite_eq_cases hr with ⟨_, hr⟩ | hr
  · exact .inr <| hr ▸ other_of_kind (Nat.le_refl 1) (by simp)
  rcases ite_eq_cases hr with ⟨_, hr⟩ | hr
  · rcases ite_eq_cases hr.symm with ⟨_, hr⟩ | hr
    · exact .inr <| hr ▸ other_of_kind (Nat.le_succ 1) (by simp)
    · exact .inr <| hr ▸ other_of_kind (Nat.le_refl 1) (by simp)
  rcases ite_eq_cases hr with ⟨_, hr⟩ | hr
  · exact .inr <| hr ▸ other_quoted
  rcases ite_eq_cases hr with ⟨_, hr⟩ | hr
  · exact .inr <| hr ▸ other_bracket
  rcases ite_eq_cases hr with ⟨_, hr⟩ | hr
  · exact .inr <| hr ▸ other_number
  rcases ite_eq_cases hr with ⟨_, hr⟩ | hr
  · exact .inr <| hr ▸ other_operator
  rcases ite_eq_cases hr with ⟨_, hr⟩ | hr
  · exact .inr <| hr ▸ other_of_kind (Nat.le_add_right ..) (by simp)
  rcases ite_eq_cases hr with ⟨_, hr⟩ | hr
  · exact .inr <| hr ▸ other_parameter
  rcases ite_eq_cases hr with ⟨_, hr⟩ | hr
  · exact .inr <| hr ▸ other_blob
  rcases ite_eq_cases hr with ⟨h, hr⟩ | hr
  · exact .inl ⟨hr, h⟩
  · exact .inr <| hr ▸ other_of_kind (Nat.le_refl 1) (by simp)

example : (getToken 'x' "y = 1".toList).snd = 2 := by
  decide +kernel

theorem getToken_pos : 1 ≤ (getToken c z).snd := by
  rcases getToken_cases c z with ⟨h, _⟩ | ⟨h, _⟩ | ⟨h, _⟩ | ⟨h, _⟩ | ⟨h, _⟩ | ⟨h, _⟩ | h
  · rw [h]
    exact Nat.le_add_right ..
  · exact Nat.le_of_eq <| by rw [h]
  · rw [h, minusToken.eq_def]
    split
    · exact Nat.le_add_right_of_le (by decide)
    · decide
    · decide
    · exact Nat.le_refl 1
  · rw [h, slashToken]
    split
    · split
      · exact Nat.le_add_right_of_le (by decide)
      · exact Nat.le_add_right_of_le (by decide)
    · exact Nat.le_refl 1
  · exact Nat.le_of_eq <| by rw [h]
  · rw [h]
    exact Nat.le_add_right ..
  · exact h.left

theorem tokensFrom_skip : tokensFrom n z = tokens (z.drop n) := by
  induction n generalizing z
  case zero      => rfl
  case succ n ih =>
    cases z
    case nil      => rfl
    case cons c z => exact ih

-- The token at the beginning of `c :: z`.
def tokenOf (c : Char) (z : Text) : Token where
  kind := (getToken c z).fst
  text := (c :: z).take (getToken c z).snd
  rest := (c :: z).drop (getToken c z).snd

theorem tokens_cons (h : c ≠ nul) : tokens (c :: z) = tokenOf c z :: tokens (tokenOf c z).rest := by
  have hpos := getToken_pos (c := c) (z := z)
  have hdrop : (tokenOf c z).rest = z.drop ((getToken c z).snd - 1) := by
    cases hn : (getToken c z).snd
    case zero   => omega
    case succ n =>
      rw [tokenOf, hn]
      rfl
  rw [hdrop, ← tokensFrom_skip, tokens, tokensFrom, if_neg h]
  rfl

example : (tokens "select 1".toList).length = 3 := by
  decide +kernel

theorem tokens_nul : tokens (nul :: z) = [] := by
  rw [tokens, tokensFrom, if_pos rfl]

theorem text_append_rest : (tokenOf c z).text ++ (tokenOf c z).rest = c :: z :=
  List.take_append_drop ..

-- What a run leaves does not go on with what the run consists of.
theorem run_spec (p : Char → Bool) (z : Text) :
    (∀ c ∈ z.take (run p z), p c = true ∧ c ≠ nul) ∧
      ∀ c ∈ (z.drop (run p z)).head?, p c = true → c = nul := by
  have happend := List.takeWhile_append_dropWhile (p := fun c => p c && c ≠ nul) (l := z)
  have htake : z.take (run p z) = z.takeWhile fun c => p c && c ≠ nul := by
    nth_rewrite 2 [← happend]
    rw [run]
    exact List.take_left
  have hdrop : z.drop (run p z) = z.dropWhile fun c => p c && c ≠ nul := by
    nth_rewrite 2 [← happend]
    rw [run]
    exact List.drop_left
  rw [htake, hdrop]
  constructor
  · intro c hc
    have := List.all_eq_true.mp List.all_takeWhile c hc
    simpa using this
  · intro c hc hp
    have hnot := List.head?_dropWhile_not (fun c => p c && decide (c ≠ nul)) z
    rw [Option.mem_def.mp hc] at hnot
    simpa [hp] using hnot

theorem isWhiteSpace_of_isSpace (h : isSpace c = true) : isWhiteSpace c = true := by
  rw [isSpace] at h
  rcases (Bool.or_eq_true _ _).mp h with h | h
  · rw [of_decide_eq_true h]
    decide
  · rw [isWhiteSpace, h]
    rfl

theorem space_text (h : (tokenOf c z).kind = .space) : ∀ d ∈ (tokenOf c z).text, isWhiteSpace d = true := by
  have ⟨htake, _⟩ := run_spec isSpace z
  intro d hd
  rw [tokenOf] at h hd
  dsimp only at h hd
  rcases getToken_cases c z with ⟨ht, hc⟩ | ⟨ht, hc⟩ | ⟨ht, _⟩ | ⟨ht, _⟩ | ⟨ht, _⟩ | ⟨ht, _⟩ | ht
  · rw [ht, Nat.add_comm, List.take_succ_cons] at hd
    cases hd
    case head    => exact isWhiteSpace_of_isSpace hc
    case tail hd => exact isWhiteSpace_of_isSpace (htake d hd).left
  · rw [ht] at hd
    rw [List.mem_singleton.mp hd, hc]
    decide
  · rw [ht, minusToken.eq_def] at h
    split at h <;> cases h
  · rw [ht, slashToken] at h
    split at h
    · split at h <;> cases h
    · cases h
  · rw [ht] at h
    cases h
  · rw [ht] at h
    cases h
  · exact absurd (.inl h) ht.right.left

theorem semicolon_text (h : (tokenOf c z).kind = .semicolon) : (tokenOf c z).text = [';'] := by
  rw [tokenOf] at h ⊢
  dsimp only at h ⊢
  rcases getToken_cases c z with ⟨ht, _⟩ | ⟨ht, _⟩ | ⟨ht, _⟩ | ⟨ht, _⟩ | ⟨ht, hc⟩ | ⟨ht, _⟩ | ht
  · rw [ht] at h
    cases h
  · rw [ht] at h
    cases h
  · rw [ht, minusToken.eq_def] at h
    split at h <;> cases h
  · rw [ht, slashToken] at h
    split at h
    · split at h <;> cases h
    · cases h
  · rw [ht, hc]
    rfl
  · rw [ht] at h
    cases h
  · exact absurd h ht.right.right.left

-- A word ends where no character of an identifier follows.
theorem word_rest (h : (tokenOf c z).kind = .word) : ∀ d ∈ (tokenOf c z).rest.head?, isIdChar d = false := by
  have ⟨_, hdrop⟩ := run_spec isIdChar z
  intro d hd
  rw [tokenOf] at h hd
  dsimp only at h hd
  rcases getToken_cases c z with ⟨ht, _⟩ | ⟨ht, _⟩ | ⟨ht, _⟩ | ⟨ht, _⟩ | ⟨ht, _⟩ | ⟨ht, _⟩ | ht
  · rw [ht] at h
    cases h
  · rw [ht] at h
    cases h
  · rw [ht, minusToken.eq_def] at h
    split at h <;> cases h
  · rw [ht, slashToken] at h
    split at h
    · split at h <;> cases h
    · cases h
  · rw [ht] at h
    cases h
  · rw [ht, Nat.add_comm, List.drop_succ_cons] at hd
    by_contra htrue
    have hnul := hdrop d hd (by simpa using htrue)
    rw [hnul] at htrue
    exact htrue <| by decide
  · exact absurd h ht.right.right.right

theorem lineComment_text (h : (tokenOf c z).kind = .lineComment) :
    (∃ m, (tokenOf c z).text = '-' :: '-' :: m ∧ newline ∉ m) ∧
      ∀ d ∈ (tokenOf c z).rest.head?, d = newline ∨ d = nul := by
  rw [tokenOf] at h ⊢
  dsimp only at h ⊢
  rcases getToken_cases c z with ⟨ht, _⟩ | ⟨ht, _⟩ | ⟨ht, hc⟩ | ⟨ht, _⟩ | ⟨ht, _⟩ | ⟨ht, _⟩ | ht
  · rw [ht] at h
    cases h
  · rw [ht] at h
    cases h
  · rw [ht] at h ⊢
    rw [minusToken.eq_def] at h ⊢
    split at h
    case h_1 w =>
      have ⟨htake, hdrop⟩ := run_spec (· ≠ newline) w
      dsimp only
      rw [Nat.add_comm, hc, List.take_succ_cons, List.take_succ_cons, List.drop_succ_cons,
        List.drop_succ_cons]
      refine ⟨⟨_, rfl, fun hmem => ?_⟩, fun d hd => ?_⟩
      · have := (htake newline hmem).left
        simp at this
      · by_cases hnew : d = newline
        case pos => exact .inl hnew
        case neg => exact .inr <| hdrop d hd <| by simp [hnew]
    all_goals cases h
  · rw [ht, slashToken] at h
    split at h
    · split at h <;> cases h
    · cases h
  · rw [ht] at h
    cases h
  · rw [ht] at h
    cases h
  · exact absurd (.inr <| .inl h) ht.right.left

example : (tokenOf '-' "- a".toList).kind = .lineComment := by
  decide +kernel

theorem closing_append {l r : Text} (h : closing l = some n) : closing (l ++ r) = some n := by
  induction l generalizing n
  case nil => cases h
  case cons d l ih =>
    rw [List.cons_append, closing]
    rw [closing] at h
    cases l
    case nil => simp [closing] at h
    case cons e l =>
      rw [List.cons_append, List.head?_cons]
      rw [List.head?_cons] at h
      split at h
      case isTrue hd  => rw [if_pos hd, ← h]
      case isFalse hd =>
        have ⟨m, hm, hn⟩ := Option.map_eq_some_iff.mp h
        rw [if_neg hd, ← List.cons_append, ih hm, Option.map_some, hn]

-- Comments as SQLite sees them.
theorem slash_cases (h : (tokenOf c z).kind = .blockComment ∨ (tokenOf c z).kind = .openComment) :
    (∃ w n, c :: z = '/' :: '*' :: w ∧ closing w = some n ∧ (tokenOf c z).rest = w.drop n) ∨
      ∀ d ∈ (tokenOf c z).rest.head?, d = nul := by
  have hother (hkind : (getToken c z).fst ≠ .blockComment ∧ (getToken c z).fst ≠ .openComment) : False :=
    h.elim hkind.left hkind.right
  rcases getToken_cases c z with ⟨ht, _⟩ | ⟨ht, _⟩ | ⟨ht, _⟩ | ⟨ht, hc⟩ | ⟨ht, _⟩ | ⟨ht, _⟩ | ht
  · exact absurd (by simp [ht]) hother
  · exact absurd (by simp [ht]) hother
  · refine absurd ?_ hother
    rw [ht, minusToken.eq_def]
    split <;> simp
  · rw [tokenOf, ht, slashToken]
    split
    case isFalse hfalse =>
      refine absurd ?_ hother
      rw [ht, slashToken, if_neg hfalse]
      simp
    case isTrue htrue =>
      rw [Bool.and_eq_true, decide_eq_true_eq] at htrue
      have ⟨w, hw⟩ : ∃ w, z = '*' :: w := by
        cases z
        case nil      => simp at htrue
        case cons d z =>
          have hd : d = '*' := by simpa using htrue.left
          exact ⟨z, by rw [hd]⟩
      rw [hc, hw]
      dsimp only
      rw [List.drop_one, List.tail_cons]
      split
      case h_1 n hn =>
        refine .inl ⟨w, n, rfl, ?_, ?_⟩
        · have happend := List.takeWhile_append_dropWhile (p := fun d => decide (d ≠ nul)) (l := w)
          rw [← happend]
          exact closing_append hn
        · rw [Nat.add_comm, List.drop_succ_cons, List.drop_succ_cons]
      case h_2 =>
        refine .inr fun d hd => ?_
        rw [Nat.add_comm, List.drop_succ_cons, List.drop_succ_cons] at hd
        exact (run_spec (fun _ => true) w).right d hd rfl
  · exact absurd (by simp [ht]) hother
  · exact absurd (by simp [ht]) hother
  · refine absurd ⟨fun hk => ?_, fun hk => ?_⟩ hother
    · exact ht.right.left <| .inr <| .inr <| .inl hk
    · exact ht.right.left <| .inr <| .inr <| .inr hk

end Tokens

end Database
