import Mathlib

-- The operator `LIKE … ESCAPE '\'` of SQLite, which does not tell the cases of Latin letters apart.
namespace Like

-- A text by what counts of it.
def folded (t : List Char) : List Char :=
  t.map Char.toLower

def like : (pattern t : List Char) → Bool
  | [], t                   => t = []
  | '%' :: pattern, t       => t.tails.any <| like pattern
  | '_' :: pattern, t       => match t with
    | []     => false
    | _ :: t => like pattern t
  | '\\' :: c :: pattern, t => match t with
    | []     => false
    | d :: t => c.toLower = d.toLower && like pattern t
  | ['\\'], _               => false
  | c :: pattern, t         => match t with
    | []     => false
    | d :: t => c.toLower = d.toLower && like pattern t

-- A text as a pattern for itself.
def escape (value : List Char) : List Char :=
  value.flatMap fun c => if c = '\\' ∨ c = '%' ∨ c = '_' then ['\\', c] else [c]

theorem like_escape_cons : like (escape (c :: value) ++ pattern) t = match t with
    | []     => false
    | d :: t => c.toLower = d.toLower && like (escape value ++ pattern) t := by
  rw [escape, List.flatMap_cons, List.append_assoc]
  split_ifs with h
  case pos => rfl
  case neg =>
    simp only [not_or] at h
    cases t <;> simp [like, h, escape]

theorem like_percent : like ['%'] t := by
  simp [like, List.any_eq_true]

-- What begins with a text.
theorem like_escape_percent : like (escape value ++ ['%']) t ↔ folded value <+: folded t := by
  induction value generalizing t
  case nil          => simp [escape, folded, like_percent]
  case cons c value ih =>
    rw [like_escape_cons]
    cases t
    case nil      => simp [folded]
    case cons d t => simp [folded, ih, List.cons_prefix_cons]

-- What holds a text.
theorem like_percent_escape : like ('%' :: (escape value ++ ['%'])) t ↔ folded value <:+: folded t := by
  rw [like, List.any_eq_true]
  constructor
  case mp =>
    intro ⟨s, hs, hlike⟩
    have hsuffix : folded s <:+ folded t := ((List.mem_tails _ _).mp hs).map Char.toLower
    exact (like_escape_percent.mp hlike).isInfix.trans hsuffix.isInfix
  case mpr =>
    intro ⟨pre, post, heq⟩
    have hlen : pre.length ≤ t.length := by
      have := congrArg List.length heq
      simp [folded] at this
      omega
    refine ⟨t.drop pre.length, (List.mem_tails _ _).mpr <| List.drop_suffix _ _, like_escape_percent.mpr ⟨post, ?_⟩⟩
    have hdrop : folded (t.drop pre.length) = (folded t).drop pre.length := List.map_drop
    rw [hdrop, ← heq, List.append_assoc, List.drop_left]

example : like "%a\\_b%".toList "xA_By".toList := by
  decide +kernel

end Like
