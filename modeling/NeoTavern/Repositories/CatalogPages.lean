import NeoTavern.Repositories.Catalog

namespace Repositories.Catalog

section Terms

variable {ν : Type} {direction : Direction}

namespace Term

theorem number_inj {n n' : ν} : number n direction = number n' direction ↔ n = n' := by
  cases direction <;> simp [number]

theorem text_inj {t t' : Text} : (text t direction : Term ν) = text t' direction ↔ t = t' := by
  cases direction <;> simp [text]

variable [LinearOrder ν]

theorem number_lt_iff {column x : ν} : number x direction < number column direction ↔ direction.behind column x := by
  cases direction <;> simp [number, Direction.behind]

theorem text_lt_iff {column x : Text} :
    (text x direction : Term ν) < text column direction ↔ direction.behind column x := by
  cases direction <;> simp [text, Direction.behind]

end Term
end Terms

section Exact

variable {ν : Type} [LinearOrder ν]

def SortDescriptor.members (descriptor : SortDescriptor ν) (row : CharacterRow ν) : Decoded ν :=
  (descriptor.encodeCursor row).map fun member => (member.fst, some member.snd)

-- The condition of a cursor shows what its sort puts behind the row of the cursor, and the sort tells all rows apart.
structure SortDescriptor.Exact (descriptor : SortDescriptor ν) : Prop where
  behind : ∀ last, ∃ p, descriptor.cursorPredicate (descriptor.members last) = some p ∧
    ∀ row, p row ↔ descriptor.orderBy last < descriptor.orderBy row
  total  : ∀ row row', descriptor.orderBy row = descriptor.orderBy row' → row.id = row'.id

theorem byName_exact {direction : Direction} : (byName direction : SortDescriptor ν).Exact where
  behind last := by
    refine ⟨_, by rfl, ?_⟩
    intro row
    simp [byName, List.cons_lt_cons_iff, Term.text_lt_iff, Term.text_inj, @eq_comm _ last.name]
  total _ _ h := by simpa [byName, Term.text_inj] using (List.cons.inj (List.cons.inj h).right).left

theorem byNumber_exact {direction : Direction} {letter : String} {column : CharacterRow ν → ν} (h : letter ≠ "i") :
    (byNumber direction letter column).Exact where
  behind last := by
    have hnumber : numberAt ((byNumber direction letter column).members last) letter = some (column last) := by
      simp [numberAt, SortDescriptor.members, byNumber, Assoc.get_cons]
    have hid : textAt ((byNumber direction letter column).members last) "i" = some last.id := by
      simp [textAt, SortDescriptor.members, byNumber, Assoc.get_cons, h]
    refine ⟨_, by simp only [byNumber] at hnumber hid ⊢; simp only [hnumber, hid]; rfl, ?_⟩
    intro row
    simp [byNumber, List.cons_lt_cons_iff, Term.text_lt_iff, Term.number_lt_iff, Term.number_inj,
      @eq_comm _ (column last)]
  total _ _ h := by simpa [byNumber, Term.text_inj] using (List.cons.inj (List.cons.inj h).right).left

theorem byCount_exact {direction : Direction} {letter : String} {column : CharacterRow ν → ν} (hn : letter ≠ "n")
    (hi : letter ≠ "i") : (byCount direction letter column).Exact where
  behind last := by
    have hnumber : numberAt ((byCount direction letter column).members last) letter = some (column last) := by
      simp [numberAt, SortDescriptor.members, byCount, Assoc.get_cons]
    have hname : textAt ((byCount direction letter column).members last) "n" = some last.name := by
      simp [textAt, SortDescriptor.members, byCount, Assoc.get_cons, hn]
    have hid : textAt ((byCount direction letter column).members last) "i" = some last.id := by
      simp [textAt, SortDescriptor.members, byCount, Assoc.get_cons, hi]
    refine ⟨_, by simp only [byCount] at hnumber hname hid ⊢; simp only [hnumber, hname, hid]; rfl, ?_⟩
    intro row
    simp [byCount, List.cons_lt_cons_iff, Term.text_lt_iff, Term.number_lt_iff, Term.number_inj, Term.text_inj,
      @eq_comm _ (column last), @eq_comm _ last.name, and_or_left, and_assoc]
  total _ _ h := by
    have hrest := (List.cons.inj (List.cons.inj h).right).right
    simpa [byCount, Term.text_inj] using (List.cons.inj hrest).left

theorem sortDescriptor_exact [Zero ν] (sort : PagedSort) : (sortDescriptor sort : SortDescriptor ν).Exact := by
  cases sort
  case name | nameDesc            => exact byName_exact
  case newest | oldest | used     => exact byNumber_exact <| by decide
  case favorites                  => exact byCount_exact (by decide) (by decide)
  case chatsMost | chatsLeast     => exact byCount_exact (by decide) (by decide)
  case tokensMost | tokensLeast   => exact byCount_exact (by decide) (by decide)

end Exact

section Verdicts

variable {ν κ : Type} {db : Db ν} {parsed : Option ParsedCharacterQuery} {options : CharacterListOptions κ}
  {row : CharacterRow ν}

-- What the filters of a request are for. `same` compares a tag with the one that is asked for.
@[mk_iff]
structure Admits (same : Text → Text → Prop) (db : Db ν) (parsed : Option ParsedCharacterQuery)
    (options : CharacterListOptions κ) (row : CharacterRow ν) : Prop where
  deleted       : options.includeDeleted ∨ row.deletedAt = none
  tag           : ∀ tag ∈ tagOption options, ∃ name ∈ loadTags db row.id, same name tag
  includeTags   : ∀ query ∈ parsed, ∀ tag ∈ query.includeTags,
    ∃ name ∈ loadTags db row.id, Like.folded tag <+: Like.folded name
  excludeTags   : ∀ query ∈ parsed, ∀ tag ∈ query.excludeTags,
    ∀ name ∈ loadTags db row.id, ¬Like.folded tag <+: Like.folded name
  author        : ∀ query ∈ parsed, ∀ author ∈ query.author,
    ∃ creator ∈ row.creator, Like.folded author <:+: Like.folded creator
  excludeAuthor : ∀ query ∈ parsed, ∀ author ∈ query.excludeAuthor,
    ∀ creator ∈ row.creator, ¬Like.folded author <:+: Like.folded creator
  excludeName   : ∀ query ∈ parsed, ∀ name ∈ query.excludeName, ¬Like.folded name <:+: Like.folded row.name

-- Tags that the full text search does not tell apart.
def SameTag (name tag : Text) : Prop :=
  Like.folded name = Like.folded tag

theorem existsTag_iff {id : Text} {p : Text → Bool} : existsTag db id p ↔ ∃ name ∈ loadTags db id, p name := by
  simp only [existsTag, loadTags, List.any_eq_true, Bool.and_eq_true, decide_eq_true_eq, List.mem_filterMap,
    List.mem_filter, Option.map_eq_some_iff, Table.get?_eq_some_iff]
  constructor
  case mp =>
    rintro ⟨link, hlink, hid, tag, htag, hkey, hp⟩
    exact ⟨tag.name, ⟨link, ⟨hlink, hid⟩, tag, ⟨htag, hkey.symm⟩, rfl⟩, hp⟩
  case mpr =>
    rintro ⟨name, ⟨link, ⟨hlink, hid⟩, tag, ⟨htag, hkey⟩, hname⟩, hp⟩
    exact ⟨link, hlink, hid, tag, htag, hkey.symm, hname ▸ hp⟩

theorem not_existsTag_iff {id : Text} {p : Text → Bool} :
    existsTag db id p = false ↔ ∀ name ∈ loadTags db id, p name = false := by
  simp [← Bool.not_eq_true, existsTag_iff]

theorem like_prefixPattern : Like.like (prefixPattern value) t ↔ Like.folded value <+: Like.folded t :=
  Like.like_escape_percent

theorem not_like_prefixPattern : Like.like (prefixPattern value) t = false ↔ ¬Like.folded value <+: Like.folded t := by
  rw [← like_prefixPattern, Bool.not_eq_true]

theorem like_likePattern : Like.like (likePattern value) t ↔ Like.folded value <:+: Like.folded t :=
  Like.like_percent_escape

theorem not_like_likePattern : Like.like (likePattern value) t = false ↔ ¬Like.folded value <:+: Like.folded t := by
  rw [← like_likePattern, Bool.not_eq_true]

theorem deleted_iff : (if options.includeDeleted then [] else [fun c : CharacterRow ν => c.deletedAt.isNone]).all (· row) ↔
    (options.includeDeleted ∨ row.deletedAt = none) := by
  cases options.includeDeleted <;> simp

theorem creatorLike_iff : creatorLike row (likePattern author) ↔
    ∃ creator ∈ row.creator, Like.folded author <:+: Like.folded creator := by
  simp [creatorLike, Option.any_eq_true, like_likePattern]

theorem creatorUnlike_iff :
    (row.creator = none ∨ row.creator.any (fun creator => !Like.like (likePattern author) creator) = true) ↔
    ∀ creator ∈ row.creator, ¬Like.folded author <:+: Like.folded creator := by
  cases row.creator <;> simp [not_like_likePattern]

theorem filteredConds_iff : (filteredConds db parsed options).all (· row) ↔ Admits Eq db parsed options row := by
  simp only [filteredConds, List.all_append, Bool.and_eq_true, deleted_iff, admits_iff, and_assoc]
  cases parsed
  case none       => simp [existsTag_iff]
  case some query =>
    simp [existsTag_iff, not_existsTag_iff, like_prefixPattern, not_like_prefixPattern, creatorLike_iff, creatorUnlike_iff,
      not_like_likePattern]

theorem randomConds_iff : (randomConds db parsed options).all (· row) ↔ Admits Eq db parsed options row :=
  filteredConds_iff

theorem relevanceConds_iff {query : ParsedCharacterQuery} : (relevanceConds db options query).all (· row.id row) ↔
    Admits SameTag db (some query) options row := by
  have hdeleted : (if options.includeDeleted then [] else [fun (_ : Text) (c : CharacterRow ν) => c.deletedAt.isNone]).all
      (· row.id row) ↔ (options.includeDeleted ∨ row.deletedAt = none) := by
    cases options.includeDeleted <;> simp
  simp only [relevanceConds, List.all_append, Bool.and_eq_true, hdeleted, admits_iff, and_assoc]
  simp [existsTag_iff, not_existsTag_iff, like_prefixPattern, not_like_prefixPattern, creatorLike_iff, creatorUnlike_iff,
    not_like_likePattern, SameTag]

end Verdicts

section Walks

variable {ν κ : Type} {env : Env ν κ} {db : Db ν} {limit : Nat}
  {shuffle : List (CharacterRow ν) → List (CharacterRow ν)} {options : CharacterListOptions κ}
  {parsed : Option ParsedCharacterQuery} {query : ParsedCharacterQuery} {sort : PagedSort} {rank : Text → Option ν}

def rowsOf (db : Db ν) (p : CharacterRow ν → Bool) : List (CharacterRow ν) :=
  db.characters.rows.filter p

theorem rowsOf_distinct {p : CharacterRow ν → Bool} {key : CharacterRow ν → List (Term ν)}
    (h : ∀ row row', key row = key row' → row.id = row'.id) : (rowsOf db p).Pairwise (key · ≠ key ·) :=
  (List.pairwise_map.mp db.characters.nodup |>.imp fun hne heq => hne <| h _ _ heq).filter p

variable [LinearOrder ν] [Zero ν]

-- The condition of a cursor in the pages of a sort.
def sortAfter (env : Env ν κ) (sort : PagedSort) (cursor : Option κ) (row : CharacterRow ν) : Bool :=
  ((cursor.bind env.cursors.decode).bind (sortDescriptor sort).cursorPredicate).all (· row)

def sortCursor (env : Env ν κ) (sort : PagedSort) (row : CharacterRow ν) : κ :=
  env.cursors.encode <| (sortDescriptor sort).encodeCursor row

theorem sort_positions {p : CharacterRow ν → Bool} :
    Keyset.Positions (rowsOf db p) (sortDescriptor sort).orderBy (sortCursor env sort) (sortAfter env sort) where
  distinct := rowsOf_distinct (sortDescriptor_exact sort).total
  start _ := rfl
  behind last _ row := by
    have ⟨p, hp, hbehind⟩ := (sortDescriptor_exact sort).behind last
    have hdecode : env.cursors.decode (sortCursor env sort last) = some ((sortDescriptor sort).members last) :=
      env.cursors.reads _
    simp [sortAfter, hdecode, hp, ← hbehind]

theorem listFiltered_eq (hn : 0 < limit)
    (hp : p = Keyset.page (rowsOf db fun row => (filteredConds db parsed options).all (· row))
      (sortDescriptor sort).orderBy (sortCursor env sort) (sortAfter env sort) limit cursor) :
    let page := listFiltered env db parsed { options with cursor } limit sort
    (⟨page.items, page.nextCursor⟩ : Paging.Page _ _) = ⟨p.items.map (rowToCharacter db), p.next⟩ := by
  have hrows : (db.characters.rows.filter fun row => (filteredConds db parsed { options with cursor } ++
      ((decodeCursor env { options with cursor }).bind (sortDescriptor sort).cursorPredicate).toList).all (· row)) =
      (rowsOf db fun row => (filteredConds db parsed options).all (· row)).filter (sortAfter env sort cursor) := by
    rw [rowsOf, List.filter_filter]
    congr 1
    funext row
    rw [List.all_append, Bool.and_comm]
    -- The other conditions do not look at the cursor.
    congr 1
    rw [sortAfter, decodeCursor]
    cases (cursor.bind env.cursors.decode).bind (sortDescriptor sort).cursorPredicate <;> simp
  rw [Keyset.page, ← hrows, Paging.cut_eq_page hn rfl rfl] at hp
  simp only [hp, listFiltered]
  generalize List.take (limit + 1) _ = rows
  by_cases hlt : limit < rows.length
  case pos =>
    simp [hlt]
    rfl
  case neg => simp [hlt]

-- Pages by rank are pages of the characters whose ids the index has found.
def hitOf (rank : Text → Option ν) (row : CharacterRow ν) : Hit ν :=
  ⟨row.id, (rank row.id).getD 0⟩

def hitAfter (env : Env ν κ) (rank : Text → Option ν) (cursor : Option κ) (row : CharacterRow ν) : Bool :=
  hitPredicate (cursor.bind env.cursors.decode) (hitOf rank row)

def hitCursorOf (env : Env ν κ) (rank : Text → Option ν) (row : CharacterRow ν) : κ :=
  env.cursors.encode <| hitCursor <| hitOf rank row

theorem hit_positions {p : CharacterRow ν → Bool} :
    Keyset.Positions (rowsOf db p) (fun row => hitKey <| hitOf rank row) (hitCursorOf env rank) (hitAfter env rank) where
  distinct := by
    apply rowsOf_distinct
    intro row row' h
    simpa [hitKey, hitOf, Term.text_inj] using (List.cons.inj (List.cons.inj h).right).left
  start _ := rfl
  behind last _ row := by
    have hdecode : env.cursors.decode (hitCursorOf env rank last) =
        some [("r", some <| .inr <| (hitOf rank last).rank), ("i", some <| .inl last.id)] :=
      env.cursors.reads _
    have hpredicate : hitAfter env rank (some <| hitCursorOf env rank last) row =
        (decide ((hitOf rank last).rank < (hitOf rank row).rank) ||
          decide ((hitOf rank row).rank = (hitOf rank last).rank) && decide (last.id < row.id)) := by
      rw [hitAfter, Option.bind_some, hdecode]
      rfl
    rw [hpredicate, Bool.eq_iff_iff]
    simp only [Bool.or_eq_true, Bool.and_eq_true, decide_eq_true_eq]
    simp [hitKey, hitOf, List.cons_lt_cons_iff, Term.number_lt_iff, Term.text_lt_iff, Term.number_inj, Direction.behind,
      @eq_comm _ ((rank last.id).getD 0)]

omit [LinearOrder ν] in
theorem matches_eq : matches_ db rank query options = (rowsOf db fun row =>
    (relevanceConds db options query).all (· row.id row) && (rank row.id).isSome).map (hitOf rank) := by
  rw [matches_, rowsOf]
  induction db.characters.rows
  case nil             => rfl
  case cons row _ ih =>
    rw [List.filterMap_cons, List.filter_cons, ih]
    cases hall : (relevanceConds db options query).all (· row.id row)
    case false => simp
    case true  => cases hrank : rank row.id <;> simp [hitOf, hrank]

omit [LinearOrder ν] in
theorem shown_hits {rows : List (CharacterRow ν)} (h : ∀ row ∈ rows, row ∈ db.characters) :
    ((rows.map (hitOf rank)).filterMap fun hit => (db.characters.get? hit.id).map (rowToCharacter db)) =
    rows.map (rowToCharacter db) := by
  induction rows
  case nil             => rfl
  case cons row _ ih =>
    have hget : db.characters.get? (hitOf rank row).id = some row := Table.get?_of_mem <| h row List.mem_cons_self
    simp [hget, ih fun row hrow => h row <| List.mem_cons_of_mem _ hrow]

theorem listByRelevance_eq (hn : 0 < limit)
    (hp : p = Keyset.page (rowsOf db fun row =>
      (relevanceConds db options query).all (· row.id row) && (rank row.id).isSome) (fun row => hitKey <| hitOf rank row)
      (hitCursorOf env rank) (hitAfter env rank) limit cursor) :
    let page := listByRelevance env db rank query { options with cursor } limit
    (⟨page.items, page.nextCursor⟩ : Paging.Page _ _) = ⟨p.items.map (rowToCharacter db), p.next⟩ := by
  rw [Keyset.page] at hp
  generalize hall : (rowsOf db fun row =>
    (relevanceConds db options query).all (· row.id row) && (rank row.id).isSome) = all at hp
  have hhits : (matches_ db rank query { options with cursor }).filter
      (hitPredicate <| decodeCursor env { options with cursor }) =
      (all.filter <| hitAfter env rank cursor).map (hitOf rank) := by
    rw [matches_eq, List.filter_map, ← hall]
    rfl
  have hmem (row) (h : row ∈ p.items) : row ∈ db.characters := by
    rw [hp] at h
    have hrow := List.mem_of_mem_filter <| Paging.mem_orderBy.mp <| Paging.mem_of_cut h
    rw [← hall] at hrow
    exact List.mem_of_mem_filter hrow
  rw [Paging.cut_eq_page hn rfl rfl] at hp
  generalize hrows : List.take (limit + 1) _ = rows at hp
  have htake : (Paging.orderBy hitKey <| (matches_ db rank query { options with cursor }).filter <|
      hitPredicate <| decodeCursor env { options with cursor }).take (limit + 1) = rows.map (hitOf rank) := by
    rw [hhits, Paging.orderBy_map, ← List.map_take, hrows]
  subst hp
  simp only [listByRelevance, htake, List.length_map]
  by_cases hlt : limit < rows.length
  case pos =>
    simp only [hlt, if_true] at hmem
    simp only [hlt, if_true, ← List.map_take, shown_hits hmem, List.getLast?_map, Option.map_map]
    rfl
  case neg =>
    simp only [hlt, if_false] at hmem
    simp [hlt, shown_hits hmem]

def parsedQuery (options : CharacterListOptions κ) : Option ParsedCharacterQuery :=
  let rawQ := trim <| options.q.getD []
  if rawQ.length > 0 then some <| parseCharacterQuery rawQ else none

-- The ranks of a search for text, if the request makes one that the index can read.
def ranksOf (env : Env ν κ) (options : CharacterListOptions κ) : Option (Text → Option ν) :=
  (parsedQuery options).bind (·.ftsText) >>= env.rank

def limitOf (options : CharacterListOptions κ) : Nat :=
  (options.limit.getD 50 : ℕ+)

omit [LinearOrder ν] [Zero ν] in
theorem exists_query (h : ranksOf env options = some rank) : ∃ query, parsedQuery options = some query ∧
    query.ftsText.bind env.rank = some rank := by
  have ⟨text, htext, hrank⟩ := Option.bind_eq_some_iff.mp h
  have ⟨query, hquery, hfts⟩ := Option.bind_eq_some_iff.mp htext
  exact ⟨query, hquery, by simp [hfts, hrank]⟩

theorem list_of_ranks (hquery : parsedQuery options = some query) (h : query.ftsText.bind env.rank = some rank) :
    list env db shuffle options = listByRelevance env db rank query options (limitOf options) := by
  have ⟨text, hfts, hrank⟩ := Option.bind_eq_some_iff.mp h
  simp only [parsedQuery] at hquery
  simp only [list, hquery, hfts, hrank, limitOf]

theorem list_of_no_ranks (h : ranksOf env options = none) : list env db shuffle options =
    match normalizeSort options.sort with
    | .random     => listRandom db shuffle (parsedQuery options) options (limitOf options)
    | .relevance  => listFiltered env db (parsedQuery options) options (limitOf options) .newest
    | .paged sort => listFiltered env db (parsedQuery options) options (limitOf options) sort := by
  simp only [ranksOf, parsedQuery] at h
  simp only [list, limitOf, parsedQuery]
  split
  case h_1 => rfl
  case h_2 query hquery =>
    rw [hquery] at h
    split
    case h_1 => rfl
    case h_2 text htext =>
      have hrank : env.rank text = none := by simpa [htext] using h
      cases normalizeSort options.sort <;> simp only [hrank]

-- By what the pages of a request are ordered. Random pages have no order.
def ordering (env : Env ν κ) (options : CharacterListOptions κ) : Option (CharacterRow ν → List (Term ν)) :=
  match ranksOf env options with
  | some rank => some fun row => hitKey <| hitOf rank row
  | none      =>
    match normalizeSort options.sort with
    | .random     => none
    | .relevance  => some (sortDescriptor .newest).orderBy
    | .paged sort => some (sortDescriptor sort).orderBy

-- What a request is to show: what meets its filters, and what its text is found in.
def Shown (env : Env ν κ) (db : Db ν) (options : CharacterListOptions κ) (row : CharacterRow ν) : Prop :=
  match ranksOf env options with
  | some rank =>
    Admits SameTag db (parsedQuery options) options row ∧ (rank row.id).isSome
  | none      => Admits Eq db (parsedQuery options) options row

def catalogPage (env : Env ν κ) (shuffle : List (CharacterRow ν) → List (CharacterRow ν))
    (options : CharacterListOptions κ) (db : Db ν) (cursor : Option κ) :
    Except Unit (Paging.Page (Character ν) κ) :=
  let page := list env db shuffle { options with cursor }
  .ok ⟨page.items, page.nextCursor⟩

theorem limitOf_pos : 0 < limitOf options :=
  (options.limit.getD 50).pos

theorem sorted_complete (hlist : ∀ cursor, list env db shuffle { options with cursor } =
      listFiltered env db parsed { options with cursor } (limitOf options) sort) :
    Paging.Walk (catalogPage env shuffle options) Eq db none items ↔ ∃ rows : List (CharacterRow ν),
      rows.Pairwise ((sortDescriptor sort).orderBy · < (sortDescriptor sort).orderBy ·) ∧
      (∀ row, row ∈ rows ↔ row ∈ db.characters ∧ Admits Eq db parsed options row) ∧
      items = rows.map (rowToCharacter db) := by
  have hpositions := @sort_positions ν κ env db sort _ _ fun row => (filteredConds db parsed options).all (· row)
  rw [Keyset.walk_map_iff limitOf_pos hpositions fun cursor p hp => by
    rw [catalogPage, hlist]
    exact congrArg _ <| listFiltered_eq limitOf_pos hp]
  simp only [rowsOf, List.mem_filter, filteredConds_iff]
  rfl

theorem matches_complete (hlist : ∀ cursor, list env db shuffle { options with cursor } =
      listByRelevance env db rank query { options with cursor } (limitOf options)) :
    Paging.Walk (catalogPage env shuffle options) Eq db none items ↔ ∃ rows : List (CharacterRow ν),
      rows.Pairwise (fun row row' => hitKey (hitOf rank row) < hitKey (hitOf rank row')) ∧
      (∀ row, row ∈ rows ↔ row ∈ db.characters ∧
        Admits SameTag db (some query) options row ∧
        (rank row.id).isSome) ∧
      items = rows.map (rowToCharacter db) := by
  have hpositions := @hit_positions ν κ env db rank _ _ fun row =>
    (relevanceConds db options query).all (· row.id row) && (rank row.id).isSome
  rw [Keyset.walk_map_iff limitOf_pos hpositions fun cursor p hp => by
    rw [catalogPage, hlist]
    exact congrArg _ <| listByRelevance_eq limitOf_pos hp]
  simp only [rowsOf, List.mem_filter, Bool.and_eq_true, relevanceConds_iff]
  rfl

-- Whoever follows the cursors of a request gets all that it is to show, once each and in its order.
theorem catalog_complete {key : CharacterRow ν → List (Term ν)} (h : ordering env options = some key) :
    Paging.Walk (catalogPage env shuffle options) Eq db none items ↔ ∃ rows : List (CharacterRow ν),
      rows.Pairwise (key · < key ·) ∧
      (∀ row, row ∈ rows ↔ row ∈ db.characters ∧ Shown env db options row) ∧
      items = rows.map (rowToCharacter db) := by
  simp only [ordering] at h
  simp only [Shown]
  split at h
  case h_1 rank hrank =>
    cases h
    have ⟨query, hquery, htext⟩ := exists_query hrank
    rw [hquery]
    exact matches_complete fun cursor => list_of_ranks hquery htext
  case h_2 hrank =>
    have hlist (cursor) := @list_of_no_ranks ν κ env db shuffle { options with cursor } _ _ hrank
    split at h
    case h_1         => cases h
    case h_2 hsort      =>
      cases h
      exact sorted_complete fun cursor => by rw [hlist, hsort]; rfl
    case h_3 sort hsort =>
      cases h
      exact sorted_complete fun cursor => by rw [hlist, hsort]; rfl

section Sample

private def sampleEnv : Env Nat (List (String × (Text ⊕ Nat))) where
  cursors.encode value := value
  cursors.decode value := some <| value.map fun member => (member.fst, some member.snd)
  cursors.reads _      := rfl
  rank _               := none

private def sampleRow (id name : String) : CharacterRow Nat where
  id         := id.toList
  name       := name.toList
  createdAt  := 7
  updatedAt  := 7
  favorite   := 0
  chatCount  := 0
  tokenCount := 0

private def sampleDb : Db Nat where
  characters    := ⟨[sampleRow "a" "Ada", sampleRow "b" "Bob", sampleRow "c" "Cid"], by decide⟩
  tags          := .empty
  characterTags := []

-- Three characters of one time, two on a page.
theorem catalog_complete_ties : ∃ rows : List (CharacterRow Nat),
    rows.Pairwise ((sortDescriptor .newest).orderBy · < (sortDescriptor .newest).orderBy ·) ∧
    (∀ row, row ∈ rows ↔ row ∈ sampleDb.characters ∧ Shown sampleEnv sampleDb { limit := some 2 } row) ∧
    [sampleRow "c" "Cid", sampleRow "b" "Bob", sampleRow "a" "Ada"].map (rowToCharacter sampleDb) =
      rows.map (rowToCharacter sampleDb) :=
  have hlast : catalogPage sampleEnv id { limit := some 2 } sampleDb
      (some [("c", .inr 7), ("i", .inl "b".toList)]) =
      .ok ⟨[rowToCharacter sampleDb <| sampleRow "a" "Ada"], none⟩ := by decide +kernel
  have hfirst : catalogPage sampleEnv id { limit := some 2 } sampleDb none =
      .ok ⟨[sampleRow "c" "Cid", sampleRow "b" "Bob"].map (rowToCharacter sampleDb),
        some [("c", .inr 7), ("i", .inl "b".toList)]⟩ := by decide +kernel
  (catalog_complete rfl).mp <| .more hfirst rfl <| .last hlast

end Sample
end Walks
end Repositories.Catalog
