import NeoTavern.Repositories.CharacterHistory

namespace Repositories.Characters

section Snapshots

variable {row row' : CharacterRow} {tagNames tagNames' : List Text} {v : VersionRow} {p p' : Portrait}

def portraitOf (row : CharacterRow) (tagNames : List Text) : Portrait where
  fields := row.toFields
  ext    := row.ext
  tags   := tagNames.toFinset

-- A version that holds all of a character.
def Shows (v : VersionRow) (p : Portrait) : Prop :=
  ∃ row tagNames, v.snapshot = some (rowToSnapshot row tagNames) ∧ portraitOf row tagNames = p

theorem Fields.patch_injective {f f' : Fields} (h : f.patch = f'.patch) : f = f' := by
  cases f
  cases f'
  simp_all [Fields.patch]

theorem Fields.set_patch {f g : Fields} : f.patch.set g = f :=
  rfl

theorem portraitOf_eq_of_rowToSnapshot (h : rowToSnapshot row tagNames = rowToSnapshot row' tagNames') :
    portraitOf row tagNames = portraitOf row' tagNames' := by
  have hpatch : row.toFields.patch = row'.toFields.patch := congrArg CharacterSnapshot.toPatch h
  have hext : some row.ext = some row'.ext := congrArg CharacterSnapshot.ext h
  have htags : some tagNames = some tagNames' := congrArg CharacterSnapshot.tags h
  rw [portraitOf, portraitOf, Fields.patch_injective hpatch, Option.some.inj hext, Option.some.inj htags]

theorem shows_iff (h : v.snapshot = some (rowToSnapshot row tagNames)) : Shows v p ↔ portraitOf row tagNames = p := by
  constructor
  case mpr => exact fun hp => ⟨row, tagNames, h, hp⟩
  case mp  =>
    intro ⟨row', tagNames', hv, hp⟩
    rw [h, Option.some.injEq] at hv
    rw [portraitOf_eq_of_rowToSnapshot hv, hp]

theorem Shows.eq (h : Shows v p) (h' : Shows v p') : p = p' := by
  have ⟨row, tagNames, hv, hp⟩ := h
  rw [← hp, (shows_iff hv).mp h']

-- A version as `snapshotVersion` writes it: of a row, and of tags as they are kept.
def Full (v : VersionRow) : Prop :=
  ∃ row tagNames, v.snapshot = some (rowToSnapshot row tagNames) ∧ ∀ n ∈ tagNames, Tags.IsTrimmed n

end Snapshots

-- A character as it is before the calls, with the versions that it has by then.
structure Start where
  row       : CharacterRow
  tags      : Tags
  versions  : List VersionRow
  versionId : Nat
  trimmed   : ∀ n ∈ tags.loadTags, Tags.IsTrimmed n
  numbered  : versions.map (·.version) = List.range' 1 versions.length
  full      : ∀ v ∈ versions, Full v

def Start.state (start : Start) : State where
  row       := start.row
  tags      := start.tags
  versions  := start.versions
  versionId := start.versionId

-- A call whose transaction has been made.
def Phase.committed : Phase → Bool
  | written _         => true
  | returned (some _) => true
  | _                 => false

def State.committed (s : State) (i : Nat) : Bool :=
  s.calls[i]?.any Phase.committed

-- The history of a character is complete, and each of its versions can be restored.
structure Kept (start : Start) (s : State) : Prop where
  -- Each successful call adds one version.
  added      : s.versions = start.versions ++ s.log.map (·.version)
  once       : ∀ i, (s.log.filter (·.call = i)).length = (s.committed i).toNat
  numbered   : s.versions.map (·.version) = List.range' 1 s.versions.length
  -- It holds the character as it was right before, and so no state in between is lost.
  complete   : ∀ c ∈ s.log, Shows c.version c.before
  chained    : s.log.IsChain fun c c' => c.after = c'.before
  current    : s.portrait = (s.log.getLast?.map (·.after)).getD start.state.portrait
  restored   : ∀ c ∈ s.log, ∀ v, c.restores = some v → Shows v c.after
  reversible : ∀ c ∈ s.log, ∀ c' ∈ s.log, c'.restores = some c.version → c'.after = c.before
  favorite   : s.row.favorite = (isFavoriteExt s.row.ext).toNat

-- What a call has read when its transaction is made is what the character still has, and a version that is
-- restored is a favorite's exactly if the column says so.
def Current (s : State) : Event → Prop
  | .call _      => True
  | .advance i _ =>
    match s.calls[i]? with
    | some (.tagsRead restores _ row tagNames) =>
      portraitOf row tagNames = s.portrait ∧
        ∀ v snapshot ext, restores = some v → v.snapshot = some snapshot → snapshot.ext = some ext →
          s.row.favorite = (isFavoriteExt ext).toNat
    | _                                        => True

-- What a call is about to write.
def Prepared (restores : Option VersionRow) (values : Values) : Prop :=
  match restores with
  | none   => ∃ existing patch now, values = updateValues existing patch now
  | some v => ∃ row tagNames now, v.snapshot = some (rowToSnapshot row tagNames) ∧
      (∀ n ∈ tagNames, Tags.IsTrimmed n) ∧ values = restoreValues (rowToSnapshot row tagNames) now

def Phase.Sound : Phase → Prop
  | .versionRead v                     => Full v
  | .rowRead restores values _         => Prepared restores values
  | .tagsRead restores values _ tags   => Prepared restores values ∧ ∀ n ∈ tags, Tags.IsTrimmed n
  | _                                  => True

structure Inv (start : Start) (s : State) : Prop where
  added    : s.versions = start.versions ++ s.log.map (·.version)
  once     : ∀ i, (s.log.filter (·.call = i)).length = (s.committed i).toNat
  numbered : s.versions.map (·.version) = List.range' 1 s.versions.length
  chained  : s.log.IsChain fun c c' => c.after = c'.before
  current  : s.portrait = (s.log.getLast?.map (·.after)).getD start.state.portrait
  restored : ∀ c ∈ s.log, ∀ v, c.restores = some v → Shows v c.after
  full     : ∀ v ∈ s.versions, Full v
  trimmed  : ∀ n ∈ s.tags.loadTags, Tags.IsTrimmed n
  sound    : ∀ phase ∈ s.calls, phase.Sound

section Steps

variable {start : Start} {s : State}

theorem foldl_max_range' : (List.range' 1 n).foldl max 0 = n := by
  induction n
  case zero      => rfl
  case succ n ih => rw [List.range'_concat, List.foldl_append, ih]; simp; omega

theorem Inv.nextVersion (h : Inv start s) : s.nextVersion = s.versions.length + 1 := by
  rw [State.nextVersion, h.numbered, foldl_max_range']

theorem trimmed_replaceTags {tags : Tags} : ∀ n ∈ (tags.replaceTags l).loadTags, Tags.IsTrimmed n :=
  fun _ hn => Tags.isTrimmed_of_mem_uniqueNames <| Tags.mem_loadTags_replaceTags.mp hn

theorem set_restoreValues {row r : CharacterRow} :
    ((restoreValues (rowToSnapshot row tagNames) now).set r).toFields = row.toFields ∧
      ((restoreValues (rowToSnapshot row tagNames) now).set r).ext = row.ext :=
  ⟨rfl, rfl⟩

theorem committed_goTo {phase old : Phase} (h : s.calls[i]? = some old) (hp : phase.committed = old.committed) (j) :
    (s.goTo i phase).committed j = s.committed j := by
  simp only [State.committed, State.goTo, List.getElem?_set]
  split
  case isFalse => rfl
  case isTrue hj =>
    cases hj
    have hlt : i < s.calls.length := (List.getElem?_eq_some_iff.mp h).fst
    simp only [hlt, if_true, Option.any_some, h, hp]

theorem Inv.goTo {phase old : Phase} (h : Inv start s) (hi : s.calls[i]? = some old)
    (hp : phase.committed = old.committed) (hsound : phase.Sound) : Inv start (s.goTo i phase) where
  added    := h.added
  once j   := by
    rw [committed_goTo hi hp]
    exact h.once j
  numbered := h.numbered
  chained  := h.chained
  current  := h.current
  restored := h.restored
  full     := h.full
  trimmed  := h.trimmed
  sound p hmem := by
    match List.mem_or_eq_of_mem_set hmem with
    | .inl hold => exact h.sound p hold
    | .inr heq  => exact heq ▸ hsound

theorem Inv.call (h : Inv start s) : Inv start (step s <| .call request) where
  added    := h.added
  once j   := by
    have hcommitted : (step s <| .call request).committed j = s.committed j := by
      simp only [State.committed, step, List.getElem?_append]
      split
      case isTrue  => rfl
      case isFalse hlt =>
        rw [List.getElem?_eq_none (Nat.le_of_not_lt hlt), List.getElem?_singleton]
        split <;> rfl
    rw [hcommitted]
    exact h.once j
  numbered := h.numbered
  chained  := h.chained
  current  := h.current
  restored := h.restored
  full     := h.full
  trimmed  := h.trimmed
  sound p hmem := by
    match List.mem_append.mp hmem with
    | .inl hold => exact h.sound p hold
    | .inr hnew => exact List.mem_singleton.mp hnew ▸ trivial

-- What the transaction of a restore leaves is what the version holds.
theorem portrait_of_restore {row : CharacterRow} {tags : Tags} (h : ∀ n ∈ tagNames, Tags.IsTrimmed n) :
    (⟨((restoreValues (rowToSnapshot row tagNames) now).set r).toFields,
      ((restoreValues (rowToSnapshot row tagNames) now).set r).ext,
      (tags.replaceTags tagNames).nameSet⟩ : Portrait) = portraitOf row tagNames := by
  rw [set_restoreValues.left, set_restoreValues.right, Tags.nameSet_replaceTags, Tags.toFinset_uniqueNames h,
    portraitOf]

theorem Inv.transaction (h : Inv start s) (hi : s.calls[i]? = some (.tagsRead restores values row tags)) :
    Inv start ((s.transaction i restores values row tags now).goTo i <| .written <| values.set s.row) := by
  have ⟨hprepared, htags⟩ := h.sound _ <| List.mem_of_getElem? hi
  have hlt : i < s.calls.length := (List.getElem?_eq_some_iff.mp hi).fst
  exact {
    added := by simp [State.goTo, State.transaction, h.added]
    once := by
      intro j
      have hj := h.once j
      by_cases heq : j = i
      case pos =>
        cases heq
        simp only [State.committed, hi, Option.any_some, Phase.committed] at hj
        simp [State.goTo, State.transaction, State.committed, hlt, Phase.committed, List.filter_append, hj]
      case neg =>
        have hne : i ≠ j := fun h => heq h.symm
        simpa [State.goTo, State.transaction, State.committed, hne, List.filter_append] using hj
    numbered := by
      simp [State.goTo, State.transaction, State.snapshotVersion, h.numbered, h.nextVersion, List.range'_concat]
      omega
    chained := by
      simp only [State.goTo, State.transaction, List.isChain_append, h.chained, List.isChain_singleton, true_and]
      intro c hc c' hc'
      have hlast := h.current
      rw [hc] at hlast
      cases hc'
      exact hlast.symm
    current := by simp [State.goTo, State.transaction, State.portrait]
    restored := by
      intro c hc v hv
      match List.mem_append.mp hc with
      | .inl hold => exact h.restored c hold v hv
      | .inr hnew =>
        cases List.mem_singleton.mp hnew
        cases hv
        have ⟨row', tagNames, now', hsnapshot, htrim, hvalues⟩ := hprepared
        cases hvalues
        exact (shows_iff hsnapshot).mpr (portrait_of_restore htrim).symm
    full := by
      intro v hv
      match List.mem_append.mp hv with
      | .inl hold => exact h.full v hold
      | .inr hnew => exact ⟨row, tags, by rw [List.mem_singleton.mp hnew]; rfl, htags⟩
    trimmed := by
      cases hv : values.tags
      case none   => simpa [State.goTo, State.transaction, hv] using h.trimmed
      case some l => simpa [State.goTo, State.transaction, hv] using trimmed_replaceTags
    sound := by
      intro p hmem
      match List.mem_or_eq_of_mem_set hmem with
      | .inl hold => exact h.sound p hold
      | .inr heq  => exact heq ▸ trivial
  }

-- A call that is not about to make its transaction.
def Apart (s : State) (i : Nat) : Prop :=
  ∀ restores values row tags, s.calls[i]? ≠ some (.tagsRead restores values row tags)

theorem Apart.current (h : Apart s i) : Current s (.advance i now) := by
  simp only [Current]
  split
  case h_1 hi => exact absurd hi <| h _ _ _ _
  case h_2    => trivial

-- All that a call does at one time: nothing, a piece of its code, or its transaction.
theorem advance_cases (h : Inv start s) (i : Nat) (now : Int) :
    (Apart s i ∧ s.advance i now = s) ∨
    (Apart s i ∧ ∃ old phase, s.calls[i]? = some old ∧ phase.committed = old.committed ∧ phase.Sound ∧
      s.advance i now = s.goTo i phase) ∨
    ∃ restores values row tags, s.calls[i]? = some (.tagsRead restores values row tags) ∧
      s.advance i now =
        (s.transaction i restores values row tags now).goTo i (.written <| values.set s.row) := by
  cases hi : s.calls[i]?
  case none       => exact .inl ⟨by simp [Apart, hi], by simp [State.advance, hi]⟩
  case some phase =>
    have hsound := h.sound phase <| List.mem_of_getElem? hi
    cases phase
    case returned => exact .inl ⟨by simp [Apart, hi], by simp [State.advance, hi]⟩
    case written row =>
      exact .inr <| .inl ⟨by simp [Apart, hi], _, .returned <| some <| rowToCharacter row s.tags.loadTags, rfl, rfl,
        trivial, by simp [State.advance, hi]⟩
    case tagsRead restores values row tags =>
      exact .inr <| .inr ⟨restores, values, row, tags, rfl, by simp [State.advance, hi]⟩
    case rowRead restores values row =>
      exact .inr <| .inl ⟨by simp [Apart, hi], _, .tagsRead restores values row s.tags.loadTags, rfl, rfl,
        ⟨hsound, h.trimmed⟩, by simp [State.advance, hi]⟩
    case versionRead v =>
      have ⟨row, tagNames, hsnapshot, htrim⟩ : Full v := hsound
      exact .inr <| .inl ⟨by simp [Apart, hi], _,
        .rowRead (some v) (restoreValues (rowToSnapshot row tagNames) now) s.row, rfl, rfl,
        ⟨row, tagNames, now, hsnapshot, htrim, rfl⟩, by simp [State.advance, hi, hsnapshot]⟩
    case called request =>
      cases request
      case update patch =>
        exact .inr <| .inl ⟨by simp [Apart, hi], _, .rowRead none (updateValues s.row patch now) s.row, rfl, rfl,
          ⟨s.row, patch, now, rfl⟩, by simp [State.advance, hi]⟩
      case restoreVersion versionId =>
        cases hv : s.versions.find? (·.id = versionId)
        case none   =>
          exact .inr <| .inl ⟨by simp [Apart, hi], _, .returned none, rfl, rfl, trivial,
            by simp [State.advance, hi, hv]⟩
        case some v =>
          exact .inr <| .inl ⟨by simp [Apart, hi], _, .versionRead v, rfl, rfl,
            h.full v <| List.mem_of_find?_eq_some hv, by simp [State.advance, hi, hv]⟩

theorem Inv.step (h : Inv start s) : ∀ e, Inv start (step s e)
  | .call _        => h.call
  | .advance i now => by
    rw [Characters.step]
    match advance_cases h i now with
    | .inl ⟨_, heq⟩                                       => rwa [heq]
    | .inr (.inl ⟨_, _, _, hi, hcommitted, hsound, heq⟩) => rw [heq]; exact h.goTo hi hcommitted hsound
    | .inr (.inr ⟨_, _, _, _, hi, heq⟩)                   => rw [heq]; exact h.transaction hi

theorem inv_start : Inv start start.state where
  added    := by simp [Start.state]
  once     := by simp [Start.state, State.committed]
  numbered := start.numbered
  chained  := .nil
  current  := rfl
  restored := by simp [Start.state]
  full     := start.full
  trimmed  := start.trimmed
  sound    := by simp [Start.state]

-- What the invariant leaves open.
theorem kept_iff (h : Inv start s) : Kept start s ↔
    (∀ c ∈ s.log, Shows c.version c.before) ∧ s.row.favorite = (isFavoriteExt s.row.ext).toNat := by
  constructor
  case mp  => exact fun hkept => ⟨hkept.complete, hkept.favorite⟩
  case mpr =>
    intro ⟨hcomplete, hfavorite⟩
    exact {
      added      := h.added
      once       := h.once
      numbered   := h.numbered
      complete   := hcomplete
      chained    := h.chained
      current    := h.current
      restored   := h.restored
      reversible := fun c hc c' hc' heq => (h.restored c' hc' _ heq).eq (hcomplete c hc)
      favorite   := hfavorite
    }

theorem favorite_of_update (h : s.row.favorite = (isFavoriteExt s.row.ext).toNat) :
    ((updateValues existing patch now).set s.row).favorite =
      (isFavoriteExt ((updateValues existing patch now).set s.row).ext).toNat := by
  cases hext : patch.ext <;> simp [updateValues, Values.set, hext, h]

theorem kept_transaction (h : Inv start s) (hkept : Kept start s)
    (hi : s.calls[i]? = some (.tagsRead restores values row tags)) :
    Kept start ((s.transaction i restores values row tags now).goTo i <| .written <| values.set s.row) ↔
      Current s (.advance i now) := by
  have hprepared := (h.sound _ <| List.mem_of_getElem? hi).left
  have hversion : (s.snapshotVersion row tags now).snapshot = some (rowToSnapshot row tags) := rfl
  rw [kept_iff <| h.transaction hi]
  simp only [Current, hi]
  simp only [State.goTo, State.transaction, List.mem_append, List.mem_singleton, or_imp, forall_and, forall_eq,
    shows_iff hversion]
  constructor
  case mp =>
    rintro ⟨⟨_, hcurrent⟩, hfavorite⟩
    refine ⟨hcurrent, fun v snapshot ext hv hsnapshot hext => ?_⟩
    cases hv
    obtain ⟨row', tagNames, now', hsnapshot', _, hvalues⟩ := hprepared
    cases hvalues
    rw [hsnapshot] at hsnapshot'
    cases hsnapshot'
    cases hext
    exact hfavorite
  case mpr =>
    rintro ⟨hcurrent, hrestore⟩
    refine ⟨⟨hkept.complete, hcurrent⟩, ?_⟩
    cases restores
    case none =>
      obtain ⟨existing, patch, now', hvalues⟩ := hprepared
      cases hvalues
      exact favorite_of_update hkept.favorite
    case some v =>
      obtain ⟨row', tagNames, now', hsnapshot, _, hvalues⟩ := hprepared
      cases hvalues
      exact hrestore v _ row'.ext rfl hsnapshot rfl

theorem kept_step (h : Inv start s) (hkept : Kept start s) : ∀ e, Kept start (step s e) ↔ Current s e
  | .call _        => iff_of_true ((kept_iff h.call).mpr ⟨hkept.complete, hkept.favorite⟩) trivial
  | .advance i now => by
    rw [step]
    match advance_cases h i now with
    | .inl ⟨hapart, heq⟩ =>
      rw [heq]
      exact iff_of_true hkept hapart.current
    | .inr (.inl ⟨hapart, _, _, hi, hcommitted, hsound, heq⟩) =>
      rw [heq, kept_iff <| h.goTo hi hcommitted hsound]
      exact iff_of_true ⟨hkept.complete, hkept.favorite⟩ hapart.current
    | .inr (.inr ⟨_, _, _, _, hi, heq⟩) =>
      rw [heq]
      exact kept_transaction h hkept hi

theorem kept_start : Kept start start.state ↔ start.row.favorite = (isFavoriteExt start.row.ext).toNat := by
  rw [kept_iff inv_start]
  simp [Start.state]

-- The history is kept at every time of a run exactly if the character starts with the column as its `ext` says and
-- each transaction finds what its call has read.
theorem history_kept_iff (start : Start) (es : List Event) :
    Runs.Throughout step (Kept start) start.state es ↔
      start.row.favorite = (isFavoriteExt start.row.ext).toNat ∧ Runs.Meets step Current start.state es := by
  have hrun (hkept : Kept start start.state) :
      Runs.Throughout step (Kept start) start.state es ↔ Runs.Meets step Current start.state es :=
    Runs.throughout_iff_meets (fun _ e h => h.step e) (fun _ e h hk => kept_step h hk e) inv_start hkept
  constructor
  case mp  =>
    intro h
    have hkept : Kept start start.state := h [] List.nil_prefix
    exact ⟨kept_start.mp hkept, (hrun hkept).mp h⟩
  case mpr => exact fun ⟨hfavorite, hmeets⟩ => (hrun <| kept_start.mpr hfavorite).mpr hmeets

end Steps

section Example

private def alice : Start where
  row       := {
    name := .ofString "Alice", avatar := none, description := [], personality := [], scenario := [],
    firstMessage := [], exampleDialogues := [], systemPrompt := none, postHistoryInstructions := none,
    creator := none, creatorNotes := none, id := .ofString "c1", ext := [], favorite := 0, createdAt := 0,
    updatedAt := 0, lastUsedAt := none, deletedAt := none
  }
  tags      := .empty
  versions  := []
  versionId := 0
  trimmed   := by simp [Tags.loadTags, Tags.empty]
  numbered  := rfl
  full      := by simp

private def rename (name : String) : Event :=
  .call <| .update { name := CodeUnits.ofString name }

-- Both calls read the row before either of them writes it.
private def overlapping : List Event := [
  rename "Bob", rename "Carol", .advance 0 1, .advance 1 1, .advance 0 1, .advance 1 1, .advance 0 1, .advance 1 1
]

private def favored : List Event := [
  .call <| .update { ext := some [(.ofString "favorite", .boolean true)] }, .advance 0 1, .advance 0 1, .advance 0 1,
  .call <| .restoreVersion 0, .advance 1 2, .advance 1 2, .advance 1 2, .advance 1 2
]

theorem name_of_shows (h : Shows v p) : (v.snapshot.bind (·.name)) = some p.fields.name := by
  have ⟨row, tagNames, hsnapshot, hp⟩ := h
  cases hp
  rw [hsnapshot]
  rfl

-- The name that the first of two updates has written is in no version, and a restore leaves the column behind.
theorem history_loses_update : ¬Runs.Throughout step (Kept alice) alice.state overlapping ∧
    ¬Runs.Throughout step (Kept alice) alice.state favored := by
  constructor
  case left  =>
    intro h
    have hnames : ∀ n ∈ (overlapping.foldl step alice.state).log.map fun c =>
        (c.version.snapshot.bind (·.name), c.before.fields.name), n.fst = some n.snd := by
      intro n hn
      have ⟨c, hc, heq⟩ := List.mem_map.mp hn
      exact heq ▸ name_of_shows (h.last.complete c hc)
    exact absurd hnames <| by decide +kernel
  case right =>
    intro h
    exact absurd h.last.favorite <| by decide +kernel

end Example
end Repositories.Characters
