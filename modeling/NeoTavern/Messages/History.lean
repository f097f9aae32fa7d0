import NeoTavern.Lib.Archive
import NeoTavern.Messages.Repository
import NeoTavern.Messages.Refinement

namespace Messages

open Db ArchivedTable

variable {id : String}

namespace Db

-- The texts of a message that are not its active one.
def archived (db : Db) (id : String) : List String :=
  (ofMessage db.messageVariants id ++ ofMessage db.messageContentRevisions id).map (·.content)

-- Everything that the database knows of a message.
def entry (db : Db) (id : String) : Option MessageRow × List ArchivedRow × List ArchivedRow :=
  (db.messages.get? id, ofMessage db.messageVariants id, ofMessage db.messageContentRevisions id)

variable {db : Db}

theorem mem_archived : text ∈ db.archived id ↔
    (∃ p, textAt db.messageVariants id p = some text) ∨
      ∃ p, textAt db.messageContentRevisions id p = some text := by
  simp only [archived, List.map_append, List.mem_append, List.mem_map, textAt_eq_some_iff]
  refine or_congr ?_ ?_
  all_goals
    constructor
    · rintro ⟨r, hr, ht⟩
      exact ⟨r.position, r, hr, rfl, ht⟩
    · rintro ⟨_, r, hr, _, ht⟩
      exact ⟨r, hr, ht⟩

theorem mem_stored (h : db.wording id = some w) : text ∈ w.stored ↔ text ∈ db.archived id := by
  have ⟨m, _, he⟩ := Option.map_eq_some_iff.mp h
  rw [mem_archived, ← he]
  rfl

end Db

namespace World

-- A regeneration that is about to rewrite the message archives its active text, writes it again, or
-- finds it archived.
def Archives (w : World) (id : String) : Event → Prop
  | .done _ variantId generationId finalText _ => ∀ g m c,
      w.streaming generationId = some g → g.regenerateMessageId = some id →
      g.regeneratedContent = some c → isBlank finalText = false → w.db.messages.get? id = some m →
      w.db.messageVariants.get? variantId = none →
      m.content = finalText ∨ m.content = c ∨ m.content ∈ w.db.archived id
  | _ => True

def current (id : String) (w : World) : Set String :=
  { text | ∃ v, w.db.wording id = some v ∧ v.content = text }

def stored (id : String) (w : World) : Set String :=
  { text | ∃ v, w.db.wording id = some v ∧ text ∈ v.stored }

variable {w : World}

theorem mem_held (h : w.db.wording id = some v) :
    text ∈ current id w ∪ stored id w ↔ text ∈ v.held := by
  simp [current, stored, Wording.held, h, eq_comm]

theorem careful_held {db db' : Db} (h : Change Wording.Step.Careful db db' id) (hc : db.Consistent)
    (hw : db.wording id = some v) : ∃ v', db'.wording id = some v' ∧ v.held ⊆ v'.held := by
  cases h
  case same h => exact ⟨v, h.wording.trans hw, Set.Subset.rfl⟩
  case create h _ => simp [hw] at h
  case step h h' hs =>
    cases hw.symm.trans h
    exact ⟨_, h', hs.held (hc.wellFormed hw)⟩

theorem step_held {db db' : Db} (h : Change Wording.Step db db' id) (hc : db.Consistent)
    (hw : db.wording id = some v) : ∃ v', db'.wording id = some v' ∧ v.stored ⊆ v'.held := by
  cases h
  case same h => exact ⟨v, h.wording.trans hw, Set.subset_insert ..⟩
  case create h _ => simp [hw] at h
  case step h h' hs =>
    cases hw.symm.trans h
    exact ⟨_, h', hs.stored (hc.wellFormed hw)⟩

section Persist

variable {db : Db} {g : Generation}

theorem persist_create (h : g.regenerateMessageId = none ∨ g.regeneratedContent = none) :
    (persist now rowId g finalText metaJson db).snd = (Messages.create now rowId g.chatId g.branch
      { role := .assistant, content := finalText, metaJson := metaJson } db).snd := by
  rcases h with h | h
  · simp only [persist, h]
    exact Proc.bind_pure_snd
  · cases hm : g.regenerateMessageId
    all_goals
      simp only [persist, h, hm]
      exact Proc.bind_pure_snd

theorem persist_replace (hm : g.regenerateMessageId = some id) (hc : g.regeneratedContent = some c) :
    (persist now rowId g finalText metaJson db).snd =
      (replaceContentAsVariant now rowId id c finalText metaJson db).snd := by
  simp only [persist, hm, hc]
  exact Proc.bind_pure_snd

-- The terminal write creates a message, rewrites one, or leaves the database as it is.
theorem persist_cases (hd : db.Consistent) (now : Int) (rowId : String) (g : Generation)
    (finalText metaJson : String) :
    let db' := (persist now rowId g finalText metaJson db).snd
    ((∀ i c, g.regenerateMessageId = some i → g.regeneratedContent = some c →
        (db.messages.get? i).isSome → (db.messageVariants.get? rowId).isSome) ∧
      Writes Wording.Step.Careful db db') ∨
    ∃ i c w, g.regenerateMessageId = some i ∧ g.regeneratedContent = some c ∧
      db.wording i = some w ∧ db.messageVariants.get? rowId = none ∧
      Regenerates db db' i (w.regenerate c finalText) := by
  intro db'
  cases hm : g.regenerateMessageId
  case none =>
    refine .inl ⟨by simp, ?_⟩
    have he : db' = _ := persist_create (.inl hm)
    exact he ▸ create_writes hd
  case some i =>
    cases hc : g.regeneratedContent
    case none =>
      refine .inl ⟨by simp, ?_⟩
      have he : db' = _ := persist_create (.inr hc)
      exact he ▸ create_writes hd
    case some c =>
      have he : db' = _ := persist_replace hm hc
      cases hg : db.messages.get? i
      case none =>
        rw [he, replaceContentAsVariant_missing hg]
        exact .inl ⟨by simp_all, .refl hd⟩
      case some m =>
        cases hv : db.messageVariants.get? rowId
        case some _ =>
          rw [he, replaceContentAsVariant_taken (by simp [hv])]
          exact .inl ⟨by simp, .refl hd⟩
        case none =>
          have hw := wording_of_get? hg
          rw [he]
          exact .inr ⟨i, c, _, rfl, rfl, hw, rfl, replaceContentAsVariant_regenerates hd hw hv⟩

end Persist

theorem selectTarget_db : (w.selectTarget generationId chatId branch regenerate target).db = w.db := by
  unfold selectTarget
  split
  · rfl
  · split
    · rfl
    · split <;> rfl

-- The terminal event of a stream, if it persists anything.
theorem done_db (w : World) (now : Int) (rowId generationId finalText metaJson : String) :
    (w.done now rowId generationId finalText metaJson).db = w.db ∧
      (w.streaming generationId = none ∨ isBlank finalText) ∨
    ∃ g, w.streaming generationId = some g ∧ isBlank finalText = false ∧
      (w.done now rowId generationId finalText metaJson).db =
        (persist now rowId g finalText metaJson w.db).snd := by
  unfold done
  cases hg : w.streaming generationId
  case none => exact .inl ⟨rfl, .inl rfl⟩
  case some g =>
    cases hb : isBlank finalText
    case true  => exact .inl ⟨rfl, .inr rfl⟩
    case false => exact .inr ⟨g, rfl, rfl, rfl⟩

theorem step_writes (hc : w.db.Consistent) (e : Event) :
    Writes Wording.Step w.db (w.step e).db := by
  have hs : ∀ v v', Wording.Step.Careful v v' → Wording.Step v v' := fun _ _ h => h.step
  cases e
  case create                 => exact (create_writes hc).mono hs
  case update                 => exact (update_writes hc).mono hs
  case restoreContentRevision => exact (restoreContentRevision_writes hc).mono hs
  case setActiveVariant       => exact (setActiveVariant_writes hc).mono hs
  case selectTarget           => rw [step, selectTarget_db]; exact .refl hc
  case captureContent         => exact .refl hc
  case abort                  => exact .refl hc
  case done now rowId generationId finalText metaJson =>
    rw [step]
    rcases done_db w now rowId generationId finalText metaJson with ⟨h, _⟩ | ⟨g, _, _, h⟩
    · rw [h]
      exact .refl hc
    · rw [h]
      rcases persist_cases hc now rowId g finalText metaJson with ⟨_, h⟩ | ⟨_, _, _, _, _, _, _, h⟩
      · exact h.mono hs
      · exact h.writes

-- A step holds the active text exactly if it archives it.
theorem archives_iff (hc : w.db.Consistent) (hw : w.db.wording id = some v) (e : Event) :
    (∃ v', (w.step e).db.wording id = some v' ∧ v.content ∈ v'.held) ↔ w.Archives id e := by
  have careful : Change Wording.Step.Careful w.db (w.step e).db id →
      ∃ v', (w.step e).db.wording id = some v' ∧ v.content ∈ v'.held := by
    intro h
    obtain ⟨v', hv', hh⟩ := careful_held h hc hw
    exact ⟨v', hv', hh (Set.mem_insert ..)⟩
  cases e
  case create                 => exact iff_of_true (careful <| (create_writes hc).change id) trivial
  case update                 => exact iff_of_true (careful <| (update_writes hc).change id) trivial
  case restoreContentRevision =>
    exact iff_of_true (careful <| (restoreContentRevision_writes hc).change id) trivial
  case setActiveVariant       =>
    exact iff_of_true (careful <| (setActiveVariant_writes hc).change id) trivial
  case selectTarget           =>
    refine iff_of_true (careful ?_) trivial
    rw [step, selectTarget_db]
    exact .same (.refl _ _)
  case captureContent         => exact iff_of_true (careful <| .same <| .refl _ _) trivial
  case abort                  => exact iff_of_true (careful <| .same <| .refl _ _) trivial
  case done now rowId generationId finalText metaJson =>
    rcases done_db w now rowId generationId finalText metaJson with ⟨h, hn⟩ | ⟨g, hg, hb, h⟩
    case inl =>
      refine iff_of_true (careful ?_) fun g m c hg _ _ hb => ?_
      · rw [step, h]
        exact .same (.refl _ _)
      · simp [hg, hb] at hn
    case inr =>
      rcases persist_cases hc now rowId g finalText metaJson with
        ⟨hno, hwr⟩ | ⟨i, c, u, hi, hct, hu, hv, hr⟩
      case inl =>
        refine iff_of_true (careful ?_) fun g' m c hg' hi hct _ hm hv => ?_
        · rw [step, h]
          exact hwr.change id
        · cases hg.symm.trans hg'
          have := hno id c hi hct (by simp [hm])
          simp [hv] at this
      case inr =>
        by_cases hii : i = id
        case neg =>
          refine iff_of_true (careful ?_) fun g' m c hg' hi' _ _ _ _ => ?_
          · rw [step, h]
            exact .same (hr.others id (Ne.symm hii))
          · cases hg.symm.trans hg'
            exact absurd (Option.some.inj <| hi.symm.trans hi') hii
        case pos =>
          subst hii
          cases hw.symm.trans hu
          obtain ⟨m, hm, he⟩ := Option.map_eq_some_iff.mp hw
          have hcontent : m.content = v.content := he ▸ rfl
          have key : v.content ∈ (v.regenerate c finalText).held ↔ _ :=
            Wording.regenerate_content (hc.wellFormed hw)
          rw [mem_stored hw] at key
          rw [step, h, hr.wording]
          simp only [Option.some.injEq, exists_eq_left', key]
          constructor
          case mp =>
            intro hk g' m' c' hg' hi' hc' _ hm' _
            cases hg.symm.trans hg'
            cases hm.symm.trans hm'
            cases hct.symm.trans hc'
            exact hcontent ▸ hk
          case mpr =>
            intro ha
            exact hcontent ▸ ha g m c hg hi hct hb hm hv

-- The message as an archive of its texts.
def archive (id : String) : Archive World Event String where
  Inv      := (·.db.Consistent)
  step     := step
  current  := current id
  stored   := stored id
  inv_step := fun e h => (step_writes h e).consistent
  keeps    := by
    rintro w e hc text ⟨v, hw, ht⟩
    have ⟨v', hw', hs⟩ := step_held ((step_writes hc e).change id) hc hw
    exact (mem_held hw').mpr (hs ht)

theorem start_consistent (characters chats chatBranches) :
    (start characters chats chatBranches).db.Consistent where
  variants         := fun _ h => nomatch h
  contentRevisions := fun _ h => nomatch h
  wellFormed       := fun h => nomatch h

-- What no run may break for a message.
structure Preserves (w : World) (id : String) (es : List Event) : Prop where
  kept : ∀ pre mid post m, es = pre ++ mid ++ post → (w.run pre).db.messages.get? id = some m →
    ∃ m', (w.run (pre ++ mid)).db.messages.get? id = some m' ∧
      (m.content = m'.content ∨ m.content ∈ (w.run (pre ++ mid)).db.archived id)
  variants : ∀ pre post m, es = pre ++ post → (w.run pre).db.messages.get? id = some m →
    ∃ a < m.variantCount, m.activeVariantPosition = some a ∧
      ((ofMessage (w.run pre).db.messageVariants id).map (·.position)).Perm
        ((List.range m.variantCount).erase a)
  contentRevisions : ∀ pre post m, es = pre ++ post → (w.run pre).db.messages.get? id = some m →
    ((ofMessage (w.run pre).db.messageContentRevisions id).map (·.position)).Perm
      (List.range m.contentRevisionCount)
  revision : ∀ pre e post m m', es = pre ++ e :: post →
    (w.run pre).db.messages.get? id = some m → (w.run (pre ++ [e])).db.messages.get? id = some m' →
    (w.run (pre ++ [e])).db.entry id = (w.run pre).db.entry id ∨ m.revision < m'.revision

section Run

variable {es : List Event}

theorem run_consistent (hc : w.db.Consistent) (es : List Event) : (w.run es).db.Consistent :=
  (archive "").inv_after hc es

-- Distinct rows of a message stand at distinct positions.
theorem positions_nodup {t : ArchivedTable} : ((ofMessage t id).map (·.position)).Nodup := by
  refine List.Nodup.map_on ?_ <| (List.Nodup.of_map _ t.nodup).filter _
  intro r hr r' hr' hp
  have ⟨hm, hi⟩ := mem_ofMessage.mp hr
  have ⟨hm', hi'⟩ := mem_ofMessage.mp hr'
  refine IndexedTable.eq_of_index_eq hm hm' rfl ?_
  rw [ArchivedRow.index, hi, hi', hp]

theorem variants_perm {db : Db} (hc : db.Consistent) (hm : db.messages.get? id = some m) :
    ∃ a < m.variantCount, m.activeVariantPosition = some a ∧
      ((ofMessage db.messageVariants id).map (·.position)).Perm
        ((List.range m.variantCount).erase a) := by
  have hw := hc.wellFormed (wording_of_get? hm)
  have ⟨a, ha, he⟩ := hw.active
  refine ⟨a, ha, he, ?_⟩
  rw [List.perm_ext_iff_of_nodup positions_nodup (List.nodup_range.erase a)]
  intro p
  have hv := hw.variants p
  simp only [wordingOf] at he hv
  rw [isSome_textAt_iff, he] at hv
  rw [hv, List.nodup_range.mem_erase_iff, List.mem_range]
  simp only [ne_eq, Option.some.injEq]
  exact and_comm.trans <| and_congr_left' <| not_congr eq_comm

theorem contentRevisions_perm {db : Db} (hc : db.Consistent) (hm : db.messages.get? id = some m) :
    ((ofMessage db.messageContentRevisions id).map (·.position)).Perm
      (List.range m.contentRevisionCount) := by
  have hw := hc.wellFormed (wording_of_get? hm)
  rw [List.perm_ext_iff_of_nodup positions_nodup List.nodup_range]
  intro p
  rw [← isSome_textAt_iff, List.mem_range]
  exact hw.contentRevisions p

theorem step_revision (hc : w.db.Consistent) (hm : w.db.messages.get? id = some m)
    (hm' : (w.step e).db.messages.get? id = some m') :
    (w.step e).db.entry id = w.db.entry id ∨ m.revision < m'.revision := by
  cases (step_writes hc e).change id
  case same h => exact .inl <| by rw [entry, h.row, h.variants, h.contentRevisions, entry]
  case create h _ =>
    rw [wording_of_get? hm] at h
    contradiction
  case step h h' hs =>
    rw [wording_of_get? hm] at h
    rw [wording_of_get? hm'] at h'
    cases h
    cases h'
    have : m'.revision = m.revision + 1 := hs.revision
    exact .inr <| by omega

theorem mem_current : text ∈ current id w ↔
    ∃ m, w.db.messages.get? id = some m ∧ m.content = text := by
  simp [current, wording, wordingOf]

theorem mem_held_iff : text ∈ (archive id).held w ↔ ∃ m, w.db.messages.get? id = some m ∧
    (text = m.content ∨ text ∈ w.db.archived id) := by
  constructor
  case mp =>
    rintro (hcur | ⟨v, hv, ht⟩)
    · have ⟨m, hm, he⟩ := mem_current.mp hcur
      exact ⟨m, hm, .inl he.symm⟩
    · have ⟨m, hm, _⟩ := Option.map_eq_some_iff.mp hv
      exact ⟨m, hm, .inr <| (mem_stored hv).mp ht⟩
  case mpr =>
    rintro ⟨m, hm, rfl | ht⟩
    · exact .inl <| mem_current.mpr ⟨m, hm, rfl⟩
    · have hw := wording_of_get? hm
      exact .inr ⟨_, hw, (mem_stored hw).mpr ht⟩

theorem current_subset_iff (hc : w.db.Consistent) :
    current id w ⊆ (archive id).held (w.step e) ↔ w.Archives id e := by
  cases hw : w.db.wording id
  case none =>
    refine iff_of_true (fun text h => by
      obtain ⟨v, hv, _⟩ := h
      simp [hw] at hv) ?_
    rw [wording_eq_none_iff] at hw
    cases e
    case done => exact fun _ m _ _ _ _ _ hm => by simp [hw] at hm
    all_goals exact trivial
  case some v =>
    rw [← archives_iff hc hw e]
    constructor
    case mp =>
      intro h
      have hh := h ⟨v, hw, rfl⟩
      obtain ⟨v', hv'⟩ : ∃ v', (w.step e).db.wording id = some v' := by
        rcases hh with ⟨v', hv', _⟩ | ⟨v', hv', _⟩
        all_goals exact ⟨v', hv'⟩
      exact ⟨v', hv', (mem_held hv').mp hh⟩
    case mpr =>
      rintro ⟨v', hv', hh⟩ text ⟨u, hu, rfl⟩
      cases hw.symm.trans hu
      exact (mem_held hv').mpr hh

end Run

-- Nothing that a message ever said is lost exactly if every regeneration archives what the message
-- says when it is rewritten. The numbering of its archive and its revisions are sound in any case.
theorem preserves_iff_archives (characters : Table String CharacterRow (·.id))
    (chats : Table String ChatRow (·.id)) (chatBranches : Table String BranchRow (·.id))
    (id : String) (es : List Event) :
    (start characters chats chatBranches).Preserves id es ↔ ∀ pre e post, es = pre ++ e :: post →
      ((start characters chats chatBranches).run pre).Archives id e := by
  have hs := start_consistent characters chats chatBranches
  have hi : (archive id).Kept _ es ↔ (archive id).Archives _ es := (archive id).kept_iff_archives hs
  constructor
  case mp =>
    intro h pre e post he
    have hk : (archive id).Kept (start characters chats chatBranches) es := by
      intro pre mid post he text hc
      have ⟨m, hm, ht⟩ := mem_current.mp hc
      exact mem_held_iff.mpr <| ht ▸ h.kept pre mid post m he hm
    exact (current_subset_iff <| run_consistent hs pre).mp <| hi.mp hk pre e post he
  case mpr =>
    intro h
    have ha : (archive id).Archives (start characters chats chatBranches) es :=
      fun pre e post he => (current_subset_iff <| run_consistent hs pre).mpr <| h pre e post he
    constructor
    case kept =>
      intro pre mid post m he hm
      exact mem_held_iff.mp <| hi.mpr ha pre mid post he <| mem_current.mpr ⟨m, hm, rfl⟩
    case variants =>
      exact fun pre _ _ _ hm => variants_perm (run_consistent hs pre) hm
    case contentRevisions =>
      exact fun pre _ _ _ hm => contentRevisions_perm (run_consistent hs pre) hm
    case revision =>
      intro pre e post m m' _ hm hm'
      have hr : (start characters chats chatBranches).run (pre ++ [e]) =
        ((start characters chats chatBranches).run pre).step e := by simp [run]
      rw [hr] at hm' ⊢
      exact step_revision (run_consistent hs pre) hm hm'

namespace Sample

def chats : Table String ChatRow (·.id) where
  rows  := [⟨"chat", none⟩]
  nodup := by decide

def chatBranches : Table String BranchRow (·.id) where
  rows  := [⟨"main", "chat"⟩]
  nodup := by decide

-- A reply is edited while its regeneration streams.
def edited : List Event := [
  .create 0 "reply" "chat" "main" { role := .assistant, content := "first" },
  .selectTarget "generation" "chat" "main" true none,
  .captureContent "generation",
  .update 1 "revision" "reply" { content := some "edited" } none
]

def regenerated : Event :=
  .done 2 "variant" "generation" "second" "\x7b\x7d"

end Sample

-- The regeneration archives the first text, which the edit has already archived, and drops the
-- edited one.
theorem edited_text_lost : ¬(start .empty Sample.chats Sample.chatBranches).Preserves "reply"
    (Sample.edited ++ [Sample.regenerated]) := by
  intro h
  let w := start .empty Sample.chats Sample.chatBranches
  have hm : ((w.run Sample.edited).db.messages.get? "reply").map (·.content) = some "edited" := by
    decide +kernel
  have hn : ((w.run (Sample.edited ++ [Sample.regenerated])).db.messages.get? "reply").map
      (·.content) = some "second" := by decide +kernel
  have ha : "edited" ∉ (w.run (Sample.edited ++ [Sample.regenerated])).db.archived "reply" := by
    decide +kernel
  have ⟨m, hm, hc⟩ := Option.map_eq_some_iff.mp hm
  have ⟨m', hm', he⟩ := h.kept Sample.edited [Sample.regenerated] [] m rfl hm
  have hc' : m'.content = "second" := by simpa [w, hm'] using hn
  rw [hc, hc'] at he
  rcases he with he | he
  · exact absurd he (by decide)
  · exact ha he

end World
end Messages
