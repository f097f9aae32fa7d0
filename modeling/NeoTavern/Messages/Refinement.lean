import NeoTavern.Messages.Repository
import NeoTavern.Messages.Wording

namespace Messages

open Proc

namespace ArchivedTable

def ofMessage (t : ArchivedTable) (id : String) : List ArchivedRow :=
  t.rows.filter (·.messageId = id)

-- The text at a position of a message.
def textAt (t : ArchivedTable) (id : String) (p : Nat) : Option String :=
  (t.lookup? (id, p)).map (·.content)

variable {t t' : ArchivedTable} {id : String}

theorem mem_ofMessage : r ∈ ofMessage t id ↔ r ∈ t ∧ r.messageId = id := by
  simp [ofMessage, IndexedTable.mem_def]

theorem textAt_eq_some_iff :
    textAt t id p = some text ↔ ∃ r ∈ ofMessage t id, r.position = p ∧ r.content = text := by
  simp only [textAt, Option.map_eq_some_iff, IndexedTable.lookup?_eq_some_iff, mem_ofMessage,
    ArchivedRow.index, Option.some.injEq, Prod.mk.injEq, and_assoc]

theorem isSome_textAt_iff :
    (textAt t id p).isSome ↔ p ∈ (ofMessage t id).map (·.position) := by
  simp [Option.isSome_iff_exists, textAt_eq_some_iff]

theorem textAt_congr (h : ofMessage t' id = ofMessage t id) : textAt t' id = textAt t id := by
  funext p
  ext text
  rw [textAt_eq_some_iff, textAt_eq_some_iff, h]

theorem ofMessage_insert? (h : t.insert? r = some t') (hi : r.messageId ≠ id) :
    ofMessage t' id = ofMessage t id := by
  simp [ofMessage, IndexedTable.insert?_rows h, hi]

theorem textAt_insert? (h : t.insert? r = some t') :
    textAt t' r.messageId =
      Function.update (textAt t r.messageId) r.position (some r.content) := by
  funext p
  rw [textAt, IndexedTable.lookup?_insert? h]
  by_cases hp : p = r.position
  case pos => simp [hp, ArchivedRow.index]
  case neg => simp [ArchivedRow.index, textAt, Function.update_of_ne hp, Ne.symm hp]

-- A row is deleted by its id, which no other row has.
theorem delete_eq (h : r ∈ t) (hr : r' ∈ t) : (r'.id = r.id) ↔ r' = r :=
  ⟨Table.eq_of_mem_of_key_eq hr h, fun he => he ▸ rfl⟩

theorem ofMessage_delete (h : r ∈ t) (hi : r.messageId ≠ id) :
    ofMessage (t.delete (·.id = r.id)) id = ofMessage t id := by
  simp only [ofMessage, IndexedTable.delete, Table.delete_rows, List.filter_filter]
  refine List.filter_congr fun r' hr' => ?_
  by_cases he : r' = r
  case pos => simp [he, hi]
  case neg => simp [(delete_eq h hr').not.mpr he]

theorem textAt_delete (h : r ∈ t) :
    textAt (t.delete (·.id = r.id)) r.messageId =
      Function.update (textAt t r.messageId) r.position none := by
  funext p
  rw [textAt, IndexedTable.lookup?_delete]
  by_cases hp : p = r.position
  case pos =>
    subst hp
    have hl : t.lookup? (r.messageId, r.position) = some r :=
      IndexedTable.lookup?_eq_some_iff.mpr ⟨h, rfl⟩
    rw [hl, Function.update_self]
    simp [Option.filter]
  case neg =>
    rw [Function.update_of_ne hp, textAt]
    cases hl : t.lookup? (r.messageId, p)
    case none => rfl
    case some r' =>
      have ⟨hm, hi⟩ := IndexedTable.lookup?_eq_some_iff.mp hl
      have hn : r'.id ≠ r.id := by
        intro he
        rw [(delete_eq h hm).mp he] at hi
        simp [ArchivedRow.index, Ne.symm hp] at hi
      simp [Option.filter, hn]

end ArchivedTable

namespace Db

open ArchivedTable

variable {id : String}

def wordingOf (m : MessageRow) (variants contentRevisions : Nat → Option String) : Wording where
  content              := m.content
  active               := m.activeVariantPosition
  variantCount         := m.variantCount
  variants             := variants
  contentRevisionCount := m.contentRevisionCount
  contentRevisions     := contentRevisions
  revision             := m.revision

def wording (db : Db) (id : String) : Option Wording :=
  (db.messages.get? id).map fun m =>
    wordingOf m (textAt db.messageVariants id) (textAt db.messageContentRevisions id)

-- The rows of a message are the same in both databases.
structure Same (db db' : Db) (id : String) : Prop where
  row              : db'.messages.get? id = db.messages.get? id
  variants         : ofMessage db'.messageVariants id = ofMessage db.messageVariants id
  contentRevisions :
    ofMessage db'.messageContentRevisions id = ofMessage db.messageContentRevisions id

theorem Same.refl (db : Db) (id : String) : Same db db id :=
  ⟨rfl, rfl, rfl⟩

theorem Same.wording (h : Same db db' id) : db'.wording id = db.wording id := by
  simp only [Db.wording, h.row, textAt_congr h.variants, textAt_congr h.contentRevisions]

-- What a transaction did to a message: nothing, its creation, or a step that `S` allows.
inductive Change (S : Wording → Wording → Prop) (db db' : Db) (id : String) : Prop
  | same (h : Same db db' id)
  | create (h : db.wording id = none) (h' : db'.wording id = some (.fresh text))
  | step (h : db.wording id = some w) (h' : db'.wording id = some w') (hs : S w w')

-- What foreign keys and the writers see to.
structure Consistent (db : Db) : Prop where
  variants         : ∀ v ∈ db.messageVariants, (db.messages.get? v.messageId).isSome
  contentRevisions : ∀ r ∈ db.messageContentRevisions, (db.messages.get? r.messageId).isSome
  wellFormed       : ∀ {id w}, db.wording id = some w → w.WellFormed

theorem wording_of_get? {db : Db} (h : db.messages.get? id = some m) : db.wording id =
    some (wordingOf m (textAt db.messageVariants id) (textAt db.messageContentRevisions id)) := by
  simp [wording, h]

theorem wording_eq_none_iff {db : Db} : db.wording id = none ↔ db.messages.get? id = none := by
  simp [wording]

-- A database that comes from another by one transaction.
structure Writes (S : Wording → Wording → Prop) (db db' : Db) : Prop where
  change     : ∀ id, Change S db db' id
  consistent : db'.Consistent

variable {S S' : Wording → Wording → Prop} {db db' : Db}

theorem Writes.refl (h : db.Consistent) : Writes S db db :=
  ⟨fun id => .same <| .refl db id, h⟩

theorem Writes.mono (h : Writes S db db') (hs : ∀ w w', S w w' → S' w w') : Writes S' db db' := by
  refine ⟨fun id => ?_, h.consistent⟩
  cases h.change id
  case same h        => exact .same h
  case create h h'   => exact .create h h'
  case step h h' hst => exact .step h h' (hs _ _ hst)

theorem Change.wellFormed (h : Change S db db' id) (hc : db.Consistent)
    (hs : ∀ w w', S w w' → Wording.Step w w') (hw : db'.wording id = some w') : w'.WellFormed := by
  cases h
  case same h => exact hc.wellFormed (h.wording ▸ hw)
  case create h' =>
    rw [h'] at hw
    exact Option.some.inj hw ▸ .fresh _
  case step h h' hst =>
    rw [h'] at hw
    exact Option.some.inj hw ▸ (hc.wellFormed h).step (hs _ _ hst)

-- The transaction may touch characters on the way.
theorem Writes.characters (h : Writes S db db') : Writes S db { db' with characters := t } := by
  refine ⟨fun id => ?_, h.consistent.variants, h.consistent.contentRevisions,
    h.consistent.wellFormed⟩
  cases h.change id
  case same h       => exact .same ⟨h.row, h.variants, h.contentRevisions⟩
  case create h h'  => exact .create h h'
  case step h h' hs => exact .step h h' hs

-- Before a message is there, no row belongs to it.
theorem textAt_none {t : ArchivedTable} (h : ∀ r ∈ t, (db.messages.get? r.messageId).isSome)
    (hn : db.messages.get? id = none) : textAt t id = fun _ => none := by
  funext p
  by_contra hne
  have ⟨text, ht⟩ := Option.ne_none_iff_exists'.mp hne
  have ⟨r, hr, _⟩ := textAt_eq_some_iff.mp ht
  have ⟨hm, hi⟩ := mem_ofMessage.mp hr
  have := h r hm
  simp [hi, hn] at this

-- The row of one message is replaced and rows that belong to it come and go.
structure Rewrites (db db' : Db) (m m' : MessageRow) : Prop where
  row    : db.messages.get? m.id = some m
  row'   : db'.messages.get? m.id = some m'
  others : ∀ i ≠ m.id, Same db db' i

namespace Rewrites

variable {m m' : MessageRow}

theorem isSome (h : Rewrites db db' m m') (hi : (db.messages.get? id).isSome) :
    (db'.messages.get? id).isSome := by
  by_cases he : id = m.id
  case pos => simp [he, h.row']
  case neg => rwa [(h.others id he).row]

-- A row that belongs to another message was there before.
theorem owned (h : Rewrites db db' m m') {t t' : ArchivedTable}
    (ht : ∀ i ≠ m.id, ofMessage t' i = ofMessage t i)
    (ho : ∀ r ∈ t, (db.messages.get? r.messageId).isSome) (hr : r ∈ t') :
    (db'.messages.get? r.messageId).isSome := by
  by_cases he : r.messageId = m.id
  case pos => simp [he, h.row']
  case neg =>
    have hm : r ∈ ofMessage t' r.messageId := mem_ofMessage.mpr ⟨hr, rfl⟩
    rw [ht _ he] at hm
    exact h.isSome <| ho r (mem_ofMessage.mp hm).left

theorem writes (h : Rewrites db db' m m') (hc : db.Consistent)
    (hw : db.wording m.id = some w) (hw' : db'.wording m.id = some w') (hs : S w w')
    (hS : ∀ w w', S w w' → Wording.Step w w') : Writes S db db' := by
  have hch : ∀ i, Change S db db' i := by
    intro i
    by_cases hi : i = m.id
    case pos => exact hi ▸ .step hw hw' hs
    case neg => exact .same (h.others i hi)
  refine ⟨hch, ?_, ?_, fun hi => (hch _).wellFormed hc hS hi⟩
  · exact fun v hv => h.owned (fun i hi => (h.others i hi).variants) hc.variants hv
  · exact fun r hr => h.owned (fun i hi => (h.others i hi).contentRevisions) hc.contentRevisions hr

end Rewrites
end Db

namespace Tx

open Db ArchivedTable

variable {db : Db} {id : String}

-- A statement that fails rolls its transaction back, so only success counts.
abbrev Ensures (p : Tx α) (Q : α → Db → Prop) (db : Db) : Prop :=
  wp p Q (fun _ _ => True) db

theorem transaction_wp {p : Tx α} {R : Db → Prop} (h : wp p (fun _ => R) (fun _ _ => R db) db) :
    R (transaction p db).snd := by
  unfold wp at h
  unfold transaction
  split at h <;> simp_all

theorem transaction_final {p : Tx α} {R : Db → Prop} (h : Ensures p (fun _ => R) db) (hr : R db) :
    R (transaction p db).snd :=
  transaction_wp <| wp_mono h (fun _ _ h => h) (fun _ _ _ => hr)

theorem wp_insertRow {table : Db → Option τ} {Q : Unit → Db → Prop}
    (h : ∀ t, table db = some t → references db → Q () (put t db))
    (unique : table db = none → E .unique db) (foreignKey : references db = false → E .foreignKey db) :
    wp (insertRow table references put) Q E db := by
  unfold wp insertRow
  cases ht : table db
  case none => exact unique ht
  case some t =>
    cases hr : references db
    case false => exact foreignKey hr
    case true  => exact h t ht hr

theorem wp_selectMessage {Q : Option MessageRow → Db → Prop} {revision : Option Nat}
    (none : Q none db)
    (some : ∀ m, db.messages.get? id = some m → m.id = id → revision.all (m.revision = ·) →
      Q (some m) db) :
    wp (selectMessage id revision) Q E db := by
  rw [selectMessage, wp_gets]
  cases hm : db.messages.get? id
  case none => exact none
  case some m =>
    cases hr : revision.all (m.revision = ·)
    case false => simpa [Option.filter, hr] using none
    case true  => simpa [Option.filter, hr] using some m hm (Table.get?_key_eq hm) hr

theorem wp_selectMessage_of {Q : Option MessageRow → Db → Prop} {revision : Option Nat}
    (hm : db.messages.get? id = some m) (hr : revision.all (m.revision = ·)) (h : Q (some m) db) :
    wp (selectMessage id revision) Q E db := by
  rw [selectMessage, wp_gets]
  simpa [hm, Option.filter, hr] using h

theorem wp_missed {Q : MessageUpdateResult → Db → Prop} (h : ∀ r, Q r db) :
    wp (missed id revision) Q E db := by
  unfold missed
  rw [wp_bind]
  apply wp_selectMessage
  · exact h .missing
  · intro m _ _ _
    cases revision
    case none   => exact h .missing
    case some _ => exact h <| .conflict m.revision

theorem wp_deleteVariant {Q : Unit → Db → Prop}
    (h : Q () { db with messageVariants := db.messageVariants.delete (·.id = id) }) :
    wp (deleteVariant id) Q E db :=
  h

-- An update by id, and by a revision that the row has, hits the row.
theorem wp_updateMessage {Q : Option MessageRow → Db → Prop} {set : MessageRow → MessageRow} {hs hi}
    {revision : Option Nat} (hm : db.messages.get? id = some m)
    (hr : revision.all (m.revision = ·))
    (h : ∀ t, t.get? id = some (set m) → (∀ i ≠ id, t.get? i = db.messages.get? i) →
      Q (some (set m)) { db with messages := t }) :
    wp (updateMessage id revision set hs hi) Q E db := by
  simp only [updateMessage, wp_bind, wp_modify, wp_pure]
  apply wp_selectMessage_of hm hr
  have hi := Table.get?_key_eq hm
  apply h
  · rw [IndexedTable.get?_update, hm]
    simp [hi, hr]
  · intro i hne
    rw [IndexedTable.get?_update]
    cases hg : db.messages.get? i
    case none => rfl
    case some m' => simp [Table.get?_key_eq hg, hne]

end Tx

section Operations

open Tx Db ArchivedTable

variable {db : Db} {id : String} {m m' : MessageRow}
variable {mt : IndexedTable String (String × String) MessageRow (·.id) MessageRow.index}
variable {vt rt : ArchivedTable}

-- The row of a message changes and nothing else.
theorem touch_writes (hc : db.Consistent) (hm : db.messages.get? m.id = some m)
    (hm' : mt.get? m.id = some m') (ho : ∀ i ≠ m.id, mt.get? i = db.messages.get? i)
    (hw : ∀ v r, wordingOf m' v r = (wordingOf m v r).touch) :
    Writes Wording.Step.Careful db { db with messages := mt } := by
  have hr : Rewrites db { db with messages := mt } m m' := ⟨hm, hm', fun i hi => ⟨ho i hi, rfl, rfl⟩⟩
  refine hr.writes hc (wording_of_get? hm) (wording_of_get? hm') ?_ fun _ _ => Wording.Step.Careful.step
  rw [hw]
  exact .touch

-- The row of an edit archives the text that it replaces.
theorem edit_writes (hc : db.Consistent) (hm : db.messages.get? m.id = some m)
    (hm' : mt.get? m.id = some m') (ho : ∀ i ≠ m.id, mt.get? i = db.messages.get? i)
    (hr : db.messageContentRevisions.insert? (m.archived revisionId) = some rt)
    (hw : ∀ v r, wordingOf m' v (Function.update r m.contentRevisionCount (some m.content)) =
      (wordingOf m v r).edit m'.content) :
    Writes Wording.Step.Careful db { db with messages := mt, messageContentRevisions := rt } := by
  have hrw : Rewrites db { db with messages := mt, messageContentRevisions := rt } m m' :=
    ⟨hm, hm', fun i hi => ⟨ho i hi, rfl, ofMessage_insert? hr hi.symm⟩⟩
  refine hrw.writes hc (wording_of_get? hm) (wording_of_get? hm') ?_ fun _ _ => Wording.Step.Careful.step
  have ht : textAt rt m.id = _ := textAt_insert? hr
  simp only [ht]
  exact hw _ _ ▸ .edit

-- A swipe puts the text at the active position before it deletes the row of the variant that it
-- activates.
theorem swipe_writes (hc : db.Consistent) (hm : db.messages.get? m.id = some m)
    (hm' : mt.get? m.id = some m') (ho : ∀ i ≠ m.id, mt.get? i = db.messages.get? i)
    (hl : db.messageVariants.lookup? (m.id, position) = some variant)
    (hv : db.messageVariants.insert? (m.variant now variantId m.content) = some vt)
    (hw : ∀ v r, wordingOf m' (Function.update
      (Function.update v (m.activeVariantPosition.getD 0) (some m.content)) position none) r =
      (wordingOf m v r).swipe position variant.content) :
    Writes Wording.Step.Careful db
      { db with messages := mt, messageVariants := vt.delete (·.id = variant.id) } := by
  have ⟨hvm, hvi⟩ := IndexedTable.lookup?_eq_some_iff.mp hl
  simp only [ArchivedRow.index, Option.some.injEq, Prod.mk.injEq] at hvi
  have ⟨hvi, hvp⟩ := hvi
  have hmem : variant ∈ vt := IndexedTable.mem_insert? hv |>.mpr (.inl hvm)
  have hrw : Rewrites db
      { db with messages := mt, messageVariants := vt.delete (·.id = variant.id) } m m' := by
    refine ⟨hm, hm', fun i hi => ⟨ho i hi, ?_, rfl⟩⟩
    rw [ofMessage_delete hmem (hvi ▸ hi.symm)]
    exact ofMessage_insert? hv hi.symm
  refine hrw.writes hc (wording_of_get? hm) (wording_of_get? hm') ?_
    fun _ _ => Wording.Step.Careful.step
  have hins : textAt vt m.id = _ := textAt_insert? hv
  have hdel := textAt_delete hmem
  rw [hvi, hvp, hins] at hdel
  simp only [hdel]
  refine hw _ _ ▸ .swipe ?_
  simp [wordingOf, textAt, hl]

theorem update_writes (hc : db.Consistent) :
    Writes Wording.Step.Careful db (update now revisionId id patch expectedRevision true db).snd := by
  apply transaction_final _ (.refl hc)
  simp only [Ensures, wp_bind]
  apply wp_selectMessage
  case none =>
    exact wp_missed fun _ => .refl hc
  case some =>
    intro m hm hi _
    subst hi
    simp only [Bool.and_true, wp_bind, wp_ite]
    constructor
    case left =>
      intro ht
      apply wp_insertRow _ (fun _ => trivial) (fun _ => trivial)
      intro rt hr _
      apply wp_updateMessage (m := m)
      case hm => exact hm
      case hr => simp
      intro mt hm' ho
      refine edit_writes hc hm hm' ho hr fun v r => ?_
      simp only [wordingOf, Wording.edit, Bool.and_true, if_pos ht]
    case right =>
      intro ht
      apply wp_updateMessage (m := m)
      case hm => exact hm
      case hr => simp
      intro mt hm' ho
      refine touch_writes hc hm hm' ho fun v r => ?_
      have hc' : patch.content.getD m.content = m.content := by
        cases hp : patch.content
        case none   => rfl
        case some t => simpa [hp] using ht
      simp only [wordingOf, Wording.touch, hc', Bool.and_true, if_neg ht]

theorem restoreContentRevision_writes (hc : db.Consistent) :
    Writes Wording.Step.Careful db
      (restoreContentRevision now newRevisionId id revisionId expectedRevision db).snd := by
  apply transaction_final _ (.refl hc)
  simp only [Ensures, wp_bind]
  apply wp_selectMessage
  case none =>
    exact wp_missed fun _ => .refl hc
  case some =>
    intro m hm hi _
    subst hi
    simp only [wp_bind, wp_gets]
    split
    case h_1 => exact .refl hc
    case h_2 selected _ =>
      rw [wp_ite]
      constructor
      case left  => exact fun _ => .refl hc
      case right =>
        intro _
        simp only [wp_bind]
        apply wp_insertRow _ (fun _ => trivial) (fun _ => trivial)
        intro rt hr _
        apply wp_updateMessage (m := m)
        case hm => exact hm
        case hr => simp
        intro mt hm' ho
        exact edit_writes hc hm hm' ho hr fun v r => rfl

theorem setActiveVariant_writes (hc : db.Consistent) :
    Writes Wording.Step.Careful db
      (setActiveVariant now variantId id position expectedRevision db).snd := by
  apply transaction_final _ (.refl hc)
  simp only [Ensures, wp_bind]
  apply wp_selectMessage
  case none =>
    exact wp_missed fun _ => .refl hc
  case some =>
    intro m hm hi _
    subst hi
    simp only [wp_bind, wp_gets]
    split
    case h_1 => exact .refl hc
    case h_2 variant hl =>
      simp only [wp_bind]
      apply wp_insertRow _ (fun _ => trivial) (fun _ => trivial)
      intro vt hv _
      apply wp_updateMessage (m := m)
      case hm => exact hm
      case hr => simp
      intro mt hm' ho
      apply wp_deleteVariant
      rw [wp_pure]
      exact swipe_writes hc hm hm' ho hl hv fun _ _ => rfl

theorem insert_writes (hc : db.Consistent)
    (ht : db.messages.insert? (newMessage now id chatId branchId input) = some mt) :
    Writes Wording.Step.Careful db { db with messages := mt } := by
  have hn : db.messages.get? id = none := IndexedTable.insert?_fresh ht
  have hg : ∀ i, mt.get? i = if id = i then some (newMessage now id chatId branchId input)
      else db.messages.get? i := IndexedTable.get?_insert? ht
  have hch : ∀ i, Change Wording.Step.Careful db { db with messages := mt } i := by
    intro i
    by_cases hi : id = i
    case neg => exact .same ⟨(hg i).trans (if_neg hi), rfl, rfl⟩
    case pos =>
      subst hi
      have hw : ({ db with messages := mt } : Db).wording id = some _ :=
        wording_of_get? <| (hg id).trans (if_pos rfl)
      simp only [textAt_none hc.variants hn, textAt_none hc.contentRevisions hn] at hw
      exact .create (wording_eq_none_iff.mpr hn) hw
  have hs : ∀ i, (db.messages.get? i).isSome → (mt.get? i).isSome := by
    intro i hi
    rw [hg]
    split
    · rfl
    · exact hi
  exact ⟨hch, fun v hv => hs _ <| hc.variants v hv, fun r hr => hs _ <| hc.contentRevisions r hr,
    fun hi => (hch _).wellFormed hc (fun _ _ => Wording.Step.Careful.step) hi⟩

-- What a create leaves behind if it succeeds: a fresh message, or the one of an earlier request.
theorem insertOrReplay_writes (hc : db.Consistent) :
    Ensures (insertOrReplay (newMessage now id chatId branchId input))
      (fun _ => Writes Wording.Step.Careful db) db := by
  unfold insertOrReplay
  simp only [Ensures, wp_bind, wp_attempt]
  have hreplay : ∀ e, wp (do
      if (newMessage now id chatId branchId input).idempotencyKey.any (· ≠ "") ∧ e = .unique then
        replayed chatId (newMessage now id chatId branchId input).idempotencyKey
      else
        Proc.fail e) (fun _ => Writes Wording.Step.Careful db) (fun _ _ => True) db := by
    intro e
    rw [wp_ite]
    constructor
    case right => exact fun _ => trivial
    case left =>
      intro _
      simp only [replayed, wp_bind, wp_gets]
      split
      · trivial
      · exact .refl hc
  apply wp_insertRow _ (fun _ => hreplay _) (fun _ => hreplay _)
  intro t ht _
  exact insert_writes hc ht

theorem create_writes (hc : db.Consistent) :
    Writes Wording.Step.Careful db (create now id chatId branchId input db).snd := by
  apply transaction_final _ (.refl hc)
  simp only [Ensures, wp_bind]
  apply wp_mono (insertOrReplay_writes hc) _ (fun _ _ _ => trivial)
  intro row db' h
  exact h.characters

section Regenerate

variable {variantId archiveContent content metaJson : String} {now : Int}

-- A regeneration of a message that is gone, or with an id that is taken, changes nothing.
theorem replaceContentAsVariant_missing (hm : db.messages.get? id = none) :
    (replaceContentAsVariant now variantId id archiveContent content metaJson db).snd = db := by
  apply transaction_wp (R := (· = db))
  simp only [wp_bind]
  apply wp_selectMessage
  case none => rfl
  case some =>
    intro m hm' _ _
    simp [hm] at hm'

theorem replaceContentAsVariant_taken (hv : (db.messageVariants.get? variantId).isSome) :
    (replaceContentAsVariant now variantId id archiveContent content metaJson db).snd = db := by
  apply transaction_wp (R := (· = db))
  simp only [wp_bind]
  apply wp_selectMessage
  case none => rfl
  case some =>
    intro m hm hi _
    simp only [wp_bind]
    apply wp_insertRow _ (fun _ => trivial) (fun _ => trivial)
    intro vt ht _
    have hf : db.messageVariants.get? variantId = none := IndexedTable.insert?_fresh ht
    simp [hf] at hv

-- What a regeneration does when its insert goes through.
structure Regenerates (db db' : Db) (id : String) (w : Wording) : Prop where
  writes  : Writes Wording.Step db db'
  wording : db'.wording id = some w
  others  : ∀ i ≠ id, Same db db' i

theorem replaceContentAsVariant_regenerates (hc : db.Consistent) (hw : db.wording id = some w)
    (hv : db.messageVariants.get? variantId = none) :
    Regenerates db (replaceContentAsVariant now variantId id archiveContent content metaJson db).snd id
      (w.regenerate archiveContent content) := by
  apply transaction_wp (R := fun db' => Regenerates db db' id (w.regenerate archiveContent content))
  simp only [wp_bind]
  obtain ⟨m, hm, he⟩ := Option.map_eq_some_iff.mp hw
  have hi := Table.get?_key_eq hm
  subst hi
  apply wp_selectMessage_of hm rfl
  simp only [wp_bind]
  -- The active position is free and the message is there, so the insert goes through.
  have hfree : ∀ i, (m.variant now variantId archiveContent).index = some i →
      db.messageVariants.lookup? i = none := by
    intro i hi
    have hf := (hc.wellFormed hw).active_free
    rw [← he] at hf
    rw [← Option.some.inj hi]
    exact Option.map_eq_none_iff.mp hf
  have hins := IndexedTable.insert?_isSome_iff.mpr ⟨hv, hfree⟩
  apply wp_insertRow
  case unique => intro hn; simp [hn] at hins
  case foreignKey => intro hn; simp [MessageRow.variant, hm] at hn
  intro vt ht _
  apply wp_updateMessage (m := m)
  case hm => exact hm
  case hr => rfl
  intro mt hm' ho
  have hvt : textAt vt m.id = _ := textAt_insert? ht
  have hw' : ({ db with messages := mt, messageVariants := vt } : Db).wording m.id = some _ :=
    wording_of_get? hm'
  simp only [hvt] at hw'
  have hrw : Rewrites db { db with messages := mt, messageVariants := vt } m _ :=
    ⟨hm, hm', fun i hi => ⟨ho i hi, ofMessage_insert? ht hi.symm, rfl⟩⟩
  rw [← he]
  refine ⟨hrw.writes hc (wording_of_get? hm) hw' ?_ fun _ _ h => h, hw', hrw.others⟩
  exact .regenerate

end Regenerate
end Operations
end Messages
