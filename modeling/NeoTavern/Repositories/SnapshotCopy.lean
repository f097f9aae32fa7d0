import NeoTavern.Lib.Lists
import NeoTavern.Repositories.Snapshots

namespace Repositories.Snapshots

open Chats (Id Chat ChatRow Origin)
open Proc

-- `p` can only fail where SQLite fails a statement.
def Meets (p : Tx α) (Q : α → Session → Prop) (s : Session) : Prop :=
  wp p Q (fun e _ => e = .statement) s

section Rules

variable {w : World} {s : Session} {p : Tx α} {k : α → Tx β}

theorem Meets.pure {Q : α → Session → Prop} (h : Q a s) : Meets (Pure.pure a) Q s :=
  h

theorem Meets.bind {Q : β → Session → Prop} (h : Meets p (fun a => Meets (k a) Q) s) : Meets (p >>= k) Q s :=
  wp_bind.mpr h

theorem Meets.mono {Q Q' : α → Session → Prop} (h : Meets p Q s) (hq : ∀ a t, Q a t → Q' a t) : Meets p Q' s :=
  wp_mono h hq fun _ _ h => h

theorem Meets.select {f : Db → α} {Q : α → Session → Prop}
    (h : Q (f s.db) { s with statements := s.statements + 1 }) : Meets (select w f) Q s := by
  simp only [Meets, wp, Snapshots.select]
  cases w.faults s.statements
  case false => exact h
  case true  => rfl

theorem Meets.execute {f : Db → Option Db} {Q : Unit → Session → Prop}
    (h : ∀ db, f s.db = some db → Q () { s with db, statements := s.statements + 1 }) : Meets (execute w f) Q s := by
  simp only [Meets, wp, Snapshots.execute]
  cases w.faults s.statements
  case true => rfl
  case false =>
    cases hf : f s.db
    case none    => rfl
    case some db => exact h db hf

theorem Meets.uuidv7 {Q : Id → Session → Prop}
    (h : Q ⟨(s.ids.step w.environment).text, Shared.UuidV7.text_ne_empty _⟩
      { s with ids := s.ids.step w.environment }) : Meets (uuidv7 w) Q s :=
  h

end Rules

-- The rows that a snapshot takes: those up to the source.
def upTo (source : Id) : List MessageRow → List MessageRow
  | []          => []
  | row :: rows => if row.id = source then [row] else row :: upTo source rows

section UpTo

variable {source : Id} {rows rows' : List MessageRow}

theorem upTo_of_not_mem (h : source ∉ rows.map (·.id)) : upTo source rows = rows := by
  induction rows
  case nil => rfl
  case cons row rows ih =>
    rw [List.map_cons, List.mem_cons, not_or] at h
    rw [upTo, if_neg (Ne.symm h.left), ih h.right]

theorem upTo_append_of_mem (h : source ∈ rows.map (·.id)) : upTo source (rows ++ rows') = upTo source rows := by
  induction rows
  case nil => cases h
  case cons row rows ih =>
    rw [List.cons_append, upTo, upTo]
    split
    case isTrue  => rfl
    case isFalse hne =>
      have hmem := List.mem_of_ne_of_mem (Ne.symm hne) h
      rw [ih hmem]

theorem upTo_append_of_not_mem (h : source ∉ rows.map (·.id)) :
    upTo source (rows ++ rows') = rows ++ upTo source rows' := by
  induction rows
  case nil => rfl
  case cons row rows ih =>
    rw [List.map_cons, List.mem_cons, not_or] at h
    rw [List.cons_append, upTo, if_neg (Ne.symm h.left), ih h.right, List.cons_append]

theorem upTo_prefix (source : Id) (rows : List MessageRow) : upTo source rows <+: rows := by
  induction rows
  case nil => exact List.prefix_rfl
  case cons row rows ih =>
    rw [upTo]
    split
    case isTrue  => exact ⟨rows, rfl⟩
    case isFalse => exact (List.prefix_cons_inj row).mpr ih

end UpTo

section Copies

variable {chatId branchId : String} {idMap : List (Id × Id)} {entries entries' : List (MessageRow × Id)}

-- The map once the rows have been given their new ids.
def mapped (idMap : List (Id × Id)) (entries : List (MessageRow × Id)) : List (Id × Id) :=
  entries.foldl (fun idMap entry => Assoc.set idMap entry.fst.id entry.snd) idMap

-- The copies that the loop inserts.
def copies (chatId branchId : String) : List (Id × Id) → List (MessageRow × Id) → List MessageRow
  | _,     []                     => []
  | idMap, (row, newId) :: entries =>
    let idMap := Assoc.set idMap row.id newId
    row.copied newId chatId branchId (row.parentId.bind <| Assoc.get idMap) :: copies chatId branchId idMap entries

theorem copies_append : copies chatId branchId idMap (entries ++ entries') =
    copies chatId branchId idMap entries ++ copies chatId branchId (mapped idMap entries) entries' := by
  induction entries generalizing idMap
  case nil => rfl
  case cons entry entries ih => rw [List.cons_append, copies, copies, ih]; rfl

theorem mapped_append : mapped idMap (entries ++ entries') = mapped (mapped idMap entries) entries' :=
  List.foldl_append

theorem copies_map_id : (copies chatId branchId idMap entries).map (·.id) = entries.map (·.snd) := by
  induction entries generalizing idMap
  case nil => rfl
  case cons entry entries ih => rw [copies, List.map_cons, ih]; rfl

end Copies

-- The id that `uuidv7` makes of its variables.
def idOf (g : Shared.UuidV7) : Id :=
  ⟨g.text, g.text_ne_empty⟩

-- Rows with the variables that their new ids have been made of.
abbrev Entries := List (MessageRow × Shared.UuidV7)

def Entries.rows (es : Entries) : List MessageRow :=
  es.map (·.fst)

def Entries.named (es : Entries) : List (MessageRow × Id) :=
  es.map fun e => (e.fst, idOf e.snd)

section CopyMessages

variable {w : World} {source : Id} {chatId branchId : String} {rows : List MessageRow} {c : Copying} {s : Session}

theorem copyMessages_of_reached (h : c.reached) : copyMessages w source chatId branchId rows c = pure c := by
  cases rows
  case nil  => rfl
  case cons => exact if_pos h

-- What the loop over a batch leaves behind.
structure BatchCopied (source : Id) (chatId branchId : String) (rows : List MessageRow) (c c' : Copying)
    (s s' : Session) (es : Entries) : Prop where
  taken   : es.rows = upTo source rows
  idMap   : c'.idMap = mapped c.idMap es.named
  copied  : c'.copied = c.copied + es.length
  reached : c'.reached = decide (source ∈ rows.map (·.id))
  oldIds  : c'.oldIds = c.oldIds ++ es.rows.map (·.id)
  db      : ∃ t : Table Id MessageRow MessageRow.id,
    t.rows = s.db.messages.rows ++ copies chatId branchId c.idMap es.named ∧ s'.db = { s.db with messages := t }
  made    : Shared.UuidV7.Made s.ids (es.map (·.snd)) s'.ids

theorem copyMessages_meets (hreached : c.reached = false) : Meets (copyMessages w source chatId branchId rows c)
    (fun c' s' => ∃ es, BatchCopied source chatId branchId rows c c' s s' es) s := by
  induction rows generalizing c s
  case nil =>
    exact ⟨[], rfl, rfl, rfl, hreached, (List.append_nil _).symm, ⟨_, (List.append_nil _).symm, rfl⟩, .nil _⟩
  case cons row rows ih =>
    rw [copyMessages, if_neg (by simp [hreached])]
    apply Meets.bind
    apply Meets.uuidv7
    apply Meets.bind
    apply Meets.execute
    intro db hdb
    have ⟨t, ht, hput⟩ := Option.map_eq_some_iff.mp hdb
    subst hput
    have hrows := Table.insert?_rows ht
    by_cases he : row.id = source
    case pos =>
      have hmade := Shared.UuidV7.Made.step w.environment s.ids
      rw [copyMessages_of_reached (by simp [he])]
      apply Meets.pure
      refine ⟨[(row, s.ids.step w.environment)], ?_, rfl, rfl, ?_, rfl, ⟨t, hrows, rfl⟩, hmade⟩
      case refine_1 => rw [upTo, if_pos he]; rfl
      case refine_2 => simp [he]
    case neg =>
      apply (ih (by simp [he])).mono
      intro c' s' ⟨es, h⟩
      have ⟨t', ht', hdb'⟩ := h.db
      refine ⟨(row, s.ids.step w.environment) :: es, ?_, h.idMap, ?_, ?_, ?_, ⟨t', ?_, ?_⟩, ?_⟩
      case refine_1 => rw [upTo, if_neg he, ← h.taken]; rfl
      case refine_2 =>
        have hcopied : c'.copied = c.copied + 1 + es.length := h.copied
        rw [hcopied, List.length_cons]
        omega
      case refine_3 => simp [h.reached, Ne.symm he]
      case refine_4 => rw [h.oldIds, List.append_assoc]; rfl
      case refine_5 => rw [ht', hrows, List.append_assoc]; rfl
      case refine_6 => exact hdb'
      case refine_7 => exact (Shared.UuidV7.Made.step w.environment s.ids).append h.made

end CopyMessages

section Dependents

variable {ρ : Type} {d : Dependent ρ} {w : World} {idMap idMap' : List (Id × Id)} {s : Session}
  {added added' : List (ρ × Id × Id)}

-- A table once copies of rows, each with its own id and the id of its message, have been added to it.
structure Attached (d : Dependent ρ) (idMap : List (Id × Id)) (t t' : Table Id ρ d.id)
    (added : List (ρ × Id × Id)) : Prop where
  rows   : t'.rows = t.rows ++ added.map fun r => d.copied r.fst r.snd.fst r.snd.snd
  mapped : ∀ r ∈ added, Assoc.get idMap (d.messageId r.fst) = some r.snd.snd

theorem Attached.nil (d : Dependent ρ) (idMap : List (Id × Id)) (t : Table Id ρ d.id) : Attached d idMap t t [] where
  rows   := (List.append_nil _).symm
  mapped := fun _ h => by cases h

theorem Attached.trans {t t' t'' : Table Id ρ d.id} (h : Attached d idMap t t' added)
    (h' : Attached d idMap t' t'' added') : Attached d idMap t t'' (added ++ added') where
  rows   := by rw [h'.rows, h.rows, List.append_assoc, List.map_append]
  mapped := by
    intro r hr
    cases List.mem_append.mp hr
    case inl hr => exact h.mapped r hr
    case inr hr => exact h'.mapped r hr

-- What copying rows of a table leaves behind.
structure RowsCopied (d : Dependent ρ) (idMap : List (Id × Id)) (rows : List ρ) (s s' : Session) : Prop where
  table : ∃ t added, Attached d idMap (d.table s.db) t added ∧ added.map (·.fst) = rows ∧ s'.db = d.put t s.db
  ids   : s.ids.order ≤ s'.ids.order

theorem forM_copyRow_meets {rows : List ρ} (hids : ∀ row ∈ rows, (Assoc.get idMap (d.messageId row)).isSome) :
    Meets (rows.forM <| d.copyRow w idMap) (fun _ s' => RowsCopied d idMap rows s s') s := by
  induction rows generalizing s
  case nil => exact ⟨⟨d.table s.db, [], .nil .., rfl, (d.put_table s.db).symm⟩, le_rfl⟩
  case cons row rows ih =>
    have ⟨newMessageId, hnew⟩ := Option.isSome_iff_exists.mp <| hids row List.mem_cons_self
    have hrest := fun row h => hids row <| List.mem_cons_of_mem _ h
    apply Meets.bind
    rw [Dependent.copyRow, hnew]
    apply Meets.bind
    apply Meets.uuidv7
    apply Meets.execute
    intro db hdb
    have ⟨t, ht, hput⟩ := Option.map_eq_some_iff.mp hdb
    subst hput
    have hfirst : Attached d idMap (d.table s.db) t [(row, idOf (s.ids.step w.environment), newMessageId)] := {
      rows   := Table.insert?_rows ht
      mapped := fun _ h => List.mem_singleton.mp h ▸ hnew
    }
    apply (ih hrest).mono
    intro _ s' ⟨⟨t', added, hattached, hrows, hdb'⟩, hle⟩
    rw [d.table_put] at hattached
    refine ⟨⟨t', _, hfirst.trans hattached, ?_, ?_⟩, ?_⟩
    case refine_1 => rw [List.map_append, hrows]; rfl
    case refine_2 => rw [hdb', d.put_put]
    case refine_3 => exact Shared.UuidV7.order_lt_step.le.trans hle

theorem copyRows_meets {oldIds : List Id} (hids : ∀ id ∈ oldIds, (Assoc.get idMap id).isSome) :
    Meets (d.copyRows w oldIds idMap) (fun _ s' =>
      RowsCopied d idMap (d.order <| (d.table s.db).rows.filter (d.messageId · ∈ oldIds)) s s') s := by
  apply Meets.bind
  apply Meets.select
  have hrows (row : ρ) (hrow : row ∈ d.order ((d.table s.db).rows.filter (d.messageId · ∈ oldIds))) :
      (Assoc.get idMap (d.messageId row)).isSome := by
    have hfilter := (d.order_perm _).mem_iff.mp hrow
    exact hids _ <| of_decide_eq_true (List.mem_filter.mp hfilter).right
  exact (forM_copyRow_meets hrows).mono fun _ _ h => ⟨h.table, h.ids⟩

-- The rows of `t` that belong to the messages `ids` have been copied, and no others.
def AttachedTo (d : Dependent ρ) (idMap : List (Id × Id)) (ids : List Id) (t t' : Table Id ρ d.id) : Prop :=
  ∃ added, Attached d idMap t t' added ∧ (added.map (·.fst)).Perm (t.rows.filter (d.messageId · ∈ ids))

theorem AttachedTo.nil (d : Dependent ρ) (idMap : List (Id × Id)) (t : Table Id ρ d.id) : AttachedTo d idMap [] t t :=
  ⟨[], .nil .., by simp⟩

theorem AttachedTo.extend {t : Table Id ρ d.id} {ids oldIds : List Id} (h : AttachedTo d idMap ids t (d.table s.db))
    (hcopied : RowsCopied d idMap' (d.order <| (d.table s.db).rows.filter (d.messageId · ∈ oldIds)) s s')
    (hmap : ∀ id m, Assoc.get idMap id = some m → Assoc.get idMap' id = some m ∧ m ∉ oldIds)
    (hdisjoint : ∀ id ∈ ids, id ∉ oldIds) :
    AttachedTo d idMap' (ids ++ oldIds) t (d.table s'.db) := by
  obtain ⟨added, hattached, hperm⟩ := h
  obtain ⟨t', added', hattached', hrows, hdb⟩ := hcopied.table
  -- What the batches before have added belongs to copies.
  have hsource : (d.table s.db).rows.filter (d.messageId · ∈ oldIds) = t.rows.filter (d.messageId · ∈ oldIds) := by
    have hnone : (added.map fun r => d.copied r.fst r.snd.fst r.snd.snd).filter (d.messageId · ∈ oldIds) = [] := by
      apply List.filter_eq_nil_iff.mpr
      intro row hrow
      obtain ⟨r, hr, he⟩ := List.mem_map.mp hrow
      have hout := (hmap _ _ <| hattached.mapped r hr).right
      rw [← he, d.messageId_copied, decide_eq_true_eq]
      exact hout
    rw [hattached.rows, List.filter_append, hnone, List.append_nil]
  have hkeep : Attached d idMap' t (d.table s.db) added :=
    { hattached with mapped := fun r hr => (hmap _ _ <| hattached.mapped r hr).left }
  have hor := Lists.filter_or_perm (l := t.rows) (p := (d.messageId · ∈ ids)) (q := (d.messageId · ∈ oldIds)) <| by
    intro row _ hp hq
    exact hdisjoint _ (of_decide_eq_true hp) <| of_decide_eq_true hq
  refine ⟨added ++ added', ?_, ?_⟩
  case refine_1 =>
    rw [hdb, d.table_put]
    exact hkeep.trans hattached'
  case refine_2 =>
    rw [List.map_append, hrows, hsource]
    have hsplit : (fun row => decide (d.messageId row ∈ ids ++ oldIds)) =
        fun row => decide (d.messageId row ∈ ids) || decide (d.messageId row ∈ oldIds) := by
      funext row
      simp
    rw [hsplit]
    exact (hperm.append <| d.order_perm _).trans hor.symm

end Dependents

section Batches

variable {w : World} {source : Id} {chatId branchId : String} {base s : Session} {c : Copying} {es es' : Entries}
  {rows batch : List MessageRow} {id m : Id}

-- The ids of the rows and of their copies.
def Entries.pairs (es : Entries) : List (Id × Id) :=
  es.map fun e => (e.fst.id, idOf e.snd)

theorem mapped_named (h : (es.rows.map (·.id)).Nodup) : mapped [] es.named = es.pairs := by
  have hkeys : es.pairs.map (·.fst) = es.rows.map (·.id) := by
    simp [Entries.pairs, Entries.rows]
  have hnodup : ((([] : List (Id × Id)) ++ es.pairs).map (·.fst)).Nodup := by
    rwa [List.nil_append, hkeys]
  have hfold := Assoc.foldl_set hnodup
  rw [Entries.pairs, List.foldl_map] at hfold
  rw [mapped, Entries.named, List.foldl_map]
  exact hfold

theorem rows_append : (es ++ es').rows = es.rows ++ es'.rows :=
  List.map_append

theorem named_append : (es ++ es').named = es.named ++ es'.named :=
  List.map_append

theorem pairs_append : (es ++ es').pairs = es.pairs ++ es'.pairs :=
  List.map_append

-- Where the loop stands between two batches.
structure Progress (chatId branchId : String) (base : Session) (es : Entries) (c : Copying) (s : Session) : Prop where
  idMap            : c.idMap = es.pairs
  copied           : c.copied = es.length
  messages         : s.db.messages.rows = base.db.messages.rows ++ copies chatId branchId [] es.named
  variants         : AttachedTo variants es.pairs (es.rows.map (·.id)) base.db.messageVariants s.db.messageVariants
  contentRevisions : AttachedTo contentRevisions es.pairs (es.rows.map (·.id)) base.db.messageContentRevisions
    s.db.messageContentRevisions
  blocks           : AttachedTo blocks es.pairs (es.rows.map (·.id)) base.db.messageBlockAttachments
    s.db.messageBlockAttachments
  chats            : s.db.chats = base.db.chats
  made             : Shared.UuidV7.Made base.ids (es.map (·.snd)) s.ids

-- The copies have ids that no message has.
theorem new_of_pairs (hnodup : ((rows ++ copies chatId branchId [] es.named).map (·.id)).Nodup)
    (h : Assoc.get es.pairs id = some m) : m ∉ rows.map (·.id) := by
  have ⟨e, he, hpair⟩ := List.mem_map.mp <| Assoc.mem_of_get h
  have hcopy : m ∈ (copies chatId branchId [] es.named).map (·.id) := by
    rw [copies_map_id]
    exact List.mem_map.mpr ⟨_, List.mem_map.mpr ⟨e, he, rfl⟩, congrArg Prod.snd hpair⟩
  rw [List.map_append] at hnodup
  exact fun hm => (List.nodup_append.mp hnodup).right.right m hm m hcopy rfl

theorem copyBatch_meets (h : Progress chatId branchId base es c s) (hreached : c.reached = false)
    (hnodup : ((es.rows ++ batch).map (·.id)).Nodup) (hbase : ∀ row ∈ es.rows ++ batch, row ∈ base.db.messages) :
    Meets (copyBatch w source chatId branchId batch c) (fun c' s' => ∃ es',
      es'.rows = upTo source batch ∧ c'.reached = decide (source ∈ batch.map (·.id)) ∧
        Progress chatId branchId base (es ++ es') c' s') s := by
  apply Meets.bind
  apply (copyMessages_meets (by exact hreached)).mono
  intro c' s₁ ⟨es', hc⟩
  have ⟨t, ht, hdb₁⟩ := hc.db
  have hprefix : es'.rows <+: batch := hc.taken ▸ upTo_prefix source batch
  have hrows : (es ++ es').rows <+: es.rows ++ batch := by
    rw [rows_append]
    exact (List.prefix_append_right_inj es.rows).mpr hprefix
  have hids := hnodup.sublist <| hrows.sublist.map (·.id)
  have hidsOld : (es.rows.map (·.id)).Nodup := by
    rw [List.map_append] at hnodup
    exact (List.nodup_append.mp hnodup).left
  have hidMap : c'.idMap = (es ++ es').pairs := by
    have hstart := mapped_named hidsOld
    rw [hc.idMap, ← mapped_named hids, named_append, mapped_append, hstart, h.idMap]
  have hmessages : s₁.db.messages.rows =
      base.db.messages.rows ++ copies chatId branchId [] (es ++ es').named := by
    have hstart := mapped_named hidsOld
    rw [hdb₁, ht, h.messages, named_append, copies_append, hstart, ← List.append_assoc]
    rw [h.idMap]
  have holdIds : c'.oldIds = es'.rows.map (·.id) := hc.oldIds
  have hnew (id m : Id) (hget : Assoc.get es.pairs id = some m) :
      Assoc.get (es ++ es').pairs id = some m ∧ m ∉ es'.rows.map (·.id) := by
    have hget' : Assoc.get (es ++ es').pairs id = some m := by
      rw [pairs_append, Assoc.get_append, hget]
      rfl
    have hout : m ∉ base.db.messages.rows.map (·.id) := by
      have hunique := s₁.db.messages.nodup
      rw [hmessages] at hunique
      exact new_of_pairs hunique hget'
    refine ⟨hget', fun hm => hout ?_⟩
    have ⟨row, hrow, he⟩ := List.mem_map.mp hm
    exact List.mem_map.mpr ⟨row, hbase row <| List.mem_append_right _ <| hprefix.mem hrow, he⟩
  have hdisjoint (id : Id) (hid : id ∈ es.rows.map (·.id)) : id ∉ es'.rows.map (·.id) := by
    rw [rows_append, List.map_append] at hids
    exact fun hid' => (List.nodup_append.mp hids).right.right id hid id hid' rfl
  have hmapped (id : Id) (hid : id ∈ es'.rows.map (·.id)) : (Assoc.get (es ++ es').pairs id).isSome := by
    have ⟨row, hrow, hrowId⟩ := List.mem_map.mp hid
    have ⟨e, he, herow⟩ := List.mem_map.mp hrow
    have hmem : (id, idOf e.snd) ∈ (es ++ es').pairs := by
      rw [← hrowId, ← herow]
      exact List.mem_map.mpr ⟨e, List.mem_append_right _ he, rfl⟩
    apply Option.isSome_iff_ne_none.mpr
    exact fun hnone => Assoc.get_eq_none_iff.mp hnone _ hmem rfl
  rw [hidMap, holdIds]
  apply Meets.bind
  apply (copyRows_meets hmapped).mono
  intro _ s₂ hvariants
  apply Meets.bind
  apply (copyRows_meets hmapped).mono
  intro _ s₃ hrevisions
  apply Meets.bind
  apply (copyRows_meets hmapped).mono
  intro _ s₄ hblocks
  have ⟨_, _, _, _, hdb₂⟩ := hvariants.table
  have ⟨_, _, _, _, hdb₃⟩ := hrevisions.table
  have ⟨_, _, _, _, hdb₄⟩ := hblocks.table
  have holdVariants : AttachedTo variants es.pairs (es.rows.map (·.id)) base.db.messageVariants
      (variants.table s₁.db) := by
    rw [hdb₁]
    exact h.variants
  have holdRevisions : AttachedTo contentRevisions es.pairs (es.rows.map (·.id)) base.db.messageContentRevisions
      (contentRevisions.table s₂.db) := by
    rw [hdb₂, hdb₁]
    exact h.contentRevisions
  have holdBlocks : AttachedTo blocks es.pairs (es.rows.map (·.id)) base.db.messageBlockAttachments
      (blocks.table s₃.db) := by
    rw [hdb₃, hdb₂, hdb₁]
    exact h.blocks
  have hnewVariants := holdVariants.extend hvariants hnew hdisjoint
  have hnewRevisions := holdRevisions.extend hrevisions hnew hdisjoint
  have hnewBlocks := holdBlocks.extend hblocks hnew hdisjoint
  rw [← List.map_append, ← rows_append] at hnewVariants hnewRevisions hnewBlocks
  apply Meets.pure
  refine ⟨es', hc.taken, hc.reached, ?_⟩
  constructor
  case idMap    => exact hidMap
  case copied   => rw [hc.copied, List.length_append, h.copied]
  case messages => rw [hdb₄, hdb₃, hdb₂]; exact hmessages
  case variants => rw [hdb₄, hdb₃]; exact hnewVariants
  case contentRevisions => rw [hdb₄]; exact hnewRevisions
  case blocks   => exact hnewBlocks
  case chats    => rw [hdb₄, hdb₃, hdb₂, hdb₁]; exact h.chats
  case made =>
    rw [List.map_append]
    exact (h.made.append hc.made).skip <| (hvariants.ids.trans hrevisions.ids).trans hblocks.ids

end Batches

-- The messages of a branch in their order.
def activeRows (db : Db) (chatId branchId : String) : List MessageRow :=
  Paging.orderBy MessageRow.place <| db.messages.rows.filter fun row => row.chatId = chatId && row.branchId = branchId

section Loop

variable {w : World} {source : Id} {chatId branchId parentId activeBranchId : String} {base s : Session} {c : Copying}
  {es : Entries} {db : Db} {row row' : MessageRow} {rest : List MessageRow} {cursor : Option (Int × Id)} {fuel : Nat}

theorem place_lt_iff : row.place < row'.place ↔
    row.createdAt < row'.createdAt ∨ row.createdAt = row'.createdAt ∧ row.id < row'.id :=
  Prod.Lex.toLex_lt_toLex

theorem messages_pairwise (db : Db) : db.messages.rows.Pairwise (·.place ≠ ·.place) := by
  have hne : db.messages.rows.Pairwise (·.id ≠ ·.id) := List.pairwise_map.mp db.messages.nodup
  exact hne.imp fun hne he => hne <| congrArg Prod.snd <| toLex.injective he

theorem activeRows_pairwise : (activeRows db chatId branchId).Pairwise (·.place < ·.place) :=
  Paging.orderBy_pairwise <| (messages_pairwise db).filter _

theorem mem_activeRows : row ∈ activeRows db chatId branchId ↔
    row ∈ db.messages ∧ row.chatId = chatId ∧ row.branchId = branchId := by
  simp [activeRows, Paging.mem_orderBy, Table.mem_def]

theorem activeRows_ids_nodup : ((activeRows db chatId branchId).map (·.id)).Nodup := by
  have hperm : (activeRows db chatId branchId).Perm _ := Paging.orderBy_perm
  have hfilter : ((db.messages.rows.filter fun row =>
      row.chatId = chatId && row.branchId = branchId).map (·.id)).Nodup :=
    db.messages.nodup.sublist <| List.filter_sublist.map _
  exact (hperm.map (·.id)).nodup_iff.mpr hfilter

theorem mem_copies_chatId (h : row ∈ copies chatId branchId idMap entries) : row.chatId = chatId := by
  induction entries generalizing idMap
  case nil => cases h
  case cons entry entries ih =>
    cases List.mem_cons.mp h
    case inl h => rw [h]; rfl
    case inr h => exact ih h

-- What a cursor leaves of a branch.
theorem selectBatch_eq (hsplit : activeRows base.db parentId activeBranchId = es.rows ++ rest)
    (hcursor : cursor = es.rows.getLast?.map fun last => (last.createdAt, last.id)) (hchat : chatId ≠ parentId)
    (hmessages : s.db.messages.rows = base.db.messages.rows ++ copies chatId branchId [] es.named) :
    selectBatch parentId activeBranchId cursor s.db = rest.take snapshotBatchSize := by
  have hsorted : (activeRows base.db parentId activeBranchId).Pairwise _ := activeRows_pairwise
  have hcopies : (copies chatId branchId [] es.named).filter (fun row => row.chatId = parentId &&
      row.branchId = activeBranchId &&
        cursor.all fun x => x.fst < row.createdAt || row.createdAt = x.fst && x.snd < row.id) = [] := by
    apply List.filter_eq_nil_iff.mpr
    intro row hrow
    have hne : row.chatId ≠ parentId := mem_copies_chatId hrow ▸ hchat
    simp [hne]
  rw [selectBatch, hmessages, List.filter_append, hcopies, List.append_nil]
  congr 1
  rw [hsplit] at hsorted
  apply Paging.orderBy_filter_eq (messages_pairwise base.db) (List.pairwise_append.mp hsorted).right.left
  intro row
  cases List.eq_nil_or_concat es.rows
  case inl hnil =>
    have hall : activeRows base.db parentId activeBranchId = rest := by rw [hsplit, hnil, List.nil_append]
    rw [hnil] at hcursor
    rw [← hall, hcursor, mem_activeRows]
    simp [Table.mem_def]
  case inr h =>
    obtain ⟨before, last, he⟩ := h
    rw [he, List.concat_eq_append] at hsplit hcursor hsorted
    rw [List.append_assoc, List.singleton_append] at hsorted hsplit
    rw [Paging.mem_rest_iff hsorted, ← hsplit, mem_activeRows, place_lt_iff, hcursor]
    simp [Table.mem_def, and_assoc, eq_comm (a := last.createdAt)]

theorem copyBatches_of_reached (h : c.reached) (hfuel : 0 < fuel) :
    copyBatches w source chatId branchId parentId activeBranchId fuel cursor c = pure c := by
  cases fuel
  case zero => cases hfuel
  case succ => exact if_pos h

theorem snapshotBatchSize_pos : 0 < snapshotBatchSize := by
  decide

theorem copyBatches_meets (hsplit : activeRows base.db parentId activeBranchId = es.rows ++ rest)
    (hcursor : cursor = es.rows.getLast?.map fun last => (last.createdAt, last.id)) (hchat : chatId ≠ parentId)
    (hsource : source ∈ rest.map (·.id)) (hfuel : rest.length < fuel) (hreached : c.reached = false)
    (h : Progress chatId branchId base es c s) :
    Meets (copyBatches w source chatId branchId parentId activeBranchId fuel cursor c) (fun c' s' => ∃ es',
      es'.rows = upTo source (activeRows base.db parentId activeBranchId) ∧ c'.reached = true ∧
        Progress chatId branchId base es' c' s') s := by
  induction fuel generalizing es rest cursor c s
  case zero => cases hfuel
  case succ fuel ih =>
    have hids : ((es.rows ++ rest).map (·.id)).Nodup := hsplit ▸ activeRows_ids_nodup
    have hout : source ∉ es.rows.map (·.id) := by
      rw [List.map_append] at hids
      exact fun hmem => (List.nodup_append.mp hids).right.right source hmem source hsource rfl
    have hrest : rest ≠ [] := by
      intro hnil
      rw [hnil] at hsource
      cases hsource
    rw [copyBatches, if_neg (by simp [hreached])]
    apply Meets.bind
    apply Meets.select
    rw [selectBatch_eq hsplit hcursor hchat h.messages]
    generalize hbatch : rest.take snapshotBatchSize = batch
    have hrestEq : batch ++ rest.drop snapshotBatchSize = rest := hbatch ▸ List.take_append_drop _ rest
    have hne : batch ≠ [] := by
      rw [← hbatch, ne_eq, List.take_eq_nil_iff]
      exact not_or.mpr ⟨snapshotBatchSize_pos.ne', hrest⟩
    rw [List.getLast?_eq_some_getLast hne]
    have hbase (row : MessageRow) (hrow : row ∈ es.rows ++ batch) : row ∈ base.db.messages := by
      have hmem : row ∈ activeRows base.db parentId activeBranchId := by
        rw [hsplit, ← hrestEq, ← List.append_assoc]
        exact List.mem_append_left _ hrow
      exact (mem_activeRows.mp hmem).left
    have hbatchIds : ((es.rows ++ batch).map (·.id)).Nodup := by
      rw [← hrestEq, ← List.append_assoc, List.map_append] at hids
      exact (List.nodup_append.mp hids).left
    have hstart : Progress chatId branchId base es c { s with statements := s.statements + 1 } :=
      ⟨h.idMap, h.copied, h.messages, h.variants, h.contentRevisions, h.blocks, h.chats, h.made⟩
    apply Meets.bind
    apply (copyBatch_meets hstart hreached hbatchIds hbase).mono
    intro c' s' ⟨es', htaken, hreached', hprogress⟩
    by_cases hmem : source ∈ batch.map (·.id)
    case pos =>
      have hall : (es ++ es').rows = upTo source (activeRows base.db parentId activeBranchId) := by
        rw [rows_append, htaken, hsplit, upTo_append_of_not_mem hout, ← hrestEq, upTo_append_of_mem hmem]
      have hfound : c'.reached = true := by rw [hreached', decide_eq_true hmem]
      by_cases hshort : batch.length < snapshotBatchSize
      case pos =>
        rw [if_pos hshort]
        exact Meets.pure ⟨_, hall, hfound, hprogress⟩
      case neg =>
        have hlength : batch.length ≤ rest.length := hbatch ▸ List.length_take_le' _ _
        have hpos := snapshotBatchSize_pos
        rw [if_neg hshort, copyBatches_of_reached hfound (by omega)]
        exact Meets.pure ⟨_, hall, hfound, hprogress⟩
    case neg =>
      have hlater : source ∈ (rest.drop snapshotBatchSize).map (·.id) := by
        rw [← hrestEq, List.map_append] at hsource
        exact (List.mem_append.mp hsource).resolve_left hmem
      have hfull : snapshotBatchSize < rest.length := by
        have hpos := List.length_pos_of_mem hlater
        rw [List.length_map, List.length_drop] at hpos
        omega
      have hlength : batch.length = snapshotBatchSize := by
        rw [← hbatch, List.length_take, Nat.min_eq_left hfull.le]
      have hrows : (es ++ es').rows = es.rows ++ batch := by rw [rows_append, htaken, upTo_of_not_mem hmem]
      have hsplit' : activeRows base.db parentId activeBranchId =
          (es ++ es').rows ++ rest.drop snapshotBatchSize := by
        rw [hrows, List.append_assoc, hrestEq, hsplit]
      have hcursor' : some ((batch.getLast hne).createdAt, (batch.getLast hne).id) =
          (es ++ es').rows.getLast?.map fun last => (last.createdAt, last.id) := by
        rw [hrows, List.getLast?_append_of_ne_nil _ hne, List.getLast?_eq_some_getLast hne]
        rfl
      have hfuel' : (rest.drop snapshotBatchSize).length < fuel := by
        have hpos := snapshotBatchSize_pos
        rw [List.length_drop]
        omega
      rw [if_neg (by omega)]
      exact ih hsplit' hcursor' hlater hfuel' (by rw [hreached', decide_eq_false hmem]) hprogress

end Loop

end Repositories.Snapshots
