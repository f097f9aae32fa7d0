import NeoTavern.Repositories.SnapshotCopy

namespace Repositories.Snapshots

open Chats (Id Chat ChatRow Origin)
open Proc

section CopyBranch

variable {w : World} {input : SnapshotInput} {parent : ChatRow} {activeBranchId : String} {s : Session}

-- What the body of the transaction leaves behind.
structure BranchCopied (w : World) (input : SnapshotInput) (parent : ChatRow) (activeBranchId : String)
    (s s' : Session) (childChatId branchId : Id) (es : Entries) (result : SnapshotResult) : Prop where
  fresh    : s.db.chats.get? childChatId.val = none
  rows     : es.rows = upTo input.sourceMessageId (activeRows s.db parent.id activeBranchId)
  progress : ∃ base copied c, Progress childChatId branchId base es c copied ∧
    base.db.messages = s.db.messages ∧ base.db.messageVariants = s.db.messageVariants ∧
    base.db.messageContentRevisions = s.db.messageContentRevisions ∧
    base.db.messageBlockAttachments = s.db.messageBlockAttachments ∧
    (∃ chats, s'.db = { copied.db with chats }) ∧ s'.ids = copied.ids
  chat     : result.chat = (ChatRow.counted (childRow w input parent childChatId branchId) es.length).toChat
  row      : ∃ row ∈ s'.db.chats, row.toChat = result.chat
  count    : result.copiedMessages = es.length

theorem copyBranch_meets (hparent : s.db.chats.get? parent.id = some parent)
    (hsource : input.sourceMessageId ∈ (activeRows s.db parent.id activeBranchId).map (·.id)) :
    Meets (copyBranch w input parent activeBranchId) (fun r s' => ∃ childChatId branchId es result,
      r = some result ∧ BranchCopied w input parent activeBranchId s s' childChatId branchId es result) s := by
  apply Meets.bind
  apply Meets.uuidv7
  generalize hchild : (Subtype.mk _ _ : Id) = childChatId
  apply Meets.bind
  apply Meets.uuidv7
  generalize hbranch : (Subtype.mk _ _ : Id) = branchId
  apply Meets.bind
  apply Meets.execute
  intro db hdb
  obtain ⟨chats, hchats, hput⟩ := Option.map_eq_some_iff.mp hdb
  subst hput
  apply Meets.bind
  apply Meets.execute
  intro db hdb
  obtain ⟨chatBranches, _, hput⟩ := Option.map_eq_some_iff.mp hdb
  subst hput
  apply Meets.bind
  apply wp_gets.mpr
  generalize hbase : Session.mk _ _ _ = base
  have hmessages : base.db.messages = s.db.messages := by rw [← hbase]
  have hactive : activeRows base.db parent.id activeBranchId = activeRows s.db parent.id activeBranchId := by
    rw [activeRows, activeRows, hmessages]
  have hfresh : s.db.chats.get? childChatId.val = none := Table.insert?_fresh hchats
  have hne : childChatId.val ≠ parent.id := fun he => by simp [← he, hfresh] at hparent
  have hsource' : input.sourceMessageId ∈ (activeRows base.db parent.id activeBranchId).map (·.id) :=
    hactive ▸ hsource
  have hfuel : (activeRows base.db parent.id activeBranchId).length < base.db.messages.rows.length + 1 := by
    have hperm : (activeRows base.db parent.id activeBranchId).Perm _ := Paging.orderBy_perm
    rw [hperm.length_eq]
    exact Nat.lt_succ_of_le <| List.length_filter_le ..
  have hstart : Progress childChatId branchId base [] {} base := {
    idMap            := rfl
    copied           := rfl
    messages         := (List.append_nil _).symm
    variants         := .nil ..
    contentRevisions := .nil ..
    blocks           := .nil ..
    chats            := rfl
    made             := .nil _
  }
  have hsplit : activeRows base.db parent.id activeBranchId =
      Entries.rows [] ++ activeRows base.db parent.id activeBranchId :=
    rfl
  apply Meets.bind
  apply (copyBatches_meets hsplit rfl hne hsource' hfuel rfl hstart).mono
  rintro c s' ⟨es, hrows, hreached, hprogress⟩
  rw [hreached]
  apply Meets.bind
  apply Meets.execute
  intro db hdb
  cases hdb
  apply Meets.bind
  apply Meets.select
  have hchild' : base.db.chats.get? childChatId.val = some (childRow w input parent childChatId branchId) := by
    rw [← hbase]
    exact (Table.get?_insert? hchats _).trans <| if_pos rfl
  have hget : (s'.db.chats.update (·.id = childChatId.val) (ChatRow.counted · c.copied)
      (ChatRow.counted_id · c.copied)).get? childChatId.val =
        some (ChatRow.counted (childRow w input parent childChatId branchId) c.copied) := by
    rw [Table.get?_update, hprogress.chats, hchild', Option.map_some]
    exact congrArg some <| if_pos <| decide_eq_true rfl
  simp only [hget]
  apply Meets.pure
  refine ⟨childChatId, branchId, es, _, rfl, ?_⟩
  constructor
  case fresh => exact hfresh
  case rows  => rw [hrows, hactive]
  case progress =>
    refine ⟨base, s', c, hprogress, hmessages, ?_, ?_, ?_, ⟨_, rfl⟩, rfl⟩
    case refine_1 => rw [← hbase]
    case refine_2 => rw [← hbase]
    case refine_3 => rw [← hbase]
  case chat  => rw [hprogress.copied]
  case row   => exact ⟨_, Table.mem_of_get? hget, rfl⟩
  case count => exact hprogress.copied

end CopyBranch

section Parents

variable {chatId branchId : String} {done later es : Entries} {p : Id}

theorem pairs_fst : es.pairs.map (·.fst) = es.rows.map (·.id) := by
  simp [Entries.pairs, Entries.rows]

theorem get_pairs_eq_none_iff : Assoc.get es.pairs p = none ↔ p ∉ es.rows.map (·.id) := by
  rw [Assoc.get_eq_none_iff, ← pairs_fst, List.mem_map, not_exists]
  exact forall_congr' fun e => not_and.symm

-- The row of a later message is not in the map yet.
theorem get_pairs_eq_iff (h : ((done ++ later).rows.map (·.id)).Nodup) :
    Assoc.get done.pairs p = Assoc.get (done ++ later).pairs p ↔ p ∉ later.rows.map (·.id) := by
  rw [pairs_append, Assoc.get_append]
  constructor
  case mp =>
    intro he hp
    have hnone : Assoc.get done.pairs p = none := by
      rw [get_pairs_eq_none_iff]
      rw [rows_append, List.map_append] at h
      exact fun hp' => (List.nodup_append.mp h).right.right p hp' p hp rfl
    rw [hnone, Option.none_or] at he
    exact absurd hp <| get_pairs_eq_none_iff.mp he.symm
  case mpr =>
    intro hp
    rw [get_pairs_eq_none_iff.mpr hp, Option.or_none]

-- The copies hang on the copies of their parents where no parent comes after its child.
theorem copies_parents_iff (h : ((done ++ later).rows.map (·.id)).Nodup) :
    (copies chatId branchId (mapped [] done.named) later.named).map (·.parentId) =
        later.rows.map (·.parentId.bind <| Assoc.get (done ++ later).pairs) ↔
      later.rows.Pairwise (·.parentId ≠ some ·.id) := by
  induction later generalizing done
  case nil => exact iff_of_true rfl .nil
  case cons e later ih =>
    have happend : done ++ e :: later = done ++ [e] ++ later := List.append_cons ..
    rw [happend] at h ⊢
    have hfirst : ((done ++ [e]).rows.map (·.id)).Nodup := by
      rw [rows_append, List.map_append] at h
      exact (List.nodup_append.mp h).left
    have hset : Assoc.set (mapped [] done.named) e.fst.id (idOf e.snd) = mapped [] (done ++ [e]).named := by
      rw [named_append, mapped_append]
      rfl
    have hcopies : copies chatId branchId (mapped [] done.named) (Entries.named (e :: later)) =
        e.fst.copied (idOf e.snd) chatId branchId (e.fst.parentId.bind <| Assoc.get (done ++ [e]).pairs) ::
          copies chatId branchId (mapped [] (done ++ [e]).named) (Entries.named later) := by
      rw [← mapped_named hfirst, ← hset]
      rfl
    have hrows : Entries.rows (e :: later) = e.fst :: Entries.rows later := rfl
    have hhead : (e.fst.parentId.bind (Assoc.get (done ++ [e]).pairs) =
        e.fst.parentId.bind (Assoc.get (done ++ [e] ++ later).pairs)) ↔
          ∀ row ∈ Entries.rows later, e.fst.parentId ≠ some row.id := by
      cases e.fst.parentId
      case none   => exact iff_of_true rfl fun _ _ => nofun
      case some p =>
        rw [Option.bind_some, Option.bind_some, get_pairs_eq_iff h]
        simp [eq_comm]
    rw [hcopies, hrows, List.map_cons, List.map_cons, List.cons.injEq, List.pairwise_cons]
    exact and_congr hhead <| ih h

theorem copies_map_place {idMap : List (Id × Id)} : (copies chatId branchId idMap es.named).map (·.place) =
    es.map fun e => toLex (e.fst.createdAt, idOf e.snd) := by
  induction es generalizing idMap
  case nil => rfl
  case cons e es ih => exact congrArg _ ih

theorem copies_pairwise {idMap : List (Id × Id)} (hrows : es.rows.Pairwise (·.place < ·.place))
    (htexts : (es.map (·.snd)).Pairwise (·.text < ·.text)) :
    (copies chatId branchId idMap es.named).Pairwise (·.place < ·.place) := by
  have hplaces : ((copies chatId branchId idMap es.named).map (·.place)).Pairwise (· < ·) := by
    rw [copies_map_place]
    have hboth := (List.pairwise_map.mp hrows).and (List.pairwise_map.mp htexts)
    apply List.pairwise_map.mpr
    apply hboth.imp
    intro e e' ⟨hplace, htext⟩
    have hid : idOf e.snd < idOf e'.snd := htext
    apply Prod.Lex.toLex_lt_toLex.mpr
    exact (place_lt_iff.mp hplace).imp_right fun h => ⟨h.left, hid⟩
  exact List.pairwise_map.mp hplaces

end Parents

-- The foreign keys of the messages.
def ChatsExist (db : Db) : Prop :=
  ∀ row ∈ db.messages, (db.chats.get? row.chatId).isSome

-- The messages of a chat in their order.
def messagesOf (db : Db) (chatId : String) : List MessageRow :=
  Paging.orderBy MessageRow.place <| db.messages.rows.filter (·.chatId = chatId)

def MessageRow.unlinked (row : MessageRow) : MessageRow :=
  { row with parentId := none }

-- The rows that belong to `rows` have copies that belong to the copies of these, and nothing else has been added.
def Hangs (d : Dependent ρ) (copyId : Id → Id) (rows : List MessageRow) (t t' : Table Id ρ d.id) : Prop :=
  ∃ added : List (ρ × Id),
    t'.rows = t.rows ++ added.map (fun r => d.copied r.fst r.snd <| copyId <| d.messageId r.fst) ∧
    (added.map (·.fst)).Perm (t.rows.filter (d.messageId · ∈ rows.map (·.id)))

-- What is expected of a snapshot, apart from the parents of its messages.
structure IsSnapshot (before after : Db) (rows : List MessageRow) (result : SnapshotResult) (copyId : Id → Id) :
    Prop where
  child            : before.chats.get? result.chat.id = none ∧ ∃ row ∈ after.chats, row.toChat = result.chat
  injective        : Set.InjOn copyId {id | id ∈ rows.map (·.id)}
  new              : ∀ row ∈ rows, copyId row.id ∉ before.messages.rows.map (·.id)
  messages         : ∃ branchId, result.chat.activeBranchId = some branchId ∧
    (messagesOf after result.chat.id).map (·.unlinked) =
      rows.map fun row => row.copied (copyId row.id) result.chat.id branchId none
  kept             : ∀ row, row ∈ after.messages ↔ row ∈ before.messages ∨ row ∈ messagesOf after result.chat.id
  count            : result.copiedMessages = rows.length
  variants         : Hangs variants copyId rows before.messageVariants after.messageVariants
  contentRevisions : Hangs contentRevisions copyId rows before.messageContentRevisions after.messageContentRevisions
  blocks           : Hangs blocks copyId rows before.messageBlockAttachments after.messageBlockAttachments

-- The parent of a copy is the copy of the parent, for parents that have one.
def Linked (after : Db) (rows : List MessageRow) (result : SnapshotResult) (copyId : Id → Id) : Prop :=
  (messagesOf after result.chat.id).map (·.parentId) =
    rows.map fun row => (row.parentId.filter (· ∈ rows.map (·.id))).map copyId

-- No message comes before its parent.
def ParentsFirst (rows : List MessageRow) : Prop :=
  rows.Pairwise (·.parentId ≠ some ·.id)

section Spec

variable {ρ : Type} {d : Dependent ρ} {chatId branchId : String} {es : Entries} {before after : Db} {id : Id}

def Entries.copyId (es : Entries) (id : Id) : Id :=
  (Assoc.get es.pairs id).getD id

theorem copyId_of_mem (h : (es.rows.map (·.id)).Nodup) (he : e ∈ es) : es.copyId e.fst.id = idOf e.snd := by
  have hget : Assoc.get es.pairs e.fst.id = some (idOf e.snd) :=
    Assoc.get_of_mem (by rwa [pairs_fst]) <| List.mem_map_of_mem he
  rw [Entries.copyId, hget, Option.getD_some]

theorem copies_map_unlinked {idMap : List (Id × Id)} : (copies chatId branchId idMap es.named).map (·.unlinked) =
    es.map fun e => e.fst.copied (idOf e.snd) chatId branchId none := by
  induction es generalizing idMap
  case nil => rfl
  case cons e es ih => exact congrArg _ ih

theorem rows_map_copied (h : (es.rows.map (·.id)).Nodup) :
    (es.rows.map fun row => row.copied (es.copyId row.id) chatId branchId none) =
      es.map fun e => e.fst.copied (idOf e.snd) chatId branchId none := by
  rw [Entries.rows, List.map_map]
  apply List.map_congr_left
  intro e he
  rw [Function.comp_apply, copyId_of_mem h he]

theorem hangs_of_attachedTo {t t' : Table Id ρ d.id} (h : AttachedTo d es.pairs (es.rows.map (·.id)) t t') :
    Hangs d es.copyId es.rows t t' := by
  obtain ⟨added, hattached, hperm⟩ := h
  refine ⟨added.map fun r => (r.fst, r.snd.fst), ?_, ?_⟩
  case refine_1 =>
    rw [hattached.rows, List.map_map]
    congr 1
    apply List.map_congr_left
    intro r hr
    rw [Function.comp_apply, Entries.copyId, hattached.mapped r hr, Option.getD_some]
  case refine_2 =>
    rw [List.map_map]
    exact hperm

theorem linked_parents : (es.rows.map fun row => (row.parentId.filter (· ∈ es.rows.map (·.id))).map es.copyId) =
    es.rows.map (·.parentId.bind <| Assoc.get es.pairs) := by
  apply List.map_congr_left
  intro row _
  cases row.parentId
  case none   => rfl
  case some p =>
    by_cases hp : p ∈ es.rows.map (·.id)
    case pos =>
      have hsome : Assoc.get es.pairs p ≠ none := fun hnone => get_pairs_eq_none_iff.mp hnone hp
      have ⟨new, hnew⟩ := Option.ne_none_iff_exists'.mp hsome
      rw [Option.filter_some, if_pos (decide_eq_true hp), Option.map_some, Option.bind_some, Entries.copyId, hnew,
        Option.getD_some]
    case neg =>
      have hnone := get_pairs_eq_none_iff.mpr hp
      rw [Option.filter_some, if_neg (by simpa using hp), Option.bind_some, hnone]
      rfl

-- A snapshot determines the ids of its copies.
theorem IsSnapshot.copyId_eq {copyId copyId' : Id → Id} {rows : List MessageRow}
    (h : IsSnapshot before after rows result copyId) (h' : IsSnapshot before after rows result copyId') :
    ∀ row ∈ rows, copyId row.id = copyId' row.id := by
  have ⟨branchId, hbranch, hmessages⟩ := h.messages
  have ⟨branchId', hbranch', hmessages'⟩ := h'.messages
  rw [hmessages] at hmessages'
  intro row hrow
  have he := List.map_inj_left.mp hmessages' row hrow
  exact congrArg MessageRow.id he

theorem IsSnapshot.linked_iff {copyId copyId' : Id → Id} {rows : List MessageRow}
    (h : IsSnapshot before after rows result copyId) (h' : IsSnapshot before after rows result copyId') :
    Linked after rows result copyId ↔ Linked after rows result copyId' := by
  have hparents : (rows.map fun row => (row.parentId.filter (· ∈ rows.map (·.id))).map copyId) =
      rows.map fun row => (row.parentId.filter (· ∈ rows.map (·.id))).map copyId' := by
    apply List.map_congr_left
    intro row _
    apply Option.map_congr
    intro p hp
    have ⟨row', hrow', he⟩ := List.mem_map.mp <| of_decide_eq_true (Option.filter_eq_some_iff.mp hp).right
    exact he ▸ h.copyId_eq h' row' hrow'
  rw [Linked, Linked, hparents]

variable {w : World} {input : SnapshotInput} {parent : ChatRow} {activeBranchId : String} {s s' : Session}
  {childChatId newBranchId : Id} {result : SnapshotResult}

theorem BranchCopied.rows_pairwise
    (h : BranchCopied w input parent activeBranchId s s' childChatId newBranchId es result) :
    es.rows.Pairwise (·.place < ·.place) ∧ (es.rows.map (·.id)).Nodup := by
  have hprefix : es.rows <+: activeRows s.db parent.id activeBranchId := h.rows ▸ upTo_prefix ..
  exact ⟨activeRows_pairwise.sublist hprefix.sublist, activeRows_ids_nodup.sublist <| hprefix.sublist.map _⟩

theorem BranchCopied.messages
    (h : BranchCopied w input parent activeBranchId s s' childChatId newBranchId es result) :
    s'.db.messages.rows = s.db.messages.rows ++ copies childChatId newBranchId [] es.named := by
  have ⟨base, copied, c, hprogress, hbase, _, _, _, ⟨_, hdb⟩, _⟩ := h.progress
  rw [hdb, hprogress.messages, hbase]

theorem BranchCopied.messagesOf
    (h : BranchCopied w input parent activeBranchId s s' childChatId newBranchId es result)
    (hfk : ChatsExist s.db) (h48 : s'.ids.lastTimestamp < 2 ^ 48) :
    messagesOf s'.db result.chat.id = copies childChatId newBranchId [] es.named := by
  have ⟨base, copied, c, hprogress, _, _, _, _, _, hids⟩ := h.progress
  have htexts := hprogress.made.text_pairwise (hids ▸ h48)
  apply Paging.orderBy_filter_eq (messages_pairwise s'.db) (copies_pairwise h.rows_pairwise.left htexts)
  intro row
  have hchild : result.chat.id = childChatId.val := by rw [h.chat]; rfl
  rw [h.messages, hchild, decide_eq_true_eq, List.mem_append]
  constructor
  case mp  => exact fun hrow => ⟨.inr hrow, mem_copies_chatId hrow⟩
  case mpr =>
    intro ⟨hrow, hchat⟩
    apply hrow.resolve_left
    intro hold
    have hexists := hfk row hold
    rw [hchat, h.fresh] at hexists
    cases hexists

theorem BranchCopied.isSnapshot
    (h : BranchCopied w input parent activeBranchId s s' childChatId newBranchId es result)
    (hfk : ChatsExist s.db) (h48 : s'.ids.lastTimestamp < 2 ^ 48) :
    IsSnapshot s.db s'.db es.rows result es.copyId := by
  obtain ⟨base, copied, c, hprogress, _, hv, hr, hb, ⟨chats, hdb⟩, _⟩ := h.progress
  obtain ⟨_, hnodup⟩ := h.rows_pairwise
  have hchild : result.chat.id = childChatId.val := by rw [h.chat]; rfl
  have hunique := s'.db.messages.nodup
  rw [h.messages] at hunique
  constructor
  case child => exact ⟨hchild ▸ h.fresh, h.row⟩
  case injective =>
    have hcopies : (es.named.map (·.snd)).Nodup := by
      rw [List.map_append, List.nodup_append] at hunique
      have hids := hunique.right.left
      have hmap : (copies childChatId newBranchId [] es.named).map MessageRow.id = es.named.map (·.snd) :=
        copies_map_id
      rwa [hmap] at hids
    rw [Entries.named, List.map_map] at hcopies
    intro id hid id' hid' he
    obtain ⟨row, hrow, hrowId⟩ := List.mem_map.mp hid
    obtain ⟨row', hrow', hrowId'⟩ := List.mem_map.mp hid'
    obtain ⟨e, hentry, heRow⟩ := List.mem_map.mp hrow
    obtain ⟨e', hentry', heRow'⟩ := List.mem_map.mp hrow'
    rw [← hrowId, ← hrowId', ← heRow, ← heRow', copyId_of_mem hnodup hentry, copyId_of_mem hnodup hentry'] at he
    have heq := List.inj_on_of_nodup_map hcopies hentry hentry' he
    rw [← hrowId, ← hrowId', ← heRow, ← heRow', heq]
  case new =>
    intro row hrow
    obtain ⟨e, he, heRow⟩ := List.mem_map.mp hrow
    have hget : Assoc.get es.pairs row.id = some (es.copyId row.id) := by
      rw [← heRow, copyId_of_mem hnodup he]
      exact Assoc.get_of_mem (by rwa [pairs_fst]) <| List.mem_map_of_mem he
    exact new_of_pairs hunique hget
  case messages =>
    refine ⟨newBranchId.val, by rw [h.chat]; rfl, ?_⟩
    rw [h.messagesOf hfk h48, copies_map_unlinked, hchild, rows_map_copied hnodup]
  case kept =>
    intro row
    rw [h.messagesOf hfk h48, Table.mem_def, h.messages, List.mem_append]
    rfl
  case count => rw [h.count, Entries.rows, List.length_map]
  case variants         => rw [hdb, ← hv]; exact hangs_of_attachedTo hprogress.variants
  case contentRevisions => rw [hdb, ← hr]; exact hangs_of_attachedTo hprogress.contentRevisions
  case blocks           => rw [hdb, ← hb]; exact hangs_of_attachedTo hprogress.blocks

theorem BranchCopied.linked_iff
    (h : BranchCopied w input parent activeBranchId s s' childChatId newBranchId es result)
    (hfk : ChatsExist s.db) (h48 : s'.ids.lastTimestamp < 2 ^ 48) :
    Linked s'.db es.rows result es.copyId ↔ ParentsFirst es.rows := by
  have hnodup : (([] ++ es : Entries).rows.map (·.id)).Nodup := h.rows_pairwise.right
  rw [Linked, h.messagesOf hfk h48, linked_parents]
  exact copies_parents_iff hnodup

end Spec

section Create

variable {w : World} {input : SnapshotInput} {parent : ChatRow} {activeBranchId : String} {source : MessageRow}
  {s : Session}

theorem wp_transaction {f : Tx α} {Q : α → Session → Prop} (h : Meets f Q { s with statements := s.statements + 1 }) :
    wp (transaction w f) Q (fun e s' => e = .statement ∧ s'.db = s.db) s := by
  simp only [wp, transaction]
  cases w.faults s.statements
  case true => exact ⟨rfl, rfl⟩
  case false =>
    simp only [Meets, wp] at h
    generalize f { s with statements := s.statements + 1 } = outcome at h
    obtain ⟨r, s'⟩ := outcome
    cases r
    case error e => exact ⟨h, rfl⟩
    case ok a =>
      cases hcommit : w.faults s'.statements
      case true  => simp [hcommit]
      case false => simpa [hcommit] using h

-- The messages of a branch up to the source.
def branchUpTo (db : Db) (chatId branchId : String) (source : Id) : List MessageRow :=
  upTo source <| activeRows db chatId branchId

theorem createSnapshot_meets (hparent : s.db.chats.get? input.parentChatId = some parent)
    (hactive : parent.activeBranchId = some activeBranchId) (hsource : source ∈ s.db.messages)
    (hid : source.id = input.sourceMessageId) (hchat : source.chatId = parent.id)
    (hbranch : source.branchId = activeBranchId) :
    wp (createSnapshot w input) (fun r s' => ∃ before childChatId branchId es result, before.db = s.db ∧
      r = some result ∧ BranchCopied w input parent activeBranchId before s' childChatId branchId es result)
      (fun e s' => e = .statement ∧ s'.db = s.db) s := by
  have hmessage : s.db.messages.get? input.sourceMessageId = some source := hid ▸ Table.get?_of_mem hsource
  have hparent' : s.db.chats.get? parent.id = some parent := Table.get?_of_mem <| Table.mem_of_get? hparent
  have hmem : input.sourceMessageId ∈ (activeRows s.db parent.id activeBranchId).map (·.id) :=
    List.mem_map.mpr ⟨source, mem_activeRows.mpr ⟨hsource, hchat, hbranch⟩, hid⟩
  apply wp_transaction
  apply Meets.bind
  apply Meets.select
  simp only [hparent]
  apply Meets.bind
  apply Meets.select
  simp only [hmessage]
  rw [if_neg (not_not.mpr hchat), hactive]
  simp only [hbranch, ne_eq, not_true_eq_false, if_false]
  apply Meets.mono <| copyBranch_meets (by exact hparent') (by exact hmem)
  rintro r s' ⟨childChatId, branchId, es, result, hr, h⟩
  exact ⟨{ s with statements := s.statements + 1 + 1 + 1 }, childChatId, branchId, es, result, rfl, hr, h⟩

-- A snapshot that fails leaves nothing behind; another one is an exact copy of the branch up to the source where
-- no message comes before its parent. Identifiers have room for 48 bits of time.
theorem createSnapshot_exact (hfk : ChatsExist s.db) (hparent : s.db.chats.get? input.parentChatId = some parent)
    (hactive : parent.activeBranchId = some activeBranchId) (hsource : source ∈ s.db.messages)
    (hid : source.id = input.sourceMessageId) (hchat : source.chatId = parent.id)
    (hbranch : source.branchId = activeBranchId) :
    (∀ e s', createSnapshot w input s = (.error e, s') → e = .statement ∧ s'.db = s.db) ∧
    (∀ r s', createSnapshot w input s = (.ok r, s') → ∃ result, r = some result ∧
      (s'.ids.lastTimestamp < 2 ^ 48 →
        (∃ copyId, IsSnapshot s.db s'.db (branchUpTo s.db parent.id activeBranchId source.id) result copyId) ∧
        ((∃ copyId, IsSnapshot s.db s'.db (branchUpTo s.db parent.id activeBranchId source.id) result copyId ∧
            Linked s'.db (branchUpTo s.db parent.id activeBranchId source.id) result copyId) ↔
          ParentsFirst (branchUpTo s.db parent.id activeBranchId source.id)))) := by
  have hmeets := createSnapshot_meets (w := w) hparent hactive hsource hid hchat hbranch
  constructor
  case left => exact fun e s' herror => (wp_of_error herror).mp hmeets
  case right =>
    intro r s' hok
    have ⟨before, _, _, es, result, hbefore, hr, h⟩ := (wp_of_ok hok).mp hmeets
    refine ⟨result, hr, fun h48 => ?_⟩
    have hrows : es.rows = branchUpTo s.db parent.id activeBranchId source.id := by
      rw [h.rows, hbefore, branchUpTo, hid]
    have hfk' : ChatsExist before.db := hbefore ▸ hfk
    have hsnapshot := h.isSnapshot hfk' h48
    have hlinked := h.linked_iff hfk' h48
    rw [hrows, hbefore] at hsnapshot
    rw [hrows] at hlinked
    refine ⟨⟨_, hsnapshot⟩, ?_, ?_⟩
    case refine_1 => exact fun ⟨_, h', hl⟩ => hlinked.mp <| (h'.linked_iff hsnapshot).mp hl
    case refine_2 => exact fun hfirst => ⟨_, hsnapshot, hlinked.mpr hfirst⟩

-- Two messages of a chat, the question written at `asked`.
def message (id : Id) (content : String) (parentId : Option Id) (createdAt : Int) : MessageRow where
  id                    := id
  chatId                := "chat"
  branchId              := "main"
  parentId              := parentId
  role                  := .user
  content               := content
  name                  := none
  metaJson              := "{}"
  createdAt             := createdAt
  revision              := 1
  updatedAt             := none
  idempotencyKey        := none
  variantCount          := 1
  activeVariantPosition := some 0
  contentRevisionCount  := 0
  checkpointChatId      := none

def question (asked : Int) : MessageRow :=
  message ⟨"q", by decide⟩ "Where to?" none asked

def answer : MessageRow :=
  message ⟨"r", by decide⟩ "North." (some (question 0).id) 20

def journey : ChatRow where
  id             := "chat"
  title          := "Journey"
  activeBranchId := some "main"
  createdAt      := 0
  updatedAt      := 0

def chatOf (asked : Int) : Session where
  db := {
    chats := {
      rows  := [journey]
      nodup := List.nodup_singleton _
    }
    chatBranches            := .empty
    messages := {
      rows  := [question asked, answer]
      nodup := show [(question 0).id, answer.id].Nodup by decide
    }
    messageVariants         := .empty
    messageContentRevisions := .empty
    messageBlockAttachments := .empty
  }
  ids        := .initial
  statements := 0

def quietWorld : World where
  clock       := 100
  environment := { dateNow := fun _ => 100, random := fun _ => 0 }
  faults      := fun _ => false

def fork (source : Id) : SnapshotInput where
  parentChatId    := "chat"
  sourceMessageId := source
  kind            := .branch

theorem exists_of_run {p : Tx α} {P : α → Session → Bool}
    (h : (match p s with | (.ok a, s') => P a s' | _ => false) = true) : ∃ a s', p s = (.ok a, s') ∧ P a s' := by
  generalize p s = outcome at h ⊢
  split at h
  case h_1 a s' => exact ⟨a, s', rfl, h⟩
  case h_2      => cases h

-- The clock has been set back before the answer: the copy of the answer has no parent.
theorem skewed_unlinked : ∃ result s',
    createSnapshot quietWorld (fork (question 0).id) (chatOf 30) = (.ok (some result), s') ∧
    ∀ copyId, ¬Linked s'.db (branchUpTo (chatOf 30).db "chat" "main" (question 0).id) result copyId := by
  have hrows : branchUpTo (chatOf 30).db "chat" "main" (question 0).id = [answer, question 30] := by
    decide +kernel
  have ⟨r, s', hok, hparents⟩ := exists_of_run
    (p := createSnapshot quietWorld (fork (question 0).id)) (s := chatOf 30)
    (P := fun r s' => r.any fun result =>
      decide ((messagesOf s'.db result.chat.id).map (·.parentId) = [none, none]))
    (by decide +kernel)
  cases r
  case none => cases hparents
  case some result =>
    refine ⟨result, s', hok, fun copyId h => ?_⟩
    rw [Linked, of_decide_eq_true hparents, hrows] at h
    simp [answer, question, message] at h

-- With the question first, the copies are a question and its answer too.
theorem ordered_linked : ∃ result s' copyId,
    createSnapshot quietWorld (fork answer.id) (chatOf 10) = (.ok (some result), s') ∧
    IsSnapshot (chatOf 10).db s'.db (branchUpTo (chatOf 10).db "chat" "main" answer.id) result copyId ∧
    Linked s'.db (branchUpTo (chatOf 10).db "chat" "main" answer.id) result copyId := by
  have hrows : branchUpTo (chatOf 10).db "chat" "main" answer.id = [question 10, answer] := by
    decide +kernel
  have ⟨r, s', hok, hids⟩ := exists_of_run (p := createSnapshot quietWorld (fork answer.id)) (s := chatOf 10)
    (P := fun _ s' => decide (s'.ids.lastTimestamp < 2 ^ 48)) (by decide +kernel)
  have hfk : ∀ row ∈ (chatOf 10).db.messages.rows, ((chatOf 10).db.chats.get? row.chatId).isSome := by
    decide +kernel
  have hparent : (chatOf 10).db.chats.get? (fork answer.id).parentChatId = some journey := by decide +kernel
  have hsource : answer ∈ (chatOf 10).db.messages := List.mem_cons_of_mem _ List.mem_cons_self
  have hexact := createSnapshot_exact (w := quietWorld) hfk hparent rfl hsource rfl rfl rfl
  have ⟨result, hr, hsnapshot⟩ := hexact.right r s' hok
  have hfirst : ParentsFirst (branchUpTo (chatOf 10).db "chat" "main" answer.id) := by
    rw [hrows]
    exact List.pairwise_pair.mpr nofun
  have ⟨copyId, h⟩ := (hsnapshot <| of_decide_eq_true hids).right.mpr hfirst
  exact ⟨result, s', copyId, hr ▸ hok, h⟩

end Create

end Repositories.Snapshots
