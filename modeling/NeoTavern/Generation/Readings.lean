import Mathlib
import NeoTavern.Generation.Growth

open Wire Storage Kernel Paging

section Cursors

theorem utf8ByteSize_of_ascii {s : String} (h : ∀ c ∈ s.toList, c.val ≤ 127) :
    s.utf8ByteSize = s.toList.length := by
  rw [String.length_toList]
  exact (utf8ByteSize_eq_length_iff s).mpr fun c hc => Char.utf8Size_eq_one_iff.mpr <| h c hc

theorem forall_of_matchPrefix {ps : List (Char → Bool)} {P : Char → Prop}
    (h : matchPrefix ps cs = some []) (hp : ∀ p ∈ ps, ∀ c, p c → P c) :
    cs.length = ps.length ∧ ∀ c ∈ cs, P c := by
  induction ps generalizing cs
  case nil =>
    cases h
    exact ⟨rfl, by simp⟩
  case cons p ps ih =>
    obtain ⟨hpc, hps⟩ := List.forall_mem_cons.mp hp
    cases cs
    case nil => cases h
    case cons c cs =>
      simp only [matchPrefix] at h
      split at h
      case isFalse   => cases h
      case isTrue hc =>
        obtain ⟨hlen, hcs⟩ := ih h hps
        exact ⟨congrArg (· + 1) hlen, List.forall_mem_cons.mpr ⟨hpc c hc, hcs⟩⟩

theorem ascii_of_le {c d : Char} (h : c ≤ d) (hd : d.val ≤ 127) : c.val ≤ 127 :=
  UInt32.le_trans h hd

theorem uuidPattern_ascii : ∀ p ∈ uuidPattern, ∀ c, p c → c.val ≤ 127 := by
  have hhex (c : Char) (hc : isHexDigit c) : c.val ≤ 127 := by
    simp only [isHexDigit, Bool.or_eq_true, Bool.and_eq_true, decide_eq_true_eq] at hc
    rcases hc with (⟨_, hc⟩ | ⟨_, hc⟩) | ⟨_, hc⟩
    · exact ascii_of_le hc <| by decide
    · exact ascii_of_le hc <| by decide
    · exact ascii_of_le hc <| by decide
  have hhexes (n : Nat) : ∀ p ∈ List.replicate n isHexDigit, ∀ c, p c → c.val ≤ 127 :=
    fun p hp c hc => hhex c <| List.eq_of_mem_replicate hp ▸ hc
  have hdash (c : Char) (hc : c = '-') : c.val ≤ 127 := hc ▸ by decide
  have hvariant (c : Char) (hc : c ∈ "89abAB".toList) : c.val ≤ 127 := by
    have hall : "89abAB".toList.all (fun c => decide (c.val ≤ 127)) = true := by decide
    exact of_decide_eq_true <| List.all_eq_true.mp hall c hc
  simp only [uuidPattern, List.forall_mem_append, List.forall_mem_singleton, beq_iff_eq,
    Bool.and_eq_true, decide_eq_true_eq, List.contains_iff_mem]
  refine ⟨⟨⟨⟨⟨⟨⟨⟨⟨⟨hhexes _, hdash⟩, hhexes _⟩, hdash⟩, ?_⟩, hhexes _⟩, hdash⟩, hvariant⟩, hhexes _⟩,
    hdash⟩, hhexes _⟩
  exact fun c hc => ascii_of_le hc.right <| by decide

theorem utf8ByteSize_of_isUuid (h : isUuid s) : s.utf8ByteSize = 36 := by
  have ⟨hlen, hascii⟩ := forall_of_matchPrefix (beq_iff_eq.mp h) uuidPattern_ascii
  rw [utf8ByteSize_of_ascii hascii, hlen]
  rfl

theorem utf8ByteSize_toString (h₀ : 0 ≤ n) (h : n < 2 ^ 63) : (toString (n : Int)).utf8ByteSize ≤ 19 := by
  obtain ⟨k, rfl⟩ := Int.eq_ofNat_of_zero_le h₀
  have htext : (toString (k : Int)).toList = Nat.toDigits 10 k := Nat.toList_repr
  have hascii : ∀ c ∈ (toString (k : Int)).toList, c.val ≤ 127 := by
    rw [htext]
    intro c hc
    have hdigit : c.isDigit := Nat.isDigit_of_mem_toDigits (by decide) (by decide) hc
    simp only [Char.isDigit, Bool.and_eq_true, decide_eq_true_eq] at hdigit
    exact UInt32.le_trans hdigit.right <| by decide
  rw [utf8ByteSize_of_ascii hascii, htext, Nat.length_toDigits_le_iff (by decide) (by decide)]
  omega

theorem messageCursor_fits (hm : checkMessageDto m "" = []) (hr : m.sequence < 2 ^ 63) :
    Fits (messageCursor m) := by
  have ⟨hid, _, _, _, h₀, _⟩ := checkMessageDto_eq_nil_iff.mp hm
  have hseq := utf8ByteSize_toString h₀ hr
  have hbar : "|".utf8ByteSize = 1 := rfl
  have hbytes : ("|".intercalate [toString m.sequence, m.id]).utf8ByteSize =
      (toString m.sequence).utf8ByteSize + (1 + 36) := by
    rw [String.intercalate_cons_cons, String.intercalate_singleton, String.utf8ByteSize_append,
      String.utf8ByteSize_append, hbar, utf8ByteSize_of_isUuid hid]
  rw [Fits, messageCursor, encodeMessageCursor, utf16Length_encodeParts, hbytes]
  omega

theorem decode_messageCursor (hm : checkMessageDto m "" = []) (hr : m.sequence < 2 ^ 63) :
    decodeMessageCursor (messageCursor m) = .ok (m.sequence, m.id) := by
  have ⟨hid, _, _, _, h₀, _⟩ := checkMessageDto_eq_nil_iff.mp hm
  exact decodeMessageCursor_encodeMessageCursor h₀ hr <| ne_empty_of_isUuid hid

end Cursors

section Messages

variable {d d' : Db} {chatId : String} {limit : Nat} {cursor : Option String}

-- What a client asks for that lists the messages of `chatId` in pages of `limit`.
def messagesPage (chatId : String) (limit : Nat) (d : Db) (cursor : Option String) :
    Except KernelError (Page MessageDto String) :=
  (messagesList d <| .object ⟨chatId, cursor, some limit⟩).map fun p => ⟨p.items, p.nextCursor⟩

-- What the query of a request with this cursor selects, page limit aside.
def messagesWindow (chatId : String) (d : Db) (cursor : Option String) : List MessageDto :=
  match cursor.mapM decodeMessageCursor with
  | .ok after => selectMessages d chatId after
  | .error _  => []

def messagesOf (chatId : String) (d : Db) : List MessageDto :=
  orderBy messageKey <| (messageRows d).filter (·.chatId = chatId)

theorem messageRows_keys : (messageRows d).Pairwise (messageKey · ≠ messageKey ·) := by
  have hids : (messageRows d).Pairwise (·.id ≠ ·.id) := by
    rw [messageRows, List.pairwise_map]
    exact List.pairwise_map.mp d.messages.nodup
  apply hids.imp
  intro m m' hne he
  exact hne <| congrArg (fun k => (ofLex k).snd) he

theorem messagesOf_ordered : (messagesOf chatId d).Pairwise (messageKey · < messageKey ·) :=
  orderBy_pairwise <| messageRows_keys.filter _

theorem mem_messagesOf : m ∈ messagesOf chatId d ↔ m ∈ messageRows d ∧ m.chatId = chatId := by
  rw [messagesOf, mem_orderBy, List.mem_filter, decide_eq_true_eq]

theorem messageKey_lt_iff : messageKey m < messageKey m' ↔
    m.sequence < m'.sequence ∨ m.sequence = m'.sequence ∧ m.id < m'.id := by
  rw [messageKey, messageKey, Prod.Lex.toLex_lt_toLex]

theorem selectMessages_none : selectMessages d chatId none = messagesOf chatId d := by
  have hsame : messageSelected chatId none = fun m => decide (m.chatId = chatId) := by
    funext m
    simp [messageSelected]
  rw [selectMessages, messagesOf, hsame]

theorem selectMessages_some : selectMessages d chatId (some (m.sequence, m.id)) =
    (messagesOf chatId d).filter (messageKey m < messageKey ·) := by
  apply orderBy_filter_eq messageRows_keys <| messagesOf_ordered.filter _
  intro m'
  rw [List.mem_filter, mem_messagesOf, decide_eq_true_eq, messageKey_lt_iff]
  simp [messageSelected, and_assoc, eq_comm (a := m.sequence)]

theorem messagesWindow_none : messagesWindow chatId d none = messagesOf chatId d :=
  selectMessages_none

theorem messagesWindow_some (hm : checkMessageDto m "" = []) (hr : m.sequence < 2 ^ 63) :
    messagesWindow chatId d (some <| messageCursor m) =
    (messagesOf chatId d).filter (messageKey m < messageKey ·) := by
  rw [← selectMessages_some]
  simp [messagesWindow, decode_messageCursor hm hr]

-- What comes stands behind.
theorem Appends.messagesOf_prefix (h : Appends d d') : messagesOf chatId d <+: messagesOf chatId d' := by
  have ⟨ms, hms, hlt⟩ := h.messages
  have hrows : messageRows d' = messageRows d ++ ms.map messageDto := by
    rw [messageRows, messageRows, hms, List.map_append]
  have hkeys := messageRows_keys (d := d')
  rw [hrows] at hkeys
  have hnew := (List.pairwise_append.mp hkeys).right.left
  have hordered := orderBy_pairwise <| hnew.filter (·.chatId = chatId)
  refine ⟨orderBy messageKey <| (ms.map messageDto).filter (·.chatId = chatId), ?_⟩
  have hboth : (messagesOf chatId d ++ orderBy messageKey
      ((ms.map messageDto).filter (·.chatId = chatId))).Pairwise (messageKey · < messageKey ·) := by
    refine List.pairwise_append.mpr ⟨messagesOf_ordered, hordered, fun x hx y hy => ?_⟩
    have ⟨hx, hxchat⟩ := mem_messagesOf.mp hx
    have ⟨hy, hychat⟩ := List.mem_filter.mp <| mem_orderBy.mp hy
    obtain ⟨m', hm', rfl⟩ := List.mem_map.mp hx
    obtain ⟨m, hm, rfl⟩   := List.mem_map.mp hy
    have hchat : m'.chatId = m.chatId := hxchat.trans (of_decide_eq_true hychat).symm
    exact messageKey_lt_iff.mpr <| .inl <| hlt m hm m' hm' hchat
  apply eq_of_ordered hboth messagesOf_ordered
  intro x
  rw [List.mem_append, mem_messagesOf, mem_orderBy, List.mem_filter, mem_messagesOf, hrows,
    List.mem_append, decide_eq_true_eq, or_and_right]

theorem messagesPage_eq_ok_iff (hl : 1 ≤ limit) (hu : limit ≤ 200) :
    messagesPage chatId limit d cursor = .ok p ↔
    isUuid chatId ∧ (∀ k ∈ cursor, Fits k) ∧ (d.chats.get? chatId).isSome ∧
    (∃ after, cursor.mapM decodeMessageCursor = .ok after) ∧
    p = cut limit messageCursor (messagesWindow chatId d cursor) ∧
    (∀ m ∈ p.items, checkMessageDto m "" = []) ∧ ∀ k ∈ p.next, Fits k := by
  have hrange : (1 : Int) ≤ limit ∧ (limit : Int) ≤ 200 := by omega
  obtain ⟨items, next⟩ := p
  have hok : messagesPage chatId limit d cursor = .ok ⟨items, next⟩ ↔
      messagesList d (.object ⟨chatId, cursor, some limit⟩) = .ok ⟨items, next⟩ := by
    cases h : messagesList d (.object ⟨chatId, cursor, some limit⟩) <;>
      simp [messagesPage, h, Except.map]
    case ok a =>
      obtain ⟨items', next'⟩ := a
      rw [PagedMessages.mk.injEq]
  rw [hok, messagesList, answer_eq_ok_iff, checkRequestListMessages_eq_nil_iff,
    checkPagedMessages_eq_nil_iff]
  cases hchat : d.chats.get? chatId
  case none => simp
  case some =>
    cases ha : cursor.mapM decodeMessageCursor
    case error => simp [bind, Except.bind]
    case ok after =>
      have hcut := cut_take (n := limit) (f := messageCursor) (l := selectMessages d chatId after)
      have hwindow : messagesWindow chatId d cursor = selectMessages d chatId after := by
        rw [messagesWindow, ha]
      rw [hwindow, ← hcut]
      simp [bind, Except.bind, pure, Except.pure, pageLimit_some hl hu, cut, Fits, hrange, and_assoc]
      intro _ _
      rw [eq_comm (a := items), eq_comm (a := next)]

theorem valid_of_messagesPage (hl : 1 ≤ limit) (hu : limit ≤ 200)
    (h : messagesPage chatId limit d cursor = .ok p) : ∀ m ∈ p.items, checkMessageDto m "" = [] :=
  ((messagesPage_eq_ok_iff hl hu).mp h).right.right.right.right.right.left

end Messages

section MessageReadings

variable {j k : Journal Label Db} {ks : List (Journal Label Db)} {chatId : String} {limit : Nat}

-- The points of the history `j` at which the pages are read, one after the other. In between only
-- appending commits are made.
structure Readings (j : Journal Label Db) (ks : List (Journal Label Db)) : Prop where
  earlier : ∀ k ∈ ks, Earlier k j
  chain   : ks.IsChain Extends

theorem Readings.chain_within (h : Readings j ks) :
    ks.IsChain fun k k' => Extends k k' ∧ Earlier k' j :=
  List.IsChain.imp_of_mem_imp (fun _ k' _ hk' hext => ⟨hext, h.earlier k' hk'⟩) h.chain

-- What the wire takes of a chat: its identifier and each of its messages.
structure Listed (chatId : String) (d : Db) : Prop where
  chat     : isUuid chatId
  messages : ∀ m ∈ messagesOf chatId d, checkMessageDto m "" = []

-- The sequences of the messages are what the column holds.
def SequencesFit (j : Journal Label Db) : Prop :=
  ∀ k, Earlier k j → ∀ m ∈ k.state.messages, m.sequence < 2 ^ 63

def MessagesServed (chatId : String) (limit : Nat) (k : Journal Label Db)
    (ks : List (Journal Label Db)) : Prop :=
  ∃ items ended,
    readPages (fun k => messagesPage chatId limit k.state) (k :: ks) none = .ok (items, ended) ∧
    Complete (messageKey · < messageKey ·) (messagesOf chatId k.state) (limit * (ks.length + 1))
      items ended

-- A cursor that a walk through the messages can have.
structure FollowsMessages (chatId : String) (j k : Journal Label Db) (cursor : Option String) :
    Prop where
  earlier : Earlier k j
  chat    : (k.state.chats.get? chatId).isSome
  known   : ∀ c ∈ cursor, ∃ b ∈ messagesOf chatId k.state, c = messageCursor b

theorem SequencesFit.lt (h : SequencesFit j) (hk : Earlier k j) (hm : m ∈ messagesOf chatId k.state) :
    m.sequence < 2 ^ 63 := by
  obtain ⟨m', hm', rfl⟩ := List.mem_map.mp (mem_messagesOf.mp hm).left
  exact h k hk m' hm'

variable {cursor : Option String}

theorem FollowsMessages.window (h : FollowsMessages chatId j k cursor)
    (hlisted : Listed chatId k.state) (hfit : SequencesFit j) :
    ∃ p : MessageDto → Bool, (∀ x y, p x → messageKey x < messageKey y → p y) ∧
      messagesWindow chatId k.state cursor = (messagesOf chatId k.state).filter p := by
  cases cursor
  case none =>
    refine ⟨fun _ => true, fun _ _ _ _ => rfl, ?_⟩
    rw [messagesWindow_none, List.filter_true]
  case some c =>
    obtain ⟨b, hb, rfl⟩ := h.known c rfl
    refine ⟨fun m => messageKey b < messageKey m, fun x y hx hlt => ?_, ?_⟩
    · exact decide_eq_true <| lt_trans (of_decide_eq_true hx) hlt
    · exact messagesWindow_some (hlisted.messages b hb) <| hfit.lt h.earlier hb

-- The last message of a page that is not the last.
theorem FollowsMessages.rest (h : FollowsMessages chatId j k cursor)
    (hlisted : Listed chatId k.state) (hfit : SequencesFit j)
    (hw : messagesWindow chatId k.state cursor = pre ++ b :: post) :
    b ∈ messagesOf chatId k.state ∧
      post = (messagesOf chatId k.state).filter (messageKey b < messageKey ·) := by
  have ⟨p, hp, hwindow⟩ := h.window hlisted hfit
  exact rest_of_filter messagesOf_ordered hp <| hwindow.symm.trans hw

theorem FollowsMessages.page (h : FollowsMessages chatId j k cursor) (hl : 1 ≤ limit) (hu : limit ≤ 200)
    (hlisted : Listed chatId k.state) (hfit : SequencesFit j) :
    messagesPage chatId limit k.state cursor =
    .ok (cut limit messageCursor <| messagesWindow chatId k.state cursor) := by
  have ⟨p, hp, hwindow⟩ := h.window hlisted hfit
  have hmem {m} (hm : m ∈ messagesWindow chatId k.state cursor) : m ∈ messagesOf chatId k.state := by
    rw [hwindow] at hm
    exact (List.mem_filter.mp hm).left
  have hfits {m} (hm : m ∈ messagesOf chatId k.state) : Fits (messageCursor m) :=
    messageCursor_fits (hlisted.messages m hm) <| hfit.lt h.earlier hm
  apply (messagesPage_eq_ok_iff hl hu).mpr
  refine ⟨hlisted.chat, ?_, h.chat, ?_, rfl, ?_, ?_⟩
  · intro c hc
    obtain ⟨b, hb, rfl⟩ := h.known c hc
    exact hfits hb
  · cases cursor
    case none   => exact ⟨none, rfl⟩
    case some c =>
      obtain ⟨b, hb, rfl⟩ := h.known c rfl
      have hdecode := decode_messageCursor (hlisted.messages b hb) <| hfit.lt h.earlier hb
      exact ⟨some (b.sequence, b.id), by simp [hdecode]⟩
  · exact fun m hm => hlisted.messages m <| hmem <| mem_of_cut hm
  · intro c hc
    obtain ⟨b, hb, rfl⟩ := boundary_of_cut hl hc
    exact hfits <| hmem hb.mem

theorem messages_stable (hj : Reachable j) (hl : 1 ≤ limit) (hu : limit ≤ 200)
    (hlisted : ∀ k, Earlier k j → (k.state.chats.get? chatId).isSome → Listed chatId k.state)
    (hfit : SequencesFit j) :
    Stable (fun k => messagesPage chatId limit k.state) (fun k k' => Extends k k' ∧ Earlier k' j)
      (fun k => messagesWindow chatId k.state) limit messageCursor
      (messageKey · < messageKey ·) (FollowsMessages chatId j) := by
  have hlisted' {k c} (h : FollowsMessages chatId j k c) := hlisted k h.earlier h.chat
  -- The window after the last message of a page, in a later state.
  have hnext {k k' c pre b post} (h : FollowsMessages chatId j k c)
      (hext : Extends k k' ∧ Earlier k' j) (hw : messagesWindow chatId k.state c = pre ++ b :: post) :
      FollowsMessages chatId j k' (some <| messageCursor b) ∧ post <+: (messagesOf chatId k'.state).filter
        (messageKey b < messageKey ·) ∧ messagesWindow chatId k'.state (some <| messageCursor b) =
        (messagesOf chatId k'.state).filter (messageKey b < messageKey ·) := by
    have ⟨hb, hpost⟩ := h.rest (hlisted' h) hfit hw
    have happends := hext.left.appends (hext.right.reachable hj)
    have hprefix : messagesOf chatId k.state <+: messagesOf chatId k'.state := happends.messagesOf_prefix
    have hb'      := hprefix.subset hb
    have hfollows : FollowsMessages chatId j k' (some <| messageCursor b) := by
      refine ⟨hext.right, happends.chats ▸ h.chat, ?_⟩
      rintro _ ⟨⟩
      exact ⟨b, hb', rfl⟩
    refine ⟨hfollows, hpost ▸ hprefix.filter _, ?_⟩
    exact messagesWindow_some ((hlisted' hfollows).messages b hb') <| hfit.lt hext.right hb'
  constructor
  case page   => exact fun k c h => h.page hl hu (hlisted' h) hfit
  case sorted =>
    intro k c h
    have ⟨p, _, hw⟩ := h.window (hlisted' h) hfit
    exact hw ▸ messagesOf_ordered.filter p
  case next   => exact fun k k' c pre b post h hext hw => (hnext h hext hw).left
  case left   =>
    intro k k' c pre b post h hext hw
    have ⟨_, hprefix, hwindow⟩ := hnext h hext hw
    exact hwindow ▸ hprefix
  case after  =>
    intro k k' c pre b post h hext hw x hx
    have ⟨_, _, hwindow⟩ := hnext h hext hw
    rw [hwindow] at hx
    exact of_decide_eq_true (List.mem_filter.mp hx).right

theorem messages_served (hj : Reachable j) (hl : 1 ≤ limit) (hu : limit ≤ 200)
    (hlisted : ∀ k, Earlier k j → (k.state.chats.get? chatId).isSome → Listed chatId k.state)
    (hfit : SequencesFit j) (hr : Readings j (k :: ks)) (hk : (k.state.chats.get? chatId).isSome) :
    MessagesServed chatId limit k ks := by
  have hstable := messages_stable hj hl hu hlisted hfit
  have hfollows : FollowsMessages chatId j k none := ⟨hr.earlier k List.mem_cons_self, hk, nofun⟩
  have ⟨items, ended, hread, hserved⟩ := hstable.served hl (fun _ _ _ => lt_trans) hfollows hr.chain_within
  rw [messagesWindow_none] at hserved
  exact ⟨items, ended, hread, hserved.complete⟩

-- Reading the same point over and over shows every message of the chat.
theorem listed_of_served (hl : 1 ≤ limit) (hu : limit ≤ 200) (hn : (messagesOf chatId k.state).length ≤ n)
    (h : MessagesServed chatId limit k (List.replicate n k)) : Listed chatId k.state := by
  have ⟨items, ended, hread, hcomplete⟩ := h
  have hlen : (messagesOf chatId k.state).length ≤ limit * ((List.replicate n k).length + 1) := by
    rw [List.length_replicate]
    have := Nat.le_mul_of_pos_left (n + 1) hl
    omega
  have hvalid := readPages_forall (P := fun m => checkMessageDto m "" = [])
    (fun _ _ _ => valid_of_messagesPage hl hu) hread
  have ⟨_, hfirst⟩ := readPages_first hread
  constructor
  case chat     => exact ((messagesPage_eq_ok_iff hl hu).mp hfirst).left
  case messages => exact fun m hm => hvalid m <| hcomplete.all (.inr hlen) m hm

end MessageReadings

open Wire Storage Kernel Paging

section Pages

variable {d d' : Db} {runId : String} {limit : Nat} {cursor : Option Int}

-- What a client asks for that follows the events of `runId` in pages of `limit`: the next page is
-- the one after the last event, as long as there are more.
def eventsPage (runId : String) (limit : Nat) (d : Db) (cursor : Option Int) :
    Except KernelError (Page EventEnvelope Int) :=
  (generationEventsList d <| .object ⟨runId, cursor, some limit⟩).map fun p =>
    ⟨p.items, if p.hasMore then p.items.getLast?.map (·.sequence) else none⟩

def eventsOfRun (runId : String) (d : Db) : List EventEnvelope :=
  (d.entries runId).map fun e => ⟨runId, e.fst, e.snd.type, e.snd⟩

def eventsWindow (runId : String) (d : Db) (cursor : Option Int) : List EventEnvelope :=
  (eventsOfRun runId d).filter (cursor.getD (-1) < ·.sequence)

theorem eventsOfRun_eq (hc : d.Consistent) :
    eventsOfRun runId d = (d.eventsOf runId).map (envelope runId) := by
  rw [eventsOfRun, Db.entries, List.map_map]
  apply List.map_congr_left
  intro e he
  have htype := hc.type e (Db.mem_eventsOf.mp he).left
  rw [Function.comp_apply, envelope, htype]

theorem numbered_eventsOf (hn : Numbered Prod.fst (d.entries runId)) :
    Numbered (·.sequence) (d.eventsOf runId) := by
  rw [Numbered, Db.entries, List.map_map, List.length_map] at hn
  exact hn

theorem eventsOfRun_ordered (hn : Numbered Prod.fst (d.entries runId)) :
    (eventsOfRun runId d).Pairwise (·.sequence < ·.sequence) := by
  rw [eventsOfRun, List.pairwise_map]
  exact hn.pairwise

theorem sequence_nonneg (hn : Numbered Prod.fst (d.entries runId)) (he : e ∈ eventsOfRun runId d) :
    0 ≤ e.sequence := by
  obtain ⟨x, hx, rfl⟩ := List.mem_map.mp he
  exact (hn.mem_num_lt hx).left

-- The rows of the query are the events after the cursor.
theorem eventsAfter_eq (hn : Numbered Prod.fst (d.entries runId)) (hc : d.Consistent) (ha : -1 ≤ after) :
    (eventsAfter d runId after n).map (envelope runId) =
    ((eventsOfRun runId d).filter (after < ·.sequence)).take n := by
  have hrows := numbered_eventsOf hn
  rw [eventsAfter, hrows.filter_lt ha, hrows.mergeSort_drop, ← hrows.filter_lt ha, List.map_take,
    eventsOfRun_eq hc, List.filter_map]
  rfl

theorem getLast?_take {l : List α} (hn : 0 < n) (h : n < l.length) : (l.take n).getLast? = l[n - 1]? := by
  rw [List.getLast?_eq_getElem?, List.length_take, Nat.min_eq_left h.le, List.getElem?_take]
  exact if_pos <| by omega

theorem checkPagedGenerationEvents_eq_nil_iff {p : PagedGenerationEvents} :
    checkPagedGenerationEvents p path = [] ↔ ∀ e ∈ p.items, isUuid e.streamId ∧ 0 ≤ e.sequence := by
  apply checkEach_eq_nil_iff
  intro path e
  rw [checkEventEnvelope, List.append_eq_nil_iff, checkFormat_eq_nil_iff, checkMinimum_eq_nil_iff]

theorem generationEventsList_eq (hn : Numbered Prod.fst (d.entries runId)) (hc : d.Consistent)
    (hl : 1 ≤ limit) (hu : limit ≤ 200) (hi : isUuid runId) (hr : (d.runs.get? runId).isSome)
    (hcursor : ∀ c ∈ cursor, -1 ≤ c) :
    generationEventsList d (.object ⟨runId, cursor, some limit⟩) =
    .ok ⟨(eventsWindow runId d cursor).take limit, limit < (eventsWindow runId d cursor).length⟩ := by
  have hrange : (1 : Int) ≤ limit ∧ (limit : Int) ≤ 200 := by omega
  have hafter : -1 ≤ cursor.getD (-1) := by
    cases cursor
    case none   => exact Int.le_refl _
    case some c => exact hcursor c rfl
  have hrows := eventsAfter_eq (n := limit + 1) hn hc hafter
  have hitems : ((eventsAfter d runId (cursor.getD (-1)) (limit + 1)).take limit).map (envelope runId) =
      (eventsWindow runId d cursor).take limit := by
    rw [List.map_take, hrows, List.take_take, Nat.min_eq_left <| Nat.le_succ limit]
    rfl
  have hmore : limit < (eventsAfter d runId (cursor.getD (-1)) (limit + 1)).length ↔
      limit < (eventsWindow runId d cursor).length := by
    have hlen := congrArg List.length hrows
    rw [List.length_map, List.length_take] at hlen
    rw [eventsWindow, hlen]
    omega
  apply answer_eq_ok_iff.mpr
  refine ⟨checkRequestListGenerationEvents_eq_nil_iff.mpr ⟨hi, hcursor, ?_⟩, ?_, ?_⟩
  · rintro _ ⟨⟩
    exact hrange
  · have hsome : (d.runs.get? runId).isNone = false := by simpa using hr
    simp only [hsome, Bool.false_eq_true, if_false, pageLimit_some hl hu, hitems, hmore]
  · apply checkPagedGenerationEvents_eq_nil_iff.mpr
    intro e he
    have hmem := (List.mem_filter.mp <| List.mem_of_mem_take he).left
    obtain ⟨_, _, hid⟩ := List.mem_map.mp hmem
    exact ⟨hid ▸ hi, sequence_nonneg hn hmem⟩

theorem eventsPage_eq (hn : Numbered Prod.fst (d.entries runId)) (hc : d.Consistent)
    (hl : 1 ≤ limit) (hu : limit ≤ 200) (hi : isUuid runId) (hr : (d.runs.get? runId).isSome)
    (hcursor : ∀ c ∈ cursor, -1 ≤ c) :
    eventsPage runId limit d cursor = .ok (cut limit (·.sequence) <| eventsWindow runId d cursor) := by
  rw [eventsPage, generationEventsList_eq hn hc hl hu hi hr hcursor, cut, Except.map]
  by_cases hlt : limit < (eventsWindow runId d cursor).length
  case pos => simp only [hlt, decide_true, if_true, getLast?_take hl hlt]
  case neg => simp only [hlt, decide_false, Bool.false_eq_true, if_false]

end Pages

section EventReadings

variable {j k : Journal Label Db} {ks : List (Journal Label Db)} {runId : String} {limit : Nat}

def EventsServed (runId : String) (limit : Nat) (k : Journal Label Db)
    (ks : List (Journal Label Db)) : Prop :=
  ∃ items ended,
    readPages (fun k => eventsPage runId limit k.state) (k :: ks) none = .ok (items, ended) ∧
    Complete (·.sequence < ·.sequence) (eventsOfRun runId k.state) (limit * (ks.length + 1))
      items ended

-- A cursor that a walk through the events can have.
structure FollowsEvents (runId : String) (j k : Journal Label Db) (cursor : Option Int) : Prop where
  earlier : Earlier k j
  run     : (k.state.runs.get? runId).isSome
  cursor  : ∀ c ∈ cursor, -1 ≤ c

theorem EventsAppend.eventsOfRun_prefix {d d' : Db} (h : EventsAppend runId d d') :
    eventsOfRun runId d <+: eventsOfRun runId d' :=
  h.entries.map _

theorem events_stable (hj : Reachable j) (hl : 1 ≤ limit) (hu : limit ≤ 200) (hi : isUuid runId) :
    Stable (fun k => eventsPage runId limit k.state) (fun k k' => Extends k k' ∧ Earlier k' j)
      (fun k => eventsWindow runId k.state) limit (·.sequence)
      (·.sequence < ·.sequence) (FollowsEvents runId j) := by
  have hnumbered {k} (h : Earlier k j) := (h.reachable hj).numbered runId
  have hrest {k c pre b post} (h : Earlier k j) (hw : eventsWindow runId k.state c = pre ++ b :: post) :=
    rest_of_filter (eventsOfRun_ordered <| hnumbered h)
      (fun x y hx hlt => decide_eq_true <| lt_trans (of_decide_eq_true hx) hlt) hw
  constructor
  case page =>
    intro k c h
    exact eventsPage_eq (hnumbered h.earlier) (h.earlier.reachable hj).consistent hl hu hi h.run h.cursor
  case sorted => exact fun k c h => (eventsOfRun_ordered <| hnumbered h.earlier).filter _
  case next =>
    intro k k' c pre b post h hext hw
    have happend := hext.left.events_append (hext.right.reachable hj) h.run
    have hb := sequence_nonneg (hnumbered h.earlier) (hrest h.earlier hw).left
    refine ⟨hext.right, happend.run, ?_⟩
    rintro _ ⟨⟩
    omega
  case left =>
    intro k k' c pre b post h hext hw
    have happend := hext.left.events_append (hext.right.reachable hj) h.run
    rw [(hrest h.earlier hw).right]
    exact happend.eventsOfRun_prefix.filter _
  case after =>
    intro k k' c pre b post h hext hw x hx
    exact of_decide_eq_true (List.mem_filter.mp hx).right

theorem events_served (hj : Reachable j) (hl : 1 ≤ limit) (hu : limit ≤ 200) (hi : isUuid runId)
    (hr : Readings j (k :: ks)) (hk : (k.state.runs.get? runId).isSome) :
    EventsServed runId limit k ks := by
  have hstable := events_stable hj hl hu hi
  have hearlier := hr.earlier k List.mem_cons_self
  have hfollows : FollowsEvents runId j k none := ⟨hearlier, hk, nofun⟩
  have ⟨items, ended, hread, hserved⟩ := hstable.served hl (fun _ _ _ => lt_trans) hfollows hr.chain_within
  have hwindow : eventsWindow runId k.state none = eventsOfRun runId k.state := by
    apply List.filter_eq_self.mpr
    intro e he
    have := sequence_nonneg ((hearlier.reachable hj).numbered runId) he
    exact decide_eq_true <| by rw [Option.getD_none]; omega
  rw [hwindow] at hserved
  exact ⟨items, ended, hread, hserved.complete⟩

end EventReadings

section Stability

variable {j k : Journal Label Db}

theorem Readings.same (h : Earlier k j) (n : Nat) : Readings j (k :: List.replicate n k) where
  earlier := by
    intro k' hk'
    have he : k' = k := (List.mem_cons.mp hk').elim id List.eq_of_mem_replicate
    exact he ▸ h
  chain := by
    induction n
    case zero      => exact .singleton k
    case succ n ih => exact .cons_cons (.refl k) ih

-- The walks through the events of a run are always stable, those through the messages of a chat
-- wherever the wire takes what the chat holds.
theorem paging_stable_iff (hj : Reachable j) (hfit : SequencesFit j) :
    ((∀ chatId limit k ks, 1 ≤ limit → limit ≤ 200 → Readings j (k :: ks) →
        (k.state.chats.get? chatId).isSome → MessagesServed chatId limit k ks) ∧
      ∀ runId limit k ks, 1 ≤ limit → limit ≤ 200 → Readings j (k :: ks) →
        (k.state.runs.get? runId).isSome → EventsServed runId limit k ks) ↔
    ∀ chatId k, Earlier k j → (k.state.chats.get? chatId).isSome → Listed chatId k.state := by
  constructor
  case mp =>
    intro ⟨hmessages, _⟩ chatId k hk hchat
    have hserved := hmessages chatId 1 k (List.replicate (messagesOf chatId k.state).length k)
      (by decide) (by decide) (.same hk _) hchat
    exact listed_of_served (by decide) (by decide) (Nat.le_refl _) hserved
  case mpr =>
    intro hlisted
    constructor
    case left =>
      intro chatId limit k ks hl hu hr hchat
      exact messages_served hj hl hu (hlisted chatId) hfit hr hchat
    case right =>
      intro runId limit k ks hl hu hr hrun
      have hnamed := ((hr.earlier k List.mem_cons_self).reachable hj).runs_named
      exact events_served hj hl hu (hnamed runId hrun) hr hrun

namespace Sample

def message (id content : String) (sequence : Int) : MessageRow where
  id              := id
  chatId          := chatId
  role            := .user
  content         := content
  sequence        := sequence
  generationRunId := none
  createdAt       := "2026-01-01T00:00:00Z"

-- A chat with these messages, before the first run.
def chatting (messages : Table String MessageRow (·.id)) : Db where
  characters := .empty
  chats      := ⟨[{
    id          := chatId
    title       := "chat"
    characterId := "a0000000-0000-4000-8000-000000000000"
    createdAt   := "2026-01-01T00:00:00Z"
    updatedAt   := "2026-01-01T00:00:00Z"
  }], by decide⟩
  messages   := messages
  runs       := .empty
  events     := .empty

theorem earlier_fresh {d : Db} (h : Earlier k ⟨d, []⟩) : k = ⟨d, []⟩ := by
  obtain ⟨base, commits⟩ := k
  obtain rfl : base = d := h.base
  obtain rfl : commits = [] := List.suffix_nil.mp h.commits
  rfl

end Sample

open Sample in
theorem paging_stable_chatting :
    let d := chatting ⟨[
      message "10000000-0000-4000-8000-000000000002" "how are you" 1,
      message "10000000-0000-4000-8000-000000000001" "hello" 0
    ], by decide⟩
    MessagesServed chatId 1 ⟨d, []⟩ [⟨d, []⟩] := by
  intro d
  have hfit : SequencesFit ⟨d, []⟩ := by
    intro k hk
    rw [earlier_fresh hk]
    decide +kernel
  have hj : Reachable ⟨d, []⟩ := .fresh rfl rfl
  have hlisted : ∀ i k, Earlier k ⟨d, []⟩ → (k.state.chats.get? i).isSome → Listed i k.state := by
    intro i k hk hi
    rw [earlier_fresh hk] at hi ⊢
    have ⟨c, hc⟩ := Option.isSome_iff_exists.mp hi
    have ⟨hmem, hid⟩ := Table.get?_eq_some_iff.mp hc
    cases List.mem_singleton.mp hmem
    cases hid
    exact ⟨by decide +kernel, by decide +kernel⟩
  have hreadings : Readings ⟨d, []⟩ [⟨d, []⟩, ⟨d, []⟩] := .same ⟨rfl, List.suffix_rfl⟩ 1
  exact ((paging_stable_iff hj hfit).mpr hlisted).left chatId 1 _ _ (by decide) (by decide) hreadings
    (by decide +kernel)

open Sample in
-- A text that has been kept may be longer than the wire takes.
theorem paging_unstable_oversized : ¬∀ (j : Journal Label Db) (chatId : String) (limit : Nat)
    (k : Journal Label Db) (ks : List (Journal Label Db)),
    Reachable j → SequencesFit j → 1 ≤ limit → limit ≤ 200 → Readings j (k :: ks) →
    (k.state.chats.get? chatId).isSome → MessagesServed chatId limit k ks := by
  intro h
  let content := String.ofList <| List.replicate (maxMessageLength + 1) 'a'
  let m       := message "10000000-0000-4000-8000-000000000001" content 0
  let d       := chatting ⟨[m], List.pairwise_singleton _ _⟩
  have hfit : SequencesFit ⟨d, []⟩ := by
    intro k hk m' hm'
    rw [earlier_fresh hk] at hm'
    cases List.mem_singleton.mp hm'
    decide
  have hlong : utf16Length content = maxMessageLength + 1 := utf16Length_replicate _ <| by decide
  have hmem : messageDto m ∈ messagesOf chatId d :=
    mem_messagesOf.mpr ⟨List.mem_map.mpr ⟨m, List.mem_singleton.mpr rfl, rfl⟩, rfl⟩
  have hcount : (messagesOf chatId d).length ≤ 1 :=
    (List.length_insertionSort ..).trans_le <| List.length_filter_le ..
  have hserved := h ⟨d, []⟩ chatId 1 _ _ (.fresh rfl rfl) hfit (by decide) (by decide)
    (.same ⟨rfl, List.suffix_rfl⟩ 1) rfl
  have hlisted := listed_of_served (by decide) (by decide) hcount hserved
  have ⟨_, _, hshort, _⟩ := checkMessageDto_eq_nil_iff.mp <| hlisted.messages _ hmem
  exact absurd (hlong ▸ hshort) <| Nat.not_succ_le_self _

end Stability
