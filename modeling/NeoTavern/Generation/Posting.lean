import NeoTavern.Generation.Preview

open Wire Storage Kernel Proc

section Links

-- The chat and the message of a run.
def Storage.Db.link (d : Db) (runId : String) : Option (String × Option String) :=
  (d.runs.get? runId).map fun r => (r.chatId, r.messageId)

-- No message comes or goes, and no run changes its message.
structure Silent (d d' : Db) : Prop where
  messages : d'.messages = d.messages
  chats    : d'.chats = d.chats
  links    : ∀ i, d'.link i = d.link i

-- The text of the run `r` becomes the message `m`.
structure Posts (d d' : Db) (r : RunRow) (m : MessageRow) : Prop where
  row      : d.runs.get? r.runId = some r
  run      : m.generationRunId = some r.runId
  chat     : m.chatId = r.chatId
  isOpen   : (d.chats.get? m.chatId).isSome
  content  : ∃ texts, d.deltaPayloads r.runId = texts.map .delta ∧ m.content = String.join texts
  sequence : m.sequence = d.nextMessageSequence m.chatId
  messages : d'.messages.rows = d.messages.rows ++ [m]
  chats    : d'.chats = d.chats
  links    : ∀ i, d'.link i = if i = r.runId then some (r.chatId, some m.id) else d.link i

-- What a commit does to the messages.
inductive Posting (d : Db) (l : Label) (d' : Db) : Prop
  | silent (h : Silent d d')
  | keeps (h : Posts d d' r m) (hl : l = .run r.runId .keep) (hr : r.messageId = none)
  | completes (h : Posts d d' r m) (hl : l = .run r.runId (.finish .completed))
  | drops (h : d' = d.dropCharacter c)

-- What a commit does to the messages, or the start of a run.
inductive PostingStep (d : Db) (l : Label) (d' : Db) : Prop
  | posting (h : Posting d l d')
  | starts (new : d.link i = none) (link : d'.link i = some (c, none)) (others : ∀ k ≠ i, d'.link k = d.link k)
    (messages : d'.messages = d.messages) (chats : d'.chats = d.chats)

variable {d d' d'' : Db}

theorem Silent.refl (d : Db) : Silent d d :=
  ⟨rfl, rfl, fun _ => rfl⟩

theorem Silent.trans (h : Silent d d') (h' : Silent d' d'') : Silent d d'' where
  messages := h'.messages.trans h.messages
  chats    := h'.chats.trans h.chats
  links i  := (h'.links i).trans <| h.links i

-- The chat of a run does not change under it.
theorem Posting.link (h : Posting d l d') (hl : d'.link i = some (c, k)) : ∃ k', d.link i = some (c, k') := by
  have posts {r m} (h : Posts d d' r m) : ∃ k', d.link i = some (c, k') := by
    rw [h.links] at hl
    split at hl
    case isTrue hi =>
      obtain rfl := (Prod.mk.inj <| Option.some.inj hl).left
      exact ⟨r.messageId, by rw [hi, Db.link, h.row]; rfl⟩
    case isFalse => exact ⟨k, hl⟩
  cases h
  case silent h      => exact ⟨k, h.links i ▸ hl⟩
  case keeps h _ _   => exact posts h
  case completes h _ => exact posts h
  case drops h       =>
    subst h
    have ⟨r, hr, hck⟩ := Option.map_eq_some_iff.mp hl
    rw [Moves.dropCharacter_run] at hr
    exact ⟨k, Option.map_eq_some_iff.mpr ⟨r, (Option.filter_eq_some_iff.mp hr).left, hck⟩⟩

end Links

namespace Storage.Tx

-- A transaction that posts nothing.
def SilentTx (p : Tx α) : Prop :=
  ∀ d, Ensures p (fun _ d' => Silent d d') d

namespace SilentTx

variable {p : Tx α} {k : α → Tx β}

theorem pure (a : α) : SilentTx (Pure.pure a) :=
  fun d => .refl d

theorem bind (hp : SilentTx p) (hk : ∀ a, SilentTx (k a)) : SilentTx (p >>= k) := by
  refine fun d => wp_bind.mpr <| wp_mono (hp d) (fun a d' h => ?_) fun _ _ _ => trivial
  exact wp_mono (hk a d') (fun _ _ h' => h.trans h') fun _ _ _ => trivial

theorem updateRuns {q : RunRow → Bool} {set : RunRow → RunRow} {hs : ∀ r, (set r).runId = r.runId}
    (hset : ∀ r, ((set r).chatId, (set r).messageId) = (r.chatId, r.messageId)) :
    SilentTx (Tx.updateRuns q set hs) := by
  intro d
  refine ⟨rfl, rfl, fun i => ?_⟩
  rw [Db.link, Db.link, Table.get?_update]
  cases d.runs.get? i
  case none   => rfl
  case some r =>
    refine congrArg some ?_
    dsimp only
    split
    case isTrue  => exact hset r
    case isFalse => rfl

theorem casRun {set : RunRow → RunRow} {hs : ∀ r, (set r).runId = r.runId}
    (hset : ∀ r, ((set r).chatId, (set r).messageId) = (r.chatId, r.messageId)) :
    SilentTx (Tx.casRun i rev set hs) :=
  updateRuns hset

theorem insertEvent : SilentTx (Tx.insertEvent context e) := by
  intro d
  unfold Ensures wp Tx.insertEvent
  by_cases hr : (d.runs.get? e.runId).isNone
  case pos => simp [hr, failSqlite, Proc.fail]
  case neg =>
    cases hi : d.events.insert? e
    case none        => simp [hr, failSqlite, Proc.fail]
    case some events =>
      simp only [hr]
      exact ⟨rfl, rfl, fun _ => rfl⟩

theorem deleteEvents : SilentTx (Tx.deleteEvents i) :=
  fun _ => ⟨rfl, rfl, fun _ => rfl⟩

theorem insertCharacter : SilentTx (Tx.insertCharacter context c) := by
  intro d
  unfold Ensures wp Tx.insertCharacter
  cases d.characters.insert? c
  case none => simp [failSqlite, Proc.fail]
  case some => exact ⟨rfl, rfl, fun _ => rfl⟩

theorem updateCharacters {set : CharacterRow → CharacterRow} {hs : ∀ c, (set c).id = c.id} :
    SilentTx (Tx.updateCharacters q set hs) :=
  fun _ => ⟨rfl, rfl, fun _ => rfl⟩

end SilentTx
end Storage.Tx

section Posts

variable {d d' : Db} {r r' : RunRow}

theorem Storage.Db.Writes.links (hw : d.Writes d' r r' es ms) (i : String) :
    d'.link i = if i = r.runId then some (r.chatId, r'.messageId) else d.link i := by
  split
  case isTrue hi =>
    rw [hi, Db.link, hw.row']
    exact congrArg some <| Prod.ext (congrArg RunPlan.chatId hw.plan) rfl
  case isFalse hi => rw [Db.link, Db.link, (hw.others i hi).row]

theorem Storage.Db.Writes.posts (hw : d.Writes d' r r' es [m]) (hm : r'.messageId = some m.id)
    (hrun : m.generationRunId = some r.runId) (hchat : m.chatId = r.chatId)
    (hopen : (d.chats.get? m.chatId).isSome) (hseq : m.sequence = d.nextMessageSequence m.chatId)
    (htexts : d.deltaPayloads r.runId = texts.map .delta) (hcontent : m.content = String.join texts) :
    Posts d d' r m where
  row      := hw.row
  run      := hrun
  chat     := hchat
  isOpen   := hopen
  content  := ⟨texts, htexts, hcontent⟩
  sequence := hseq
  messages := hw.messages
  chats    := hw.chats
  links i  := by rw [hw.links, hm]

-- A message is inserted into a chat that there is.
theorem Storage.Tx.insertMessage_isOpen :
    Tx.Ensures (Tx.insertMessage context m) (fun _ _ => (d.chats.get? m.chatId).isSome) d := by
  unfold Tx.Ensures wp Tx.insertMessage
  by_cases hc : (d.chats.get? m.chatId).isNone
  case pos => simp [hc, Tx.failSqlite, Proc.fail]
  case neg =>
    cases d.messages.insert? m
    case none => simp [hc, Tx.failSqlite, Proc.fail]
    case some =>
      simp only [hc]
      rw [← Option.ne_none_iff_isSome]
      exact fun h => hc <| Option.isNone_iff_eq_none.mpr h

theorem Storage.Db.Writes.nextMessageSequence (hw : d.Writes d' r r' es []) :
    d'.nextMessageSequence = d.nextMessageSequence := by
  funext chatId
  rw [Db.nextMessageSequence, Db.nextMessageSequence, hw.messages, List.append_nil]

-- What is inserted after a compare-and-swap has hit.
theorem Storage.Db.Writes.insertMessage {d₁ : Db} (hw : d.Writes d₁ r r' es []) (hm : r'.messageId = some m.id)
    (hrun : m.generationRunId = some r.runId) (hchat : m.chatId = r.chatId)
    (hseq : m.sequence = d.nextMessageSequence m.chatId)
    (htexts : d.deltaPayloads r.runId = texts.map .delta) (hcontent : m.content = String.join texts) :
    Tx.Ensures (Tx.insertMessage context m)
      (fun _ d' => d.Writes d' r r' es [m] ∧ Posts d d' r m) d₁ := by
  have hisOpen : Tx.Ensures (Tx.insertMessage context m) (fun _ _ => (d₁.chats.get? m.chatId).isSome) d₁ :=
    Tx.insertMessage_isOpen
  have hins := wp_and (Tx.wp_insertMessage (Q := fun _ d' => d.Writes d' r r' es [m]) hw fun _ h => h) hisOpen
  refine wp_mono hins (fun _ d' ⟨hw', hopen⟩ => ?_) fun _ _ _ => trivial
  rw [hw.chats] at hopen
  exact ⟨hw', hw'.posts hm hrun hchat hopen hseq htexts hcontent⟩

theorem keepTx_posts {run : RunRow} (hrow : d.runs.get? run.runId = some run)
    (htexts : d.deltaPayloads run.runId = texts.map .delta) :
    Tx.Ensures (keepTx run run.chatId messageId createdAt (String.join texts))
      (fun kept d' => (kept → ∃ m, Posts d d' run m) ∧ (¬kept → d' = d)) d := by
  refine wp_bind.mpr <| Tx.wp_casRun (fun _ => rfl) (by simp) fun r d₁ hr _ hw => ?_
  obtain rfl := Option.some.inj <| hrow.symm.trans hr
  simp only [one_ne_zero, ↓reduceIte, wp_bind, wp_gets, hw.nextMessageSequence]
  refine wp_mono (hw.insertMessage rfl rfl rfl rfl htexts rfl) (fun _ d' hposts => ?_) fun _ _ _ => trivial
  exact ⟨fun _ => ⟨_, hposts.right⟩, fun h => absurd rfl h⟩

theorem Posts.insertEvent {d₁ : Db} (h : Posts d d₁ r m) :
    Tx.Ensures (Tx.insertEvent context e) (fun _ d' => Posts d d' r m) d₁ := by
  refine wp_mono (Tx.SilentTx.insertEvent d₁) (fun _ d' hs => ?_) fun _ _ _ => trivial
  exact { h with
    messages := by rw [hs.messages, h.messages]
    chats    := hs.chats.trans h.chats
    links i  := (hs.links i).trans <| h.links i
  }

theorem terminalCompletedTx_posts {run : RunRow} {message : MessageRow}
    (hrow : ∀ r, d.runs.get? run.runId = some r → message.chatId = r.chatId)
    (hseq : message.sequence = d.nextMessageSequence message.chatId)
    (htexts : d.deltaPayloads run.runId = texts.map .delta) (hcontent : message.content = String.join texts) :
    Tx.Ensures (terminalCompletedTx run message payload leaseOwner lease)
      (fun applied d' => (applied → ∃ r m, r.runId = run.runId ∧ Posts d d' r m) ∧ (¬applied → d' = d)) d := by
  refine wp_bind.mpr <| Tx.wp_casRun (fun _ => rfl) (by simp) fun r d₁ hr _ hw => ?_
  have hid := Table.get?_key_eq hr
  simp only [one_ne_zero, ↓reduceIte, wp_bind]
  refine wp_mono (hw.insertMessage (m := { message with generationRunId := some run.runId }) rfl
    (congrArg some hid.symm) (hrow r hr) hseq (hid ▸ htexts) hcontent) (fun _ d₂ ⟨_, hposts⟩ => ?_) fun _ _ _ => trivial
  refine wp_mono hposts.insertEvent (fun _ d' hposts => ?_) fun _ _ _ => trivial
  exact ⟨fun _ => ⟨r, _, hid, hposts⟩, fun h => absurd rfl h⟩

end Posts

open Wire Storage Kernel Proc

namespace Kernel.Moves

variable {w t : World} {run : RunRow}

-- A procedure whose commits are postings, wherever it starts.
abbrev Poster (p : KernelM α) : Prop :=
  ∀ w, Moves Posting p (fun _ _ => True) w

section Rules

variable {p : KernelM α} {k : α → KernelM β}

theorem poster_bind (hp : Poster p) (hk : ∀ a, Poster (k a)) : Poster (p >>= k) :=
  fun w => (hp w).bind fun a t _ _ => hk a t

theorem poster_pure (a : α) : Poster (Pure.pure a) :=
  fun _ => pure trivial

theorem poster_fail : Poster (Proc.fail e : KernelM α) :=
  fun _ => fail

theorem poster_attempt (hp : Poster p) : Poster (Proc.attempt p) :=
  fun w => (hp w).attempt fun _ _ _ => trivial

theorem poster_transaction {label : α → Label} {body : Tx α} (h : Tx.SilentTx body) :
    Poster (Kernel.transaction context label body) := by
  intro w
  refine (transaction (Q := fun _ _ => True) ?_).post fun _ _ _ _ => trivial
  exact wp_mono (h w.db) (fun _ _ hs => ⟨.silent hs, trivial⟩) fun _ _ _ => trivial

theorem poster_now : Poster Kernel.now :=
  fun _ => now.post fun _ _ _ _ => trivial

theorem poster_leaseExpires : Poster Kernel.leaseExpires :=
  fun _ => leaseExpires.post fun _ _ _ _ => trivial

theorem poster_reload : Poster (Kernel.reload runId) :=
  fun _ => reload.post fun _ _ _ _ => trivial

theorem poster_eventPayload : Poster (Kernel.eventPayload e) :=
  fun _ => (eventPayload e).post fun _ _ _ _ => trivial

end Rules

section Terminal

theorem terminalCancelledTx_silent :
    Tx.SilentTx (terminalCancelledTx run payload leaseOwner lease updatedAt) := by
  refine .bind (.casRun fun _ => rfl) fun changed => ?_
  split
  · exact .pure _
  · exact .bind .insertEvent fun _ => .pure _

theorem terminalFailedTx_silent :
    Tx.SilentTx (terminalFailedTx run error payload leaseOwner lease updatedAt) := by
  refine .bind (.casRun fun _ => rfl) fun changed => ?_
  split
  · exact .pure _
  · exact .bind .insertEvent fun _ => .pure _

theorem deltaTx_silent :
    Tx.SilentTx (deltaTx run text i payload checkpoint leaseOwner lease updatedAt) := by
  refine .bind (.casRun fun _ => rfl) fun changed => ?_
  split
  · exact .pure _
  · refine .bind .insertEvent fun _ => ?_
    cases checkpoint
    case none   => exact .pure _
    case some e => exact .bind .insertEvent fun _ => .pure _

theorem advanceTx_silent : Tx.SilentTx (advanceTx run status leaseOwner lease updatedAt) :=
  .casRun fun _ => rfl

theorem releaseTx_silent : Tx.SilentTx (releaseTx run updatedAt) :=
  .casRun fun _ => rfl

theorem cancelTx_silent : Tx.SilentTx (cancelTx run updatedAt) :=
  .casRun fun _ => rfl

theorem discardTx_silent : Tx.SilentTx (discardTx run updatedAt) := by
  refine .bind (.casRun fun _ => rfl) fun changed => ?_
  split
  · exact .pure _
  · exact .bind .deleteEvents fun _ => .pure _

theorem poster_terminalCancelled : Poster (Kernel.terminalCancelled run leaseOwner) := by
  refine poster_bind poster_eventPayload fun payload => ?_
  have hloop (n : Nat) (run : RunRow) : Poster (Kernel.terminalCancelledLoop payload leaseOwner n run) := by
    induction n generalizing run
    case zero      => exact poster_fail
    case succ n ih =>
      unfold Kernel.terminalCancelledLoop
      refine poster_bind poster_now fun _ => poster_bind poster_leaseExpires fun _ => ?_
      refine poster_bind (poster_transaction terminalCancelledTx_silent) fun applied => ?_
      split
      · exact poster_pure _
      · refine poster_bind poster_reload fun run => ?_
        split
        · exact ih _
        · split
          · exact poster_pure _
          · exact ih _
  exact hloop 8 run

theorem poster_terminalFailed : Poster (Kernel.terminalFailed run error leaseOwner) := by
  refine poster_bind poster_eventPayload fun payload => ?_
  have hloop (n : Nat) (run : RunRow) : Poster (Kernel.terminalFailedLoop error payload leaseOwner n run) := by
    induction n generalizing run
    case zero      => exact poster_fail
    case succ n ih =>
      unfold Kernel.terminalFailedLoop
      refine poster_bind poster_now fun _ => poster_bind poster_leaseExpires fun _ => ?_
      refine poster_bind (poster_transaction terminalFailedTx_silent) fun applied => ?_
      split
      · exact poster_pure _
      · refine poster_bind poster_reload fun run => ?_
        split
        · exact poster_terminalCancelled
        · split
          · exact poster_pure _
          · exact ih _
  exact hloop 8 run

end Terminal

section Unary

theorem poster_runResponse : Poster (Kernel.runResponse run) :=
  fun _ => runResponse.post fun _ _ _ _ => trivial

theorem poster_requireRun : Poster (Kernel.requireRun runId missing) :=
  fun _ => requireRun.post fun _ _ _ _ => trivial

theorem poster_ensureRecoverable : Poster (Kernel.ensureRecoverable run) :=
  fun _ => ensureRecoverable.post fun _ _ _ _ => trivial

theorem poster_decodeRequest {check : α → String → List Issue} {req : Payload α} :
    Poster (Kernel.decodeRequest check req) :=
  fun _ => (decodeRequest check req).post fun _ _ _ _ => trivial

theorem poster_cancelLoop : Poster (Kernel.cancelLoop runId updatedAt n run) := by
  induction n generalizing run
  case zero      => exact poster_fail
  case succ n ih =>
    unfold Kernel.cancelLoop
    split
    · refine poster_bind (poster_transaction cancelTx_silent) fun changed => ?_
      split
      · exact poster_bind poster_reload fun run => ih
      · exact poster_pure _
    · split
      · exact poster_pure _
      · exact poster_fail

theorem poster_generationCancel : Poster (Kernel.generationCancel req) := by
  refine poster_bind poster_decodeRequest fun req => poster_bind poster_requireRun fun run => ?_
  exact poster_bind poster_now fun _ => poster_cancelLoop

theorem poster_discardLoop : Poster (Kernel.discardLoop updatedAt n run) := by
  induction n generalizing run
  case zero      => exact poster_pure _
  case succ n ih =>
    unfold Kernel.discardLoop
    refine poster_bind (poster_transaction discardTx_silent) fun discarded => ?_
    split
    · exact poster_pure _
    · exact poster_bind poster_reload fun run => poster_bind poster_ensureRecoverable fun _ => ih

theorem poster_generationDiscard : Poster (Kernel.generationDiscard req) := by
  refine poster_bind poster_decodeRequest fun req => poster_bind poster_requireRun fun run => ?_
  refine poster_bind poster_ensureRecoverable fun _ => poster_bind poster_now fun _ => ?_
  refine poster_bind poster_discardLoop fun _ => poster_bind poster_reload fun run => ?_
  split
  · exact poster_bind poster_fail fun _ => poster_runResponse
  · exact poster_runResponse

-- The texts that are joined are those of the database.
theorem concatDeltaText_eq {S : Db → Label → Db → Prop} : Moves S (Kernel.concatDeltaText runId) (fun full t =>
    t.journal = w.journal ∧ ∃ texts, w.db.deltaPayloads runId = texts.map .delta ∧ full = String.join texts) w := by
  unfold Kernel.concatDeltaText
  have htexts : Moves S (Kernel.loadDeltaTexts runId)
      (fun texts t => t.journal = w.journal ∧ w.db.deltaPayloads runId = texts.map .delta) w := by
    refine query.bind fun payloads t _ ⟨hj, hp⟩ => ?_
    refine ofExcept fun texts ht => ⟨hj, ?_⟩
    rw [← hp]
    exact delta_of_mapM ht
  exact htexts.bind fun texts t _ ⟨hj, hp⟩ => pure ⟨hj, texts, hp, rfl⟩

theorem keepLoop_posts (hrow : w.db.runs.get? run.runId = some run) (hnone : run.messageId = none)
    (htexts : w.db.deltaPayloads run.runId = texts.map .delta) :
    Moves Posting (Kernel.keepLoop run.chatId messageId createdAt (String.join texts) n run)
      (fun _ _ => True) w := by
  induction n generalizing w
  case zero      => exact pure trivial
  case succ n ih =>
    unfold Kernel.keepLoop
    refine bind (Q := fun kept t => ¬kept = true → t.db = w.db) (transaction (Q := fun kept d => ¬kept = true → d = w.db) ?_)
      fun kept t _ hmiss => ?_
    · refine wp_mono (keepTx_posts hrow htexts) (fun kept d h => ⟨?_, h.right⟩) fun _ _ _ => trivial
      cases kept
      case false => exact .silent <| h.right (by simp) ▸ .refl _
      case true  =>
        obtain ⟨m, hposts⟩ := h.left rfl
        exact .keeps hposts rfl hnone
    · split
      case isTrue     => exact pure trivial
      case isFalse hn =>
        have hdb := hmiss hn
        refine reload.bind fun run' u _ h => ?_
        obtain ⟨hj, hr⟩ := h
        obtain rfl := Option.some.inj <| hrow.symm.trans <| hdb ▸ hr
        refine ensureRecoverable.bind fun _ v _ h' => ?_
        have hdb' : v.db = w.db := (World.db_eq <| h'.left.trans hj).trans hdb
        split
        · exact pure trivial
        · split
          · exact fail_bind
          · exact ih (hdb' ▸ hrow) (hdb' ▸ htexts)

theorem poster_generationKeep : Poster (Kernel.generationKeep req) := by
  refine poster_bind poster_decodeRequest fun req w => ?_
  refine requireRun.bind fun run t _ ⟨hj, hr⟩ => ?_
  refine ensureRecoverable.bind fun _ t₁ _ ⟨hj₁, _⟩ => ?_
  split
  · exact poster_runResponse _
  · rename_i hsome
    split
    · exact fail
    · have hid := Table.get?_key_eq hr
      refine concatDeltaText_eq.bind fun full t₂ _ ⟨hj₂, texts, htexts, hfull⟩ => ?_
      refine newId.bind fun messageId t₃ _ ⟨hj₃, _⟩ => ?_
      refine now.bind fun createdAt t₄ _ hj₄ => ?_
      have hdb₁ : t₄.db = t₁.db := World.db_eq <| hj₄.trans <| hj₃.trans hj₂
      have hdb : t₄.db = w.db := hdb₁.trans <| World.db_eq <| hj₁.trans hj
      have hnone : run.messageId = none := Option.not_isSome_iff_eq_none.mp hsome
      rw [← hdb₁, ← hid] at htexts
      rw [← hdb, ← hid] at hr
      rw [hfull]
      refine (keepLoop_posts hr hnone htexts).bind fun _ t₅ _ _ => ?_
      refine poster_bind poster_reload (fun run => ?_) t₅
      split
      · exact poster_bind poster_fail fun _ => poster_runResponse
      · exact poster_runResponse

theorem poster_generationGet : Poster (Kernel.generationGet req) :=
  fun _ => generationGet

theorem poster_generationEvents : Poster (Kernel.generationEvents req) :=
  fun _ => generationEvents

end Unary

section Characters

theorem poster_characterResponse : Poster (Kernel.characterResponse i missing) :=
  fun _ => characterResponse

theorem poster_charactersCreate : Poster (Kernel.charactersCreate req) := by
  refine poster_bind poster_decodeRequest fun req => poster_bind (fun _ => newId.post fun _ _ _ _ => trivial) fun id => ?_
  refine poster_bind poster_now fun createdAt => ?_
  exact poster_bind (poster_transaction .insertCharacter) fun _ => poster_characterResponse

theorem poster_charactersUpdate : Poster (Kernel.charactersUpdate req) := by
  refine poster_bind poster_decodeRequest fun req => poster_bind poster_now fun updatedAt => ?_
  refine poster_bind (poster_transaction .updateCharacters) fun changed => ?_
  split
  · exact poster_fail
  · exact poster_characterResponse

theorem poster_charactersDelete : Poster (Kernel.charactersDelete req) := by
  refine poster_bind poster_decodeRequest fun req => poster_bind ?_ fun changed => ?_
  · intro w
    refine (transaction (Q := fun _ _ => True) ?_).post fun _ _ _ _ => trivial
    unfold Tx.Ensures Proc.wp Tx.deleteCharacter
    by_cases hc : w.db.characters.count (·.id = req.characterId) = 0
    case pos => simpa [hc] using Posting.silent (.refl w.db)
    case neg =>
      by_cases hf : (w.db.dropCharacter req.characterId).runs.rows.any fun r =>
          r.sourceRunId.any ((w.db.dropCharacter req.characterId).runs.get? · |>.isNone)
      case pos => simp [hc, hf, Tx.failSqlite, Proc.fail]
      case neg => simpa [hc, hf] using Posting.drops rfl
  · split
    · exact poster_fail
    · exact poster_pure _

theorem poster_handleUnary : Poster (Kernel.handleUnary op cancelled) := by
  unfold Kernel.handleUnary
  split
  case isTrue  => exact poster_fail
  case isFalse =>
    have hu {α : Type} {p : KernelM α} (h : Poster p) : Poster (unit p) := poster_bind h fun _ => poster_pure _
    cases op
    case charactersCreate  => exact hu poster_charactersCreate
    case charactersUpdate  => exact hu poster_charactersUpdate
    case charactersDelete  => exact poster_charactersDelete
    case generationCancel  => exact poster_generationCancel
    case generationGet     => exact hu poster_generationGet
    case generationEvents  => exact hu poster_generationEvents
    case generationKeep    => exact hu poster_generationKeep
    case generationDiscard => exact hu poster_generationDiscard
    case other             => exact fun _ => ofExcept fun _ _ => trivial

theorem poster_drainCommand : Poster (Kernel.drainCommand c) := by
  cases c
  case unary op cancelled => exact poster_bind (poster_attempt poster_handleUnary) fun _ => poster_pure _
  all_goals exact fun _ => (modify rfl rfl).bind fun _ _ _ _ => pure trivial

theorem poster_drainCommands : Poster (Kernel.drainCommands cs) := by
  induction cs
  case nil     => exact poster_pure _
  case cons ih => exact poster_bind poster_drainCommand fun _ => poster_bind ih fun _ => poster_pure _

theorem poster_drainPending : Poster Kernel.drainPending :=
  poster_bind (fun _ => takeBatch.post fun _ _ _ _ => trivial) fun _ => poster_drainCommands

end Characters

section Copies

variable {i : String}

-- A copy of the run `i` knows its chat.
structure Copied (i : String) (run : RunRow) (d : Db) : Prop where
  id   : run.runId = i
  chat : ∀ r, d.runs.get? i = some r → r.chatId = run.chatId

theorem Copied.of_get? {d : Db} (h : d.runs.get? i = some run) : Copied i run d where
  id        := Table.get?_key_eq h
  chat _ hr := congrArg RunRow.chatId <| Option.some.inj <| hr.symm.trans h

-- The run that there is has been there before, with the same chat.
def ChatKept (i : String) (d d' : Db) : Prop :=
  ∀ c k, d'.link i = some (c, k) → ∃ k', d.link i = some (c, k')

theorem ChatKept.trans {d d' d'' : Db} (h : ChatKept i d d') (h' : ChatKept i d' d'') : ChatKept i d d'' := by
  intro c k hk
  have ⟨k', hk'⟩ := h' c k hk
  exact h c k' hk'

theorem Copied.later (h : Copied i run w.db) (hl : Later Posting w t) : Copied i run t.db where
  id        := h.id
  chat r hr := by
    have hlink := hl.grows.relates (R := ChatKept i) (fun _ _ k h => ⟨k, h⟩) .trans fun hs _ _ hk => hs.link hk
    have hr' : t.db.link i = some (r.chatId, r.messageId) := congrArg (Option.map _) hr
    have ⟨k', hk⟩       := hlink r.chatId r.messageId hr'
    have ⟨r', hr', hck⟩ := Option.map_eq_some_iff.mp hk
    exact (Prod.mk.inj hck).left.symm.trans <| h.chat r' hr'

theorem reload_copied {S : Db → Label → Db → Prop} :
    Moves S (Kernel.reload i) (fun run t => Copied i run t.db) w :=
  reload.post fun _ _ _ ⟨hj, hr⟩ => .of_get? <| World.db_eq hj ▸ hr

theorem terminalCompletedLoop_posts {message : MessageRow}
    (hchat : ∀ r, w.db.runs.get? run.runId = some r → message.chatId = r.chatId)
    (hseq : message.sequence = w.db.nextMessageSequence message.chatId)
    (htexts : w.db.deltaPayloads run.runId = texts.map .delta) (hcontent : message.content = String.join texts) :
    Moves Posting (Kernel.terminalCompletedLoop message payload leaseOwner n run) (fun _ _ => True) w := by
  induction n generalizing w run
  case zero      => exact fail
  case succ n ih =>
    unfold Kernel.terminalCompletedLoop
    refine leaseExpires.bind fun lease t₁ _ hj₁ => ?_
    have hdb₁ := World.db_eq hj₁
    rw [← hdb₁] at hchat hseq htexts
    refine bind (Q := fun applied t => ¬applied = true → t.db = t₁.db)
      (transaction (Q := fun applied d => ¬applied = true → d = t₁.db) ?_) fun applied t _ hmiss => ?_
    · refine wp_mono (terminalCompletedTx_posts hchat hseq htexts hcontent)
        (fun applied d h => ⟨?_, h.right⟩) fun _ _ _ => trivial
      cases applied
      case false => exact .silent <| h.right (by simp) ▸ .refl _
      case true  =>
        obtain ⟨r, m, hid, hposts⟩ := h.left rfl
        exact .completes hposts <| congrArg (Label.run · _) hid.symm
    · split
      case isTrue     => exact pure trivial
      case isFalse hn =>
        have hdb := hmiss hn
        refine reload.bind fun run' u _ h => ?_
        obtain ⟨hj, hr⟩ := h
        have hid := Table.get?_key_eq hr
        have hdb' : u.db = t₁.db := (World.db_eq hj).trans hdb
        split
        · exact poster_terminalCancelled _
        · split
          · exact pure trivial
          · rw [← hdb', ← hid] at hchat htexts
            rw [← hdb'] at hseq
            exact ih hchat hseq htexts

theorem terminalCompleted_posts (hc : Copied i run w.db)
    (htexts : w.db.deltaPayloads i = texts.map .delta) :
    Moves Posting (Kernel.terminalCompleted run (String.join texts) leaseOwner) (fun _ _ => True) w := by
  refine newId.bind fun messageId t₁ _ ⟨hj₁, _⟩ => ?_
  refine now.bind fun createdAt t₂ _ hj₂ => ?_
  refine query.bind fun sequence t₃ _ ⟨hj₃, hseq⟩ => ?_
  refine (validate checkMessageDto _).bind fun _ t₄ _ ⟨hj₄, _⟩ => ?_
  refine (eventPayload _).bind fun payload t₅ _ ⟨hj₅, _, _⟩ => ?_
  have hdb₃ : t₅.db = t₂.db := World.db_eq <| hj₅.trans <| hj₄.trans hj₃
  have hdb : t₅.db = w.db := hdb₃.trans <| World.db_eq <| hj₂.trans hj₁
  refine terminalCompletedLoop_posts (fun r hr => ?_) ?_ ?_ rfl
  · exact (hc.chat r <| hc.id ▸ hdb ▸ hr).symm
  · rw [hdb₃, hseq]
  · rw [hdb, hc.id, htexts]

theorem casStatusLoop_copied (hi : run.runId = i) :
    Moves Posting (Kernel.casStatusLoop status leaseOwner lease updatedAt n run)
      (fun o t => ∀ next, o = .proceed next → Copied i next t.db) w := by
  induction n generalizing w run
  case zero      => exact fail
  case succ n ih =>
    unfold Kernel.casStatusLoop
    refine (poster_transaction advanceTx_silent w).bind fun changed t _ _ => ?_
    rw [hi]
    split
    · exact reload_copied.bind fun next u _ h => pure <| by rintro _ ⟨⟩; exact h
    · refine reload_copied.bind fun next u _ h => ?_
      split
      · exact (poster_terminalCancelled u).bind fun _ _ _ _ => pure <| by rintro _ ⟨⟩
      · split
        · exact pure <| by rintro _ ⟨⟩
        · exact ih h.id

theorem casStatus_copied (hi : run.runId = i) :
    Moves Posting (Kernel.casStatus run status leaseOwner)
      (fun o t => ∀ next, o = .proceed next → Copied i next t.db) w :=
  now.bind fun _ _ _ _ => leaseExpires.bind fun _ _ _ _ => casStatusLoop_copied hi

theorem poster_commitShutdownProgress : Poster (Kernel.commitShutdownProgress run) := by
  refine poster_bind poster_now fun _ => poster_bind (poster_attempt ?_) fun _ => poster_pure _
  exact poster_transaction releaseTx_silent

theorem commitDelta_copied (hi : run.runId = i) :
    Moves Posting (Kernel.commitDelta run text n leaseOwner)
      (fun o t => ∀ next, o = some next → Copied i next t.db) w := by
  unfold Kernel.commitDelta
  refine (eventPayload _).bind fun payload t₁ _ _ => ?_
  have hcheckpoint : Poster (Kernel.checkpointPayload run text n) := by
    unfold Kernel.checkpointPayload
    split
    · exact poster_bind poster_eventPayload fun _ => poster_pure _
    · exact poster_pure _
  refine (hcheckpoint t₁).bind fun checkpoint t₂ _ _ => ?_
  refine now.bind fun updatedAt t₃ _ _ => leaseExpires.bind fun lease t₄ _ _ => ?_
  refine (poster_transaction deltaTx_silent t₄).bind fun applied t₅ _ _ => ?_
  split
  · refine sendNotice.bind fun _ t₆ _ _ => ?_
    rw [hi]
    exact reload_copied.bind fun next u _ h => pure <| by rintro _ ⟨⟩; exact h
  · exact pure <| by rintro _ ⟨⟩

variable {drain : KernelM Bool} {st : EmitState} {registry : ProviderRegistry}

theorem emitDelta_copied (hc : Copied i st.run w.db) : Moves Posting (Kernel.emitDelta leaseOwner text st)
    (fun r t => Copied i r.snd.run t.db) w := by
  unfold Kernel.emitDelta
  refine bind (Q := fun r t => Copied i st.run t.db ∧ ∀ next, r = .ok (some next) → Copied i next t.db)
    (((commitDelta_copied hc.id).post ?_).attempt ?_) ?_
  · intro o t hl h
    refine ⟨hc.later hl, ?_⟩
    rintro next ⟨⟩
    exact h next rfl
  · intro e t hl
    exact ⟨hc.later hl, by rintro _ ⟨⟩⟩
  · intro r t _ ⟨hc, hn⟩
    rcases r with e | (_ | next)
    · exact pure hc
    · exact pure hc
    · exact pure <| hn next rfl

theorem emit_copied (hd : Poster drain) (hc : Copied i st.run w.db) :
    Moves Posting (Kernel.emit drain i leaseOwner text st) (fun r t => Copied i r.snd.run t.db) w := by
  unfold Kernel.emit
  refine (hd w).bind fun shutdown t hl _ => ?_
  have hc := hc.later hl
  split
  case isTrue  => exact pure hc
  case isFalse =>
    unfold Kernel.emitServiced
    refine bind (Q := fun r u => Copied i st.run u.db ∧ ∀ next, r = .ok next → Copied i next u.db)
      ((reload_copied.post ?_).attempt ?_) ?_
    · intro next u hl h
      exact ⟨hc.later hl, by rintro _ ⟨⟩; exact h⟩
    · intro e u hl
      exact ⟨hc.later hl, by rintro _ ⟨⟩⟩
    · intro r u _ ⟨hc, hn⟩
      rcases r with e | next
      · exact pure hc
      · have hc := hn next rfl
        dsimp only
        split
        · exact pure hc
        · exact emitDelta_copied hc

theorem generate_copied (hd : Poster drain) (attempt : Attempt) (hc : Copied i st.run w.db) :
    Moves Posting (Kernel.generate drain i leaseOwner attempt st) (fun r t => Copied i r.snd.run t.db) w := by
  induction attempt generalizing w st
  case done result       => exact pure hc
  case emit text next ih =>
    unfold Kernel.generate
    exact (emit_copied hd hc).bind fun x t _ hc => ih x.fst hc

theorem poster_sendNotice : Poster (Kernel.sendNotice i n) :=
  fun _ => sendNotice.post fun _ _ _ _ => trivial

theorem finishAttempt_posts (hc : Copied i run w.db) :
    Moves Posting (Kernel.finishAttempt leaseOwner i provider model result run) (fun _ _ => True) w := by
  unfold Kernel.finishAttempt
  split
  case h_1 usage =>
    refine concatDeltaText_eq.bind fun full t _ ⟨hj, texts, htexts, hfull⟩ => ?_
    have hdb := World.db_eq hj
    rw [← hdb] at hc htexts
    rw [hfull]
    exact (terminalCompleted_posts hc htexts).bind fun _ u _ _ => poster_sendNotice u
  case h_2 e =>
    split
    · exact (poster_terminalCancelled w).bind fun _ u _ _ => poster_sendNotice u
    · exact (poster_terminalFailed w).bind fun _ u _ _ => poster_sendNotice u

theorem runProvider_posts (hd : Poster drain) (hc : Copied i run w.db) :
    Moves Posting (Kernel.runProvider leaseOwner drain i registry runTimeout run) (fun _ _ => True) w := by
  unfold Kernel.runProvider
  dsimp only
  split
  case h_1 => exact (poster_terminalFailed w).bind fun _ u _ _ => poster_sendNotice u
  case h_2 adapter _ =>
    refine nextAttempt.bind fun attempt t _ hj => ?_
    have hc : Copied i (EmitState.mk run false none 0).run t.db := World.db_eq hj ▸ hc
    refine (generate_copied hd _ hc).bind fun (result, st) u _ hc => ?_
    unfold Kernel.endAttempt
    split
    case h_1 => exact fail
    case h_2 =>
      split
      · exact poster_commitShutdownProgress u
      · exact finishAttempt_posts hc

theorem proceed_posts {next : RunRow → KernelM Unit}
    (h : ∀ run, outcome = .proceed run → Moves Posting (next run) (fun _ _ => True) w) :
    Moves Posting (Kernel.proceed i outcome next) (fun _ _ => True) w := by
  cases outcome
  case proceed run     => exact h run rfl
  case cancelled       => exact poster_sendNotice w
  case alreadyTerminal => exact pure trivial

theorem poster_executeStream (hd : Poster drain) :
    Poster (Kernel.executeStream leaseOwner drain i registry runTimeout) := by
  unfold Kernel.executeStream
  refine poster_bind poster_reload fun run => poster_bind hd fun shutdown => ?_
  split
  case isTrue  => exact poster_commitShutdownProgress
  case isFalse =>
    intro w
    refine reload_copied.bind fun run t _ hc => ?_
    refine (casStatus_copied hc.id).bind fun outcome u _ hc => proceed_posts fun run hrun => ?_
    refine (casStatus_copied (hc run hrun).id).bind fun outcome v _ hc => proceed_posts fun run hrun => ?_
    exact runProvider_posts hd <| hc run hrun

end Copies

section Session

-- As `Poster`, for what may start runs.
abbrev Starter (p : KernelM α) : Prop :=
  ∀ w, Moves PostingStep p (fun _ _ => True) w

theorem Poster.starter {p : KernelM α} (h : Poster p) : Starter p :=
  fun w => (h w).mono (fun _ _ _ h => .posting h) fun _ _ _ _ => trivial

theorem starter_bind {p : KernelM α} {k : α → KernelM β} (hp : Starter p) (hk : ∀ a, Starter (k a)) :
    Starter (p >>= k) :=
  fun w => (hp w).bind fun a t _ _ => hk a t

theorem starter_insertRun (hr : r.messageId = none) (label : Unit → Label) :
    Starter (Kernel.transaction context label (Tx.insertRun context' r)) := by
  intro w
  refine (transaction (Q := fun _ _ => True) ?_).post fun _ _ _ _ => trivial
  unfold Tx.Ensures Proc.wp Tx.insertRun
  by_cases hf : (w.db.chats.get? r.chatId).isNone ∨ r.sourceRunId.any (w.db.runs.get? · |>.isNone)
  case pos => simp only [if_pos hf, Tx.failSqlite, Proc.fail]
  case neg =>
    cases hi : w.db.runs.insert? r
    case none      => simp only [if_neg hf, Tx.failSqlite, Proc.fail]
    case some runs =>
      simp only [if_neg hf, and_true]
      have hlink (k : String) : Db.link { w.db with runs } k =
          if r.runId = k then some (r.chatId, none) else w.db.link k := by
        rw [Db.link, Table.get?_insert? hi]
        split
        · exact congrArg (fun id => some (r.chatId, id)) hr
        · rfl
      refine .starts (i := r.runId) (c := r.chatId) ?_ ?_ (fun k hk => ?_) rfl rfl
      · rw [Db.link, Table.insert?_fresh hi]
        rfl
      · rw [hlink, if_pos rfl]
      · rw [hlink, if_neg hk.symm]

theorem poster_streamSetup : Poster (Kernel.streamSetup op) := by
  cases op
  case start req =>
    refine poster_bind poster_decodeRequest fun req => poster_bind (fun _ => query.post fun _ _ _ _ => trivial) fun chat => ?_
    split
    · exact poster_bind poster_fail fun _ => poster_pure _
    · exact poster_pure _
  case retry req =>
    refine poster_bind poster_decodeRequest fun req => poster_bind poster_requireRun fun source => ?_
    exact poster_bind poster_ensureRecoverable fun _ => poster_pure _
  case other => exact poster_fail

theorem starter_streamStart : Starter (Kernel.streamStart op leaseOwner) := by
  refine starter_bind (fun _ => newId.post fun _ _ _ _ => trivial) fun runId => ?_
  refine starter_bind poster_streamSetup.starter fun setup => ?_
  refine starter_bind poster_now.starter fun createdAt => starter_bind poster_leaseExpires.starter fun lease => ?_
  exact starter_bind (starter_insertRun rfl _) fun _ => (poster_pure _).starter

theorem starter_serveStream : Starter (Kernel.serveStream leaseOwner registry op) := by
  unfold Kernel.serveStream
  refine starter_bind (fun w => (starter_streamStart w).attempt fun _ _ _ => trivial) fun r => ?_
  cases r
  case error e     => exact (poster_pure _).starter
  case ok streamId =>
    refine starter_bind (fun _ => gets.post fun _ _ _ _ => trivial) fun runTimeout => ?_
    exact (poster_bind (poster_attempt <| poster_executeStream poster_drainPending) fun _ => poster_pure _).starter

theorem starter_serve : Starter (Kernel.serve leaseOwner registry) := by
  refine starter_bind (fun _ => gets.post fun _ _ _ _ => trivial) fun stop => ?_
  split
  case isTrue  => exact (poster_pure _).starter
  case isFalse =>
    refine starter_bind (fun _ => nextCommand.post fun _ _ _ _ => trivial) fun c => ?_
    cases c
    case none   => exact (poster_pure _).starter
    case some c =>
      cases c
      case unary op cancelled => exact (poster_bind (poster_attempt poster_handleUnary) fun _ => poster_pure _).starter
      case stream op          => exact starter_serveStream
      all_goals exact fun _ => (modify rfl rfl).post fun _ _ _ _ => trivial

theorem starter_writerMain : Starter (Kernel.writerMain leaseOwner registry turns) := by
  have hmany (n : Nat) : Starter (Kernel.serveMany leaseOwner registry n) := by
    induction n
    case zero      => exact (poster_pure _).starter
    case succ n ih => exact starter_bind starter_serve fun _ => ih
  refine starter_bind (poster_attempt ?_).starter fun _ => hmany turns
  refine poster_bind poster_now fun updatedAt => poster_bind (poster_transaction ?_) fun _ => poster_pure _
  exact .updateRuns fun _ => rfl

end Session
end Kernel.Moves
