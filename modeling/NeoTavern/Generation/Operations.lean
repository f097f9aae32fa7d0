import NeoTavern.Generation.Refinement
import NeoTavern.Kernel.Moves
import NeoTavern.Kernel.Writer

open Wire Storage Kernel Proc

section Effects

variable {d d' : Db} {l : Label}

theorem Stepped.revision (h : Stepped act d d' r r') : r.revision < r'.revision := by
  have := h.step.revision
  simp only [Db.runLog, RunLog.of] at this
  omega

-- The run that a commit starts or moves by itself.
def Kernel.Label.runId? : Label → Option String
  | .start i | .run i _ => some i
  | _                   => none

-- How a run came to the row it has after a commit.
inductive Origin (d d' : Db) (l : Label) (r' : RunRow) : Prop
  | start (label : l = .start r'.runId) (new : d.runs.get? r'.runId = none)
    (log : d'.runLog r' = .start) : Origin d d' l r'
  | same (label : l.runId? ≠ some r'.runId) (row : d.runs.get? r'.runId = some r')
    (log : d'.runLog r' = d.runLog r') : Origin d d' l r'
  | step (step : Stepped act d d' r r')
    (label : l = .run r'.runId act ∨ (l = .recover ∧ act = .interrupt)) : Origin d d' l r'

theorem Storage.Db.Same.origin (h : d.Same d' i) (hl : l.runId? ≠ some i)
    (hr : d'.runs.get? i = some r') : Origin d d' l r' := by
  obtain rfl := Table.get?_key_eq hr
  refine .same hl (h.row ▸ hr) ?_
  rw [Db.runLog, Db.runLog, h.events]

theorem Stepped.origin (h : Stepped act d d' s s') (hr : d'.runs.get? s.runId = some r')
    (hl : l = .run s.runId act ∨ (l = .recover ∧ act = .interrupt)) : Origin d d' l r' := by
  obtain rfl : s' = r' := Option.some.inj <| h.row'.symm.trans hr
  exact .step h (h.id ▸ hl)

theorem Effect.origin (h : Effect d d' l) (hr : d'.runs.get? i = some r') : Origin d d' l r' := by
  cases h
  case start r hn hr' hl ho =>
    by_cases hi : i = r.runId
    case neg => exact (ho i hi).origin (by simp [Label.runId?, Ne.symm hi]) hr
    case pos =>
      subst hi
      obtain rfl : r = r' := Option.some.inj <| hr'.symm.trans hr
      exact .start rfl hn hl
  case run _ r _ hs ho =>
    by_cases hi : i = r.runId
    case neg => exact (ho i hi).origin (by simp [Label.runId?, Ne.symm hi]) hr
    case pos => exact hs.origin (hi ▸ hr) <| .inl rfl
  case recover ha =>
    rcases ha i with h | ⟨r, _, rfl, h⟩
    · exact h.origin (by simp [Label.runId?]) hr
    · exact h.origin hr <| .inr ⟨rfl, rfl⟩
  case drop ha =>
    rcases ha i with h | h
    · exact h.origin (by simp [Label.runId?]) hr
    · simp [hr] at h
  case product ha => exact (ha i).origin (by simp [Label.runId?]) hr
  case idle ha    => exact (ha i).origin (by simp [Label.runId?]) hr

-- Except for the start of a run, rows change only together with their revision.
theorem Effect.evolves (h : Effect d d' l) (hl : ∀ i, l ≠ .start i) :
    Revision.Evolves RunRow.revision d.runs.get? d'.runs.get? := by
  intro i r' hr
  obtain rfl := Table.get?_key_eq hr
  cases h.origin hr
  case start he _ _ => exact absurd he (hl _)
  case same _ hr _  => exact ⟨r', hr, .inl rfl⟩
  case step r hs _  => exact ⟨r, hs.id ▸ hs.row, .inr hs.revision⟩

end Effects

-- The acts that do not end a run.
def Kernel.Act.isQuiet : Act → Bool
  | .finish _ | .interrupt => false
  | _                      => true

-- Those among them that belong to the operations a drain services.
def Kernel.Act.isUnary : Act → Bool
  | .cancel | .keep | .discard => true
  | _                          => false

def Kernel.Label.isQuiet : Label → Bool
  | .run _ act          => act.isQuiet
  | .start _ | .recover => false
  | _                   => true

def Kernel.Label.isUnary : Label → Bool
  | .run _ act          => act.isUnary
  | .start _ | .recover => false
  | _                   => true

theorem RunLog.Step.live (h : Step a l l') (ha : a.isQuiet) (hl : ¬isTerminal l.status) :
    ¬isTerminal l'.status := by
  cases h
  case cancel          => simp [isTerminal]
  case advance ht _ _  => exact ht
  case delta           => exact hl
  case deltaCheckpoint => exact hl
  case release         => exact hl
  case keep            => exact hl
  case discard         => exact hl
  all_goals contradiction

-- All that an operation does to a run before its end is to cancel it.
theorem RunLog.Step.unary_live (h : Step a l l') (ha : a.isUnary) (hl : ¬isTerminal l.status) :
    a = .cancel := by
  cases h
  case cancel     => rfl
  case keep hs    => exact absurd (isTerminal_of_isRecoverable hs) hl
  case discard hs => exact absurd (isTerminal_of_isRecoverable hs) hl
  all_goals contradiction

-- The run has not come to an end.
def Live (d : Db) (runId : String) : Prop :=
  ∀ r, d.runs.get? runId = some r → ¬isTerminal r.status

theorem Effect.live (h : Effect d d' l) (hq : l.isQuiet) (hl : Live d i) : Live d' i := by
  intro r' hr
  obtain rfl := Table.get?_key_eq hr
  cases h.origin hr
  case start he _ _ => simp [he, Label.isQuiet] at hq
  case same _ hr _  => exact hl r' hr
  case step r hs he =>
    rcases he with rfl | ⟨rfl, -⟩
    · exact hs.step.live hq <| hl r (hs.id ▸ hs.row)
    · simp [Label.isQuiet] at hq

-- The commits of the operations that a drain services.
structure UnaryStep (d : Db) (l : Label) (d' : Db) : Prop where
  legal : Legal d l d'
  unary : l.isUnary

-- What an operation may commit.
def Kernel.UnaryOp.allows : UnaryOp → Label → Bool
  | _,                                .idle           => true
  | .charactersCreate _,              .product        => true
  | .charactersUpdate _,              .product        => true
  | .charactersDelete (.object req),  .drop character => character = req.characterId
  | .generationCancel (.object req),  .run i .cancel  => i = req.workflowId
  | .generationKeep _,                .run _ .keep    => true
  | .generationDiscard _,             .run _ .discard => true
  | _,                                _               => false

theorem Kernel.UnaryOp.allows_idle (op : UnaryOp) : op.allows .idle := by
  unfold allows
  rfl

structure OpStep (op : UnaryOp) (d : Db) (l : Label) (d' : Db) : Prop where
  legal   : Legal d l d'
  allowed : op.allows l

theorem OpStep.unary (h : OpStep op d l d') : UnaryStep d l d' where
  legal := h.legal
  unary := by
    have := h.allowed
    unfold UnaryOp.allows at this
    split at this <;> simp_all [Label.isUnary, Act.isUnary]

theorem OpStep.idle (op : UnaryOp) (d : Db) : OpStep op d .idle d :=
  ⟨.idle d, op.allows_idle⟩

-- The commits of a cancel: a lost compare-and-swap changes nothing.
structure CancelStep (runId : String) (d : Db) (l : Label) (d' : Db) : Prop where
  legal : Legal d l d'
  label : l = .run runId .cancel ∨ (l = .idle ∧ d' = d)

theorem CancelStep.op (h : CancelStep req.workflowId d l d') :
    OpStep (.generationCancel (.object req)) d l d' where
  legal   := h.legal
  allowed := by
    rcases h.label with rfl | ⟨rfl, -⟩
    · simp [UnaryOp.allows]
    · exact UnaryOp.allows_idle _

def Cancelling (d : Db) (runId : String) : Prop :=
  ∃ r, d.runs.get? runId = some r ∧ r.status = .cancelling

theorem Known.of_reload {w t : World}
    (h : t.journal = w.journal ∧ w.db.runs.get? runId = some run) : Known t.db run :=
  World.db_eq h.left ▸ Known.of_get? h.right

namespace Kernel.Moves

variable {S : Db → Label → Db → Prop} {w : World} {run : RunRow}

-- A transaction that starts with a compare-and-swap on a copy of a run.
theorem cas {body : Tx α} {label : α → Label} {applied : α → Prop}
    (h : Tx.Ensures body (fun a d => Outcome w.db run act (applied a) d) w.db)
    (hit : ∀ d, Hit w.db d run act → S w.db (.run run.runId act) d) (idle : S w.db .idle w.db)
    (hl : ∀ a, label a = open Classical in if applied a then .run run.runId act else .idle) :
    Moves S (Kernel.transaction context label body)
      (fun a t => Outcome w.db run act (applied a) t.db) w := by
  refine transaction <| wp_mono h (fun a d ho => ⟨?_, ho⟩) fun _ _ h => h
  rw [hl]
  split
  case isTrue ha  => exact hit d <| ho.hit ha
  case isFalse ha => exact ho.miss ha ▸ idle

section Unary

theorem cancelLoop (hr : w.db.runs.get? run.runId = some run) :
    Moves (CancelStep run.runId) (cancelLoop run.runId updatedAt n run)
      (fun _ t => Cancelling t.db run.runId) w := by
  induction n generalizing w run
  case zero => exact fail
  case succ n ih =>
    unfold Kernel.cancelLoop
    split
    case isTrue hs =>
      refine (cas (cancelTx_spec (.of_get? hr) hs) (fun _ h => ⟨h.legal, .inl rfl⟩)
        ⟨.idle _, .inr ⟨rfl, rfl⟩⟩ (by simp)).bind fun changed t _ ho => ?_
      split
      case isTrue  =>
        refine reload.bind fun run' u _ h => ?_
        have hi := Table.get?_key_eq h.right
        exact hi ▸ ih (World.db_eq h.left ▸ hi ▸ h.right)
      case isFalse hn =>
        have ⟨r', hr', hs⟩ := (ho.hit hn).row
        exact pure ⟨r', hr', hs.step.cancel_status.left⟩
    case isFalse =>
      split
      case isTrue hs => exact pure ⟨run, hr, hs⟩
      case isFalse   => exact fail

theorem generationCancel_object : Moves (CancelStep req.workflowId) (generationCancel (.object req))
    (fun _ t => Cancelling t.db req.workflowId) w := by
  refine (decodeRequest checkRequestWorkflow _).bind fun req' t _ h => ?_
  obtain rfl : req = req' := by simpa using h.right.left
  refine requireRun.bind fun run u _ h => ?_
  refine now.bind fun updatedAt v _ hj => ?_
  have hi := Table.get?_key_eq h.right
  exact hi ▸ cancelLoop (World.db_eq (hj.trans h.left) ▸ hi ▸ h.right)

theorem generationCancel :
    Moves (OpStep (.generationCancel req)) (generationCancel req) (fun _ _ => True) w := by
  cases req
  case malformed => exact fail_bind
  case object    => exact generationCancel_object.mono (fun _ _ _ h => h.op) fun _ _ _ _ => trivial

theorem generationGet : Moves S (generationGet req) (fun _ _ => True) w := by
  refine (decodeRequest checkRequestWorkflow req).bind fun req t _ _ => ?_
  exact requireRun.bind fun run u _ _ => runResponse.post fun _ _ _ _ => trivial

theorem generationEvents : Moves S (generationEvents req) (fun _ _ => True) w := by
  refine (decodeRequest checkRequestListGenerationEvents req).bind fun req t _ _ => ?_
  refine requireRun.bind fun run u _ _ => ?_
  exact query.bind fun _ _ _ _ => pure trivial

theorem keepLoop (hk : Known w.db run) (hs : isRecoverable run.status) :
    Moves (OpStep (.generationKeep req)) (keepLoop chatId messageId createdAt fullText n run) (fun _ _ => True) w := by
  induction n generalizing w run
  case zero => exact pure trivial
  case succ n ih =>
    unfold Kernel.keepLoop
    refine (cas (keepTx_spec hk hs) (fun _ h => ⟨h.legal, rfl⟩) (.idle ..) (by simp)).bind ?_
    intro kept t _ _
    split
    · exact pure trivial
    · refine reload.bind fun run' u _ h => ?_
      refine ensureRecoverable.bind fun _ v _ ⟨hj, hs⟩ => ?_
      split
      · exact pure trivial
      · split
        · exact fail_bind
        · exact ih (.of_reload ⟨hj.trans h.left, h.right⟩) hs

theorem generationKeep :
    Moves (OpStep (.generationKeep req)) (generationKeep req) (fun _ _ => True) w := by
  refine (decodeRequest checkRequestWorkflow req).bind fun req t _ _ => ?_
  refine requireRun.bind fun run u _ h => ?_
  refine ensureRecoverable.bind fun _ v _ ⟨hj, hs⟩ => ?_
  split
  · exact runResponse.post fun _ _ _ _ => trivial
  · split
    · exact fail
    · refine concatDeltaText.bind fun fullText v₁ _ hj₁ => ?_
      refine newId.bind fun messageId v₂ _ ⟨hj₂, _⟩ => ?_
      refine now.bind fun createdAt v₃ _ hj₃ => ?_
      have hj := hj₃.trans <| hj₂.trans <| hj₁.trans <| hj.trans h.left
      refine (keepLoop (.of_reload ⟨hj, h.right⟩) hs).bind fun _ _ _ _ => ?_
      refine reload.bind fun run v _ _ => ?_
      split
      · exact fail_bind
      · exact runResponse.post fun _ _ _ _ => trivial

theorem discardLoop (hk : Known w.db run) (hs : isRecoverable run.status) :
    Moves (OpStep (.generationDiscard req)) (discardLoop updatedAt n run) (fun _ _ => True) w := by
  induction n generalizing w run
  case zero => exact pure trivial
  case succ n ih =>
    unfold Kernel.discardLoop
    refine (cas (discardTx_spec hk hs) (fun _ h => ⟨h.legal, rfl⟩) (.idle ..) (by simp)).bind ?_
    intro discarded t _ _
    split
    · exact pure trivial
    · refine reload.bind fun run' u _ h => ?_
      refine ensureRecoverable.bind fun _ v _ ⟨hj, hs⟩ => ?_
      exact ih (.of_reload ⟨hj.trans h.left, h.right⟩) hs

theorem generationDiscard :
    Moves (OpStep (.generationDiscard req)) (generationDiscard req) (fun _ _ => True) w := by
  refine (decodeRequest checkRequestWorkflow req).bind fun req t _ _ => ?_
  refine requireRun.bind fun run u _ h => ?_
  refine ensureRecoverable.bind fun _ v _ ⟨hj, hs⟩ => ?_
  refine now.bind fun updatedAt v' _ hj' => ?_
  have hj := hj'.trans <| hj.trans h.left
  refine (discardLoop (.of_reload ⟨hj, h.right⟩) hs).bind fun _ _ _ _ => ?_
  refine reload.bind fun run v _ _ => ?_
  split
  · exact fail_bind
  · exact runResponse.post fun _ _ _ _ => trivial

end Unary

section Characters

theorem product_legal {d : Db} (characters : Table String CharacterRow (·.id)) :
    Legal d .product { d with characters } where
  effect       := .product fun _ => ⟨rfl, rfl⟩
  consistent h := ⟨h.owner, h.type, h.chat⟩
  messages _   := .inl
  chats _      := rfl
  dropped      := nofun

theorem insertCharacter_spec {d : Db} :
    Tx.Ensures (Tx.insertCharacter context c) (fun _ d' => Legal d .product d') d := by
  unfold Tx.Ensures Proc.wp Tx.insertCharacter
  cases d.characters.insert? c
  case none => simp [Tx.failSqlite, Proc.fail]
  case some => exact product_legal _

theorem updateCharacters_spec {d : Db} {set : CharacterRow → CharacterRow}
    {hs : ∀ c, (set c).id = c.id} :
    Tx.Ensures (Tx.updateCharacters p set hs) (fun _ d' => Legal d .product d') d :=
  product_legal _

-- The chat goes with the character.
def ownsChat (d : Db) (character chatId : String) : Bool :=
  ((d.chats.rows.filter (·.characterId = character)).map (·.id)).contains chatId

theorem dropCharacter_run {d : Db} : (d.dropCharacter character).runs.get? i =
    (d.runs.get? i).filter fun r => !ownsChat d character r.chatId :=
  Table.get?_delete

theorem dropCharacter_event {d : Db} : e ∈ (d.dropCharacter character).events ↔
    e ∈ d.events ∧ ∀ r ∈ d.runs, ownsChat d character r.chatId → r.runId ≠ e.runId := by
  rw [Db.dropCharacter, Table.mem_delete]
  simp [ownsChat, Table.mem_def]

-- The runs of a deleted character go together with their events.
theorem dropCharacter_same {d : Db} (hd : (d.dropCharacter character).runs.get? i ≠ none) :
    d.Same (d.dropCharacter character) i := by
  rw [dropCharacter_run] at hd
  have ⟨r, hr⟩ := Option.ne_none_iff_exists'.mp hd
  have ⟨hg, hc⟩ := Option.filter_eq_some_iff.mp hr
  constructor
  case row => rw [dropCharacter_run, hr, hg]
  case events =>
    have hk (e : EventRow) (he : e ∈ d.events) (hi : e.runId = i) :
        e ∈ (d.dropCharacter character).events := by
      refine dropCharacter_event.mpr ⟨he, fun r' hm ho hi' => ?_⟩
      obtain rfl : r' = r := Table.eq_of_mem_of_key_eq hm (Table.mem_of_get? hg) <|
        (hi'.trans hi).trans (Table.get?_key_eq hg).symm
      simp [ho] at hc
    simp only [Db.eventsOf, Db.dropCharacter, Table.delete_rows, List.filter_filter]
    refine List.filter_congr fun e he => ?_
    by_cases hi : e.runId = i
    case neg => simp [hi]
    case pos => simpa [Db.dropCharacter, Table.mem_delete, hi] using (Table.mem_delete.mp <| hk e he hi).right

theorem dropCharacter_legal (d : Db) (character : String) :
    Legal d (.drop character) (d.dropCharacter character) where
  effect := .drop fun i => by
    by_cases hi : (d.dropCharacter character).runs.get? i = none
    · exact .inr hi
    · exact .inl <| dropCharacter_same hi
  consistent h := {
    owner := by
      intro e he
      have ⟨he, hn⟩ := dropCharacter_event.mp he
      have ⟨r, hr⟩ := Option.isSome_iff_exists.mp <| h.owner e he
      have ho : ownsChat d character r.chatId = false := by
        by_contra hc
        exact hn r (Table.mem_of_get? hr) (by simpa using hc) (Table.get?_key_eq hr)
      simp [dropCharacter_run, hr, ho]
    type := fun e he => h.type e (Table.mem_delete.mp he).left
    chat := fun r hr => h.chat r (Table.mem_delete.mp hr).left
  }
  messages m h := .inl (Table.mem_delete.mp h).left
  chats h      := absurd rfl (h character)
  dropped      := by rintro _ ⟨⟩; rfl

theorem deleteCharacter_spec {d : Db} :
    Tx.Ensures (Tx.deleteCharacter context character) (fun changed d' =>
      Legal d (if changed = 0 then .idle else .drop character) d') d := by
  unfold Tx.Ensures Proc.wp Tx.deleteCharacter
  by_cases hc : d.characters.count (·.id = character) = 0
  case pos => simpa [hc] using Legal.idle d
  case neg =>
    simp only [hc, ↓reduceIte]
    by_cases hf : (d.dropCharacter character).runs.rows.any fun r =>
        r.sourceRunId.any ((d.dropCharacter character).runs.get? · |>.isNone)
    case pos => simp [hf, Tx.failSqlite, Proc.fail]
    case neg => simpa [hc, hf] using dropCharacter_legal d character

theorem opTransaction {body : Tx α} {label : α → Label}
    (h : ∀ d, Tx.Ensures body (fun a d' => Legal d (label a) d') d) (hl : ∀ a, op.allows (label a)) :
    Moves (OpStep op) (Kernel.transaction context label body) (fun _ _ => True) w :=
  transaction (Q := fun _ _ => True) <| wp_mono (h w.db) (fun a _ h => ⟨⟨h, hl a⟩, trivial⟩)
    fun _ _ h => h

theorem characterResponse : Moves S (characterResponse i missing) (fun _ _ => True) w := by
  refine query.bind fun c t _ _ => ?_
  cases c
  case none   => exact fail
  case some c => exact (validate checkCharacterDto _).bind fun _ _ _ _ => pure trivial

theorem charactersCreate :
    Moves (OpStep (.charactersCreate req)) (charactersCreate req) (fun _ _ => True) w := by
  refine (decodeRequest checkRequestCreateCharacter req).bind fun req t _ _ => ?_
  refine newId.bind fun id _ _ _ => ?_
  refine now.bind fun createdAt u _ _ => ?_
  refine (opTransaction (fun _ => insertCharacter_spec) fun _ => rfl).bind fun _ _ _ _ => ?_
  exact characterResponse

theorem charactersUpdate :
    Moves (OpStep (.charactersUpdate req)) (charactersUpdate req) (fun _ _ => True) w := by
  refine (decodeRequest checkRequestUpdateCharacter req).bind fun req t _ _ => ?_
  refine now.bind fun updatedAt u _ _ => ?_
  refine (opTransaction (fun _ => updateCharacters_spec) fun _ => rfl).bind fun _ _ _ _ => ?_
  split
  · exact fail
  · exact characterResponse

theorem charactersDelete :
    Moves (OpStep (.charactersDelete req)) (charactersDelete req) (fun _ _ => True) w := by
  refine (decodeRequest checkRequestDeleteCharacter req).bind fun req' t _ ⟨_, hr, _⟩ => ?_
  subst hr
  refine (opTransaction (fun _ => deleteCharacter_spec) fun changed => ?_).bind fun _ _ _ _ => ?_
  case refine_1 =>
    split
    · exact UnaryOp.allows_idle _
    · simp [UnaryOp.allows]
  split
  · exact fail
  · exact pure trivial

end Characters

section Drain

theorem handleUnary : Moves (OpStep op) (handleUnary op cancelled) (fun _ _ => True) w := by
  unfold Kernel.handleUnary
  split
  case isTrue  => exact fail
  case isFalse =>
    have hu {α : Type} {p : KernelM α} (h : Moves (OpStep op) p (fun _ _ => True) w) :
        Moves (OpStep op) (unit p) (fun _ _ => True) w := h.bind fun _ _ _ _ => pure trivial
    cases op
    case charactersCreate  => exact hu charactersCreate
    case charactersUpdate  => exact hu charactersUpdate
    case charactersDelete  => exact charactersDelete
    case generationCancel  => exact generationCancel
    case generationGet     => exact hu generationGet
    case generationEvents  => exact hu generationEvents
    case generationKeep    => exact hu generationKeep
    case generationDiscard => exact hu generationDiscard
    case other             => exact ofExcept fun _ _ => trivial

theorem drainCommand : Moves UnaryStep (drainCommand c) (fun _ _ => True) w := by
  cases c
  case unary op cancelled =>
    have hu : Moves UnaryStep (Kernel.handleUnary op cancelled) (fun _ _ => True) w :=
      handleUnary.mono (fun _ _ _ h => h.unary) fun _ _ _ _ => trivial
    refine (hu.attempt (Q := fun _ _ => True) fun _ _ _ => trivial).bind ?_
    exact fun _ _ _ _ => pure trivial
  all_goals exact (modify rfl rfl).bind fun _ _ _ _ => pure trivial

theorem drainCommands : Moves UnaryStep (drainCommands cs) (fun _ _ => True) w := by
  induction cs generalizing w
  case nil => exact pure trivial
  case cons ih =>
    refine drainCommand.bind fun _ _ _ _ => ?_
    exact ih.bind fun _ _ _ _ => pure trivial

theorem takeBatch : Moves S takeBatch (fun _ t => t.journal = w.journal) w :=
  ⟨⟨.refl, List.suffix_rfl⟩, rfl⟩

theorem drainPending : Moves UnaryStep drainPending (fun _ _ => True) w :=
  takeBatch.bind fun _ _ _ _ => drainCommands

end Drain

end Kernel.Moves

open Wire Storage Kernel
open Journal (Grows)

-- The acts that a run whose cancel was requested may still go through.
def Kernel.Act.respectsCancel : Act → Bool
  | .advance _ | .delta _ => false
  | .finish s             => s = .cancelled
  | _                     => true

-- The statuses of a run that has been cancelled and not overridden.
def Kernel.settled (s : GenerationStatus) : Bool :=
  s = .cancelling || s = .cancelled || s = .interrupted

-- No act overrides a requested cancel.
def CancelKept (d : Db) (l : Label) : Prop :=
  ∀ i act r, l = .run i act → d.runs.get? i = some r → r.cancelRequested → act.respectsCancel

-- What the kernel commits. If `strict`, nothing overrides a requested cancel.
structure KernelStep (strict : Prop) (d : Db) (l : Label) (d' : Db) : Prop where
  legal  : Legal d l d'
  cancel : strict → CancelKept d l

namespace RunLog

theorem Step.settled (h : Step a l l') (ha : l.cancelRequested → a.respectsCancel)
    (hl : l.cancelRequested → settled l.status) (hc : l'.cancelRequested) : settled l'.status := by
  cases h
  case cancel          => rfl
  case advance         => exact absurd (ha hc) (by simp [Act.respectsCancel])
  case delta           => exact hl hc
  case deltaCheckpoint => exact hl hc
  case finish          =>
    have := ha hc
    simp_all [Act.respectsCancel, Kernel.settled]
  case release         => exact hl hc
  case keep            => exact hl hc
  case discard         => exact hl hc
  case interrupt       => rfl

-- A request for a cancel stays.
theorem Step.requested (h : Step a l l') (hl : l.cancelRequested) : l'.cancelRequested := by
  cases h
  case cancel => rfl
  all_goals exact hl

theorem Step.deltas (h : Step a l l') (ha : a.respectsCancel) (he : (s, .delta text) ∈ l'.entries) :
    (s, .delta text) ∈ l.entries := by
  cases h
  case finish e _ he' _ =>
    simp only [append, touch, List.mem_append, List.mem_singleton, Prod.mk.injEq] at he
    rcases he with he | ⟨-, rfl⟩
    · exact he
    · simp [terminalStatus] at he'
  case discard => simp at he
  case delta => contradiction
  case deltaCheckpoint => contradiction
  all_goals exact he

end RunLog

-- A cancel that was requested has settled the status of the run.
def Respected (d : Db) (runId : String) : Prop :=
  ∀ r, d.runs.get? runId = some r → r.cancelRequested → settled r.status

def Requested (d : Db) (runId : String) : Prop :=
  ∀ r, d.runs.get? runId = some r → r.cancelRequested

section Steps

variable {d d' : Db} {l : Label} {i : String}

theorem KernelStep.respects (h : KernelStep strict d l d') (ht : strict)
    (hs : Stepped act d d' r r') (hl : l = .run r'.runId act ∨ (l = .recover ∧ act = .interrupt))
    (hc : r.cancelRequested) : act.respectsCancel := by
  rcases hl with hl | ⟨-, rfl⟩
  · exact h.cancel ht _ act r hl (hs.id ▸ hs.row) hc
  · rfl

theorem KernelStep.respected (h : KernelStep strict d l d') (ht : strict) (hr : Respected d i) :
    Respected d' i := by
  intro r' hr' hc
  obtain rfl := Table.get?_key_eq hr'
  cases h.legal.effect.origin hr'
  case start _ _ hl =>
    have : r'.cancelRequested = false := congrArg RunLog.cancelRequested hl
    simp [this] at hc
  case same _ hr'' _ => exact hr r' hr'' hc
  case step r hs hl =>
    exact hs.step.settled (h.respects ht hs hl) (hr r (hs.id ▸ hs.row)) hc

theorem Legal.requested (h : Legal d l d') (hl : l ≠ .start i) (hr : Requested d i) :
    Requested d' i := by
  intro r' hr'
  obtain rfl := Table.get?_key_eq hr'
  cases h.effect.origin hr'
  case start he _ _ => exact absurd he hl
  case same _ hr'' _ => exact hr r' hr''
  case step r hs _  => exact hs.step.requested <| hr r (hs.id ▸ hs.row)

end Steps

theorem Journal.Grows.respected {j k : Journal Label Db} (h : Grows (KernelStep strict) j k)
    (ht : strict) (hr : Respected j.state i) : Respected k.state i :=
  h.preserves_state (I := (Respected · i)) (fun _ _ _ hr h => h.respected ht hr) hr

theorem Journal.Grows.consistent {j k : Journal Label Db} (h : Grows (KernelStep strict) j k)
    (hc : j.state.Consistent) : k.state.Consistent :=
  h.preserves_state (fun _ _ _ hc h => h.legal.consistent hc) hc
