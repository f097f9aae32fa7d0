import NeoTavern.Generation.RunLog
import NeoTavern.Kernel.Executor
import NeoTavern.Lib.Revision
import NeoTavern.Storage.Database

open Wire Storage Kernel Proc

-- The log that a run row and the events of the run stand for.
def RunLog.of (r : RunRow) (es : List EventRow) : RunLog where
  status            := r.status
  cancelRequested   := r.cancelRequested
  revision          := r.revision
  lastEventSequence := r.lastEventSequence
  partialLength     := r.partialLength
  entries           := es.map fun e => (e.sequence, e.payload)

theorem RunLog.of_append {r : RunRow} : RunLog.of r (es ++ [e]) =
    { RunLog.of r es with entries := (RunLog.of r es).entries ++ [(e.sequence, e.payload)] } := by
  simp [RunLog.of]

def Storage.Db.runLog (db : Db) (r : RunRow) : RunLog :=
  .of r (db.eventsOf r.runId)

-- The commit takes the run through a step of its log.
structure Stepped (act : Act) (db db' : Db) (r r' : RunRow) : Prop where
  row  : db.runs.get? r.runId = some r
  row' : db'.runs.get? r.runId = some r'
  id   : r'.runId = r.runId
  plan : r'.plan = r.plan
  step : RunLog.Step act (db.runLog r) (db'.runLog r')

-- What a commit may do to the generation tables: at most one run moves, by a step of its log.
-- Recovery may move many, and the deletion of a character takes runs away.
inductive Effect (db db' : Db) : Label → Prop
  | start (new : db.runs.get? r.runId = none) (row : db'.runs.get? r.runId = some r)
    (log : db'.runLog r = .start) (others : ∀ i ≠ r.runId, db.Same db' i) :
    Effect db db' (.start r.runId)
  | run (step : Stepped act db db' r r') (others : ∀ i ≠ r.runId, db.Same db' i) :
    Effect db db' (.run r.runId act)
  | recover (all : ∀ i, db.Same db' i ∨ ∃ r r', r.runId = i ∧ Stepped .interrupt db db' r r') :
    Effect db db' .recover
  | drop (all : ∀ i, db.Same db' i ∨ db'.runs.get? i = none) :
    Effect db db' (.drop characterId)
  | product (all : ∀ i, db.Same db' i) :
    Effect db db' .product
  | idle (all : ∀ i, db.Same db' i) :
    Effect db db' .idle

-- The acts that insert the text of the run as a message.
def Kernel.Act.insertsMessage : Act → Bool
  | .keep | .finish .completed => true
  | _                          => false

structure Legal (db : Db) (l : Label) (db' : Db) : Prop where
  effect     : Effect db db' l
  consistent : db.Consistent → db'.Consistent
  messages   : ∀ m ∈ db'.messages, m ∈ db.messages ∨
    ∃ i act, l = .run i act ∧ act.insertsMessage ∧ m.generationRunId = some i
  chats      : (∀ c, l ≠ .drop c) → db'.chats = db.chats
  dropped    : ∀ c, l = .drop c → db' = db.dropCharacter c

-- A copy of a run row that is current unless the row has moved on.
def Known (db : Db) (run : RunRow) : Prop :=
  Revision.Known (·.revision) db.runs.get? run.runId run

theorem Known.of_get? (h : db.runs.get? i = some run) : Known db run :=
  Revision.Known.of_current <| Table.get?_key_eq h ▸ h

-- A compare-and-swap on a copy hit, so the copy was current.
structure Hit (db db' : Db) (run : RunRow) (act : Act) : Prop where
  current : db.runs.get? run.runId = some run
  legal   : Legal db (.run run.runId act) db'

theorem Hit.row (h : Hit db db' run act) :
    ∃ r', db'.runs.get? run.runId = some r' ∧ Stepped act db db' run r' := by
  have he := h.legal.effect
  generalize hl : Label.run run.runId act = l at he
  cases he
  case run r r' hs ho =>
    simp only [Label.run.injEq] at hl
    obtain ⟨hi, rfl⟩ := hl
    obtain rfl : run = r := Option.some.inj <| h.current.symm.trans (hi ▸ hs.row)
    exact ⟨r', hs.row', hs⟩
  all_goals cases hl

theorem Legal.idle (db : Db) : Legal db .idle db :=
  ⟨.idle fun _ => .refl _ _, id, fun _ => .inl, fun _ => rfl, nofun⟩

theorem Storage.Db.Writes.hit_messages {db db' : Db} (hw : db.Writes db' r r' es ms)
    (hs : RunLog.Step act (db.runLog r) (.of r' es))
    (hm : ∀ m ∈ ms, act.insertsMessage ∧ m.generationRunId = some r.runId) :
    Hit db db' r act where
  current := hw.row
  legal   := {
    effect     := by
      have hs : RunLog.Step act (db.runLog r) (db'.runLog r') := by
        simpa [Db.runLog, hw.id, hw.events] using hs
      exact .run ⟨hw.row, hw.row', hw.id, hw.plan, hs⟩ hw.others
    consistent := hw.consistent
    messages   := by
      intro m h
      rw [Table.mem_def, hw.messages, List.mem_append] at h
      rcases h with h | h
      · exact .inl h
      · exact .inr ⟨_, _, rfl, hm m h⟩
    chats _    := hw.chats
    dropped    := nofun
  }

theorem Storage.Db.Writes.hit {db db' : Db} (hw : db.Writes db' r r' es [])
    (hs : RunLog.Step act (db.runLog r) (.of r' es)) : Hit db db' r act :=
  hw.hit_messages hs fun _ hm => absurd hm List.not_mem_nil

-- The outcome of a transaction that starts with a compare-and-swap on `run`.
structure Outcome (db : Db) (run : RunRow) (act : Act) (applied : Prop) (db' : Db) : Prop where
  hit  : applied → Hit db db' run act
  miss : ¬applied → db' = db
  lost : ¬applied → db.runs.get? run.runId ≠ some run

theorem Outcome.of_hit (h : Hit db db' run act) : Outcome db run act True db' :=
  ⟨fun _ => h, fun hn => absurd trivial hn, fun hn => absurd trivial hn⟩

theorem Outcome.of_miss (h : ∀ r, db.runs.get? run.runId = some r → r.revision ≠ run.revision) :
    Outcome db run act False db :=
  ⟨False.elim, fun _ => rfl, fun _ hr => h run hr rfl⟩

-- On the current row a compare-and-swap hits.
theorem Outcome.current (h : Outcome db run act applied db')
    (hr : db.runs.get? run.runId = some run) : applied ∧ Hit db db' run act := by
  have ha : applied := by
    by_contra hn
    exact h.lost hn hr
  exact ⟨ha, h.hit ha⟩

namespace Kernel

variable {db : Db} {run : RunRow} (hk : Known db run)

include hk

theorem cancelTx_spec (hs : isCancellable run.status) :
    Tx.Ensures (cancelTx run updatedAt)
      (fun changed db' => Outcome db run .cancel (changed ≠ 0) db') db := by
  refine Tx.wp_casRun (fun _ => rfl) (by simpa using Outcome.of_miss) fun r db' hr hv hw => ?_
  obtain rfl := hk.eq_of_rev_eq hr hv
  simpa using Outcome.of_hit <| hw.hit <| .cancel hs

theorem keepTx_spec (hs : isRecoverable run.status) :
    Tx.Ensures (keepTx run chatId messageId createdAt fullText)
      (fun kept db' => Outcome db run .keep kept db') db := by
  refine wp_bind.mpr <| Tx.wp_casRun (fun _ => rfl) (by simpa using Outcome.of_miss) fun r db' hr hv hw => ?_
  obtain rfl := hk.eq_of_rev_eq hr hv
  simp only [one_ne_zero, ↓reduceIte, wp_bind, wp_gets]
  refine Tx.wp_insertMessage hw fun db'' hw => ?_
  simpa using Outcome.of_hit <| hw.hit_messages (.keep hs) (by simp [Act.insertsMessage])

theorem discardTx_spec (hs : isRecoverable run.status) :
    Tx.Ensures (discardTx run updatedAt)
      (fun discarded db' => Outcome db run .discard discarded db') db := by
  refine wp_bind.mpr <| Tx.wp_casRun (fun _ => rfl) (by simpa using Outcome.of_miss) fun r db' hr hv hw => ?_
  obtain rfl := hk.eq_of_rev_eq hr hv
  simp only [one_ne_zero, ↓reduceIte, wp_bind]
  refine Tx.wp_deleteEvents hw fun db'' hw => ?_
  simpa using Outcome.of_hit <| hw.hit <| .discard hs

theorem advanceTx_spec (hs : ¬isTerminal run.status) (ht : ¬isTerminal status)
    (hc : status ≠ .cancelling) :
    Tx.Ensures (advanceTx run status leaseOwner lease updatedAt)
      (fun changed db' => Outcome db run (.advance status) (changed ≠ 0) db') db := by
  refine Tx.wp_casRun (fun _ => rfl) (by simpa using Outcome.of_miss) fun r db' hr hv hw => ?_
  obtain rfl := hk.eq_of_rev_eq hr hv
  simpa using Outcome.of_hit <| hw.hit <| .advance hs ht hc

theorem releaseTx_spec (hs : ¬isTerminal run.status) :
    Tx.Ensures (releaseTx run updatedAt)
      (fun changed db' => Outcome db run .release (changed ≠ 0) db') db := by
  refine Tx.wp_casRun (fun _ => rfl) (by simpa using Outcome.of_miss) fun r db' hr hv hw => ?_
  obtain rfl := hk.eq_of_rev_eq hr hv
  simpa using Outcome.of_hit <| hw.hit <| .release hs

theorem terminalCancelledTx_spec (hs : ¬isTerminal run.status) :
    Tx.Ensures (terminalCancelledTx run .cancelled leaseOwner lease updatedAt)
      (fun applied db' => Outcome db run (.finish .cancelled) applied db') db := by
  refine wp_bind.mpr <| Tx.wp_casRun (fun _ => rfl) (by simpa using Outcome.of_miss) fun r db' hr hv hw => ?_
  obtain rfl := hk.eq_of_rev_eq hr hv
  simp only [one_ne_zero, ↓reduceIte, wp_bind]
  refine Tx.wp_insertEvent hw rfl rfl fun db'' hw => ?_
  simpa using Outcome.of_hit <| hw.hit <| RunLog.of_append ▸ .finish hs rfl

theorem terminalFailedTx_spec (hs : ¬isTerminal run.status) :
    Tx.Ensures (terminalFailedTx run error (.failed error) leaseOwner lease updatedAt)
      (fun applied db' => Outcome db run (.finish .failed) applied db') db := by
  refine wp_bind.mpr <| Tx.wp_casRun (fun _ => rfl) (by simpa using Outcome.of_miss) fun r db' hr hv hw => ?_
  obtain rfl := hk.eq_of_rev_eq hr hv
  simp only [one_ne_zero, ↓reduceIte, wp_bind]
  refine Tx.wp_insertEvent hw rfl rfl fun db'' hw => ?_
  simpa using Outcome.of_hit <| hw.hit <| RunLog.of_append ▸ .finish hs rfl

theorem terminalCompletedTx_spec (hs : ¬isTerminal run.status) :
    Tx.Ensures (terminalCompletedTx run message (.completed dto) leaseOwner lease)
      (fun applied db' => Outcome db run (.finish .completed) applied db') db := by
  refine wp_bind.mpr <| Tx.wp_casRun (fun _ => rfl) (by simpa using Outcome.of_miss) fun r db' hr hv hw => ?_
  obtain rfl := hk.eq_of_rev_eq hr hv
  simp only [one_ne_zero, ↓reduceIte, wp_bind]
  refine Tx.wp_insertMessage hw fun db'' hw => ?_
  refine Tx.wp_insertEvent hw rfl rfl fun db'' hw => ?_
  have hh : Hit db db'' r (.finish .completed) :=
    hw.hit_messages (RunLog.of_append ▸ .finish hs rfl) (by simp [Act.insertsMessage])
  simpa using Outcome.of_hit hh

theorem deltaTx_spec (hs : isCancellable run.status) (hc : run.cancelRequested = false)
    (hp : checkpoint = if isCheckpoint i then
      some (.checkpoint (endSequence run i) (run.partialLength + text.utf8ByteSize)) else none) :
    Tx.Ensures (deltaTx run text i (.delta text) checkpoint leaseOwner lease updatedAt)
      (fun applied db' => Outcome db run (.delta text) applied db') db := by
  refine wp_bind.mpr <| Tx.wp_casRun (fun _ => rfl) (by simpa using Outcome.of_miss) fun r db' hr hv hw => ?_
  obtain rfl := hk.eq_of_rev_eq hr hv
  simp only [one_ne_zero, ↓reduceIte, wp_bind]
  refine Tx.wp_insertEvent hw rfl rfl fun db'' hw => ?_
  by_cases hi : isCheckpoint i
  case pos =>
    rw [hp, if_pos hi]
    simp only [wp_bind]
    refine Tx.wp_insertEvent hw rfl rfl fun db'' hw => ?_
    have hl : endSequence r i = r.lastEventSequence + 1 + 1 := by
      simp [endSequence, hi, add_assoc]
    rw [hl] at hw
    have hh : Hit db db'' r (.delta text) := by
      refine hw.hit ?_
      rw [RunLog.of_append, RunLog.of_append]
      exact .deltaCheckpoint hs hc
    simpa using Outcome.of_hit hh
  case neg =>
    rw [hp, if_neg hi]
    have hl : endSequence r i = r.lastEventSequence + 1 := by
      simp [endSequence, hi]
    rw [hl] at hw
    simpa using Outcome.of_hit <| hw.hit <| RunLog.of_append ▸ .delta hs hc

end Kernel
