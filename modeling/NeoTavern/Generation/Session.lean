import NeoTavern.Generation.Streaming

open Wire Storage Kernel Proc

namespace Kernel

section Start

variable {d : Db} {r : RunRow}

-- A run that was just created.
structure Started (d : Db) (runId : String) (run : RunRow) : Prop where
  row    : d.runs.get? runId = some run
  log    : d.runLog run = .start
  isUuid : Wire.isUuid runId
  chat   : (d.chats.get? run.chatId).isSome

theorem Started.live (h : Started d i r) : Live d i := by
  intro r' hr
  obtain rfl := Option.some.inj <| h.row.symm.trans hr
  have hs : r.status = .queued := congrArg RunLog.status h.log
  simp [hs, isTerminal]

theorem Started.respected (h : Started d i r) : Respected d i := by
  intro r' hr hc
  obtain rfl := Option.some.inj <| h.row.symm.trans hr
  have hq : r.cancelRequested = false := congrArg RunLog.cancelRequested h.log
  simp [hq] at hc

theorem insertRun_spec (context : String) (hc : d.Consistent) (hr : RunLog.of r [] = .start)
    (hu : isUuid r.chatId) :
    Tx.Ensures (Tx.insertRun context r) (fun _ d' =>
      Legal d (.start r.runId) d' ∧ d'.runs.get? r.runId = some r ∧ d'.runLog r = .start ∧
        (d'.chats.get? r.chatId).isSome) d := by
  unfold Tx.Ensures Proc.wp Tx.insertRun
  by_cases hf : (d.chats.get? r.chatId).isNone ∨ r.sourceRunId.any (d.runs.get? · |>.isNone)
  case pos => simp only [if_pos hf, Tx.failSqlite, Proc.fail]
  case neg =>
    cases hi : d.runs.insert? r
    case none => simp only [if_neg hf, Tx.failSqlite, Proc.fail]
    case some runs =>
      have hg := Table.get?_insert? hi
      have hn := Table.insert?_fresh hi
      have hrow : runs.get? r.runId = some r := by simp [hg]
      simp only [if_neg hf]
      have hlog : ({ d with runs } : Db).runLog r = .start :=
        hr ▸ congrArg (RunLog.of r) (hc.eventsOf_nil hn)
      have hchat : (d.chats.get? r.chatId).isSome := by
        by_contra hc
        exact hf <| .inl <| by simpa using hc
      refine ⟨⟨.start hn hrow hlog fun i hi => ⟨?row, rfl⟩, fun h => ⟨?owner, h.type, ?chat⟩,
        fun _ => .inl, fun _ => rfl, by simp⟩, hrow, hlog, hchat⟩
      case row => simp [hg, hi.symm]
      case owner =>
        intro e he
        have := h.owner e he
        simp only [hg]
        split <;> simp_all
      case chat =>
        intro r' hm
        rcases Table.mem_insert? hi |>.mp hm with hm | rfl
        · exact h.chat r' hm
        · exact hu

end Start

section Recover

variable {d : Db}

theorem isStale_not_terminal (h : isStale t r) : ¬isTerminal r.status := by
  cases hs : r.status <;> simp_all [isStale, isTerminal]

theorem recoverTx_spec : Tx.Ensures (recoverTx t) (fun _ d' =>
    d' = { d with runs := d.runs.update (isStale t) (interrupt t) }) d :=
  rfl

theorem recover_row : (d.runs.update (isStale t) (interrupt t)).get? i =
    (d.runs.get? i).map fun r => if isStale t r then interrupt t r else r :=
  Table.get?_update

theorem recover_legal (t : String) (d : Db) :
    Legal d .recover { d with runs := d.runs.update (isStale t) (interrupt t) } where
  effect := by
    refine .recover fun i => ?_
    cases hg : d.runs.get? i
    case none   => exact .inl ⟨by rw [recover_row, hg]; rfl, rfl⟩
    case some r =>
      obtain rfl := Table.get?_key_eq hg
      cases hs : isStale t r
      case false => exact .inl ⟨by rw [recover_row, hg]; simp [hs], rfl⟩
      case true  =>
        refine .inr ⟨r, interrupt t r, rfl, hg, by rw [recover_row, hg]; simp [hs], rfl, rfl, ?_⟩
        exact .interrupt <| isStale_not_terminal hs
  consistent := by
    intro h
    refine ⟨fun e he => ?_, h.type, fun r hm => ?_⟩
    · rw [recover_row]
      simp [h.owner e he]
    · obtain ⟨r', hm, he⟩ := List.mem_map.mp hm
      have hu := h.chat r' hm
      split at he
      · rwa [← he]
      · rwa [← he]
  messages _ := .inl
  chats _    := rfl
  dropped    := by simp

end Recover

def streamOf : Option Command → Option StreamOp
  | some (.stream op) => some op
  | _                 => none

-- The turn serves no stream whose first drain cancels it.
def CleanTurn (leaseOwner : String) (w : World) : Prop :=
  w.stop = false → wp nextCommand (fun c => fun t => ∀ op ∈ streamOf c,
    wp (streamStart op leaseOwner) (CleanBoundary drainPending) (fun _ _ => True) t)
    (fun _ _ => True) w

instance : Decidable (CleanTurn leaseOwner w) :=
  inferInstanceAs <| Decidable (_ → _)

def CleanTurns (leaseOwner : String) (registry : ProviderRegistry) : Nat → World → Prop
  | 0,     _ => True
  | n + 1, w => CleanTurn leaseOwner w ∧
    CleanTurns leaseOwner registry n (serve leaseOwner registry w).snd

instance decidableCleanTurns (leaseOwner : String) (registry : ProviderRegistry) :
    (n : Nat) → (w : World) → Decidable (CleanTurns leaseOwner registry n w)
  | 0,     _ => inferInstanceAs <| Decidable True
  | n + 1, w =>
    have := decidableCleanTurns leaseOwner registry n (serve leaseOwner registry w).snd
    inferInstanceAs <| Decidable (_ ∧ _)

namespace Moves

variable {strict : Prop} {w : World}

theorem streamSetup (hc : w.db.Consistent) : Moves S (streamSetup op)
    (fun setup t => t.journal = w.journal ∧ isUuid setup.chatId) w := by
  cases op
  case start req =>
    refine (decodeRequest checkRequestStartGeneration req).bind fun req t _ h => ?_
    refine query.bind fun chat u _ h' => ?_
    have hj := h'.left.trans h.left
    have hu : isUuid req.chatId := by
      have := h.right.right
      simp only [checkRequestStartGeneration, List.append_eq_nil_iff, checkFormat_eq_nil_iff] at this
      exact this.left.left.left
    split
    · exact fail_bind
    · exact pure ⟨hj, hu⟩
  case retry req =>
    refine (decodeRequest checkRequestRetryGeneration req).bind fun req t _ h => ?_
    refine requireRun.bind fun source u _ h' => ?_
    refine ensureRecoverable.bind fun _ v _ h'' => ?_
    have hu := hc.chat source <| Table.mem_of_get? <| World.db_eq h.left ▸ h'.right
    exact pure ⟨h''.left.trans <| h'.left.trans h.left, hu⟩
  case other => exact fail

theorem streamStart (hc : w.db.Consistent) : Moves (KernelStep strict) (streamStart op leaseOwner)
    (fun runId t => ∃ run, Started t.db runId run) w := by
  refine newId.bind fun runId t₁ _ ⟨hj₁, hi⟩ => ?_
  refine (streamSetup (World.db_eq hj₁ ▸ hc)).bind fun setup t₂ _ ⟨hj₂, hu⟩ => ?_
  refine now.bind fun createdAt t₃ _ hj₃ => ?_
  refine leaseExpires.bind fun lease t₄ _ hj₄ => ?_
  have hj := hj₄.trans <| hj₃.trans <| hj₂.trans hj₁
  have hs := insertRun_spec (r := newRun runId setup leaseOwner lease createdAt)
    "generation stream: insert run" (World.db_eq hj ▸ hc) rfl hu
  refine (transaction (Q := fun _ d => ∃ run, Started d runId run) ?_).bind fun _ _ _ h => pure h
  refine wp_mono hs (fun _ d ⟨hl, hr, hlog, hchat⟩ => ⟨⟨hl, ?_⟩, ?_⟩) fun _ _ h => h
  · exact fun _ i act r h => nomatch h
  · exact ⟨_, hr, hlog, hi, hchat⟩

theorem recover : Moves (KernelStep strict) recover (fun _ _ => True) w := by
  refine now.bind fun updatedAt t _ _ => ?_
  refine (transaction (Q := fun _ _ => True) ?_).bind fun _ _ _ _ => pure trivial
  refine wp_mono recoverTx_spec (fun _ d h => ⟨⟨h ▸ recover_legal .., ?_⟩, trivial⟩) fun _ _ h => h
  rintro - i act r ⟨⟩

theorem serveStream (hc : w.db.Consistent) (ho : strict → registry.Obedient)
    (hb : strict → Proc.wp (Kernel.streamStart op leaseOwner) (CleanBoundary Kernel.drainPending)
      (fun _ _ => True) w) :
    Moves (KernelStep strict) (serveStream leaseOwner registry op) (fun _ _ => True) w := by
  unfold Kernel.serveStream
  refine bind_run (Q := fun r t => ∀ streamId, r = .ok streamId →
    Live t.db streamId ∧ Respected t.db streamId) ?_ fun r t hrun _ h => ?_
  · refine ((streamStart hc).post fun _ _ _ ⟨run, h⟩ => ?_).attempt fun _ _ _ => by rintro _ ⟨⟩
    rintro _ ⟨⟩
    exact ⟨h.live, h.respected⟩
  · rcases r with e | streamId
    · exact pure trivial
    · have ⟨hl, hr⟩ := h streamId rfl
      have hb : strict → CleanBoundary Kernel.drainPending streamId t := by
        intro hs
        refine (wp_of_ok ?_).mp (hb hs)
        unfold Proc.attempt at hrun
        split at hrun
        simp_all
      refine gets.bind fun runTimeout u _ ⟨hu, _⟩ => hu ▸ ?_
      refine bind (Q := fun _ _ => True) (attempt ?_ fun _ _ _ => trivial) fun _ _ _ _ => pure trivial
      exact (executeStream (fun _ => drainPending) ho hl (fun _ => hr) hb).mono
        (fun _ _ _ h => h.toKernelStep) fun _ _ _ _ => trivial

theorem serveUnary : Moves (KernelStep strict) (Proc.attempt <| Kernel.handleUnary op cancelled)
    (fun _ _ => True) w := by
  refine attempt ?_ fun _ _ _ => trivial
  exact handleUnary.mono (fun _ _ _ h => h.unary.quiet.toKernelStep) fun _ _ _ _ => trivial

theorem serveCommand (hc : w.db.Consistent) (ho : strict → registry.Obedient)
    (hb : strict → ∀ op, c = .stream op →
      Proc.wp (Kernel.streamStart op leaseOwner) (CleanBoundary Kernel.drainPending)
        (fun _ _ => True) w) :
    Moves (KernelStep strict) (serveCommand leaseOwner registry c) (fun _ _ => True) w := by
  cases c
  case unary          => exact serveUnary.bind fun _ _ _ _ => pure trivial
  case stream op      => exact serveStream hc ho fun hs => hb hs op rfl
  case setRunTimeout  => exact (modify rfl rfl).post fun _ _ _ _ => trivial
  case shutdown       => exact (modify rfl rfl).post fun _ _ _ _ => trivial

theorem nextCommand : Moves S nextCommand (fun _ t => t.journal = w.journal) w := by
  constructor
  unfold Kernel.nextCommand Proc.wp
  cases hp : w.pending
  case cons   => simpa only [hp] using ⟨⟨.refl, List.suffix_rfl⟩, trivial⟩
  case nil    =>
    cases hr : receive w.inbox
    case none   => simpa only [hp, hr] using ⟨⟨.refl, List.suffix_rfl⟩, trivial⟩
    case some c => simpa only [hp, hr] using ⟨⟨.refl, List.suffix_rfl⟩, trivial⟩

theorem serve (hc : w.db.Consistent) (ho : strict → registry.Obedient)
    (hb : strict → CleanTurn leaseOwner w) :
    Moves (KernelStep strict) (serve leaseOwner registry) (fun _ _ => True) w := by
  refine gets.bind fun stop t _ ⟨ht, hstop⟩ => ?_
  subst ht
  split
  case isTrue  => exact pure trivial
  case isFalse hs =>
    refine nextCommand.bind_run fun c u hnext _ hj => ?_
    cases c
    case none   => exact pure trivial
    case some c =>
      refine serveCommand (World.db_eq hj ▸ hc) ho fun h op he => ?_
      exact (wp_of_ok hnext).mp (hb h <| by simpa [hstop] using hs) op <| by simp [streamOf, he]

theorem serveMany (hc : w.db.Consistent) (ho : strict → registry.Obedient)
    (hb : strict → CleanTurns leaseOwner registry n w) :
    Moves (KernelStep strict) (serveMany leaseOwner registry n) (fun _ _ => True) w := by
  induction n generalizing w
  case zero => exact pure trivial
  case succ n ih =>
    refine (serve hc ho fun h => (hb h).left).bind_run fun _ t ht hg _ => ?_
    refine ih (hg.grows.consistent hc) fun h => ?_
    simpa [ht] using (hb h).right

theorem writerMain (hc : w.db.Consistent) (ho : strict → registry.Obedient)
    (hb : strict → CleanTurns leaseOwner registry n (Kernel.recover w).snd) :
    Moves (KernelStep strict) (writerMain leaseOwner registry n) (fun _ _ => True) w := by
  refine (recover.attempt (Q := fun _ _ => True) fun _ _ _ => trivial).bind_run fun _ t ht hg _ => ?_
  refine serveMany (hg.grows.consistent hc) ho fun h => ?_
  unfold Proc.attempt at ht
  split at ht
  simp_all

end Moves
end Kernel
