import NeoTavern.Kernel.Stable
import NeoTavern.Storage.Database

namespace Kernel

open Wire Storage Proc

-- Between `w` and `t` the storage did not fail, no command was taken from the channel and no attempt
-- of a provider was made.
structure Calm (w t : World) : Prop where
  failures : t.failures = w.failures
  inbox    : t.inbox = w.inbox
  attempts : t.attempts = w.attempts

theorem Calm.refl (w : World) : Calm w w :=
  ⟨rfl, rfl, rfl⟩

theorem Calm.trans (h₁ : Calm w t) (h₂ : Calm t u) : Calm w u where
  failures := h₂.failures.trans h₁.failures
  inbox    := h₂.inbox.trans h₁.inbox
  attempts := h₂.attempts.trans h₁.attempts

-- Unless the storage fails, `p` ends: in `Q` when it succeeds, in `E` when it does not. A failure of
-- the storage is never swallowed.
structure Ends (p : KernelM α) (Q : α → World → Prop) (E : World → Prop) (w : World) : Prop where
  wp : wp p (fun a t => Calm w t ∧ Q a t) (fun _ t => t.failures ≠ w.failures ∨ (Calm w t ∧ E t)) w

namespace Ends

variable {α β : Type} {w : World} {p : KernelM α} {k : α → KernelM β} {E E' : World → Prop}

section Structure

variable {Q Q' : α → World → Prop} {R : β → World → Prop}

theorem mono (h : Ends p Q E w) (hq : ∀ a t, Calm w t → Q a t → Q' a t)
    (he : ∀ t, Calm w t → E t → E' t) : Ends p Q' E' w := by
  refine ⟨wp_mono h.wp (fun a t ⟨hc, h⟩ => ⟨hc, hq a t hc h⟩) fun _ t h => ?_⟩
  exact h.imp_right fun ⟨hc, h⟩ => ⟨hc, he t hc h⟩

theorem pure (h : Q a w) : Ends (Pure.pure a) Q E w :=
  ⟨.refl w, h⟩

theorem fail (h : E w) : Ends (Proc.fail e) Q E w :=
  ⟨.inr ⟨.refl w, h⟩⟩

theorem bind (hp : Ends p Q E w) (hk : ∀ a t, Calm w t → Q a t → Ends (k a) R E t) :
    Ends (p >>= k) R E w := by
  refine ⟨wp_bind.mpr <| wp_mono hp.wp ?_ fun _ _ h => h⟩
  intro a t ⟨hc, hq⟩
  refine wp_mono (hk a t hc hq).wp ?_ ?_
  · exact fun _ _ ⟨hc', hr⟩ => ⟨hc.trans hc', hr⟩
  · intro _ u h
    rcases h with h | ⟨hc', h⟩
    · exact .inl <| hc.failures ▸ h
    · exact .inr ⟨hc.trans hc', h⟩

end Structure

section Primitives

theorem utcNow : Ends utcNow (fun _ t => t.journal = w.journal) E w :=
  ⟨⟨rfl, rfl, rfl⟩, rfl⟩

theorem now : Ends now (fun s t => t.journal = w.journal ∧ isDateTime s) E w :=
  utcNow.bind fun t _ _ hj => pure ⟨hj, t.format_isDateTime⟩

theorem leaseExpires : Ends leaseExpires (fun _ t => t.journal = w.journal) E w := by
  refine utcNow.bind fun t _ _ hj => ?_
  split
  · exact pure hj
  · exact now.mono (fun _ _ _ hj' => hj'.left.trans hj) fun _ _ h => h

theorem newId : Ends newId (fun i t => t.journal = w.journal ∧ isUuid i) E w :=
  ⟨⟨rfl, rfl, rfl⟩, rfl, newId_isUuid _⟩

theorem sendNotice : Ends (sendNotice runId n) (fun _ t => t.journal = w.journal) E w :=
  ⟨⟨rfl, rfl, rfl⟩, rfl⟩

theorem validate {check : α → String → List Issue} (h : check dto "" = []) :
    Ends (validate check dto) (fun _ t => t.journal = w.journal) E w := by
  unfold Kernel.validate
  split
  case h_1       => exact pure rfl
  case h_2 _ hne => exact absurd h hne

theorem validate_fails {check : α → String → List Issue} {k : Unit → KernelM β}
    {R : β → World → Prop} (h : check dto "" ≠ []) (he : E w) :
    Ends (Kernel.validate check dto >>= k) R E w := by
  refine bind (Q := fun _ _ => False) ?_ fun _ _ _ h => h.elim
  unfold Kernel.validate
  split
  case h_1 hn => exact absurd hn h
  case h_2    => exact fail he

theorem faulty {Q : α → World → Prop} (h : Ends p Q E { w with ops := w.ops + 1 }) :
    Ends (faulty context p) Q E w := by
  constructor
  cases hf : w.env.fault w.ops
  case some f =>
    have hrun : Kernel.faulty context p w = storageFailure (.fromSqlite f context)
      { w with ops := w.ops + 1 } := by simp only [Kernel.faulty, hf]
    unfold Proc.wp
    rw [hrun]
    exact .inl <| by simp
  case none   =>
    have hrun : Kernel.faulty context p w = p { w with ops := w.ops + 1 } := by
      simp only [Kernel.faulty, hf]
    have h := h.wp
    unfold Proc.wp at h ⊢
    rw [hrun]
    generalize p { w with ops := w.ops + 1 } = o at h ⊢
    rcases o with ⟨r, t⟩
    cases r
    case ok    => exact ⟨⟨h.left.failures, h.left.inbox, h.left.attempts⟩, h.right⟩
    case error =>
      exact h.imp_right fun h => ⟨⟨h.left.failures, h.left.inbox, h.left.attempts⟩, h.right⟩

theorem query {f : Db → α} :
    Ends (query context f) (fun a t => t.journal = w.journal ∧ a = f w.db) E w :=
  faulty ⟨⟨rfl, rfl, rfl⟩, rfl, rfl⟩

theorem transaction {label : α → Label} {body : Tx α} {Q : α → Db → Prop}
    (h : Tx.Ensures body Q w.db) :
    Ends (transaction context label body) (fun a t => Q a t.db) E w := by
  refine faulty ⟨?_⟩
  have hd : World.db { w with ops := w.ops + 1 } = w.db := rfl
  unfold Tx.Ensures Proc.wp at h
  unfold Proc.wp
  simp only [hd]
  rcases hb : body w.db with ⟨r, d⟩
  rw [hb] at h
  cases r
  case ok a    => exact ⟨⟨rfl, rfl, rfl⟩, h⟩
  case error e => exact .inl <| by simp

end Primitives

section Rows

theorem requireRun (hr : w.db.runs.get? runId = some run) :
    Ends (requireRun runId missing) (fun r t => t.journal = w.journal ∧ r = run) E w := by
  refine query.bind fun r t _ ⟨hj, h⟩ => ?_
  obtain rfl : r = some run := h.trans hr
  exact pure ⟨hj, rfl⟩

theorem reload (hr : w.db.runs.get? runId = some run) :
    Ends (reload runId) (fun r t => t.journal = w.journal ∧ r = run) E w :=
  requireRun hr

end Rows
end Ends

-- As `Ends`, for procedures that may swallow a failure of the storage: unless the storage fails, `p`
-- ends in `Q` when it succeeds and in `E` when it does not.
structure Settles (p : KernelM α) (Q : α → World → Prop) (E : World → Prop) (w : World) : Prop where
  wp    : wp p (fun a t => t.failures = w.failures → Q a t)
    (fun _ t => t.failures = w.failures → E t) w
  grows : ∀ es, Keeps (Failed es) p

namespace Settles

variable {α β : Type} {w : World} {p : KernelM α} {k : α → KernelM β} {E E' : World → Prop}
  {Q Q' : α → World → Prop} {R : β → World → Prop}

theorem mono (h : Settles p Q E w) (hq : ∀ a t, Q a t → Q' a t) (he : ∀ t, E t → E' t) :
    Settles p Q' E' w :=
  ⟨wp_mono h.wp (fun a t h ht => hq a t <| h ht) fun _ t h ht => he t <| h ht, h.grows⟩

theorem pure (h : Q a w) : Settles (Pure.pure a) Q E w :=
  ⟨fun _ => h, fun _ => .pure _⟩

theorem modify {f : World → World} {Q : Unit → World → Prop} (hs : ∀ w, Silent w (f w))
    (h : Q () (f w)) : Settles (Proc.modify f) Q E w :=
  ⟨fun _ => h, fun _ => Keeps.modify hs⟩

theorem of_ends (h : Ends p Q E w) (hg : ∀ es, Keeps (Failed es) p) :
    Settles p (fun a t => Calm w t ∧ Q a t) (fun t => Calm w t ∧ E t) w :=
  ⟨wp_mono h.wp (fun _ _ h _ => h) fun _ _ h ht => h.resolve_left (absurd ht), hg⟩

theorem keeps {I : World → Prop} (h : Settles p Q E w) (hk : Keeps I p) (hi : I w) :
    Settles p (fun a t => I t ∧ Q a t) (fun t => I t ∧ E t) w := by
  refine ⟨wp_mono (wp_and h.wp (hk.run w hi)) ?_ ?_, h.grows⟩
  · exact fun _ _ ⟨h, hi⟩ ht => ⟨hi, h ht⟩
  · exact fun _ _ ⟨h, hi⟩ ht => ⟨hi, h ht⟩

theorem attempt {Q : Except KernelError α → World → Prop} (h : Settles p (fun a => Q (.ok a)) E w)
    (he : ∀ e t, E t → Q (.error e) t) : Settles (Proc.attempt p) Q E' w := by
  refine ⟨wp_attempt.mpr <| wp_mono h.wp (fun _ _ h => h) ?_, fun es => (h.grows es).attempt⟩
  exact fun e t h ht => he e t <| h ht

-- Failures stay on record, so none at the end means none on the way.
theorem bind (hp : Settles p Q E w) (hg : ∀ a es, Keeps (Failed es) (k a))
    (hk : ∀ a t, Q a t → Settles (k a) R E t) : Settles (p >>= k) R E w := by
  refine ⟨wp_bind.mpr ?_, fun es => (hp.grows es).bind fun a => hg a es⟩
  refine wp_mono (wp_and hp.wp ((hp.grows _).run w List.suffix_rfl)) ?_ fun _ _ h => h.left
  intro a t ⟨hq, ht⟩
  have hs := (hg a t.failures).run t List.suffix_rfl
  by_cases he : t.failures = w.failures
  case pos => exact wp_mono (hk a t <| hq he).wp (fun _ _ h => he ▸ h) fun _ _ h => he ▸ h
  case neg =>
    have lost (u : World) (hu : Failed t.failures u) (hw : u.failures = w.failures) : False :=
      he <| (hw ▸ hu : t.failures <:+ w.failures).eq_of_length_le ht.length_le
    exact wp_mono hs (fun _ u hu hw => (lost u hu hw).elim) fun _ u hu hw => (lost u hu hw).elim

-- The outcome of a run that met no failure of the storage.
theorem outcome (h : Settles p Q E w) (hw : p w = (r, t)) (ht : t.failures = w.failures) :
    (∃ a, r = .ok a ∧ Q a t) ∨ (∃ e, r = .error e) ∧ E t := by
  cases r
  case ok a    => exact .inl ⟨a, rfl, (wp_of_ok hw).mp h.wp ht⟩
  case error e => exact .inr ⟨⟨e, rfl⟩, (wp_of_error hw).mp h.wp ht⟩

end Settles

-- No storage operation is made to fail.
def Healthy (w : World) : Prop :=
  ∀ n, w.env.fault n = none

-- The storage did not fail and no command was taken from the channel.
structure Steady (w t : World) : Prop where
  healthy  : Healthy t
  failures : t.failures = w.failures
  inbox    : t.inbox = w.inbox

theorem Steady.trans (h₁ : Steady w t) (h₂ : Steady t u) : Steady w u where
  healthy  := h₂.healthy
  failures := h₂.failures.trans h₁.failures
  inbox    := h₂.inbox.trans h₁.inbox

-- As `Ends`, where the storage does not fail.
structure Runs (p : KernelM α) (Q : α → World → Prop) (E : World → Prop) (w : World) : Prop where
  wp : wp p (fun a t => Steady w t ∧ Q a t) (fun _ t => Steady w t ∧ E t) w

namespace Runs

variable {α β : Type} {w : World} {p : KernelM α} {k : α → KernelM β} {E E' : World → Prop}
  {Q Q' : α → World → Prop} {R : β → World → Prop}

theorem bind (hp : Runs p Q E w)
    (hk : ∀ a t, Steady w t → Q a t → Runs (k a) R E t) : Runs (p >>= k) R E w := by
  refine ⟨wp_bind.mpr <| wp_mono hp.wp ?_ fun _ _ h => h⟩
  intro a t ⟨hs, hq⟩
  refine wp_mono (hk a t hs hq).wp ?_ ?_
  · exact fun _ _ ⟨hs', hr⟩ => ⟨hs.trans hs', hr⟩
  · exact fun _ _ ⟨hs', he⟩ => ⟨hs.trans hs', he⟩

theorem pure (hh : Healthy w) (h : Q a w) : Runs (Pure.pure a) Q E w :=
  ⟨⟨hh, rfl, rfl⟩, h⟩

theorem utcNow (hh : Healthy w) : Runs utcNow (fun _ t => t.journal = w.journal) E w :=
  ⟨⟨hh, rfl, rfl⟩, rfl⟩

theorem now (hh : Healthy w) : Runs now (fun _ t => t.journal = w.journal) E w :=
  (utcNow hh).bind fun _ _ hs hj => pure hs.healthy hj

theorem leaseExpires (hh : Healthy w) :
    Runs leaseExpires (fun _ t => t.journal = w.journal) E w := by
  refine (utcNow hh).bind fun _ t hs hj => ?_
  split
  · exact pure hs.healthy hj
  · exact ⟨wp_mono (now hs.healthy).wp (fun _ _ h => ⟨h.left, h.right.trans hj⟩) fun _ _ h => h⟩

theorem reload (hh : Healthy w) (hr : w.db.runs.get? runId = some run) :
    Runs (reload runId) (fun r t => t.journal = w.journal ∧ r = run) E w := by
  refine bind (Q := fun r t => t.journal = w.journal ∧ r = some run) ⟨?_⟩ ?_
  · unfold loadRun query Kernel.faulty Proc.wp
    simp only [hh w.ops, Proc.gets]
    exact ⟨⟨hh, rfl, rfl⟩, trivial, hr⟩
  · rintro r t hs ⟨hj, hr⟩
    subst hr
    exact pure hs.healthy ⟨hj, rfl⟩

-- A transaction whose statements cannot fail.
theorem transaction {label : α → Label} {body : Tx α} {Q : α → Db → Prop} (hh : Healthy w)
    (h : Proc.wp body Q (fun _ _ => False) w.db) :
    Runs (transaction context label body) (fun a t => Q a t.db) E w := by
  constructor
  have hd : World.db { w with ops := w.ops + 1 } = w.db := rfl
  unfold Proc.wp at h
  unfold Kernel.transaction Kernel.faulty Proc.wp
  simp only [hh w.ops, hd]
  rcases hb : body w.db with ⟨r, d⟩
  rw [hb] at h
  cases r
  case ok a    => exact ⟨⟨hh, rfl, rfl⟩, h⟩
  case error e => exact h.elim

end Runs
end Kernel
