import NeoTavern.Broker.Revocation

namespace Broker
namespace Core

variable {R : Type} {s t : Core R} {e : Event R} {es : List (Event R)}

-- The table holds exactly the calls that have been admitted and have not settled.
abbrev Exact (s : Core R) : Prop :=
  s.Tracks fun _ => True

-- Nothing that runs is taken out of the table.
def Clear (s : Core R) (e : Event R) : Prop :=
  ∀ i k, (i, k) ∈ s.inFlight → ¬s.dropped e k

-- An execution whose signal is aborted fails, and while it runs its request is not used again.
def Cooperates (s : Core R) : Event R → Prop
  | .complete k (.ok _) => ∀ c ∈ s.calls[k]?, c.Running → c.aborted = none
  | .submit call _ _    => ∀ c ∈ s.calls, c.Running → c.aborted ≠ none →
    c.request.requestId ≠ call.requestId
  | _ => True

def ClearRun (s : Core R) : List (Event R) → Prop
  | []      => True
  | e :: es => s.Clear e ∧ (s.step e).ClearRun es

def CooperativeRun (s : Core R) : List (Event R) → Prop
  | []      => True
  | e :: es => s.Cooperates e ∧ (s.step e).CooperativeRun es

-- After a revocation, no call that it concerns settles with a result, and none is admitted.
def Honours (s : Core R) (es : List (Event R)) : Prop :=
  ∀ pre pluginId name reason post, es = pre ++ .revoke pluginId name reason :: post →
    ∀ (k : Nat) c, (s.run es).calls[k]? = some c → c.isOf pluginId name →
      (∀ b, (s.run pre).calls[k]? = some b → b.Running → ∀ v, c.settled ≠ some (.ok v)) ∧
        ((s.run pre).calls.length ≤ k → c.admitted = false)

section Steps

theorem dropped_submit : ¬s.dropped (.submit call decision now) k :=
  id

theorem dropped_complete : ¬s.dropped (.complete j outcome) k :=
  id

theorem Keyed.step (hk : s.Keyed) : (s.step e).Keyed := by
  rcases halts_step (e := e) hk with ⟨call, decision, now, rfl⟩ | ⟨k, outcome, rfl⟩ | hh
  · exact hk.submit
  · exact hk.complete
  · exact hk.halts hh

theorem exact_step_iff (hk : s.Keyed) (h : s.Exact) : (s.step e).Exact ↔ s.Clear e := by
  rcases halts_step (e := e) hk with ⟨call, decision, now, rfl⟩ | ⟨k, outcome, rfl⟩ | hh
  · exact iff_of_true (h.submit trivial) fun _ _ _ => dropped_submit
  · have hc : (s.complete k outcome).Exact := h.complete fun c hc hrun j hj => h.unique hk hc hrun hj
    exact iff_of_true hc fun _ _ _ => dropped_complete
  · exact hh.tracks_iff h

theorem exact_run_iff (hk : s.Keyed) (h : s.Exact) :
    (∀ pre post, es = pre ++ post → (s.run pre).Exact) ↔ s.ClearRun es := by
  induction es generalizing s
  case nil =>
    refine iff_of_true (fun pre post hes => ?_) trivial
    rw [(List.append_eq_nil_iff.mp hes.symm).left]
    exact h
  case cons e es ih =>
    constructor
    · intro hall
      have ht : (s.step e).Exact := hall [e] es rfl
      refine ⟨(exact_step_iff hk h).mp ht, (ih hk.step ht).mp fun pre post hes => ?_⟩
      exact hall (e :: pre) post <| hes ▸ rfl
    · intro ⟨hclear, hrest⟩ pre post hes
      have ht := (exact_step_iff hk h).mpr hclear
      cases pre
      case nil => exact h
      case cons e' pre =>
        obtain ⟨rfl, hpost⟩ := List.cons.inj hes
        exact (ih hk.step ht).mpr hrest pre post hpost

-- Running calls have distinct requests, and the table holds those whose signal is not aborted.
structure Live (s : Core R) : Prop where
  keyed    : s.Keyed
  tracks   : s.Tracks (·.aborted = none)
  distinct : ∀ (j k : Nat) c d, s.calls[j]? = some c → s.calls[k]? = some d → c.Running → d.Running →
    c.request.requestId = d.request.requestId → j = k

theorem Live.submit (h : s.Live) (hc : s.Cooperates (.submit call decision now)) :
    (s.submit call decision now).Live := by
  constructor
  case keyed    => exact h.keyed.submit
  case tracks   => exact h.tracks.submit rfl
  case distinct =>
    rcases submit_cases s call decision now with ⟨error, heq⟩ | ⟨_, hnew, heq⟩
    · rw [heq]
      intro j k c d hj hk hcrun hdrun hid
      have hrefused {i : Nat} {c : Call R} (hrun : c.Running) (hi : (s.calls ++ [{
          request := call, admitted := false, timer := false, settled := some <| .error error
        }])[i]? = some c) : s.calls[i]? = some c := by
        refine (getElem?_concat.mp hi).resolve_right ?_
        rintro ⟨_, rfl⟩
        cases hrun.right
      exact h.distinct j k c d (hrefused hcrun hj) (hrefused hdrun hk) hcrun hdrun hid
    · rw [heq]
      have hfresh (i : Nat) c (hi : s.calls[i]? = some c) (hrun : c.Running) :
          c.request.requestId ≠ call.requestId := by
        intro hid
        cases hab : c.aborted
        case some => exact hc c (List.mem_of_getElem? hi) hrun (by simp [hab]) hid
        case none =>
          have hm := (h.tracks _ i).mpr ⟨c, hi, hrun, hab, hid⟩
          have : s.has call.requestId := List.any_eq_true.mpr ⟨_, hm, by simp⟩
          rw [hnew] at this
          cases this
      intro j k c d hj hk hcrun hdrun hid
      rcases getElem?_concat.mp hj with hj | ⟨rfl, rfl⟩ <;>
        rcases getElem?_concat.mp hk with hk | ⟨rfl, rfl⟩
      · exact h.distinct j k c d hj hk hcrun hdrun hid
      · exact absurd hid <| hfresh j c hj hcrun
      · exact absurd hid.symm <| hfresh k d hk hdrun
      · rfl

theorem Live.complete (h : s.Live) : (s.complete k outcome).Live := by
  constructor
  case keyed  => exact h.keyed.complete
  case tracks =>
    refine h.tracks.complete fun c hc hrun j hj => ?_
    have ⟨d, hd, hdrun, _, hid⟩ := (h.tracks _ j).mp hj
    exact h.distinct j k d c hd hc hdrun hrun hid
  case distinct =>
    rcases complete_cases s k outcome with heq | ⟨c, hc, _, heq⟩
    · rw [heq]
      exact h.distinct
    · rw [heq]
      have hold {i : Nat} {d : Call R} (hrun : d.Running) (hi : (s.calls.modify k
          ({ · with timer := false, settled := some outcome }))[i]? = some d) : s.calls[i]? = some d := by
        rw [List.getElem?_modify] at hi
        split at hi
        case isTrue =>
          have ⟨_, _, heq⟩ := Option.map_eq_some_iff.mp hi
          subst heq
          cases hrun.right
        case isFalse => simpa using hi
      intro i j d d' hi hj hdrun hd'run hid
      exact h.distinct i j d d' (hold hdrun hi) (hold hd'run hj) hdrun hd'run hid

theorem Live.halts {A : Nat → Prop} (h : s.Live) (hh : Halts A s t) : t.Live := by
  constructor
  case keyed    => exact h.keyed.halts hh
  case tracks   => exact hh.tracks h.tracks
  case distinct =>
    intro j k c d hj hk hcrun hdrun hid
    have ⟨c', hj', hckin⟩ := hh.kin_of_get' hj
    have ⟨d', hk', hdkin⟩ := hh.kin_of_get' hk
    refine h.distinct j k c' d' hj' hk' (hckin.running.mp hcrun) (hdkin.running.mp hdrun) ?_
    rw [← hckin.request, ← hdkin.request, hid]

theorem Live.step (h : s.Live) (hc : s.Cooperates e) : (s.step e).Live := by
  rcases halts_step (e := e) h.keyed with ⟨call, decision, now, rfl⟩ | ⟨k, outcome, rfl⟩ | hh
  · exact h.submit hc
  · exact h.complete
  · exact h.halts hh

theorem Live.run (h : s.Live) (hc : s.CooperativeRun es) : (s.run es).Live := by
  induction es generalizing s
  case nil => exact h
  case cons e es ih => exact ih (h.step hc.left) hc.right

end Steps

section Calls

variable {pluginId : String} {name reason : Option String} {k : Nat}

-- What becomes of a call in one step.
structure Later (e : Event R) (k : Nat) (c d : Call R) : Prop where
  request  : d.request = c.request
  admitted : d.admitted = c.admitted
  aborted  : c.aborted ≠ none → d.aborted ≠ none
  settled  : d.settled = c.settled ∨ ∃ o, e = .complete k o ∧ c.Running ∧ d.settled = some o

theorem Later.refl {c : Call R} : Later e k c c :=
  ⟨rfl, rfl, id, .inl rfl⟩

theorem later_step {c : Call R} (hk : s.Keyed) (hc : s.calls[k]? = some c) :
    ∃ d, (s.step e).calls[k]? = some d ∧ Later e k c d := by
  rcases halts_step (e := e) hk with ⟨call, decision, now, rfl⟩ | ⟨j, outcome, rfl⟩ | hh
  · rcases submit_cases s call decision now with ⟨error, heq⟩ | ⟨_, _, heq⟩
    · exact ⟨c, by rw [step, heq]; exact getElem?_concat.mpr <| .inl hc, .refl⟩
    · exact ⟨c, by rw [step, heq]; exact getElem?_concat.mpr <| .inl hc, .refl⟩
  · rcases complete_cases s j outcome with heq | ⟨c', hc', hrun, heq⟩
    · exact ⟨c, by rw [step, heq]; exact hc, .refl⟩
    · by_cases hj : j = k
      case pos =>
        subst hj
        cases hc.symm.trans hc'
        refine ⟨_, by rw [step, heq]; exact (List.getElem?_modify ..).trans <| congrArg _ hc, ?_⟩
        dsimp only
        rw [if_pos rfl]
        exact ⟨rfl, rfl, id, .inr ⟨outcome, rfl, hrun, rfl⟩⟩
      case neg =>
        exact ⟨c, by rw [step, heq]; exact (List.getElem?_modify_ne _ _ hj).trans hc, .refl⟩
  · have ⟨d, hd, hkin⟩ := hh.kin_of_get hc
    refine ⟨d, hd, hkin.request, hkin.admitted, fun hab hn => ?_, .inl hkin.settled⟩
    exact hab (hkin.aborted.mp hn).left

-- A step admits no call of what has been revoked.
theorem new_step {d : Call R} (hk : s.Keyed) (hd : (s.step e).calls[k]? = some d)
    (hn : s.calls.length ≤ k) : d.admitted = false ∨
      s.isRevoked d.request.pluginId d.request.capabilityName = false := by
  have hnone : s.calls[k]? = none := List.getElem?_eq_none hn
  rcases halts_step (e := e) hk with ⟨call, decision, now, rfl⟩ | ⟨j, outcome, rfl⟩ | hh
  · rcases submit_cases s call decision now with ⟨error, heq⟩ | ⟨hrev, _, heq⟩
    · rw [step, heq] at hd
      rcases getElem?_concat.mp hd with hd | ⟨_, rfl⟩
      · cases hnone.symm.trans hd
      · exact .inl rfl
    · rw [step, heq] at hd
      rcases getElem?_concat.mp hd with hd | ⟨_, rfl⟩
      · cases hnone.symm.trans hd
      · exact .inr hrev
  · rcases complete_cases s j outcome with heq | ⟨c', hc', hrun, heq⟩
    · rw [step, heq] at hd
      cases hnone.symm.trans hd
    · rw [step, heq, List.getElem?_modify, hnone] at hd
      cases hd
  · have ⟨c, hc, _⟩ := hh.kin_of_get' hd
    cases hnone.symm.trans hc

theorem Halts.isRevoked {A : Nat → Prop} (h : Halts A s t) (hr : s.isRevoked pluginId capability) :
    t.isRevoked pluginId capability := by
  have ⟨⟨ps, hps⟩, qs, hqs⟩ := h.revoked
  simp only [Core.isRevoked, hps, hqs, List.contains_append, Bool.or_eq_true] at hr ⊢
  exact hr.imp .inl .inl

theorem isRevoked_step (hk : s.Keyed) (h : s.isRevoked pluginId capability) :
    (s.step e).isRevoked pluginId capability := by
  rcases halts_step (e := e) hk with ⟨call, decision, now, rfl⟩ | ⟨j, outcome, rfl⟩ | hh
  · rcases submit_cases s call decision now with ⟨error, heq⟩ | ⟨_, _, heq⟩ <;> rwa [step, heq]
  · rcases complete_cases s j outcome with heq | ⟨_, _, _, heq⟩ <;> rwa [step, heq]
  · exact hh.isRevoked h

theorem later_run {c : Call R} (es : List (Event R)) (hk : s.Keyed) (hc : s.calls[k]? = some c) :
    ∃ d, (s.run es).calls[k]? = some d ∧ d.request = c.request ∧ d.admitted = c.admitted := by
  induction es generalizing s c
  case nil => exact ⟨c, hc, rfl, rfl⟩
  case cons e es ih =>
    have ⟨d, hd, hl⟩ := later_step (e := e) hk hc
    have ⟨d', hd', hreq, had⟩ := ih hk.step hd
    exact ⟨d', hd', hreq.trans hl.request, had.trans hl.admitted⟩

-- Every capability of what is revoked is refused.
def Seals (s : Core R) (pluginId : String) (name : Option String) : Prop :=
  ∀ c : Call R, c.isOf pluginId name → s.isRevoked c.request.pluginId c.request.capabilityName

theorem seals_revoke (hk : s.Keyed) : (s.revoke pluginId name reason).Seals pluginId name := by
  intro c hc
  have ⟨hp, hn⟩ := Bool.and_eq_true_iff.mp hc
  have hp : c.request.pluginId = pluginId := of_decide_eq_true hp
  cases name
  case none =>
    refine Halts.isRevoked (@halts_abortInFlight R { s with
      revokedPlugins := s.revokedPlugins ++ [pluginId] } pluginId none reason ⟨hk.nodup, hk.named⟩) ?_
    simp [Core.isRevoked, hp]
  case some name =>
    have hn : c.request.capabilityName = name := by simpa using hn
    refine Halts.isRevoked (@halts_abortInFlight R { s with
      revokedPairs := s.revokedPairs ++ [pairKey pluginId name] } pluginId (some name) reason
        ⟨hk.nodup, hk.named⟩) ?_
    simp [Core.isRevoked, hp, hn]

theorem Seals.run {c : Call R} (h : s.Seals pluginId name) (hk : s.Keyed)
    (hc : (s.run es).calls[k]? = some c) (hn : s.calls.length ≤ k) (hof : c.isOf pluginId name) :
    c.admitted = false := by
  induction es generalizing s
  case nil => cases (List.getElem?_eq_none hn).symm.trans hc
  case cons e es ih =>
    by_cases hk' : (s.step e).calls.length ≤ k
    case pos => exact ih (fun c hc => isRevoked_step hk <| h c hc) hk.step hc hk'
    case neg =>
      have hd := List.getElem?_eq_getElem <| Nat.lt_of_not_le hk'
      have ⟨c', hc', hreq, had⟩ := later_run es hk.step hd
      cases hc.symm.trans hc'
      rcases new_step hk hd hn with hrefused | hopen
      · exact had.trans hrefused
      · have := h c hof
        rw [hreq, hopen] at this
        cases this

-- A call that can only fail.
def Barred (k : Nat) (s : Core R) : Prop :=
  ∃ c, s.calls[k]? = some c ∧ (c.Running ∧ c.aborted ≠ none ∨ ∃ error, c.settled = some (.error error))

theorem Barred.step (h : s.Barred k) (hk : s.Keyed) (hc : s.Cooperates e) : (s.step e).Barred k := by
  have ⟨c, hget, hor⟩ := h
  have ⟨d, hd, hl⟩ := later_step (e := e) hk hget
  refine ⟨d, hd, ?_⟩
  rcases hl.settled with hset | ⟨o, rfl, hrun, hset⟩
  · refine hor.imp (fun ⟨hrun, hab⟩ => ⟨⟨?_, ?_⟩, hl.aborted hab⟩) fun herr => hset ▸ herr
    · exact hl.admitted.trans hrun.left
    · exact hset.trans hrun.right
  · rcases hor with ⟨_, hab⟩ | ⟨error, herr⟩
    · cases o
      case error error => exact .inr ⟨error, hset⟩
      case ok v        => exact absurd (hc c hget hrun) hab
    · cases hrun.right.symm.trans herr

theorem Barred.run (h : s.Barred k) (hk : s.Keyed) (hc : s.CooperativeRun es) : (s.run es).Barred k := by
  induction es generalizing s
  case nil => exact h
  case cons e es ih => exact ih (h.step hk hc.left) hk.step hc.right

theorem Keyed.run (hk : s.Keyed) : (s.run es).Keyed := by
  induction es generalizing s
  case nil => exact hk
  case cons e es ih => exact ih hk.step

theorem run_split (pre post : List (Event R)) :
    s.run (pre ++ e :: post) = ((s.run pre).step e).run post := by
  rw [Core.run, List.foldl_append]
  rfl

theorem ClearRun.split {pre post : List (Event R)} (h : s.ClearRun (pre ++ e :: post)) :
    (s.run pre).Clear e := by
  induction pre generalizing s
  case nil => exact h.left
  case cons e' pre ih => exact ih h.right

theorem CooperativeRun.left {fs : List (Event R)} (h : s.CooperativeRun (es ++ fs)) :
    s.CooperativeRun es := by
  induction es generalizing s
  case nil => exact trivial
  case cons e es ih => exact ⟨h.left, ih h.right⟩

theorem CooperativeRun.right {pre post : List (Event R)} (h : s.CooperativeRun (pre ++ e :: post)) :
    ((s.run pre).step e).CooperativeRun post := by
  induction pre generalizing s
  case nil => exact h.right
  case cons e' pre ih => exact ih h.right

theorem hits_of_get {b : Call R} (hb : s.calls[k]? = some b) (hof : b.isOf pluginId name) :
    s.hits pluginId name k := by
  rw [hits, hb]
  exact hof

-- It is enough that every running call can only fail once it has been revoked.
theorem honours_of_barred (hk : s.Keyed)
    (hb : ∀ pre pluginId name reason post, es = pre ++ .revoke pluginId name reason :: post →
      ∀ (k : Nat) b, (s.run pre).calls[k]? = some b → b.isOf pluginId name → b.Running →
        (s.run es).Barred k) : s.Honours es := by
  intro pre pluginId name reason post hes k c hc hof
  constructor
  · intro b hget hrun v hset
    have hrest := run_split (s := s) (e := .revoke pluginId name reason) pre post
    obtain ⟨c', hc', hreq, _⟩ := later_run (.revoke pluginId name reason :: post) hk.run hget
    have heq : s.run es = (s.run pre).run (.revoke pluginId name reason :: post) := by
      rw [hes, hrest]
      rfl
    rw [heq, hc'] at hc
    cases hc
    have hbof : b.isOf pluginId name := by
      rw [Call.isOf, hreq] at hof
      exact hof
    obtain ⟨d, hd, hor⟩ := hb pre pluginId name reason post hes k b hget hbof hrun
    rw [heq, hc'] at hd
    cases hd
    rcases hor with ⟨hrun, _⟩ | ⟨error, herr⟩
    · cases hrun.right.symm.trans hset
    · cases herr.symm.trans hset
  · intro hn
    rw [hes, run_split] at hc
    have hkp : (s.run pre).Keyed := hk.run
    have hseals : ((s.run pre).step <| .revoke pluginId name reason).Seals pluginId name :=
      seals_revoke hkp
    refine hseals.run hkp.step hc ?_ hof
    by_contra hlt
    have hd := List.getElem?_eq_getElem <| Nat.lt_of_not_le hlt
    obtain ⟨b, hb, _⟩ := (halts_revoke hkp).kin_of_get' hd
    cases (List.getElem?_eq_none hn).symm.trans hb

theorem honours_of_clear (hk : s.Keyed) (hs : s.Exact) (h : s.ClearRun es) : s.Honours es := by
  refine honours_of_barred hk fun pre pluginId name reason post hes k b hget hof hrun => ?_
  have hexact := (exact_run_iff hk hs).mpr h pre _ hes
  have hm := (hexact _ k).mpr ⟨b, hget, hrun, trivial, rfl⟩
  exact absurd ⟨⟨_, hm⟩, hits_of_get hget hof⟩ <| (hes ▸ h).split _ k hm

theorem honours_of_live (hs : s.Live) (h : s.CooperativeRun es) : s.Honours es := by
  refine honours_of_barred hs.keyed fun pre pluginId name reason post hes k b hget hof hrun => ?_
  have hlive : (s.run pre).Live := hs.run (hes ▸ h).left
  have hh : Halts _ (s.run pre) ((s.run pre).revoke pluginId name reason) := halts_revoke hlive.keyed
  have ⟨d, hd, hkin⟩ := hh.kin_of_get hget
  have hbarred : ((s.run pre).step <| .revoke pluginId name reason).Barred k := by
    refine ⟨d, hd, .inl ⟨hkin.running.mpr hrun, fun hnone => ?_⟩⟩
    have ⟨hab, hA⟩ := hkin.aborted.mp hnone
    have hm := (hlive.tracks _ k).mpr ⟨b, hget, hrun, hab, rfl⟩
    exact hA ⟨⟨_, hm⟩, hits_of_get hget hof⟩
  rw [hes, run_split]
  exact hbarred.run hlive.keyed.step (hes ▸ h).right

end Calls

theorem keyed_nil : ({} : Core R).Keyed :=
  ⟨.nil, nofun⟩

theorem tracks_nil {p : Call R → Prop} : ({} : Core R).Tracks p := by
  intro i k
  simp

theorem revoked_yields_nothing (es : List (Event R)) :
    (((∀ pre post, es = pre ++ post → (({} : Core R).run pre).Exact) ∧ ({} : Core R).Honours es) ↔
      ({} : Core R).ClearRun es) ∧
    (({} : Core R).CooperativeRun es →
      (∀ pre post, es = pre ++ post → (({} : Core R).run pre).Tracks (·.aborted = none)) ∧
        ({} : Core R).Honours es) := by
  have hlive : ({} : Core R).Live := ⟨keyed_nil, tracks_nil, fun j k c d hj => by simp at hj⟩
  constructor
  case left =>
    constructor
    · intro ⟨hexact, _⟩
      exact (exact_run_iff keyed_nil tracks_nil).mp hexact
    · intro hclear
      have hexact := (exact_run_iff keyed_nil tracks_nil).mpr hclear
      exact ⟨hexact, honours_of_clear keyed_nil tracks_nil hclear⟩
  case right =>
    intro hco
    refine ⟨fun pre post hes => ?_, honours_of_live hlive hco⟩
    have hpre : ({} : Core R).CooperativeRun pre := CooperativeRun.left (hes ▸ hco)
    exact (hlive.run hpre).tracks

end Core

namespace Sample

def call : BrokerCallRequest where
  requestId      := "req-0001"
  pluginId       := "p1"
  installationId := "i1"
  method         := "generate"
  capabilityName := "models.invoke"
  deadlineAt     := 1000
  causalChain    := []

-- The execution does not look at its signal.
def deaf : List (Event Nat) := [
  .submit call .allowed 0,
  .revoke "p1" (some "models.invoke") none,
  .complete 0 (.ok 7)
]

end Sample

namespace Core

open Sample

theorem result_after_revoke : ¬∀ es : List (Event Nat),
    (∀ pre post, es = pre ++ post → (({} : Core Nat).run pre).Exact) ∧ ({} : Core Nat).Honours es := by
  intro h
  have hend : (({} : Core Nat).run deaf).calls[0]? = some {
    request := call
    timer   := false
    aborted := some {
      code    := BrokerErrorCode.capabilityRevoked
      message := "capability revoked while the call was in flight"
      details := some <| .revoked "p1" "models.invoke"
    }
    settled := some <| .ok 7
  } := by decide +kernel
  have hstart : (({} : Core Nat).run [.submit call .allowed 0]).calls[0]? = some { request := call } := by
    decide +kernel
  have hd := (h deaf).right [.submit call .allowed 0] "p1" (some "models.invoke") none
    [.complete 0 (.ok 7)] rfl 0 _ hend rfl
  exact hd.left _ hstart ⟨rfl, rfl⟩ 7 rfl

example : (({} : Core Nat).run [.submit call .allowed 0, .submit call .allowed 1]).calls.length = 2 := by
  decide +kernel

end Core
end Broker
