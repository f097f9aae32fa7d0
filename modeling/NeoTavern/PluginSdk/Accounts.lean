import NeoTavern.PluginSdk.Calls

namespace PluginSdk
namespace KernelSession

variable {V : Type} [StructuredClone V] {s t : KernelSession V}

section Accounts

-- The identifiers that the calls of this side have had so far.
def Numbered (s : KernelSession V) (callId : String) : Prop :=
  ∃ n ≤ s.sequence, callId = idAt s.role "req" n

-- Every call is either pending, or settled once and with an outcome that `p` allows.
structure Accounts (s : KernelSession V) (p : String → Except (PluginErrorWire V) V → Prop) :
    Prop where
  ids      : ∀ c ∈ s.calls, s.Numbered c.id
  calls    : ∀ c ∈ s.calls, (c.settled = [] ∧ s.isPending c.id) ∨
    ∃ o, c.settled = [o] ∧ s.isPending c.id = false ∧ p c.id o
  requests : ∀ i inst m v d k, .rpcRequest i inst m v d k ∈ s.port →
    s.Numbered i ∧ ∀ c ∈ s.calls, c.id = i → c.method = m

variable {p q : String → Except (PluginErrorWire V) V → Prop} {callId : String}

omit [StructuredClone V] in
theorem Numbered.mono (h : s.Numbered callId) (hr : t.role = s.role) (hs : s.sequence ≤ t.sequence) :
    t.Numbered callId :=
  have ⟨n, hn, hi⟩ := h
  ⟨n, Nat.le_trans hn hs, hr ▸ hi⟩

omit [StructuredClone V] in
theorem not_numbered_nextId : ¬s.Numbered (s.nextId "req") := by
  intro ⟨n, hn, (hi : idAt s.role "req" (s.sequence + 1) = _)⟩
  have := idAt_inj hi
  omega

omit [StructuredClone V] in
theorem Accounts.mono (h : s.Accounts p) (hpq : ∀ i o, p i o → q i o) : s.Accounts q :=
  ⟨h.ids, fun c hc => (h.calls c hc).imp_right fun ⟨o, ho, hn, hp⟩ => ⟨o, ho, hn, hpq _ _ hp⟩,
    h.requests⟩

omit [StructuredClone V] in
theorem Accounts.same (h : s.Accounts p) (hs : s.SameCalls t) : t.Accounts p := by
  have ⟨out, hport, hout⟩ := hs.port
  have hpending i : t.isPending i = s.isPending i := by
    rw [isPending, hs.pending, isPending]
  constructor
  case ids =>
    intro c hc
    exact (h.ids c (hs.calls ▸ hc)).mono hs.role hs.sequence
  case calls =>
    intro c hc
    rw [hpending]
    exact h.calls c (hs.calls ▸ hc)
  case requests =>
    intro i inst m v d k hm
    rw [hport] at hm
    rcases List.mem_append.mp hm with hm | hm
    · have ⟨hi, hc⟩ := h.requests i inst m v d k hm
      exact ⟨hi.mono hs.role hs.sequence, fun c hm => hc c (hs.calls ▸ hm)⟩
    · have := hout _ hm
      cases this

omit [StructuredClone V] in
theorem isPending_forget {i : String} :
    (s.forget callId).isPending i = (s.isPending i && decide (i ≠ callId)) := by
  rw [Bool.eq_iff_iff]
  simp only [isPending, forget, List.any_eq_true, List.mem_filter, Bool.and_eq_true,
    decide_eq_true_eq]
  constructor
  · rintro ⟨x, ⟨hx, hne⟩, rfl⟩
    exact ⟨⟨x, hx, rfl⟩, hne⟩
  · rintro ⟨⟨x, hx, rfl⟩, hne⟩
    exact ⟨x, ⟨hx, hne⟩, rfl⟩

-- A pending call is settled.
omit [StructuredClone V] in
theorem Accounts.settle (h : s.Accounts p) (hs : s.isPending callId) (hp : p callId o) :
    ((s.forget callId).settle callId o).Accounts p := by
  constructor
  case ids =>
    intro c hc
    have ⟨d, hd, hdc⟩ := List.mem_map.mp hc
    have hid : c.id = d.id := by
      rw [← hdc]
      split <;> rfl
    exact hid ▸ h.ids d hd
  case calls =>
    intro c hc
    have ⟨d, hd, hdc⟩ := List.mem_map.mp hc
    change (_ ∧ (s.forget callId).isPending c.id) ∨
      ∃ o, _ ∧ (s.forget callId).isPending c.id = false ∧ _
    rw [isPending_forget]
    split at hdc
    case isTrue hid =>
      subst hdc
      rcases h.calls d hd with ⟨hset, _⟩ | ⟨_, _, hn, _⟩
      · exact .inr ⟨o, by rw [hset, List.nil_append], by simp [hid], hid ▸ hp⟩
      · rw [hid, hs] at hn
        cases hn
    case isFalse hid =>
      subst hdc
      have := h.calls d hd
      simpa [hid] using this
  case requests =>
    intro i inst m v d k hm
    have ⟨hi, hc⟩ := h.requests i inst m v d k hm
    refine ⟨hi, fun c hmem => ?_⟩
    have ⟨x, hx, hxc⟩ := List.mem_map.mp hmem
    subst hxc
    split
    · exact hc x hx
    · exact hc x hx

theorem send_forget {out : List (Envelope V)} :
    (s.forget callId).send out = (s.send out).forget callId := by
  cases hd : s.disposed <;> simp [send, post, forget, hd]

theorem isPending_send {out : List (Envelope V)} {i : String} :
    (s.send out).isPending i = s.isPending i := by
  rw [send, post]
  split <;> rfl

theorem Accounts.cancelRequest (h : s.Accounts p)
    (hp : p callId (.error <| kernelError KernelErrorCode.operationAborted)) :
    (s.cancelRequest callId).Accounts p := by
  unfold KernelSession.cancelRequest
  split
  case isFalse => exact h
  case isTrue hs =>
    have hc : s.SameCalls (s.send [.rpcCancel callId]) := .single rfl
    rw [send_forget]
    exact (h.same hc).settle (isPending_send.trans hs) hp

-- The session in which a call has been registered, but its request has not been posted.
def registered (s : KernelSession V) (method : String) (params : V) (timed : Bool) :
    KernelSession V :=
  { s with
    sequence := s.sequence + 1
    calls    := s.calls ++ [({ id := s.nextId "req", method, params } : Call V)]
    pending  := s.pending ++ [({ id := s.nextId "req", timer := timed } : PendingRequest)]
  }

omit [StructuredClone V] in
theorem isPending_registered {i : String} : (s.registered method params timed).isPending i =
    (s.isPending i || decide (s.nextId "req" = i)) := by
  simp [isPending, registered]

omit [StructuredClone V] in
theorem Accounts.registered (h : s.Accounts p) :
    (s.registered method params timed).Accounts p := by
  have hnum {i : String} (hi : s.Numbered i) : (s.registered method params timed).Numbered i :=
    hi.mono rfl (Nat.le_succ _)
  constructor
  case ids =>
    intro c hc
    rcases List.mem_append.mp hc with hc | hc
    · exact hnum <| h.ids c hc
    · exact ⟨s.sequence + 1, Nat.le_refl _, by rw [List.mem_singleton.mp hc]; rfl⟩
  case calls =>
    intro c hc
    rw [isPending_registered]
    rcases List.mem_append.mp hc with hc | hc
    · have hne : s.nextId "req" ≠ c.id := fun he => not_numbered_nextId <| he ▸ h.ids c hc
      simpa [hne] using h.calls c hc
    · rw [List.mem_singleton.mp hc]
      exact .inl ⟨rfl, by simp⟩
  case requests =>
    intro i inst m v d k hm
    have ⟨hi, hc⟩ := h.requests i inst m v d k hm
    refine ⟨hnum hi, fun c hmem hid => ?_⟩
    rcases List.mem_append.mp hmem with hmem | hmem
    · exact hc c hmem hid
    · rw [List.mem_singleton.mp hmem] at hid
      exact absurd (hid ▸ hi) not_numbered_nextId

theorem Accounts.send {out : List (Envelope V)} (h : s.Accounts p)
    (hout : ∀ i inst m v d k, .rpcRequest i inst m v d k ∈ out →
      s.Numbered i ∧ ∀ c ∈ s.calls, c.id = i → c.method = m) : (s.send out).Accounts p := by
  have hs : Posts (fun e => e ∈ out) s (s.send out) := .send fun _ => id
  have hcalls : (s.send out).calls = s.calls := by
    rw [KernelSession.send, post]
    split <;> rfl
  obtain ⟨new, hport, hnew⟩ := hs.port
  constructor
  case ids =>
    intro c hc
    exact (h.ids c (hcalls ▸ hc)).mono hs.role hs.sequence
  case calls =>
    intro c hc
    rw [isPending_send]
    exact h.calls c (hcalls ▸ hc)
  case requests =>
    intro i inst m v d k hm
    obtain ⟨hi, hc⟩ : s.Numbered i ∧ ∀ c ∈ s.calls, c.id = i → c.method = m := by
      rw [hport] at hm
      rcases List.mem_append.mp hm with hm | hm
      · exact h.requests i inst m v d k hm
      · exact hout i inst m v d k (hnew _ hm)
    exact ⟨hi.mono hs.role hs.sequence, hcalls ▸ hc⟩

theorem Accounts.call (h : s.Accounts p)
    (hp : ∀ i, p i (.error <| kernelError KernelErrorCode.operationAborted)) :
    (s.call method params deadlineMs aborted key now).Accounts p := by
  unfold KernelSession.call
  split
  case isTrue  => exact h
  case isFalse =>
    have hr : (s.registered method params deadlineMs.isSome).Accounts p := h.registered
    have hs : ((s.registered method params deadlineMs.isSome).send [.rpcRequest (s.nextId "req")
        s.instanceId method params (deadlineMs.map fun ms => now + max 1 ms) key]).Accounts p := by
      apply hr.send
      intro i inst m v d k hm
      cases List.mem_singleton.mp hm
      refine ⟨⟨s.sequence + 1, Nat.le_refl _, rfl⟩, fun c hc hid => ?_⟩
      rcases List.mem_append.mp hc with hc | hc
      · exact absurd (hid ▸ h.ids c hc) not_numbered_nextId
      · rw [List.mem_singleton.mp hc]
    dsimp only
    split
    case isTrue  => exact hs.cancelRequest <| hp _
    case isFalse => exact hs

-- Every call stays accounted for when `p` allows both errors of a session and what comes in.
theorem Accounts.callerStep {c : CallerEvent V} (h : s.Accounts p)
    (ha : ∀ i, p i (.error <| kernelError KernelErrorCode.operationAborted))
    (hd : ∀ i n, p i (.error <| kernelError KernelErrorCode.operationDeadline n))
    (hr : ∀ i o, c = .response i o → p i o) : (s.callerStep c).Accounts p := by
  cases c
  case call     => exact h.call ha
  case cancel   => exact h.cancelRequest <| ha _
  case timer i  =>
    rw [KernelSession.callerStep, KernelSession.timer]
    split
    case h_2 => exact h
    case h_1 hf _ =>
      have hid := List.find?_some hf
      have hs : s.isPending i := List.any_eq_true.mpr ⟨_, List.mem_of_find?_eq_some hf, hid⟩
      exact h.settle hs <| hd _ _
  case response i o =>
    rw [KernelSession.callerStep, KernelSession.onResponse]
    split
    case isTrue hs => exact h.settle hs <| hr _ _ rfl
    case isFalse   => exact h

theorem Accounts.turn {e : Event V} (h : s.Accounts p) (ht : s.CallTurn e t)
    (ha : ∀ i, p i (.error <| kernelError KernelErrorCode.operationAborted))
    (hd : ∀ i n, p i (.error <| kernelError KernelErrorCode.operationDeadline n))
    (hr : ∀ i o, e.caller = some (.response i o) → p i o) : t.Accounts p := by
  cases ht
  case aside _ _ hs       => exact h.same hs.calls
  case server _ _ heq     => exact heq ▸ h.same .serverStep
  case caller c hc _ heq  =>
    rw [heq]
    refine h.callerStep ha hd fun i o heq => hr i o ?_
    rw [hc, heq]

theorem port_send {out : List (Envelope V)} (hd : s.disposed = false) :
    (s.send out).port = s.port ++ out.filter (·.clones) := by
  rw [KernelSession.send, post, if_neg (by simp [hd])]

-- A pending call is an old one without a response, or a new one that was not aborted at once.
theorem mem_pending_callerStep {c : CallerEvent V} {w : PendingRequest} (hd : s.disposed = false)
    (h : w ∈ (s.callerStep c).pending) : (w ∈ s.pending ∧ ∀ o, c ≠ .response w.id o) ∨
      ∃ method params deadlineMs key now, c = .call method params deadlineMs false key now ∧
        w.timer = deadlineMs.isSome ∧ (clones params →
          ∃ inst d k, .rpcRequest w.id inst method params d k ∈ (s.callerStep c).port.drop s.port.length) := by
  have hforget {u : KernelSession V} {i : String} {o : Except (PluginErrorWire V) V}
      (h : w ∈ ((u.forget i).settle i o).pending) : w ∈ u.pending ∧ w.id ≠ i := by
    have := List.mem_filter.mp h
    simpa using this
  have hsend {u : KernelSession V} {out : List (Envelope V)} : (u.send out).pending = u.pending := by
    rw [KernelSession.send, post]
    split <;> rfl
  have hcancel {u : KernelSession V} {i : String} (h : w ∈ (u.cancelRequest i).pending) :
      w ∈ u.pending ∧ w.id ≠ i := by
    unfold KernelSession.cancelRequest at h
    split at h
    case isTrue =>
      rw [send_forget] at h
      obtain ⟨hm, hne⟩ := hforget h
      exact ⟨hsend ▸ hm, hne⟩
    case isFalse hn =>
      refine ⟨h, fun hid => hn <| List.any_eq_true.mpr ⟨w, h, ?_⟩⟩
      simp [hid]
  cases c
  case cancel i => exact .inl ⟨(hcancel h).left, by simp⟩
  case timer i  =>
    rw [KernelSession.callerStep, KernelSession.timer] at h
    split at h
    case h_1 => exact .inl ⟨(hforget h).left, by simp⟩
    case h_2 => exact .inl ⟨h, by simp⟩
  case response i r =>
    rw [KernelSession.callerStep, KernelSession.onResponse] at h
    split at h
    case isTrue =>
      obtain ⟨hm, hne⟩ := hforget h
      refine .inl ⟨hm, fun o he => hne ?_⟩
      cases he
      rfl
    case isFalse hn =>
      refine .inl ⟨h, fun o he => hn <| List.any_eq_true.mpr ⟨w, h, ?_⟩⟩
      cases he
      simp
  case call method params deadlineMs aborted key now =>
    rw [KernelSession.callerStep, KernelSession.call, if_neg (by simp [hd])] at h ⊢
    dsimp only at h ⊢
    have hreg : w ∈ (s.registered method params deadlineMs.isSome).pending → w ∈ s.pending ∨
        w = { id := s.nextId "req", timer := deadlineMs.isSome } := fun hm =>
      (List.mem_append.mp hm).imp_right List.mem_singleton.mp
    cases aborted
    case true =>
      obtain ⟨hm, hne⟩ := hcancel h
      rcases hreg (hsend ▸ hm) with hm | rfl
      · exact .inl ⟨hm, by simp⟩
      · exact absurd rfl hne
    case false =>
      rcases hreg (hsend ▸ h) with hm | rfl
      · exact .inl ⟨hm, by simp⟩
      · refine .inr ⟨method, params, deadlineMs, key, now, rfl, rfl, fun hc => ?_⟩
        refine ⟨s.instanceId, deadlineMs.map fun ms => now + max 1 ms, key, ?_⟩
        have hopen : (s.registered method params deadlineMs.isSome).disposed = false := hd
        change _ ∈ ((s.registered method params deadlineMs.isSome).send _).port.drop s.port.length
        rw [port_send hopen]
        change _ ∈ (s.port ++ _).drop s.port.length
        rw [List.drop_left]
        exact List.mem_filter.mpr ⟨List.mem_singleton.mpr rfl, hc⟩

end Accounts

section Serves

open KernelErrorCode

variable {p q : String → Except (PluginErrorWire V) V → Prop} {callId : String}

-- Every response is one that `p` allows, and `remote` holds requests with a running handler only.
structure Serves (s : KernelSession V) (p : String → Except (PluginErrorWire V) V → Prop) : Prop where
  responses : ∀ i o, .rpcResponse i o ∈ s.port → p i o
  remote    : ∀ r ∈ s.remote, ∃ t, s.serving[r.snd]? = some t ∧ t.running ∧ t.id = r.fst

def Runs (s : KernelSession V) (callId : String) : Prop :=
  ∃ t ∈ s.serving, t.running ∧ t.id = callId

omit [StructuredClone V] in
theorem Serves.mono (h : s.Serves p) (hpq : ∀ i o, p i o → q i o) : s.Serves q :=
  ⟨fun i o hm => hpq i o <| h.responses i o hm, h.remote⟩

omit [StructuredClone V] in
theorem Serves.same (h : s.Serves p) (hs : s.SameServing t) : t.Serves p := by
  have ⟨out, hport, hout⟩ := hs.port
  constructor
  case responses =>
    intro i o hm
    rw [hport] at hm
    rcases List.mem_append.mp hm with hm | hm
    · exact h.responses i o hm
    · cases hout _ hm
  case remote => exact hs.remote ▸ hs.serving ▸ h.remote

theorem Serves.respond (h : s.Serves p) (hp : p callId o) :
    (s.send [.rpcResponse callId o]).Serves p := by
  have hs : Posts (fun e => e = .rpcResponse callId o) s (s.send [.rpcResponse callId o]) :=
    .send fun _ => List.mem_singleton.mp
  have ⟨out, hport, hout⟩ := hs.port
  constructor
  case responses =>
    intro i r hm
    rw [hport] at hm
    rcases List.mem_append.mp hm with hm | hm
    · exact h.responses i r hm
    · cases hout _ hm
      exact hp
  case remote =>
    rw [KernelSession.send, post]
    split <;> exact h.remote

omit [StructuredClone V] in
-- A handler learns that it is aborted.
theorem Serves.modify {f : Serving → Serving} (h : s.Serves p)
    (hf : ∀ t, (f t).running = t.running ∧ (f t).id = t.id) :
    ({ s with serving := s.serving.modify task f } : KernelSession V).Serves p := by
  constructor
  case responses => exact h.responses
  case remote    =>
    intro r hr
    have ⟨t, ht, hrun, hid⟩ := h.remote r hr
    refine ⟨_, List.getElem?_modify .. |>.trans <| congrArg _ ht, ?_⟩
    split
    · exact ⟨(hf t).left ▸ hrun, (hf t).right.trans hid⟩
    · exact ⟨hrun, hid⟩

theorem Serves.serveRequest (h : s.Serves p)
    (hd : p callId (.error { code := operationDeadline, retryable := true }))
    (hu : method ∉ s.handlers → p callId (.error {
      code      := protocolUnsupported
      retryable := false
      details   := some <| .note <| .method method
    })) : (s.serveRequest callId method due now).Serves p := by
  unfold KernelSession.serveRequest
  split
  case isTrue hm => exact h.respond <| hu hm
  case isFalse =>
    split
    case isTrue  => exact h.respond hd
    case isFalse =>
      constructor
      case responses => exact h.responses
      case remote    =>
        intro r hr
        rcases List.mem_append.mp hr with hr | hr
        · have ⟨t, ht, hrun, hid⟩ := h.remote r (List.mem_of_mem_filter hr)
          exact ⟨t, List.getElem?_append_left (List.getElem?_eq_some_iff.mp ht).fst ▸ ht, hrun, hid⟩
        · cases List.mem_singleton.mp hr
          exact ⟨_, List.getElem?_concat_length, rfl, rfl⟩

-- A handler answers at most once, and is no longer known under the identifier of its request.
theorem answer_cases : s.answer task outcome = s ∨
    ∃ t, s.serving[task]? = some t ∧ t.running ∧ s.answer task outcome =
      { s.send [.rpcResponse t.id (t.result outcome)] with
        serving := s.serving.modify task fun t => { t with running := false, deadlineTimer := false }
        remote  := s.remote.filter (·.fst ≠ t.id)
      } := by
  unfold KernelSession.answer
  split
  case h_2 => exact .inl rfl
  case h_1 i aborted due ht =>
    refine .inr ⟨_, ht, rfl, ?_⟩
    cases outcome <;> cases hd : s.disposed
    all_goals simp [unregister, KernelSession.send, post, Serving.result, hd]

theorem Serves.answer (h : s.Serves p)
    (hp : ∀ t, s.serving[task]? = some t → t.running → p t.id (t.result outcome)) :
    (s.answer task outcome).Serves p := by
  rcases answer_cases (s := s) with heq | ⟨t, ht, hrun, heq⟩
  · rw [heq]
    exact h
  · have hr := h.respond <| hp t ht hrun
    rw [heq]
    constructor
    case responses => exact hr.responses
    case remote    =>
      intro r hmem
      have ⟨hmem, hne⟩ := List.mem_filter.mp hmem
      have ⟨u, hget, hrun, hid⟩ := h.remote r hmem
      have htask : task ≠ r.snd := by
        rintro rfl
        rw [ht] at hget
        cases hget
        simp [hid] at hne
      exact ⟨u, (List.getElem?_modify_ne _ _ htask).trans hget, hrun, hid⟩

theorem Serves.serverStep {r : ServerEvent V} (h : s.Serves p)
    (hreq : ∀ i m due now, r = .request i m due now →
      p i (.error { code := operationDeadline, retryable := true }) ∧ (m ∉ s.handlers →
        p i (.error {
          code      := protocolUnsupported
          retryable := false
          details   := some <| .note <| .method m
        })))
    (hans : ∀ task outcome t, r = .answer task outcome → s.serving[task]? = some t → t.running →
      p t.id (t.result outcome)) : (s.serverStep r).Serves p := by
  cases r
  case request i m due now =>
    have ⟨hd, hu⟩ := hreq _ _ _ _ rfl
    exact h.serveRequest hd hu
  case answer task outcome => exact h.answer fun t => hans task outcome t rfl
  case deadline task =>
    rw [KernelSession.serverStep, KernelSession.deadline]
    split
    case h_1 => exact h.modify fun _ => ⟨rfl, rfl⟩
    case h_2 => exact h
  case cancel i =>
    rw [KernelSession.serverStep, KernelSession.onCancel]
    split
    case h_2 => exact h
    case h_1 =>
      have hu : (s.unregister i).Serves p :=
        ⟨h.responses, fun r hr => h.remote r <| List.mem_of_mem_filter hr⟩
      exact hu.modify fun _ => ⟨rfl, rfl⟩

omit [StructuredClone V] in
theorem Runs.modify {f : Serving → Serving} (h : s.Runs callId)
    (hf : ∀ t, (f t).running = t.running ∧ (f t).id = t.id) :
    ({ s with serving := s.serving.modify task f } : KernelSession V).Runs callId := by
  have ⟨t, ht, hrun, hid⟩ := h
  have ⟨n, hn⟩ := List.mem_iff_getElem?.mp ht
  have hget : (s.serving.modify task f)[n]? = _ := List.getElem?_modify ..
  rw [hn] at hget
  refine ⟨_, List.mem_of_getElem? hget, ?_⟩
  split
  · exact ⟨(hf t).left ▸ hrun, (hf t).right.trans hid⟩
  · exact ⟨hrun, hid⟩

omit [StructuredClone V] in
theorem Runs.same (h : s.Runs callId) (hs : t.serving = s.serving) : t.Runs callId := by
  rw [Runs, hs]
  exact h

theorem serving_send {out : List (Envelope V)} : (s.send out).serving = s.serving := by
  rw [KernelSession.send, post]
  split <;> rfl

theorem Serves.turn {e : Event V} (h : s.Serves p) (ht : s.CallTurn e t)
    (hreq : ∀ i m due now, e.server = some (.request i m due now) →
      p i (.error { code := operationDeadline, retryable := true }) ∧ (m ∉ s.handlers →
        p i (.error {
          code      := protocolUnsupported
          retryable := false
          details   := some <| .note <| .method m
        })))
    (hans : ∀ task outcome t, e.server = some (.answer task outcome) →
      s.serving[task]? = some t → t.running → p t.id (t.result outcome)) : t.Serves p := by
  cases ht
  case aside _ _ hs      => exact h.same hs.serving
  case caller c _ _ heq  =>
    rw [heq]
    exact h.same .callerStep
  case server r _ hr heq =>
    rw [heq]
    apply h.serverStep
    case hreq =>
      rintro i m due now rfl
      exact hreq i m due now hr
    case hans =>
      rintro task outcome t rfl
      exact hans task outcome t hr

-- A handler runs until it answers, and structured clone may refuse its answer.
theorem Runs.serverStep {r : ServerEvent V} (h : s.Runs callId) (hd : s.disposed = false) :
    (s.serverStep r).Runs callId ∨ ∃ task outcome t, r = .answer task outcome ∧
      s.serving[task]? = some t ∧ t.running ∧ t.id = callId ∧ (t.passes outcome →
        ∃ o, .rpcResponse callId o ∈ (s.serverStep r).port.drop s.port.length) := by
  cases r
  case request i m due now =>
    left
    rw [KernelSession.serverStep, KernelSession.serveRequest]
    split
    · exact h.same serving_send
    · split
      · exact h.same serving_send
      · obtain ⟨t, ht, hrun⟩ := h
        exact ⟨t, List.mem_append_left _ ht, hrun⟩
  case deadline task =>
    left
    rw [KernelSession.serverStep, KernelSession.deadline]
    split
    · exact h.modify fun _ => ⟨rfl, rfl⟩
    · exact h
  case cancel i =>
    left
    rw [KernelSession.serverStep, KernelSession.onCancel]
    split
    · have hu : (s.unregister i).Runs callId := h
      exact hu.modify fun _ => ⟨rfl, rfl⟩
    · exact h
  case answer task outcome =>
    rw [KernelSession.serverStep]
    have hc : s.answer task outcome = s ∨ _ := answer_cases
    rcases hc with heq | ⟨t, ht, hrun, heq⟩
    · rw [heq]
      exact .inl h
    · rw [heq]
      obtain ⟨u, hu, hurun, hid⟩ := h
      obtain ⟨n, hn⟩ := List.mem_iff_getElem?.mp hu
      by_cases htask : task = n
      case pos =>
        subst htask
        rw [ht] at hn
        cases hn
        refine .inr ⟨task, outcome, t, rfl, ht, hrun, hid, fun hp => ⟨t.result outcome, ?_⟩⟩
        change _ ∈ (s.send [.rpcResponse t.id (t.result outcome)]).port.drop s.port.length
        rw [port_send hd, List.drop_left, hid]
        exact List.mem_filter.mpr ⟨List.mem_singleton.mpr rfl, hid ▸ t.clones_of_passes hp⟩
      case neg =>
        have hm := (List.getElem?_modify_ne (fun t : Serving =>
          { t with running := false, deadlineTimer := false }) s.serving htask).trans hn
        exact .inl ⟨u, List.mem_of_getElem? hm, hurun, hid⟩

theorem handlers_serverStep {r : ServerEvent V} : (s.serverStep r).handlers = s.handlers := by
  have hsend {out : List (Envelope V)} : (s.send out).handlers = s.handlers := by
    rw [KernelSession.send, post]
    split <;> rfl
  cases r
  case request =>
    rw [KernelSession.serverStep, KernelSession.serveRequest]
    split
    · exact hsend
    · split
      · exact hsend
      · rfl
  case answer task outcome =>
    rw [KernelSession.serverStep]
    have hc : s.answer task outcome = s ∨ _ := answer_cases
    rcases hc with heq | ⟨t, _, _, heq⟩
    · rw [heq]
    · rw [heq]
      exact hsend
  case deadline =>
    rw [KernelSession.serverStep, KernelSession.deadline]
    split <;> rfl
  case cancel =>
    rw [KernelSession.serverStep, KernelSession.onCancel]
    split <;> rfl

-- A request is refused with a response that can be cloned, or its handler runs.
theorem runs_serveRequest (hd : s.disposed = false) :
    (s.serveRequest callId method due now).Runs callId ∨
      ∃ o, .rpcResponse callId o ∈ (s.serveRequest callId method due now).port.drop s.port.length := by
  unfold KernelSession.serveRequest
  split
  case isTrue =>
    rw [port_send hd, List.drop_left]
    exact .inr ⟨_, List.mem_singleton.mpr rfl⟩
  case isFalse =>
    split
    case isTrue =>
      rw [port_send hd, List.drop_left]
      exact .inr ⟨_, List.mem_singleton.mpr rfl⟩
    case isFalse =>
      exact .inl ⟨_, List.mem_append_right _ <| List.mem_singleton.mpr rfl, rfl, rfl⟩

end Serves

end KernelSession
end PluginSdk
