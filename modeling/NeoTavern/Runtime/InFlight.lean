import NeoTavern.Lib.Runs
import NeoTavern.Runtime.Forwarding

namespace Forwarding

variable {R : Type}

-- A call that has not been answered yet: its timer will answer it at the latest.
structure Call.Waits (c : Call R) : Prop where
  answers : c.answers = []
  settled : c.settled = none
  timer   : c.timer

namespace Core

variable {s : Core R} {e : Event R} {k : Nat} {c : Call R}

def holds (s : Core R) (k : Nat) (c : Call R) : Prop :=
  (c.params.requestId, k) ∈ s.inFlight

-- Each admitted call waits for its answer in the table, or it has been answered once and is not in
-- the table any more; and the table holds nothing else and keeps to its bound.
structure Answered (s : Core R) : Prop where
  calls : ∀ k c, s.calls[k]? = some c → c.admitted →
    (c.Waits ∧ s.holds k c) ∨ (c.answers.length = 1 ∧ ¬s.holds k c)
  table : ∀ i k, (i, k) ∈ s.inFlight → ∃ c, s.calls[k]? = some c ∧ c.admitted ∧
    c.params.requestId = i ∧ c.answers = []
  bound : s.inFlight.length ≤ s.maxInflight

-- No frame of an admitted call fails to be encoded, and none is answered through the data pipe.
def Clear (s : Core R) : Event R → Prop
  | .submit params sent now              => s.admission params now = none → ∀ error, sent ≠ .error error
  | .rpcResponseData worker requestId    => worker ∈ s.workers →
    ∀ c ∈ s.calls, c.admitted → c.params.worker = worker → c.params.requestId ≠ requestId
  | .rpcResponseStream worker requestId final => final → worker ∈ s.workers →
    ∀ c ∈ s.calls, c.admitted → c.params.worker = worker → c.params.requestId ≠ requestId
  | _ => True

theorem getElem?_concat_cases {α : Type} {l : List α} {a d : α} {k : Nat}
    (h : (l ++ [a])[k]? = some d) : l[k]? = some d ∨ (k = l.length ∧ d = a) := by
  rcases Nat.lt_trichotomy k l.length with hlt | rfl | hgt
  · rw [List.getElem?_append_left hlt] at h
    exact .inl h
  · rw [List.getElem?_concat_length] at h
    cases h
    exact .inr ⟨rfl, rfl⟩
  · rw [List.getElem?_eq_none (by simp; omega)] at h
    cases h

section Settle

variable {hit : String × Nat → Bool} {outcome : Call R → Except (Error R) R}

theorem getElem?_settleWhere : (s.settleWhere hit outcome).calls[k]? = (s.calls[k]?).map fun c =>
    if s.inFlight.any (fun entry => entry.snd = k && hit entry) then c.settle (outcome c) else c := by
  simp [settleWhere]

theorem any_hit_iff (ht : ∀ i k, (i, k) ∈ s.inFlight → ∃ c, s.calls[k]? = some c ∧ c.admitted ∧
    c.params.requestId = i ∧ c.answers = []) (hc : s.calls[k]? = some c) :
    s.inFlight.any (fun entry => entry.snd = k && hit entry) ↔
      s.holds k c ∧ hit (c.params.requestId, k) := by
  rw [List.any_eq_true]
  constructor
  · rintro ⟨⟨i, j⟩, hmem, hj⟩
    simp only [Bool.and_eq_true, decide_eq_true_eq] at hj
    obtain ⟨rfl, hhit⟩ := hj
    have ⟨d, hd, _, hid, _⟩ := ht i j hmem
    cases hd.symm.trans hc
    rw [holds, hid]
    exact ⟨hmem, hhit⟩
  · intro ⟨hmem, hhit⟩
    exact ⟨_, hmem, by simp [hhit]⟩

-- Whatever is taken out of the table is answered at that moment. A timer that has fired does not run
-- any more.
theorem answered_settleWhere
    (hcalls : ∀ k c, s.calls[k]? = some c → c.admitted →
      (c.answers = [] ∧ c.settled = none ∧ (c.timer ∨ hit (c.params.requestId, k)) ∧ s.holds k c) ∨
        (c.answers.length = 1 ∧ ¬s.holds k c))
    (htable : ∀ i k, (i, k) ∈ s.inFlight → ∃ c, s.calls[k]? = some c ∧ c.admitted ∧
      c.params.requestId = i ∧ c.answers = [])
    (hbound : s.inFlight.length ≤ s.maxInflight) : (s.settleWhere hit outcome).Answered := by
  constructor
  case bound => exact Nat.le_trans (List.length_filter_le ..) hbound
  case table =>
    intro i k hmem
    have ⟨hmem, hhit⟩ := List.mem_filter.mp hmem
    have ⟨c, hc, hadm, hid, hans⟩ := htable i k hmem
    refine ⟨c, ?_, hadm, hid, hans⟩
    rw [getElem?_settleWhere, hc, Option.map_some, if_neg]
    rw [any_hit_iff htable hc, hid]
    exact fun h => by simp [h.right] at hhit
  case calls =>
    intro k c' hc' hadm
    rw [getElem?_settleWhere] at hc'
    have ⟨c, hc, heq⟩ := Option.map_eq_some_iff.mp hc'
    by_cases hany : s.inFlight.any fun entry => entry.snd = k && hit entry
    case pos =>
      have ⟨hmem, hhit⟩ := (any_hit_iff htable hc).mp hany
      rw [if_pos hany] at heq
      subst heq
      rcases hcalls k c hc hadm with ⟨hans, hset, _⟩ | ⟨_, hno⟩
      · refine .inr ⟨?_, fun h => ?_⟩
        · simp [Call.settle, hset, hans]
        · have := (List.mem_filter.mp h).right
          simp [Call.settle, hhit] at this
      · exact absurd hmem hno
    case neg =>
      rw [if_neg hany] at heq
      subst heq
      rw [any_hit_iff htable hc] at hany
      rcases hcalls k c hc hadm with ⟨hans, hset, ht, hmem⟩ | ⟨hans, hno⟩
      · have hnot : ¬hit (c.params.requestId, k) := fun h => hany ⟨hmem, h⟩
        refine .inl ⟨⟨hans, hset, ht.resolve_right hnot⟩, List.mem_filter.mpr ⟨hmem, by simp [hnot]⟩⟩
      · exact .inr ⟨hans, fun h => hno (List.mem_filter.mp h).left⟩

theorem Answered.settleWhere (h : s.Answered) : (s.settleWhere hit outcome).Answered := by
  refine answered_settleWhere (fun k c hc hadm => ?_) h.table h.bound
  rcases h.calls k c hc hadm with ⟨hw, hmem⟩ | hdone
  · exact .inl ⟨hw.answers, hw.settled, .inl hw.timer, hmem⟩
  · exact .inr hdone

end Settle

section Steps

theorem deadline_eq (hc : s.calls[k]? = some c) (ht : c.timer) : s.deadline k =
    { s with calls := s.calls.modify k ({ · with timer := false }) }.settleWhere
      (·.fst = c.params.requestId) fun _ => .error {
        code    := Broker.BrokerErrorCode.operationDeadline
        message := "call deadline exceeded while awaiting the host"
      } := by
  obtain ⟨params, admitted, timer, settled, answers⟩ := c
  obtain rfl : timer = true := ht
  rw [Core.deadline, hc]

theorem deadline_of_not (h : ∀ c, s.calls[k]? = some c → ¬c.timer) : s.deadline k = s := by
  unfold Core.deadline
  split
  case h_2    => rfl
  case h_1 hc => exact absurd rfl <| h _ hc

theorem Answered.deadline (h : s.Answered) : (s.deadline k).Answered := by
  by_cases hk : ∃ c, s.calls[k]? = some c ∧ c.timer
  case neg =>
    rw [deadline_of_not fun c hc ht => hk ⟨c, hc, ht⟩]
    exact h
  case pos =>
    have ⟨c, hc, ht⟩ := hk
    rw [deadline_eq hc ht]
    refine answered_settleWhere (fun j d hd hadm => ?_) (fun i j hmem => ?_) h.bound
    · by_cases hj : k = j
      · obtain rfl := hj
        have hd : some { c with timer := false } = some d := by simpa [hc] using hd
        cases hd
        rcases h.calls k c hc hadm with ⟨hw, hmem⟩ | hdone
        · exact .inl ⟨hw.answers, hw.settled, .inr (by simp), hmem⟩
        · exact .inr hdone
      · have hd : s.calls[j]? = some d := by simpa [List.getElem?_modify, hj] using hd
        rcases h.calls j d hd hadm with ⟨hw, hmem⟩ | hdone
        · exact .inl ⟨hw.answers, hw.settled, .inl hw.timer, hmem⟩
        · exact .inr hdone
    · have ⟨d, hd, hadm, hid, hans⟩ := h.table i j hmem
      rw [List.getElem?_modify]
      by_cases hj : k = j
      · exact ⟨{ d with timer := false }, by simp [hj, hd], hadm, hid, hans⟩
      · exact ⟨d, by simpa [hj] using hd, hadm, hid, hans⟩

-- The timer of a call that waits answers it.
theorem Answered.answered_deadline (h : s.Answered) (hc : s.calls[k]? = some c) (hadm : c.admitted)
    (hw : c.Waits) : ∃ d, (s.deadline k).calls[k]? = some d ∧ d.params = c.params ∧
      d.answers.length = 1 := by
  have hd := h.deadline (k := k)
  rw [deadline_eq hc hw.timer] at hd ⊢
  generalize hf : (fun _ => _ : Call R → Except (Error R) R) = outcome at hd ⊢
  have ⟨d, hget, hparams, hadm'⟩ : ∃ d, (Core.settleWhere
      { s with calls := s.calls.modify k ({ · with timer := false }) }
        (·.fst = c.params.requestId) outcome).calls[k]? = some d ∧ d.params = c.params ∧ d.admitted := by
    rw [getElem?_settleWhere]
    simp only [List.getElem?_modify, hc]
    refine ⟨_, rfl, ?_⟩
    simp only [if_true]
    split
    · exact ⟨rfl, hadm⟩
    · exact ⟨rfl, hadm⟩
  refine ⟨d, hget, hparams, ?_⟩
  rcases hd.calls k d hget hadm' with ⟨_, hmem⟩ | ⟨hans, _⟩
  · have := (List.mem_filter.mp hmem).right
    simp [hparams] at this
  · exact hans

theorem admit_bound {params : AdmitParams} {now : Int} (h : s.admission params now = none) :
    s.inFlight.length < s.maxInflight := by
  unfold admission at h
  repeat (first | split at h | cases h)
  omega

theorem Answered.register (params : AdmitParams) (h : s.Answered)
    (hlt : s.inFlight.length < s.maxInflight) : Answered { s with
      calls    := s.calls ++ [{ params }]
      inFlight := s.inFlight ++ [(params.requestId, s.calls.length)]
    } := by
  have hlength (j : Nat) c (hj : s.calls[j]? = some c) : j ≠ s.calls.length := by
    have := (List.getElem?_eq_some_iff.mp hj).fst
    omega
  constructor
  case bound => simpa using Nat.succ_le_of_lt hlt
  case table =>
    intro i j hmem
    rcases List.mem_append.mp hmem with hmem | hmem
    · have ⟨c, hc, hrest⟩ := h.table i j hmem
      exact ⟨c, by rwa [List.getElem?_append_left (List.getElem?_eq_some_iff.mp hc).fst], hrest⟩
    · cases List.mem_singleton.mp hmem
      exact ⟨_, List.getElem?_concat_length, rfl, rfl, rfl⟩
  case calls =>
    intro j c hc hadm
    rcases getElem?_concat_cases hc with hc | ⟨rfl, rfl⟩
    · rcases h.calls j c hc hadm with ⟨hw, hmem⟩ | ⟨hans, hno⟩
      · exact .inl ⟨hw, List.mem_append_left _ hmem⟩
      · refine .inr ⟨hans, fun hmem => ?_⟩
        rcases List.mem_append.mp hmem with hmem | hmem
        · exact hno hmem
        · exact hlength j c hc (Prod.mk.inj <| List.mem_singleton.mp hmem).right
    · exact .inl ⟨⟨rfl, rfl, rfl⟩, List.mem_append_right _ List.mem_cons_self⟩

theorem admit_eq_none_or (s : Core R) (params : AdmitParams) (sent : Except (Error R) Bool) (now : Int) :
    (s.admission params now = none) ∨ ∃ c, c.admitted = false ∧
      s.admitAndRegister params sent now = { s with calls := s.calls ++ [c] } := by
  cases ha : s.admission params now
  case none       => exact .inl rfl
  case some error =>
    refine .inr ⟨_, ?_, by rw [admitAndRegister, ha]⟩
    rfl

-- A call that has not been admitted changes nothing.
theorem Answered.refuse (h : s.Answered) (hc : c.admitted = false) :
    Answered { s with calls := s.calls ++ [c] } := by
  constructor
  case bound => exact h.bound
  case table =>
    intro i j hmem
    have ⟨d, hd, hrest⟩ := h.table i j hmem
    exact ⟨d, by rwa [List.getElem?_append_left (List.getElem?_eq_some_iff.mp hd).fst], hrest⟩
  case calls =>
    intro j d hd hadm
    rcases getElem?_concat_cases hd with hd | ⟨_, rfl⟩
    · exact h.calls j d hd hadm
    · rw [hc] at hadm
      cases hadm

theorem answered_submit_iff {params : AdmitParams} {sent : Except (Error R) Bool} {now : Int}
    (h : s.Answered) : (s.admitAndRegister params sent now).Answered ↔
      s.Clear (.submit params sent now) := by
  rcases admit_eq_none_or s params sent now with ha | ⟨c, hc, heq⟩
  case inr =>
    rw [heq]
    refine iff_of_true (h.refuse hc) fun hnone => ?_
    rw [admitAndRegister, hnone] at heq
    have hlen := congrArg (fun t : Core R => t.inFlight.length) heq
    cases sent
    case error e => exact absurd hlen (by simp)
    case ok b    => exact nofun
  case inl =>
    have hreg := h.register params (admit_bound ha)
    cases sent
    case ok b =>
      refine iff_of_true ?_ nofun
      rw [admitAndRegister, ha]
      cases b
      case true  => exact hreg
      case false => exact hreg.settleWhere
    case error error =>
      refine iff_of_false (fun hans => ?_) fun hclear => hclear ha error rfl
      rw [admitAndRegister, ha] at hans
      -- The call has been answered, and still is in the table.
      rcases hans.calls s.calls.length _ List.getElem?_concat_length rfl with ⟨hw, _⟩ | ⟨_, hno⟩
      · cases hw.answers
      · exact hno <| List.mem_append_right _ List.mem_cons_self

theorem answered_post_iff {worker : BrokerWorkerRef} {requestId : String} {answer : Answer}
    (h : s.Answered) : (s.post worker requestId answer).Answered ↔ (worker ∈ s.workers →
      ∀ c ∈ s.calls, c.admitted → c.params.worker = worker → c.params.requestId ≠ requestId) := by
  unfold post
  split
  case isFalse hw => exact iff_of_true h fun hw' => absurd hw' hw
  case isTrue hw =>
    constructor
    · intro hans _ c hc hadm hworker hid
      have ⟨k, hk⟩ := List.mem_iff_getElem?.mp hc
      have hnew := hans.calls k { c with answers := c.answers ++ [answer] }
        (by simp [hk, hadm, hworker, hid]) hadm
      rcases hnew with ⟨hw', _⟩ | ⟨hone', hno'⟩
      · simpa using hw'.answers
      · rcases h.calls k c hk hadm with ⟨_, hmem⟩ | ⟨hone, _⟩
        · exact hno' hmem
        · simp [hone] at hone'
    · intro hclear
      have hmap : (s.calls.map fun c =>
          if c.admitted && c.params.worker = worker && c.params.requestId = requestId then
            { c with answers := c.answers ++ [answer] }
          else
            c) = s.calls := by
        conv_rhs => rw [← List.map_id s.calls]
        refine List.map_congr_left fun c hc => if_neg fun hmatch => ?_
        simp only [Bool.and_eq_true, decide_eq_true_eq] at hmatch
        exact hclear hw c hc hmatch.left.left hmatch.left.right hmatch.right
      rw [hmap]
      exact h

theorem answered_step_iff (h : s.Answered) : (s.step e).Answered ↔ s.Clear e := by
  cases e
  case submit            => exact answered_submit_iff h
  case rpcResponseData   => exact answered_post_iff h
  case rpcResponse       => exact iff_of_true h.settleWhere trivial
  case deadline          => exact iff_of_true h.deadline trivial
  case shutdown          => exact iff_of_true h.settleWhere trivial
  case workerSpawn       => exact iff_of_true ⟨h.calls, h.table, h.bound⟩ trivial
  case workerExit worker =>
    have hw : Answered { s with workers := s.workers.filter (· ≠ worker) } := ⟨h.calls, h.table, h.bound⟩
    exact iff_of_true hw.settleWhere trivial
  case revoke pluginId name reason =>
    refine iff_of_true ?_ trivial
    cases name
    case none =>
      have hr : Answered { s with revokedPlugins := s.revokedPlugins ++ [pluginId] } :=
        ⟨h.calls, h.table, h.bound⟩
      exact hr.settleWhere
    case some name =>
      have hr : Answered { s with revokedPairs := s.revokedPairs ++ [Broker.pairKey pluginId name] } :=
        ⟨h.calls, h.table, h.bound⟩
      exact hr.settleWhere
  case rpcResponseStream worker requestId final =>
    cases final
    case false => exact iff_of_true h nofun
    case true  => simpa [Core.step, Clear] using answered_post_iff h

end Steps

-- Every admitted call is answered exactly once and then is not in the table any more, in every state
-- of a run, if and only if no frame of an admitted call fails to be encoded and no admitted call is
-- answered through the data pipe. A call that waits is answered by its timer at the latest.
theorem answered_throughout_iff (maxInflight : Nat) (es : List (Event R)) :
    (Runs.Throughout step Answered { maxInflight } es ↔ Runs.Meets step Clear { maxInflight } es) ∧
      ∀ (s : Core R) k c, s.Answered → s.calls[k]? = some c → c.admitted → c.Waits →
        ∃ d, (s.deadline k).calls[k]? = some d ∧ d.params = c.params ∧ d.answers.length = 1 := by
  have hinit : Answered ({ maxInflight } : Core R) := ⟨by simp, nofun, Nat.zero_le _⟩
  have hinv (s : Core R) (e : Event R) (_ : True) : True := trivial
  exact ⟨Runs.throughout_iff_meets hinv (fun _ _ _ => answered_step_iff) trivial hinit,
    fun _ _ _ h => h.answered_deadline⟩

section Sample

private def params : AdmitParams where
  requestId      := "req-00000001"
  pluginId       := "p1"
  capabilityName := "storage.kv"
  causalChain    := []
  deadlineAt     := 30000
  worker         := { workerId := 3, workerEpoch := 1 }

-- The result of a call comes through the data pipe, and then its timer fires.
private def answeredByData : List (Event Nat) := [.workerSpawn params.worker,
  .submit params (.ok true) 0, .rpcResponseData params.worker params.requestId]

-- The call that has been answered through the data pipe still is in the table.
theorem entry_outlives_answer : ¬∀ es, Runs.Throughout step Answered ({} : Core Nat) es := by
  intro h
  have hmem : (params.requestId, 0) ∈ (answeredByData.foldl step ({} : Core Nat)).inFlight := by
    decide +kernel
  have hgot : (answeredByData.foldl step ({} : Core Nat)).calls[0]?.map Call.answers =
      some [.responseData] := by
    decide +kernel
  have ⟨c, hc, _, _, hans⟩ := (h answeredByData).last.table _ _ hmem
  rw [hc, Option.map_some, hans] at hgot
  cases hgot

-- Its timer answers it once more.
example : ((answeredByData ++ [Event.deadline 0]).foldl step ({} : Core Nat)).calls[0]?.map Call.answers =
    some [.responseData, .response] := by
  decide +kernel

end Sample

end Core
end Forwarding
