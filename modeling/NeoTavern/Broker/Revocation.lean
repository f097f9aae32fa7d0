import Mathlib
import NeoTavern.Broker.Core

namespace Broker

namespace Call

variable {R : Type} {c : Call R} {pluginId : String} {name reason : Option String}

def Running (c : Call R) : Prop :=
  c.admitted ∧ c.settled = none

-- A call after the revocation of its capability.
def halted (c : Call R) (reason : Option String) : Call R :=
  { c with
    aborted := c.aborted <|> some {
      code    := BrokerErrorCode.capabilityRevoked
      message := reason.getD "capability revoked while the call was in flight"
      details := some <| .revoked c.request.pluginId c.request.capabilityName
    }
    timer := false
  }

theorem halted_halted : (c.halted reason).halted reason = c.halted reason := by
  cases h : c.aborted <;> simp [halted, h]

theorem isOf_halted : (c.halted reason).isOf pluginId name = c.isOf pluginId name :=
  rfl

theorem aborted_halted : (c.halted reason).aborted ≠ none := by
  cases h : c.aborted <;> simp [halted, h]

end Call

namespace Core

variable {R : Type} {s t : Core R}

section Abort

variable {pluginId : String} {name reason : Option String}

def hits (s : Core R) (pluginId : String) (name : Option String) (k : Nat) : Bool :=
  (s.calls[k]?).any (·.isOf pluginId name)

theorem abortEntry_calls (s : Core R) (entry : String × Nat) (k : Nat) :
    (abortEntry pluginId name reason s entry).calls[k]? = (s.calls[k]?).map fun c =>
      if c.isOf pluginId name && entry.snd = k then c.halted reason else c := by
  rcases entry with ⟨requestId, m⟩
  simp only [abortEntry]
  split
  case h_2 hn =>
    by_cases hk : m = k
    case pos => rw [← hk, hn, Option.map_none]
    case neg => simp [hk]
  case h_1 c hc =>
    split
    case isFalse hof =>
      by_cases hk : m = k
      case pos => rw [← hk, hc, Option.map_some, if_neg (by simp [hof])]
      case neg => simp [hk]
    case isTrue hof =>
      have hp : pluginId = c.request.pluginId := by
        simp only [Call.isOf, Bool.and_eq_true, decide_eq_true_eq] at hof
        exact hof.left.symm
      simp only [delete, abort, List.getElem?_modify]
      by_cases hk : m = k
      case pos =>
        subst hk hp
        rw [hc]
        simp [hof, Call.halted]
      case neg => simp [hk]

theorem hits_abortEntry (s : Core R) (entry : String × Nat) (k : Nat) :
    (abortEntry pluginId name reason s entry).hits pluginId name k = s.hits pluginId name k := by
  rw [hits, abortEntry_calls, hits]
  cases s.calls[k]?
  case none   => rfl
  case some c =>
    rw [Option.map_some, Option.any_some, Option.any_some]
    split <;> rfl

theorem abortEntry_inFlight (s : Core R) (entry : String × Nat) :
    (abortEntry pluginId name reason s entry).inFlight = s.inFlight.filter fun q =>
      !(decide (entry.fst = q.fst) && s.hits pluginId name entry.snd) := by
  rcases entry with ⟨requestId, m⟩
  simp only [abortEntry]
  split
  case h_2 hn => simp [hits, hn]
  case h_1 c hc =>
    split
    case isFalse hof => simp [hits, hc, hof]
    case isTrue hof  =>
      simp only [delete, abort, hits, hc, hof, Option.any_some, Bool.and_true]
      refine List.filter_congr fun q _ => ?_
      simp [eq_comm]

theorem abortEntry_revoked {entry : String × Nat} :
    (abortEntry pluginId name reason s entry).revokedPairs = s.revokedPairs ∧
      (abortEntry pluginId name reason s entry).revokedPlugins = s.revokedPlugins := by
  rcases entry with ⟨requestId, m⟩
  simp only [abortEntry]
  split
  · split <;> exact ⟨rfl, rfl⟩
  · exact ⟨rfl, rfl⟩

theorem foldl_abortEntry (pluginId : String) (name reason : Option String)
    (xs : List (String × Nat)) (s : Core R) :
    (∀ (k : Nat), (xs.foldl (abortEntry pluginId name reason) s).calls[k]? = (s.calls[k]?).map fun c =>
      if c.isOf pluginId name && xs.any (·.snd = k) then c.halted reason else c) ∧
    ((xs.foldl (abortEntry pluginId name reason) s).inFlight = s.inFlight.filter fun q =>
      !xs.any fun p => decide (p.fst = q.fst) && s.hits pluginId name p.snd) ∧
    (xs.foldl (abortEntry pluginId name reason) s).revokedPairs = s.revokedPairs ∧
    (xs.foldl (abortEntry pluginId name reason) s).revokedPlugins = s.revokedPlugins := by
  induction xs generalizing s
  case nil => simp
  case cons x xs ih =>
    have ⟨hcalls, hflight, hrevoked⟩ := ih (abortEntry pluginId name reason s x)
    refine ⟨?_, ?_, hrevoked.left.trans abortEntry_revoked.left,
      hrevoked.right.trans abortEntry_revoked.right⟩
    · intro k
      rw [List.foldl_cons, hcalls, abortEntry_calls, Option.map_map]
      refine congrArg (Option.map · _) ?_
      funext c
      simp only [Function.comp_apply, List.any_cons]
      cases hof : c.isOf pluginId name
      case false => simp [hof]
      case true  =>
        by_cases hk : x.snd = k
        case pos =>
          simp only [hk, decide_true, Bool.and_self, if_true, Call.isOf_halted, hof, Call.halted_halted,
            ite_self, Bool.true_or]
        case neg =>
          simp only [hk, decide_false, Bool.and_false, Bool.false_eq_true, if_false, hof, Bool.false_or]
    · rw [List.foldl_cons, hflight, abortEntry_inFlight, List.filter_filter]
      refine List.filter_congr fun q _ => ?_
      simp only [hits_abortEntry, List.any_cons, Bool.not_or, Bool.and_comm]

end Abort

-- The keys of a map are distinct, and every call is in the table under its own request.
structure Keyed (s : Core R) : Prop where
  nodup : (s.inFlight.map Prod.fst).Nodup
  named : ∀ (i : String) (k : Nat), (i, k) ∈ s.inFlight →
    ∃ c, s.calls[k]? = some c ∧ c.request.requestId = i

-- The table holds the running calls of the kind `p`, each under its request, and no others.
def Tracks (p : Call R → Prop) (s : Core R) : Prop :=
  ∀ (id : String) (k : Nat), (id, k) ∈ s.inFlight ↔
    ∃ c, s.calls[k]? = some c ∧ c.Running ∧ p c ∧ c.request.requestId = id

theorem Keyed.eq {i : String} (h : s.Keyed) (h₁ : (i, j) ∈ s.inFlight) (h₂ : (i, k) ∈ s.inFlight) :
    j = k := by
  have := List.inj_on_of_nodup_map h.nodup h₁ h₂ rfl
  cases this
  rfl

-- The signals of the calls `A` are aborted, and they leave the table.
structure Halts (A : Nat → Prop) (s t : Core R) : Prop where
  calls    : ∃ f : Nat → Call R → Call R, (∀ k : Nat, t.calls[k]? = (s.calls[k]?).map (f k)) ∧
    ∀ (k : Nat) c, s.calls[k]? = some c → (f k c).request = c.request ∧
      (f k c).admitted = c.admitted ∧ (f k c).settled = c.settled ∧
        ((f k c).aborted = none ↔ c.aborted = none ∧ ¬A k)
  inFlight : ∀ id k, (id, k) ∈ t.inFlight ↔ (id, k) ∈ s.inFlight ∧ ¬A k
  sublist  : t.inFlight.Sublist s.inFlight
  revoked  : (∃ ps, t.revokedPairs = s.revokedPairs ++ ps) ∧
    ∃ ps, t.revokedPlugins = s.revokedPlugins ++ ps

-- What `revoke`, the timer of a call and `shutdown` take out of the table.
def dropped (s : Core R) : Event R → Nat → Prop
  | .revoke pluginId name _, k => (∃ id, (id, k) ∈ s.inFlight) ∧ s.hits pluginId name k
  | .deadline j, k             => ∃ c ∈ s.calls[j]?, c.timer ∧ (c.request.requestId, k) ∈ s.inFlight
  | .shutdown, k               => ∃ id, (id, k) ∈ s.inFlight
  | _, _                       => False

section Halts

variable {p : Call R → Prop} {pluginId : String} {name reason : Option String}

theorem halts_abortInFlight (hk : s.Keyed) :
    Halts (fun k => (∃ i, (i, k) ∈ s.inFlight) ∧ s.hits pluginId name k) s
      (s.abortInFlight pluginId name reason) := by
  have ⟨hcalls, hflight, hrevoked⟩ := foldl_abortEntry pluginId name reason s.inFlight s
  constructor
  case calls =>
    refine ⟨_, hcalls, fun k c hc => ?_⟩
    have hany : s.inFlight.any (·.snd = k) ↔ ∃ i, (i, k) ∈ s.inFlight := by simp
    have hhit : s.hits pluginId name k = c.isOf pluginId name := by rw [hits, hc, Option.any_some]
    split
    case isTrue h =>
      have ⟨hof, hm⟩ := Bool.and_eq_true_iff.mp h
      refine ⟨rfl, rfl, rfl, fun ha => absurd ha Call.aborted_halted, fun ha => ?_⟩
      exact absurd ⟨hany.mp hm, hhit.trans hof⟩ ha.right
    case isFalse h =>
      refine ⟨rfl, rfl, rfl, fun ha => ⟨ha, fun hA => h ?_⟩, And.left⟩
      exact Bool.and_eq_true_iff.mpr ⟨hhit.symm.trans hA.right, hany.mpr hA.left⟩
  case inFlight =>
    intro i k
    rw [abortInFlight, hflight, List.mem_filter]
    refine and_congr_right fun hm => ?_
    rw [Bool.not_eq_true', ← Bool.not_eq_true, not_iff_not]
    constructor
    · intro h
      have ⟨q, hq, hor⟩ := List.any_eq_true.mp h
      have ⟨hfst, hhit⟩ := Bool.and_eq_true_iff.mp hor
      have hfst : q.fst = i := of_decide_eq_true hfst
      subst hfst
      have heq : q.snd = k := hk.eq hq hm
      exact ⟨⟨_, hm⟩, heq ▸ hhit⟩
    · rintro ⟨_, hhit⟩
      exact List.any_eq_true.mpr ⟨(i, k), hm, by simp [hhit]⟩
  case sublist => exact hflight ▸ List.filter_sublist
  case revoked => exact ⟨⟨[], by simp [abortInFlight, hrevoked]⟩, [], by simp [abortInFlight, hrevoked]⟩

theorem halts_revoke (hk : s.Keyed) : Halts (s.dropped (.revoke pluginId name reason)) s
    (s.revoke pluginId name reason) := by
  cases name
  case none =>
    have h := @halts_abortInFlight R { s with revokedPlugins := s.revokedPlugins ++ [pluginId] }
      pluginId none reason ⟨hk.nodup, hk.named⟩
    have ⟨ps, hps⟩ := h.revoked.right
    exact ⟨h.calls, h.inFlight, h.sublist, h.revoked.left, [pluginId] ++ ps,
      hps.trans <| List.append_assoc ..⟩
  case some name =>
    have h := @halts_abortInFlight R { s with
      revokedPairs := s.revokedPairs ++ [pairKey pluginId name] } pluginId (some name) reason
        ⟨hk.nodup, hk.named⟩
    have ⟨ps, hps⟩ := h.revoked.left
    exact ⟨h.calls, h.inFlight, h.sublist, ⟨[pairKey pluginId name] ++ ps,
      hps.trans <| List.append_assoc ..⟩, h.revoked.right⟩

theorem Halts.refl {A : Nat → Prop} (h : ∀ k, ¬A k) : Halts A s s :=
  ⟨⟨fun _ => id, fun k => by simp, fun k c _ => ⟨rfl, rfl, rfl, by simp [h k]⟩⟩,
    fun _ k => by simp [h k], .refl _, ⟨[], by simp⟩, [], by simp⟩

theorem halts_untimed {A : Nat → Prop} (h : ∀ k, ¬A k) :
    Halts A s { s with calls := s.calls.modify j ({ · with timer := false }) } := by
  constructor
  case calls =>
    refine ⟨fun k c => if j = k then { c with timer := false } else c, fun k => ?_, fun k c _ => ?_⟩
    · exact List.getElem?_modify ..
    · dsimp only
      split <;> simp [h k]
  case inFlight => simp [h]
  case sublist  => exact .refl _
  case revoked  => exact ⟨⟨[], (List.append_nil _).symm⟩, [], (List.append_nil _).symm⟩

theorem halts_deadline (hk : s.Keyed) : Halts (s.dropped (.deadline j)) s (s.deadline j) := by
  unfold deadline
  split
  case h_2 hn =>
    refine .refl fun k ⟨c, hc, ht, _⟩ => ?_
    rcases c with ⟨_, _, _⟩
    cases ht
    exact hn _ _ _ _ hc
  case h_1 request admitted aborted settled hj =>
    dsimp only
    split
    case h_2 hn =>
      have hA k : ¬s.dropped (.deadline j) k := by
        rintro ⟨c, hc, _, hm⟩
        cases hj.symm.trans hc
        have := List.find?_eq_none.mp hn _ hm
        simp at this
      exact halts_untimed hA
    case h_1 i m hfind =>
      have hi : i = request.requestId := by
        have := List.find?_some hfind
        simpa using this
      subst hi
      have hm : (request.requestId, m) ∈ s.inFlight := List.mem_of_find?_eq_some hfind
      have hA k : s.dropped (.deadline j) k ↔ k = m := by
        constructor
        · rintro ⟨c, hc, _, hmem⟩
          cases hj.symm.trans hc
          exact hk.eq hmem hm
        · rintro rfl
          exact ⟨_, hj, rfl, hm⟩
      constructor
      case calls =>
        have ⟨f, hf, hfc⟩ := (halts_untimed (j := j) fun _ => id : Halts _ s _).calls
        refine ⟨fun k c => if m = k then { f k c with
          aborted := (f k c).aborted <|> some {
            code    := BrokerErrorCode.operationDeadline
            message := "call deadline exceeded while in flight"
          }
          timer := false
        } else f k c, fun k => ?_, fun k c hc => ?_⟩
        · simp only [delete, abort, List.getElem?_modify, hf, Option.map_eq_map, Option.map_map]
          by_cases hmk : m = k
          case pos => simp [hmk, Function.comp_def]
          case neg => simp [hmk, Function.comp_def]
        · have ⟨hreq, had, hset, hab⟩ := hfc k c hc
          rw [hA]
          dsimp only
          split
          case isTrue hmk  =>
            refine ⟨hreq, had, hset, fun ha => ?_, fun ha => absurd hmk.symm ha.right⟩
            cases h : (f k c).aborted <;> simp [h] at ha
          case isFalse hmk =>
            refine ⟨hreq, had, hset, hab.trans <| and_congr_right fun _ => ?_⟩
            simp [Ne.symm hmk]
      case inFlight =>
        intro i k
        rw [hA]
        simp only [delete, abort, List.mem_filter, decide_eq_true_eq]
        refine and_congr_right fun hik => not_iff_not.mpr ⟨?_, ?_⟩
        · rintro rfl
          exact hk.eq hik hm
        · rintro rfl
          have ⟨c, hc, hci⟩ := hk.named i k hik
          have ⟨d, hd, hdi⟩ := hk.named _ k hm
          cases hc.symm.trans hd
          exact hci.symm.trans hdi
      case sublist => exact List.filter_sublist
      case revoked => exact ⟨⟨[], (List.append_nil _).symm⟩, [], (List.append_nil _).symm⟩

theorem foldl_abort (e : BrokerCallError R) (xs : List (String × Nat)) (s : Core R) :
    (∀ (k : Nat), (xs.foldl (fun s (p : String × Nat) => s.abort p.snd e) s).calls[k]? =
      (s.calls[k]?).map fun c => if xs.any (·.snd = k) then
        { c with aborted := c.aborted <|> some e, timer := false } else c) ∧
    (xs.foldl (fun s (p : String × Nat) => s.abort p.snd e) s).revokedPairs = s.revokedPairs ∧
    (xs.foldl (fun s (p : String × Nat) => s.abort p.snd e) s).revokedPlugins = s.revokedPlugins := by
  induction xs generalizing s
  case nil => simp
  case cons x xs ih =>
    have ⟨hcalls, hrevoked⟩ := ih (s.abort x.snd e)
    refine ⟨fun k => ?_, hrevoked⟩
    rw [List.foldl_cons, hcalls, abort, List.getElem?_modify, Option.map_eq_map, Option.map_map]
    refine congrArg (Option.map · _) ?_
    funext c
    simp only [Function.comp_apply, List.any_cons]
    by_cases hk : x.snd = k
    case neg => simp only [hk, if_false, decide_false, Bool.false_or]
    case pos =>
      simp only [hk, if_true, decide_true, Bool.true_or]
      cases h : c.aborted <;> simp

theorem halts_shutdown : Halts (s.dropped .shutdown) s s.shutdown := by
  have ⟨hcalls, hpairs, hplugins⟩ := foldl_abort {
    code := BrokerErrorCode.capabilityRevoked, message := "broker shutting down" } s.inFlight s
  constructor
  case calls =>
    refine ⟨_, hcalls, fun k c hc => ?_⟩
    have hany : s.inFlight.any (·.snd = k) ↔ s.dropped .shutdown k := by simp [dropped]
    split
    case isTrue h =>
      refine ⟨rfl, rfl, rfl, fun ha => ?_, fun ha => absurd (hany.mp h) ha.right⟩
      cases h : c.aborted <;> simp [h] at ha
    case isFalse h => exact ⟨rfl, rfl, rfl, fun ha => ⟨ha, fun hA => h <| hany.mpr hA⟩, And.left⟩
  case inFlight =>
    intro i k
    refine ⟨nofun, fun ⟨hm, hA⟩ => absurd ⟨i, hm⟩ hA⟩
  case sublist => exact List.nil_sublist _
  case revoked => exact ⟨⟨[], hpairs.trans (List.append_nil _).symm⟩, [],
    hplugins.trans (List.append_nil _).symm⟩

end Halts

section Steps

variable {p : Call R → Prop} {A : Nat → Prop} {call : BrokerCallRequest}
  {decision : BrokerDecision R} {now : Int} {outcome : Except (BrokerCallError R) R}

theorem admit_none (h : s.admission call decision now = none) :
    s.isRevoked call.pluginId call.capabilityName = false ∧ s.has call.requestId = false := by
  unfold admission at h
  repeat' split at h
  all_goals simp_all

theorem submit_cases (s : Core R) (call : BrokerCallRequest) (decision : BrokerDecision R) (now : Int) :
    (∃ error, s.submit call decision now = { s with calls := s.calls ++
      [{ request := call, admitted := false, timer := false, settled := some <| .error error }] }) ∨
    (s.isRevoked call.pluginId call.capabilityName = false ∧ s.has call.requestId = false ∧
      s.submit call decision now = { s with
        calls    := s.calls ++ [{ request := call }]
        inFlight := s.inFlight ++ [(call.requestId, s.calls.length)]
      }) := by
  unfold submit
  split
  case h_1 error _ => exact .inl ⟨error, rfl⟩
  case h_2 h       =>
    have ⟨hr, hh⟩ := admit_none h
    exact .inr ⟨hr, hh, rfl⟩

theorem complete_cases (s : Core R) (k : Nat) (outcome : Except (BrokerCallError R) R) :
    s.complete k outcome = s ∨ ∃ c, s.calls[k]? = some c ∧ c.Running ∧ s.complete k outcome = { s with
      calls    := s.calls.modify k ({ · with timer := false, settled := some outcome })
      inFlight := s.inFlight.filter (·.fst ≠ c.request.requestId)
    } := by
  unfold complete
  split
  case h_1 hc => exact .inr ⟨_, hc, ⟨rfl, rfl⟩, rfl⟩
  case h_2    => exact .inl rfl

-- Every step is a submission, the end of an execution, or takes calls out of the table.
theorem halts_step {e : Event R} (hk : s.Keyed) :
    (∃ call decision now, e = .submit call decision now) ∨ (∃ k outcome, e = .complete k outcome) ∨
      Halts (s.dropped e) s (s.step e) := by
  cases e
  case submit call decision now    => exact .inl ⟨_, _, _, rfl⟩
  case complete k outcome          => exact .inr <| .inl ⟨_, _, rfl⟩
  case revoke pluginId name reason => exact .inr <| .inr <| halts_revoke hk
  case deadline k                  => exact .inr <| .inr <| halts_deadline hk
  case shutdown                    => exact .inr <| .inr halts_shutdown

theorem getElem?_concat {α : Type} {l : List α} {a b : α} {k : Nat} :
    (l ++ [a])[k]? = some b ↔ l[k]? = some b ∨ (k = l.length ∧ b = a) := by
  rw [List.getElem?_append]
  split
  case isTrue hk => simp [Nat.ne_of_lt hk]
  case isFalse hk =>
    have hge := Nat.le_of_not_lt hk
    have hnone : l[k]? = none := List.getElem?_eq_none hge
    rw [hnone, List.getElem?_singleton]
    split <;> grind

theorem Tracks.submit (h : s.Tracks p) (hp : p { request := call }) :
    (s.submit call decision now).Tracks p := by
  rcases submit_cases s call decision now with ⟨error, heq⟩ | ⟨_, _, heq⟩
  · rw [heq]
    intro i k
    refine (h i k).trans (exists_congr fun c => ?_)
    rw [getElem?_concat]
    refine and_congr_left fun ⟨⟨_, hset⟩, _⟩ => ⟨.inl, fun hc => hc.resolve_right ?_⟩
    rintro ⟨_, rfl⟩
    cases hset
  · rw [heq]
    intro i k
    simp only [List.mem_append, List.mem_singleton, h i k, getElem?_concat]
    constructor
    · rintro (⟨c, hc, hrest⟩ | hnew)
      · exact ⟨c, .inl hc, hrest⟩
      · cases hnew
        exact ⟨_, .inr ⟨rfl, rfl⟩, ⟨rfl, rfl⟩, hp, rfl⟩
    · rintro ⟨c, hc | ⟨rfl, rfl⟩, hrest⟩
      · exact .inl ⟨c, hc, hrest⟩
      · exact .inr <| by rw [← hrest.right.right]

theorem Tracks.complete (h : s.Tracks p)
    (hu : ∀ c, s.calls[k]? = some c → c.Running → ∀ j, (c.request.requestId, j) ∈ s.inFlight → j = k) :
    (s.complete k outcome).Tracks p := by
  rcases complete_cases s k outcome with heq | ⟨c, hc, hrun, heq⟩
  · rwa [heq]
  · rw [heq]
    intro i j
    simp only [List.mem_filter, decide_eq_true_eq, h i j, List.getElem?_modify]
    by_cases hj : k = j
    case pos =>
      subst hj
      rw [hc]
      constructor
      · rintro ⟨⟨d, hd, _, _, hid⟩, hne⟩
        cases hd
        exact absurd hid.symm hne
      · rintro ⟨d, hd, ⟨_, hset⟩, _⟩
        simp only [if_true, Option.map_eq_map, Option.map_some, Option.some.injEq] at hd
        subst hd
        cases hset
    case neg =>
      simp only [hj, if_false, Option.map_eq_map, Option.map_id']
      refine and_iff_left_of_imp fun hd => ?_
      rintro rfl
      exact hj <| (hu c hc hrun j <| (h _ j).mpr hd).symm

theorem Tracks.unique (h : s.Tracks fun _ => True) (hk : s.Keyed) (hc : s.calls[k]? = some c)
    (hrun : c.Running) (hj : (c.request.requestId, j) ∈ s.inFlight) : j = k :=
  hk.eq hj <| (h _ k).mpr ⟨c, hc, hrun, trivial, rfl⟩

-- A call before and after a step that takes calls out of the table.
structure Kin (A : Prop) (c d : Call R) : Prop where
  request  : d.request = c.request
  admitted : d.admitted = c.admitted
  settled  : d.settled = c.settled
  aborted  : d.aborted = none ↔ c.aborted = none ∧ ¬A

theorem Kin.running {A : Prop} {c d : Call R} (h : Kin A c d) : d.Running ↔ c.Running := by
  rw [Call.Running, h.admitted, h.settled, Call.Running]

theorem Halts.kin_of_get (h : Halts A s t) {k : Nat} {c : Call R} (hc : s.calls[k]? = some c) :
    ∃ d, t.calls[k]? = some d ∧ Kin (A k) c d := by
  have ⟨f, hf, hfc⟩ := h.calls
  have ⟨hreq, had, hset, hab⟩ := hfc k c hc
  exact ⟨f k c, by rw [hf, hc, Option.map_some], hreq, had, hset, hab⟩

theorem Halts.kin_of_get' (h : Halts A s t) {k : Nat} {d : Call R} (hd : t.calls[k]? = some d) :
    ∃ c, s.calls[k]? = some c ∧ Kin (A k) c d := by
  have ⟨f, hf, _⟩ := h.calls
  rw [hf] at hd
  have ⟨c, hc, _⟩ := Option.map_eq_some_iff.mp hd
  have ⟨d', hd', hkin⟩ := h.kin_of_get hc
  rw [hf, hd] at hd'
  cases hd'
  exact ⟨c, hc, hkin⟩

theorem Keyed.submit (h : s.Keyed) : (s.submit call decision now).Keyed := by
  rcases submit_cases s call decision now with ⟨_, heq⟩ | ⟨_, hnew, heq⟩
  · rw [heq]
    refine ⟨h.nodup, fun i k hm => ?_⟩
    have ⟨c, hc, hi⟩ := h.named i k hm
    exact ⟨c, getElem?_concat.mpr <| .inl hc, hi⟩
  · rw [heq]
    constructor
    case nodup =>
      rw [List.map_append, List.nodup_append]
      refine ⟨h.nodup, List.nodup_singleton _, ?_⟩
      rintro i hi j hj rfl
      have ⟨q, hq, hqi⟩ := List.mem_map.mp hi
      have hj : i = call.requestId := List.mem_singleton.mp hj
      have : s.has call.requestId := List.any_eq_true.mpr ⟨q, hq, by simp [hqi, hj]⟩
      rw [hnew] at this
      cases this
    case named =>
      intro i k hm
      rcases List.mem_append.mp hm with hm | hm
      · have ⟨c, hc, hi⟩ := h.named i k hm
        exact ⟨c, getElem?_concat.mpr <| .inl hc, hi⟩
      · cases List.mem_singleton.mp hm
        exact ⟨_, getElem?_concat.mpr <| .inr ⟨rfl, rfl⟩, rfl⟩

theorem Keyed.complete (h : s.Keyed) : (s.complete k outcome).Keyed := by
  rcases complete_cases s k outcome with heq | ⟨_, _, _, heq⟩
  · rwa [heq]
  · rw [heq]
    refine ⟨h.nodup.sublist <| List.filter_sublist.map _, fun i j hm => ?_⟩
    have ⟨c, hc, hi⟩ := h.named i j <| List.mem_of_mem_filter hm
    refine ⟨_, (List.getElem?_modify ..).trans <| congrArg _ hc, ?_⟩
    split <;> exact hi

theorem Keyed.halts (h : s.Keyed) (hs : Halts A s t) : t.Keyed := by
  refine ⟨h.nodup.sublist <| hs.sublist.map _, fun i k hm => ?_⟩
  have ⟨c, hc, hi⟩ := h.named i k <| hs.sublist.subset hm
  have ⟨d, hd, hkin⟩ := hs.kin_of_get hc
  exact ⟨d, hd, hkin.request ▸ hi⟩

theorem Halts.tracks (h : Halts A s t) (hs : s.Tracks (·.aborted = none)) :
    t.Tracks (·.aborted = none) := by
  intro i k
  rw [h.inFlight, hs i k]
  constructor
  · rintro ⟨⟨c, hc, hrun, hab, hid⟩, hA⟩
    have ⟨d, hd, hkin⟩ := h.kin_of_get hc
    exact ⟨d, hd, hkin.running.mpr hrun, hkin.aborted.mpr ⟨hab, hA⟩, hkin.request ▸ hid⟩
  · rintro ⟨d, hd, hrun, hab, hid⟩
    have ⟨c, hc, hkin⟩ := h.kin_of_get' hd
    have ⟨hab, hA⟩ := hkin.aborted.mp hab
    exact ⟨⟨c, hc, hkin.running.mp hrun, hab, hkin.request ▸ hid⟩, hA⟩

-- The table stays exact if and only if nothing is taken out of it.
theorem Halts.tracks_iff (h : Halts A s t) (hs : s.Tracks fun _ => True) :
    (t.Tracks fun _ => True) ↔ ∀ i k, (i, k) ∈ s.inFlight → ¬A k := by
  constructor
  · intro ht i k hm hA
    have ⟨c, hc, hrun, _, hid⟩ := (hs i k).mp hm
    have ⟨d, hd, hkin⟩ := h.kin_of_get hc
    have := (ht i k).mpr ⟨d, hd, hkin.running.mpr hrun, trivial, hkin.request ▸ hid⟩
    exact ((h.inFlight i k).mp this).right hA
  · intro hA i k
    rw [h.inFlight, and_iff_left_of_imp (hA i k), hs i k]
    constructor
    · rintro ⟨c, hc, hrun, _, hid⟩
      have ⟨d, hd, hkin⟩ := h.kin_of_get hc
      exact ⟨d, hd, hkin.running.mpr hrun, trivial, hkin.request ▸ hid⟩
    · rintro ⟨d, hd, hrun, _, hid⟩
      have ⟨c, hc, hkin⟩ := h.kin_of_get' hd
      exact ⟨c, hc, hkin.running.mp hrun, trivial, hkin.request ▸ hid⟩

end Steps

end Core
end Broker
