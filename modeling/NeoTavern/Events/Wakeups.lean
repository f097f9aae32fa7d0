import NeoTavern.Events.Store

namespace Events

variable {N P : Type} [DecidableEq N]

namespace Waiters

variable {w : Waiters N} {name m : N} {i j : Nat}

theorem waitersOf_set {ids : List Nat} {count : Int} :
    waitersOf { byEvent := Assoc.set w.byEvent name ids, count } m =
      if m = name then ids else w.waitersOf m := by
  rw [waitersOf]
  dsimp only
  split
  case isTrue h  => rw [h, Assoc.get_set_self, Option.getD_some]
  case isFalse h => rw [Assoc.get_set_of_ne h, waitersOf]

theorem waitersOf_register :
    (w.register name i).waitersOf m = if m = name then w.waitersOf name ++ [i] else w.waitersOf m :=
  waitersOf_set

theorem waitersOf_cleanup :
    (w.cleanup name i).waitersOf m = if m = name then (w.waitersOf name).erase i else w.waitersOf m := by
  cases hget : Assoc.get w.byEvent name
  case none     =>
    have hnone : w.waitersOf name = [] := by rw [waitersOf, hget, Option.getD_none]
    rw [cleanup, hget]
    dsimp only
    split
    case isTrue h => rw [h, hnone, List.erase_nil]
    case isFalse  => rfl
  case some ids =>
    have hsome : w.waitersOf name = ids := by rw [waitersOf, hget, Option.getD_some]
    rw [cleanup, hget]
    dsimp only
    split
    case isTrue hempty =>
      rw [waitersOf]
      dsimp only
      split
      case isTrue h  =>
        rw [h, Assoc.get_delete_self, Option.getD_none, hsome, List.isEmpty_iff.mp hempty]
      case isFalse h => rw [Assoc.get_delete_of_ne h, waitersOf]
    case isFalse       => rw [waitersOf_set, hsome]

theorem waitersOf_clear :
    (w.clear name).waitersOf m = if m = name then [] else w.waitersOf m := by
  rw [clear]
  split
  case h_1 hget =>
    split
    case isTrue h => rw [h, waitersOf, hget, Option.getD_none]
    case isFalse  => rfl
  case h_2      => exact waitersOf_set

-- The host counts what is in its sets, and no set contains a waiter twice.
structure Counted (w : Waiters N) : Prop where
  keys  : (w.byEvent.map (·.fst)).Nodup
  nodup : ∀ name, (w.waitersOf name).Nodup
  count : w.count = Assoc.sum List.length w.byEvent

theorem elim_length : (Assoc.get w.byEvent name).elim 0 List.length = (w.waitersOf name).length := by
  rw [waitersOf]
  cases Assoc.get w.byEvent name
  · rfl
  · rfl

namespace Counted

theorem initial : Counted ({} : Waiters N) where
  keys  := List.nodup_nil
  nodup := fun _ => List.nodup_nil
  count := rfl

theorem register (h : w.Counted) (hi : i ∉ w.waitersOf name) : (w.register name i).Counted := by
  constructor
  case keys  => exact Assoc.nodup_set h.keys
  case nodup =>
    intro m
    rw [waitersOf_register]
    split
    case isTrue  =>
      rw [List.nodup_append]
      refine ⟨h.nodup name, List.nodup_singleton _, fun j hj k hk => ?_⟩
      rw [List.mem_singleton.mp hk]
      exact fun heq => hi <| heq ▸ hj
    case isFalse => exact h.nodup m
  case count =>
    have hsum := Assoc.sum_set (k := name) (v := w.waitersOf name ++ [i]) (f := List.length) h.keys
    have hcount := h.count
    rw [elim_length, List.length_append, List.length_singleton] at hsum
    rw [Waiters.register]
    dsimp only
    omega

theorem cleanup (h : w.Counted) (hi : i ∈ w.waitersOf name) : (w.cleanup name i).Counted := by
  have hnodup (m : N) : ((w.cleanup name i).waitersOf m).Nodup := by
    rw [waitersOf_cleanup]
    split
    · exact (h.nodup name).erase i
    · exact h.nodup m
  have hcount := h.count
  have hlength := List.length_erase_of_mem hi
  have hpos := List.length_pos_of_mem hi
  cases hget : Assoc.get w.byEvent name
  case none     =>
    rw [waitersOf, hget] at hi
    cases hi
  case some ids =>
    have hids : w.waitersOf name = ids := by rw [waitersOf, hget, Option.getD_some]
    rw [hids] at hlength hpos
    rw [Waiters.cleanup, hget] at hnodup ⊢
    dsimp only at hnodup ⊢
    split at hnodup
    case isTrue hempty =>
      have hsum := Assoc.sum_delete (k := name) (f := List.length) h.keys
      rw [hget, Option.elim_some] at hsum
      rw [List.isEmpty_iff.mp hempty, List.length_nil] at hlength
      rw [if_pos hempty]
      refine ⟨Assoc.nodup_delete h.keys, hnodup, ?_⟩
      dsimp only
      omega
    case isFalse hne   =>
      have hsum := Assoc.sum_set (k := name) (v := ids.erase i) (f := List.length) h.keys
      rw [hget, Option.elim_some] at hsum
      rw [if_neg hne]
      refine ⟨Assoc.nodup_set h.keys, hnodup, ?_⟩
      dsimp only
      omega

theorem clear (h : w.Counted) (hempty : w.waitersOf name = []) : (w.clear name).Counted := by
  have hnodup (m : N) : ((w.clear name).waitersOf m).Nodup := by
    rw [waitersOf_clear]
    split
    · exact List.nodup_nil
    · exact h.nodup m
  have hcount := h.count
  rw [Waiters.clear] at hnodup ⊢
  split at hnodup
  case h_1          => exact h
  case h_2          =>
    have hsum := Assoc.sum_set (k := name) (v := ([] : List Nat)) (f := List.length) h.keys
    rw [elim_length, hempty, List.length_nil] at hsum
    refine ⟨Assoc.nodup_set h.keys, hnodup, ?_⟩
    dsimp only
    omega

end Counted
end Waiters

-- The sets contain just the readers that wait.
structure Registered (w : Waiters N) (readers : List (Reader N P)) : Prop where
  counted : w.Counted
  mem     : ∀ name i, i ∈ w.waitersOf name ↔
    ∃ r, readers[i]? = some r ∧ r.name = name ∧ r.phase.isWaiting = true

namespace Registered

variable {w : Waiters N} {readers : List (Reader N P)} {r r' : Reader N P} {i j : Nat} {name : N}

theorem initial : Registered ({} : Waiters N) ([] : List (Reader N P)) where
  counted := Waiters.Counted.initial
  mem     := by simp [Waiters.waitersOf]

-- A reader that goes on to wait or not to wait makes no difference.
theorem put (h : Registered w readers) (hr : readers[i]? = some r) (hname : r'.name = r.name)
    (hphase : r'.phase.isWaiting = r.phase.isWaiting) : Registered w (readers.set i r') := by
  refine ⟨h.counted, fun name j => (h.mem name j).trans ?_⟩
  by_cases hj : i = j
  case pos =>
    subst hj
    rw [hr, List.getElem?_set_self (List.getElem?_eq_some_iff.mp hr).fst]
    simp [hname, hphase]
  case neg => rw [List.getElem?_set_ne hj]

theorem append (h : Registered w readers) (hnew : r.phase.isWaiting = false) :
    Registered w (readers ++ [r]) := by
  refine ⟨h.counted, fun name j => (h.mem name j).trans ?_⟩
  rw [List.getElem?_append]
  split
  case isTrue      => rfl
  case isFalse hge =>
    rw [List.getElem?_eq_none (Nat.le_of_not_lt hge)]
    refine iff_of_false (by simp) ?_
    intro ⟨x, hx, _, hw⟩
    have hmem := List.mem_of_getElem? hx
    rw [List.mem_singleton.mp hmem, hnew] at hw
    cases hw

theorem register (r' : Reader N P) (h : Registered w readers) (hr : readers[i]? = some r)
    (hold : r.phase.isWaiting = false) (hnew : r'.phase.isWaiting = true) :
    Registered (w.register r'.name i) (readers.set i r') := by
  have hnot (m : N) : i ∉ w.waitersOf m := by
    rw [h.mem]
    intro ⟨x, hx, _, hw⟩
    rw [hr] at hx
    rw [← Option.some.inj hx, hold] at hw
    cases hw
  have hlt := (List.getElem?_eq_some_iff.mp hr).fst
  refine ⟨h.counted.register <| hnot _, fun m j => ?_⟩
  rw [Waiters.waitersOf_register]
  by_cases hj : i = j
  case pos =>
    subst hj
    rw [List.getElem?_set_self hlt]
    split
    case isTrue heq  => exact iff_of_true (by simp) ⟨r', rfl, heq.symm, hnew⟩
    case isFalse hne =>
      refine iff_of_false (hnot m) fun ⟨x, hx, hm, _⟩ => hne ?_
      rw [← hm, ← Option.some.inj hx]
  case neg =>
    rw [List.getElem?_set_ne hj, ← h.mem]
    split
    case isTrue heq  => simp [heq, Ne.symm hj]
    case isFalse hne => rfl

theorem cleanup (h : Registered w readers) (hr : readers[i]? = some r)
    (hold : r.phase.isWaiting = true) (hnew : r'.phase.isWaiting = false) :
    Registered (w.cleanup r.name i) (readers.set i r') := by
  have hlt := (List.getElem?_eq_some_iff.mp hr).fst
  have hmem : i ∈ w.waitersOf r.name := (h.mem _ _).mpr ⟨r, hr, rfl, hold⟩
  refine ⟨h.counted.cleanup hmem, fun m j => ?_⟩
  rw [Waiters.waitersOf_cleanup]
  by_cases hj : i = j
  case pos =>
    subst hj
    rw [List.getElem?_set_self hlt]
    refine iff_of_false ?_ ?_
    · split
      case isTrue      => exact (h.counted.nodup r.name).not_mem_erase
      case isFalse hne =>
        rw [h.mem]
        intro ⟨x, hx, hm, _⟩
        rw [hr] at hx
        rw [← Option.some.inj hx] at hm
        exact hne hm.symm
    · intro ⟨x, hx, _, hw⟩
      rw [← Option.some.inj hx, hnew] at hw
      cases hw
  case neg =>
    rw [List.getElem?_set_ne hj, ← h.mem]
    split
    case isTrue heq => rw [heq, List.mem_erase_of_ne (Ne.symm hj)]
    case isFalse    => rfl

theorem clear (h : Registered w readers) (hempty : w.waitersOf name = []) :
    Registered (w.clear name) readers := by
  refine ⟨h.counted.clear hempty, fun m j => ?_⟩
  rw [← h.mem, Waiters.waitersOf_clear]
  split
  case isTrue heq => rw [heq, hempty]
  case isFalse    => rfl

end Registered

namespace Host

variable {h : Host N P} {i j : Nat} {name : N} {p : Phase N} {ids : List Nat} {payload : P} {t t' : Int}

-- A host whose waiters are in order.
abbrev Awake (h : Host N P) : Prop :=
  Registered h.waiters h.readers

theorem settle_frame : (h.settle i p).eventStates = h.eventStates ∧
    (h.settle i p).emitted = h.emitted ∧ (h.settle i p).evictions = h.evictions := by
  rw [settle]
  split
  case h_1 => exact ⟨rfl, rfl, rfl⟩
  case h_2 =>
    split
    · exact ⟨rfl, rfl, rfl⟩
    · exact ⟨rfl, rfl, rfl⟩

theorem settle_readers : (h.settle i p).readers[j]? = h.readers[j]?.map fun r =>
    if j = i && r.phase.isWaiting then { r with phase := p } else r := by
  rw [settle]
  split
  case h_1 hi =>
    cases hj : h.readers[j]?
    case none   => rfl
    case some r =>
      have hne : j ≠ i := by
        rintro rfl
        rw [hi] at hj
        cases hj
      simp [hne]
  case h_2 r hi =>
    split
    case isTrue hw   =>
      rw [put]
      dsimp only
      by_cases hj : i = j
      case pos =>
        subst hj
        rw [List.getElem?_set_self (List.getElem?_eq_some_iff.mp hi).fst, hi]
        simp [hw]
      case neg =>
        rw [List.getElem?_set_ne hj]
        simp [Ne.symm hj]
    case isFalse hno =>
      by_cases hj : i = j
      case pos =>
        subst hj
        rw [hi]
        simp [hno]
      case neg => simp [Ne.symm hj]

theorem Awake.settle (ha : h.Awake) (hphase : p.isWaiting = false) : (h.settle i p).Awake := by
  rw [Host.settle]
  split
  case h_1      => exact ha
  case h_2 r hr =>
    split
    case isTrue hw => exact Registered.cleanup ha hr hw hphase
    case isFalse   => exact ha

theorem settleAll_frame : (ids.foldl (fun h i => h.settle i p) h).eventStates = h.eventStates ∧
    (ids.foldl (fun h i => h.settle i p) h).emitted = h.emitted ∧
    (ids.foldl (fun h i => h.settle i p) h).evictions = h.evictions := by
  induction ids generalizing h
  case nil           => exact ⟨rfl, rfl, rfl⟩
  case cons i ids ih =>
    have ⟨hs, he, hv⟩ := settle_frame (h := h) (i := i) (p := p)
    have ih := ih (h := h.settle i p)
    rwa [hs, he, hv] at ih

theorem settleAll_readers (hphase : p.isWaiting = false) :
    (ids.foldl (fun h i => h.settle i p) h).readers[j]? = h.readers[j]?.map fun r =>
      if j ∈ ids ∧ r.phase.isWaiting = true then { r with phase := p } else r := by
  induction ids generalizing h
  case nil           => simp
  case cons i ids ih =>
    rw [List.foldl_cons, ih, settle_readers, Option.map_map]
    congr 1
    funext r
    by_cases hw : r.phase.isWaiting = true
    case pos =>
      by_cases hj : j = i
      case pos => simp [hj, hw, hphase]
      case neg => simp [hj, hw]
    case neg => simp [hw]

theorem Awake.settleAll (ha : h.Awake) (hphase : p.isWaiting = false) :
    (ids.foldl (fun h i => h.settle i p) h).Awake := by
  induction ids generalizing h
  case nil           => exact ha
  case cons i ids ih => exact ih <| ha.settle hphase

-- What an emit under a name does to a reader.
def woken (name : N) (r : Reader N P) : Reader N P :=
  if r.name = name ∧ r.phase.isWaiting = true then { r with phase := .woken } else r

theorem woken_isWaiting {r : Reader N P} (hr : (woken name r).phase.isWaiting = true) :
    (woken name r).name ≠ name := by
  rw [woken] at hr ⊢
  split at hr
  case isTrue       => cases hr
  case isFalse hnot =>
    rw [if_neg hnot]
    exact fun hname => hnot ⟨hname, hr⟩

-- All that wait for the name go on, and nobody else does.
theorem Awake.resolveWaiters (name : N) (ha : h.Awake) : (h.resolveWaiters name).Awake ∧
    (∀ j : Nat, (h.resolveWaiters name).readers[j]? = h.readers[j]?.map (woken name)) ∧
    (h.resolveWaiters name).eventStates = h.eventStates ∧
    (h.resolveWaiters name).emitted = h.emitted ∧ (h.resolveWaiters name).evictions = h.evictions := by
  have hreaders (j : Nat) : ((h.waiters.waitersOf name).foldl (fun h i => h.settle i .woken) h).readers[j]? =
      h.readers[j]?.map (woken name) := by
    rw [settleAll_readers rfl]
    cases hj : h.readers[j]?
    case none   => rfl
    case some r =>
      have hiff : j ∈ h.waiters.waitersOf name ∧ r.phase.isWaiting = true ↔
          r.name = name ∧ r.phase.isWaiting = true := by
        rw [ha.mem, hj]
        constructor
        case mp  =>
          intro ⟨⟨x, hx, hname, _⟩, hw⟩
          exact ⟨Option.some.inj hx ▸ hname, hw⟩
        case mpr =>
          intro ⟨hname, hw⟩
          exact ⟨⟨r, rfl, hname, hw⟩, hw⟩
      exact congrArg some <| if_congr hiff rfl rfl
  have hawake : ((h.waiters.waitersOf name).foldl (fun h i => h.settle i .woken) h).Awake := ha.settleAll rfl
  rw [Host.resolveWaiters]
  dsimp only
  split
  case isTrue      =>
    have hempty : ((h.waiters.waitersOf name).foldl (fun h i => h.settle i .woken) h).waiters.waitersOf name =
        [] := by
      refine List.eq_nil_iff_forall_not_mem.mpr fun j hj => ?_
      have ⟨x, hx, hname, hw⟩ := (hawake.mem _ _).mp hj
      rw [hreaders] at hx
      have ⟨r, _, heq⟩ := Option.map_eq_some_iff.mp hx
      rw [← heq] at hname hw
      exact woken_isWaiting hw hname
    exact ⟨Registered.clear hawake hempty, hreaders, settleAll_frame⟩
  case isFalse hno =>
    have hnil : h.waiters.waitersOf name = [] := List.length_eq_zero_iff.mp <| Nat.eq_zero_of_not_pos hno
    rw [hnil] at hreaders
    exact ⟨ha, hreaders, rfl, rfl, rfl⟩

end Host
end Events
