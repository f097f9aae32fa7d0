import Mathlib
import NeoTavern.Lib.Runs
import NeoTavern.Governor.Process

namespace Governor

namespace ResourceGovernor

variable {config : Config} {g : ResourceGovernor} {id : String} {i j o : Nat} {p : PluginProcessState}
  {f : PluginProcessState → PluginProcessState} {r : Reason} {m : Option Measurement}

-- The map has the process of a plugin at a place.
def Holds (g : ResourceGovernor) (i : Nat) (id : String) (o : Nat) : Prop :=
  g.slots[i]? = some (some (id, o))

-- The map has one entry at most for each plugin, and each entry refers to a state of the plugin.
structure Mapped (g : ResourceGovernor) : Prop where
  valid  : ∀ i id o, g.Holds i id o → ∃ p, g.objects[o]? = some p ∧ p.pluginId = id
  unique : ∀ i j id o o', g.Holds i id o → g.Holds j id o' → i = j

theorem registered_iff (hm : g.Mapped) : g.registered id = some o ↔ ∃ i, g.Holds i id o := by
  constructor
  case mp  =>
    intro h
    have ⟨slot, hmem, hslot⟩ := List.exists_of_findSome?_eq_some h
    have ⟨i, hi⟩ := List.mem_iff_getElem?.mp hmem
    have ⟨⟨id', o'⟩, hentry, heq⟩ := Option.bind_eq_some_iff.mp hslot
    dsimp only at heq
    split at heq
    case isTrue hid =>
      refine ⟨i, ?_⟩
      rw [Holds, hi, hentry, ← hid, Option.some.inj heq]
    case isFalse    => cases heq
  case mpr =>
    intro ⟨i, hi⟩
    cases hfind : g.registered id
    case none    =>
      rw [registered, List.findSome?_eq_none_iff] at hfind
      have := hfind _ <| List.mem_of_getElem? hi
      simp at this
    case some o' =>
      have ⟨slot, hmem, hslot⟩ := List.exists_of_findSome?_eq_some hfind
      have ⟨j, hj⟩ := List.mem_iff_getElem?.mp hmem
      have ⟨⟨id', o''⟩, hentry, heq⟩ := Option.bind_eq_some_iff.mp hslot
      dsimp only at heq
      split at heq
      case isTrue hid =>
        have hother : g.Holds j id o' := by rw [Holds, hj, hentry, ← hid, Option.some.inj heq]
        have hij := hm.unique i j id o o' hi hother
        rw [Holds, hij, hother] at hi
        simpa using hi
      case isFalse    => cases heq

theorem mem_processes : (o, p) ∈ g.processes ↔ g.objects[o]? = some p ∧ ∃ i id, g.Holds i id o := by
  rw [processes, List.mem_filterMap]
  constructor
  case mp  =>
    intro ⟨slot, hmem, hslot⟩
    have ⟨i, hi⟩ := List.mem_iff_getElem?.mp hmem
    have ⟨⟨id, o'⟩, hentry, hmap⟩ := Option.bind_eq_some_iff.mp hslot
    have ⟨q, hq, heq⟩ := Option.map_eq_some_iff.mp hmap
    injection heq with ho hp
    subst ho hp
    exact ⟨hq, i, id, by rw [Holds, hi, hentry]⟩
  case mpr =>
    intro ⟨hp, i, id, hi⟩
    exact ⟨some (id, o), List.mem_of_getElem? hi, by simp [hp]⟩

namespace Mapped

theorem registerProcess (hm : g.Mapped) (info : GovernedProcessInfo) : (g.registerProcess info).Mapped := by
  have hnew : (g.registerProcess info).objects = g.objects ++ [{ toGovernedProcessInfo := info }] := rfl
  have hold (o : Nat) (p : PluginProcessState) (h : g.objects[o]? = some p) :
      (g.registerProcess info).objects[o]? = some p := by
    rw [hnew, List.getElem?_append_left (List.getElem?_eq_some_iff.mp h).fst, h]
  have hlast : (g.registerProcess info).objects[g.objects.length]? =
      some { toGovernedProcessInfo := info } := by
    rw [hnew, List.getElem?_append_right (Nat.le_refl _), Nat.sub_self, List.getElem?_cons_zero]
  -- Each entry is the new one or was there before, and the new one takes the place of the old one.
  have hcases : ∃ k, ∀ j id o, (g.registerProcess info).Holds j id o ↔
      (j = k ∧ id = info.pluginId ∧ o = g.objects.length) ∨
      (j ≠ k ∧ id ≠ info.pluginId ∧ g.Holds j id o) := by
    cases hfind : g.slots.findIdx? (·.any (·.fst = info.pluginId))
    case some k =>
      have ⟨hlt, hany, _⟩ := List.findIdx?_eq_some_iff_getElem.mp hfind
      have ⟨⟨l, o'⟩, hentry, hid⟩ := (Option.any_eq_true ..).mp hany
      have hid : l = info.pluginId := by simpa using hid
      have hk : g.Holds k info.pluginId o' := by rw [Holds, List.getElem?_eq_getElem hlt, hentry, hid]
      refine ⟨k, fun j id o => ?_⟩
      rw [Holds, ResourceGovernor.registerProcess, hfind]
      dsimp only
      by_cases hj : k = j
      case pos =>
        subst hj
        rw [List.getElem?_set_self hlt]
        simp [eq_comm]
      case neg =>
        rw [List.getElem?_set_ne hj]
        refine ⟨fun h => .inr ⟨Ne.symm hj, ?_, h⟩, ?_⟩
        · rintro rfl
          exact hj <| hm.unique k j _ o' o hk h
        · rintro (⟨heq, _⟩ | ⟨_, _, h⟩)
          · exact absurd heq.symm hj
          · exact h
    case none =>
      rw [List.findIdx?_eq_none_iff] at hfind
      refine ⟨g.slots.length, fun j id o => ?_⟩
      have hother (h : g.Holds j id o) : id ≠ info.pluginId := by
        simpa using hfind _ <| List.mem_of_getElem? h
      rw [Holds, ResourceGovernor.registerProcess, List.findIdx?_eq_none_iff.mpr hfind]
      dsimp only
      rcases Nat.lt_trichotomy j g.slots.length with hj | hj | hj
      · rw [List.getElem?_append_left hj]
        refine ⟨fun h => .inr ⟨Nat.ne_of_lt hj, hother h, h⟩, ?_⟩
        rintro (⟨heq, _⟩ | ⟨_, _, h⟩)
        · exact absurd heq <| Nat.ne_of_lt hj
        · exact h
      · subst hj
        rw [List.getElem?_append_right (Nat.le_refl _), Nat.sub_self, List.getElem?_cons_zero]
        simp [eq_comm]
      · rw [List.getElem?_eq_none (by rw [List.length_append]; exact hj)]
        refine iff_of_false (by simp) ?_
        rintro (⟨heq, _⟩ | ⟨_, _, h⟩)
        · exact absurd heq <| Nat.ne_of_gt hj
        · rw [Holds, List.getElem?_eq_none (Nat.le_of_lt hj)] at h
          cases h
  have ⟨k, hk⟩ := hcases
  constructor
  case valid  =>
    intro i id o h
    rcases (hk i id o).mp h with ⟨_, rfl, rfl⟩ | ⟨_, _, h⟩
    · exact ⟨_, hlast, rfl⟩
    · have ⟨p, hp, hid⟩ := hm.valid i id o h
      exact ⟨p, hold o p hp, hid⟩
  case unique =>
    intro i j id o o' h h'
    rcases (hk i id o).mp h with ⟨rfl, hid, _⟩ | ⟨_, hid, h⟩
    · rcases (hk j id o').mp h' with ⟨rfl, _⟩ | ⟨_, hne, _⟩
      · rfl
      · exact absurd hid hne
    · rcases (hk j id o').mp h' with ⟨_, heq, _⟩ | ⟨_, _, h'⟩
      · exact absurd heq hid
      · exact hm.unique i j id o o' h h'

theorem unregisterProcess (hm : g.Mapped) (id : String) : (g.unregisterProcess id).Mapped := by
  have hkeep (i : Nat) (l : String) (o : Nat) (h : (g.unregisterProcess id).Holds i l o) : g.Holds i l o := by
    rw [Holds, ResourceGovernor.unregisterProcess, List.getElem?_map, Option.map_eq_some_iff] at h
    have ⟨slot, hslot, hfilter⟩ := h
    rw [Holds, hslot, (Option.filter_eq_some_iff.mp hfilter).left]
  constructor
  case valid  => exact fun i l o h => hm.valid i l o <| hkeep i l o h
  case unique => exact fun i j l o o' h h' => hm.unique i j l o o' (hkeep i l o h) (hkeep j l o' h')

theorem update (hm : g.Mapped) (hf : ∀ p, g.objects[o]? = some p → (f p).pluginId = p.pluginId) :
    (g.update o f).Mapped := by
  refine ⟨fun i id l h => ?_, hm.unique⟩
  have ⟨p, hp, hid⟩ := hm.valid i id l h
  rw [ResourceGovernor.update, List.getElem?_modify, hp]
  by_cases hl : o = l
  case pos => exact ⟨f p, by simp [hl], (hf p <| hl ▸ hp).trans hid⟩
  case neg => exact ⟨p, by simp [hl], hid⟩

end Mapped
end ResourceGovernor

-- All memory that has been measured is at the hard limit of the plugins or of the process tree.
def Measurement.TooMuch (config : Config) (m : Measurement) : Prop :=
  config.aggregateRssHardMiB * mib ≤ m.aggregateRssBytes ∨
    config.processTreeRssHardMiB * mib ≤ m.treeRssBytes

-- The process that is registered has been above a limit of its own for as many samples as are
-- configured, or it is above its hard limit when all memory that has been measured is too much.
def Termination.Justified (config : Config) (t : Termination) : Prop :=
  ∃ p, t.process = some p ∧
    (p.Sustained config ∨ ∃ m, t.measurement = some m ∧ m.TooMuch config ∧ p.overRss = true)

namespace ResourceGovernor

variable {config : Config} {g g' : ResourceGovernor} {id : String} {i j o : Nat} {p : PluginProcessState}
  {f : PluginProcessState → PluginProcessState} {r : Reason} {m : Option Measurement}

-- The governor terminates for cause only, and once for each registration at most.
structure Lawful (config : Config) (g : ResourceGovernor) : Prop where
  caused : ∀ t ∈ g.terminations, t.Justified config
  once   : (g.terminations.map (·.registration)).Nodup

structure Sound (config : Config) (g : ResourceGovernor) : Prop where
  mapped  : g.Mapped
  counted : ∀ (o : Nat) (p : PluginProcessState), g.objects[o]? = some p → p.terminated = false → p.Counted
  known   : ∀ t ∈ g.terminations, ∀ o : Nat, t.registration = some o →
    ∃ p, g.objects[o]? = some p ∧ p.terminated = true
  lawful  : g.Lawful config

namespace Sound

theorem initial (t : ℚ) : Sound config { lastSampleAt := t } where
  mapped  := ⟨fun _ _ _ h => by simp [Holds] at h, fun _ _ _ _ _ h => by simp [Holds] at h⟩
  counted := fun _ _ h => by simp at h
  known   := fun _ h => nomatch h
  lawful  := ⟨fun _ h => (nomatch h), List.nodup_nil⟩

theorem congr (hs : g.Sound config) (hobjects : g'.objects = g.objects) (hslots : g'.slots = g.slots)
    (hcalls : g'.terminations = g.terminations) : g'.Sound config := by
  obtain ⟨⟨hvalid, hunique⟩, hcounted, hknown, hcaused, honce⟩ := hs
  simp only [Holds, ← hobjects, ← hslots, ← hcalls] at hvalid hunique hcounted hknown hcaused honce
  exact ⟨⟨hvalid, hunique⟩, hcounted, hknown, hcaused, honce⟩

theorem update (hs : g.Sound config)
    (hf : ∀ p, g.objects[o]? = some p → p.Follows (f p) ∧ ((f p).terminated = false → (f p).Counted)) :
    (g.update o f).Sound config := by
  refine ⟨hs.mapped.update fun p hp => (hf p hp).left.pluginId, fun l q hq hnot => ?_, fun t ht l hl => ?_,
    hs.lawful.caused, hs.lawful.once⟩
  · rw [ResourceGovernor.update, List.getElem?_modify] at hq
    have ⟨p, hp, heq⟩ := Option.map_eq_some_iff.mp hq
    split at heq
    case isTrue hl =>
      subst heq
      exact (hf p <| hl ▸ hp).right hnot
    case isFalse   =>
      subst heq
      exact hs.counted l p hp hnot
  · have ⟨p, hp, hterminated⟩ := hs.known t ht l hl
    rw [ResourceGovernor.update, List.getElem?_modify, hp]
    by_cases ho : o = l
    case pos => exact ⟨f p, by simp [ho], (hf p <| ho ▸ hp).left.terminated hterminated⟩
    case neg => exact ⟨p, by simp [ho], hterminated⟩

-- A call for the process that is registered, made for the first time.
theorem onTerminate (hs : g.Sound config) (hreg : g.registered id = some o) (hp : g.objects[o]? = some p)
    (hterminated : p.terminated = true) (hfirst : ∀ t ∈ g.terminations, t.registration ≠ some o)
    (hcause : p.Sustained config ∨ ∃ k, m = some k ∧ k.TooMuch config ∧ p.overRss = true) :
    (g.onTerminate id r m).Sound config := by
  refine ⟨⟨hs.mapped.valid, hs.mapped.unique⟩, hs.counted, fun t ht l hl => ?_, fun t ht => ?_, ?_⟩
  · rcases List.mem_append.mp ht with ht | ht
    · exact hs.known t ht l hl
    · rw [List.mem_singleton.mp ht] at hl
      have heq : o = l := Option.some.inj <| hreg.symm.trans hl
      exact ⟨p, heq ▸ hp, hterminated⟩
  · rcases List.mem_append.mp ht with ht | ht
    · exact hs.lawful.caused t ht
    · rw [List.mem_singleton.mp ht]
      exact ⟨p, by simp [hreg, hp], hcause⟩
  · rw [ResourceGovernor.onTerminate, List.map_append, List.map_singleton, List.nodup_append]
    refine ⟨hs.lawful.once, List.nodup_singleton _, fun l hl l' hl' => ?_⟩
    have ⟨t, ht, heq⟩ := List.mem_map.mp hl
    rw [List.mem_singleton.mp hl', ← heq]
    exact hreg ▸ hfirst t ht

theorem registerProcess (hs : g.Sound config) (info : GovernedProcessInfo) :
    (g.registerProcess info).Sound config := by
  have hnew : (g.registerProcess info).objects = g.objects ++ [{ toGovernedProcessInfo := info }] := rfl
  refine ⟨hs.mapped.registerProcess info, fun l q hq hnot => ?_, fun t ht l hl => ?_,
    hs.lawful.caused, hs.lawful.once⟩
  · rw [hnew, List.getElem?_append] at hq
    split at hq
    case isTrue  => exact hs.counted l q hq hnot
    case isFalse =>
      have heq := List.mem_singleton.mp <| List.mem_of_getElem? hq
      rw [heq]
      exact ⟨rfl, rfl⟩
  · have ⟨p, hp, hterminated⟩ := hs.known t ht l hl
    refine ⟨p, ?_, hterminated⟩
    rw [hnew, List.getElem?_append_left (List.getElem?_eq_some_iff.mp hp).fst, hp]

theorem unregisterProcess (hs : g.Sound config) : (g.unregisterProcess id).Sound config where
  mapped  := hs.mapped.unregisterProcess id
  counted := hs.counted
  known   := hs.known
  lawful  := ⟨hs.lawful.caused, hs.lawful.once⟩

theorem handleUsageReport (hs : g.Sound config) (rss cpu : ℚ) :
    (g.handleUsageReport id rss cpu).Sound config := by
  rw [ResourceGovernor.handleUsageReport]
  split
  case h_1 o _ =>
    refine hs.update fun p hp => ⟨PluginProcessState.report_follows, fun hnot => ?_⟩
    have ⟨_, hterminated, _⟩ := PluginProcessState.report_eq (p := p) (r := rss) (c := cpu)
    exact (hs.counted o p hp <| hterminated ▸ hnot).report
  case h_2     => exact hs

-- A sample that is there in time, of a process with a usage to speak of.
theorem evaluate (hs : g.Sound config) {s : Sampling} {rss cpu : Option ℚ}
    (hreg : ∀ p, g.objects[s.object]? = some p → g.registered p.pluginId = some s.object)
    (husage : ∀ p, g.objects[s.object]? = some p → (p.measured rss cpu).hasUsage s.elapsed = false →
      p.cpuViolationSamples = 0) : (g.evaluate config s rss cpu).Sound config := by
  rw [ResourceGovernor.evaluate]
  split
  case h_1      => exact hs
  case h_2 p hp =>
    have hcounted (h : (p.measured rss cpu).terminated = false) : (p.measured rss cpu).Counted := by
      have hc := hs.counted _ p hp h
      exact ⟨hc.rss, hc.cpu⟩
    have heval := PluginProcessState.evaluateProcess_spec config s.elapsed hcounted (husage p hp)
    generalize (p.measured rss cpu).evaluateProcess config s.elapsed = result at heval
    obtain ⟨q, reason⟩ := result
    dsimp only
    have hfollows : p.Follows q := by
      refine ⟨heval.pluginId, fun ht => ?_⟩
      cases reason
      case none   => exact (heval.unchanged rfl).trans ht
      case some r => exact (heval.requested (by simp)).right
    have hupdate : (g.update s.object fun _ => q).Sound config := by
      refine hs.update fun p' hp' => ?_
      rw [hp] at hp'
      obtain rfl := Option.some.inj hp'
      refine ⟨hfollows, fun hnot => ?_⟩
      cases reason
      case none   => exact heval.counted ((heval.unchanged rfl).symm.trans hnot) rfl
      case some r =>
        rw [(heval.requested (by simp)).right] at hnot
        cases hnot
    cases reason
    case none   => exact hupdate
    case some r =>
      have ⟨hnot, hterminated⟩ := heval.requested (by simp)
      refine hupdate.onTerminate (o := s.object) (p := q) ?_ ?_ hterminated (fun t ht heq => ?_) <|
        .inl <| heval.sustained (by simp)
      · have hid : q.pluginId = p.pluginId := heval.pluginId
        rw [hid]
        exact hreg p hp
      · rw [ResourceGovernor.update, List.getElem?_modify, hp]
        simp
      · have ⟨p', hp', hp'terminated⟩ := hs.known t ht _ heq
        rw [hp] at hp'
        obtain rfl := Option.some.inj hp'
        exact absurd hp'terminated <| by
          have : p.terminated = false := hnot
          simp [this]

end Sound

section Victims

variable {ps : List (Nat × PluginProcessState)} {ratio : ℚ}

theorem worst_concat (x : Nat × PluginProcessState) : worst (ps ++ [x]) =
    match x.snd.ratio with
    | some ratio =>
      if !x.snd.terminated && ratio > (worst ps).snd then (some x.fst, ratio) else worst ps
    | none       => worst ps := by
  rw [worst, List.foldl_append]
  rfl

theorem worst_spec (h : worst ps = (some o, ratio)) :
    ∃ p, (o, p) ∈ ps ∧ p.terminated = false ∧ p.ratio = some ratio := by
  induction ps using List.reverseRecOn
  case nil                     => cases h
  case append_singleton ps x ih =>
    have hlater (h : worst ps = (some o, ratio)) :
        ∃ p, (o, p) ∈ ps ++ [x] ∧ p.terminated = false ∧ p.ratio = some ratio := by
      have ⟨p, hp, hrest⟩ := ih h
      exact ⟨p, List.mem_append_left _ hp, hrest⟩
    rw [worst_concat] at h
    split at h
    case h_1 ratio' hratio =>
      split at h
      case isTrue hyes =>
        injection h with ho hr
        have hnot : x.snd.terminated = false := by simpa using (Bool.and_eq_true_iff.mp hyes).left
        refine ⟨x.snd, ?_, hnot, hr ▸ hratio⟩
        rw [← Option.some.inj ho]
        exact List.mem_append_right _ <| List.mem_singleton_self x
      case isFalse     => exact hlater h
    case h_2               => exact hlater h

theorem overRss_of_ratio (h : p.ratio = some ratio) (hlt : 1 < ratio) : p.overRss = true := by
  have ⟨rss, hrss, heq⟩ := Option.map_eq_some_iff.mp h
  have hpos : (0 : ℚ) < max 1 (p.rssHardMiB * mib) := lt_of_lt_of_le one_pos <| le_max_left ..
  rw [← heq, one_lt_div hpos] at hlt
  rw [PluginProcessState.overRss, hrss, Option.any_some, decide_eq_true_eq]
  exact lt_of_le_of_lt (le_max_right ..) hlt

theorem computeLevel_hard (h : (g.computeLevel config).fst = .hard) :
    (∃ q ∈ g.processes, q.snd.terminated = true) ∨ g.measurement.TooMuch config := by
  rw [computeLevel] at h
  split at h
  case isTrue hany => exact .inl <| List.any_eq_true.mp hany
  case isFalse     =>
    split at h
    case isTrue hmuch =>
      rw [Bool.or_eq_true, decide_eq_true_eq, decide_eq_true_eq] at hmuch
      exact .inr hmuch
    case isFalse      =>
      repeat' split at h
      all_goals cases h

end Victims

-- If a process that has been terminated is still there at the end of a pass, then there is too much
-- memory in all, or nobody else is above a limit.
def Calm (config : Config) (g : ResourceGovernor) (m : Measurement) : Prop :=
  (∃ q ∈ g.processes, q.snd.terminated = true) →
    m.TooMuch config ∨ ∀ q ∈ g.processes, q.snd.terminated = false → q.snd.overRss = false

-- What a pass has measured by its end.
def measured (g : ResourceGovernor) (aggregate : ℚ) (treeSource : Option ℚ) : Measurement :=
  ⟨aggregate, treeSource.elim (g.mainRssBytes + aggregate) (· * mib)⟩

theorem Sound.terminateVictims (hs : g.Sound config)
    (hmuch : g.level = .hard → ∀ q ∈ g.processes, q.snd.terminated = false → q.snd.overRss = true →
      g.measurement.TooMuch config) : g.terminateVictims.Sound config := by
  rw [ResourceGovernor.terminateVictims]
  split
  case isFalse      => exact hs
  case isTrue hhard =>
    split
    case h_2                => exact hs
    case h_1 o ratio hworst =>
      obtain ⟨p, hmem, hnot, hratio⟩ := worst_spec hworst
      obtain ⟨hp, i, id, hi⟩ := mem_processes.mp hmem
      split
      case isFalse    => exact hs
      case isTrue hlt =>
        have hover := overRss_of_ratio hratio hlt
        rw [hp]
        dsimp only
        rw [PluginProcessState.requestTermination, if_neg (by simp [hnot])]
        dsimp only
        obtain ⟨q, hq, hid⟩ := hs.mapped.valid i id o hi
        rw [hp] at hq
        obtain rfl := Option.some.inj hq
        have hupdate : (g.update o fun _ => { p with terminated := true }).Sound config := by
          refine hs.update fun p' hp' => ?_
          rw [hp] at hp'
          obtain rfl := Option.some.inj hp'
          exact ⟨⟨rfl, fun _ => rfl⟩, fun h => by cases h⟩
        refine hupdate.onTerminate (o := o) (p := { p with terminated := true }) ?_ ?_ rfl (fun t ht heq => ?_) <|
          .inr ⟨_, rfl, hmuch hhard _ hmem hnot hover, hover⟩
        · exact (registered_iff hs.mapped).mpr ⟨i, hid ▸ hi⟩
        · rw [ResourceGovernor.update, List.getElem?_modify, hp]
          simp
        · obtain ⟨p', hp', hterminated⟩ := hs.known t ht _ heq
          rw [hp] at hp'
          rw [← Option.some.inj hp', hnot] at hterminated
          cases hterminated

theorem Sound.finish (hs : g.Sound config) (aggregate : ℚ) (treeSource : Option ℚ)
    (hcalm : g.Calm config (g.measured aggregate treeSource)) :
    (g.finish config aggregate treeSource).Sound config := by
  rw [ResourceGovernor.finish]
  refine Sound.terminateVictims (hs.congr rfl rfl rfl) fun hhard q hq hnot hover => ?_
  rcases computeLevel_hard hhard with hterminated | hmuch
  · refine (hcalm hterminated).resolve_right fun hnone => ?_
    rw [hnone q hq hnot] at hover
    cases hover
  · exact hmuch

-- A sample is there while its process is still registered, and leaves no count of the time on the
-- processor as it was. The last one of a pass leaves the governor calm.
structure InTime (config : Config) (g : ResourceGovernor) (s : Sampling) (rss cpu : Option ℚ) : Prop where
  registered : ∀ p ∈ g.objects[s.object]?, g.registered p.pluginId = some s.object
  usage      : ∀ p ∈ g.objects[s.object]?, (p.measured rss cpu).hasUsage s.elapsed = false →
    p.cpuViolationSamples = 0
  calm       : let h := g.evaluate config s rss cpu
    h.next (s.slot + 1) = none →
      h.Calm config (h.measured (s.aggregate + h.rssOf s.object) s.treeSource)

def Orderly (config : Config) (g : ResourceGovernor) : Event → Prop
  | .sample rss cpu =>
    match g.pass with
    | .sampling s => g.InTime config s rss cpu
    | _           => True
  | _               => True

section Decidable

instance (m : Measurement) : Decidable (m.TooMuch config) :=
  inferInstanceAs (Decidable (_ ∨ _))

instance (m : Measurement) : Decidable (g.Calm config m) :=
  inferInstanceAs (Decidable ((∃ q ∈ g.processes, q.snd.terminated = true) →
    m.TooMuch config ∨ ∀ q ∈ g.processes, q.snd.terminated = false → q.snd.overRss = false))

instance (s : Sampling) (rss cpu : Option ℚ) : Decidable (g.InTime config s rss cpu) :=
  decidable_of_iff
    ((∀ p ∈ g.objects[s.object]?, g.registered p.pluginId = some s.object) ∧
      (∀ p ∈ g.objects[s.object]?, (p.measured rss cpu).hasUsage s.elapsed = false →
        p.cpuViolationSamples = 0) ∧
      ((g.evaluate config s rss cpu).next (s.slot + 1) = none →
        (g.evaluate config s rss cpu).Calm config ((g.evaluate config s rss cpu).measured
          (s.aggregate + (g.evaluate config s rss cpu).rssOf s.object) s.treeSource)))
    ⟨fun ⟨h, h', h''⟩ => ⟨h, h', h''⟩, fun ⟨h, h', h''⟩ => ⟨h, h', h''⟩⟩

instance : ∀ (g : ResourceGovernor) (e : Event), Decidable (g.Orderly config e)
  | g, .sample rss cpu =>
    match hpass : g.pass with
    | .sampling s => decidable_of_iff (g.InTime config s rss cpu) (by rw [Orderly, hpass])
    | .idle       => isTrue (by rw [Orderly, hpass]; trivial)
    | .reading _  => isTrue (by rw [Orderly, hpass]; trivial)
  | _, .registerProcess _ | _, .unregisterProcess _ | _, .handleUsageReport .. | _, .tick .. | _, .cgroup _
  | _, .fail           => isTrue trivial

end Decidable

theorem Sound.advance (hs : g.Sound config) (slot : Nat) (aggregate elapsed : ℚ) (treeSource : Option ℚ)
    (hcalm : g.next slot = none → g.Calm config (g.measured aggregate treeSource)) :
    (g.advance config slot aggregate elapsed treeSource).Sound config := by
  rw [ResourceGovernor.advance]
  split
  case h_1       => exact hs.congr rfl rfl rfl
  case h_2 hnone => exact hs.finish aggregate treeSource <| hcalm hnone

-- A pass that begins with no entry finds no process at all.
theorem calm_of_next (h : g.next 0 = none) (m : Measurement) : g.Calm config m := by
  intro ⟨⟨o, p⟩, hmem, _⟩
  exfalso
  have ⟨_, i, id, hi⟩ := mem_processes.mp hmem
  rw [next, List.drop_zero] at h
  cases hfind : g.slots.findIdx? Option.isSome
  case none   =>
    rw [List.findIdx?_eq_none_iff] at hfind
    have := hfind _ <| List.mem_of_getElem? hi
    simp at this
  case some k =>
    have ⟨hlt, hsome, _⟩ := List.findIdx?_eq_some_iff_getElem.mp hfind
    have ⟨entry, hentry⟩ := Option.isSome_iff_exists.mp hsome
    rw [hfind, Option.bind_some, Nat.zero_add, List.getElem?_eq_getElem hlt, hentry] at h
    cases h

theorem Sound.step (hs : g.Sound config) (e : Event) (hok : g.Orderly config e) :
    (g.step config e).Sound config := by
  cases e
  case registerProcess info            => exact hs.registerProcess info
  case unregisterProcess id            => exact hs.unregisterProcess
  case handleUsageReport id rss cpu    => exact hs.handleUsageReport rss cpu
  case tick now main                   =>
    rw [ResourceGovernor.step]
    split
    · exact hs.congr rfl rfl rfl
    · exact hs
  case cgroup treeSource               =>
    rw [ResourceGovernor.step]
    split
    · exact hs.advance _ _ _ _ fun hnone => calm_of_next hnone _
    · exact hs
  case sample rss cpu                  =>
    rw [ResourceGovernor.step]
    split
    case h_1 s hpass =>
      have hin : g.InTime config s rss cpu := by
        rw [Orderly, hpass] at hok
        exact hok
      exact (hs.evaluate hin.registered hin.usage).advance _ _ _ _ hin.calm
    case h_2         => exact hs
  case fail                            =>
    rw [ResourceGovernor.step]
    split
    · exact hs
    · exact hs.congr rfl rfl rfl

-- In a run whose samples are all in time, the governor terminates for cause only.
theorem lawful_throughout (config : Config) (t : ℚ) (es : List Event)
    (h : Runs.Meets (step config) (Orderly config) { lastSampleAt := t } es) :
    Runs.Throughout (step config) (Lawful config) { lastSampleAt := t } es := by
  have hsound : Runs.Throughout (step config) (Sound config) { lastSampleAt := t } es :=
    Runs.throughout_of_meets (fun _ e hs hok => Sound.step hs e hok) (Sound.initial t) h
  exact hsound.mono fun _ hs => hs.lawful

section Examples

private def limits : Config where
  aggregateRssSoftMiB   := 1000
  aggregateRssHardMiB   := 2000
  processTreeRssSoftMiB := 1500
  processTreeRssHardMiB := 3000
  mainRssHardMiB        := 1000
  backgroundCpuPercent  := 100

theorem lawful_throughout_sample : Runs.Throughout (step limits) (Lawful limits) { lastSampleAt := 0 } [
    .registerProcess ⟨"a", 1, 50⟩, .tick 1000 0, .cgroup none, .sample (some (60 * mib)) none,
    .tick 2000 0, .cgroup none, .sample (some (60 * mib)) none] :=
  lawful_throughout limits 0 _ (by decide +kernel)

-- The process of one plugin is terminated for cause, and with it that of another that is above its
-- limit for the first time.
theorem terminated_with_another : ¬Runs.Throughout (step limits) (Lawful limits) { lastSampleAt := 0 } [
    .registerProcess ⟨"a", 1, 50⟩, .registerProcess ⟨"b", 2, 50⟩,
    .tick 1000 0, .cgroup none, .sample (some (60 * mib)) none, .sample (some (40 * mib)) none,
    .tick 2000 0, .cgroup none, .sample (some (60 * mib)) none, .sample (some (60 * mib)) none] := by
  intro h
  let p : PluginProcessState := {
    pluginId            := "b"
    pid                 := 2
    rssHardMiB          := 50
    rssBytes            := some (60 * mib)
    rssViolationSamples := 1
    terminated          := true
    source              := some .proc
    verdicts            := [⟨true, false⟩, ⟨false, false⟩]
  }
  have ⟨q, hq, hcause⟩ := h.last.caused
    ⟨"b", .resourceLimitExceeded, some 1, some p, some ⟨120 * mib, 120 * mib⟩⟩ (by decide +kernel)
  obtain rfl : p = q := Option.some.inj hq
  rcases hcause with (hrss | hcpu) | ⟨m, hm, hmuch, _⟩
  · exact absurd hrss (by decide)
  · exact absurd hcpu (by decide)
  · obtain rfl : (⟨120 * mib, 120 * mib⟩ : Measurement) = m := Option.some.inj hm
    exact absurd hmuch (by decide +kernel)

end Examples

end ResourceGovernor
end Governor
