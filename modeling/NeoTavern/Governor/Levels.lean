import Mathlib
import NeoTavern.Lib.Runs
import NeoTavern.Governor.Process

namespace Governor

inductive AdmissionKind
  | pluginStart
  | maintenance
  | heavy
  | background
  deriving DecidableEq

inductive AdmissionResult
  | ok
  | resourcePressure (retryAfterMs : Nat) (level : PluginPressureLevel)
  deriving DecidableEq

def ResourceGovernor.canAdmit (g : ResourceGovernor) (kind : AdmissionKind) : AdmissionResult :=
  if g.level = .hard || g.selfPressure then
    .resourcePressure 30000 g.level
  else if kind = .pluginStart || kind = .background then
    if g.level = .critical then .resourcePressure 10000 g.level else .ok
  else if g.level ≠ .ok then
    .resourcePressure 10000 g.level
  else
    .ok

structure CgroupInfo where
  available        : Bool
  memoryCurrentMiB : Option ℚ
  deriving DecidableEq

-- What a pass has measured by the time at which it computes the level, in bytes, and whether a
-- process that is registered then has been asked to terminate.
structure Readings where
  main       : ℚ
  aggregate  : ℚ
  tree       : ℚ
  terminated : Bool
  deriving DecidableEq

-- A governor with the snapshots of the cgroup: `override` is the option of the constructor, `cgroup` what
-- the governor holds and `cachedCgroup` what the module does. `last` are the readings of the pass that
-- came to its end last.
structure Host where
  governor     : ResourceGovernor
  override     : Option (Option CgroupInfo)
  cgroup       : Option CgroupInfo := none
  cachedCgroup : Option CgroupInfo := none
  last         : Option Readings := none
  deriving DecidableEq

-- `readCgroup` is when the tick has its snapshot, with what the file system tells at that time.
inductive HostEvent
  | readCgroup (info : CgroupInfo)
  | other (e : Event)
  deriving DecidableEq

namespace ResourceGovernor

variable (config : Config)

-- Where an event ends the loop of a pass: the governor by then, the sum of the memory of all
-- processes, and the memory of the cgroup.
def ending (g : ResourceGovernor) : Event → Option (ResourceGovernor × ℚ × Option ℚ)
  | .cgroup treeSource     =>
    match g.pass with
    | .reading _ => if (g.next 0).isSome then none else some (g, 0, treeSource)
    | _          => none
  | .sample rssBytes cpuMs =>
    match g.pass with
    | .sampling s =>
      let g := g.evaluate config s rssBytes cpuMs
      if (g.next (s.slot + 1)).isSome then none else some (g, s.aggregate + g.rssOf s.object, s.treeSource)
    | _           => none
  | _                      => none

def readings (g : ResourceGovernor) (aggregate : ℚ) (treeSource : Option ℚ) : Readings where
  main       := g.mainRssBytes
  aggregate
  tree       := treeSource.elim (g.mainRssBytes + aggregate) (· * mib)
  terminated := g.processes.any (·.snd.terminated)

end ResourceGovernor

namespace Host

variable (config : Config)

-- A step of the governor, with the readings of the pass if it ends one.
def advance (h : Host) (e : Event) : Host :=
  { h with
    governor := h.governor.step config e
    last     := ((h.governor.ending config e).map fun (g, aggregate, treeSource) =>
      g.readings aggregate treeSource).or h.last
  }

-- The snapshot is read once for each process, and kept by each governor that has one.
def snapshot (h : Host) (info : CgroupInfo) : Host :=
  match h.override, h.cgroup with
  | some override, _    => { h with cgroup := override }
  | none, some _        => h
  | none, none          =>
    let cached := h.cachedCgroup.getD info
    { h with cgroup := some cached, cachedCgroup := some cached }

def step (h : Host) : HostEvent → Host
  | .readCgroup info    =>
    match h.governor.pass with
    | .reading _ =>
      let h := h.snapshot info
      h.advance config <| .cgroup <| h.cgroup.bind (·.memoryCurrentMiB)
    | _          => h
  | .other (.cgroup _) => h
  | .other e           => h.advance config e

end Host

-- The level that the thresholds give.
def levelOf (config : Config) (r : Readings) : PluginPressureLevel :=
  let aggSoftBytes := config.aggregateRssSoftMiB * mib
  let treeSoftBytes := config.processTreeRssSoftMiB * mib
  if r.aggregate ≥ config.aggregateRssHardMiB * mib ∨ r.tree ≥ config.processTreeRssHardMiB * mib then
    .hard
  else if r.main ≥ config.mainRssHardMiB * mib ∨ r.aggregate ≥ aggSoftBytes ∨ r.tree ≥ treeSoftBytes then
    .critical
  else if r.aggregate ≥ aggSoftBytes * (9 / 10) ∨ r.tree ≥ treeSoftBytes * (9 / 10) then
    .elevated
  else if r.aggregate ≥ aggSoftBytes * (8 / 10) ∨ r.tree ≥ treeSoftBytes * (8 / 10) then
    .soft
  else
    .ok

def PluginPressureLevel.rank : PluginPressureLevel → Nat
  | ok       => 0
  | soft     => 1
  | elevated => 2
  | critical => 3
  | hard     => 4

-- Below all thresholds.
structure Readings.Low (config : Config) (r : Readings) : Prop where
  main      : r.main < config.mainRssHardMiB * mib
  aggregate : ∀ b ∈ [1, 9 / 10, 8 / 10], r.aggregate < config.aggregateRssSoftMiB * mib * b
  tree      : ∀ b ∈ [1, 9 / 10, 8 / 10], r.tree < config.processTreeRssSoftMiB * mib * b
  hard      : r.aggregate < config.aggregateRssHardMiB * mib ∧ r.tree < config.processTreeRssHardMiB * mib

section Thresholds

variable {config : Config} {r r' : Readings}

-- The level of a case that is met more easily is not lower.
theorem ite_le_ite {P Q : Prop} [Decidable P] [Decidable Q] {c m n : Nat} (h : P → Q) (hm : m ≤ n) (hc : m ≤ c) :
    (if P then c else m) ≤ if Q then c else n := by
  by_cases hp : P
  case pos => simp [hp, h hp]
  case neg =>
    rw [if_neg hp]
    split
    case isTrue  => exact hc
    case isFalse => exact hm

theorem rank_levelOf_mono (hmain : r.main ≤ r'.main) (hagg : r.aggregate ≤ r'.aggregate) (htree : r.tree ≤ r'.tree) :
    (levelOf config r).rank ≤ (levelOf config r').rank := by
  have hle {x y b : ℚ} (h : x ≤ y) : x ≥ b → y ≥ b := fun hx => le_trans hx h
  have hor {b c : ℚ} : r.aggregate ≥ b ∨ r.tree ≥ c → r'.aggregate ≥ b ∨ r'.tree ≥ c :=
    Or.imp (hle hagg) (hle htree)
  simp only [levelOf, apply_ite PluginPressureLevel.rank]
  apply ite_le_ite hor
  case hm =>
    apply ite_le_ite (Or.imp (hle hmain) hor)
    case hm =>
      apply ite_le_ite hor
      case hm => exact ite_le_ite hor le_rfl (Nat.zero_le 1)
      case hc => split <;> decide
    case hc => split <;> (try split) <;> decide
  case hc => split <;> (try split) <;> (try split) <;> decide

theorem levelOf_low (h : r.Low config) : levelOf config r = .ok := by
  have ha := h.aggregate
  have ht := h.tree
  simp only [List.mem_cons, List.not_mem_nil, or_false, forall_eq_or_imp, forall_eq, mul_one] at ha ht
  simp [levelOf, ← not_lt, h.main, h.hard, ha, ht]

end Thresholds

namespace ResourceGovernor

variable {config : Config} {g g' : ResourceGovernor} {a : ℚ} {t : Option ℚ} {e : Event}

@[simp]
theorem readings_terminated : (g.readings a t).terminated = g.processes.any (·.snd.terminated) :=
  rfl

theorem terminateVictims_keeps : g.terminateVictims.level = g.level ∧
    g.terminateVictims.selfPressure = g.selfPressure ∧ g.terminateVictims.measurement = g.measurement ∧
    g.terminateVictims.pass = g.pass := by
  rw [terminateVictims]
  split
  case isFalse => exact ⟨rfl, rfl, rfl, rfl⟩
  case isTrue  =>
    split
    case h_2 => exact ⟨rfl, rfl, rfl, rfl⟩
    case h_1 =>
      split
      case isFalse => exact ⟨rfl, rfl, rfl, rfl⟩
      case isTrue  =>
        split
        case h_2 => exact ⟨rfl, rfl, rfl, rfl⟩
        case h_1 => split <;> exact ⟨rfl, rfl, rfl, rfl⟩

-- The level that is computed, and the flag beside it, which is left alone where the level is hard.
theorem computeLevel_spec (g : ResourceGovernor) (config : Config) {r : Readings} (hmain : r.main = g.mainRssBytes)
    (hmeasured : g.measurement = ⟨r.aggregate, r.tree⟩)
    (hterminated : r.terminated = g.processes.any (·.snd.terminated)) :
    (g.computeLevel config).fst = (if r.terminated then .hard else levelOf config r) ∧
    ((g.computeLevel config).fst ≠ .hard →
      (g.computeLevel config).snd = decide (config.mainRssHardMiB * mib ≤ r.main)) := by
  rw [computeLevel]
  simp only [hmeasured, ← hterminated, ← hmain]
  by_cases ht : r.terminated
  case pos => simp [ht]
  case neg =>
    simp only [ht, Bool.false_eq_true, if_false, levelOf, Bool.or_eq_true, decide_eq_true_eq, ge_iff_le]
    split
    case isTrue  => exact ⟨rfl, fun h => absurd rfl h⟩
    case isFalse =>
      by_cases hover : config.mainRssHardMiB * mib ≤ r.main
      case pos => simp [hover]
      case neg =>
        simp only [hover, if_false, false_or, decide_false]
        split
        case isTrue  => exact ⟨rfl, fun _ => rfl⟩
        case isFalse =>
          split
          case isTrue  => exact ⟨rfl, fun _ => rfl⟩
          case isFalse => split <;> exact ⟨rfl, fun _ => rfl⟩

-- What the end of a pass comes to.
theorem finish_spec (g : ResourceGovernor) (config : Config) (a : ℚ) (t : Option ℚ) :
    (g.finish config a t).level =
      (if (g.readings a t).terminated then .hard else levelOf config (g.readings a t)) ∧
    ((g.finish config a t).level ≠ .hard →
      (g.finish config a t).selfPressure = decide (config.mainRssHardMiB * mib ≤ g.mainRssBytes)) ∧
    (g.finish config a t).measurement = ⟨a, (g.readings a t).tree⟩ := by
  let m : ResourceGovernor := { g with
    pass        := .idle
    measurement := ⟨a, (g.readings a t).tree⟩
  }
  let m' : ResourceGovernor := { m with
    level        := (m.computeLevel config).fst
    selfPressure := (m.computeLevel config).snd
  }
  have hfinish : g.finish config a t = m'.terminateVictims := rfl
  have ⟨hlevel, hflag⟩ := m.computeLevel_spec config (r := g.readings a t) rfl rfl rfl
  have ⟨hlevel', hflag', hmeasured', _⟩ := terminateVictims_keeps (g := m')
  rw [hfinish, hlevel', hflag', hmeasured']
  exact ⟨hlevel, hflag, rfl⟩

-- A step ends a pass, or leaves alone what the last pass has set.
theorem step_of_ending (h : g.ending config e = some (g', a, t)) : g.step config e = g'.finish config a t := by
  cases e
  case cgroup treeSource =>
    rw [ending] at h
    split at h
    case h_2 => cases h
    case h_1 hpass =>
      cases hnext : g.next 0
      case some => simp [hnext] at h
      case none =>
        simp only [hnext, Option.isSome_none, Bool.false_eq_true, if_false, Option.some.injEq, Prod.mk.injEq] at h
        obtain ⟨rfl, rfl, rfl⟩ := h
        simp [step, hpass, advance, hnext]
  case sample rss cpu =>
    rw [ending] at h
    split at h
    case h_2 => cases h
    case h_1 s hpass =>
      dsimp only at h
      cases hnext : (g.evaluate config s rss cpu).next (s.slot + 1)
      case some => simp [hnext] at h
      case none =>
        simp only [hnext, Option.isSome_none, Bool.false_eq_true, if_false, Option.some.injEq, Prod.mk.injEq] at h
        obtain ⟨rfl, rfl, rfl⟩ := h
        simp [step, hpass, advance, hnext]
  all_goals cases h

-- The memory of the cgroup that a pass goes by comes from its start.
theorem treeSource_of_ending (h : g.ending config e = some (g', a, t)) :
    e = .cgroup t ∨ ∃ s, g.pass = .sampling s ∧ s.treeSource = t := by
  cases e
  case cgroup treeSource =>
    rw [ending] at h
    split at h
    case h_2 => cases h
    case h_1 =>
      split at h
      case isTrue  => cases h
      case isFalse => cases h; exact .inl rfl
  case sample rss cpu =>
    rw [ending] at h
    split at h
    case h_2 => cases h
    case h_1 s hpass =>
      dsimp only at h
      split at h
      case isTrue  => cases h
      case isFalse => cases h; exact .inr ⟨s, hpass, rfl⟩
  all_goals cases h

theorem pass_finish : (g.finish config a t).pass = .idle := by
  rw [finish]
  exact terminateVictims_keeps.right.right.right

theorem treeSource_of_advance {slot : Nat} {elapsed : ℚ} {s : Sampling}
    (h : (g.advance config slot a elapsed t).pass = .sampling s) : s.treeSource = t := by
  rw [advance] at h
  split at h
  case h_1 => cases h; rfl
  case h_2 => rw [pass_finish] at h; cases h

theorem treeSource_of_step {s : Sampling} (h : (g.step config e).pass = .sampling s) :
    e = .cgroup s.treeSource ∨ ∃ s', g.pass = .sampling s' ∧ s'.treeSource = s.treeSource := by
  cases e
  case handleUsageReport id rss cpu =>
    simp only [step, handleUsageReport] at h
    split at h <;> exact .inr ⟨s, h, rfl⟩
  case tick now rss =>
    simp only [step] at h
    split at h
    case h_1 => cases h
    case h_2 => exact .inr ⟨s, h, rfl⟩
  case cgroup treeSource =>
    simp only [step] at h
    split at h
    case h_1 => exact .inl <| congrArg _ (treeSource_of_advance h).symm
    case h_2 => exact .inr ⟨s, h, rfl⟩
  case sample rss cpu =>
    simp only [step] at h
    split at h
    case h_1 s' hpass => exact .inr ⟨s', hpass, (treeSource_of_advance h).symm⟩
    case h_2          => exact .inr ⟨s, h, rfl⟩
  case fail =>
    simp only [step] at h
    split at h
    case h_1 => exact .inr ⟨s, h, rfl⟩
    case h_2 => cases h
  all_goals exact .inr ⟨s, h, rfl⟩

-- The level and the flag are those of the last pass until another one ends.
def Agrees (g g' : ResourceGovernor) : Prop :=
  g'.level = g.level ∧ g'.selfPressure = g.selfPressure ∧ g'.measurement = g.measurement

theorem evaluate_agrees {s : Sampling} {rss cpu : Option ℚ} : g.Agrees (g.evaluate config s rss cpu) := by
  rw [evaluate]
  split
  case h_1 => exact ⟨rfl, rfl, rfl⟩
  case h_2 =>
    dsimp only
    split <;> exact ⟨rfl, rfl, rfl⟩

theorem step_of_no_ending (h : g.ending config e = none) : g.Agrees (g.step config e) := by
  cases e
  case handleUsageReport id rss cpu =>
    simp only [step, handleUsageReport]
    split <;> exact ⟨rfl, rfl, rfl⟩
  case tick now rss =>
    simp only [step]
    split <;> exact ⟨rfl, rfl, rfl⟩
  case cgroup treeSource =>
    simp only [step]
    split
    case h_2 => exact ⟨rfl, rfl, rfl⟩
    case h_1 hpass =>
      cases hnext : g.next 0
      case none => simp [ending, hpass, hnext] at h
      case some => simp only [advance, hnext]; exact ⟨rfl, rfl, rfl⟩
  case sample rss cpu =>
    simp only [step]
    split
    case h_2 => exact ⟨rfl, rfl, rfl⟩
    case h_1 s hpass =>
      cases hnext : (g.evaluate config s rss cpu).next (s.slot + 1)
      case none => simp [ending, hpass, hnext] at h
      case some =>
        simp only [advance, hnext]
        exact evaluate_agrees
  case fail =>
    simp only [step]
    split <;> exact ⟨rfl, rfl, rfl⟩
  all_goals exact ⟨rfl, rfl, rfl⟩

end ResourceGovernor

namespace Host

variable {config : Config}

-- What holds after the last pass and until the next one ends.
structure Settled (config : Config) (h : Host) (r : Readings) : Prop where
  level    : h.governor.level = if r.terminated then .hard else levelOf config r
  flag     : h.governor.level ≠ .hard → h.governor.selfPressure = decide (config.mainRssHardMiB * mib ≤ r.main)
  measured : h.governor.measurement = ⟨r.aggregate, r.tree⟩
  tree     : r.tree = (h.cgroup.bind (·.memoryCurrentMiB)).elim (r.main + r.aggregate) (· * mib)

variable {h : Host} {e : Event} {info : CgroupInfo} {r : Readings}

-- The snapshot that the present pass goes by.
def memory (h : Host) : Option ℚ :=
  h.cgroup.bind (·.memoryCurrentMiB)

-- The snapshot is there for good once a pass has taken it.
structure Kept (config : Config) (h : Host) : Prop where
  settled : ∀ r, h.last = some r → Settled config h r
  initial : h.last = none → h.governor.level = .ok ∧ h.governor.selfPressure = false
  taken   : ∀ s, h.governor.pass = .sampling s → s.treeSource = h.memory
  held    : (h.last.isSome ∨ ∃ s, h.governor.pass = .sampling s) → ∀ info, (h.snapshot info).cgroup = h.cgroup

theorem snapshot_governor (h : Host) (info : CgroupInfo) : (h.snapshot info).governor = h.governor ∧ (h.snapshot info).last = h.last := by
  rw [snapshot]
  split <;> exact ⟨rfl, rfl⟩

theorem snapshot_snapshot {info' : CgroupInfo} :
    ((h.snapshot info).snapshot info').cgroup = (h.snapshot info).cgroup := by
  rcases h with ⟨governor, override, cgroup, cached, last⟩
  cases override <;> cases cgroup <;> rfl

theorem snapshot_advance : ((h.advance config e).snapshot info).cgroup = (h.snapshot info).cgroup := by
  rcases h with ⟨governor, override, cgroup, cached, last⟩
  cases override <;> cases cgroup <;> rfl

-- A pass that ends settles what its readings say.
theorem settled_of_ending {g : ResourceGovernor} {a : ℚ} {t : Option ℚ}
    (hending : h.governor.ending config e = some (g, a, t)) (ht : t = h.memory) :
    Settled config (h.advance config e) (g.readings a t) := by
  have hgovernor : (h.advance config e).governor = g.finish config a t := ResourceGovernor.step_of_ending hending
  have ⟨hlevel, hflag, hmeasured⟩ := g.finish_spec config a t
  constructor
  case level    => rw [hgovernor, hlevel]
  case flag     => rw [hgovernor]; exact hflag
  case measured => rw [hgovernor, hmeasured]; rfl
  case tree     => rw [ht]; rfl

theorem advance_kept (hk : Kept config h) (he : ∀ t, e = .cgroup t → t = h.memory ∧
    ∀ info, (h.snapshot info).cgroup = h.cgroup) : Kept config (h.advance config e) := by
  have htaken : ∀ s, (h.advance config e).governor.pass = .sampling s → s.treeSource = h.memory := by
    intro s hpass
    cases ResourceGovernor.treeSource_of_step hpass
    case inl htree => exact (he _ htree).left
    case inr hbefore =>
      have ⟨s', hs', htree⟩ := hbefore
      exact htree.symm.trans <| hk.taken s' hs'
  cases hending : h.governor.ending config e
  case none =>
    have ⟨hlevel, hflag, hmeasured⟩ := ResourceGovernor.step_of_no_ending hending
    have hlast : (h.advance config e).last = h.last := by simp [advance, hending]
    constructor
    case settled =>
      intro r hr
      have hsettled := hk.settled r <| hlast.symm.trans hr
      exact ⟨hlevel.trans hsettled.level, fun hne => hflag.trans <| hsettled.flag <| hlevel ▸ hne,
        hmeasured.trans hsettled.measured, hsettled.tree⟩
    case initial =>
      intro hnone
      have ⟨hok, hfalse⟩ := hk.initial <| hlast.symm.trans hnone
      exact ⟨hlevel.trans hok, hflag.trans hfalse⟩
    case taken => exact htaken
    case held =>
      rw [hlast]
      intro hor info
      rw [snapshot_advance]
      revert info
      cases hor
      case inl hsome => exact hk.held <| .inl hsome
      case inr hsampling =>
        have ⟨s, hs⟩ := hsampling
        cases ResourceGovernor.treeSource_of_step hs
        case inl htree => exact (he _ htree).right
        case inr hbefore =>
          have ⟨s', hs', _⟩ := hbefore
          exact hk.held <| .inr ⟨s', hs'⟩
  case some ending =>
    have ⟨g, a, t⟩ := ending
    have hlast : (h.advance config e).last = some (g.readings a t) := by simp [advance, hending]
    have hmemory : t = h.memory ∧ ∀ info, (h.snapshot info).cgroup = h.cgroup := by
      cases ResourceGovernor.treeSource_of_ending hending
      case inl htree => exact he t htree
      case inr hbefore =>
        have ⟨s, hs, htree⟩ := hbefore
        exact ⟨htree.symm.trans <| hk.taken s hs, hk.held <| .inr ⟨s, hs⟩⟩
    constructor
    case settled =>
      intro r hr
      rw [hlast] at hr
      exact Option.some.inj hr ▸ settled_of_ending hending hmemory.left
    case initial => exact fun hnone => by cases hlast.symm.trans hnone
    case taken   => exact htaken
    case held    => exact fun _ info => snapshot_advance.trans <| hmemory.right info

theorem step_kept (hk : Kept config h) (e : HostEvent) : Kept config (h.step config e) := by
  cases e
  case other e =>
    cases e
    case cgroup => exact hk
    all_goals exact advance_kept hk (by nofun)
  case readCgroup info =>
    rw [step]
    split
    case h_2 => exact hk
    case h_1 hpass =>
      have ⟨hgovernor, hlast⟩ := h.snapshot_governor info
      have hsnapshot : Kept config (h.snapshot info) := by
        constructor
        case settled =>
          intro r hr
          rw [hlast] at hr
          have hsettled := hk.settled r hr
          have hcgroup := hk.held (.inl <| hr ▸ rfl) info
          exact ⟨hgovernor ▸ hsettled.level, hgovernor ▸ hsettled.flag, hgovernor ▸ hsettled.measured,
            hcgroup ▸ hsettled.tree⟩
        case initial =>
          rw [hlast, hgovernor]
          exact hk.initial
        case taken =>
          intro s hs
          rw [hgovernor, hpass] at hs
          cases hs
        case held => exact fun _ _ => snapshot_snapshot
      exact advance_kept hsnapshot fun t ht => ⟨(Event.cgroup.inj ht).symm, fun _ => snapshot_snapshot⟩

-- The level and the flag in every state of a run: they follow the readings of the last pass, but that
-- a process that has been asked to terminate keeps the level hard as long as it is registered.
structure Follows (config : Config) (h : Host) : Prop where
  settled  : ∀ r, h.last = some r → Settled config h r
  initial  : h.last = none → h.governor.level = .ok ∧ h.governor.selfPressure = false
  recovers : ∀ r, h.last = some r → r.Low config → r.terminated = false →
    h.governor.level = .ok ∧ ∀ kind, h.governor.canAdmit kind = .ok

theorem Kept.follows (hk : Kept config h) : Follows config h where
  settled  := hk.settled
  initial  := hk.initial
  recovers := by
    intro r hr hlow hterminated
    have hsettled := hk.settled r hr
    have hlevel : h.governor.level = .ok := by simp [hsettled.level, hterminated, levelOf_low hlow]
    have hflag : h.governor.selfPressure = false := by
      rw [hsettled.flag <| by simp [hlevel]]
      simpa using hlow.main
    exact ⟨hlevel, fun kind => by cases kind <;> simp [ResourceGovernor.canAdmit, hlevel, hflag]⟩

-- A governor as it is constructed.
def initial (override : Option (Option CgroupInfo)) (cachedCgroup : Option CgroupInfo) (now : ℚ) : Host where
  governor := { lastSampleAt := now }
  override
  cachedCgroup

theorem initial_kept (override : Option (Option CgroupInfo)) (cachedCgroup : Option CgroupInfo) (now : ℚ) :
    Kept config (initial override cachedCgroup now) where
  settled := nofun
  initial := fun _ => ⟨rfl, rfl⟩
  taken   := nofun
  held    := fun h => by
    cases h
    case inl h => cases h
    case inr h => cases h.choose_spec

-- The thresholds are monotone, and every state of every run follows them.
theorem follows_throughout (config : Config) (override : Option (Option CgroupInfo))
    (cachedCgroup : Option CgroupInfo) (now : ℚ) (es : List HostEvent) :
    Runs.Throughout (step config) (Follows config) (initial override cachedCgroup now) es ∧
    ∀ r r' : Readings, r.main ≤ r'.main → r.aggregate ≤ r'.aggregate → r.tree ≤ r'.tree →
      (levelOf config r).rank ≤ (levelOf config r').rank := by
  have hkept : Runs.Throughout (step config) (Kept config) (initial override cachedCgroup now) es :=
    Runs.throughout_of_invariant (fun _ e hk => step_kept hk e) (initial_kept override cachedCgroup now)
  exact ⟨hkept.mono fun _ hk => hk.follows, fun _ _ => rank_levelOf_mono⟩

section Examples

private def limits : Config where
  aggregateRssSoftMiB   := 1000
  aggregateRssHardMiB   := 2000
  processTreeRssSoftMiB := 1500
  processTreeRssHardMiB := 3000
  mainRssHardMiB        := 1000
  backgroundCpuPercent  := 100

-- A plugin that has been terminated and needs no memory any more keeps the level hard.
theorem hard_with_terminated : ¬ (
    let h := [
      .other <| .registerProcess ⟨"a", 1, 50⟩,
      .other <| .tick 1000 0, .readCgroup ⟨false, none⟩, .other <| .sample (some (60 * mib)) none,
      .other <| .tick 2000 0, .readCgroup ⟨false, none⟩, .other <| .sample (some (60 * mib)) none,
      .other <| .tick 3000 0, .readCgroup ⟨false, none⟩, .other <| .sample (some 0) none
    ].foldl (step limits) (initial none none 0)
    ∀ r, h.last = some r → h.governor.level = levelOf limits r) := by
  intro h
  have hlevel := h ⟨0, 0, 0, true⟩ <| by decide +kernel
  exact absurd hlevel <| by decide +kernel

end Examples

end Host
end Governor
