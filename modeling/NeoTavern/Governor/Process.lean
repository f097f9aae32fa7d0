import Mathlib

namespace Governor

def mib : ℚ := 1024 * 1024

-- What the governor reads of its configuration and of its options.
structure Config where
  aggregateRssSoftMiB       : ℚ
  aggregateRssHardMiB       : ℚ
  processTreeRssSoftMiB     : ℚ
  processTreeRssHardMiB     : ℚ
  mainRssHardMiB            : ℚ
  backgroundCpuPercent      : ℚ
  hardViolationSamples      : Nat := 2
  cpuHardConsecutiveSamples : Nat := 3
  deriving DecidableEq

-- The threshold for the watchdog, in percent of one core.
def Config.cpuHardPercent (config : Config) : ℚ :=
  min 95 <| (⌊config.backgroundCpuPercent * (9 / 10) / 10 + 1 / 2⌋ : ℤ) * 10

inductive Source
  | proc
  | ipc
  deriving DecidableEq

inductive Reason
  | resourceLimitExceeded
  | cpuWatchdog
  deriving DecidableEq

-- Whether a process has been above its limits when it was evaluated.
structure Verdict where
  overRss : Bool
  overCpu : Bool
  deriving DecidableEq

structure GovernedProcessInfo where
  pluginId   : String
  pid        : Nat
  rssHardMiB : ℚ
  deriving DecidableEq

-- `verdicts` are those of all samples of the process, the last one first.
structure PluginProcessState extends GovernedProcessInfo where
  rssBytes            : Option ℚ := none
  cpuMs               : ℚ := 0
  lastCpuMs           : ℚ := 0
  rssViolationSamples : Nat := 0
  cpuViolationSamples : Nat := 0
  terminated          : Bool := false
  source              : Option Source := none
  verdicts            : List Verdict := []
  deriving DecidableEq

namespace PluginProcessState

variable (config : Config) (elapsed : ℚ)

def report (p : PluginProcessState) (rss cpuMs : ℚ) : PluginProcessState :=
  if p.source = some .proc && p.rssBytes.isSome then
    p
  else
    { p with rssBytes := some rss, cpuMs, source := some .ipc }

-- What has not been read stays as it was.
def measured (p : PluginProcessState) (rssBytes cpuMs : Option ℚ) : PluginProcessState :=
  { p with
    rssBytes := rssBytes.or p.rssBytes
    source   := if rssBytes.isSome then some .proc else p.source
    cpuMs    := cpuMs.getD p.cpuMs
  }

def overRss (p : PluginProcessState) : Bool :=
  p.rssBytes.any (· > p.rssHardMiB * mib)

-- Whether there is a CPU usage to speak of.
def hasUsage (p : PluginProcessState) : Bool :=
  elapsed > 0 && p.cpuMs > 0

def usage (p : PluginProcessState) : ℚ :=
  (p.cpuMs - p.lastCpuMs) / elapsed

def overCpu (p : PluginProcessState) : Bool :=
  p.hasUsage elapsed && p.usage elapsed ≥ config.cpuHardPercent / 100

def requestTermination (p : PluginProcessState) (reason : Reason) : PluginProcessState × Option Reason :=
  if p.terminated then (p, none) else ({ p with terminated := true }, some reason)

def evaluateRss (p : PluginProcessState) : PluginProcessState × Option Reason :=
  if p.overRss then
    let p := { p with rssViolationSamples := p.rssViolationSamples + 1 }
    if p.rssViolationSamples ≥ config.hardViolationSamples then
      p.requestTermination .resourceLimitExceeded
    else
      (p, none)
  else
    ({ p with rssViolationSamples := 0 }, none)

def evaluateCpu (p : PluginProcessState) : PluginProcessState × Option Reason :=
  if p.hasUsage elapsed then
    let usage := p.usage elapsed
    let p := { p with lastCpuMs := p.cpuMs }
    if usage ≥ config.cpuHardPercent / 100 then
      let p := { p with cpuViolationSamples := p.cpuViolationSamples + 1 }
      if p.cpuViolationSamples ≥ config.cpuHardConsecutiveSamples then
        p.requestTermination .cpuWatchdog
      else
        (p, none)
    else
      ({ p with cpuViolationSamples := 0 }, none)
  else
    (p, none)

-- Also gives the reason for which the process is to be terminated, if it is.
def evaluateProcess (p : PluginProcessState) : PluginProcessState × Option Reason :=
  let p := { p with verdicts := ⟨p.overRss, p.overCpu config elapsed⟩ :: p.verdicts }
  if p.terminated then
    (p, none)
  else
    let (p, byRss) := p.evaluateRss config
    let (p, byCpu) := p.evaluateCpu config elapsed
    (p, byRss.or byCpu)

-- How far above its hard limit a process is.
def ratio (p : PluginProcessState) : Option ℚ :=
  p.rssBytes.map (· / max 1 (p.rssHardMiB * mib))

end PluginProcessState
end Governor

namespace Governor

inductive PluginPressureLevel
  | ok
  | soft
  | elevated
  | critical
  | hard
  deriving DecidableEq

-- What a pass has measured when it comes to an end.
structure Measurement where
  aggregateRssBytes : ℚ
  treeRssBytes      : ℚ
  deriving DecidableEq

-- A call of `onTerminate`, with the process that is registered under the plugin by then, if there is
-- one, and what the pass has measured, if it has come to its end.
structure Termination where
  pluginId     : String
  reason       : Reason
  registration : Option Nat
  process      : Option PluginProcessState
  measurement  : Option Measurement
  deriving DecidableEq

-- A pass that waits for the sample of a process: where the process stands among the entries of the
-- map, and what has been summed up so far.
structure Sampling where
  slot       : Nat
  object     : Nat
  aggregate  : ℚ
  elapsed    : ℚ
  treeSource : Option ℚ
  deriving DecidableEq

inductive Pass
  | idle
  | reading (elapsed : ℚ)
  | sampling (s : Sampling)
  deriving DecidableEq

-- `objects` are the states of all processes that have ever been registered, and an index stands for
-- the reference to one. The entries of the map stand in the order of insertion, which is the one that
-- an iteration follows, and a deleted entry leaves its place empty. `terminations` are the calls of
-- `onTerminate` so far.
structure ResourceGovernor where
  objects      : List PluginProcessState := []
  slots        : List (Option (String × Nat)) := []
  pass         : Pass := .idle
  level        : PluginPressureLevel := .ok
  selfPressure : Bool := false
  mainRssBytes : ℚ := 0
  measurement  : Measurement := ⟨0, 0⟩
  lastSampleAt : ℚ
  terminations : List Termination := []
  deriving DecidableEq

-- `cgroup` is when the reading of the tree's memory is there, in MiB, and `sample` when the sample is
-- there that the pass waits for. A sampler that fails ends the pass.
inductive Event
  | registerProcess (info : GovernedProcessInfo)
  | unregisterProcess (pluginId : String)
  | handleUsageReport (pluginId : String) (rss cpuMs : ℚ)
  | tick (now mainRssBytes : ℚ)
  | cgroup (memoryCurrentMiB : Option ℚ)
  | sample (rssBytes cpuMs : Option ℚ)
  | fail
  deriving DecidableEq

namespace ResourceGovernor

variable (config : Config)

-- The process of a plugin in the map.
def registered (g : ResourceGovernor) (pluginId : String) : Option Nat :=
  g.slots.findSome? fun slot => slot.bind fun (id, object) => if id = pluginId then some object else none

def registerProcess (g : ResourceGovernor) (info : GovernedProcessInfo) : ResourceGovernor :=
  let entry := some (info.pluginId, g.objects.length)
  { g with
    objects := g.objects ++ [{ toGovernedProcessInfo := info }]
    slots   :=
      match g.slots.findIdx? (·.any (·.fst = info.pluginId)) with
      | some i => g.slots.set i entry
      | none   => g.slots ++ [entry]
  }

def unregisterProcess (g : ResourceGovernor) (pluginId : String) : ResourceGovernor :=
  { g with slots := g.slots.map fun slot => slot.filter (·.fst ≠ pluginId) }

def update (g : ResourceGovernor) (object : Nat) (f : PluginProcessState → PluginProcessState) :
    ResourceGovernor :=
  { g with objects := g.objects.modify object f }

def handleUsageReport (g : ResourceGovernor) (pluginId : String) (rss cpuMs : ℚ) : ResourceGovernor :=
  match g.registered pluginId with
  | some object => g.update object (·.report rss cpuMs)
  | none        => g

-- The next entry of the map from a place on.
def next (g : ResourceGovernor) (slot : Nat) : Option (Nat × Nat) :=
  ((g.slots.drop slot).findIdx? Option.isSome).bind fun i =>
    (g.slots[slot + i]?).join.map fun entry => (slot + i, entry.snd)

-- The states in the map, in the order of the map.
def processes (g : ResourceGovernor) : List (Nat × PluginProcessState) :=
  g.slots.filterMap fun slot => slot.bind fun (_, object) => g.objects[object]?.map fun p => (object, p)

-- Tells the host about a termination that has been requested.
def onTerminate (g : ResourceGovernor) (pluginId : String) (reason : Reason)
    (measurement : Option Measurement) : ResourceGovernor :=
  let registration := g.registered pluginId
  { g with terminations := g.terminations ++ [{
      pluginId, reason, registration, measurement, process := registration.bind (g.objects[·]?)
    }]
  }

def computeLevel (g : ResourceGovernor) : PluginPressureLevel × Bool :=
  let aggSoftBytes := config.aggregateRssSoftMiB * mib
  let aggHardBytes := config.aggregateRssHardMiB * mib
  let treeSoftBytes := config.processTreeRssSoftMiB * mib
  let treeHardBytes := config.processTreeRssHardMiB * mib
  let aggregate := g.measurement.aggregateRssBytes
  let tree := g.measurement.treeRssBytes
  if g.processes.any (·.snd.terminated) then
    (.hard, g.selfPressure)
  else if aggregate ≥ aggHardBytes || tree ≥ treeHardBytes then
    (.hard, g.selfPressure)
  else if g.mainRssBytes ≥ config.mainRssHardMiB * mib then
    (.critical, true)
  else if aggregate ≥ aggSoftBytes || tree ≥ treeSoftBytes then
    (.critical, false)
  else if aggregate ≥ aggSoftBytes * (9 / 10) || tree ≥ treeSoftBytes * (9 / 10) then
    (.elevated, false)
  else if aggregate ≥ aggSoftBytes * (8 / 10) || tree ≥ treeSoftBytes * (8 / 10) then
    (.soft, false)
  else
    (.ok, false)

-- The process that is the furthest above its limit, and how far it is.
def worst (ps : List (Nat × PluginProcessState)) : Option Nat × ℚ :=
  ps.foldl (fun (victim, worstRatio) (object, p) =>
    match p.ratio with
    | some ratio =>
      if !p.terminated && ratio > worstRatio then (some object, ratio) else (victim, worstRatio)
    | none       => (victim, worstRatio)) (none, 0)

def terminateVictims (g : ResourceGovernor) : ResourceGovernor :=
  if g.level = .hard then
    match worst g.processes with
    | (some object, ratio) =>
      if ratio > 1 then
        match g.objects[object]? with
        | some p =>
          match p.requestTermination .resourceLimitExceeded with
          | (p, some reason) => (g.update object fun _ => p).onTerminate p.pluginId reason g.measurement
          | (_, none)        => g
        | none   => g
      else
        g
    | (none, _)            => g
  else
    g

-- The rest of a pass whose loop is over.
def finish (g : ResourceGovernor) (aggregate : ℚ) (treeSource : Option ℚ) : ResourceGovernor :=
  let g := { g with
    pass        := .idle
    measurement := ⟨aggregate, treeSource.elim (g.mainRssBytes + aggregate) (· * mib)⟩
  }
  let (level, selfPressure) := g.computeLevel config
  { g with level, selfPressure }.terminateVictims

-- The loop goes on from a place in the map.
def advance (g : ResourceGovernor) (slot : Nat) (aggregate elapsed : ℚ) (treeSource : Option ℚ) :
    ResourceGovernor :=
  match g.next slot with
  | some (slot, object) => { g with pass := .sampling { slot, object, aggregate, elapsed, treeSource } }
  | none                => g.finish config aggregate treeSource

-- The body of the loop after a sample has arrived.
def evaluate (g : ResourceGovernor) (s : Sampling) (rssBytes cpuMs : Option ℚ) : ResourceGovernor :=
  match g.objects[s.object]? with
  | none   => g
  | some p =>
    let (p, reason) := (p.measured rssBytes cpuMs).evaluateProcess config s.elapsed
    let g := g.update s.object fun _ => p
    match reason with
    | some reason => g.onTerminate p.pluginId reason none
    | none        => g

-- The memory of the process that has been sampled.
def rssOf (g : ResourceGovernor) (object : Nat) : ℚ :=
  (g.objects[object]?.bind (·.rssBytes)).getD 0

def step (g : ResourceGovernor) : Event → ResourceGovernor
  | .registerProcess info                 => g.registerProcess info
  | .unregisterProcess pluginId           => g.unregisterProcess pluginId
  | .handleUsageReport pluginId rss cpuMs => g.handleUsageReport pluginId rss cpuMs
  | .tick now mainRssBytes                =>
    match g.pass with
    | .idle => { g with pass := .reading (now - g.lastSampleAt), lastSampleAt := now, mainRssBytes }
    | _     => g
  | .cgroup treeSource                    =>
    match g.pass with
    | .reading elapsed => g.advance config 0 0 elapsed treeSource
    | _                => g
  | .sample rssBytes cpuMs                =>
    match g.pass with
    | .sampling s =>
      let g := g.evaluate config s rssBytes cpuMs
      g.advance config (s.slot + 1) (s.aggregate + g.rssOf s.object) s.elapsed s.treeSource
    | _           => g
  | .fail                                 =>
    match g.pass with
    | .idle => g
    | _     => { g with pass := .idle }

end ResourceGovernor
end Governor

namespace Governor.PluginProcessState

variable {config : Config} {elapsed : ℚ} {p : PluginProcessState} {rss cpu : Option ℚ} {r c : ℚ}

-- How many of the last samples in a row have been above the limit on memory.
def rssRun (p : PluginProcessState) : Nat :=
  (p.verdicts.takeWhile (·.overRss)).length

def cpuRun (p : PluginProcessState) : Nat :=
  (p.verdicts.takeWhile (·.overCpu)).length

-- As many samples in a row as are configured have been above a limit.
def Sustained (config : Config) (p : PluginProcessState) : Prop :=
  config.hardViolationSamples ≤ p.rssRun ∨ config.cpuHardConsecutiveSamples ≤ p.cpuRun

-- The counters count what they stand for.
structure Counted (p : PluginProcessState) : Prop where
  rss : p.rssViolationSamples = p.rssRun
  cpu : p.cpuViolationSamples = p.cpuRun

-- What a process keeps when more becomes known about it.
structure Follows (p p' : PluginProcessState) : Prop where
  pluginId   : p'.pluginId = p.pluginId
  terminated : p.terminated = true → p'.terminated = true

theorem report_eq : (p.report r c).toGovernedProcessInfo = p.toGovernedProcessInfo ∧
    (p.report r c).terminated = p.terminated ∧ (p.report r c).verdicts = p.verdicts ∧
    (p.report r c).rssViolationSamples = p.rssViolationSamples ∧
    (p.report r c).cpuViolationSamples = p.cpuViolationSamples := by
  rw [report]
  split
  · exact ⟨rfl, rfl, rfl, rfl, rfl⟩
  · exact ⟨rfl, rfl, rfl, rfl, rfl⟩

theorem report_follows : Follows p (p.report r c) := by
  have ⟨hinfo, hterminated, _⟩ := report_eq (p := p) (r := r) (c := c)
  exact ⟨congrArg _ hinfo, fun h => hterminated ▸ h⟩

theorem Counted.report (h : p.Counted) : (p.report r c).Counted := by
  have ⟨_, _, hverdicts, hrss, hcpu⟩ := report_eq (p := p) (r := r) (c := c)
  constructor
  case rss => rw [hrss, h.rss, rssRun, rssRun, hverdicts]
  case cpu => rw [hcpu, h.cpu, cpuRun, cpuRun, hverdicts]

-- A count goes on if the sample is above the limit, and else starts again.
theorem run_cons (f : Verdict → Bool) (v : Verdict) (vs : List Verdict) :
    ((v :: vs).takeWhile f).length = if f v then (vs.takeWhile f).length + 1 else 0 := by
  rw [List.takeWhile_cons]
  split
  · rfl
  · rfl

section Halves

variable {q : PluginProcessState} {v : Verdict} {vs : List Verdict}

-- What the first half of an evaluation does, which looks at the memory, to a process whose last
-- verdict is there already.
theorem evaluateRss_spec (config : Config) (ht : q.terminated = false) (hq : q.verdicts = v :: vs)
    (hv : v.overRss = q.overRss) (hcount : q.rssViolationSamples = (vs.takeWhile (·.overRss)).length) :
    ∃ n t, (q.evaluateRss config).fst = { q with rssViolationSamples := n, terminated := t } ∧ n = q.rssRun ∧
      ((q.evaluateRss config).snd = none ∧ t = false ∨
        (q.evaluateRss config).snd ≠ none ∧ t = true ∧ config.hardViolationSamples ≤ q.rssRun) := by
  have hrun : q.rssRun = if q.overRss then q.rssViolationSamples + 1 else 0 := by
    rw [rssRun, hq, run_cons, hv, hcount]
  rw [evaluateRss]
  split
  case isTrue hover   =>
    rw [if_pos hover] at hrun
    dsimp only
    split
    case isTrue hmany =>
      rw [requestTermination, if_neg (by simp [ht])]
      exact ⟨_, true, rfl, hrun.symm, .inr ⟨by simp, rfl, hrun ▸ hmany⟩⟩
    case isFalse      => exact ⟨_, false, by rw [ht], hrun.symm, .inl ⟨rfl, rfl⟩⟩
  case isFalse hunder =>
    rw [if_neg hunder] at hrun
    exact ⟨_, false, by rw [ht], hrun.symm, .inl ⟨rfl, rfl⟩⟩

-- What the second half does, which looks at the time on the processor.
theorem evaluateCpu_spec (config : Config) (elapsed : ℚ) (hq : q.verdicts = v :: vs)
    (hv : v.overCpu = q.overCpu config elapsed)
    (hcount : q.cpuViolationSamples = (vs.takeWhile (·.overCpu)).length)
    (husage : q.hasUsage elapsed = false → q.cpuViolationSamples = 0) :
    ∃ last n t, (q.evaluateCpu config elapsed).fst =
        { q with lastCpuMs := last, cpuViolationSamples := n, terminated := t } ∧ n = q.cpuRun ∧
      ((q.evaluateCpu config elapsed).snd = none ∧ t = q.terminated ∨
        (q.evaluateCpu config elapsed).snd ≠ none ∧ q.terminated = false ∧ t = true ∧
          config.cpuHardConsecutiveSamples ≤ q.cpuRun) := by
  have hrun : q.cpuRun = if q.overCpu config elapsed then q.cpuViolationSamples + 1 else 0 := by
    rw [cpuRun, hq, run_cons, hv, hcount]
  rw [evaluateCpu]
  split
  case isTrue hhas   =>
    rw [overCpu, hhas, Bool.true_and] at hrun
    dsimp only
    split
    case isTrue hover   =>
      rw [if_pos (decide_eq_true hover)] at hrun
      split
      case isTrue hmany =>
        rw [requestTermination]
        split
        case isTrue ht  => exact ⟨_, _, q.terminated, rfl, hrun.symm, .inl ⟨rfl, rfl⟩⟩
        case isFalse ht =>
          have ht : q.terminated = false := by simpa using ht
          exact ⟨_, _, true, rfl, hrun.symm, .inr ⟨by simp, ht, rfl, hrun ▸ hmany⟩⟩
      case isFalse      => exact ⟨_, _, q.terminated, rfl, hrun.symm, .inl ⟨rfl, rfl⟩⟩
    case isFalse hunder =>
      rw [if_neg (by simpa using hunder)] at hrun
      exact ⟨_, _, q.terminated, rfl, hrun.symm, .inl ⟨rfl, rfl⟩⟩
  case isFalse hnone =>
    have hnone : q.hasUsage elapsed = false := by simpa using hnone
    rw [overCpu, hnone, Bool.false_and, if_neg (by simp)] at hrun
    exact ⟨q.lastCpuMs, q.cpuViolationSamples, q.terminated, rfl, (husage hnone).trans hrun.symm, .inl ⟨rfl, rfl⟩⟩

end Halves

-- What an evaluation does to a process.
structure Evaluated (config : Config) (p : PluginProcessState) (result : PluginProcessState × Option Reason) :
    Prop where
  pluginId   : result.fst.pluginId = p.pluginId
  unchanged  : result.snd = none → result.fst.terminated = p.terminated
  requested  : result.snd ≠ none → p.terminated = false ∧ result.fst.terminated = true
  counted    : p.terminated = false → result.snd = none → result.fst.Counted
  sustained  : result.snd ≠ none → result.fst.Sustained config

theorem evaluateProcess_spec (config : Config) (elapsed : ℚ) (hcounted : p.terminated = false → p.Counted)
    (husage : p.hasUsage elapsed = false → p.cpuViolationSamples = 0) :
    Evaluated config p (p.evaluateProcess config elapsed) := by
  rw [evaluateProcess]
  dsimp only
  by_cases ht : p.terminated = true
  case pos =>
    rw [if_pos ht]
    exact ⟨rfl, fun _ => rfl, fun h => absurd rfl h, fun h => by simp [ht] at h, fun h => absurd rfl h⟩
  case neg =>
    have ht : p.terminated = false := by simpa using ht
    rw [if_neg (by simp [ht])]
    generalize hq : { p with verdicts := (⟨p.overRss, p.overCpu config elapsed⟩ : Verdict) :: p.verdicts } = q
    have hverdicts : q.verdicts = ⟨p.overRss, p.overCpu config elapsed⟩ :: p.verdicts := hq ▸ rfl
    have hqt : q.terminated = false := hq ▸ ht
    have ⟨n, t, hfst, hn, hsnd⟩ := evaluateRss_spec config hqt hverdicts (hq ▸ rfl) (hq ▸ (hcounted ht).rss)
    have ⟨last, m, t', hfst', hm, hsnd'⟩ := evaluateCpu_spec (q := (q.evaluateRss config).fst) config elapsed
      (by rw [hfst]; exact hverdicts) (by rw [hfst, ← hq]; rfl) (by rw [hfst, ← hq]; exact (hcounted ht).cpu)
      (by rw [hfst, ← hq]; exact husage)
    generalize q.evaluateRss config = first at *
    obtain ⟨q₁, byRss⟩ := first
    dsimp only at *
    generalize q₁.evaluateCpu config elapsed = second at *
    obtain ⟨q₂, byCpu⟩ := second
    dsimp only at *
    have hrun : q₂.rssRun = q.rssRun ∧ q₂.cpuRun = q₁.cpuRun := by
      rw [hfst', hfst]
      exact ⟨rfl, rfl⟩
    have hid : q₂.pluginId = p.pluginId := by rw [hfst', hfst, ← hq]
    have hterminated : q₁.terminated = t ∧ q₂.terminated = t' := by
      rw [hfst', hfst]
      exact ⟨rfl, rfl⟩
    rw [hterminated.left] at hsnd'
    rcases hsnd with ⟨rfl, rfl⟩ | ⟨hsome, rfl, hmany⟩
    · rw [Option.none_or]
      rcases hsnd' with ⟨rfl, rfl⟩ | ⟨hsome, _, rfl, hmany⟩
      · refine ⟨hid, fun _ => hterminated.right.trans ht.symm, fun h => absurd rfl h, fun _ _ => ?_,
          fun h => absurd rfl h⟩
        constructor
        case rss => rw [hrun.left, ← hn, hfst', hfst]
        case cpu => rw [hrun.right, ← hm, hfst']
      · refine ⟨hid, fun h => absurd h hsome, fun _ => ⟨ht, hterminated.right⟩, fun _ h => absurd h hsome,
          fun _ => .inr ?_⟩
        rwa [hrun.right]
    · have ⟨reason, hreason⟩ := Option.ne_none_iff_exists'.mp hsome
      rw [hreason, Option.some_or]
      rcases hsnd' with ⟨_, rfl⟩ | ⟨_, hfalse, _⟩
      · refine ⟨hid, fun h => (by cases h), fun _ => ⟨ht, hterminated.right⟩, fun _ h => (by cases h),
          fun _ => .inl ?_⟩
        rwa [hrun.left]
      · cases hfalse

end Governor.PluginProcessState
