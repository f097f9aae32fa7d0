import NeoTavern.Lib.Runs
import NeoTavern.Jobs.Store

namespace Jobs

open Tasks

-- Nothing is emitted for a job that is finished, and no file is replaced by what comes from an older state
-- than one that has been acknowledged.
def Lawful : List Entry → Prop
  | []                   => True
  | .emitted k :: log    => .finished k ∉ log ∧ Lawful log
  | .wrote k base :: log => (∀ stamp, .acknowledged k stamp ∈ log → stamp ≤ base.getD 0) ∧ Lawful log
  | _ :: log             => Lawful log

namespace Manager

variable {P : Type} {config : Config P} {order : List String → List String} {m m' : Manager P}
  {a : Action P} {k : Key} {w i : Nat} {f : File P} {env : Env}

structure Durable (m : Manager P) : Prop where
  absent  : ∀ k, .finished k ∈ m.log → Assoc.get m.files k = none
  lawful  : Lawful m.log
  bounded : ∀ p, m.count p ≤ maxJobsPerPlugin

-- What is written over is still what has been read, a new file has a name of its own and a place, and what
-- is emitted has its file.
def Permits (m : Manager P) : Action P → Prop
  | .write record (some base) => (Assoc.get m.files record.key).any (·.stamp = base)
  | .write record none        => record.key ∉ m.known ∧ m.count record.pluginId < maxJobsPerPlugin
  | .emit due                 => (Assoc.get m.files (due.pluginId, due.jobId)).isSome
  | _                         => True

def next? (m : Manager P) (i : Nat) : Option (Action P) :=
  m.calls[i]? >>= fun call => call.task.request?

def Undisturbed (m : Manager P) : Event P → Prop
  | .advance i _ => ∀ a ∈ m.next? i, m.Permits a
  | _            => True

instance : ∀ a, Decidable (m.Permits a)
  | .write _ (some _) => inferInstanceAs <| Decidable (Option.any _ _ = true)
  | .write _ none     => inferInstanceAs <| Decidable (_ ∧ _)
  | .emit _           => inferInstanceAs <| Decidable (Option.isSome _ = true)
  | .readRoot         => isTrue trivial
  | .readdir _        => isTrue trivial
  | .readFile _       => isTrue trivial
  | .rm _             => isTrue trivial

instance : ∀ e, Decidable (Undisturbed m e)
  | .advance i _ => inferInstanceAs <| Decidable (∀ a ∈ m.next? i, m.Permits a)
  | .call _ _    => isTrue trivial
  | .return_ _   => isTrue trivial

-- A key that is in use no more.
structure Gone (m : Manager P) (k : Key) : Prop where
  known : k ∈ m.known
  none  : Assoc.get m.files k = none

-- What has been written under a stamp is there, or something newer, or nothing.
structure Settled (m : Manager P) (k : Key) (w : Nat) : Prop where
  known : k ∈ m.known
  past  : w < m.stamp
  file  : ∀ f, Assoc.get m.files k = some f → w ≤ f.stamp

-- Files that have been known become newer, or go for good.
structure Later (m m' : Manager P) : Prop where
  known : ∀ k ∈ m.known, k ∈ m'.known
  stamp : m.stamp ≤ m'.stamp
  files : ∀ k ∈ m.known, ∀ f', Assoc.get m'.files k = some f' →
    ∃ f, Assoc.get m.files k = some f ∧ f.stamp ≤ f'.stamp

structure Sound (m : Manager P) : Prop where
  lawful   : Lawful m.log
  bounded  : ∀ p, m.count p ≤ maxJobsPerPlugin
  known    : ∀ k f, Assoc.get m.files k = some f → k ∈ m.known
  past     : ∀ k f, Assoc.get m.files k = some f → f.stamp < m.stamp
  removed  : ∀ c ∈ m.calls, ∀ k ∈ c.removed, m.Gone k
  written  : ∀ c ∈ m.calls, ∀ x ∈ c.written, m.Settled x.fst x.snd
  finished : ∀ k, .finished k ∈ m.log → m.Gone k
  settled  : ∀ k w, .acknowledged k w ∈ m.log → m.Settled k w

theorem Gone.later (hg : m.Gone k) (h : Later m m') : m'.Gone k := by
  refine ⟨h.known k hg.known, ?_⟩
  cases hget : Assoc.get m'.files k
  case none    => rfl
  case some f' =>
    have ⟨f, hf, _⟩ := h.files k hg.known f' hget
    rw [hg.none] at hf
    cases hf

theorem Settled.later (hs : m.Settled k w) (h : Later m m') : m'.Settled k w := by
  refine ⟨h.known k hs.known, Nat.lt_of_lt_of_le hs.past h.stamp, fun f' hf' => ?_⟩
  have ⟨f, hf, hle⟩ := h.files k hs.known f' hf'
  exact (hs.file f hf).trans hle

theorem base_of_permits {record : JobRecord P} {base : Nat} (hp : m.Permits (.write record (some base))) :
    ∃ f, Assoc.get m.files record.key = some f ∧ f.stamp = base := by
  have hany : (Assoc.get m.files record.key).any (·.stamp = base) = true := hp
  cases hget : Assoc.get m.files record.key
  case none   => simp [hget] at hany
  case some f => exact ⟨f, rfl, by simpa [hget] using hany⟩

theorem Sound.durable (hs : m.Sound) : m.Durable :=
  ⟨fun k hk => (hs.finished k hk).none, hs.lawful, hs.bounded⟩

section Counts

variable {files : List (Key × File P)} {p : String}

theorem length_filter (files : List (Key × File P)) (p : String) :
    (files.filter (·.fst.fst = p)).length = ((files.map (·.fst)).filter (·.fst = p)).length := by
  rw [List.filter_map, List.length_map]
  rfl

theorem count_set_of_isSome (h : (Assoc.get files k).isSome) :
    ((Assoc.set files k f).filter (·.fst.fst = p)).length = (files.filter (·.fst.fst = p)).length := by
  rw [Assoc.set, if_pos h, length_filter, Assoc.map_fst_replace, length_filter]

theorem count_set_of_none (h : Assoc.get files k = none) :
    ((Assoc.set files k f).filter (·.fst.fst = p)).length =
      (files.filter (·.fst.fst = p)).length + if k.fst = p then 1 else 0 := by
  have hnone : ¬(Assoc.get files k).isSome := by simp [h]
  rw [Assoc.set, if_neg hnone, List.filter_append, List.length_append]
  by_cases hp : k.fst = p
  case pos => simp [hp]
  case neg => simp [hp]

end Counts

section Exec

variable {record : JobRecord P} {base : Option Nat}

-- A file that is written over is there, and one that is new was not known.
theorem Later.write (hs : m.Sound) (hp : m.Permits (.write record base)) :
    Later m (m.exec order (.write record base)).snd := by
  refine ⟨fun k => List.mem_cons_of_mem _, Nat.le_succ _, fun k hk f' hf' => ?_⟩
  by_cases hkey : k = record.key
  case pos =>
    subst hkey
    rw [exec, Assoc.get_set_self] at hf'
    cases hf'
    cases base
    case none      => exact absurd hk hp.left
    case some base =>
      have ⟨f, hf, _⟩ := base_of_permits hp
      exact ⟨f, hf, Nat.le_of_lt <| hs.past _ f hf⟩
  case neg =>
    rw [exec, Assoc.get_set_of_ne hkey] at hf'
    exact ⟨f', hf', Nat.le_refl _⟩

theorem Later.rm : Later m (m.exec order (.rm k)).snd := by
  refine ⟨fun _ => List.mem_cons_of_mem _, Nat.le_refl _, fun l _ f' hf' => ?_⟩
  by_cases hkey : l = k
  case pos =>
    rw [exec, hkey, Assoc.get_delete_self] at hf'
    cases hf'
  case neg =>
    rw [exec, Assoc.get_delete_of_ne hkey] at hf'
    exact ⟨f', hf', Nat.le_refl _⟩

theorem Later.exec (hs : m.Sound) (hp : m.Permits a) : Later m (m.exec order a).snd := by
  cases a
  case write record base => exact .write hs hp
  case rm k              => exact .rm
  all_goals exact ⟨fun _ => id, Nat.le_refl _, fun _ _ f hf => ⟨f, hf, Nat.le_refl _⟩⟩

-- What holds of the calls and of the log goes on to hold.
theorem Sound.later (hs : m.Sound) (h : Later m m') (hcalls : m'.calls = m.calls)
    (hlog : ∀ k, .finished k ∈ m'.log → .finished k ∈ m.log)
    (hack : ∀ k w, .acknowledged k w ∈ m'.log → .acknowledged k w ∈ m.log)
    (hlawful : Lawful m'.log) (hbounded : ∀ p, m'.count p ≤ maxJobsPerPlugin)
    (hknown : ∀ k f, Assoc.get m'.files k = some f → k ∈ m'.known)
    (hpast : ∀ k f, Assoc.get m'.files k = some f → f.stamp < m'.stamp) : m'.Sound where
  lawful           := hlawful
  bounded          := hbounded
  known            := hknown
  past             := hpast
  removed c hc k hk := (hs.removed c (hcalls ▸ hc) k hk).later h
  written c hc x hx := (hs.written c (hcalls ▸ hc) x hx).later h
  finished k hk    := (hs.finished k <| hlog k hk).later h
  settled k w hk   := (hs.settled k w <| hack k w hk).later h

theorem Sound.write (hs : m.Sound) (hp : m.Permits (.write record base)) :
    (m.exec order (.write record base)).snd.Sound := by
  refine hs.later (.write hs hp) rfl (by simp [Manager.exec]) (by simp [Manager.exec]) ?_ ?_ ?_ ?_
  · refine ⟨fun w hw => ?_, hs.lawful⟩
    have hset := hs.settled _ w hw
    cases base
    case none      => exact absurd hset.known hp.left
    case some base =>
      have ⟨f, hf, hstamp⟩ := base_of_permits hp
      have hle := hset.file f hf
      rwa [hstamp] at hle
  · intro p
    cases base
    case none      =>
      have hnone : Assoc.get m.files record.key = none := by
        cases hget : Assoc.get m.files record.key
        case none   => rfl
        case some f => exact absurd (hs.known _ f hget) hp.left
      rw [count, exec, count_set_of_none hnone]
      split
      case isTrue hplugin =>
        have hroom := hp.right
        rw [count] at hroom
        rw [← hplugin]
        exact hroom
      case isFalse        => exact hs.bounded p
    case some base =>
      have ⟨f, hf, _⟩ := base_of_permits hp
      rw [count, exec, count_set_of_isSome (by rw [hf]; rfl)]
      exact hs.bounded p
  · intro k f hf
    by_cases hkey : k = record.key
    case pos => exact hkey ▸ List.mem_cons_self
    case neg =>
      rw [exec, Assoc.get_set_of_ne hkey] at hf
      exact List.mem_cons_of_mem _ <| hs.known k f hf
  · intro k f hf
    by_cases hkey : k = record.key
    case pos =>
      rw [exec, hkey, Assoc.get_set_self] at hf
      cases hf
      exact Nat.lt_succ_self _
    case neg =>
      rw [exec, Assoc.get_set_of_ne hkey] at hf
      exact Nat.lt_succ_of_lt <| hs.past k f hf

theorem get_of_get_delete {files : List (Key × File P)} {l : Key}
    (h : Assoc.get (Assoc.delete files k) l = some f) : Assoc.get files l = some f := by
  by_cases hkey : l = k
  case pos =>
    rw [hkey, Assoc.get_delete_self] at h
    cases h
  case neg => rwa [Assoc.get_delete_of_ne hkey] at h

theorem Sound.rm (hs : m.Sound) : (m.exec order (.rm k)).snd.Sound := by
  refine hs.later .rm rfl (fun _ => id) (fun _ _ => id) hs.lawful ?_ ?_ ?_
  · intro p
    refine (List.Sublist.length_le ?_).trans <| hs.bounded p
    exact List.filter_sublist.filter _
  · intro l f hf
    exact List.mem_cons_of_mem _ <| hs.known l f <| get_of_get_delete hf
  · intro l f hf
    exact hs.past l f <| get_of_get_delete hf

theorem Sound.exec (hs : m.Sound) (hp : m.Permits a) : (m.exec order a).snd.Sound := by
  cases a
  case write record base => exact hs.write hp
  case rm k              => exact hs.rm
  case emit due          =>
    have hlater : Later m (m.exec order (.emit due)).snd := .exec hs hp
    refine hs.later hlater rfl (by simp [Manager.exec]) (by simp [Manager.exec]) ⟨fun hf => ?_, hs.lawful⟩
      hs.bounded hs.known hs.past
    have hnone := (hs.finished _ hf).none
    have hsome : (Assoc.get m.files (due.pluginId, due.jobId)).isSome := hp
    rw [hnone] at hsome
    cases hsome
  all_goals exact hs

end Exec

section Steps

variable {c : Call P}

theorem calls_exec : (m.exec order a).snd.calls = m.calls := by
  cases a <;> rfl

-- What a call notes of its action is so after the action.
theorem removed_recordAction (hs : m.Sound) (hp : m.Permits a) (hc : c ∈ m.calls) :
    ∀ k ∈ (m.recordAction c a).removed, (m.exec order a).snd.Gone k := by
  have hold (k : Key) (hk : k ∈ c.removed) : (m.exec order a).snd.Gone k :=
    (hs.removed c hc k hk).later <| .exec hs hp
  cases a
  case rm k =>
    intro l hl
    rcases List.mem_cons.mp hl with rfl | hl
    · exact ⟨List.mem_cons_self, Assoc.get_delete_self⟩
    · exact hold l hl
  all_goals exact hold

theorem written_recordAction (hs : m.Sound) (hp : m.Permits a) (hc : c ∈ m.calls) :
    ∀ x ∈ (m.recordAction c a).written, (m.exec order a).snd.Settled x.fst x.snd := by
  have hold (x : Key × Nat) (hx : x ∈ c.written) : (m.exec order a).snd.Settled x.fst x.snd :=
    (hs.written c hc x hx).later <| .exec hs hp
  cases a
  case write record base =>
    intro x hx
    rcases List.mem_cons.mp hx with rfl | hx
    · refine ⟨List.mem_cons_self, Nat.lt_succ_self _, fun f hf => ?_⟩
      rw [exec, Assoc.get_set_self] at hf
      cases hf
      exact Nat.le_refl _
    · exact hold x hx
  all_goals exact hold

-- The calls and the log may change in any way that goes with the files.
theorem Sound.congr (hs : m.Sound) (hfiles : m'.files = m.files) (hknown : m'.known = m.known)
    (hstamp : m'.stamp = m.stamp) (hlawful : Lawful m'.log)
    (hremoved : ∀ c ∈ m'.calls, ∀ k ∈ c.removed, m.Gone k)
    (hwritten : ∀ c ∈ m'.calls, ∀ x ∈ c.written, m.Settled x.fst x.snd)
    (hfinished : ∀ k, .finished k ∈ m'.log → m.Gone k)
    (hsettled : ∀ k w, .acknowledged k w ∈ m'.log → m.Settled k w) : m'.Sound := by
  have hlater : Later m m' := by
    refine ⟨fun k hk => hknown ▸ hk, Nat.le_of_eq hstamp.symm, fun _ _ f hf => ⟨f, ?_, Nat.le_refl _⟩⟩
    rwa [← hfiles]
  refine ⟨hlawful, fun p => ?_, fun k f hf => ?_, fun k f hf => ?_,
    fun c hc k hk => (hremoved c hc k hk).later hlater,
    fun c hc x hx => (hwritten c hc x hx).later hlater,
    fun k hk => (hfinished k hk).later hlater, fun k w hk => (hsettled k w hk).later hlater⟩
  · rw [count, hfiles]
    exact hs.bounded p
  · rw [hfiles] at hf
    exact hknown ▸ hs.known k f hf
  · rw [hfiles] at hf
    exact hstamp ▸ hs.past k f hf

theorem Sound.advance (hs : m.Sound) (hp : ∀ a ∈ m.next? i, m.Permits a) :
    (m.advance order i env).Sound := by
  rw [Manager.advance]
  split
  · exact hs
  · rename_i call hcall
    split
    · exact hs
    · rename_i a next htask
      have hnext : m.next? i = some a := by
        have hrequest : call.task.request? = some a := by rw [htask, Task.request?]
        rw [next?, hcall]
        exact hrequest
      have hpermits : m.Permits a := hp a hnext
      have hexec : (m.exec order a).snd.Sound := hs.exec hpermits
      have hmem := List.mem_of_getElem? hcall
      have hcalls : (m.exec order a).snd.calls = m.calls := calls_exec
      refine hexec.congr rfl rfl rfl hexec.lawful ?_ ?_ hexec.finished hexec.settled
      · intro c hc
        rcases List.mem_or_eq_of_mem_set hc with hc | rfl
        · exact hexec.removed c <| hcalls.symm ▸ hc
        · exact removed_recordAction hs hpermits hmem
      · intro c hc
        rcases List.mem_or_eq_of_mem_set hc with hc | rfl
        · exact hexec.written c <| hcalls.symm ▸ hc
        · exact written_recordAction hs hpermits hmem

theorem Sound.call (hs : m.Sound) (operation : Operation P) : (m.call config operation env).Sound := by
  rw [Manager.call]
  split
  · exact hs
  · refine hs.congr rfl rfl rfl hs.lawful (fun c hc => ?_) (fun c hc => ?_) hs.finished hs.settled
    · rcases List.mem_append.mp hc with hc | hc
      · exact hs.removed c hc
      · rw [List.mem_singleton.mp hc]
        intro k hk
        cases hk
    · rcases List.mem_append.mp hc with hc | hc
      · exact hs.written c hc
      · rw [List.mem_singleton.mp hc]
        intro x hx
        cases hx

theorem lawful_append_entries {log : List Entry} (h : Lawful log) : Lawful (entries c ++ log) := by
  have hgone (ks : List Key) {log : List Entry} (h : Lawful log) : Lawful (ks.map .finished ++ log) := by
    induction ks
    case nil          => exact h
    case cons _ _ ih  => exact ih
  have hacked (xs : List (Key × Nat)) :
      Lawful (xs.map (fun w => .acknowledged w.fst w.snd) ++ log) := by
    induction xs
    case nil          => exact h
    case cons _ _ ih  => exact ih
  rw [entries, List.append_assoc]
  exact hgone _ <| hacked _

theorem Sound.return_ (hs : m.Sound) : (m.return_ i).Sound := by
  rw [Manager.return_]
  split
  · exact hs
  · rename_i call hcall
    have hmem := List.mem_of_getElem? hcall
    split
    · refine hs.congr rfl rfl rfl (lawful_append_entries hs.lawful)
        (fun c hc => hs.removed c <| List.mem_of_mem_eraseIdx hc)
        (fun c hc => hs.written c <| List.mem_of_mem_eraseIdx hc) (fun k hk => ?_) (fun k w hk => ?_)
      · rcases List.mem_append.mp hk with hk | hk
        · exact hs.removed call hmem k (by simpa [entries] using hk)
        · exact hs.finished k hk
      · rcases List.mem_append.mp hk with hk | hk
        · exact hs.written call hmem (k, w) (by simpa [entries] using hk)
        · exact hs.settled k w hk
    · exact hs.congr rfl rfl rfl hs.lawful
        (fun c hc => hs.removed c <| List.mem_of_mem_eraseIdx hc)
        (fun c hc => hs.written c <| List.mem_of_mem_eraseIdx hc) hs.finished hs.settled
    · exact hs

theorem Sound.step (hs : m.Sound) (e : Event P) (hok : Undisturbed m e) :
    (step config order m e).Sound := by
  cases e
  case call operation env => exact hs.call operation
  case advance i env      => exact hs.advance hok
  case return_ i          => exact hs.return_

theorem Sound.start (d : Directory P) : (start d).Sound := by
  have hget (k : Key) (f : File P) (h : Assoc.get (Manager.start d).files k = some f) :
      ∃ x ∈ d.files, k = x.fst ∧ f.stamp = 0 := by
    have ⟨x, hx, heq⟩ := List.mem_map.mp <| Assoc.mem_of_get h
    cases heq
    exact ⟨x, hx, rfl, rfl⟩
  refine ⟨trivial, fun p => ?_, fun k f h => ?_, fun k f h => ?_, ?_, ?_, ?_, ?_⟩
  · have hcount := d.bounded p
    rw [Manager.count, Manager.start, List.filter_map, List.length_map]
    exact hcount
  · have ⟨x, hx, hk, _⟩ := hget k f h
    exact hk ▸ List.mem_map_of_mem hx
  · have ⟨_, _, _, hstamp⟩ := hget k f h
    rw [hstamp]
    exact Nat.one_pos
  all_goals simp [Manager.start]

-- In a run in which nobody disturbs what another call has read, what is finished stays so.
theorem durable_throughout (config : Config P) (order : List String → List String) (d : Directory P)
    (es : List (Event P)) (h : Runs.Meets (Manager.step config order) Undisturbed (Manager.start d) es) :
    Runs.Throughout (Manager.step config order) Durable (Manager.start d) es := by
  have hsound : Runs.Throughout (Manager.step config order) Sound (Manager.start d) es :=
    Runs.throughout_of_meets (fun _ e hs hok => hs.step e hok) (.start d) h
  exact hsound.mono fun _ hs => hs.durable

end Steps

section Examples

private def settings : Config Unit where
  cron           := ⟨fun _ => false, fun _ _ => none⟩
  payloadBytes _ := some 2
  maxRunAtMs     := 10000000

private def every (name : String) : Operation Unit :=
  .schedule { pluginId := "p", name, intervalMs := some 1000 }

private def scheduled : List (Event Unit) := [
  .call (every "a") ⟨0, "a"⟩, .advance 0 ⟨0, "a"⟩, .advance 0 ⟨0, "a"⟩, .return_ 0,
  .call (every "b") ⟨0, "b"⟩, .advance 0 ⟨0, "b"⟩, .advance 0 ⟨0, "b"⟩, .advance 0 ⟨0, "b"⟩, .return_ 0
]

theorem durable_throughout_cancelled : Runs.Throughout (Manager.step settings id) Durable
    (Manager.start .empty) (scheduled ++ [.call (.cancel "p" "b") ⟨1, ""⟩, .advance 0 ⟨1, ""⟩,
      .advance 0 ⟨1, ""⟩, .return_ 0, .call .scanOnce ⟨1000, ""⟩, .advance 0 ⟨1000, ""⟩,
      .advance 0 ⟨1000, ""⟩, .advance 0 ⟨1000, ""⟩, .advance 0 ⟨1000, ""⟩, .advance 0 ⟨1000, ""⟩]) :=
  durable_throughout settings id .empty _ (by decide +kernel)

-- While a scan waits for its write of one job, another one that it has found is cancelled. Then it is
-- emitted, and written again.
theorem cancelled_comes_back : ¬Runs.Throughout (Manager.step settings id) Durable
    (Manager.start .empty) (scheduled ++ [.call .scanOnce ⟨1000, ""⟩, .advance 0 ⟨1000, ""⟩,
      .advance 0 ⟨1000, ""⟩, .advance 0 ⟨1000, ""⟩, .advance 0 ⟨1000, ""⟩, .advance 0 ⟨1000, ""⟩,
      .call (.cancel "p" "b") ⟨1000, ""⟩, .advance 1 ⟨1000, ""⟩, .advance 1 ⟨1000, ""⟩, .return_ 1,
      .advance 0 ⟨1000, ""⟩, .advance 0 ⟨1000, ""⟩, .advance 0 ⟨1000, ""⟩]) := by
  intro h
  have habsent := h.last.absent ("p", "b") (by decide +kernel)
  revert habsent
  decide +kernel

end Examples
end Manager
end Jobs
