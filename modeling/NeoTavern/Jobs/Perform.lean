import NeoTavern.Jobs.Store

namespace Jobs

open Tasks

namespace Manager

variable {P α β : Type} (config : Config P) (order : List String → List String) (env : Env)

-- What a call is answered while no other one is under way.
def answer (a : Action P) (m : Manager P) : (interface P).Reply a × Manager P :=
  (((m.exec order a).fst, env), (m.exec order a).snd)

def eval (job : Job P α) (s : Env × Manager P) : Except JobError α × (Env × Manager P) :=
  let r := (job.run.run s.fst).run (answer order env) s.snd
  (r.fst.fst, (r.fst.snd, r.snd))

-- A whole call.
def perform (m : Manager P) (operation : Operation P) : Except JobError (Result P) × Manager P :=
  let r := eval order env (operation.job config) (env, m)
  (r.fst, r.snd.snd)

section Eval

variable {order : List String → List String} {env : Env} {s : Env × Manager P}

@[simp]
theorem eval_pure {a : α} : eval order env (pure a) s = (.ok a, s) :=
  rfl

@[simp]
theorem eval_throw {e : JobError} : eval (α := α) order env (throw e) s = (.error e, s) :=
  rfl

@[simp]
theorem eval_get : eval order env (get : Job P Env) s = (.ok s.fst, s) :=
  rfl

@[simp]
theorem eval_now : eval order env (now : Job P Int) s = (.ok s.fst.now, s) :=
  rfl

@[simp]
theorem eval_perform {a : Action P} :
    eval order env (Jobs.perform a) s = (.ok (s.snd.exec order a).fst, (env, (s.snd.exec order a).snd)) :=
  rfl

theorem eval_bind {x : Job P α} {f : α → Job P β} : eval order env (x >>= f) s =
    match eval order env x s with
    | (.ok a, s')    => eval order env (f a) s'
    | (.error e, s') => (.error e, s') := by
  have hrun := Task.run_bind (answer order env) (x.run.run s.fst)
    (fun r => (ExceptT.bindCont f r.fst).run r.snd) s.snd
  refine (congrArg (fun r => (r.fst.fst, (r.fst.snd, r.snd))) hrun).trans ?_
  simp only [eval]
  generalize Task.run (answer order env) (x.run.run s.fst) s.snd = r
  obtain ⟨⟨_ | _, _⟩, _⟩ := r
  case error => rfl
  case ok    => rfl

theorem eval_map {x : Job P α} {f : α → β} : eval order env (f <$> x) s =
    ((eval order env x s).fst.map f, (eval order env x s).snd) := by
  have hbind : f <$> x = x >>= fun a => pure (f a) := by
    simp only [Functor.map, bind, ExceptT.map, ExceptT.bind, pure, ExceptT.pure]
    congr 1
  rw [hbind, eval_bind]
  obtain ⟨_ | _, _⟩ := eval order env x s
  case error => rfl
  case ok    => rfl

end Eval
section Readings

variable {order : List String → List String} {env : Env} {m : Manager P} {k : Key}
  {pluginId jobId : String} {r : Read P}

-- What is on a file is the record of its name.
structure Tidy (m : Manager P) : Prop where
  nodup : (m.files.map (·.fst)).Nodup
  dirs  : m.dirs.Nodup
  files : ∀ k f, Assoc.get m.files k = some f →
    validId k.fst ∧ validId k.snd ∧ ∃ record, f.record = some record ∧ record.key = k

def reading (m : Manager P) (k : Key) : Option (Read P) :=
  match Assoc.get m.files k with
  | some ⟨some record, stamp⟩ => if record.key = k then some ⟨record, stamp⟩ else none
  | _                         => none

def job? (m : Manager P) (k : Key) : Option (JobRecord P) :=
  (m.reading k).map (·.record)

def names (m : Manager P) (pluginId : String) : List String :=
  (m.files.filter (·.fst.fst = pluginId)).map (·.fst.snd)

def readNames (m : Manager P) (pluginId : String) (jobIds : List String) : List (Read P) :=
  jobIds.filterMap fun jobId => if validId jobId then m.reading (pluginId, jobId) else none

def readings (m : Manager P) (order : List String → List String) (pluginId : String) : List (Read P) :=
  if validId pluginId then m.readNames pluginId (order <| m.names pluginId) else []

theorem key_of_reading (h : m.reading k = some r) : r.record.key = k := by
  rw [reading] at h
  split at h
  case h_1 hget =>
    split at h
    case isTrue hk => exact Option.some.inj h ▸ hk
    case isFalse   => cases h
  case h_2 => cases h

theorem get_of_reading (h : m.reading k = some r) :
    Assoc.get m.files k = some ⟨some r.record, r.stamp⟩ := by
  rw [reading] at h
  split at h
  case h_1 hget =>
    split at h
    case isTrue  => exact Option.some.inj h ▸ hget
    case isFalse => cases h
  case h_2 => cases h

theorem reading_congr {m' : Manager P} (h : Assoc.get m'.files k = Assoc.get m.files k) :
    m'.reading k = m.reading k := by
  rw [reading, reading, h]

theorem Tidy.valid (h : m.Tidy) (hr : m.reading k = some r) : validId k.fst ∧ validId k.snd := by
  have ⟨hp, hj, _⟩ := h.files k _ <| get_of_reading hr
  exact ⟨hp, hj⟩

theorem mem_names : jobId ∈ m.names pluginId ↔ (Assoc.get m.files (pluginId, jobId)).isSome := by
  rw [names, List.mem_map, Option.isSome_iff_ne_none, ne_eq, Assoc.get_eq_none_iff]
  push Not
  constructor
  case mp =>
    rintro ⟨⟨⟨p, j⟩, f⟩, he, rfl⟩
    have ⟨hm, hp⟩ := List.mem_filter.mp he
    exact ⟨_, hm, by rw [← of_decide_eq_true hp]⟩
  case mpr =>
    rintro ⟨⟨_, f⟩, hm, rfl⟩
    exact ⟨_, List.mem_filter.mpr ⟨hm, decide_eq_true rfl⟩, rfl⟩

theorem Tidy.nodup_names (h : m.Tidy) : (m.names pluginId).Nodup := by
  have hsub : ((m.files.filter (·.fst.fst = pluginId)).map (·.fst)).Nodup :=
    h.nodup.sublist <| List.filter_sublist.map _
  have hmap : m.names pluginId = ((m.files.filter (·.fst.fst = pluginId)).map (·.fst)).map Prod.snd := by
    rw [names, List.map_map]
    rfl
  rw [hmap]
  apply List.Nodup.map_on _ hsub
  intro k hk l hl heq
  have hfst {k : Key} (hk : k ∈ (m.files.filter (·.fst.fst = pluginId)).map (·.fst)) : k.fst = pluginId := by
    obtain ⟨e, he, rfl⟩ := List.mem_map.mp hk
    exact of_decide_eq_true (List.mem_filter.mp he).right
  exact Prod.ext ((hfst hk).trans (hfst hl).symm) heq

theorem eval_readFiles (jobIds : List String) : eval order env (readFiles pluginId jobIds) (env, m) =
    (.ok <| m.readNames pluginId jobIds, (env, m)) := by
  induction jobIds
  case nil => rfl
  case cons jobId jobIds ih =>
    rw [readFiles]
    by_cases hid : validId jobId
    case neg => simpa [hid, readNames] using ih
    case pos =>
      simp only [hid, Bool.not_true, Bool.false_eq_true, if_false, eval_bind, eval_perform, exec, ih]
      have hcons : m.readNames pluginId (jobId :: jobIds) =
          (m.reading (pluginId, jobId)).toList ++ m.readNames pluginId jobIds := by
        rw [readNames, List.filterMap_cons, if_pos hid, ← readNames]
        cases m.reading (pluginId, jobId) <;> rfl
      rw [hcons, reading]
      rcases hget : Assoc.get m.files (pluginId, jobId) with _ | ⟨_ | record, stamp⟩
      · rfl
      · rfl
      · by_cases hk : record.key = (pluginId, jobId)
        case pos => simp [hk]
        case neg => simp [hk]

theorem eval_readDir : eval order env (readDir pluginId) (env, m) =
    (.ok <| m.readings order pluginId, (env, m)) := by
  rw [readDir]
  by_cases hid : validId pluginId
  case neg => simp [hid, readings]
  case pos =>
    simp only [hid, Bool.not_true, Bool.false_eq_true, if_false, eval_bind, eval_perform, exec,
      eval_readFiles, readings, if_true, names]

theorem mem_readings (ht : m.Tidy) (horder : ∀ l, (order l).Perm l) :
    r ∈ m.readings order pluginId ↔ r.record.pluginId = pluginId ∧ m.reading r.record.key = some r := by
  have hkey {jobId} (h : m.reading (pluginId, jobId) = some r) :
      r.record.pluginId = pluginId ∧ r.record.key = (pluginId, jobId) :=
    have hk := key_of_reading h
    ⟨congrArg Prod.fst hk, hk⟩
  constructor
  case mp =>
    intro h
    rw [readings] at h
    split at h
    case isFalse => cases h
    case isTrue  =>
      have ⟨jobId, _, hread⟩ := List.mem_filterMap.mp h
      split at hread
      case isFalse => cases hread
      case isTrue  => exact ⟨(hkey hread).left, (hkey hread).right ▸ hread⟩
  case mpr =>
    rintro ⟨rfl, hread⟩
    have ⟨hp, hj⟩ := ht.valid hread
    rw [readings, if_pos (show validId r.record.pluginId from hp)]
    refine List.mem_filterMap.mpr ⟨r.record.jobId, ?_, (if_pos hj).trans hread⟩
    have hget := get_of_reading hread
    exact (horder _).mem_iff.mpr <| mem_names.mpr <| Option.isSome_iff_exists.mpr ⟨_, hget⟩

theorem nodup_readings (ht : m.Tidy) (horder : ∀ l, (order l).Perm l) :
    ((m.readings order pluginId).map (·.record.key)).Nodup := by
  rw [readings]
  split
  case isFalse => exact List.nodup_nil
  case isTrue  =>
    have hnames : (order <| m.names pluginId).Nodup := (horder _).nodup_iff.mpr ht.nodup_names
    rw [List.Nodup, List.pairwise_map, readNames, List.pairwise_filterMap]
    apply hnames.imp
    intro jobId jobId' hne r hr r' hr' heq
    have hkey {jobId r} (h : (if validId jobId then m.reading (pluginId, jobId) else none) = some r) :
        r.record.key = (pluginId, jobId) := by
      split at h
      case isTrue  => exact key_of_reading h
      case isFalse => cases h
    exact hne <| congrArg Prod.snd <| (hkey hr).symm.trans <| heq.trans <| hkey hr'

theorem find_readings (ht : m.Tidy) (horder : ∀ l, (order l).Perm l) :
    find (m.readings order pluginId) jobId = m.reading (pluginId, jobId) := by
  have huniq {r} (hr : r ∈ m.readings order pluginId) (hj : r.record.jobId = jobId) :
      m.reading (pluginId, jobId) = some r := by
    have ⟨hp, hread⟩ := (mem_readings ht horder).mp hr
    rwa [JobRecord.key, hp, hj] at hread
  cases hread : m.reading (pluginId, jobId)
  case none =>
    apply List.find?_eq_none.mpr
    intro r hr hj
    rw [huniq hr <| of_decide_eq_true hj] at hread
    cases hread
  case some r =>
    have hk := key_of_reading hread
    have hmem : r ∈ m.readings order pluginId :=
      (mem_readings ht horder).mpr ⟨congrArg Prod.fst hk, hk ▸ hread⟩
    have hsome : (find (m.readings order pluginId) jobId).isSome :=
      List.find?_isSome.mpr ⟨r, hmem, decide_eq_true <| congrArg Prod.snd hk⟩
    have ⟨r', hr'⟩ := Option.isSome_iff_exists.mp hsome
    have hj : r'.record.jobId = jobId := by simpa using List.find?_some hr'
    rw [hr', ← hread]
    exact (huniq (List.mem_of_find?_eq_some hr') hj).symm

end Readings

end Manager
end Jobs
