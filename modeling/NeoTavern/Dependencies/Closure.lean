import Mathlib
import NeoTavern.Dependencies.World

namespace Dependencies

open ModuleMap (Text length)

variable {B : Type} {p : Platform B} {net : Net B} {options : Options} {w w' : World B}
  {item : QueueItem} {outcome : InstallOutcome} {name range version tag : Text}

section Registry

variable (net : Net B)

def packument? (name : Text) : Option Json :=
  match net.respond name with
  | .packument json => some json
  | _               => none

def versions? (name : Text) : Option Json :=
  packument? net name >>= fun json => (json.property "versions".toList).filter Json.isObject

-- What the registry tells of a version of a package.
def versionMeta? (name version : Text) : Option Json :=
  versions? net name >>= fun versions => Assoc.get versions.entries version

def tagged? (name tag : Text) : Option Text :=
  packument? net name >>= Json.property "dist-tags".toList >>= Json.property tag >>= Json.asText

-- A version is in a range, or the one that a dist-tag names.
def Meets (name range version : Text) : Prop :=
  if isValidRange range then satisfiesRange version range = true else tagged? net name range = some version

-- A version depends on a package, by a text.
def DependsOn (name version dependency range : Text) : Prop :=
  ∃ properties, versionMeta? net name version >>= Json.property "dependencies".toList =
    some (.object properties) ∧ (dependency, .string range) ∈ properties

end Registry

-- A package is installed from what its integrity tells, which is that of the registry where it has one.
structure Genuine (p : Platform B) (net : Net B) (d : ResolvedDependency) (placed : Placed B) : Prop where
  root      : packageRoot p placed.bytes d.name = .ok placed.entries
  integrity : (tarballOf (versionMeta? net d.name d.version)).integrity = d.integrity ∧
      verifyIntegrity p placed.bytes d.integrity d.name = .ok () ∨
    (tarballOf (versionMeta? net d.name d.version)).integrity = [] ∧
      d.integrity = "sha512-".toList ++ p.sha512 placed.bytes

section Resolve

theorem fetchPackument_eq_ok {json : Json} (h : exec p net (fetchPackument item.name) w = (.ok json, w')) :
    packument? net item.name = some json ∧ w' = w := by
  have ⟨response, v, hfetch, hrest⟩ := exec_bind_eq_ok.mp h
  rw [exec_perform] at hfetch
  cases hfetch
  dsimp only [handle] at hrest
  rw [packument?]
  split at hrest
  case h_6 json' hjson =>
    rw [exec_pure] at hrest
    cases hrest
    rw [hjson]
    exact ⟨rfl, rfl⟩
  all_goals cases hrest

theorem chooseVersion_eq_ok {packument versions : Json} (hp : packument? net item.name = some packument)
    (h : chooseVersion item packument versions = .ok version) : Meets net item.name item.range version := by
  rw [chooseVersion] at h
  rw [Meets]
  split at h
  case isTrue hvalid =>
    rw [if_pos hvalid]
    split at h
    case h_1 chosen hmax =>
      cases h
      exact (maxSatisfying_spec hmax).right
    case h_2 => cases h
  case isFalse hvalid =>
    rw [if_neg hvalid, tagged?, hp]
    dsimp only at h
    split at h
    case h_1 v htag _ =>
      cases h
      exact htag
    case h_2 => cases h

structure Resolution (p : Platform B) (net : Net B) (item : QueueItem) (outcome : InstallOutcome)
    (placed : Placed B) : Prop where
  name         : outcome.dependency.name = item.name
  meets        : Meets net item.name item.range outcome.dependency.version
  dependencies : outcome.dependencies = extractStringMap
    (versionMeta? net item.name outcome.dependency.version >>= Json.property "dependencies".toList)
  genuine      : Genuine p net outcome.dependency placed
  bytes        : outcome.expandedBytes = Tree.directoryBytes placed.entries

theorem resolveAndInstall_eq_ok
    (h : exec p net (resolveAndInstall p options item) w = (.ok outcome, w')) :
    ∃ placed, Resolution p net item outcome placed ∧ w'.staging = w.staging ++ [(item.name, placed)] ∧
      w'.modules = w.modules := by
  obtain ⟨packument, v, hfetch, hrest⟩ := exec_bind_eq_ok.mp h
  obtain ⟨hpackument, hv⟩ := fetchPackument_eq_ok hfetch
  subst hv
  dsimp only at hrest
  split at hrest
  case h_1 => cases hrest
  case h_2 versions hversions =>
    obtain ⟨chosen, v₁, hchosen, hrest₁⟩ := exec_bind_eq_ok.mp hrest
    rw [exec_ofExcept] at hchosen
    obtain ⟨hversion, hv₁⟩ := Prod.mk.inj hchosen
    rw [← hv₁] at hrest₁
    have hmeta : versionMeta? net item.name chosen = Assoc.get versions.entries chosen := by
      rw [versionMeta?, versions?, hpackument]
      exact congrArg (· >>= fun versions => Assoc.get versions.entries chosen) hversions
    split at hrest₁
    case isTrue  => cases hrest₁
    case isFalse =>
      obtain ⟨bytes, v₂, hobtain, hrest₂⟩ := exec_bind_eq_ok.mp hrest₁
      obtain ⟨entries, v₃, hroot, hrest₃⟩ := exec_bind_eq_ok.mp hrest₂
      obtain ⟨u, v₄, hplace, hrest₄⟩ := exec_bind_eq_ok.mp hrest₃
      have hkeeps : places v₂ = places v :=
        (congrArg (fun x => places x.snd) hobtain).symm.trans <| places_obtainTarball v
      have hverified := verified_obtainTarball hobtain
      rw [exec_ofExcept] at hroot
      obtain ⟨hentries, hv₃⟩ := Prod.mk.inj hroot
      rw [exec_perform, ← hv₃] at hplace
      rw [exec_pure] at hrest₄
      cases hplace
      cases hrest₄
      have hstaging : v₂.staging = v.staging := congrArg Prod.fst hkeeps
      have hmodules : v₂.modules = v.modules := congrArg (·.snd.snd) hkeeps
      refine ⟨⟨bytes, entries⟩, ⟨rfl, chooseVersion_eq_ok hpackument hversion, ?_, ⟨hentries, ?_⟩, rfl⟩, ?_, ?_⟩
      · rw [hmeta]
      · dsimp only
        rw [hmeta]
        by_cases hempty : (tarballOf (Assoc.get versions.entries chosen)).integrity = []
        case pos => exact .inr ⟨hempty, by rw [if_neg (not_not.mpr hempty)]⟩
        case neg =>
          rw [if_pos hempty]
          exact .inl ⟨rfl, hverified.resolve_left hempty⟩
      · rw [← hstaging]
        rfl
      · exact hmodules

end Resolve

section Loop

variable {specs : List (Text × Text)} {selected records : List ResolvedDependency} {queue roots rest : List QueueItem}
  {next : Option (QueueItem × List QueueItem)} {room expanded : Nat} {d : ResolvedDependency}
  {placed : Placed B}

-- What a request for a package takes, once the package is selected: any version, where it is for a tag.
def Accepts (net : Net B) (name range version : Text) : Prop :=
  Meets net name range version ∨ ¬isValidRange range ∧ isDistTag range

theorem accepts_of_versionSatisfies (h : versionSatisfies version range) :
    Accepts net name range version := by
  rw [versionSatisfies] at h
  rw [Accepts, Meets]
  split at h
  case isTrue hvalid =>
    have ⟨v, hmax⟩ := Option.isSome_iff_exists.mp h
    have ⟨hmem, hsat⟩ := maxSatisfying_spec hmax
    rw [List.mem_singleton.mp hmem] at hsat
    exact .inl <| by rwa [if_pos hvalid]
  case isFalse hvalid => exact .inr ⟨hvalid, h⟩

-- The packages that the specs lead to.
inductive Reachable (net : Net B) (specs : List (Text × Text)) (records : List ResolvedDependency) : Text → Prop
  | spec {s : Text × Text} (h : s ∈ specs) : Reachable net specs records s.fst
  | dependency {d : ResolvedDependency} {name range : Text} (hd : d ∈ records)
      (hr : Reachable net specs records d.name) (h : DependsOn net d.name d.version name range) :
      Reachable net specs records name

theorem Reachable.mono (h : Reachable net specs selected name) (hsub : ∀ d ∈ selected, d ∈ records) :
    Reachable net specs records name := by
  induction h
  case spec h               => exact .spec h
  case dependency hd _ h ih => exact .dependency (hsub _ hd) ih h

theorem dependsOn_of_mem {x : Text × Text}
    (h : x ∈ extractStringMap (versionMeta? net name version >>= Json.property "dependencies".toList)) :
    DependsOn net name version x.fst x.snd := by
  rw [extractStringMap.eq_def] at h
  split at h
  case h_1 properties hproperties =>
    have ⟨entry, hentry, hx⟩ := List.mem_filterMap.mp h
    refine ⟨properties, hproperties, ?_⟩
    split at hx
    case h_1 value hvalue =>
      split at hx
      case isTrue =>
        cases hx
        rwa [← hvalue]
      case isFalse => cases hx
    case h_2 => cases hx
  case h_2 => cases h

theorem mem_extractStringMap {dependency : Text} (h : DependsOn net name version dependency range)
    (hpos : 0 < length range) (hle : length range ≤ 200) (hproto : dependency ≠ "__proto__".toList) :
    (dependency, range) ∈
      extractStringMap (versionMeta? net name version >>= Json.property "dependencies".toList) := by
  have ⟨properties, hproperties, hmem⟩ := h
  rw [extractStringMap.eq_def, hproperties]
  refine List.mem_filterMap.mpr ⟨_, hmem, ?_⟩
  dsimp only
  rw [decide_eq_true hpos, decide_eq_true hle, decide_eq_true hproto]
  rfl

-- What is passed over is accepted by what has been selected.
theorem nextItem_spec (h : nextItem selected queue = .ok next) : ∀ i ∈ queue,
    (∃ d ∈ selected, d.name = i.name ∧ versionSatisfies d.version i.range) ∨
      ∃ item rest, next = some (item, rest) ∧ (i = item ∨ i ∈ rest) := by
  induction queue
  case nil             => simp
  case cons i queue ih =>
    rw [nextItem] at h
    split at h
    case isTrue  => cases h
    case isFalse =>
      split at h
      case h_1 =>
        cases h
        intro j hj
        exact .inr ⟨i, queue, rfl, List.mem_cons.mp hj⟩
      case h_2 d hd =>
        split at h
        case isTrue hsat =>
          intro j hj
          rcases List.mem_cons.mp hj with rfl | hj
          · exact .inl ⟨d, List.mem_of_find?_eq_some hd, by simpa using List.find?_some hd, hsat⟩
          · exact ih h j hj
        case isFalse => cases h

theorem nextItem_some (h : nextItem selected queue = .ok (some (item, rest))) :
    (∀ d ∈ selected, d.name ≠ item.name) ∧ item ∈ queue ∧ ∀ i ∈ rest, i ∈ queue := by
  induction queue
  case nil             => cases h
  case cons i queue ih =>
    rw [nextItem] at h
    split at h
    case isTrue  => cases h
    case isFalse =>
      split at h
      case h_1 hnone =>
        cases h
        exact ⟨by simpa using hnone, List.mem_cons_self, fun _ => List.mem_cons_of_mem _⟩
      case h_2 =>
        split at h
        case isTrue =>
          have ⟨hnew, hitem, hrest⟩ := ih h
          exact ⟨hnew, List.mem_cons_of_mem _ hitem, fun j hj => List.mem_cons_of_mem _ <| hrest j hj⟩
        case isFalse => cases h

-- A request for a package that is not selected is the next one.
theorem nextItem_cons (h : nextItem selected (item :: queue) = .ok next)
    (hnew : ∀ d ∈ selected, d.name ≠ item.name) : next = some (item, queue) := by
  have hnone : selected.find? (·.name = item.name) = none := by simpa using hnew
  rw [nextItem, hnone] at h
  split at h
  case isTrue  => cases h
  case isFalse =>
    cases h
    rfl

-- What is selected is installed, and what it asks for is selected or in the queue. `roots` are the specs that
-- are still to come.
structure Progress (p : Platform B) (net : Net B) (options : Options) (specs : List (Text × Text))
    (selected : List ResolvedDependency) (staging : List (Text × Placed B)) (expanded : Nat)
    (roots rest : List QueueItem) : Prop where
  unique    : (selected.map (·.name)).Nodup
  placed    : List.Forall₂ (fun d x => x.fst = d.name ∧ Genuine p net d x.snd) selected staging
  bytes     : expanded = (staging.map fun x => Tree.directoryBytes x.snd.entries).sum
  bounded   : expanded ≤ options.maxExpandedBytes
  requests  : ∀ d ∈ selected,
    ∀ x ∈ extractStringMap (versionMeta? net d.name d.version >>= Json.property "dependencies".toList),
      (∃ e ∈ selected, e.name = x.fst ∧ Accepts net x.fst x.snd e.version) ∨ ⟨x.fst, x.snd⟩ ∈ roots ++ rest
  reachable : ∀ d ∈ selected, Reachable net specs selected d.name
  queued    : ∀ i ∈ roots ++ rest, Reachable net specs selected i.name
  distinct  : (roots.map (·.name)).Nodup
  fresh     : ∀ i ∈ roots, ∀ d ∈ selected, d.name ≠ i.name
  specs     : ∀ s ∈ specs, ⟨s.fst, s.snd⟩ ∈ roots ∨
    ∃ d ∈ selected, d.name = s.fst ∧ Meets net s.fst s.snd d.version

variable {staging : List (Text × Placed B)}

-- The next request is the first of the roots, as long as there are some.
theorem Progress.roots_cases (hp : Progress p net options specs selected staging expanded roots rest)
    (hnext : nextItem selected (roots ++ rest) = .ok (some (item, queue))) :
    ∃ roots' rest', queue = roots' ++ rest' ∧
      (roots = item :: roots' ∨ roots = [] ∧ roots' = []) := by
  cases roots
  case nil              => exact ⟨[], queue, rfl, .inr ⟨rfl, rfl⟩⟩
  case cons root roots' =>
    have heq := nextItem_cons hnext fun d hd => hp.fresh root List.mem_cons_self d hd
    cases heq
    exact ⟨roots', rest, rfl, .inl rfl⟩

theorem Progress.advance (hp : Progress p net options specs selected staging expanded roots rest)
    (hnext : nextItem selected (roots ++ rest) = .ok (some (item, queue)))
    (hres : Resolution p net item outcome placed)
    (hbound : expanded + outcome.expandedBytes ≤ options.maxExpandedBytes) :
    ∃ roots' rest', queue ++ outcome.dependencies.map (fun d => ⟨d.fst, d.snd⟩) = roots' ++ rest' ∧
      Progress p net options specs (selected ++ [outcome.dependency]) (staging ++ [(item.name, placed)])
        (expanded + outcome.expandedBytes) roots' rest' := by
  have ⟨roots', rest', hqueue, hroots⟩ := hp.roots_cases hnext
  have ⟨hnew, hitem, hsub⟩ := nextItem_some hnext
  have hspec := nextItem_spec hnext
  have hmono (d : ResolvedDependency) (hd : d ∈ selected) : d ∈ selected ++ [outcome.dependency] :=
    List.mem_append_left _ hd
  have hlast : outcome.dependency ∈ selected ++ [outcome.dependency] :=
    List.mem_append_right _ <| List.mem_singleton_self _
  have hmeets : Meets net item.name item.range outcome.dependency.version := hres.meets
  have hreach : Reachable net specs (selected ++ [outcome.dependency]) item.name :=
    (hp.queued item hitem).mono hmono
  -- A request that was in the queue is met, or it is in the queue.
  have hcover (i : QueueItem) (hi : i ∈ roots ++ rest) : (∃ e ∈ selected ++ [outcome.dependency],
      e.name = i.name ∧ Accepts net i.name i.range e.version) ∨ i ∈ queue := by
    rcases hspec i hi with ⟨e, he, hname, hsat⟩ | ⟨item', rest'', heq, hi⟩
    · exact .inl ⟨e, hmono e he, hname, accepts_of_versionSatisfies hsat⟩
    · cases heq
      rcases hi with rfl | hi
      · exact .inl ⟨outcome.dependency, hlast, hres.name, .inl hmeets⟩
      · exact .inr hi
  refine ⟨roots', rest' ++ outcome.dependencies.map (fun d => ⟨d.fst, d.snd⟩),
    by rw [hqueue, List.append_assoc], ?_, ?_, ?_, hbound, ?_, ?_, ?_, ?_, ?_, ?_⟩
  case refine_1 =>
    rw [List.map_append, List.map_singleton, List.nodup_append]
    refine ⟨hp.unique, List.nodup_singleton _, fun n hn m hm => ?_⟩
    have ⟨d, hd, hdn⟩ := List.mem_map.mp hn
    rw [List.mem_singleton.mp hm, hres.name, ← hdn]
    exact hnew d hd
  case refine_2 =>
    exact List.rel_append hp.placed <| .cons ⟨hres.name.symm, hres.genuine⟩ .nil
  case refine_3 =>
    rw [List.map_append, List.sum_append, ← hp.bytes, hres.bytes]
    simp
  case refine_4 =>
    intro d hd x hx
    rw [← List.append_assoc, ← hqueue]
    rcases List.mem_append.mp hd with hd | hd
    · rcases hp.requests d hd x hx with ⟨e, he, hname, haccepts⟩ | hi
      · exact .inl ⟨e, hmono e he, hname, haccepts⟩
      · rcases hcover _ hi with hmet | hi
        · exact .inl hmet
        · exact .inr <| List.mem_append_left _ hi
    · rw [List.mem_singleton.mp hd, hres.name, ← hres.dependencies] at hx
      exact .inr <| List.mem_append_right _ <| List.mem_map.mpr ⟨x, hx, rfl⟩
  case refine_5 =>
    intro d hd
    rcases List.mem_append.mp hd with hd | hd
    · exact (hp.reachable d hd).mono hmono
    · rw [List.mem_singleton.mp hd, hres.name]
      exact hreach
  case refine_6 =>
    intro i hi
    rw [← List.append_assoc, ← hqueue] at hi
    rcases List.mem_append.mp hi with hi | hi
    · exact (hp.queued i <| hsub i hi).mono hmono
    · have ⟨x, hx, heq⟩ := List.mem_map.mp hi
      rw [hres.dependencies, ← hres.name] at hx
      rw [← heq]
      exact .dependency hlast (hres.name ▸ hreach) <| dependsOn_of_mem hx
  case refine_7 =>
    rcases hroots with rfl | ⟨_, rfl⟩
    · exact (List.nodup_cons.mp hp.distinct).right
    · exact List.nodup_nil
  case refine_8 =>
    intro i hi d hd
    rcases hroots with rfl | ⟨_, rfl⟩
    · rcases List.mem_append.mp hd with hd | hd
      · exact hp.fresh i (List.mem_cons_of_mem _ hi) d hd
      · rw [List.mem_singleton.mp hd, hres.name]
        intro heq
        exact (List.nodup_cons.mp hp.distinct).left <| List.mem_map.mpr ⟨i, hi, heq.symm⟩
    · cases hi
  case refine_9 =>
    intro s hs
    rcases hp.specs s hs with hi | ⟨d, hd, hname, hmeets⟩
    · rcases hroots with rfl | ⟨rfl, _⟩
      · rcases List.mem_cons.mp hi with heq | hi
        · rw [← heq] at hmeets
          exact .inr ⟨outcome.dependency, hlast, by rw [hres.name, ← heq], hmeets⟩
        · exact .inl hi
      · cases hi
    · exact .inr ⟨d, hmono d hd, hname, hmeets⟩

-- The loop is at its end, or it installs one more package and goes on.
theorem loop_cases
    (h : exec p net (loop p options room selected expanded queue) w = (.ok records, w')) :
    nextItem selected queue = .ok none ∧ records = selected ∧ w' = w ∨
    ∃ room' item rest outcome v, room = room' + 1 ∧ nextItem selected queue = .ok (some (item, rest)) ∧
      exec p net (resolveAndInstall p options item) w = (.ok outcome, v) ∧
      expanded + outcome.expandedBytes ≤ options.maxExpandedBytes ∧
      exec p net (loop p options room' (selected ++ [outcome.dependency])
        (expanded + outcome.expandedBytes)
        (rest ++ outcome.dependencies.map fun d => ⟨d.fst, d.snd⟩)) v = (.ok records, w') := by
  rw [loop.eq_def] at h
  have ⟨found, v, hfound, hrest⟩ := exec_bind_eq_ok.mp h
  rw [exec_ofExcept] at hfound
  have ⟨hnext, hv⟩ := Prod.mk.inj hfound
  rw [← hv] at hrest
  clear hfound
  rcases found with _ | ⟨item, rest⟩
  case none =>
    rw [exec_pure] at hrest
    have ⟨hrecords, hw⟩ := Prod.mk.inj hrest
    exact .inl ⟨hnext, (Except.ok.inj hrecords).symm, hw.symm⟩
  case some =>
    cases room
    case zero       =>
      have ⟨hfail, _⟩ := Prod.mk.inj hrest
      cases hfail
    case succ room' =>
      have ⟨outcome, v', hresolve, hgo⟩ := exec_bind_eq_ok.mp hrest
      split at hgo
      case isTrue         => cases hgo
      case isFalse hbound =>
        exact .inr ⟨room', item, rest, outcome, v', rfl, hnext, hresolve, Nat.not_lt.mp hbound, hgo⟩

-- What is installed once the queue is empty.
theorem loop_eq_ok (hp : Progress p net options specs selected w.staging expanded roots rest)
    (hroom : selected.length + room = options.maxPackages)
    (h : exec p net (loop p options room selected expanded (roots ++ rest)) w = (.ok records, w')) :
    ∃ expanded roots rest, Progress p net options specs records w'.staging expanded roots rest ∧
      records.length ≤ options.maxPackages ∧ w'.modules = w.modules ∧
      nextItem records (roots ++ rest) = .ok none := by
  induction room generalizing selected expanded roots rest w
  case zero =>
    rcases loop_cases h with ⟨hnone, rfl, rfl⟩ | ⟨_, _, _, _, _, hzero, _⟩
    · exact ⟨expanded, roots, rest, hp, Nat.le_of_eq hroom, rfl, hnone⟩
    · cases hzero
  case succ room ih =>
    rcases loop_cases h with ⟨hnone, rfl, rfl⟩ | ⟨room', item, queue, outcome, v, heq, hnext, hres, hle, hgo⟩
    · exact ⟨expanded, roots, rest, hp, by omega, rfl, hnone⟩
    · cases heq
      have ⟨placed, hresolution, hstaging, hmodules⟩ := resolveAndInstall_eq_ok hres
      have ⟨roots', rest', hqueue, hp'⟩ := hp.advance hnext hresolution hle
      rw [hqueue] at hgo
      rw [← hstaging] at hp'
      have hlength : (selected ++ [outcome.dependency]).length + room = options.maxPackages := by
        rw [List.length_append, List.length_singleton]
        omega
      have ⟨expanded', roots'', rest'', hp'', hcount, hsame, hnone⟩ := ih hp' hlength hgo
      exact ⟨expanded', roots'', rest'', hp'', hcount, hsame.trans hmodules, hnone⟩

end Loop

section Closed

variable {specs : List (Text × Text)} {records : List ResolvedDependency}

-- What an install leaves: `packages` are the packages with their tarballs.
structure Closed (p : Platform B) (net : Net B) (options : Options) (specs : List (Text × Text))
    (records : List ResolvedDependency) (packages : List (Text × Placed B)) : Prop where
  unique       : (records.map (·.name)).Nodup
  met          : ∀ s ∈ specs, ∃ d ∈ records, d.name = s.fst ∧ Meets net s.fst s.snd d.version
  dependencies : ∀ d ∈ records, ∀ name range, DependsOn net d.name d.version name range →
    0 < length range → length range ≤ 200 → name ≠ "__proto__".toList →
    ∃ e ∈ records, e.name = name ∧ Accepts net name range e.version
  reachable    : ∀ d ∈ records, Reachable net specs records d.name
  installed    : (packages.map (·.fst)).Perm (records.map (·.name))
  genuine      : ∀ d ∈ records, ∃ placed, (d.name, placed) ∈ packages ∧ Genuine p net d placed
  count        : packages.length ≤ options.maxPackages
  bytes        : (packages.map fun x => Tree.directoryBytes x.snd.entries).sum ≤ options.maxExpandedBytes

theorem Closed.perm {sorted : List ResolvedDependency} {packages : List (Text × Placed B)}
    (hc : Closed p net options specs records packages) (hperm : sorted.Perm records) :
    Closed p net options specs sorted packages where
  unique                      := (hperm.map _).nodup_iff.mpr hc.unique
  met s hs                    := by
    have ⟨d, hd, h⟩ := hc.met s hs
    exact ⟨d, hperm.mem_iff.mpr hd, h⟩
  dependencies d hd n r h₁ h₂ h₃ h₄ := by
    have ⟨e, he, h⟩ := hc.dependencies d (hperm.mem_iff.mp hd) n r h₁ h₂ h₃ h₄
    exact ⟨e, hperm.mem_iff.mpr he, h⟩
  reachable d hd              :=
    (hc.reachable d <| hperm.mem_iff.mp hd).mono fun _ => hperm.mem_iff.mpr
  installed                   := hc.installed.trans (hperm.map _).symm
  genuine d hd                := hc.genuine d <| hperm.mem_iff.mp hd
  count                       := hc.count
  bytes                       := hc.bytes

theorem exists_of_forall₂ {α β : Type} {R : α → β → Prop} {l : List α} {l' : List β} {a : α}
    (h : List.Forall₂ R l l') (ha : a ∈ l) : ∃ b ∈ l', R a b := by
  induction h
  case nil           => cases ha
  case cons hr _ ih =>
    rcases List.mem_cons.mp ha with rfl | ha
    · exact ⟨_, List.mem_cons_self, hr⟩
    · have ⟨b, hb, hrb⟩ := ih ha
      exact ⟨b, List.mem_cons_of_mem _ hb, hrb⟩

-- With an empty queue, nothing that is asked for is missing.
theorem Progress.closed {staging : List (Text × Placed B)} {expanded : Nat} {roots rest : List QueueItem}
    (hp : Progress p net options specs records staging expanded roots rest)
    (hnone : nextItem records (roots ++ rest) = .ok none) (hcount : records.length ≤ options.maxPackages) :
    Closed p net options specs records staging := by
  have hmet (i : QueueItem) (hi : i ∈ roots ++ rest) :
      ∃ d ∈ records, d.name = i.name ∧ versionSatisfies d.version i.range := by
    rcases nextItem_spec hnone i hi with h | ⟨_, _, heq, _⟩
    · exact h
    · cases heq
  have hnames : staging.map (·.fst) = records.map (·.name) := by
    have hrel := List.forall₂_map_left_iff.mpr <| List.forall₂_map_right_iff.mpr <|
      hp.placed.flip.imp fun _ _ h => h.left
    exact List.forall₂_eq_eq_eq ▸ hrel
  refine ⟨hp.unique, fun s hs => ?_, fun d hd n r hdep hpos hle hproto => ?_, hp.reachable,
    .of_eq hnames, fun d hd => ?_, ?_, hp.bytes ▸ hp.bounded⟩
  · rcases hp.specs s hs with hi | h
    · have ⟨d, hd, hname, _⟩ := hmet _ <| List.mem_append_left _ hi
      exact absurd hname <| hp.fresh _ hi d hd
    · exact h
  · rcases hp.requests d hd (n, r) (mem_extractStringMap hdep hpos hle hproto) with h | hi
    · exact h
    · have ⟨e, he, hname, hsat⟩ := hmet _ hi
      exact ⟨e, he, hname, accepts_of_versionSatisfies hsat⟩
  · have ⟨x, hx, hname, hgenuine⟩ := exists_of_forall₂ hp.placed hd
    exact ⟨x.snd, hname ▸ hx, hgenuine⟩
  · have hlength := hp.placed.length_eq
    omega

theorem swap_modules (h : exec p net (swap : Install B Unit) w = (.ok (), w')) :
    w'.modules = .complete w.staging w.marker := by
  have ⟨replaced, v, hexists, hrest⟩ := exec_bind_eq_ok.mp h
  rw [exec_perform] at hexists
  cases hexists
  split at hrest
  · cases hrest
    rfl
  · cases hrest
    rfl

theorem installBody_closed (hspecs : (specs.map (·.fst)).Nodup)
    (h : exec p net (installBody p options specs) w = (.ok records, w')) :
    ∃ packages, w'.modules = .complete packages records ∧
      Closed p net options specs records packages := by
  have ⟨u, v, hmkdir, hrest⟩ := exec_bind_eq_ok.mp h
  rw [exec_perform] at hmkdir
  have ⟨selected, v₁, hloop, hrest₁⟩ := exec_bind_eq_ok.mp hrest
  have ⟨u₂, v₂, hmarker, hrest₂⟩ := exec_bind_eq_ok.mp hrest₁
  have ⟨u₃, v₃, hswap, hrest₃⟩ := exec_bind_eq_ok.mp hrest₂
  rw [exec_perform] at hmarker
  rw [exec_pure] at hrest₃
  cases hmkdir
  cases hmarker
  cases hrest₃
  have hp : Progress p net options specs [] ([] : List (Text × Placed B)) 0
      (specs.map fun s => ⟨s.fst, s.snd⟩) [] := by
    refine ⟨List.nodup_nil, .nil, rfl, Nat.zero_le _, nofun, nofun, fun i hi => ?_, ?_, nofun, fun s hs => ?_⟩
    · rw [List.append_nil] at hi
      have ⟨s, hs, heq⟩ := List.mem_map.mp hi
      exact heq ▸ .spec hs
    · rwa [List.map_map]
    · exact .inl <| List.mem_map.mpr ⟨s, hs, rfl⟩
  have hloop' : exec p net (loop p options options.maxPackages [] 0
      (specs.map (fun s => ⟨s.fst, s.snd⟩) ++ [])) { w with staging := [] } =
      (.ok selected, v₁) := by
    rw [List.append_nil]
    exact hloop
  obtain ⟨expanded, roots, rest, hdone, hcount, _, hnone⟩ :=
    loop_eq_ok (w := { w with staging := [] }) hp (Nat.zero_add _) hloop'
  exact ⟨_, swap_modules hswap, (hdone.closed hnone hcount).perm <| List.perm_insertionSort _ _⟩

end Closed

section Examples

private def platform : Platform Unit where
  sha256Hex     := id
  sha256 _      := []
  sha512 _      := []
  size _        := 1
  extract _     := .ok [.directory "package".toList [.file "index.js".toList 10]]
  localeLe _ _  := true

private def published (dependencies : List (Text × Json)) : Json :=
  .object [
    ("dist".toList, .object [("tarball".toList, .string "https://r/t.tgz".toList)]),
    ("dependencies".toList, .object dependencies)
  ]

-- The package `b` depends on the latest version of `a`.
private def registry : Net Unit where
  respond name :=
    if name = ['a'] then
      .packument <| .object [
        ("versions".toList, .object [("1.0.0".toList, published []), ("2.0.0".toList, published [])]),
        ("dist-tags".toList, .object [("latest".toList, .string "2.0.0".toList)])
      ]
    else
      .packument <| .object [
        ("versions".toList, .object [("1.0.0".toList, published [(['a'], .string "latest".toList)])])
      ]
  download _   := .ok ()
  copies _     := true
  empty        := ()

private def fixed : List (Text × Text) :=
  [(['a'], "1.0.0".toList), (['b'], "1.0.0".toList)]

private def installed : List ResolvedDependency := [
  ⟨['a'], "1.0.0".toList, "https://r/t.tgz".toList, "sha512-".toList⟩,
  ⟨['b'], "1.0.0".toList, "https://r/t.tgz".toList, "sha512-".toList⟩
]

private theorem install_fixed : ((installPluginDependencies platform { registryUrl := [] } fixed).run
    (handle platform registry) ({} : World Unit)).fst = .ok installed := by
  decide +kernel

end Examples
end Dependencies
