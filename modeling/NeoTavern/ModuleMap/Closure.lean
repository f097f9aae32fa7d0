import Mathlib
import NeoTavern.Lib.Lists
import NeoTavern.ModuleMap.Rebuild

namespace ModuleMap

variable {segments parts out : List Text} {s t id specifier : Text}

section Paths

-- A segment that names something in its directory.
structure IsSegment (s : Text) : Prop where
  ne_nil    : s ≠ []
  ne_dot    : s ≠ ['.']
  ne_parent : s ≠ ['.', '.']
  no_slash  : '/' ∉ s

-- The id stays inside of the package.
def Confined (id : Text) : Prop :=
  ∀ s ∈ id.splitOn '/', IsSegment s

theorem confined_intercalate (hne : segments ≠ []) (h : ∀ s ∈ segments, IsSegment s) :
    Confined (List.intercalate ['/'] segments) := by
  intro s hs
  rw [List.splitOn_intercalate '/' (fun s hs => (h s hs).no_slash) hne] at hs
  exact h s hs

theorem normalizeSegments_spec (h : normalizeSegments segments parts = some out)
    (hs : ∀ s ∈ segments, IsSegment s) (hp : ∀ s ∈ parts, '/' ∉ s) : ∀ s ∈ out, IsSegment s := by
  induction parts generalizing segments
  case nil =>
    cases h
    exact hs
  case cons part parts hi =>
    rw [List.forall_mem_cons] at hp
    rw [normalizeSegments] at h
    split at h
    case isTrue => exact hi h hs hp.right
    case isFalse hnormal =>
      split at h
      case isTrue =>
        split at h
        case isTrue  => cases h
        case isFalse => exact hi h (fun s h => hs s <| List.mem_of_mem_dropLast h) hp.right
      case isFalse hparent =>
        simp only [Bool.or_eq_true, decide_eq_true_eq, not_or] at hnormal
        apply hi h _ hp.right
        intro s h
        cases List.mem_append.mp h
        case inl h => exact hs s h
        case inr h =>
          rw [List.mem_singleton.mp h]
          exact ⟨hnormal.left, hnormal.right, hparent, hp.left⟩

theorem normalizePackagePath_eq (h : normalizePackagePath t ≠ []) :
    ∃ segments, segments ≠ [] ∧ (∀ s ∈ segments, IsSegment s) ∧
      normalizePackagePath t = List.intercalate ['/'] segments := by
  rw [normalizePackagePath] at h ⊢
  cases hn : normalizeSegments [] (t.splitOn '/')
  case none => simp [hn] at h
  case some out =>
    rw [hn] at h
    refine ⟨out, ?_, ?_, rfl⟩
    · intro hnil
      simp [hnil] at h
    · apply normalizeSegments_spec hn
      · simp
      · intro s hs
        exact Lists.not_mem_of_mem_splitOn hs

theorem isSegment_extended {extension : Text} (hs : '/' ∉ s) (he : extension ∈ jsExtensions) :
    IsSegment (s ++ extension) := by
  have hall : ∀ e ∈ jsExtensions, 3 ≤ e.length ∧ '/' ∉ e := by decide
  have ⟨hlen, hslash⟩ := hall extension he
  have hlen : 3 ≤ (s ++ extension).length := by
    rw [List.length_append]
    omega
  constructor
  case ne_nil    => intro h; simp [h] at hlen
  case ne_dot    => intro h; simp [h] at hlen
  case ne_parent => intro h; simp [h] at hlen
  case no_slash  => simp [hs, hslash]

theorem confined_extended {extension : Text} (hne : segments ≠ []) (h : ∀ s ∈ segments, IsSegment s)
    (he : extension ∈ jsExtensions) : Confined (List.intercalate ['/'] segments ++ extension) := by
  cases segments using List.reverseRecOn
  case nil => exact absurd rfl hne
  case append_singleton segments last _ =>
    rw [Lists.intercalate_concat_append]
    apply confined_intercalate (by simp)
    intro s hs
    cases List.mem_append.mp hs
    case inl hs => exact h s <| List.mem_append_left _ hs
    case inr hs =>
      have hlast := h last <| List.mem_append_right _ <| List.mem_singleton_self last
      rw [List.mem_singleton.mp hs]
      exact isSegment_extended hlast.no_slash he

theorem confined_index {extension : Text} (hne : segments ≠ []) (h : ∀ s ∈ segments, IsSegment s)
    (he : extension ∈ jsExtensions) :
    Confined (List.intercalate ['/'] segments ++ "/index".toList ++ extension) := by
  have heq : List.intercalate ['/'] segments ++ "/index".toList ++ extension =
      List.intercalate ['/'] (segments ++ ["index".toList ++ extension]) := by
    rw [Lists.intercalate_concat hne]
    simp
  rw [heq]
  apply confined_intercalate (by simp)
  intro s hs
  cases List.mem_append.mp hs
  case inl hs => exact h s hs
  case inr hs =>
    rw [List.mem_singleton.mp hs]
    exact isSegment_extended (by decide) he

-- What is tried for an import is inside of the package.
theorem resolveRelativeId_spec {existing : Text → Bool} (h : resolveRelativeId id specifier existing ≠ []) :
    existing (resolveRelativeId id specifier existing) ∧ Confined (resolveRelativeId id specifier existing) := by
  rw [resolveRelativeId] at h ⊢
  dsimp only at h ⊢
  split at h
  case isTrue => exact absurd rfl h
  case isFalse hne =>
    rw [if_neg hne]
    have ⟨segments, hsegments, hall, heq⟩ := normalizePackagePath_eq hne
    rw [heq] at h ⊢
    generalize hfound : List.find? existing _ = found at h ⊢
    cases found
    case none => exact absurd rfl h
    case some found =>
      rw [Option.getD_some]
      refine ⟨List.find?_some hfound, ?_⟩
      have hmem := List.mem_of_find?_eq_some hfound
      simp only [List.cons_append, List.mem_cons, List.mem_append, List.mem_map] at hmem
      obtain hid | ⟨extension, he, hid⟩ | ⟨extension, he, hid⟩ := hmem
      · rw [hid]
        exact confined_intercalate hsegments hall
      · rw [← hid]
        exact confined_extended hsegments hall he
      · rw [← hid]
        exact confined_index hsegments hall he

end Paths

namespace Build

variable {b : Build} {source : Text} {specifiers found queue : List Text} {resolved : List (Text × Text)}
  {r : PluginModuleRecord} {records done : List PluginModuleRecord} {room : Nat} {m : ModuleGraphBuildResult}

def isRelative (specifier : Text) : Bool :=
  startsWith "./".toList specifier || startsWith "../".toList specifier

-- Where an import of a module leads.
def target (b : Build) (id specifier : Text) : Text :=
  if isRelative specifier then resolveRelativeId id specifier b.isFile else specifier

structure Resolved (b : Build) (id : Text) (resolved : List (Text × Text)) (found specifiers : List Text)
    (x : List (Text × Text) × List Text) : Prop where
  leads : ∀ t, t ∈ x.snd ↔ t ∈ found ∨ ∃ s ∈ specifiers, isRelative s ∧ b.target id s = t
  named : ∀ s ∈ specifiers, isRelative s → b.target id s ≠ []
  get   : ∀ s, Assoc.get x.fst s =
    if s ∈ specifiers ∧ s ≠ "__proto__".toList then some (b.target id s) else Assoc.get resolved s

theorem get_resolve (s : Text) : Assoc.get (resolve resolved specifier id) s =
    if s = specifier ∧ s ≠ "__proto__".toList then some id else Assoc.get resolved s := by
  rw [resolve]
  generalize "__proto__".toList = proto
  by_cases hs : s = specifier
  case pos =>
    rw [hs]
    split
    case isTrue h  => simp [h]
    case isFalse h => simp [h, Assoc.get_set_self]
  case neg =>
    split
    case isTrue h  => simp [hs]
    case isFalse h => simp [hs, Assoc.get_set_of_ne hs]

theorem Resolved.cons {x : List (Text × Text) × List Text}
    (hnamed : isRelative specifier → b.target id specifier ≠ [])
    (h : Resolved b id (resolve resolved specifier (b.target id specifier))
      (if isRelative specifier then found ++ [b.target id specifier] else found) specifiers x) :
    Resolved b id resolved found (specifier :: specifiers) x := by
  constructor
  case leads =>
    intro t
    rw [h.leads t]
    by_cases hrel : isRelative specifier
    case pos => simp [hrel, or_assoc, eq_comm (a := t)]
    case neg => simp [hrel]
  case named =>
    rw [List.forall_mem_cons]
    exact ⟨hnamed, h.named⟩
  case get =>
    intro s
    rw [h.get s, get_resolve]
    generalize "__proto__".toList = proto
    by_cases hs : s = specifier
    case neg => simp [hs]
    case pos =>
      by_cases hp : specifier = proto
      case pos => simp [hs, hp]
      case neg => simp [hs, hp]

theorem resolveImports_spec {x : List (Text × Text) × List Text}
    (h : b.resolveImports id resolved found specifiers = .ok x) : Resolved b id resolved found specifiers x := by
  induction specifiers generalizing resolved found
  case nil =>
    cases h
    exact ⟨by simp, by simp, by simp⟩
  case cons specifier specifiers hi =>
    rw [resolveImports] at h
    split at h
    case isTrue hrel =>
      have htarget : b.target id specifier = resolveRelativeId id specifier b.isFile := if_pos hrel
      dsimp only at h
      split at h
      case isTrue => cases h
      case isFalse hne =>
        apply Resolved.cons (fun _ => by rwa [htarget])
        rw [htarget, isRelative, if_pos hrel]
        exact hi h
    case isFalse hrel =>
      have htarget : b.target id specifier = specifier := if_neg hrel
      apply Resolved.cons (fun h => absurd h hrel)
      rw [htarget, isRelative, if_neg hrel]
      split at h
      case isTrue =>
        split at h
        case isTrue  => exact hi h
        case isFalse => cases h
      case isFalse =>
        split at h
        case isTrue  => exact hi h
        case isFalse => cases h

-- The imports of a module, as its source has them.
def Imports (b : Build) (id : Text) (specifiers : List Text) : Prop :=
  ∃ source parsed dynamicSpecifiers, Assoc.get b.source.files id = some source ∧ b.parsed id source = .ok parsed ∧
    b.dynamicImports id source = .ok dynamicSpecifiers ∧ specifiers = join parsed.imports dynamicSpecifiers

-- A module leads to those that its relative imports name.
def Leads (b : Build) (id id' : Text) : Prop :=
  ∃ specifiers, b.Imports id specifiers ∧ ∃ s ∈ specifiers, isRelative s ∧ b.target id s = id'

theorem Imports.unique {specifiers' : List Text} (h : b.Imports id specifiers) (h' : b.Imports id specifiers') :
    specifiers = specifiers' := by
  have ⟨_, _, _, hs, hp, hd, heq⟩ := h
  have ⟨_, _, _, hs', hp', hd', heq'⟩ := h'
  rw [hs] at hs'
  cases hs'
  rw [hp] at hp'
  cases hp'
  rw [hd] at hd'
  cases hd'
  rw [heq, heq']

-- What a record says of its module.
structure Describes (b : Build) (r : PluginModuleRecord) : Prop where
  source   : Assoc.get b.source.files r.id = some r.source
  digest   : r.digest = b.sha256 r.source
  location : r.location = pluginModuleLocation b.source.pluginId r.id
  kind     : r.kind = moduleKind r.id
  imports  : b.Imports r.id r.imports
  allowed  : ∀ s ∈ r.imports, b.Allows s
  relative : ∀ s ∈ r.imports, isRelative s → b.isFile (b.target r.id s) ∧ Confined (b.target r.id s)
  resolved : ∀ s, Assoc.get r.resolvedImports s =
    if s ∈ r.imports ∧ s ≠ "__proto__".toList then some (b.target r.id s) else none

theorem source?_eq_ok (h : b.source? id = .ok source) : Assoc.get b.source.files id = some source := by
  rw [source?] at h
  split at h
  case h_1 => cases h
  case h_2 found hget =>
    split at h
    case isTrue => cases h
    case isFalse =>
      cases h
      exact hget

theorem readModule_spec {x : PluginModuleRecord × List Text} (h : b.readModule id = .ok x) :
    x.fst.id = id ∧ Describes b x.fst ∧ ∀ t, t ∈ x.snd ↔ b.Leads id t := by
  have hallows := readModule_allows h
  have ⟨source, hs, parsed, hp, dynamicSpecifiers, hd, y, hy, hx⟩ := readModule_eq_ok.mp h
  have hsource := source?_eq_ok hs
  have hresolved := resolveImports_spec hy
  have himports : b.Imports id (join parsed.imports dynamicSpecifiers) :=
    ⟨source, parsed, dynamicSpecifiers, hsource, hp, hd, rfl⟩
  rw [← hx] at hallows ⊢
  refine ⟨rfl, ?_, ?_⟩
  · constructor
    case source   => exact hsource
    case digest   => rfl
    case location => rfl
    case kind     => rfl
    case imports  => exact himports
    case allowed  => exact hallows
    case resolved =>
      intro s
      exact hresolved.get s
    case relative =>
      intro s hs hrel
      have hne := hresolved.named s hs hrel
      rw [target, if_pos hrel] at hne ⊢
      exact resolveRelativeId_spec hne
  · intro t
    rw [hresolved.leads t]
    constructor
    case mp =>
      intro ht
      exact ⟨_, himports, by simpa using ht⟩
    case mpr =>
      intro ⟨specifiers, hi, ht⟩
      rw [hi.unique himports] at ht
      exact .inr ht

section Loop

-- What the loop keeps: modules that are done lead to modules that are done or wait, and nothing but
-- what the entry leads to is there.
structure Progress (b : Build) (entry : Text) (records : List PluginModuleRecord) (queue : List Text) : Prop where
  nodup     : (records.map (·.id)).Nodup
  started   : entry ∈ records.map (·.id) ∨ entry ∈ queue
  described : ∀ r ∈ records, Describes b r
  leads     : ∀ r ∈ records, ∀ t, b.Leads r.id t → t ∈ records.map (·.id) ∨ t ∈ queue
  reached   : ∀ t, t ∈ records.map (·.id) ∨ t ∈ queue → Relation.ReflTransGen b.Leads entry t

variable {entry : Text}

theorem known_iff : records.any (·.id = id) ↔ id ∈ records.map (·.id) := by
  simp [List.mem_map]

-- Modules that are known are taken from the queue.
theorem Progress.dropWhile (h : Progress b entry records queue) :
    Progress b entry records (queue.dropWhile fun id => records.any (·.id = id)) := by
  have hmem (t : Text) : (t ∈ records.map (·.id) ∨ t ∈ queue.dropWhile fun id => records.any (·.id = id)) ↔
      t ∈ records.map (·.id) ∨ t ∈ queue := by
    constructor
    case mp =>
      intro ht
      exact ht.imp_right fun ht => (List.dropWhile_suffix _).subset ht
    case mpr =>
      intro ht
      cases ht
      case inl ht => exact .inl ht
      case inr ht =>
        rw [← List.takeWhile_append_dropWhile (p := fun id => records.any (·.id = id)) (l := queue)] at ht
        cases List.mem_append.mp ht
        case inl ht =>
          have hknown := List.mem_takeWhile_imp ht
          exact .inl <| known_iff.mp hknown
        case inr ht => exact .inr ht
  constructor
  case nodup     => exact h.nodup
  case started   => exact (hmem entry).mpr h.started
  case described => exact h.described
  case leads     => exact fun r hr t ht => (hmem t).mpr <| h.leads r hr t ht
  case reached   => exact fun t ht => h.reached t <| (hmem t).mp ht

theorem Progress.readModule {x : PluginModuleRecord × List Text} (h : Progress b entry records (id :: queue))
    (hnew : id ∉ records.map (·.id)) (hx : b.readModule id = .ok x) :
    Progress b entry (records ++ [x.fst]) (queue ++ x.snd) := by
  have ⟨hid, hdescribes, hleads⟩ := readModule_spec hx
  have hmem (t : Text) : t ∈ (records ++ [x.fst]).map (·.id) ↔ t ∈ records.map (·.id) ∨ t = id := by
    simp [hid]
  have hkeep (t : Text) (ht : t ∈ records.map (·.id) ∨ t ∈ id :: queue) :
      t ∈ (records ++ [x.fst]).map (·.id) ∨ t ∈ queue ++ x.snd := by
    rw [hmem, List.mem_append]
    rw [List.mem_cons] at ht
    tauto
  constructor
  case nodup =>
    rw [List.map_append, List.nodup_append]
    refine ⟨h.nodup, List.nodup_singleton _, ?_⟩
    intro t ht t' ht' heq
    rw [List.map_singleton, List.mem_singleton, hid] at ht'
    rw [heq, ht'] at ht
    exact hnew ht
  case started => exact hkeep entry h.started
  case described =>
    intro r hr
    cases List.mem_append.mp hr
    case inl hr => exact h.described r hr
    case inr hr => rwa [List.mem_singleton.mp hr]
  case leads =>
    intro r hr t ht
    cases List.mem_append.mp hr
    case inl hr => exact hkeep t <| h.leads r hr t ht
    case inr hr =>
      rw [List.mem_singleton.mp hr, hid] at ht
      exact .inr <| List.mem_append_right _ <| (hleads t).mpr ht
  case reached =>
    have hself := h.reached id <| .inr List.mem_cons_self
    intro t ht
    rw [hmem, List.mem_append] at ht
    rcases ht with (ht | ht) | ht | ht
    · exact h.reached t <| .inl ht
    · rwa [ht]
    · exact h.reached t <| .inr <| List.mem_cons_of_mem id ht
    · exact hself.tail <| (hleads t).mp ht

theorem Progress.loop (h : Progress b entry records queue) (hdone : b.loop room records queue = .ok done) :
    Progress b entry done [] := by
  induction room generalizing records queue
  case zero =>
    have hdrop := h.dropWhile
    rw [Build.loop] at hdone
    split at hdone
    case h_1 hqueue =>
      cases hdone
      rwa [hqueue] at hdrop
    case h_2 => cases hdone
  case succ room hi =>
    have hdrop := h.dropWhile
    rw [Build.loop] at hdone
    split at hdone
    case h_1 hqueue =>
      cases hdone
      rwa [hqueue] at hdrop
    case h_2 id queue' hqueue =>
      obtain ⟨x, hx, hnext⟩ := bind_eq_ok.mp hdone
      rw [hqueue] at hdrop
      have hnew : id ∉ records.map (·.id) := by
        have hhead := List.head?_dropWhile_not (fun id => records.any (·.id = id)) queue
        rw [hqueue] at hhead
        intro hmem
        rw [← known_iff] at hmem
        simp [hmem] at hhead
      exact hi (hdrop.readModule hnew hx) hnext

end Loop

-- The graph is the closure of its entry.
structure IsClosure (b : Build) (g : PluginModuleGraph) : Prop where
  pluginId  : g.pluginId = b.source.pluginId
  entry     : g.entry = b.source.entry
  nodup     : (g.records.map (·.id)).Nodup
  reachable : ∀ id, id ∈ g.records.map (·.id) ↔ Relation.ReflTransGen b.Leads b.source.entry id
  described : ∀ r ∈ g.records, Describes b r
  closed    : ∀ r ∈ g.records, ∀ s ∈ r.imports, isRelative s → b.target r.id s ∈ g.records.map (·.id)

theorem Progress.isClosure (h : Progress b b.source.entry records []) :
    IsClosure b ⟨b.source.pluginId, b.source.entry, sorted records⟩ := by
  have hperm : (sorted records).Perm records := List.perm_insertionSort _ _
  have hmem (t : Text) : t ∈ (sorted records).map (·.id) ↔ t ∈ records.map (·.id) := (hperm.map _).mem_iff
  have hleads {r : PluginModuleRecord} (hr : r ∈ records) {t : Text} (ht : b.Leads r.id t) :
      t ∈ records.map (·.id) := by
    simpa using h.leads r hr t ht
  constructor
  case pluginId => rfl
  case entry    => rfl
  case nodup    => exact (hperm.map _).nodup_iff.mpr h.nodup
  case described =>
    intro r hr
    exact h.described r <| hperm.mem_iff.mp hr
  case closed =>
    intro r hr s hs hrel
    have hr := hperm.mem_iff.mp hr
    rw [hmem]
    exact hleads hr ⟨r.imports, (h.described r hr).imports, s, hs, hrel, rfl⟩
  case reachable =>
    intro id
    rw [hmem]
    constructor
    case mp => exact fun ht => h.reached id <| .inl ht
    case mpr =>
      intro hreach
      induction hreach
      case refl => simpa using h.started
      case tail t t' _ hstep hi =>
        have ⟨r, hr, hid⟩ := List.mem_map.mp hi
        rw [← hid] at hstep
        exact hleads hr hstep

theorem isClosure_of_eq_ok (h : b.buildModuleGraph = .ok m) : IsClosure b m.graph := by
  have ⟨_, _, records, hloop, hm⟩ := buildModuleGraph_eq_ok.mp h
  have hstart : Progress b b.source.entry [] [b.source.entry] := by
    constructor
    case nodup     => exact List.nodup_nil
    case started   => simp
    case described => simp
    case leads     => simp
    case reached   =>
      intro t ht
      have ht : t = b.source.entry := by simpa using ht
      rw [ht]
  rw [← hm]
  exact (hstart.loop hloop).isClosure

section Order

-- The same package, with its files in another order.
def withFiles (b : Build) (files : Files) : Build :=
  { b with source := { b.source with files } }

variable {files : Files}

theorem resolveImports_withFiles (h : ∀ id, Assoc.get files id = Assoc.get b.source.files id) :
    (b.withFiles files).resolveImports id resolved found specifiers =
      b.resolveImports id resolved found specifiers := by
  have hfile : (b.withFiles files).isFile = b.isFile := by
    funext id
    rw [isFile, isFile, ← h]
    rfl
  induction specifiers generalizing resolved found
  case nil => rfl
  case cons specifier specifiers hi =>
    rw [resolveImports, resolveImports, hfile]
    simp only [hi]
    rfl

theorem readModule_withFiles (h : ∀ id, Assoc.get files id = Assoc.get b.source.files id) :
    (b.withFiles files).readModule id = b.readModule id := by
  have hsource : (b.withFiles files).source? id = b.source? id := by
    rw [source?, source?, ← h]
    rfl
  rw [readModule, readModule, hsource]
  simp only [resolveImports_withFiles h]
  rfl

theorem loop_withFiles (h : ∀ id, Assoc.get files id = Assoc.get b.source.files id) :
    (b.withFiles files).loop room records queue = b.loop room records queue := by
  induction room generalizing records queue
  case zero =>
    rw [loop, loop]
    rfl
  case succ room hi =>
    rw [loop, loop]
    simp only [readModule_withFiles h, hi]

theorem buildModuleGraph_withFiles (h : ∀ id, Assoc.get files id = Assoc.get b.source.files id) :
    (b.withFiles files).buildModuleGraph = b.buildModuleGraph := by
  rw [buildModuleGraph, buildModuleGraph, isFile, isFile, ← h]
  simp only [loop_withFiles h]
  rfl

end Order

-- A build whose sources are the lists of their imports.
def ofLists (files : Files) : Build where
  sha256  := fun t => t
  tools   := ⟨fun source _ => .ok ⟨source.splitOn ' ', []⟩, fun _ => .ok .other, fun _ => .ok ()⟩
  source  := ⟨['p'], "src/a.js".toList, files⟩
  options := { allowedDependencies := ["left-pad".toList] }

-- A graph is the closure of its entry, and the order of the files, whose names differ, plays no part.
theorem buildModuleGraph_isClosure (b : Build) :
    (∀ m, b.buildModuleGraph = .ok m → IsClosure b m.graph) ∧
    ∀ files : Files, files.Perm b.source.files → (files.map (·.fst)).Nodup →
      (b.withFiles files).buildModuleGraph = b.buildModuleGraph := by
  constructor
  case left =>
    intro m h
    exact isClosure_of_eq_ok h
  case right =>
    intro files hperm hnodup
    apply buildModuleGraph_withFiles
    intro id
    exact Assoc.get_eq_of_perm hperm hnodup

theorem buildModuleGraph_isClosure_cycle :
    (∃ m, (ofLists [("src/a.js".toList, "./b ../lib".toList), ("src/b.js".toList, "./a.js".toList),
      ("lib/index.js".toList, "left-pad".toList)]).buildModuleGraph = .ok m ∧
      IsClosure (ofLists [("src/a.js".toList, "./b ../lib".toList), ("src/b.js".toList, "./a.js".toList),
        ("lib/index.js".toList, "left-pad".toList)]) m.graph ∧ m.graph.records.length = 3) ∧
    ((ofLists [("src/a.js".toList, ['x']), ("b.js".toList, ['y'])]).withFiles
      [("b.js".toList, ['y']), ("src/a.js".toList, ['x'])]).buildModuleGraph =
      (ofLists [("src/a.js".toList, ['x']), ("b.js".toList, ['y'])]).buildModuleGraph := by
  constructor
  case left  => exact ⟨_, rfl, (buildModuleGraph_isClosure _).left _ rfl, rfl⟩
  case right => exact (buildModuleGraph_isClosure _).right _ (.swap _ _ _) (by decide)

theorem not_closed_under_dependencies : ¬ ∀ (b : Build) (m : ModuleGraphBuildResult), b.buildModuleGraph = .ok m →
    ∀ r ∈ m.graph.records, ∀ s ∈ r.imports, isNodeBuiltin s = false →
      ∃ id ∈ m.graph.records.map (·.id), Assoc.get r.resolvedImports s = some id := by
  intro h
  have hb : (ofLists [("src/a.js".toList, "left-pad".toList)]).buildModuleGraph = .ok ⟨⟨['p'], "src/a.js".toList,
      [⟨"src/a.js".toList, "neotavern-plugin://p/src/a.js".toList, .js, "left-pad".toList, ["left-pad".toList], [],
        [("left-pad".toList, "left-pad".toList)], "left-pad".toList⟩]⟩, []⟩ := by
    decide
  have hr := h _ _ hb _ (List.mem_singleton_self _) _ (List.mem_singleton_self _) (by decide)
  exact absurd hr <| by decide

end Build
end ModuleMap
