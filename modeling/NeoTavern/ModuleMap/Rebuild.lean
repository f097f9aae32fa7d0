import NeoTavern.Lib.Runs
import NeoTavern.ModuleMap.Cache

namespace ModuleMap

theorem bind_eq_ok {ε α β : Type} {x : Except ε α} {f : α → Except ε β} {y : β} :
    x >>= f = .ok y ↔ ∃ a, x = .ok a ∧ f a = .ok y := by
  cases x <;> simp [bind, Except.bind]

namespace Build

variable {o b : Build} {id source specifier : Text} {specifiers found : List Text}
  {resolved : List (Text × Text)} {r : PluginModuleRecord} {records out : List PluginModuleRecord}
  {queue : List Text} {room : Nat} {m : ModuleGraphBuildResult}

-- Whether an import does not make the build fail for where it leads.
def Allows (b : Build) (specifier : Text) : Prop :=
  (startsWith "./".toList specifier || startsWith "../".toList specifier) ∨
  if isNodeBuiltin specifier then
    specifier ∈ b.options.allowedNodeBuiltins
  else
    specifier ∈ b.options.allowedDependencies

-- The same plugin, with the same files and built by the same packages.
structure Alike (o b : Build) : Prop where
  pluginId : b.source.pluginId = o.source.pluginId
  entry    : b.source.entry = o.source.entry
  files    : ∀ id, Assoc.get b.source.files id = Assoc.get o.source.files id
  tools    : b.tools = o.tools

-- No file is larger than a module may be.
def Bounded (b : Build) : Prop :=
  ∀ id source, Assoc.get b.source.files id = some source → length source ≤ b.options.maxSourceBytes

section Imports

theorem resolveImports_allows {x : List (Text × Text) × List Text}
    (h : b.resolveImports id resolved found specifiers = .ok x) : ∀ s ∈ specifiers, b.Allows s := by
  induction specifiers generalizing resolved found
  case nil                         => simp
  case cons specifier specifiers ih =>
    rw [resolveImports] at h
    rw [List.forall_mem_cons]
    split at h
    case isTrue hrel =>
      dsimp only at h
      split at h
      case isTrue  => cases h
      case isFalse => exact ⟨.inl hrel, ih h⟩
    case isFalse =>
      split at h
      case isTrue hnode =>
        split at h
        case isTrue hmem => exact ⟨.inr <| by rwa [if_pos hnode], ih h⟩
        case isFalse     => cases h
      case isFalse hnode =>
        split at h
        case isTrue hmem => exact ⟨.inr <| by rwa [if_neg hnode], ih h⟩
        case isFalse     => cases h

theorem Alike.isFile (ha : Alike o b) : b.isFile = o.isFile := by
  funext id
  rw [Build.isFile, Build.isFile, ha.files]

-- The lists of what is allowed decide on failure only.
theorem Alike.resolveImports (ha : Alike o b) {x : List (Text × Text) × List Text}
    (h : o.resolveImports id resolved found specifiers = .ok x) (hall : ∀ s ∈ specifiers, b.Allows s) :
    b.resolveImports id resolved found specifiers = .ok x := by
  induction specifiers generalizing resolved found
  case nil                          => exact h
  case cons specifier specifiers ih =>
    rw [List.forall_mem_cons] at hall
    rw [Build.resolveImports] at h ⊢
    split at h
    case isTrue hrel =>
      rw [if_pos hrel]
      dsimp only at h ⊢
      rw [ha.isFile]
      split at h
      case isTrue       => cases h
      case isFalse hres =>
        rw [if_neg hres]
        exact ih h hall.right
    case isFalse hrel =>
      have hallowed := hall.left.resolve_left hrel
      rw [if_neg hrel]
      split at h
      case isTrue hnode =>
        rw [if_pos hnode] at hallowed ⊢
        rw [if_pos hallowed]
        split at h
        case isTrue  => exact ih h hall.right
        case isFalse => cases h
      case isFalse hnode =>
        rw [if_neg hnode] at hallowed ⊢
        rw [if_pos hallowed]
        split at h
        case isTrue  => exact ih h hall.right
        case isFalse => cases h

end Imports

section Records

theorem Alike.parsed (ha : Alike o b) : b.parsed id source = o.parsed id source := by
  rw [Build.parsed, Build.parsed, ha.tools, ha.pluginId]

theorem Alike.dynamicImports (ha : Alike o b) :
    b.dynamicImports id source = o.dynamicImports id source := by
  rw [Build.dynamicImports, Build.dynamicImports, collectDynamicImports, collectDynamicImports, ha.tools]

theorem Alike.source? (ha : Alike o b) (hb : b.Bounded) (h : o.source? id = .ok source) :
    b.source? id = .ok source := by
  rw [Build.source?, ← ha.files] at h
  rw [Build.source?]
  cases hget : Assoc.get b.source.files id
  case none     => simp [hget] at h
  case some src =>
    have hle := hb id src hget
    rw [hget] at h
    dsimp only at h ⊢
    rw [if_neg (Nat.not_lt.mpr hle)]
    split at h
    case isTrue  => cases h
    case isFalse => exact h

theorem readModule_eq_ok {x : PluginModuleRecord × List Text} : b.readModule id = .ok x ↔
    ∃ source, b.source? id = .ok source ∧ ∃ parsed, b.parsed id source = .ok parsed ∧
    ∃ specifiers, b.dynamicImports id source = .ok specifiers ∧
    ∃ y, b.resolveImports id [] [] (join parsed.imports specifiers) = .ok y ∧
    (⟨id, pluginModuleLocation b.source.pluginId id, moduleKind id, b.sha256 source,
      join parsed.imports specifiers, parsed.exports, y.fst, source⟩, y.snd) = x := by
  simp only [readModule, bind_eq_ok, pure, Except.pure, Except.ok.injEq]

theorem readModule_allows {x : PluginModuleRecord × List Text} (h : b.readModule id = .ok x) :
    ∀ s ∈ x.fst.imports, b.Allows s := by
  have ⟨_, _, _, _, _, _, _, hy, hx⟩ := readModule_eq_ok.mp h
  subst hx
  exact resolveImports_allows hy

theorem Alike.readModule (ha : Alike o b) (hb : b.Bounded) (hsha : b.sha256 = o.sha256)
    {x : PluginModuleRecord × List Text} (h : o.readModule id = .ok x)
    (hall : ∀ s ∈ x.fst.imports, b.Allows s) : b.readModule id = .ok x := by
  have ⟨source, hsource, parsed, hparsed, specifiers, hdyn, y, hy, hx⟩ := readModule_eq_ok.mp h
  subst hx
  refine readModule_eq_ok.mpr ⟨source, ha.source? hb hsource, parsed, ?_, specifiers, ?_, y, ?_, ?_⟩
  · rw [ha.parsed, hparsed]
  · rw [ha.dynamicImports, hdyn]
  · exact ha.resolveImports hy hall
  · rw [ha.pluginId, hsha]

end Records

section Loop

theorem mem_of_loop (h : b.loop room records queue = .ok out) : ∀ r ∈ records, r ∈ out := by
  induction room generalizing records queue
  case zero =>
    rw [loop] at h
    split at h
    · cases h
      exact fun _ hr => hr
    · cases h
  case succ room ih =>
    rw [loop] at h
    split at h
    · cases h
      exact fun _ hr => hr
    · have ⟨x, _, hloop⟩ := bind_eq_ok.mp h
      exact fun r hr => ih hloop r <| List.mem_append_left _ hr

theorem loop_allows (h : b.loop room records queue = .ok out)
    (hall : ∀ r ∈ records, ∀ s ∈ r.imports, b.Allows s) : ∀ r ∈ out, ∀ s ∈ r.imports, b.Allows s := by
  induction room generalizing records queue
  case zero =>
    rw [loop] at h
    split at h
    · cases h
      exact hall
    · cases h
  case succ room ih =>
    rw [loop] at h
    split at h
    · cases h
      exact hall
    · have ⟨x, hx, hloop⟩ := bind_eq_ok.mp h
      refine ih hloop fun r hr => ?_
      rcases List.mem_append.mp hr with hr | hr
      · exact hall r hr
      · rw [List.mem_singleton.mp hr]
        exact readModule_allows hx

-- A build that goes through goes through in the same way where all of its imports are allowed.
theorem Alike.loop (ha : Alike o b) (hb : b.Bounded) (hsha : b.sha256 = o.sha256)
    (h : o.loop room records queue = .ok out) (hall : ∀ r ∈ out, ∀ s ∈ r.imports, b.Allows s) :
    b.loop room records queue = .ok out := by
  induction room generalizing records queue
  case zero =>
    rw [Build.loop] at h ⊢
    split at h
    · exact h
    · cases h
  case succ room ih =>
    rw [Build.loop] at h ⊢
    split at h
    · exact h
    · have ⟨x, hx, hloop⟩ := bind_eq_ok.mp h
      have hmem : x.fst ∈ out := mem_of_loop hloop _ <| List.mem_append_right _ <| List.mem_singleton_self _
      exact bind_eq_ok.mpr ⟨x, ha.readModule hb hsha hx <| hall _ hmem, ih hloop⟩

theorem buildModuleGraph_eq_ok : b.buildModuleGraph = .ok m ↔
    b.source.pluginId ≠ [] ∧ b.isFile b.source.entry ∧
    ∃ records, b.loop b.options.maxModules [] [b.source.entry] = .ok records ∧
    (⟨⟨b.source.pluginId, b.source.entry, sorted records⟩,
      records.flatMap fun r => warningsOf r.id r.source⟩ : ModuleGraphBuildResult) = m := by
  rw [buildModuleGraph]
  split
  case isTrue h  => simp [h]
  case isFalse h =>
    split
    case isTrue hf  =>
      have hno : b.isFile b.source.entry = false := by simpa using hf
      simp [hno]
    case isFalse hf =>
      have hfile : b.isFile b.source.entry = true := by simpa using hf
      simp only [bind_eq_ok, pure, Except.pure, Except.ok.injEq, h, hfile, ne_eq, not_false_eq_true,
        true_and]

-- With the same files and packages, the graph is that of a build exactly where the build is of the same
-- plugin and entry and has all imports of the graph allowed.
theorem rebuild_iff (hfiles : ∀ id, Assoc.get b.source.files id = Assoc.get o.source.files id)
    (htools : b.tools = o.tools) (hb : b.Bounded) (hsha : b.sha256 = o.sha256)
    (hmax : b.options.maxModules = o.options.maxModules) (ho : o.buildModuleGraph = .ok m) :
    b.buildModuleGraph = .ok m ↔
      b.source.pluginId = o.source.pluginId ∧ b.source.entry = o.source.entry ∧
      ∀ r ∈ m.graph.records, ∀ s ∈ r.imports, b.Allows s := by
  have ⟨hid, hfile, records, hloop, hm⟩ := buildModuleGraph_eq_ok.mp ho
  subst hm
  have hmem (r : PluginModuleRecord) : r ∈ sorted records ↔ r ∈ records :=
    (List.perm_insertionSort _ _).mem_iff
  constructor
  case mp  =>
    intro h
    have ⟨_, _, records', hloop', heq⟩ := buildModuleGraph_eq_ok.mp h
    have hgraph := congrArg ModuleGraphBuildResult.graph heq
    have hall := loop_allows hloop' (by simp)
    refine ⟨congrArg PluginModuleGraph.pluginId hgraph, congrArg PluginModuleGraph.entry hgraph, ?_⟩
    intro r hr
    have hrecords : sorted records' = sorted records := congrArg PluginModuleGraph.records hgraph
    rw [← hrecords] at hr
    exact hall r <| (List.perm_insertionSort _ _).mem_iff.mp hr
  case mpr =>
    intro ⟨hplugin, hentry, hall⟩
    have ha : Alike o b := ⟨hplugin, hentry, hfiles, htools⟩
    refine buildModuleGraph_eq_ok.mpr ⟨hplugin ▸ hid, ?_, records, ?_, ?_⟩
    · rwa [ha.isFile, hentry]
    · rw [hmax, hentry]
      exact ha.loop hb hsha hloop fun r hr => hall r <| (hmem r).mpr hr
    · rw [hplugin, hentry]

end Loop
end Build

section Files

variable {limits : Limits} {scanned : Nat} {files files' : Files} {disk : List DiskFile}

theorem units_le_utf8Size (c : Char) : (if c.val < 0x10000 then 1 else 2) ≤ c.utf8Size := by
  have hpos := c.utf8Size_pos
  split
  case isTrue    => exact hpos
  case isFalse h =>
    have hlarge : ¬c.val.toNat < 0x10000 := fun hlt => h <| UInt32.lt_iff_toNat_lt.mpr hlt
    have hfour : c.utf8Size = 4 := by
      simp only [Char.utf8Size, UInt32.le_iff_toNat_le, UInt32.toNat_ofNatLT]
      rw [if_neg (by omega), if_neg (by omega), if_neg (by omega)]
    omega

theorem length_le_size (t : Text) : length t ≤ (t.map Char.utf8Size).sum := by
  induction t
  case nil         => exact Nat.le_refl 0
  case cons c t ih =>
    rw [length] at ih ⊢
    rw [List.map_cons, List.map_cons, List.sum_cons, List.sum_cons]
    exact Nat.add_le_add (units_le_utf8Size c) ih

theorem bounded_readPackageFiles (h : readPackageFiles limits scanned files disk = .ok files')
    (hb : ∀ id t, Assoc.get files id = some t → length t ≤ limits.sourceBytes) :
    ∀ id t, Assoc.get files' id = some t → length t ≤ limits.sourceBytes := by
  induction disk generalizing scanned files
  case nil            =>
    rw [readPackageFiles] at h
    cases h
    exact hb
  case cons f disk ih =>
    rw [readPackageFiles] at h
    split at h
    · exact ih h hb
    · split at h
      · cases h
      · split at h
        · cases h
        · refine ih h fun id t ht => ?_
          by_cases hid : id = f.rel
          case pos =>
            rw [hid, Assoc.get_set_self] at ht
            cases ht
            exact (length_le_size f.text).trans <| Nat.not_lt.mp ‹_›
          case neg => exact hb id t <| by rwa [Assoc.get_set_of_ne hid] at ht

end Files

namespace Activation

variable {sha256 : Text → Text} {a : Activation} {b : Build}

theorem build_eq_ok : a.build sha256 = .ok b ↔
    ∃ entry, normalizeEntry a.spec.entry = .ok entry ∧
    ∃ files, readPackageFiles a.limits 0 [] a.disk = .ok files ∧
    (⟨sha256, a.installation.tools, ⟨a.spec.pluginId, entry, files⟩,
      { allowedNodeBuiltins := a.spec.allowedNodeBuiltins.getD []
        allowedDependencies := a.spec.allowedDependencies.getD []
        maxSourceBytes      := a.limits.sourceBytes }⟩ : Build) = b := by
  simp only [build, bind_eq_ok, pure, Except.pure, Except.ok.injEq]

theorem bounded (h : a.build sha256 = .ok b) : b.Bounded := by
  have ⟨_, _, files, hfiles, hb⟩ := build_eq_ok.mp h
  subst hb
  exact bounded_readPackageFiles hfiles (by simp)

theorem build_sha256 (h : a.build sha256 = .ok b) : b.sha256 = sha256 := by
  have ⟨_, _, _, _, hb⟩ := build_eq_ok.mp h
  rw [← hb]

theorem build_maxModules (h : a.build sha256 = .ok b) : b.options.maxModules = 256 := by
  have ⟨_, _, _, _, hb⟩ := build_eq_ok.mp h
  rw [← hb]

end Activation

namespace ModuleMapDiskCache

variable {sha256 : Text → Text} {c : ModuleMapDiskCache} {e : Entry} {k : Text}

-- Each cached graph that has been returned is the one that a rebuild would have given.
def Exact (c : ModuleMapDiskCache) : Prop :=
  ∀ h ∈ c.hits, h.build.buildModuleGraph = .ok h.cached

-- What is found in the cache comes from the same plugin, entry, files and packages, and the lists of the
-- activation allow all that it imports.
def Current (sha256 : Text → Text) (c : ModuleMapDiskCache) : Event → Prop
  | .activate a => ∀ b e, a.build sha256 = .ok b → c.get (a.key sha256 b.source.files) = some e →
    Build.Alike e.origin b ∧ ∀ r ∈ e.stored.graph.records, ∀ s ∈ r.imports, b.Allows s
  | _           => True

-- An entry has what its build gave.
structure Genuine (sha256 : Text → Text) (e : Entry) : Prop where
  built      : e.origin.buildModuleGraph = .ok e.stored
  sha256     : e.origin.sha256 = sha256
  maxModules : e.origin.options.maxModules = 256

structure Sound (sha256 : Text → Text) (c : ModuleMapDiskCache) : Prop where
  entries : ∀ x ∈ c.entries, Genuine sha256 x.snd
  pending : ∀ x ∈ c.pending, Genuine sha256 x.snd
  exact   : c.Exact

theorem Sound.genuine (hs : Sound sha256 c) (h : c.get k = some e) : Genuine sha256 e := by
  have hget := (Option.filter_eq_some_iff.mp h).left
  exact hs.entries (k, e) <| Assoc.mem_of_get hget

theorem Sound.buildGraph (hs : Sound sha256 c) {a : Activation} (hok : Current sha256 c (.activate a)) :
    Sound sha256 (c.buildGraph sha256 a).fst := by
  rw [ModuleMapDiskCache.buildGraph]
  split
  · exact hs
  · rename_i b hb
    dsimp only
    split
    case h_1 e hget =>
      split
      · exact hs
      · have hgen := hs.genuine hget
        have ⟨halike, hall⟩ := hok b e hb hget
        have hsha := (Activation.build_sha256 hb).trans hgen.sha256.symm
        have hmax := (Activation.build_maxModules hb).trans hgen.maxModules.symm
        have hrebuild := (Build.rebuild_iff halike.files halike.tools (Activation.bounded hb) hsha hmax
          hgen.built).mpr ⟨halike.pluginId, halike.entry, hall⟩
        exact ⟨hs.entries, hs.pending, List.forall_mem_cons.mpr ⟨hrebuild, hs.exact⟩⟩
    case h_2 =>
      split
      · exact hs
      · rename_i r hr
        split
        · exact hs
        · refine ⟨hs.entries, fun x hx => ?_, hs.exact⟩
          rcases List.mem_append.mp hx with hx | hx
          · exact hs.pending x hx
          · rw [List.mem_singleton.mp hx]
            exact ⟨hr, Activation.build_sha256 hb, Activation.build_maxModules hb⟩

theorem Sound.put (hs : Sound sha256 c) (i : Nat) : Sound sha256 (c.put i) := by
  rw [ModuleMapDiskCache.put]
  split
  · exact hs
  · rename_i key e he
    refine ⟨fun x hx => ?_, fun x hx => hs.pending x <| List.mem_of_mem_eraseIdx hx, hs.exact⟩
    rcases Assoc.mem_set hx with rfl | hx
    · exact hs.pending (key, e) <| List.mem_of_getElem? he
    · exact hs.entries x hx

theorem Sound.step (hs : Sound sha256 c) {e : Event} (hok : Current sha256 c e) :
    Sound sha256 (step sha256 c e) := by
  cases e
  case activate a => exact hs.buildGraph hok
  case put i      => exact hs.put i
  case fail i     => exact ⟨hs.entries, fun x hx => hs.pending x <| List.mem_of_mem_eraseIdx hx, hs.exact⟩
  case remove key =>
    exact ⟨fun x hx => hs.entries x (Assoc.mem_delete.mp hx).left, hs.pending, hs.exact⟩
  case clear      => exact ⟨by simp [ModuleMapDiskCache.step, ModuleMapDiskCache.clear], hs.pending, hs.exact⟩

-- A cache hit equals a rebuild in every run in which what is found belongs to the activation.
theorem exact_throughout (sha256 : Text → Text) (es : List Event)
    (h : Runs.Meets (step sha256) (Current sha256) {} es) :
    Runs.Throughout (step sha256) Exact {} es := by
  have hsound : Runs.Throughout (step sha256) (Sound sha256) {} es :=
    Runs.throughout_of_meets (fun _ _ hs hok => hs.step hok) ⟨by simp, by simp, by simp [Exact]⟩ h
  exact hsound.mono fun _ hs => hs.exact

section Examples

private def installation : Installation where
  node       := "24.0.0".toList
  manifest _ := none
  tools      := {
    moduleSource _ _ := .ok ⟨["./data.json".toList, "node:path".toList], []⟩
    parse _          := .ok .other
    parseJson _      := .ok ()
  }

private def activation (pluginId : String) : Activation where
  spec         := {
    pluginId            := pluginId.toList
    entry               := "./index.js".toList
    allowedNodeBuiltins := some ["node:path".toList]
  }
  disk         := [⟨["index.js".toList], "main".toList⟩, ⟨["data.json".toList], "1".toList⟩]
  installation := installation
  limits       := ⟨1000, 10000, 10000⟩

private def builtBy (pluginId : String) : Build where
  sha256  := id
  tools   := installation.tools
  source  := {
    pluginId := pluginId.toList
    entry    := "index.js".toList
    files    := [("index.js".toList, "main".toList), ("data.json".toList, "1".toList)]
  }
  options := { allowedNodeBuiltins := ["node:path".toList], maxSourceBytes := 1000 }

private def mainRecord (pluginId : String) : PluginModuleRecord where
  id              := "index.js".toList
  location        := "neotavern-plugin://".toList ++ pluginId.toList ++ "/index.js".toList
  kind            := .js
  digest          := "main".toList
  imports         := ["./data.json".toList, "node:path".toList]
  exports         := []
  resolvedImports := [("./data.json".toList, "data.json".toList), ("node:path".toList, "node:path".toList)]
  source          := "main".toList

private def dataRecord (pluginId : String) : PluginModuleRecord where
  id              := "data.json".toList
  location        := "neotavern-plugin://".toList ++ pluginId.toList ++ "/data.json".toList
  kind            := .json
  digest          := "1".toList
  imports         := []
  exports         := ["default".toList]
  resolvedImports := []
  source          := "1".toList

private def graphOf (pluginId : String) : ModuleGraphBuildResult where
  graph    := ⟨pluginId.toList, "index.js".toList, [dataRecord pluginId, mainRecord pluginId]⟩
  warnings := []

private def cachedFor (pluginId : String) : ModuleMapDiskCache where
  entries := [((activation pluginId).key id (builtBy pluginId).source.files,
    ⟨graphOf pluginId, builtBy pluginId⟩)]

private theorem finish_a : ∃ g, finish id (activation "a").limits (graphOf "a") = .ok g := by
  have hok : (finish id (activation "a").limits (graphOf "a")).isOk := by decide +kernel
  cases hf : finish id (activation "a").limits (graphOf "a")
  case error e => simp [hf, Except.isOk, Except.toBool] at hok
  case ok g    => exact ⟨g, rfl⟩

private theorem cachedFor_a :
    step id (step id {} (.activate (activation "a"))) (.put 0) = cachedFor "a" := by
  have hbuild : (activation "a").build id = .ok (builtBy "a") := rfl
  have hgraph : (builtBy "a").buildModuleGraph = .ok (graphOf "a") := by decide +kernel
  have ⟨g, hg⟩ := finish_a
  simp [step, buildGraph, hbuild, get, hgraph, hg, put, Assoc.set, cachedFor]

theorem exact_throughout_again : Runs.Throughout (step id) Exact {}
    [.activate (activation "a"), .put 0, .activate (activation "a")] := by
  refine exact_throughout id _ ⟨?_, trivial, ?_, trivial⟩
  · intro b e _ hget
    cases hget
  · intro b e hb hget
    have hbuilt : builtBy "a" = b := Except.ok.inj hb
    subst hbuilt
    rw [cachedFor_a] at hget
    have hentry := (Option.filter_eq_some_iff.mp hget).left
    rw [cachedFor, Assoc.get_cons, if_pos rfl] at hentry
    cases hentry
    have hallowed : ∀ r ∈ (graphOf "a").graph.records, ∀ s ∈ r.imports,
        (startsWith "./".toList s || startsWith "../".toList s) ∨
        if isNodeBuiltin s then s ∈ ["node:path".toList] else s ∈ [] := by decide +kernel
    exact ⟨⟨rfl, rfl, fun _ => rfl, rfl⟩, hallowed⟩

-- A plugin with the files of another one is given the graph of the other one.
theorem cached_of_another : ¬∀ sha256 : Text → Text, Function.Injective sha256 →
    ∀ es : List Event, Runs.Throughout (step sha256) Exact {} es := by
  intro h
  have hexact : Exact (step id (step id (step id {} (.activate (activation "a"))) (.put 0))
      (.activate (activation "b"))) :=
    (h id Function.injective_id [.activate (activation "a"), .put 0, .activate (activation "b")]).last
  rw [cachedFor_a] at hexact
  have hbuild : (activation "b").build id = .ok (builtBy "b") := rfl
  have hget : (cachedFor "a").get ((activation "b").key id (builtBy "b").source.files) =
      some ⟨graphOf "a", builtBy "a"⟩ := by
    have hsmall : length (Json.stored (graphOf "a")) ≤ maxEntryBytes := by decide +kernel
    have hkey : (activation "b").key id (builtBy "b").source.files =
        (activation "a").key id (builtBy "a").source.files := rfl
    rw [hkey, get, cachedFor, Assoc.get_cons, if_pos rfl, Option.filter_some, if_pos (decide_eq_true hsmall)]
  have ⟨g, hg⟩ := finish_a
  have hlimits : (activation "b").limits = (activation "a").limits := rfl
  have hhit : ⟨builtBy "b", graphOf "a"⟩ ∈
      (step id (cachedFor "a") (.activate (activation "b"))).hits := by
    simp [step, buildGraph, hbuild, hget, hlimits, hg]
  have hother : (builtBy "b").buildModuleGraph ≠ .ok (graphOf "a") := by decide +kernel
  exact hother <| hexact _ hhit

example : isNodeBuiltin "node:path".toList := by
  decide +kernel

end Examples

end ModuleMapDiskCache
end ModuleMap
