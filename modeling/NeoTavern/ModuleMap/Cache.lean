import NeoTavern.ModuleMap.Builder

namespace ModuleMap

open Database (trim)

structure ModuleMapCacheVersions where
  node             : Text
  ses              : Text
  endoModuleSource : Text
  neotavernLoader  : Text
  deriving DecidableEq

-- What is installed where an activation takes place. `manifest` tells of each package whether its
-- `package.json` can be required, and the version that stands there.
structure Installation where
  node     : Text
  manifest : String → Option (Option Text)
  tools    : Toolchain

def Installation.readVersion (i : Installation) (packageName : String) : Text :=
  match i.manifest packageName with
  | some (some version) => version
  | _                   => "unknown".toList

def Installation.resolveModuleMapVersions (i : Installation) : ModuleMapCacheVersions where
  node             := i.node
  ses              := i.readVersion "ses"
  endoModuleSource := i.readVersion "@endo/module-source"
  neotavernLoader  := i.readVersion "@neotavern/plugin-runtime"

section Keys

variable (sha256 : Text → Text)

def nul : Char :=
  Char.ofNat 0

def packageSourceDigest (files : Files) : Text :=
  let rels := (files.map (·.fst)).insertionSort fun s t => codeUnits s ≤ codeUnits t
  sha256 <| rels.flatMap fun rel => rel ++ nul :: (Assoc.get files rel).getD [] ++ [nul]

def moduleMapCacheKey (sourceDigest : Text) (versions : ModuleMapCacheVersions) : Text :=
  sha256 <| sourceDigest ++ versions.node ++ versions.ses ++ versions.endoModuleSource ++
    versions.neotavernLoader

end Keys

-- What `JSON.stringify` writes.
namespace Json

def quote : Char :=
  Char.ofNat 0x22

def backslash : Char :=
  Char.ofNat 0x5c

def hexDigit (n : Nat) : Char :=
  Char.ofNat <| if n < 10 then 0x30 + n else 0x57 + n

def escape (c : Char) : Text :=
  if c = quote || c = backslash then
    [backslash, c]
  else if c.toNat < 0x20 then
    match c.toNat with
    | 8  => [backslash, 'b']
    | 9  => [backslash, 't']
    | 10 => [backslash, 'n']
    | 12 => [backslash, 'f']
    | 13 => [backslash, 'r']
    | n  => backslash :: "u00".toList ++ [hexDigit (n / 16), hexDigit (n % 16)]
  else
    [c]

def string (t : Text) : Text :=
  quote :: t.flatMap escape ++ [quote]

def array (items : List Text) : Text :=
  '[' :: List.intercalate [','] items ++ [']']

def object (properties : List (Text × Text)) : Text :=
  Char.ofNat 0x7b :: List.intercalate [','] (properties.map fun p => string p.fst ++ ':' :: p.snd) ++
    [Char.ofNat 0x7d]

-- Keys that are indices of an array come first in an object, by their value.
def index? (key : Text) : Option Nat :=
  if key ≠ [] && key.all Char.isDigit && (key = ['0'] || key.head? ≠ some '0') then
    let n := key.foldl (fun n c => 10 * n + (c.toNat - 0x30)) 0
    if n < 4294967295 then some n else none
  else
    none

def ordered (properties : List (Text × Text)) : List (Text × Text) :=
  let indexed := properties.filter fun p => (index? p.fst).isSome
  indexed.insertionSort (fun p q => (index? p.fst).getD 0 ≤ (index? q.fst).getD 0) ++
    properties.filter fun p => (index? p.fst).isNone

def kind : Kind → Text
  | .js   => string "js".toList
  | .json => string "json".toList

def record (r : PluginModuleRecord) : Text :=
  object [
    ("id".toList, string r.id), ("location".toList, string r.location), ("kind".toList, kind r.kind),
    ("digest".toList, string r.digest), ("imports".toList, array <| r.imports.map string),
    ("exports".toList, array <| r.exports.map string),
    ("resolvedImports".toList,
      object <| (ordered r.resolvedImports).map fun p => (p.fst, string p.snd)),
    ("source".toList, string r.source)
  ]

def graph (g : PluginModuleGraph) : Text :=
  object [
    ("pluginId".toList, string g.pluginId), ("entry".toList, string g.entry),
    ("records".toList, array <| g.records.map record)
  ]

-- What the cache writes into a file. Reading it gives the same value.
def stored (e : ModuleGraphBuildResult) : Text :=
  object [("graph".toList, graph e.graph), ("warnings".toList, array <| e.warnings.map string)]

end Json

inductive AppError
  | entryEscapesPackage (entry : Text)
  | emptyEntry
  | packageScanLimitExceeded (limitBytes : Nat)
  | moduleSourceTooLarge (file : Text) (sizeBytes limitBytes : Nat)
  | graphTooLarge (sizeBytes limitBytes : Nat)
  deriving DecidableEq

inductive ActivationError
  | app (e : AppError)
  | build (e : BuildError)
  deriving DecidableEq

def stripCurrent : Text → Text
  | '.' :: '/' :: id => stripCurrent id
  | id               => id

-- Whether `includes('..')`.
def includesParent : Text → Bool
  | '.' :: '.' :: _ => true
  | _ :: id         => includesParent id
  | []              => false

def normalizeEntry (entry : Text) : Except AppError Text :=
  let id := stripCurrent (trim entry)
  if startsWith ['/'] id || includesParent id then
    .error <| .entryEscapesPackage entry
  else if id = [] then
    .error .emptyEntry
  else
    .ok id

-- A file of a package, by its path from the root of the package.
structure DiskFile where
  path : List Text
  text : Text
  deriving DecidableEq

namespace DiskFile

def hidden (f : DiskFile) : Bool :=
  f.path.any (startsWith ['.'])

def name (f : DiskFile) : Text :=
  f.path.getLast?.getD []

-- Bytes of UTF-8.
def size (f : DiskFile) : Nat :=
  (f.text.map Char.utf8Size).sum

def rel (f : DiskFile) : Text :=
  (List.intercalate ['/'] f.path).map fun c => if c = Json.backslash then '/' else c

end DiskFile

structure Limits where
  sourceBytes : Nat
  graphBytes  : Nat
  scanBytes   : Nat
  deriving DecidableEq

-- The files in the order of the walk, after `scannedBytes` of those before.
def readPackageFiles (limits : Limits) : (scannedBytes : Nat) → Files → List DiskFile →
    Except AppError Files
  | _, files, []                   => .ok files
  | scannedBytes, files, f :: disk =>
    if f.hidden then
      readPackageFiles limits scannedBytes files disk
    else if scannedBytes + f.size > limits.scanBytes then
      .error <| .packageScanLimitExceeded limits.scanBytes
    else if f.size > limits.sourceBytes then
      .error <| .moduleSourceTooLarge f.name f.size limits.sourceBytes
    else
      readPackageFiles limits (scannedBytes + f.size) (Assoc.set files f.rel f.text) disk

structure VNextPluginActivationSpec where
  pluginId            : Text
  entry               : Text
  allowedNodeBuiltins : Option (List Text) := none
  allowedDependencies : Option (List Text) := none
  deriving DecidableEq

structure Activation where
  spec         : VNextPluginActivationSpec
  disk         : List DiskFile
  installation : Installation
  limits       : Limits

namespace Activation

variable (sha256 : Text → Text) (a : Activation)

-- What the graph of the plugin is built from.
def build : Except AppError Build := do
  let entry ← normalizeEntry a.spec.entry
  let files ← readPackageFiles a.limits 0 [] a.disk
  return {
    sha256  := sha256
    tools   := a.installation.tools
    source  := ⟨a.spec.pluginId, entry, files⟩
    options := {
      allowedNodeBuiltins := a.spec.allowedNodeBuiltins.getD []
      allowedDependencies := a.spec.allowedDependencies.getD []
      maxSourceBytes      := a.limits.sourceBytes
    }
  }

def key (files : Files) : Text :=
  moduleMapCacheKey sha256 (packageSourceDigest sha256 files) a.installation.resolveModuleMapVersions

def graphBytes (graph : PluginModuleGraph) : Nat :=
  ((Json.graph graph).map Char.utf8Size).sum

end Activation

structure BuiltGraph where
  graph       : PluginModuleGraph
  graphDigest : Text
  warnings    : List Text
  deriving DecidableEq

-- An entry of the cache, with the build that it comes from.
structure Entry where
  stored : ModuleGraphBuildResult
  origin : Build

-- A cached graph that an activation has been given.
structure Hit where
  build  : Build
  cached : ModuleGraphBuildResult

-- The cache directory that activations share. `pending` has what has been built and is yet to be put.
structure ModuleMapDiskCache where
  entries : List (Text × Entry) := []
  pending : List (Text × Entry) := []
  hits    : List Hit := []

namespace ModuleMapDiskCache

variable (sha256 : Text → Text) (c : ModuleMapDiskCache)

def maxEntryBytes : Nat :=
  8 * 1024 * 1024

def get (key : Text) : Option Entry :=
  (Assoc.get c.entries key).filter fun e => length (Json.stored e.stored) ≤ maxEntryBytes

def finish (limits : Limits) (r : ModuleGraphBuildResult) : Except ActivationError BuiltGraph :=
  let bytes := Activation.graphBytes r.graph
  if bytes > limits.graphBytes then
    .error <| .app <| .graphTooLarge bytes limits.graphBytes
  else
    .ok ⟨r.graph, sha256 (Json.graph r.graph), r.warnings⟩

-- An activation up to the point where it returns or is about to put what it has built.
def buildGraph (a : Activation) : ModuleMapDiskCache × Except ActivationError BuiltGraph :=
  match a.build sha256 with
  | .error e => (c, .error <| .app e)
  | .ok b    =>
    let key := a.key sha256 b.source.files
    match c.get key with
    | some e =>
      match finish sha256 a.limits e.stored with
      | .error e => (c, .error e)
      | .ok g    => ({ c with hits := ⟨b, e.stored⟩ :: c.hits }, .ok g)
    | none   =>
      match b.buildModuleGraph with
      | .error e => (c, .error <| .build e)
      | .ok r    =>
        match finish sha256 a.limits r with
        | .error e => (c, .error e)
        | .ok g    => ({ c with pending := c.pending ++ [(key, ⟨r, b⟩)] }, .ok g)

def put (i : Nat) : ModuleMapDiskCache :=
  match c.pending[i]? with
  | none          => c
  | some (key, e) => { c with entries := Assoc.set c.entries key e, pending := c.pending.eraseIdx i }

-- A file is removed, or becomes one that cannot be read.
def remove (key : Text) : ModuleMapDiskCache :=
  { c with entries := Assoc.delete c.entries key }

def clear : ModuleMapDiskCache :=
  { c with entries := [] }

inductive Event
  | activate (a : Activation)
  | put (i : Nat)
  | fail (i : Nat)
  | remove (key : Text)
  | clear

def step : ModuleMapDiskCache → Event → ModuleMapDiskCache
  | c, .activate a => (c.buildGraph sha256 a).fst
  | c, .put i      => c.put i
  | c, .fail i     => { c with pending := c.pending.eraseIdx i }
  | c, .remove key => c.remove key
  | c, .clear      => c.clear

end ModuleMapDiskCache
end ModuleMap
