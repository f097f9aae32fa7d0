import Mathlib
import NeoTavern.Lib.Assoc
import NeoTavern.Database.ReadGate

namespace ModuleMap

open Database (isWhiteSpace isWordChar)

abbrev Text := List Char

-- The length of a string: UTF-16 code units.
def length (t : Text) : Nat :=
  (t.map fun c => if c.val < 0x10000 then 1 else 2).sum

-- The code units by which strings are compared.
def codeUnits (t : Text) : List Nat :=
  t.flatMap fun c =>
    if c.toNat < 0x10000 then
      [c.toNat]
    else
      [0xd800 + (c.toNat - 0x10000) / 0x400, 0xdc00 + (c.toNat - 0x10000) % 0x400]

def startsWith (start t : Text) : Bool :=
  start.isPrefixOf t

def endsWith (ending t : Text) : Bool :=
  ending.isSuffixOf t

-- What Babel gives: the properties of each object in their order.
inductive Node
  | text (value : Text)
  | other
  | array (items : List Node)
  | object (properties : List (Text × Node))

structure ModuleSource where
  imports : List Text
  exports : List Text
  deriving DecidableEq

-- The packages and the platform that the builder rests on. An error comes with its message.
structure Toolchain where
  moduleSource : (source location : Text) → Except Text ModuleSource
  parse        : (source : Text) → Except Text Node
  parseJson    : (source : Text) → Except Text Unit

def nodeBuiltinModules : List String := [
  "assert", "assert/strict", "async_hooks", "buffer", "child_process", "cluster", "console",
  "constants", "crypto", "dgram", "diagnostics_channel", "dns", "dns/promises", "domain", "events",
  "fs", "fs/promises", "http", "http2", "https", "inspector", "inspector/promises", "module", "net",
  "os", "path", "path/posix", "path/win32", "perf_hooks", "process", "punycode", "querystring",
  "readline", "readline/promises", "repl", "sea", "sqlite", "stream", "stream/consumers",
  "stream/promises", "stream/web", "string_decoder", "sys", "test", "timers", "timers/promises",
  "tls", "trace_events", "tty", "url", "util", "util/types", "v8", "vm", "wasi", "worker_threads",
  "zlib"
]

def jsExtensions : List Text :=
  [".js".toList, ".mjs".toList, ".json".toList]

abbrev Files := List (Text × Text)

structure PluginPackageSource where
  pluginId : Text
  entry    : Text
  files    : Files
  deriving DecidableEq

structure BuildModuleGraphOptions where
  allowedNodeBuiltins : List Text := []
  allowedDependencies : List Text := []
  maxModules          : Nat := 256
  maxSourceBytes      : Nat := 1024 * 1024
  deriving DecidableEq

inductive Kind
  | js
  | json
  deriving DecidableEq

structure PluginModuleRecord where
  id              : Text
  location        : Text
  kind            : Kind
  digest          : Text
  imports         : List Text
  exports         : List Text
  resolvedImports : List (Text × Text)
  source          : Text
  deriving DecidableEq

structure PluginModuleGraph where
  pluginId : Text
  entry    : Text
  records  : List PluginModuleRecord
  deriving DecidableEq

structure ModuleGraphBuildResult where
  graph    : PluginModuleGraph
  warnings : List Text
  deriving DecidableEq

inductive PluginModuleErrorCode
  | packageInvalid
  | unsupportedDependency
  | unsupportedNodeBuiltin
  deriving DecidableEq

structure PluginModuleError where
  code      : PluginModuleErrorCode
  id        : Option Text := none
  entry     : Option Text := none
  specifier : Option Text := none
  detail    : String
  cause     : Option Text := none
  max       : Option Nat := none
  deriving DecidableEq

-- A source that Babel cannot parse makes the build fail with the error of Babel.
inductive BuildError
  | module (e : PluginModuleError)
  | syntaxError (message : Text)
  deriving DecidableEq

def isNodeBuiltin (specifier : Text) : Bool :=
  startsWith "node:".toList specifier || nodeBuiltinModules.any (·.toList = specifier)

-- `none` where the path leads out of the package.
def normalizeSegments : (segments parts : List Text) → Option (List Text)
  | segments, []            => some segments
  | segments, part :: parts =>
    if part = [] || part = ['.'] then
      normalizeSegments segments parts
    else if part = ['.', '.'] then
      if segments = [] then none else normalizeSegments segments.dropLast parts
    else
      normalizeSegments (segments ++ [part]) parts

def normalizePackagePath (path : Text) : Text :=
  match normalizeSegments [] (path.splitOn '/') with
  | some segments => List.intercalate ['/'] segments
  | none          => []

-- `importerId.slice(0, importerId.lastIndexOf('/') + 1)`
def directoryOf (importerId : Text) : Text :=
  (importerId.reverse.dropWhile (· ≠ '/')).reverse

def resolveRelativeId (importerId specifier : Text) (existing : Text → Bool) : Text :=
  let candidate := normalizePackagePath (directoryOf importerId ++ specifier)
  if candidate = [] then
    []
  else
    let candidates := candidate :: jsExtensions.map (candidate ++ ·) ++
      jsExtensions.map fun extension => candidate ++ "/index".toList ++ extension
    (candidates.find? existing).getD []

def moduleKind (id : Text) : Kind :=
  if endsWith ".json".toList id then .json else .js

def pluginModuleLocation (pluginId id : Text) : Text :=
  "neotavern-plugin://".toList ++ pluginId ++ '/' :: id.dropWhile (· = '/')

namespace Node

def property (name : String) : Node → Option Node
  | object properties => Assoc.get properties name.toList
  | _                 => none

def asText : Node → Option Text
  | text value => some value
  | _          => none

def hasType (type : String) (node : Node) : Bool :=
  (node.property "type" >>= asText) = some type.toList

def asQuasis : Node → List Node
  | array items => items
  | _           => []

-- The specifier of `import('./x.js')`, or of the same with a template that has no expression.
def dynamicSpecifier (node : Node) : Option Text :=
  if node.hasType "ImportExpression" then
    node.property "source" >>= fun source =>
      if source.hasType "StringLiteral" then
        source.property "value" >>= asText
      else if source.hasType "TemplateLiteral" then
        match (source.property "quasis").map asQuasis with
        | some [quasi] => quasi.property "value" >>= property "cooked" >>= asText
        | _            => none
      else
        none
  else
    none

def skipped : List Text :=
  ["loc".toList, "start".toList, "end".toList, "extra".toList]

mutual

def walk : Node → List Text
  | text _            => []
  | other             => []
  | array items       => walkItems items
  | object properties => (dynamicSpecifier (.object properties)).toList ++ walkProperties properties

def walkItems : List Node → List Text
  | []            => []
  | item :: items => walk item ++ walkItems items

def walkProperties : List (Text × Node) → List Text
  | []                        => []
  | (key, node) :: properties =>
    (if key ∈ skipped then [] else walk node) ++ walkProperties properties

end

end Node

section Warnings

-- Whether `\bword\s*\(` matches. `before` tells whether a character of a word comes before.
def calls (word : Text) : Bool → Text → Bool
  | _, []          => false
  | before, c :: z =>
    !before && startsWith word (c :: z) &&
        (((c :: z).drop word.length).dropWhile isWhiteSpace).head? = some '(' ||
      calls word (isWordChar c) z

-- Whether `module\.exports\b` matches.
def exportsModule : Text → Bool
  | []     => false
  | c :: z =>
    startsWith "module.exports".toList (c :: z) && !((c :: z).drop 14).head?.any isWordChar ||
      exportsModule z

def idioms (source : Text) : List String :=
  (if calls "require".toList false source then
    ["uses require(): unsupported outside the compartment"] else []) ++
  (if calls "eval".toList false source then ["uses eval(): dynamic code (§6.8)"] else []) ++
  (if calls "Function".toList false source then ["uses Function(): dynamic code (§6.8)"] else []) ++
  (if exportsModule source then ["CommonJS module.exports idiom detected"] else [])

def warningsOf (id source : Text) : List Text :=
  (idioms source).map fun message => id ++ ": ".toList ++ message.toList

end Warnings

-- What the build of one plugin works with.
structure Build where
  sha256  : Text → Text
  tools   : Toolchain
  source  : PluginPackageSource
  options : BuildModuleGraphOptions

namespace Build

variable (b : Build)

def isFile (id : Text) : Bool :=
  (Assoc.get b.source.files id).isSome

-- Assigning to `__proto__` sets no property.
def resolve (resolved : List (Text × Text)) (specifier id : Text) : List (Text × Text) :=
  if specifier = "__proto__".toList then resolved else Assoc.set resolved specifier id

-- Also gives the modules that are to be visited.
def resolveImports (id : Text) : (resolved : List (Text × Text)) → (found specifiers : List Text) →
    Except BuildError (List (Text × Text) × List Text)
  | resolved, found, []                      => .ok (resolved, found)
  | resolved, found, specifier :: specifiers =>
    if startsWith "./".toList specifier || startsWith "../".toList specifier then
      let resolvedId := resolveRelativeId id specifier b.isFile
      if resolvedId = [] then
        .error <| .module {
          code      := .packageInvalid
          id        := id
          specifier := specifier
          detail    := "relative import does not resolve inside the package"
        }
      else
        resolveImports id (resolve resolved specifier resolvedId) (found ++ [resolvedId]) specifiers
    else if isNodeBuiltin specifier then
      if specifier ∈ b.options.allowedNodeBuiltins then
        resolveImports id (resolve resolved specifier specifier) found specifiers
      else
        .error <| .module {
          code      := .unsupportedNodeBuiltin
          id        := id
          specifier := specifier
          detail    := "Node builtin is not vetted by the §9 compat layer"
        }
    else if specifier ∈ b.options.allowedDependencies then
      resolveImports id (resolve resolved specifier specifier) found specifiers
    else
      .error <| .module {
        code      := .unsupportedDependency
        id        := id
        specifier := specifier
        detail    := "external package is not part of the signed graph (§7.2)"
      }

-- What is imported and exported, as far as it shows in the source.
def parsed (id source : Text) : Except BuildError ModuleSource :=
  match moduleKind id with
  | .json =>
    match b.tools.parseJson source with
    | .ok _    => .ok ⟨[], ["default".toList]⟩
    | .error e => .error <| .module {
        code   := .packageInvalid
        id     := id
        detail := "invalid JSON module"
        cause  := e
      }
  | .js   =>
    match b.tools.moduleSource source (pluginModuleLocation b.source.pluginId id) with
    | .ok m    => .ok m
    | .error e => .error <| .module {
        code   := .packageInvalid
        id     := id
        detail := "module is not valid SES-compatible ES module"
        cause  := e
      }

def collectDynamicImports (source : Text) : Except BuildError (List Text) :=
  match b.tools.parse source with
  | .ok node => .ok node.walk
  | .error e => .error <| .syntaxError e

def dynamicImports (id source : Text) : Except BuildError (List Text) :=
  match moduleKind id with
  | .js   => b.collectDynamicImports source
  | .json => .ok []

def join (specifiers dynamicSpecifiers : List Text) : List Text :=
  dynamicSpecifiers.foldl (fun all s => if s ∈ all then all else all ++ [s]) specifiers

def source? (id : Text) : Except BuildError Text :=
  match Assoc.get b.source.files id with
  | none        => .error <| .module {
      code   := .packageInvalid
      id     := id
      detail := "imported module is missing from the package"
    }
  | some source =>
    if length source > b.options.maxSourceBytes then
      .error <| .module {
        code   := .packageInvalid
        id     := id
        detail := "module source exceeds " ++ toString b.options.maxSourceBytes ++ " bytes"
        max    := b.options.maxSourceBytes
      }
    else
      .ok source

-- The record of a module, with the modules that it leads to.
def readModule (id : Text) : Except BuildError (PluginModuleRecord × List Text) := do
  let source ← b.source? id
  let parsed ← b.parsed id source
  let dynamicSpecifiers ← b.dynamicImports id source
  let allSpecifiers := join parsed.imports dynamicSpecifiers
  let (resolvedImports, found) ← b.resolveImports id [] [] allSpecifiers
  let record : PluginModuleRecord := {
    id              := id
    location        := pluginModuleLocation b.source.pluginId id
    kind            := moduleKind id
    digest          := b.sha256 source
    imports         := allSpecifiers
    exports         := parsed.exports
    resolvedImports := resolvedImports
    source          := source
  }
  return (record, found)

-- The loop over the queue. Modules that are known are passed over, so that each round adds one.
def loop : (room : Nat) → (records : List PluginModuleRecord) → (queue : List Text) →
    Except BuildError (List PluginModuleRecord)
  | room, records, queue =>
    match queue.dropWhile fun id => records.any (·.id = id) with
    | []          => .ok records
    | id :: queue =>
      match room with
      | 0        => .error <| .module {
          code   := .packageInvalid
          detail := "module graph exceeds " ++ toString b.options.maxModules ++ " modules"
          max    := b.options.maxModules
        }
      | room + 1 => do
        let (record, found) ← b.readModule id
        loop room (records ++ [record]) (queue ++ found)

def sorted (records : List PluginModuleRecord) : List PluginModuleRecord :=
  records.insertionSort fun r r' => codeUnits r.id ≤ codeUnits r'.id

def buildModuleGraph : Except BuildError ModuleGraphBuildResult :=
  if b.source.pluginId = [] then
    .error <| .module { code := .packageInvalid, detail := "pluginId is required" }
  else if !b.isFile b.source.entry then
    .error <| .module {
      code   := .packageInvalid
      entry  := b.source.entry
      detail := "entry module not found in package"
    }
  else do
    let records ← b.loop b.options.maxModules [] [b.source.entry]
    return {
      graph    := ⟨b.source.pluginId, b.source.entry, sorted records⟩
      warnings := records.flatMap fun r => warningsOf r.id r.source
    }

end Build
end ModuleMap
