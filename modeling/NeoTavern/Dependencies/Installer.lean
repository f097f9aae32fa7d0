import NeoTavern.Lib.Assoc
import NeoTavern.Lib.Tasks
import NeoTavern.Dependencies.Semver

namespace Dependencies

open Tasks
open ModuleMap (Text length startsWith)

-- What `JSON.parse` gives. Of numbers and Booleans, only what they are as conditions counts.
inductive Json
  | null
  | scalar (truthy : Bool)
  | string (t : Text)
  | array (items : List Json)
  | object (properties : List (Text × Json))

namespace Json

def property (key : Text) : Json → Option Json
  | object properties => Assoc.get properties key
  | _                 => none

-- Own properties, those of an array by their indices.
def entries : Json → List (Text × Json)
  | object properties => properties
  | array items       => items.zipIdx.map fun item => ((toString item.snd).toList, item.fst)
  | _                 => []

def isObject : Json → Bool
  | object _ => true
  | array _  => true
  | _        => false

def truthy : Json → Bool
  | null     => false
  | scalar b => b
  | string t => t ≠ []
  | _        => true

def asText : Json → Option Text
  | string t => some t
  | _        => none

end Json

inductive DepsError
  | unsupported (dependency reason : Text)
  | conflict (dependency existingVersion requestedRange : Text)
  | failed (dependency reason : Text)
  | forbiddenFile (dependency file : Text)
  | aborted
  deriving DecidableEq

structure ResolvedDependency where
  name      : Text
  version   : Text
  resolved  : Text
  integrity : Text
  deriving DecidableEq

structure QueueItem where
  name  : Text
  range : Text
  deriving DecidableEq

-- What has been extracted.
inductive Tree
  | file (name : Text) (size : Nat)
  | symlink (name : Text)
  | directory (name : Text) (entries : List Tree)

namespace Tree

-- The extension of a name, from its last dot. A dot that comes first does not count.
def extname (name : Text) : Text :=
  let ending := name.reverse.takeWhile (· ≠ '.')
  if ending.length + 1 < name.length then '.' :: ending.reverse else []

def forbiddenExtensions : List String := [
  ".exe", ".dll", ".so", ".dylib", ".node", ".bat", ".cmd", ".ps1", ".sh", ".msi", ".bin"
]

def isForbidden (name : Text) : Bool :=
  forbiddenExtensions.any fun extension => extension.toList = (extname name).map Char.toLower

mutual

-- The first file that is rejected.
def forbidden? : Tree → Option Text
  | file name _          => if isForbidden name then some name else none
  | symlink name         => some <| name ++ " (symbolic link)".toList
  | directory _ entries  => forbiddenIn entries

def forbiddenIn : List Tree → Option Text
  | []            => none
  | tree :: trees => (forbidden? tree).or (forbiddenIn trees)

end

mutual

def bytes : Tree → Nat
  | file _ size         => size
  | symlink _           => 0
  | directory _ entries => directoryBytes entries

def directoryBytes : List Tree → Nat
  | []            => 0
  | tree :: trees => tree.bytes + directoryBytes trees

end

def directories (trees : List Tree) : List (List Tree) :=
  trees.filterMap fun
    | directory _ entries => some entries
    | _                   => none

def isFile : Tree → Bool
  | file _ _ => true
  | _        => false

-- `none` where there is no single root.
def findSinglePackageRoot (rawDir : List Tree) : Option (List Tree) :=
  match directories rawDir, rawDir.any isFile with
  | [entries], false => some entries
  | [], true         => some rawDir
  | _, _             => none

end Tree

-- What the code computes of the contents of a file, of type `B`, and of texts.
structure Platform (B : Type) where
  sha256Hex : Text → Text
  sha256    : B → Text
  sha512    : B → Text
  size      : B → Nat
  extract   : B → Except Text (List Tree)
  localeLe  : Text → Text → Bool

structure Options where
  registryUrl      : Text
  hasCache         : Bool := true
  maxPackages      : Nat := 300
  maxExpandedBytes : Nat := 200 * 1024 * 1024
  maxCacheBytes    : Nat := 512 * 1024 * 1024
  deriving DecidableEq

-- What a tarball is asked for by. The integrity is empty where the registry tells of none.
structure TarballRequest where
  url       : Text
  integrity : Text
  deriving DecidableEq

inductive Response
  | failed
  | aborted
  | status (code : Nat)
  | tooLarge
  | notJson
  | packument (json : Json)

-- What an install waits for. `replaced` tells of a rename whether there was a directory before.
inductive Action (B : Type)
  | mkdirStaging
  | fetch (name : Text)
  | existsCached (r : TarballRequest)
  | copyCached (r : TarballRequest)
  | download (r : TarballRequest)
  | enforceCacheCap (maxBytes : Nat)
  | putCached (r : TarballRequest) (bytes : B)
  | place (name : Text) (bytes : B) (entries : List Tree)
  | writeMarker (records : List ResolvedDependency)
  | existsModules
  | rmModules
  | renameModules (replaced : Bool)
  | rmStaging

abbrev Action.Reply {B : Type} : Action B → Type
  | .fetch _        => Response
  | .existsCached _ => Bool
  | .copyCached _   => Option B
  | .download _     => Except Text B
  | .existsModules  => Bool
  | _               => Unit

abbrev interface (B : Type) : Interface where
  Request := Action B
  Reply   := Action.Reply

abbrev Install (B α : Type) := ExceptT DepsError (Task (interface B)) α

section Names

def isNameChar (c : Char) : Bool :=
  c.isLower || c.isDigit || c = '.' || c = '_' || c = '-'

-- `[a-z0-9][a-z0-9._-]*`, which is also what a dist-tag looks like.
def isDistTag : Text → Bool
  | []     => false
  | c :: t => (c.isLower || c.isDigit) && t.all isNameChar

def isPackageName : Text → Bool
  | '@' :: t => isDistTag (t.takeWhile (· ≠ '/')) && isDistTag ((t.dropWhile (· ≠ '/')).drop 1)
  | t        => isDistTag t

end Names

section Keys

variable {B : Type} (p : Platform B)

def isBase64Char (c : Char) : Bool :=
  c.isAlphanum || c = '+' || c = '/' || c = '='

-- What stands after the name of the algorithm.
def digestOf (algorithm : String) (integrity : Text) : Option Text :=
  let start := algorithm.toList ++ ['-']
  let digest := integrity.drop start.length
  if startsWith start integrity && digest ≠ [] && digest.all isBase64Char then some digest else none

def keyOf (digest : Text) : Text :=
  digest.map fun c => if c = '/' || c = '+' || c = '=' then '_' else c

def cacheKeyFor (r : TarballRequest) : Text :=
  match digestOf "sha512" r.integrity, digestOf "sha256" r.integrity with
  | some digest, _    => keyOf digest
  | none, some digest => keyOf digest
  | none, none        => p.sha256Hex r.url

def verifyIntegrity (bytes : B) (integrity name : Text) : Except DepsError Unit :=
  match digestOf "sha512" integrity, digestOf "sha256" integrity with
  | some digest, _    =>
    if p.sha512 bytes = digest then .ok () else .error (mismatch name)
  | none, some digest =>
    if p.sha256 bytes = digest then .ok () else .error (mismatch name)
  | none, none        => .error <| .failed name <|
    "unsupported integrity algorithm in \"".toList ++ integrity.take 40 ++ "\"".toList
where
  mismatch (name : Text) : DepsError :=
    .failed name "tarball integrity check failed (hash mismatch)".toList

end Keys

section Programs

variable {B : Type}

def perform (a : Action B) : Install B a.Reply :=
  ExceptT.lift (Task.request (I := interface B) a)

def failed {α : Type} (name : Text) (reason : String) : Install B α :=
  throw <| .failed name reason.toList

def fetchPackument (name : Text) : Install B Json := do
  let response ← perform (B := B) <| .fetch name
  match response with
  | .failed         => failed name "registry request failed"
  | .aborted        => throw .aborted
  | .status code    => failed name <| "registry responded with status " ++ toString code
  | .tooLarge       => failed name "registry response is too large"
  | .notJson        => failed name "registry response is not valid JSON"
  | .packument json => return json

def chooseVersion (item : QueueItem) (packument versions : Json) : Except DepsError Text :=
  if isValidRange item.range then
    match maxSatisfying (versions.entries.map (·.fst)) item.range with
    | some chosen => .ok chosen
    | none        => .error <| .failed item.name <|
      "no registry version satisfies \"".toList ++ item.range ++ "\"".toList
  else
    let tagged := packument.property "dist-tags".toList >>= Json.property item.range >>= Json.asText
    let published := tagged >>= fun version => Assoc.get versions.entries version
    match tagged, published.any Json.truthy with
    | some version, true => .ok version
    | _, _               => .error <| .failed item.name <|
      "dist-tag \"".toList ++ item.range ++ "\" is not published".toList

variable (p : Platform B) (options : Options)

def ofExcept {α : Type} : Except DepsError α → Install B α
  | .ok a    => pure a
  | .error e => throw e

def storeTarball (r : TarballRequest) (bytes : B) : Install B Unit :=
  if options.hasCache then do
    perform (B := B) <| .enforceCacheCap options.maxCacheBytes
    perform <| .putCached r bytes
  else
    return

def downloadTarball (r : TarballRequest) (name : Text) : Install B B := do
  let downloaded : Except Text B ← perform <| .download r
  match downloaded with
  | .error reason => throw <| .failed name <| "tarball download failed (".toList ++ reason ++ ")".toList
  | .ok bytes     => do
    storeTarball options r bytes
    return bytes

def copyTarball (r : TarballRequest) (name : Text) : Install B B := do
  let copied : Option B ← perform <| .copyCached r
  match copied with
  | some bytes => return bytes
  | none       => failed name "copy failed"

def isCached (r : TarballRequest) : Install B Bool :=
  if options.hasCache then perform (B := B) <| .existsCached r else return false

-- From the cache or from the registry.
def fetchTarball (r : TarballRequest) (name : Text) : Install B B := do
  let cached ← isCached options r
  if cached then copyTarball r name else downloadTarball options r name

-- Gives the contents of the file.
def obtainTarball (r : TarballRequest) (name : Text) : Install B B := do
  let bytes ← fetchTarball options r name
  if r.integrity = [] then
    return bytes
  else do
    ofExcept <| verifyIntegrity p bytes r.integrity name
    return bytes

-- `extractStringMap`. Assigning to `__proto__` sets no property.
def extractStringMap (raw : Option Json) : List (Text × Text) :=
  match raw with
  | some (.object properties) => properties.filterMap fun entry =>
    match entry.snd with
    | .string value =>
      if 0 < length value && length value ≤ 200 && entry.fst ≠ "__proto__".toList then
        some (entry.fst, value)
      else
        none
    | _             => none
  | _                         => []

structure InstallOutcome where
  dependency    : ResolvedDependency
  dependencies  : List (Text × Text)
  expandedBytes : Nat
  deriving DecidableEq

-- What the registry tells of the chosen version: the tarball, and what it depends on.
def tarballOf (versionMeta : Option Json) : TarballRequest where
  url       := ((versionMeta >>= Json.property "dist".toList >>= Json.property "tarball".toList >>=
    Json.asText).filter (startsWith "https://".toList)).getD []
  integrity := (versionMeta >>= Json.property "dist".toList >>= Json.property "integrity".toList >>=
    Json.asText).getD []

def packageRoot (bytes : B) (name : Text) : Except DepsError (List Tree) :=
  match p.extract bytes with
  | .error reason => .error <| .failed name reason
  | .ok rawDir    =>
    match Tree.findSinglePackageRoot rawDir with
    | none         => .error <| .failed name "tarball does not contain a single package root".toList
    | some entries =>
      match Tree.forbiddenIn entries with
      | some file => .error <| .forbiddenFile name file
      | none      => .ok entries

def resolveAndInstall (item : QueueItem) : Install B InstallOutcome := do
  let packument ← fetchPackument item.name
  match (packument.property "versions".toList).filter Json.isObject with
  | none          => failed item.name "registry response is missing versions"
  | some versions => do
    let chosen ← ofExcept <| chooseVersion item packument versions
    let versionMeta := Assoc.get versions.entries chosen
    let r := tarballOf versionMeta
    if r.url = [] then
      throw <| .failed item.name <| "version ".toList ++ chosen ++ " is missing an https tarball".toList
    else
      let bytes ← obtainTarball p options r item.name
      let entries ← ofExcept <| packageRoot p bytes item.name
      perform <| .place item.name bytes entries
      return {
        dependency    := {
          name      := item.name
          version   := chosen
          resolved  := r.url
          integrity := if r.integrity ≠ [] then r.integrity else "sha512-".toList ++ p.sha512 bytes
        }
        dependencies  := extractStringMap (versionMeta >>= Json.property "dependencies".toList)
        expandedBytes := Tree.directoryBytes entries
      }

def versionSatisfies (version range : Text) : Bool :=
  if isValidRange range then (maxSatisfying [version] range).isSome else isDistTag range

-- Passes over the requests for packages that are selected.
def nextItem (selected : List ResolvedDependency) :
    List QueueItem → Except DepsError (Option (QueueItem × List QueueItem))
  | []            => .ok none
  | item :: queue =>
    if !isPackageName item.name then
      .error <| .unsupported item.name "invalid package name".toList
    else
      match selected.find? (·.name = item.name) with
      | none          => .ok <| some (item, queue)
      | some existing =>
        if versionSatisfies existing.version item.range then
          nextItem selected queue
        else
          .error <| .conflict item.name existing.version item.range

-- The loop over the queue, as long as there is room for more packages.
def loop : (room : Nat) → (selected : List ResolvedDependency) → (expandedBytes : Nat) →
    (queue : List QueueItem) → Install B (List ResolvedDependency)
  | room, selected, expandedBytes, queue => do
    let next ← ofExcept <| nextItem selected queue
    match next with
    | none               => return selected
    | some (item, queue) =>
      match room with
      | 0        => failed item.name "too many packages in the dependency graph"
      | room + 1 => do
        let outcome ← resolveAndInstall p options item
        if expandedBytes + outcome.expandedBytes > options.maxExpandedBytes then
          failed item.name "expanded size limit exceeded"
        else
          loop room (selected ++ [outcome.dependency]) (expandedBytes + outcome.expandedBytes)
            (queue ++ outcome.dependencies.map fun d => ⟨d.fst, d.snd⟩)

def sortRecords (selected : List ResolvedDependency) : List ResolvedDependency :=
  selected.insertionSort fun a b => p.localeLe a.name b.name

-- Puts the new modules in the place of the old ones.
def swap : Install B Unit := do
  let replaced : Bool ← perform (B := B) .existsModules
  if replaced then do
    perform (B := B) .rmModules
    perform <| .renameModules true
  else
    perform <| .renameModules false

def installBody (specs : List (Text × Text)) : Install B (List ResolvedDependency) := do
  perform (B := B) .mkdirStaging
  let queue := specs.map fun s => ⟨s.fst, s.snd⟩
  let selected ← loop p options options.maxPackages [] 0 queue
  let records := sortRecords p selected
  perform <| .writeMarker records
  swap
  return records

def installPluginDependencies (specs : List (Text × Text)) :
    Task (interface B) (Except DepsError (List ResolvedDependency)) :=
  if specs = [] then
    pure <| .ok []
  else do
    let result ← (installBody p options specs).run
    let _ ← Task.request (I := interface B) .rmStaging
    return result

end Programs
end Dependencies
