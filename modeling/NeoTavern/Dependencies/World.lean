import NeoTavern.Dependencies.Installer

namespace Dependencies

open Tasks
open ModuleMap (Text)

-- A file of the cache, with the request that it has been put for.
structure Cached (B : Type) where
  bytes  : B
  origin : TarballRequest

-- An installed package, with the tarball that it comes from.
structure Placed (B : Type) where
  bytes   : B
  entries : List Tree

-- The directory `node_modules` of a plugin.
inductive Modules (B : Type)
  | absent
  | damaged
  | complete (packages : List (Text × Placed B)) (records : List ResolvedDependency)

-- What an install gets from outside. `copies` tells which copies into the cache come to their end, and `empty`
-- is a file without contents.
structure Net (B : Type) where
  respond  : Text → Response
  download : Text → Except Text B
  copies   : TarballRequest → Bool
  empty    : B

-- A file that has been taken from the cache.
structure Hit (B : Type) where
  request : TarballRequest
  cached  : Cached B

-- `cache` has the oldest file first. `requests` are the tarballs that the install has looked for, `puts` those
-- that have ever been put into the cache, and `renamed` the new modules, from when they are in their place.
structure World (B : Type) where
  cache    : List (Text × Cached B) := []
  staging  : List (Text × Placed B) := []
  marker   : List ResolvedDependency := []
  modules  : Modules B := .absent
  renamed  : Option (Modules B) := none
  requests : List TarballRequest := []
  puts     : List TarballRequest := []
  hits     : List (Hit B) := []

def Modules.exists_ {B : Type} : Modules B → Bool
  | .absent => false
  | _       => true

section Cache

variable {B : Type} (p : Platform B)

def totalBytes (cache : List (Text × Cached B)) : Nat :=
  (cache.map fun f => p.size f.snd.bytes).sum

-- Deletes the oldest files first.
def enforceCacheCap (maxBytes : Nat) : List (Text × Cached B) → List (Text × Cached B)
  | []         => []
  | f :: cache =>
    if totalBytes p (f :: cache) ≤ maxBytes then f :: cache else enforceCacheCap maxBytes cache

def putCached (cache : List (Text × Cached B)) (key : Text) (f : Cached B) : List (Text × Cached B) :=
  Assoc.delete cache key ++ [(key, f)]

end Cache

section Handler

variable {B : Type} (p : Platform B) (net : Net B)

def put (w : World B) (r : TarballRequest) (bytes : B) : World B :=
  { w with cache := putCached w.cache (cacheKeyFor p r) ⟨bytes, r⟩, puts := r :: w.puts }

def handle : (a : Action B) → World B → a.Reply × World B
  | .mkdirStaging, w           => ((), { w with staging := [] })
  | .fetch name, w             => (net.respond name, w)
  | .existsCached r, w         =>
    ((Assoc.get w.cache (cacheKeyFor p r)).isSome, { w with requests := r :: w.requests })
  | .copyCached r, w           =>
    match Assoc.get w.cache (cacheKeyFor p r) with
    | some f => (some f.bytes, { w with hits := ⟨r, f⟩ :: w.hits })
    | none   => (none, w)
  | .download r, w             => (net.download r.url, w)
  | .enforceCacheCap max, w    => ((), { w with cache := enforceCacheCap p max w.cache })
  | .putCached r bytes, w      => ((), put p w r <| if net.copies r then bytes else net.empty)
  | .place name bytes trees, w => ((), { w with staging := w.staging ++ [(name, ⟨bytes, trees⟩)] })
  | .writeMarker records, w    => ((), { w with marker := records })
  | .existsModules, w          => (w.modules.exists_, w)
  | .rmModules, w              => ((), { w with modules := .absent })
  | .renameModules _, w        =>
    let modules := .complete w.staging w.marker
    ((), { w with modules := modules, staging := [], renamed := some modules })
  | .rmStaging, w              => ((), { w with staging := [] })

-- What there is if an action is interrupted.
def tear : Action B → World B → World B
  | .putCached r _, w => put p w r net.empty
  | .rmModules, w     => { w with modules := .damaged }
  | _, w              => w

-- What a part of an install comes to.
def exec {α : Type} (x : Install B α) (w : World B) : Except DepsError α × World B :=
  Task.run (handle p net) x.run w

variable {p net} {α β : Type} {w w' : World B} {x : Install B α} {f : α → Install B β} {a : α} {b : β}

@[simp]
theorem exec_pure : exec p net (pure a : Install B α) w = (.ok a, w) :=
  rfl

@[simp]
theorem exec_throw {e : DepsError} : exec p net (throw e : Install B α) w = (.error e, w) :=
  rfl

@[simp]
theorem exec_perform {a : Action B} :
    exec p net (perform a) w = (.ok (handle p net a w).fst, (handle p net a w).snd) :=
  rfl

theorem exec_bind : exec p net (x >>= f) w =
    match exec p net x w with
    | (.ok a, w')    => exec p net (f a) w'
    | (.error e, w') => (.error e, w') := by
  rw [exec, ExceptT.run_bind, Task.run_bind, exec]
  generalize Task.run (handle p net) x.run w = y
  obtain ⟨r, v⟩ := y
  cases r
  case error e => rfl
  case ok a    => rfl

theorem exec_bind_eq_ok : exec p net (x >>= f) w = (.ok b, w') ↔
    ∃ a v, exec p net x w = (.ok a, v) ∧ exec p net (f a) v = (.ok b, w') := by
  rw [exec_bind]
  constructor
  case mp  =>
    intro h
    split at h
    case h_1 a v hx => exact ⟨a, v, hx, h⟩
    case h_2        => cases h
  case mpr =>
    intro ⟨a, v, hx, hf⟩
    rw [hx]
    exact hf

@[simp]
theorem exec_ofExcept {r : Except DepsError α} : exec p net (ofExcept r) w = (r, w) := by
  cases r <;> rfl

end Handler

section Frames

variable {B : Type} {p : Platform B} {net : Net B} {α β γ : Type} {x : Install B α} {f : α → Install B β}
  {g : World B → γ} {options : Options} {r : TarballRequest} {name : Text} {bytes : B}
  {P Q : Action B → Prop} {item : QueueItem}

-- All that a part of an install ever asks for is of one kind.
def Only (P : Action B → Prop) (x : Install B α) : Prop :=
  Task.Only P x.run

theorem Only.pure (a : α) : Only P (pure a : Install B α) :=
  trivial

theorem Only.throw (e : DepsError) : Only P (throw e : Install B α) :=
  trivial

theorem Only.perform {a : Action B} (h : P a) : Only P (perform a) :=
  ⟨h, fun _ => trivial⟩

theorem Only.bind (hx : Only P x) (hf : ∀ a, Only P (f a)) : Only P (x >>= f) := by
  rw [Only, ExceptT.run_bind]
  refine Task.Only.bind hx fun r => ?_
  cases r
  case error e => trivial
  case ok a    => exact hf a

theorem Only.ofExcept (r : Except DepsError α) : Only P (ofExcept r) := by
  cases r
  case error e => exact .throw e
  case ok a    => exact .pure a

theorem Only.mono (hx : Only P x) (h : ∀ a, P a → Q a) : Only Q x :=
  Task.Only.mono hx h

-- What no action changes, no part of an install changes.
theorem Only.keeps (hx : Only P x) (h : ∀ a w, P a → g (handle p net a w).snd = g w) (w : World B) :
    g (exec p net x w).snd = g w :=
  Task.Only.keeps hx h w

-- The requests of `obtainTarball`.
def FetchesTarball : Action B → Prop
  | .existsCached _    => True
  | .copyCached _      => True
  | .download _        => True
  | .enforceCacheCap _ => True
  | .putCached _ _     => True
  | _                  => False

theorem only_storeTarball : Only FetchesTarball (storeTarball options r bytes) := by
  rw [storeTarball]
  by_cases hcache : options.hasCache
  case pos =>
    rw [if_pos hcache]
    exact .bind (.perform trivial) fun _ => .perform trivial
  case neg =>
    rw [if_neg hcache]
    exact .pure _

theorem only_copyTarball : Only FetchesTarball (copyTarball r name : Install B B) := by
  refine .bind (.perform trivial) fun copied => ?_
  cases copied
  case none   => exact .throw _
  case some b => exact .pure b

theorem only_downloadTarball : Only FetchesTarball (downloadTarball options r name : Install B B) := by
  refine .bind (.perform trivial) fun downloaded => ?_
  cases downloaded
  case error e => exact .throw _
  case ok b    => exact .bind only_storeTarball fun _ => .pure b

theorem only_isCached : Only FetchesTarball (isCached options r : Install B Bool) := by
  rw [isCached]
  by_cases hcache : options.hasCache
  case pos =>
    rw [if_pos hcache]
    exact .perform trivial
  case neg =>
    rw [if_neg hcache]
    exact .pure _

theorem only_fetchTarball : Only FetchesTarball (fetchTarball options r name : Install B B) := by
  refine .bind only_isCached fun cached => ?_
  cases cached
  case true  => exact only_copyTarball
  case false => exact only_downloadTarball

theorem only_obtainTarball : Only FetchesTarball (obtainTarball p options r name) := by
  refine .bind only_fetchTarball fun b => ?_
  by_cases hempty : r.integrity = []
  case pos =>
    rw [if_pos hempty]
    exact .pure b
  case neg =>
    rw [if_neg hempty]
    exact .bind (.ofExcept _) fun _ => .pure b

-- The directories of the plugin.
def places (w : World B) : List (Text × Placed B) × List ResolvedDependency × Modules B :=
  (w.staging, w.marker, w.modules)

theorem places_handle (a : Action B) (w : World B) (h : FetchesTarball a) :
    places (handle p net a w).snd = places w := by
  cases a
  case copyCached r =>
    rw [handle]
    split <;> rfl
  case existsCached | download | enforceCacheCap | putCached => rfl
  all_goals cases h

theorem places_obtainTarball (w : World B) :
    places (exec p net (obtainTarball p options r name) w).snd = places w :=
  only_obtainTarball.keeps places_handle w

-- What is obtained has passed the check.
theorem verified_obtainTarball {w w' : World B}
    (h : exec p net (obtainTarball p options r name) w = (.ok bytes, w')) :
    r.integrity = [] ∨ verifyIntegrity p bytes r.integrity name = .ok () := by
  have ⟨b, v, _, hrest⟩ := exec_bind_eq_ok.mp h
  split at hrest
  case isTrue hempty => exact .inl hempty
  case isFalse       =>
    have ⟨u, v', hverify, hpure⟩ := exec_bind_eq_ok.mp hrest
    rw [exec_ofExcept] at hverify
    rw [exec_pure] at hpure
    cases hpure
    exact .inr (congrArg Prod.fst hverify)

end Frames
end Dependencies
