import NeoTavern.Lib.Runs
import NeoTavern.Dependencies.World

namespace Dependencies

open Tasks
open ModuleMap (Text)

variable {B : Type} {p : Platform B} {net : Net B} {options : Options} {r r' : TarballRequest}
  {w w' : World B} {a : Action B}

-- What a file of the cache is told apart by.
def identity (r : TarballRequest) : Text ⊕ Text :=
  match digestOf "sha512" r.integrity, digestOf "sha256" r.integrity with
  | none, none => .inr r.url
  | _, _       => .inl r.integrity

-- A tarball has passed the check that it has been downloaded for, if there is one.
def Passes (p : Platform B) (bytes : B) (integrity : Text) : Prop :=
  integrity = [] ∨ verifyIntegrity p bytes integrity [] = .ok ()

structure Attempt (B : Type) where
  plugin  : Text
  options : Options
  net     : Net B
  specs   : List (Text × Text)

def Attempt.task (p : Platform B) (a : Attempt B) :
    Task (interface B) (Except DepsError (List ResolvedDependency)) :=
  installPluginDependencies p a.options a.specs

-- The cache and the modules of each plugin. `kept` are the modules that there are to be: those of the last
-- install that has put its own in their place. `verdicts` tells of each install that has come to its end
-- whether it would have succeeded with an empty cache, and whether it has succeeded.
structure Host (B : Type) where
  cache    : List (Text × Cached B) := []
  puts     : List TarballRequest := []
  modules  : Text → Modules B
  kept     : Text → Modules B
  hits     : List (Hit B) := []
  verdicts : List (Bool × Bool) := []

namespace Host

variable (p : Platform B) (s : Host B) (a : Attempt B)

def start (modules : Text → Modules B) : Host B where
  modules := modules
  kept    := modules

def world : World B where
  cache   := s.cache
  puts    := s.puts
  modules := s.modules a.plugin

def emptyWorld : World B where
  modules := s.modules a.plugin

-- The host after what an install has made of the world.
def after (w : World B) : Host B :=
  { s with
    cache   := w.cache
    puts    := w.puts
    modules := Function.update s.modules a.plugin w.modules
    kept    := match w.renamed with
      | some modules => Function.update s.kept a.plugin modules
      | none         => s.kept
    hits    := w.hits ++ s.hits
  }

def install : Host B :=
  let (result, w) := (a.task p).run (handle p a.net) (s.world a)
  let (expected, _) := (a.task p).run (handle p a.net) (s.emptyWorld a)
  { s.after a w with verdicts := (expected.isOk, result.isOk) :: s.verdicts }

-- An install stops for a failure or a crash after some steps, and maybe in the middle of the next one.
def stop (n : Nat) (torn : Bool) : Host B :=
  let (t, w) := (a.task p).steps (handle p a.net) n (s.world a)
  match t.request?, torn with
  | some action, true => s.after a (tear p a.net action w)
  | _, _              => s.after a w

inductive Event (B : Type)
  | install (a : Attempt B)
  | stop (a : Attempt B) (n : Nat) (torn : Bool)

def step : Host B → Event B → Host B
  | s, .install a     => s.install p a
  | s, .stop a n torn => s.stop p a n torn

end Host

section Conditions

variable (p : Platform B) (net : Net B)

-- Copies into the cache come to their end and are of what has passed its check, two tarballs with one key are
-- the same, and a tarball without an integrity is still what it was.
def Permits (w : World B) : Action B → Prop
  | .existsCached r    => net.copies r ∧ ∀ r' ∈ w.requests, cacheKeyFor p r' = cacheKeyFor p r → r'.url = r.url
  | .copyCached r      =>
    (∀ r' ∈ w.puts, cacheKeyFor p r' = cacheKeyFor p r → identity r' = identity r) ∧
    (identity r = .inr r.url →
      ∀ f ∈ Assoc.get w.cache (cacheKeyFor p r), net.download r.url = .ok f.bytes)
  | .putCached r bytes => net.copies r ∧ Passes p bytes r.integrity
  | _                  => True

instance decidablePermits [DecidableEq B] (w : World B) : ∀ a, Decidable (Permits p net w a)
  | .existsCached _    => inferInstanceAs <| Decidable (_ ∧ _)
  | .copyCached _      => inferInstanceAs <| Decidable (_ ∧ _)
  | .putCached _ _     => inferInstanceAs <| Decidable (_ ∧ (_ ∨ _))
  | .mkdirStaging      => isTrue trivial
  | .fetch _           => isTrue trivial
  | .download _        => isTrue trivial
  | .enforceCacheCap _ => isTrue trivial
  | .place _ _ _       => isTrue trivial
  | .writeMarker _     => isTrue trivial
  | .existsModules     => isTrue trivial
  | .rmModules         => isTrue trivial
  | .renameModules _   => isTrue trivial
  | .rmStaging         => isTrue trivial

-- An install may not stop in the middle of a copy into the cache, and not while there are no modules.
def MayStop (torn : Bool) : Option (Action B) → Prop
  | some (.putCached _ _)      => torn = false
  | some .rmModules            => torn = false
  | some (.renameModules true) => False
  | _                          => True

instance decidableMayStop : ∀ (torn : Bool) (request : Option (Action B)), Decidable (MayStop torn request)
  | torn, some (.putCached _ _)      => inferInstanceAs <| Decidable (torn = false)
  | torn, some .rmModules            => inferInstanceAs <| Decidable (torn = false)
  | _, some (.renameModules true)    => isFalse id
  | _, some (.renameModules false)   => isTrue trivial
  | _, none                          => isTrue trivial
  | _, some .mkdirStaging            => isTrue trivial
  | _, some (.fetch _)               => isTrue trivial
  | _, some (.existsCached _)        => isTrue trivial
  | _, some (.copyCached _)          => isTrue trivial
  | _, some (.download _)            => isTrue trivial
  | _, some (.enforceCacheCap _)     => isTrue trivial
  | _, some (.place _ _ _)           => isTrue trivial
  | _, some (.writeMarker _)         => isTrue trivial
  | _, some .existsModules           => isTrue trivial
  | _, some .rmStaging               => isTrue trivial

def Careful (s : Host B) : Host.Event B → Prop
  | .install a     => Task.Along (handle p a.net) (Permits p a.net) (a.task p) (s.world a)
  | .stop a n torn => Task.AlongSteps (handle p a.net) (Permits p a.net) n (a.task p) (s.world a) ∧
      MayStop torn ((a.task p).steps (handle p a.net) n (s.world a)).fst.request?

instance decidableCareful [DecidableEq B] (s : Host B) : ∀ e, Decidable (Careful p s e)
  | .install _  => inferInstanceAs <| Decidable (Task.Along _ _ _ _)
  | .stop _ _ _ => inferInstanceAs <| Decidable (_ ∧ _)

end Conditions

-- Failures and the cache have cost nothing.
structure Unharmed (p : Platform B) (s : Host B) : Prop where
  modules  : s.modules = s.kept
  verdicts : ∀ v ∈ s.verdicts, v.fst → v.snd
  hits     : ∀ h ∈ s.hits, identity h.cached.origin = identity h.request ∧
    Passes p h.cached.bytes h.cached.origin.integrity

section Cache

-- What is in the cache has been put there under its key, and has passed its check.
structure Clean (p : Platform B) (w : World B) : Prop where
  cache : ∀ x ∈ w.cache, x.fst = cacheKeyFor p x.snd.origin ∧ x.snd.origin ∈ w.puts ∧
    Passes p x.snd.bytes x.snd.origin.integrity
  hits  : ∀ h ∈ w.hits, identity h.cached.origin = identity h.request ∧
    Passes p h.cached.bytes h.cached.origin.integrity

theorem enforceCacheCap_suffix {max : Nat} (cache : List (Text × Cached B)) :
    enforceCacheCap p max cache <:+ cache := by
  induction cache
  case nil             => exact List.suffix_refl _
  case cons f cache ih =>
    rw [enforceCacheCap]
    split
    case isTrue  => exact List.suffix_refl _
    case isFalse => exact ih.trans <| List.suffix_cons f cache

theorem mem_putCached {cache : List (Text × Cached B)} {key : Text} {f : Cached B} {x : Text × Cached B}
    (h : x ∈ putCached cache key f) : x ∈ cache ∨ x = (key, f) := by
  rcases List.mem_append.mp h with h | h
  · exact .inl (Assoc.mem_delete.mp h).left
  · exact .inr <| List.mem_singleton.mp h

theorem Clean.put {bytes : B} (hc : Clean p w) (h : Passes p bytes r.integrity) :
    Clean p (put p w r bytes) := by
  refine ⟨fun x hx => ?_, hc.hits⟩
  rcases mem_putCached hx with hx | rfl
  · have ⟨hkey, hput, hpasses⟩ := hc.cache x hx
    exact ⟨hkey, List.mem_cons_of_mem _ hput, hpasses⟩
  · exact ⟨rfl, List.mem_cons_self, h⟩

theorem Clean.handle (hc : Clean p w) (h : Permits p net w a) : Clean p (handle p net a w).snd := by
  cases a
  case putCached r bytes =>
    have hclean := hc.put h.right
    rw [Dependencies.handle, if_pos h.left]
    exact hclean
  case enforceCacheCap max =>
    exact ⟨fun x hx => hc.cache x <| (enforceCacheCap_suffix w.cache).subset hx, hc.hits⟩
  case copyCached r =>
    rw [Dependencies.handle]
    split
    case h_1 f hf =>
      obtain ⟨hkey, hput, hpasses⟩ := hc.cache _ <| Assoc.mem_of_get hf
      exact ⟨hc.cache, List.forall_mem_cons.mpr ⟨⟨h.left _ hput hkey.symm, hpasses⟩, hc.hits⟩⟩
    case h_2 => exact hc
  all_goals exact ⟨hc.cache, hc.hits⟩

end Cache

section Phases

variable {α β : Type} {t : Task (interface B) α} {m : Modules B}

def LeavesModules : Action B → Prop
  | .rmModules       => False
  | .renameModules _ => False
  | _                => True

-- A task that has not begun to swap the modules. It renames right after it has removed.
inductive Before : Task (interface B) α → Prop
  | quiet {t : Task (interface B) α} (h : t.Only LeavesModules) : Before t
  | await {a : Action B} {next : a.Reply → Task (interface B) α} (h : LeavesModules a)
      (hn : ∀ reply, Before (next reply)) : Before (.await a next)
  | remove {next next' : Unit → Task (interface B) α} (hn : next () = .await (.renameModules true) next')
      (hq : (next' ()).Only LeavesModules) : Before (.await .rmModules next)
  | rename {b : Bool} {next : Unit → Task (interface B) α} (hq : (next ()).Only LeavesModules) :
      Before (.await (.renameModules b) next)

inductive Phase (m : Modules B) : Task (interface B) α → World B → Prop
  | before {t : Task (interface B) α} {w : World B} (h : Before t) (hm : w.modules = m)
      (hr : w.renamed = none) : Phase m t w
  | removed {next : Unit → Task (interface B) α} {w : World B} (hq : (next ()).Only LeavesModules) :
      Phase m (.await (.renameModules true) next) w
  | renamed {t : Task (interface B) α} {w : World B} (h : t.Only LeavesModules) 
      (hr : w.renamed = some w.modules) :
      Phase m t w

theorem modules_handle (p : Platform B) (net : Net B) (w : World B) (h : LeavesModules a) : (handle p net a w).snd.modules = w.modules ∧
    (handle p net a w).snd.renamed = w.renamed := by
  cases a
  case rmModules       => cases h
  case renameModules b => cases h
  case copyCached r    =>
    rw [handle]
    split <;> exact ⟨rfl, rfl⟩
  all_goals exact ⟨rfl, rfl⟩

theorem Phase.step {next : a.Reply → Task (interface B) α} (h : Phase m (.await a next) w) :
    Phase m (next (handle p net a w).fst) (handle p net a w).snd := by
  cases h
  case before hb hm hr =>
    cases hb
    case quiet h =>
      have ⟨hmodules, hrenamed⟩ := modules_handle p net w h.left
      exact .before (.quiet <| h.right _) (hmodules.trans hm) (hrenamed.trans hr)
    case await h hn =>
      have ⟨hmodules, hrenamed⟩ := modules_handle p net w h
      exact .before (hn _) (hmodules.trans hm) (hrenamed.trans hr)
    case remove next' hn hq =>
      rw [hn]
      exact .removed hq
    case rename hq => exact .renamed hq rfl
  case removed hq   => exact .renamed hq rfl
  case renamed h hr =>
    have ⟨hmodules, hrenamed⟩ := modules_handle p net w h.left
    exact .renamed (h.right _) <| hrenamed.trans <| hr.trans <| congrArg some hmodules.symm

theorem Phase.steps (net : Net B) (n : Nat) {w : World B} (h : Phase m t w) :
    Phase m (t.steps (handle p net) n w).fst (t.steps (handle p net) n w).snd := by
  induction n generalizing t w
  case zero      => exact h
  case succ n ih =>
    cases t
    case done x       => exact h
    case await a next => exact ih h.step

theorem Phase.run (net : Net B) {w : World B} (h : Phase m t w) :
    Phase m (Task.done (t.run (handle p net) w).fst) (t.run (handle p net) w).snd := by
  induction t generalizing w
  case done x          => exact h
  case await a next ih => exact ih _ h.step

-- Where an install is not about to rename, the modules are the old ones or the new ones.
theorem Phase.kept (h : Phase m t w) (hnext : t.request? ≠ some (.renameModules true)) :
    w.modules = m ∧ w.renamed = none ∨ w.renamed = some w.modules := by
  cases h
  case before _ hm hr => exact .inl ⟨hm, hr⟩
  case removed        => exact absurd rfl hnext
  case renamed _ hr   => exact .inr hr

theorem Before.bind {k : α → Task (interface B) β} (ht : t.Only LeavesModules) (hk : ∀ x, Before (k x)) :
    Before (t >>= k) := by
  induction t
  case done x          => exact hk x
  case await a next ih => exact .await ht.left fun reply => ih reply (ht.right reply)

end Phases

section Bodies

variable {name : Text} {item : QueueItem}

theorem only_fetchPackument : Only LeavesModules (fetchPackument name : Install B Json) := by
  refine .bind (.perform trivial) fun response => ?_
  cases response
  case packument => exact .pure _
  all_goals exact .throw _

theorem leavesModules_of_fetchesTarball (a : Action B) (h : FetchesTarball a) : LeavesModules a := by
  cases a
  case rmModules | renameModules => cases h
  all_goals trivial

theorem only_resolveAndInstall : Only LeavesModules (resolveAndInstall p options item) := by
  refine .bind only_fetchPackument fun packument => ?_
  dsimp only
  split
  · exact .throw _
  · refine .bind (.ofExcept _) fun chosen => ?_
    split
    · exact .throw _
    · refine .bind (only_obtainTarball.mono leavesModules_of_fetchesTarball) fun bytes => ?_
      exact .bind (.ofExcept _) fun entries => .bind (.perform trivial) fun _ => .pure _

theorem only_loop {room expanded : Nat} {selected : List ResolvedDependency} {queue : List QueueItem} :
    Only LeavesModules (loop p options room selected expanded queue) := by
  induction room generalizing selected expanded queue
  case zero =>
    rw [loop.eq_def]
    refine .bind (.ofExcept _) fun found => ?_
    rcases found with _ | ⟨item, rest⟩
    · exact .pure _
    · exact .throw _
  case succ room ih =>
    rw [loop.eq_def]
    refine .bind (.ofExcept _) fun found => ?_
    rcases found with _ | ⟨item, rest⟩
    · exact .pure _
    · refine .bind only_resolveAndInstall fun outcome => ?_
      split
      · exact .throw _
      · exact ih

theorem before_bind {α β γ : Type} {x : Install B α} {f : α → Install B β}
    {k : Except DepsError β → Task (interface B) γ} (hx : Only LeavesModules x)
    (hf : ∀ y, Before ((f y).run >>= k)) (hk : ∀ e, Before (k (.error e))) :
    Before ((x >>= f).run >>= k) := by
  rw [ExceptT.run_bind, Task.bind_assoc]
  refine Before.bind hx fun y => ?_
  cases y
  case error e => exact hk e
  case ok y    => exact hf y

theorem before_task (a : Attempt B) : Before (a.task p) := by
  rw [Attempt.task, installPluginDependencies]
  split
  case isTrue  => exact .quiet trivial
  case isFalse =>
    have hquiet (result : Except DepsError (List ResolvedDependency)) :
        (Task.request (I := interface B) .rmStaging >>= fun _ => pure result).Only LeavesModules :=
      ⟨trivial, fun _ => trivial⟩
    have hend (result : Except DepsError (List ResolvedDependency)) := Before.quiet (hquiet result)
    refine before_bind (.perform trivial) (fun _ => ?_) fun e => hend _
    refine before_bind only_loop (fun selected => ?_) fun e => hend _
    refine before_bind (.perform trivial) (fun _ => ?_) fun e => hend _
    -- What is left is the swap.
    refine .await trivial fun replaced => ?_
    cases replaced
    case false => exact .rename (hquiet _)
    case true  => exact .remove rfl (hquiet _)

end Bodies
end Dependencies
