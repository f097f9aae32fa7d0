import NeoTavern.Dependencies.Failures

namespace Dependencies

open Tasks
open ModuleMap (Text)

variable {B : Type} {p : Platform B} {net : Net B} {options : Options} {r r' : TarballRequest}
  {w w' v v' : World B} {name : Text} {bytes bytes' : B}

section Identity

theorem passes_iff (name : Text) {integrity : Text} : Passes p bytes integrity ↔
    integrity = [] ∨ verifyIntegrity p bytes integrity name = .ok () := by
  rw [Passes, verifyIntegrity, verifyIntegrity]
  refine or_congr_right ?_
  split
  · split <;> simp
  · split <;> simp
  · simp

theorem digestOf_nil (algorithm : String) : digestOf algorithm [] = none := by
  rw [digestOf]
  simp

theorem integrity_eq_of_identity (hid : identity r' = identity r) (hurl : identity r ≠ .inr r.url) :
    r'.integrity = r.integrity ∧
      ¬ (digestOf "sha512" r.integrity = none ∧ digestOf "sha256" r.integrity = none) := by
  rw [identity, identity] at hid
  rw [identity] at hurl
  cases h512 : digestOf "sha512" r.integrity
  case some d =>
    rw [h512] at hid hurl
    refine ⟨?_, fun h => nomatch h.left⟩
    split at hid
    · cases hid
    · exact Sum.inl.inj hid
  case none =>
    cases h256 : digestOf "sha256" r.integrity
    case some d =>
      rw [h512, h256] at hid hurl
      refine ⟨?_, fun h => nomatch h.right⟩
      split at hid
      · cases hid
      · exact Sum.inl.inj hid
    case none =>
      rw [h512, h256] at hurl
      exact absurd rfl hurl

-- Two files that have passed for the same hash are equal.
theorem eq_of_passes (h512 : Function.Injective p.sha512) (h256 : Function.Injective p.sha256)
    (hid : identity r' = identity r) (hurl : identity r ≠ .inr r.url) (h' : Passes p bytes' r'.integrity)
    (h : Passes p bytes r.integrity) : bytes' = bytes := by
  have ⟨hintegrity, hdigest⟩ := integrity_eq_of_identity hid hurl
  rw [hintegrity] at h'
  have hne : r.integrity ≠ [] := by
    intro hnil
    rw [hnil, digestOf_nil, digestOf_nil] at hdigest
    exact hdigest ⟨rfl, rfl⟩
  have h'    := h'.resolve_left hne
  have h     := h.resolve_left hne
  rw [verifyIntegrity] at h h'
  cases hd512 : digestOf "sha512" r.integrity
  case some d =>
    rw [hd512] at h h'
    dsimp only at h h'
    split at h
    case isFalse   => cases h
    case isTrue hb =>
      split at h'
      case isFalse    => cases h'
      case isTrue hb' => exact h512 <| hb'.trans hb.symm
  case none =>
    cases hd256 : digestOf "sha256" r.integrity
    case none   => exact absurd ⟨hd512, hd256⟩ hdigest
    case some d =>
      rw [hd512, hd256] at h h'
      dsimp only at h h'
      split at h
      case isFalse   => cases h
      case isTrue hb =>
        split at h'
        case isFalse    => cases h'
        case isTrue hb' => exact h256 <| hb'.trans hb.symm

end Identity

section Fetch

-- The requests after it has been looked for a tarball.
def looked (options : Options) (r : TarballRequest) (w : World B) : World B :=
  if options.hasCache then { w with requests := r :: w.requests } else w

-- The world after a downloaded tarball has been put into the cache.
def stored (p : Platform B) (net : Net B) (options : Options) (r : TarballRequest) (bytes : B) (w : World B) :
    World B :=
  if options.hasCache then
    put p { w with cache := enforceCacheCap p options.maxCacheBytes w.cache } r
      (if net.copies r then bytes else net.empty)
  else
    w

theorem exec_isCached : exec p net (isCached options r) w =
    (.ok (options.hasCache && (Assoc.get w.cache (cacheKeyFor p r)).isSome), looked options r w) := by
  rw [isCached, looked]
  cases options.hasCache
  case true  => rfl
  case false => rfl

theorem exec_storeTarball :
    exec p net (storeTarball options r bytes) w = (.ok (), stored p net options r bytes w) := by
  rw [storeTarball, stored]
  cases options.hasCache
  case true  => rfl
  case false => rfl

theorem exec_copyTarball {f : Cached B} (h : Assoc.get w.cache (cacheKeyFor p r) = some f) :
    exec p net (copyTarball r name) w = (.ok f.bytes, { w with hits := ⟨r, f⟩ :: w.hits }) := by
  rw [copyTarball, exec_bind, exec_perform, handle, h]
  rfl

theorem exec_downloadTarball : exec p net (downloadTarball options r name) w =
    match net.download r.url with
    | .ok bytes     => (.ok bytes, stored p net options r bytes w)
    | .error reason =>
      (.error <| .failed name <| "tarball download failed (".toList ++ reason ++ ")".toList, w) := by
  rw [downloadTarball, exec_bind, exec_perform, handle]
  cases h : net.download r.url
  case error reason => rfl
  case ok bytes     =>
    dsimp only
    rw [exec_bind, exec_storeTarball]
    rfl

theorem exec_fetchTarball : exec p net (fetchTarball options r name) w =
    if options.hasCache && (Assoc.get w.cache (cacheKeyFor p r)).isSome then
      exec p net (copyTarball r name) (looked options r w)
    else
      exec p net (downloadTarball options r name) (looked options r w) := by
  rw [fetchTarball, exec_bind, exec_isCached]
  dsimp only
  split <;> rfl

@[simp]
theorem looked_cache : (looked options r w).cache = w.cache := by
  rw [looked]
  split <;> rfl

theorem looked_congr (h : w.requests = v.requests) :
    (looked options r w).requests = (looked options r v).requests := by
  rw [looked, looked]
  split
  case isTrue  => exact congrArg (r :: ·) h
  case isFalse => exact h

@[simp]
theorem stored_requests : (stored p net options r bytes w).requests = w.requests := by
  rw [stored]
  split <;> rfl

end Fetch

section Obtain

-- What the cache of an install holds that has begun with an empty one.
def Fresh (p : Platform B) (net : Net B) (v : World B) : Prop :=
  ∀ x ∈ v.cache, x.fst = cacheKeyFor p x.snd.origin ∧ x.snd.origin ∈ v.requests ∧
    net.download x.snd.origin.url = .ok x.snd.bytes

theorem Fresh.looked (h : Fresh p net v) : Fresh p net (looked options r v) := by
  rw [Dependencies.looked]
  split
  case isTrue  =>
    intro x hx
    have ⟨hkey, hmem, hbytes⟩ := h x hx
    exact ⟨hkey, List.mem_cons_of_mem _ hmem, hbytes⟩
  case isFalse => exact h

theorem Fresh.stored (h : Fresh p net v) (hr : options.hasCache → net.copies r ∧ r ∈ v.requests)
    (hbytes : net.download r.url = .ok bytes) : Fresh p net (stored p net options r bytes v) := by
  rw [Dependencies.stored]
  split
  case isTrue hcache =>
    have ⟨hcopies, hmem⟩ := hr hcache
    rw [if_pos hcopies]
    intro x hx
    rcases mem_putCached hx with hx | rfl
    · exact h x <| (enforceCacheCap_suffix v.cache).subset hx
    · exact ⟨rfl, hmem, hbytes⟩
  case isFalse => exact h

-- What a fetch comes to that gets its tarball from the registry, or from a cache with the same contents.
theorem fresh_fetchTarball (hv : Fresh p net v) (hr : options.hasCache → net.copies r ∧
      ∀ r' ∈ v.requests, cacheKeyFor p r' = cacheKeyFor p r → r'.url = r.url)
    (h : exec p net (fetchTarball options r name) v = (.ok bytes, v')) :
    net.download r.url = .ok bytes ∧ v'.requests = (Dependencies.looked options r v).requests ∧
      Fresh p net v' := by
  rw [exec_fetchTarball] at h
  split at h
  case isTrue hhit =>
    obtain ⟨hcache, hsome⟩ := Bool.and_eq_true_iff.mp hhit
    obtain ⟨f, hf⟩ := Option.isSome_iff_exists.mp hsome
    have hget : Assoc.get (Dependencies.looked options r v).cache (cacheKeyFor p r) = some f := by
      rw [looked_cache]
      exact hf
    rw [exec_copyTarball hget] at h
    obtain ⟨hbytes, hworld⟩ := Prod.mk.inj h
    obtain ⟨hkey, hmem, hdownload⟩ := hv _ <| Assoc.mem_of_get hf
    rw [(hr hcache).right _ hmem hkey.symm, Except.ok.inj hbytes] at hdownload
    rw [← hworld]
    exact ⟨hdownload, rfl, hv.looked⟩
  case isFalse =>
    rw [exec_downloadTarball] at h
    split at h
    case h_2 => cases (Prod.mk.inj h).left
    case h_1 b hdownload =>
      obtain ⟨hbytes, hworld⟩ := Prod.mk.inj h
      rw [← Except.ok.inj hbytes, ← hworld]
      refine ⟨hdownload, stored_requests, hv.looked.stored ?_ hdownload⟩
      intro hcache
      rw [Dependencies.looked, if_pos hcache]
      exact ⟨(hr hcache).left, List.mem_cons_self⟩

-- Each action of a part of an install is permitted.
def Allowed {α : Type} (p : Platform B) (net : Net B) (x : Install B α) (w : World B) : Prop :=
  Task.Along (handle p net) (Permits p net) x.run w

theorem allowed_perform {a : Action B} : Allowed p net (perform a) w ↔ Permits p net w a :=
  and_iff_left trivial

theorem allowed_bind {α β : Type} {x : Install B α} {f : α → Install B β}
    (h : Allowed p net (x >>= f) w) : Allowed p net x w ∧
      ∀ a w', exec p net x w = (.ok a, w') → Allowed p net (f a) w' := by
  rw [Allowed, ExceptT.run_bind] at h
  have ⟨hx, hf⟩ := (Task.along_bind _ _ _).mp h
  refine ⟨hx, fun a w' hexec => ?_⟩
  rw [exec] at hexec
  rw [hexec] at hf
  exact hf

theorem Clean.exec {α : Type} {x : Install B α} (hc : Clean p w) (h : Allowed p net x w) :
    Clean p (exec p net x w).snd := by
  have hstep (w : World B) (a : Action B) (hc : Clean p w) (h : Permits p net w a) :
      Clean p (Dependencies.handle p net a w).snd := hc.handle h
  exact Task.Along.run hstep h hc

theorem permits_of_fetchTarball (h : Allowed p net (fetchTarball options r name) w)
    (hcache : options.hasCache) : Permits p net w (.existsCached r) := by
  have ⟨h, _⟩ := allowed_bind h
  rw [isCached, if_pos hcache] at h
  exact allowed_perform.mp h

theorem permits_of_hit (h : Allowed p net (fetchTarball options r name) w) (hhit : options.hasCache &&
    (Assoc.get w.cache (cacheKeyFor p r)).isSome) : Permits p net (looked options r w) (.copyCached r) := by
  have ⟨_, h⟩ := allowed_bind h
  have h      := h true (looked options r w) <| exec_isCached.trans <| by rw [hhit]
  rw [if_pos rfl] at h
  exact allowed_perform.mp (allowed_bind h).left

-- A fetch from a clean cache gives what the registry gives, if that passes its check.
theorem clean_fetchTarball (h512 : Function.Injective p.sha512) (h256 : Function.Injective p.sha256)
    (hc : Clean p w) (h : Allowed p net (fetchTarball options r name) w)
    (hdownload : net.download r.url = .ok bytes) (hpasses : Passes p bytes r.integrity) :
    ∃ w', exec p net (fetchTarball options r name) w = (.ok bytes, w') ∧
      w'.requests = (Dependencies.looked options r w).requests := by
  rw [exec_fetchTarball]
  split
  case isTrue hhit =>
    obtain ⟨hcache, hsome⟩   := Bool.and_eq_true_iff.mp hhit
    obtain ⟨f, hf⟩           := Option.isSome_iff_exists.mp hsome
    obtain ⟨hidentity, hurl⟩ := permits_of_hit h hhit
    obtain ⟨hkey, hput, hf'⟩ := hc.cache _ <| Assoc.mem_of_get hf
    have hget : Assoc.get (Dependencies.looked options r w).cache (cacheKeyFor p r) = some f := by
      rw [looked_cache]
      exact hf
    have hbytes : f.bytes = bytes := by
      by_cases hid : identity r = .inr r.url
      case pos =>
        have hsame := hurl hid f hget
        rw [hdownload] at hsame
        exact (Except.ok.inj hsame).symm
      case neg =>
        have hput : f.origin ∈ (Dependencies.looked options r w).puts := by
          rw [Dependencies.looked, if_pos hcache]
          exact hput
        exact eq_of_passes h512 h256 (hidentity _ hput hkey.symm) hid hf' hpasses
    rw [exec_copyTarball hget, hbytes]
    exact ⟨_, rfl, rfl⟩
  case isFalse =>
    rw [exec_downloadTarball, hdownload]
    exact ⟨_, rfl, stored_requests⟩

end Obtain

section Sims

variable {α β : Type} {x : Install B α} {f : α → Install B β}

-- An install beside the same one with an empty cache.
structure Beside (p : Platform B) (net : Net B) (w v : World B) : Prop where
  clean    : Clean p w
  fresh    : Fresh p net v
  requests : w.requests = v.requests
  places   : places w = places v

-- What succeeds with an empty cache succeeds, with the same result.
def Sim (p : Platform B) (net : Net B) (x : Install B α) : Prop :=
  ∀ ⦃w v a v'⦄, Beside p net w v → Allowed p net x w → exec p net x v = (.ok a, v') →
    ∃ w', exec p net x w = (.ok a, w') ∧ Beside p net w' v'

theorem Sim.pure (a : α) : Sim p net (pure a : Install B α) := by
  intro w v b v' hb _ h
  have ⟨ha, hworld⟩ := Prod.mk.inj h
  rw [← ha, ← hworld]
  exact ⟨w, rfl, hb⟩

theorem Sim.throw (e : DepsError) : Sim p net (throw e : Install B α) := by
  intro w v b v' _ _ h
  cases (Prod.mk.inj h).left

theorem Sim.ofExcept (r : Except DepsError α) : Sim p net (ofExcept r) := by
  cases r
  case error e => exact .throw e
  case ok a    => exact .pure a

theorem Sim.bind (hx : Sim p net x) (hf : ∀ a, Sim p net (f a)) : Sim p net (x >>= f) := by
  intro w v b v' hb hallowed h
  have ⟨hax, haf⟩      := allowed_bind hallowed
  have ⟨a, v₁, hv, h⟩  := exec_bind_eq_ok.mp h
  have ⟨w₁, hw, hb₁⟩   := hx hb hax hv
  have ⟨w', hw', hb'⟩  := hf a hb₁ (haf a w₁ hw) h
  exact ⟨w', exec_bind_eq_ok.mpr ⟨a, w₁, hw, hw'⟩, hb'⟩

-- An action that does not look at the cache.
def Outside : Action B → Prop
  | .mkdirStaging    => True
  | .fetch _         => True
  | .place _ _ _     => True
  | .writeMarker _   => True
  | .existsModules   => True
  | .rmModules       => True
  | .renameModules _ => True
  | .rmStaging       => True
  | _                => False

theorem handle_outside (p : Platform B) (net : Net B) {a : Action B} (h : Outside a)
    (hplaces : Dependencies.places w = Dependencies.places v) :
    (handle p net a w).fst = (handle p net a v).fst ∧
    Dependencies.places (handle p net a w).snd = Dependencies.places (handle p net a v).snd := by
  have ⟨hstaging, hrest⟩   := Prod.mk.inj hplaces
  have ⟨hmarker, hmodules⟩ := Prod.mk.inj hrest
  cases a
  case existsCached | copyCached | download | enforceCacheCap | putCached => cases h
  all_goals simp [handle, Dependencies.places, hstaging, hmarker, hmodules]

theorem cache_of_outside (p : Platform B) (net : Net B) (w : World B) {a : Action B} (h : Outside a) :
    (handle p net a w).snd.cache = w.cache ∧ (handle p net a w).snd.requests = w.requests := by
  cases a
  case existsCached | copyCached | download | enforceCacheCap | putCached => cases h
  all_goals exact ⟨rfl, rfl⟩

theorem Sim.perform {a : Action B} (h : Outside a) : Sim p net (perform a) := by
  intro w v b v' hb hallowed hexec
  have ⟨hreply, hworld⟩      := Prod.mk.inj hexec
  have ⟨hsame, hplaces⟩      := handle_outside p net h hb.places
  have ⟨hcache, hrequests⟩   := cache_of_outside p net v h
  have ⟨_, hrequests'⟩       := cache_of_outside p net w h
  have hfresh : Fresh p net (handle p net a v).snd := by
    rw [Fresh, hcache, hrequests]
    exact hb.fresh
  rw [← Except.ok.inj hreply, ← hworld]
  refine ⟨(handle p net a w).snd, ?_, ?_⟩
  · rw [exec_perform, hsame]
  · exact {
      clean    := hb.clean.handle <| allowed_perform.mp hallowed
      fresh    := hfresh
      requests := hrequests'.trans <| hb.requests.trans hrequests.symm
      places   := hplaces
    }

-- What `obtainTarball` does with the file.
def checked (p : Platform B) (r : TarballRequest) (name : Text) (bytes : B) : Install B B :=
  if r.integrity = [] then
    return bytes
  else do
    Dependencies.ofExcept <| verifyIntegrity p bytes r.integrity name
    return bytes

theorem obtainTarball_eq : obtainTarball p options r name = fetchTarball options r name >>= checked p r name :=
  rfl

theorem exec_checked : exec p net (checked p r name bytes) w = (.ok bytes', w') ↔
    bytes = bytes' ∧ w = w' ∧ Passes p bytes r.integrity := by
  rw [checked, passes_iff name]
  split
  case isTrue hnil  => simp [hnil]
  case isFalse hnil =>
    rw [exec_bind, exec_ofExcept]
    cases verifyIntegrity p bytes r.integrity name
    case error e => simp [hnil]
    case ok u    => simp

theorem sim_obtainTarball (h512 : Function.Injective p.sha512) (h256 : Function.Injective p.sha256) :
    Sim p net (obtainTarball p options r name) := by
  intro w v b v' hb hallowed hexec
  have ⟨hfetch, _⟩                    := allowed_bind hallowed
  have ⟨b', v₁, hv, hend⟩             := exec_bind_eq_ok.mp hexec
  have ⟨hbytes, hworld, hpasses⟩      := exec_checked.mp hend
  have hr (hcache : options.hasCache) : net.copies r ∧
      ∀ r' ∈ v.requests, cacheKeyFor p r' = cacheKeyFor p r → r'.url = r.url := by
    have hpermits := permits_of_fetchTarball hfetch hcache
    rw [Permits, hb.requests] at hpermits
    exact hpermits
  have ⟨hdownload, hrequests, hfresh⟩ := fresh_fetchTarball hb.fresh hr hv
  have ⟨w₁, hw, hrequests'⟩           := clean_fetchTarball h512 h256 hb.clean hfetch hdownload hpasses
  have hexec' : exec p net (obtainTarball p options r name) w = (.ok b, w₁) := by
    rw [← hbytes]
    exact exec_bind_eq_ok.mpr ⟨b', w₁, hw, exec_checked.mpr ⟨rfl, rfl, hpasses⟩⟩
  have hclean := hb.clean.exec hallowed
  have hplaces (w : World B) : Dependencies.places (exec p net (obtainTarball p options r name) w).snd =
      Dependencies.places w := places_obtainTarball w
  have hw' := hplaces w
  have hv' := hplaces v
  rw [hexec'] at hclean hw'
  rw [hexec] at hv'
  rw [hworld] at hrequests hfresh
  exact ⟨w₁, hexec', {
    clean    := hclean
    fresh    := hfresh
    requests := hrequests'.trans <| (looked_congr hb.requests).trans hrequests.symm
    places   := hw'.trans <| hb.places.trans hv'.symm
  }⟩

theorem sim_fetchPackument : Sim p net (fetchPackument name : Install B Json) := by
  refine .bind (.perform trivial) fun response => ?_
  cases response
  case packument => exact .pure _
  all_goals exact .throw _

theorem sim_swap : Sim p net (swap : Install B Unit) := by
  refine .bind (.perform trivial) fun replaced => ?_
  cases replaced
  case false => exact .perform trivial
  case true  => exact .bind (.perform trivial) fun _ => .perform trivial

section Install

variable (h512 : Function.Injective p.sha512) (h256 : Function.Injective p.sha256)

include h512 h256

theorem sim_resolveAndInstall {item : QueueItem} : Sim p net (resolveAndInstall p options item) := by
  refine .bind sim_fetchPackument fun packument => ?_
  dsimp only
  split
  · exact .throw _
  · refine .bind (.ofExcept _) fun chosen => ?_
    split
    · exact .throw _
    · refine .bind (sim_obtainTarball h512 h256) fun bytes => ?_
      exact .bind (.ofExcept _) fun entries => .bind (.perform trivial) fun _ => .pure _

theorem sim_loop {room expanded : Nat} {selected : List ResolvedDependency} {queue : List QueueItem} :
    Sim p net (loop p options room selected expanded queue) := by
  induction room generalizing selected expanded queue
  case zero =>
    rw [loop.eq_def]
    refine .bind (.ofExcept _) fun found => ?_
    rcases found with _ | ⟨item, rest⟩
    · exact .pure _
    · exact .throw _
  case succ room ih =>
    rw [loop.eq_def]
    refine .bind (.ofExcept _) fun found => ?_
    rcases found with _ | ⟨item, rest⟩
    · exact .pure _
    · refine .bind (sim_resolveAndInstall h512 h256) fun outcome => ?_
      split
      · exact .throw _
      · exact ih

theorem sim_installBody {specs : List (Text × Text)} : Sim p net (installBody p options specs) := by
  refine .bind (.perform trivial) fun _ => .bind (sim_loop h512 h256) fun selected => ?_
  exact .bind (.perform trivial) fun _ => .bind sim_swap fun _ => .pure _

end Install
end Sims

section Runs

variable {s : Host B} {a : Attempt B}

-- An install that succeeds with an empty cache succeeds with what the host has.
theorem isOk_install (h512 : Function.Injective p.sha512) (h256 : Function.Injective p.sha256)
    (hclean : Clean p (s.world a)) (h : Careful p s (.install a))
    (hempty : ((a.task p).run (handle p a.net) (s.emptyWorld a)).fst.isOk) :
    ((a.task p).run (handle p a.net) (s.world a)).fst.isOk := by
  rw [Careful] at h
  rw [Attempt.task, installPluginDependencies] at h hempty ⊢
  split
  case isTrue         => rfl
  case isFalse hspecs =>
    rw [if_neg hspecs] at h hempty
    obtain ⟨hbody, _⟩ := (Task.along_bind _ _ _).mp h
    rw [Task.run_bind] at hempty ⊢
    cases hexec : exec p a.net (installBody p a.options a.specs) (s.emptyWorld a)
    case mk result v =>
      cases result
      case error e =>
        rw [exec] at hexec
        rw [hexec] at hempty
        cases hempty
      case ok records =>
        have hbeside : Beside p a.net (s.world a) (s.emptyWorld a) := {
          clean    := hclean
          fresh    := by rintro _ ⟨⟩
          requests := rfl
          places   := rfl
        }
        obtain ⟨w', hw', _⟩ := sim_installBody h512 h256 hbeside hbody hexec
        rw [exec] at hw'
        rw [hw']
        rfl

-- A host whose cache holds only what has passed its check.
structure Sound (p : Platform B) (s : Host B) : Prop where
  unharmed : Unharmed p s
  cache    : ∀ x ∈ s.cache, x.fst = cacheKeyFor p x.snd.origin ∧ x.snd.origin ∈ s.puts ∧
    Passes p x.snd.bytes x.snd.origin.integrity

theorem Sound.start {modules : Text → Modules B} : Sound p (Host.start modules) where
  unharmed := {
    modules  := rfl
    verdicts := nofun
    hits     := nofun
  }
  cache := nofun

theorem Sound.clean (hs : Sound p s) : Clean p (s.world a) where
  cache := hs.cache
  hits  := nofun

theorem Sound.after (hs : Sound p s) (hclean : Clean p w)
    (hmodules : w.modules = s.modules a.plugin ∧ w.renamed = none ∨ w.renamed = some w.modules) :
    Sound p (s.after a w) where
  cache := hclean.cache
  unharmed := {
    modules := by
      rw [Host.after]
      rcases hmodules with ⟨hmodules, hrenamed⟩ | hrenamed
      · rw [hrenamed, hmodules, Function.update_eq_self]
        exact hs.unharmed.modules
      · rw [hrenamed, hs.unharmed.modules]
    verdicts := hs.unharmed.verdicts
    hits     := fun h hh => (List.mem_append.mp hh).elim (hclean.hits h) (hs.unharmed.hits h)
  }

theorem phase_start : Phase (s.modules a.plugin) (a.task p) (s.world a) :=
  .before (before_task a) rfl rfl

theorem Sound.install (h512 : Function.Injective p.sha512) (h256 : Function.Injective p.sha256)
    (hs : Sound p s) (h : Careful p s (.install a)) : Sound p (s.install p a) := by
  have hphase := (phase_start (p := p) (s := s) (a := a)).run (p := p) a.net
  have hclean : Clean p ((a.task p).run (handle p a.net) (s.world a)).snd := by
    have hstep (w : World B) (x : Action B) (hc : Clean p w) (h : Permits p a.net w x) :
        Clean p (handle p a.net x w).snd := hc.handle h
    exact Task.Along.run hstep h hs.clean
  have hafter := hs.after (a := a) hclean <| hphase.kept (fun h => nomatch h)
  refine ⟨⟨hafter.unharmed.modules, ?_, hafter.unharmed.hits⟩, hafter.cache⟩
  exact List.forall_mem_cons.mpr ⟨isOk_install h512 h256 hs.clean h, hs.unharmed.verdicts⟩

-- An install that may stop where it does leaves nothing half done.
theorem stop_eq {n : Nat} {torn : Bool}
    (h : MayStop torn ((a.task p).steps (handle p a.net) n (s.world a)).fst.request?) :
    s.stop p a n torn = s.after a ((a.task p).steps (handle p a.net) n (s.world a)).snd := by
  rw [Host.stop]
  dsimp only
  split
  case h_2 => rfl
  case h_1 action hrequest =>
    rw [hrequest] at h
    cases action
    case putCached | rmModules => cases h
    all_goals rfl

theorem not_renaming {torn : Bool} {request : Option (Action B)} (h : MayStop torn request) :
    request ≠ some (.renameModules true) := by
  intro heq
  rw [heq] at h
  exact h

theorem Sound.stop {n : Nat} {torn : Bool} (hs : Sound p s) (h : Careful p s (.stop a n torn)) :
    Sound p (s.stop p a n torn) := by
  have hphase := (phase_start (p := p) (s := s) (a := a)).steps (p := p) a.net n
  have hstep (w : World B) (x : Action B) (hc : Clean p w) (h : Permits p a.net w x) :
      Clean p (handle p a.net x w).snd := hc.handle h
  rw [stop_eq h.right]
  exact hs.after (Task.AlongSteps.steps hstep h.left hs.clean) <| hphase.kept <| not_renaming h.right

theorem Sound.step (h512 : Function.Injective p.sha512) (h256 : Function.Injective p.sha256)
    {e : Host.Event B} (hs : Sound p s) (h : Careful p s e) : Sound p (s.step p e) := by
  cases e
  case install a     => exact hs.install h512 h256 h
  case stop a n torn => exact hs.stop h

theorem unharmed_throughout (p : Platform B) (h512 : Function.Injective p.sha512) (h256 : Function.Injective p.sha256)
    (modules : Text → Modules B) (es : List (Host.Event B))
    (h : Runs.Meets (Host.step p) (Careful p) (.start modules) es) :
    Runs.Throughout (Host.step p) (Unharmed p) (.start modules) es := by
  have hstep (s : Host B) (e : Host.Event B) (hs : Sound p s) (h : Careful p s e) : Sound p (s.step p e) :=
    hs.step h512 h256 h
  have hrun := Runs.throughout_of_meets hstep Sound.start h
  exact hrun.mono fun s hs => hs.unharmed

end Runs

section Examples

private def hashing : Platform Text where
  sha256Hex     := id
  sha256        := id
  sha512        := id
  size _        := 1
  extract _     := .ok [.directory "package".toList [.file "index.js".toList 10]]
  localeLe _ _  := true

-- A package whose tarball is to have the contents `good`.
private def registryOf (contents : Text) : Net Text where
  respond _  := .packument <| .object [("versions".toList, .object [("1.0.0".toList, .object [
    ("dist".toList, .object [
      ("tarball".toList, .string "https://r/t.tgz".toList),
      ("integrity".toList, .string "sha512-good".toList)
    ])
  ])])]
  download _ := .ok contents
  copies _   := true
  empty      := []

private def attempt (contents : Text) : Attempt Text where
  plugin  := ['p']
  options := { registryUrl := [] }
  net     := registryOf contents
  specs   := [(['a'], "1.0.0".toList)]

-- An install that stops before it removes the old modules, and one that takes its tarball from the cache.
private def interrupted : List (Host.Event Text) :=
  [.install <| attempt "good".toList, .stop (attempt "good".toList) 7 false, .install <| attempt "good".toList]

theorem unharmed_throughout_interrupted :
    Runs.Throughout (Host.step hashing) (Unharmed hashing) (.start fun _ => .absent) interrupted :=
  unharmed_throughout hashing (fun _ _ h => h) (fun _ _ h => h) _ interrupted (by decide +kernel)

-- A corrupted tarball stays in the cache.
theorem corrupted_tarball_kept : ¬∀ (p : Platform Text) (modules : Text → Modules Text)
    (es : List (Host.Event Text)), Function.Injective p.sha512 → Function.Injective p.sha256 →
    Runs.Throughout (Host.step p) (Unharmed p) (.start modules) es := by
  intro h
  have hrun := h hashing (fun _ => .absent) [.install <| attempt "bad".toList, .install <| attempt "good".toList]
    (fun _ _ h => h) (fun _ _ h => h)
  have hverdicts : ([.install <| attempt "bad".toList, .install <| attempt "good".toList].foldl
      (Host.step hashing) (.start fun _ => .absent)).verdicts = [(true, false), (false, false)] := by
    decide +kernel
  have hlast := hrun.last.verdicts (true, false) <| by
    rw [hverdicts]
    exact List.mem_cons_self
  exact absurd (hlast rfl) nofun

end Examples
end Dependencies
