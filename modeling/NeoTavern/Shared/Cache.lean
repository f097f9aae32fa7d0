import NeoTavern.Lib.Assoc
import NeoTavern.Lib.Recency
import NeoTavern.Lib.Runs

namespace Shared.Cache

-- `none` is `undefined`. For the history, an entry knows the factory that its value comes from, if any,
-- and when it was used last.
structure Entry (V : Type) where
  value     : Option V
  expiresAt : Option Int
  origin    : Option Nat
  used      : Nat
  deriving DecidableEq

-- A factory runs, its promise is settled, and then the slot is cleaned up.
inductive Phase
  | running
  | settled (failed : Bool)
  | finished (failed : Bool)
  deriving DecidableEq

-- A factory that has been called, and whether its key has been invalidated since.
structure Factory where
  key   : String
  phase : Phase := .running
  stale : Bool := false
  deriving DecidableEq

-- What a call is given: the value of a factory or of a `set`, and whether it had been invalidated.
structure Served where
  origin : Option Nat
  stale  : Bool
  deriving DecidableEq

-- An entry that made room, by the time it was used last, and those that stayed.
structure Eviction where
  used   : Nat
  others : List Nat
  deriving DecidableEq

-- The limit has been checked by the constructor. A promise in flight is that of its factory. From
-- `factories` on, the fields are the history of the cache.
structure LruCache (V : Type) where
  maxSize   : { n : Nat // 0 < n }
  ttlMs     : Option Int
  map       : List (String × Entry V) := []
  inFlight  : List (String × Nat) := []
  hits      : Nat := 0
  misses    : Nat := 0
  evictions : Nat := 0
  factories : List Factory := []
  served    : List Served := []
  evicted   : List Eviction := []
  clock     : Nat := 0
  deriving DecidableEq

-- `resolve`, `reject` and `cleanUp` are callbacks of the promise of a factory. `reject` has none in the
-- code, and leaves the cleaning up to the next turn as well.
inductive Event (V : Type)
  | get (key : String) (now : Int)
  | set (key : String) (value : Option V) (now : Int)
  | getOrComputeAsync (key : String) (now : Int)
  | delete (key : String)
  | clear
  | resolve (factory : Nat) (value : Option V) (now : Int)
  | reject (factory : Nat)
  | cleanUp (factory : Nat)
  deriving DecidableEq

def Phase.isOpen : Phase → Bool
  | finished _ => false
  | _          => true

def Phase.hasFailed : Phase → Bool
  | settled failed | finished failed => failed
  | running                          => false

def Phase.isResolved : Phase → Bool
  | settled failed | finished failed => !failed
  | running                          => false

namespace LruCache

variable {V : Type} (c : LruCache V)

def isExpired (e : Entry V) (now : Int) : Bool :=
  e.expiresAt.any (· ≤ now)

def get (key : String) (now : Int) : LruCache V × Option (Entry V) :=
  match Assoc.get c.map key with
  | none       => ({ c with misses := c.misses + 1 }, none)
  | some entry =>
    if isExpired entry now then
      ({ c with map := Assoc.delete c.map key, evictions := c.evictions + 1, misses := c.misses + 1 }, none)
    else
      let map := Assoc.delete c.map key ++ [(key, { entry with used := c.clock })]
      ({ c with map, hits := c.hits + 1 }, some entry)

-- `set`, for a value of a factory or of the caller.
def put (key : String) (value : Option V) (origin : Option Nat) (now : Int) : LruCache V :=
  let entry : Entry V := { value, expiresAt := c.ttlMs.map (now + ·), origin, used := c.clock }
  let (map, dropped) := Recency.trim c.maxSize (Assoc.delete c.map key ++ [(key, entry)])
  { c with
    map
    evictions := c.evictions + dropped.length
    evicted   := c.evicted ++ dropped.map fun (victim, others) => ⟨victim.snd.used, others.map (·.snd.used)⟩
  }

-- Whether the value of a factory has been invalidated since the factory was called.
def isStale (origin : Option Nat) : Bool :=
  (origin.bind (c.factories[·]?)).any (·.stale)

def serve (origin : Option Nat) : LruCache V :=
  { c with served := c.served ++ [⟨origin, c.isStale origin⟩] }

def start (key : String) : LruCache V :=
  { c with
    inFlight  := Assoc.set c.inFlight key c.factories.length
    factories := c.factories ++ [{ key }]
  }

def getOrComputeAsync (key : String) (now : Int) : LruCache V :=
  let (c, cached) := c.get key now
  match cached.filter (·.value.isSome) with
  | some entry => c.serve entry.origin
  | none       =>
    match Assoc.get c.inFlight key with
    | some factory => c.serve (some factory)
    | none         => c.start key

def invalidate (f : Factory → Bool) : LruCache V :=
  { c with factories := c.factories.map fun g => if f g then { g with stale := true } else g }

def delete (key : String) : LruCache V :=
  { c.invalidate (·.key = key) with map := Assoc.delete c.map key }

def clear : LruCache V :=
  { c.invalidate fun _ => true with map := [], inFlight := [] }

def advance (factory : Nat) (phase : Phase) : LruCache V :=
  { c with factories := c.factories.modify factory fun f => { f with phase } }

def run : Event V → LruCache V
  | .get key now               =>
    match c.get key now with
    | (c, some entry) => c.serve entry.origin
    | (c, none)       => c
  | .set key value now         => c.put key value none now
  | .getOrComputeAsync key now => c.getOrComputeAsync key now
  | .delete key                => c.delete key
  | .clear                     => c.clear
  | .resolve factory value now =>
    match c.factories[factory]? with
    | some ⟨key, .running, _⟩ => (c.advance factory (.settled false)).put key value (some factory) now
    | _                       => c
  | .reject factory            =>
    match c.factories[factory]? with
    | some ⟨_, .running, _⟩ => c.advance factory (.settled true)
    | _                     => c
  | .cleanUp factory           =>
    match c.factories[factory]? with
    | some ⟨key, .settled failed, _⟩ =>
      { c.advance factory (.finished failed) with inFlight := Assoc.delete c.inFlight key }
    | _                              => c

-- Every step takes place at a time of its own.
def step (e : Event V) : LruCache V :=
  { c.run e with clock := c.clock + 1 }

variable {c}

-- Nothing is invalidated while a factory for it is in flight.
def Quiet (c : LruCache V) : Event V → Prop
  | .delete key => Assoc.get c.inFlight key = none
  | .clear      => c.inFlight = []
  | _           => True

-- What holds of a cache in such a run, by a time `t`: the slots in flight are those of the open
-- factories, which have not been invalidated, and entries come from factories that have resolved and
-- have not been invalidated.
structure Inv (t : Nat) (c : LruCache V) : Prop where
  ordered : Recency.Ordered (·.snd.used) t c.map
  bounded : c.map.length ≤ c.maxSize
  evicted : ∀ v ∈ c.evicted, ∀ u ∈ v.others, v.used < u
  slots   : ∀ id f, c.factories[id]? = some f → f.phase.isOpen →
    Assoc.get c.inFlight f.key = some id ∧ f.stale = false
  flights : ∀ key id, Assoc.get c.inFlight key = some id →
    ∃ f, c.factories[id]? = some f ∧ f.key = key ∧ f.phase.isOpen
  origins : ∀ e ∈ c.map, ∀ id, e.snd.origin = some id →
    ∃ f, c.factories[id]? = some f ∧ f.key = e.fst ∧ f.stale = false ∧ f.phase.isResolved
  served  : ∀ s ∈ c.served, s.stale = false

namespace Inv

variable {t : Nat} {key : String} {entry : Entry V} {value : Option V} {origin : Option Nat} {now : Int} {id : Nat}
  {f : Factory} {failed : Bool}

theorem later (h : Inv t c) : Inv (t + 1) c :=
  { h with ordered := h.ordered.later (Nat.le_succ t) }

theorem fresh (h : Inv t c) {e : String × Entry V} (he : e ∈ c.map) : c.isStale e.snd.origin = false := by
  cases ho : e.snd.origin
  case none    => rfl
  case some id =>
    have ⟨f, hf, _, hstale, _⟩ := h.origins e he id ho
    simp [isStale, hf, hstale]

theorem serve (h : Inv t c) (hs : c.isStale origin = false) : Inv t (c.serve origin) where
  ordered := h.ordered
  bounded := h.bounded
  evicted := h.evicted
  slots   := h.slots
  flights := h.flights
  origins := h.origins
  served  := by
    intro s hmem
    cases List.mem_append.mp hmem
    case inl hmem => exact h.served s hmem
    case inr hmem => exact List.mem_singleton.mp hmem ▸ hs

-- What becomes of a cache whose entries change.
theorem remap (h : Inv t c) {t' : Nat} {map : List (String × Entry V)} {hits misses evictions : Nat}
    {evicted : List Eviction} (hordered : Recency.Ordered (·.snd.used) t' map) (hbounded : map.length ≤ c.maxSize)
    (hevicted : ∀ v ∈ evicted, ∀ u ∈ v.others, v.used < u)
    (horigins : ∀ e ∈ map, ∀ id, e.snd.origin = some id →
      ∃ f, c.factories[id]? = some f ∧ f.key = e.fst ∧ f.stale = false ∧ f.phase.isResolved) :
    Inv t' { c with map, hits, misses, evictions, evicted } where
  ordered := hordered
  bounded := hbounded
  evicted := hevicted
  slots   := h.slots
  flights := h.flights
  origins := horigins
  served  := h.served

-- An entry that is used now goes to the end.
theorem touched (h : Inv c.clock c) (key : String) (entry : Entry V) (hused : entry.used = c.clock)
    (horigin : ∀ id, entry.origin = some id →
      ∃ f, c.factories[id]? = some f ∧ f.key = key ∧ f.stale = false ∧ f.phase.isResolved) :
    Recency.Ordered (·.snd.used) (c.clock + 1) (Assoc.delete c.map key ++ [(key, entry)]) ∧
    ∀ e ∈ Assoc.delete c.map key ++ [(key, entry)], ∀ id, e.snd.origin = some id →
      ∃ f, c.factories[id]? = some f ∧ f.key = e.fst ∧ f.stale = false ∧ f.phase.isResolved := by
  constructor
  case left => exact (h.ordered.sublist List.filter_sublist).concat hused
  case right =>
    intro e he
    cases List.mem_append.mp he
    case inl he => exact h.origins e <| List.mem_of_mem_filter he
    case inr he => exact List.mem_singleton.mp he ▸ horigin

theorem get (h : Inv c.clock c) (key : String) (now : Int) : Inv (c.clock + 1) (c.get key now).fst ∧
    ∀ entry, (c.get key now).snd = some entry → (c.get key now).fst.isStale entry.origin = false := by
  rw [LruCache.get]
  cases hget : Assoc.get c.map key
  case none =>
    exact ⟨h.remap (h.ordered.later <| Nat.le_succ _) h.bounded h.evicted h.origins, nofun⟩
  case some entry =>
    have hmem := Assoc.mem_of_get hget
    have hlength := Nat.lt_of_lt_of_le (Assoc.length_delete_lt hget) h.bounded
    dsimp only
    by_cases hexpired : isExpired entry now
    case pos =>
      rw [if_pos hexpired]
      refine ⟨h.remap ?_ hlength.le h.evicted fun e he => h.origins e <| List.mem_of_mem_filter he, nofun⟩
      exact (h.ordered.sublist List.filter_sublist).later <| Nat.le_succ _
    case neg =>
      rw [if_neg hexpired]
      have ⟨hordered, horigins⟩ := h.touched key { entry with used := c.clock } rfl <|
        h.origins _ hmem
      refine ⟨h.remap hordered (by simp; omega) h.evicted horigins, fun entry' he => ?_⟩
      exact Option.some.inj he ▸ h.fresh hmem

theorem put (h : Inv c.clock c) (horigin : ∀ id, origin = some id →
      ∃ f, c.factories[id]? = some f ∧ f.key = key ∧ f.stale = false ∧ f.phase.isResolved) :
    Inv (c.clock + 1) (c.put key value origin now) := by
  have ⟨hordered, horigins⟩ := h.touched key
    { value, expiresAt := c.ttlMs.map (now + ·), origin, used := c.clock } rfl horigin
  refine h.remap (hordered.sublist Recency.trim_sublist) Recency.length_trim_le ?_ fun e he =>
    horigins e <| Recency.trim_sublist.subset he
  intro v hv
  cases List.mem_append.mp hv
  case inl hv => exact h.evicted v hv
  case inr hv =>
    have ⟨dropped, hdropped, he⟩ := List.mem_map.mp hv
    intro u hu
    rw [← he] at hu ⊢
    have ⟨b, hb, hub⟩ := List.mem_map.mp hu
    exact hub ▸ hordered.trim_least dropped hdropped b hb

theorem start (h : Inv t c) (hnone : Assoc.get c.inFlight key = none) : Inv t (c.start key) := by
  have hkept {i : Nat} {g : Factory} (hg : c.factories[i]? = some g) :
      (c.factories ++ [⟨key, .running, false⟩])[i]? = some g :=
    (List.getElem?_append_left (List.getElem?_eq_some_iff.mp hg).choose).trans hg
  have hnew : (c.factories ++ [⟨key, .running, false⟩])[c.factories.length]? = some ⟨key, .running, false⟩ := by simp
  constructor
  case ordered => exact h.ordered
  case bounded => exact h.bounded
  case evicted => exact h.evicted
  case served  => exact h.served
  case slots =>
    intro i g hg hopen
    by_cases hi : i < c.factories.length
    case pos =>
      have hg : c.factories[i]? = some g := (List.getElem?_append_left hi).symm.trans hg
      have ⟨hslot, hstale⟩ := h.slots i g hg hopen
      have hne : g.key ≠ key := fun he => by cases hnone.symm.trans (he ▸ hslot)
      exact ⟨(Assoc.get_set_of_ne hne).trans hslot, hstale⟩
    case neg =>
      have hi : i = c.factories.length := by
        have hlt : i < (c.factories ++ [(⟨key, .running, false⟩ : Factory)]).length :=
          (List.getElem?_eq_some_iff.mp hg).choose
        simp only [List.length_append, List.length_singleton] at hlt
        omega
      rw [hi] at hg ⊢
      have he : ⟨key, .running, false⟩ = g := Option.some.inj <| hnew.symm.trans hg
      rw [← he]
      exact ⟨Assoc.get_set_self, rfl⟩
  case flights =>
    intro k i hk
    by_cases he : k = key
    case pos =>
      rw [he] at hk ⊢
      have hi := Option.some.inj <| Assoc.get_set_self.symm.trans hk
      exact ⟨(⟨key, .running, false⟩ : Factory), hi ▸ hnew, rfl, rfl⟩
    case neg =>
      have ⟨g, hg, hor⟩ := h.flights k i <| (Assoc.get_set_of_ne he).symm.trans hk
      exact ⟨g, hkept hg, hor⟩
  case origins =>
    intro e he i hi
    have ⟨g, hg, hor⟩ := h.origins e he i hi
    exact ⟨g, hkept hg, hor⟩

theorem delete (h : Inv t c) (hquiet : Assoc.get c.inFlight key = none) : Inv t (c.delete key) := by
  have hlength : (Assoc.delete c.map key).length ≤ c.map.length := List.length_filter_le _ _
  have hmark {i : Nat} {g : Factory} (hg : c.factories[i]? = some g) (hne : g.key ≠ key) :
      (c.delete key).factories[i]? = some g := by
    simp [LruCache.delete, invalidate, hg, hne]
  constructor
  case ordered => exact h.ordered.sublist List.filter_sublist
  case bounded => exact hlength.trans h.bounded
  case evicted => exact h.evicted
  case served  => exact h.served
  case slots =>
    intro i g hg hopen
    have hg : (c.factories.map fun g => if g.key = key then { g with stale := true } else g)[i]? = some g := by
      simpa [LruCache.delete, invalidate] using hg
    rw [List.getElem?_map, Option.map_eq_some_iff] at hg
    have ⟨g₀, hg₀, he⟩ := hg
    have hsame : g.key = g₀.key ∧ g.phase = g₀.phase := by
      rw [← he]
      split <;> exact ⟨rfl, rfl⟩
    have ⟨hslot, hstale⟩ := h.slots i g₀ hg₀ <| hsame.right ▸ hopen
    have hne : g₀.key ≠ key := fun he => by cases hquiet.symm.trans (he ▸ hslot)
    rw [if_neg hne] at he
    exact he ▸ ⟨hslot, hstale⟩
  case flights =>
    intro k i hk
    have ⟨g, hg, hkey, hopen⟩ := h.flights k i hk
    have hne : g.key ≠ key := fun he => by cases hquiet.symm.trans (he ▸ hkey ▸ hk)
    exact ⟨g, hmark hg hne, hkey, hopen⟩
  case origins =>
    intro e he i hi
    have ⟨hmem, hne⟩ := Assoc.mem_delete.mp he
    have ⟨g, hg, hkey, hor⟩ := h.origins e hmem i hi
    exact ⟨g, hmark hg (hkey ▸ hne), hkey, hor⟩

theorem clear (h : Inv t c) (hquiet : c.inFlight = []) : Inv t c.clear := by
  constructor
  case ordered => exact .nil
  case bounded => exact Nat.zero_le _
  case evicted => exact h.evicted
  case served  => exact h.served
  case flights => exact nofun
  case origins => exact nofun
  case slots =>
    intro i g hg hopen
    have hg : (c.factories.map fun g => { g with stale := true })[i]? = some g := by
      simpa [LruCache.clear, invalidate] using hg
    rw [List.getElem?_map, Option.map_eq_some_iff] at hg
    have ⟨g₀, hg₀, he⟩ := hg
    rw [← he] at hopen
    have hslot := (h.slots i g₀ hg₀ hopen).left
    rw [hquiet] at hslot
    cases hslot

-- Whatever becomes of one factory, the others are what they were.
theorem getElem?_advance {i : Nat} {g : Factory} {phase : Phase} :
    (c.advance id phase).factories[i]? = some g ↔
      (i ≠ id ∧ c.factories[i]? = some g) ∨ i = id ∧ ∃ g₀, c.factories[id]? = some g₀ ∧ { g₀ with phase } = g := by
  rw [LruCache.advance, List.getElem?_modify]
  by_cases hi : i = id
  case pos => simp [hi]
  case neg => simp [hi, Ne.symm hi]

theorem advance (h : Inv t c) (hf : c.factories[id]? = some f) (hrunning : f.phase = .running) :
    Inv t (c.advance id (.settled failed)) := by
  constructor
  case ordered => exact h.ordered
  case bounded => exact h.bounded
  case evicted => exact h.evicted
  case served  => exact h.served
  case slots =>
    intro i g hg hopen
    cases getElem?_advance.mp hg
    case inl hg => exact h.slots i g hg.right hopen
    case inr hg =>
      have ⟨hi, g₀, hg₀, he⟩ := hg
      have hopen₀ : g₀.phase.isOpen := by
        rw [Option.some.inj <| hg₀.symm.trans hf, hrunning]
        rfl
      rw [hi, ← he]
      exact h.slots id g₀ hg₀ hopen₀
  case flights =>
    intro k i hk
    have ⟨g, hg, hkey, hopen⟩ := h.flights k i hk
    by_cases hi : i = id
    case pos =>
      exact ⟨{ g with phase := .settled failed }, getElem?_advance.mpr <| .inr ⟨hi, g, hi ▸ hg, rfl⟩, hkey, rfl⟩
    case neg => exact ⟨g, getElem?_advance.mpr <| .inl ⟨hi, hg⟩, hkey, hopen⟩
  case origins =>
    intro e he i hi
    have ⟨g, hg, hkey, hstale, hresolved⟩ := h.origins e he i hi
    have hne : i ≠ id := by
      intro hi
      rw [hi] at hg
      rw [Option.some.inj <| hg.symm.trans hf, hrunning] at hresolved
      cases hresolved
    exact ⟨g, getElem?_advance.mpr <| .inl ⟨hne, hg⟩, hkey, hstale, hresolved⟩

theorem cleanUp (h : Inv t c) (hf : c.factories[id]? = some f) (hsettled : f.phase = .settled failed) :
    Inv t { c.advance id (.finished failed) with inFlight := Assoc.delete c.inFlight f.key } := by
  have hslot := (h.slots id f hf <| hsettled ▸ rfl).left
  constructor
  case ordered => exact h.ordered
  case bounded => exact h.bounded
  case evicted => exact h.evicted
  case served  => exact h.served
  case slots =>
    intro i g hg hopen
    cases getElem?_advance.mp hg
    case inl hg =>
      have ⟨hslot', hstale⟩ := h.slots i g hg.right hopen
      have hne : g.key ≠ f.key := fun he => hg.left <| Option.some.inj <| hslot'.symm.trans <| he ▸ hslot
      exact ⟨(Assoc.get_delete_of_ne hne).trans hslot', hstale⟩
    case inr hg =>
      have ⟨_, g₀, _, he⟩ := hg
      rw [← he] at hopen
      cases hopen
  case flights =>
    intro k i hk
    have hne : k ≠ f.key := by
      intro he
      rw [he, Assoc.get_delete_self] at hk
      cases hk
    have ⟨g, hg, hkey, hopen⟩ := h.flights k i <| (Assoc.get_delete_of_ne hne).symm.trans hk
    have hi : i ≠ id := by
      intro hi
      rw [hi] at hg
      exact hne <| hkey.symm.trans <| congrArg Factory.key <| Option.some.inj <| hg.symm.trans hf
    exact ⟨g, getElem?_advance.mpr <| .inl ⟨hi, hg⟩, hkey, hopen⟩
  case origins =>
    intro e he i hi
    have ⟨g, hg, hkey, hstale, hresolved⟩ := h.origins e he i hi
    by_cases hid : i = id
    case neg => exact ⟨g, getElem?_advance.mpr <| .inl ⟨hid, hg⟩, hkey, hstale, hresolved⟩
    case pos =>
      have hg' : c.factories[id]? = some g := hid ▸ hg
      have hgf := Option.some.inj <| hg'.symm.trans hf
      refine ⟨{ g with phase := .finished failed }, ?_, hkey, hstale, ?_⟩
      · exact getElem?_advance.mpr <| .inr ⟨hid, g, hid ▸ hg, rfl⟩
      · rw [hgf, hsettled] at hresolved
        exact hresolved

theorem getOrComputeAsync (h : Inv c.clock c) : Inv (c.clock + 1) (c.getOrComputeAsync key now) := by
  have ⟨hget, hfresh⟩ := h.get key now
  rw [LruCache.getOrComputeAsync]
  generalize c.get key now = result at hget hfresh ⊢
  obtain ⟨c', cached⟩ := result
  dsimp only at hget hfresh ⊢
  split
  case h_1 entry hcached =>
    exact hget.serve <| hfresh entry (Option.filter_eq_some_iff.mp hcached).left
  case h_2 =>
    split
    case h_2 hnone => exact hget.start hnone
    case h_1 id hflight =>
      have ⟨f, hf, _, hopen⟩ := hget.flights key id hflight
      exact hget.serve <| by simp [isStale, hf, (hget.slots id f hf hopen).right]

end Inv

theorem run_inv (e : Event V) (h : Inv c.clock c) (hquiet : c.Quiet e) : Inv (c.clock + 1) (c.run e) := by
  cases e
  case get key now =>
    have ⟨hget, hfresh⟩ := h.get key now
    rw [run]
    generalize c.get key now = result at hget hfresh ⊢
    split
    case h_1 c' entry => exact hget.serve <| hfresh entry rfl
    case h_2          => exact hget
  case set key value now         => exact h.put nofun
  case getOrComputeAsync key now => exact h.getOrComputeAsync
  case delete key                => exact h.later.delete hquiet
  case clear                     => exact h.later.clear hquiet
  case resolve id value now =>
    rw [run]
    split
    case h_2 => exact h.later
    case h_1 key stale hf =>
      have hadvance : Inv c.clock (c.advance id (.settled false)) := h.advance hf rfl
      have hstale := (h.slots id _ hf rfl).right
      refine Inv.put (c := c.advance id (.settled false)) hadvance fun i hi => ?_
      refine ⟨⟨key, .settled false, stale⟩, ?_, rfl, hstale, rfl⟩
      exact Inv.getElem?_advance.mpr <| .inr ⟨(Option.some.inj hi).symm, _, hf, rfl⟩
  case reject id =>
    rw [run]
    split
    case h_2    => exact h.later
    case h_1 hf => exact (h.advance hf rfl).later
  case cleanUp id =>
    rw [run]
    split
    case h_2    => exact h.later
    case h_1 hf => exact (h.cleanUp hf rfl).later

theorem step_inv (e : Event V) (h : Inv c.clock c) (hquiet : c.Quiet e) : Inv (c.step e).clock (c.step e) := by
  have hrun := run_inv e h hquiet
  exact ⟨hrun.ordered, hrun.bounded, hrun.evicted, hrun.slots, hrun.flights, hrun.origins, hrun.served⟩

-- No value that has been invalidated is stored or served, one factory at most runs for each key, a
-- failed one leaves no entry, and the limit is kept by giving up what was used least recently.
structure Sound (c : LruCache V) : Prop where
  stored  : ∀ e ∈ c.map, c.isStale e.snd.origin = false
  served  : ∀ s ∈ c.served, s.stale = false
  single  : ∀ (i j : Nat) (f g : Factory), c.factories[i]? = some f → c.factories[j]? = some g →
    f.phase.isOpen → g.phase.isOpen → f.key = g.key → i = j
  failed  : ∀ e ∈ c.map, ∀ (id : Nat) (f : Factory), e.snd.origin = some id → c.factories[id]? = some f →
    f.phase.hasFailed = false
  bounded : c.map.length ≤ c.maxSize
  evicted : ∀ v ∈ c.evicted, ∀ u ∈ v.others, v.used < u

theorem Inv.sound {t : Nat} (h : Inv t c) : Sound c where
  stored  := fun _ he => h.fresh he
  served  := h.served
  single  := by
    intro i j f g hf hg hopen hopen' hkey
    have hi := (h.slots i f hf hopen).left
    have hj := (h.slots j g hg hopen').left
    exact Option.some.inj <| hi.symm.trans <| hkey ▸ hj
  failed  := by
    intro e he id f hid hf
    have ⟨g, hg, _, _, hresolved⟩ := h.origins e he id hid
    obtain rfl := Option.some.inj <| hg.symm.trans hf
    cases hphase : g.phase <;> simp_all [Phase.isResolved, Phase.hasFailed]
  bounded := h.bounded
  evicted := h.evicted

-- A cache as it is constructed.
def new (maxSize : { n : Nat // 0 < n }) (ttlMs : Option Int) : LruCache V where
  maxSize
  ttlMs

theorem new_inv (maxSize : { n : Nat // 0 < n }) (ttlMs : Option Int) : Inv 0 (new maxSize ttlMs : LruCache V) where
  ordered := .nil
  bounded := Nat.zero_le _
  evicted := nofun
  slots   := nofun
  flights := nofun
  origins := nofun
  served  := nofun

theorem sound_throughout (maxSize : { n : Nat // 0 < n }) (ttlMs : Option Int) (es : List (Event V))
    (h : Runs.Meets step Quiet (new maxSize ttlMs) es) : Runs.Throughout step Sound (new maxSize ttlMs) es := by
  have hinv : Runs.Throughout step (fun c : LruCache V => Inv c.clock c) (new maxSize ttlMs) es :=
    Runs.throughout_of_meets (fun _ e hc hquiet => step_inv e hc hquiet) (new_inv maxSize ttlMs) h
  exact hinv.mono fun _ hc => hc.sound

theorem sound_throughout_computed : Runs.Throughout step Sound (new ⟨2, by decide⟩ none) [
    .getOrComputeAsync "k" 0, .resolve 0 (some 1) 1, .cleanUp 0, .delete "k", .get "k" 2] :=
  sound_throughout ⟨2, by decide⟩ none _ ⟨trivial, trivial, trivial, rfl, trivial, trivial⟩

-- The value of a factory that was running when its key was deleted is stored for later calls.
theorem stored_after_delete : ¬ Runs.Throughout step Sound (new ⟨2, by decide⟩ none) [
    .getOrComputeAsync "k" 0, .delete "k", .resolve 0 (some 1) 1] := by
  intro h
  have hstored := h.last.stored ("k", ⟨some 1, none, some 0, 2⟩) <| by decide +kernel
  exact absurd hstored <| by decide +kernel

end LruCache

end Shared.Cache
