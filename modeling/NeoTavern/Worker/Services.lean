import Mathlib
import NeoTavern.Broker.Core
import NeoTavern.Lib.Runs

namespace Services

open Wire (utf16Length)
open Broker (maxCausalChain)
open Broker.BrokerErrorCode (serviceCallCycle validationFailed)

-- The identifier of a plugin, within the bounds of its schema.
structure PluginId where
  text  : String
  valid : text ≠ "" ∧ utf16Length text ≤ 160
  deriving DecidableEq

-- A service call that a worker is handling, with the chain that was active before.
structure Handler where
  call          : Nat
  chain         : List PluginId
  previousChain : List PluginId
  deriving DecidableEq

-- The handlers in progress are listed with the last one first.
structure Worker where
  activeServiceChain : List PluginId := []
  handlers           : List Handler := []
  deriving DecidableEq

-- A call that the host has pushed to a provider. The call whose handler it came from and the plugins
-- on the way to it are not known to the code.
structure ServiceCall where
  caller   : PluginId
  provider : PluginId
  chain    : List PluginId
  parent   : Option Nat
  path     : List PluginId
  deriving DecidableEq

-- A `services.connect` of a worker, and the code with which it has been refused.
structure Connect where
  caller      : PluginId
  parent      : Option Nat
  provider    : Option PluginId
  causalChain : List PluginId
  error       : Option String
  deriving DecidableEq

-- The calls are numbered in the order in which the host admits them.
structure System where
  workers   : PluginId → Worker := fun _ => {}
  calls     : List ServiceCall := []
  delivered : List Nat := []
  settled   : List Nat := []
  connects  : List Connect := []

-- A plugin connects while it handles a call, or otherwise. `provider` is the plugin of the service, if
-- there is one with that method, and `accepted` whether the host has room for the call and can push it.
inductive Event
  | connect (caller : PluginId) (parent : Option Nat) (provider : Option PluginId) (accepted : Bool)
  | handleServiceCall (k : Nat) (registered : Bool)
  | finish (k : Nat)
  | settle (k : Nat)
  | exit (plugin : PluginId)

namespace Worker

def handler? (w : Worker) (k : Nat) : Option Handler :=
  w.handlers.find? (·.call = k)

def handleServiceCall (w : Worker) (k : Nat) (chain : List PluginId) : Worker where
  activeServiceChain := chain
  handlers           := { call := k, chain, previousChain := w.activeServiceChain } :: w.handlers

def finish (w : Worker) (k : Nat) : Worker :=
  match w.handler? k with
  | some h => { activeServiceChain := h.previousChain, handlers := w.handlers.eraseP (·.call = k) }
  | none   => w

end Worker

namespace System

-- The chain as `invokeBrokerCall` sends it.
def sentChain (chain : List PluginId) : List PluginId :=
  chain.filter fun entry => entry.text ≠ "" && utf16Length entry.text ≤ 160

-- The checks of the worker, of the broker cores and of the host, in their order.
def refusal (caller : PluginId) (chain : List PluginId) (provider : Option PluginId)
    (accepted : Bool) : Option String :=
  if chain.length > maxCausalChain then
    some validationFailed
  else if (sentChain chain).contains caller then
    some serviceCallCycle
  else
    match provider with
    | none          => some "NOT_FOUND"
    | some provider =>
      if (sentChain chain).contains provider then
        some serviceCallCycle
      else if accepted then
        none
      else
        some "SERVICE_UNAVAILABLE"

-- A call that the host still holds.
def Pending (s : System) (k : Nat) (c : ServiceCall) : Prop :=
  s.calls[k]? = some c ∧ k ∉ s.settled

-- The plugins on the way to a handler: those that made the call it serves and the ones before.
def pathOf (s : System) (parent : Option Nat) : List PluginId :=
  (parent.bind (s.calls[·]?)).elim [] (·.path)

def connect (s : System) (caller : PluginId) (parent : Option Nat) (provider : Option PluginId)
    (accepted : Bool) : System :=
  if parent.all fun k => ((s.workers caller).handler? k).isSome then
    let chain := (s.workers caller).activeServiceChain
    let error := refusal caller chain provider accepted
    { s with
      connects := s.connects ++ [{ caller, parent, provider, causalChain := chain, error }]
      calls    := s.calls ++ match error, provider with
        | none, some provider => [{
            caller, provider, parent
            chain := sentChain chain ++ [caller]
            path  := s.pathOf parent ++ [caller]
          }]
        | _, _ => []
    }
  else
    s

def handleServiceCall (s : System) (k : Nat) (registered : Bool) : System :=
  match s.calls[k]? with
  | some { provider, chain, .. } =>
    if k ∈ s.delivered then
      s
    else { s with
      delivered := k :: s.delivered
      workers   := if registered then
        Function.update s.workers provider <| (s.workers provider).handleServiceCall k chain
      else
        s.workers
    }
  | none => s

def finish (s : System) (k : Nat) : System :=
  match s.calls[k]? with
  | some { provider, .. } =>
    { s with workers := Function.update s.workers provider <| (s.workers provider).finish k }
  | none => s

-- A response reaches the host, or the call is aborted or past its deadline.
def settle (s : System) (k : Nat) : System :=
  { s with settled := k :: s.settled }

def exit (s : System) (plugin : PluginId) : System :=
  { s with workers := Function.update s.workers plugin {} }

def step (s : System) : Event → System
  | .connect caller parent provider accepted => s.connect caller parent provider accepted
  | .handleServiceCall k registered          => s.handleServiceCall k registered
  | .finish k                                => s.finish k
  | .settle k                                => s.settle k
  | .exit plugin                             => s.exit plugin

end System
end Services

namespace Services

open Broker.BrokerErrorCode (serviceCallCycle validationFailed)

-- The active chain is that of the last handler, and each handler restores that of the one before.
def Nested : List Handler → List PluginId → Prop
  | [],      active => active = []
  | h :: hs, active => active = h.chain ∧ Nested hs h.previousChain

theorem sentChain_eq (chain : List PluginId) : System.sentChain chain = chain := by
  refine List.filter_eq_self.mpr fun entry _ => ?_
  simp [entry.valid]

namespace System

variable {s t : System} {e : Event} {j k : Nat} {c d : ServiceCall} {p : PluginId}

-- A call waits for those that its handler makes.
def WaitsFor (s : System) (j k : Nat) : Prop :=
  ∃ d, s.calls[k]? = some d ∧ d.parent = some j

-- The handlers of a worker are nested, only the last one connects, and no plugin connects to itself.
def Disciplined (s : System) : Event → Prop
  | .connect caller parent provider _ =>
    parent = (s.workers caller).handlers.head?.map Handler.call ∧ provider ≠ some caller
  | .finish k => ∀ c ∈ s.calls[k]?, ∀ h ∈ (s.workers c.provider).handler? k,
    (s.workers c.provider).handlers.head? = some h
  | _ => True

-- Every `services.connect` carries the chain of the call that its handler serves, the active chain of
-- an idle worker is empty, no pending calls wait for each other in a cycle of plugins, and a call is
-- refused as a cycle only if it would close one.
structure Truthful (s : System) : Prop where
  connects : ∀ x ∈ s.connects, x.causalChain = (x.parent.bind (s.calls[·]?)).elim [] (·.chain)
  idle     : ∀ p, (s.workers p).handlers = [] → (s.workers p).activeServiceChain = []
  acyclic  : ∀ j k c d, s.Pending j c → s.Pending k d → Relation.ReflTransGen s.WaitsFor j k →
    d.provider ≠ c.caller
  refused  : ∀ x ∈ s.connects, x.error = some serviceCallCycle →
    ∃ provider, x.provider = some provider ∧ provider ∈ s.pathOf x.parent

-- The chain of a call is the way to it, on which no plugin is twice.
structure Rooted (s : System) (c : ServiceCall) : Prop where
  chain  : c.chain = c.path
  path   : c.path = s.pathOf c.parent ++ [c.caller]
  nodup  : (c.path ++ [c.provider]).Nodup
  parent : ∀ j, c.parent = some j → ∃ d, s.calls[j]? = some d

structure Lawful (s : System) : Prop where
  nested   : ∀ p, Nested (s.workers p).handlers (s.workers p).activeServiceChain
  serves   : ∀ p, ∀ h ∈ (s.workers p).handlers, ∃ c, s.calls[h.call]? = some c ∧ c.provider = p ∧
    c.chain = h.chain
  rooted   : ∀ c ∈ s.calls, s.Rooted c
  connects : ∀ x ∈ s.connects, (∀ j, x.parent = some j → ∃ d, s.calls[j]? = some d) ∧
    x.causalChain = s.pathOf x.parent ∧
      (x.error = some serviceCallCycle →
        ∃ provider, x.provider = some provider ∧ provider ∈ s.pathOf x.parent)

section Paths

theorem getElem?_mono {x : ServiceCall} {xs ys : List ServiceCall} (h : xs <+: ys)
    (hx : xs[k]? = some x) : ys[k]? = some x := by
  obtain ⟨zs, rfl⟩ := h
  rwa [List.getElem?_append_left (List.getElem?_eq_some_iff.mp hx).fst]

-- What the calls that have been admitted tell stays as it is.
theorem pathOf_mono {parent : Option Nat} (h : s.calls <+: t.calls)
    (hp : ∀ j, parent = some j → ∃ d, s.calls[j]? = some d) : t.pathOf parent = s.pathOf parent := by
  cases parent
  case none   => rfl
  case some j =>
    have ⟨d, hd⟩ := hp j rfl
    simp [pathOf, hd, getElem?_mono h hd]

theorem Rooted.mono (hr : s.Rooted c) (h : s.calls <+: t.calls) : t.Rooted c where
  chain  := hr.chain
  path   := (pathOf_mono h hr.parent).symm ▸ hr.path
  nodup  := hr.nodup
  parent := fun j hj => (hr.parent j hj).imp fun _ hd => getElem?_mono h hd

theorem Lawful.path_of_waits (h : s.Lawful) (hc : s.calls[j]? = some c)
    (hw : Relation.ReflTransGen s.WaitsFor j k) : ∃ d, s.calls[k]? = some d ∧ c.caller ∈ d.path := by
  induction hw
  case refl =>
    refine ⟨c, hc, ?_⟩
    rw [(h.rooted c <| List.mem_of_getElem? hc).path]
    exact List.mem_append_right _ List.mem_cons_self
  case tail hstep ih =>
    have ⟨d, hd, hmem⟩ := ih
    have ⟨e, he, hparent⟩ := hstep
    refine ⟨e, he, ?_⟩
    rw [(h.rooted e <| List.mem_of_getElem? he).path, hparent]
    exact List.mem_append_left _ <| by simpa [pathOf, hd] using hmem

theorem Lawful.truthful (h : s.Lawful) : s.Truthful where
  connects x hx := by
    have ⟨hparent, hchain, _⟩ := h.connects x hx
    rw [hchain]
    cases hp : x.parent
    case none   => rfl
    case some j =>
      have ⟨d, hd⟩ := hparent j hp
      simp [pathOf, hd, (h.rooted d <| List.mem_of_getElem? hd).chain]
  idle p hp := by
    have := h.nested p
    rwa [hp] at this
  acyclic j k c d hc hd hw := by
    have ⟨d', hd', hmem⟩ := h.path_of_waits hc.left hw
    cases hd'.symm.trans hd.left
    have hnodup := (h.rooted d <| List.mem_of_getElem? hd.left).nodup
    rw [List.nodup_append] at hnodup
    exact fun heq => hnodup.right.right _ hmem d.provider List.mem_cons_self heq.symm
  refused x hx := (h.connects x hx).right.right

end Paths

section Steps

theorem Lawful.of_workers (h : s.Lawful) (hc : t.calls = s.calls) (hx : t.connects = s.connects)
    (hn : ∀ p, Nested (t.workers p).handlers (t.workers p).activeServiceChain)
    (hs : ∀ p, ∀ x ∈ (t.workers p).handlers, ∃ c, s.calls[x.call]? = some c ∧ c.provider = p ∧
      c.chain = x.chain) : t.Lawful := by
  have hpath (parent : Option Nat) : t.pathOf parent = s.pathOf parent := by simp [pathOf, hc]
  refine ⟨hn, fun p x hx => hc ▸ hs p x hx, fun c hm => ?_, fun x hm => ?_⟩
  · exact (h.rooted c <| hc ▸ hm).mono <| hc ▸ List.prefix_rfl
  · rw [hx] at hm
    rw [hpath, hc]
    exact h.connects x hm

theorem Lawful.settle (h : s.Lawful) : (s.settle k).Lawful :=
  h.of_workers rfl rfl h.nested h.serves

theorem Lawful.update {w : Worker} (h : s.Lawful) (hn : Nested w.handlers w.activeServiceChain)
    (hs : ∀ x ∈ w.handlers, ∃ c, s.calls[x.call]? = some c ∧ c.provider = p ∧ c.chain = x.chain)
    (delivered : List Nat) :
    Lawful { s with workers := Function.update s.workers p w, delivered } := by
  refine h.of_workers rfl rfl (fun q => ?_) fun q => ?_
  all_goals
    dsimp only
    by_cases hq : q = p
  · rw [hq, Function.update_self]
    exact hn
  · rw [Function.update_of_ne hq]
    exact h.nested q
  · rw [hq, Function.update_self]
    exact hs
  · rw [Function.update_of_ne hq]
    exact h.serves q

theorem Lawful.exit (h : s.Lawful) : (s.exit p).Lawful :=
  h.update (w := {}) rfl (by simp) _

theorem Lawful.handleServiceCall (h : s.Lawful) (registered : Bool) :
    (s.handleServiceCall k registered).Lawful := by
  unfold System.handleServiceCall
  split
  case h_2 => exact h
  case h_1 p q chain _ _ hc =>
    split
    case isTrue  => exact h
    case isFalse =>
      cases registered
      case false => exact h.of_workers rfl rfl h.nested h.serves
      case true  =>
        have hn : Nested ((s.workers q).handleServiceCall k chain).handlers chain := ⟨rfl, h.nested q⟩
        refine h.update hn (fun x hx => ?_) _
        rcases List.mem_cons.mp hx with rfl | hx
        · exact ⟨_, hc, rfl, rfl⟩
        · exact h.serves q x hx

-- The last handler ends, and the chain of the one before is active again.
theorem Lawful.finish (h : s.Lawful) (hd : s.Disciplined (.finish k)) : (s.finish k).Lawful := by
  unfold System.finish
  split
  case h_2 => exact h
  case h_1 p q _ _ _ hc =>
    have hlast := hd _ hc
    dsimp only at hlast
    cases hw : (s.workers q).handler? k
    case none =>
      have heq : (s.workers q).finish k = s.workers q := by rw [Worker.finish, hw]
      rw [heq]
      exact h.update (h.nested q) (h.serves q) _
    case some x =>
      have heq : (s.workers q).finish k = {
          activeServiceChain := x.previousChain
          handlers           := (s.workers q).handlers.eraseP (·.call = k)
        } := by rw [Worker.finish, hw]
      have ⟨xs, hxs⟩ := List.head?_eq_some_iff.mp <| hlast x hw
      have hfind : (s.workers q).handlers.find? (·.call = k) = some x := hw
      have hcall : x.call = k := by simpa using List.find?_some hfind
      have hn := h.nested q
      rw [heq]
      refine h.update ?_ (fun y hy => h.serves q y <| List.mem_of_mem_eraseP hy) _
      rw [hxs] at hn ⊢
      rw [List.eraseP_cons_of_pos (by simpa using hcall)]
      exact hn.right

-- The active chain of a worker is the way to its last handler.
theorem Lawful.active (h : s.Lawful) (p : PluginId) : (s.workers p).activeServiceChain =
    s.pathOf ((s.workers p).handlers.head?.map Handler.call) := by
  have hn := h.nested p
  have hs := h.serves p
  cases hw : (s.workers p).handlers
  case nil =>
    rw [hw] at hn
    exact hn
  case cons x xs =>
    rw [hw] at hn hs
    have ⟨c, hc, _, hchain⟩ := hs x List.mem_cons_self
    rw [hn.left, ← hchain, (h.rooted c <| List.mem_of_getElem? hc).chain]
    simp [pathOf, hc]

theorem refusal_eq_cycle {chain : List PluginId} {provider : Option PluginId} {accepted : Bool}
    (hp : p ∉ chain) (hr : refusal p chain provider accepted = some serviceCallCycle) :
    ∃ q, provider = some q ∧ q ∈ chain := by
  unfold refusal at hr
  rw [sentChain_eq] at hr
  split at hr
  case isTrue  => simp [validationFailed, serviceCallCycle] at hr
  case isFalse =>
    split at hr
    case isTrue hc => exact absurd (List.contains_iff_mem.mp hc) hp
    case isFalse   =>
      split at hr
      case h_1   => simp [serviceCallCycle] at hr
      case h_2 q =>
        split at hr
        case isTrue hc => exact ⟨q, rfl, List.contains_iff_mem.mp hc⟩
        case isFalse   => split at hr <;> simp [serviceCallCycle] at hr

theorem not_mem_of_refusal {chain : List PluginId} {q : PluginId} {accepted : Bool}
    (hr : refusal p chain (some q) accepted = none) : q ∉ chain := by
  unfold refusal at hr
  rw [sentChain_eq] at hr
  split at hr
  case isTrue  => cases hr
  case isFalse =>
    split at hr
    case isTrue  => cases hr
    case isFalse =>
      dsimp only at hr
      split at hr
      case isTrue     => cases hr
      case isFalse hc => exact fun hm => hc <| List.contains_iff_mem.mpr hm

-- A connect is recorded, and the call that it leads to.
theorem Lawful.extend {new : List ServiceCall} {x : Connect} (h : s.Lawful)
    (hnew : ∀ c ∈ new, s.Rooted c) (hparent : ∀ j, x.parent = some j → ∃ d, s.calls[j]? = some d)
    (hchain : x.causalChain = s.pathOf x.parent) (hrefused : x.error = some serviceCallCycle →
      ∃ provider, x.provider = some provider ∧ provider ∈ s.pathOf x.parent) :
    Lawful { s with connects := s.connects ++ [x], calls := s.calls ++ new } := by
  have hcalls : s.calls <+: s.calls ++ new := List.prefix_append ..
  constructor
  case nested => exact h.nested
  case serves =>
    intro p y hy
    have ⟨c, hc, hprov⟩ := h.serves p y hy
    exact ⟨c, getElem?_mono hcalls hc, hprov⟩
  case rooted =>
    intro c hc
    rcases List.mem_append.mp hc with hc | hc
    · exact (h.rooted c hc).mono hcalls
    · exact (hnew c hc).mono hcalls
  case connects =>
    intro y hy
    have hold : (∀ j, y.parent = some j → ∃ d, s.calls[j]? = some d) ∧
        y.causalChain = s.pathOf y.parent ∧ (y.error = some serviceCallCycle →
          ∃ provider, y.provider = some provider ∧ provider ∈ s.pathOf y.parent) := by
      rcases List.mem_append.mp hy with hy | hy
      · exact h.connects y hy
      · rw [List.mem_singleton.mp hy]
        exact ⟨hparent, hchain, hrefused⟩
    have ⟨hp, hpath, hr⟩ := hold
    have heq := pathOf_mono (t := { s with connects := s.connects ++ [x], calls := s.calls ++ new })
      hcalls hp
    rw [heq]
    exact ⟨fun j hj => (hp j hj).imp fun _ hd => getElem?_mono hcalls hd, hpath, hr⟩

theorem Lawful.connect {parent : Option Nat} {provider : Option PluginId} {accepted : Bool}
    (h : s.Lawful) (hd : s.Disciplined (.connect p parent provider accepted)) :
    (s.connect p parent provider accepted).Lawful := by
  have ⟨hparent, hself⟩ := hd
  have hactive : (s.workers p).activeServiceChain = s.pathOf parent := hparent ▸ h.active p
  -- A handler that connects serves a call, and its plugin is not on the way to it.
  have hserved : (∀ j, parent = some j → ∃ d, s.calls[j]? = some d) ∧
      (s.pathOf parent ++ [p]).Nodup := by
    have hs := h.serves p
    cases hw : (s.workers p).handlers
    case nil =>
      rw [hw] at hparent
      rw [hparent]
      exact ⟨nofun, List.nodup_singleton p⟩
    case cons x xs =>
      rw [hw] at hparent hs
      have ⟨c, hc, hprov, _⟩ := hs x List.mem_cons_self
      rw [hparent]
      refine ⟨fun j hj => ⟨c, by rwa [← Option.some.inj hj]⟩, ?_⟩
      have hnodup := (h.rooted c <| List.mem_of_getElem? hc).nodup
      rw [hprov] at hnodup
      simpa [pathOf, hc] using hnodup
  unfold System.connect
  split
  case isFalse => exact h
  case isTrue  =>
    rw [hactive]
    have ⟨hserves, hnodup⟩ := hserved
    have hp : p ∉ s.pathOf parent := fun hm =>
      (List.nodup_append.mp hnodup).right.right p hm p List.mem_cons_self rfl
    refine h.extend (fun c hc => ?_) hserves rfl (refusal_eq_cycle hp)
    split at hc
    case h_2      => cases hc
    case h_1 q hr =>
      rw [List.mem_singleton.mp hc]
      refine ⟨by rw [sentChain_eq], rfl, List.nodup_append.mpr ⟨hnodup, ?_, ?_⟩, hserves⟩
      · exact List.nodup_singleton q
      · intro x hx y hy heq
        have hxq : x = q := heq.trans <| List.mem_singleton.mp hy
        rcases List.mem_append.mp hx with hx | hx
        · exact not_mem_of_refusal hr (hxq ▸ hx)
        · exact hself <| congrArg some <| hxq.symm.trans <| List.mem_singleton.mp hx

theorem Lawful.step (h : s.Lawful) (hd : s.Disciplined e) : (s.step e).Lawful := by
  cases e
  case connect           => exact h.connect hd
  case handleServiceCall => exact h.handleServiceCall _
  case finish            => exact h.finish hd
  case settle            => exact h.settle
  case exit              => exact h.exit

end Steps

-- In a run in which the handlers of each worker are nested, only the last one connects and no plugin
-- connects to itself, the chains are true in every state.
theorem truthful_throughout (es : List Event) (h : Runs.Meets step Disciplined {} es) :
    Runs.Throughout step Truthful {} es := by
  have hinit : Lawful {} := ⟨fun _ => rfl, by simp, nofun, nofun⟩
  exact (Runs.throughout_of_meets (fun _ _ => Lawful.step) hinit h).mono fun _ => Lawful.truthful

section Sample

private def alice : PluginId := ⟨"alice", by decide +kernel⟩
private def bob : PluginId := ⟨"bob", by decide +kernel⟩
private def carol : PluginId := ⟨"carol", by decide +kernel⟩

-- A call from one plugin to another, whose handler calls a third one.
private def nested : List Event := [.connect alice none (some bob) true, .handleServiceCall 0 true,
  .connect bob (some 0) (some carol) true, .handleServiceCall 1 true, .finish 1, .finish 0]

-- Two plugins call a third one, and the handler of the first call makes a call of its own while the
-- second one is in progress.
private def overlapping : List Event := [.connect alice none (some bob) true,
  .connect carol none (some bob) true, .handleServiceCall 0 true, .handleServiceCall 1 true,
  .connect bob (some 0) (some carol) true]

theorem truthful_throughout_nested :
    Runs.Meets step Disciplined {} nested ∧ Runs.Throughout step Truthful {} nested := by
  have h : Runs.Meets step Disciplined {} nested := by
    refine ⟨⟨rfl, by decide +kernel⟩, trivial, ⟨by decide +kernel, by decide +kernel⟩, trivial, ?_, ?_,
      trivial⟩
    all_goals
      rintro _ ⟨⟩
      decide +kernel
  exact ⟨h, truthful_throughout nested h⟩

-- The handler of the first call sends the chain of the second one.
theorem overlapping_lies : ¬∀ es, Runs.Throughout step Truthful {} es := by
  intro h
  have hchain := (h overlapping).last.connects
  revert hchain
  decide +kernel

end Sample

end System
end Services
