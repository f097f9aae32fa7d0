import NeoTavern.Capability.Kernel
import Mathlib

namespace Capability

-- What a scope can give access to.
inductive Resource (P : Type)
  | chat (id : String)
  | origin (origin : String)
  | workspace (id : String)
  | custom (params : P)
  | user
  | installation
  | currentChat
  deriving DecidableEq

variable {P : Type}

namespace CapabilityScope

variable {has want : CapabilityScope P} {S : Set (Resource P)} {ids os : List String}

def resources : CapabilityScope P → Set (Resource P)
  | .currentChat       => {.currentChat}
  | .selectedChats ids => {r | ∃ id ∈ ids, r = .chat id}
  | .chat id           => {.chat id}
  | .all               => Set.univ
  | .user              => {.user}
  | .workspace w       => w.elim {r | ∃ id, r = .workspace id} fun id => {.workspace id}
  | .installation      => {.installation}
  | .origins os        => {r | ∃ o ∈ os, r = .origin o}
  | .custom params     => {.custom params}

-- Where `covers` judges otherwise than the resources do: a list of chats is compared with another
-- list only, which it need not contain, and neither the ids of workspaces nor the parameters of
-- custom scopes are compared at all. An empty list of chats asks for nothing.
def Mismatch : (has want : CapabilityScope P) → Prop
  | .selectedChats ids,  .selectedChats ws  => ∃ id ∈ ws, id ∉ ids
  | .selectedChats ids,  .chat id           => id ∈ ids
  | .chat id,            .selectedChats ids => ∀ id' ∈ ids, id' = id
  | .workspace w,        .workspace w'      => w ≠ none ∧ w' ≠ w
  | .custom p,           .custom q          => p ≠ q
  | .all,                .selectedChats _   => False
  | _,                   .selectedChats ids => ids = []
  | _,                   _                  => False

theorem chats_subset : (selectedChats ids).resources ⊆ S ↔ ∀ id ∈ ids, .chat id ∈ S := by
  constructor
  case mp  => exact fun h id hid => h ⟨id, hid, rfl⟩
  case mpr =>
    intro h _ ⟨id, hid, he⟩
    exact he ▸ h id hid

theorem origins_subset : (origins os).resources ⊆ S ↔ ∀ o ∈ os, .origin o ∈ S := by
  constructor
  case mp  => exact fun h o ho => h ⟨o, ho, rfl⟩
  case mpr =>
    intro h _ ⟨o, ho, he⟩
    exact he ▸ h o ho

theorem workspaces_subset : (workspace none).resources ⊆ S ↔ ∀ id, .workspace id ∈ S := by
  constructor
  case mp  => exact fun h id => h ⟨id, rfl⟩
  case mpr =>
    intro h _ ⟨id, he⟩
    exact he ▸ h id

-- No other scope than `all` gives access to everything.
theorem all_subset : (all : CapabilityScope P).resources ⊆ has.resources ↔ has = all := by
  constructor
  case mpr => exact fun h => h ▸ subset_rfl
  case mp  =>
    intro h
    have huser : Resource.user ∈ has.resources := h trivial
    have hcurrent : Resource.currentChat ∈ has.resources := h trivial
    cases has
    case all => rfl
    case workspace w => cases w <;> simp [resources] at huser
    all_goals simp [resources] at huser hcurrent

-- There are always more workspaces than one.
theorem workspaces_subset_workspace {w : Option String} :
    (workspace none : CapabilityScope P).resources ⊆ (workspace w).resources ↔ w = none := by
  rw [workspaces_subset]
  constructor
  case mpr =>
    intro h id
    rw [h]
    exact ⟨id, rfl⟩
  case mp =>
    intro h
    cases w
    case none => rfl
    case some id =>
      have h₁ := Resource.workspace.inj <| h ""
      have h₂ := Resource.workspace.inj <| h "a"
      exact absurd (h₁.trans h₂.symm) <| by decide

-- The scope `want` is not an empty list of origins, which the parser does not let through.
theorem covers_iff (hwant : want ≠ .origins []) :
    (covers has want ↔ want.resources ⊆ has.resources) ↔ ¬ Mismatch has want := by
  cases want
  case all => rw [all_subset]; cases has <;> simp [covers, Mismatch]
  case selectedChats ids =>
    rw [chats_subset]
    cases has
    case workspace w => cases w <;> simp [covers, Mismatch, resources, List.eq_nil_iff_forall_not_mem]
    all_goals simp [covers, Mismatch, resources, List.eq_nil_iff_forall_not_mem]
  case origins os =>
    have hsome : ∃ o, o ∈ os := List.exists_mem_of_ne_nil os fun h => hwant (h ▸ rfl)
    rw [origins_subset]
    cases has
    case workspace w => cases w <;> simp [covers, Mismatch, resources, hsome]
    all_goals simp [covers, Mismatch, resources, hsome]
  case workspace w =>
    cases w
    case none =>
      cases has
      case workspace w => rw [workspaces_subset_workspace]; cases w <;> simp [covers, Mismatch]
      all_goals rw [workspaces_subset]; simp [covers, Mismatch, resources]
    case some id =>
      cases has
      case workspace w => cases w <;> simp [covers, Mismatch, resources]
      all_goals simp [covers, Mismatch, resources]
  all_goals
    cases has
    case workspace w => cases w <;> simp [covers, Mismatch, resources]
    all_goals simp [covers, Mismatch, resources, eq_comm]

theorem covers_trans {mid : CapabilityScope P} (h₁ : covers has mid) (h₂ : covers mid want) : covers has want := by
  cases has
  case all => cases want <;> rfl
  all_goals
    cases mid <;> simp only [covers, Bool.false_eq_true] at h₁
    cases want <;> simp only [covers, Bool.false_eq_true] at h₂ ⊢
  case chat =>
    simp only [decide_eq_true_eq] at h₁ h₂ ⊢
    exact h₁.trans h₂
  case origins =>
    simp only [List.all_eq_true, List.contains_iff_mem] at h₁ h₂ ⊢
    exact fun o ho => h₁ o <| h₂ o ho

end CapabilityScope

open CapabilityScope

variable {grant : Option (CapabilityScope P)} {scope : Scope P} {want : CapabilityScope P} {name : String}

theorem parsed_ne_noOrigins (h : parseCapabilityScope scope = some want) : want ≠ .origins [] := by
  intro he
  rw [he] at h
  unfold parseCapabilityScope at h
  split at h <;> simp_all

theorem want_of_parsed (h : parseCapabilityScope scope = some want) :
    CapabilityRequest.want ⟨name, some scope⟩ = some want := by
  cases scope
  case text s       => exact h
  case descriptor d =>
    unfold parseCapabilityScope at h
    split at h <;> simp_all [CapabilityRequest.want]

-- Whether a grant, with the scope it carries if any, satisfies a request of its name.
def satisfies (name : String) (grant : Option (CapabilityScope P)) (scope : Scope P) : Bool :=
  grantSatisfies name (grant.map .descriptor) { name, scope := some scope }

-- A grant without a scope gives access to nothing.
def grantResources (grant : Option (CapabilityScope P)) : Set (Resource P) :=
  grant.elim ∅ CapabilityScope.resources

theorem satisfies_of_parsed (h : parseCapabilityScope scope = some want) :
    satisfies name grant scope = grant.any (covers · want) := by
  rw [satisfies, grantSatisfies, want_of_parsed h]
  cases grant <;> simp

theorem satisfies_of_unread {s : String} (h : parseCapabilityScope (.text s : Scope P) = none) :
    satisfies name grant (.text s) := by
  simp [satisfies, grantSatisfies, CapabilityRequest.want, h]

-- What is to hold of a grant and a scope that is requested.
def Judged (name : String) (grant : Option (CapabilityScope P)) (scope : Scope P) : Prop :=
  match parseCapabilityScope scope with
  | some want => satisfies name grant scope ↔ want.resources ⊆ grantResources grant
  | none      => satisfies name grant scope → grant = some .all

-- Apart from the mismatches of two scopes: texts that are no shorthand are taken for no scope at all,
-- descriptors are never parsed, and a grant without a scope covers not even nothing.
def Misjudged (grant : Option (CapabilityScope P)) (scope : Scope P) : Prop :=
  match parseCapabilityScope scope, scope, grant with
  | some want, _,             some has => has.Mismatch want
  | some want, _,             none     => want = .selectedChats []
  | none,      .text _,       _        => grant ≠ some .all
  | none,      .descriptor _, _        => ∃ os, grant = some (.origins os)

theorem resources_subset_empty (hwant : want ≠ .origins []) : want.resources ⊆ ∅ ↔ want = .selectedChats [] := by
  cases want
  case selectedChats ids =>
    rw [chats_subset]
    simp [List.eq_nil_iff_forall_not_mem]
  case origins os =>
    have ⟨o, ho⟩ := List.exists_mem_of_ne_nil os fun h => hwant (h ▸ rfl)
    simp only [origins_subset, reduceCtorEq, iff_false]
    exact fun h => h o ho
  case workspace w =>
    simp only [reduceCtorEq, iff_false]
    cases w
    case none    => exact fun h => h ⟨"", rfl⟩
    case some id => exact fun h => h rfl
  case all =>
    simp only [reduceCtorEq, iff_false]
    exact fun h => h (Set.mem_univ .user)
  all_goals
    simp only [reduceCtorEq, iff_false]
    exact fun h => h rfl

theorem judged_iff_of_parsed (h : parseCapabilityScope scope = some want) :
    Judged name grant scope ↔ ¬ Misjudged grant scope := by
  simp only [Judged, h, satisfies_of_parsed h, Misjudged]
  cases grant
  case some has => exact covers_iff <| parsed_ne_noOrigins h
  case none     =>
    have hempty := resources_subset_empty <| parsed_ne_noOrigins h
    simp [grantResources, hempty]

theorem judged_iff_of_unread (h : parseCapabilityScope scope = none) :
    Judged name grant scope ↔ ¬ Misjudged grant scope := by
  cases scope
  case text s =>
    simp [Judged, h, satisfies_of_unread h, Misjudged]
  case descriptor d =>
    have hd : d = .origins [] := by
      unfold parseCapabilityScope at h
      split at h <;> simp_all
    rw [hd] at h ⊢
    simp only [Judged, h, Misjudged, satisfies, grantSatisfies, CapabilityRequest.want]
    cases grant
    case none     => simp
    case some has => cases has <;> simp [covers]

-- Grants are judged by what their scopes stand for in all other cases, and satisfying is transitive
-- in any case.
theorem satisfies_exact : (Judged name grant scope ↔ ¬ Misjudged grant scope) ∧
    ∀ mid scope', parseCapabilityScope scope = some mid → satisfies name grant scope →
      satisfies name (some mid) scope' → satisfies name grant scope' := by
  constructor
  case left =>
    cases h : parseCapabilityScope scope
    case none      => exact judged_iff_of_unread h
    case some want => exact judged_iff_of_parsed h
  case right =>
    intro mid scope' hmid h₁ h₂
    rw [satisfies_of_parsed hmid] at h₁
    have ⟨has, hgrant, hcovers⟩ := Option.any_eq_true _ _ |>.mp h₁
    rw [hgrant]
    cases hwant : CapabilityRequest.want ⟨name, some scope'⟩
    case none => simp [satisfies, grantSatisfies, hwant]
    case some want =>
      simp only [satisfies, grantSatisfies, hwant, Option.map_some, decide_true, Bool.true_and] at h₂ ⊢
      exact covers_trans hcovers h₂

-- A selection of chats does not satisfy a request for one of them.
theorem satisfies_selected_chat :
    ¬ Judged "chats.read.selected" (some <| .selectedChats ["a", "b"] : Option (CapabilityScope Nat))
      (.descriptor <| .chat "a") := by
  intro h
  have hsubset : (CapabilityScope.chat "a" : CapabilityScope Nat).resources ⊆
      grantResources (some <| .selectedChats ["a", "b"]) := by
    intro r hr
    exact ⟨"a", by simp, hr⟩
  have hfalse := h.mpr hsubset
  exact absurd hfalse <| by decide

end Capability
