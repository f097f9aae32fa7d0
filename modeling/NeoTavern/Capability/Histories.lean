import Mathlib
import NeoTavern.Capability.Kernel

namespace Capability

section Consents

variable {P : Type} [Origins]

-- What the user agrees to in an event: a grant of that name and scope.
def Event.Consents (p name : String) (scope : Option (Scope P)) : Event P → Prop
  | .grantRuntime pluginId request _ => pluginId = p ∧
    ∃ parsed ∈ parseCapability request.name, parsed.name = name ∧
      scope = Broker.runtimeScope request parsed
  | .grantConsented pluginId manifest permissions _ => pluginId = p ∧
    ∃ request ∈ manifest.requiredCapabilities ++ manifest.optionalCapabilities, request.name = name ∧
      ∃ raw ∈ permissions, (raw = name ∧ scope = request.scope) ∨
        ∃ parsed ∈ parseCapability raw, grantSatisfies parsed.name parsed.scope request ∧
          scope = parsed.scope
  | _ => False

def Event.Approves (p name : String) (e : Event P) : Prop :=
  ∃ scope, e.Consents p name scope

omit [Origins] in
def Event.Revokes (p name : String) : Event P → Prop
  | .revoke pluginId n _    => pluginId = p ∧ n = name
  | .revokeAll pluginId _   => pluginId = p
  | _                       => False

omit [Origins] in
instance {p name : String} {e : Event P} : Decidable (e.Revokes p name) :=
  match e with
  | .revoke ..         => instDecidableAnd
  | .revokeAll ..      => instDecidableEqString ..
  | .grantConsented .. => .isFalse id
  | .grantRuntime ..   => .isFalse id

end Consents

namespace Broker

variable {P : Type} {s t : Broker P} {p name : String}

section Repository

theorem isFor_iff {e : GrantEntry P} : e.isFor p name ↔ e.pluginId = p ∧ e.name = name := by
  simp [GrantEntry.isFor]

-- What a map that leaves the keys alone does to a row.
theorem find?_map {f : GrantEntry P → GrantEntry P} {xs : List (GrantEntry P)}
    (hf : ∀ e, (f e).isFor p name = e.isFor p name) :
    (xs.map f).find? (·.isFor p name) = (xs.find? (·.isFor p name)).map f := by
  rw [List.find?_map]
  congr 2
  funext e
  exact hf e

theorem get_grant (s : Broker P) (p name q n : String) (scope : Option (Scope P)) (now : Int) :
    (q = p ∧ n = name ∧ ∃ e, (s.grant p name scope now).get q n = some e ∧ e.scope = scope ∧
      e.revokedAt = none) ∨
    (¬(q = p ∧ n = name) ∧ (s.grant p name scope now).get q n = s.get q n) := by
  by_cases heq : q = p ∧ n = name
  case pos =>
    obtain ⟨rfl, rfl⟩ := heq
    refine .inl ⟨rfl, rfl, ?_⟩
    unfold grant
    split
    case isTrue h =>
      have ⟨e, he⟩ := Option.isSome_iff_exists.mp h
      have hfor : e.isFor q n := by
        have := List.find?_some he
        exact this
      rw [get, find?_map, ← get, he]
      · exact ⟨_, rfl, by simp [hfor], by simp [hfor]⟩
      · intro e
        split <;> rfl
    case isFalse h =>
      have hnone : s.get q n = none := by simpa using h
      rw [get, List.find?_append, ← get, hnone]
      refine ⟨{ pluginId := q, name := n, scope, grantedAt := now }, ?_, rfl, rfl⟩
      simp [GrantEntry.isFor]
  case neg =>
    refine .inr ⟨heq, ?_⟩
    unfold grant
    split
    case isTrue h =>
      rw [get, find?_map, ← get]
      · cases hget : s.get q n
        case none   => rfl
        case some e =>
          have hfor : e.isFor q n := by
            have := List.find?_some hget
            exact this
          have hno : e.isFor p name = false := by
            have := isFor_iff.mp hfor
            refine Bool.eq_false_iff.mpr fun h => heq ?_
            have := isFor_iff.mp h
            simp_all
          rw [Option.map_some, hno]
          rfl
      · intro e
        split <;> rfl
    case isFalse h =>
      rw [get, List.find?_append, ← get]
      have : GrantEntry.isFor { pluginId := p, name, scope, grantedAt := now } q n = false := by
        refine Bool.eq_false_iff.mpr fun h => heq ?_
        have := isFor_iff.mp h
        simp_all
      simp [this]

def key (e : GrantEntry P) : String × String :=
  (e.pluginId, e.name)

-- What always holds of the table: the unique index, and nothing sets a date of expiry.
structure Sound (s : Broker P) : Prop where
  unique  : (s.grants.map key).Nodup
  lasting : ∀ e ∈ s.grants, e.expiresAt = none

theorem Sound.get_of_mem {e : GrantEntry P} (h : s.Sound) (he : e ∈ s.grants) :
    s.get e.pluginId e.name = some e := by
  cases hget : s.get e.pluginId e.name
  case none =>
    have := List.find?_eq_none.mp hget e he
    simp [GrantEntry.isFor] at this
  case some e' =>
    have hm := List.mem_of_find?_eq_some hget
    have hfor := List.find?_some hget
    have ⟨hp, hn⟩ := isFor_iff.mp hfor
    rw [List.inj_on_of_nodup_map h.unique hm he <| by rw [key, key, hp, hn]]

theorem Sound.isActive {e : GrantEntry P} (h : s.Sound) (he : s.get p name = some e) (now : Int) :
    e.isActive now = e.revokedAt.isNone := by
  rw [GrantEntry.isActive, h.lasting e (List.mem_of_find?_eq_some he)]
  simp

theorem Sound.map {f : GrantEntry P → GrantEntry P} {events : List CapabilityRevokedPayload}
    (h : s.Sound) (hk : ∀ e, key (f e) = key e) (hf : ∀ e, e.expiresAt = none → (f e).expiresAt = none) :
    Sound { grants := s.grants.map f, events } := by
  constructor
  case unique =>
    have : key ∘ f = (key : GrantEntry P → _) := funext hk
    rw [List.map_map, this]
    exact h.unique
  case lasting =>
    intro e he
    have ⟨x, hx, hxe⟩ := List.mem_map.mp he
    exact hxe ▸ hf x (h.lasting x hx)

theorem Sound.grant {scope : Option (Scope P)} {now : Int} (h : s.Sound) :
    (s.grant p name scope now).Sound := by
  unfold Broker.grant
  split
  case isTrue =>
    refine h.map (fun e => ?_) fun e he => ?_
    · split <;> rfl
    · split
      · rfl
      · exact he
  case isFalse hn =>
    constructor
    case unique =>
      rw [List.map_append, List.nodup_append]
      refine ⟨h.unique, List.nodup_singleton _, ?_⟩
      rintro _ hx _ hy rfl
      have ⟨e, he, hkey⟩ := List.mem_map.mp hx
      have hkey := hkey.trans <| List.mem_singleton.mp hy
      have hfor : e.isFor p name := isFor_iff.mpr <| Prod.mk.inj hkey
      exact hn <| List.find?_isSome.mpr ⟨e, he, hfor⟩
    case lasting =>
      intro e he
      rcases List.mem_append.mp he with he | he
      · exact h.lasting e he
      · rw [List.mem_singleton.mp he]

-- Whether there is a grant that is not revoked.
def Held (s : Broker P) (p name : String) : Prop :=
  ∃ e, s.get p name = some e ∧ e.revokedAt = none

end Repository

-- A step that issues at most one grant, for what has none and with what is `ok`.
inductive Issues (p : String) (ok : String → Option (Scope P) → Prop) (s : Broker P) :
    Broker P → Prop
  | same : Issues p ok s s
  | grant (n : String) (scope : Option (Scope P)) (now : Int) (hn : ¬s.Held p n) (hok : ok n scope) :
    Issues p ok s (s.grant p n scope now)

section Issues

variable {ok : String → Option (Scope P) → Prop} {q n : String} {row : GrantEntry P}

theorem Issues.sound (h : s.Issues p ok t) (hs : s.Sound) : t.Sound := by
  cases h
  case same  => exact hs
  case grant => exact hs.grant

theorem Issues.mono {ok' : String → Option (Scope P) → Prop} (h : s.Issues p ok t)
    (hm : ∀ n scope, ok n scope → ok' n scope) : s.Issues p ok' t := by
  cases h
  case same                    => exact .same
  case grant n scope now hn ho => exact .grant n scope now hn <| hm n scope ho

-- A grant that is not revoked stays as it is.
theorem Issues.keeps (h : s.Issues p ok t) (hget : s.get q n = some row) (hrev : row.revokedAt = none) :
    t.get q n = some row := by
  cases h
  case same => exact hget
  case grant m scope now hn hok =>
    rcases get_grant s p m q n scope now with ⟨rfl, rfl, _⟩ | ⟨_, heq⟩
    · exact absurd ⟨row, hget, hrev⟩ hn
    · exact heq.trans hget

theorem Issues.origin (h : s.Issues p ok t) (hget : t.get q n = some row) :
    s.get q n = some row ∨ (q = p ∧ ok n row.scope) := by
  cases h
  case same => exact .inl hget
  case grant m scope now hn hok =>
    rcases get_grant s p m q n scope now with ⟨rfl, rfl, e, he, hscope, _⟩ | ⟨_, heq⟩
    · cases he.symm.trans hget
      exact .inr ⟨rfl, hscope ▸ hok⟩
    · exact .inl <| heq.symm.trans hget

-- Any number of such steps.
abbrev IssuesAll (p : String) (ok : String → Option (Scope P) → Prop) : Broker P → Broker P → Prop :=
  Relation.ReflTransGen (Issues p ok)

theorem IssuesAll.sound (h : IssuesAll p ok s t) (hs : s.Sound) : t.Sound := by
  induction h
  case refl          => exact hs
  case tail _ hi ih  => exact hi.sound ih

theorem IssuesAll.keeps (h : IssuesAll p ok s t) (hget : s.get q n = some row)
    (hrev : row.revokedAt = none) : t.get q n = some row := by
  induction h
  case refl         => exact hget
  case tail _ hi ih => exact hi.keeps ih hrev

theorem IssuesAll.origin (h : IssuesAll p ok s t) (hget : t.get q n = some row) :
    s.get q n = some row ∨ (q = p ∧ ok n row.scope) := by
  induction h
  case refl         => exact .inl hget
  case tail _ hi ih => exact (hi.origin hget).elim ih .inr

end Issues

section Issue

variable [Origins] {request : CapabilityRequest P} {permissions : List String} {now : Int}

theorem consentFor_eq_some {c : CapabilityRequest P} (h : consentFor request permissions = some c) :
    ∃ raw ∈ permissions, (raw = request.name ∧ c.scope = request.scope) ∨
      ∃ parsed ∈ parseCapability raw, grantSatisfies parsed.name parsed.scope request ∧
        c.scope = parsed.scope := by
  have ⟨raw, hraw, hc⟩ := List.exists_of_findSome?_eq_some h
  refine ⟨raw, hraw, ?_⟩
  split at hc
  case isTrue heq =>
    cases hc
    exact .inl ⟨heq, rfl⟩
  case isFalse =>
    split at hc
    case h_2 => cases hc
    case h_1 parsed hp =>
      split at hc
      case isFalse => cases hc
      case isTrue hsat =>
        cases hc
        exact .inr ⟨_, hp, hsat, rfl⟩

theorem consentFor_isSome {raw : String} (hraw : raw ∈ permissions) (h : raw = request.name ∨
    ∃ parsed ∈ parseCapability raw, grantSatisfies parsed.name parsed.scope request) :
    (consentFor request permissions).isSome := by
  refine List.findSome?_isSome_iff.mpr ⟨raw, hraw, ?_⟩
  split
  case isTrue      => rfl
  case isFalse hne =>
    have ⟨parsed, hp, hsat⟩ := h.resolve_left hne
    rw [hp]
    simp [hsat]

-- A request of a manifest has an active grant, no consent, or gets a new grant.
theorem grantRequest_cases (issued : List (CapabilityGrant P)) (h : s.Sound) :
    ((grantRequest permissions p now (s, issued) request).fst = s ∧
      (s.Held p request.name ∨ consentFor request permissions = none)) ∨
    ∃ consent, consentFor request permissions = some consent ∧ ¬s.Held p request.name ∧
      (grantRequest permissions p now (s, issued) request).fst =
        s.grant p request.name consent.scope now := by
  unfold grantRequest
  split
  case h_1 e he =>
    have ⟨he, hact⟩ := Option.filter_eq_some_iff.mp he
    rw [h.isActive he] at hact
    exact .inl ⟨rfl, .inl ⟨e, he, Option.isNone_iff_eq_none.mp hact⟩⟩
  case h_2 hn =>
    have hheld : ¬s.Held p request.name := by
      rintro ⟨e, he, hrev⟩
      have := Option.filter_eq_none_iff.mp hn e he
      simp [h.isActive he, hrev] at this
    split
    case h_1 consent hc => exact .inr ⟨consent, hc, hheld, rfl⟩
    case h_2 hc         => exact .inl ⟨rfl, .inr hc⟩

theorem grantRequest_issues (permissions : List String) (p : String) (now : Int)
    (request : CapabilityRequest P) (issued : List (CapabilityGrant P)) (h : s.Sound) : s.Issues p
    (fun n scope => n = request.name ∧ ∃ c ∈ consentFor request permissions, scope = c.scope)
      (grantRequest permissions p now (s, issued) request).fst := by
  rcases grantRequest_cases issued h with ⟨heq, _⟩ | ⟨c, hc, hn, heq⟩
  · rw [heq]
    exact .same
  · rw [heq]
    exact .grant _ _ _ hn ⟨rfl, c, hc, rfl⟩

theorem grantRequest_held (issued : List (CapabilityGrant P)) (h : s.Sound)
    (hc : (consentFor request permissions).isSome) :
    (grantRequest permissions p now (s, issued) request).fst.Held p request.name := by
  rcases grantRequest_cases issued h with ⟨heq, hheld | hnone⟩ | ⟨c, _, _, heq⟩
  · rw [heq]
    exact hheld
  · rw [hnone] at hc
    cases hc
  · rw [heq]
    rcases get_grant s p request.name p request.name c.scope now with ⟨_, _, e, he, _, hrev⟩ | ⟨hne, _⟩
    · exact ⟨e, he, hrev⟩
    · exact absurd ⟨rfl, rfl⟩ hne

variable {requests : List (CapabilityRequest P)} {ok : String → Option (Scope P) → Prop}

theorem grantRequests_issues (now : Int) (issued : List (CapabilityGrant P)) (h : s.Sound)
    (hok : ∀ request ∈ requests, ∀ c ∈ consentFor request permissions, ok request.name c.scope) :
    IssuesAll p ok s (requests.foldl (grantRequest permissions p now) (s, issued)).fst := by
  induction requests generalizing s issued
  case nil => exact .refl
  case cons request requests ih =>
    have hi := grantRequest_issues permissions p now request issued h
    have hone : s.Issues p ok (grantRequest permissions p now (s, issued) request).fst := by
      apply hi.mono
      rintro n scope ⟨rfl, c, hc, rfl⟩
      exact hok request List.mem_cons_self c hc
    exact .head hone <| ih _ (hone.sound h) fun r hr => hok r (List.mem_cons_of_mem _ hr)

theorem grantRequests_held (issued : List (CapabilityGrant P)) (h : s.Sound)
    (hr : request ∈ requests) (hc : (consentFor request permissions).isSome) :
    (requests.foldl (grantRequest permissions p now) (s, issued)).fst.Held p request.name := by
  induction requests generalizing s issued
  case nil => cases hr
  case cons r requests ih =>
    have hs := (grantRequest_issues permissions p now r issued h).sound h
    rcases List.mem_cons.mp hr with rfl | hr
    · have ⟨e, he, hrev⟩ : (grantRequest permissions p now (s, issued) request).fst.Held p _ :=
        grantRequest_held issued h hc
      have hi : IssuesAll p (fun _ _ => True) (grantRequest permissions p now (s, issued) request).fst
          (requests.foldl (grantRequest permissions p now)
            (grantRequest permissions p now (s, issued) request)).fst :=
        grantRequests_issues now _ hs fun _ _ _ _ => trivial
      exact ⟨e, hi.keeps he hrev, hrev⟩
    · exact ih _ hs hr

theorem grantRuntime_cases (s : Broker P) (p : String) (request : CapabilityRequest P) (now : Int)
    (h : s.Sound) :
    (parseCapability (P := P) request.name = none ∧ s.grantRuntime p request now = (s, none)) ∨
      ∃ parsed, parseCapability request.name = some parsed ∧
        ((∃ e, s.get p parsed.name = some e ∧ e.revokedAt = none ∧
            s.grantRuntime p request now = (s, some e.toGrant)) ∨
          (¬s.Held p parsed.name ∧ (s.grantRuntime p request now).fst =
            s.grant p parsed.name (runtimeScope request parsed) now)) := by
  unfold grantRuntime
  split
  case h_1 hn        => exact .inl ⟨hn, rfl⟩
  case h_2 parsed hp =>
    refine .inr ⟨parsed, hp, ?_⟩
    split
    case h_1 e he =>
      have ⟨he, hact⟩ := Option.filter_eq_some_iff.mp he
      rw [h.isActive he] at hact
      exact .inl ⟨e, he, Option.isNone_iff_eq_none.mp hact, rfl⟩
    case h_2 hn =>
      refine .inr ⟨?_, rfl⟩
      rintro ⟨e, he, hrev⟩
      have := Option.filter_eq_none_iff.mp hn e he
      simp [h.isActive he, hrev] at this

end Issue

section Steps

variable [Origins] {e : Event P} {es : List (Event P)} {n : String} {row : GrantEntry P}

-- Whether an event is a revocation, or it issues what the user agrees to in it.
theorem step_issues (h : s.Sound) : (∃ p name now, e = .revoke p name now) ∨
    (∃ p now, e = .revokeAll p now) ∨ ∃ p, IssuesAll p (fun n scope => e.Consents p n scope) s (s.step e) := by
  cases e
  case revoke p name now => exact .inl ⟨_, _, _, rfl⟩
  case revokeAll p now   => exact .inr <| .inl ⟨_, _, rfl⟩
  case grantConsented p manifest permissions now =>
    refine .inr <| .inr ⟨p, grantRequests_issues now [] h fun request hr c hc => ?_⟩
    have ⟨raw, hraw, hor⟩ := consentFor_eq_some hc
    exact ⟨rfl, request, hr, rfl, raw, hraw, hor⟩
  case grantRuntime p request now =>
    refine .inr <| .inr ⟨p, ?_⟩
    rcases grantRuntime_cases s p request now h with ⟨_, heq⟩ | ⟨parsed, hp, ⟨_, _, _, heq⟩ | ⟨hn, heq⟩⟩
    · rw [step, heq]
    · rw [step, heq]
    · rw [step, heq]
      exact .single <| .grant _ _ _ hn ⟨rfl, parsed, hp, rfl, rfl⟩

omit [Origins] in
theorem get_revoke (s : Broker P) (p name q n : String) (now : Int) :
    ((s.revoke p name now).fst.get q n) = (s.get q n).map fun e =>
      if e.isFor p name && e.revokedAt.isNone then { e with revokedAt := some now } else e := by
  unfold revoke
  split
  case h_2 =>
    refine find?_map fun e => ?_
    split <;> rfl
  case h_1 hn =>
    cases hget : s.get q n
    case none   => rfl
    case some e =>
      rw [Option.map_some, if_neg]
      intro h
      have ⟨hfor, hrev⟩ := Bool.and_eq_true_iff.mp h
      have hfor' : e.isFor q n := by
        have := List.find?_some hget
        exact this
      obtain ⟨rfl, rfl⟩ := isFor_iff.mp hfor
      obtain ⟨rfl, rfl⟩ := isFor_iff.mp hfor'
      have := Option.filter_eq_none_iff.mp hn e hget
      exact this hrev

omit [Origins] in
theorem get_revokeAll (s : Broker P) (p q n : String) (now : Int) :
    ((s.revokeAll p now).fst.get q n) = (s.get q n).map fun e =>
      if e.pluginId = p && e.revokedAt.isNone then { e with revokedAt := some now } else e := by
  refine find?_map fun e => ?_
  split <;> rfl

-- What a revocation leaves of a row.
theorem get_step_revokes (hr : e.Revokes p n) (hget : (s.step e).get p n = some row) :
    row.revokedAt ≠ none := by
  have hfor {e : GrantEntry P} (he : s.get p n = some e) : e.isFor p n := by
    have := List.find?_some he
    exact this
  cases e
  case grantConsented => cases hr
  case grantRuntime   => cases hr
  case revoke p' n' now =>
    obtain ⟨rfl, rfl⟩ := hr
    rw [step, get_revoke] at hget
    have ⟨x, hx, hxe⟩ := Option.map_eq_some_iff.mp hget
    rw [hfor hx, Bool.true_and] at hxe
    split at hxe
    · exact hxe ▸ nofun
    case isFalse hnone => exact hxe ▸ fun h => hnone (by simp [h])
  case revokeAll p' now =>
    obtain rfl := hr
    rw [step, get_revokeAll] at hget
    have ⟨x, hx, hxe⟩ := Option.map_eq_some_iff.mp hget
    rw [(isFor_iff.mp <| hfor hx).left, decide_eq_true rfl, Bool.true_and] at hxe
    split at hxe
    · exact hxe ▸ nofun
    case isFalse hnone => exact hxe ▸ fun h => hnone (by simp [h])

theorem get_step_spares (hs : s.Sound) (hr : ¬e.Revokes p n) :
    (s.step e).get p n = s.get p n ∨
      ∃ q, IssuesAll q (fun n scope => e.Consents q n scope) s (s.step e) := by
  have hfor {e : GrantEntry P} (he : s.get p n = some e) : e.pluginId = p ∧ e.name = n := by
    have := List.find?_some he
    exact isFor_iff.mp this
  rcases step_issues (e := e) hs with ⟨p', n', now, rfl⟩ | ⟨p', now, rfl⟩ | hi
  · left
    rw [step, get_revoke]
    cases hget : s.get p n
    case none   => rfl
    case some x =>
      obtain ⟨rfl, rfl⟩ := hfor hget
      have hno : x.isFor p' n' = false :=
        Bool.eq_false_iff.mpr fun h => hr <| (isFor_iff.mp h).imp Eq.symm Eq.symm
      rw [Option.map_some, hno]
      rfl
  · left
    rw [step, get_revokeAll]
    cases hget : s.get p n
    case none   => rfl
    case some x =>
      obtain ⟨rfl, rfl⟩ := hfor hget
      have hno : x.pluginId ≠ p' := fun h => hr h.symm
      simp [hno]
  · exact .inr hi

theorem Sound.step (h : s.Sound) : (s.step e).Sound := by
  rcases step_issues (e := e) h with ⟨p, n, now, rfl⟩ | ⟨p, now, rfl⟩ | ⟨p, hi⟩
  · rw [Broker.step, revoke]
    split
    · exact h
    · refine h.map (fun e => ?_) fun e he => ?_
      · split <;> rfl
      · split <;> exact he
  · refine h.map (fun e => ?_) fun e he => ?_
    · split <;> rfl
    · split <;> exact he
  · exact hi.sound h

theorem keeps_step (h : s.Sound) (hr : ¬e.Revokes p n) (hget : s.get p n = some row)
    (hrev : row.revokedAt = none) : (s.step e).get p n = some row := by
  rcases get_step_spares h hr with heq | ⟨q, hi⟩
  · rw [heq, hget]
  · exact hi.keeps hget hrev

theorem origin_step (h : s.Sound) (hget : (s.step e).get p n = some row) (hrev : row.revokedAt = none) :
    (s.get p n = some row ∧ ¬e.Revokes p n) ∨ e.Consents p n row.scope := by
  by_cases hr : e.Revokes p n
  case pos => exact absurd hrev <| get_step_revokes hr hget
  case neg =>
    rcases get_step_spares h hr with heq | ⟨q, hi⟩
    · exact .inl ⟨heq.symm.trans hget, hr⟩
    · rcases hi.origin hget with hold | ⟨rfl, hc⟩
      · exact .inl ⟨hold, hr⟩
      · exact .inr hc

theorem held_of_approves (h : s.Sound) (ha : e.Approves p n) : (s.step e).Held p n := by
  have ⟨scope, hc⟩ := ha
  cases e
  case revoke    => cases hc
  case revokeAll => cases hc
  case grantConsented p' manifest permissions now =>
    obtain ⟨rfl, request, hr, rfl, raw, hraw, hor⟩ := hc
    exact grantRequests_held [] h hr <| consentFor_isSome hraw <|
      hor.imp And.left fun ⟨parsed, hp, hsat, _⟩ => ⟨parsed, hp, hsat⟩
  case grantRuntime p' request now =>
    obtain ⟨rfl, parsed, hp, rfl, _⟩ := hc
    rcases grantRuntime_cases s p' request now h with ⟨hn, _⟩ | ⟨q, hq, hor⟩
    · cases hn.symm.trans hp
    · cases hq.symm.trans hp
      rcases hor with ⟨x, hx, hrev, heq⟩ | ⟨_, heq⟩
      · rw [step, heq]
        exact ⟨x, hx, hrev⟩
      · rw [step, heq]
        rcases get_grant s p' parsed.name p' parsed.name (runtimeScope request parsed) now with
          ⟨_, _, x, hx, _, hrev⟩ | ⟨hne, _⟩
        · exact ⟨x, hx, hrev⟩
        · exact absurd ⟨rfl, rfl⟩ hne

-- Whether a grant is held is decided by the last event that has to do with it.
theorem held_step_iff (h : s.Sound) :
    (s.step e).Held p n ↔ e.Approves p n ∨ (s.Held p n ∧ ¬e.Revokes p n) := by
  constructor
  · intro ⟨row, hget, hrev⟩
    rcases origin_step h hget hrev with ⟨hold, hr⟩ | hc
    · exact .inr ⟨⟨row, hold, hrev⟩, hr⟩
    · exact .inl ⟨_, hc⟩
  · rintro (ha | ⟨⟨row, hget, hrev⟩, hr⟩)
    · exact held_of_approves h ha
    · exact ⟨row, keeps_step h hr hget hrev, hrev⟩

end Steps

section Runs

variable [Origins] {e : Event P} {es fs : List (Event P)} {n : String} {row : GrantEntry P}

omit [Origins] in
theorem sound_nil : ({} : Broker P).Sound :=
  ⟨.nil, nofun⟩

theorem Sound.run (h : s.Sound) : (s.run es).Sound := by
  induction es generalizing s
  case nil => exact h
  case cons e es ih => exact ih h.step

theorem run_append : s.run (es ++ fs) = (s.run es).run fs :=
  List.foldl_append ..

-- A grant that is not revoked goes back to an event in which the user agreed to it.
theorem origin_run (hget : (({} : Broker P).run es).get p n = some row) (hrev : row.revokedAt = none) :
    ∃ e ∈ es, e.Consents p n row.scope := by
  induction es using List.reverseRecOn
  case nil => cases hget
  case append_singleton es e ih =>
    rw [run_append] at hget
    rcases origin_step sound_nil.run hget hrev with ⟨hold, _⟩ | hc
    · have ⟨x, hx, hc⟩ := ih hold
      exact ⟨x, List.mem_append_left _ hx, hc⟩
    · exact ⟨e, List.mem_append_right _ List.mem_cons_self, hc⟩

theorem held_run_iff : (({} : Broker P).run es).Held p n ↔
    ∃ xs e ys, es = xs ++ e :: ys ∧ e.Approves p n ∧ ∀ x ∈ ys, ¬x.Revokes p n := by
  induction es using List.reverseRecOn
  case nil =>
    refine iff_of_false (fun ⟨_, hget, _⟩ => ?_) fun ⟨xs, e, ys, hes, _⟩ => ?_
    · cases hget
    · simp at hes
  case append_singleton es e ih =>
    have hstep : (({} : Broker P).run (es ++ [e])).Held p n ↔
        e.Approves p n ∨ ((({} : Broker P).run es).Held p n ∧ ¬e.Revokes p n) := by
      rw [run_append]
      exact held_step_iff sound_nil.run
    rw [hstep, ih]
    constructor
    · rintro (ha | ⟨⟨xs, x, ys, rfl, hx, hys⟩, hr⟩)
      · exact ⟨es, e, [], rfl, ha, nofun⟩
      · refine ⟨xs, x, ys ++ [e], by simp, hx, fun y hy => ?_⟩
        rcases List.mem_append.mp hy with hy | hy
        · exact hys y hy
        · rwa [List.mem_singleton.mp hy]
    · rintro ⟨xs, x, ys, hes, hx, hys⟩
      rcases List.eq_nil_or_concat' ys with rfl | ⟨ys, y, rfl⟩
      · cases (List.append_inj' hes rfl).right
        exact .inl hx
      · rw [← List.cons_append, ← List.append_assoc] at hes
        have ⟨hl, hr⟩ := List.append_inj' hes rfl
        cases hr
        exact .inr ⟨⟨xs, x, ys, hl, hx, fun z hz => hys z <| List.mem_append_left _ hz⟩,
          hys e <| List.mem_append_right _ List.mem_cons_self⟩

theorem keeps_run (h : s.Sound) (hr : ∀ e ∈ es, ¬e.Revokes p n) (hget : s.get p n = some row)
    (hrev : row.revokedAt = none) : (s.run es).get p n = some row := by
  induction es generalizing s
  case nil => exact hget
  case cons e es ih =>
    exact ih h.step (fun x hx => hr x <| List.mem_cons_of_mem _ hx) <|
      keeps_step h (hr e List.mem_cons_self) hget hrev

omit [Origins] in
theorem Sound.check_iff {r : CapabilityRequest P} {now : Int} (h : s.Sound) : s.check p r now ↔
    ∃ row, s.get p r.name = some row ∧ row.revokedAt = none ∧ grantSatisfies row.name row.scope r := by
  unfold check
  split
  case h_1 row hget =>
    rw [h.isActive hget, Bool.and_eq_true, Option.isNone_iff_eq_none, hget]
    simp
  case h_2 hnone =>
    rw [hnone]
    simp

omit [Origins] in
theorem name_of_get (hget : s.get p n = some row) : row.name = n := by
  have := List.find?_some hget
  exact (isFor_iff.mp this).right

end Runs

end Broker

section Requests

variable {P : Type}

-- The kind of a descriptor.
def CapabilityScope.kind : CapabilityScope P → String
  | .currentChat     => "current-chat"
  | .selectedChats _ => "selected-chats"
  | .chat _          => "chat"
  | .all             => "all"
  | .user            => "user"
  | .workspace _     => "workspace"
  | .installation    => "installation"
  | .origins _       => "origins"
  | .custom _        => "custom"

-- What a descriptor lets through at most: what is of its kind, and of chats and origins its own.
structure CapabilityScope.Reaches (has want : CapabilityScope P) : Prop where
  kind    : has = .all ∨ has.kind = want.kind
  chat    : ∀ a b, has = .chat a → want = .chat b → a = b
  origins : ∀ as bs, has = .origins as → want = .origins bs → ∀ b ∈ bs, b ∈ as

theorem reaches_of_covers {has want : CapabilityScope P} (h : covers has want) : has.Reaches want := by
  cases has <;> cases want <;> simp only [covers, Bool.false_eq_true] at h
  all_goals constructor <;> simp_all [CapabilityScope.kind]

theorem covers_self (d : CapabilityScope P) : covers d d := by
  cases d <;> simp [covers]

-- A scope that is valid covers itself once it has been parsed.
theorem grantSatisfies_parsed {r : CapabilityRequest P} {d : Option (Scope P)} (hname : n = r.name)
    (hv : ∀ sc ∈ r.scope, parseCapabilityScope sc ≠ none) :
    grantSatisfies n ((r.scope.bind parseCapabilityScope).map .descriptor <|> d) r := by
  rcases r with ⟨name, scope⟩
  obtain rfl := hname
  cases scope
  case none => simp [grantSatisfies, CapabilityRequest.want]
  case some sc =>
    have ⟨c, hc⟩ := Option.ne_none_iff_exists'.mp <| hv sc rfl
    have hwant : CapabilityRequest.want ⟨n, some sc⟩ = some c := by
      cases sc
      case text t       => exact hc
      case descriptor t =>
        have : t = c := by
          unfold parseCapabilityScope at hc
          split at hc <;> simp_all
        exact congrArg some this
    simp [grantSatisfies, hwant, hc, covers_self]

-- The names of the catalog stand for themselves.
theorem parseCapability_name [Origins] (hn : n ∈ capabilityNames) :
    parseCapability (P := P) n = some { name := n } := by
  have h : ∀ n ∈ capabilityNames, trim n = n ∧ n ≠ "" ∧ Wire.utf16Length n ≤ 128 ∧
      ¬"network:".toList <+: n.toList ∧ n ≠ "files:plugin" ∧ n ≠ "files:user-selected" ∧
        n ≠ "legacy.trusted" := by
    simp only [capabilityNames, List.forall_mem_cons]
    and_intros <;> decide +kernel
  have ⟨htrim, hempty, hlen, hnet, hplugin, hpicked, htrusted⟩ := h n hn
  unfold parseCapability
  rw [htrim, if_neg, if_neg hnet, if_neg hplugin, if_neg hpicked, if_neg htrusted, if_pos hn]
  simp [hempty, hlen]

end Requests

namespace Broker

variable {P : Type} [Origins] {s : Broker P} {p : String} {e : GrantEntry P}

omit [Origins] in
theorem mem_activeGrants (h : s.Sound) {g : CapabilityGrant P} {now : Int} :
    g ∈ s.activeGrants p now ↔ ∃ e, s.get p g.name = some e ∧ e.revokedAt = none ∧ e.toGrant = g := by
  simp only [activeGrants, listActive, List.mem_map, List.mem_mergeSort, List.mem_filter,
    Bool.and_eq_true, decide_eq_true_eq]
  constructor
  · rintro ⟨e, ⟨he, rfl, hact⟩, rfl⟩
    have hget := h.get_of_mem he
    rw [h.isActive hget] at hact
    exact ⟨e, hget, Option.isNone_iff_eq_none.mp hact, rfl⟩
  · rintro ⟨e, hget, hrev, rfl⟩
    have hfor := List.find?_some hget
    refine ⟨e, ⟨List.mem_of_find?_eq_some hget, (isFor_iff.mp hfor).left, ?_⟩, rfl⟩
    rw [h.isActive hget, hrev]
    rfl

-- A runtime grant of a request for a name of the catalog returns the active grant, or a new one with
-- the scope that was asked for.
theorem grantRuntime_spec (h : s.Sound) {r : CapabilityRequest P} (hn : r.name ∈ capabilityNames)
    (now : Int) : ∃ e, (s.grantRuntime p r now).fst.get p r.name = some e ∧ e.revokedAt = none ∧
      (s.grantRuntime p r now).snd = some e.toGrant ∧
        ((s.get p r.name = some e) ∨
          (¬s.Held p r.name ∧ e.scope = (r.scope.bind parseCapabilityScope).map .descriptor)) := by
  have hparse : parseCapability (P := P) r.name = some { name := r.name } := parseCapability_name hn
  unfold grantRuntime
  rw [hparse]
  dsimp only
  cases hf : (s.get p r.name).filter (·.isActive now)
  case some e =>
    have ⟨hget, hact⟩ := Option.filter_eq_some_iff.mp hf
    rw [h.isActive hget] at hact
    exact ⟨e, hget, Option.isNone_iff_eq_none.mp hact, rfl, .inl hget⟩
  case none =>
    have hheld : ¬s.Held p r.name := by
      rintro ⟨e, he, hrev⟩
      have := Option.filter_eq_none_iff.mp hf e he
      simp [h.isActive he, hrev] at this
    have hnew := get_grant s p r.name p r.name (runtimeScope r { name := r.name }) now
    have ⟨_, _, e, hget, hscope, hrev⟩ := hnew.resolve_right fun ⟨hne, _⟩ => hne ⟨rfl, rfl⟩
    refine ⟨e, hget, hrev, ?_, .inr ⟨hheld, ?_⟩⟩
    · dsimp only
      rw [hget, Option.map_some]
    · rw [hscope, runtimeScope]
      simp

-- What the user has approved decides over the grants of a plugin in every history: (1) a runtime
-- approval lets its request through unless an older grant is still active that does not cover it,
-- (2) each active grant has been agreed to, and reaches no further than its scope, and (3) a name is
-- granted exactly if it has not been revoked since it was last approved.
theorem approvals_decide (es : List (Event P)) (p : String) :
    (∀ r now fs now', r.name ∈ capabilityNames → (∀ sc ∈ r.scope, parseCapabilityScope sc ≠ none) →
      (∀ e ∈ fs, ¬Event.Revokes p r.name e) →
        ((({} : Broker P).run es).grantRuntime p r now).snd.isSome ∧
          ((({} : Broker P).run (es ++ .grantRuntime p r now :: fs)).check p r now' ↔
            ∀ e, (({} : Broker P).run es).get p r.name = some e → e.revokedAt = none →
              grantSatisfies e.name e.scope r)) ∧
    (∀ now, ∀ g ∈ (({} : Broker P).run es).activeGrants p now, ∃ e ∈ es, e.Consents p g.name g.scope) ∧
    (∀ r now, (({} : Broker P).run es).check p r now →
      ∃ g ∈ (({} : Broker P).run es).activeGrants p now, g.name = r.name ∧
        ∀ want ∈ r.want, ∃ has, g.scope = some (.descriptor has) ∧ has.Reaches want) ∧
    (∀ n now, (({} : Broker P).run es).check p { name := n } now ↔
      ∃ xs e ys, es = xs ++ e :: ys ∧ e.Approves p n ∧ ∀ x ∈ ys, ¬x.Revokes p n) := by
  have hs : (({} : Broker P).run es).Sound := sound_nil.run
  refine ⟨fun r now fs now' hn hv hr => ?_, fun now g hg => ?_, fun r now hc => ?_, fun n now => ?_⟩
  · have ⟨e, hget, hrev, hsome, hor⟩ := grantRuntime_spec (p := p) hs hn now
    refine ⟨by rw [hsome]; rfl, ?_⟩
    have hlast : (({} : Broker P).run (es ++ .grantRuntime p r now :: fs)).get p r.name = some e := by
      rw [run_append]
      exact keeps_run (s := (({} : Broker P).run es).step (.grantRuntime p r now)) hs.step hr hget hrev
    rw [(sound_nil.run).check_iff, hlast]
    constructor
    · rintro ⟨row, hrow, _, hsat⟩ x hx hxrev
      cases hrow
      rcases hor with hold | ⟨hnone, _⟩
      · cases hold.symm.trans hx
        exact hsat
      · exact absurd ⟨x, hx, hxrev⟩ hnone
    · intro hall
      refine ⟨e, rfl, hrev, ?_⟩
      rcases hor with hold | ⟨_, hscope⟩
      · exact hall e hold hrev
      · have hsat := grantSatisfies_parsed (d := none) (name_of_get hget) hv
        have hnone : ((r.scope.bind parseCapabilityScope).map Scope.descriptor <|> none) = e.scope := by
          rw [hscope]
          simp
        rwa [hnone] at hsat
  · have ⟨e, hget, hrev, heq⟩ := (mem_activeGrants hs).mp hg
    have := origin_run hget hrev
    rw [← heq] at this ⊢
    exact this
  · have ⟨row, hget, hrev, hsat⟩ := hs.check_iff.mp hc
    refine ⟨row.toGrant, (mem_activeGrants hs).mpr ?_, name_of_get hget, fun want hwant => ?_⟩
    · refine ⟨row, ?_, hrev, rfl⟩
      rw [GrantEntry.toGrant, name_of_get hget, hget]
    · have hwant : r.want = some want := hwant
      rw [grantSatisfies, hwant, Bool.and_eq_true] at hsat
      have hcov := hsat.right
      dsimp only at hcov
      split at hcov
      case h_1 has hscope => exact ⟨has, hscope, reaches_of_covers hcov⟩
      case h_2            => cases hcov
  · rw [hs.check_iff, ← held_run_iff]
    refine exists_congr fun row => and_congr_right fun hget => ?_
    rw [and_iff_left]
    simp [grantSatisfies, CapabilityRequest.want, name_of_get hget]

end Broker

namespace Broker

section Sample

-- Every text is an origin here.
local instance everyOrigin : Origins := ⟨fun _ => true⟩

private def site (origin : String) : CapabilityRequest Unit where
  name  := "network.domains"
  scope := some <| .descriptor <| .origins [origin]

private def reading : Manifest Unit where
  requiredCapabilities := [{ name := "settings.read" }]

theorem approvals_decide_site :
    (∀ e ∈ [Event.revoke "p" "settings.read" 3], ¬Event.Revokes (P := Unit) "p" "network.domains" e) ∧
      ((({} : Broker Unit).run [.grantRuntime "p" (site "https://a") 0,
        .revoke "p" "settings.read" 3]).check "p" (site "https://a") 4) :=
  have h : ∀ e ∈ [Event.revoke "p" "settings.read" 3],
      ¬Event.Revokes (P := Unit) "p" "network.domains" e := by decide
  ⟨h, ((approvals_decide [] "p").left (site "https://a") 0 _ 4 (by decide +kernel)
    (by rintro _ ⟨⟩; nofun) h).right.mpr nofun⟩

-- A second site is approved and refused, and the activation with the permissions of before grants
-- what has been revoked in between.
theorem approved_site_refused :
    (¬∀ (es fs : List (Event Unit)) p r now now', r.name ∈ capabilityNames →
      (∀ sc ∈ r.scope, parseCapabilityScope sc ≠ none) → (∀ e ∈ fs, ¬Event.Revokes p r.name e) →
        ((({} : Broker Unit).run es).grantRuntime p r now).snd.isSome →
          (({} : Broker Unit).run (es ++ .grantRuntime p r now :: fs)).check p r now') ∧
    (¬∀ (es : List (Event Unit)) p n manifest permissions now now' now'',
      (({} : Broker Unit).run (es ++ [.revoke p n now,
        .grantConsented p manifest permissions now'])).check p { name := n } now'' = false) := by
  constructor
  · intro h
    have hchecked := h [.grantRuntime "p" (site "https://a") 0] [] "p" (site "https://b") 1 2
      (by decide +kernel) (by rintro _ ⟨⟩; nofun) nofun (by decide +kernel)
    revert hchecked
    decide +kernel
  · intro h
    have hchecked := h [.grantConsented "p" reading ["settings.read"] 0] "p" "settings.read" reading
      ["settings.read"] 1 2 3
    revert hchecked
    decide +kernel

example : "settings.read" ∈ capabilityNames := by
  decide +kernel

end Sample

end Broker
end Capability
