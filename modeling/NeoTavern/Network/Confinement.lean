import NeoTavern.Network.Destination
import NeoTavern.Network.Fetch

namespace Network

open Internet

section Kinds

inductive Kind
  | global
  | host
  | metadata
  | restricted
  deriving DecidableEq

def Kind.ofReach : Reach → Kind
  | .global     => .global
  | .host       => .host
  | .restricted => .restricted

-- The endpoints at which clouds tell their machines about themselves.
def MetadataEndpoint (x : V4) : Prop :=
  x = ⟨169, 254, 169, 254⟩ ∨ x = ⟨169, 254, 170, 2⟩

instance {x : V4} : Decidable (MetadataEndpoint x) :=
  inferInstanceAs <| Decidable (_ ∨ _)

def kindV4 (x : V4) : Kind :=
  if MetadataEndpoint x then .metadata else .ofReach x.reach

-- An address that stands for one of the older kind is of that one's kind.
def Address.kind : Address → Kind
  | .v4 x => kindV4 x
  | .v6 x => match x.embedded with
    | some y => kindV4 y
    | none   => .ofReach x.reach

-- What a plugin may reach.
def Permitted (scope : NetworkScope) (x : Address) : Prop :=
  match x.kind with
  | .global     => True
  | .host       => scope.local
  | .metadata   => scope.metadata
  | .restricted => scope.private

-- Blocks that are taken for public ones: shared address space, protocol assignments, documentation
-- and benchmarking.
def Missed (x : V4) : Prop :=
  x.within ⟨100, 64, 0, 0⟩ 10 ∨
  x.within ⟨192, 0, 0, 0⟩ 24 ∧ ¬x.within ⟨192, 0, 0, 9⟩ 32 ∧ ¬x.within ⟨192, 0, 0, 10⟩ 32 ∨
  x.within ⟨192, 0, 2, 0⟩ 24 ∨ x.within ⟨198, 18, 0, 0⟩ 15 ∨ x.within ⟨198, 51, 100, 0⟩ 24 ∨
  x.within ⟨203, 0, 113, 0⟩ 24

-- Link-local addresses that are taken for a metadata endpoint.
def NearMetadata (x : V4) : Prop :=
  (x.within ⟨169, 254, 169, 0⟩ 24 ∨ x.within ⟨169, 254, 170, 0⟩ 24) ∧ ¬MetadataEndpoint x

instance {x : V4} : Decidable (Missed x)       := inferInstanceAs <| Decidable (_ ∨ _)
instance {x : V4} : Decidable (NearMetadata x) := inferInstanceAs <| Decidable (_ ∧ _)

def OverlookedV4 (scope : NetworkScope) (x : V4) : Prop :=
  (Missed x ∨ NearMetadata x) ∧ scope.private = false

-- The forms in which a lookup presents an address that is not for everyone, as far as they are known.
def Recognised (x : V6) : Prop :=
  x.Unspecified ∨ x.Loopback ∨ LooksPrivate x.g₀ ∨ x.Padded ∧ LooksPrivate x.g₇

def OverlookedV6 (scope : NetworkScope) (x : V6) : Prop :=
  if x.Mapped then OverlookedV4 scope x.low
  else ¬Recognised x ∧ ¬Permitted scope (.v6 x)

-- The addresses that the check lets through although the scope does not cover them: all that the
-- brackets of a URL hide, some blocks, and whatever a lookup presents in a form that is not known.
def Overlooked (scope : NetworkScope) : Host → Address → Prop
  | .v6 _, x                       => ¬Permitted scope x
  | .v4 _, .v4 x | .domain _, .v4 x => OverlookedV4 scope x
  | .v4 _, .v6 x | .domain _, .v6 x => OverlookedV6 scope x

end Kinds

section V4

open V4

variable {x : V4} {scope : NetworkScope}

theorem metadataEndpoint_iff : MetadataEndpoint x ↔
    x.a = 169 ∧ x.b = 254 ∧ (x.c = 169 ∧ x.d = 254 ∨ x.c = 170 ∧ x.d = 2) := by
  rcases x with ⟨a, b, c, d⟩
  simp only [MetadataEndpoint, V4.mk.injEq]
  omega

theorem host_iff : x.Host ↔ x.a = 0 ∨ x.a = 127 :=
  or_congr within_8 within_8

theorem nearMetadata_iff : NearMetadata x ↔
    x.a = 169 ∧ x.b = 254 ∧ (x.c = 169 ∧ x.d ≠ 254 ∨ x.c = 170 ∧ x.d ≠ 2) := by
  rw [NearMetadata, within_24, within_24, metadataEndpoint_iff]
  omega

-- What is known of the restricted blocks, and what is not.
theorem restricted_iff : x.Restricted ↔ Missed x ∨ x.a = 10 ∨ x.a = 169 ∧ x.b = 254 ∨
    x.a = 172 ∧ x.b.val / 16 = 1 ∨ x.a = 192 ∧ x.b = 168 ∨ 224 ≤ x.a.val := by
  have h₁₀ : x.within ⟨10, 0, 0, 0⟩ 8 ↔ x.a = 10 := within_8
  have h₁₆₉ : x.within ⟨169, 254, 0, 0⟩ 16 ↔ x.a = 169 ∧ x.b = 254 := within_16
  have h₁₇₂ : x.within ⟨172, 16, 0, 0⟩ 12 ↔ x.a = 172 ∧ x.b.val / 16 = 1 := within_12
  have h₁₉₂ : x.within ⟨192, 168, 0, 0⟩ 16 ↔ x.a = 192 ∧ x.b = 168 := within_16
  have h₂₂₄ : x.within ⟨224, 0, 0, 0⟩ 4 ∨ x.within ⟨240, 0, 0, 0⟩ 4 ↔ 224 ≤ x.a.val := by
    rw [within_4, within_4]
    have := x.a.isLt
    change _ = 14 ∨ _ = 15 ↔ _
    omega
  rw [Restricted, Missed, h₁₀, h₁₆₉, h₁₇₂, h₁₉₂, h₂₂₄]
  simp only [or_assoc, or_comm, or_left_comm]

theorem kindV4_of_not_endpoint (h : ¬MetadataEndpoint x) (hhost : ¬x.Host) :
    kindV4 x = if x.Restricted then .restricted else .global := by
  rw [kindV4, if_neg h, reach, if_neg hhost]
  split <;> rfl

-- The conditions under which an address is put into a class.
theorem classifyV4_cases (a b c : Nat) :
    classifyV4 a b c = .local ∧ (a = 127 ∨ a = 0) ∨
    classifyV4 a b c = .metadata ∧ a = 169 ∧ b = 254 ∧ (c = 169 ∨ c = 170) ∨
    classifyV4 a b c = .private ∧ ¬(a = 127 ∨ a = 0) ∧ ¬(a = 169 ∧ b = 254 ∧ (c = 169 ∨ c = 170)) ∧
      (a = 10 ∨ a = 169 ∧ b = 254 ∨ a = 172 ∧ b / 16 = 1 ∨ a = 192 ∧ b = 168 ∨ 224 ≤ a) ∨
    classifyV4 a b c = .public ∧ ¬(a = 127 ∨ a = 0) ∧ ¬(a = 169 ∧ b = 254 ∧ (c = 169 ∨ c = 170)) ∧
      ¬(a = 10 ∨ a = 169 ∧ b = 254 ∨ a = 172 ∧ b / 16 = 1 ∨ a = 192 ∧ b = 168 ∨ 224 ≤ a) := by
  rw [classifyV4]
  simp only [Bool.or_eq_true, Bool.and_eq_true, decide_eq_true_eq]
  by_cases h₁ : a = 127 ∨ a = 0
  case pos => exact .inl ⟨if_pos h₁, h₁⟩
  case neg =>
    rw [if_neg h₁]
    by_cases h₂ : (a = 169 ∧ b = 254) ∧ (c = 169 ∨ c = 170)
    case pos => exact .inr <| .inl ⟨if_pos h₂, h₂.left.left, h₂.left.right, h₂.right⟩
    case neg =>
      rw [if_neg h₂]
      have h₂ : ¬(a = 169 ∧ b = 254 ∧ (c = 169 ∨ c = 170)) := fun h => h₂ ⟨⟨h.left, h.right.left⟩, h.right.right⟩
      have h₁₆ : (a = 172 ∧ b ≥ 16) ∧ b ≤ 31 ↔ a = 172 ∧ b / 16 = 1 := by omega
      simp only [h₁₆]
      by_cases h₃ : a = 10 ∨ a = 169 ∧ b = 254 ∨ a = 172 ∧ b / 16 = 1 ∨ a = 192 ∧ b = 168 ∨ 224 ≤ a
      case pos =>
        refine .inr <| .inr <| .inl ⟨?_, h₁, h₂, h₃⟩
        rcases h₃ with h | h | h | h | h
        all_goals simp [h]
      case neg =>
        refine .inr <| .inr <| .inr ⟨?_, h₁, h₂, h₃⟩
        simp only [not_or] at h₃
        have ⟨h₁₀, h₁₆₉, h₁₇₂, h₁₉₂, h₂₂₄⟩ := h₃
        rw [if_neg h₁₀, if_neg h₁₇₂, if_neg h₁₉₂, if_neg h₁₆₉, if_neg h₂₂₄]

theorem missed_first (h : Missed x) : x.a = 100 ∨ x.a = 192 ∨ x.a = 198 ∨ x.a = 203 := by
  rcases h with h | h | h | h | h | h
  · exact .inl (within_10.mp h).left
  · exact .inr <| .inl (within_24.mp h.left).left
  · exact .inr <| .inl (within_24.mp h).left
  · exact .inr <| .inr <| .inl (within_15.mp h).left
  · exact .inr <| .inr <| .inl (within_24.mp h).left
  · exact .inr <| .inr <| .inr (within_24.mp h).left

theorem not_bool_iff {p : Prop} {b : Bool} (h : p) : b = true ↔ ¬(p ∧ b = false) := by
  cases b <;> simp [h]

-- An address of the older kind that is let through is permitted unless it is overlooked.
theorem permitted_v4_iff (h : scope.allowed (classifyV4 x.a x.b x.c)) :
    Permitted scope (.v4 x) ↔ ¬OverlookedV4 scope x := by
  change (match kindV4 x with
    | .global => True | .host => scope.local | .metadata => scope.metadata | .restricted => scope.private) ↔ _
  rcases classifyV4_cases x.a x.b x.c with ⟨hclass, hx⟩ | ⟨hclass, ha, hb, hc⟩ | ⟨hclass, hlocal, hmeta, hx⟩ |
    ⟨hclass, hlocal, hmeta, hx⟩
  · have hx : x.a = 0 ∨ x.a = 127 := by omega
    have hendpoint : ¬MetadataEndpoint x := by
      rw [metadataEndpoint_iff]
      omega
    have hkind : kindV4 x = .host := by
      rw [kindV4, if_neg hendpoint, reach, if_pos (host_iff.mpr hx)]
      rfl
    rw [hclass] at h
    rw [hkind]
    refine iff_of_true h ?_
    rintro ⟨hmissed | hnear, _⟩
    · have := missed_first hmissed
      omega
    · rw [nearMetadata_iff] at hnear
      omega
  · have hhost : ¬x.Host := by
      rw [host_iff]
      omega
    have hmissed : ¬Missed x := by
      intro hmissed
      have := missed_first hmissed
      omega
    by_cases hendpoint : MetadataEndpoint x
    case pos =>
      have hkind : kindV4 x = .metadata := if_pos hendpoint
      rw [hclass] at h
      rw [hkind]
      exact iff_of_true h fun hover => hover.left.elim hmissed fun hnear => hnear.right hendpoint
    case neg =>
      have hrestricted : x.Restricted := restricted_iff.mpr <| by omega
      have hnear : NearMetadata x := by
        rw [nearMetadata_iff]
        rw [metadataEndpoint_iff] at hendpoint
        omega
      rw [kindV4_of_not_endpoint hendpoint hhost, if_pos hrestricted]
      exact not_bool_iff <| .inr hnear
  · have hhost : ¬x.Host := by
      rw [host_iff]
      omega
    have hendpoint : ¬MetadataEndpoint x := by
      rw [metadataEndpoint_iff]
      omega
    have hrestricted : x.Restricted := restricted_iff.mpr <| .inr <| by omega
    rw [hclass] at h
    rw [kindV4_of_not_endpoint hendpoint hhost, if_pos hrestricted]
    refine iff_of_true h fun hover => ?_
    have hfalse := hover.right
    rw [show scope.private = true from h] at hfalse
    cases hfalse
  · have hhost : ¬x.Host := by
      rw [host_iff]
      omega
    have hendpoint : ¬MetadataEndpoint x := by
      rw [metadataEndpoint_iff]
      omega
    have hnear : ¬NearMetadata x := by
      rw [nearMetadata_iff]
      omega
    rw [kindV4_of_not_endpoint hendpoint hhost]
    by_cases hmissed : Missed x
    case pos =>
      rw [if_pos (restricted_iff.mpr <| .inl hmissed)]
      exact not_bool_iff <| .inl hmissed
    case neg =>
      have hrestricted : ¬x.Restricted := by
        rw [restricted_iff]
        rintro (hm | hr)
        · exact hmissed hm
        · omega
      rw [if_neg hrestricted]
      exact iff_of_true trivial fun hover => hover.left.elim hmissed hnear

end V4

section V6

variable {x : V6} {scope : NetworkScope}

-- The groups of an address that stands for one of the older kind.
theorem first_of_embedded (h : x.Mapped ∨ x.Compatible ∨ x.Translated) : x.g₀.val = 0 ∨ x.g₀.val = 0x64 := by
  rcases h with h | h | h
  · have := congrArg (·[0]?) h
    exact .inl <| by simpa [V6.groups] using this
  · have := congrArg (·[0]?) h
    exact .inl <| by simpa [V6.groups] using this
  · have := congrArg (·[0]?) h
    exact .inr <| by simpa [V6.groups] using this

theorem kind_of_host (h : x.Unspecified ∨ x.Loopback) : (Address.v6 x).kind = .host := by
  rw [Address.kind, V6.embedded, if_pos h]
  dsimp only
  rw [V6.reach, if_pos h]
  rfl

theorem kind_of_mapped (h : x.Mapped) : (Address.v6 x).kind = kindV4 x.low := by
  have hother : ¬(x.Unspecified ∨ x.Loopback) := by
    have := h.zeros_eq
    rintro (h | h)
    · rw [h.zeros_eq] at this
      cases this
    · rw [h.zeros_eq] at this
      cases this
  rw [Address.kind, V6.embedded, if_neg hother, if_pos (.inl h)]

theorem kind_of_other (hhost : ¬(x.Unspecified ∨ x.Loopback))
    (hembedded : ¬(x.Mapped ∨ x.Compatible ∨ x.Translated)) (hglobal : ¬x.g₀.val / 0x2000 = 1) :
    (Address.v6 x).kind = .restricted := by
  have hnone : x.embedded = none := by rw [V6.embedded, if_neg hhost, if_neg hembedded]
  rw [Address.kind, hnone]
  dsimp only
  rw [V6.reach, if_neg hhost, hnone]
  dsimp only
  rw [if_neg fun h => hglobal h.left]
  rfl

theorem kind_of_private_group (hhost : ¬(x.Unspecified ∨ x.Loopback)) (hmapped : ¬x.Mapped)
    (h : LooksPrivate x.g₀ ∨ x.Padded ∧ LooksPrivate x.g₇) : (Address.v6 x).kind = .restricted := by
  rcases h with h | ⟨h, _⟩
  · rw [LooksPrivate] at h
    refine kind_of_other hhost (fun hembedded => ?_) (by omega)
    have := first_of_embedded hembedded
    omega
  · have ⟨hfirst, _, _, _, hcompatible⟩ := h.other
    have hzero : x.g₀.val = 0 := congrArg Fin.val hfirst
    refine kind_of_other hhost ?_ (by omega)
    rintro (hm | hc | ht)
    · exact hmapped hm
    · exact hcompatible hc
    · have := congrArg (·[0]?) ht
      simp [V6.groups, hzero] at this

-- An address that a lookup presents and that is let through is permitted unless it is overlooked.
theorem permitted_v6_iff (h : scope.allowed (classOf x)) :
    Permitted scope (.v6 x) ↔ ¬OverlookedV6 scope x := by
  rw [classOf] at h
  rw [OverlookedV6]
  by_cases hhost : x.Unspecified ∨ x.Loopback
  case pos =>
    have hmapped : ¬x.Mapped := by
      intro hm
      have hzeros := hm.zeros_eq
      rcases hhost with hx | hx
      · rw [hx.zeros_eq] at hzeros
        cases hzeros
      · rw [hx.zeros_eq] at hzeros
        cases hzeros
    have hrecognised : Recognised x := hhost.elim .inl fun hx => .inr <| .inl hx
    rw [if_pos hhost] at h
    rw [if_neg hmapped, Permitted, kind_of_host hhost]
    exact iff_of_true h fun hover => hover.left hrecognised
  case neg =>
    rw [if_neg hhost] at h
    by_cases hmapped : x.Mapped
    case pos =>
      rw [if_pos hmapped] at h
      rw [if_pos hmapped, ← permitted_v4_iff h, Permitted, Permitted, kind_of_mapped hmapped]
      rfl
    case neg =>
      rw [if_neg hmapped] at h
      rw [if_neg hmapped]
      by_cases hprivate : LooksPrivate x.g₀ ∨ x.Padded ∧ LooksPrivate x.g₇
      case pos =>
        rw [if_pos hprivate] at h
        have hpermitted : Permitted scope (.v6 x) := by
          rw [Permitted, kind_of_private_group hhost hmapped hprivate]
          exact h
        exact iff_of_true hpermitted fun hover => hover.right hpermitted
      case neg =>
        have hrecognised : ¬Recognised x := by
          rintro (hx | hx | hx | hx)
          · exact hhost <| .inl hx
          · exact hhost <| .inr hx
          · exact hprivate <| .inl hx
          · exact hprivate <| .inr hx
        constructor
        · exact fun hpermitted hover => hover.right hpermitted
        · exact fun hover => not_not.mp fun hpermitted => hover ⟨hrecognised, hpermitted⟩

end V6

section Check

variable {scope : NetworkScope} {host : Host} {addresses : List Address} {isRedirect : Bool}

-- Where a request to a host can go to.
def destinations (host : Host) (addresses : List Address) : List Address :=
  match host with
  | .domain _ => addresses
  | .v4 x     => [.v4 x]
  | .v6 x     => [.v6 x]

-- The class of a destination.
def classIn (host : Host) : Address → Classification
  | .v4 x => classifyV4 x.a x.b x.c
  | .v6 x => match host with
    | .v6 _          => .public
    | .domain _ | .v4 _ => classOf x

theorem forM_eq_ok {α ε : Type} {f : α → Except ε Unit} {l : List α} :
    l.forM f = .ok () ↔ ∀ x ∈ l, f x = .ok () := by
  induction l
  case nil => exact iff_of_true rfl fun _ h => nomatch h
  case cons x l ih =>
    rw [List.forall_mem_cons, ← ih]
    change (f x >>= fun _ => l.forM f) = .ok () ↔ _
    cases hx : f x
    case error e => simp [bind, Except.bind]
    case ok u    => simp [bind, Except.bind]

theorem checkDestination_eq_ok {hostname : Text} :
    checkDestination hostname isRedirect scope addresses = .ok () ↔
      ∀ ip ∈ if looksLikeIp hostname then [hostname] else addresses.map Address.text,
        scope.allowed (classifyAddress ip) := by
  rw [checkDestination, forM_eq_ok]
  refine forall₂_congr fun ip _ => ?_
  dsimp only
  split
  case isTrue h  => simp [h, NetworkScope.allowed, pure, Except.pure]
  case isFalse h =>
    split
    case isTrue h  => simp [h, pure, Except.pure]
    case isFalse h => simp [h, throw, throwThe, MonadExceptOf.throw]

-- The check admits a host when the scope covers the classes of all that it can lead to.
theorem check_host : checkDestination host.hostname isRedirect scope addresses = .ok () ↔
    ∀ x ∈ destinations host addresses, scope.allowed (classIn host x) := by
  rw [checkDestination_eq_ok]
  cases host
  case domain name =>
    have hname : ¬looksLikeIp (Host.domain name).hostname = true := by simp [Host.hostname, name.notIp]
    rw [if_neg hname, List.forall_mem_map]
    refine forall₂_congr fun x _ => ?_
    cases x
    case v4 x => rw [Address.text, classifyAddress_v4, classIn]
    case v6 x => rw [Address.text, classifyAddress_v6, classIn]
  case v4 x =>
    have hlooks : looksLikeIp (Host.v4 x).hostname = true := looksLikeIp_v4 x
    rw [if_pos hlooks]
    simp [destinations, classIn, Host.hostname, classifyAddress_v4]
  case v6 x =>
    obtain ⟨hclass, hlooks⟩ := classifyAddress_brackets x
    rw [if_pos hlooks]
    simp [destinations, classIn, hclass]

theorem permitted_iff {x : Address} (hx : x ∈ destinations host addresses)
    (h : scope.allowed (classIn host x)) : Permitted scope x ↔ ¬Overlooked scope host x := by
  cases host
  case domain name =>
    cases x
    case v4 x => exact permitted_v4_iff h
    case v6 x => exact permitted_v6_iff h
  case v4 y =>
    rw [List.mem_singleton.mp hx] at h ⊢
    exact permitted_v4_iff h
  case v6 y => exact not_not.symm

end Check

end Network

namespace Network

open Internet

-- Every request has gone to where the plugin may reach, whichever address it was connected to.
def Confined (scope : NetworkScope) (s : Fetch) : Prop :=
  ∀ r ∈ s.requests, ∀ d ∈ destinations r.url.host r.addresses, Permitted scope d

namespace Executor

variable {x : Executor} {args : SdkNetworkFetchArgs} {s : Fetch} {answer : Answer} {parsed : Url}
  {addresses : List Address}

-- A hop that goes out to `parsed`: its host and what a lookup of it gives are in the classes that the
-- scope covers.
structure Goes (x : Executor) (s : Fetch) (answer : Answer) (parsed : Url) (addresses : List Address) :
    Prop where
  pending : s.outcome = none
  parses  : x.parseUrl s.currentUrl = some parsed
  scheme  : parsed.protocol = "http:" ∨ parsed.protocol = "https:"
  looked  : (if looksLikeIp parsed.host.hostname then some [] else answer.lookup) = some addresses
  covered : ∀ d ∈ destinations parsed.host addresses, x.scope.allowed (classIn parsed.host d)
  secret  : mismatch s parsed = false

-- No hop that goes out leads to an address that is overlooked.
def Clear (x : Executor) (s : Fetch) (answer : Answer) : Prop :=
  ∀ parsed addresses, x.Goes s answer parsed addresses →
    ∀ d ∈ destinations parsed.host addresses, ¬Overlooked x.scope parsed.host d

theorem receive_requests {response : Option Response} :
    (x.receive args s response).requests = s.requests := by
  cases response
  case none          => rfl
  case some response =>
    rw [receive]
    split
    case h_1 => rfl
    case h_2 =>
      split
      case isTrue  => rfl
      case isFalse =>
        split
        case isTrue  => rfl
        case isFalse => split <;> rfl

theorem Goes.step (h : x.Goes s answer parsed addresses) : (x.step args s answer).requests =
    s.requests ++ [{ url := parsed, addresses, init := requestInit args s parsed }] := by
  have hpending : ¬s.outcome.isSome = true := by simp [h.pending]
  have hscheme : ¬(parsed.protocol ≠ "http:" && parsed.protocol ≠ "https:") = true := by
    rcases h.scheme with hs | hs
    · simp [hs]
    · simp [hs]
  have hcheck : checkDestination parsed.host.hostname s.isRedirectHop x.scope addresses = .ok () :=
    check_host.mpr h.covered
  rw [Executor.step]
  dsimp only
  rw [if_neg hpending, h.parses]
  dsimp only
  rw [if_neg hscheme, h.looked]
  dsimp only
  rw [hcheck]
  dsimp only
  rw [h.secret]
  exact receive_requests

-- A hop that does not go out issues no request.
theorem step_requests (h : ∀ parsed addresses, ¬x.Goes s answer parsed addresses) :
    (x.step args s answer).requests = s.requests := by
  rw [Executor.step]
  dsimp only
  split
  case isTrue           => rfl
  case isFalse hpending =>
    cases hparse : x.parseUrl s.currentUrl
    case none        => rfl
    case some parsed =>
      dsimp only
      split
      case isTrue          => rfl
      case isFalse hscheme =>
        cases hlooked : if looksLikeIp parsed.host.hostname then some [] else answer.lookup
        case none           => rfl
        case some addresses =>
          dsimp only
          cases hcheck : checkDestination parsed.host.hostname s.isRedirectHop x.scope addresses
          case error e => rfl
          case ok u    =>
            dsimp only
            split
            case isTrue          => rfl
            case isFalse hsecret =>
              refine absurd ?_ <| h parsed addresses
              exact {
                pending := by simpa using hpending
                parses  := hparse
                scheme  := by
                  simp only [Bool.and_eq_true, decide_eq_true_eq, not_and, ne_eq] at hscheme
                  by_cases hhttp : parsed.protocol = "http:"
                  case pos => exact .inl hhttp
                  case neg => exact .inr <| not_not.mp <| hscheme hhttp
                looked  := hlooked
                covered := check_host.mp hcheck
                secret  := by simpa using hsecret
              }

theorem confined_step (hs : Confined x.scope s) :
    Confined x.scope (x.step args s answer) ↔ x.Clear s answer := by
  by_cases hgoes : ∃ parsed addresses, x.Goes s answer parsed addresses
  case pos =>
    have ⟨parsed, addresses, h⟩ := hgoes
    rw [Confined, h.step, List.forall_mem_append]
    constructor
    · intro ⟨_, hnew⟩ parsed' addresses' h' d hd
      have hparsed := Option.some.inj <| h'.parses.symm.trans h.parses
      subst hparsed
      have haddresses := Option.some.inj <| h'.looked.symm.trans h.looked
      subst haddresses
      exact (permitted_iff hd <| h.covered d hd).mp <| hnew _ (List.mem_singleton_self _) d hd
    · intro hclear
      refine ⟨hs, fun r hr d hd => ?_⟩
      rw [List.mem_singleton.mp hr] at hd
      exact (permitted_iff hd <| h.covered d hd).mpr <| hclear parsed addresses h d hd
  case neg =>
    have hnone : ∀ parsed addresses, ¬x.Goes s answer parsed addresses :=
      fun parsed addresses h => hgoes ⟨parsed, addresses, h⟩
    rw [Confined, step_requests hnone]
    exact iff_of_true hs fun parsed addresses h => absurd h <| hnone parsed addresses

theorem start_requests {pluginId : String} : (x.start args pluginId).requests = [] := by
  rw [start]
  split <;> rfl

-- However the net answers, the requests of a fetch stay within the reach of the plugin exactly when
-- none of its hops leads to an address that is overlooked.
theorem confined_iff (x : Executor) (args : SdkNetworkFetchArgs) (pluginId : String)
    (answers : List Answer) :
    Runs.Throughout (x.step args) (Confined x.scope) (x.start args pluginId) answers ↔
      Runs.Meets (x.step args) x.Clear (x.start args pluginId) answers := by
  refine Runs.throughout_iff_meets_of_step (fun _ _ hs => confined_step hs) fun r hr => ?_
  rw [start_requests] at hr
  cases hr

private def loopbackUrl : Url where
  href     := "http://[::1]/"
  protocol := "http:"
  host     := .v6 ⟨0, 0, 0, 0, 0, 0, 0, 1⟩
  origin   := "http://[::1]"

private def unscoped : Executor where
  parseUrl text  := if text = loopbackUrl.href then some loopbackUrl else none
  resolveUrl _ _ := none
  scope          := { «local» := false, «private» := false, metadata := false }

private def okResponse : Response where
  status     := 200
  statusText := "OK"
  headers    := []
  text       := ""

-- Without any scope, a plugin reaches the machine that it runs on.
theorem loopback_reached :
    ¬Runs.Throughout (unscoped.step { url := loopbackUrl.href }) (Confined unscoped.scope)
      (unscoped.start { url := loopbackUrl.href } "plugin")
      [{ lookup := none, response := some okResponse }] := by
  intro h
  have hgoes : unscoped.Goes (unscoped.start { url := loopbackUrl.href } "plugin")
      { lookup := none, response := some okResponse } loopbackUrl [] := {
    pending := rfl
    parses  := rfl
    scheme  := .inl rfl
    looked  := if_pos (classifyAddress_brackets _).right
    covered := fun d hd => by rw [List.mem_singleton.mp hd]; rfl
    secret  := rfl
  }
  have hlast := h.last
  rw [Confined, List.foldl_cons, List.foldl_nil, hgoes.step] at hlast
  have hpermitted := hlast _ (List.mem_concat_self ..) (.v6 ⟨0, 0, 0, 0, 0, 0, 0, 1⟩) (List.mem_singleton_self _)
  rw [Permitted, kind_of_host (by decide)] at hpermitted
  cases hpermitted

end Executor
end Network
