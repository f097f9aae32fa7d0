import NeoTavern.Lib.AddressText
import NeoTavern.Lib.Lists

namespace Network

open Internet

structure NetworkScope where
  «local»   : Bool
  «private» : Bool
  metadata  : Bool
  deriving DecidableEq

inductive Classification
  | «public»
  | «local»
  | «private»
  | metadata
  deriving DecidableEq

section Classify

-- The regular expression `\d{1,3}`, and what `Number` makes of its matches.
def isOctet (cs : Text) : Bool :=
  1 ≤ cs.length && cs.length ≤ 3 && cs.all Char.isDigit

def number (cs : Text) : Nat :=
  Nat.ofDigitChars 10 cs 0

def matchV4 (ip : Text) : Option (Nat × Nat × Nat) :=
  match ip.splitOn '.' with
  | [a, b, c, d] =>
    if isOctet a && isOctet b && isOctet c && isOctet d then
      some (number a, number b, number c)
    else
      none
  | _            => none

def classifyV4 (a b c : Nat) : Classification :=
  if a = 127 || a = 0 then .local
  else if a = 169 && b = 254 && (c = 169 || c = 170) then .metadata
  else if a = 10 then .private
  else if a = 172 && b ≥ 16 && b ≤ 31 then .private
  else if a = 192 && b = 168 then .private
  else if a = 169 && b = 254 then .private
  else if a ≥ 224 then .private
  else .public

theorem length_le_of_mem_splitOn {t cs : Text} {a : Char} (h : t ∈ cs.splitOn a) :
    t.length ≤ cs.length := by
  induction cs generalizing t
  case nil =>
    rw [List.splitOn_nil, List.mem_singleton] at h
    simp [h]
  case cons c cs ih =>
    rw [List.splitOn_cons_eq_if_modifyHead] at h
    split at h
    case isTrue =>
      cases h
      case head   => simp
      case tail h => exact Nat.le_succ_of_le <| ih h
    case isFalse =>
      cases hsplit : cs.splitOn a
      case nil         => simp at hsplit
      case cons u rest =>
        rw [hsplit, List.modifyHead_cons] at h
        cases h
        case head   => exact Nat.succ_le_succ <| ih (hsplit ▸ List.mem_cons_self ..)
        case tail h => exact Nat.le_succ_of_le <| ih (hsplit ▸ List.mem_cons_of_mem _ h)

theorem length_lt_of_mem_splitOn {t cs : Text} {a : Char} (ha : a ∈ cs) (h : t ∈ cs.splitOn a) :
    t.length < cs.length := by
  have ⟨l, r, heq⟩ := List.append_of_mem ha
  rw [heq, List.splitOn_append_cons_self] at h
  have hlength := congrArg List.length heq
  rw [List.length_append, List.length_cons] at hlength
  rcases List.mem_append.mp h with h | h
  · have := length_le_of_mem_splitOn h
    omega
  · have := length_le_of_mem_splitOn h
    omega

theorem colon_mem_of_mapped {cs : Text} (h : cs = [':', ':'] ∨
    ([':', ':', 'f', 'f', 'f', 'f', ':'].isPrefixOf cs) = true) : ':' ∈ cs := by
  rcases h with h | h
  · simp [h]
  · exact (List.isPrefixOf_iff_prefix.mp h).subset <| List.mem_cons_self ..

def toLowerCase (cs : Text) : Text :=
  cs.map Char.toLower

def classifyAddress (ip : Text) : Classification :=
  match matchV4 ip with
  | some (a, b, c) => classifyV4 a b c
  | none           =>
    let lower := toLowerCase ip
    if lower = [':', ':', '1'] then .local
    else if lower = [':', ':'] then .local
    else if ['f', 'e', '8', '0'].isPrefixOf lower then .private
    else if ['f', 'c'].isPrefixOf lower || ['f', 'd'].isPrefixOf lower then .private
    else if _ : lower = [':', ':'] ∨ [':', ':', 'f', 'f', 'f', 'f', ':'].isPrefixOf lower = true then
      match _ : (lower.splitOn ':').getLast? with
      | some mapped => classifyAddress mapped
      | none        => .local
    else .public
termination_by ip.length
decreasing_by
  have hlt := length_lt_of_mem_splitOn (colon_mem_of_mapped ‹_›) (List.mem_of_getLast? ‹_›)
  exact Nat.lt_of_lt_of_eq hlt <| List.length_map _

end Classify

section Destination

-- The test by which a host name counts as an address.
def looksLikeIp (hostname : Text) : Bool :=
  hostname.contains ':' || (matchV4 hostname).isSome

-- A name that is no address: the parser of URLs leaves no colon in one, and takes one that ends in a
-- number for an address.
structure Domain where
  name  : Text
  notIp : looksLikeIp name = false
  deriving DecidableEq

-- What a URL leads to.
inductive Host
  | domain (name : Domain)
  | v4 (address : V4)
  | v6 (address : V6)
  deriving DecidableEq

def Host.hostname : Host → Text
  | .domain name => name.name
  | .v4 address  => address.text
  | .v6 address  => '[' :: address.hexText ++ [']']

inductive Address
  | v4 (address : V4)
  | v6 (address : V6)
  deriving DecidableEq

def Address.text : Address → Text
  | .v4 address => address.text
  | .v6 address => address.text

structure DeniedDetails where
  hostname       : Text
  ip             : Text
  classification : Classification
  requiredScope  : String
  deriving DecidableEq

inductive BrokerCallError
  | invalidUrl (url : String)
  | destinationDenied (isRedirect : Bool) (details : DeniedDetails)
  | schemeDenied (isRedirect : Bool) (scheme : String)
  | secretOriginMismatch (secretId : Option String) (targetOrigin : String)
  | secretNotFound (secretId : String)
  | secretInvalid
  | tooManyRedirects (hops : Nat)
  | rejected
  deriving DecidableEq

def BrokerCallError.code : BrokerCallError → String
  | .invalidUrl _                     => "VALIDATION_FAILED"
  | .destinationDenied isRedirect _ | .schemeDenied isRedirect _ =>
    if isRedirect then "NETWORK_REDIRECT_DENIED" else "NETWORK_DESTINATION_DENIED"
  | .secretOriginMismatch _ _         => "NETWORK_SECRET_ORIGIN_MISMATCH"
  | .secretNotFound _                 => "NETWORK_SECRET_NOT_FOUND"
  | .secretInvalid                    => "NETWORK_SECRET_INVALID"
  | .tooManyRedirects _               => "NETWORK_REDIRECT_DENIED"
  | .rejected                         => "INTERNAL"

def requiredScope : Classification → String
  | .local                => "network.local"
  | .metadata             => "network.metadata"
  | .public | .private    => "network.private"

def NetworkScope.allowed (scope : NetworkScope) : Classification → Bool
  | .public   => true
  | .local    => scope.local
  | .metadata => scope.metadata
  | .private  => scope.private

-- `addresses` is what a lookup of the host name gives.
def checkDestination (hostname : Text) (isRedirect : Bool) (scope : NetworkScope)
    (addresses : List Address) : Except BrokerCallError Unit :=
  let ips := if looksLikeIp hostname then [hostname] else addresses.map Address.text
  ips.forM fun ip =>
    let classification := classifyAddress ip
    if classification = .public then
      pure ()
    else if scope.allowed classification then
      pure ()
    else
      throw <| .destinationDenied isRedirect {
        hostname, ip, classification, requiredScope := requiredScope classification
      }

end Destination

end Network

namespace Network

open Internet

section Match

variable {ip : Text} {c : Char}

-- Only digits and points match.
theorem matchV4_eq_none (hc : c ∈ ip) (hdot : c ≠ '.') (hdigit : c.isDigit = false) : matchV4 ip = none := by
  have hpart : ∃ part ∈ ip.splitOn '.', isOctet part = false := by
    have hjoin : ['.'].intercalate (ip.splitOn '.') = ip := List.intercalate_splitOn '.'
    rw [← hjoin] at hc
    rcases Lists.mem_intercalate hc with hc | ⟨part, hpart, hc⟩
    · exact absurd hc hdot
    · refine ⟨part, hpart, ?_⟩
      have : part.all Char.isDigit = false := List.all_eq_false.mpr ⟨c, hc, by simp [hdigit]⟩
      simp [isOctet, this]
  have ⟨part, hmem, hfalse⟩ := hpart
  rw [matchV4]
  split
  case h_2 => rfl
  case h_1 w x y z heq =>
    rw [heq] at hmem
    simp only [List.mem_cons, List.not_mem_nil, or_false] at hmem
    rcases hmem with rfl | rfl | rfl | rfl
    all_goals simp [hfalse]

theorem matchV4_eq_none_of_colon (h : ':' ∈ ip) : matchV4 ip = none :=
  matchV4_eq_none h (by decide) (by decide)

theorem isOctet_toDigits {n : Nat} (h : n < 256) : isOctet (Nat.toDigits 10 n) = true := by
  have hle : (Nat.toDigits 10 n).length ≤ 3 :=
    (Nat.length_toDigits_le_iff (by decide) (by decide)).mpr <| by omega
  have hpos : 0 < (Nat.toDigits 10 n).length := Nat.length_toDigits_pos
  have hall : (Nat.toDigits 10 n).all Char.isDigit = true :=
    List.all_eq_true.mpr fun c hc => Nat.isDigit_of_mem_toDigits (by decide) (by decide) hc
  simp [isOctet, hle, hall]
  omega

theorem matchV4_text (x : V4) : matchV4 x.text = some (x.a.val, x.b.val, x.c.val) := by
  have hdot : ∀ part ∈ [x.a, x.b, x.c, x.d].map fun n => Nat.toDigits 10 n.val, '.' ∉ part := by
    intro part hpart hmem
    have ⟨n, _, heq⟩ := List.mem_map.mp hpart
    rw [← heq] at hmem
    have := Nat.isDigit_of_mem_toDigits (by decide) (by decide) hmem
    revert this
    decide
  rw [matchV4, V4.text, List.splitOn_intercalate '.' hdot (by simp)]
  simp only [List.map_cons, List.map_nil]
  rw [if_pos (by simp [isOctet_toDigits])]
  simp [number, Nat.ofDigitChars_ten_toDigits]

end Match

section Texts

variable {ip : Text}

theorem classifyAddress_eq (h : matchV4 ip = none) : classifyAddress ip =
    if toLowerCase ip = [':', ':', '1'] then .local
    else if toLowerCase ip = [':', ':'] then .local
    else if ['f', 'e', '8', '0'].isPrefixOf (toLowerCase ip) then .private
    else if ['f', 'c'].isPrefixOf (toLowerCase ip) || ['f', 'd'].isPrefixOf (toLowerCase ip) then .private
    else if toLowerCase ip = [':', ':'] ∨
        [':', ':', 'f', 'f', 'f', 'f', ':'].isPrefixOf (toLowerCase ip) = true then
      match ((toLowerCase ip).splitOn ':').getLast? with
      | some mapped => classifyAddress mapped
      | none        => .local
    else .public := by
  rw [classifyAddress, h]
  dsimp only
  congr 4
  split
  case isFalse => rfl
  case isTrue  =>
    split
    case h_1 mapped hlast => rw [hlast]
    case h_2 hlast        => rw [hlast]

theorem classifyAddress_v4 (x : V4) : classifyAddress x.text = classifyV4 x.a x.b x.c := by
  rw [classifyAddress, matchV4_text]

theorem toLowerCase_eq (h : ∀ c ∈ ip, c.toLower = c) : toLowerCase ip = ip := by
  rw [toLowerCase]
  conv => rhs; rw [← List.map_id ip]
  exact List.map_congr_left h

theorem lower_text (x : V4) : ∀ c ∈ x.text, c.toLower = c := by
  intro c hc
  rcases mem_text c hc with h | h
  · have hle : c.val ≤ '9'.val := by
      simp only [Char.isDigit, Bool.and_eq_true, decide_eq_true_eq] at h
      exact h.right
    exact dif_neg fun hupper => absurd (UInt32.le_trans hupper.left hle) (by decide)
  · rw [h]
    decide

-- What comes after the last colon.
theorem getLast?_splitOn {l r : Text} (h : ':' ∉ r) : ((l ++ ':' :: r).splitOn ':').getLast? = some r := by
  rw [List.splitOn_append_cons_self, List.splitOn_eq_singleton h, List.getLast?_concat]

-- How a group of hexadecimal digits looks.
def LooksPrivate (g : Nat) : Prop :=
  g = 0xfe80 ∨ g / 2 = 0x7e ∨ g / 0x20 = 0x7e ∨ g / 0x200 = 0x7e

instance {g : Nat} : Decidable (LooksPrivate g) :=
  inferInstanceAs <| Decidable (_ ∨ _)

theorem looksPrivate_iff {g : Nat} (h : g < 65536) : LooksPrivate g ↔
    ['f', 'e', '8', '0'] <+: hexGroup g ∨ ['f', 'c'] <+: hexGroup g ∨ ['f', 'd'] <+: hexGroup g := by
  rw [fe80_prefix_iff h, fc_fd_prefix_iff h]
  rfl

-- What begins with no colon is private or public by its first group.
theorem classifyAddress_group {g : Nat} (rest : Text) (hg : g < 65536)
    (hip : ip = hexGroup g ∨ ip = hexGroup g ++ ':' :: rest) (hlower : toLowerCase ip = ip)
    (hnone : matchV4 ip = none) :
    classifyAddress ip = if LooksPrivate g then .private else .public := by
  have hhead (l : Text) : ¬ ':' :: l <+: ip := by
    intro hpre
    have ⟨c, cs, hcs⟩ := List.exists_cons_of_ne_nil (hexGroup_ne_nil (n := g))
    have hc := (mem_hexGroup hg (hcs ▸ List.mem_cons_self ..)).left
    rcases hip with hip | hip
    · rw [hip, hcs] at hpre
      exact hc (List.cons_prefix_cons.mp hpre).left.symm
    · rw [hip, hcs, List.cons_append] at hpre
      exact hc (List.cons_prefix_cons.mp hpre).left.symm
  have hpre (p : Text) (hp : ':' ∉ p) : p <+: ip ↔ p <+: hexGroup g := by
    rcases hip with hip | hip
    · rw [hip]
    · rw [hip]
      exact ⟨prefix_of_prefix_colon hp, fun h => h.trans <| List.prefix_append _ _⟩
  have hone : ip ≠ [':', ':', '1'] := fun h => hhead [':', '1'] <| h ▸ List.prefix_rfl
  have htwo : ip ≠ [':', ':'] := fun h => hhead [':'] <| h ▸ List.prefix_rfl
  have hmapped : ¬(ip = [':', ':'] ∨ [':', ':', 'f', 'f', 'f', 'f', ':'].isPrefixOf ip = true) :=
    fun h => h.elim htwo fun h => hhead _ <| List.isPrefixOf_iff_prefix.mp h
  rw [classifyAddress_eq hnone, hlower, if_neg hone, if_neg htwo, if_neg hmapped]
  simp only [Bool.or_eq_true, List.isPrefixOf_iff_prefix, hpre _ (by decide : ':' ∉ ['f', 'e', '8', '0']),
    hpre _ (by decide : ':' ∉ ['f', 'c']), hpre _ (by decide : ':' ∉ ['f', 'd'])]
  have hlooks := looksPrivate_iff hg
  by_cases hprivate : LooksPrivate g
  case pos =>
    rw [if_pos hprivate]
    rcases hlooks.mp hprivate with h | h
    · rw [if_pos h]
    · rw [if_pos h]
      split <;> rfl
  case neg =>
    rw [if_neg hprivate, if_neg fun h => hprivate <| hlooks.mpr (.inl h),
      if_neg fun h => hprivate <| hlooks.mpr (.inr h)]

-- What begins as a mapped address is judged by what comes after its last colon.
theorem classifyAddress_ffff {t r : Text} (hip : ip = [':', ':', 'f', 'f', 'f', 'f', ':'] ++ t)
    (hlower : toLowerCase ip = ip) (hlast : (ip.splitOn ':').getLast? = some r) :
    classifyAddress ip = classifyAddress r := by
  have hpre : [':', ':', 'f', 'f', 'f', 'f', ':'].isPrefixOf ip = true := by
    rw [List.isPrefixOf_iff_prefix, hip]
    exact List.prefix_append _ _
  have hnone : matchV4 ip = none := matchV4_eq_none_of_colon <| hip ▸ List.mem_cons_self ..
  rw [classifyAddress_eq hnone, hlower]
  have h₁ : ip ≠ [':', ':', '1'] := by simp [hip]
  have h₂ : ip ≠ [':', ':'] := by simp [hip]
  have h₃ : ¬['f', 'e', '8', '0'].isPrefixOf ip = true := by simp [hip]
  have h₄ : ¬(['f', 'c'].isPrefixOf ip || ['f', 'd'].isPrefixOf ip) = true := by simp [hip]
  rw [if_neg h₁, if_neg h₂, if_neg h₃, if_neg h₄, if_pos (.inr hpre), hlast]

-- What begins with two colons otherwise is public.
theorem classifyAddress_short {rest : Text} (hip : ip = [':', ':'] ++ rest) (hlower : toLowerCase ip = ip)
    (hone : rest ≠ [] ∧ rest ≠ ['1']) (hffff : ¬['f', 'f', 'f', 'f', ':'] <+: rest) :
    classifyAddress ip = .public := by
  have hnone : matchV4 ip = none := matchV4_eq_none_of_colon <| hip ▸ List.mem_cons_self ..
  have h₁ : ip ≠ [':', ':', '1'] := by simp [hip, hone.right]
  have h₂ : ip ≠ [':', ':'] := by simp [hip, hone.left]
  have h₃ : ¬['f', 'e', '8', '0'].isPrefixOf ip = true := by simp [hip]
  have h₄ : ¬(['f', 'c'].isPrefixOf ip || ['f', 'd'].isPrefixOf ip) = true := by simp [hip]
  have h₅ : ¬(ip = [':', ':'] ∨ [':', ':', 'f', 'f', 'f', 'f', ':'].isPrefixOf ip = true) := by
    rintro (h | h)
    · exact h₂ h
    · rw [List.isPrefixOf_iff_prefix, hip] at h
      exact hffff <| (List.prefix_append_right_inj [':', ':']).mp h
  rw [classifyAddress_eq hnone, hlower, if_neg h₁, if_neg h₂, if_neg h₃, if_neg h₄, if_neg h₅]

end Texts

section V6

variable {x : V6}

theorem toLowerCase_text (x : V6) : toLowerCase x.text = x.text := by
  refine toLowerCase_eq fun c hc => ?_
  have hcolons (l : Text) (hl : l.all (fun c => c.toLower = c) = true) (hc : c ∈ l ++ x.low.text) :
      c.toLower = c := by
    rcases List.mem_append.mp hc with hc | hc
    · simpa using List.all_eq_true.mp hl c hc
    · exact lower_text x.low c hc
  rw [V6.text] at hc
  split at hc
  case isTrue  => exact hcolons _ (by decide) hc
  case isFalse =>
    split at hc
    case isTrue  => exact hcolons _ (by decide) hc
    case isFalse => exact (V6.mem_hexText hc).right

-- The class of an address as a lookup presents it.
def classOf (x : V6) : Classification :=
  if x.Unspecified ∨ x.Loopback then .local
  else if x.Mapped then classifyV4 x.low.a x.low.b x.low.c
  else if LooksPrivate x.g₀ ∨ x.Padded ∧ LooksPrivate x.g₇ then .private
  else .public

theorem classifyAddress_v6 (x : V6) : classifyAddress x.text = classOf x := by
  cases x.text_shape
  case unspecified is text =>
    have hnone : matchV4 x.text = none := matchV4_eq_none_of_colon <| text ▸ List.mem_cons_self ..
    rw [classOf, if_pos (.inl is), classifyAddress_eq hnone, text]
    rfl
  case loopback is text =>
    have hnone : matchV4 x.text = none := matchV4_eq_none_of_colon <| text ▸ List.mem_cons_self ..
    rw [classOf, if_pos (.inr is), classifyAddress_eq hnone, text]
    rfl
  case mapped is text =>
    have hcolon : ':' ∉ x.low.text := by
      intro h
      have := mem_text _ h
      revert this
      decide
    have hlast : (x.text.splitOn ':').getLast? = some x.low.text := by
      rw [text]
      exact getLast?_splitOn (l := [':', ':', 'f', 'f', 'f', 'f']) hcolon
    have hother : ¬(x.Unspecified ∨ x.Loopback) := by
      have := is.zeros_eq
      rintro (h | h)
      · rw [h.zeros_eq] at this
        cases this
      · rw [h.zeros_eq] at this
        cases this
    rw [classifyAddress_ffff text (toLowerCase_text x) hlast, classifyAddress_v4, classOf, if_neg hother,
      if_pos is]
  case padded is gs lt text =>
    have ⟨hfirst, hunspecified, hloopback, hmapped, _⟩ := is.other
    have hcolon : ':' ∉ hexGroup x.g₇ := fun h => (mem_hexGroup x.g₇.isLt h).left rfl
    have hlast : (x.text.splitOn ':').getLast? = some (hexGroup x.g₇) := by
      rw [text]
      by_cases hgs : gs = []
      case pos =>
        rw [hgs, List.nil_append, join_singleton]
        exact getLast?_splitOn (l := [':', ':', 'f', 'f', 'f', 'f']) hcolon
      case neg =>
        rw [join_concat hgs, ← List.append_assoc]
        exact getLast?_splitOn hcolon
    have hlower : toLowerCase (hexGroup x.g₇) = hexGroup x.g₇ :=
      toLowerCase_eq fun c hc => (mem_hexGroup x.g₇.isLt hc).right.right.right
    have hnone : matchV4 (hexGroup x.g₇) = none := by
      have hdot : '.' ∉ hexGroup x.g₇ := fun h => (mem_hexGroup x.g₇.isLt h).right.left rfl
      rw [matchV4, List.splitOn_eq_singleton hdot]
    have hzero : ¬LooksPrivate (0 : Fin 65536) := by decide
    rw [classifyAddress_ffff text (toLowerCase_text x) hlast,
      classifyAddress_group [] x.g₇.isLt (.inl rfl) hlower hnone, classOf,
      if_neg (not_or.mpr ⟨hunspecified, hloopback⟩), if_neg hmapped, hfirst]
    simp only [hzero, is, true_and, false_or]
  case short rest text first one ffff other =>
    have ⟨hunspecified, hloopback, hmapped, hpadded⟩ := other
    have hzero : ¬LooksPrivate (0 : Fin 65536) := by decide
    rw [classifyAddress_short text (toLowerCase_text x) one ffff, classOf,
      if_neg (not_or.mpr ⟨hunspecified, hloopback⟩), if_neg hmapped, first]
    simp only [hzero, hpadded, false_and, or_self, if_false]
  case full rest text other =>
    have ⟨hunspecified, hloopback, hmapped, hpadded⟩ := other
    have hnone : matchV4 x.text = none := by
      refine matchV4_eq_none_of_colon ?_
      rw [text]
      exact List.mem_append_right _ <| List.mem_cons_self ..
    rw [classifyAddress_group _ x.g₀.isLt (.inr text) (toLowerCase_text x) hnone, classOf,
      if_neg (not_or.mpr ⟨hunspecified, hloopback⟩), if_neg hmapped]
    simp only [hpadded, false_and, or_false]

-- The brackets of a URL hide an address.
theorem classifyAddress_brackets (x : V6) :
    classifyAddress (Host.v6 x).hostname = .public ∧ looksLikeIp (Host.v6 x).hostname = true := by
  have hcolon : ':' ∈ (Host.v6 x).hostname :=
    List.mem_cons_of_mem _ <| List.mem_append_left _ V6.colon_mem_hexText
  have hlower : toLowerCase (Host.v6 x).hostname = '[' :: toLowerCase (x.hexText ++ [']']) := rfl
  constructor
  · rw [classifyAddress_eq (matchV4_eq_none_of_colon hcolon), hlower]
    simp
  · simp [looksLikeIp, hcolon]

theorem looksLikeIp_v4 (x : V4) : looksLikeIp x.text = true := by
  simp [looksLikeIp, matchV4_text]

end V6

end Network
