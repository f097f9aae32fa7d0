import NeoTavern.Lib.Assoc
import NeoTavern.Lib.Lists
import NeoTavern.Lib.Runs

namespace RemoteHttp

-- Two digits for each byte.
def hex (bytes : List UInt8) : String :=
  .ofList <| bytes.flatMap fun b => [Nat.digitChar (b.toNat / 16), Nat.digitChar (b.toNat % 16)]

inductive AuthError
  | limitReached
  | entropyUnavailable
  deriving DecidableEq

section

variable {δ : Type} [DecidableEq δ]

-- A token is kept as its digest only.
structure Credential (δ : Type) where
  id       : String
  verifier : δ
  revoked  : Bool
  deriving DecidableEq

structure PairingStore (δ : Type) where
  maxCredentials : Nat
  credentials    : List (String × Credential δ) := []
  deriving DecidableEq

namespace PairingStore

variable (store : PairingStore δ) (digest : String → δ)

-- What `getrandom` fills the token and the id with, if it does.
def pair (token id : Option (List UInt8)) : Except AuthError ((String × String) × PairingStore δ) :=
  match token, id with
  | some token, some idBytes =>
    let id := hex idBytes
    let tokenHex := hex token
    if store.credentials.length ≥ store.maxCredentials then
      throw .limitReached
    else
      return ((id, tokenHex),
        { store with credentials := Assoc.set store.credentials id ⟨id, digest tokenHex, false⟩ })
  | _, _                     => throw .entropyUnavailable

def revoke (id : String) : Bool × PairingStore δ :=
  match Assoc.get store.credentials id with
  | some cred => (true, { store with credentials := Assoc.set store.credentials id { cred with revoked := true } })
  | none      => (false, store)

-- The last one of the credentials with the digest counts.
def verify (it : Iteration (String × Credential δ)) (token : String) : Option String :=
  let matched := (it.order store.credentials).foldl (fun matched e =>
    if digest token = e.snd.verifier then some e.snd else matched) none
  (matched.filter fun cred => !cred.revoked).map (·.id)

def isLive (id : String) : Bool :=
  (Assoc.get store.credentials id).any fun cred => !cred.revoked

end PairingStore
end
end RemoteHttp

namespace RemoteHttp

-- What the random bytes are. No two ids are the same.
structure Entropy where
  token    : Nat → List UInt8
  id       : Nat → List UInt8
  distinct : ∀ i j, hex (id i) = hex (id j) → i = j

-- A token that has been given out.
structure Issue where
  id      : String
  token   : String
  revoked : Bool
  deriving DecidableEq

structure PairingWorld (δ : Type) where
  store  : PairingStore δ
  drawn  : Nat := 0
  issued : List Issue := []

section

variable {δ : Type} (digest : String → δ) (entropy : Entropy)

def PairingStore.live (store : PairingStore δ) : Nat :=
  (store.credentials.filter fun e => !e.snd.revoked).length

namespace PairingWorld

inductive Event
  | pair
  | revoke (id : String)
  deriving DecidableEq

def step (w : PairingWorld δ) : Event → PairingWorld δ
  | .pair      =>
    match w.store.pair digest (some <| entropy.token w.drawn) (some <| entropy.id w.drawn) with
    | .ok ((id, token), store) => ⟨store, w.drawn + 1, w.issued ++ [⟨id, token, false⟩]⟩
    | .error _                 => { w with drawn := w.drawn + 1 }
  | .revoke id =>
    { w with
      store  := (w.store.revoke id).snd
      issued := w.issued.map fun i => if i.id = id then { i with revoked := true } else i
    }

def start (δ : Type) (maxCredentials : Nat) : PairingWorld δ :=
  ⟨⟨maxCredentials, []⟩, 0, []⟩

-- No two tokens that have been given out share the digest of the token, and none but itself has it.
def Unambiguous (w : PairingWorld δ) (token : String) : Prop :=
  ∀ i ∈ w.issued, digest i.token = digest token →
    i.token = token ∧ ∀ j ∈ w.issued, digest j.token = digest token → j = i

structure Faithful [DecidableEq δ] (w : PairingWorld δ) : Prop where
  bounded : w.store.live ≤ w.store.maxCredentials
  verify  : ∀ it token id, w.Unambiguous digest token →
    (w.store.verify digest it token = some id ↔ ⟨id, token, false⟩ ∈ w.issued)
  room    : w.store.live < w.store.maxCredentials → ∀ token id,
    ∃ r, w.store.pair digest (some token) (some id) = .ok r

-- A store that is full has no credential that is revoked.
def Roomy (w : PairingWorld δ) : Event → Prop
  | .pair      => w.store.credentials.length + 1 = w.store.maxCredentials →
    ∀ e ∈ w.store.credentials, e.snd.revoked = false
  | .revoke id => w.store.credentials.length = w.store.maxCredentials →
    Assoc.get w.store.credentials id = none

def entry (i : Issue) : String × Credential δ :=
  (i.id, ⟨i.id, digest i.token, i.revoked⟩)

-- The store is what has been given out, without the tokens.
structure Kept (w : PairingWorld δ) : Prop where
  credentials : w.store.credentials = w.issued.map (entry digest)
  ids         : (w.issued.map (·.id)).Nodup
  drawn       : ∀ i ∈ w.issued, ∃ k < w.drawn, i.id = hex (entropy.id k)
  length      : w.store.credentials.length ≤ w.store.maxCredentials

end PairingWorld

section Verify

variable [DecidableEq δ] {digest} {store : PairingStore δ} {it : Iteration (String × Credential δ)} {token : String}

theorem foldl_last {α β : Type} {p : α → Prop} [DecidablePred p] {f : α → β} (l : List α) (m : Option β) :
    l.foldl (fun m e => if p e then some (f e) else m) m = ((l.filter p).getLast?.map f).or m := by
  induction l generalizing m
  case nil         => rfl
  case cons e l ih =>
    rw [List.foldl_cons, ih, List.filter_cons]
    by_cases hp : p e
    case neg => simp [hp]
    case pos =>
      simp only [hp, decide_true, if_true]
      cases hl : l.filter p
      case nil       => rfl
      case cons x xs => simp [List.getLast?_cons]

-- A digest that no credential has, and one that a single one has.
theorem verify_of_none (h : ∀ e ∈ store.credentials, digest token ≠ e.snd.verifier) :
    store.verify digest it token = none := by
  have hnil : (it.order store.credentials).filter (fun e => digest token = e.snd.verifier) = [] := by
    simpa using h
  rw [PairingStore.verify, foldl_last, hnil]
  rfl

theorem verify_of_single {e : String × Credential δ}
    (h : store.credentials.filter (fun e => digest token = e.snd.verifier) = [e]) :
    store.verify digest it token = if e.snd.revoked then none else some e.snd.id := by
  have hperm := (it.perm store.credentials).filter fun e => digest token = e.snd.verifier
  rw [h] at hperm
  rw [PairingStore.verify, foldl_last, List.perm_singleton.mp hperm]
  cases hr : e.snd.revoked
  case false => simp [hr]
  case true  => simp [hr]

end Verify

theorem filter_eq_singleton {α : Type} {p : α → Bool} {l : List α} {a : α} (hn : l.Nodup) (ha : a ∈ l)
    (hp : p a) (h : ∀ b ∈ l, p b → b = a) : l.filter p = [a] := by
  have hmem : a ∈ l.filter p := List.mem_filter.mpr ⟨ha, hp⟩
  have hall : ∀ b ∈ l.filter p, b = a := fun b hb => h b (List.mem_filter.mp hb).left (List.mem_filter.mp hb).right
  have hnodup := hn.filter p
  match hl : l.filter p with
  | []           => exact absurd (hl ▸ hmem) List.not_mem_nil
  | [b]          => rw [hall b (hl ▸ List.mem_cons_self)]
  | b :: c :: bs =>
    rw [hl] at hall hnodup
    have hb := hall b List.mem_cons_self
    have hc := hall c <| List.mem_cons_of_mem _ List.mem_cons_self
    rw [hb, hc] at hnodup
    simp at hnodup

namespace PairingWorld

variable {digest} {entropy} {w : PairingWorld δ}

theorem live_lt_iff : w.store.live < w.store.credentials.length ↔
    ∃ e ∈ w.store.credentials, e.snd.revoked = true := by
  rw [PairingStore.live, List.length_filter_lt_length_iff_exists]
  simp

theorem Kept.verify [DecidableEq δ] (hk : Kept digest entropy w) {it : Iteration (String × Credential δ)} {token id : String}
    (hu : w.Unambiguous digest token) :
    w.store.verify digest it token = some id ↔ ⟨id, token, false⟩ ∈ w.issued := by
  by_cases h : ∃ i ∈ w.issued, digest i.token = digest token
  case pos =>
    have ⟨i, hi, hdigest⟩ := h
    obtain ⟨rfl, hsame⟩  := hu i hi hdigest
    have hsingle : w.issued.filter (fun j => digest i.token = digest j.token) = [i] :=
      filter_eq_singleton hk.ids.of_map hi (decide_eq_true rfl) fun j hj hp =>
        hsame j hj (of_decide_eq_true hp).symm
    have hfilter : w.store.credentials.filter (fun e => digest i.token = e.snd.verifier) =
        [entry digest i] := by
      rw [hk.credentials, List.filter_map]
      exact congrArg (List.map (entry digest)) hsingle
    rw [verify_of_single hfilter]
    cases hr : i.revoked
    case false =>
      simp only [entry, hr, Bool.false_eq_true, if_false, Option.some.injEq]
      constructor
      · rintro rfl
        exact hr ▸ hi
      · intro hmem
        exact (congrArg Issue.id <| hsame _ hmem rfl).symm
    case true  =>
      simp only [entry, hr, if_true]
      refine iff_of_false nofun fun hmem => ?_
      have hno := congrArg Issue.revoked <| hsame _ hmem rfl
      rw [hr] at hno
      cases hno
  case neg =>
    have hnone : ∀ e ∈ w.store.credentials, digest token ≠ e.snd.verifier := by
      rw [hk.credentials]
      intro e he heq
      obtain ⟨i, hi, rfl⟩ := List.mem_map.mp he
      exact h ⟨i, hi, heq.symm⟩
    rw [verify_of_none hnone]
    exact iff_of_false nofun fun hmem => h ⟨_, hmem, rfl⟩

theorem pair_isOk_iff {store : PairingStore δ} {token id : List UInt8} :
    (∃ r, store.pair digest (some token) (some id) = .ok r) ↔
    store.credentials.length < store.maxCredentials := by
  rw [PairingStore.pair]
  split
  case isTrue h  => exact iff_of_false nofun <| Nat.not_lt.mpr h
  case isFalse h => exact iff_of_true ⟨_, rfl⟩ <| Nat.not_le.mp h

-- All that may go wrong is that revoked credentials fill the store.
theorem Kept.faithful_iff [DecidableEq δ] (hk : Kept digest entropy w) : Faithful digest w ↔
    (w.store.credentials.length = w.store.maxCredentials →
      ∀ e ∈ w.store.credentials, e.snd.revoked = false) := by
  have hle := hk.length
  have hlive : w.store.live ≤ w.store.credentials.length := List.length_filter_le ..
  constructor
  case mp  =>
    intro hf hfull e he
    by_contra hr
    have hlt := live_lt_iff.mpr ⟨e, he, by simpa using hr⟩
    have := pair_isOk_iff.mp <| hf.room (by omega) [] []
    omega
  case mpr =>
    intro hfull
    refine ⟨by omega, fun it token id hu => hk.verify hu, fun hlt token id => pair_isOk_iff.mpr ?_⟩
    by_contra hge
    have heq : w.store.credentials.length = w.store.maxCredentials := by omega
    have hlive : w.store.live < w.store.credentials.length := by omega
    have ⟨e, he, hr⟩ := live_lt_iff.mp hlive
    rw [hfull heq e he] at hr
    cases hr

section Step

theorem Kept.start (n : Nat) : Kept digest entropy (start δ n) where
  credentials := rfl
  ids         := List.nodup_nil
  drawn       := fun _ h => by cases h
  length      := Nat.zero_le _

theorem Kept.get_new (hk : Kept digest entropy w) :
    Assoc.get w.store.credentials (hex <| entropy.id w.drawn) = none := by
  rw [Assoc.get_eq_none_iff, hk.credentials]
  intro e he heq
  obtain ⟨i, hi, rfl⟩ := List.mem_map.mp he
  have ⟨k, hlt, hid⟩  := hk.drawn i hi
  exact Nat.ne_of_lt hlt <| entropy.distinct _ _ <| hid.symm.trans heq

theorem Kept.step_pair (hk : Kept digest entropy w) :
    (w.store.credentials.length < w.store.maxCredentials ∧ w.step digest entropy .pair = ⟨
      { w.store with credentials := w.store.credentials ++ [entry digest
        ⟨hex <| entropy.id w.drawn, hex <| entropy.token w.drawn, false⟩] }, w.drawn + 1,
      w.issued ++ [⟨hex <| entropy.id w.drawn, hex <| entropy.token w.drawn, false⟩]⟩) ∨
    ¬w.store.credentials.length < w.store.maxCredentials ∧
      w.step digest entropy .pair = { w with drawn := w.drawn + 1 } := by
  have hnew := hk.get_new
  by_cases hlt : w.store.credentials.length < w.store.maxCredentials
  case pos =>
    refine .inl ⟨hlt, ?_⟩
    simp only [step, PairingStore.pair, if_neg (Nat.not_le.mpr hlt), Assoc.set, hnew]
    rfl
  case neg =>
    refine .inr ⟨hlt, ?_⟩
    simp only [step, PairingStore.pair, if_pos (Nat.not_lt.mp hlt)]
    rfl

-- What a revocation does to the credentials it does to what has been given out.
theorem Kept.revoked (hk : Kept digest entropy w) (id : String) :
    (w.store.revoke id).snd.credentials =
    (w.issued.map fun i => if i.id = id then { i with revoked := true } else i).map (entry digest) := by
  have hnodup : (w.store.credentials.map (·.fst)).Nodup := by
    rw [hk.credentials, List.map_map]
    exact hk.ids
  rw [PairingStore.revoke]
  split
  case h_2 hnone =>
    rw [Assoc.get_eq_none_iff, hk.credentials] at hnone
    have hsame : w.issued.map (fun i => if i.id = id then { i with revoked := true } else i) = w.issued := by
      conv_rhs => rw [← List.map_id w.issued]
      apply List.map_congr_left
      intro i hi
      exact if_neg <| hnone _ <| List.mem_map_of_mem hi
    rw [hsame, hk.credentials]
  case h_1 cred hsome =>
    simp only [Assoc.set, hsome, Option.isSome_some, if_true]
    conv_lhs => rw [hk.credentials]
    rw [List.map_map, List.map_map]
    apply List.map_congr_left
    intro i hi
    simp only [Function.comp_apply]
    by_cases hid : i.id = id
    case neg =>
      rw [if_neg hid]
      exact if_neg hid
    case pos =>
      rw [if_pos hid]
      subst hid
      have hmem : entry digest i ∈ w.store.credentials := hk.credentials ▸ List.mem_map_of_mem hi
      obtain rfl := Option.some.inj <| hsome.symm.trans <| Assoc.get_of_mem hnodup hmem
      exact if_pos rfl

theorem Kept.length_revoked (hk : Kept digest entropy w) (id : String) :
    (w.store.revoke id).snd.credentials.length = w.store.credentials.length := by
  rw [hk.revoked id, hk.credentials, List.length_map, List.length_map, List.length_map]

theorem maxCredentials_revoke (id : String) :
    (w.store.revoke id).snd.maxCredentials = w.store.maxCredentials := by
  rw [PairingStore.revoke]
  split <;> rfl

theorem Kept.step (hk : Kept digest entropy w) (e : Event) : Kept digest entropy (w.step digest entropy e) := by
  cases e
  case pair =>
    rcases hk.step_pair with ⟨hlt, heq⟩ | ⟨hge, heq⟩
    · rw [heq]
      constructor
      case credentials => simp only [hk.credentials, List.map_append, List.map_singleton]
      case ids         =>
        rw [List.map_append]
        refine List.nodup_append.mpr ⟨hk.ids, List.nodup_singleton _, fun id hid id' hid' heq => ?_⟩
        obtain ⟨i, hi, rfl⟩ := List.mem_map.mp hid
        have ⟨k, hlt, hk'⟩  := hk.drawn i hi
        have hnew := List.mem_singleton.mp hid'
        exact Nat.ne_of_lt hlt <| entropy.distinct _ _ <| hk'.symm.trans <| heq.trans hnew
      case drawn       =>
        intro i hi
        rcases List.mem_append.mp hi with hi | hi
        · have ⟨k, hlt, hid⟩ := hk.drawn i hi
          exact ⟨k, Nat.lt_succ_of_lt hlt, hid⟩
        · exact ⟨w.drawn, Nat.lt_succ_self _, List.mem_singleton.mp hi ▸ rfl⟩
      case length      =>
        rw [List.length_append]
        exact hlt
    · rw [heq]
      refine ⟨hk.credentials, hk.ids, fun i hi => ?_, hk.length⟩
      have ⟨k, hlt, hid⟩ := hk.drawn i hi
      exact ⟨k, Nat.lt_succ_of_lt hlt, hid⟩
  case revoke id =>
    have hids : (w.issued.map fun i => if i.id = id then { i with revoked := true } else i).map (·.id) =
        w.issued.map (·.id) := by
      rw [List.map_map]
      apply List.map_congr_left
      intro i _
      rw [Function.comp_apply]
      split <;> rfl
    constructor
    case credentials => exact hk.revoked id
    case ids         => exact hids ▸ hk.ids
    case drawn       =>
      intro i hi
      obtain ⟨j, hj, rfl⟩ := List.mem_map.mp hi
      have ⟨k, hlt, hid⟩  := hk.drawn j hj
      refine ⟨k, hlt, ?_⟩
      split
      case isTrue  => exact hid
      case isFalse => exact hid
    case length      =>
      have hlength : (w.store.revoke id).snd.credentials.length ≤ (w.store.revoke id).snd.maxCredentials := by
        rw [hk.length_revoked id, maxCredentials_revoke]
        exact hk.length
      exact hlength

theorem Kept.step_faithful_iff [DecidableEq δ] (hk : Kept digest entropy w) (hf : Faithful digest w)
    (e : Event) : Faithful digest (w.step digest entropy e) ↔ w.Roomy e := by
  rw [(hk.step e).faithful_iff]
  have hfull := hk.faithful_iff.mp hf
  have hle   := hk.length
  cases e
  case pair =>
    rcases hk.step_pair with ⟨hlt, heq⟩ | ⟨hge, heq⟩
    · rw [heq, Roomy]
      simp only [List.length_append, List.length_singleton, List.forall_mem_append, List.forall_mem_singleton]
      exact ⟨fun h hl => (h hl).left, fun h hl => ⟨h hl, rfl⟩⟩
    · rw [heq, Roomy]
      exact iff_of_true hfull fun hl => by omega
  case revoke id =>
    have hlength := hk.length_revoked id
    have hmax    := maxCredentials_revoke (w := w) id
    simp only [PairingWorld.step, Roomy, hlength, hmax]
    cases hget : Assoc.get w.store.credentials id
    case none      =>
      have hsame : (w.store.revoke id).snd = w.store := by rw [PairingStore.revoke, hget]
      rw [hsame]
      exact iff_of_true hfull fun _ => rfl
    case some cred =>
      -- The credential is there and is revoked now.
      have hmem : (id, { cred with revoked := true }) ∈ (w.store.revoke id).snd.credentials := by
        rw [PairingStore.revoke, hget]
        exact Assoc.mem_of_get Assoc.get_set_self
      constructor
      case mp  => exact fun h hl => absurd (h hl _ hmem) (by simp)
      case mpr => exact fun h hl => absurd (h hl) (by simp)

end Step

-- What the store promises holds throughout exactly if no credential that is revoked is ever in a full store.
theorem faithful_throughout_iff [DecidableEq δ] (n : Nat) (es : List Event) :
    Runs.Throughout (step digest entropy) (Faithful digest) (start δ n) es ↔
      Runs.Meets (step digest entropy) Roomy (start δ n) es := by
  have hk : Kept digest entropy (start δ n) := .start n
  have hstart : Faithful digest (start δ n) := hk.faithful_iff.mpr fun _ _ h => by cases h
  have hinv (w : PairingWorld δ) (e : Event) (hk : Kept digest entropy w) :
      Kept digest entropy (w.step digest entropy e) := hk.step e
  have hstep (w : PairingWorld δ) (e : Event) (hk : Kept digest entropy w) (hf : Faithful digest w) :
      Faithful digest (w.step digest entropy e) ↔ w.Roomy e := hk.step_faithful_iff hf e
  exact Runs.throughout_iff_meets hinv hstep hk hstart

def zeros : Entropy where
  token k      := List.replicate (k + 1) 0
  id k         := List.replicate (k + 1) 0
  distinct i j := by
    intro h
    have hlength := congrArg (fun s => s.toList.length) h
    simp only [hex, String.toList_ofList, List.length_flatMap] at hlength
    simp at hlength
    omega

-- The one place of a store is taken by a credential that is revoked.
theorem revoked_takes_place : ¬∀ (digest : String → String) (entropy : Entropy) (n : Nat) (es : List Event),
    Runs.Throughout (step digest entropy) (Faithful digest) (start String n) es := by
  intro h
  have hf := (h (fun s => s) zeros 1 [.pair, .revoke "00"]).last
  have hlt := pair_isOk_iff.mp <| hf.room (by decide +kernel) [] []
  revert hlt
  decide +kernel

end PairingWorld
end
end RemoteHttp
