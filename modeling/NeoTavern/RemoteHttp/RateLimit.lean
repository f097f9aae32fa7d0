import Mathlib
import NeoTavern.Lib.Assoc
import NeoTavern.Lib.Lists

namespace RemoteHttp

structure RateLimitConfig where
  requestsPerSecond : Nat := 10
  burst             : Nat := 20
  maxClients        : Nat := 1024
  deriving DecidableEq

-- Times are in seconds.
structure Bucket where
  tokens     : Rat
  lastRefill : Rat
  deriving DecidableEq

structure RateLimiter where
  config  : RateLimitConfig
  buckets : List (String × Bucket) := []
  deriving DecidableEq

-- The first one of those that have been refilled longest ago.
def stalest : List (String × Bucket) → Option (String × Bucket) :=
  List.foldl (fun stale e => match stale with
    | none   => some e
    | some s => if e.snd.lastRefill < s.snd.lastRefill then some e else some s) none

-- The key of the bucket that has to go, if there is one.
def evictStale (it : Iteration (String × Bucket)) (buckets : List (String × Bucket)) : Option String :=
  (stalest <| it.order buckets).map (·.fst)

namespace RateLimiter

variable (limiter : RateLimiter) (it : Iteration (String × Bucket)) (now : Rat) (key : String)

-- What makes room for a key: the key of the bucket that goes.
def evicted : Option String :=
  if (Assoc.get limiter.buckets key).isNone && limiter.buckets.length ≥ limiter.config.maxClients then
    evictStale it limiter.buckets
  else
    none

def bucket : Bucket :=
  (Assoc.get limiter.buckets key).getD ⟨limiter.config.burst, now⟩

-- The tokens of a bucket by now.
def refilled (b : Bucket) : Rat :=
  min (b.tokens + max 0 (now - b.lastRefill) * limiter.config.requestsPerSecond) limiter.config.burst

def allow : Bool × RateLimiter :=
  let buckets := (limiter.evicted it key).elim limiter.buckets (Assoc.delete limiter.buckets)
  let tokens := limiter.refilled now <| limiter.bucket now key
  if tokens ≥ 1 then
    (true, { limiter with buckets := Assoc.set buckets key ⟨tokens - 1, now⟩ })
  else
    (false, { limiter with buckets := Assoc.set buckets key ⟨tokens, now⟩ })

end RateLimiter
end RemoteHttp

namespace RemoteHttp

-- One call of `allow`, with the order in which it goes through the map.
structure Call where
  time : Rat
  key  : String
  it   : Iteration (String × Bucket)

-- What has come of a call.
structure Outcome where
  time     : Rat
  key      : String
  admitted : Bool
  evicted  : Option String
  deriving DecidableEq

namespace RateLimiter

def outcomes (limiter : RateLimiter) : List Call → List Outcome
  | []      => []
  | c :: cs =>
    let r := limiter.allow c.it c.time c.key
    ⟨c.time, c.key, r.fst, limiter.evicted c.it c.key⟩ :: r.snd.outcomes cs

def after (limiter : RateLimiter) (cs : List Call) : RateLimiter :=
  cs.foldl (fun limiter c => (limiter.allow c.it c.time c.key).snd) limiter

end RateLimiter

def within (t₁ t₂ : Rat) (o : Outcome) : Bool :=
  t₁ ≤ o.time && o.time ≤ t₂

-- The calls for a key that are admitted in a span of time.
def admittedIn (key : String) (t₁ t₂ : Rat) (os : List Outcome) : Nat :=
  os.countP fun o => within t₁ t₂ o && o.key = key && o.admitted

-- The times that the bucket of a key is evicted in a span of time.
def evictionsIn (key : String) (t₁ t₂ : Rat) (os : List Outcome) : Nat :=
  os.countP fun o => within t₁ t₂ o && o.evicted = some key

namespace RateLimiter

variable {limiter : RateLimiter} {it : Iteration (String × Bucket)} {now time t₁ t₂ : Rat} {key k : String}

-- No bucket holds more than it may, and none has been refilled after the time.
structure Kept (limiter : RateLimiter) (time : Rat) : Prop where
  nonneg : ∀ e ∈ limiter.buckets, 0 ≤ e.snd.tokens
  burst  : ∀ e ∈ limiter.buckets, e.snd.tokens ≤ limiter.config.burst
  time   : ∀ e ∈ limiter.buckets, e.snd.lastRefill ≤ time

-- What a key has by a time. A key without a bucket would get a full one.
def available (limiter : RateLimiter) (key : String) (time : Rat) : Rat :=
  (Assoc.get limiter.buckets key).elim limiter.config.burst (limiter.refilled time)

section Stalest

theorem stalest_isSome {l : List (String × Bucket)} (h : l ≠ []) : ∃ e ∈ l, stalest l = some e := by
  have hfold (l : List (String × Bucket)) (s : String × Bucket) : ∃ e, (e = s ∨ e ∈ l) ∧
      l.foldl (fun stale e => match stale with
        | none   => some e
        | some s => if e.snd.lastRefill < s.snd.lastRefill then some e else some s) (some s) = some e := by
    induction l generalizing s
    case nil         => exact ⟨s, .inl rfl, rfl⟩
    case cons e l ih =>
      rw [List.foldl_cons]
      dsimp only
      split
      case isTrue  =>
        have ⟨x, hx, heq⟩ := ih e
        exact ⟨x, .inr <| hx.elim (· ▸ List.mem_cons_self) (List.mem_cons_of_mem _), heq⟩
      case isFalse =>
        have ⟨x, hx, heq⟩ := ih s
        exact ⟨x, hx.imp_right <| List.mem_cons_of_mem _, heq⟩
  cases l
  case nil      => exact absurd rfl h
  case cons s l =>
    have ⟨e, he, heq⟩ := hfold l s
    exact ⟨e, he.elim (· ▸ List.mem_cons_self) (List.mem_cons_of_mem _), heq⟩

-- One of the keys of a map that is not empty goes.
variable (it) in
theorem evictStale_isSome {buckets : List (String × Bucket)} (h : buckets ≠ []) :
    ∃ e ∈ buckets, evictStale it buckets = some e.fst := by
  have hne : it.order buckets ≠ [] := fun hnil => h <| (hnil ▸ it.perm buckets).nil_eq.symm
  have ⟨e, he, heq⟩ := stalest_isSome hne
  exact ⟨e, it.mem_order.mp he, by rw [evictStale, heq]; rfl⟩

example : (stalest [("a", ⟨1, 2⟩), ("b", ⟨1, 1⟩)]).map (·.fst) = some "b" := by
  decide +kernel

end Stalest

section Refill

variable {b : Bucket}

theorem refilled_le : limiter.refilled time b ≤ limiter.config.burst :=
  min_le_right ..

theorem refilled_nonneg (h : 0 ≤ b.tokens) : 0 ≤ limiter.refilled time b := by
  have hgain : 0 ≤ max 0 (time - b.lastRefill) * limiter.config.requestsPerSecond :=
    mul_nonneg (le_max_left ..) (Nat.cast_nonneg _)
  exact le_min (add_nonneg h hgain) (Nat.cast_nonneg _)

-- What has just been refilled is what it holds.
theorem refilled_now {tokens : Rat} (h : tokens ≤ limiter.config.burst) :
    limiter.refilled time ⟨tokens, time⟩ = tokens := by
  simp [refilled, h]

-- A bucket gains no more than its rate allows.
theorem refilled_later (hb : b.lastRefill ≤ time) (h : time ≤ now) :
    limiter.refilled now b ≤ limiter.refilled time b + (now - time) * limiter.config.requestsPerSecond := by
  have hgain : 0 ≤ (now - time) * (limiter.config.requestsPerSecond : Rat) :=
    mul_nonneg (sub_nonneg.mpr h) (Nat.cast_nonneg _)
  rw [refilled, refilled, max_eq_right (sub_nonneg.mpr hb), max_eq_right (sub_nonneg.mpr <| hb.trans h)]
  rcases min_choice (b.tokens + (time - b.lastRefill) * (limiter.config.requestsPerSecond : Rat))
    limiter.config.burst with hmin | hmin
  · rw [hmin]
    refine (min_le_left ..).trans ?_
    linarith
  · rw [hmin]
    refine (min_le_right ..).trans ?_
    linarith

theorem Kept.available_nonneg (hk : limiter.Kept time) : 0 ≤ limiter.available k now := by
  rw [available]
  cases hget : Assoc.get limiter.buckets k
  case none   => exact Nat.cast_nonneg _
  case some b => exact refilled_nonneg <| hk.nonneg _ <| Assoc.mem_of_get hget

theorem available_le : limiter.available k now ≤ limiter.config.burst := by
  rw [available]
  cases Assoc.get limiter.buckets k
  case none => exact le_refl _
  case some => exact refilled_le

theorem Kept.available_later (hk : limiter.Kept time) (h : time ≤ now) :
    limiter.available k now ≤ limiter.available k time +
      (now - time) * limiter.config.requestsPerSecond := by
  have hgain : 0 ≤ (now - time) * (limiter.config.requestsPerSecond : Rat) :=
    mul_nonneg (sub_nonneg.mpr h) (Nat.cast_nonneg _)
  rw [available, available]
  cases hget : Assoc.get limiter.buckets k
  case none   => exact le_add_of_nonneg_right hgain
  case some b => exact refilled_later (hk.time _ <| Assoc.mem_of_get hget) h

end Refill

section Allow

-- What is left of the map when room has been made.
theorem mem_remaining {e : String × Bucket} {o : Option String}
    (h : e ∈ o.elim limiter.buckets (Assoc.delete limiter.buckets)) : e ∈ limiter.buckets := by
  cases o
  case none => exact h
  case some => exact (Assoc.mem_delete.mp h).left

theorem bucket_available :
    limiter.refilled now (limiter.bucket now key) = limiter.available key now := by
  rw [bucket, available]
  cases hget : Assoc.get limiter.buckets key
  case none   => exact refilled_now (le_refl _)
  case some b => rfl

theorem allow_config : (limiter.allow it now key).snd.config = limiter.config := by
  rw [allow]
  split
  case isTrue  => rfl
  case isFalse => rfl

-- What a call leaves to its key.
variable (limiter it now key) in
theorem allow_buckets : ∃ tokens, (limiter.allow it now key).snd.buckets =
      Assoc.set ((limiter.evicted it key).elim limiter.buckets (Assoc.delete limiter.buckets)) key
        ⟨tokens, now⟩ ∧
    tokens + (if (limiter.allow it now key).fst then 1 else 0) =
      limiter.refilled now (limiter.bucket now key) ∧
    ((limiter.allow it now key).fst → 1 ≤ limiter.refilled now (limiter.bucket now key)) := by
  rw [allow]
  split
  case isTrue h  => exact ⟨_, rfl, by simp, fun _ => h⟩
  case isFalse h => exact ⟨_, rfl, by simp, fun h => by cases h⟩

variable (it key) in
theorem Kept.allow (hk : limiter.Kept time) (h : time ≤ now) : (limiter.allow it now key).snd.Kept now := by
  have ⟨tokens, hbuckets, htokens, hone⟩ := allow_buckets limiter it now key
  have hle : limiter.refilled now (limiter.bucket now key) ≤ limiter.config.burst := refilled_le
  have hnonneg : 0 ≤ limiter.refilled now (limiter.bucket now key) :=
    bucket_available ▸ hk.available_nonneg
  have hrange : 0 ≤ tokens ∧ tokens ≤ limiter.config.burst := by
    cases hadmitted : (limiter.allow it now key).fst
    case false =>
      simp only [hadmitted, Bool.false_eq_true, if_false, add_zero] at htokens
      exact htokens ▸ ⟨hnonneg, hle⟩
    case true  =>
      have := hone hadmitted
      simp only [hadmitted, if_true] at htokens
      constructor <;> linarith
  constructor
  case nonneg =>
    rw [hbuckets]
    intro e he
    rcases Assoc.mem_set he with rfl | he
    · exact hrange.left
    · exact hk.nonneg e <| mem_remaining he
  case burst  =>
    rw [hbuckets, allow_config]
    intro e he
    rcases Assoc.mem_set he with rfl | he
    · exact hrange.right
    · exact hk.burst e <| mem_remaining he
  case time   =>
    rw [hbuckets]
    intro e he
    rcases Assoc.mem_set he with rfl | he
    · exact le_refl _
    · exact (hk.time e <| mem_remaining he).trans h

theorem available_of_get {limiter' : RateLimiter} (hc : limiter'.config = limiter.config)
    (h : Assoc.get limiter'.buckets k = Assoc.get limiter.buckets k) :
    limiter'.available k now = limiter.available k now := by
  have hrefilled (b : Bucket) : limiter'.refilled now b = limiter.refilled now b := by
    rw [refilled, refilled, hc]
  rw [available, available, h, hc]
  cases Assoc.get limiter.buckets k
  case none   => rfl
  case some b => exact hrefilled b

-- A call that is admitted takes one of the tokens of its key.
theorem Kept.available_self (hk : limiter.Kept time) (h : time ≤ now) :
    (limiter.allow it now key).snd.available key now + (if (limiter.allow it now key).fst then 1 else 0) =
      limiter.available key now := by
  have ⟨tokens, hbuckets, htokens, _⟩ := allow_buckets limiter it now key
  have hget : Assoc.get (limiter.allow it now key).snd.buckets key = some ⟨tokens, now⟩ :=
    hbuckets ▸ Assoc.get_set_self
  have hburst := (hk.allow it key h).burst _ <| Assoc.mem_of_get hget
  have havailable : (limiter.allow it now key).snd.available key now = tokens := by
    rw [available, hget]
    exact refilled_now hburst
  rw [havailable, htokens, bucket_available]

-- Another key has as much as before, unless its bucket has gone.
theorem Kept.available_other (hk : limiter.Kept time) (hne : k ≠ key) :
    (limiter.allow it now key).snd.available k now ≤ limiter.available k now +
      (if limiter.evicted it key = some k then (limiter.config.burst : Rat) else 0) := by
  by_cases hevicted : limiter.evicted it key = some k
  case pos =>
    rw [if_pos hevicted]
    have hle : (limiter.allow it now key).snd.available k now ≤ limiter.config.burst :=
      allow_config ▸ available_le
    have hnonneg : 0 ≤ limiter.available k now := hk.available_nonneg
    linarith
  case neg =>
    have ⟨tokens, hbuckets, _⟩ := allow_buckets limiter it now key
    have hget : Assoc.get (limiter.allow it now key).snd.buckets k = Assoc.get limiter.buckets k := by
      rw [hbuckets, Assoc.get_set_of_ne hne]
      cases he : limiter.evicted it key
      case none   => rfl
      case some l => exact Assoc.get_delete_of_ne fun heq => hevicted <| heq ▸ he
    rw [if_neg hevicted, add_zero, available_of_get allow_config hget]

-- What a call takes from what a key has by then. It is given a full bucket for the one that is evicted.
variable (it key k) in
theorem Kept.taken_le (hk : limiter.Kept time) (h : time ≤ now) :
    (if key = k ∧ (limiter.allow it now key).fst then (1 : Rat) else 0) +
      (limiter.allow it now key).snd.available k now ≤
    limiter.available k now + limiter.config.burst * (if limiter.evicted it key = some k then 1 else 0) := by
  by_cases hkey : key = k
  case pos =>
    subst hkey
    have hself : (limiter.allow it now key).snd.available key now +
      (if (limiter.allow it now key).fst then 1 else 0) = limiter.available key now := hk.available_self h
    have hevicted : 0 ≤ (limiter.config.burst : Rat) * (if limiter.evicted it key = some key then 1 else 0) := by
      split <;> simp
    simp only [true_and]
    linarith
  case neg =>
    have hother : (limiter.allow it now key).snd.available k now ≤ limiter.available k now +
      (if limiter.evicted it key = some k then (limiter.config.burst : Rat) else 0) :=
        hk.available_other fun heq => hkey heq.symm
    simpa [hkey, mul_ite] using hother

variable (it) in
theorem evicted_of_full (hnew : Assoc.get limiter.buckets key = none)
    (hfull : limiter.config.maxClients ≤ limiter.buckets.length) (hmax : 1 ≤ limiter.config.maxClients) :
    ∃ e ∈ limiter.buckets, limiter.evicted it key = some e.fst := by
  have hne : limiter.buckets ≠ [] := by
    intro hnil
    rw [hnil] at hfull
    exact Nat.not_succ_le_zero _ <| hmax.trans hfull
  have ⟨e, he, heq⟩ := evictStale_isSome it hne
  refine ⟨e, he, ?_⟩
  rw [evicted, hnew]
  simpa [hfull] using heq

-- A new key takes the place of another one when there is no more room.
theorem length_allow (hmax : 1 ≤ limiter.config.maxClients)
    (h : limiter.buckets.length ≤ limiter.config.maxClients) :
    (limiter.allow it now key).snd.buckets.length ≤ limiter.config.maxClients := by
  obtain ⟨tokens, hbuckets, _⟩ := allow_buckets limiter it now key
  rw [hbuckets, Assoc.length_set]
  cases hget : Assoc.get limiter.buckets key
  case some b =>
    have hnone : limiter.evicted it key = none := by simp [evicted, hget]
    rw [hnone]
    simpa [hget] using h
  case none   =>
    by_cases hfull : limiter.config.maxClients ≤ limiter.buckets.length
    case pos =>
      obtain ⟨e, he, heq⟩ := evicted_of_full it hget hfull hmax
      rw [heq]
      have hlt : (Assoc.delete limiter.buckets e.fst).length < limiter.buckets.length :=
        List.length_filter_lt_length_iff_exists.mpr ⟨e, he, by simp⟩
      split
      case isTrue  => exact hlt.le.trans h
      case isFalse => exact hlt.trans_le h
    case neg =>
      have hnone : limiter.evicted it key = none := by simp [evicted, hfull]
      rw [hnone]
      simp [hget]
      omega

end Allow

section Run

variable {cs : List Call} {c : Call}

theorem outcomes_times : (limiter.outcomes cs).map (·.time) = cs.map (·.time) := by
  induction cs generalizing limiter
  case nil          => rfl
  case cons c cs ih => exact congrArg (c.time :: ·) ih

-- What comes after a span of time is not counted in it.
theorem admittedIn_later (h : ∀ c ∈ cs, t₂ < c.time) : admittedIn k t₁ t₂ (limiter.outcomes cs) = 0 := by
  rw [admittedIn, List.countP_eq_zero]
  intro o ho
  have hmem : o.time ∈ cs.map (·.time) := outcomes_times ▸ List.mem_map_of_mem ho
  obtain ⟨c, hc, heq⟩ := List.mem_map.mp hmem
  have hlt : ¬o.time ≤ t₂ := not_le.mpr <| heq ▸ h c hc
  simp [within, hlt]

theorem admittedIn_cons : admittedIn k t₁ t₂ (limiter.outcomes (c :: cs)) =
    admittedIn k t₁ t₂ ((limiter.allow c.it c.time c.key).snd.outcomes cs) +
      if within t₁ t₂ ⟨c.time, c.key, (limiter.allow c.it c.time c.key).fst, limiter.evicted c.it c.key⟩ ∧
        c.key = k ∧ (limiter.allow c.it c.time c.key).fst then 1 else 0 := by
  simp [outcomes, admittedIn, List.countP_cons, and_assoc]

theorem evictionsIn_cons : evictionsIn k t₁ t₂ (limiter.outcomes (c :: cs)) =
    evictionsIn k t₁ t₂ ((limiter.allow c.it c.time c.key).snd.outcomes cs) +
      if within t₁ t₂ ⟨c.time, c.key, (limiter.allow c.it c.time c.key).fst, limiter.evicted c.it c.key⟩ ∧
        limiter.evicted c.it c.key = some k then 1 else 0 := by
  simp [outcomes, evictionsIn, List.countP_cons]

-- The calls of a key in a span of time live on what it has at the beginning, on what it gains, and on a full
-- bucket each time that its own is evicted.
variable (k) in
theorem Kept.admittedIn_le (hk : limiter.Kept time) (h₁ : t₁ ≤ time) (h₂ : time ≤ t₂)
    (hle : ∀ c ∈ cs, time ≤ c.time) (hs : cs.Pairwise (·.time ≤ ·.time)) :
    (admittedIn k t₁ t₂ (limiter.outcomes cs) : Rat) ≤ limiter.available k time +
      limiter.config.burst * evictionsIn k t₁ t₂ (limiter.outcomes cs) +
      limiter.config.requestsPerSecond * (t₂ - time) := by
  induction cs generalizing limiter time
  case nil =>
    have havailable : 0 ≤ limiter.available k time := hk.available_nonneg
    have hgain : 0 ≤ (limiter.config.requestsPerSecond : Rat) * (t₂ - time) :=
      mul_nonneg (Nat.cast_nonneg _) (sub_nonneg.mpr h₂)
    simp [outcomes, admittedIn, evictionsIn]
    linarith
  case cons c cs ih =>
    have ⟨hlater, hs'⟩ := List.pairwise_cons.mp hs
    have hc := hle c List.mem_cons_self
    by_cases hend : c.time ≤ t₂
    case neg =>
      have hall : ∀ c' ∈ c :: cs, t₂ < c'.time := by
        intro c' hc'
        rcases List.mem_cons.mp hc' with rfl | hc'
        · exact not_le.mp hend
        · exact (not_le.mp hend).trans_le <| hlater c' hc'
      have havailable : 0 ≤ limiter.available k time := hk.available_nonneg
      have hgain : 0 ≤ (limiter.config.requestsPerSecond : Rat) * (t₂ - time) :=
        mul_nonneg (Nat.cast_nonneg _) (sub_nonneg.mpr h₂)
      have hevictions : 0 ≤ (limiter.config.burst : Rat) *
        evictionsIn k t₁ t₂ (limiter.outcomes (c :: cs)) := mul_nonneg (Nat.cast_nonneg _) (Nat.cast_nonneg _)
      rw [admittedIn_later hall]
      push_cast
      linarith
    case pos =>
      have hrest  := ih (hk.allow c.it c.key hc) (h₁.trans hc) hend hlater hs'
      have htaken := hk.taken_le c.it c.key k hc
      have hgain  : limiter.available k c.time ≤ limiter.available k time +
        (c.time - time) * limiter.config.requestsPerSecond := hk.available_later hc
      have hwithin : within t₁ t₂ ⟨c.time, c.key, (limiter.allow c.it c.time c.key).fst,
          limiter.evicted c.it c.key⟩ = true := by
        simp [within, h₁.trans hc, hend]
      rw [allow_config] at hrest
      rw [admittedIn_cons, evictionsIn_cons]
      simp only [hwithin, true_and, Nat.cast_add, Nat.cast_ite, Nat.cast_one, Nat.cast_zero]
      linarith

theorem Kept.mono (hk : limiter.Kept time) (h : time ≤ now) : limiter.Kept now where
  nonneg := hk.nonneg
  burst  := hk.burst
  time   := fun e he => (hk.time e he).trans h

-- What comes before a span of time only changes what a key has at its beginning, which is never more than a
-- full bucket.
variable (k) in
theorem Kept.admittedIn_le_of_earlier (hk : limiter.Kept time) (h₁ : time ≤ t₁) (h₂ : t₁ ≤ t₂)
    (hle : ∀ c ∈ cs, time ≤ c.time) (hs : cs.Pairwise (·.time ≤ ·.time)) :
    (admittedIn k t₁ t₂ (limiter.outcomes cs) : Rat) ≤ limiter.config.burst +
      limiter.config.burst * evictionsIn k t₁ t₂ (limiter.outcomes cs) +
      limiter.config.requestsPerSecond * (t₂ - t₁) := by
  have hfull (l : RateLimiter) : l.available k t₁ ≤ l.config.burst := available_le
  induction cs generalizing limiter time
  case nil =>
    have hbound := (hk.mono h₁).admittedIn_le k (le_refl t₁) h₂ (fun c hc => absurd hc List.not_mem_nil) .nil
    linarith [hfull limiter]
  case cons c cs ih =>
    have ⟨hlater, hs'⟩ := List.pairwise_cons.mp hs
    by_cases hstart : t₁ ≤ c.time
    case pos =>
      have hle' : ∀ c' ∈ c :: cs, t₁ ≤ c'.time := by
        intro c' hc'
        cases List.mem_cons.mp hc'
        case inl heq => exact heq ▸ hstart
        case inr hc' => exact hstart.trans <| hlater c' hc'
      have hbound := (hk.mono h₁).admittedIn_le k (le_refl t₁) h₂ hle' hs
      linarith [hfull limiter]
    case neg =>
      have hrest := ih (hk.allow c.it c.key <| hle c List.mem_cons_self) (not_le.mp hstart).le hlater hs'
      rw [allow_config] at hrest
      simpa [admittedIn_cons, evictionsIn_cons, within, hstart] using hrest

theorem kept_empty (config : RateLimitConfig) : (RateLimiter.mk config []).Kept time where
  nonneg := fun e he => by cases he
  burst  := fun e he => by cases he
  time   := fun e he => by cases he

theorem length_after (hmax : 1 ≤ limiter.config.maxClients)
    (h : limiter.buckets.length ≤ limiter.config.maxClients) :
    (limiter.after cs).buckets.length ≤ limiter.config.maxClients := by
  induction cs generalizing limiter
  case nil          => exact h
  case cons c cs ih =>
    have hconfig : (limiter.allow c.it c.time c.key).snd.config = limiter.config := allow_config
    exact hconfig ▸ ih (hconfig ▸ hmax) (hconfig ▸ length_allow hmax h)

end Run

end RateLimiter
end RemoteHttp
