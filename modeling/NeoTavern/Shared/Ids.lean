import NeoTavern.Shared.Id

-- Identifiers in the order of their making, for a clock that may show any time.
namespace Shared.UuidV7

-- A call of `uuidv7` that reads this time and would draw this random number.
def uuidv7 (now : Int) (draw : Nat) (g : UuidV7) : UuidV7 :=
  let increased := (g.lastRandom + 1) % 2 ^ uuidV7RandomBits
  if now > g.lastTimestamp then
    {
      lastTimestamp := now
      lastRandom    := draw % 2 ^ uuidV7RandomBits
      random_lt     := Nat.mod_lt _ (by decide)
      made          := g.made + 1
    }
  else if increased = 0 then
    {
      lastTimestamp := g.lastTimestamp + 1
      lastRandom    := draw % 2 ^ uuidV7RandomBits
      random_lt     := Nat.mod_lt _ (by decide)
      made          := g.made + 1
    }
  else
    {
      lastTimestamp := g.lastTimestamp
      lastRandom    := increased
      random_lt     := @Nat.mod_lt _ (2 ^ 74) (by decide)
      made          := g.made + 1
    }

-- The view takes the low bits of a timestamp, also of a negative one.
def view (g : UuidV7) : List Char :=
  let ts := g.lastTimestamp
  let randA := g.lastRandom / 2 ^ 62
  let low := 2 * 2 ^ 62 + g.lastRandom % 2 ^ 62
  hex 8 (ts / 0x10000 % 2 ^ 32).toNat ++ '-' :: (hex 4 (ts % 2 ^ 16).toNat ++ '-' ::
    (hex 4 (0x7000 + randA) ++ '-' :: (hex 4 (low / 2 ^ 48) ++ '-' :: hex 12 (low % 2 ^ 48))))

variable {env : Environment} {g : UuidV7} {now : Int} {draw : Nat}

theorem step_eq_uuidv7 : g.step env = g.uuidv7 (env.dateNow g.made) (env.random g.made) :=
  rfl

theorem chars_eq_view (h : 0 ≤ g.lastTimestamp) : g.chars = g.view := by
  have hhigh : (g.lastTimestamp / 0x10000 % 2 ^ 32).toNat = g.lastTimestamp.toNat / 0x10000 % 2 ^ 32 := by omega
  have hlow : (g.lastTimestamp % 2 ^ 16).toNat = g.lastTimestamp.toNat % 2 ^ 16 := by omega
  simp only [chars, view, hhigh, hlow]

-- What a call makes of the timestamp.
theorem timestamp_cases (g : UuidV7) (now : Int) (draw : Nat) :
    (g.uuidv7 now draw).lastTimestamp = now ∧ g.lastTimestamp < now ∨
      now ≤ g.lastTimestamp ∧ (g.uuidv7 now draw).lastTimestamp = g.lastTimestamp ∨
      now ≤ g.lastTimestamp ∧ (g.uuidv7 now draw).lastTimestamp = g.lastTimestamp + 1 := by
  simp only [uuidv7]
  split
  case isTrue h => exact .inl ⟨rfl, h⟩
  case isFalse h =>
    split
    case isTrue  => exact .inr <| .inr ⟨Int.not_lt.mp h, rfl⟩
    case isFalse => exact .inr <| .inl ⟨Int.not_lt.mp h, rfl⟩

theorem order_lt_uuidv7 : g.order < (g.uuidv7 now draw).order := by
  rw [order_lt_iff, uuidv7]
  split
  case isTrue h => exact .inl h
  case isFalse =>
    split
    case isTrue    => exact .inl <| Int.lt_succ _
    case isFalse h =>
      have hlt : g.lastRandom + 1 < 2 ^ uuidV7RandomBits := by
        apply Nat.lt_of_le_of_ne g.random_lt
        intro he
        exact h <| he ▸ Nat.mod_self _
      simp only [Nat.mod_eq_of_lt hlt]
      exact .inr ⟨trivial, Nat.lt_succ_self _⟩

-- The fields of the layout, from the highest bits to the lowest.
def fields (timestamp randA randB : Nat) : Nat :=
  (((timestamp * 2 ^ 4 + 0b0111) * 2 ^ 12 + randA) * 2 ^ 2 + 0b10) * 2 ^ 62 + randB

-- A text of version 7 with this timestamp.
def HasLayout (text : List Char) (timestamp : Nat) : Prop :=
  ∃ a b c d e, text = a ++ '-' :: (b ++ '-' :: (c ++ '-' :: (d ++ '-' :: e))) ∧
    a.length = 8 ∧ b.length = 4 ∧ c.length = 4 ∧ d.length = 4 ∧ e.length = 12 ∧
    ∃ randA < 2 ^ 12, ∃ randB < 2 ^ 62, a ++ b ++ c ++ d ++ e = hex 32 (fields timestamp randA randB)

theorem hex_append {v w m n : Nat} (hn : n < 16 ^ w) : hex v m ++ hex w n = hex (v + w) (m * 16 ^ w + n) :=
  Radix.digits_append_digits hn

theorem view_hasLayout (g : UuidV7) : HasLayout g.view (g.lastTimestamp % 2 ^ 48).toNat := by
  have hrandom : g.lastRandom < 2 ^ 74 := g.random_lt
  have hlen (w n : Nat) : (hex w n).length = w := Radix.length_digits
  refine ⟨hex 8 _, hex 4 _, hex 4 _, hex 4 _, hex 12 _, rfl, hlen .., hlen .., hlen .., hlen .., hlen .., ?_⟩
  refine ⟨g.lastRandom / 2 ^ 62, by omega, g.lastRandom % 2 ^ 62, by omega, ?_⟩
  rw [hex_append (by omega), hex_append (by omega), hex_append (by omega), hex_append (by omega)]
  apply congrArg (hex 32)
  simp only [fields]
  omega

section Run

variable {clock : Nat → Int} {draws : Nat → Nat} {i j n : Nat}

-- The state before the call with this number, for what the calls of a process read and draw.
def before (clock : Nat → Int) (draws : Nat → Nat) : Nat → UuidV7
  | 0     => initial
  | n + 1 => (before clock draws n).uuidv7 (clock n) (draws n)

def timestamp (clock : Nat → Int) (draws : Nat → Nat) (n : Nat) : Int :=
  (before clock draws (n + 1)).lastTimestamp

-- What the call returns.
def id (clock : Nat → Int) (draws : Nat → Nat) (n : Nat) : String :=
  .ofList (before clock draws (n + 1)).view

theorem order_lt_order (h : i < j) : (before clock draws i).order < (before clock draws j).order :=
  strictMono_nat_of_lt_succ (f := fun n => (before clock draws n).order) (fun _ => order_lt_uuidv7) h

theorem timestamp_le (h : i ≤ j) :
    (before clock draws i).lastTimestamp ≤ (before clock draws j).lastTimestamp := by
  apply monotone_nat_of_le_succ _ h
  intro n
  have hcases := timestamp_cases (before clock draws n) (clock n) (draws n)
  simp only [before]
  omega

theorem clock_le_timestamp (h : i ≤ n) : clock i ≤ timestamp clock draws n := by
  have hcases := timestamp_cases (before clock draws i) (clock i) (draws i)
  have hle : (before clock draws (i + 1)).lastTimestamp ≤ (before clock draws (n + 1)).lastTimestamp :=
    timestamp_le (Nat.succ_le_succ h)
  simp only [before, timestamp] at hcases hle ⊢
  omega

-- The timestamp runs ahead of the clock by one for each call at most.
theorem timestamp_ahead (h : ∀ i < n, clock i + (n - 1 - i) < limit) (hn : n ≤ limit) :
    (before clock draws n).lastTimestamp < limit := by
  induction n generalizing limit
  case zero =>
    simp only [before, initial]
    omega
  case succ n ih =>
    have hbefore : (before clock draws n).lastTimestamp < limit - 1 := by
      apply ih
      · intro i hi
        have := h i (by omega)
        omega
      · omega
    have hnow := h n (by omega)
    have hcases := timestamp_cases (before clock draws n) (clock n) (draws n)
    simp only [before]
    omega

-- Whatever the clock does and whatever is drawn, identifiers have the layout, and the next one is larger
-- as long as the timestamp is a time since 1970 that 48 bits hold.
theorem id_strictly_increasing (clock : Nat → Int) (draws : Nat → Nat) :
    (∀ n, HasLayout (id clock draws n).toList (timestamp clock draws n % 2 ^ 48).toNat) ∧
    (∀ i n, i ≤ n → clock i ≤ timestamp clock draws n) ∧
    (∀ i j, i < j → (∃ k ≤ i, 0 ≤ clock k) → (∀ k ≤ j, clock k + (j - k) < 2 ^ 48) → j < 2 ^ 48 →
      id clock draws i < id clock draws j) := by
  refine ⟨?layout, fun _ _ => clock_le_timestamp, ?increasing⟩
  case layout =>
    intro n
    simpa [id, timestamp] using view_hasLayout (before clock draws (n + 1))
  case increasing =>
    intro i j hij ⟨k, hk, hpos⟩ hfits hcalls
    have hi : 0 ≤ (before clock draws (i + 1)).lastTimestamp := hpos.trans <| clock_le_timestamp hk
    have hj : (before clock draws (j + 1)).lastTimestamp < 2 ^ 48 := by
      apply timestamp_ahead
      · intro k hk
        have := hfits k (by omega)
        omega
      · omega
    have hj' : 0 ≤ (before clock draws (j + 1)).lastTimestamp := hi.trans <| timestamp_le (by omega)
    have horder : (before clock draws (i + 1)).order < (before clock draws (j + 1)).order :=
      order_lt_order <| Nat.succ_lt_succ hij
    have hlt := text_lt_text horder hi hj
    simpa [text, id, chars_eq_view hi, chars_eq_view hj'] using hlt

-- The clock goes back by a day, and then the counter overflows.
theorem id_strictly_increasing_back :
    id (fun n => if n = 0 then 86400000 else 5) (fun _ => 2 ^ 74 - 1) 0 <
      id (fun n => if n = 0 then 86400000 else 5) (fun _ => 2 ^ 74 - 1) 1 := by
  apply (id_strictly_increasing _ _).right.right
  · decide
  · exact ⟨0, le_rfl, by decide⟩
  · intro k hk
    split <;> omega
  · decide

-- 48 bits hold the time up to the year 10889.
theorem not_increasing_past_48_bits :
    ¬∀ clock draws i j, i < j → id clock draws i < id clock draws j := by
  intro h
  have hlt := h (fun n => 2 ^ 48 - 1 + n) (fun _ => 0) 0 1 (by decide)
  exact absurd hlt <| by decide +kernel

end Run

end Shared.UuidV7
