import Mathlib

-- A relational table: rows with a primary key that no two of them share. Rows stand in insertion
-- order.
@[ext]
structure Table (κ ρ : Type) (key : ρ → κ) where
  rows : List ρ
  nodup : (rows.map key).Nodup

namespace Table

variable {κ ρ : Type} {key : ρ → κ}

def empty : Table κ ρ key where
  rows := []
  nodup := by simp

instance : Inhabited (Table κ ρ key) := ⟨empty⟩

instance : Membership ρ (Table κ ρ key) where
  mem t r := r ∈ t.rows

theorem mem_def {t : Table κ ρ key} : r ∈ t ↔ r ∈ t.rows :=
  Iff.rfl

theorem eq_of_mem_of_key_eq {t : Table κ ρ key} (h₁ : r₁ ∈ t) (h₂ : r₂ ∈ t)
    (h : key r₁ = key r₂) : r₁ = r₂ :=
  List.inj_on_of_nodup_map t.nodup h₁ h₂ h

section Get

variable [DecidableEq κ]

def get? (t : Table κ ρ key) (k : κ) : Option ρ :=
  t.rows.find? (key · = k)

theorem get?_eq_some_iff {t : Table κ ρ key} : t.get? k = some r ↔ r ∈ t ∧ key r = k := by
  constructor
  case mp =>
    intro h
    exact ⟨List.mem_of_find?_eq_some h, by simpa using List.find?_some h⟩
  case mpr =>
    intro ⟨hm, hk⟩
    cases hf : t.get? k
    case none => simp [get?, List.find?_eq_none] at hf; exact absurd hk (hf r hm)
    case some r' =>
      have hm' := List.mem_of_find?_eq_some hf
      have hk' : key r' = k := by simpa using List.find?_some hf
      rw [eq_of_mem_of_key_eq hm' hm (hk'.trans hk.symm)]

theorem get?_eq_none_iff {t : Table κ ρ key} : t.get? k = none ↔ ∀ r ∈ t, key r ≠ k := by
  simp [get?, List.find?_eq_none, mem_def]

theorem get?_key_eq {t : Table κ ρ key} (h : t.get? k = some r) : key r = k :=
  get?_eq_some_iff.mp h |>.right

theorem mem_of_get? {t : Table κ ρ key} (h : t.get? k = some r) : r ∈ t :=
  get?_eq_some_iff.mp h |>.left

theorem get?_of_mem {t : Table κ ρ key} (h : r ∈ t) : t.get? (key r) = some r :=
  get?_eq_some_iff.mpr ⟨h, rfl⟩

@[simp]
theorem get?_empty : (empty : Table κ ρ key).get? k = none :=
  rfl

-- Appends a row, or reports that its key is taken.
def insert? (t : Table κ ρ key) (r : ρ) : Option (Table κ ρ key) :=
  if h : key r ∈ t.rows.map key then
    none
  else
    some ⟨t.rows ++ [r], by simpa [List.nodup_append, t.nodup] using h⟩

theorem insert?_rows {t t' : Table κ ρ key} (h : t.insert? r = some t') :
    t'.rows = t.rows ++ [r] := by
  simp only [insert?] at h
  split at h <;> simp_all
  exact h ▸ rfl

theorem insert?_fresh {t t' : Table κ ρ key} (h : t.insert? r = some t') :
    t.get? (key r) = none := by
  simp only [insert?] at h
  split at h
  case isTrue  => contradiction
  case isFalse hk =>
    rw [get?_eq_none_iff]
    exact fun r' hm he => hk <| he ▸ List.mem_map_of_mem hm

theorem mem_insert? {t t' : Table κ ρ key} (h : t.insert? r = some t') :
    r' ∈ t' ↔ r' ∈ t ∨ r' = r := by
  simp [mem_def, insert?_rows h]

theorem insert?_isSome_iff {t : Table κ ρ key} :
    (t.insert? r).isSome ↔ t.get? (key r) = none := by
  simp [insert?, get?_eq_none_iff, mem_def]

theorem get?_insert? {t t' : Table κ ρ key} (h : t.insert? r = some t') (k : κ) :
    t'.get? k = if key r = k then some r else t.get? k := by
  have hf := insert?_fresh h
  simp only [get?, insert?_rows h, List.find?_append] at hf ⊢
  split
  case isTrue hk => subst hk; simp [hf]
  case isFalse hk => simp [hk]

end Get

-- `UPDATE … SET f WHERE p`.
def update (t : Table κ ρ key) (p : ρ → Bool) (f : ρ → ρ)
    (hf : ∀ r, key (f r) = key r := by intro _; rfl) : Table κ ρ key where
  rows  := t.rows.map fun r => if p r then f r else r
  nodup := by
    rw [List.map_map]
    convert t.nodup using 2
    funext r
    simp only [Function.comp_apply]
    split <;> simp [hf]

-- `DELETE … WHERE p`.
def delete (t : Table κ ρ key) (p : ρ → Bool) : Table κ ρ key where
  rows  := t.rows.filter (!p ·)
  nodup := t.nodup.sublist <| List.filter_sublist.map key

-- The number of rows that satisfy `p`, which is what `UPDATE` and `DELETE` report.
def count (t : Table κ ρ key) (p : ρ → Bool) : Nat :=
  t.rows.countP p

@[simp]
theorem update_rows {t : Table κ ρ key} {hf} :
    (t.update p f hf).rows = t.rows.map fun r => if p r then f r else r :=
  rfl

@[simp]
theorem delete_rows {t : Table κ ρ key} : (t.delete p).rows = t.rows.filter (!p ·) :=
  rfl

theorem mem_delete {t : Table κ ρ key} : r ∈ t.delete p ↔ r ∈ t ∧ p r = false := by
  simp [mem_def]

theorem mem_update {t : Table κ ρ key} {hf} :
    r ∈ t.update p f hf ↔ ∃ r' ∈ t, (if p r' then f r' else r') = r := by
  simp [mem_def]

theorem count_eq_zero_iff {t : Table κ ρ key} : t.count p = 0 ↔ ∀ r ∈ t, p r = false := by
  simp [count, List.countP_eq_zero, mem_def]

theorem update_eq_self {t : Table κ ρ key} {hf} (h : t.count p = 0) : t.update p f hf = t := by
  ext1
  rw [count_eq_zero_iff] at h
  rw [update_rows, List.map_congr_left (g := id), List.map_id]
  intro r hr
  simp [h r hr]

variable [DecidableEq κ]

-- A statement that names a key touches at most the one row that has it.
theorem count_key {t : Table κ ρ key} :
    t.count (fun r => key r = k && p r) = if (t.get? k).any p then 1 else 0 := by
  cases hg : t.get? k
  case none =>
    rw [get?_eq_none_iff] at hg
    simpa using count_eq_zero_iff.mpr fun r hr => by simp [hg r hr]
  case some r =>
    have ⟨hm, hk⟩ := get?_eq_some_iff.mp hg
    have ⟨xs, ys, hxy⟩ := List.append_of_mem hm
    have hn := t.nodup
    rw [hxy, List.map_append, List.map_cons, List.nodup_append, List.nodup_cons] at hn
    have hx : xs.countP (fun r => key r = k && p r) = 0 := by
      rw [List.countP_eq_zero]
      intro x hx
      have := hn.right.right _ (List.mem_map_of_mem hx) (key r) (by simp)
      simp [← hk, this]
    have hy : ys.countP (fun r => key r = k && p r) = 0 := by
      rw [List.countP_eq_zero]
      intro y hy
      have : key y ≠ key r := fun he => hn.right.left.left <| he ▸ List.mem_map_of_mem hy
      simp [← hk, this]
    simp [count, hxy, hx, hy, hk, List.countP_cons]

theorem get?_update {t : Table κ ρ key} {hf} :
    (t.update p f hf).get? k = (t.get? k).map fun r => if p r then f r else r := by
  simp only [get?, update_rows, List.find?_map]
  congr 2
  funext r
  simp only [Function.comp_apply, decide_eq_decide]
  split <;> simp [hf]

theorem get?_delete {t : Table κ ρ key} :
    (t.delete p).get? k = (t.get? k).filter (!p ·) := by
  cases h : t.get? k
  case none =>
    rw [get?_eq_none_iff] at h
    simp only [Option.filter_none, get?_eq_none_iff, mem_delete]
    exact fun r hr => h r hr.left
  case some r =>
    have ⟨hm, hk⟩ := get?_eq_some_iff.mp h
    cases hp : p r
    case false => simp [Option.filter, hp, get?_eq_some_iff, mem_delete, hm, hk]
    case true  =>
      simp only [Option.filter, hp, Bool.not_true, Bool.false_eq_true, ↓reduceIte,
        get?_eq_none_iff, mem_delete]
      intro r' ⟨hm', hp'⟩ hk'
      rw [eq_of_mem_of_key_eq hm' hm (hk'.trans hk.symm), hp] at hp'
      contradiction

-- The row of a key among those that a query has selected by their keys and by what they hold.
theorem find?_selected {t : Table κ ρ key} {ks : List κ} (hk : k ∈ ks) :
    (t.rows.filter fun r => key r ∈ ks && p r).find? (key · = k) = (t.get? k).filter p := by
  have hrows : (t.rows.filter fun r => key r ∈ ks && p r) = (t.delete fun r => !(key r ∈ ks && p r)).rows := by
    simp [delete_rows]
  have hget := get?_delete (t := t) (k := k) (p := fun r => !(key r ∈ ks && p r))
  rw [get?, ← hrows] at hget
  rw [hget]
  cases h : t.get? k
  case none   => rfl
  case some r => simp [Option.filter, get?_key_eq h, hk]

end Table
