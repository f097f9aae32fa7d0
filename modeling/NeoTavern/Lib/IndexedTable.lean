import NeoTavern.Lib.Table

-- A table with a unique index beside its primary key. Rows without an entry in the index (`NULL` in
-- one of its columns) do not clash.
@[ext]
structure IndexedTable (κ ι ρ : Type) (key : ρ → κ) (index : ρ → Option ι) extends
    Table κ ρ key where
  unique : ∀ r ∈ rows, ∀ r' ∈ rows, ∀ i, index r = some i → index r' = some i → r = r'

namespace IndexedTable

variable {κ ι ρ : Type} {key : ρ → κ} {index : ρ → Option ι}

def empty : IndexedTable κ ι ρ key index where
  toTable := .empty
  unique  := by simp [Table.empty]

instance : Inhabited (IndexedTable κ ι ρ key index) := ⟨empty⟩

instance : Membership ρ (IndexedTable κ ι ρ key index) where
  mem t r := r ∈ t.rows

theorem mem_def {t : IndexedTable κ ι ρ key index} : r ∈ t ↔ r ∈ t.rows :=
  Iff.rfl

theorem eq_of_index_eq {t : IndexedTable κ ι ρ key index} (h₁ : r₁ ∈ t) (h₂ : r₂ ∈ t)
    (hi₁ : index r₁ = some i) (hi₂ : index r₂ = some i) : r₁ = r₂ :=
  t.unique _ h₁ _ h₂ i hi₁ hi₂

-- `DELETE … WHERE p`.
def delete (t : IndexedTable κ ι ρ key index) (p : ρ → Bool) : IndexedTable κ ι ρ key index where
  toTable := t.toTable.delete p
  unique  := by
    intro r hr r' hr'
    exact t.unique r (List.mem_of_mem_filter hr) r' (List.mem_of_mem_filter hr')

-- `UPDATE … SET f WHERE p` for an `f` that leaves both keys alone.
def update (t : IndexedTable κ ι ρ key index) (p : ρ → Bool) (f : ρ → ρ)
    (hf : ∀ r, key (f r) = key r := by intro _; rfl)
    (hi : ∀ r, index (f r) = index r := by intro _; rfl) : IndexedTable κ ι ρ key index where
  toTable := t.toTable.update p f hf
  unique  := by
    have hs : ∀ r, index (if p r then f r else r) = index r := by
      intro r
      split
      · exact hi r
      · rfl
    simp only [Table.update_rows, List.mem_map]
    rintro _ ⟨r, hr, rfl⟩ _ ⟨r', hr', rfl⟩ i h h'
    rw [hs] at h h'
    rw [t.unique r hr r' hr' i h h']

theorem mem_delete {t : IndexedTable κ ι ρ key index} : r ∈ t.delete p ↔ r ∈ t ∧ p r = false :=
  Table.mem_delete

theorem get?_update [DecidableEq κ] {t : IndexedTable κ ι ρ key index} {hf hi} :
    (t.update p f hf hi).get? k = (t.get? k).map fun r => if p r then f r else r := by
  have h : (t.toTable.update p f hf).get? k = _ := Table.get?_update
  exact h

section Lookup

variable [DecidableEq ι]

-- The row with an entry in the index.
def lookup? (t : IndexedTable κ ι ρ key index) (i : ι) : Option ρ :=
  t.rows.find? (index · = some i)

theorem lookup?_eq_some_iff {t : IndexedTable κ ι ρ key index} :
    t.lookup? i = some r ↔ r ∈ t ∧ index r = some i := by
  constructor
  case mp =>
    intro h
    exact ⟨List.mem_of_find?_eq_some h, by simpa using List.find?_some h⟩
  case mpr =>
    intro ⟨hm, hi⟩
    cases hf : t.lookup? i
    case none =>
      rw [lookup?, List.find?_eq_none] at hf
      exact absurd hi <| by simpa using hf r hm
    case some r' =>
      have hm' := List.mem_of_find?_eq_some hf
      have hi' : index r' = some i := by simpa using List.find?_some hf
      rw [eq_of_index_eq hm' hm hi' hi]

theorem lookup?_eq_none_iff {t : IndexedTable κ ι ρ key index} :
    t.lookup? i = none ↔ ∀ r ∈ t, index r ≠ some i := by
  simp [lookup?, List.find?_eq_none, mem_def]

theorem lookup?_delete {t : IndexedTable κ ι ρ key index} :
    (t.delete p).lookup? i = (t.lookup? i).filter (!p ·) := by
  cases h : t.lookup? i
  case none =>
    rw [lookup?_eq_none_iff] at h
    simp only [Option.filter_none, lookup?_eq_none_iff, mem_delete]
    exact fun r hr => h r hr.left
  case some r =>
    have ⟨hm, hi⟩ := lookup?_eq_some_iff.mp h
    cases hp : p r
    case false => simp [Option.filter, hp, lookup?_eq_some_iff, mem_delete, hm, hi]
    case true =>
      simp only [Option.filter, hp, Bool.not_true, Bool.false_eq_true, ↓reduceIte,
        lookup?_eq_none_iff, mem_delete]
      intro r' ⟨hm', hp'⟩ hi'
      rw [eq_of_index_eq hm' hm hi' hi, hp] at hp'
      contradiction

end Lookup

section Insert

variable [DecidableEq κ] [DecidableEq ι]

-- Appends a row, or reports that its key or its entry in the index is taken.
def insert? (t : IndexedTable κ ι ρ key index) (r : ρ) : Option (IndexedTable κ ι ρ key index) :=
  if h : (∀ r' ∈ t.rows, key r' ≠ key r) ∧ ∀ r' ∈ t.rows, index r' = index r → index r = none then
    some {
      rows   := t.rows ++ [r]
      nodup  := by
        rw [List.map_append, List.nodup_append]
        refine ⟨t.nodup, by simp, ?_⟩
        simpa using h.left
      unique := by
        simp only [List.mem_append, List.mem_singleton]
        rintro r₁ (h₁ | rfl) r₂ (h₂ | rfl) i hi₁ hi₂
        · exact t.unique _ h₁ _ h₂ i hi₁ hi₂
        · simp [h.right _ h₁ (hi₁.trans hi₂.symm)] at hi₂
        · simp [h.right _ h₂ (hi₂.trans hi₁.symm)] at hi₁
        · rfl
    }
  else
    none

variable {t t' : IndexedTable κ ι ρ key index}

theorem insert?_rows (h : t.insert? r = some t') : t'.rows = t.rows ++ [r] := by
  simp only [insert?] at h
  split at h
  case isTrue  => cases h; rfl
  case isFalse => contradiction

theorem insert?_toTable (h : t.insert? r = some t') : t.toTable.insert? r = some t'.toTable := by
  have hr := insert?_rows h
  simp only [insert?] at h
  split at h
  case isTrue hk =>
    have hm : key r ∉ t.rows.map key := by
      intro hm
      have ⟨r', hm, he⟩ := List.mem_map.mp hm
      exact hk.left r' hm he
    simp only [Table.insert?, dif_neg hm, Option.some.injEq]
    ext1
    exact hr.symm
  case isFalse => contradiction

theorem insert?_fresh (h : t.insert? r = some t') : t.get? (key r) = none :=
  Table.insert?_fresh (insert?_toTable h)

theorem mem_insert? (h : t.insert? r = some t') : r' ∈ t' ↔ r' ∈ t ∨ r' = r := by
  simp [mem_def, insert?_rows h]

theorem get?_insert? (h : t.insert? r = some t') (k : κ) :
    t'.get? k = if key r = k then some r else t.get? k :=
  Table.get?_insert? (insert?_toTable h) k

theorem insert?_isSome_iff :
    (t.insert? r).isSome ↔ t.get? (key r) = none ∧ ∀ i, index r = some i → t.lookup? i = none := by
  rw [Table.get?_eq_none_iff]
  simp only [lookup?_eq_none_iff, insert?]
  split
  case isTrue h =>
    refine iff_of_true rfl ⟨h.left, fun i hi r' hm hi' => ?_⟩
    simp [h.right r' hm (hi'.trans hi.symm)] at hi
  case isFalse h =>
    refine iff_of_false (by simp) fun ⟨hk, hi⟩ => h ⟨hk, fun r' hm he => ?_⟩
    by_contra hn
    have ⟨i, hs⟩ := Option.ne_none_iff_exists'.mp hn
    exact hi i hs r' hm (he.trans hs)

theorem lookup?_insert? (h : t.insert? r = some t') (i : ι) :
    t'.lookup? i = if index r = some i then some r else t.lookup? i := by
  have hs : (t.insert? r).isSome := by simp [h]
  have hi := insert?_isSome_iff.mp hs |>.right i
  simp only [lookup?, insert?_rows h, List.find?_append] at hi ⊢
  split
  case isTrue he  => simp [he, hi he]
  case isFalse he => simp [he]

end Insert

end IndexedTable
