import NeoTavern.Lib.Table

-- Rows that come into a table one after the other: those whose key is taken are left out, or take
-- the place of the row that has it.
namespace Table

variable {κ ρ : Type} {key : ρ → κ} [DecidableEq κ] {t t' : Table κ ρ key}

def present (t : Table κ ρ key) (r : ρ) : Bool :=
  (t.get? (key r)).isSome

def addAbsent (t : Table κ ρ key) (r : ρ) : Table κ ρ key :=
  (t.insert? r).getD t

variable (revise : ρ → ρ → ρ) (hr : ∀ new old, key (revise new old) = key old)

def upsert (t : Table κ ρ key) (r : ρ) : Table κ ρ key :=
  match t.insert? r with
  | some t' => t'
  | none    => t.update (key · = key r) (revise r) (hr r)

variable (key) in
-- What becomes of a row when `news` come in.
def overwritten (news : List ρ) (old : ρ) : ρ :=
  match news.find? (key · = key old) with
  | some new => revise new old
  | none     => old

variable {revise hr}

theorem present_iff : t.present r ↔ key r ∈ t.rows.map key := by
  rw [present, Option.isSome_iff_ne_none, ne_eq, get?_eq_none_iff]
  simp [mem_def]

theorem insert?_eq_none_iff : t.insert? r = none ↔ t.present r := by
  rw [present, ← Option.not_isSome_iff_eq_none, insert?_isSome_iff, Option.isSome_iff_ne_none]

theorem addAbsent_of_present (h : t.present r) : t.addAbsent r = t := by
  rw [addAbsent, insert?_eq_none_iff.mpr h, Option.getD_none]

theorem addAbsent_of_insert? (h : t.insert? r = some t') : t.addAbsent r = t' := by
  rw [addAbsent, h, Option.getD_some]

theorem upsert_of_present (h : t.present r) :
    t.upsert revise hr r = t.update (key · = key r) (revise r) (hr r) := by
  rw [upsert, insert?_eq_none_iff.mpr h]

theorem upsert_of_insert? (h : t.insert? r = some t') : t.upsert revise hr r = t' := by
  rw [upsert, h]

theorem not_present_of_insert? (h : t.insert? r = some t') : t.present r = false := by
  rw [present, insert?_fresh h, Option.isSome_none]

theorem present_insert? (h : t.insert? r = some t') (hn : key r' ≠ key r) :
    t'.present r' = t.present r' := by
  rw [present, get?_insert? h, if_neg hn.symm, present]

theorem present_update {p : ρ → Bool} {f : ρ → ρ} {hf : ∀ r, key (f r) = key r} :
    (t.update p f hf).present r = t.present r := by
  rw [present, get?_update, Option.isSome_map, present]

theorem present_addAbsent (hn : key r' ≠ key r) : (t.addAbsent r).present r' = t.present r' := by
  cases hi : t.insert? r
  case none    => rw [addAbsent_of_present <| insert?_eq_none_iff.mp hi]
  case some t' => rw [addAbsent_of_insert? hi, present_insert? hi hn]

theorem present_upsert (hn : key r' ≠ key r) :
    (t.upsert revise hr r).present r' = t.present r' := by
  cases hi : t.insert? r
  case none    => rw [upsert_of_present <| insert?_eq_none_iff.mp hi, present_update]
  case some t' => rw [upsert_of_insert? hi, present_insert? hi hn]

-- The rows that come in are told apart by their keys, so none of them stands in another's way.
theorem foldl_addAbsent_rows {news : List ρ} (hn : (news.map key).Nodup) :
    (news.foldl addAbsent t).rows = t.rows ++ news.filter (!t.present ·) := by
  induction news generalizing t
  case nil => simp
  case cons r news ih =>
    have ⟨hr, hn⟩ := List.nodup_cons.mp hn
    rw [List.foldl_cons, ih hn]
    cases hi : t.insert? r
    case none =>
      have hp := insert?_eq_none_iff.mp hi
      rw [addAbsent_of_present hp, List.filter_cons_of_neg (by simp [hp])]
    case some t' =>
      have hp := not_present_of_insert? hi
      rw [addAbsent_of_insert? hi, insert?_rows hi, List.filter_cons_of_pos (by simp [hp]),
        List.append_assoc, List.singleton_append]
      congr 2
      apply List.filter_congr
      intro r' hr'
      rw [present_insert? hi fun he => hr <| he ▸ List.mem_map_of_mem hr']

theorem present_of_rows_eq_append {added : List ρ} (h : t'.rows = t.rows ++ added)
    (hp : t.present r ∨ r ∈ added) : t'.present r := by
  rw [present_iff, h, List.map_append, List.mem_append]
  exact hp.imp present_iff.mp List.mem_map_of_mem

theorem present_foldl_addAbsent {news : List ρ} (hn : (news.map key).Nodup) (h : r ∈ news) :
    (news.foldl addAbsent t).present r := by
  apply present_of_rows_eq_append <| foldl_addAbsent_rows hn
  cases hp : t.present r
  case true  => exact .inl rfl
  case false => exact .inr <| List.mem_filter.mpr ⟨h, by rw [hp, Bool.not_false]⟩

theorem foldl_addAbsent_of_present {news : List ρ} (h : ∀ r ∈ news, t.present r) :
    news.foldl addAbsent t = t := by
  induction news
  case nil => rfl
  case cons r news ih =>
    rw [List.foldl_cons, addAbsent_of_present <| h r List.mem_cons_self]
    exact ih fun r hr => h r <| List.mem_cons_of_mem _ hr

theorem overwritten_of_forall_ne {news : List ρ} (h : ∀ new ∈ news, key new ≠ key old) :
    overwritten key revise news old = old := by
  have hf : news.find? (key · = key old) = none := by simpa [List.find?_eq_none] using h
  rw [overwritten, hf]

theorem overwritten_cons_of_eq {news : List ρ} (h : key r = key old) :
    overwritten key revise (r :: news) old = revise r old := by
  rw [overwritten, List.find?_cons_of_pos (by simpa using h)]

theorem overwritten_cons_of_ne {news : List ρ} (h : key r ≠ key old) :
    overwritten key revise (r :: news) old = overwritten key revise news old := by
  rw [overwritten, List.find?_cons_of_neg (by simpa using h), overwritten]

theorem foldl_upsert_rows {news : List ρ} (hn : (news.map key).Nodup) :
    (news.foldl (upsert revise hr) t).rows =
      t.rows.map (overwritten key revise news) ++ news.filter (!t.present ·) := by
  induction news generalizing t
  case nil =>
    have h : t.rows.map (overwritten key revise []) = t.rows :=
      (List.map_congr_left fun _ _ => rfl).trans (List.map_id _)
    rw [List.foldl_nil, h, List.filter_nil, List.append_nil]
  case cons r news ih =>
    have ⟨hf, hn⟩ := List.nodup_cons.mp hn
    have hother : ∀ new ∈ news, key new ≠ key r :=
      fun new hnew he => hf <| he ▸ List.mem_map_of_mem hnew
    rw [List.foldl_cons, ih hn]
    cases hi : t.insert? r
    case none =>
      have hp := insert?_eq_none_iff.mp hi
      rw [upsert_of_present hp, update_rows, List.map_map, List.filter_cons_of_neg (by simp [hp])]
      congr 1
      case e_a =>
        apply List.map_congr_left
        intro old _
        by_cases hk : key old = key r
        case pos =>
          rw [Function.comp_apply, if_pos (by simpa using hk), overwritten_cons_of_eq hk.symm]
          apply overwritten_of_forall_ne
          intro new hnew
          rw [hr, hk]
          exact hother new hnew
        case neg =>
          rw [Function.comp_apply, if_neg (by simpa using hk), overwritten_cons_of_ne (Ne.symm hk)]
      case e_a => simp only [present_update]
    case some t' =>
      have hp := not_present_of_insert? hi
      have hold : ∀ old ∈ t.rows, key r ≠ key old := by
        intro old hold he
        have hk : key r ∈ t.rows.map key := he ▸ List.mem_map_of_mem hold
        exact Bool.false_ne_true <| hp.symm.trans <| present_iff.mpr hk
      rw [upsert_of_insert? hi, insert?_rows hi, List.map_append, List.map_singleton,
        overwritten_of_forall_ne hother, List.filter_cons_of_pos (by simp [hp]), List.append_assoc,
        List.singleton_append]
      congr 1
      case e_a =>
        exact List.map_congr_left fun old h => (overwritten_cons_of_ne <| hold old h).symm
      case e_a =>
        congr 1
        apply List.filter_congr
        intro r' hr'
        rw [present_insert? hi <| hother r' hr']

example : (((empty : Table Nat (Nat × String) Prod.fst).addAbsent (0, "a")).addAbsent (0, "b")).rows = [(0, "a")] := by
  decide +kernel

-- Whichever rows were there before, they and the new ones make up what comes in.
theorem length_filter_absent {news : List ρ} :
    (news.filter (!t.present ·)).length + news.countP t.present = news.length := by
  rw [List.countP_eq_length_filter, Nat.add_comm]
  exact (List.length_eq_length_filter_add _).symm

-- A row that none of the new ones has the key of stays as it is.
theorem get?_foldl_upsert {news : List ρ} (hn : (news.map key).Nodup) (hk : k ∉ news.map key)
    (hg : t.get? k = some r) : (news.foldl (upsert revise hr) t).get? k = some r := by
  have ⟨hm, hkey⟩ := get?_eq_some_iff.mp hg
  have hstays : overwritten key revise news r = r := by
    apply overwritten_of_forall_ne
    exact fun new hnew he => hk <| List.mem_map.mpr ⟨new, hnew, he.trans hkey⟩
  refine get?_eq_some_iff.mpr ⟨?_, hkey⟩
  rw [mem_def, foldl_upsert_rows hn, List.mem_append]
  exact .inl <| List.mem_map.mpr ⟨r, hm, hstays⟩

theorem get?_of_rows_eq_append {added : List ρ} (h : t'.rows = t.rows ++ added)
    (hg : t.get? k = some r) : t'.get? k = some r := by
  have ⟨hm, hk⟩ := get?_eq_some_iff.mp hg
  refine get?_eq_some_iff.mpr ⟨?_, hk⟩
  rw [mem_def, h]
  exact List.mem_append_left added hm

end Table
