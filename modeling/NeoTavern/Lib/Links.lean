import Mathlib

-- Doubly linked lists: each element tells which one is before it and which one behind.
namespace Links

variable {ι : Type*} {prev next prev' next' : ι → Option ι}
  {before before' behind behind' : Option ι} {a b l : List ι} {i j m : ι}

-- A stretch of a list, with what is before it and behind it.
def Linked (prev next : ι → Option ι) : Option ι → List ι → Option ι → Prop
  | _, [], _               => True
  | before, i :: l, behind => prev i = before ∧ next i = l.head?.or behind ∧ Linked prev next (some i) l behind

theorem linked_append : Linked prev next before (a ++ b) behind ↔
    Linked prev next before a (b.head?.or behind) ∧ Linked prev next (a.getLast?.or before) b behind := by
  induction a generalizing before
  case nil         => simp [Linked]
  case cons i a ih =>
    have hhead : (a ++ b).head?.or behind = a.head?.or (b.head?.or behind) := by
      rw [List.head?_append, Option.or_assoc]
    have hlast : (i :: a).getLast?.or before = a.getLast?.or (some i) := by
      cases a
      case nil      => rfl
      case cons j a => simp [List.getLast?_cons]
    rw [List.cons_append, Linked, Linked, ih, hhead, hlast, and_assoc, and_assoc]

theorem Linked.congr (h : Linked prev next before l behind) (hprev : ∀ i ∈ l, prev' i = prev i)
    (hnext : ∀ i ∈ l, next' i = next i) : Linked prev' next' before l behind := by
  induction l generalizing before
  case nil         => trivial
  case cons i l ih =>
    obtain ⟨hp, hn, hl⟩ := h
    refine ⟨(hprev i List.mem_cons_self).trans hp, (hnext i List.mem_cons_self).trans hn, ih hl ?_ ?_⟩
    · exact fun j hj => hprev j <| List.mem_cons_of_mem _ hj
    · exact fun j hj => hnext j <| List.mem_cons_of_mem _ hj

theorem linked_concat : Linked prev next before (l ++ [i]) behind ↔
    Linked prev next before l (some i) ∧ prev i = l.getLast?.or before ∧ next i = behind := by
  simp [linked_append, Linked]

-- What is behind an element is the next one of the list.
theorem Linked.split (h : Linked prev next before l none) (hi : i ∈ l) (hj : next i = some j) :
    ∃ a b, l = a ++ i :: j :: b := by
  obtain ⟨a, b, rfl⟩ := List.append_of_mem hi
  have hb := (linked_append.mp h).right.right.left
  rw [hj, Option.or_none] at hb
  cases b
  case nil      => cases hb
  case cons k b =>
    cases hb
    exact ⟨a, b, rfl⟩

theorem Linked.prev_eq (h : Linked prev next none (a ++ i :: b) none) : prev i = a.getLast? := by
  simpa using (linked_append.mp h).right.left

theorem Linked.next_eq (h : Linked prev next none (a ++ i :: b) none) : next i = b.head? := by
  simpa using (linked_append.mp h).right.right.left

variable [DecidableEq ι]

theorem Linked.front (h : Linked prev next before a behind) (hnodup : a.Nodup) (hprev : ∀ i ∈ a, prev' i = prev i)
    (hnext : ∀ i ∈ a, next' i = if a.getLast? = some i then behind' else next i) :
    Linked prev' next' before a behind' := by
  cases a using List.reverseRecOn
  case nil                       => trivial
  case append_singleton a last _ =>
    have ⟨ha, hp, _⟩ := linked_concat.mp h
    have hlast : last ∉ a := 
      fun h => (List.nodup_append.mp hnodup).right.right last h last (by simp) rfl
    rw [linked_concat]
    refine ⟨ha.congr ?_ ?_, (hprev last <| by simp).trans hp, by simp [hnext last]⟩
    · exact fun i hi => hprev i <| by simp [hi]
    · intro i hi
      have hne : last ≠ i := fun he => hlast <| he ▸ hi
      simp [hnext i, hi, hne]

theorem Linked.back (h : Linked prev next before b behind) (hnodup : b.Nodup) (hnext : ∀ i ∈ b, next' i = next i)
    (hprev : ∀ i ∈ b, prev' i = if b.head? = some i then before' else prev i) :
    Linked prev' next' before' b behind := by
  cases b
  case nil         => trivial
  case cons i rest =>
    obtain ⟨_, hn, hrest⟩ := h
    refine ⟨by simp [hprev i], (hnext i List.mem_cons_self).trans hn, hrest.congr ?_ ?_⟩
    · intro j hj
      have hne : i ≠ j := fun he => (List.nodup_cons.mp hnodup).left <| he ▸ hj
      simp [hprev j, hj, hne]
    · exact fun j hj => hnext j <| List.mem_cons_of_mem _ hj

-- A stretch of the list gives way to another one.
theorem Linked.replace {seg new : List ι} (h : Linked prev next none (a ++ seg ++ b) none)
    (ha : a.Nodup) (hb : b.Nodup) (hnew : new ≠ []) (hlinked : Linked prev' next' a.getLast? new b.head?)
    (haprev : ∀ i ∈ a, prev' i = prev i) (hbnext : ∀ i ∈ b, next' i = next i)
    (hanext : ∀ i ∈ a, next' i = if a.getLast? = some i then new.head? else next i)
    (hbprev : ∀ i ∈ b, prev' i = if b.head? = some i then new.getLast? else prev i) :
    Linked prev' next' none (a ++ new ++ b) none := by
  have ⟨hfront, hback⟩ := linked_append.mp h
  have hafront := (linked_append.mp hfront).left
  have hlast : (a ++ new).getLast?.or none = new.getLast? := by
    rw [Option.or_none, List.getLast?_append_of_ne_nil _ hnew]
  have hhead : new.head?.or (b.head?.or none) = new.head? := by
    cases new
    case nil  => exact absurd rfl hnew
    case cons => rfl
  rw [linked_append, linked_append, hlast, hhead, Option.or_none, Option.or_none]
  exact ⟨⟨hafront.front ha haprev hanext, hlinked⟩, hback.back hb hbnext hbprev⟩

end Links
