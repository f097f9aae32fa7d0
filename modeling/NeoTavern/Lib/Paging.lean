import Mathlib

-- Lists that are served page by page. A page carries the cursor of the next one while there is
-- more. Between two pages the state may go on.
namespace Paging

structure Page (α κ : Type*) where
  items : List α
  next  : Option κ
  deriving DecidableEq

section Cut

variable {α κ : Type*} {n : Nat} {f : α → κ} {l : List α}

-- The first `n` of `l`, with the cursor of the last of them if `l` goes on.
def cut (n : Nat) (f : α → κ) (l : List α) : Page α κ where
  items := l.take n
  next  := if n < l.length then l[n - 1]?.map f else none

theorem cut_of_length_le (h : l.length ≤ n) : cut n f l = ⟨l, none⟩ := by
  simp [cut, List.take_of_length_le h, Nat.not_lt.mpr h]

theorem cut_append (hn : pre.length + 1 = n) (hp : post ≠ []) :
    cut n f (pre ++ b :: post) = ⟨pre ++ [b], some <| f b⟩ := by
  have hl : 0 < post.length := List.length_pos_iff.mpr hp
  have hlt : n < (pre ++ b :: post).length := by
    rw [List.length_append, List.length_cons]
    omega
  have htake : (pre ++ b :: post).take n = pre ++ [b] := by
    rw [List.append_cons]
    exact List.take_left' <| by simpa using hn
  have hlast : (pre ++ b :: post)[n - 1]? = some b := by
    have : n - 1 = pre.length := by omega
    simp [this]
  rw [cut, if_pos hlt, htake, hlast]
  rfl

example : (cut 2 id [1, 2, 3]).items = [1, 2] ∧ (cut 2 id [1, 2, 3]).next = some 2 := by
  decide +kernel

-- One row past the page tells whether there is more.
theorem cut_take : cut n f (l.take (n + 1)) = cut n f l := by
  have hlt : n < (l.take (n + 1)).length ↔ n < l.length := by
    rw [List.length_take]
    omega
  have htake : (l.take (n + 1)).take n = l.take n := by
    rw [List.take_take, Nat.min_eq_left <| Nat.le_succ n]
  have hget : (l.take (n + 1))[n - 1]? = l[n - 1]? := by
    rw [List.getElem?_take, if_pos (by omega)]
  simp only [cut, hlt, htake, hget]

-- A page is read with one row past it, which it does not show.
theorem cut_eq_page (hn : 0 < n) (hrows : rows = l.take (n + 1))
    (hshown : shown = if n < rows.length then rows.take n else rows) :
    cut n f l = ⟨shown, if n < rows.length then shown.getLast?.map f else none⟩ := by
  rw [← cut_take, ← hrows]
  by_cases hlt : n < rows.length
  case neg =>
    have htake : rows.take n = rows := List.take_of_length_le <| Nat.not_lt.mp hlt
    simp [cut, hshown, hlt, htake]
  case pos =>
    have hlast : (rows.take n).getLast? = rows[n - 1]? := by
      rw [List.getLast?_eq_getElem?, List.length_take, Nat.min_eq_left hlt.le, List.getElem?_take,
        if_pos (by omega)]
    simp [cut, hshown, hlt, hlast]

theorem exists_of_length_lt (hn : 0 < n) (h : n < l.length) :
    ∃ pre b post, l = pre ++ b :: post ∧ pre.length + 1 = n ∧ post ≠ [] := by
  have hlt : n - 1 < l.length := by omega
  have hsplit : l = l.take (n - 1) ++ l[n - 1] :: l.drop n := by
    have hd := List.drop_eq_getElem_cons hlt
    rw [Nat.sub_add_cancel hn] at hd
    rw [← hd, List.take_append_drop]
  refine ⟨_, _, _, hsplit, ?_, ?_⟩
  · rw [List.length_take]
    omega
  · intro he
    have := congrArg List.length he
    rw [List.length_drop, List.length_nil] at this
    omega

-- The elements that a walk in pages of `n` has a cursor of.
def Boundary (n : Nat) (l : List α) (b : α) : Prop :=
  ∃ pre post, l = pre ++ b :: post ∧ n ∣ pre.length + 1 ∧ post ≠ []

theorem Boundary.mem (h : Boundary n l b) : b ∈ l := by
  obtain ⟨pre, post, rfl, _, _⟩ := h
  exact List.mem_append_right _ List.mem_cons_self

theorem Boundary.first (hn : pre.length + 1 = n) (hp : post ≠ []) :
    Boundary n (pre ++ b :: post) b :=
  ⟨pre, post, rfl, hn ▸ Nat.dvd_refl _, hp⟩

theorem boundary_of_cut (hn : 0 < n) (h : (cut n f l).next = some k) :
    ∃ b, Boundary n l b ∧ k = f b := by
  cases Nat.lt_or_ge n l.length
  case inr hle =>
    rw [cut_of_length_le hle] at h
    cases h
  case inl hlt =>
    obtain ⟨pre, b, post, rfl, hlen, hp⟩ := exists_of_length_lt hn hlt
    rw [cut_append hlen hp] at h
    exact ⟨b, .first hlen hp, (Option.some.inj h).symm⟩

theorem mem_of_cut (h : x ∈ (cut n f l).items) : x ∈ l :=
  List.mem_of_mem_take h

theorem Boundary.rest (hn : pre.length + 1 = n) (h : Boundary n post b') :
    Boundary n (pre ++ b :: post) b' := by
  obtain ⟨pre', post', rfl, hdvd, hp⟩ := h
  refine ⟨pre ++ b :: pre', post', by simp, ?_, hp⟩
  have hl : (pre ++ b :: pre').length + 1 = n + (pre'.length + 1) := by
    rw [List.length_append, List.length_cons]
    omega
  exact hl ▸ (Nat.dvd_add_right <| Nat.dvd_refl n).mpr hdvd

theorem not_boundary (h : l.length ≤ n) : ¬Boundary n l b := by
  rintro ⟨pre, post, rfl, hdvd, hp⟩
  have hl : 0 < post.length := List.length_pos_iff.mpr hp
  have hle := Nat.le_of_dvd (Nat.succ_pos _) hdvd
  rw [List.length_append, List.length_cons] at h
  omega

theorem Boundary.split (hn : pre.length + 1 = n) (h : Boundary n (pre ++ b :: post) b') :
    b' = b ∨ Boundary n post b' := by
  obtain ⟨pre', post', he, hdvd, hp⟩ := h
  have hle := Nat.le_of_dvd (Nat.succ_pos _) hdvd
  -- The two splits agree on the shorter prefix.
  obtain ⟨mid, rfl, hmid⟩ | ⟨mid, rfl, hmid⟩ := List.append_eq_append_iff.mp he
  case inr =>
    have : mid = [] := List.eq_nil_of_length_eq_zero <| by
      rw [List.length_append] at hn
      omega
    subst this
    exact .inl (List.cons.inj hmid).left
  case inl =>
    cases mid
    case nil => exact .inl (List.cons.inj hmid).left.symm
    case cons a mid =>
      obtain ⟨rfl, rfl⟩ := List.cons.inj hmid
      refine .inr ⟨mid, post', rfl, ?_, hp⟩
      have hl : (pre ++ b :: mid).length + 1 = n + (mid.length + 1) := by
        rw [List.length_append, List.length_cons]
        omega
      exact (Nat.dvd_add_right <| Nat.dvd_refl n).mp <| hl ▸ hdvd

end Cut

section Ordered

variable {α κ : Type*} [LinearOrder κ] {key : α → κ} {rows l : List α}

-- `ORDER BY key`.
def orderBy (key : α → κ) (rows : List α) : List α :=
  rows.insertionSort (key · ≤ key ·)

theorem mem_orderBy : x ∈ orderBy key rows ↔ x ∈ rows :=
  List.mem_insertionSort _

theorem orderBy_perm : (orderBy key rows).Perm rows :=
  List.perm_insertionSort _ rows

theorem orderBy_map {β : Type*} {f : β → α} {l : List β} :
    orderBy key (l.map f) = (orderBy (fun x => key (f x)) l).map f := by
  exact (List.map_insertionSort _ _ f l fun _ _ _ _ => Iff.rfl).symm

theorem orderBy_pairwise (h : rows.Pairwise (key · ≠ key ·)) :
    (orderBy key rows).Pairwise (key · < key ·) := by
  have : Std.Total (fun a b : α => key a ≤ key b) := ⟨fun a b => le_total (key a) (key b)⟩
  have : IsTrans α (fun a b : α => key a ≤ key b) := ⟨fun _ _ _ => le_trans⟩
  have hle := List.pairwise_insertionSort (fun a b : α => key a ≤ key b) rows
  have hperm : (orderBy key rows).Perm rows := orderBy_perm
  have hne := hperm.pairwise_iff (fun h => Ne.symm h) |>.mpr h
  exact (hle.and hne).imp fun h => lt_of_le_of_ne h.left h.right

theorem nodup_of_ordered (h : l.Pairwise (key · < key ·)) : l.Nodup :=
  h.imp fun hlt => ne_of_apply_ne key hlt.ne

theorem eq_of_ordered (h : l.Pairwise (key · < key ·)) (h' : l'.Pairwise (key · < key ·))
    (hmem : ∀ x, x ∈ l ↔ x ∈ l') : l = l' := by
  have hperm := (List.perm_ext_iff_of_nodup (nodup_of_ordered h) (nodup_of_ordered h')).mpr hmem
  exact hperm.eq_of_pairwise (fun a b _ _ hab hba => absurd hba <| lt_asymm hab) h h'

theorem orderBy_filter_eq {p : α → Bool} (hrows : rows.Pairwise (key · ≠ key ·))
    (hl : l.Pairwise (key · < key ·)) (hmem : ∀ x, x ∈ l ↔ x ∈ rows ∧ p x) :
    orderBy key (rows.filter p) = l := by
  apply eq_of_ordered (orderBy_pairwise <| hrows.filter _) hl
  intro x
  rw [mem_orderBy, List.mem_filter, hmem]

theorem mem_rest_iff (h : (pre ++ b :: post).Pairwise (key · < key ·)) :
    x ∈ post ↔ x ∈ pre ++ b :: post ∧ key b < key x := by
  have ⟨_, hpost, hpre⟩ := List.pairwise_append.mp h
  constructor
  case mp =>
    intro hx
    exact ⟨List.mem_append_right _ <| List.mem_cons_of_mem _ hx, List.rel_of_pairwise_cons hpost hx⟩
  case mpr =>
    intro ⟨hx, hlt⟩
    cases List.mem_append.mp hx
    case inl hx => exact absurd hlt <| lt_asymm <| hpre x hx b List.mem_cons_self
    case inr hx =>
      cases List.mem_cons.mp hx
      case inl he => exact absurd hlt <| he ▸ lt_irrefl _
      case inr hx => exact hx

-- What is left over of an end of an ordered list.
theorem rest_of_filter {p : α → Bool} (h : l.Pairwise (key · < key ·))
    (hp : ∀ x y, p x → key x < key y → p y) (hl : l.filter p = pre ++ b :: post) :
    b ∈ l ∧ post = l.filter (key b < key ·) := by
  have hsorted := h.filter p
  rw [hl] at hsorted
  have hb : b ∈ l.filter p := hl ▸ List.mem_append_right _ List.mem_cons_self
  have ⟨hmem, hpb⟩ := List.mem_filter.mp hb
  apply And.intro hmem
  apply eq_of_ordered (List.pairwise_append.mp hsorted).right.left.of_cons (h.filter _)
  intro x
  rw [mem_rest_iff hsorted, ← hl, List.mem_filter, List.mem_filter, decide_eq_true_eq]
  exact ⟨fun h => ⟨h.left.left, h.right⟩, fun h => ⟨⟨h.left, hp b x hpb h.right⟩, h.right⟩⟩

end Ordered

section Walk

variable {σ α κ ε : Type*} {page : σ → Option κ → Except ε (Page α κ)} {later : σ → σ → Prop}

-- The items that a client gets which follows the cursors to the end.
inductive Walk (page : σ → Option κ → Except ε (Page α κ)) (later : σ → σ → Prop) :
    σ → Option κ → List α → Prop
  | last (h : page s c = .ok ⟨items, none⟩) : Walk page later s c items
  | more (h : page s c = .ok ⟨items, some c'⟩) (hl : later s s')
      (rest : Walk page later s' (some c') items') : Walk page later s c (items ++ items')

theorem Walk.first (w : Walk page later s c items) : ∃ p, page s c = .ok p := by
  cases w
  case last h => exact ⟨_, h⟩
  case more   => exact ⟨_, ‹page s c = _›⟩

-- While nothing changes, the cursors lead to one list only.
theorem Walk.unique {page : σ → Option κ → Except ε (Page α κ)} (w : Walk page Eq s c items)
    (w' : Walk page Eq s c items') : items = items' := by
  induction w generalizing items'
  case last h =>
    cases w'
    case last h' =>
      have he := h.symm.trans h'
      cases he
      rfl
    case more =>
      have he := h.symm.trans ‹page _ _ = _›
      cases he
  case more h hl _ ih =>
    cases w'
    case last h' =>
      have he := h.symm.trans h'
      cases he
    case more rest' hl' h' =>
      have he := h.symm.trans h'
      cases he
      cases hl
      cases hl'
      rw [ih rest']

-- The same pages with something else shown for each item.
theorem Walk.map {β : Type*} {page' : σ → Option κ → Except ε (Page β κ)} {g : α → β}
    (hpage : ∀ c p, page s c = .ok p → page' s c = .ok ⟨p.items.map g, p.next⟩) (w : Walk page Eq s c items) :
    Walk page' Eq s c (items.map g) := by
  induction w
  case last h => exact .last <| hpage _ _ h
  case more h hl _ ih =>
    cases hl
    rw [List.map_append]
    exact .more (hpage _ _ h) rfl <| ih hpage

variable {window : σ → Option κ → List α} {n : Nat} {f : α → κ}

-- Every page that is served is cut from what the window of its cursor shows.
def Serves (page : σ → Option κ → Except ε (Page α κ)) (window : σ → Option κ → List α)
    (n : Nat) (f : α → κ) : Prop :=
  ∀ s c p, page s c = .ok p → p = cut n f (window s c)

theorem Walk.rule {motive : σ → Option κ → List α → Prop} (hn : 0 < n)
    (hserves : Serves page window n f)
    (last : ∀ s c, (window s c).length ≤ n → page s c = .ok ⟨window s c, none⟩ →
      motive s c (window s c))
    (more : ∀ s s' c pre b post items, window s c = pre ++ b :: post → pre.length + 1 = n →
      post ≠ [] → page s c = .ok ⟨pre ++ [b], some <| f b⟩ → later s s' →
      Walk page later s' (some <| f b) items → motive s' (some <| f b) items →
      motive s c (pre ++ b :: items))
    (w : Walk page later s c items) : motive s c items := by
  induction w
  case last s c items h =>
    have hcut := hserves _ _ _ h
    cases Nat.lt_or_ge n (window s c).length
    case inr hle =>
      rw [cut_of_length_le hle, Page.mk.injEq] at hcut
      obtain ⟨rfl, -⟩ := hcut
      exact last s c hle h
    case inl hlt =>
      obtain ⟨pre, b, post, he, hl, hp⟩ := exists_of_length_lt hn hlt
      rw [he, cut_append hl hp, Page.mk.injEq] at hcut
      exact absurd hcut.right nofun
  case more s c items c' s' items' h hl rest ih =>
    have hcut := hserves _ _ _ h
    cases Nat.lt_or_ge n (window s c).length
    case inr hle =>
      rw [cut_of_length_le hle, Page.mk.injEq] at hcut
      exact absurd hcut.right nofun
    case inl hlt =>
      obtain ⟨pre, b, post, he, hlen, hp⟩ := exists_of_length_lt hn hlt
      rw [he, cut_append hlen hp, Page.mk.injEq, Option.some.injEq] at hcut
      obtain ⟨rfl, rfl⟩ := hcut
      rw [List.append_assoc]
      exact more s s' c pre b post items' he hlen hp h hl rest ih

-- What a window shows is served, when the next window still shows what has been left over.
theorem Walk.covers (hn : 0 < n) (hserves : Serves page window n f)
    (hnext : ∀ s s' c pre b post, window s c = pre ++ b :: post →
      page s c = .ok ⟨pre ++ [b], some <| f b⟩ → later s s' →
      ∀ x ∈ post, x ∈ window s' (some <| f b))
    (w : Walk page later s c items) : ∀ x ∈ window s c, x ∈ items := by
  apply w.rule hn hserves
  case last => exact fun _ _ _ _ _ hx => hx
  case more =>
    intro s s' c pre b post items he _ _ hpage hl _ ih x hx
    rw [he, List.append_cons] at hx
    rw [List.append_cons]
    cases List.mem_append.mp hx
    case inl hx => exact List.mem_append_left _ hx
    case inr hx => exact List.mem_append_right _ <| ih x <| hnext s s' c pre b post he hpage hl x hx

-- What holds of the items of every page holds of the items of a walk.
theorem Walk.forall {P : α → Prop} (hpage : ∀ s c p, page s c = .ok p → ∀ x ∈ p.items, P x)
    (w : Walk page later s c items) : ∀ x ∈ items, P x := by
  induction w
  case last h           => exact hpage _ _ _ h
  case more h _ rest ih =>
    intro x hx
    cases List.mem_append.mp hx
    case inl hx => exact hpage _ _ _ h x hx
    case inr hx => exact ih x hx

-- A walk serves exactly what the first window shows when each next window is what has been left over.
theorem walk_of_windows {P : Option κ → List α → Prop} (hn : 0 < n) (hrefl : later s s)
    (hpage : ∀ c l, P c l → page s c = .ok (cut n f l))
    (hnext : ∀ c pre b post, P c (pre ++ b :: post) → pre.length + 1 = n → post ≠ [] →
      P (some <| f b) post)
    (h : P c l) : Walk page later s c l := by
  cases Nat.lt_or_ge n l.length
  case inr hle => exact .last <| (hpage c l h).trans <| congrArg _ <| cut_of_length_le hle
  case inl hlt =>
    obtain ⟨pre, b, post, rfl, hlen, hp⟩ := exists_of_length_lt hn hlt
    have hpost := walk_of_windows hn hrefl hpage hnext (hnext c pre b post h hlen hp)
    rw [List.append_cons]
    exact .more ((hpage _ _ h).trans <| congrArg _ <| cut_append hlen hp) hrefl hpost
termination_by l.length
decreasing_by
  subst_vars
  rw [List.length_append, List.length_cons]
  omega

end Walk

section Growing

variable {σ α κ ε : Type*} {page : σ → Option κ → Except ε (Page α κ)} {later : σ → σ → Prop}

-- A walk that reads its pages in these states, one after the other: the items so far, and whether
-- it has come to the end.
def readPages (page : σ → Option κ → Except ε (Page α κ)) :
    List σ → Option κ → Except ε (List α × Bool)
  | [],      _ => .ok ([], false)
  | s :: ss, c =>
    match page s c with
    | .error e             => .error e
    | .ok ⟨items, none⟩    => .ok (items, true)
    | .ok ⟨items, some c'⟩ => (readPages page ss (some c')).map fun r => (items ++ r.fst, r.snd)

theorem readPages_last (h : page s c = .ok ⟨items, none⟩) :
    readPages page (s :: ss) c = .ok (items, true) := by
  rw [readPages, h]

theorem readPages_more (h : page s c = .ok ⟨items, some c'⟩) :
    readPages page (s :: ss) c =
    (readPages page ss (some c')).map fun r => (items ++ r.fst, r.snd) := by
  rw [readPages, h]

theorem readPages_first (h : readPages page (s :: ss) c = .ok r) : ∃ p, page s c = .ok p := by
  cases hp : page s c
  case error e => simp [readPages, hp] at h
  case ok p    => exact ⟨p, rfl⟩

theorem readPages_forall {P : α → Prop} (hpage : ∀ s c p, page s c = .ok p → ∀ x ∈ p.items, P x)
    (h : readPages page ss c = .ok (items, ended)) : ∀ x ∈ items, P x := by
  induction ss generalizing c items ended
  case nil =>
    cases h
    exact nofun
  case cons s ss ih =>
    cases hp : page s c
    case error e => simp [readPages, hp] at h
    case ok p    =>
      have hitems := hpage s c p hp
      obtain ⟨first, next⟩ := p
      cases next
      case none =>
        rw [readPages_last hp] at h
        cases h
        exact hitems
      case some c' =>
        rw [readPages_more hp] at h
        cases hrest : readPages page ss (some c')
        case error e => simp [hrest, Except.map] at h
        case ok r    =>
          simp only [hrest, Except.map, Except.ok.injEq, Prod.mk.injEq] at h
          rw [← h.left]
          intro x hx
          cases List.mem_append.mp hx
          case inl hx => exact hitems x hx
          case inr hx => exact ih hrest x hx

-- Windows that growth leaves in place: the next window starts with what has been left over, and
-- shows nothing that has been passed. `P` says which cursors may be followed in which state.
structure Stable (page : σ → Option κ → Except ε (Page α κ)) (later : σ → σ → Prop)
    (window : σ → Option κ → List α) (n : Nat) (f : α → κ) (lt : α → α → Prop)
    (P : σ → Option κ → Prop) : Prop where
  page   : ∀ s c, P s c → page s c = .ok (cut n f (window s c))
  sorted : ∀ s c, P s c → (window s c).Pairwise lt
  next   : ∀ s s' c pre b post, P s c → later s s' → window s c = pre ++ b :: post →
    P s' (some <| f b)
  left   : ∀ s s' c pre b post, P s c → later s s' → window s c = pre ++ b :: post →
    post <+: window s' (some <| f b)
  after  : ∀ s s' c pre b post, P s c → later s s' → window s c = pre ++ b :: post →
    ∀ x ∈ window s' (some <| f b), lt b x

variable {window : σ → Option κ → List α} {n : Nat} {f : α → κ} {lt : α → α → Prop}
  {P : σ → Option κ → Prop}

-- What a walk through growing states has got: nothing twice, and of the first window everything if
-- it has come to the end, and else as much as so many pages hold.
structure Served (lt : α → α → Prop) (first : List α) (count : Nat) (items : List α) (ended : Bool) :
    Prop where
  sorted : items.Pairwise lt
  bound  : ∀ a, (∀ x ∈ first, lt a x) → ∀ x ∈ items, lt a x
  all    : ended → first <+: items
  some   : first.take count <+: items

-- What the client is to have got when `room` items have been asked for.
structure Complete (lt : α → α → Prop) (first : List α) (room : Nat) (items : List α) (ended : Bool) :
    Prop where
  sorted : items.Pairwise lt
  all    : ended ∨ first.length ≤ room → ∀ x ∈ first, x ∈ items

theorem Served.complete (h : Served lt l room items ended) : Complete lt l room items ended where
  sorted := h.sorted
  all    := by
    intro hend x hx
    cases hend
    case inl he => exact (h.all he).subset hx
    case inr hlen => exact h.some.subset <| (List.take_of_length_le hlen).symm ▸ hx

theorem Served.last (h : l.Pairwise lt) : Served lt l k l true where
  sorted := h
  bound  := fun _ => id
  all    := fun _ => List.prefix_rfl
  some   := List.take_prefix _ _

theorem Served.none : Served lt l 0 [] false where
  sorted := .nil
  bound  := nofun
  all    := nofun
  some   := List.prefix_rfl

theorem Served.more (htrans : ∀ x y z, lt x y → lt y z → lt x z)
    (hsorted : (pre ++ b :: post).Pairwise lt) (hn : pre.length + 1 = n) (hleft : post <+: w)
    (hafter : ∀ x ∈ w, lt b x) (h : Served lt w k items ended) :
    Served lt (pre ++ b :: post) (n + k) (pre ++ [b] ++ items) ended := by
  have hb := h.bound b hafter
  have ⟨hpre, _, hmid⟩ := List.pairwise_append.mp hsorted
  have hfirst : (pre ++ [b]).Pairwise lt :=
    List.pairwise_append.mpr ⟨hpre, List.pairwise_singleton _ _, fun x hx y hy =>
      List.mem_singleton.mp hy ▸ hmid x hx b List.mem_cons_self⟩
  constructor
  case sorted =>
    refine List.pairwise_append.mpr ⟨hfirst, h.sorted, fun x hx y hy => ?_⟩
    cases List.mem_append.mp hx
    case inl hx => exact htrans x b y (hmid x hx b List.mem_cons_self) <| hb y hy
    case inr hx => exact List.mem_singleton.mp hx ▸ hb y hy
  case bound =>
    intro a ha x hx
    have hab := ha b <| List.mem_append_right _ List.mem_cons_self
    cases List.mem_append.mp hx
    case inr hx => exact htrans a b x hab <| hb x hx
    case inl hx =>
      apply ha x
      rw [List.append_cons]
      exact List.mem_append_left _ hx
  case all =>
    intro he
    rw [List.append_cons]
    exact (List.prefix_append_right_inj _).mpr <| hleft.trans <| h.all he
  case some =>
    have hlen : (pre ++ [b]).length = n := by simpa using hn
    rw [List.append_cons, List.take_append, List.take_of_length_le (by omega), hlen,
      Nat.add_sub_cancel_left]
    exact (List.prefix_append_right_inj _).mpr <| (List.IsPrefix.take hleft k).trans h.some

theorem Stable.served (h : Stable page later window n f lt P) (hn : 0 < n)
    (htrans : ∀ x y z, lt x y → lt y z → lt x z) (hP : P s c) (hs : (s :: ss).IsChain later) :
    ∃ items ended, readPages page (s :: ss) c = .ok (items, ended) ∧
      Served lt (window s c) (n * (ss.length + 1)) items ended := by
  induction ss generalizing s c
  all_goals
    have hpage   := h.page s c hP
    have hsorted := h.sorted s c hP
    cases Nat.lt_or_ge n (window s c).length
    case inr hle =>
      rw [cut_of_length_le hle] at hpage
      exact ⟨_, true, readPages_last hpage, .last hsorted⟩
  case nil.inl hlt =>
    obtain ⟨pre, b, post, he, hlen, hp⟩ := exists_of_length_lt hn hlt
    rw [he] at hpage hsorted ⊢
    rw [cut_append hlen hp] at hpage
    refine ⟨pre ++ [b], false, by rw [readPages_more hpage]; simp [readPages, Except.map], ?_⟩
    have hpost := (List.pairwise_append.mp hsorted).right.left
    have hmore := Served.none.more htrans hsorted hlen List.prefix_rfl
      fun x hx => List.rel_of_pairwise_cons hpost hx
    simpa using hmore
  case cons.inl s' ss ih hlt =>
    obtain ⟨pre, b, post, he, hlen, hp⟩ := exists_of_length_lt hn hlt
    have ⟨hl, hs'⟩ := List.isChain_cons_cons.mp hs
    have ⟨items, ended, hread, hserved⟩ := ih (h.next s s' c pre b post hP hl he) hs'
    have hmore := hserved.more htrans (he ▸ hsorted) hlen (h.left s s' c pre b post hP hl he)
      (h.after s s' c pre b post hP hl he)
    rw [he] at hpage ⊢
    rw [cut_append hlen hp] at hpage
    refine ⟨pre ++ [b] ++ items, ended, by rw [readPages_more hpage, hread]; rfl, ?_⟩
    have hcount : n * ((s' :: ss).length + 1) = n + n * (ss.length + 1) := by
      rw [List.length_cons, Nat.mul_succ, Nat.add_comm]
    exact hcount ▸ hmore

end Growing

end Paging

-- Pages whose cursor is the key of their last row: `WHERE key > ? ORDER BY key LIMIT n + 1`.
namespace Keyset

variable {α γ κ σ : Type*} [LinearOrder κ] {rows : List α} {key : α → κ} {cursorOf : α → γ}
  {after : Option γ → α → Bool} {n : Nat}

-- A condition on cursors: without one all rows are shown, and with one those behind its row.
structure Positions (rows : List α) (key : α → κ) (cursorOf : α → γ) (after : Option γ → α → Bool) : Prop where
  distinct : rows.Pairwise (key · ≠ key ·)
  start    : ∀ row, after none row
  behind   : ∀ last ∈ rows, ∀ row, after (some <| cursorOf last) row = decide (key last < key row)

def page (rows : List α) (key : α → κ) (cursorOf : α → γ) (after : Option γ → α → Bool) (n : Nat)
    (cursor : Option γ) : Paging.Page α γ :=
  Paging.cut n cursorOf <| Paging.orderBy key <| rows.filter <| after cursor

theorem Positions.ordered (h : Positions rows key cursorOf after) :
    (Paging.orderBy key rows).Pairwise (key · < key ·) :=
  Paging.orderBy_pairwise h.distinct

-- The rows that a cursor leaves.
def LeftBy (rows : List α) (key : α → κ) (cursorOf : α → γ) (cursor : Option γ) (left : List α) : Prop :=
  cursor = none ∧ left = Paging.orderBy key rows ∨
  ∃ last ∈ rows, cursor = some (cursorOf last) ∧ left = (Paging.orderBy key rows).filter (key last < key ·)

theorem page_eq (h : Positions rows key cursorOf after) (hleft : LeftBy rows key cursorOf cursor left) :
    page rows key cursorOf after n cursor = Paging.cut n cursorOf left := by
  rw [page]
  congr 1
  cases hleft
  case inl hleft =>
    have ⟨hcursor, hrows⟩ := hleft
    have hall : rows.filter (after none) = rows := List.filter_eq_self.mpr fun row _ => h.start row
    rw [hcursor, hall, hrows]
  case inr hleft =>
    have ⟨last, hlast, hcursor, hrows⟩ := hleft
    rw [hcursor, hrows]
    apply Paging.orderBy_filter_eq h.distinct (h.ordered.filter _)
    intro row
    rw [List.mem_filter, Paging.mem_orderBy, h.behind last hlast]

theorem LeftBy.rest (h : Positions rows key cursorOf after)
    (hleft : LeftBy rows key cursorOf cursor (pre ++ b :: post)) :
    LeftBy rows key cursorOf (some <| cursorOf b) post := by
  have hrest {p : α → Bool} (hp : ∀ x y, p x → key x < key y → p y)
      (heq : (Paging.orderBy key rows).filter p = pre ++ b :: post) :
      LeftBy rows key cursorOf (some <| cursorOf b) post := by
    have ⟨hb, hpost⟩ := Paging.rest_of_filter h.ordered hp heq
    exact .inr ⟨b, Paging.mem_orderBy.mp hb, rfl, hpost⟩
  cases hleft
  case inl hleft =>
    apply @hrest fun _ => true
    case hp  => exact fun _ _ _ _ => rfl
    case heq => rw [List.filter_true, hleft.right]
  case inr hleft =>
    have ⟨last, _, _, hrows⟩ := hleft
    apply @hrest fun row => decide (key last < key row)
    case hp  => exact fun _ _ hx hlt => decide_eq_true <| (of_decide_eq_true hx).trans hlt
    case heq => exact hrows.symm

-- Whoever follows the cursors gets all rows in their order, each of them once.
theorem walk_iff {s : σ} {items : List α} (hn : 0 < n) (h : Positions rows key cursorOf after) :
    Paging.Walk (fun _ cursor => (.ok <| page rows key cursorOf after n cursor : Except Unit _)) Eq s none items ↔
      items = Paging.orderBy key rows := by
  have hwalk : Paging.Walk (fun _ cursor => (.ok <| page rows key cursorOf after n cursor : Except Unit _)) Eq s
      none (Paging.orderBy key rows) := by
    have hfirst : LeftBy rows key cursorOf (none : Option γ) (Paging.orderBy key rows) := .inl ⟨rfl, rfl⟩
    have hpage (c left) (hleft : LeftBy rows key cursorOf c left) :
        (.ok <| page rows key cursorOf after n c : Except Unit _) = .ok (Paging.cut n cursorOf left) :=
      congrArg _ <| page_eq h hleft
    have hnext (c pre b post) (hleft : LeftBy rows key cursorOf c (pre ++ b :: post)) (_ : pre.length + 1 = n)
        (_ : post ≠ []) : LeftBy rows key cursorOf (some <| cursorOf b) post :=
      hleft.rest h
    exact Paging.walk_of_windows hn rfl hpage hnext hfirst
  constructor
  case mp  => exact fun w => w.unique hwalk
  case mpr => exact fun heq => heq ▸ hwalk

-- The same when something is shown for each row: what is got are the rows in the one list that is ordered.
theorem walk_map_iff {β : Type*} {page' : σ → Option γ → Except Unit (Paging.Page β γ)} {g : α → β} {s : σ}
    {items : List β} (hn : 0 < n) (h : Positions rows key cursorOf after)
    (hpage : ∀ c p, p = page rows key cursorOf after n c → page' s c = .ok ⟨p.items.map g, p.next⟩) :
    Paging.Walk page' Eq s none items ↔
      ∃ l : List α, l.Pairwise (key · < key ·) ∧ (∀ row, row ∈ l ↔ row ∈ rows) ∧ items = l.map g := by
  have hwalk : Paging.Walk page' Eq s none ((Paging.orderBy key rows).map g) :=
    ((walk_iff (s := s) hn h).mpr rfl).map fun c p hp => hpage c p (Except.ok.inj hp).symm
  constructor
  case mp  => exact fun w => ⟨_, h.ordered, fun _ => Paging.mem_orderBy, w.unique hwalk⟩
  case mpr =>
    intro ⟨l, hl, hmem, hitems⟩
    have heq : l = Paging.orderBy key rows :=
      Paging.eq_of_ordered hl h.ordered fun row => by rw [hmem, Paging.mem_orderBy]
    rw [hitems, heq]
    exact hwalk

end Keyset
