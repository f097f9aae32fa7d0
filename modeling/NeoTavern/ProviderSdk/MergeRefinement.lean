import Mathlib
import NeoTavern.Lib.Links
import NeoTavern.ProviderSdk.PlainBpe
import NeoTavern.ProviderSdk.ScoreHeap

-- The merging of one word: a list of nodes, and a heap with the scores of the pairs to merge.
namespace ProviderSdk

structure MergeNode where
  token   : Bytes
  bias    : ℚ
  deleted : Bool := false
  prev    : Option ℕ
  next    : Option ℕ

structure HeapEntry where
  node  : ℕ
  score : ℚ
  deriving DecidableEq

def HeapEntry.less (left right : HeapEntry) : Bool :=
  left.score < right.score

-- A node is referred to by its number, in the order in which the nodes are made.
structure Merging where
  made  : ℕ
  node  : ℕ → MergeNode
  heap  : Array HeapEntry
  count : ℕ

namespace Merging

section Code

variable (ranks : Ranks) (s : Merging)

def make (node : MergeNode) : Merging :=
  { s with made := s.made + 1, node := Function.update s.node s.made node }

def modify (i : ℕ) (f : MergeNode → MergeNode) : Merging :=
  { s with node := Function.update s.node i (f (s.node i)) }

-- The same for a reference that may be null.
def modify? (i : Option ℕ) (f : MergeNode → MergeNode) : Merging :=
  match i with
  | none   => s
  | some i => s.modify i f

def addNode (i : ℕ) : Merging :=
  match (s.node i).next with
  | none      => s
  | some next =>
    match ranks ((s.node i).token ++ (s.node next).token) with
    | none      => s
    | some rank => { s with heap := ScoreHeap.push HeapEntry.less s.heap ⟨i, rank + (s.node i).bias⟩ }

-- The first byte of a word.
def start (byte : UInt8) (len : ℕ) : Merging where
  made  := 1
  node  := fun _ => { token := [byte], bias := 0, prev := none, next := none }
  heap  := #[]
  count := len

-- One more byte.
def extend (len : ℕ) (byte : UInt8) : Merging :=
  let index := s.made
  let a := s.made - 1
  let s := s.make { token := [byte], bias := index / len, prev := some a, next := none }
  let s := s.modify a fun n => { n with next := some index }
  s.addNode ranks a

-- Clones the predecessor of a node, so that its heap entry is not valid any more.
def clonePrev (i : ℕ) : Merging × Option ℕ :=
  match (s.node i).prev with
  | none   => (s, none)
  | some p =>
    let clone := { s.node p with deleted := false }
    let c := s.made
    let s := s.make clone
    let s := s.modify p fun n => { n with deleted := true }
    let s := s.modify i fun n => { n with prev := some c }
    (s.modify? clone.prev fun n => { n with next := some c }, some c)

-- A new node in the place of the nodes `i` and `j`.
def insertMerged (prev : Option ℕ) (i j : ℕ) : Merging :=
  let merged : MergeNode := {
    token := (s.node i).token ++ (s.node j).token
    bias  := (s.node i).bias
    prev
    next  := (s.node j).next
  }
  let m := s.made
  let s := s.make merged
  let s :=
    match merged.prev with
    | none   => s
    | some p => (s.modify p fun n => { n with next := some m }).addNode ranks p
  match merged.next with
  | none   => s
  | some n => (s.modify n fun n => { n with prev := some m }).addNode ranks m

def mergePair (i j : ℕ) : Merging :=
  let s := s.modify i fun n => { n with deleted := true }
  let s := s.modify j fun n => { n with deleted := true }
  let s := { s with count := s.count - 1 }
  let (s, prev) := s.clonePrev i
  s.insertMerged ranks prev i j

-- The loop over the heap, with a number of rounds. Gives the count when the heap is empty.
def loop : ℕ → Merging → Option ℕ
  | 0, _          => none
  | rounds + 1, s =>
    match ScoreHeap.pop HeapEntry.less s.heap with
    | none                => some s.count
    | some (popped, heap) =>
      let s := { s with heap }
      let node := s.node popped.node
      match node.next with
      | none      => loop rounds s
      | some next =>
        if node.deleted || (s.node next).deleted then loop rounds s else loop rounds (s.mergePair ranks popped.node next)

end Code

end Merging

-- Each byte gives an entry at most, and each merge two more.
def mergeWord (ranks : Ranks) (bytes : Bytes) : Option ℕ :=
  let len := bytes.length
  match bytes with
  | []            => some 0
  | [_]           => some 1
  | byte :: bytes =>
    let s := bytes.foldl (fun s byte => s.extend ranks len byte) (Merging.start byte len)
    s.loop ranks (3 * len)

example : mergeWord (fun b => if b = [1, 2] then some 1 else none) [1, 2] = some 1 := by
  decide +kernel

end ProviderSdk

-- The nodes and the heap hold what the plain procedure works on.
namespace ProviderSdk

namespace Merging

open HeapOrder (IsHeap)
open Links (Linked)
open PlainBpe (IsPair)

variable {ranks : Ranks} {s : Merging} {live : List ℕ} {i j k x : ℕ} {f : MergeNode → MergeNode} {n : MergeNode}
  {e : HeapEntry}

section Operations

@[simp] theorem make_made : (s.make n).made = s.made + 1 := rfl
@[simp] theorem make_heap : (s.make n).heap = s.heap := rfl
@[simp] theorem make_count : (s.make n).count = s.count := rfl
@[simp] theorem modify_made : (s.modify i f).made = s.made := rfl
@[simp] theorem modify_heap : (s.modify i f).heap = s.heap := rfl
@[simp] theorem modify_count : (s.modify i f).count = s.count := rfl

theorem make_node : (s.make n).node x = if x = s.made then n else s.node x :=
  Function.update_apply ..

theorem modify_node : (s.modify i f).node x = if x = i then f (s.node x) else s.node x := by
  rw [show (s.modify i f).node x = if x = i then f (s.node i) else s.node x from Function.update_apply ..]
  split
  case isTrue h => rw [h]
  case isFalse  => rfl

variable {o : Option ℕ}

@[simp]
theorem modify?_made : (s.modify? o f).made = s.made := by
  cases o <;> rfl

@[simp]
theorem modify?_heap : (s.modify? o f).heap = s.heap := by
  cases o <;> rfl

@[simp]
theorem modify?_count : (s.modify? o f).count = s.count := by
  cases o <;> rfl

theorem modify?_node : (s.modify? o f).node x = if o = some x then f (s.node x) else s.node x := by
  cases o
  case none   => rfl
  case some i => simp [modify?, modify_node, eq_comm]

-- The entry for a node and the one behind it, where their tokens have a rank together.
def pairEntry (ranks : Ranks) (s : Merging) (i : ℕ) : Option HeapEntry :=
  (s.node i).next.bind fun next =>
    (ranks ((s.node i).token ++ (s.node next).token)).map fun rank : ℤ => ⟨i, rank + (s.node i).bias⟩

theorem addNode_eq : s.addNode ranks i =
    match s.pairEntry ranks i with
    | none   => s
    | some e => { s with heap := ScoreHeap.push HeapEntry.less s.heap e } := by
  rw [addNode, pairEntry]
  cases (s.node i).next
  case none      => rfl
  case some next => cases hrank : ranks ((s.node i).token ++ (s.node next).token) <;> simp [hrank]

@[simp]
theorem addNode_made : (s.addNode ranks i).made = s.made := by
  rw [addNode_eq]
  cases s.pairEntry ranks i <;> rfl

@[simp]
theorem addNode_node : (s.addNode ranks i).node = s.node := by
  rw [addNode_eq]
  cases s.pairEntry ranks i <;> rfl

@[simp]
theorem addNode_count : (s.addNode ranks i).count = s.count := by
  rw [addNode_eq]
  cases s.pairEntry ranks i <;> rfl

theorem mem_addNode : e ∈ (s.addNode ranks i).heap ↔ e ∈ s.heap ∨ s.pairEntry ranks i = some e := by
  rw [addNode_eq]
  cases s.pairEntry ranks i
  case none    => simp
  case some e' => simp [ScoreHeap.mem_push, eq_comm]

theorem size_addNode : (s.addNode ranks i).heap.size ≤ s.heap.size + 1 := by
  rw [addNode_eq]
  cases s.pairEntry ranks i <;> simp

theorem addNode_isHeap (h : IsHeap (ScoreHeap.keys HeapEntry.score s.heap)) :
    IsHeap (ScoreHeap.keys HeapEntry.score (s.addNode ranks i).heap) := by
  rw [addNode_eq]
  cases s.pairEntry ranks i
  case none   => exact h
  case some e => exact ScoreHeap.push_isHeap h

theorem node_of_pairEntry (h : s.pairEntry ranks i = some e) : e.node = i := by
  simp only [pairEntry, Option.bind_eq_some_iff, Option.map_eq_some_iff] at h
  obtain ⟨_, _, _, _, rfl⟩ := h
  rfl

-- An entry depends on the tokens, on the bias and on what is next, whatever the number of the next one.
theorem pairEntry_congr {s' : Merging} (htoken : (s'.node x).token = (s.node x).token)
    (hbias : (s'.node x).bias = (s.node x).bias)
    (hnext : (s'.node x).next.map (fun y => (s'.node y).token) = (s.node x).next.map fun y => (s.node y).token) :
    s'.pairEntry ranks x = s.pairEntry ranks x := by
  have hmap (t : Merging) : t.pairEntry ranks x = ((t.node x).next.map fun y => (t.node y).token).bind fun token =>
      (ranks ((t.node x).token ++ token)).map fun rank : ℤ => ⟨x, rank + (t.node x).bias⟩ := by
    rw [pairEntry, Option.bind_map]
    rfl
  rw [hmap, hmap, hnext, htoken, hbias]

end Operations

section Invariant

variable {marked opened pre post rest : List ℕ}

def tokens (s : Merging) (live : List ℕ) : List Bytes :=
  live.map fun i => (s.node i).token

def biases (s : Merging) (live : List ℕ) : List ℚ :=
  live.map fun i => (s.node i).bias

-- The nodes in their order, those `marked` being deleted already. Each pair with a rank has its entry,
-- but for the `opened` nodes, which have none; the other entries are of nodes that are deleted.
structure Holds (ranks : Ranks) (s : Merging) (live marked opened : List ℕ) : Prop where
  linked   : Linked (fun i => (s.node i).prev) (fun i => (s.node i).next) none live none
  nodup    : live.Nodup
  made     : ∀ i ∈ live, i < s.made
  alive    : ∀ i < s.made, (s.node i).deleted = false ↔ i ∈ live ∧ i ∉ marked
  bias     : ∀ b ∈ s.biases live, 0 ≤ b ∧ b < 1
  sorted   : (s.biases live).Pairwise (· < ·)
  heap     : IsHeap (ScoreHeap.keys HeapEntry.score s.heap)
  valid    : ∀ e ∈ s.heap, e.node < s.made ∧
             ((s.node e.node).deleted = false → e.node ∉ opened ∧ s.pairEntry ranks e.node = some e)
  complete : ∀ i ∈ live, i ∉ opened → ∀ e, s.pairEntry ranks i = some e → e ∈ s.heap

theorem Holds.prev_eq (h : Holds ranks s (pre ++ i :: rest) marked opened) : (s.node i).prev = pre.getLast? :=
  h.linked.prev_eq

theorem Holds.next_eq (h : Holds ranks s (pre ++ i :: rest) marked opened) : (s.node i).next = rest.head? :=
  h.linked.next_eq

theorem Holds.next_mem (h : Holds ranks s live marked opened) (hx : x ∈ live) (hnext : (s.node x).next = some k) :
    k ∈ live := by
  have ⟨a, b, hsplit⟩ := h.linked.split hx hnext
  simp [hsplit]

section Taking

variable {heap : Array HeapEntry}

def delete (n : MergeNode) : MergeNode :=
  { n with deleted := true }

theorem delete_node : (s.modify i delete).node x = { s.node x with deleted := (s.node x).deleted || x = i } := by
  rw [modify_node]
  by_cases h : x = i <;> simp [h, delete]

-- The first entry is taken out, and its node is deleted together with the next one.
theorem Holds.take (h : Holds ranks s (pre ++ i :: j :: post) [] [])
    (hpop : ScoreHeap.pop HeapEntry.less s.heap = some (e, heap)) (he : e.node = i) :
    Holds ranks (({ s with heap }.modify i delete).modify j delete) (pre ++ i :: j :: post) [i, j] [i] := by
  have hprev (x : ℕ) : (((({ s with heap } : Merging).modify i delete).modify j delete).node x).prev =
      (s.node x).prev := by
    simp only [delete_node]
  have hnext (x : ℕ) : (((({ s with heap } : Merging).modify i delete).modify j delete).node x).next =
      (s.node x).next := by
    simp only [delete_node]
  have htoken (x : ℕ) : (((({ s with heap } : Merging).modify i delete).modify j delete).node x).token =
      (s.node x).token := by
    simp only [delete_node]
  have hbias (x : ℕ) : (((({ s with heap } : Merging).modify i delete).modify j delete).node x).bias =
      (s.node x).bias := by
    simp only [delete_node]
  have hdeleted (x : ℕ) : (((({ s with heap } : Merging).modify i delete).modify j delete).node x).deleted = false ↔
      (s.node x).deleted = false ∧ x ∉ [i, j] := by
    simp [delete_node, and_assoc]
  have hentry (x : ℕ) : ((({ s with heap } : Merging).modify i delete).modify j delete).pairEntry ranks x =
      s.pairEntry ranks x :=
    pairEntry_congr (htoken x) (hbias x) <| by simp only [hnext, htoken]
  constructor
  case linked   => exact h.linked.congr (fun x _ => hprev x) (fun x _ => hnext x)
  case nodup    => exact h.nodup
  case made     => exact h.made
  case bias     =>
    intro b hb
    simp only [biases, hbias] at hb
    exact h.bias b hb
  case sorted   =>
    simp only [biases, hbias]
    exact h.sorted
  case heap     => exact (ScoreHeap.pop_isHeap h.heap hpop).left
  case alive    =>
    intro x hx
    rw [hdeleted, h.alive x hx]
    simp
  case valid    =>
    intro e' he'
    have ⟨hmade, hvalid⟩ := h.valid e' <| (ScoreHeap.mem_pop hpop).mpr <| .inr he'
    refine ⟨hmade, fun hdel => ?_⟩
    have ⟨hold, hne⟩ := (hdeleted _).mp hdel
    exact ⟨fun hmem => hne <| List.mem_cons.mpr <| .inl <| List.mem_singleton.mp hmem, (hentry _).trans (hvalid hold).right⟩
  case complete =>
    intro x hx hne e' he'
    rw [hentry] at he'
    have hmem := h.complete x hx List.not_mem_nil e' he'
    apply ((ScoreHeap.mem_pop hpop).mp hmem).resolve_left
    rintro rfl
    exact hne <| List.mem_singleton.mpr <| (node_of_pairEntry he').symm.trans he

-- An entry of a node that is deleted is passed over.
theorem Holds.skip (h : Holds ranks s live [] []) (hpop : ScoreHeap.pop HeapEntry.less s.heap = some (e, heap))
    (hdeleted : (s.node e.node).deleted = true) : Holds ranks { s with heap } live [] [] where
  linked   := h.linked
  nodup    := h.nodup
  made     := h.made
  alive    := h.alive
  bias     := h.bias
  sorted   := h.sorted
  heap     := (ScoreHeap.pop_isHeap h.heap hpop).left
  valid    := fun e' he' => h.valid e' <| (ScoreHeap.mem_pop hpop).mpr <| .inr he'
  complete := by
    intro x hx hopened e' he'
    have hmem := h.complete x hx hopened e' he'
    apply ((ScoreHeap.mem_pop hpop).mp hmem).resolve_left
    rintro rfl
    have halive := ((h.alive x <| h.made x hx).mpr ⟨hx, List.not_mem_nil⟩)
    rw [node_of_pairEntry he', halive] at hdeleted
    cases hdeleted

end Taking

section Cloning

variable {front : List ℕ} {p : ℕ}

theorem clonePrev_of_none (h : (s.node i).prev = none) : s.clonePrev i = (s, none) := by
  rw [clonePrev, h]

theorem clonePrev_snd (hp : (s.node i).prev = some p) : (s.clonePrev i).snd = some s.made := by
  rw [clonePrev, hp]

theorem clonePrev_made (hp : (s.node i).prev = some p) : (s.clonePrev i).fst.made = s.made + 1 := by
  rw [clonePrev, hp, modify?_made, modify_made, modify_made, make_made]

theorem clonePrev_heap (hp : (s.node i).prev = some p) : (s.clonePrev i).fst.heap = s.heap := by
  rw [clonePrev, hp, modify?_heap, modify_heap, modify_heap, make_heap]

theorem clonePrev_count : (s.clonePrev i).fst.count = s.count := by
  rw [clonePrev]
  cases (s.node i).prev
  case none => rfl
  case some => rw [modify?_count, modify_count, modify_count, make_count]

-- The clone has the number `s.made`. The predecessor of the cloned node gets it as what is next.
structure Cloned (s s' : Merging) (i p : ℕ) : Prop where
  token   : ∀ x, (s'.node x).token = if x = s.made then (s.node p).token else (s.node x).token
  bias    : ∀ x, (s'.node x).bias = if x = s.made then (s.node p).bias else (s.node x).bias
  prev    : ∀ x, (s'.node x).prev = if x = i then some s.made else if x = s.made then (s.node p).prev else (s.node x).prev
  next    : ∀ x, (s'.node x).next = if (s.node p).prev = some x then some s.made
            else if x = s.made then (s.node p).next else (s.node x).next
  deleted : ∀ x, (s'.node x).deleted = if x = p then true else if x = s.made then false else (s.node x).deleted

theorem clonePrev_cloned (hp : (s.node i).prev = some p) : Cloned s (s.clonePrev i).fst i p := by
  have hnode (x : ℕ) : (s.clonePrev i).fst.node x =
      let n := if x = s.made then { s.node p with deleted := false } else s.node x
      let n := if x = p then { n with deleted := true } else n
      let n := if x = i then { n with prev := some s.made } else n
      if (s.node p).prev = some x then { n with next := some s.made } else n := by
    rw [clonePrev, hp]
    simp only [modify?_node, modify_node, make_node]
  constructor <;> intro x <;> rw [hnode] <;> simp only <;> split_ifs <;> rfl

theorem Cloned.pairEntry {s' : Merging} (hcloned : Cloned s s' i p)
    (h : Holds ranks s (front ++ p :: rest) marked opened) (hx : x ∈ front ++ p :: rest) (hxp : x ≠ p) :
    s'.pairEntry ranks x = s.pairEntry ranks x := by
  have hlt := h.made x hx
  apply pairEntry_congr
  · rw [hcloned.token, if_neg hlt.ne]
  · rw [hcloned.bias, if_neg hlt.ne]
  · rw [hcloned.next, h.prev_eq]
    split
    case isTrue hlast =>
      obtain ⟨front', rfl⟩ := List.getLast?_eq_some_iff.mp hlast
      rw [List.append_assoc] at h
      rw [h.next_eq]
      simp [hcloned.token]
    case isFalse =>
      rw [if_neg hlt.ne]
      cases hnext : (s.node x).next
      case none   => rfl
      case some y => simp [hcloned.token, (h.made y <| h.next_mem hx hnext).ne]

theorem Cloned.tokens_eq {s' : Merging} (hcloned : Cloned s s' i p) (front rest : List ℕ)
    (hold : ∀ x ∈ front ++ rest, x ≠ s.made) :
    s'.tokens (front ++ s.made :: rest) = s.tokens (front ++ p :: rest) := by
  have hmap (l : List ℕ) (hl : ∀ x ∈ l, x ≠ s.made) : s'.tokens l = s.tokens l :=
    List.map_congr_left fun x hx => by rw [hcloned.token, if_neg (hl x hx)]
  have hfront := hmap front fun x hx => hold x <| List.mem_append_left _ hx
  have hrest := hmap rest fun x hx => hold x <| List.mem_append_right _ hx
  simp only [tokens, List.map_append, List.map_cons] at hfront hrest ⊢
  rw [hfront, hrest, hcloned.token, if_pos rfl]

theorem Cloned.biases_eq {s' : Merging} (hcloned : Cloned s s' i p) (front rest : List ℕ)
    (hold : ∀ x ∈ front ++ rest, x ≠ s.made) :
    s'.biases (front ++ s.made :: rest) = s.biases (front ++ p :: rest) := by
  have hmap (l : List ℕ) (hl : ∀ x ∈ l, x ≠ s.made) : s'.biases l = s.biases l :=
    List.map_congr_left fun x hx => by rw [hcloned.bias, if_neg (hl x hx)]
  have hfront := hmap front fun x hx => hold x <| List.mem_append_left _ hx
  have hrest := hmap rest fun x hx => hold x <| List.mem_append_right _ hx
  simp only [biases, List.map_append, List.map_cons] at hfront hrest ⊢
  rw [hfront, hrest, hcloned.bias, if_pos rfl]

theorem Holds.clone (h : Holds ranks s (front ++ p :: i :: rest) marked [i]) (hmarked : ∀ x ∈ marked, x ∈ i :: rest) :
    Holds ranks (s.clonePrev i).fst (front ++ s.made :: i :: rest) marked [i, s.made] := by
  have hp : (s.node i).prev = some p := by
    have h : Holds ranks s ((front ++ [p]) ++ i :: rest) marked [i] := by simpa using h
    rw [h.prev_eq, List.getLast?_concat]
  have hpp : (s.node p).prev = front.getLast? := h.prev_eq
  have hpn : (s.node p).next = some i := h.next_eq
  have hcloned := clonePrev_cloned hp
  have hlt (x : ℕ) (hx : x ∈ front ++ p :: i :: rest) : x ≠ s.made := (h.made x hx).ne
  obtain ⟨hfront, hpirest, hdisjoint⟩ := List.nodup_append.mp h.nodup
  obtain ⟨hpnot, hirest⟩ := List.nodup_cons.mp hpirest
  have hnot : s.made ∉ front ++ i :: rest := by
    intro hmem
    apply hlt s.made _ rfl
    simp only [List.mem_append, List.mem_cons] at hmem ⊢
    tauto
  have hkept (x : ℕ) (hx : x ∈ front ++ i :: rest) : x ∈ front ++ p :: i :: rest ∧ x ≠ p := by
    constructor
    · simp only [List.mem_append, List.mem_cons] at hx ⊢
      tauto
    · rintro rfl
      cases List.mem_append.mp hx
      case inl hx => exact hdisjoint x hx x List.mem_cons_self rfl
      case inr hx => exact hpnot hx
  have hlive (x : ℕ) : x ∈ front ++ s.made :: i :: rest ↔ x = s.made ∨ x ∈ front ++ i :: rest := by
    simp only [List.mem_append, List.mem_cons]
    tauto
  have hbiases := hcloned.biases_eq front (i :: rest) fun x hx => hlt x (hkept x hx).left
  constructor
  case linked =>
    have hlinked : Links.Linked (fun x => (s.node x).prev) (fun x => (s.node x).next) none
        (front ++ [p] ++ i :: rest) none := by simpa using h.linked
    suffices hreplace : Links.Linked (fun x => ((s.clonePrev i).fst.node x).prev)
        (fun x => ((s.clonePrev i).fst.node x).next) none (front ++ [s.made] ++ i :: rest) none by simpa using hreplace
    apply hlinked.replace hfront hirest (List.cons_ne_nil _ _)
    · refine ⟨?_, ?_, trivial⟩
      · simp [hcloned.prev, hpp, (hlt i <| by simp).symm]
      · have hlast : front.getLast? ≠ some s.made := fun he => hnot <| by simp [List.mem_of_mem_getLast? he]
        simp [hcloned.next, hpp, hpn, hlast]
    · intro x hx
      have hxi : x ≠ i := hdisjoint x hx i <| by simp
      simp [hcloned.prev, hxi, hlt x <| by simp [hx]]
    · intro x hx
      have hlast : front.getLast? ≠ some x := fun he => hdisjoint x (List.mem_of_mem_getLast? he) x (by simp [hx]) rfl
      have hxc : x ≠ s.made := hlt x <| List.mem_append_right _ <| List.mem_cons_of_mem _ hx
      simp [hcloned.next, hpp, hlast, hxc]
    · intro x hx
      simp [hcloned.next, hpp, hlt x <| by simp [hx]]
    · intro x hx
      have hxc : x ≠ s.made := hlt x <| List.mem_append_right _ <| List.mem_cons_of_mem _ hx
      simp [hcloned.prev, hxc, eq_comm]
  case nodup =>
    have hnodup : (front ++ i :: rest).Nodup := by
      refine List.nodup_append.mpr ⟨hfront, hirest, fun x hx y hy => hdisjoint x hx y <| List.mem_cons_of_mem _ hy⟩
    exact (List.perm_middle.nodup_iff).mpr <| List.nodup_cons.mpr ⟨hnot, hnodup⟩
  case made =>
    intro x hx
    rw [clonePrev_made hp]
    obtain rfl | hx := (hlive x).mp hx
    · exact Nat.lt_succ_self _
    · exact (h.made x (hkept x hx).left).trans <| Nat.lt_succ_self _
  case alive =>
    intro x hx
    rw [hcloned.deleted, hlive]
    by_cases hxp : x = p
    case pos =>
      subst hxp
      have hout : x ∉ front ++ i :: rest := fun hmem => (hkept x hmem).right rfl
      simp [hout, hlt x]
    case neg =>
      by_cases hxc : x = s.made
      case pos =>
        subst hxc
        have hout : s.made ∉ marked := fun hmem => hnot <| List.mem_append_right _ <| hmarked _ hmem
        simp [hxp, hout]
      case neg =>
        rw [clonePrev_made hp] at hx
        rw [if_neg hxp, if_neg hxc, h.alive x (by omega)]
        simp [hxp, hxc]
  case bias   => exact hbiases ▸ h.bias
  case sorted => exact hbiases ▸ h.sorted
  case heap =>
    rw [clonePrev_heap hp]
    exact h.heap
  case valid =>
    intro e he
    rw [clonePrev_heap hp] at he
    obtain ⟨hmade, hvalid⟩ := h.valid e he
    rw [clonePrev_made hp]
    refine ⟨hmade.trans <| Nat.lt_succ_self _, fun hdeleted => ?_⟩
    rw [hcloned.deleted] at hdeleted
    split at hdeleted
    case isTrue      => cases hdeleted
    case isFalse hne =>
      rw [if_neg hmade.ne] at hdeleted
      obtain ⟨hopened, hentry⟩ := hvalid hdeleted
      have hmem := ((h.alive _ hmade).mp hdeleted).left
      rw [hcloned.pairEntry h hmem hne]
      exact ⟨by simpa [hmade.ne] using hopened, hentry⟩
  case complete =>
    intro x hx hopened e he
    have hx := ((hlive x).mp hx).resolve_left fun hxc => hopened <| by simp [hxc]
    obtain ⟨hmem, hne⟩ := hkept x hx
    rw [hcloned.pairEntry h hmem hne] at he
    rw [clonePrev_heap hp]
    exact h.complete x hmem (fun hxi => hopened <| List.mem_cons.mpr <| .inl <| List.mem_singleton.mp hxi) e he

end Cloning

section Inserting

variable {before : Option ℕ}

theorem insertMerged_node : (s.insertMerged ranks before i j).node x =
    let n := if x = s.made then {
      token := (s.node i).token ++ (s.node j).token
      bias  := (s.node i).bias
      prev  := before
      next  := (s.node j).next } else s.node x
    let n := if before = some x then { n with next := some s.made } else n
    if (s.node j).next = some x then { n with prev := some s.made } else n := by
  rw [insertMerged]
  cases before <;> cases (s.node j).next <;> simp [modify_node, make_node, eq_comm]

@[simp]
theorem insertMerged_made : (s.insertMerged ranks before i j).made = s.made + 1 := by
  rw [insertMerged]
  cases before <;> cases (s.node j).next <;> simp

@[simp]
theorem insertMerged_count : (s.insertMerged ranks before i j).count = s.count := by
  rw [insertMerged]
  cases before <;> cases (s.node j).next <;> simp

theorem size_insertMerged : (s.insertMerged ranks before i j).heap.size ≤ s.heap.size + 2 := by
  have hadd (t : Merging) (x : ℕ) : (t.addNode ranks x).heap.size ≤ t.heap.size + 1 := size_addNode
  rw [insertMerged]
  cases before <;> cases (s.node j).next
  case none.none           => simp
  case none.some n         => exact (hadd _ _).trans <| by simp
  case some.none p         => exact (hadd _ _).trans <| by simp
  case some.some p n       => exact (hadd _ _).trans <| Nat.succ_le_succ <| (hadd _ _).trans <| by simp

theorem insertMerged_isHeap (h : IsHeap (ScoreHeap.keys HeapEntry.score s.heap)) :
    IsHeap (ScoreHeap.keys HeapEntry.score (s.insertMerged ranks before i j).heap) := by
  rw [insertMerged]
  cases before <;> cases (s.node j).next
  case none.none     => exact h
  case none.some n   => exact addNode_isHeap h
  case some.none p   => exact addNode_isHeap h
  case some.some p n => exact addNode_isHeap <| addNode_isHeap h

-- The new node has the number `s.made`.
structure Merged (s s' : Merging) (before : Option ℕ) (i j : ℕ) : Prop where
  token   : ∀ x, (s'.node x).token =
            if x = s.made then (s.node i).token ++ (s.node j).token else (s.node x).token
  bias    : ∀ x, (s'.node x).bias = if x = s.made then (s.node i).bias else (s.node x).bias
  prev    : ∀ x, (s'.node x).prev = if (s.node j).next = some x then some s.made
            else if x = s.made then before else (s.node x).prev
  next    : ∀ x, (s'.node x).next = if before = some x then some s.made
            else if x = s.made then (s.node j).next else (s.node x).next
  deleted : ∀ x, (s'.node x).deleted = if x = s.made then false else (s.node x).deleted

theorem insertMerged_merged : Merged s (s.insertMerged ranks before i j) before i j := by
  constructor <;> intro x <;> rw [insertMerged_node] <;> simp only <;> split_ifs <;> rfl

theorem pairEntry_addNode : (s.addNode ranks i).pairEntry ranks x = s.pairEntry ranks x := by
  rw [Merging.pairEntry, Merging.pairEntry, addNode_node]

theorem pairEntry_modify_prev {v : Option ℕ} :
    (s.modify i fun n => { n with prev := v }).pairEntry ranks x = s.pairEntry ranks x := by
  have hnode (y : ℕ) : ((s.modify i fun n => { n with prev := v }).node y).token = (s.node y).token := by
    rw [modify_node]
    split <;> rfl
  apply pairEntry_congr (hnode x)
  · rw [modify_node]
    split <;> rfl
  · simp only [hnode]
    rw [modify_node]
    split <;> rfl

-- The entries that are added are those of the new node and of the one before it.
theorem mem_insertMerged (hmade : before ≠ some s.made) : e ∈ (s.insertMerged ranks before i j).heap ↔
    e ∈ s.heap ∨ (∃ p, before = some p ∧ (s.insertMerged ranks before i j).pairEntry ranks p = some e) ∨
      (s.insertMerged ranks before i j).pairEntry ranks s.made = some e := by
  have hnone (h : (s.node j).next = none) : (s.insertMerged ranks before i j).pairEntry ranks s.made = none := by
    simp [Merging.pairEntry, insertMerged_merged.next, hmade, h]
  cases hnext : (s.node j).next
  case none =>
    rw [hnone hnext]
    rw [insertMerged]
    cases before <;> simp [hnext, mem_addNode, pairEntry_addNode]
  case some n =>
    rw [insertMerged]
    cases before <;> simp [hnext, mem_addNode, pairEntry_addNode, pairEntry_modify_prev, or_assoc]

theorem Merged.tokens_eq {s' : Merging} (hmerged : Merged s s' before i j) (pre post : List ℕ)
    (hold : ∀ x ∈ pre ++ post, x ≠ s.made) :
    s'.tokens (pre ++ s.made :: post) = PlainBpe.mergeAt pre.length (s.tokens (pre ++ i :: j :: post)) := by
  have hmap (l : List ℕ) (hl : ∀ x ∈ l, x ≠ s.made) : s'.tokens l = s.tokens l :=
    List.map_congr_left fun x hx => by rw [hmerged.token, if_neg (hl x hx)]
  have hmerge (front : List Bytes) (a b : Bytes) (rest : List Bytes) :
      PlainBpe.mergeAt front.length (front ++ a :: b :: rest) = front ++ (a ++ b) :: rest := by
    induction front
    case nil             => rfl
    case cons c front ih => rw [List.length_cons, List.cons_append, PlainBpe.mergeAt, ih, List.cons_append]
  have hpre := hmap pre fun x hx => hold x <| List.mem_append_left _ hx
  have hpost := hmap post fun x hx => hold x <| List.mem_append_right _ hx
  have hplain := hmerge (s.tokens pre) (s.node i).token (s.node j).token (s.tokens post)
  simp only [tokens, List.map_append, List.map_cons, List.length_map] at hpre hpost hplain ⊢
  rw [hplain, hpre, hpost, hmerged.token, if_pos rfl]

theorem Merged.biases_sublist {s' : Merging} (hmerged : Merged s s' before i j) (pre post : List ℕ)
    (hold : ∀ x ∈ pre ++ post, x ≠ s.made) :
    (s'.biases (pre ++ s.made :: post)).Sublist (s.biases (pre ++ i :: j :: post)) := by
  have hmap (l : List ℕ) (hl : ∀ x ∈ l, x ≠ s.made) : s'.biases l = s.biases l :=
    List.map_congr_left fun x hx => by rw [hmerged.bias, if_neg (hl x hx)]
  have hpre := hmap pre fun x hx => hold x <| List.mem_append_left _ hx
  have hpost := hmap post fun x hx => hold x <| List.mem_append_right _ hx
  simp only [biases, List.map_append, List.map_cons] at hpre hpost ⊢
  rw [hpre, hpost, hmerged.bias, if_pos rfl]
  exact (List.Sublist.refl _).append <| (List.sublist_cons_self _ _).cons_cons _

theorem Merged.pairEntry {s' : Merging} (hmerged : Merged s s' before i j)
    (h : Holds ranks s live marked opened) (hx : x ∈ live) (hbefore : before ≠ some x) :
    s'.pairEntry ranks x = s.pairEntry ranks x := by
  have hlt := h.made x hx
  apply pairEntry_congr
  · rw [hmerged.token, if_neg hlt.ne]
  · rw [hmerged.bias, if_neg hlt.ne]
  · rw [hmerged.next, if_neg hbefore, if_neg hlt.ne]
    cases hnext : (s.node x).next
    case none   => rfl
    case some y => simp [hmerged.token, (h.made y <| h.next_mem hx hnext).ne]

theorem Holds.insert (h : Holds ranks s (pre ++ i :: j :: post) [i, j] opened)
    (hopened : ∀ x, x ∈ opened ↔ x = i ∨ pre.getLast? = some x) :
    Holds ranks (s.insertMerged ranks pre.getLast? i j) (pre ++ s.made :: post) [] [] := by
  have hmerged : Merged s (s.insertMerged ranks pre.getLast? i j) pre.getLast? i j := insertMerged_merged
  obtain ⟨hpre, hijpost, hdisjoint⟩ := List.nodup_append.mp h.nodup
  obtain ⟨hipost, hjpost⟩ := List.nodup_cons.mp hijpost
  obtain ⟨hjnot, hpost⟩ := List.nodup_cons.mp hjpost
  have hjnext : (s.node j).next = post.head? := by
    have h : Holds ranks s ((pre ++ [i]) ++ j :: post) [i, j] opened := by simpa using h
    exact h.next_eq
  have hkept (x : ℕ) (hx : x ∈ pre ++ post) : x ∈ pre ++ i :: j :: post ∧ x ≠ i ∧ x ≠ j := by
    have hmem : x ∈ pre ++ i :: j :: post := by
      simp only [List.mem_append, List.mem_cons] at hx ⊢
      tauto
    cases List.mem_append.mp hx
    case inl hx => exact ⟨hmem, hdisjoint x hx i (by simp), hdisjoint x hx j (by simp)⟩
    case inr hx =>
      refine ⟨hmem, ?_, ?_⟩
      · rintro rfl
        exact hipost <| List.mem_cons_of_mem _ hx
      · rintro rfl
        exact hjnot hx
  have hlt (x : ℕ) (hx : x ∈ pre ++ post) : x < s.made := h.made x (hkept x hx).left
  have hlive (x : ℕ) : x ∈ pre ++ s.made :: post ↔ x = s.made ∨ x ∈ pre ++ post := by
    simp only [List.mem_append, List.mem_cons]
    tauto
  have hbefore : pre.getLast? ≠ some s.made := fun he =>
    (hlt s.made <| List.mem_append_left _ <| List.mem_of_mem_getLast? he).ne rfl
  have hsub := hmerged.biases_sublist pre post fun x hx => (hlt x hx).ne
  constructor
  case linked =>
    have hlinked : Links.Linked (fun x => (s.node x).prev) (fun x => (s.node x).next) none
        (pre ++ [i, j] ++ post) none := by simpa using h.linked
    suffices hreplace : Links.Linked (fun x => ((s.insertMerged ranks pre.getLast? i j).node x).prev)
        (fun x => ((s.insertMerged ranks pre.getLast? i j).node x).next) none (pre ++ [s.made] ++ post) none by
      simpa using hreplace
    apply hlinked.replace hpre hpost (List.cons_ne_nil _ _)
    · refine ⟨?_, ?_, trivial⟩
      · have hhead : post.head? ≠ some s.made := fun he =>
          (hlt s.made <| List.mem_append_right _ <| List.mem_of_mem_head? he).ne rfl
        simp [hmerged.prev, hjnext, hhead]
      · simp [hmerged.next, hbefore, hjnext]
    · intro x hx
      have hhead : post.head? ≠ some x := fun he =>
        hdisjoint x hx x (List.mem_cons_of_mem _ <| List.mem_cons_of_mem _ <| List.mem_of_mem_head? he) rfl
      simp [hmerged.prev, hjnext, hhead, (hlt x <| List.mem_append_left _ hx).ne]
    · intro x hx
      have hlast : pre.getLast? ≠ some x := fun he =>
        hdisjoint x (List.mem_of_mem_getLast? he) x (List.mem_cons_of_mem _ <| List.mem_cons_of_mem _ hx) rfl
      simp [hmerged.next, hlast, (hlt x <| List.mem_append_right _ hx).ne]
    · intro x hx
      simp [hmerged.next, (hlt x <| List.mem_append_left _ hx).ne]
    · intro x hx
      simp [hmerged.prev, hjnext, (hlt x <| List.mem_append_right _ hx).ne]
  case nodup =>
    have hnodup : (pre ++ post).Nodup := by
      refine List.nodup_append.mpr ⟨hpre, hpost, fun x hx y hy => hdisjoint x hx y ?_⟩
      exact List.mem_cons_of_mem _ <| List.mem_cons_of_mem _ hy
    exact (List.perm_middle.nodup_iff).mpr <| List.nodup_cons.mpr ⟨fun hmem => (hlt _ hmem).ne rfl, hnodup⟩
  case made =>
    intro x hx
    rw [insertMerged_made]
    obtain rfl | hx := (hlive x).mp hx
    · exact Nat.lt_succ_self _
    · exact (hlt x hx).trans <| Nat.lt_succ_self _
  case alive =>
    intro x hx
    rw [hmerged.deleted, hlive]
    by_cases hxm : x = s.made
    case pos => simp [hxm]
    case neg =>
      rw [insertMerged_made] at hx
      rw [if_neg hxm, h.alive x (by omega)]
      constructor
      · rintro ⟨hmem, hout⟩
        simp only [List.mem_append, List.mem_cons, List.not_mem_nil, or_false, not_or] at hmem hout ⊢
        tauto
      · rintro ⟨hmem, _⟩
        obtain ⟨hmem, hxi, hxj⟩ := hkept x <| hmem.resolve_left hxm
        exact ⟨hmem, by simp [hxi, hxj]⟩
  case bias   => exact fun b hb => h.bias b <| hsub.subset hb
  case sorted => exact h.sorted.sublist hsub
  case heap   => exact insertMerged_isHeap h.heap
  case valid =>
    intro e he
    rw [insertMerged_made]
    obtain he | ⟨p, hp, he⟩ | he := (mem_insertMerged hbefore).mp he
    case inl =>
      obtain ⟨hmade, hvalid⟩ := h.valid e he
      refine ⟨hmade.trans <| Nat.lt_succ_self _, fun hdeleted => ⟨List.not_mem_nil, ?_⟩⟩
      rw [hmerged.deleted, if_neg hmade.ne] at hdeleted
      obtain ⟨hout, hentry⟩ := hvalid hdeleted
      have hmem := ((h.alive _ hmade).mp hdeleted).left
      rw [hmerged.pairEntry h hmem fun hlast => hout <| (hopened _).mpr <| .inr hlast]
      exact hentry
    case inr.inl =>
      have hnode := node_of_pairEntry he
      have hlast := hlt p <| List.mem_append_left _ <| List.mem_of_mem_getLast? hp
      rw [hnode]
      exact ⟨hlast.trans <| Nat.lt_succ_self _, fun _ => ⟨List.not_mem_nil, he⟩⟩
    case inr.inr =>
      have hnode := node_of_pairEntry he
      rw [hnode]
      exact ⟨Nat.lt_succ_self _, fun _ => ⟨List.not_mem_nil, he⟩⟩
  case complete =>
    intro x hx _ e he
    rw [mem_insertMerged hbefore]
    obtain rfl | hx := (hlive x).mp hx
    case inl => exact .inr <| .inr he
    case inr =>
      by_cases hlast : pre.getLast? = some x
      case pos => exact .inr <| .inl ⟨x, hlast, he⟩
      case neg =>
        obtain ⟨hmem, hxi, _⟩ := hkept x hx
        rw [hmerged.pairEntry h hmem hlast] at he
        exact .inl <| h.complete x hmem (fun hout => ((hopened x).mp hout).elim hxi hlast) e he

end Inserting

section Loop

variable {heap : Array HeapEntry} {rounds : ℕ}

theorem Holds.withCount (h : Holds ranks s live marked opened) (count : ℕ) :
    Holds ranks { s with count } live marked opened :=
  ⟨h.linked, h.nodup, h.made, h.alive, h.bias, h.sorted, h.heap, h.valid, h.complete⟩

-- The state in which the pair is deleted and counted, with its entry taken out of the heap.
def taken (s : Merging) (heap : Array HeapEntry) (i j : ℕ) : Merging :=
  let s := ({ s with heap }.modify i delete).modify j delete
  { s with count := s.count - 1 }

theorem mergePair_eq : { s with heap }.mergePair ranks i j =
    ((s.taken heap i j).clonePrev i).fst.insertMerged ranks ((s.taken heap i j).clonePrev i).snd i j :=
  rfl

theorem tokens_taken : (s.taken heap i j).tokens live = s.tokens live := by
  have hnode (x : ℕ) : ((s.taken heap i j).node x).token = (s.node x).token := by
    have heq : (s.taken heap i j).node x = ((({ s with heap } : Merging).modify i delete).modify j delete).node x := rfl
    simp only [heq, delete_node]
  simp only [tokens, hnode]

theorem mergePair_count : ({ s with heap }.mergePair ranks i j).count = s.count - 1 := by
  rw [mergePair_eq, insertMerged_count, clonePrev_count]
  rfl

theorem size_mergePair : ({ s with heap }.mergePair ranks i j).heap.size ≤ heap.size + 2 := by
  have hclone : ((s.taken heap i j).clonePrev i).fst.heap = heap := by
    cases hp : ((s.taken heap i j).node i).prev
    case none   => rw [clonePrev_of_none hp]; rfl
    case some p => rw [clonePrev_heap hp]; rfl
  rw [mergePair_eq]
  exact size_insertMerged.trans <| by rw [hclone]

-- One merge of the heap is one of the plain procedure.
theorem Holds.mergePair (h : Holds ranks s (pre ++ i :: j :: post) [] [])
    (hpop : ScoreHeap.pop HeapEntry.less s.heap = some (e, heap)) (he : e.node = i) :
    ∃ live', Holds ranks ({ s with heap }.mergePair ranks i j) live' [] [] ∧
      ({ s with heap }.mergePair ranks i j).tokens live' =
        PlainBpe.mergeAt pre.length (s.tokens (pre ++ i :: j :: post)) := by
  have htaken : Holds ranks (s.taken heap i j) (pre ++ i :: j :: post) [i, j] [i] := (h.take hpop he).withCount _
  have hold (x : ℕ) (hx : x ∈ pre ++ post) : x < (s.taken heap i j).made := by
    apply htaken.made
    simp only [List.mem_append, List.mem_cons] at hx ⊢
    tauto
  have htokens : (s.taken heap i j).tokens (pre ++ i :: j :: post) = s.tokens (pre ++ i :: j :: post) := tokens_taken
  rw [mergePair_eq, ← htokens]
  cases pre using List.reverseRecOn
  case nil =>
    have hprev : ((s.taken heap i j).node i).prev = [].getLast? := htaken.prev_eq
    have hnone := clonePrev_of_none hprev
    rw [hnone]
    refine ⟨_, htaken.insert (by simp), insertMerged_merged.tokens_eq [] post fun x hx => (hold x hx).ne⟩
  case append_singleton front p _ =>
    have hp : ((s.taken heap i j).node i).prev = some p := by rw [htaken.prev_eq, List.getLast?_concat]
    rw [List.append_assoc, List.singleton_append] at htaken
    have hcloned := htaken.clone (by simp)
    have htokens := (clonePrev_cloned hp).tokens_eq front (i :: j :: post) fun x hx =>
      (htaken.made x <| by simp only [List.mem_append, List.mem_cons] at hx ⊢; tauto).ne
    have hlist : front ++ (s.taken heap i j).made :: i :: j :: post =
        (front ++ [(s.taken heap i j).made]) ++ i :: j :: post := by simp
    rw [clonePrev_snd hp]
    rw [hlist] at hcloned htokens
    have hinsert := hcloned.insert (by simp [eq_comm])
    have hmerged : Merged ((s.taken heap i j).clonePrev i).fst
        (((s.taken heap i j).clonePrev i).fst.insertMerged ranks (some (s.taken heap i j).made) i j)
        (some (s.taken heap i j).made) i j := insertMerged_merged
    have hmerge := hmerged.tokens_eq (front ++ [(s.taken heap i j).made]) post fun x hx =>
      (hcloned.made x <| by simp only [List.mem_append, List.mem_cons] at hx ⊢; tauto).ne
    rw [List.getLast?_concat] at hinsert
    refine ⟨_, hinsert, hmerge.trans ?_⟩
    rw [htokens]
    simp

theorem length_tokens : (s.tokens live).length = live.length :=
  List.length_map ..

theorem getElem?_tokens {m : ℕ} (hx : live[m]? = some x) : (s.tokens live)[m]? = some (s.node x).token := by
  simp [tokens, hx]

-- A pair of the plain procedure is an entry.
theorem Holds.entry_of_isPair {m : ℕ} {rank : ℤ} (h : Holds ranks s live [] []) (hpair : IsPair ranks (s.tokens live) m rank) :
    ∃ x, live[m]? = some x ∧ ⟨x, rank + (s.node x).bias⟩ ∈ s.heap := by
  obtain ⟨a, b, ha, hb, hrank⟩ := hpair
  simp only [tokens, List.getElem?_map, Option.map_eq_some_iff] at ha hb
  obtain ⟨x, hx, rfl⟩ := ha
  obtain ⟨y, hy, rfl⟩ := hb
  have hmem := List.mem_of_getElem? hx
  have hnext : (s.node x).next = some y := by
    have ⟨hm, hget⟩ := List.getElem?_eq_some_iff.mp hx
    have hsplit : live = live.take m ++ x :: live.drop (m + 1) := by
      rw [← hget, ← List.drop_eq_getElem_cons hm, List.take_append_drop]
    rw [hsplit] at h
    rw [h.next_eq, List.head?_drop, hy]
  exact ⟨x, hx, h.complete x hmem List.not_mem_nil _ <| by simp [pairEntry, hnext, hrank]⟩

-- An entry of a node that is left is a pair of the plain procedure.
theorem isPair_of_entry (pre post : List ℕ) (h : s.pairEntry ranks i = some e)
    (hnext : (s.node i).next = some j) :
    ∃ rank, IsPair ranks (s.tokens (pre ++ i :: j :: post)) pre.length rank ∧ e.score = rank + (s.node i).bias := by
  simp only [pairEntry, hnext, Option.bind_some, Option.map_eq_some_iff] at h
  obtain ⟨rank, hrank, rfl⟩ := h
  refine ⟨rank, ⟨_, _, getElem?_tokens (x := i) ?_, getElem?_tokens (x := j) ?_, hrank⟩, rfl⟩
  · simp
  · simp

theorem Holds.bias_lt {m n : ℕ} (h : Holds ranks s live marked opened) (hx : live[m]? = some i) (hy : live[n]? = some j)
    (hlt : m < n) : (s.node i).bias < (s.node j).bias := by
  have hm : (s.biases live)[m]? = some (s.node i).bias := by simp [biases, hx]
  have hn : (s.biases live)[n]? = some (s.node j).bias := by simp [biases, hy]
  have ⟨hm', hmget⟩ := List.getElem?_eq_some_iff.mp hm
  have ⟨hn', hnget⟩ := List.getElem?_eq_some_iff.mp hn
  have hsorted := List.pairwise_iff_getElem.mp h.sorted m n hm' hn' hlt
  rwa [hmget, hnget] at hsorted

theorem Holds.bias_mem (h : Holds ranks s live marked opened) (hi : i ∈ live) :
    0 ≤ (s.node i).bias ∧ (s.node i).bias < 1 :=
  h.bias _ <| List.mem_map_of_mem hi

-- The smallest score is the one of the lowest rank, and of the leftmost pair with it.
theorem Holds.isLowest (h : Holds ranks s (pre ++ i :: j :: post) [] [])
    (hpop : ScoreHeap.pop HeapEntry.less s.heap = some (e, heap)) (he : s.pairEntry ranks i = some e)
    (hnext : (s.node i).next = some j) :
    ∃ rank, PlainBpe.IsLowest ranks (s.tokens (pre ++ i :: j :: post)) pre.length rank := by
  have ⟨rank, hpair, hscore⟩ := isPair_of_entry pre post he hnext
  refine ⟨rank, hpair, fun n rank' hpair' => ?_⟩
  have ⟨x, hx, hmem⟩ := h.entry_of_isPair hpair'
  have hle := (ScoreHeap.pop_isHeap h.heap hpop).right _ hmem
  have hi : (pre ++ i :: j :: post)[pre.length]? = some i := by simp
  have hbi := h.bias_mem <| List.mem_of_getElem? hi
  have hbx := h.bias_mem <| List.mem_of_getElem? hx
  have hsum : (rank : ℚ) + (s.node i).bias ≤ rank' + (s.node x).bias := hscore ▸ hle
  have hlt : (rank : ℚ) < rank' + 1 := by linarith
  have hranks : rank ≤ rank' := Int.lt_add_one_iff.mp <| by exact_mod_cast hlt
  cases hranks.lt_or_eq
  case inl hless => exact .inl hless
  case inr heq   =>
    refine .inr ⟨heq, Nat.not_lt.mp fun hless => ?_⟩
    have hbias := h.bias_lt hx hi hless
    rw [heq] at hsum
    linarith

-- The loop ends, and what it counts are the tokens that the plain procedure leaves.
theorem loop_eq (h : Holds ranks s live [] []) (hcount : s.count = live.length)
    (hrounds : s.heap.size + 2 * live.length < rounds) :
    s.loop ranks rounds = some (PlainBpe.merge ranks (s.tokens live)).length := by
  induction rounds generalizing s live
  case zero           => omega
  case succ rounds ih =>
    rw [loop]
    cases hpop : ScoreHeap.pop HeapEntry.less s.heap
    case none =>
      have hempty := ScoreHeap.pop_eq_none_iff.mp hpop
      have hnone : PlainBpe.lowest ranks (s.tokens live) = none := by
        apply PlainBpe.lowest_eq_none
        intro n rank hpair
        have ⟨x, _, hmem⟩ := h.entry_of_isPair hpair
        simp [hempty] at hmem
      rw [PlainBpe.merge_of_none hnone, length_tokens, hcount]
    case some pair =>
      obtain ⟨e, heap⟩ := pair
      have hsize := ScoreHeap.size_pop hpop
      have ⟨hmade, hvalid⟩ := h.valid e <| (ScoreHeap.mem_pop hpop).mpr <| .inl rfl
      simp only
      cases hdeleted : (s.node e.node).deleted
      case true =>
        have hskip := ih (h.skip hpop hdeleted) hcount (by simp only; omega)
        cases (s.node e.node).next
        case none   => exact hskip
        case some j => exact hskip
      case false =>
        have hentry := (hvalid hdeleted).right
        have hmem := ((h.alive _ hmade).mp hdeleted).left
        cases hnext : (s.node e.node).next
        case none => simp [pairEntry, hnext] at hentry
        case some j =>
          have ⟨pre, post, hsplit⟩ := h.linked.split hmem hnext
          subst hsplit
          have hj : (s.node j).deleted = false := (h.alive j <| h.made j <| by simp).mpr ⟨by simp, List.not_mem_nil⟩
          have ⟨rank, hlowest⟩ := h.isLowest hpop hentry hnext
          have ⟨live', hlive', htokens⟩ := h.mergePair hpop rfl
          have hlength := PlainBpe.length_mergeAt hlowest.isPair
          have hsize' : ({ s with heap }.mergePair ranks e.node j).heap.size ≤ heap.size + 2 := size_mergePair
          rw [← htokens, length_tokens, length_tokens] at hlength
          rw [PlainBpe.merge_of_isLowest hlowest, ← htokens]
          simp only [hj, Bool.or_self, Bool.false_eq_true, if_false]
          apply ih hlive'
          · rw [mergePair_count]
            omega
          · omega

end Loop

section Building

variable {word : Bytes} {byte : UInt8} {len : ℕ}

-- The nodes of the first bytes of a word: node `x` is the byte at `x`.
structure Built (ranks : Ranks) (len : ℕ) (s : Merging) (word : Bytes) : Prop where
  holds  : Holds ranks s (List.range word.length) [] []
  made   : s.made = word.length
  tokens : s.tokens (List.range word.length) = word.map ([·])
  bias   : ∀ x < word.length, (s.node x).bias = x / len
  size   : s.heap.size < word.length
  count  : s.count = len

theorem biases_range {k : ℕ} (hbias : ∀ x < k, (s.node x).bias = x / len) :
    s.biases (List.range k) = (List.range k).map fun x : ℕ => (x / len : ℚ) :=
  List.map_congr_left fun x hx => hbias x <| List.mem_range.mp hx

theorem bias_range {k : ℕ} (hk : k ≤ len) (hbias : ∀ x < k, (s.node x).bias = x / len) :
    ∀ b ∈ s.biases (List.range k), 0 ≤ b ∧ b < 1 := by
  intro b hb
  rw [biases_range hbias] at hb
  obtain ⟨x, hx, rfl⟩ := List.mem_map.mp hb
  have hlt : x < len := (List.mem_range.mp hx).trans_le hk
  have hpos : (0 : ℚ) < len := by exact_mod_cast hlt.trans_le' (Nat.zero_le x)
  exact ⟨by positivity, (div_lt_one hpos).mpr <| by exact_mod_cast hlt⟩

theorem sorted_range {k : ℕ} (hlen : 0 < len) (hbias : ∀ x < k, (s.node x).bias = x / len) :
    (s.biases (List.range k)).Pairwise (· < ·) := by
  have hpos : (0 : ℚ) < len := by exact_mod_cast hlen
  rw [biases_range hbias, List.pairwise_map]
  exact List.pairwise_lt_range.imp fun hlt => (div_lt_div_iff_of_pos_right hpos).mpr <| by exact_mod_cast hlt

theorem start_built (hlen : 0 < len) : Built ranks len (start byte len) [byte] := by
  have hbias : ∀ x < 1, ((start byte len).node x).bias = x / len := by
    intro x hx
    simp [start, Nat.lt_one_iff.mp hx]
  constructor
  case made   => rfl
  case tokens => rfl
  case bias   => exact hbias
  case size   => exact Nat.one_pos
  case count  => rfl
  case holds  =>
    constructor
    case linked   => exact ⟨rfl, rfl, trivial⟩
    case nodup    => exact List.nodup_range
    case made     => exact fun i hi => List.mem_range.mp hi
    case alive    =>
      intro i hi
      simpa [start] using hi
    case bias     => exact bias_range hlen hbias
    case sorted   => exact sorted_range hlen hbias
    case heap     =>
      intro j _
      have htop : ScoreHeap.keys HeapEntry.score (start byte len).heap j = ⊤ := ScoreHeap.keys_of_le (Nat.zero_le j)
      exact htop ▸ le_top
    case valid    =>
      intro e he
      simp [start] at he
    case complete =>
      intro i _ _ e he
      simp [pairEntry, start] at he

theorem extend_node (hmade : s.made = k + 1) : (s.extend ranks len byte).node x =
    if x = k then { s.node x with next := some (k + 1) }
    else if x = k + 1 then { token := [byte], bias := ↑(k + 1) / len, prev := some k, next := none }
    else s.node x := by
  rw [extend, addNode_node, modify_node, make_node, hmade, Nat.add_sub_cancel]
  by_cases hx : x = k <;> simp [hx]

theorem extend_built (h : Built ranks len s word) (hlen : word.length < len) :
    Built ranks len (s.extend ranks len byte) (word ++ [byte]) := by
  obtain ⟨k, hk⟩ := Nat.exists_eq_add_one_of_ne_zero (Nat.ne_zero_of_lt h.size)
  have hmade := h.made.trans hk
  have hlength : (word ++ [byte]).length = k + 1 + 1 := by simp [hk]
  have hlast : (List.range (k + 1)).getLast? = some k := by simp [List.range_succ]
  have hnode (x : ℕ) : (s.extend ranks len byte).node x =
      if x = k then { s.node x with next := some (k + 1) }
      else if x = k + 1 then { token := [byte], bias := ↑(k + 1) / len, prev := some k, next := none }
      else s.node x := extend_node hmade
  have hmade' : (s.extend ranks len byte).made = k + 1 + 1 := by simp [extend, hmade]
  have hholds := h.holds
  rw [hk] at hholds
  have htoken (x : ℕ) (hx : x < k + 1) : ((s.extend ranks len byte).node x).token = (s.node x).token := by
    rw [hnode, if_neg (c := x = k + 1) (by omega)]
    split <;> rfl
  have hbias (x : ℕ) (hx : x < k + 1 + 1) : ((s.extend ranks len byte).node x).bias = x / len := by
    have hold := h.bias x
    rw [hnode]
    split
    case isTrue => exact hold <| by omega
    case isFalse =>
      split
      case isTrue hx  => rw [hx]
      case isFalse hx => exact hold <| by omega
  have hentry (x : ℕ) (hx : x < k) : (s.extend ranks len byte).pairEntry ranks x = s.pairEntry ranks x := by
    have hsame : (s.extend ranks len byte).node x = s.node x := by
      rw [hnode, if_neg (by omega), if_neg (by omega)]
    apply pairEntry_congr
    · rw [hsame]
    · rw [hsame]
    · rw [hsame]
      cases hnext : (s.node x).next
      case none   => rfl
      case some y =>
        have hy := hholds.next_mem (List.mem_range.mpr <| by omega) hnext
        rw [Option.map_some, Option.map_some, htoken y <| List.mem_range.mp hy]
  have hmem (e : HeapEntry) : e ∈ (s.extend ranks len byte).heap ↔
      e ∈ s.heap ∨ (s.extend ranks len byte).pairEntry ranks k = some e := by
    rw [extend, mem_addNode, pairEntry_addNode, hmade]
    rfl
  have hnone : s.pairEntry ranks k = none := by
    have hnext : (s.node k).next = [].head? := (List.range_succ ▸ hholds).next_eq
    simp [pairEntry, hnext]
  constructor
  case made   => rw [hmade', hlength]
  case tokens =>
    have htokens := h.tokens
    rw [hk] at htokens
    rw [hlength, List.range_succ, tokens, List.map_append, List.map_append, ← htokens]
    congr 1
    · exact List.map_congr_left fun x hx => htoken x <| List.mem_range.mp hx
    · simp [hnode]
  case bias   => exact fun x hx => hbias x <| hlength ▸ hx
  case size   =>
    have hadd (t : Merging) (x : ℕ) : (t.addNode ranks x).heap.size ≤ t.heap.size + 1 := size_addNode
    have hsize := hadd ((s.make { token := [byte], bias := s.made / len, prev := some (s.made - 1), next := none }).modify
      (s.made - 1) fun n => { n with next := some s.made }) (s.made - 1)
    have hold := h.size
    rw [hlength]
    exact hsize.trans_lt <| by simp; omega
  case count  => simp [extend, h.count]
  case holds  =>
    rw [hlength]
    constructor
    case linked   =>
      have hlinked : Links.Linked (fun x => (s.node x).prev) (fun x => (s.node x).next) none
          (List.range (k + 1) ++ [] ++ []) none := by simpa using hholds.linked
      suffices hreplace : Links.Linked (fun x => ((s.extend ranks len byte).node x).prev)
          (fun x => ((s.extend ranks len byte).node x).next) none (List.range (k + 1) ++ [k + 1] ++ []) none by
        rwa [List.append_nil, ← List.range_succ] at hreplace
      apply hlinked.replace List.nodup_range List.nodup_nil (List.cons_ne_nil _ _)
      · simp [Links.Linked, hnode, hlast]
      · intro x hx
        have hx := List.mem_range.mp hx
        rw [hnode, if_neg (c := x = k + 1) (by omega)]
        split <;> rfl
      · simp
      · intro x hx
        have hx := List.mem_range.mp hx
        simp only [hlast, Option.some.injEq]
        rw [hnode, if_neg (c := x = k + 1) (by omega)]
        by_cases hxk : x = k
        case pos => simp [hxk]
        case neg => simp [hxk, Ne.symm hxk]
      · simp
    case nodup    => exact List.nodup_range
    case made     => exact fun x hx => hmade' ▸ List.mem_range.mp hx
    case alive    =>
      intro x hx
      rw [hmade'] at hx
      have hdeleted : ((s.extend ranks len byte).node x).deleted = false := by
        have hold (hlt : x < k + 1) := (hholds.alive x (hmade ▸ hlt)).mpr ⟨List.mem_range.mpr hlt, List.not_mem_nil⟩
        rw [hnode]
        split
        case isTrue => exact hold <| by omega
        case isFalse =>
          split
          case isTrue  => rfl
          case isFalse => exact hold <| by omega
      simpa [hdeleted] using hx
    case bias     => exact bias_range (by omega) hbias
    case sorted   => exact sorted_range (by omega) hbias
    case heap     => exact addNode_isHeap hholds.heap
    case valid    =>
      intro e he
      rw [hmade']
      cases (hmem e).mp he
      case inl he =>
        obtain ⟨hlt, hvalid⟩ := hholds.valid e he
        rw [hmade] at hlt
        have halive := (hholds.alive _ (hmade ▸ hlt)).mpr ⟨List.mem_range.mpr hlt, List.not_mem_nil⟩
        have hold := (hvalid halive).right
        have hne : e.node ≠ k := fun heq => by simp [heq, hnone] at hold
        refine ⟨by omega, fun _ => ⟨List.not_mem_nil, ?_⟩⟩
        rw [hentry _ (by omega)]
        exact hold
      case inr he =>
        have heq := node_of_pairEntry he
        rw [heq]
        exact ⟨by omega, fun _ => ⟨List.not_mem_nil, he⟩⟩
    case complete =>
      intro x hx _ e he
      have hx := List.mem_range.mp hx
      rw [hmem]
      obtain hlt | rfl | rfl : x < k ∨ x = k ∨ x = k + 1 := by omega
      · rw [hentry x hlt] at he
        exact .inl <| hholds.complete x (List.mem_range.mpr <| by omega) List.not_mem_nil e he
      · exact .inr he
      · simp [pairEntry, hnode] at he

theorem built_foldl {bytes : Bytes} (h : Built ranks len s word) (hlen : word.length + bytes.length ≤ len) :
    Built ranks len (bytes.foldl (fun s byte => s.extend ranks len byte) s) (word ++ bytes) := by
  induction bytes generalizing s word
  case nil                => simpa using h
  case cons byte bytes ih =>
    rw [List.length_cons] at hlen
    have hextended : Built ranks len (s.extend ranks len byte) (word ++ [byte]) := extend_built h <| by omega
    have hnext := ih hextended <| by simp; omega
    simpa using hnext

end Building

end Invariant

end Merging

-- The merging ends, and counts what the plain procedure leaves.
theorem mergeWord_eq (ranks : Ranks) (bytes : Bytes) : mergeWord ranks bytes = some (PlainBpe.count ranks bytes) := by
  match bytes with
  | []                   => rw [PlainBpe.count, PlainBpe.merge_of_none rfl]; rfl
  | [a]                  => rw [PlainBpe.count, PlainBpe.merge_of_none rfl]; rfl
  | byte :: next :: rest =>
    have hstart := @Merging.start_built ranks byte (byte :: next :: rest).length (by simp)
    have hfits : [byte].length + (next :: rest).length ≤ (byte :: next :: rest).length := by simp; omega
    have hbuilt := Merging.built_foldl hstart hfits
    have hcount := hbuilt.count
    have hsize := hbuilt.size
    rw [mergeWord, Merging.loop_eq hbuilt.holds, hbuilt.tokens]
    · rfl
    · rw [hcount, List.length_range]
      rfl
    · simp only [List.length_range, List.length_append, List.length_cons, List.length_nil] at hsize ⊢
      omega
    · exact nofun

end ProviderSdk
