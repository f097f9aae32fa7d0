import NeoTavern.Lib.Lists
import NeoTavern.Storage.Import

namespace Storage.Product

open Proc

namespace Import

-- `rows` have been inserted, and `drawn` ids drawn.
structure Inserted (sec : Section ρ) (rows : List ρ) (drawn : Nat) (s s' : Session) : Prop
    extends Counted rows.length 0 0 s s' where
  grown : sec.Grown rows s.tables s'.tables
  drawn : s'.drawn = s.drawn + drawn

variable {w : World} {sec : Section ρ} {row : ρ} {s s' : Session}

theorem Inserted.refl (sec : Section ρ) (s : Session) : Inserted sec [] 0 s s :=
  ⟨.refl s, .refl sec s.tables, rfl⟩

theorem Inserted.trans (h : Inserted sec rows n s s') (h' : Inserted sec rows' n' s' s'') :
    Inserted sec (rows ++ rows') (n + n') s s'' := by
  refine ⟨?_, h.grown.trans h'.grown, by rw [h'.drawn, h.drawn, Nat.add_assoc]⟩
  rw [List.length_append]
  exact h.toCounted.trans h'.toCounted

theorem insertCounting_inserted :
    Ensures (insertCounting w sec row) (fun _ => Inserted sec [row] 0 s) s := by
  refine wp_mono insertCounting_ensures (fun _ s' h => ?_) fun _ _ _ => trivial
  have ⟨⟨table, hi, heq⟩, ha, hcounted, hdrawn⟩ := h
  refine ⟨hcounted, ?_, hdrawn⟩
  rw [heq]
  refine ⟨?_, ?_, ?_⟩
  case refine_1 => rw [sec.table_put]
  case refine_2 => rw [sec.table_put, Table.insert?_rows hi]
  case refine_3 => simpa using ha

theorem wp_uuidV7 {Q : String → Session → Prop} {E : StorageError → Session → Prop} :
    wp (uuidV7 w) Q E s ↔ Q (w.draws s.drawn) { s with drawn := s.drawn + 1 } :=
  Iff.rfl

theorem drawing_inserted {turn : String → Import Unit} {f : String → ρ}
    (h : ∀ id s, Ensures (turn id) (fun _ => Inserted sec [f id] 0 s) s) :
    Ensures (uuidV7 w >>= turn) (fun _ => Inserted sec [f (w.draws s.drawn)] 1 s) s := by
  rw [Ensures, wp_bind, wp_uuidV7]
  refine wp_mono (h (w.draws s.drawn) { s with drawn := s.drawn + 1 }) (fun _ s' h => ?_)
    fun _ _ _ => trivial
  exact ⟨⟨h.inserted, h.updated, h.skipped⟩, h.grown, h.drawn⟩

-- A loop each turn of which inserts a row and draws `d` ids.
theorem forM_inserted {α : Type} {turn : α → Import Unit} {f : Nat → α → ρ} {d : Nat}
    (h : ∀ a s, Ensures (turn a) (fun _ => Inserted sec [f s.drawn a] d s) s) (as : List α) :
    Ensures (as.forM turn) (fun _ => Inserted sec
      (as.zipIdx.map fun e => f (s.drawn + d * e.snd) e.fst) (d * as.length) s) s := by
  induction as generalizing s
  case nil => exact .refl sec s
  case cons a as ih =>
    refine wp_forM_cons.mpr <| wp_mono (h a s) (fun _ t ht => ?_) fun _ _ _ => trivial
    refine wp_mono ih (fun _ _ hrest => ?_) fun _ _ _ => trivial
    have hrun := ht.trans hrest
    have hrows : [f s.drawn a] ++ (as.zipIdx.map fun e => f (t.drawn + d * e.snd) e.fst) =
        (a :: as).zipIdx.map fun e => f (s.drawn + d * e.snd) e.fst := by
      rw [List.zipIdx_cons, List.map_cons, Lists.map_zipIdx_one, ht.drawn, List.singleton_append]
      congr 1
      apply List.map_congr_left
      intro e _
      have hplace : s.drawn + d + d * e.snd = s.drawn + d * (e.snd + 1) := by
        rw [Nat.mul_add, Nat.mul_one]
        omega
      rw [hplace]
    have hcount : d + d * as.length = d * (a :: as).length := by
      rw [List.length_cons, Nat.mul_add, Nat.mul_one, Nat.add_comm]
    rwa [hrows, hcount] at hrun

-- The new id of the record `id` of a section, of whose records the ids `ids` are drawn from the
-- `n`th draw on.
def newId (w : World) (n : Nat) (ids : List String) (id : String) : String :=
  w.draws (n + ids.idxOf id)

theorem wp_drawIds {Q : List (String × String) → Session → Prop}
    {E : StorageError → Session → Prop} {ids : List String} :
    wp (drawIds w ids) Q E s ↔ Q (ids.zipIdx.map fun e => (e.fst, w.draws (s.drawn + e.snd)))
      { s with drawn := s.drawn + ids.length } := by
  induction ids generalizing s Q
  case nil => exact Iff.rfl
  case cons id ids ih =>
    have hrest : (ids.zipIdx.map fun e => (e.fst, w.draws (s.drawn + 1 + e.snd))) =
        (ids.zipIdx 1).map fun e => (e.fst, w.draws (s.drawn + e.snd)) := by
      rw [Lists.map_zipIdx_one]
      apply List.map_congr_left
      intro e _
      have hplace : s.drawn + 1 + e.snd = s.drawn + (e.snd + 1) := by omega
      rw [hplace]
    have hcount : s.drawn + 1 + ids.length = s.drawn + (ids.length + 1) := by omega
    rw [drawIds, wp_bind, wp_uuidV7, wp_bind, ih, wp_pure, hrest, List.length_cons]
    dsimp only
    rw [hcount]
    exact Iff.rfl

theorem get_drawIds {n : Nat} {ids : List String} (hn : ids.Nodup) {id : String} (hid : id ∈ ids) :
    Assoc.get (ids.zipIdx.map fun e => (e.fst, w.draws (n + e.snd))) id =
      some (newId w n ids id) := by
  have hplace := Lists.zipIdx_eq_map_idxOf (l := ids) (f := fun id => id) (by simpa using hn)
  rw [hplace, List.map_map, List.map_id']
  exact Assoc.get_map_pair (f := newId w n ids) hid

theorem forM_inserted_const {α : Type} {turn : α → Import Unit} {f : α → ρ}
    (h : ∀ a s, Ensures (turn a) (fun _ => Inserted sec [f a] 0 s) s) (as : List α) :
    Ensures (as.forM turn) (fun _ => Inserted sec (as.map f) 0 s) s := by
  have hrun := forM_inserted (f := fun _ => f) h as (s := s)
  have hrows : (as.zipIdx.map fun e => f e.fst) = as.map f := by
    conv_rhs => rw [← List.zipIdx_map_fst 0 as, List.map_map]
    rfl
  rwa [hrows, Nat.zero_mul] at hrun

-- Each record is inserted under the id that is drawn for it.
theorem forM_drawing {α : Type} {turn : α → Import Unit} {key : α → String} {f : String → α → ρ}
    {as : List α} (h : ∀ a s, Ensures (turn a) (fun _ => Inserted sec [f (w.draws s.drawn) a] 1 s) s)
    (hn : (as.map key).Nodup) : Ensures (as.forM turn) (fun _ => Inserted sec
      (as.map fun a => f (newId w s.drawn (as.map key) (key a)) a) as.length s) s := by
  have hrun := forM_inserted (f := fun n => f (w.draws n)) h as (s := s)
  have hrows : (as.zipIdx.map fun e => f (w.draws (s.drawn + 1 * e.snd)) e.fst) =
      as.map fun a => f (newId w s.drawn (as.map key) (key a)) a := by
    rw [Lists.zipIdx_eq_map_idxOf hn, List.map_map]
    apply List.map_congr_left
    intro a _
    rw [Function.comp_apply, Nat.one_mul]
    rfl
  rwa [hrows, Nat.one_mul] at hrun

variable {characterIds chatIds : List (String × String)}

theorem forM_remapCharacter (cs : List ExportCharacter) :
    Ensures (cs.forM (remapCharacter w characterIds)) (fun _ => Inserted characters
      (cs.map fun c => { c with id := (Assoc.get characterIds c.id).getD c.id : ExportCharacter }.row)
      0 s) s := by
  apply forM_inserted_const
  intro c s
  exact insertCounting_inserted

theorem forM_remapChat (hs : List ExportChat) :
    Ensures (hs.forM (remapChat w characterIds chatIds)) (fun _ => Inserted chats
      (hs.map fun chat => { chat with
        id          := (Assoc.get chatIds chat.id).getD chat.id
        characterId := (Assoc.get characterIds chat.characterId).getD chat.characterId }) 0 s) s := by
  apply forM_inserted_const
  intro chat s
  rw [remapChat]
  cases h : Assoc.get characterIds chat.characterId
  case none    => trivial
  case some id => exact insertCounting_inserted

theorem forM_remapMessage {ms : List ExportMessage} (hn : (ms.map (·.id)).Nodup) :
    Ensures (ms.forM (remapMessage w chatIds)) (fun _ => Inserted messages
      (ms.map fun m => { m with
        id     := newId w s.drawn (ms.map (·.id)) m.id
        chatId := (Assoc.get chatIds m.chatId).getD m.chatId : ExportMessage }.row) ms.length s) s := by
  refine forM_drawing (f := fun id m => { m with
    id, chatId := (Assoc.get chatIds m.chatId).getD m.chatId : ExportMessage }.row) ?_ hn
  intro m s
  rw [remapMessage]
  cases h : Assoc.get chatIds m.chatId
  case none    => trivial
  case some id => exact drawing_inserted fun _ _ => insertCounting_inserted

theorem forM_remapLorebook {bs : List ExportLorebook} (hn : (bs.map (·.id)).Nodup) :
    Ensures (bs.forM (remapLorebook w)) (fun _ => Inserted lorebooks
      (bs.map fun b => { b with
        id := newId w s.drawn (bs.map (·.id)) b.id : ExportLorebook }.row) bs.length s) s := by
  refine forM_drawing (f := fun id b => { b with id : ExportLorebook }.row) ?_ hn
  intro b s
  exact drawing_inserted fun _ _ => insertCounting_inserted

theorem forM_remapPreset {ps : List ExportPreset} (hn : (ps.map (·.id)).Nodup) :
    Ensures (ps.forM (remapPreset w)) (fun _ => Inserted presets
      (ps.map fun p => { p with
        id := newId w s.drawn (ps.map (·.id)) p.id : ExportPreset }.row) ps.length s) s := by
  refine forM_drawing (f := fun id p => { p with id : ExportPreset }.row) ?_ hn
  intro p s
  exact drawing_inserted fun _ _ => insertCounting_inserted

end Import

namespace Container

variable {c : Container} {w : World}

-- The ids of the records of a section that are no orphans.
def ids (c : Container) : Kind → List String
  | .characters => c.characters.map (·.id)
  | .chats      => c.keptChats.map (·.id)
  | .messages   => c.keptMessages.map (·.id)
  | .lorebooks  => c.lorebooks.map (·.id)
  | .presets    => c.presets.map (·.id)

-- The number of the first draw for a section.
def offset (c : Container) : Kind → Nat
  | .characters => 0
  | .chats      => c.characters.length
  | .messages   => c.characters.length + c.keptChats.length
  | .lorebooks  => c.characters.length + c.keptChats.length + c.keptMessages.length
  | .presets    =>
    c.characters.length + c.keptChats.length + c.keptMessages.length + c.lorebooks.length

def rename (c : Container) (w : World) (k : Kind) (id : String) : String :=
  Import.newId w (c.offset k) (c.ids k) id

-- New ids for the records that are no orphans, and for what refers to them.
def renamed (c : Container) (f : Kind → String → String) : Container where
  characters := c.characters.map fun r => { r with id := f .characters r.id }
  chats      := c.keptChats.map fun r =>
    { r with id := f .chats r.id, characterId := f .characters r.characterId }
  messages   := c.keptMessages.map fun r => { r with id := f .messages r.id, chatId := f .chats r.chatId }
  lorebooks  := c.lorebooks.map fun r => { r with id := f .lorebooks r.id }
  presets    := c.presets.map fun r => { r with id := f .presets r.id }

-- All records of `c` have been added to the tables.
abbrev Appended (c : Container) (t t' : Tables) : Prop :=
  t.Grown t' (c.characters.map (·.row)) c.chats (c.messages.map (·.row)) (c.lorebooks.map (·.row))
    (c.presets.map (·.row))

def kept (c : Container) : Nat :=
  c.characters.length + c.keptChats.length + c.keptMessages.length + c.lorebooks.length +
    c.presets.length

theorem mem_ids_of_mem_keptChats (h : chat ∈ c.keptChats) :
    chat.characterId ∈ c.ids .characters := by
  simpa [hasCharacter, ids] using (List.mem_filter.mp h).right

theorem mem_ids_of_mem_keptMessages (h : m ∈ c.keptMessages) : m.chatId ∈ c.ids .chats := by
  simpa [hasChat, ids] using (List.mem_filter.mp h).right

-- Distinct draws make distinct ids, also across sections.
theorem rename_injective {id id' : String} (hw : Function.Injective w.draws) (h : id ∈ c.ids k) (h' : id' ∈ c.ids k')
    (heq : c.rename w k id = c.rename w k' id') : k = k' ∧ id = id' := by
  have hplace : c.offset k + (c.ids k).idxOf id = c.offset k' + (c.ids k').idxOf id' := hw heq
  have hlt := List.idxOf_lt_length_of_mem h
  have hlt' := List.idxOf_lt_length_of_mem h'
  have hk : k = k' := by
    cases k <;> cases k' <;> simp only [offset, ids, List.length_map] at hplace hlt hlt' <;>
      first | rfl | omega
  subst hk
  refine ⟨rfl, ?_⟩
  have hidx : (c.ids k).idxOf id = (c.ids k).idxOf id' := Nat.add_left_cancel hplace
  exact (List.idxOf_inj h).mp hidx

end Container

namespace Import

open Container

variable {c : Container} {w : World} {s : Session}

theorem applyRemap_ensures (hc : c.Distinct) (hs : s.drawn = 0) : Ensures (applyRemap w c)
    (fun _ s' => (c.renamed (c.rename w)).Appended s.tables s'.tables ∧ Counted c.kept 0 0 s s') s := by
  refine wp_bind.mpr <| wp_drawIds.mpr ?_
  refine wp_bind.mpr <| wp_mono (forM_remapCharacter _) (fun _ s₁ h₁ => ?_) fun _ _ _ => trivial
  refine wp_bind.mpr <| wp_drawIds.mpr ?_
  refine wp_bind.mpr <| wp_mono (forM_remapChat _) (fun _ s₂ h₂ => ?_) fun _ _ _ => trivial
  refine wp_bind.mpr <| wp_mono (forM_remapMessage hc.keptMessages) (fun _ s₃ h₃ => ?_)
    fun _ _ _ => trivial
  refine wp_bind.mpr <| wp_mono (forM_remapLorebook hc.lorebooks) (fun _ s₄ h₄ => ?_)
    fun _ _ _ => trivial
  refine wp_mono (forM_remapPreset hc.presets) (fun _ s₅ h₅ => ?_) fun _ _ _ => trivial
  -- How many ids have been drawn before each section.
  have d₁ : s₁.drawn = c.offset .chats := by
    rw [h₁.drawn, hs, List.length_map, Nat.zero_add]
    rfl
  have d₂ : s₂.drawn = c.offset .messages := by
    rw [h₂.drawn, d₁, List.length_map]
    rfl
  have d₃ : s₃.drawn = c.offset .lorebooks := by
    rw [h₃.drawn, d₂]
    rfl
  have d₄ : s₄.drawn = c.offset .presets := by
    rw [h₄.drawn, d₃]
    rfl
  have hcharacter : ∀ id ∈ c.ids .characters, Assoc.get ((c.characters.map (·.id)).zipIdx.map
      fun e => (e.fst, w.draws (s.drawn + e.snd))) id = some (c.rename w .characters id) := by
    rw [hs]
    exact fun id hid => get_drawIds hc.characters hid
  have hchat : ∀ id ∈ c.ids .chats, Assoc.get ((c.keptChats.map (·.id)).zipIdx.map
      fun e => (e.fst, w.draws (s₁.drawn + e.snd))) id = some (c.rename w .chats id) := by
    rw [d₁]
    exact fun id hid => get_drawIds hc.keptChats hid
  have g₁ : characters.Grown ((c.renamed (c.rename w)).characters.map (·.row)) s.tables s₁.tables := by
    convert h₁.grown using 1
    rw [renamed, List.map_map]
    apply List.map_congr_left
    intro r hr
    rw [hcharacter r.id <| List.mem_map_of_mem hr, Option.getD_some]
    rfl
  have g₂ : chats.Grown (c.renamed (c.rename w)).chats s₁.tables s₂.tables := by
    convert h₂.grown using 1
    apply List.map_congr_left
    intro r hr
    rw [hchat r.id <| List.mem_map_of_mem hr, hcharacter _ <| mem_ids_of_mem_keptChats hr,
      Option.getD_some, Option.getD_some]
  have g₃ : messages.Grown ((c.renamed (c.rename w)).messages.map (·.row)) s₂.tables s₃.tables := by
    convert h₃.grown using 1
    rw [renamed, List.map_map]
    apply List.map_congr_left
    intro r hr
    rw [hchat _ <| mem_ids_of_mem_keptMessages hr, Option.getD_some, d₂]
    rfl
  have g₄ : lorebooks.Grown ((c.renamed (c.rename w)).lorebooks.map (·.row)) s₃.tables s₄.tables := by
    convert h₄.grown using 1
    rw [renamed, List.map_map, d₃]
    rfl
  have g₅ : presets.Grown ((c.renamed (c.rename w)).presets.map (·.row)) s₄.tables s₅.tables := by
    convert h₅.grown using 1
    rw [renamed, List.map_map, d₄]
    rfl
  constructor
  case left  => exact .of_sections g₁ g₂ g₃ g₄ g₅
  case right =>
    have k₁ : Counted _ 0 0 s s₁ := ⟨h₁.inserted, h₁.updated, h₁.skipped⟩
    have k₂ : Counted _ 0 0 s₁ s₂ := ⟨h₂.inserted, h₂.updated, h₂.skipped⟩
    have hcounted := (((k₁.trans k₂).trans h₃.toCounted).trans h₄.toCounted).trans h₅.toCounted
    simp only [List.length_map] at hcounted
    exact hcounted

end Import
end Storage.Product
