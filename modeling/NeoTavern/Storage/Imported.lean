import NeoTavern.Storage.Remapping

namespace Storage.Product

open Proc Import

section Transaction

variable {w : World} {f : Import α} {s s' : Session}

theorem transaction_error (h : transaction w f s = (.error e, s')) : s'.tables = s.tables := by
  simp only [transaction] at h
  split at h
  case h_1 => exact (Prod.mk.inj h).right ▸ rfl
  case h_2 =>
    split at h
    case h_1 => exact (Prod.mk.inj h).right ▸ rfl
    case h_2 =>
      split at h
      case h_1 => exact (Prod.mk.inj h).right ▸ rfl
      case h_2 => cases (Prod.mk.inj h).left

theorem transaction_ok (h : transaction w f s = (.ok a, s')) :
    ∃ u, f { s with statements := s.statements + 1 } = (.ok a, u) ∧
      s' = { u with statements := u.statements + 1 } := by
  simp only [transaction] at h
  split at h
  case h_1 => cases (Prod.mk.inj h).left
  case h_2 =>
    split at h
    case h_1 => cases (Prod.mk.inj h).left
    case h_2 b u hf =>
      split at h
      case h_1 => cases (Prod.mk.inj h).left
      case h_2 =>
        have ⟨ha, hu⟩ := Prod.mk.inj h
        cases ha
        exact ⟨u, hf, hu.symm⟩

end Transaction

namespace Container

variable {c : Container} {t t' : Tables}

def total (c : Container) : Nat :=
  c.characters.length + c.chats.length + c.messages.length + c.lorebooks.length + c.presets.length

theorem kept_add_orphans : c.kept + c.orphans.length = c.total := by
  have hchats := List.length_eq_length_filter_add (l := c.chats) c.hasCharacter
  have hmessages := List.length_eq_length_filter_add (l := c.messages) c.hasChat
  simp only [kept, total, orphans, List.length_append, List.length_map, keptChats, keptMessages]
  omega

theorem absentFrom_add_presentIn : c.absentFrom t + c.presentIn t = c.kept := by
  have h : ∀ {ρ : Type} {key : ρ → String} (t : Table String ρ key) (rows : List ρ),
      rows.countP (!t.present ·) + rows.countP t.present = rows.length := by
    intro ρ key t rows
    rw [List.countP_eq_length_filter]
    exact Table.length_filter_absent
  have h₁ := h t.characters c.characterRows
  have h₂ := h t.chats c.keptChats
  have h₃ := h t.messages c.messageRows
  have h₄ := h t.lorebooks c.lorebookRows
  have h₅ := h t.presets c.presetRows
  simp only [characterRows, messageRows, lorebookRows, presetRows, List.length_map] at h₁ h₃ h₄ h₅
  simp only [absentFrom, presentIn, kept, characterRows, messageRows, lorebookRows, presetRows]
  omega

end Container

-- Rows whose ids are not among `ids` are still there, as they were.
structure Tables.KeepOthers (t t' : Tables) (ids : Kind → List String) : Prop where
  characters : ∀ id ∉ ids .characters, ∀ r, t.characters.get? id = some r → t'.characters.get? id = some r
  chats      : ∀ id ∉ ids .chats, ∀ r, t.chats.get? id = some r → t'.chats.get? id = some r
  messages   : ∀ id ∉ ids .messages, ∀ r, t.messages.get? id = some r → t'.messages.get? id = some r
  lorebooks  : ∀ id ∉ ids .lorebooks, ∀ r, t.lorebooks.get? id = some r → t'.lorebooks.get? id = some r
  presets    : ∀ id ∉ ids .presets, ∀ r, t.presets.get? id = some r → t'.presets.get? id = some r

-- No row changes.
abbrev Tables.KeepAll (t t' : Tables) : Prop :=
  t.KeepOthers t' fun _ => []

namespace Container

variable {c : Container} {t t' : Tables}

theorem keepAll_of_grown (h : t.Grown t' cs hs ms bs ps) : t.KeepAll t' where
  characters _ _ _ := Table.get?_of_rows_eq_append h.characters
  chats _ _ _      := Table.get?_of_rows_eq_append h.chats
  messages _ _ _   := Table.get?_of_rows_eq_append h.messages
  lorebooks _ _ _  := Table.get?_of_rows_eq_append h.lorebooks
  presets _ _ _    := Table.get?_of_rows_eq_append h.presets

theorem keepOthers_of_keepAll (h : t.KeepAll t') (ids : Kind → List String) : t.KeepOthers t' ids where
  characters id _ := h.characters id List.not_mem_nil
  chats id _      := h.chats id List.not_mem_nil
  messages id _   := h.messages id List.not_mem_nil
  lorebooks id _  := h.lorebooks id List.not_mem_nil
  presets id _    := h.presets id List.not_mem_nil

variable (hc : c.Distinct)

include hc

theorem addedTo_grown : t.Grown (c.addedTo t) (c.characterRows.filter (!t.characters.present ·))
    (c.keptChats.filter (!t.chats.present ·)) (c.messageRows.filter (!t.messages.present ·))
    (c.lorebookRows.filter (!t.lorebooks.present ·)) (c.presetRows.filter (!t.presets.present ·)) where
  characters := Table.foldl_addAbsent_rows hc.characterRows
  chats      := Table.foldl_addAbsent_rows hc.keptChats
  messages   := Table.foldl_addAbsent_rows hc.messageRows
  lorebooks  := Table.foldl_addAbsent_rows hc.lorebookRows
  presets    := Table.foldl_addAbsent_rows hc.presetRows

theorem upsertedInto_keepOthers : t.KeepOthers (c.upsertedInto t) c.ids := by
  constructor
  case characters =>
    intro id hid r
    apply Table.get?_foldl_upsert hc.characterRows
    rwa [characterRows, List.map_map]
  case chats =>
    intro id hid r
    exact Table.get?_foldl_upsert hc.keptChats hid
  case messages =>
    intro id hid r
    apply Table.get?_foldl_upsert hc.messageRows
    rwa [messageRows, List.map_map]
  case lorebooks =>
    intro id hid r
    apply Table.get?_foldl_upsert hc.lorebookRows
    rwa [lorebookRows, List.map_map]
  case presets =>
    intro id hid r
    apply Table.get?_foldl_upsert hc.presetRows
    rwa [presetRows, List.map_map]

omit hc

-- Every record that is no orphan has an id that the tables have.
structure PresentIn (c : Container) (t : Tables) : Prop where
  characters : ∀ r ∈ c.characterRows, t.characters.present r
  chats      : ∀ r ∈ c.keptChats, t.chats.present r
  messages   : ∀ r ∈ c.messageRows, t.messages.present r
  lorebooks  : ∀ r ∈ c.lorebookRows, t.lorebooks.present r
  presets    : ∀ r ∈ c.presetRows, t.presets.present r

theorem addedTo_present (hc : c.Distinct) : c.PresentIn (c.addedTo t) where
  characters _ := Table.present_foldl_addAbsent hc.characterRows
  chats _      := Table.present_foldl_addAbsent hc.keptChats
  messages _   := Table.present_foldl_addAbsent hc.messageRows
  lorebooks _  := Table.present_foldl_addAbsent hc.lorebookRows
  presets _    := Table.present_foldl_addAbsent hc.presetRows

theorem PresentIn.addedTo_eq (h : c.PresentIn t) : c.addedTo t = t := by
  apply Tables.ext
  case characters => exact Table.foldl_addAbsent_of_present h.characters
  case chats      => exact Table.foldl_addAbsent_of_present h.chats
  case messages   => exact Table.foldl_addAbsent_of_present h.messages
  case lorebooks  => exact Table.foldl_addAbsent_of_present h.lorebooks
  case presets    => exact Table.foldl_addAbsent_of_present h.presets

theorem PresentIn.absentFrom_eq_zero (h : c.PresentIn t) : c.absentFrom t = 0 := by
  have hzero : ∀ {ρ : Type} {p : ρ → Bool} {rows : List ρ}, (∀ r ∈ rows, p r) →
      rows.countP (!p ·) = 0 := by
    intro ρ p rows hall
    rw [List.countP_eq_zero]
    intro r hr
    rw [hall r hr]
    exact Bool.false_ne_true
  rw [absentFrom, hzero h.characters, hzero h.chats, hzero h.messages, hzero h.lorebooks,
    hzero h.presets]

end Container

namespace Import

variable {w : World} {sec : Section ρ} {rows : List ρ} {s : Session} {c : Container}

-- Where nothing fails, a loop over rows that are present comes to its end and leaves the tables.
theorem forM_rejectRow_present (hw : ∀ n, w.faults n = none)
    (hp : ∀ r ∈ rows, (sec.table s.tables).present r) :
    wp (rows.forM (rejectRow w sec)) (fun _ s' => s'.tables = s.tables) (fun _ _ => False) s := by
  induction rows generalizing s
  case nil => rfl
  case cons row rows ih =>
    have hfound : sec.rowExists (sec.key row) s.tables = true := hp row List.mem_cons_self
    have hrow : rejectRow w sec row s = (.ok (), { s with
        skipped := s.skipped + 1, statements := s.statements + 1 }) := by
      simp only [rejectRow, rowExists, bind_def, Proc.bind, hw, hfound, if_true]
      rfl
    rw [wp_forM_cons, wp_of_ok hrow]
    exact ih fun r hr => hp r <| List.mem_cons_of_mem _ hr

theorem applyReject_present (hw : ∀ n, w.faults n = none) (hp : c.PresentIn s.tables) :
    wp (applyReject w c) (fun _ _ => True) (fun _ _ => False) s := by
  refine wp_bind.mpr <| wp_mono (forM_rejectRow_present hw hp.characters) (fun _ s₁ h₁ => ?_)
    fun _ _ h => h
  rw [← h₁] at hp
  refine wp_bind.mpr <| wp_mono (forM_rejectRow_present hw hp.chats) (fun _ s₂ h₂ => ?_)
    fun _ _ h => h
  rw [← h₂] at hp
  refine wp_bind.mpr <| wp_mono (forM_rejectRow_present hw hp.messages) (fun _ s₃ h₃ => ?_)
    fun _ _ h => h
  rw [← h₃] at hp
  refine wp_bind.mpr <| wp_mono (forM_rejectRow_present hw hp.lorebooks) (fun _ s₄ h₄ => ?_)
    fun _ _ h => h
  rw [← h₄] at hp
  exact wp_mono (forM_rejectRow_present hw hp.presets) (fun _ _ _ => trivial) fun _ _ h => h

end Import
-- What an import that comes to its end reports and leaves behind.
structure Imported (w : World) (policy : DuplicatePolicy) (c : Container) (db db' : Tables)
    (report : ImportReport) : Prop where
  accounted : report.inserted + report.updated + report.skipped = c.total
  orphans   : report.orphans = c.orphans
  skipped   : report.skipped =
    report.orphans.length + if policy = .reject then c.presentIn db else 0
  others    : db.KeepOthers db' c.ids
  rejected  : policy = .reject → db.KeepAll db'
  remapped  : policy = .remap → db.KeepAll db' ∧ (Function.Injective w.draws →
    ∃ f : Kind → String → String, (c.renamed f).Appended db db' ∧ ∀ k k', ∀ id ∈ c.ids k,
      ∀ id' ∈ c.ids k', f k id = f k' id' → k = k' ∧ id = id')

-- An import that runs again, whatever SQLite does this time, inserts nothing and changes nothing.
structure Repeated (source : Except StorageError Container) (db : Tables) : Prop where
  tables   : ∀ w, (applyImport w source .reject db).snd = db
  inserted : ∀ w report, (applyImport w source .reject db).fst = .ok report → report.inserted = 0
  comes    : ∀ w, (∀ n, w.faults n = none) → ∃ report, (applyImport w source .reject db).fst = .ok report

theorem applyImport_error (h : applyImport w source policy db = (.error e, db')) : db' = db := by
  simp only [applyImport] at h
  split at h
  case h_1 => exact (Prod.mk.inj h).right.symm
  case h_2 =>
    split at h
    case h_1 => exact (Prod.mk.inj h).right.symm
    case h_2 =>
      split at h
      case h_1 s hs => exact (Prod.mk.inj h).right ▸ transaction_error hs
      case h_2      => cases (Prod.mk.inj h).left

theorem applyImport_ok (h : applyImport w source policy db = (.ok report, db')) :
    ∃ c s, source = .ok c ∧ c.validate w = .ok () ∧
      applyPolicy w policy c ⟨db, 0, 0, c.orphans.length, 1, 0⟩ = (.ok (), s) ∧ db' = s.tables ∧
      report = ⟨s.inserted, s.updated, s.skipped, c.orphans⟩ := by
  simp only [applyImport] at h
  split at h
  case h_1 => cases (Prod.mk.inj h).left
  case h_2 c =>
    split at h
    case h_1 => cases (Prod.mk.inj h).left
    case h_2 hv =>
      split at h
      case h_1 => cases (Prod.mk.inj h).left
      case h_2 s hs =>
        have ⟨u, hu, heq⟩ := transaction_ok hs
        have ⟨hreport, htables⟩ := Prod.mk.inj h
        refine ⟨c, u, rfl, hv, hu, ?_, ?_⟩
        case refine_1 => rw [← htables, heq]
        case refine_2 =>
          rw [heq] at hreport
          exact (Except.ok.inj hreport).symm

theorem checkMessage_eq_ok {w w' : World} (h : Container.checkMessage w m = .ok ()) :
    Container.checkMessage w' m = .ok () := by
  rw [Container.checkMessage] at h ⊢
  split at h
  case isTrue  => cases h
  case isFalse hrole =>
    rw [if_neg hrole]
    exact h

-- Whether a container is valid does not depend on the world.
theorem validate_eq_ok_of {c : Container} {w w' : World} (h : c.validate w = .ok ()) :
    c.validate w' = .ok () := by
  have ⟨_, h₁, h⟩ := Except.bind_eq_ok.mp h
  have ⟨_, h₂, h⟩ := Except.bind_eq_ok.mp h
  have ⟨_, h₃, h⟩ := Except.bind_eq_ok.mp h
  have ⟨_, h₄, h⟩ := Except.bind_eq_ok.mp h
  have ⟨_, h₅, h⟩ := Except.bind_eq_ok.mp h
  have hmessages := Except.forM_eq_ok.mp h
  refine Except.bind_eq_ok.mpr ⟨_, h₁, Except.bind_eq_ok.mpr ⟨_, h₂, Except.bind_eq_ok.mpr
    ⟨_, h₃, Except.bind_eq_ok.mpr ⟨_, h₄, Except.bind_eq_ok.mpr ⟨_, h₅, ?_⟩⟩⟩⟩⟩
  exact Except.forM_eq_ok.mpr fun m hm => checkMessage_eq_ok <| hmessages m hm

theorem repeated {c : Container} {w : World} {t : Tables} (hv : c.validate w = .ok ())
    (hp : c.PresentIn t) : Repeated (.ok c) t := by
  have hend : ∀ {w report t'}, applyImport w (.ok c) .reject t = (.ok report, t') →
      t' = t ∧ report.inserted = 0 := by
    intro w report t' h
    obtain ⟨c', s, heq, hv, happly, rfl, rfl⟩ := applyImport_ok h
    cases heq
    have ⟨htables, hcounted⟩ := (wp_of_ok happly).mp <| applyReject_ensures <| Container.validate_eq_ok hv
    rw [hp.addedTo_eq] at htables
    rw [hp.absentFrom_eq_zero] at hcounted
    exact ⟨htables, hcounted.inserted⟩
  constructor
  case tables =>
    intro w
    rcases h : applyImport w (.ok c) .reject t with ⟨_ | report, t'⟩
    case error => exact applyImport_error h
    case ok    => exact (hend h).left
  case inserted =>
    intro w report h
    exact (hend <| Prod.ext h rfl).right
  case comes =>
    intro w' hw
    have hv' : c.validate w' = .ok () := validate_eq_ok_of hv
    have hends := applyReject_present hw hp (s := ⟨t, 0, 0, c.orphans.length, 1, 0⟩)
    have ⟨u, hok⟩ : ∃ u, applyReject w' c ⟨t, 0, 0, c.orphans.length, 1, 0⟩ = (.ok (), u) :=
      ⟨_, eq_ok_of_wp <| wp_mono hends (fun _ _ _ => rfl) fun _ _ h => h⟩
    simp only [applyImport, hv', transaction, hw, applyPolicy, hok, Nat.zero_add]
    exact ⟨_, rfl⟩

section Policies

variable {w : World} {c : Container} {db : Tables} {s : Session}

theorem imported_reject (hc : c.Distinct)
    (h : applyReject w c ⟨db, 0, 0, c.orphans.length, 1, 0⟩ = (.ok (), s)) :
    Imported w .reject c db s.tables ⟨s.inserted, s.updated, s.skipped, c.orphans⟩ ∧
      c.PresentIn s.tables := by
  have ⟨htables, hcounted⟩ := (wp_of_ok h).mp <| applyReject_ensures hc
  have hkeep : db.KeepAll s.tables := htables ▸ Container.keepAll_of_grown (Container.addedTo_grown hc)
  have hall := c.absentFrom_add_presentIn (t := db)
  have htotal := c.kept_add_orphans
  have hinserted := hcounted.inserted
  have hupdated := hcounted.updated
  have hskipped := hcounted.skipped
  refine ⟨?_, htables ▸ Container.addedTo_present hc⟩
  constructor
  case accounted => dsimp only at *; omega
  case orphans   => rfl
  case skipped   => exact hskipped
  case others    => exact Container.keepOthers_of_keepAll hkeep c.ids
  case rejected  => exact fun _ => hkeep
  case remapped  => exact fun h => by cases h

theorem imported_replace (hc : c.Distinct)
    (h : applyReplace w c ⟨db, 0, 0, c.orphans.length, 1, 0⟩ = (.ok (), s)) :
    Imported w .replace c db s.tables ⟨s.inserted, s.updated, s.skipped, c.orphans⟩ := by
  have ⟨htables, hcounted⟩ := (wp_of_ok h).mp <| applyReplace_ensures hc
  have hall := c.absentFrom_add_presentIn (t := db)
  have htotal := c.kept_add_orphans
  have hinserted := hcounted.inserted
  have hupdated := hcounted.updated
  have hskipped := hcounted.skipped
  constructor
  case accounted => dsimp only at *; omega
  case orphans   => rfl
  case skipped   => exact hskipped
  case others    => exact htables ▸ Container.upsertedInto_keepOthers hc
  case rejected  => exact fun h => by cases h
  case remapped  => exact fun h => by cases h

theorem imported_remap (hc : c.Distinct)
    (h : applyRemap w c ⟨db, 0, 0, c.orphans.length, 1, 0⟩ = (.ok (), s)) :
    Imported w .remap c db s.tables ⟨s.inserted, s.updated, s.skipped, c.orphans⟩ := by
  have ⟨happended, hcounted⟩ := (wp_of_ok h).mp <| applyRemap_ensures hc rfl
  have hkeep : db.KeepAll s.tables := Container.keepAll_of_grown happended
  have htotal := c.kept_add_orphans
  have hinserted := hcounted.inserted
  have hupdated := hcounted.updated
  have hskipped := hcounted.skipped
  constructor
  case accounted => dsimp only at *; omega
  case orphans   => rfl
  case skipped   => exact hskipped
  case others    => exact Container.keepOthers_of_keepAll hkeep c.ids
  case rejected  => exact fun h => by cases h
  case remapped  =>
    refine fun _ => ⟨hkeep, fun hw => ⟨c.rename w, happended, ?_⟩⟩
    exact fun k k' id hid id' hid' => Container.rename_injective hw hid hid'

end Policies

-- An import is all or nothing, accounts for every record and can be repeated.
theorem applyImport_imported (w : World) (source : Except StorageError Container)
    (policy : DuplicatePolicy) (db : Tables) :
    (∀ e db', applyImport w source policy db = (.error e, db') → db' = db) ∧
    ∀ report db', applyImport w source policy db = (.ok report, db') → ∃ c, source = .ok c ∧
      Imported w policy c db db' report ∧ (policy = .reject → Repeated source db') := by
  constructor
  case left  => exact fun e db' => applyImport_error
  case right =>
    intro report db' h
    obtain ⟨c, s, rfl, hv, happly, rfl, rfl⟩ := applyImport_ok h
    have hc := Container.validate_eq_ok hv
    refine ⟨c, rfl, ?_⟩
    cases policy
    case reject =>
      have ⟨himported, hpresent⟩ := imported_reject hc happly
      exact ⟨himported, fun _ => repeated hv hpresent⟩
    case replace => exact ⟨imported_replace hc happly, fun h => by cases h⟩
    case remap   => exact ⟨imported_remap hc happly, fun h => by cases h⟩

end Storage.Product
