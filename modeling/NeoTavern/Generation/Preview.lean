import NeoTavern.Generation.History
import Mathlib

open Wire Storage Kernel

section Texts

-- The text that an event adds to its run.
def deltaText? (e : EventRow) : Option String :=
  match e.payload with
  | .delta text => some text
  | _           => none

-- The committed delta texts of a run.
def Storage.Db.deltaTexts (db : Db) (runId : String) : List String :=
  (db.eventsOf runId).filterMap deltaText?

theorem utf8Len_eq_length_iff (cs : List Char) :
    String.utf8Len cs = cs.length ↔ ∀ c ∈ cs, c.utf8Size = 1 := by
  have hle (cs : List Char) : cs.length ≤ String.utf8Len cs := by
    induction cs
    case nil          => exact Nat.le_refl 0
    case cons c cs ih =>
      have := c.utf8Size_pos
      rw [String.utf8Len_cons, List.length_cons]
      omega
  induction cs
  case nil          => simp
  case cons c cs ih =>
    have hpos := c.utf8Size_pos
    have hle  := hle cs
    rw [String.utf8Len_cons, List.length_cons, List.forall_mem_cons]
    constructor
    case mp  =>
      intro h
      exact ⟨by omega, ih.mp <| by omega⟩
    case mpr =>
      intro ⟨hc, hcs⟩
      have := ih.mpr hcs
      omega

theorem utf8ByteSize_eq_length_iff (s : String) :
    s.utf8ByteSize = s.length ↔ ∀ c ∈ s.toList, c.utf8Size = 1 := by
  rw [← String.utf8Len_toList, ← String.length_toList]
  exact utf8Len_eq_length_iff s.toList

theorem deltaLength_eq (e : EventRow) : deltaLength e = ((deltaText? e).map String.utf8ByteSize).getD 0 := by
  rw [deltaLength, deltaText?]
  cases e.payload <;> rfl

theorem sum_deltaLength (es : List EventRow) :
    (es.map deltaLength).sum = (String.join <| es.filterMap deltaText?).utf8ByteSize := by
  induction es
  case nil          => rfl
  case cons e es ih =>
    rw [List.map_cons, List.sum_cons, ih, deltaLength_eq]
    cases he : deltaText? e
    case none      => simp [he]
    case some text => simp [he, String.join_cons]

-- The statement that reads the deltas finds their texts in the order of their sequences.
theorem deltaPayloads_eq {db : Db} {es : List EventRow} (he : db.eventsOf i = es)
    (hs : (es.map (·.sequence)).Pairwise (· ≤ ·)) (ht : ∀ e ∈ es, e.type = e.payload.type) :
    db.deltaPayloads i = (db.deltaTexts i).map .delta := by
  have hsorted : (es.filter (·.type = .delta)).Pairwise fun a b => a.sequence ≤ b.sequence :=
    (List.pairwise_map.mp hs).filter _
  have hmerge : (es.filter (·.type = .delta)).mergeSort (·.sequence ≤ ·.sequence) = es.filter (·.type = .delta) :=
    List.mergeSort_of_pairwise <| hsorted.imp fun h => decide_eq_true h
  rw [Db.deltaPayloads, Db.deltaTexts, he, hmerge]
  clear he hs hsorted hmerge
  induction es
  case nil          => rfl
  case cons e es ih =>
    have htype := ht e List.mem_cons_self
    have ih    := ih fun e he => ht e <| List.mem_cons_of_mem _ he
    cases hp : e.payload
    case delta text =>
      have hd : e.type = .delta := htype.trans <| congrArg GenerationEvent.type hp
      simp [hd, deltaText?, hp, ih]
    all_goals
      have hd : e.type ≠ .delta := by rw [htype, hp]; nofun
      simp [hd, deltaText?, hp, ih]

-- What the row of a run says of the committed texts.
theorem Reachable.deltas (h : Reachable j) (hr : j.state.runs.get? i = some r) :
    j.state.deltaPayloads i = (j.state.deltaTexts i).map .delta ∧
    r.partialLength = (String.join <| j.state.deltaTexts i).utf8ByteSize := by
  have hlog := (generation_log_invariant h).left i r hr
  by_cases hd : discarded i j.commits
  case pos =>
    have ⟨hevents, hlength⟩ := hlog.left hd
    refine ⟨deltaPayloads_eq hevents .nil nofun, ?_⟩
    rw [hlength, Db.deltaTexts, hevents]
    rfl
  case neg =>
    have hlogged := hlog.right hd
    refine ⟨deltaPayloads_eq rfl ?_ hlogged.types, ?_⟩
    · rw [hlogged.sequences, List.pairwise_map]
      exact List.pairwise_le_range.imp fun h => Int.ofNat_le.mpr h
    · rw [hlogged.partialLength, sum_deltaLength]
      rfl

end Texts

section Preview

variable {w w' : World}

theorem mapM_deltaText (texts : List String) :
    (texts.map GenerationEvent.delta).mapM deltaText = .ok texts := by
  induction texts
  case nil             => rfl
  case cons text ts ih =>
    rw [List.map_cons, List.mapM_cons, ih]
    rfl

theorem delta_of_mapM {payloads : List GenerationEvent} {texts : List String}
    (h : payloads.mapM deltaText = .ok texts) : payloads = texts.map .delta := by
  induction payloads generalizing texts
  case nil             => exact Except.ok.inj h ▸ rfl
  case cons p payloads ih =>
    rw [List.mapM_cons] at h
    cases p
    case delta text =>
      cases hps : payloads.mapM deltaText
      case error e => rw [hps] at h; cases h
      case ok ts   =>
        rw [hps] at h
        obtain rfl := Except.ok.inj h
        exact congrArg (GenerationEvent.delta text :: ·) (ih hps)
    all_goals cases h

theorem Kernel.Moves.deltaTexts {S : Db → Label → Db → Prop} {texts : List String}
    (hp : w.db.deltaPayloads i = texts.map .delta) :
    Moves S (Kernel.loadDeltaTexts i) (fun ts t => t.journal = w.journal ∧ ts = texts) w := by
  unfold Kernel.loadDeltaTexts
  refine query.bind fun payloads t _ ⟨hj, hpayloads⟩ => ?_
  rw [hpayloads, hp, mapM_deltaText]
  exact pure ⟨hj, rfl⟩

-- What is rendered comes from the row and the committed texts.
theorem runToDto_eq {texts : List String} (hp : w.db.deltaPayloads r.runId = texts.map .delta)
    (h : runToDto r w = (.ok dto, w')) : dto = renderRun r (String.join texts) := by
  have hm : Moves (fun _ _ _ => False) (runToDto r) (fun dto _ => dto = renderRun r (String.join texts)) w := by
    unfold runToDto concatDeltaText
    have hconcat := (Moves.deltaTexts (S := fun _ _ _ => False) hp).bind (R := fun full _ => full = String.join texts)
      fun ts t _ ⟨_, hts⟩ => .pure <| congrArg String.join hts
    exact hconcat.bind fun full t _ hfull => .pure <| congrArg (renderRun r) hfull
  exact ((Proc.wp_of_ok h).mp hm.wp).right

-- The preview tells how long the text is, and whether it has been cut.
structure Described (dto : GenerationRun) (full : String) : Prop where
  length    : dto.partialTextLength = full.length
  truncated : dto.partialTruncated ↔
    ∃ text, dto.partialText = some text ∧ text.toList <+: full.toList ∧ text ≠ full

theorem preview_eq_iff (full : String) :
    String.ofList (full.toList.take partialPreviewLen) = full ↔ full.length ≤ partialPreviewLen := by
  rw [← String.toList_inj, String.toList_ofList, ← String.length_toList]
  exact List.take_eq_self_iff full.toList

theorem renderRun_described (hl : r.partialLength = full.utf8ByteSize) :
    Described (renderRun r full) full ↔ full.utf8ByteSize = full.length := by
  constructor
  case mp  =>
    intro h
    have hlength : r.partialLength = full.length := h.length
    omega
  case mpr =>
    intro hbytes
    have hlength : r.partialLength = full.length := by omega
    have hpreview := preview_eq_iff full
    refine ⟨hlength, ?_⟩
    constructor
    case mp  =>
      intro htruncated
      have hlong : r.partialLength > partialPreviewLen := of_decide_eq_true htruncated
      have hpos : r.partialLength > 0 := by omega
      refine ⟨_, if_pos hpos, ?_, fun heq => ?_⟩
      · rw [String.toList_ofList]
        exact List.take_prefix _ _
      · have := hpreview.mp heq
        omega
    case mpr =>
      intro ⟨text, htext, _, hne⟩
      rw [renderRun] at htext
      split at htext
      case isFalse => cases htext
      case isTrue  =>
        obtain rfl := Option.some.inj htext
        have hlong : ¬full.length ≤ partialPreviewLen := fun h => hne <| hpreview.mpr h
        refine decide_eq_true ?_
        omega

-- The preview of a run is described truthfully where its text is ASCII only.
theorem run_preview_described_iff (h : Reachable w.journal) (hr : w.db.runs.get? i = some r)
    (hdto : runToDto r w = (.ok dto, w')) :
    Described dto (String.join <| w.db.deltaTexts i) ↔
      ∀ text ∈ w.db.deltaTexts i, ∀ c ∈ text.toList, c.toNat < 128 := by
  obtain rfl := Table.get?_key_eq hr
  have ⟨hpayloads, hlength⟩ := h.deltas hr
  have hascii (c : Char) : c.utf8Size = 1 ↔ c.toNat < 128 := by
    rw [Char.utf8Size_eq_one_iff, UInt32.le_iff_toNat_le]
    exact Nat.lt_succ_iff.symm
  rw [runToDto_eq hpayloads hdto]
  refine (renderRun_described hlength).trans <| (utf8ByteSize_eq_length_iff _).trans ?_
  rw [String.toList_join]
  simp only [List.mem_flatMap, hascii]
  exact ⟨fun h text ht c hc => h c ⟨text, ht, hc⟩, fun h c ⟨text, ht, hc⟩ => h text ht c hc⟩

theorem runToDto_ok {texts : List String} (hp : w.db.deltaPayloads r.runId = texts.map .delta)
    (hf : w.env.fault w.ops = none) :
    runToDto r w = (.ok <| renderRun r <| String.join texts, { w with ops := w.ops + 1 }) := by
  have hquery : loadDeltaTexts r.runId w = (.ok texts, { w with ops := w.ops + 1 }) := by
    rw [loadDeltaTexts, Proc.bind_def, Proc.bind, query, faulty, hf]
    dsimp only [Proc.gets]
    have hdb : World.db { w with ops := w.ops + 1 } = w.db := rfl
    rw [hdb, hp, mapM_deltaText]
    rfl
  rw [runToDto, concatDeltaText, Proc.bind_def, Proc.bind, Proc.bind_def, Proc.bind, hquery]
  rfl

namespace Sample

-- A provider that fails after one text.
def failing (text : String) : ProviderAdapter where
  id           := "fake"
  generate _ _ := .emit text fun _ => .done <| .error ⟨.unavailable, "gone", [], false⟩

def written (text : String) : World :=
  (writerMain "owner" [failing text] 1 <| world [[start]]).snd

theorem written_reachable (text : String) : Reachable (written text).journal := by
  have hw : Reachable (world [[start]]).journal := .fresh rfl rfl
  unfold written
  exact hw.session "owner" [failing text] 1

end Sample

theorem Reachable.runToDto_eq (h : Reachable w.journal) (hr : w.db.runs.get? i = some r)
    (hf : (w.env.fault w.ops).isNone) : runToDto r w =
      (.ok <| renderRun r <| String.join <| w.db.deltaTexts i, { w with ops := w.ops + 1 }) := by
  obtain rfl := Table.get?_key_eq hr
  exact runToDto_ok (h.deltas hr).left <| Option.isNone_iff_eq_none.mp hf

open Sample in
theorem run_preview_described_hello : ∃ r dto w', runToDto r (written "Hello") = (.ok dto, w') ∧
    Described dto (String.join <| (written "Hello").db.deltaTexts runId) := by
  have hsome : ((written "Hello").db.runs.get? runId).isSome := by decide +kernel
  have hfault : ((written "Hello").env.fault (written "Hello").ops).isNone := by decide +kernel
  have hascii : ((written "Hello").db.deltaTexts runId).all fun t => t.toList.all fun c => c.toNat < 128 := by
    decide +kernel
  generalize hw : written "Hello" = w at hsome hfault hascii
  have hreachable : Reachable w.journal := hw ▸ written_reachable "Hello"
  have ⟨r, hr⟩ := Option.isSome_iff_exists.mp hsome
  have hdto    := hreachable.runToDto_eq hr hfault
  refine ⟨r, _, _, hdto, (run_preview_described_iff hreachable hr hdto).mpr ?_⟩
  simpa only [List.all_eq_true, decide_eq_true_eq] using hascii

open Sample in
-- The length is counted in bytes.
theorem run_preview_misdescribed : ¬∀ (w w' : World) (i : String) (r : RunRow) (dto : GenerationRun),
    Reachable w.journal → w.db.runs.get? i = some r → runToDto r w = (.ok dto, w') →
    Described dto (String.join <| w.db.deltaTexts i) := by
  intro h
  have hsome : ((written "é").db.runs.get? runId).isSome := by decide +kernel
  have hfault : ((written "é").env.fault (written "é").ops).isNone := by decide +kernel
  have htexts : (written "é").db.deltaTexts runId = ["é"] := by decide +kernel
  generalize hw : written "é" = w at hsome hfault htexts
  have hreachable : Reachable w.journal := hw ▸ written_reachable "é"
  have ⟨r, hr⟩    := Option.isSome_iff_exists.mp hsome
  have hdto       := hreachable.runToDto_eq hr hfault
  have hdescribed := h w _ runId r _ hreachable hr hdto
  have hl : r.partialLength = (String.join <| w.db.deltaTexts runId).utf8ByteSize := (hreachable.deltas hr).right
  have hbytes := (renderRun_described hl).mp hdescribed
  rw [htexts] at hbytes
  exact absurd hbytes (by decide)

example : "é".utf8ByteSize = 2 ∧ utf16Length "é" = 1 := by
  decide +kernel

end Preview
