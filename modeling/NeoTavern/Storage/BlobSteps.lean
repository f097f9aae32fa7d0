import Mathlib
import NeoTavern.Storage.Blobs

namespace Storage.Blobs.PluginBlobStore

variable {Id : Type} [LinearOrder Id] {sha256 : Bytes → Id} {s : PluginBlobStore Id} {i : Nat} {op : Op Id}
  {id : Id} {blob : BlobMeta Id} {bytes : Bytes}

theorem genuine_of_readMeta (h : s.Inv sha256) (hr : s.readMeta id = some blob) : Genuine sha256 id blob := by
  have ⟨blob', hget, hb⟩ := Option.map_eq_some_iff.mp hr
  have hgenuine := h.sidecars id blob' hget
  rw [← hb]
  exact ⟨hgenuine.left, hgenuine.right⟩

theorem isSome_readMeta : (s.readMeta id).isSome = (Assoc.get s.sidecars id).isSome := by
  rw [readMeta, Option.isSome_map]

theorem Inv.finish (h : s.Inv sha256) (hi : s.ops[i]? = some op)
    (hhalfway : ∀ id, op.halfway = some id → (Assoc.get s.sidecars id).isSome → False) (r : Return Id) :
    (s.finish i r).Inv sha256 := by
  have hdone : (s.replace i .done).Inv sha256 := by
    apply h.replace hi
    case hdeletes => nofun
    case hhalfway => exact fun id hid hs => (hhalfway id hid hs).elim
    case hplaced  => nofun
    case hfits    => trivial
    case hroom    => exact room_replace h.room nofun
  exact ⟨hdone.nodup, hdone.sidecars, hdone.bins, hdone.whole, hdone.placed, hdone.fits, hdone.stored, hdone.seen,
    hdone.room⟩

theorem Inv.advancePut {phase : PutPhase} (h : s.Inv sha256) (hi : s.ops[i]? = some (.put bytes blob phase))
    (hsafe : s.Undisturbed (.advance i)) : (s.advancePut i bytes blob phase).Inv sha256 := by
  have hop : Op.put bytes blob phase ∈ s.ops := List.mem_of_getElem? hi
  obtain ⟨hgenuine, hbytes⟩ := h.fits _ hop
  -- The call goes on to a phase in which it has put nothing in place.
  have hnext (phase' : PutPhase) (hplaced : ∀ id, (Op.put bytes blob phase').placed = some id →
        (Assoc.get s.bins id).isSome)
      (hadmitted : ∀ id, (Op.put bytes blob phase').admitted = some id → id ∈ s.taken) :
      (s.replace i (.put bytes blob phase')).Inv sha256 := by
    apply h.replace hi
    case hdeletes => rintro _ ⟨⟩
    case hhalfway => rintro _ ⟨⟩
    case hplaced  => exact hplaced
    case hfits    => exact ⟨hgenuine, hbytes⟩
    case hroom    => exact room_replace h.room hadmitted
  have htaken (h : (Op.put bytes blob phase).admitted = some blob.blobId) {id : Id}
      (heq : some blob.blobId = some id) : id ∈ s.taken := by
    cases heq
    exact mem_taken.mpr <| .inr ⟨_, hop, h⟩
  cases phase
  case opening => exact hnext .reading (by rintro _ ⟨⟩) (by rintro _ ⟨⟩)
  case reading =>
    rw [PluginBlobStore.advancePut]
    split
    case isFalse => exact hnext .counting (by rintro _ ⟨⟩) (by rintro _ ⟨⟩)
    case isTrue hr =>
      apply hnext .writing (by rintro _ ⟨⟩)
      intro id hid
      cases hid
      rw [isSome_readMeta] at hr
      exact mem_taken.mpr <| .inl hr
  case counting =>
    rw [PluginBlobStore.advancePut]
    split
    case isTrue => exact h.finish hi (by rintro _ ⟨⟩) _
    case isFalse hlt =>
      apply h.replace hi
      case hdeletes => rintro _ ⟨⟩
      case hhalfway => rintro _ ⟨⟩
      case hplaced  => rintro _ ⟨⟩
      case hfits    => exact ⟨hgenuine, hbytes⟩
      case hroom    =>
        have hroom : (insert blob.blobId s.taken).card ≤ maxBlobsPerPlugin := by
          simp only [Undisturbed, hi] at hsafe
          exact hsafe <| Nat.lt_of_not_le hlt
        refine (Finset.card_le_card fun id hid => ?_).trans hroom
        rw [Finset.mem_insert]
        cases taken_replace hid
        case inl hid => exact .inr hid
        case inr hid =>
          cases hid
          exact .inl rfl
  case writing => exact hnext .moving (by rintro _ ⟨⟩) fun id hid => htaken rfl hid
  case moving =>
    have hset := h.bins_set hbytes
    apply hset.replace hi
    case hdeletes => rintro _ ⟨⟩
    case hhalfway => rintro _ ⟨⟩
    case hfits    => exact ⟨hgenuine, hbytes⟩
    case hroom    => exact room_replace hset.room fun id hid => htaken rfl hid
    case hplaced  =>
      intro id hid
      cases hid
      simp [Assoc.get_set_self]
  case describing =>
    apply hnext .publishing _ fun id hid => htaken rfl hid
    intro id hid
    exact h.placed _ hop id hid
  case publishing =>
    have hovertaken := h.overtake blob.blobId
    have hi' : (s.ops.map (Op.overtake blob.blobId))[i]? = some (.put bytes blob .publishing) := by
      rw [List.getElem?_map, hi]
      rfl
    have hop' := List.mem_of_getElem? hi'
    have hset := hovertaken.sidecars_set hgenuine (hovertaken.placed _ hop' blob.blobId rfl) <|
      mem_taken.mpr <| .inr ⟨_, hop', rfl⟩
    have hdone := hset.finish hi' (by rintro _ ⟨⟩) (.put blob)
    have hops : (s.ops.set i .done).map (Op.overtake blob.blobId) =
        (s.ops.map (Op.overtake blob.blobId)).set i .done := List.map_set
    rw [PluginBlobStore.advancePut, hops]
    constructor
    case nodup    => exact hdone.nodup
    case sidecars => exact hdone.sidecars
    case bins     => exact hdone.bins
    case whole    => exact hdone.whole
    case placed   => exact hdone.placed
    case fits     => exact hdone.fits
    case seen     => exact hdone.seen
    case room     => exact hdone.room
    case stored   =>
      intro id hid
      cases List.mem_append.mp hid
      case inl hid => exact hdone.stored id hid
      case inr hid =>
        rw [List.mem_singleton.mp hid]
        constructor
        case left => simp [Assoc.get_set_self]
        case right =>
          intro o ho hd
          cases List.mem_or_eq_of_mem_set ho
          case inr ho =>
            rw [ho] at hd
            cases hd
          case inl ho =>
            obtain ⟨o', _, heq⟩ := List.mem_map.mp ho
            rw [← heq] at hd
            cases o'
            case delete =>
              simp only [Op.overtake, Op.deletes, Option.some.injEq, Prod.mk.injEq, Bool.or_eq_false_iff] at hd
              simp [hd.left] at hd
            all_goals cases hd

theorem Inv.advanceGet {promised : Option Nat} {found : Option (BlobMeta Id)} (h : s.Inv sha256)
    (hi : s.ops[i]? = some (.get id promised found)) : (s.advanceGet i id promised found).Inv sha256 := by
  have ⟨hpromised, _⟩ := h.fits _ <| List.mem_of_getElem? hi
  cases found
  case some blob => exact h.finish hi nofun _
  case none =>
    rw [PluginBlobStore.advanceGet]
    split
    case h_1 => exact h.finish hi nofun _
    case h_2 blob hr =>
      apply h.replace hi
      case hdeletes => nofun
      case hhalfway => nofun
      case hplaced  => nofun
      case hroom    => exact room_replace h.room nofun
      case hfits    =>
        refine ⟨hpromised, fun b hb => ?_⟩
        cases hb
        exact genuine_of_readMeta h hr

theorem Inv.advanceDelete {overtaken : Bool} {phase : DeletePhase} (h : s.Inv sha256)
    (hi : s.ops[i]? = some (.delete id overtaken phase)) (hsafe : s.Undisturbed (.advance i)) :
    (s.advanceDelete i id overtaken phase).Inv sha256 := by
  have hop : Op.delete id overtaken phase ∈ s.ops := List.mem_of_getElem? hi
  cases phase
  case reading =>
    apply h.replace hi
    case hdeletes => exact fun d hd => hd
    case hhalfway => nofun
    case hplaced  => nofun
    case hfits    => trivial
    case hroom    => exact room_replace h.room nofun
  case removingData found =>
    have hnext : (s.replace i (.delete id overtaken (.removingMeta found))).Inv sha256 := by
      apply h.replace hi
      case hdeletes => exact fun d hd => hd
      case hhalfway => nofun
      case hplaced  => nofun
      case hfits    => trivial
      case hroom    => exact room_replace h.room nofun
    apply hnext.bins_delete
    case hplaced =>
      simp only [Undisturbed, hi] at hsafe
      intro o ho
      cases List.mem_or_eq_of_mem_set ho
      case inl ho => exact hsafe o ho
      case inr ho =>
        rw [ho]
        nofun
    case hhalfway =>
      have hlt : i < s.ops.length := (List.getElem?_eq_some_iff.mp hi).choose
      exact ⟨_, List.mem_set hlt _, rfl⟩
  case removingMeta found =>
    have hfalse : overtaken = false := by simpa only [Undisturbed, hi] using hsafe
    have hdelete : { s with sidecars := Assoc.delete s.sidecars id }.Inv sha256 :=
      h.sidecars_delete hop <| by rw [hfalse]; rfl
    apply hdelete.finish hi
    intro l hl hs
    cases hl
    simp [Assoc.get_delete_self] at hs

theorem Inv.advanceList {promised : List Id} {read : Option (List Id × List (BlobMeta Id))} (h : s.Inv sha256)
    (hi : s.ops[i]? = some (.list promised read)) : (s.advanceList i promised read).Inv sha256 := by
  have ⟨hpromised, hread⟩ := h.fits _ <| List.mem_of_getElem? hi
  have hnext {entries : List Id} {items : List (BlobMeta Id)}
      (hall : ∀ id ∈ promised, id ∈ entries ∨ id ∈ items.map (·.blobId)) :
      (s.replace i (.list promised (some (entries, items)))).Inv sha256 := by
    apply h.replace hi
    case hdeletes => nofun
    case hhalfway => nofun
    case hplaced  => nofun
    case hroom    => exact room_replace h.room nofun
    case hfits    =>
      refine ⟨hpromised, fun entries' items' heq id hid => ?_⟩
      cases heq
      exact hall id hid
  cases read
  case none =>
    apply hnext
    intro id hid
    exact .inl <| Assoc.isSome_get_iff.mp (hpromised id hid).left
  case some read =>
    have ⟨entries, items⟩ := read
    cases entries
    case nil => exact h.finish hi nofun _
    case cons blobId others =>
      have hcurrent := hread (blobId :: others) items rfl
      rw [PluginBlobStore.advanceList]
      split
      case h_1 hr =>
        apply hnext
        intro id hid
        apply (hcurrent id hid).imp_left
        intro hmem
        cases hmem
        case tail hmem => exact hmem
        case head =>
          have hs := (hpromised blobId hid).left
          rw [← isSome_readMeta, hr] at hs
          cases hs
      case h_2 blob hr =>
        have hgenuine := genuine_of_readMeta h hr
        have hsome : (Assoc.get s.sidecars blobId).isSome := by
          rw [← isSome_readMeta, hr]
          rfl
        have hlist : (s.replace i (.list promised (some (others, items ++ [blob])))).Inv sha256 := by
          apply hnext
          intro id hid
          rw [List.map_append, List.mem_append]
          cases hcurrent id hid
          case inr hmem => exact .inr <| .inl hmem
          case inl hmem =>
            cases hmem
            case tail hmem => exact .inl hmem
            case head => exact .inr <| .inr <| by simp [hgenuine.left]
        constructor
        case nodup    => exact hlist.nodup
        case sidecars => exact hlist.sidecars
        case bins     => exact hlist.bins
        case whole    => exact hlist.whole
        case placed   => exact hlist.placed
        case fits     => exact hlist.fits
        case stored   => exact hlist.stored
        case room     => exact hlist.room
        case seen     =>
          intro e he
          by_cases hd : s.isDeleting blobId
          case pos =>
            simp only [hd, if_true] at he
            exact hlist.seen e he
          case neg =>
            rw [Bool.not_eq_true] at hd
            simp only [hd, Bool.false_eq_true, if_false] at he
            cases List.mem_append.mp he
            case inl he => exact hlist.seen e he
            case inr he =>
              rw [List.mem_singleton.mp he]
              have ⟨_, bytes, hbytes, hsize⟩ := hgenuine
              refine ⟨⟨bytes, hbytes, hsize⟩, hsome, fun o ho overtaken hdel => ?_⟩
              cases List.mem_or_eq_of_mem_set ho
              case inr ho =>
                rw [ho] at hdel
                cases hdel
              case inl ho =>
                rw [isDeleting, List.any_eq_false] at hd
                exact hd o ho <| by simp [hdel]

theorem step_inv (e : Event Id) (h : s.Inv sha256) (hsafe : s.Undisturbed e) : (s.step sha256 e).Inv sha256 := by
  cases e
  case put bytes name contentType now =>
    rw [step]
    split
    case isTrue =>
      exact ⟨h.nodup, h.sidecars, h.bins, h.whole, h.placed, h.fits, h.stored, h.seen, h.room⟩
    case isFalse => exact h.start rfl rfl rfl ⟨⟨rfl, bytes, rfl, rfl⟩, rfl⟩
  case get blobId =>
    apply h.start rfl rfl rfl
    refine ⟨fun size hs => ?_, by simp⟩
    exact h.seen _ <| Assoc.mem_of_get hs
  case list => exact h.start rfl rfl rfl ⟨h.stored, by simp⟩
  case delete blobId => exact h.delete
  case crash => exact h.crash hsafe
  case advance i =>
    rw [step]
    split
    case h_1 hi => exact h.advancePut hi hsafe
    case h_2 hi => exact h.advanceGet hi
    case h_3 hi => exact h.advanceList hi
    case h_4 hi => exact h.advanceDelete hi hsafe
    case h_5    => exact h

end Storage.Blobs.PluginBlobStore

namespace Storage.Blobs.PluginBlobStore

variable {Id : Type} [LinearOrder Id] (sha256 : Bytes → Id) (s : PluginBlobStore Id)

-- A call returns what has been promised to it.
def Honest : Return Id → Prop
  | .get blobId (some size) result =>
    ∃ blob bytes, result = some (blob, bytes) ∧ bytes.length = size ∧ sha256 bytes = blobId
  | .list promised items           => ∀ id ∈ promised, id ∈ items.map (·.blobId)
  | _                              => True

section Returns

variable {sha256 s} {i : Nat} {id : Id} {e : Event Id}

theorem Inv.bytes_of_quiet (h : s.Inv sha256) (hinj : Function.Injective sha256) {size : Nat}
    (hsized : Sized sha256 id size) (hquiet : s.Quiet id) :
    ∃ bytes, Assoc.get s.bins id = some bytes ∧ bytes.length = size ∧ sha256 bytes = id := by
  have hsome : (Assoc.get s.bins id).isSome := by
    cases h.whole id hquiet.left
    case inl hb => exact hb
    case inr hop =>
      have ⟨o, ho, hhalf⟩ := hop
      cases o
      case delete blobId overtaken phase =>
        cases phase
        case removingMeta =>
          cases hhalf
          exact (hquiet.right _ ho overtaken rfl).elim
        all_goals cases hhalf
      all_goals cases hhalf
  have ⟨bytes, hbytes⟩ := Option.isSome_iff_exists.mp hsome
  have hhash := h.bins id bytes hbytes
  have ⟨bytes', hhash', hlength⟩ := hsized
  have heq : bytes = bytes' := hinj <| hhash.trans hhash'.symm
  exact ⟨bytes, hbytes, heq ▸ hlength, hhash⟩

theorem Inv.honest (h : s.Inv sha256) (hinj : Function.Injective sha256)
    (hreturns : ∀ r ∈ s.returns, Honest sha256 r) : ∀ r ∈ (s.step sha256 e).returns, Honest sha256 r := by
  have hnew {r : Return Id} (hr : Honest sha256 r) : ∀ r' ∈ s.returns ++ [r], Honest sha256 r' := by
    intro r' hr'
    cases List.mem_append.mp hr'
    case inl hr' => exact hreturns r' hr'
    case inr hr' => exact List.mem_singleton.mp hr' ▸ hr
  cases e
  case put bytes name contentType now =>
    rw [step]
    split
    case isTrue  => exact hnew trivial
    case isFalse => exact hreturns
  case get blobId    => exact hreturns
  case list          => exact hreturns
  case delete blobId => exact hreturns
  case crash         => exact hreturns
  case advance i =>
    rw [step]
    split
    case h_5 => exact hreturns
    case h_1 bytes blob phase hi =>
      cases phase
      case reading =>
        rw [PluginBlobStore.advancePut]
        split <;> exact hreturns
      case counting =>
        rw [PluginBlobStore.advancePut]
        split
        case isTrue  => exact hnew trivial
        case isFalse => exact hreturns
      case publishing => exact hnew trivial
      all_goals exact hreturns
    case h_4 blobId overtaken phase hi =>
      cases phase
      case removingMeta => exact hnew trivial
      all_goals exact hreturns
    case h_2 blobId promised found hi =>
      have hpromised := (h.fits _ <| List.mem_of_getElem? hi).left
      cases found
      case none =>
        rw [PluginBlobStore.advanceGet]
        split
        case h_2 => exact hreturns
        case h_1 hr =>
          apply hnew
          cases promised
          case none => trivial
          case some size =>
            have hs := (hpromised size rfl).right.left
            rw [← isSome_readMeta, hr] at hs
            cases hs
      case some blob =>
        apply hnew
        cases promised
        case none => trivial
        case some size =>
          obtain ⟨hsized, hquiet⟩ := hpromised size rfl
          obtain ⟨bytes, hget, hlength, hhash⟩ := h.bytes_of_quiet hinj hsized hquiet
          exact ⟨blob, bytes, by rw [hget]; rfl, hlength, hhash⟩
    case h_3 promised read hi =>
      have hread := (h.fits _ <| List.mem_of_getElem? hi).right
      cases read
      case none => exact hreturns
      case some read =>
        obtain ⟨entries, items⟩ := read
        cases entries
        case cons =>
          rw [PluginBlobStore.advanceList]
          split <;> exact hreturns
        case nil =>
          apply hnew
          intro id hid
          have hmem := (hread [] items rfl id hid).resolve_left List.not_mem_nil
          exact ((List.perm_insertionSort _ items).map _).mem_iff.mpr hmem

end Returns

-- What is listed can be read, what has been put is listed, and there are not too many blobs.
structure Consistent : Prop where
  returns  : ∀ r ∈ s.returns, Honest sha256 r
  readable : ∀ e ∈ s.seen, ∃ blob bytes, s.readMeta e.fst = some blob ∧ Assoc.get s.bins e.fst = some bytes ∧
    bytes.length = e.snd ∧ sha256 bytes = e.fst
  listed   : ∀ id ∈ s.stored, (s.readMeta id).isSome
  bounded  : s.sidecars.length ≤ maxBlobsPerPlugin

theorem Inv.consistent {s : PluginBlobStore Id} (h : s.Inv sha256) (hinj : Function.Injective sha256)
    (hreturns : ∀ r ∈ s.returns, Honest sha256 r) : s.Consistent sha256 := by
  constructor
  case returns  => exact hreturns
  case listed   =>
    intro id hid
    rw [isSome_readMeta]
    exact (h.stored id hid).left
  case readable =>
    intro e he
    have ⟨hsized, hquiet⟩ := h.seen e he
    have ⟨bytes, hget, hlength, hhash⟩ := h.bytes_of_quiet hinj hsized hquiet
    have hsome := hquiet.left
    rw [← isSome_readMeta] at hsome
    have ⟨blob, hblob⟩ := Option.isSome_iff_exists.mp hsome
    exact ⟨blob, bytes, hblob, hget, hlength, hhash⟩
  case bounded  =>
    calc s.sidecars.length
      _ = (s.sidecars.map (·.fst)).toFinset.card := by
        rw [List.toFinset_card_of_nodup h.nodup, List.length_map]
      _ ≤ s.taken.card := by
        apply Finset.card_le_card
        intro id hid
        rw [List.mem_toFinset] at hid
        exact mem_taken.mpr <| .inl <| Assoc.isSome_get_iff.mpr hid
      _ ≤ maxBlobsPerPlugin := h.room

theorem inv_empty : ({} : PluginBlobStore Id).Inv sha256 where
  nodup    := List.nodup_nil
  sidecars := nofun
  bins     := nofun
  whole    := nofun
  placed   := nofun
  fits     := nofun
  stored   := nofun
  seen     := nofun
  room     := Nat.zero_le _

theorem consistent_throughout (hinj : Function.Injective sha256) (es : List (Event Id))
    (h : Runs.Meets (step sha256) Undisturbed {} es) : Runs.Throughout (step sha256) (Consistent sha256) {} es := by
  have hinv : Runs.Throughout (step sha256)
      (fun s => s.Inv sha256 ∧ ∀ r ∈ s.returns, Honest sha256 r) {} es := by
    refine Runs.throughout_of_meets ?_ ?_ h
    · intro s e ⟨hs, hreturns⟩ hsafe
      exact ⟨step_inv e hs hsafe, hs.honest hinj hreturns⟩
    · exact ⟨inv_empty sha256, nofun⟩
  exact hinv.mono fun s ⟨hs, hreturns⟩ => hs.consistent sha256 hinj hreturns

-- A hash that is injective: the bytes as numbers.
def numbers : Bytes → List Nat :=
  List.map UInt8.toNat

theorem numbers_injective : Function.Injective numbers :=
  List.map_injective_iff.mpr fun _ _ => UInt8.toNat_inj.mp

theorem consistent_throughout_deleted : Runs.Throughout (step numbers) (Consistent numbers) {} [
    .put [1] [] [] 0, .advance 0, .advance 0, .advance 0, .advance 0, .advance 0, .advance 0, .advance 0,
    .list, .advance 1, .advance 1, .delete [1], .advance 2, .advance 2, .advance 2] := by
  have hplaced : ∀ op ∈ ([.done, .list [] (some ([], [blobMeta numbers [1] [] [] 0])),
      .delete [1] false (.removingData true)] : List (Op (List Nat))), op.placed ≠ some [1] := by
    decide
  apply consistent_throughout numbers numbers_injective
  exact ⟨trivial, trivial, trivial, fun _ => by decide +kernel, trivial, trivial, trivial, trivial, trivial, trivial,
    trivial, trivial, trivial, hplaced, rfl, trivial⟩

-- A crash within a deletion leaves a sidecar without data, which `list` returns and `get` does not find.
theorem inconsistent_after_crash : ¬ Runs.Throughout (step numbers) (Consistent numbers) {} [
    .put [1] [] [] 0, .advance 0, .advance 0, .advance 0, .advance 0, .advance 0, .advance 0, .advance 0,
    .delete [1], .advance 1, .advance 1, .crash, .list, .advance 0, .advance 0, .advance 0,
    .get [1], .advance 1, .advance 1] := by
  intro h
  have hget := h.last.returns (.get [1] (some 1) none) <| by decide +kernel
  have ⟨_, _, hresult, _⟩ := hget
  cases hresult

end Storage.Blobs.PluginBlobStore
