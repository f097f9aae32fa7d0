import Mathlib
import NeoTavern.Lib.Assoc
import NeoTavern.Lib.CodeUnits
import NeoTavern.Lib.Runs

namespace Storage.Blobs

abbrev Bytes := List UInt8

def maxBlobBytes : Nat :=
  8 * 1024 * 1024

def maxBlobsPerPlugin : Nat :=
  64

structure BlobMeta (Id : Type) where
  blobId      : Id
  hash        : Id
  size        : Nat
  name        : CodeUnits
  contentType : CodeUnits
  createdAt   : Int
  deriving DecidableEq

-- What a call does next: it makes the directory, reads the sidecar, counts the sidecars, writes the data
-- beside the file and renames it, and does the same with the sidecar.
inductive PutPhase
  | opening
  | reading
  | counting
  | writing
  | moving
  | describing
  | publishing
  deriving DecidableEq

-- `found` is what the call returns.
inductive DeletePhase
  | reading
  | removingData (found : Bool)
  | removingMeta (found : Bool)
  deriving DecidableEq

-- The calls that run. For the history, `get` and `list` know what has been promised to them: the size of
-- the blob in a list before, and the blobs that have been put before, as long as no deletion starts. A
-- deletion knows whether a sidecar has been put in place since it started.
inductive Op (Id : Type)
  | put (bytes : Bytes) (blob : BlobMeta Id) (phase : PutPhase)
  | get (blobId : Id) (promised : Option Nat) (found : Option (BlobMeta Id))
  | list (promised : List Id) (read : Option (List Id × List (BlobMeta Id)))
  | delete (blobId : Id) (overtaken : Bool) (phase : DeletePhase)
  | done
  deriving DecidableEq

inductive Rejection
  | fileTooLarge (sizeBytes limitBytes : Nat)
  | blobLimitReached (limit : Nat)
  deriving DecidableEq

inductive Return (Id : Type)
  | put (blob : BlobMeta Id)
  | rejected (reason : Rejection)
  | get (blobId : Id) (promised : Option Nat) (result : Option (BlobMeta Id × Bytes))
  | list (promised : List Id) (items : List (BlobMeta Id))
  | delete (found : Bool)
  deriving DecidableEq

-- The directory of a plugin and the calls for it. Temporary files have names that nothing reads. `stored`
-- and `seen` are the blobs that have been put and those that a list has read, with their sizes, where no
-- deletion has started since.
structure PluginBlobStore (Id : Type) where
  bins     : List (Id × Bytes) := []
  sidecars : List (Id × BlobMeta Id) := []
  ops      : List (Op Id) := []
  returns  : List (Return Id) := []
  stored   : List Id := []
  seen     : List (Id × Nat) := []
  deriving DecidableEq

-- `advance` is the next file-system step of a call.
inductive Event (Id : Type)
  | put (bytes : Bytes) (name contentType : CodeUnits) (now : Int)
  | get (blobId : Id)
  | list
  | delete (blobId : Id)
  | advance (op : Nat)
  | crash
  deriving DecidableEq

variable {Id : Type} [LinearOrder Id] (sha256 : Bytes → Id)

namespace Op

-- The blob that is being deleted, and whether it has been put in place again.
def deletes : Op Id → Option (Id × Bool)
  | delete blobId overtaken _ => some (blobId, overtaken)
  | _                         => none

-- The blob whose data a deletion has removed, and not its sidecar.
def halfway : Op Id → Option Id
  | delete blobId _ (.removingMeta _) => some blobId
  | _                                 => none

-- The blob whose data have been put in place, and not its sidecar.
def placed : Op Id → Option Id
  | put _ blob .describing => some blob.blobId
  | put _ blob .publishing => some blob.blobId
  | _                      => none

-- The blob that has been let in.
def admitted : Op Id → Option Id
  | put _ blob .writing    => some blob.blobId
  | put _ blob .moving   => some blob.blobId
  | put _ blob .describing => some blob.blobId
  | put _ blob .publishing => some blob.blobId
  | _                      => none

def overtake (blobId : Id) : Op Id → Op Id
  | delete id overtaken phase => delete id (overtaken || id = blobId) phase
  | op                        => op

def forget (blobId : Id) : Op Id → Op Id
  | get id promised found => get id (if id = blobId then none else promised) found
  | list promised read    => list (promised.filter (· ≠ blobId)) read
  | op                    => op

end Op

namespace PluginBlobStore

variable (s : PluginBlobStore Id)

def readMeta (blobId : Id) : Option (BlobMeta Id) :=
  (Assoc.get s.sidecars blobId).map fun blob => { blob with hash := blob.blobId }

def replace (i : Nat) (op : Op Id) : PluginBlobStore Id :=
  { s with ops := s.ops.set i op }

def finish (i : Nat) (r : Return Id) : PluginBlobStore Id :=
  { s with ops := s.ops.set i .done, returns := s.returns ++ [r] }

def advancePut (i : Nat) (bytes : Bytes) (blob : BlobMeta Id) : PutPhase → PluginBlobStore Id
  | .opening    => s.replace i (.put bytes blob .reading)
  | .reading    =>
    if (s.readMeta blob.blobId).isSome then
      s.replace i (.put bytes blob .writing)
    else
      s.replace i (.put bytes blob .counting)
  | .counting   =>
    if maxBlobsPerPlugin ≤ s.sidecars.length then
      s.finish i (.rejected <| .blobLimitReached maxBlobsPerPlugin)
    else
      s.replace i (.put bytes blob .writing)
  | .writing    => s.replace i (.put bytes blob .moving)
  | .moving   => { s.replace i (.put bytes blob .describing) with bins := Assoc.set s.bins blob.blobId bytes }
  | .describing => s.replace i (.put bytes blob .publishing)
  | .publishing => {
      s.finish i (.put blob) with
      ops      := (s.ops.set i .done).map (Op.overtake blob.blobId)
      sidecars := Assoc.set s.sidecars blob.blobId blob
      stored   := s.stored ++ [blob.blobId]
    }

def advanceGet (i : Nat) (blobId : Id) (promised : Option Nat) :
    (found : Option (BlobMeta Id)) → PluginBlobStore Id
  | none      =>
    match s.readMeta blobId with
    | none      => s.finish i (.get blobId promised none)
    | some blob => s.replace i (.get blobId promised (some blob))
  | some blob => s.finish i (.get blobId promised ((Assoc.get s.bins blobId).map (blob, ·)))

-- Newest first.
def sorted (items : List (BlobMeta Id)) : List (BlobMeta Id) :=
  items.insertionSort fun a b => b.createdAt < a.createdAt ∨ a.createdAt = b.createdAt ∧ a.blobId ≤ b.blobId

def isDeleting (blobId : Id) : Bool :=
  s.ops.any fun op => op.deletes.any (·.fst = blobId)

def advanceList (i : Nat) (promised : List Id) :
    (read : Option (List Id × List (BlobMeta Id))) → PluginBlobStore Id
  | none                           => s.replace i (.list promised (some (s.sidecars.map (·.fst), [])))
  | some ([], items)               => s.finish i (.list promised (sorted items))
  | some (blobId :: others, items) =>
    match s.readMeta blobId with
    | none      => s.replace i (.list promised (some (others, items)))
    | some blob => {
        s.replace i (.list promised (some (others, items ++ [blob]))) with
        seen := if s.isDeleting blobId then s.seen else s.seen ++ [(blobId, blob.size)]
      }

def advanceDelete (i : Nat) (blobId : Id) (overtaken : Bool) : DeletePhase → PluginBlobStore Id
  | .reading            => s.replace i (.delete blobId overtaken (.removingData (s.readMeta blobId).isSome))
  | .removingData found => {
      s.replace i (.delete blobId overtaken (.removingMeta found)) with bins := Assoc.delete s.bins blobId
    }
  | .removingMeta found => { s.finish i (.delete found) with sidecars := Assoc.delete s.sidecars blobId }

def blobMeta (bytes : Bytes) (name contentType : CodeUnits) (now : Int) : BlobMeta Id where
  blobId      := sha256 bytes
  hash        := sha256 bytes
  size        := bytes.length
  name        := if 0 < name.length then name.take 255 else CodeUnits.ofString "blob"
  contentType :=
    if 0 < contentType.length then contentType.take 255 else CodeUnits.ofString "application/octet-stream"
  createdAt   := now

def start (op : Op Id) : PluginBlobStore Id :=
  { s with ops := s.ops ++ [op] }

def step (s : PluginBlobStore Id) : Event Id → PluginBlobStore Id
  | .put bytes name contentType now =>
    if maxBlobBytes < bytes.length then
      { s with returns := s.returns ++ [.rejected <| .fileTooLarge bytes.length maxBlobBytes] }
    else
      s.start (.put bytes (blobMeta sha256 bytes name contentType now) .opening)
  | .get blobId    => s.start (.get blobId (Assoc.get s.seen blobId) none)
  | .list          => s.start (.list s.stored none)
  | .delete blobId => {
      s with
      ops    := s.ops.map (Op.forget blobId) ++ [.delete blobId false .reading]
      stored := s.stored.filter (· ≠ blobId)
      seen   := s.seen.filter (·.fst ≠ blobId)
    }
  | .advance i     =>
    match s.ops[i]? with
    | some (.put bytes blob phase)          => s.advancePut i bytes blob phase
    | some (.get blobId promised found)     => s.advanceGet i blobId promised found
    | some (.list promised read)            => s.advanceList i promised read
    | some (.delete blobId overtaken phase) => s.advanceDelete i blobId overtaken phase
    | _                                     => s
  | .crash         => { s with ops := [] }

-- The blobs that there are, and those that have been let in.
def taken : Finset Id :=
  (s.sidecars.map (·.fst) ++ s.ops.filterMap Op.admitted).toFinset

-- Calls do not get in each other's way, and a crash leaves no deletion half done.
def Undisturbed (s : PluginBlobStore Id) : Event Id → Prop
  | .advance i =>
    match s.ops[i]? with
    -- Whatever has been let in leaves room for one more,
    | some (.put _ blob .counting)                 =>
      s.sidecars.length < maxBlobsPerPlugin → (insert blob.blobId s.taken).card ≤ maxBlobsPerPlugin
    -- data are not removed while they wait for their sidecar,
    | some (.delete blobId _ (.removingData _))    => ∀ op ∈ s.ops, op.placed ≠ some blobId
    -- nor is a sidecar that has been put in place since the deletion started.
    | some (.delete _ overtaken (.removingMeta _)) => overtaken = false
    | _                                            => True
  | .crash     =>
    ∀ op ∈ s.ops, ∀ blobId, op.halfway = some blobId → (s.readMeta blobId).isSome → (Assoc.get s.bins blobId).isSome
  | _          => True

end PluginBlobStore
end Storage.Blobs

namespace Storage.Blobs.PluginBlobStore

variable {Id : Type} [LinearOrder Id] (sha256 : Bytes → Id) (s : PluginBlobStore Id)

-- What a sidecar says of its blob.
def Genuine (blobId : Id) (blob : BlobMeta Id) : Prop :=
  blob.blobId = blobId ∧ ∃ bytes, sha256 bytes = blobId ∧ bytes.length = blob.size

def Sized (blobId : Id) (size : Nat) : Prop :=
  ∃ bytes, sha256 bytes = blobId ∧ bytes.length = size

-- There is a sidecar, and it stays unless a deletion starts.
def Kept (blobId : Id) : Prop :=
  (Assoc.get s.sidecars blobId).isSome ∧ ∀ op ∈ s.ops, op.deletes ≠ some (blobId, false)

-- There is a sidecar, and no deletion runs.
def Quiet (blobId : Id) : Prop :=
  (Assoc.get s.sidecars blobId).isSome ∧ ∀ op ∈ s.ops, ∀ overtaken, op.deletes ≠ some (blobId, overtaken)

def Fits : Op Id → Prop
  | .put bytes blob _          => Genuine sha256 blob.blobId blob ∧ sha256 bytes = blob.blobId
  | .get blobId promised found =>
    (∀ size, promised = some size → Sized sha256 blobId size ∧ s.Quiet blobId) ∧
    ∀ blob, found = some blob → Genuine sha256 blobId blob
  | .list promised read        =>
    (∀ id ∈ promised, s.Kept id) ∧
    ∀ entries items, read = some (entries, items) → ∀ id ∈ promised, id ∈ entries ∨ id ∈ items.map (·.blobId)
  | _                          => True

structure Inv : Prop where
  nodup    : (s.sidecars.map (·.fst)).Nodup
  sidecars : ∀ id blob, Assoc.get s.sidecars id = some blob → Genuine sha256 id blob
  bins     : ∀ id bytes, Assoc.get s.bins id = some bytes → sha256 bytes = id
  whole    : ∀ id, (Assoc.get s.sidecars id).isSome →
    (Assoc.get s.bins id).isSome ∨ ∃ op ∈ s.ops, op.halfway = some id
  placed   : ∀ op ∈ s.ops, ∀ id, op.placed = some id → (Assoc.get s.bins id).isSome
  fits     : ∀ op ∈ s.ops, s.Fits sha256 op
  stored   : ∀ id ∈ s.stored, s.Kept id
  seen     : ∀ e ∈ s.seen, Sized sha256 e.fst e.snd ∧ s.Quiet e.fst
  room     : s.taken.card ≤ maxBlobsPerPlugin

section Steps

variable {sha256 s} {t : PluginBlobStore Id} {i : Nat} {op op' : Op Id} {id : Id} {blob : BlobMeta Id} {bytes : Bytes}

theorem mem_taken : id ∈ s.taken ↔ (Assoc.get s.sidecars id).isSome ∨ ∃ op ∈ s.ops, op.admitted = some id := by
  rw [taken, List.mem_toFinset, List.mem_append, List.mem_filterMap, Assoc.isSome_get_iff]

theorem room_of_subset (h : s.taken.card ≤ maxBlobsPerPlugin) (hsub : ∀ id, id ∈ t.taken → id ∈ s.taken) :
    t.taken.card ≤ maxBlobsPerPlugin :=
  (Finset.card_le_card hsub).trans h

theorem Fits.mono (hkept : ∀ id, s.Kept id → t.Kept id) (hquiet : ∀ id, s.Quiet id → t.Quiet id)
    (h : s.Fits sha256 op) : t.Fits sha256 op := by
  cases op
  case put    => exact h
  case get    => exact ⟨fun size hs => (h.left size hs).imp_right <| hquiet _, h.right⟩
  case list   => exact ⟨fun id hid => hkept id <| h.left id hid, h.right⟩
  case delete => trivial
  case done   => trivial

-- A call goes on, and the files stay as they are.
theorem Inv.replace (h : s.Inv sha256) (hi : s.ops[i]? = some op)
    (hdeletes : ∀ d, op'.deletes = some d → op.deletes = some d)
    (hhalfway : ∀ id, op.halfway = some id → (Assoc.get s.sidecars id).isSome → op'.halfway = some id)
    (hplaced : ∀ id, op'.placed = some id → (Assoc.get s.bins id).isSome) (hfits : s.Fits sha256 op')
    (hroom : (s.replace i op').taken.card ≤ maxBlobsPerPlugin) : (s.replace i op').Inv sha256 := by
  have hop : op ∈ s.ops := List.mem_of_getElem? hi
  have hold {o : Op Id} (ho : o ∈ (s.replace i op').ops) : o ∈ s.ops ∨ o = op' := List.mem_or_eq_of_mem_set ho
  have hkept (id : Id) (hk : s.Kept id) : (s.replace i op').Kept id := by
    refine ⟨hk.left, fun o ho hd => ?_⟩
    cases hold ho
    case inl ho => exact hk.right o ho hd
    case inr ho => exact hk.right op hop <| hdeletes _ <| ho ▸ hd
  have hquiet (id : Id) (hq : s.Quiet id) : (s.replace i op').Quiet id := by
    refine ⟨hq.left, fun o ho overtaken hd => ?_⟩
    cases hold ho
    case inl ho => exact hq.right o ho overtaken hd
    case inr ho => exact hq.right op hop overtaken <| hdeletes _ <| ho ▸ hd
  constructor
  case nodup    => exact h.nodup
  case sidecars => exact h.sidecars
  case bins     => exact h.bins
  case stored   => exact fun id hid => hkept id <| h.stored id hid
  case seen     => exact fun e he => (h.seen e he).imp_right <| hquiet _
  case room     => exact hroom
  case whole    =>
    intro id hid
    apply (h.whole id hid).imp_right
    intro ⟨o, ho, hhalf⟩
    have ⟨j, hj⟩ := List.getElem?_of_mem ho
    by_cases hij : i = j
    case pos =>
      rw [← hij, hi] at hj
      cases hj
      have hlt : i < s.ops.length := (List.getElem?_eq_some_iff.mp hi).choose
      exact ⟨op', List.mem_set hlt op', hhalfway id hhalf hid⟩
    case neg =>
      refine ⟨o, List.mem_of_getElem? (i := j) ?_, hhalf⟩
      rw [PluginBlobStore.replace, List.getElem?_set_ne hij, hj]
  case placed   =>
    intro o ho id hid
    cases hold ho
    case inl ho => exact h.placed o ho id hid
    case inr ho => exact hplaced id <| ho ▸ hid
  case fits     =>
    intro o ho
    cases hold ho
    case inl ho => exact (h.fits o ho).mono hkept hquiet
    case inr ho =>
      rw [ho]
      exact hfits.mono hkept hquiet

theorem taken_replace (h : id ∈ (s.replace i op').taken) : id ∈ s.taken ∨ op'.admitted = some id := by
  rw [mem_taken] at h
  cases h
  case inl hid => exact .inl <| mem_taken.mpr <| .inl hid
  case inr hid =>
    have ⟨o, ho, ha⟩ := hid
    cases List.mem_or_eq_of_mem_set ho
    case inl ho => exact .inl <| mem_taken.mpr <| .inr ⟨o, ho, ha⟩
    case inr ho => exact .inr <| ho ▸ ha

theorem room_replace (h : s.taken.card ≤ maxBlobsPerPlugin)
    (hadmitted : ∀ id, op'.admitted = some id → id ∈ s.taken) : (s.replace i op').taken.card ≤ maxBlobsPerPlugin := by
  apply room_of_subset h
  intro id hid
  cases taken_replace hid
  case inl hid => exact hid
  case inr hid => exact hadmitted id hid

theorem Inv.bins_set (h : s.Inv sha256) (hbytes : sha256 bytes = id) :
    { s with bins := Assoc.set s.bins id bytes }.Inv sha256 := by
  have hsome (l : Id) (hl : (Assoc.get s.bins l).isSome) : (Assoc.get (Assoc.set s.bins id bytes) l).isSome := by
    by_cases hlid : l = id
    case pos => rw [hlid, Assoc.get_set_self]; rfl
    case neg => rwa [Assoc.get_set_of_ne hlid]
  constructor
  case nodup    => exact h.nodup
  case sidecars => exact h.sidecars
  case fits     => exact h.fits
  case stored   => exact h.stored
  case seen     => exact h.seen
  case room     => exact h.room
  case whole    => exact fun l hl => (h.whole l hl).imp_left <| hsome l
  case placed   => exact fun o ho l hl => hsome l <| h.placed o ho l hl
  case bins     =>
    intro l b hb
    by_cases hlid : l = id
    case pos =>
      rw [hlid, Assoc.get_set_self] at hb
      cases hb
      rw [hlid, hbytes]
    case neg =>
      rw [Assoc.get_set_of_ne hlid] at hb
      exact h.bins l b hb

theorem Inv.bins_delete (h : s.Inv sha256) (hplaced : ∀ op ∈ s.ops, op.placed ≠ some id)
    (hhalfway : ∃ op ∈ s.ops, op.halfway = some id) :
    { s with bins := Assoc.delete s.bins id }.Inv sha256 := by
  constructor
  case nodup    => exact h.nodup
  case sidecars => exact h.sidecars
  case fits     => exact h.fits
  case stored   => exact h.stored
  case seen     => exact h.seen
  case room     => exact h.room
  case whole    =>
    intro l hl
    by_cases hlid : l = id
    case pos => exact .inr <| hlid ▸ hhalfway
    case neg =>
      apply (h.whole l hl).imp_left
      intro hb
      rwa [Assoc.get_delete_of_ne hlid]
  case placed   =>
    intro o ho l hl
    have hlid : l ≠ id := fun heq => hplaced o ho <| heq ▸ hl
    rw [Assoc.get_delete_of_ne hlid]
    exact h.placed o ho l hl
  case bins     =>
    intro l b hb
    by_cases hlid : l = id
    case pos => simp [hlid, Assoc.get_delete_self] at hb
    case neg =>
      rw [Assoc.get_delete_of_ne hlid] at hb
      exact h.bins l b hb

theorem Inv.sidecars_set (h : s.Inv sha256) (hblob : Genuine sha256 id blob)
    (hbin : (Assoc.get s.bins id).isSome) (htaken : id ∈ s.taken) :
    { s with sidecars := Assoc.set s.sidecars id blob }.Inv sha256 := by
  have hsome (l : Id) :
      (Assoc.get (Assoc.set s.sidecars id blob) l).isSome ↔ l = id ∨ (Assoc.get s.sidecars l).isSome := by
    by_cases hlid : l = id
    case pos => simp [hlid, Assoc.get_set_self]
    case neg => simp [hlid, Assoc.get_set_of_ne hlid]
  have hkept (l : Id) (hk : s.Kept l) : { s with sidecars := Assoc.set s.sidecars id blob }.Kept l :=
    ⟨(hsome l).mpr <| .inr hk.left, hk.right⟩
  have hquiet (l : Id) (hq : s.Quiet l) : { s with sidecars := Assoc.set s.sidecars id blob }.Quiet l :=
    ⟨(hsome l).mpr <| .inr hq.left, hq.right⟩
  constructor
  case nodup    => exact Assoc.nodup_set h.nodup
  case bins     => exact h.bins
  case placed   => exact h.placed
  case fits     => exact fun o ho => (h.fits o ho).mono hkept hquiet
  case stored   => exact fun l hl => hkept l <| h.stored l hl
  case seen     => exact fun e he => (h.seen e he).imp_right <| hquiet _
  case room     =>
    apply room_of_subset h.room
    intro l hl
    rw [mem_taken] at hl
    cases hl
    case inr hl => exact mem_taken.mpr <| .inr hl
    case inl hl =>
      cases (hsome l).mp hl
      case inl hl => exact hl ▸ htaken
      case inr hl => exact mem_taken.mpr <| .inl hl
  case whole    =>
    intro l hl
    cases (hsome l).mp hl
    case inl hl => exact .inl <| hl ▸ hbin
    case inr hl => exact h.whole l hl
  case sidecars =>
    intro l b hb
    by_cases hlid : l = id
    case pos =>
      rw [hlid, Assoc.get_set_self] at hb
      cases hb
      rwa [hlid]
    case neg =>
      rw [Assoc.get_set_of_ne hlid] at hb
      exact h.sidecars l b hb

-- A deletion that has not been overtaken may remove the sidecar: nobody counts on it.
theorem Inv.sidecars_delete (h : s.Inv sha256) (hop : op ∈ s.ops) (hdeletes : op.deletes = some (id, false)) :
    { s with sidecars := Assoc.delete s.sidecars id }.Inv sha256 := by
  have hsome (l : Id) : (Assoc.get (Assoc.delete s.sidecars id) l).isSome → (Assoc.get s.sidecars l).isSome := by
    by_cases hlid : l = id
    case pos => simp [hlid, Assoc.get_delete_self]
    case neg => simp [Assoc.get_delete_of_ne hlid]
  have hkept (l : Id) (hk : s.Kept l) : { s with sidecars := Assoc.delete s.sidecars id }.Kept l := by
    have hlid : l ≠ id := fun heq => hk.right op hop <| heq ▸ hdeletes
    refine ⟨?_, hk.right⟩
    rw [Assoc.get_delete_of_ne hlid]
    exact hk.left
  have hquiet (l : Id) (hq : s.Quiet l) : { s with sidecars := Assoc.delete s.sidecars id }.Quiet l := by
    have hlid : l ≠ id := fun heq => hq.right op hop false <| heq ▸ hdeletes
    refine ⟨?_, hq.right⟩
    rw [Assoc.get_delete_of_ne hlid]
    exact hq.left
  constructor
  case nodup    => exact Assoc.nodup_delete h.nodup
  case bins     => exact h.bins
  case placed   => exact h.placed
  case fits     => exact fun o ho => (h.fits o ho).mono hkept hquiet
  case stored   => exact fun l hl => hkept l <| h.stored l hl
  case seen     => exact fun e he => (h.seen e he).imp_right <| hquiet _
  case whole    => exact fun l hl => h.whole l <| hsome l hl
  case room     =>
    apply room_of_subset h.room
    intro l hl
    exact mem_taken.mpr <| (mem_taken.mp hl).imp_left <| hsome l
  case sidecars =>
    intro l b hb
    by_cases hlid : l = id
    case pos => simp [hlid, Assoc.get_delete_self] at hb
    case neg =>
      rw [Assoc.get_delete_of_ne hlid] at hb
      exact h.sidecars l b hb

theorem Inv.start (h : s.Inv sha256) (hdeletes : op.deletes = none) (hplaced : op.placed = none)
    (hadmitted : op.admitted = none) (hfits : s.Fits sha256 op) : (s.start op).Inv sha256 := by
  have hold {o : Op Id} (ho : o ∈ (s.start op).ops) : o ∈ s.ops ∨ o = op := by
    simpa [PluginBlobStore.start] using ho
  have hkept (id : Id) (hk : s.Kept id) : (s.start op).Kept id := by
    refine ⟨hk.left, fun o ho hd => ?_⟩
    cases hold ho
    case inl ho => exact hk.right o ho hd
    case inr ho => simp [ho, hdeletes] at hd
  have hquiet (id : Id) (hq : s.Quiet id) : (s.start op).Quiet id := by
    refine ⟨hq.left, fun o ho overtaken hd => ?_⟩
    cases hold ho
    case inl ho => exact hq.right o ho overtaken hd
    case inr ho => simp [ho, hdeletes] at hd
  constructor
  case nodup    => exact h.nodup
  case sidecars => exact h.sidecars
  case bins     => exact h.bins
  case stored   => exact fun id hid => hkept id <| h.stored id hid
  case seen     => exact fun e he => (h.seen e he).imp_right <| hquiet _
  case whole    =>
    intro id hid
    apply (h.whole id hid).imp_right
    intro ⟨o, ho, hhalf⟩
    exact ⟨o, List.mem_append_left _ ho, hhalf⟩
  case placed   =>
    intro o ho id hid
    cases hold ho
    case inl ho => exact h.placed o ho id hid
    case inr ho => simp [ho, hplaced] at hid
  case fits     =>
    intro o ho
    cases hold ho
    case inl ho => exact (h.fits o ho).mono hkept hquiet
    case inr ho =>
      rw [ho]
      exact hfits.mono hkept hquiet
  case room     =>
    apply room_of_subset h.room
    intro id hid
    apply mem_taken.mpr
    apply (mem_taken.mp hid).imp_right
    intro ⟨o, ho, ha⟩
    cases hold ho
    case inl ho => exact ⟨o, ho, ha⟩
    case inr ho => simp [ho, hadmitted] at ha

-- Calls are told of a change that leaves alone what they have done.
theorem Inv.map {f : Op Id → Op Id} (h : s.Inv sha256)
    (hdeletes : ∀ op id overtaken, (f op).deletes = some (id, overtaken) →
      ∃ before, op.deletes = some (id, before) ∧ (overtaken = false → before = false))
    (hhalfway : ∀ op, (f op).halfway = op.halfway) (hplaced : ∀ op, (f op).placed = op.placed)
    (hadmitted : ∀ op, (f op).admitted = op.admitted) (hfits : ∀ op, s.Fits sha256 op → s.Fits sha256 (f op)) :
    { s with ops := s.ops.map f }.Inv sha256 := by
  have hkept (id : Id) (hk : s.Kept id) : { s with ops := s.ops.map f }.Kept id := by
    refine ⟨hk.left, fun o ho hd => ?_⟩
    have ⟨o', ho', heq⟩ := List.mem_map.mp ho
    have ⟨before, hb, hfalse⟩ := hdeletes o' id false <| heq ▸ hd
    rw [hfalse rfl] at hb
    exact hk.right o' ho' hb
  have hquiet (id : Id) (hq : s.Quiet id) : { s with ops := s.ops.map f }.Quiet id := by
    refine ⟨hq.left, fun o ho overtaken hd => ?_⟩
    have ⟨o', ho', heq⟩ := List.mem_map.mp ho
    have ⟨before, hb, _⟩ := hdeletes o' id overtaken <| heq ▸ hd
    exact hq.right o' ho' before hb
  constructor
  case nodup    => exact h.nodup
  case sidecars => exact h.sidecars
  case bins     => exact h.bins
  case stored   => exact fun id hid => hkept id <| h.stored id hid
  case seen     => exact fun e he => (h.seen e he).imp_right <| hquiet _
  case whole    =>
    intro id hid
    apply (h.whole id hid).imp_right
    intro ⟨o, ho, hhalf⟩
    exact ⟨f o, List.mem_map_of_mem ho, by rw [hhalfway, hhalf]⟩
  case placed   =>
    intro o ho id hid
    have ⟨o', ho', heq⟩ := List.mem_map.mp ho
    rw [← heq, hplaced] at hid
    exact h.placed o' ho' id hid
  case fits     =>
    intro o ho
    have ⟨o', ho', heq⟩ := List.mem_map.mp ho
    rw [← heq]
    exact (hfits o' <| h.fits o' ho').mono hkept hquiet
  case room     =>
    apply room_of_subset h.room
    intro id hid
    apply mem_taken.mpr
    apply (mem_taken.mp hid).imp_right
    intro ⟨o, ho, ha⟩
    have ⟨o', ho', heq⟩ := List.mem_map.mp ho
    rw [← heq, hadmitted] at ha
    exact ⟨o', ho', ha⟩

theorem Inv.overtake (h : s.Inv sha256) (id : Id) : { s with ops := s.ops.map (Op.overtake id) }.Inv sha256 := by
  apply h.map
  case hdeletes =>
    intro op l overtaken hd
    cases op
    case delete blobId before phase =>
      simp only [Op.overtake, Op.deletes, Option.some.injEq, Prod.mk.injEq] at hd
      refine ⟨before, by rw [Op.deletes, hd.left], ?_⟩
      intro hfalse
      rw [hfalse, Bool.or_eq_false_iff] at hd
      exact hd.right.left
    all_goals cases hd
  case hhalfway =>
    intro op
    cases op
    case delete _ _ phase => cases phase <;> rfl
    all_goals rfl
  case hplaced   => intro op; cases op <;> rfl
  case hadmitted => intro op; cases op <;> rfl
  case hfits     =>
    intro op hop
    cases op
    case delete => trivial
    all_goals exact hop

theorem Inv.forget (h : s.Inv sha256) (id : Id) : { s with ops := s.ops.map (Op.forget id) }.Inv sha256 := by
  apply h.map
  case hdeletes =>
    intro op l overtaken hd
    cases op
    case delete => exact ⟨overtaken, hd, fun h => h⟩
    all_goals cases hd
  case hhalfway  => intro op; cases op <;> rfl
  case hplaced   => intro op; cases op <;> rfl
  case hadmitted => intro op; cases op <;> rfl
  case hfits     =>
    intro op hop
    cases op
    case get blobId promised found =>
      refine ⟨fun size hs => ?_, hop.right⟩
      by_cases hid : blobId = id
      case pos => simp [hid] at hs
      case neg =>
        rw [if_neg hid] at hs
        exact hop.left size hs
    case list promised read =>
      refine ⟨fun l hl => hop.left l (List.mem_filter.mp hl).left, fun entries items hr l hl => ?_⟩
      exact hop.right entries items hr l (List.mem_filter.mp hl).left
    all_goals exact hop

-- After a deletion has started, nothing is promised about its blob.
theorem Inv.delete (h : s.Inv sha256) : (s.step sha256 (.delete id)).Inv sha256 := by
  have hforget := h.forget id
  have hpromises {op : Op Id} (hop : op ∈ s.ops.map (Op.forget id)) :
      (∀ blobId size found, op = .get blobId (some size) found → blobId ≠ id) ∧
      ∀ promised read, op = .list promised read → id ∉ promised := by
    obtain ⟨o, _, ho⟩ := List.mem_map.mp hop
    rw [← ho]
    cases o
    case get blobId promised found =>
      constructor
      case right => rintro _ _ ⟨⟩
      case left =>
        intro blobId' size found' heq hid
        simp only [Op.forget, Op.get.injEq] at heq
        rw [heq.left, if_pos hid] at heq
        cases heq.right.left
    case list promised read =>
      constructor
      case left => rintro _ _ _ ⟨⟩
      case right =>
        intro promised' read' heq
        simp only [Op.forget, Op.list.injEq] at heq
        simp [← heq.left]
    all_goals exact ⟨by rintro _ _ _ ⟨⟩, by rintro _ _ ⟨⟩⟩
  have hold {op : Op Id} (hop : op ∈ (s.step sha256 (.delete id)).ops) :
      op ∈ s.ops.map (Op.forget id) ∨ op = .delete id false .reading := by
    simpa only [step, List.mem_append, List.mem_singleton] using hop
  have hkept {l : Id} (hl : l ≠ id) (hk : { s with ops := s.ops.map (Op.forget id) }.Kept l) :
      (s.step sha256 (.delete id)).Kept l := by
    refine ⟨hk.left, fun o ho hd => ?_⟩
    cases hold ho
    case inl ho => exact hk.right o ho hd
    case inr ho =>
      rw [ho, Op.deletes] at hd
      cases hd
      exact hl rfl
  have hquiet {l : Id} (hl : l ≠ id) (hq : { s with ops := s.ops.map (Op.forget id) }.Quiet l) :
      (s.step sha256 (.delete id)).Quiet l := by
    refine ⟨hq.left, fun o ho overtaken hd => ?_⟩
    cases hold ho
    case inl ho => exact hq.right o ho overtaken hd
    case inr ho =>
      rw [ho, Op.deletes] at hd
      cases hd
      exact hl rfl
  constructor
  case nodup    => exact h.nodup
  case sidecars => exact h.sidecars
  case bins     => exact h.bins
  case whole    =>
    intro l hl
    apply (hforget.whole l hl).imp_right
    rintro ⟨o, ho, hhalf⟩
    exact ⟨o, List.mem_append_left _ ho, hhalf⟩
  case placed   =>
    intro o ho l hl
    cases hold ho
    case inl ho => exact hforget.placed o ho l hl
    case inr ho =>
      rw [ho] at hl
      cases hl
  case fits     =>
    intro o hmem
    cases hold hmem
    case inr ho =>
      rw [ho]
      trivial
    case inl ho =>
      clear hmem
      have hfits := hforget.fits o ho
      obtain ⟨hget, hlist⟩ := hpromises ho
      cases o
      case put    => exact hfits
      case delete => trivial
      case done   => trivial
      case get blobId promised found =>
        refine ⟨fun size hs => (hfits.left size hs).imp_right ?_, hfits.right⟩
        exact hquiet <| hget blobId size found <| by rw [hs]
      case list promised read =>
        refine ⟨fun l hl => hkept ?_ <| hfits.left l hl, hfits.right⟩
        exact fun heq => hlist promised read rfl <| heq ▸ hl
  case stored   =>
    intro l hl
    obtain ⟨hmem, hne⟩ := List.mem_filter.mp hl
    exact hkept (by simpa using hne) <| hforget.stored l hmem
  case seen     =>
    intro e he
    obtain ⟨hmem, hne⟩ := List.mem_filter.mp he
    exact (hforget.seen e hmem).imp_right <| hquiet <| by simpa using hne
  case room     =>
    apply room_of_subset hforget.room
    intro l hl
    apply mem_taken.mpr
    apply (mem_taken.mp hl).imp_right
    rintro ⟨o, ho, ha⟩
    cases hold ho
    case inl ho => exact ⟨o, ho, ha⟩
    case inr ho =>
      rw [ho] at ha
      cases ha

theorem Inv.crash (h : s.Inv sha256) (hsafe : s.Undisturbed .crash) : (s.step sha256 .crash).Inv sha256 := by
  constructor
  case nodup    => exact h.nodup
  case sidecars => exact h.sidecars
  case bins     => exact h.bins
  case placed   => rintro _ ⟨⟩
  case fits     => rintro _ ⟨⟩
  case stored   => exact fun id hid => ⟨(h.stored id hid).left, by rintro _ ⟨⟩⟩
  case seen     => exact fun e he => ⟨(h.seen e he).left, (h.seen e he).right.left, by rintro _ ⟨⟩⟩
  case whole    =>
    intro id hid
    cases h.whole id hid
    case inl hb => exact .inl hb
    case inr hop =>
      obtain ⟨o, ho, hhalf⟩ := hop
      have hsome : (Assoc.get s.sidecars id).isSome := hid
      exact .inl <| hsafe o ho id hhalf <| by simpa [readMeta] using hsome
  case room     =>
    apply room_of_subset h.room
    intro id hid
    apply mem_taken.mpr
    cases mem_taken.mp hid
    case inl hid => exact .inl hid
    case inr hid =>
      obtain ⟨o, ho, _⟩ := hid
      cases ho

end Steps

end Storage.Blobs.PluginBlobStore
