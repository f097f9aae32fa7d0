import Mathlib
import NeoTavern.Database.ReadGate
import NeoTavern.Lib.Assoc
import NeoTavern.Lib.Lists
import NeoTavern.Lib.Base64
import NeoTavern.ProviderSdk.MergeRefinement

-- The counting tokenizer: the table of ranks that it reads, and the pieces that it counts.
namespace ProviderSdk

open Database (trim trimStart isWhiteSpace)
open Sql (Text)

section Conversion

def byteToMappedChar (byte : UInt8) : Char :=
  let byte := byte.toNat
  if 33 ≤ byte ∧ byte ≤ 126 ∨ 161 ≤ byte ∧ byte ≤ 172 ∨ 174 ≤ byte ∧ byte ≤ 255 then
    .ofNat byte
  else if byte ≤ 32 then
    .ofNat (0x100 + byte)
  else if byte ≤ 160 then
    .ofNat (0x121 + (byte - 127))
  else
    .ofNat 0x143

-- The byte that is set last for a character.
def mappedToByte (ch : Char) : Option UInt8 :=
  ((List.range 256).reverse.map UInt8.ofNat).find? (byteToMappedChar · = ch)

inductive ConversionError
  | mergesNotArray
  | mergeNotString
  | notMapped (ch : Char)
  deriving DecidableEq

-- The texts of the errors. `stringify` is `JSON.stringify`.
def ConversionError.message (stringify : Char → String) : ConversionError → String
  | mergesNotArray => "tokenizer.json: model.merges must be an array"
  | mergeNotString => "tokenizer.json: model.merges entries must be strings"
  | notMapped ch   => "Not a byte-level tokenizer char: " ++ stringify ch

def mappedToBytes (mapped : Text) : Except ConversionError Bytes :=
  mapped.mapM fun ch =>
    match mappedToByte ch with
    | none      => .error <| .notMapped ch
    | some byte => .ok byte

-- What is read of `tokenizer.json`: the merges, if they are an array, and the contents of the added
-- tokens, each with `none` for what is not a string.
structure TokenizerJson where
  merges      : Option (List (Option Text))
  addedTokens : List (Option Text)

structure DeepSeekTokenizerData where
  ranksText   : Text
  addedTokens : List Text
  deriving DecidableEq

structure Conversion where
  lines   : List Text := []
  pending : List Text := []
  rank    : ℕ := 0

namespace Conversion

def flush (s : Conversion) : Conversion :=
  if s.pending.length = 0 then
    s
  else
    let line := Nat.toDigits 10 (s.rank - s.pending.length) ++ ' ' :: [' '].intercalate s.pending
    { s with lines := s.lines ++ [line], pending := [] }

def pair (merge : Text) : Except ConversionError Bytes := do
  let space := merge.idxOf ' '
  let left := if space = merge.length then merge else merge.take space
  let right := if space = merge.length then [] else merge.drop (space + 1)
  let leftBytes ← mappedToBytes left
  let rightBytes ← mappedToBytes right
  return leftBytes ++ rightBytes

def add (s : Conversion) (bytes : Bytes) : Conversion :=
  let s := { s with pending := s.pending ++ [PaddedBase64.encode bytes], rank := s.rank + 1 }
  if s.pending.length ≥ 64 then s.flush else s

def step (s : Conversion) : Option Text → Except ConversionError Conversion
  | none       => .error .mergeNotString
  | some merge => do
    let bytes ← pair merge
    return s.add bytes

end Conversion

def convertDeepSeekTokenizer (tokenizerJson : TokenizerJson) : Except ConversionError DeepSeekTokenizerData :=
  match tokenizerJson.merges with
  | none        => .error .mergesNotArray
  | some merges => do
    let s ← merges.foldlM Conversion.step {}
    return { ranksText := ['\n'].intercalate s.flush.lines, addedTokens := tokenizerJson.addedTokens.filterMap id }

end Conversion

section Table

-- `Number.parseInt(t, 10)`, with `none` for `NaN`.
def parseInt (t : Text) : Option ℤ :=
  let t := trimStart t
  let negative := t.head? = some '-'
  let digits := (if negative ∨ t.head? = some '+' then t.drop 1 else t).takeWhile Char.isDigit
  if digits = [] then
    none
  else
    let n : ℤ := Nat.ofDigitChars 10 digits 0
    some (if negative then -n else n)

def setRank (entry : Ranks × ℤ) (bytes : Bytes) : Ranks × ℤ :=
  (Function.update entry.fst bytes (some entry.snd), entry.snd + 1)

-- One line of the text of ranks. Without a space, `slice(0, -1)` leaves out the last character.
def readLine (ranks : Ranks) (line : Text) : Ranks :=
  if line.length = 0 then
    ranks
  else
    let space := line.idxOf ' '
    let base := parseInt <| if space = line.length then line.dropLast else line.take space
    let codes := (trim <| if space = line.length then line else line.drop (space + 1)).splitOn ' '
    let entry := codes.foldl
      (fun entry b64 => if b64.length = 0 then entry else setRank entry (PaddedBase64.decode b64)) (ranks, base.getD 0)
    entry.fst

-- The table that the constructor reads.
def readRanks (ranksText : Text) : Ranks :=
  (ranksText.splitOn '\n').foldl readLine fun _ => none

end Table

section Counting

-- The counts of words, the one that was used last at the end.
abbrev WordCache := List (Bytes × ℕ)

def wordCacheMax : ℕ :=
  10000

def wordCacheMaxLen : ℕ :=
  256

def countPiece (ranks : Ranks) (wordCache : WordCache) (bytes : Bytes) : Option (ℕ × WordCache) :=
  match Assoc.get wordCache bytes with
  | some cached => some (cached, Assoc.set (Assoc.delete wordCache bytes) bytes cached)
  | none        => do
    let count ← mergeWord ranks bytes
    if bytes.length ≤ wordCacheMaxLen then
      let wordCache := Assoc.set wordCache bytes count
      return (count, if wordCache.length > wordCacheMax then wordCache.drop 1 else wordCache)
    else
      return (count, wordCache)

-- The cache after some pieces, from the one of a new tokenizer.
def cacheAfter (ranks : Ranks) (pieces : List Bytes) : Option WordCache :=
  pieces.foldlM (fun wordCache bytes => (countPiece ranks wordCache bytes).map (·.snd)) []

end Counting

section Pieces

variable {ranks : Ranks} {wordCache : WordCache} {bytes : Bytes}

-- Each count in the cache is the one of its word.
def Sound (ranks : Ranks) (wordCache : WordCache) : Prop :=
  ∀ entry ∈ wordCache, entry.snd = PlainBpe.count ranks entry.fst

theorem sound_set {m : WordCache} (h : Sound ranks m) :
    Sound ranks (Assoc.set m bytes (PlainBpe.count ranks bytes)) := by
  intro entry hentry
  rw [Assoc.set] at hentry
  split at hentry
  case isTrue =>
    obtain ⟨e, he, rfl⟩ := List.mem_map.mp hentry
    split
    case isTrue  => rfl
    case isFalse => exact h e he
  case isFalse =>
    cases List.mem_append.mp hentry
    case inl he => exact h entry he
    case inr he => exact List.mem_singleton.mp he ▸ rfl

theorem sound_sublist {m m' : WordCache} (h : Sound ranks m) (hsub : m'.Sublist m) : Sound ranks m' :=
  fun entry hentry => h entry <| hsub.subset hentry

theorem countPiece_eq (h : Sound ranks wordCache) (bytes : Bytes) :
    ∃ wordCache', countPiece ranks wordCache bytes = some (PlainBpe.count ranks bytes, wordCache') ∧
      Sound ranks wordCache' := by
  rw [countPiece]
  cases hcached : Assoc.get wordCache bytes
  case some cached =>
    have hcount : cached = PlainBpe.count ranks bytes := h _ <| Assoc.mem_of_get hcached
    simp only [hcount]
    exact ⟨_, rfl, sound_set <| sound_sublist h List.filter_sublist⟩
  case none =>
    rw [mergeWord_eq]
    simp only [Option.bind_eq_bind, Option.bind_some]
    split
    case isFalse => exact ⟨_, rfl, h⟩
    case isTrue  =>
      refine ⟨_, rfl, ?_⟩
      split
      case isTrue  => exact sound_sublist (sound_set h) <| List.drop_sublist 1 _
      case isFalse => exact sound_set h

theorem cacheAfter_sound (ranks : Ranks) (pieces : List Bytes) :
    ∃ wordCache, cacheAfter ranks pieces = some wordCache ∧ Sound ranks wordCache := by
  have hrun (pieces : List Bytes) (wordCache : WordCache) (h : Sound ranks wordCache) :
      ∃ wordCache', pieces.foldlM (fun m bytes => (countPiece ranks m bytes).map (·.snd)) wordCache = some wordCache' ∧
        Sound ranks wordCache' := by
    induction pieces generalizing wordCache
    case nil                   => exact ⟨wordCache, rfl, h⟩
    case cons bytes pieces ih  =>
      have ⟨next, hcount, hnext⟩ := countPiece_eq h bytes
      have ⟨last, hlast, hsound⟩ := ih next hnext
      exact ⟨last, by simpa [hcount] using hlast, hsound⟩
  exact hrun pieces [] nofun

end Pieces

section Lines

variable {text : Text} {codes : List Text} {ranks : Ranks} {words : List Bytes}

theorem trim_eq_self (hhead : ∀ c ∈ text.head?, isWhiteSpace c = false) (hlast : ∀ c ∈ text.getLast?, isWhiteSpace c = false) :
    trim text = text := by
  have hdrop (t : Text) (h : ∀ c ∈ t.head?, isWhiteSpace c = false) : t.dropWhile isWhiteSpace = t := by
    cases t
    case nil      => rfl
    case cons c t =>
      have hc : isWhiteSpace c = false := h c rfl
      rw [List.dropWhile_cons_of_neg (by simp [hc])]
  rw [trim, trimStart, hdrop text hhead, Database.trimEnd, hdrop, List.reverse_reverse]
  rwa [List.head?_reverse]

-- A code: neither empty nor with a blank in it.
def IsCode (code : Text) : Prop :=
  code ≠ [] ∧ ∀ c ∈ code, isWhiteSpace c = false

theorem isCode_encode {bytes : Bytes} (h : bytes ≠ []) : IsCode (PaddedBase64.encode bytes) := by
  have hsymbols := List.all_eq_true.mp (show ('=' :: PaddedBase64.alphabet).all (!isWhiteSpace ·) by decide)
  exact ⟨PaddedBase64.encode_ne_nil h, fun c hc => by simpa using hsymbols c <| PaddedBase64.mem_of_mem_encode hc⟩

theorem trim_intercalate (hne : codes ≠ []) (hcodes : ∀ code ∈ codes, IsCode code) :
    trim ([' '].intercalate codes) = [' '].intercalate codes := by
  apply trim_eq_self
  · cases codes
    case nil            => exact absurd rfl hne
    case cons code rest =>
      have ⟨hcode, hblank⟩ := hcodes code List.mem_cons_self
      have hhead : ([' '].intercalate (code :: rest)).head? = code.head? := by
        cases rest
        case nil    => simp
        case cons   =>
          rw [List.intercalate_cons_cons, List.append_assoc, List.head?_append_of_ne_nil _ hcode]
      rw [hhead]
      exact fun c hc => hblank c <| List.mem_of_mem_head? hc
  · cases codes using List.reverseRecOn
    case nil                              => exact absurd rfl hne
    case append_singleton front code _ =>
      have ⟨hcode, hblank⟩ := hcodes code <| by simp
      have hlast : ([' '].intercalate (front ++ [code])).getLast? = code.getLast? := by
        by_cases hfront : front = []
        case pos => simp [hfront]
        case neg => rw [Lists.intercalate_concat hfront, List.getLast?_append_of_ne_nil _ hcode]
      rw [hlast]
      exact fun c hc => hblank c <| List.mem_of_mem_getLast? hc

theorem splitOn_intercalate_codes (hne : codes ≠ []) (hcodes : ∀ code ∈ codes, IsCode code) :
    ([' '].intercalate codes).splitOn ' ' = codes := by
  apply List.splitOn_intercalate ' ' _ hne
  intro code hcode hmem
  cases (hcodes code hcode).right ' ' hmem

theorem digit_cases {c : Char} (h : c.isDigit = true) : isWhiteSpace c = false ∧ c ≠ '-' ∧ c ≠ '+' := by
  have hlow : 48 ≤ c.toNat ∧ c.toNat ≤ 57 := by
    simpa [Char.isDigit, UInt32.le_iff_toNat_le] using h
  refine ⟨?_, ?_, ?_⟩
  · simp only [isWhiteSpace, Bool.or_eq_false_iff, Bool.and_eq_false_iff, decide_eq_false_iff_not]
    omega
  · rintro rfl
    exact absurd hlow <| by decide
  · rintro rfl
    exact absurd hlow <| by decide

theorem parseInt_toDigits (n : ℕ) : parseInt (Nat.toDigits 10 n) = some (n : ℤ) := by
  have hdigit : ∀ c ∈ Nat.toDigits 10 n, c.isDigit = true := fun c hc =>
    Nat.isDigit_of_mem_toDigits (by decide) (by decide) hc
  have hnumber : Nat.ofDigitChars 10 (Nat.toDigits 10 n) 0 = n := Nat.ofDigitChars_ten_toDigits
  have hne : Nat.toDigits 10 n ≠ [] := Nat.toDigits_ne_nil
  generalize Nat.toDigits 10 n = digits at hdigit hnumber hne
  cases digits
  case nil              => exact absurd rfl hne
  case cons c digits =>
    have ⟨hblank, hminus, hplus⟩ := digit_cases <| hdigit c List.mem_cons_self
    have htake : (c :: digits).takeWhile Char.isDigit = c :: digits := List.takeWhile_eq_self_iff.mpr hdigit
    rw [parseInt, trimStart, List.dropWhile_cons_of_neg (by simp [hblank])]
    simp [hminus, hplus, htake, hnumber]

-- Ranks in a row, from a first one on.
def setRanks (entry : Ranks × ℤ) (words : List Bytes) : Ranks × ℤ :=
  words.foldl setRank entry

theorem readLine_flush (hne : words ≠ []) (hwords : ∀ word ∈ words, word ≠ []) (n : ℕ) :
    readLine ranks (Nat.toDigits 10 n ++ ' ' :: [' '].intercalate (words.map PaddedBase64.encode)) =
      (setRanks (ranks, n) words).fst := by
  have hdigits : ' ' ∉ Nat.toDigits 10 n := by
    intro h
    have hdigit : ' '.isDigit = true := Nat.isDigit_of_mem_toDigits (by decide) (by decide) h
    cases hdigit
  have hcodes : ∀ code ∈ words.map PaddedBase64.encode, IsCode code := by
    intro code hcode
    obtain ⟨word, hword, rfl⟩ := List.mem_map.mp hcode
    exact isCode_encode <| hwords word hword
  have hne' : words.map PaddedBase64.encode ≠ [] := by simpa using hne
  have hidx : (Nat.toDigits 10 n ++ ' ' :: [' '].intercalate (words.map PaddedBase64.encode)).idxOf ' ' =
      (Nat.toDigits 10 n).length := by
    rw [List.idxOf_append, if_neg hdigits, List.idxOf_cons_self, Nat.zero_add]
  have hfold (words : List Bytes) (hwords : ∀ word ∈ words, word ≠ []) (entry : Ranks × ℤ) :
      (words.map PaddedBase64.encode).foldl
        (fun entry b64 => if b64.length = 0 then entry else setRank entry (PaddedBase64.decode b64)) entry =
        setRanks entry words := by
    induction words generalizing entry
    case nil                => rfl
    case cons word words ih =>
      have hword := PaddedBase64.encode_ne_nil <| hwords word List.mem_cons_self
      have hlength : (PaddedBase64.encode word).length ≠ 0 := by simpa using hword
      rw [List.map_cons, List.foldl_cons, if_neg hlength, PaddedBase64.decode_encode,
        ih fun w hw => hwords w <| List.mem_cons_of_mem _ hw]
      rfl
  have hdrop : (Nat.toDigits 10 n ++ ' ' :: [' '].intercalate (words.map PaddedBase64.encode)).drop
      ((Nat.toDigits 10 n).length + 1) = [' '].intercalate (words.map PaddedBase64.encode) := by
    rw [List.drop_append, List.drop_of_length_le (by omega)]
    simp
  have hlength : (Nat.toDigits 10 n).length ≠
      (Nat.toDigits 10 n ++ ' ' :: [' '].intercalate (words.map PaddedBase64.encode)).length := by simp
  rw [readLine, if_neg (by simp)]
  simp only [hidx, if_neg hlength, List.take_left, hdrop, trim_intercalate hne' hcodes,
    splitOn_intercalate_codes hne' hcodes, parseInt_toDigits, Option.getD_some, hfold words hwords]

theorem setRanks_append {entry : Ranks × ℤ} {words' : List Bytes} :
    setRanks entry (words ++ words') = setRanks (setRanks entry words) words' :=
  List.foldl_append

theorem setRanks_snd (entry : Ranks × ℤ) (words : List Bytes) : (setRanks entry words).snd = entry.snd + words.length := by
  induction words generalizing entry
  case nil                => simp [setRanks]
  case cons word words ih =>
    have hrest := ih (setRank entry word)
    rw [setRanks, List.foldl_cons]
    rw [setRanks] at hrest
    rw [hrest, setRank, List.length_cons]
    omega

-- The table of a list of words.
def ranksOf (words : List Bytes) : Ranks :=
  (setRanks (fun _ => none, 0) words).fst

theorem setRanks_eq (words : List Bytes) : setRanks (fun _ => none, 0) words = (ranksOf words, (words.length : ℤ)) := by
  have hsnd := setRanks_snd (fun _ => none, 0) words
  rw [ranksOf]
  ext1
  · rfl
  · simpa using hsnd

-- A word has the index of its last occurrence.
theorem ranksOf_eq_some_iff {word : Bytes} {rank : ℤ} : ranksOf words word = some rank ↔
    ∃ n : ℕ, rank = n ∧ words[n]? = some word ∧ ∀ m > n, words[m]? ≠ some word := by
  induction words using List.reverseRecOn
  case nil                            => simp [ranksOf, setRanks]
  case append_singleton words last ih =>
    have hlast : ranksOf (words ++ [last]) = Function.update (ranksOf words) last (some (words.length : ℤ)) := by
      rw [ranksOf, setRanks_append, setRanks_eq]
      rfl
    rw [hlast, Function.update_apply]
    split
    case isTrue h =>
      subst h
      constructor
      · rintro h
        cases h
        refine ⟨words.length, rfl, by simp, fun m hm => ?_⟩
        rw [List.getElem?_eq_none (by simp; omega)]
        exact nofun
      · rintro ⟨n, rfl, hn, hno⟩
        have hle : ¬words.length > n := fun hgt => hno words.length hgt <| by simp
        have ⟨hlt, _⟩ := List.getElem?_eq_some_iff.mp hn
        rw [List.length_append, List.length_singleton] at hlt
        have heq : n = words.length := by omega
        rw [heq]
    case isFalse h =>
      rw [ih]
      have hget (n : ℕ) : (words ++ [last])[n]? = some word ↔ words[n]? = some word := by
        rcases Nat.lt_trichotomy n words.length with hlt | rfl | hgt
        · rw [List.getElem?_append_left hlt]
        · have hne : last ≠ word := fun he => h he.symm
          simp [hne]
        · rw [List.getElem?_eq_none (by simp; omega), List.getElem?_eq_none (by omega)]
      simp only [hget, ne_eq]

end Lines

section Converted

variable {s : Conversion} {words : List Bytes} {word : Bytes}

-- The words that have been converted: those in the lines, and those that wait for their line.
structure Converted (s : Conversion) (words done rest : List Bytes) : Prop where
  split   : words = done ++ rest
  rank    : s.rank = words.length
  pending : s.pending = rest.map PaddedBase64.encode
  lines   : s.lines.foldl readLine (fun _ => none) = ranksOf done
  breaks  : ∀ line ∈ s.lines, '\n' ∉ line

theorem not_mem_line (hwords : ∀ word ∈ words, word ≠ []) (n : ℕ) :
    '\n' ∉ Nat.toDigits 10 n ++ ' ' :: [' '].intercalate (words.map PaddedBase64.encode) := by
  have hdigits : '\n' ∉ Nat.toDigits 10 n := by
    intro h
    have hdigit : '\n'.isDigit = true := Nat.isDigit_of_mem_toDigits (by decide) (by decide) h
    cases hdigit
  have hcodes : ∀ code ∈ words.map PaddedBase64.encode, '\n' ∉ code := by
    intro code hcode hmem
    obtain ⟨word, hword, rfl⟩ := List.mem_map.mp hcode
    cases (isCode_encode <| hwords word hword).right _ hmem
  have hjoined : '\n' ∉ [' '].intercalate (words.map PaddedBase64.encode) := by
    intro h
    obtain h | ⟨code, hcode, h⟩ := Lists.mem_intercalate h
    · cases h
    · exact hcodes code hcode h
  simp [hdigits, hjoined]

theorem Converted.flush {done rest : List Bytes} (h : Converted s words done rest) (hwords : ∀ word ∈ words, word ≠ []) :
    Converted s.flush words words [] := by
  have hdone := h.split
  rw [Conversion.flush, h.pending, List.length_map]
  split
  case isTrue hnone =>
    have hrest : rest = [] := List.length_eq_zero_iff.mp hnone
    subst hrest
    rw [List.append_nil] at hdone
    exact ⟨(List.append_nil _).symm, h.rank, h.pending, hdone ▸ h.lines, h.breaks⟩
  case isFalse hsome =>
    have hrest : rest ≠ [] := fun he => hsome <| by rw [he, List.length_nil]
    have hwords' : ∀ word ∈ rest, word ≠ [] := fun word hword =>
      hwords word <| hdone ▸ List.mem_append_right _ hword
    have hlength : s.rank - rest.length = done.length := by
      rw [h.rank, hdone, List.length_append, Nat.add_sub_cancel]
    refine ⟨(List.append_nil _).symm, h.rank, rfl, ?_, ?_⟩
    · have hline := @readLine_flush (ranksOf done) rest hrest hwords' done.length
      simp only [hlength, List.foldl_append, List.foldl_cons, List.foldl_nil, h.lines]
      rw [hline, ← setRanks_eq, ← setRanks_append, ← hdone, ranksOf]
    · intro line hline
      cases List.mem_append.mp hline
      case inl hline => exact h.breaks line hline
      case inr hline => exact List.mem_singleton.mp hline ▸ not_mem_line hwords' _

theorem Converted.add {done rest : List Bytes} (h : Converted s words done rest) (hwords : ∀ w ∈ words ++ [word], w ≠ []) :
    ∃ done rest, Converted (s.add word) (words ++ [word]) done rest := by
  have hnext : Converted { s with pending := s.pending ++ [PaddedBase64.encode word], rank := s.rank + 1 }
      (words ++ [word]) done (rest ++ [word]) := by
    refine ⟨?_, ?_, ?_, h.lines, h.breaks⟩
    · rw [h.split, List.append_assoc]
    · simp [h.rank]
    · simp [h.pending]
  rw [Conversion.add]
  simp only
  split
  case isTrue  => exact ⟨_, _, hnext.flush hwords⟩
  case isFalse => exact ⟨_, _, hnext⟩

theorem converted_foldl (hwords : ∀ w ∈ words, w ≠ []) :
    ∃ done rest, Converted (words.foldl Conversion.add {}) words done rest := by
  induction words using List.reverseRecOn
  case nil                            => exact ⟨[], [], rfl, rfl, rfl, rfl, nofun⟩
  case append_singleton words last ih =>
    have ⟨done, rest, h⟩ := ih fun w hw => hwords w <| List.mem_append_left _ hw
    rw [List.foldl_append]
    exact h.add hwords

-- What is written is read again.
theorem readRanks_converted (hwords : ∀ w ∈ words, w ≠ []) :
    readRanks (['\n'].intercalate (words.foldl Conversion.add {}).flush.lines) = ranksOf words := by
  have ⟨done, rest, h⟩ := converted_foldl hwords
  have hflush := h.flush hwords
  rw [readRanks, ← hflush.lines]
  by_cases hnone : (words.foldl Conversion.add {}).flush.lines = []
  case pos => rw [hnone]; rfl
  case neg => rw [List.splitOn_intercalate '\n' hflush.breaks hnone]

end Converted

section Tokenizer

variable {merges : List (Bytes × Bytes)} {addedTokens : List (Option Text)}

-- A pair as it stands in the list of merges.
def mergeText (merge : Bytes × Bytes) : Text :=
  merge.fst.map byteToMappedChar ++ ' ' :: merge.snd.map byteToMappedChar

-- The byte of a character, by its code point.
def unmapped (code : ℕ) : ℕ :=
  if code < 0x100 then code else if code < 0x121 then code - 0x100 else if code < 0x143 then code - 0x121 + 127 else 173

theorem unmapped_byteToMappedChar (byte : UInt8) : unmapped (byteToMappedChar byte).toNat = byte.toNat := by
  have hall : ∀ n < 256, unmapped (byteToMappedChar (UInt8.ofNat n)).toNat = n := by decide +kernel
  have hbyte := hall byte.toNat byte.toNat_lt
  rwa [UInt8.ofNat_toNat] at hbyte

theorem byteToMappedChar_injective : Function.Injective byteToMappedChar := by
  intro a b h
  have hcode := congrArg (fun ch => unmapped ch.toNat) h
  simp only [unmapped_byteToMappedChar] at hcode
  exact UInt8.toNat_inj.mp hcode

theorem mappedToByte_byteToMappedChar (byte : UInt8) : mappedToByte (byteToMappedChar byte) = some byte := by
  have hmem : byte ∈ (List.range 256).reverse.map UInt8.ofNat :=
    List.mem_map.mpr ⟨byte.toNat, List.mem_reverse.mpr <| List.mem_range.mpr byte.toNat_lt, UInt8.ofNat_toNat⟩
  cases hfind : mappedToByte (byteToMappedChar byte)
  case none       =>
    have hnone := List.find?_eq_none.mp hfind byte hmem
    simp at hnone
  case some found =>
    have heq : byteToMappedChar found = byteToMappedChar byte := by simpa using List.find?_some hfind
    rw [byteToMappedChar_injective heq]

theorem byteToMappedChar_ne_space (byte : UInt8) : byteToMappedChar byte ≠ ' ' := by
  have hall : ∀ n < 256, byteToMappedChar (UInt8.ofNat n) ≠ ' ' := by decide +kernel
  have hbyte := hall byte.toNat byte.toNat_lt
  rwa [UInt8.ofNat_toNat] at hbyte

theorem mappedToBytes_map (bytes : Bytes) : mappedToBytes (bytes.map byteToMappedChar) = .ok bytes := by
  rw [mappedToBytes]
  induction bytes
  case nil                => rfl
  case cons byte bytes ih =>
    rw [List.map_cons, List.mapM_cons, mappedToByte_byteToMappedChar, ih]
    rfl

theorem pair_mergeText (merge : Bytes × Bytes) : Conversion.pair (mergeText merge) = .ok (merge.fst ++ merge.snd) := by
  have hspace : ' ' ∉ merge.fst.map byteToMappedChar := by
    intro h
    have ⟨byte, _, he⟩ := List.mem_map.mp h
    exact byteToMappedChar_ne_space byte he
  have hidx : (mergeText merge).idxOf ' ' = (merge.fst.map byteToMappedChar).length := by
    rw [mergeText, List.idxOf_append, if_neg hspace, List.idxOf_cons_self, Nat.zero_add]
  have hlength : (merge.fst.map byteToMappedChar).length ≠ (mergeText merge).length := by simp [mergeText]
  have hright : (mergeText merge).drop ((merge.fst.map byteToMappedChar).length + 1) =
      merge.snd.map byteToMappedChar := by
    rw [mergeText, List.drop_append, List.drop_of_length_le (by omega)]
    simp
  have hleft : (mergeText merge).take (merge.fst.map byteToMappedChar).length = merge.fst.map byteToMappedChar :=
    List.take_left
  simp only [Conversion.pair, hidx, if_neg hlength, hleft, hright, mappedToBytes_map]
  rfl

theorem foldlM_step (merges : List (Bytes × Bytes)) (s : Conversion) :
    (merges.map fun merge => some (mergeText merge)).foldlM Conversion.step s =
      .ok ((merges.map fun merge => merge.fst ++ merge.snd).foldl Conversion.add s) := by
  induction merges generalizing s
  case nil                  => rfl
  case cons merge merges ih =>
    have hstep : Conversion.step s (some (mergeText merge)) = .ok (s.add (merge.fst ++ merge.snd)) := by
      rw [Conversion.step, pair_mergeText]
      rfl
    rw [List.map_cons, List.foldlM_cons, hstep]
    exact ih _

-- Whatever pieces have been counted before, the count of a piece is the one of the plain procedure; and
-- the table of a list of merges has the index of the last merge for each of its concatenations.
theorem counts_plain_bpe :
    (∀ ranks pieces bytes, ∃ wordCache wordCache', cacheAfter ranks pieces = some wordCache ∧
      countPiece ranks wordCache bytes = some (PlainBpe.count ranks bytes, wordCache')) ∧
    (∀ (merges : List (Bytes × Bytes)) addedTokens, (∀ merge ∈ merges, merge.fst ++ merge.snd ≠ []) →
      ∃ data, convertDeepSeekTokenizer ⟨some <| merges.map fun merge => some (mergeText merge), addedTokens⟩ = .ok data ∧
        ∀ word rank, readRanks data.ranksText word = some rank ↔
          ∃ n : ℕ, rank = n ∧ (merges.map fun merge => merge.fst ++ merge.snd)[n]? = some word ∧
            ∀ m > n, (merges.map fun merge => merge.fst ++ merge.snd)[m]? ≠ some word) := by
  constructor
  case left =>
    intro ranks pieces bytes
    have ⟨wordCache, hcache, hsound⟩ := cacheAfter_sound ranks pieces
    have ⟨wordCache', hcount, _⟩ := countPiece_eq hsound bytes
    exact ⟨wordCache, wordCache', hcache, hcount⟩
  case right =>
    intro merges addedTokens hmerges
    have hwords : ∀ word ∈ merges.map (fun merge => merge.fst ++ merge.snd), word ≠ [] := by
      intro word hword
      obtain ⟨merge, hmerge, rfl⟩ := List.mem_map.mp hword
      exact hmerges merge hmerge
    refine ⟨_, by rw [convertDeepSeekTokenizer]; simp only [foldlM_step]; rfl, fun word rank => ?_⟩
    rw [readRanks_converted hwords, ranksOf_eq_some_iff]

theorem counts_plain_bpe_twice : ∃ data,
    convertDeepSeekTokenizer ⟨some <| [([97], [98]), ([97, 98], []), ([], [99])].map fun merge => some (mergeText merge), []⟩ =
      .ok data ∧ readRanks data.ranksText [97, 98] = some 1 := by
  have ⟨data, hdata, hranks⟩ := counts_plain_bpe.right [([97], [98]), ([97, 98], []), ([], [99])] [] (by decide)
  refine ⟨data, hdata, (hranks _ _).mpr ⟨1, rfl, rfl, fun m hm => ?_⟩⟩
  match m with
  | 2     => decide
  | m + 3 => exact nofun

end Tokenizer

end ProviderSdk
