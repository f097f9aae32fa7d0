import NeoTavern.Lib.CodeUnits

-- The formatter of console records: it walks the arguments with one budget of bytes for all of them.
namespace ConsoleFormat

section Text

def isHighSurrogate (u : UInt16) : Bool :=
  0xd800 ≤ u && u ≤ 0xdbff

def isLowSurrogate (u : UInt16) : Bool :=
  0xdc00 ≤ u && u ≤ 0xdfff

-- The bytes of a unit that is no part of a pair. Half a pair is encoded as U+FFFD.
def unitBytes (u : UInt16) : ℕ :=
  if u < 0x80 then 1 else if u < 0x800 then 2 else 3

def utf8Length : CodeUnits → ℕ
  | []          => 0
  | [u]         => unitBytes u
  | u :: v :: t =>
    if isHighSurrogate u && isLowSurrogate v then 4 + utf8Length t else unitBytes u + utf8Length (v :: t)

abbrev text (s : String) : CodeUnits :=
  .ofString s

def mark : CodeUnits :=
  [0x2026]

-- How many units there are before `bytes` would exceed the limit.
def cutAt (maxBytes : ℕ) : ℕ → CodeUnits → ℕ
  | _, []         => 0
  | bytes, u :: t =>
    let bytes := bytes + utf8Length [u]
    if bytes + 3 > maxBytes then 0 else cutAt maxBytes bytes t + 1

def truncateString (value : CodeUnits) (maxBytes : ℕ) : CodeUnits :=
  if utf8Length value ≤ maxBytes then value else value.take (cutAt maxBytes 0 value) ++ mark

end Text

structure Limits where
  maxDepth       : ℕ
  maxKeys        : ℕ
  maxItems       : ℕ
  maxStringBytes : ℕ
  maxRecordBytes : ℕ
  maxStackFrames : ℕ
  maxVisits      : ℕ

-- The limits of the worker.
def consoleLimits : Limits where
  maxDepth       := 4
  maxKeys        := 16
  maxItems       := 32
  maxStringBytes := 512
  maxRecordBytes := 4000
  maxStackFrames := 32
  maxVisits      := 4096

section Values

variable (Ref : Type)

-- Of a number, a Boolean or a bigint, what `String` makes of it.
inductive Value
  | null
  | string (value : CodeUnits)
  | primitive (text : CodeUnits)
  | undefined
  | symbol
  | function
  | object (ref : Ref)

-- A data property, or an accessor with what its getter gives (`none` where it throws).
inductive Descriptor
  | data (value : Value Ref)
  | getter (captured : Option (Value Ref))

-- What the reads on an object give, `none` where they throw. The length is `none` inside where it is
-- no natural number. `isArray` throws for a proxy that its own traps have revoked by then.
structure Shape where
  toStringTag : Option CodeUnits
  toISOString : Option CodeUnits
  byteLength  : Option CodeUnits
  isView      : Bool
  isArray     : Option Bool
  length      : Option (Option ℕ)
  item        : ℕ → Option (Value Ref)
  keys        : Option (List CodeUnits)
  descriptor  : CodeUnits → Option (Option (Descriptor Ref))
  prototype   : Option (Option Ref)

end Values

variable {Ref : Type}

section Identity

def Descriptor.string : Descriptor Ref → Option CodeUnits
  | data (.string t)          => some t
  | getter (some (.string t)) => some t
  | _                         => none

structure ErrorIdentity where
  name    : CodeUnits
  message : CodeUnits
  stack   : Option CodeUnits

structure Found where
  name    : Option CodeUnits := none
  message : Option CodeUnits := none

-- One object of the prototype chain. What is found first stays.
def Found.read (shape : Shape Ref) (found : Found) : Found :=
  match shape.descriptor (text "name") with
  | none          => found
  | some nameDesc =>
    let name := nameDesc.bind fun desc => desc.string.filter (·.length > 0)
    let found := { found with name := found.name.or name }
    match shape.descriptor (text "message") with
    | none             => found
    | some messageDesc => { found with message := found.message.or <| messageDesc.bind Descriptor.string }

def Found.walk (heap : Ref → Shape Ref) : ℕ → Option Ref → Found → Found
  | 0, _, found                  => found
  | _, none, found               => found
  | levels + 1, some ref, found =>
    let found := found.read (heap ref)
    match (heap ref).prototype with
    | none         => found
    | some current => walk heap levels current found

def stackOf (shape : Shape Ref) : Option CodeUnits :=
  match shape.descriptor (text "stack") with
  | some (some (.data (.string stack)))          => some stack
  | some (some (.getter (some (.string stack)))) => if stack.length > 0 then some stack else none
  | _                                            => none

def errorIdentity (heap : Ref → Shape Ref) (ref : Ref) : ErrorIdentity :=
  let found := Found.walk heap 4 (some ref) {}
  {
    name    := found.name.getD (text "Error")
    message := found.message.getD []
    stack   := stackOf (heap ref)
  }

end Identity

structure Ctx where
  parts   : List CodeUnits := []
  bytes   : ℕ := 0
  visits  : ℕ := 0
  omitted : Bool := false

-- A part of a record. After one that does not fit nothing is added.
def Ctx.push (limits : Limits) (part : CodeUnits) (ctx : Ctx) : Ctx :=
  if ctx.omitted || part.length = 0 then
    ctx
  else
    let cost := utf8Length part
    if ctx.bytes + cost > limits.maxRecordBytes then
      { ctx with omitted := true }
    else
      { ctx with parts := ctx.parts ++ [part], bytes := ctx.bytes + cost }

-- `numberText` is `String` of a whole number.
structure Environment (Ref : Type) where
  heap       : Ref → Shape Ref
  numberText : ℕ → CodeUnits

section Parts

variable (limits : Limits) (env : Environment Ref)

def errorPart (ref : Ref) : CodeUnits :=
  let identity := errorIdentity env.heap ref
  truncateString identity.name limits.maxStringBytes ++ text ": " ++
    truncateString identity.message limits.maxStringBytes

def stackPart (stack : CodeUnits) : CodeUnits :=
  text "\n" ++ (text "\n").intercalate ((stack.splitOn 0x0a).take (1 + limits.maxStackFrames))

def datePart (shape : Shape Ref) : CodeUnits :=
  match shape.toISOString with
  | none     => text "[Date]"
  | some iso => text "Date(" ++ truncateString iso limits.maxStringBytes ++ text ")"

def bufferPart (shape : Shape Ref) : CodeUnits :=
  match shape.byteLength with
  | none            => text "[ArrayBuffer]"
  | some byteLength => text "ArrayBuffer(" ++ byteLength ++ text ")"

-- `tag.slice(8, -1)`
def tagName (tag : CodeUnits) : CodeUnits :=
  (tag.drop 8).dropLast

def viewPart (tag : CodeUnits) (shape : Shape Ref) : CodeUnits :=
  match shape.byteLength with
  | none            => text "[TypedArray]"
  | some byteLength => tagName tag ++ text "(" ++ byteLength ++ text ")"

def arrayPart (length : ℕ) : CodeUnits :=
  text "Array(" ++ env.numberText length ++ text ")["

def morePart (count : ℕ) : CodeUnits :=
  text "…+" ++ env.numberText count

def keyPart (key : CodeUnits) : CodeUnits :=
  truncateString key limits.maxStringBytes ++ text ": "

end Parts

section Code

variable (limits : Limits) (env : Environment Ref)

-- What comes one after the other with a separator between.
def formatItems (separator : CodeUnits) : Bool → List (Ctx → Option Ctx) → Ctx → Option Ctx
  | _, [], ctx              => some ctx
  | first, run :: runs, ctx => do
    let ctx := if first then ctx else ctx.push limits separator
    let ctx ← run ctx
    formatItems separator false runs ctx

def formatErrorLike (ref : Ref) (ctx : Ctx) : Ctx :=
  let ctx := ctx.push limits (errorPart limits env ref)
  match (errorIdentity env.heap ref).stack with
  | none       => ctx
  | some stack => ctx.push limits (stackPart limits stack)

def formatItem (format : Value Ref → Ctx → Option Ctx) : Option (Value Ref) → Ctx → Option Ctx
  | none, ctx      => some <| ctx.push limits (text "[Unreadable]")
  | some item, ctx => format item ctx

def formatArray (format : Value Ref → Ctx → Option Ctx) (shape : Shape Ref) (ctx : Ctx) : Option Ctx :=
  match shape.length with
  | none        => some <| ctx.push limits (text "[Array]")
  | some length => do
    let length := length.getD 0
    let shown := min length limits.maxItems
    let ctx := ctx.push limits (arrayPart env length)
    let ctx ← formatItems limits (text ", ") true
      ((List.range shown).map fun i => formatItem limits format (shape.item i)) ctx
    let ctx := if length > shown then ctx.push limits (morePart env (length - shown)) else ctx
    return ctx.push limits (text "]")

def formatProperty (format : Value Ref → Ctx → Option Ctx) (shape : Shape Ref) (key : CodeUnits) (ctx : Ctx) :
    Option Ctx :=
  let ctx := ctx.push limits (keyPart limits key)
  match shape.descriptor key with
  | some (some (.data value)) => format value ctx
  | some (some (.getter _))   => some <| ctx.push limits (text "[Getter]")
  | _                         => some <| ctx.push limits (text "[Unreadable]")

def formatPlainObject (format : Value Ref → Ctx → Option Ctx) (tag : CodeUnits) (shape : Shape Ref) (ctx : Ctx) :
    Option Ctx :=
  match shape.keys with
  | none      => some <| ctx.push limits (text "[Uninspected]")
  | some keys => do
    let ctx := ctx.push limits (tagName tag ++ text " \x7b")
    let shown := min keys.length limits.maxKeys
    let ctx ← formatItems limits (text ", ") true ((keys.take shown).map (formatProperty limits format shape)) ctx
    let ctx := if keys.length > shown then ctx.push limits (morePart env (keys.length - shown)) else ctx
    return ctx.push limits (text "\x7d")

-- What follows the check of the depth. `none` where an error is thrown.
def formatObject (format : Value Ref → Ctx → Option Ctx) (ref : Ref) (ctx : Ctx) : Option Ctx :=
  let shape := env.heap ref
  match shape.toStringTag with
  | none     => some <| ctx.push limits (text "[Uninspected]")
  | some tag =>
    if tag = text "[object Error]" || tag = text "[object DOMException]" then
      some <| formatErrorLike limits env ref ctx
    else if tag = text "[object Date]" then
      some <| ctx.push limits (datePart limits shape)
    else if tag = text "[object ArrayBuffer]" then
      some <| ctx.push limits (bufferPart shape)
    else if shape.isView then
      some <| ctx.push limits (viewPart tag shape)
    else
      match shape.isArray with
      | none       => none
      | some true  => formatArray limits env format shape ctx
      | some false => formatPlainObject limits env format tag shape ctx

-- A value, with what is done with an object.
def visit (object : Ref → Ctx → Option Ctx) (value : Value Ref) (ctx : Ctx) : Option Ctx :=
  if ctx.omitted then
    some ctx
  else
    let ctx := { ctx with visits := ctx.visits + 1 }
    if ctx.visits > limits.maxVisits then
      some <| ctx.push limits mark
    else
      match value with
      | .null           => some <| ctx.push limits (text "null")
      | .string value   => some <| ctx.push limits (truncateString value limits.maxStringBytes)
      | .primitive text => some <| ctx.push limits text
      | .undefined      => some <| ctx.push limits (text "undefined")
      | .symbol         => some <| ctx.push limits (text "Symbol(…)")
      | .function       => some <| ctx.push limits (text "[Function]")
      | .object ref     => object ref ctx

-- The depth is given by how far it is from `maxDepth`.
def formatValue : ℕ → Value Ref → Ctx → Option Ctx
  | 0         => visit limits fun _ ctx => some <| ctx.push limits (text "[…]")
  | depth + 1 => visit limits fun ref ctx => formatObject limits env (formatValue depth) ref ctx

-- The loop over the arguments, which ends when the record is full.
def formatAll : Bool → List (Value Ref) → Ctx → Option Ctx
  | _, [], ctx              => some ctx
  | first, arg :: args, ctx => do
    let ctx := if first then ctx else ctx.push limits (text " ")
    let ctx ← formatValue limits env limits.maxDepth arg ctx
    if ctx.omitted then return ctx else formatAll false args ctx

def formatArgs (args : List (Value Ref)) : Option CodeUnits := do
  let ctx ← formatAll limits env true args {}
  let parts := if ctx.omitted then ctx.parts ++ [mark] else ctx.parts
  return parts.flatten

end Code

section Utf8

theorem one_le_unitBytes (u : UInt16) : 1 ≤ unitBytes u := by
  simp only [unitBytes]
  grind

theorem isHighSurrogate_of_low {u : UInt16} (h : isLowSurrogate u) : isHighSurrogate u = false := by
  simp only [isLowSurrogate, isHighSurrogate, Bool.and_eq_true, decide_eq_true_eq, UInt16.le_iff_toNat_le] at h ⊢
  have := h.1
  simp at this ⊢
  omega

theorem unitBytes_surrogate {u : UInt16} (h : isHighSurrogate u ∨ isLowSurrogate u) : unitBytes u = 3 := by
  simp only [isHighSurrogate, isLowSurrogate, Bool.and_eq_true, decide_eq_true_eq, UInt16.le_iff_toNat_le] at h
  have h₁ : ¬u < 0x80 := by
    simp only [UInt16.lt_iff_toNat_lt]
    simp at h ⊢
    omega
  have h₂ : ¬u < 0x800 := by
    simp only [UInt16.lt_iff_toNat_lt]
    simp at h ⊢
    omega
  simp [unitBytes, h₁, h₂]

theorem utf8Length_cons_of_not_high {u : UInt16} (h : isHighSurrogate u = false) (t : CodeUnits) :
    utf8Length (u :: t) = unitBytes u + utf8Length t := by
  cases t <;> simp [utf8Length, h]

theorem utf8Length_cons_le (u : UInt16) (t : CodeUnits) : utf8Length (u :: t) ≤ unitBytes u + utf8Length t := by
  cases t
  case nil      => simp [utf8Length]
  case cons v t =>
    cases hp : isHighSurrogate u && isLowSurrogate v
    case false => simp [utf8Length, hp]
    case true  =>
      -- Each half of the pair would take three bytes alone.
      simp only [Bool.and_eq_true] at hp
      have hu := unitBytes_surrogate <| .inl hp.1
      have hv := unitBytes_surrogate <| .inr hp.2
      have ht := utf8Length_cons_of_not_high (isHighSurrogate_of_low hp.2) t
      simp only [utf8Length, hp, Bool.and_self, if_true]
      omega

-- Pairs that come to be where two texts meet only save bytes.
theorem utf8Length_append_le (s t : CodeUnits) : utf8Length (s ++ t) ≤ utf8Length s + utf8Length t := by
  fun_induction utf8Length s
  case case1             => simp
  case case2 u           => exact utf8Length_cons_le u t
  case case3 u v s h ih  =>
    simp only [List.cons_append, utf8Length, h, if_true]
    omega
  case case4 u v s h ih  =>
    simp only [List.cons_append, utf8Length, h, Bool.false_eq_true, if_false] at ih ⊢
    omega

theorem utf8Length_append_mark (s : CodeUnits) : utf8Length (s ++ mark) = utf8Length s + 3 := by
  have hm : isLowSurrogate 0x2026 = false := by decide
  fun_induction utf8Length s
  case case1            => rfl
  case case2 u          => simp [mark, utf8Length, hm, unitBytes]
  case case3 u v s h ih =>
    simp only [List.cons_append, utf8Length, h, if_true]
    omega
  case case4 u v s h ih =>
    simp only [List.cons_append, utf8Length, h, Bool.false_eq_true, if_false] at ih ⊢
    omega

theorem one_le_utf8Length {s : CodeUnits} (h : s ≠ []) : 1 ≤ utf8Length s := by
  fun_induction utf8Length s
  case case1            => contradiction
  case case2 u          => exact one_le_unitBytes u
  case case3 u v s _ _  => omega
  case case4 u v s _ ih => have := one_le_unitBytes u; omega

end Utf8

-- What the formatting does when no budget ends it: parts one after the other, and reads that throw.
inductive Act
  | push (part : CodeUnits)
  | fail

section Acts

variable (limits : Limits) (env : Environment Ref)

def joinActs (separator : CodeUnits) : Bool → List (List Act) → List Act
  | _, []            => []
  | first, as :: ass => (if first then [] else [.push separator]) ++ as ++ joinActs separator false ass

def errorActs (ref : Ref) : List Act :=
  .push (errorPart limits env ref) ::
    ((errorIdentity env.heap ref).stack.map fun stack => Act.push (stackPart limits stack)).toList

def itemActs (acts : Value Ref → List Act) : Option (Value Ref) → List Act
  | none      => [.push (text "[Unreadable]")]
  | some item => acts item

def moreActs (count shown : ℕ) : List Act :=
  if count > shown then [.push (morePart env (count - shown))] else []

def arrayActs (acts : Value Ref → List Act) (shape : Shape Ref) : List Act :=
  match shape.length with
  | none        => [.push (text "[Array]")]
  | some length =>
    let length := length.getD 0
    let shown := min length limits.maxItems
    [.push (arrayPart env length)] ++
      joinActs (text ", ") true ((List.range shown).map fun i => itemActs acts (shape.item i)) ++
      moreActs env length shown ++ [.push (text "]")]

def propertyActs (acts : Value Ref → List Act) (shape : Shape Ref) (key : CodeUnits) : List Act :=
  .push (keyPart limits key) ::
    match shape.descriptor key with
    | some (some (.data value)) => acts value
    | some (some (.getter _))   => [.push (text "[Getter]")]
    | _                         => [.push (text "[Unreadable]")]

def plainActs (acts : Value Ref → List Act) (tag : CodeUnits) (shape : Shape Ref) : List Act :=
  match shape.keys with
  | none      => [.push (text "[Uninspected]")]
  | some keys =>
    let shown := min keys.length limits.maxKeys
    [.push (tagName tag ++ text " \x7b")] ++
      joinActs (text ", ") true ((keys.take shown).map (propertyActs limits acts shape)) ++
      moreActs env keys.length shown ++ [.push (text "\x7d")]

def objectActs (acts : Value Ref → List Act) (ref : Ref) : List Act :=
  let shape := env.heap ref
  match shape.toStringTag with
  | none     => [.push (text "[Uninspected]")]
  | some tag =>
    if tag = text "[object Error]" || tag = text "[object DOMException]" then
      errorActs limits env ref
    else if tag = text "[object Date]" then
      [.push (datePart limits shape)]
    else if tag = text "[object ArrayBuffer]" then
      [.push (bufferPart shape)]
    else if shape.isView then
      [.push (viewPart tag shape)]
    else
      match shape.isArray with
      | none       => [.fail]
      | some true  => arrayActs limits env acts shape
      | some false => plainActs limits env acts tag shape

def visitActs (object : Ref → List Act) : Value Ref → List Act
  | .null           => [.push (text "null")]
  | .string value   => [.push (truncateString value limits.maxStringBytes)]
  | .primitive text => [.push text]
  | .undefined      => [.push (text "undefined")]
  | .symbol         => [.push (text "Symbol(…)")]
  | .function       => [.push (text "[Function]")]
  | .object ref     => object ref

def valueActs : ℕ → Value Ref → List Act
  | 0         => visitActs limits fun _ => [.push (text "[…]")]
  | depth + 1 => visitActs limits (objectActs limits env (valueActs depth))

def argsActs (args : List (Value Ref)) : List Act :=
  joinActs (text " ") true (args.map (valueActs limits env limits.maxDepth))

end Acts

-- The parts that are produced before a read throws.
def parts : List Act → List CodeUnits
  | []                => []
  | .fail :: _        => []
  | .push part :: acts => if part = [] then parts acts else part :: parts acts

def throws : List Act → Bool
  | []            => false
  | .fail :: _    => true
  | .push _ :: as => throws as

-- As many of the parts as fit.
def fitting : ℕ → List CodeUnits → List CodeUnits
  | _, []                => []
  | budget, part :: parts =>
    if utf8Length part ≤ budget then part :: fitting (budget - utf8Length part) parts else []

section Exec

variable (limits : Limits)

def Act.run : Act → Ctx → Option Ctx
  | push part, ctx => some <| ctx.push limits part
  | fail, ctx      => if ctx.omitted then some ctx else none

def exec (acts : List Act) (ctx : Ctx) : Option Ctx :=
  acts.foldlM (fun ctx act => act.run limits ctx) ctx

end Exec

variable {limits : Limits} {env : Environment Ref}

namespace Ctx

variable {ctx : Ctx} {k l : ℕ} {part : CodeUnits}

def clear (ctx : Ctx) : Ctx :=
  { ctx with visits := 0 }

@[simp]
theorem clear_omitted : ctx.clear.omitted = ctx.omitted := rfl

theorem push_omitted (h : ctx.omitted) : ctx.push limits part = ctx := by
  simp [push, h]

theorem push_clear : (ctx.push limits part).clear = ctx.clear.push limits part := by
  simp only [push, clear]
  grind

-- The visits are so few that the limit of visits is not met before the limit of bytes.
structure Slack (limits : Limits) (k : ℕ) (ctx : Ctx) : Prop where
  bytes  : ctx.bytes ≤ limits.maxRecordBytes
  visits : ctx.omitted = false → ctx.visits ≤ ctx.bytes + k

theorem Slack.mono (h : Slack limits k ctx) (hk : k ≤ l) : Slack limits l ctx where
  bytes    := h.bytes
  visits o := by have := h.visits o; omega

theorem Slack.push (h : Slack limits k ctx) : Slack limits k (ctx.push limits part) := by
  have := h.bytes
  have := h.visits
  constructor <;> simp only [Ctx.push] <;> grind

-- A part that is not empty has a byte.
theorem Slack.push_part (h : Slack limits (k + 1) ctx) (hp : part ≠ []) : Slack limits k (ctx.push limits part) := by
  have := one_le_utf8Length hp
  have := List.length_pos_iff.mpr hp
  have := h.bytes
  have := h.visits
  constructor <;> simp only [Ctx.push] <;> grind

end Ctx

section Follows

variable {run run' : Ctx → Option Ctx} {acts acts' : List Act} {k l m : ℕ}

theorem exec_append (ctx : Ctx) : exec limits (acts ++ acts') ctx = (exec limits acts ctx).bind (exec limits acts') := by
  simp only [exec, List.foldlM_append]
  rfl

theorem exec_omitted {ctx : Ctx} (h : ctx.omitted) : exec limits acts ctx = some ctx := by
  induction acts
  case nil => rfl
  case cons act acts hi =>
    have : act.run limits ctx = some ctx := by
      cases act
      case push => simp [Act.run, Ctx.push_omitted h]
      case fail => simp [Act.run, h]
    simp only [exec, List.foldlM_cons, this]
    exact hi

-- A run that does what the acts do, the visits apart.
structure FollowsAt (limits : Limits) (run : Ctx → Option Ctx) (acts : List Act) (l : ℕ) (ctx : Ctx) : Prop where
  exec  : (run ctx).map Ctx.clear = exec limits acts ctx.clear
  slack : ∀ ctx' ∈ run ctx, ctx'.Slack limits l

theorem FollowsAt.ite {c : Prop} [Decidable c] {ctx : Ctx} (h : FollowsAt limits run acts l ctx)
    (h' : FollowsAt limits run' acts' l ctx) :
    FollowsAt limits (fun ctx => if c then run ctx else run' ctx) (if c then acts else acts') l ctx := by
  split <;> assumption

def Follows (limits : Limits) (run : Ctx → Option Ctx) (acts : List Act) (k l : ℕ) : Prop :=
  ∀ ctx, ctx.Slack limits k → FollowsAt limits run acts l ctx

namespace Follows

theorem nil (h : k ≤ l) : Follows limits some [] k l :=
  fun ctx hs => ⟨rfl, by simpa using hs.mono h⟩

theorem weaken (h : Follows limits run acts k l) (hk : m ≤ k) : Follows limits run acts m l :=
  fun ctx hs => h ctx (hs.mono hk)

theorem push (part : CodeUnits) (h : k ≤ l) : Follows limits (some <| ·.push limits part) [.push part] k l :=
  fun ctx hs => ⟨congrArg some Ctx.push_clear, by simpa using hs.push.mono h⟩

theorem push_part {part : CodeUnits} (h : part ≠ []) :
    Follows limits (some <| ·.push limits part) [.push part] (k + 1) k :=
  fun ctx hs => ⟨congrArg some Ctx.push_clear, by simpa using hs.push_part h⟩

theorem bind (h : Follows limits run acts k l) (h' : Follows limits run' acts' l m) :
    Follows limits (fun ctx => (run ctx).bind run') (acts ++ acts') k m := by
  intro ctx hs
  have h := h ctx hs
  cases hr : run ctx
  case none =>
    constructor
    case exec  => simp [exec_append, ← h.exec, hr]
    case slack => simp [hr]
  case some ctx₁ =>
    have h' := h' ctx₁ (h.slack ctx₁ (by simp [hr]))
    constructor
    case exec  => simp [exec_append, ← h.exec, hr, h'.exec]
    case slack => simpa [hr] using h'.slack

theorem cons {part : CodeUnits} (h : part ≠ []) (h' : Follows limits run acts l m) :
    Follows limits (fun ctx => run (ctx.push limits part)) (.push part :: acts) (l + 1) m :=
  (push_part h).bind h'

theorem congr (h : Follows limits run acts k l) (hr : ∀ ctx, run' ctx = run ctx) : Follows limits run' acts k l :=
  funext hr ▸ h

-- A separator makes up for the visit before it.
theorem items {separator : CodeUnits} (h : separator ≠ []) {α : Type} {runs : α → Ctx → Option Ctx}
    {acts : α → List Act} (hr : ∀ item, Follows limits (runs item) (acts item) 0 1) (items : List α) :
    ∀ first : Bool, Follows limits (formatItems limits separator first (items.map runs))
      (joinActs separator first (items.map acts)) (if first then 0 else 1) 1 := by
  induction items
  case nil => intro first; cases first <;> exact nil (by simp)
  case cons item items ih =>
    intro first
    cases first
    case true  => exact (hr item).bind (ih false)
    case false => exact cons h ((hr item).bind (ih false))

end Follows

end Follows

section Formatting

variable {format : Value Ref → Ctx → Option Ctx} {acts : Value Ref → List Act}

theorem errorLike_follows (ref : Ref) :
    Follows limits (fun ctx => some <| formatErrorLike limits env ref ctx) (errorActs limits env ref) 1 1 := by
  have hfirst : Follows limits (some <| ·.push limits (errorPart limits env ref)) [.push (errorPart limits env ref)] 1 1 :=
    .push _ le_rfl
  cases hs : (errorIdentity env.heap ref).stack
  case none       => simpa [formatErrorLike, errorActs, hs] using hfirst
  case some stack => simpa [formatErrorLike, errorActs, hs] using hfirst.bind (.push (stackPart limits stack) le_rfl)

theorem item_follows (hf : ∀ value, Follows limits (format value) (acts value) 0 1) (item : Option (Value Ref)) :
    Follows limits (formatItem limits format item) (itemActs acts item) 0 1 := by
  cases item
  case none => exact .push _ (by simp)
  case some => exact hf _

theorem more_follows (count shown : ℕ) :
    Follows limits (fun ctx => some <| if count > shown then ctx.push limits (morePart env (count - shown)) else ctx)
      (moreActs env count shown) 1 1 := by
  by_cases h : count > shown
  case pos => simpa [moreActs, h] using Follows.push (morePart env (count - shown)) le_rfl
  case neg => simpa [moreActs, h] using Follows.nil le_rfl

theorem array_follows (hf : ∀ value, Follows limits (format value) (acts value) 0 1) (shape : Shape Ref) :
    Follows limits (formatArray limits env format shape) (arrayActs limits env acts shape) 1 1 := by
  cases hl : shape.length
  case none =>
    simp only [arrayActs, hl]
    exact (Follows.push (text "[Array]") le_rfl).congr fun ctx => by simp [formatArray, hl]
  case some length =>
    have hpart : arrayPart env (length.getD 0) ≠ [] := by simp [arrayPart, show text "Array(" ≠ [] by decide]
    have hcomma : text ", " ≠ [] := by decide
    have hitems := Follows.items hcomma (fun i => item_follows hf (shape.item i))
      (.range (min (length.getD 0) limits.maxItems)) true
    have hmore := @more_follows _ limits env (length.getD 0) (min (length.getD 0) limits.maxItems)
    have hall := Follows.cons hpart <| (hitems.bind hmore).bind (.push (text "]") le_rfl)
    simp only [arrayActs, hl]
    exact hall.congr fun ctx => by simp [formatArray, hl, Option.bind_assoc]

theorem property_follows (hf : ∀ value, Follows limits (format value) (acts value) 0 1) (shape : Shape Ref)
    (key : CodeUnits) :
    Follows limits (formatProperty limits format shape key) (propertyActs limits acts shape key) 0 1 := by
  have hkey : keyPart limits key ≠ [] := by simp [keyPart, show text ": " ≠ [] by decide]
  have hrest {run : Ctx → Option Ctx} {as : List Act} (h : Follows limits run as 0 1) :
      Follows limits (fun ctx => run (ctx.push limits (keyPart limits key))) (.push (keyPart limits key) :: as) 0 1 :=
    (Follows.cons hkey h).weaken (by simp)
  simp only [propertyActs]
  split
  case h_1 value hd => exact (hrest <| hf value).congr fun ctx => by simp [formatProperty, hd]
  case h_2 hd       => exact (hrest <| .push (text "[Getter]") (by simp)).congr fun ctx => by simp [formatProperty, hd]
  case h_3 h₁ h₂    =>
    refine (hrest <| .push (text "[Unreadable]") (by simp)).congr fun ctx => ?_
    simp only [formatProperty]

theorem plain_follows (hf : ∀ value, Follows limits (format value) (acts value) 0 1) (tag : CodeUnits)
    (shape : Shape Ref) :
    Follows limits (formatPlainObject limits env format tag shape) (plainActs limits env acts tag shape) 1 1 := by
  cases hk : shape.keys
  case none =>
    simp only [plainActs, hk]
    exact (Follows.push (text "[Uninspected]") le_rfl).congr fun ctx => by simp [formatPlainObject, hk]
  case some keys =>
    have hpart : tagName tag ++ text " \x7b" ≠ [] := by simp [show text " \x7b" ≠ [] by decide]
    have hcomma : text ", " ≠ [] := by decide
    have hitems := Follows.items hcomma (property_follows hf shape) (keys.take (min keys.length limits.maxKeys)) true
    have hmore := @more_follows _ limits env keys.length (min keys.length limits.maxKeys)
    have hall := Follows.cons hpart <| (hitems.bind hmore).bind (.push (text "\x7d") le_rfl)
    simp only [plainActs, hk]
    exact hall.congr fun ctx => by simp [formatPlainObject, hk, Option.bind_assoc]

theorem object_follows (hf : ∀ value, Follows limits (format value) (acts value) 0 1) (ref : Ref) {ctx : Ctx}
    (ho : ctx.omitted = false) (hs : ctx.Slack limits 1) :
    FollowsAt limits (formatObject limits env format ref) (objectActs limits env acts ref) 1 ctx := by
  have hpush (part : CodeUnits) : FollowsAt limits (some <| ·.push limits part) [.push part] 1 ctx :=
    Follows.push part le_rfl ctx hs
  cases ht : (env.heap ref).toStringTag
  case none =>
    simp +unfoldPartialApp only [formatObject, objectActs, ht]
    exact hpush _
  case some tag =>
    simp +unfoldPartialApp only [formatObject, objectActs, ht]
    refine .ite (errorLike_follows ref ctx hs) <| .ite (hpush _) <| .ite (hpush _) <| .ite (hpush _) ?_
    cases (env.heap ref).isArray
    case none =>
      constructor
      case exec  => simp [exec, Act.run, ho]
      case slack => simp
    case some isArray =>
      cases isArray
      case true  => exact array_follows hf _ ctx hs
      case false => exact plain_follows hf tag _ ctx hs

-- A value is visited before the limit of visits.
theorem visit_follows (hv : limits.maxRecordBytes < limits.maxVisits) {object : Ref → Ctx → Option Ctx}
    {objects : Ref → List Act}
    (h : ∀ ref ctx, ctx.omitted = false → ctx.Slack limits 1 → FollowsAt limits (object ref) (objects ref) 1 ctx)
    (value : Value Ref) : Follows limits (visit limits object value) (visitActs limits objects value) 0 1 := by
  intro ctx hs
  cases ho : ctx.omitted
  case true =>
    constructor
    case exec  => simp [visit, ho, exec_omitted]
    case slack => simpa [visit, ho] using hs.mono (by simp)
  case false =>
    let next := { ctx with visits := ctx.visits + 1 }
    have hnext : next.Slack limits 1 := ⟨hs.bytes, fun o => by have := hs.visits o; simp [next]; omega⟩
    have hfew : ¬ctx.visits + 1 > limits.maxVisits := by
      have := hs.visits ho
      have := hs.bytes
      omega
    have hat {run : Ctx → Option Ctx} {acts : List Act} (hr : FollowsAt limits run acts 1 next)
        (hv : visit limits object value ctx = run next) : FollowsAt limits (visit limits object value) acts 1 ctx :=
      ⟨hv ▸ hr.exec, hv ▸ hr.slack⟩
    cases value
    case object ref => exact hat (h ref next ho hnext) (by simp [visit, ho, hfew, next])
    all_goals exact hat (Follows.push _ le_rfl next hnext) (by simp [visit, ho, hfew, next])

theorem value_follows (hv : limits.maxRecordBytes < limits.maxVisits) (depth : ℕ) (value : Value Ref) :
    Follows limits (formatValue limits env depth value) (valueActs limits env depth value) 0 1 := by
  induction depth generalizing value
  case zero          => exact visit_follows hv (fun _ ctx _ hs => Follows.push _ le_rfl ctx hs) value
  case succ depth hi => exact visit_follows hv (fun ref _ ho hs => object_follows hi ref ho hs) value

theorem formatValue_omitted {depth : ℕ} {value : Value Ref} {ctx : Ctx} (h : ctx.omitted) :
    formatValue limits env depth value ctx = some ctx := by
  cases depth <;> simp [formatValue, visit, h]

theorem formatItems_omitted {separator : CodeUnits} {args : List (Value Ref)} {depth : ℕ} {first : Bool} {ctx : Ctx}
    (h : ctx.omitted) :
    formatItems limits separator first (args.map (formatValue limits env depth)) ctx = some ctx := by
  induction args generalizing first
  case nil         => rfl
  case cons arg args hi =>
    simp [formatItems, Ctx.push_omitted h, formatValue_omitted h, hi]

-- To end the loop over the arguments when the record is full changes nothing.
theorem formatAll_eq (args : List (Value Ref)) (first : Bool) (ctx : Ctx) :
    formatAll limits env first args ctx =
      formatItems limits (text " ") first (args.map (formatValue limits env limits.maxDepth)) ctx := by
  induction args generalizing first ctx
  case nil              => rfl
  case cons arg args hi =>
    simp only [formatAll, formatItems, List.map_cons, hi]
    congr 1
    funext ctx'
    split
    case isTrue ho  => simp [formatItems_omitted ho]
    case isFalse ho => rfl

theorem formatAll_exec (hv : limits.maxRecordBytes < limits.maxVisits) (args : List (Value Ref)) :
    (formatAll limits env true args {}).map Ctx.clear = exec limits (argsActs limits env args) {} := by
  have hspace : text " " ≠ [] := by decide
  have hvalues (value : Value Ref) : Follows limits (formatValue limits env limits.maxDepth value) _ 0 1 :=
    value_follows hv limits.maxDepth value
  have hitems := Follows.items hspace hvalues args
  have hslack : Ctx.Slack limits 0 {} := ⟨by simp, by simp⟩
  rw [formatAll_eq]
  exact (hitems true {} hslack).exec

end Formatting

section Record

theorem fitting_prefix (budget : ℕ) (all : List CodeUnits) : ∃ rest, all = fitting budget all ++ rest := by
  fun_induction fitting budget all
  case case1                  => exact ⟨[], rfl⟩
  case case2 budget p ps _ ih => exact ih.imp fun rest hr => by rw [List.cons_append, ← hr]
  case case3 budget p ps _    => exact ⟨p :: ps, rfl⟩

theorem utf8Length_fitting (budget : ℕ) (all : List CodeUnits) : utf8Length (fitting budget all).flatten ≤ budget := by
  fun_induction fitting budget all
  case case1                  => simp [utf8Length]
  case case2 budget p ps h ih =>
    have := utf8Length_append_le p (fitting (budget - utf8Length p) ps).flatten
    simp only [List.flatten_cons]
    omega
  case case3                  => simp [utf8Length]

theorem push_of_fits {part : CodeUnits} {ctx : Ctx} (ho : ctx.omitted = false) (hp : part ≠ [])
    (h : ctx.bytes + utf8Length part ≤ limits.maxRecordBytes) :
    ctx.push limits part = { ctx with parts := ctx.parts ++ [part], bytes := ctx.bytes + utf8Length part } := by
  simp [Ctx.push, ho, hp, h]

theorem push_of_not_fits {part : CodeUnits} {ctx : Ctx} (ho : ctx.omitted = false) (hp : part ≠ [])
    (h : ¬ctx.bytes + utf8Length part ≤ limits.maxRecordBytes) :
    ctx.push limits part = { ctx with omitted := true } := by
  have : limits.maxRecordBytes < ctx.bytes + utf8Length part := by omega
  simp [Ctx.push, ho, hp, this]

-- The acts show the parts that fit, and throw only if all before fits.
theorem exec_eq (acts : List Act) {ctx : Ctx} (ho : ctx.omitted = false) (hb : ctx.bytes ≤ limits.maxRecordBytes) :
    (exec limits acts ctx).map (fun ctx => (ctx.parts, ctx.omitted)) =
      if fitting (limits.maxRecordBytes - ctx.bytes) (parts acts) = parts acts then
        if throws acts then none else some (ctx.parts ++ parts acts, false)
      else
        some (ctx.parts ++ fitting (limits.maxRecordBytes - ctx.bytes) (parts acts), true) := by
  induction acts generalizing ctx
  case nil => simp [exec, parts, fitting, throws, ho]
  case cons act acts hi =>
    cases act
    case fail => simp [exec, Act.run, parts, fitting, throws, ho]
    case push part =>
      by_cases hp : part = []
      case pos => simpa [exec, Act.run, Ctx.push, parts, throws, hp] using hi ho hb
      case neg =>
        have hcons : exec limits (.push part :: acts) ctx = exec limits acts (ctx.push limits part) := by
          simp [exec, Act.run]
        by_cases hfit : ctx.bytes + utf8Length part ≤ limits.maxRecordBytes
        case pos =>
          have hle : utf8Length part ≤ limits.maxRecordBytes - ctx.bytes := by omega
          rw [hcons, push_of_fits ho hp hfit, hi (by exact ho) hfit]
          simp [parts, throws, hp, fitting, hle, Nat.sub_sub]
        case neg =>
          have hgt : ¬utf8Length part ≤ limits.maxRecordBytes - ctx.bytes := by omega
          rw [hcons, push_of_not_fits ho hp hfit, exec_omitted rfl]
          simp [parts, hp, fitting, hgt]

-- What is shown of a record, if it is formatted at all.
theorem formatArgs_eq (hv : limits.maxRecordBytes < limits.maxVisits) (args : List (Value Ref)) :
    let all := parts (argsActs limits env args)
    let shown := fitting limits.maxRecordBytes all
    formatArgs limits env args =
      if shown = all then
        if throws (argsActs limits env args) then none else some shown.flatten
      else
        some (shown.flatten ++ mark) := by
  intro all shown
  have hexec := @exec_eq limits (argsActs limits env args) {} rfl (by simp)
  rw [← formatAll_exec hv args, Option.map_map] at hexec
  have hargs : formatArgs limits env args =
      ((formatAll limits env true args {}).map ((fun ctx => (ctx.parts, ctx.omitted)) ∘ Ctx.clear)).map
        fun (parts, omitted) => (if omitted then parts ++ [mark] else parts).flatten := by
    cases h : formatAll limits env true args {} <;> simp [formatArgs, h, Ctx.clear]
  rw [hargs, hexec]
  by_cases hs : shown = all
  case pos =>
    have hs' : fitting limits.maxRecordBytes (parts (argsActs limits env args)) = parts (argsActs limits env args) := hs
    cases ht : throws (argsActs limits env args) <;> simp [hs, hs', all]
  case neg => simp [hs, shown, all]

-- The record that is asked for: within the limit, with a mark exactly where parts are left out.
def Bounded (limits : Limits) (env : Environment Ref) (args : List (Value Ref)) : Prop :=
  ∃ record, formatArgs limits env args = some record ∧ utf8Length record ≤ limits.maxRecordBytes ∧
    ∃ shown rest, parts (argsActs limits env args) = shown ++ rest ∧
      record = shown.flatten ++ if rest = [] then [] else mark

theorem formatArgs_bounded_iff (hv : limits.maxRecordBytes < limits.maxVisits) (args : List (Value Ref)) :
    let all := parts (argsActs limits env args)
    let shown := fitting limits.maxRecordBytes all
    Bounded limits env args ↔
      if shown = all then throws (argsActs limits env args) = false
      else utf8Length shown.flatten + 3 ≤ limits.maxRecordBytes := by
  intro all shown
  have heq : formatArgs limits env args = if shown = all then
      if throws (argsActs limits env args) then none else some shown.flatten else some (shown.flatten ++ mark) :=
    formatArgs_eq hv args
  obtain ⟨rest, hrest⟩ := fitting_prefix limits.maxRecordBytes all
  by_cases hs : shown = all
  case pos =>
    simp only [hs, if_true] at heq ⊢
    constructor
    case mp =>
      intro ⟨record, hrecord, _⟩
      cases ht : throws (argsActs limits env args)
      case false => rfl
      case true  => simp [heq, ht] at hrecord
    case mpr =>
      intro ht
      refine ⟨all.flatten, by simp [heq, ht], ?_, all, [], by simp [all], by simp⟩
      exact hs ▸ utf8Length_fitting limits.maxRecordBytes all
  case neg =>
    have hne : rest ≠ [] := fun h => hs (by simpa [h] using hrest.symm)
    simp only [hs, if_false, ← utf8Length_append_mark] at heq ⊢
    constructor
    case mp =>
      intro ⟨record, hrecord, hlength, _⟩
      cases heq.symm.trans hrecord
      exact hlength
    case mpr =>
      intro hlength
      exact ⟨_, heq, hlength, shown, rest, hrest, by simp [hne]⟩

end Record

section Instances

def noObjects : Environment Empty where
  heap       := nofun
  numberText := fun _ => []

theorem formatArgs_bounded_null : Bounded consoleLimits noObjects [.null] := by
  refine (formatArgs_bounded_iff (by decide) _).mpr ?_
  decide +kernel

example : formatArgs consoleLimits noObjects [.null, .null] = text "null null" := by
  decide +kernel

-- Eight texts fill a record to its last byte, and what comes then is left out.
def fillingArgs : List (Value Empty) :=
  .replicate 7 (.string (.replicate 512 0x61)) ++ [.string (.replicate 409 0x61), .null]

theorem formatArgs_beyond_limit : ¬Bounded consoleLimits noObjects fillingArgs := by
  have hlength : (formatArgs consoleLimits noObjects fillingArgs).map utf8Length = some 4003 := by decide +kernel
  intro ⟨record, hrecord, hbound, _⟩
  rw [hrecord] at hlength
  simp at hlength
  simp [hlength, consoleLimits] at hbound

end Instances

end ConsoleFormat
