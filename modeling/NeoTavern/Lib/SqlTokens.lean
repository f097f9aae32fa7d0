import Mathlib

-- How SQLite cuts a text into tokens. The text ends at its first NUL.
namespace Sql

abbrev Text := List Char

inductive Kind
  | space
  | lineComment
  | blockComment
  | openComment
  | word
  | quoted
  | number
  | parameter
  | semicolon
  | leftParen
  | rightParen
  | operator
  | illegal
  deriving DecidableEq

-- A token and what comes after it.
structure Token where
  kind : Kind
  text : Text
  rest : Text
  deriving DecidableEq

section Characters

def nul : Char := Char.ofNat 0
def newline : Char := Char.ofNat 10
def singleQuote : Char := Char.ofNat 39
def doubleQuote : Char := Char.ofNat 34
def backquote : Char := Char.ofNat 96
def byteOrderMark : Char := Char.ofNat 0xfeff

def isSpace (c : Char) : Bool :=
  c = ' ' || 9 ≤ c.toNat && c.toNat ≤ 13

-- What may stand in an identifier. All that is not ASCII may.
def isIdChar (c : Char) : Bool :=
  c.isAlphanum || c = '_' || c = '$' || 128 ≤ c.toNat

-- What an identifier may begin with.
def isIdStart (c : Char) : Bool :=
  c.isAlpha || c = '_' || 128 ≤ c.toNat

def isHexDigit (c : Char) : Bool :=
  c.isDigit || 'a' ≤ c && c ≤ 'f' || 'A' ≤ c && c ≤ 'F'

end Characters

section Lengths

-- How many characters satisfy `p`, up to the end of the text.
def run (p : Char → Bool) (z : Text) : Nat :=
  (z.takeWhile fun c => p c && c ≠ nul).length

-- What comes up to the first `*/`, itself included.
def closing : Text → Option Nat
  | []     => none
  | c :: z => if c = '*' && z.head? = some '/' then some 2 else (closing z).map (· + 1)

-- The same for a text that ends at its first NUL.
def closes (z : Text) : Option Nat :=
  closing <| z.takeWhile (· ≠ nul)

-- What comes up to the quotation mark at the end, itself included. Two of them stand for one.
def quotation (mark : Char) : Text → Option Nat
  | []          => none
  | c :: z      =>
    if c = nul then none
    else if c = mark then
      match z with
      | []      => some 1
      | d :: z' => if d = mark then (quotation mark z').map (· + 2) else some 1
    else (quotation mark z).map (· + 1)

def digits (z : Text) : Nat :=
  run Char.isDigit z

def fraction (z : Text) : Nat :=
  match z with
  | '.' :: z => 1 + digits z
  | _        => 0

def exponent (z : Text) : Nat :=
  match z with
  | c :: z =>
    if c = 'e' || c = 'E' then
      match z with
      | d :: z' =>
        if d.isDigit then 1 + digits z
        else if (d = '+' || d = '-') && 0 < digits z' then 2 + digits z'
        else 0
      | []      => 0
    else 0
  | []     => 0

def number (z : Text) : Nat :=
  match z with
  | '0' :: x :: z =>
    if (x = 'x' || x = 'X') && 0 < run isHexDigit z then 2 + run isHexDigit z
    else
      let whole := 1 + digits (x :: z)
      let whole := whole + fraction (('0' :: x :: z).drop whole)
      whole + exponent (('0' :: x :: z).drop whole)
  | z             =>
    let whole := digits z
    let whole := whole + fraction (z.drop whole)
    whole + exponent (z.drop whole)

-- A named parameter: its kind and how much of it comes after the first character. `n` tells whether
-- it has a name yet. A name may have a suffix in parentheses.
def parameter : Nat → Text → Kind × Nat
  | n, []     => (if n = 0 then .illegal else .parameter, 0)
  | n, c :: z =>
    if isIdChar c then
      let (kind, k) := parameter (n + 1) z
      (kind, k + 1)
    else if c = '(' && 0 < n then
      let k := run (fun d => !isSpace d && d ≠ ')') z
      if (z.drop k).head? = some ')' then (.parameter, k + 2) else (.illegal, k + 1)
    else if c = ':' && z.head? = some ':' then
      match z with
      | []     => (.illegal, 1)
      | _ :: z =>
        let (kind, k) := parameter n z
        (kind, k + 2)
    else
      (if n = 0 then .illegal else .parameter, 0)

end Lengths

section Kinds

-- What begins with a minus sign and goes on with `z`: its kind and how long it is.
def minusToken : Text → Kind × Nat
  | '-' :: z        => (.lineComment, 2 + run (· ≠ newline) z)
  | '>' :: '>' :: _ => (.operator, 3)
  | '>' :: _        => (.operator, 2)
  | _               => (.operator, 1)

def slashToken (z : Text) : Kind × Nat :=
  if z.head? = some '*' && (z.drop 1).head?.any (· ≠ nul) then
    match closes (z.drop 1) with
    | some n => (.blockComment, 2 + n)
    | none   => (.openComment, 2 + run (fun _ => true) (z.drop 1))
  else
    (.operator, 1)

def quotedToken (mark : Char) (z : Text) : Kind × Nat :=
  match quotation mark z with
  | some n => (.quoted, 1 + n)
  | none   => (.illegal, 1 + run (fun _ => true) z)

def bracketToken (z : Text) : Kind × Nat :=
  let n := run (· ≠ ']') z
  if (z.drop n).head? = some ']' then (.quoted, n + 2) else (.illegal, n + 1)

def numberToken (z : Text) : Kind × Nat :=
  let n := number z
  let tail := run isIdChar (z.drop n)
  (if tail = 0 then .number else .illegal, max 1 (n + tail))

def parameterToken (z : Text) : Kind × Nat :=
  ((parameter 0 z).fst, 1 + (parameter 0 z).snd)

-- A blob, after its first two characters.
def blobToken (z : Text) : Kind × Nat :=
  let n := run isHexDigit z
  if (z.drop n).head? = some singleQuote && n % 2 = 0 then
    (.quoted, n + 3)
  else
    let n := n + run (· ≠ singleQuote) (z.drop n)
    (.illegal, if (z.drop n).head? = some singleQuote then n + 3 else n + 2)

-- The operators of one character, and those that may have another one after them.
def isOperator (c : Char) : Bool :=
  c = '+' || c = '*' || c = '%' || c = ',' || c = '&' || c = '~' || c = '=' || c = '<' || c = '>' || c = '|' ||
  c = '.'

def operatorToken (c : Char) (z : Text) : Kind × Nat :=
  let follows := fun d => z.head? = some d
  let two :=
    c = '=' && follows '=' || c = '<' && (follows '=' || follows '>' || follows '<') ||
    c = '>' && (follows '=' || follows '>') || c = '|' && follows '|'
  (.operator, if two then 2 else 1)

end Kinds

-- The kind and the length of the token at the beginning of `c :: z`.
def getToken (c : Char) (z : Text) : Kind × Nat :=
  if c = ' ' || c.toNat = 9 || c.toNat = 10 || c.toNat = 12 || c.toNat = 13 then
    (.space, 1 + run isSpace z)
  else if c = byteOrderMark then (.space, 1)
  else if c = '-' then minusToken z
  else if c = '/' then slashToken z
  else if c = ';' then (.semicolon, 1)
  else if c = '(' then (.leftParen, 1)
  else if c = ')' then (.rightParen, 1)
  else if c = '!' then if z.head? = some '=' then (.operator, 2) else (.illegal, 1)
  else if c = singleQuote || c = doubleQuote || c = backquote then quotedToken c z
  else if c = '[' then bracketToken z
  else if c.isDigit || c = '.' && z.head?.any Char.isDigit then numberToken (c :: z)
  else if isOperator c then operatorToken c z
  else if c = '?' then (.parameter, 1 + digits z)
  else if c = '$' || c = '@' || c = ':' || c = '#' then parameterToken z
  else if (c = 'x' || c = 'X') && z.head? = some singleQuote then blobToken (z.drop 1)
  else if isIdStart c then (.word, 1 + run isIdChar z)
  else (.illegal, 1)

-- The tokens after the next `skip` characters.
def tokensFrom : Nat → Text → List Token
  | _, []            => []
  | skip + 1, _ :: z => tokensFrom skip z
  | 0, c :: z        =>
    if c = nul then []
    else
      let (kind, n) := getToken c z
      { kind, text := (c :: z).take n, rest := (c :: z).drop n } :: tokensFrom (n - 1) z

def tokens (z : Text) : List Token :=
  tokensFrom 0 z

section Statements

-- What SQLite skips.
def Kind.Skipped (k : Kind) : Prop :=
  k = .space ∨ k = .lineComment ∨ k = .blockComment ∨ k = .openComment

instance {k : Kind} : Decidable k.Skipped :=
  inferInstanceAs <| Decidable (_ ∨ _)

def statementVerbs : List String := [
  "ALTER", "ANALYZE", "ATTACH", "BEGIN", "COMMIT", "CREATE", "DELETE", "DETACH", "DROP", "END", "EXPLAIN",
  "INSERT", "PRAGMA", "REINDEX", "RELEASE", "REPLACE", "ROLLBACK", "SAVEPOINT", "SELECT", "UPDATE",
  "VACUUM", "VALUES", "WITH"
]

-- A keyword in capital letters. Keywords are ASCII.
def Token.verb (t : Token) : Option String :=
  if t.kind = .word then
    statementVerbs.find? fun verb => verb.toList = t.text.map Char.toUpper
  else
    none

-- The verb of a statement after its common table expressions, outside of all parentheses.
def mainVerb : Nat → List Token → Option String
  | _, []          => none
  | depth, t :: ts =>
    match t.kind with
    | .leftParen  => mainVerb (depth + 1) ts
    | .rightParen => mainVerb (depth - 1) ts
    | _           =>
      if depth = 0 && t.verb.any (· ∈ ["SELECT", "VALUES", "INSERT", "REPLACE", "UPDATE", "DELETE"]) then
        t.verb
      else
        mainVerb depth ts

-- The verb by which a text is a statement, if it is one.
def topVerb (ts : List Token) : Option String :=
  match ts.filter fun t => ¬t.kind.Skipped with
  | []      => none
  | t :: ts => if t.verb = some "WITH" then mainVerb 0 ts else t.verb

end Statements

end Sql
