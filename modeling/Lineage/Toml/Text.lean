import Lineage.Toml.Scan

/-!
# Strings

Basic strings have escapes, literal strings have none; both exist in a form that spans lines. In
the long forms a line break right after the opening is dropped, and up to two quotes may stand
before the closing ones.
-/

namespace Lineage.Toml

/-- The value of a hexadecimal digit. -/
def hexDigit? (c : Char) : Option Nat :=
  if c.isDigit then some (c.toNat - '0'.toNat)
  else if 'a' ≤ c && c ≤ 'f' then some (c.toNat - 'a'.toNat + 10)
  else if 'A' ≤ c && c ≤ 'F' then some (c.toNat - 'A'.toNat + 10)
  else none

/-- The character with a code point in hexadecimal; not every number is one. -/
def codePoint? (digits : List Char) : Option Char := do
  let values ← digits.mapM hexDigit?
  let n := values.foldl (fun n d => 16 * n + d) 0
  if n.isValidChar then some (Char.ofNat n) else none

/-- The character that a letter after a backslash stands for. -/
def escape? : Char → Option Char
  | 'b' => some '\x08'
  | 't' => some '\t'
  | 'n' => some '\n'
  | 'f' => some '\x0c'
  | 'r' => some '\r'
  | '"' => some '"'
  | '\\' => some '\\'
  | _ => none

/-- A character that may stand in a basic string as it is. -/
def isBasicChar (c : Char) : Bool := isCommentChar c && c != '"' && c != '\\'

/-- A character that may stand in a literal string. -/
def isLiteralChar (c : Char) : Bool := isCommentChar c && c != '\''

/-- A character in front of what was read. -/
def keep (c : Char) : Option (List Char × List Char) → Option (List Char × List Char) :=
  Option.map fun (text, rest) => (c :: text, rest)

/-- The rest of a basic string, up to the closing quote. -/
def basicRest : List Char → Option (List Char × List Char)
  | [] => none
  | '"' :: cs => some ([], cs)
  | '\\' :: 'u' :: a :: b :: c :: d :: cs => do
    keep (← codePoint? [a, b, c, d]) (basicRest cs)
  | '\\' :: 'U' :: a :: b :: c :: d :: e :: f :: g :: h :: cs => do
    keep (← codePoint? [a, b, c, d, e, f, g, h]) (basicRest cs)
  | '\\' :: c :: cs => do keep (← escape? c) (basicRest cs)
  | c :: cs => if isBasicChar c then keep c (basicRest cs) else none

/-- The rest of a literal string, up to the closing quote. -/
def literalRest : List Char → Option (List Char × List Char)
  | [] => none
  | '\'' :: cs => some ([], cs)
  | c :: cs => if isLiteralChar c then keep c (literalRest cs) else none

/-- The rest of a long basic string. A backslash at the end of a line drops everything up to the
next character that is not blank; `joining` says that this is going on. -/
def longBasicRest : (joining : Bool) → List Char → Option (List Char × List Char)
  | _, [] => none
  | true, ' ' :: cs => longBasicRest true cs
  | true, '\t' :: cs => longBasicRest true cs
  | true, '\n' :: cs => longBasicRest true cs
  | true, '\r' :: '\n' :: cs => longBasicRest true cs
  | _, '"' :: '"' :: '"' :: '"' :: '"' :: cs => some (['"', '"'], cs)
  | _, '"' :: '"' :: '"' :: '"' :: cs => some (['"'], cs)
  | _, '"' :: '"' :: '"' :: cs => some ([], cs)
  | _, '"' :: cs => keep '"' (longBasicRest false cs)
  | _, '\\' :: 'u' :: a :: b :: c :: d :: cs => do
    keep (← codePoint? [a, b, c, d]) (longBasicRest false cs)
  | _, '\\' :: 'U' :: a :: b :: c :: d :: e :: f :: g :: h :: cs => do
    keep (← codePoint? [a, b, c, d, e, f, g, h]) (longBasicRest false cs)
  | _, '\\' :: c :: cs =>
    match escape? c with
    | some e => keep e (longBasicRest false cs)
    | none => if endsLine (c :: cs) then longBasicRest true (c :: cs) else none
  | _, '\n' :: cs => keep '\n' (longBasicRest false cs)
  | _, '\r' :: '\n' :: cs => keep '\n' (longBasicRest false cs)
  | _, c :: cs => if isBasicChar c then keep c (longBasicRest false cs) else none
where
  /-- Only blanks before the line break. -/
  endsLine (cs : List Char) : Bool := (newline (cs.dropWhile isWhite)).isSome

/-- The rest of a long literal string. -/
def longLiteralRest : List Char → Option (List Char × List Char)
  | [] => none
  | '\'' :: '\'' :: '\'' :: '\'' :: '\'' :: cs => some (['\'', '\''], cs)
  | '\'' :: '\'' :: '\'' :: '\'' :: cs => some (['\''], cs)
  | '\'' :: '\'' :: '\'' :: cs => some ([], cs)
  | '\'' :: cs => keep '\'' (longLiteralRest cs)
  | '\n' :: cs => keep '\n' (longLiteralRest cs)
  | '\r' :: '\n' :: cs => keep '\n' (longLiteralRest cs)
  | c :: cs => if isLiteralChar c then keep c (longLiteralRest cs) else none

def basicString : Scan String := do
  Scan.literal "\""
  return String.ofList (← basicRest)

def literalString : Scan String := do
  Scan.literal "'"
  return String.ofList (← literalRest)

def longBasicString : Scan String := do
  Scan.literal "\"\"\""
  let _ ← Scan.attempt newline
  return String.ofList (← longBasicRest false)

def longLiteralString : Scan String := do
  Scan.literal "'''"
  let _ ← Scan.attempt newline
  return String.ofList (← longLiteralRest)

/-- A string in any of the four forms. -/
def string : Scan String := fun cs =>
  match cs with
  | '"' :: '"' :: '"' :: _ => longBasicString cs
  | '\'' :: '\'' :: '\'' :: _ => longLiteralString cs
  | '"' :: _ => basicString cs
  | _ => literalString cs

/-! ## Keys -/

def isBareKeyChar (c : Char) : Bool := c.isAlphanum || c == '_' || c == '-'

/-- One part of a key: a bare word or a short string. -/
def keyPart : Scan String := do
  white
  let part ← basicString <|> literalString <|> bare
  white
  pure part
where
  bare : Scan String := do return String.ofList (← Scan.span1 isBareKeyChar)

/-- The number of parts of a key, and of levels of nested values, stays below this limit. -/
def nestingLimit : Nat := 80

/-- The parts of a dotted key. -/
def key : Scan (List String) := do
  let parts ← Scan.separated keyPart (Scan.literal ".") (← Scan.bound)
  if parts.length < nestingLimit then pure parts else failure

end Lineage.Toml
