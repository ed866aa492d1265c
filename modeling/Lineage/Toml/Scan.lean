/-!
# Scanning

A scanner reads something off the front of a list of characters and returns the rest, or
refuses. Scanners that repeat others are bounded by the length of what is left to read.
-/

namespace Lineage.Toml

abbrev Scan (α : Type) := StateT (List Char) Option α

namespace Scan

/-- Exactly this text. -/
def literal (text : String) : Scan Unit := fun cs =>
  (text.toList.isPrefixOf? cs).map fun rest => ((), rest)

/-- One character of a class. -/
def one (p : Char → Bool) : Scan Char
  | c :: cs => if p c then some (c, cs) else none
  | [] => none

/-- All characters of a class at the front. -/
def span (p : Char → Bool) : Scan (List Char) := fun cs => some (cs.takeWhile p, cs.dropWhile p)

/-- All characters of a class at the front, at least one. -/
def span1 (p : Char → Bool) : Scan (List Char) := do
  let cs ← span p
  if cs.isEmpty then failure else pure cs

/-- Nothing is left. -/
def atEnd : Scan Unit
  | [] => some ((), [])
  | _ :: _ => none

/-- What is read, or nothing without moving on. -/
def attempt {α : Type} (p : Scan α) : Scan (Option α) := fun cs =>
  match p cs with
  | some (a, rest) => some (some a, rest)
  | none => some (none, cs)

/-- Items with separators between them; a separator may also stand at the end. -/
def trailed {α : Type} (item : Scan α) (sep : Scan Unit) : (bound : Nat) → Scan (List α)
  | 0 => pure []
  | bound + 1 => do
    match ← attempt item with
    | none => pure []
    | some a =>
      match ← attempt sep with
      | none => pure [a]
      | some _ => return a :: (← trailed item sep bound)

/-- Items with separators between them, at least one. -/
def separated {α : Type} (item : Scan α) (sep : Scan Unit) : (bound : Nat) → Scan (List α)
  | 0 => failure
  | bound + 1 => do
    let a ← item
    match ← attempt sep with
    | none => pure [a]
    | some _ => return a :: (← separated item sep bound)

/-- The length of what is left to read, which bounds every repetition. -/
def bound : Scan Nat := do return (← get).length + 1

end Scan

/-! ## Blanks and comments -/

def isWhite (c : Char) : Bool := c == ' ' || c == '\t'

/-- A character that may stand in a comment: no control but the tab. -/
def isCommentChar (c : Char) : Bool :=
  c == '\t' || (0x20 ≤ c.toNat && c.toNat ≤ 0x7e) || 0x80 ≤ c.toNat

def white : Scan Unit := do let _ ← Scan.span isWhite

def newline : Scan Unit := Scan.literal "\n" <|> Scan.literal "\x0d\n"

def comment : Scan Unit := do
  Scan.literal "#"
  let _ ← Scan.span isCommentChar

/-- The end of a line: blanks, a comment, and the line break or the end of the text. -/
def lineEnd : Scan Unit := do
  white
  let _ ← Scan.attempt comment
  newline <|> Scan.atEnd

/-- Drops blanks, line breaks and comments. -/
def dropTrivia : (inComment : Bool) → List Char → List Char
  | _, [] => []
  | _, '\n' :: cs => dropTrivia false cs
  | _, '\r' :: '\n' :: cs => dropTrivia false cs
  | false, c :: cs =>
    if isWhite c then dropTrivia false cs
    else if c = '#' then dropTrivia true cs
    else c :: cs
  | true, c :: cs => if isCommentChar c then dropTrivia true cs else c :: cs

def trivia : Scan Unit := fun cs => some ((), dropTrivia false cs)

end Lineage.Toml
