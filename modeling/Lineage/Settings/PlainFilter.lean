import Lineage.Settings.LogFilter
import Lineage.Text.Alphanumeric

/-!
# Plain directives

A plain directive sets the level of one target, or the level of everything that no other
directive names. This is the reader that a program without other needs plugs into its settings.
Directives about spans and fields are not plain, and texts with brackets in them are not meant
for it.
-/

namespace Lineage.Settings

/-- How much is logged, from nothing to everything. -/
inductive Level where
  | off
  | error
  | warn
  | info
  | debug
  | trace
  deriving DecidableEq, Repr

namespace Level

def name : Level → String
  | off => "off"
  | error => "error"
  | warn => "warn"
  | info => "info"
  | debug => "debug"
  | trace => "trace"

def all : List Level := [off, error, warn, info, debug, trace]

/-- Levels are numbered from zero, and a plus sign may stand before the number. -/
def ofNumber? (s : String) : Option Level :=
  let digits := match s.toList with
    | '+' :: rest => rest
    | cs => cs
  if !digits.isEmpty && digits.all Char.isDigit then
    all[digits.foldl (fun n c => 10 * n + (c.toNat - '0'.toNat)) 0]?
  else none

/-- A level by its number, or by its name in upper or lower case. -/
def ofString? (s : String) : Option Level :=
  match ofNumber? s with
  | some level => some level
  | none => all.find? fun level => level.name == Text.lowercase s

end Level

/-- The level of one target, or of everything else. -/
structure PlainDirective where
  target : Option String
  level : Level
  deriving DecidableEq, Repr

namespace PlainDirective

def text (d : PlainDirective) : String :=
  match d.target with
  | some target => target ++ "=" ++ d.level.name
  | none => d.level.name

/-- A directive starts with a letter, a digit or one of three marks. -/
def canStart (c : Char) : Bool := c == '-' || c == ':' || c == '_' || Text.isAlphanumeric c

/-- Reads one directive. A target without a level is logged in full, and so is one with an empty
level. -/
def ofString? (piece : String) : Option PlainDirective :=
  let cs := piece.toList
  if !(cs.head?.any canStart) then none
  else
    match cs.dropWhile (· != '=') with
    | [] =>
      match Level.ofString? piece with
      | some level => some { target := none, level }
      | none => some { target := some piece, level := .trace }
    | _ :: rest =>
      let target := some (String.ofList (cs.takeWhile (· != '=')))
      if rest.isEmpty then some { target, level := .trace }
      else (Level.ofString? (String.ofList rest)).map fun level => { target, level }

/-- Longer targets come first, then targets in descending order, and the level for everything
else comes last. -/
def precedes (a b : PlainDirective) : Bool :=
  match a.target, b.target with
  | some x, some y =>
    y.utf8ByteSize < x.utf8ByteSize || (y.utf8ByteSize == x.utf8ByteSize && y < x)
  | some _, none => true
  | none, _ => false

end PlainDirective

/-- Plain directives in order of precedence, at most one for each target. -/
structure PlainFilter where
  directives : List PlainDirective := []
  deriving DecidableEq, Repr

namespace PlainFilter

/-- Puts a directive in its place; it takes the place of one for the same target. -/
def place (d : PlainDirective) : List PlainDirective → List PlainDirective
  | [] => [d]
  | e :: rest =>
    if e.target = d.target then d :: rest
    else if d.precedes e then d :: e :: rest
    else e :: place d rest

def add (f : PlainFilter) (d : PlainDirective) : PlainFilter :=
  { directives := place d f.directives }

/-- Reads directives in order. One that cannot be read spoils the whole text. -/
def ofString? (s : String) : Option PlainFilter := do
  let directives ← (pieces s).mapM PlainDirective.ofString?
  pure (directives.foldl add {})

def text (f : PlainFilter) : String := ",".intercalate (f.directives.map PlainDirective.text)

/-- Filters of plain directives. -/
def reader : FilterReader PlainFilter PlainDirective where
  read? := ofString?
  initial := {}
  add := add
  info := { target := none, level := .info }

end PlainFilter

end Lineage.Settings
