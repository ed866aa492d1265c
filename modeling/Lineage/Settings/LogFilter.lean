import Lineage.Settings.Basic
import Lineage.Text.Blank

/-!
# The log filter

A filter is read from a text of directives with commas between them. How a directive is
written, and what a filter makes of it, is no business of the settings: they choose the text,
and whatever can read filters may be plugged in (`FilterReader`). The directives of the process
environment are put behind the configured ones, so that they win where both speak about the
same target.
-/

namespace Lineage.Settings

/-- The pieces of a text of directives: what stands between commas, unless it is empty. -/
def pieces (text : String) : List String :=
  ((text.toList.splitOn ',').filter fun piece => !piece.isEmpty).map String.ofList

/-- What the settings ask for when they need a filter. -/
structure FilterReader (Filter Directive : Type) where
  /-- The filter of a text, unless the text is invalid. -/
  read? : String → Option Filter
  /-- The filter that directives are added to when there is no text to read. -/
  initial : Filter
  add : Filter → Directive → Filter
  /-- The directive that sets the level info for everything. -/
  info : Directive

namespace Logging

/-- The level names that may be configured in upper or lower case, and what they stand for. -/
def levelNames : List (String × String) :=
  [("trace", "trace"), ("debug", "debug"), ("info", "info"), ("warn", "warn"),
   ("warning", "warn"), ("error", "error")]

/-- The configured level as directives: nothing means the default level, and anything that is not
a level name is taken as it stands. -/
def normalize (level : String) : String :=
  let trimmed := Text.trim level
  if trimmed.isEmpty then "info"
  else (levelNames.lookup (Text.lowercase trimmed)).getD trimmed

variable {Filter Directive : Type} (reader : FilterReader Filter Directive)

/-- The filter of the configured level alone, or of the level info if that cannot be read. -/
def configured (level : String) : Filter :=
  (reader.read? (normalize level)).getD (reader.add reader.initial reader.info)

/-- The filter in effect, given the directives of the process environment. These are added to
the configured ones; if that cannot be read they stand alone, and if they cannot be read at all
they are ignored. -/
def filter (l : Logging) (environment : Option String) : Filter :=
  let overriding := (environment.map Text.trim).filter fun s => !s.isEmpty
  match overriding with
  | none => configured reader l.level
  | some directives =>
    match reader.read? (normalize l.level ++ "," ++ directives) with
    | some f => f
    | none => (reader.read? directives).getD (configured reader l.level)

end Logging

end Lineage.Settings
