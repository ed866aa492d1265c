import Lineage.Settings.Basic
import Lineage.Text.Quoted
import Lineage.Toml.Value

/-!
# Settings from a document

A document describes settings if it has no other keys than the known ones and each has a value
of the right kind. Entries are looked at in order and the first problem is reported. A group of
settings may also be written as an array of its values in their fixed order.
-/

namespace Lineage.Settings

open Toml (Value)

/-- What a value is, in the words of a message. -/
def describe : Value → String
  | .string s => "string " ++ Text.quoted s
  | .integer n => "integer `" ++ toString n ++ "`"
  | .float x => "floating point `" ++ x.text ++ "`"
  | .boolean b => "boolean `" ++ (if b then "true" else "false") ++ "`"
  | .datetime => "map"
  | .array _ => "sequence"
  | .table _ => "map"

def wrongType (v : Value) (expected : String) : String :=
  "invalid type: " ++ describe v ++ ", expected " ++ expected

/-- The known keys, in the words of a message. -/
def oneOf : List String → String
  | [a] => "expected `" ++ a ++ "`"
  | [a, b] => "expected `" ++ a ++ "` or `" ++ b ++ "`"
  | keys => "expected one of " ++ ", ".intercalate (keys.map fun k => "`" ++ k ++ "`")

def unknownKey (key : String) (known : List String) : String :=
  "unknown field `" ++ key ++ "`, " ++ oneOf known

def asString : Value → Except String String
  | .string s => pure s
  | v => throw (wrongType v "a string")

def asBool : Value → Except String Bool
  | .boolean b => pure b
  | v => throw (wrongType v "a boolean")

def asNat : Value → Except String Nat
  | .integer n =>
    if 0 ≤ n then pure n.toNat
    else throw ("invalid value: integer `" ++ toString n ++ "`, expected usize")
  | v => throw (wrongType v "usize")

/-- A group of settings that can be set key by key. -/
structure Group (α : Type) where
  default : α
  /-- The keys in their fixed order, each with what it does to the group. -/
  setters : List (String × (α → Value → Except String α))

namespace Group

variable {α : Type} (g : Group α)

/-- Sets one key. -/
def set (a : α) (key : String) (v : Value) : Except String α :=
  match g.setters.lookup key with
  | some setter => setter a v
  | none => throw (unknownKey key (g.setters.map Prod.fst))

/-- Sets the keys of a table in order, starting from the defaults. -/
def ofEntries (entries : List (String × Value)) : Except String α :=
  entries.foldlM (fun a (key, v) => g.set a key v) g.default

/-- Reads a group from a table, or from an array by position. Elements beyond the last key are
ignored. A date counts as a table with one private key. Messages call the group by `name`. -/
def decode (name : String) : Value → Except String α
  | .table entries => g.ofEntries entries
  | .array items =>
    (items.zip (g.setters.map Prod.snd)).foldlM (fun a (v, setter) => setter a v) g.default
  | .datetime => throw (unknownKey "$__toml_private_datetime" (g.setters.map Prod.fst))
  | v => throw (wrongType v ("struct " ++ name))

end Group

def loggingGroup : Group Logging where
  default := {}
  setters :=
    [("level", fun l v => do return { l with level := ← asString v }),
     ("json", fun l v => do return { l with json := ← asBool v }),
     ("stderr", fun l v => do return { l with stderr := ← asBool v })]

def checkerGroup : Group Checker where
  default := {}
  setters :=
    [("max_hierarchy_depth", fun c v => do return { c with maxHierarchyDepth := ← asNat v })]

def settingsGroup : Group Settings where
  default := {}
  setters :=
    [("logging", fun s v => do
        return { s with logging := ← loggingGroup.decode "LoggingConfig" v }),
     ("checker", fun s v => do
        return { s with checker := ← checkerGroup.decode "CheckerConfig" v })]

/-- The settings that a document describes. -/
def decode (entries : List (String × Value)) : Except String Settings :=
  settingsGroup.ofEntries entries

end Lineage.Settings
