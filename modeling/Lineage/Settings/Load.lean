import Lineage.Settings.Decode
import Lineage.Toml.Document

/-!
# Loading settings

Settings are read from a text, or from a file in a directory tree.
-/

namespace Lineage.Settings

/-- Reads, decodes and validates settings. -/
def ofText (text : String) : Except LoadError Settings :=
  match Toml.parse text with
  | none => throw .malformed
  | some entries =>
    match decode entries with
    | .error detail => throw (.undecodable detail)
    | .ok settings => do
      settings.validate
      pure settings

/-- Loads the settings file at a path. -/
def load (root : FileTree) (path : String) : Except LoadError Settings :=
  match root.read path with
  | .error cause => throw (.unreadable path cause)
  | .ok text => ofText text

end Lineage.Settings
