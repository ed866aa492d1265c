import Lineage.FileTree

/-!
# Settings

What a user can configure: how the checker logs, and how far it follows a hierarchy. The depth
must lie between one and an upper limit.
-/

namespace Lineage.Settings

/-- How the checker logs. `level` is a level name or a list of filter directives. -/
structure Logging where
  level : String := "info"
  json : Bool := false
  stderr : Bool := true
  deriving DecidableEq, Repr

/-- The number of links that a walk may follow unless the user says otherwise. -/
def defaultDepth : Nat := 256

/-- The largest depth that a user may ask for. -/
def depthLimit : Nat := 65536

/-- How far the checker follows a hierarchy. -/
structure Checker where
  maxHierarchyDepth : Nat := defaultDepth
  deriving DecidableEq, Repr

end Lineage.Settings

namespace Lineage

structure Settings where
  logging : Settings.Logging := {}
  checker : Settings.Checker := {}
  deriving DecidableEq, Repr

namespace Settings

/-- Why settings could not be loaded. A text that is no document at all is told apart from a
document that does not describe settings. -/
inductive LoadError where
  | unreadable (path : String) (cause : ReadError)
  | malformed
  | undecodable (detail : String)
  | invalid (key detail : String)
  deriving DecidableEq, Repr

def LoadError.message : LoadError → String
  | unreadable path cause => "failed to read config file " ++ path ++ ": " ++ cause.message
  | malformed => "failed to parse toml config"
  | undecodable detail => "failed to parse toml config: " ++ detail
  | invalid key detail => "invalid value for `" ++ key ++ "`: " ++ detail

/-- Accepts a depth from one to the limit. -/
def validate (s : Settings) : Except LoadError Unit :=
  if s.checker.maxHierarchyDepth = 0 then
    throw (.invalid "checker.max_hierarchy_depth" "must be >= 1")
  else if depthLimit < s.checker.maxHierarchyDepth then
    throw (.invalid "checker.max_hierarchy_depth" s!"must be <= {depthLimit}")
  else pure ()

end Settings

end Lineage
