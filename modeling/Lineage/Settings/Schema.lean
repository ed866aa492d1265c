import Lineage.Json
import Lineage.Settings.Basic

/-!
# The schema of the settings

A JSON schema that editors can use to check and complete a settings file.
-/

namespace Lineage.Settings

open Json

def checkerSchema : Json :=
  obj [
    ("type", str "object"),
    ("additionalProperties", bool false),
    ("properties", obj [
      ("max_hierarchy_depth", obj [
        ("type", str "integer"),
        ("format", str "uint"),
        ("default", int defaultDepth),
        ("minimum", decimal 1 ['0']),
        ("maximum", decimal depthLimit ['0']),
        ("description", str ("Upper bound on the number of links followed by any supertype, " ++
          "interface or enclosing-class walk. Walks that exceed it are reported as cyclic " ++
          "inheritance."))])])]

def loggingSchema : Json :=
  obj [
    ("type", str "object"),
    ("additionalProperties", bool false),
    ("properties", obj [
      ("json", obj [
        ("type", str "boolean"),
        ("default", bool false),
        ("description", str "Emit logs in JSON format.")]),
      ("level", obj [
        ("type", str "string"),
        ("default", str "info"),
        ("description", str ("Logging level for all Strata crates.\n\nEither a simple level " ++
          "(`info`, `debug`, ...) or a full `EnvFilter` directive string such as " ++
          "`strata.types=trace,info`."))]),
      ("stderr", obj [
        ("type", str "boolean"),
        ("default", bool true),
        ("description", str "Mirror logs to stderr.")])])]

/-- The schema of a whole settings file. -/
def schema : Json :=
  obj [
    ("$schema", str "http://json-schema.org/draft-07/schema#"),
    ("title", str "StrataConfig"),
    ("type", str "object"),
    ("additionalProperties", bool false),
    ("properties", obj [
      ("checker", obj [
        ("allOf", arr [obj [("$ref", str "#/definitions/CheckerConfig")]]),
        ("default", obj [("max_hierarchy_depth", int defaultDepth)])]),
      ("logging", obj [
        ("allOf", arr [obj [("$ref", str "#/definitions/LoggingConfig")]]),
        ("default", obj [
          ("json", bool false), ("level", str "info"), ("stderr", bool true)])])]),
    ("definitions", obj [
      ("CheckerConfig", checkerSchema),
      ("LoggingConfig", loggingSchema)])]

end Lineage.Settings
