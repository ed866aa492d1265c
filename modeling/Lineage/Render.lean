import Lineage.Environment

/-!
# Source text of types and methods

Messages show types, classes and methods as they are written in source.
-/

namespace Lineage.Env

variable (env : Env)

def renderType : Ty → String
  | .prim p => p.name
  | .null => "null"
  | .array element => renderType element ++ "[]"
  | .cls id => env.displayName id
  | .var id =>
    match env.typeParam? id with
    | some p => p.name
    | none => id.inspect
  | .package name => name
  | .named name => name

def renderTypes (ts : List Ty) : String := ", ".intercalate (ts.map env.renderType)

/-- The parameter list. The last parameter of a variable-arity method is written with an
ellipsis in place of its last dimension. -/
def renderParams (varargs : Bool) : List Ty → List String
  | [] => []
  | [.array element] =>
    [if varargs then env.renderType element ++ "..." else env.renderType (.array element)]
  | t :: rest => env.renderType t :: renderParams varargs rest

/-- The signature: type parameters, name and parameters. -/
def renderMethod (m : Method) : String :=
  let typeParams :=
    if m.typeParams.isEmpty then ""
    else "<" ++ env.renderTypes (m.typeParams.map .var) ++ "> "
  typeParams ++ m.name ++ "(" ++ ", ".intercalate (env.renderParams m.isVarargs m.params) ++ ")"

end Lineage.Env
