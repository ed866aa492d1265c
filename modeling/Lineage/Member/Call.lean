import Lineage.Conversion

/-!
# Calls

Whether a list of arguments fits the parameters of a method. A variable-arity method takes its
last parameter either as one array or as any number of elements.
-/

namespace Lineage

/-- A method invocation as it is written. -/
structure MethodCall where
  receiver : Ty
  name : String
  args : List Ty
  deriving DecidableEq, Repr

namespace Env

variable (env : Env)

/-- Every argument converts to the parameter at its position; the lists have the same length. -/
def argsConvert : List Ty → List Ty → Except TypeError Bool
  | [], [] => pure true
  | arg :: args, param :: params => do
    if ← env.converts arg param then argsConvert args params else pure false
  | _, _ => pure false

/-- Every argument converts to the element type. -/
def allConvert (element : Ty) : List Ty → Except TypeError Bool
  | [] => pure true
  | arg :: args => do
    if ← env.converts arg element then allConvert element args else pure false

/-- The arguments after the fixed parameters: any number of elements, or one array. -/
def tailConverts (element : Ty) : List Ty → Except TypeError Bool
  | [arg] => do
    if ← env.converts arg element then pure true else env.converts arg (.array element)
  | args => env.allConvert element args

/-- The arguments of a variable-arity method: the fixed parameters first, then the tail. -/
def varargsConvert (element : Ty) : (params args : List Ty) → Except TypeError Bool
  | [], args => env.tailConverts element args
  | _ :: _, [] => pure false
  | param :: params, arg :: args => do
    if ← env.converts arg param then varargsConvert element params args else pure false

/-- The method can be called with arguments of these types. -/
def callFits (m : Method) (args : List Ty) : Except TypeError Bool :=
  if m.isVarargs then
    match m.params.getLast? with
    | some (.array element) =>
      if args.length + 1 < m.params.length then pure false
      else env.varargsConvert element m.params.dropLast args
    | _ =>
      throw (.internal ("variable-arity method " ++ m.name ++ " has no trailing array parameter"))
  else if args.length ≠ m.params.length then pure false
  else env.argsConvert args m.params

end Env

end Lineage
