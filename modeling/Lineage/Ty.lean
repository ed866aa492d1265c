import Lineage.Error
import Lineage.Id
import Lineage.Primitive
import Lineage.Text.Quoted

/-!
# Types

A type is a primitive, the type of `null`, an array, a class, a type variable, a package (which
is no type of values, but can stand where a name is read), or a name that has not been resolved
yet. A type without unresolved names is called canonical; the questions that the checker answers
are asked about canonical types only.
-/

namespace Lineage

inductive Ty where
  | prim (p : Primitive)
  | null
  | array (element : Ty)
  | cls (id : ClassId)
  | var (id : TypeVarId)
  | package (name : String)
  | named (name : String)
  deriving DecidableEq, Repr

namespace Ty

def isPrimitive : Ty → Bool
  | prim _ => true
  | _ => false

def isNumeric : Ty → Bool
  | prim p => p.isNumeric
  | _ => false

/-- The values of the type are references. -/
def isReference : Ty → Bool
  | null | array _ | cls _ | var _ => true
  | _ => false

def primitive? : Ty → Option Primitive
  | prim p => some p
  | _ => none

def class? : Ty → Option ClassId
  | cls id => some id
  | _ => none

def element? : Ty → Option Ty
  | array element => some element
  | _ => none

/-- The innermost element of the type is an unresolved name. -/
def isAmbiguous : Ty → Bool
  | named _ => true
  | array element => element.isAmbiguous
  | _ => false

/-- The constructors of the type spelled out, for diagnostics. -/
def inspect : Ty → String
  | prim p => "Primitive(" ++ p.inspect ++ ")"
  | null => "Null"
  | array element => "Array(" ++ element.inspect ++ ")"
  | cls id => "Class(" ++ id.inspect ++ ")"
  | var id => "TypeVar(" ++ id.inspect ++ ")"
  | package name => "Package(" ++ Text.quoted name ++ ")"
  | named name => "Named(" ++ Text.quoted name ++ ")"

/-- Refuses a type that still contains an unresolved name. -/
def ensureCanonical (t : Ty) : Except TypeError Unit :=
  if t.isAmbiguous then
    throw (.internal ("unresolved type " ++ t.inspect ++ " reached the type checker"))
  else pure ()

/-- The type without its array dimensions. -/
def innermost : Ty → Ty
  | array element => element.innermost
  | t => t

/-- The number of array dimensions. -/
def dimensions : Ty → Nat
  | array element => element.dimensions + 1
  | _ => 0

/-- The constant fits the type without a cast. -/
def admits (t : Ty) (value : Int) : Bool :=
  match t with
  | prim p => p.admits value
  | _ => false

end Ty

end Lineage
