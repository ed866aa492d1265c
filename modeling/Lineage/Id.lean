/-!
# Identities

Classes, methods and type variables are known by their position in the store that made them.
Three types keep the three kinds of position apart.
-/

namespace Lineage

/-- The position of a class. -/
structure ClassId where
  index : Nat
  deriving DecidableEq, Repr

/-- The position of a method. -/
structure MethodId where
  index : Nat
  deriving DecidableEq, Repr

/-- The position of a type variable. -/
structure TypeVarId where
  index : Nat
  deriving DecidableEq, Repr

def ClassId.inspect (id : ClassId) : String := s!"class#{id.index}"

def MethodId.inspect (id : MethodId) : String := s!"method#{id.index}"

def TypeVarId.inspect (id : TypeVarId) : String := s!"tv#{id.index}"

end Lineage
