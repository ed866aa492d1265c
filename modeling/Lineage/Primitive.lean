/-!
# Primitive types

Seven of the nine primitives are numeric. Their ranks order them by widening: a value of a lower
rank converts to every type of a higher rank.
-/

namespace Lineage

inductive Primitive where
  | boolean
  | void
  | byte
  | short
  | char
  | int
  | long
  | float
  | double
  deriving DecidableEq, Repr

namespace Primitive

/-- Where a numeric primitive stands in the widening order. -/
def rank? : Primitive → Option Nat
  | byte => some 1
  | short => some 2
  | char => some 3
  | int => some 4
  | long => some 5
  | float => some 6
  | double => some 7
  | boolean | void => none

def ofRank? : Nat → Option Primitive
  | 1 => some byte
  | 2 => some short
  | 3 => some char
  | 4 => some int
  | 5 => some long
  | 6 => some float
  | 7 => some double
  | _ => none

theorem ofRank?_eq_some_iff {n : Nat} {p : Primitive} :
    ofRank? n = some p ↔ p.rank? = some n := by
  constructor
  · intro h
    unfold ofRank? at h
    split at h <;> simp_all [rank?] <;> subst h <;> rfl
  · intro h
    cases p <;> simp [rank?] at h <;> subst h <;> rfl

def isNumeric (p : Primitive) : Bool := p.rank?.isSome

/-- A value of the first type converts to the second without a cast because it is wider. -/
def widensTo (source target : Primitive) : Bool :=
  match source.rank?, target.rank? with
  | some a, some b => a < b
  | _, _ => false

/-- The source spelling. -/
def name : Primitive → String
  | boolean => "boolean"
  | void => "void"
  | byte => "byte"
  | short => "short"
  | char => "char"
  | int => "int"
  | long => "long"
  | float => "float"
  | double => "double"

def inspect : Primitive → String
  | boolean => "Boolean"
  | void => "Void"
  | byte => "Byte"
  | short => "Short"
  | char => "Char"
  | int => "Int"
  | long => "Long"
  | float => "Float"
  | double => "Double"

/-- The constant fits the range of an integral type. -/
def admits (p : Primitive) (value : Int) : Bool :=
  match p with
  | long => true
  | int => -2147483648 ≤ value && value ≤ 2147483647
  | char => 0 ≤ value && value ≤ 65535
  | short => -32768 ≤ value && value ≤ 32767
  | byte => -128 ≤ value && value ≤ 127
  | _ => false

end Primitive

end Lineage
