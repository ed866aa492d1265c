/-!
# Modifier flags

A member's modifiers are a set of sixteen bits. The four access levels are read off three of
them: a member that carries none of the three is visible in its package, and when several are
set the widest of public and protected wins, then private.
-/

namespace Lineage

/-- How widely a member may be used, from the narrowest to the widest level. -/
inductive Access where
  | priv
  | pkg
  | prot
  | pub
  deriving DecidableEq, Repr

/-- The position of an access level, counted from the narrowest. -/
def Access.rank : Access → Nat
  | priv => 0
  | pkg => 1
  | prot => 2
  | pub => 3

/-- Orders access levels from the narrowest to the widest. -/
def Access.compare (a b : Access) : Ordering := Ord.compare a.rank b.rank

/-- The modifiers of a class, field or method. -/
structure Flags where
  bits : UInt16 := 0
  deriving DecidableEq, Repr

namespace Flags

def none : Flags := ⟨0⟩
def pub : Flags := ⟨0x0001⟩
def priv : Flags := ⟨0x0002⟩
def prot : Flags := ⟨0x0004⟩
def static : Flags := ⟨0x0008⟩
def final : Flags := ⟨0x0010⟩
def varargs : Flags := ⟨0x0080⟩
def interface : Flags := ⟨0x0200⟩
def abstract : Flags := ⟨0x0400⟩
def enum : Flags := ⟨0x4000⟩

def union (a b : Flags) : Flags := ⟨a.bits ||| b.bits⟩

/-- The modifiers of `a` that are not in `b`. -/
def without (a b : Flags) : Flags := ⟨a.bits &&& ~~~b.bits⟩

/-- Every modifier of `b` is in `a`. -/
def contains (a b : Flags) : Bool := a.bits &&& b.bits == b.bits

instance : Union Flags := ⟨union⟩

def isPublic (f : Flags) : Bool := f.contains pub
def isPrivate (f : Flags) : Bool := f.contains priv
def isProtected (f : Flags) : Bool := f.contains prot

/-- None of the three access modifiers is set. -/
def isPackage (f : Flags) : Bool := f.bits &&& 0x0007 == 0

def isStatic (f : Flags) : Bool := f.contains static
def isFinal (f : Flags) : Bool := f.contains final
def isAbstract (f : Flags) : Bool := f.contains abstract
def isInterface (f : Flags) : Bool := f.contains interface
def isVarargs (f : Flags) : Bool := f.contains varargs
def isEnum (f : Flags) : Bool := f.contains enum

/-- The access level: public before protected before private; none of them is package access. -/
def access (f : Flags) : Access :=
  if f.isPublic then .pub
  else if f.isProtected then .prot
  else if f.isPrivate then .priv
  else .pkg

/-- `a` grants a strictly narrower access than `b`. -/
def moreRestrictive (a b : Flags) : Bool := a.access.rank < b.access.rank

/-- The modifiers that have a source spelling, in the order in which they are written. -/
def spellings : List (Flags × String) :=
  [(pub, "public"), (prot, "protected"), (priv, "private"), (abstract, "abstract"),
   (static, "static"), (final, "final"), (enum, "enum")]

/-- The modifiers as source text, separated by blanks. -/
def text (f : Flags) : String :=
  " ".intercalate ((spellings.filter fun s => f.contains s.1).map Prod.snd)

/-- Four hexadecimal digits. -/
def hex (f : Flags) : String :=
  let digits := Nat.toDigits 16 f.bits.toNat
  String.ofList (List.replicate (4 - digits.length) '0' ++ digits)

/-- The bits and their spelling, for diagnostics. -/
def inspect (f : Flags) : String := "Flags(0x" ++ f.hex ++ " \"" ++ f.text ++ "\")"

end Flags

end Lineage
