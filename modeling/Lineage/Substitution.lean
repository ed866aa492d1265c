import Lineage.Entity

/-!
# Substitutions

A substitution replaces type variables by types. It remembers the order in which its variables
were first entered; no variable has two entries. Substitutions act on types and on signatures,
and compose.
-/

namespace Lineage

structure Subst where
  entries : List (TypeVarId × Ty) := []
  nodup : (entries.map Prod.fst).Nodup := by simp
  deriving DecidableEq

namespace Subst

/-- The substitution that changes nothing. -/
def empty : Subst := {}

def size (s : Subst) : Nat := s.entries.length

/-- The type that replaces a variable. -/
def get? (s : Subst) (v : TypeVarId) : Option Ty := s.entries.lookup v

/-- The variables that are replaced. -/
def keys (s : Subst) : List TypeVarId := s.entries.map Prod.fst

/-- Replaces the type of an entry and leaves the order alone. -/
def replace (v : TypeVarId) (t : Ty) (entries : List (TypeVarId × Ty)) : List (TypeVarId × Ty) :=
  entries.map fun e => if e.1 = v then (v, t) else e

theorem map_fst_replace (v : TypeVarId) (t : Ty) (entries : List (TypeVarId × Ty)) :
    (replace v t entries).map Prod.fst = entries.map Prod.fst := by
  induction entries with
  | nil => rfl
  | cons e rest ih =>
    simp only [replace, List.map_cons, List.cons.injEq] at ih ⊢
    refine ⟨?_, ih⟩
    split
    · next h => exact h.symm
    · rfl

/-- Enters a type for a variable. A variable that has an entry keeps its place. -/
def insert (s : Subst) (v : TypeVarId) (t : Ty) : Subst :=
  if h : v ∈ s.keys then
    { entries := replace v t s.entries
      nodup := by rw [map_fst_replace]; exact s.nodup }
  else
    { entries := s.entries ++ [(v, t)]
      nodup := by
        rw [List.map_append, List.nodup_append]
        refine ⟨s.nodup, by simp, ?_⟩
        intro a ha b hb hab
        simp only [List.map_cons, List.map_nil, List.mem_singleton] at hb
        exact h (hb ▸ hab ▸ ha) }

/-- The entries one after the other; a later one for the same variable wins. -/
def ofList (entries : List (TypeVarId × Ty)) : Subst :=
  entries.foldl (fun s e => s.insert e.1 e.2) {}

/-- Renames variables position by position, as far as both lists reach. -/
def positional (source target : List TypeVarId) : Subst :=
  ofList ((source.zip target).map fun e => (e.1, .var e.2))

/-! ## Action -/

def applyType (s : Subst) : Ty → Ty
  | .var v => (s.get? v).getD (.var v)
  | .array element => .array (s.applyType element)
  | t => t

def applyTypes (s : Subst) (ts : List Ty) : List Ty := ts.map s.applyType

/-- What becomes of a type parameter: it stays, is renamed, or disappears when a type takes its
place. -/
def applyParam (s : Subst) (v : TypeVarId) : Option TypeVarId :=
  match s.get? v with
  | none => some v
  | some (.var renamed) => some renamed
  | some _ => none

/-- The signature with its variables replaced; identity, name and flags stay. -/
def applyMethod (s : Subst) (m : Method) : Method :=
  { m with
    params := s.applyTypes m.params
    returnType := s.applyType m.returnType
    throws := s.applyTypes m.throws
    typeParams := m.typeParams.filterMap s.applyParam }

/-! ## Composition -/

/-- Enters a type for a variable that has no entry, and leaves alone one that has. -/
def insertNew (s : Subst) (v : TypeVarId) (t : Ty) : Subst :=
  if v ∈ s.keys then s else s.insert v t

/-- First `s`, then `next`: the entries of `s` with `next` applied to them, and then the entries of
`next` for variables that have none. -/
def compose (s next : Subst) : Subst :=
  next.entries.foldl (fun entered e => entered.insertNew e.1 e.2)
    (ofList (s.entries.map fun e => (e.1, next.applyType e.2)))

/-- The two substitutions replace the same variables by the same types, in whatever order. -/
def sameMap (a b : Subst) : Bool :=
  a.size == b.size && a.entries.all fun e => b.get? e.1 == some e.2

end Subst

end Lineage
