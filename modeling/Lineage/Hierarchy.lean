import Lineage.Render

/-!
# Walks over the class hierarchy

Links are followed one class at a time and may lead anywhere: to a class that is not defined, to
a name that means nothing, or back to where the walk began. Every walk therefore carries the
number of classes it may still visit; running out is reported as cyclic inheritance, like a
class met twice.
-/

namespace Lineage

/-- What a walk up the superclass links yields: the classes in order, and the error that ended
the walk early, if one did. -/
structure Chain where
  classes : List ClassId
  failure : Option TypeError := none
  deriving DecidableEq, Repr

/-- The chain one class further down. -/
def Chain.cons (id : ClassId) (c : Chain) : Chain := { c with classes := id :: c.classes }

namespace Env

variable (env : Env)

def cyclic (id : ClassId) : TypeError := .cyclicInheritance (env.displayName id)

/-! ## Links -/

/-- The class that a supertype link leads to. -/
def resolveLink : Ty → Except TypeError ClassId
  | .cls id => pure id
  | .named name => env.find name
  | t => throw (.internal ("supertype link " ++ t.inspect ++ " is not a class type"))

/-- The class that a class extends. -/
def superclassOf (id : ClassId) : Except TypeError (Option ClassId) := do
  let c ← env.classDef id
  match c.superclass with
  | some link => some <$> env.resolveLink link
  | none => pure none

/-- The interfaces that a class or interface lists. They resolve together or not at all. -/
def interfacesOf (id : ClassId) : Except TypeError (List ClassId) := do
  let c ← env.classDef id
  c.interfaces.mapM env.resolveLink

/-! ## The superclass chain -/

/-- Walks up from `id` with room for `budget` more classes beyond those in `seen`. -/
def chainFrom : (budget : Nat) → (seen : List ClassId) → ClassId → Chain
  | 0, _, id => { classes := [], failure := some (env.cyclic id) }
  | budget + 1, seen, id =>
    if id ∈ seen then { classes := [], failure := some (env.cyclic id) }
    else
      match env.superclassOf id with
      | .ok (some parent) => (chainFrom budget (id :: seen) parent).cons id
      | .ok none => { classes := [id] }
      | .error e => { classes := [id], failure := some e }

/-- The class itself and everything that it extends, nearest first. The start is part of the
chain even if it is not defined. -/
def superclassChain (start : ClassId) : Chain := env.chainFrom env.depthLimit [] start

/-- The classes of a chain that came to its end. -/
def completeChain (start : ClassId) : Except TypeError (List ClassId) :=
  let chain := env.superclassChain start
  match chain.failure with
  | some e => throw e
  | none => pure chain.classes

/-! ## The supertype closure -/

/-- Visits `id` and everything above it, superclass before interfaces, where `path` leads to
`id` and what is in `finished` has been visited before. Returns what is finished afterwards, and
fails if a path meets itself or grows beyond its budget. -/
def visitSupertypes : (budget : Nat) → (path finished : List ClassId) → ClassId →
    Except TypeError (List ClassId)
  | budget, path, finished, id =>
    if id ∈ finished then pure finished
    else
      match budget with
      | 0 => throw (env.cyclic id)
      | budget + 1 =>
        if id ∈ path then throw (env.cyclic id)
        else do
          let finished ←
            match ← env.superclassOf id with
            | some parent => visitSupertypes budget (id :: path) finished parent
            | none => pure finished
          let interfaces ← env.interfacesOf id
          let finished ←
            interfaces.foldlM (fun finished i => visitSupertypes budget (id :: path) finished i)
              finished
          pure (id :: finished)

/-- Everything above a class and the class itself, or the reason why the hierarchy above it is
broken. -/
def reachableSupertypes (start : ClassId) : Except TypeError (List ClassId) :=
  env.visitSupertypes env.depthLimit [] [] start

/-- The elements of a list that are not in `known`, each once, in order. -/
def freshIn (known : List ClassId) : List ClassId → List ClassId
  | [] => []
  | i :: rest => if i ∈ known then freshIn known rest else i :: freshIn (i :: known) rest

/-- Widens `done ++ pending` by the interfaces of the pending classes, in order of discovery. A
class is expanded once, so as many rounds as there are supertypes suffice. -/
def expandInterfaces : (rounds : Nat) → (done pending : List ClassId) →
    Except TypeError (List ClassId)
  | _, done, [] => pure done
  | 0, done, pending => pure (done ++ pending)
  | rounds + 1, done, c :: rest => do
    let interfaces ← env.interfacesOf c
    expandInterfaces rounds (done ++ [c]) (rest ++ freshIn (done ++ c :: rest) interfaces)

/-- The class, its superclasses from the nearest, and then the interfaces of all of them in
breadth-first order. -/
def supertypeClosure (start : ClassId) : Except TypeError (List ClassId) := do
  let reachable ← env.reachableSupertypes start
  let chain ← env.completeChain start
  env.expandInterfaces reachable.length [] chain

/-! ## Enclosing classes -/

/-- Walks outwards through the classes that lexically enclose one another. -/
def enclosingFrom : (budget : Nat) → (seen : List ClassId) → Option ClassId →
    Except TypeError (List ClassId)
  | _, _, none => pure []
  | 0, _, some outer => throw (env.cyclic outer)
  | budget + 1, seen, some outer =>
    if outer ∈ seen then throw (env.cyclic outer)
    else do
      let c ← env.classDef outer
      let rest ← enclosingFrom budget (outer :: seen) c.outer
      pure (outer :: rest)

/-- The classes around a class, innermost first. -/
def enclosingClasses (id : ClassId) : Except TypeError (List ClassId) := do
  let c ← env.classDef id
  env.enclosingFrom env.depthLimit [id] c.outer

/-- `outer` lexically encloses `inner`. -/
def isEnclosed (inner outer : ClassId) : Except TypeError Bool := do
  let around ← env.enclosingClasses inner
  pure (around.contains outer)

end Env

end Lineage
