import Lineage.Hierarchy

/-!
# Walking up one class at a time

The classes of a superclass chain can be asked for one by one, so that whoever has seen
enough of them does not walk further. A walk keeps what it has met and yields a class only
when it is asked for the next one; a link that leads nowhere is noticed when it is to be
followed, and not before.
-/

namespace Lineage

/-- Where a walk up the superclass links stands. -/
structure SuperclassWalk where
  /-- The class to begin with, until it is taken. -/
  start : Option ClassId
  /-- The class yielded last. -/
  last : Option ClassId := none
  seen : List ClassId := []
  /-- There is nothing more to come. -/
  done : Bool := false
  deriving DecidableEq, Repr

namespace SuperclassWalk

/-- The walk that has yet to yield its first class. -/
def beginAt (start : ClassId) : SuperclassWalk := { start := some start }

/-- Yields a class that the walk has come to, unless it was met before or is one too many. -/
def arrive (env : Env) (w : SuperclassWalk) (id : ClassId) :
    Option (Except TypeError ClassId) × SuperclassWalk :=
  let seen := w.seen.insert id
  if id ∈ w.seen ∨ env.depthLimit < seen.length then
    (some (.error (env.cyclic id)), { w with seen, done := true })
  else (some (.ok id), { w with seen, last := some id })

/-- The next class, the error that ends the walk, or nothing; and where the walk stands then. -/
def next (env : Env) (w : SuperclassWalk) : Option (Except TypeError ClassId) × SuperclassWalk :=
  if w.done then (none, w)
  else
    match w.start, w.last with
    | some id, _ => arrive env { w with start := none } id
    | none, none => (none, w)
    | none, some prev =>
      match env.superclassOf prev with
      | .ok (some id) => arrive env w id
      | .ok none => (none, { w with done := true })
      | .error e => (some (.error e), { w with done := true })

/-- Where the walk stands after it has been asked `n` times. -/
def after (env : Env) (w : SuperclassWalk) : (n : Nat) → SuperclassWalk
  | 0 => w
  | n + 1 => after env (w.next env).2 n

/-- What the walk yields when it has been asked `n` times before. -/
def answer (env : Env) (w : SuperclassWalk) (n : Nat) : Option (Except TypeError ClassId) :=
  ((w.after env n).next env).1

end SuperclassWalk

end Lineage
