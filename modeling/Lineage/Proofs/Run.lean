import Lineage.Build
import Lineage.Proofs.Definition
import Lineage.Store.Builtin
import Mathlib.Logic.Relation

/-!
# Runs of a store

A store comes with the built-in classes and changes through nine calls, each of
which may be refused. `after` is the store that a call leaves behind, whatever its
outcome, and `Reachable` collects the stores of all runs. The build passes take
their handles as values; a run may use any handle, not only those that earlier
calls of the same run gave out.

Nine calls, but only four things ever happen to a store: a new name is interned, a
variable is added, a variable gets its owner, and an admissible class is defined.
`Step` lists them with their guards, every call is shown to be a sequence of them,
and `reachable_induction` turns what one step preserves into what every run does.
-/

namespace Lineage.Proofs

open Store Relation

/-! ## Calls -/

/-- One call that may change a store. -/
inductive Change where
  | intern (name : String)
  | addClass (decl : ClassDecl)
  | define (id : ClassId) (decl : ClassDecl)
  | addTypeParam (decl : TypeParamDecl)
  | bindTypeParam (v : TypeVarId) (owner : Owner)
  | declare (decl : ClassDecl) (params : List TypeParamDecl)
  | attach (d : DeclaredClass) (superclass : Option Ty) (interfaces : List Ty)
  | methodTypeParam (a : AttachedClass) (decl : TypeParamDecl)
  | check (b : AssembledClass)

/-- The store that a call leaves behind, refused or not. -/
def after (s : Store) : Change → Store
  | .intern name => (s.intern name).1
  | .addClass decl => (s.addClass decl).1
  | .define id decl => (s.define id decl).1
  | .addTypeParam decl => (s.addTypeParam decl).1
  | .bindTypeParam v owner =>
    match s.bindTypeParam v owner with
    | .ok s => s
    | .error _ => s
  | .declare decl params => (s.declare decl params).1
  | .attach d superclass interfaces => (d.attach s superclass interfaces).1
  | .methodTypeParam a decl => (a.methodTypeParam s decl).1
  | .check b => (b.check s).1

/-- The stores of all runs. -/
inductive Reachable : Store → Prop where
  | builtin : Reachable Store.builtin
  | withSettings (settings : Settings.Checker) : Reachable (Store.withSettings settings)
  | tail {s : Store} (c : Change) : Reachable s → Reachable (after s c)

/-- The store after a run of calls. -/
def afterAll (s : Store) (cs : List Change) : Store := cs.foldl after s

theorem reachable_afterAll {s : Store} (h : Reachable s) (cs : List Change) :
    Reachable (afterAll s cs) := by
  induction cs generalizing s with
  | nil => exact h
  | cons c cs ih => exact ih (Reachable.tail c h)

/-! ## Steps -/

/-- The store with one more name. -/
def interned (s : Store) (name : String) : Store :=
  { s with slots := s.slots.push { name }, names := (name, ⟨s.slots.size⟩) :: s.names }

/-- The four things that happen to a store. -/
inductive Step : Store → Store → Prop where
  | intern {s : Store} {name : String} : s.idOf? name = none → Step s (interned s name)
  | addTypeParam (s : Store) (decl : TypeParamDecl) : Step s (s.addTypeParam decl).1
  | setOwner {s : Store} {o : Owner} {v : TypeVarId} :
      Bindable s o v → Step s (s.setOwner o v)
  | define {s s' : Store} {id : ClassId} {decl : ClassDecl} :
      Defines s id decl s' → Step s s'

abbrev Steps : Store → Store → Prop := ReflTransGen Step

theorem steps_intern (s : Store) (name : String) : Steps s (s.intern name).1 := by
  unfold intern
  cases h : s.idOf? name with
  | some id => exact ReflTransGen.refl
  | none => exact ReflTransGen.single (Step.intern h)

theorem steps_addTypeParams (s : Store) (decls : List TypeParamDecl) :
    Steps s (s.addTypeParams decls).1 := by
  induction decls generalizing s with
  | nil => exact ReflTransGen.refl
  | cons decl decls ih =>
      exact ReflTransGen.head (Step.addTypeParam s decl) (ih (s.addTypeParam decl).1)

/-- Also a loop that is refused half way only gave variables their owner. -/
theorem steps_bindTypeParams (o : Owner) (s : Store) (vs : List TypeVarId) :
    Steps s (bindTypeParams o s vs).1 := by
  induction vs generalizing s with
  | nil => exact ReflTransGen.refl
  | cons v vs ih =>
      rw [bindTypeParams]
      cases h : s.bindTypeParam v o with
      | error e => exact ReflTransGen.refl
      | ok s₁ =>
          -- a variable that takes the owner has none, or this one
          obtain ⟨hv, rfl⟩ := bindTypeParam_eq_ok_iff.mp h
          exact ReflTransGen.head (Step.setOwner hv) (ih _)

theorem steps_define (s : Store) (id : ClassId) (decl : ClassDecl) :
    Steps s (s.define id decl).1 := by
  by_cases h : Admissible s id decl
  · obtain ⟨s', hrun, hdef⟩ := define_of_admissible h
    rw [hrun]
    exact ReflTransGen.single (Step.define hdef)
  · obtain ⟨e, hrun⟩ := define_of_not_admissible h
    rw [hrun]

theorem steps_addClass (s : Store) (decl : ClassDecl) : Steps s (s.addClass decl).1 :=
  (steps_intern s decl.name).trans (steps_define _ _ _)

theorem steps_attach (d : DeclaredClass) (s : Store) (superclass : Option Ty)
    (interfaces : List Ty) : Steps s (d.attach s superclass interfaces).1 := by
  unfold DeclaredClass.attach
  dsimp only
  split
  · exact ReflTransGen.refl
  · split
    · exact ReflTransGen.refl
    · -- past both checks the owners are set, as far as that goes
      have h := steps_bindTypeParams (.cls d.id) s d.typeParams
      split
      · rename_i hrun
        rwa [hrun] at h
      · rename_i hrun
        rwa [hrun] at h

theorem steps_check (b : AssembledClass) (s : Store) : Steps s (b.check s).1 := by
  unfold AssembledClass.check
  have h := steps_define s b.id b.fullDecl
  split
  · exact ReflTransGen.refl
  · split
    · rename_i hrun
      rwa [hrun] at h
    · rename_i hrun
      rw [hrun] at h
      -- the class stays defined whether or not its methods override legally
      split <;> exact h

/-- Every call is a sequence of steps. -/
theorem steps_after (s : Store) (c : Change) : Steps s (after s c) := by
  cases c with
  | intern name => exact steps_intern s name
  | addClass decl => exact steps_addClass s decl
  | define id decl => exact steps_define s id decl
  | addTypeParam decl => exact ReflTransGen.single (Step.addTypeParam s decl)
  | bindTypeParam v owner =>
      rw [after]
      split
      · rename_i h
        obtain ⟨hv, rfl⟩ := bindTypeParam_eq_ok_iff.mp h
        exact ReflTransGen.single (Step.setOwner hv)
      · exact ReflTransGen.refl
  | declare decl params =>
      exact (steps_intern s decl.name).trans (steps_addTypeParams _ params)
  | attach d superclass interfaces => exact steps_attach d s superclass interfaces
  | methodTypeParam a decl => exact ReflTransGen.single (Step.addTypeParam s decl)
  | check b => exact steps_check b s

/-! ## The built-in classes -/

/-- The store that knows nothing yet. -/
def emptyStore : Store := { wellKnown := wellKnownIds }

theorem steps_foldl {α : Type} (f : Store → α → Store) (hf : ∀ s a, Steps s (f s a))
    (s : Store) (as : List α) : Steps s (as.foldl f s) := by
  induction as generalizing s with
  | nil => exact ReflTransGen.refl
  | cons a as ih => exact (hf s a).trans (ih (f s a))

theorem steps_builtin : Steps emptyStore Store.builtin :=
  (steps_foldl _ steps_intern emptyStore wellKnownNames).trans
    (steps_foldl _ steps_addClass bare builtins)

/-! ## Induction over runs -/

theorem steps_induction {P : Store → Prop} (hstep : ∀ {s s'}, Step s s' → P s → P s')
    {s s' : Store} (h : Steps s s') (hs : P s) : P s' := by
  induction h with
  | refl => exact hs
  | tail _ hst ih => exact hstep hst ih

/-- **What the empty store has and every step keeps, every reachable store has.** -/
theorem reachable_induction {P : Store → Prop} (hempty : P emptyStore)
    (hlimit : ∀ {s} n, P s → P { s with depthLimit := n })
    (hstep : ∀ {s s'}, Step s s' → P s → P s') {s : Store} (h : Reachable s) : P s := by
  -- the built-in store is itself the end of a run, from the empty one
  have hbuiltin : P Store.builtin := steps_induction hstep steps_builtin hempty
  induction h with
  | builtin => exact hbuiltin
  | withSettings settings => exact hlimit _ hbuiltin
  | tail c _ ih => exact steps_induction hstep (steps_after _ c) ih

end Lineage.Proofs
