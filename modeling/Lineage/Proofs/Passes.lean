import Lineage.Build
import Lineage.Proofs.Header

/-!
# Building in passes

A class is built through handles: a declared class is turned into an attached one, that
into an assembled one, and that is checked. Anything may happen to the store between
two passes. `Issued` relates a store to the handles that a run up to it has given out.

What a pass has checked is checked on the store of that moment, which is gone when the
next pass comes. Stores only grow, so it is enough to remember that there was such a
store: `Vetted` says that the header of a class was proper in some store that has grown
into the present one, and every handle past the second pass is vetted.
-/

namespace Lineage.Proofs

open Store

/-! ## What a pass has done when it succeeds -/

/-- A class is attached when its header is proper and its variables take it as their owner. -/
theorem attach_eq_ok {d : DeclaredClass} {s s' : Store} {superclass : Option Ty}
    {interfaces : List Ty} {a : AttachedClass}
    (h : d.attach s superclass interfaces = (s', .ok a)) :
    ProperHeader s.env d.id (superclass.or d.decl.superclass) d.typeParams ∧
      s.bindTypeParams (.cls d.id) d.typeParams = (s', .ok ()) ∧
      a = { id := d.id, decl := d.attachedDecl superclass interfaces } := by
  unfold DeclaredClass.attach at h
  dsimp only at h
  split at h
  · cases h
  · -- three checks, one inside the other, and the last one binds
    rename_i hheader
    split at h
    · cases h
    · split at h
      · cases h
      · rename_i hbind
        cases h
        exact ⟨checkClassHeader_eq_ok_iff.mp hheader, hbind, rfl⟩

/-- A class is checked when it has been defined and its methods override legally. -/
theorem check_eq_ok {b : AssembledClass} {s s' : Store} {k : CheckedClass}
    (h : b.check s = (s', .ok k)) :
    k.id = b.id ∧ Defines s b.id b.fullDecl s' ∧
      s'.env.checkOverrides (s'.methodsOf b.id) = .ok () := by
  unfold AssembledClass.check at h
  by_cases hadm : Admissible s b.id b.fullDecl
  · obtain ⟨s₁, hrun, hdef⟩ := define_of_admissible hadm
    rw [hrun] at h
    dsimp only at h
    split at h
    · cases h
    · split at h
      · cases h
      · rename_i hover
        cases h
        exact ⟨rfl, hdef, hover⟩
  · obtain ⟨e, hrun⟩ := define_of_not_admissible hadm
    -- what is not admissible is not defined, so no check can end well
    rw [hrun] at h
    split at h <;> cases h

/-! ## Handles -/

/-- What the passes hand on to each other. -/
inductive Handle where
  | declared (d : DeclaredClass)
  | attached (a : AttachedClass)
  | assembled (b : AssembledClass)

/-- A run up to the store has given out the handle. -/
inductive Issued : Store → Handle → Prop where
  | declare {s : Store} (decl : ClassDecl) (params : List TypeParamDecl) : Reachable s →
      Issued (s.declare decl params).1 (.declared (s.declare decl params).2)
  | attach {s s' : Store} {d : DeclaredClass} {superclass : Option Ty} {interfaces : List Ty}
      {a : AttachedClass} : Issued s (.declared d) →
      d.attach s superclass interfaces = (s', .ok a) → Issued s' (.attached a)
  | addField {s : Store} {a : AttachedClass} (field : FieldDecl) :
      Issued s (.attached a) → Issued s (.attached (a.addField field))
  | addMethod {s : Store} {a : AttachedClass} (method : MethodDecl) :
      Issued s (.attached a) → Issued s (.attached (a.addMethod method))
  | assemble {s : Store} {a : AttachedClass} :
      Issued s (.attached a) → Issued s (.assembled a.assemble)
  /-- Handles stay good whatever is called in between. -/
  | later {s : Store} {handle : Handle} (c : Change) :
      Issued s handle → Issued (after s c) handle

theorem reachable_of_issued {s : Store} {handle : Handle} (h : Issued s handle) :
    Reachable s := by
  induction h with
  | declare decl params hs => exact Reachable.tail (.declare decl params) hs
  | @attach s s' d superclass interfaces a _ hrun ih =>
      -- attaching is one of the changes, so the run goes on with it
      have hs' := Reachable.tail (.attach d superclass interfaces) ih
      rwa [after, hrun] at hs'
  | addField field _ ih => exact ih
  | addMethod method _ ih => exact ih
  | assemble _ ih => exact ih
  | later c _ ih => exact Reachable.tail c ih

/-- The header was proper in a store that has grown into this one. -/
def Vetted (s : Store) (id : ClassId) (decl : ClassDecl) : Prop :=
  ∃ s₀, Grows s₀ s ∧ ProperHeader s₀.env id decl.superclass decl.typeParams

theorem Vetted.grows {s s' : Store} {id : ClassId} {decl : ClassDecl} (h : Vetted s id decl)
    (hg : Grows s s') : Vetted s' id decl := by
  obtain ⟨s₀, hg₀, hheader⟩ := h
  exact ⟨s₀, hg₀.trans hg, hheader⟩

/-- The class behind a handle has been vetted, if the handle is past the second pass. -/
def Handle.Vetted (s : Store) : Handle → Prop
  | .declared _ => True
  | .attached a => Proofs.Vetted s a.id a.decl
  | .assembled b => Proofs.Vetted s b.id b.decl

/-- **Every handle past the second pass is vetted**, however much has happened since. -/
theorem vetted_of_issued {s : Store} {handle : Handle} (h : Issued s handle) :
    handle.Vetted s := by
  induction h with
  | declare decl params hs => trivial
  | @attach s s' d superclass interfaces a _ hrun ih =>
      obtain ⟨hheader, -, rfl⟩ := attach_eq_ok hrun
      -- the header was proper in the store before, which only grows
      have hg := grows_after s (.attach d superclass interfaces)
      rw [after, hrun] at hg
      exact ⟨s, hg, hheader⟩
  | addField field _ ih => exact ih
  | addMethod method _ ih => exact ih
  | assemble _ ih => exact ih
  | @later s handle c _ ih =>
      cases handle with
      | declared d => trivial
      | attached a => exact Proofs.Vetted.grows ih (grows_after s c)
      | assembled b => exact Proofs.Vetted.grows ih (grows_after s c)

end Lineage.Proofs
