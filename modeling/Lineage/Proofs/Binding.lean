import Lineage.Proofs.Outcome
import Lineage.Store.Basic

/-!
# What binding a variable does

A variable that exists and has no owner, or has the right one already, can be
bound; every other attempt is refused. A whole list is bound one variable at a
time, and nothing but owners moves while that happens.

The point of this module is the equation `bindTypeParams_eq`: once every variable
of the list can be bound *at the start*, the loop cannot be refused half way,
because binding one variable never takes another out of reach.
-/

namespace Lineage.Proofs

open Store

/-- The variable `v` exists and is free, or belongs to `o` already. -/
def Bindable (s : Store) (o : Owner) (v : TypeVarId) : Prop :=
  ∃ p, s.typeParam? v = some p ∧ (p.owner = none ∨ p.owner = some o)

/-- The variable `v` exists and belongs to no one. -/
def Unowned (s : Store) (v : TypeVarId) : Prop :=
  ∃ p, s.typeParam? v = some p ∧ p.owner = none

theorem Unowned.bindable {s : Store} {v : TypeVarId} (h : Unowned s v) (o : Owner) :
    Bindable s o v := by
  obtain ⟨p, hp, hnone⟩ := h
  exact ⟨p, hp, Or.inl hnone⟩

/-! ## One variable -/

/-- Recording an owner touches one entry of the variable table and nothing else. -/
theorem setOwner_eq (s : Store) (o : Owner) (v : TypeVarId) :
    ∃ params, s.setOwner o v = { s with typeParams := params } := by
  unfold setOwner
  split
  · exact ⟨_, rfl⟩
  · exact ⟨s.typeParams, rfl⟩

@[simp] theorem setOwner_slots (s : Store) (o : Owner) (v : TypeVarId) :
    (s.setOwner o v).slots = s.slots := by
  obtain ⟨_, h⟩ := setOwner_eq s o v
  rw [h]

@[simp] theorem setOwner_names (s : Store) (o : Owner) (v : TypeVarId) :
    (s.setOwner o v).names = s.names := by
  obtain ⟨_, h⟩ := setOwner_eq s o v
  rw [h]

@[simp] theorem setOwner_methods (s : Store) (o : Owner) (v : TypeVarId) :
    (s.setOwner o v).methods = s.methods := by
  obtain ⟨_, h⟩ := setOwner_eq s o v
  rw [h]

@[simp] theorem setOwner_wellKnown (s : Store) (o : Owner) (v : TypeVarId) :
    (s.setOwner o v).wellKnown = s.wellKnown := by
  obtain ⟨_, h⟩ := setOwner_eq s o v
  rw [h]

@[simp] theorem setOwner_depthLimit (s : Store) (o : Owner) (v : TypeVarId) :
    (s.setOwner o v).depthLimit = s.depthLimit := by
  obtain ⟨_, h⟩ := setOwner_eq s o v
  rw [h]

/-- After `setOwner`, the variable has the owner and every other one is as before. -/
theorem typeParam?_setOwner (s : Store) (o : Owner) (v w : TypeVarId) :
    (s.setOwner o v).typeParam? w =
      if w = v then (s.typeParam? v).map fun p => { p with owner := some o }
      else s.typeParam? w := by
  unfold setOwner
  by_cases hwv : w = v
  · subst hwv
    cases hp : s.typeParam? w with
    | none => simp [hp]
    | some p =>
        have hlt : w.index < s.typeParams.size := (Array.getElem?_eq_some_iff.mp hp).1
        simp [Store.typeParam?, hlt]
  · -- variables are told apart by their positions in the table
    have hne : v.index ≠ w.index := by
      intro h
      apply hwv
      cases w; cases v; simp_all
    rw [if_neg hwv]
    split
    · simp [Store.typeParam?, hne]
    · rfl

theorem typeParam_eq_ok_iff {s : Store} {v : TypeVarId} {p : TypeParam} :
    s.typeParam v = .ok p ↔ s.typeParam? v = some p := by
  unfold Store.typeParam
  cases s.typeParam? v with
  | none => simp
  | some q => simp

theorem bindTypeParam_eq_ok_iff {s s' : Store} {v : TypeVarId} {o : Owner} :
    s.bindTypeParam v o = .ok s' ↔ Bindable s o v ∧ s' = s.setOwner o v := by
  unfold bindTypeParam Store.typeParam Bindable
  cases hp : s.typeParam? v with
  | none => simp
  | some p =>
      -- free, bound to `o` before, or bound to another, which alone is refused
      cases hown : p.owner with
      | none => simp [hown, eq_comm]
      | some existing =>
          by_cases he : existing = o
          · simp [hown, he, eq_comm]
          · simp [hown, he]

/-! ## A list of variables -/

/-- The owner recorded for every variable of a list, whether or not that is allowed. -/
def setOwners (o : Owner) (s : Store) (vs : List TypeVarId) : Store :=
  vs.foldl (fun s v => s.setOwner o v) s

@[simp] theorem setOwners_nil (o : Owner) (s : Store) : setOwners o s [] = s := rfl

@[simp] theorem setOwners_cons (o : Owner) (s : Store) (v : TypeVarId) (vs : List TypeVarId) :
    setOwners o s (v :: vs) = setOwners o (s.setOwner o v) vs := rfl

theorem setOwners_eq (o : Owner) (s : Store) (vs : List TypeVarId) :
    ∃ params, setOwners o s vs = { s with typeParams := params } := by
  induction vs generalizing s with
  | nil => exact ⟨s.typeParams, rfl⟩
  | cons v vs ih =>
      obtain ⟨params, h⟩ := ih (s.setOwner o v)
      refine ⟨params, ?_⟩
      rw [setOwners_cons, h]
      simp

theorem typeParam?_setOwners (o : Owner) (s : Store) (vs : List TypeVarId) (w : TypeVarId) :
    (setOwners o s vs).typeParam? w =
      if w ∈ vs then (s.typeParam? w).map fun p => { p with owner := some o }
      else s.typeParam? w := by
  induction vs generalizing s with
  | nil => simp
  | cons v vs ih =>
      rw [setOwners_cons, ih, typeParam?_setOwner]
      by_cases hw : w = v
      · subst hw
        -- listed again further on, the variable gets the same owner twice
        by_cases hmem : w ∈ vs
        · simp [hmem, Option.map_map, Function.comp_def]
        · simp [hmem]
      · simp [hw]

/-- Binding one variable leaves every other one as easy to bind as before. -/
theorem Bindable.setOwner {s : Store} {o : Owner} {v w : TypeVarId} (hw : Bindable s o w) :
    Bindable (s.setOwner o v) o w := by
  obtain ⟨p, hp, hown⟩ := hw
  by_cases hwv : w = v
  · subst hwv
    exact ⟨{ p with owner := some o }, by rw [typeParam?_setOwner]; simp [hp], Or.inr rfl⟩
  · exact ⟨p, by rw [typeParam?_setOwner, if_neg hwv]; exact hp, hown⟩

/-- **A loop whose variables can all be bound at the start is never refused.** -/
theorem bindTypeParams_eq {o : Owner} {s : Store} {vs : List TypeVarId}
    (h : ∀ v ∈ vs, Bindable s o v) : bindTypeParams o s vs = (setOwners o s vs, .ok ()) := by
  induction vs generalizing s with
  | nil => rfl
  | cons v vs ih =>
      have hv : s.bindTypeParam v o = .ok (s.setOwner o v) :=
        bindTypeParam_eq_ok_iff.mpr ⟨h v List.mem_cons_self, rfl⟩
      -- a variable that is listed twice is bound by now, but to the same owner
      have hrest : ∀ w ∈ vs, Bindable (s.setOwner o v) o w :=
        fun w hw => (h w (List.mem_cons_of_mem _ hw)).setOwner
      rw [bindTypeParams, hv, setOwners_cons]
      exact ih hrest

end Lineage.Proofs
