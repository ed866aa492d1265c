import Lineage.Proofs.Assignability

/-!
# How questions about types fail

A question that has no answer fails with an error, and errors are also what broken rules
are reported with. The two must not be confused: whoever reads a report has to know that
a rule was broken, and not that somebody could not find out.

Questions about descent and assignment fail in two ways only. A class is not known, or
something is at hand that should never have come so far: an unresolved type, a link that
is no class type, a variable that does not exist. `FailsAs` is a statement about the
errors of a computation that goes through every way in which computations are put
together, so the proofs follow the code.
-/

namespace Lineage.Proofs

/-! ## Errors of one kind -/

section FailsAs

variable {ε α β : Type} {P : ε → Prop}

/-- If the computation fails, its error is one of `P`. -/
def FailsAs (P : ε → Prop) (x : Except ε α) : Prop := ∀ e, x = .error e → P e

theorem failsAs_ok (a : α) : FailsAs P (.ok a : Except ε α) := by
  intro e h
  cases h

theorem failsAs_error {e : ε} (h : P e) : FailsAs P (.error e : Except ε α) := by
  intro e' he
  cases he
  exact h

theorem FailsAs.bind {x : Except ε α} {f : α → Except ε β} (hx : FailsAs P x)
    (hf : ∀ a, FailsAs P (f a)) : FailsAs P (x >>= f) := by
  cases x with
  | error e => exact failsAs_error (hx e rfl)
  | ok a => exact hf a

theorem FailsAs.map {x : Except ε α} (f : α → β) (hx : FailsAs P x) : FailsAs P (f <$> x) := by
  cases x with
  | error e => exact failsAs_error (hx e rfl)
  | ok a => exact failsAs_ok (f a)

theorem FailsAs.ite {c : Prop} [Decidable c] {x y : Except ε α} (hx : FailsAs P x)
    (hy : FailsAs P y) : FailsAs P (if c then x else y) := by
  by_cases hc : c
  · rw [if_pos hc]
    exact hx
  · rw [if_neg hc]
    exact hy

theorem mapM_failsAs {f : α → Except ε β} (hf : ∀ a, FailsAs P (f a)) (xs : List α) :
    FailsAs P (xs.mapM f) := by
  induction xs with
  | nil => exact failsAs_ok []
  | cons x xs ih =>
      rw [List.mapM_cons]
      exact (hf x).bind fun y => ih.bind fun ys => failsAs_ok (y :: ys)

end FailsAs

/-! ## Links -/

/-- A class is not known, or something is at hand that should not have come so far. -/
def Unanswerable (e : TypeError) : Prop :=
  e.kind = .unresolvedClass ∨ e.kind = .internalInvariantViolation

section Links

variable (env : Env)

theorem classDef_failsAs (id : ClassId) : FailsAs Unanswerable (env.classDef id) := by
  unfold Env.classDef
  cases env.classDef? id with
  | some c => exact failsAs_ok c
  | none => exact failsAs_error (.inl rfl)

theorem boundOf_failsAs (v : TypeVarId) : FailsAs Unanswerable (env.boundOf v) := by
  unfold Env.boundOf
  cases env.typeParam? v with
  | some p => exact failsAs_ok p.bound
  | none => exact failsAs_error (.inr rfl)

theorem resolveLink_failsAs (link : Ty) : FailsAs Unanswerable (env.resolveLink link) := by
  cases link with
  | cls id => exact failsAs_ok id
  | named name =>
      show FailsAs Unanswerable (env.find name)
      unfold Env.find
      cases env.lookup? name with
      | some id => exact failsAs_ok id
      | none => exact failsAs_error (.inl rfl)
  | _ => exact failsAs_error (.inr rfl)

theorem superclassOf_failsAs (id : ClassId) : FailsAs Unanswerable (env.superclassOf id) := by
  refine (classDef_failsAs env id).bind fun c => ?_
  cases c.superclass with
  | some link => exact (resolveLink_failsAs env link).map some
  | none => exact failsAs_ok none

theorem interfacesOf_failsAs (id : ClassId) : FailsAs Unanswerable (env.interfacesOf id) :=
  (classDef_failsAs env id).bind fun c => mapM_failsAs (resolveLink_failsAs env) c.interfaces

end Links

theorem ensureCanonical_failsAs (t : Ty) : FailsAs Unanswerable t.ensureCanonical := by
  unfold Ty.ensureCanonical
  exact FailsAs.ite (failsAs_error (.inr rfl)) (failsAs_ok ())

/-! ## Descent and assignment -/

theorem anyReaches_failsAs {P : TypeError → Prop} {ancestor : Ty}
    {f : Ty → List Ty → Except TypeError (Bool × List Ty)} (hf : ∀ t met, FailsAs P (f t met))
    (ts met : List Ty) : FailsAs P (Env.anyReaches ancestor f ts met) := by
  induction ts generalizing met with
  | nil => exact failsAs_ok _
  | cons t ts ih =>
      rw [Env.anyReaches]
      refine FailsAs.ite (failsAs_ok _) ((hf t met).bind fun r => ?_)
      obtain ⟨found, met⟩ := r
      exact FailsAs.ite (failsAs_ok _) (ih met)

section Descent

variable (env : Env)

theorem search_failsAs (ancestor : Ty) (n : Nat) (child : Ty) (met : List Ty) :
    FailsAs Unanswerable (env.search ancestor n child met) := by
  induction n generalizing child met with
  | zero =>
      rw [Env.search.eq_def]
      exact FailsAs.ite (failsAs_ok _) (FailsAs.ite (failsAs_ok _) (failsAs_ok _))
  | succ n ih =>
      -- one level down, a search fails only as its levels above do
      have hup : ∀ ts met,
          FailsAs Unanswerable (Env.anyReaches ancestor (env.search ancestor n) ts met) :=
        anyReaches_failsAs ih
      rw [Env.search.eq_def]
      refine FailsAs.ite (failsAs_ok _) (FailsAs.ite (failsAs_ok _) ?_)
      cases child with
      | var v => exact (boundOf_failsAs env v).bind fun bound => hup _ _
      | cls id =>
          have hinterfaces : ∀ met, FailsAs Unanswerable (env.interfacesOf id >>= fun is =>
              Env.anyReaches ancestor (env.search ancestor n) (is.map .cls) met) :=
            fun met => (interfacesOf_failsAs env id).bind fun is => hup _ met
          -- an interface asks its interfaces, a class its superclass first and then the same
          refine (classDef_failsAs env id).bind fun c => FailsAs.ite ?_ ?_
          · exact FailsAs.ite (failsAs_ok _) (hinterfaces _)
          · refine FailsAs.ite (failsAs_ok _) ?_
            refine (superclassOf_failsAs env id).bind fun parent => (hup _ _).bind fun r => ?_
            obtain ⟨found, met⟩ := r
            exact FailsAs.ite (failsAs_ok _) (hinterfaces met)
      | _ => exact failsAs_ok _

theorem descends_failsAs (child ancestor : Ty) :
    FailsAs Unanswerable (env.descends child ancestor) := by
  refine (ensureCanonical_failsAs child).bind fun _ => ?_
  refine (ensureCanonical_failsAs ancestor).bind fun _ => ?_
  exact (search_failsAs env ancestor _ child []).bind fun r => failsAs_ok _

theorem assignableCanonical_failsAs_flat {a b : Ty} (harrays : ∀ t u, a = .array t → b ≠ .array u) :
    FailsAs Unanswerable (env.assignableCanonical a b) := by
  rcases assignableCanonical_cases harrays with ⟨found, hfound⟩ | hdescends
  · rw [hfound]
    exact failsAs_ok found
  · rw [hdescends]
    exact descends_failsAs env a b

theorem assignableCanonical_failsAs (a b : Ty) :
    FailsAs Unanswerable (env.assignableCanonical a b) := by
  induction a generalizing b with
  | array t ih =>
      cases b with
      | array u =>
          -- two arrays are compared by elements, and nothing is looked up for the arrays themselves
          by_cases hne : t = u
          · rw [hne, assignableCanonical_self]
            exact failsAs_ok true
          · rw [assignableCanonical_arrays hne]
            exact FailsAs.ite (failsAs_ok false) (ih u)
      | _ => exact assignableCanonical_failsAs_flat env (by simp)
  | _ => exact assignableCanonical_failsAs_flat env (by simp)

theorem assignable_failsAs (child ancestor : Ty) :
    FailsAs Unanswerable (env.assignable child ancestor) := by
  refine (ensureCanonical_failsAs child).bind fun _ => ?_
  refine (ensureCanonical_failsAs ancestor).bind fun _ => ?_
  exact assignableCanonical_failsAs env child ancestor

end Descent

end Lineage.Proofs
