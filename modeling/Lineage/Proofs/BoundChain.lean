import Lineage.Erasure
import Lineage.Proofs.Coherence
import Lineage.Proofs.Failures
import Lineage.Proofs.Renaming

/-!
# Chains of bounds

Three walks follow the bounds of a variable: the one for its upper bound, erasure, and
the search for a supertype. Each is written for itself and counts its steps in its own
way. A chain lists the variables that such a walk passes. There is one way to go only, so
a chain that comes to an end passes no variable twice, and one that returns to a
variable never comes to an end.

The length of the chain decides what each walk does. A chain that the limit allows leads
both the upper bound and erasure to its end, and the search finds that end above the
variable. A longer one is taken for a cycle, whether it is one or not.
-/

namespace Lineage.Proofs

open Store

/-! ## Chains -/

/-- Following bounds leads from the first type to the second and passes these variables. -/
inductive BoundChain (env : Env) : Ty → List TypeVarId → Ty → Prop where
  | here {t : Ty} : BoundChain env t [] t
  | step {v : TypeVarId} {p : TypeParam} {vs : List TypeVarId} {u : Ty} :
      env.typeParam? v = some p → BoundChain env p.bound vs u →
      BoundChain env (.var v) (v :: vs) u

/-- No chain goes on from here: the type is no variable, or one that does not exist. -/
def EndsChain (env : Env) (u : Ty) : Prop := ∀ v p, u = .var v → env.typeParam? v ≠ some p

theorem endsChain_of_not_var {env : Env} {u : Ty} (h : ∀ v, u ≠ .var v) : EndsChain env u :=
  fun v _ hv => absurd hv (h v)

namespace BoundChain

variable {env : Env} {t u w : Ty} {vs ws : List TypeVarId}

theorem trans (h : BoundChain env t vs u) (h' : BoundChain env u ws w) :
    BoundChain env t (vs ++ ws) w := by
  induction h with
  | here => exact h'
  | step hp _ ih => exact .step hp (ih h')

/-- There is one way to go, and it is gone to the end. -/
theorem unique (h : BoundChain env t vs u) (hu : EndsChain env u) (h' : BoundChain env t ws w)
    (hw : EndsChain env w) : vs = ws := by
  induction h generalizing ws with
  | here =>
      cases h' with
      | here => rfl
      | step hp _ => exact absurd hp (hu _ _ rfl)
  | step hp _ ih =>
      cases h' with
      | here => exact absurd hp (hw _ _ rfl)
      | step hq hrest =>
          -- a variable has one bound, so both chains go on from the same type
          rw [hp] at hq
          cases hq
          rw [ih hu hrest]

/-- Wherever a chain is cut, it stands at a variable. -/
theorem take (h : BoundChain env t vs u) {n : Nat} (hn : n < vs.length) :
    ∃ v, BoundChain env t (vs.take n) (.var v) := by
  induction h generalizing n with
  | here => exact absurd hn (Nat.not_lt_zero n)
  | @step v p vs u hp _ ih =>
      cases n with
      | zero => exact ⟨v, .here⟩
      | succ n =>
          obtain ⟨w, hw⟩ := ih (Nat.lt_of_succ_lt_succ hn)
          exact ⟨w, .step hp hw⟩

/-- From each variable that a chain passes, the rest of it leads on. -/
theorem drop (h : BoundChain env t vs u) {v : TypeVarId} {before after : List TypeVarId}
    (hvs : vs = before ++ v :: after) : BoundChain env (.var v) (v :: after) u := by
  induction h generalizing before with
  | here => simp at hvs
  | step hp hrest ih =>
      cases before with
      | nil =>
          cases hvs
          exact .step hp hrest
      | cons b before => exact ih (List.cons.inj hvs).2

/-- **A chain that comes to an end passes no variable twice.** -/
theorem nodup (h : BoundChain env t vs u) (hu : EndsChain env u) : vs.Nodup := by
  induction h with
  | here => exact List.nodup_nil
  | step hp hrest ih =>
      refine List.nodup_cons.mpr ⟨fun hmem => ?_, ih hu⟩
      obtain ⟨before, after, rfl⟩ := List.append_of_mem hmem
      -- met again, the variable would have two chains to the end, one of them shorter
      have heq := (BoundChain.step hp hrest).unique hu (hrest.drop rfl) hu
      have hlen := congrArg List.length heq
      simp only [List.length_cons, List.length_append] at hlen
      omega

end BoundChain

section Chains

variable {env : Env}

/-- A chain comes to an end before a given number of variables, or it passes that many. -/
theorem boundChain_ends_or_goes_on (env : Env) (n : Nat) (t : Ty) :
    (∃ vs u, BoundChain env t vs u ∧ EndsChain env u ∧ vs.length < n) ∨
      ∃ vs u, BoundChain env t vs u ∧ vs.length = n := by
  induction n generalizing t with
  | zero => exact .inr ⟨[], t, .here, rfl⟩
  | succ n ih =>
      by_cases hend : EndsChain env t
      · exact .inl ⟨[], t, .here, hend, Nat.succ_pos n⟩
      · unfold EndsChain at hend
        push Not at hend
        obtain ⟨v, p, rfl, hp⟩ := hend
        rcases ih p.bound with ⟨vs, u, hchain, hu, hlen⟩ | ⟨vs, u, hchain, hlen⟩
        · exact .inl ⟨v :: vs, u, .step hp hchain, hu, Nat.succ_lt_succ hlen⟩
        · exact .inr ⟨v :: vs, u, .step hp hchain, congrArg Nat.succ hlen⟩

/-- **A chain that returns to a variable goes on for ever.** -/
theorem BoundChain.of_loop {t : Ty} {v : TypeVarId} {vs ws : List TypeVarId}
    (h : BoundChain env t vs (.var v)) (hloop : BoundChain env (.var v) ws (.var v))
    (hws : ws ≠ []) (n : Nat) : ∃ vs u, BoundChain env t vs u ∧ n < vs.length := by
  rcases boundChain_ends_or_goes_on env (n + 1) (.var v) with
    ⟨vs', u, hchain, hu, -⟩ | ⟨vs', u, hchain, hlen⟩
  · -- one round more would lead to the same end
    have heq := (hloop.trans hchain).unique hu hchain hu
    exact absurd (List.append_left_eq_self.mp heq) hws
  · refine ⟨vs ++ vs', u, h.trans hchain, ?_⟩
    rw [List.length_append, hlen]
    omega

end Chains

/-! ## Upper bounds -/

section UpperBound

variable {env : Env} {whole : Ty} {n : Nat}

theorem boundFrom_var_zero (v : TypeVarId) :
    env.boundFrom whole 0 (.var v) = .error (.cyclicInheritance (env.renderType whole)) := by
  rw [Env.boundFrom]
  rfl

theorem boundFrom_var_succ (v : TypeVarId) :
    env.boundFrom whole (n + 1) (.var v) = env.boundOf v >>= env.boundFrom whole n := by
  rw [Env.boundFrom]

theorem boundFrom_of_not_var {t : Ty} (h : ∀ v, t ≠ .var v) : env.boundFrom whole n t = .ok t := by
  rw [Env.boundFrom.eq_def]
  split
  · exact absurd rfl (h _)
  · rfl

/-- Each variable of a chain costs one step. -/
theorem boundFrom_of_chain {t u : Ty} {vs : List TypeVarId} (h : BoundChain env t vs u) :
    env.boundFrom whole (vs.length + n) t = env.boundFrom whole n u := by
  induction h with
  | here => rw [List.length_nil, Nat.zero_add]
  | step hp _ ih =>
      rw [List.length_cons, Nat.add_right_comm, boundFrom_var_succ,
        boundOf_eq_ok_iff.mpr ⟨_, hp, rfl⟩, ok_bind, ih]

/-- **A walk ends in one of three ways.** It comes to a type that is no variable, or it is given up
at a variable where the budget is spent, or a variable on its way does not exist. -/
theorem boundFrom_cases (env : Env) (whole : Ty) (n : Nat) (t : Ty) :
    (∃ vs u, BoundChain env t vs u ∧ vs.length ≤ n ∧ (∀ v, u ≠ .var v) ∧
      env.boundFrom whole n t = .ok u) ∨
    (∃ vs w, BoundChain env t vs (.var w) ∧ vs.length = n ∧
      env.boundFrom whole n t = .error (.cyclicInheritance (env.renderType whole))) ∨
    ∃ e, Unanswerable e ∧ env.boundFrom whole n t = .error e := by
  rcases boundChain_ends_or_goes_on env n t with ⟨vs, u, hchain, hend, hlen⟩ | ⟨vs, u, hchain, hlen⟩
  · -- budget is left where the chain ends, at no variable or at one that does not exist
    obtain ⟨m, rfl⟩ := Nat.exists_eq_add_of_lt hlen
    rw [Nat.add_assoc, boundFrom_of_chain hchain]
    by_cases hvar : ∃ w, u = .var w
    · obtain ⟨w, rfl⟩ := hvar
      rw [boundFrom_var_succ]
      cases hw : env.boundOf w with
      | error e => exact .inr (.inr ⟨e, boundOf_failsAs env w e hw, rfl⟩)
      | ok bound =>
          obtain ⟨p, hp, -⟩ := boundOf_eq_ok_iff.mp hw
          exact absurd hp (hend w p rfl)
    · have hnot : ∀ v, u ≠ .var v := fun v hv => hvar ⟨v, hv⟩
      exact .inl ⟨vs, u, hchain, by omega, hnot, boundFrom_of_not_var hnot⟩
  · -- the budget is spent, and all depends on whether a variable stands there
    subst hlen
    rw [← Nat.add_zero vs.length, boundFrom_of_chain hchain]
    by_cases hvar : ∃ w, u = .var w
    · obtain ⟨w, rfl⟩ := hvar
      exact .inr (.inl ⟨vs, w, hchain, rfl, boundFrom_var_zero w⟩)
    · have hnot : ∀ v, u ≠ .var v := fun v hv => hvar ⟨v, hv⟩
      exact .inl ⟨vs, u, hchain, Nat.le_refl _, hnot, boundFrom_of_not_var hnot⟩

theorem boundFrom_eq_ok {t u : Ty} (h : env.boundFrom whole n t = .ok u) :
    ∃ vs, BoundChain env t vs u ∧ vs.length ≤ n ∧ ∀ v, u ≠ .var v := by
  rcases boundFrom_cases env whole n t with
    ⟨vs, u', hchain, hlen, hu, hrun⟩ | ⟨vs, w, -, -, hrun⟩ | ⟨e, -, hrun⟩
  · cases h.symm.trans hrun
    exact ⟨vs, hchain, hlen, hu⟩
  · cases h.symm.trans hrun
  · cases h.symm.trans hrun

/-- The walk is given up exactly where the budget is spent and a variable is left, whether or not
that variable exists. -/
theorem boundFrom_eq_cyclic_iff {t : Ty} {name : String} :
    env.boundFrom whole n t = .error (.cyclicInheritance name) ↔
      (∃ vs w, BoundChain env t vs (.var w) ∧ vs.length = n) ∧ name = env.renderType whole := by
  constructor
  · intro h
    rcases boundFrom_cases env whole n t with
      ⟨vs, u, -, -, -, hrun⟩ | ⟨vs, w, hchain, hlen, hrun⟩ | ⟨e, he, hrun⟩
    · cases h.symm.trans hrun
    · cases h.symm.trans hrun
      exact ⟨⟨vs, w, hchain, hlen⟩, rfl⟩
    · cases h.symm.trans hrun
      rcases he with he | he <;> cases he
  · rintro ⟨⟨vs, w, hchain, rfl⟩, rfl⟩
    rw [← Nat.add_zero vs.length, boundFrom_of_chain hchain, boundFrom_var_zero]

end UpperBound

/-! ## Erasure -/

/-- No variable occurs in the type. -/
def Ground (t : Ty) : Prop := ∀ v, ¬ Mentions t v

theorem ground_array {t : Ty} : Ground (.array t) ↔ Ground t := Iff.rfl

theorem ground_cls (id : ClassId) : Ground (.cls id) := by
  intro v hv
  cases hv

section Erasure

variable {env : Env}

theorem eraseWithin_array (n : Nat) (t : Ty) :
    env.eraseWithin n (.array t) = Ty.array <$> env.eraseWithin n t := by
  rw [Env.eraseWithin.eq_def, Env.eraseWithin.eq_def env n t]
  rfl

theorem erase_array (t : Ty) : env.erase (.array t) = Ty.array <$> env.erase t :=
  eraseWithin_array env.varCount t

theorem eraseWithin_var_zero (v : TypeVarId) :
    env.eraseWithin 0 (.var v) = env.upperBound (.var v) >>= fun _ =>
      .error (.cyclicInheritance (env.renderType (.var v))) := by
  rw [Env.eraseWithin, Ty.bindVar]
  rfl

theorem eraseWithin_var_succ (n : Nat) (v : TypeVarId) :
    env.eraseWithin (n + 1) (.var v) = env.upperBound (.var v) >>= env.eraseWithin n := by
  rw [Env.eraseWithin, Ty.bindVar]

/-- A type without variables is its own erasure. -/
theorem eraseWithin_of_ground {t : Ty} (h : Ground t) (n : Nat) : env.eraseWithin n t = .ok t := by
  induction t with
  | var v => exact absurd rfl (h v)
  | array t ih => rw [eraseWithin_array, ih (ground_array.mp h), map_ok]
  | _ =>
      rw [Env.eraseWithin.eq_def]
      rfl

theorem erase_of_ground {t : Ty} (h : Ground t) : env.erase t = .ok t :=
  eraseWithin_of_ground h env.varCount

theorem bindVar_ground {f : TypeVarId → Except TypeError Ty}
    (hf : ∀ v e, f v = .ok e → Ground e) {t e : Ty} (h : t.bindVar f = .ok e) : Ground e := by
  induction t generalizing e with
  | var v => exact hf v e h
  | array t ih =>
      obtain ⟨element, helement, h⟩ := bind_eq_ok_iff.mp h
      cases h
      exact ground_array.mpr (ih helement)
  | _ =>
      cases h
      intro v hv
      cases hv

/-- **Erasure leaves no variable**, whatever the bounds are. -/
theorem ground_of_eraseWithin {n : Nat} {t e : Ty} (h : env.eraseWithin n t = .ok e) :
    Ground e := by
  induction n generalizing t e with
  | zero =>
      rw [Env.eraseWithin] at h
      -- no round is left for a variable, so there was none
      refine bindVar_ground (fun v e hv => ?_) h
      obtain ⟨_, _, hv⟩ := bind_eq_ok_iff.mp hv
      cases hv
  | succ n ih =>
      rw [Env.eraseWithin] at h
      refine bindVar_ground (fun v e hv => ?_) h
      obtain ⟨_, _, hv⟩ := bind_eq_ok_iff.mp hv
      exact ih hv

theorem ground_of_erase {t e : Ty} (h : env.erase t = .ok e) : Ground e := ground_of_eraseWithin h

end Erasure

/-! ## Nominal bounds -/

/-- The search goes up a chain that the budget allows, because it meets no variable twice. -/
theorem search_of_chain {env : Env} {t u : Ty} {vs : List TypeVarId} {n : Nat} {met : List Ty}
    (h : BoundChain env t vs u) (hu : u.isReference = true) (hend : ∀ v, u ≠ .var v)
    (hne : t ≠ u) (hlen : vs.length ≤ n) (hmet : ∀ v ∈ vs, .var v ∉ met) :
    ∃ met', env.search u n t met = .ok (true, met') := by
  induction h generalizing n met with
  | here => exact absurd rfl hne
  | @step v p vs u hp hrest ih =>
      obtain ⟨m, rfl⟩ : ∃ m, n = m + 1 := Nat.exists_eq_succ_of_ne_zero (by
        rw [List.length_cons] at hlen
        omega)
      rw [search_var hu hne (hmet v List.mem_cons_self) hp, Env.anyReaches]
      by_cases hbound : p.bound = u
      · rw [if_pos hbound]
        exact ⟨_, rfl⟩
      · -- the variables still to come are not met yet, because the chain repeats none
        have hnodup := (BoundChain.step hp hrest).nodup (endsChain_of_not_var hend)
        have hmet' : ∀ w ∈ vs, .var w ∉ Ty.var v :: met := by
          intro w hw hmem
          rcases List.mem_cons.mp hmem with heq | hmem
          · cases heq
            exact (List.nodup_cons.mp hnodup).1 hw
          · exact hmet w (List.mem_cons_of_mem v hw) hmem
        obtain ⟨met', hrun⟩ := ih hu hend hbound (Nat.le_of_succ_le_succ hlen) hmet'
        rw [if_neg hbound, hrun]
        exact ⟨met', rfl⟩

section NominalBounds

variable {env : Env} (hbounds : ∀ v p, env.typeParam? v = some p → Nominal p.bound)

include hbounds

/-- A chain that comes to an end ends at a class. -/
theorem BoundChain.exists_cls {t u : Ty} {vs : List TypeVarId} (h : BoundChain env t vs u)
    (ht : Nominal t) (hu : ∀ v, u ≠ .var v) : ∃ id, u = .cls id := by
  induction h with
  | here => exact ht.resolve_right fun ⟨v, hv⟩ => hu v hv
  | step hp _ ih => exact ih (hbounds _ _ hp) hu

theorem upperBound_var_eq_ok {v : TypeVarId} {u : Ty} (h : env.upperBound (.var v) = .ok u) :
    ∃ id vs, u = .cls id ∧ BoundChain env (.var v) vs (.cls id) ∧ vs.length ≤ env.depthLimit := by
  obtain ⟨vs, hchain, hlen, hu⟩ := boundFrom_eq_ok h
  obtain ⟨id, rfl⟩ := hchain.exists_cls hbounds (.inr ⟨v, rfl⟩) hu
  exact ⟨id, vs, rfl, hchain, hlen⟩

/-- **Erasure and the upper bound are the same walk.** -/
theorem erase_var (v : TypeVarId) : env.erase (.var v) = env.upperBound (.var v) := by
  unfold Env.erase
  cases hbound : env.upperBound (.var v) with
  | error e =>
      cases env.varCount with
      | zero => rw [eraseWithin_var_zero, hbound, error_bind]
      | succ n => rw [eraseWithin_var_succ, hbound, error_bind]
  | ok u =>
      obtain ⟨id, vs, rfl, hchain, -⟩ := upperBound_var_eq_ok hbounds hbound
      cases hchain with
      | step hp _ =>
          -- the variable exists, so there is a round for it
          obtain ⟨n, hn⟩ := Nat.exists_eq_add_of_lt (env.lt_varCount v _ hp)
          rw [hn, eraseWithin_var_succ, hbound, ok_bind, eraseWithin_of_ground (ground_cls id)]

/-- A type that mentions a variable goes into its erasure, which has a class where the variable
was. -/
theorem assignableCanonical_erase {t e : Ty} {v : TypeVarId} (hv : Mentions t v)
    (h : env.erase t = .ok e) :
    env.assignableCanonical t e = .ok true ∧ e.isAmbiguous = false ∧ e.isPrimitive = false := by
  induction t generalizing e with
  | var w =>
      rw [erase_var hbounds] at h
      obtain ⟨id, vs, rfl, hchain, hlen⟩ := upperBound_var_eq_ok hbounds h
      have hne : Ty.var w ≠ .cls id := by simp
      refine ⟨?_, rfl, rfl⟩
      rw [assignableCanonical_references hne (by simp) rfl rfl (by simp),
        descends_eq_ok_iff rfl rfl]
      exact search_of_chain hchain rfl (by simp) hne (Nat.le_succ_of_le hlen) (by simp)
  | array t ih =>
      rw [erase_array] at h
      cases hrun : env.erase t with
      | error err =>
          rw [hrun] at h
          cases h
      | ok element =>
          rw [hrun] at h
          cases h
          obtain ⟨hassign, hcanon, hprim⟩ := ih hv hrun
          -- the element mentions the variable and its erasure does not
          have hne : t ≠ element := by
            rintro rfl
            exact ground_of_erase hrun v hv
          have htprim : t.isPrimitive = false := by
            cases t with
            | prim q => cases hv
            | _ => rfl
          rw [assignableCanonical_arrays hne, htprim, hprim]
          exact ⟨hassign, hcanon, rfl⟩
  | _ => cases hv

/-- Erasure is given up with the upper bound of the variable in the type, however many dimensions
there are around it. -/
theorem erase_eq_cyclic_iff {t : Ty} {name : String} :
    env.erase t = .error (.cyclicInheritance name) ↔
      (∃ vs w, BoundChain env t.innermost vs (.var w) ∧ vs.length = env.depthLimit) ∧
        name = env.renderType t.innermost := by
  induction t with
  | var v => rw [erase_var hbounds]; exact boundFrom_eq_cyclic_iff
  | array t ih =>
      rw [erase_array, Ty.innermost, ← ih]
      cases env.erase t <;> simp
  | _ =>
      rw [erase_of_ground (by intro v hv; cases hv)]
      refine iff_of_false (by simp) ?_
      rintro ⟨⟨vs, w, hchain, -⟩, -⟩
      cases hchain

end NominalBounds

/--
**Erasure is an upper bound without variables**, in every environment whose variables are
bounded by classes and variables. The erasure of a canonical type mentions no variable, is
its own erasure, takes every value of the type, and for a variable it is the upper bound.

Erasure is given up exactly if as many variables as the limit allows have been passed from
the innermost element of the type and another one stands there. If all variables exist,
this is the case exactly if the chain passes more variables than the limit allows, and a
chain that returns to one of its variables always does.
-/
theorem erase_upper_bound {env : Env}
    (hbounds : ∀ v p, env.typeParam? v = some p → Nominal p.bound) {t : Ty}
    (ht : t.isAmbiguous = false) :
    (∀ e, env.erase t = .ok e →
      Ground e ∧ env.erase e = .ok e ∧ env.assignable t e = .ok true ∧
        ∀ v, t = .var v → env.upperBound t = .ok e) ∧
    ((∃ name, env.erase t = .error (.cyclicInheritance name)) ↔
      ∃ vs w, BoundChain env t.innermost vs (.var w) ∧ vs.length = env.depthLimit) ∧
    ((∀ vs w, BoundChain env t.innermost vs (.var w) → ∃ p, env.typeParam? w = some p) →
      ((∃ name, env.erase t = .error (.cyclicInheritance name)) ↔
        ∃ vs u, BoundChain env t.innermost vs u ∧ env.depthLimit < vs.length)) ∧
    ∀ vs ws v, BoundChain env t.innermost vs (.var v) → BoundChain env (.var v) ws (.var v) →
      ws ≠ [] → ∃ name, env.erase t = .error (.cyclicInheritance name) := by
  have hcyclic : (∃ name, env.erase t = .error (.cyclicInheritance name)) ↔
      ∃ vs w, BoundChain env t.innermost vs (.var w) ∧ vs.length = env.depthLimit := by
    simp only [erase_eq_cyclic_iff hbounds, exists_and_left, exists_eq, and_true]
  have hlong : (∃ vs u, BoundChain env t.innermost vs u ∧ env.depthLimit < vs.length) →
      ∃ name, env.erase t = .error (.cyclicInheritance name) := by
    -- a longer chain is cut where the limit is reached, at a variable
    rintro ⟨vs, u, hchain, hlen⟩
    obtain ⟨w, hw⟩ := hchain.take hlen
    exact hcyclic.mpr ⟨_, w, hw, List.length_take_of_le (Nat.le_of_lt hlen)⟩
  refine ⟨fun e he => ?_, hcyclic, fun hexist => ⟨fun h => ?_, hlong⟩,
    fun vs ws v h hloop hws => ?_⟩
  · have hground := ground_of_erase he
    refine ⟨hground, erase_of_ground hground, ?_, ?_⟩
    · by_cases hmentions : ∃ v, Mentions t v
      · obtain ⟨v, hv⟩ := hmentions
        obtain ⟨hassign, hcanon, -⟩ := assignableCanonical_erase hbounds hv he
        rw [assignable_eq_assignableCanonical ht hcanon, hassign]
      · -- nothing to erase, and a type goes into itself
        have hself : env.erase t = .ok t := erase_of_ground fun v hv => hmentions ⟨v, hv⟩
        cases he.symm.trans hself
        rw [assignable_eq_assignableCanonical ht ht, assignableCanonical_self]
    · rintro v rfl
      rw [← erase_var hbounds, he]
  · -- the variable at which erasure is given up exists, so the chain goes on
    obtain ⟨vs, w, hchain, hlen⟩ := hcyclic.mp h
    obtain ⟨p, hp⟩ := hexist vs w hchain
    refine ⟨vs ++ [w], p.bound, hchain.trans (.step hp .here), ?_⟩
    rw [List.length_append, List.length_singleton]
    omega
  · exact hlong (h.of_loop hloop hws env.depthLimit)

/-- In a closed store, chains do not leave the store. -/
theorem Closed.boundChain {s : Store} (hc : Closed s) {t u : Ty} {vs : List TypeVarId}
    (h : BoundChain s.env t vs u) (ht : Within s t) : Within s u := by
  induction h with
  | here => exact ht
  | step hp _ ih => exact ih (hc.bounds hp).2

/-- Two variables may be passed here. The first three variables stand above each other, and the
fourth is bounded by itself. -/
def ladder : Store :=
  afterAll (.withSettings { maxHierarchyDepth := 2 })
    [.addTypeParam { name := "T", bound := some (.cls wellKnownIds.integer) },
     .addTypeParam { name := "U", bound := some (.var ⟨0⟩) },
     .addTypeParam { name := "V", bound := some (.var ⟨1⟩) },
     .addTypeParam { name := "W", bound := some (.var ⟨3⟩) }]

/-- An array of the second variable is erased through both variables to an array of integers. The
third variable is one step too far from its class, and from the fourth there is no way out. -/
theorem erase_upper_bound_ladder :
    let env := ladder.env
    let t : Ty := .array (.var ⟨1⟩)
    let e : Ty := .array (.cls wellKnownIds.integer)
    (Closed ladder ∧ env.depthLimit = 2 ∧ env.erase t = .ok e) ∧
      (Ground e ∧ env.erase e = .ok e ∧ env.assignable t e = .ok true) ∧
      env.upperBound (.var ⟨1⟩) = .ok (.cls wellKnownIds.integer) ∧
      (∃ name, env.erase (.var ⟨2⟩) = .error (.cyclicInheritance name)) ∧
      ∃ name, env.erase (.array (.var ⟨3⟩)) = .error (.cyclicInheritance name) := by
  intro env t e
  have hc : Closed ladder := closed_of_isClosed (by decide)
  have hbounds : ∀ v p, env.typeParam? v = some p → Nominal p.bound :=
    fun v p hp => (hc.bounds hp).1
  have hvar : ∀ {v : TypeVarId} {bound : Ty} {vs : List TypeVarId} {u : Ty},
      (env.typeParam? v).map (·.bound) = some bound → BoundChain env bound vs u →
        BoundChain env (.var v) (v :: vs) u := by
    intro v bound vs u hbound h
    obtain ⟨p, hp, rfl⟩ := Option.map_eq_some_iff.mp hbound
    exact .step hp h
  have hrun : env.erase t = .ok e := by rfl
  have hclimb : BoundChain env (.var ⟨2⟩) [⟨2⟩, ⟨1⟩, ⟨0⟩] (.cls wellKnownIds.integer) :=
    hvar rfl (hvar rfl (hvar rfl .here))
  have hloop : BoundChain env (.var ⟨3⟩) [⟨3⟩] (.var ⟨3⟩) := hvar rfl .here
  have hwithin : ∀ vs w, BoundChain env (.var ⟨2⟩) vs (.var w) →
      ∃ p, env.typeParam? w = some p :=
    fun vs w h => Option.isSome_iff_exists.mp (hc.boundChain h (by decide))
  have hcanon : ∀ v, (Ty.var v).isAmbiguous = false := fun v => rfl
  obtain ⟨hground, hself, hassign, -⟩ := (erase_upper_bound hbounds rfl).1 e hrun
  refine ⟨⟨hc, rfl, hrun⟩, ⟨hground, hself, hassign⟩, ?_, ?_, ?_⟩
  · exact ((erase_upper_bound hbounds (hcanon ⟨1⟩)).1 _ (by rfl)).2.2.2 ⟨1⟩ rfl
  · exact ((erase_upper_bound hbounds (hcanon ⟨2⟩)).2.2.1 hwithin).mpr ⟨_, _, hclimb, by decide⟩
  · have hcanon : (Ty.array (.var ⟨3⟩)).isAmbiguous = false := rfl
    exact (erase_upper_bound hbounds hcanon).2.2.2 [] [⟨3⟩] ⟨3⟩ .here hloop (by simp)

end Lineage.Proofs
