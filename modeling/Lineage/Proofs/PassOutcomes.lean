import Lineage.Proofs.CheckedClass

/-!
# How a pass can end

Two of the passes change the store in the middle of steps that can be refused.
Attaching a class gives its variables their owner one after the other, and checking a
class defines it before its methods are compared with those they override.

Attaching is refused before the first variable or not at all: the header check has
found that the variables exist, the check of owners that none belongs to another, and
binding one of them takes no other out of reach. Checking has two kinds of refusal. The
first comes before the definition and leaves no trace. The second comes after it; the
class is there to stay, and the error is the one of the first comparison that went
wrong. `FirstOffence` says which one that is.
-/

namespace Lineage.Proofs

open Store

/-! ## Attaching -/

/-- `s'` is `s`, except that the variables of a list, which all exist, belong to `o`. -/
structure Acquires (s : Store) (o : Owner) (vs : List TypeVarId) (s' : Store) : Prop where
  frame : s' = { s with typeParams := s'.typeParams }
  owned : ∀ {v}, v ∈ vs →
    ∃ p, s.typeParam? v = some p ∧ s'.typeParam? v = some { p with owner := some o }
  others : ∀ {v}, v ∉ vs → s'.typeParam? v = s.typeParam? v

theorem acquires_setOwners {s : Store} {o : Owner} {vs : List TypeVarId}
    (h : ∀ v ∈ vs, Bindable s o v) : Acquires s o vs (setOwners o s vs) where
  frame := by
    obtain ⟨params, heq⟩ := setOwners_eq o s vs
    rw [heq]
  owned := by
    intro v hv
    obtain ⟨p, hp, -⟩ := h v hv
    refine ⟨p, hp, ?_⟩
    rw [typeParam?_setOwners, if_pos hv, hp]
    rfl
  others := by
    intro v hv
    rw [typeParam?_setOwners, if_neg hv]

/-- Variables that do not exist are passed over. -/
theorem checkOwners_eq_ok_iff {d : DeclaredClass} {s : Store} {vs : List TypeVarId} :
    d.checkOwners s vs = .ok () ↔ ∀ v ∈ vs, ∀ p, s.typeParam? v = some p →
      p.owner = none ∨ p.owner = some (.cls d.id) := by
  induction vs with
  | nil => simp [DeclaredClass.checkOwners]
  | cons v vs ih =>
      rw [List.forall_mem_cons, ← ih, DeclaredClass.checkOwners]
      cases hp : s.typeParam? v with
      | none => simp
      | some p =>
          cases hown : p.owner with
          | none => simp [hown]
          | some owner =>
              -- a variable may be given again to the class that owns it
              by_cases howner : owner = .cls d.id
              · simp [hown, howner]
              · simp [hown, howner]

theorem typeParam?_of_typeParamsOf {env : Env} {vars : List TypeVarId} {params : List TypeParam}
    (h : env.typeParamsOf vars = .ok params) {v : TypeVarId} (hv : v ∈ vars) :
    ∃ p, env.typeParam? v = some p := by
  rw [typeParamsOf_eq_ok_iff] at h
  induction h with
  | nil => cases hv
  | cons hp _ ih =>
      rcases List.mem_cons.mp hv with rfl | hv
      · exact ⟨_, hp⟩
      · exact ih hv

/-- **Attaching is refused before it changes anything, or not at all.** -/
theorem attach_cases (d : DeclaredClass) (s : Store) (superclass : Option Ty)
    (interfaces : List Ty) :
    (∃ e, d.attach s superclass interfaces = (s, .error e)) ∨
      ∃ s' a, d.attach s superclass interfaces = (s', .ok a) ∧
        Acquires s (.cls d.id) d.typeParams s' := by
  unfold DeclaredClass.attach
  dsimp only
  split
  · rename_i e _
    exact .inl ⟨e, rfl⟩
  · rename_i hheader
    split
    · rename_i e _
      exact .inl ⟨e, rfl⟩
    · rename_i howners
      -- the header was checked before, so all its variables exist
      obtain ⟨params, hparams, -⟩ := (checkClassHeader_eq_ok_iff.mp hheader).names
      have hbindable : ∀ v ∈ d.typeParams, Bindable s (.cls d.id) v := by
        intro v hv
        obtain ⟨p, hp⟩ := typeParam?_of_typeParamsOf hparams hv
        exact ⟨p, hp, checkOwners_eq_ok_iff.mp howners v hv p hp⟩
      rw [bindTypeParams_eq hbindable]
      exact .inr ⟨_, _, rfl, acquires_setOwners hbindable⟩

section Attach

variable {d : DeclaredClass} {s s' : Store} {superclass : Option Ty} {interfaces : List Ty}

theorem eq_of_attach {e : TypeError} (h : d.attach s superclass interfaces = (s', .error e)) :
    s' = s := by
  rcases attach_cases d s superclass interfaces with ⟨e', hrun⟩ | ⟨s₁, a, hrun, -⟩
  · rw [hrun] at h
    cases h
    rfl
  · rw [hrun] at h
    cases h

theorem acquires_of_attach {a : AttachedClass}
    (h : d.attach s superclass interfaces = (s', .ok a)) :
    Acquires s (.cls d.id) d.typeParams s' := by
  rcases attach_cases d s superclass interfaces with ⟨e, hrun⟩ | ⟨s₁, a', hrun, hacquires⟩
  · rw [hrun] at h
    cases h
  · rw [hrun] at h
    cases h
    exact hacquires

end Attach

/-! ## Comparing the methods -/

section Comparison

variable {env : Env}

/-- A method may override whatever it overrides. -/
def OverridesLegally (env : Env) (mi : Method) : Prop :=
  ∃ overridden, env.overriddenMethods mi = .ok overridden ∧
    ∀ mj ∈ overridden, env.canOverride mi mj false = .ok true

/-- Methods are compared in order, each with what it overrides in order, and `e` is the error of
the first thing that goes wrong. -/
inductive FirstOffence (env : Env) : List Method → TypeError → Prop where
  /-- What the method overrides cannot be found out. -/
  | search {before after : List Method} {mi : Method} {e : TypeError}
      (legal : ∀ m ∈ before, OverridesLegally env m)
      (failure : env.overriddenMethods mi = .error e) :
      FirstOffence env (before ++ mi :: after) e
  /-- The method may not override one of those it overrides. -/
  | rule {before after passed others : List Method} {mi mj : Method} {e : TypeError}
      (legal : ∀ m ∈ before, OverridesLegally env m)
      (overridden : env.overriddenMethods mi = .ok (passed ++ mj :: others))
      (allowed : ∀ m ∈ passed, env.canOverride mi m false = .ok true)
      (failure : env.canOverride mi mj false = .error e) :
      FirstOffence env (before ++ mi :: after) e

/-- The comparison of a method with one that it overrides. -/
def compareWith (env : Env) (mi mj : Method) : Except TypeError Unit := do
  let _ ← env.canOverride mi mj false

/-- The comparison of a method with all that it overrides. -/
def compareAll (env : Env) (mi : Method) : Except TypeError Unit := do
  let overridden ← env.overriddenMethods mi
  overridden.forM (compareWith env mi)

theorem checkOverrides_eq (ms : List Method) :
    env.checkOverrides ms = ms.forM (compareAll env) := rfl

/-- Asked aloud, the only answer is yes. -/
theorem compareWith_eq_ok_iff {mi mj : Method} :
    compareWith env mi mj = .ok () ↔ env.canOverride mi mj false = .ok true := by
  constructor
  · intro h
    obtain ⟨b, hb, -⟩ := bind_eq_ok_iff.mp h
    exact canOverride_of_loud hb false
  · intro h
    rw [compareWith, h]
    rfl

theorem compareWith_eq_error_iff {mi mj : Method} {e : TypeError} :
    compareWith env mi mj = .error e ↔ env.canOverride mi mj false = .error e := by
  unfold compareWith
  cases env.canOverride mi mj false <;> simp

theorem compareAll_eq_ok_iff {mi : Method} :
    compareAll env mi = .ok () ↔ OverridesLegally env mi := by
  unfold compareAll OverridesLegally
  rw [bind_eq_ok_iff]
  simp only [forM_eq_ok_iff, compareWith_eq_ok_iff]

theorem compareAll_eq_error_iff {mi : Method} {e : TypeError} :
    compareAll env mi = .error e ↔ env.overriddenMethods mi = .error e ∨
      ∃ passed mj others, env.overriddenMethods mi = .ok (passed ++ mj :: others) ∧
        (∀ m ∈ passed, env.canOverride mi m false = .ok true) ∧
          env.canOverride mi mj false = .error e := by
  unfold compareAll
  cases hover : env.overriddenMethods mi with
  | error e' => simp
  | ok overridden =>
      rw [ok_bind, forM_eq_error_iff]
      simp only [compareWith_eq_ok_iff, compareWith_eq_error_iff, Except.ok.injEq, reduceCtorEq,
        false_or]

/-- **The loop over the methods ends with the first offence.** -/
theorem checkOverrides_eq_error_iff {ms : List Method} {e : TypeError} :
    env.checkOverrides ms = .error e ↔ FirstOffence env ms e := by
  rw [checkOverrides_eq, forM_eq_error_iff]
  simp only [compareAll_eq_ok_iff, compareAll_eq_error_iff]
  constructor
  · rintro ⟨before, mi, after, rfl, hlegal, hsearch | ⟨passed, mj, others, hover, hpassed, hrule⟩⟩
    · exact .search hlegal hsearch
    · exact .rule hlegal hover hpassed hrule
  · intro h
    cases h with
    | search hlegal hsearch => exact ⟨_, _, _, rfl, hlegal, .inl hsearch⟩
    | rule hlegal hover hpassed hrule =>
        exact ⟨_, _, _, rfl, hlegal, .inr ⟨_, _, _, hover, hpassed, hrule⟩⟩

end Comparison

/-! ## Checking -/

/-- The methods of a class that has just been defined are those that were declared, in order. -/
theorem Defines.methodsOf_new {s s' : Store} {id : ClassId} {decl : ClassDecl}
    (h : Defines s id decl s') :
    s'.methodsOf id = numbered id s.methods.size decl.methods := by
  -- each position that the definition takes holds the method that was declared there
  have hlookup : (nextMethodIds s decl.methods.length).map s'.method? =
      (numbered id s.methods.size decl.methods).map some := by
    apply List.ext_getElem?
    intro i
    rw [List.getElem?_map, List.getElem?_map, numbered_getElem?, nextMethodIds, List.getElem?_map]
    by_cases hi : i < decl.methods.length
    · have hold : ¬ s.methods.size + i < s.methods.size := by omega
      rw [List.getElem?_range' hi]
      simp [h.method?_eq, hold, hi]
    · simp [hi]
  rw [methodsOf, h.classDef?_new]
  calc (nextMethodIds s decl.methods.length).filterMap s'.method?
      = ((nextMethodIds s decl.methods.length).map s'.method?).filterMap (fun m => m) := by
        rw [List.filterMap_map]
        rfl
    _ = ((numbered id s.methods.size decl.methods).map some).filterMap (fun m => m) := by
        rw [hlookup]
    _ = numbered id s.methods.size decl.methods := by
        rw [List.filterMap_map]
        exact List.filterMap_some

/-- **Checking is refused before the class is defined, or by the comparison of its methods.** -/
theorem check_eq_error {b : AssembledClass} {s s' : Store} {e : TypeError}
    (h : b.check s = (s', .error e)) :
    s' = s ∨ Defines s b.id b.fullDecl s' ∧
      s'.env.checkOverrides (s'.methodsOf b.id) = .error e := by
  unfold AssembledClass.check at h
  split at h
  · cases h
    exact .inl rfl
  · -- the class is defined if and only if it is admissible, and then it stays
    by_cases hadm : Admissible s b.id b.fullDecl
    · obtain ⟨s₁, hrun, hdef⟩ := define_of_admissible hadm
      rw [hrun] at h
      dsimp only at h
      split at h
      · rename_i hover
        cases h
        exact .inr ⟨hdef, hover⟩
      · cases h
    · obtain ⟨e', hrun⟩ := define_of_not_admissible hadm
      rw [hrun] at h
      cases h
      exact .inl rfl

/--
**The passes of a build are all or nothing, except that a checked class stays defined.**
A class that cannot be attached leaves the store as it was, and one that can is made the
owner of its variables and nothing else. A check that is refused leaves the store as it
was, or the class is now defined with everything that was declared for it and the error
is that of the first offence among its methods, which are compared in declaration order.
This holds of every store and every handle, whatever has happened since the handle was
given out.
-/
theorem passes_atomic (s : Store) :
    (∀ (d : DeclaredClass) (superclass : Option Ty) (interfaces : List Ty) (s' : Store),
      (∀ e, d.attach s superclass interfaces = (s', .error e) → s' = s) ∧
      ∀ a, d.attach s superclass interfaces = (s', .ok a) →
        Acquires s (.cls d.id) d.typeParams s') ∧
    ∀ (b : AssembledClass) (s' : Store) (e : TypeError), b.check s = (s', .error e) →
      s' = s ∨
        Defines s b.id b.fullDecl s' ∧
          s'.methodsOf b.id = numbered b.id s.methods.size b.fullDecl.methods ∧
          FirstOffence s'.env (s'.methodsOf b.id) e := by
  refine ⟨fun d superclass interfaces s' => ⟨?_, ?_⟩, ?_⟩
  · intro e h
    exact eq_of_attach h
  · intro a h
    exact acquires_of_attach h
  · intro b s' e h
    rcases check_eq_error h with rfl | ⟨hdef, hover⟩
    · exact .inl rfl
    · exact .inr ⟨hdef, hdef.methodsOf_new, checkOverrides_eq_error_iff.mp hover⟩

/-- Two variables of one name keep a class from being attached. Another class is attached, gets a
method that may not override one of the top class, and stays defined. -/
theorem passes_atomic_shouty :
    let pair := Store.builtin.declare { name := "p.Pair" } [{ name := "K" }, { name := "K" }]
    let shouty := Store.builtin.declare { name := "p.Shouty" } [{ name := "T" }]
    let a : AttachedClass := { id := ⟨12⟩, decl := shouty.2.attachedDecl none [] }
    let s := (shouty.2.attach shouty.1 none []).1
    let b := (a.addMethod { name := "hashCode", returnType := .prim .long,
                            flags := .pub }).assemble
    let s' := (b.check s).1
    (∃ e, (pair.2.attach pair.1 none []).2 = .error e ∧
        (pair.2.attach pair.1 none []).1 = pair.1) ∧
      (shouty.2.attach shouty.1 none []).2 = .ok a ∧
      Acquires shouty.1 (.cls ⟨12⟩) [⟨0⟩] s ∧
      Issued s (.assembled b) ∧
      ∃ e, (b.check s).2 = .error e ∧ Defines s ⟨12⟩ b.fullDecl s' ∧
        FirstOffence s'.env (s'.methodsOf ⟨12⟩) e := by
  intro pair shouty a s b s'
  have hattached : (shouty.2.attach shouty.1 none []).2 = .ok a := by decide
  have hrun : shouty.2.attach shouty.1 none [] = (s, .ok a) := run_eq_of_outcome hattached
  have hissued : Issued s (.assembled b) :=
    .assemble (.addMethod _ (.attach (.declare _ _ Reachable.builtin) hrun))
  -- a refused check that changed the store has defined the class
  have hnew : s' ≠ s := by decide
  obtain ⟨e, he⟩ : ∃ e, (pair.2.attach pair.1 none []).2 = .error e :=
    exists_error_of_not_isOk (by decide)
  obtain ⟨e', he'⟩ : ∃ e', (b.check s).2 = .error e' := exists_error_of_not_isOk (by decide)
  have hsame := ((passes_atomic pair.1).1 pair.2 none [] _).1 e (run_eq_of_outcome he)
  have hacq := ((passes_atomic shouty.1).1 shouty.2 none [] s).2 a hrun
  have hstays := ((passes_atomic s).2 b s' e' (run_eq_of_outcome he')).resolve_left hnew
  exact ⟨⟨e, he, hsame⟩, hattached, hacq, hissued, e', he', hstays.1, hstays.2.2⟩

end Lineage.Proofs
