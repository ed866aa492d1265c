import Lineage.GenericDeclaration
import Lineage.Proofs.Supertype

/-!
# What a header check establishes

Before a class is attached to its supertypes its header is checked: the superclass and
the type parameters. `ProperHeader` is what the check asks for, as four separate facts.
The check goes through them in a fixed order and stops at the first that fails, so a
header passes exactly when all four hold.
-/

namespace Lineage.Proofs

open Store

variable {env : Env}

/-! ## Names of type parameters -/

theorem typeParamsOf_eq_ok_iff {vars : List TypeVarId} {params : List TypeParam} :
    env.typeParamsOf vars = .ok params ↔
      List.Forall₂ (fun v p => env.typeParam? v = some p) vars params := by
  induction vars generalizing params with
  | nil => cases params <;> simp [Env.typeParamsOf]
  | cons v vars ih =>
      rw [Env.typeParamsOf]
      cases hv : env.typeParam? v with
      | none =>
          -- a variable that does not exist fails the list, and pairs with no parameter
          refine iff_of_false (by simp) fun h => ?_
          cases h with
          | cons hp _ =>
              rw [hv] at hp
              cases hp
      | some p =>
          dsimp only
          rw [bind_eq_ok_iff]
          constructor
          · intro h
            obtain ⟨others, hothers, h⟩ := h
            cases h
            exact .cons hv (ih.mp hothers)
          · intro h
            cases h with
            | cons hq hrest =>
                rw [hv] at hq
                cases hq
                exact ⟨_, ih.mpr hrest, rfl⟩

/-- There is no duplicate exactly when the names are different. -/
theorem duplicate?_eq_none_iff {params : List TypeParam} :
    Env.duplicate? params = none ↔ (params.map (·.name)).Nodup := by
  induction params with
  | nil => simp [Env.duplicate?]
  | cons p params ih =>
      rw [Env.duplicate?, List.map_cons, List.nodup_cons, ← ih]
      cases hfind : params.find? (fun q => p.name == q.name) with
      | some q =>
          have heq : p.name = q.name := by simpa using List.find?_some hfind
          have hmem : p.name ∈ params.map (·.name) := by
            rw [heq]
            exact List.mem_map_of_mem (List.mem_of_find?_eq_some hfind)
          simp [hmem]
      | none =>
          -- a name that comes again would have been found
          have hfresh : p.name ∉ params.map (·.name) := by
            intro hmem
            obtain ⟨q, hq, heq⟩ := List.mem_map.mp hmem
            have := List.find?_eq_none.mp hfind q hq
            simp [heq] at this
          simp [hfresh]

theorem checkDuplicates_eq_ok_iff {vars : List TypeVarId} :
    env.checkDuplicates vars = .ok () ↔
      ∃ params, env.typeParamsOf vars = .ok params ∧ (params.map (·.name)).Nodup := by
  unfold Env.checkDuplicates
  rw [bind_eq_ok_iff]
  refine exists_congr fun params => and_congr_right fun _ => ?_
  rw [← duplicate?_eq_none_iff]
  cases Env.duplicate? params <;> simp

/-! ## The superclass -/

/-- The superclass that is written, if one is, is the class that is extended. -/
def Names (env : Env) : Option Ty → Option ClassId → Prop
  | none, parent => parent = none
  | some link, parent => ∃ p, env.resolveLink link = .ok p ∧ parent = some p

/-- The superclass of a declaration is found like that of a definition. -/
theorem declaredSuperclass_eq_ok_iff {id : ClassId} {superclass : Option Ty}
    {parent : Option ClassId} :
    env.declaredSuperclass id superclass = .ok parent ↔ Names env superclass parent := by
  cases superclass with
  | none => simp [Env.declaredSuperclass, Names, eq_comm]
  | some link =>
      -- ids and names are followed as in a definition, and nothing else is a superclass
      cases link with
      | cls p => simp [Env.declaredSuperclass, Names, Env.resolveLink, eq_comm]
      | named name =>
          rw [Env.declaredSuperclass, Names]
          dsimp only [Env.resolveLink]
          cases env.find name <;> simp [eq_comm]
      | _ => simp [Env.declaredSuperclass, Names, Env.resolveLink]

theorem Names.resolve {superclass : Option Ty} {parent : Option ClassId}
    (h : Names env superclass parent) {link : Ty} (hlink : link ∈ superclass) :
    ∃ p ∈ parent, env.resolveLink link = .ok p := by
  rw [Option.mem_def.mp hlink] at h
  obtain ⟨p, hp, rfl⟩ := h
  exact ⟨p, rfl, hp⟩

theorem Names.link {superclass : Option Ty} {parent : Option ClassId}
    (h : Names env superclass parent) {p : ClassId} (hp : p ∈ parent) :
    ∃ link ∈ superclass, env.resolveLink link = .ok p := by
  cases superclass with
  | none =>
      rw [h] at hp
      cases hp
  | some link =>
      obtain ⟨q, hq, rfl⟩ := h
      cases hp
      exact ⟨link, rfl, hq⟩

theorem checkNotEnum_eq_ok_iff {parent : Option ClassId} {span : Option Span} :
    env.checkNotEnum parent span = .ok () ↔
      ∀ p ∈ parent, ∃ c, env.classDef? p = some c ∧ c.isEnum = false := by
  cases parent with
  | none => simp [Env.checkNotEnum]
  | some p =>
      unfold Env.checkNotEnum
      dsimp only
      rw [bind_eq_ok_iff]
      simp only [classDef_eq_ok_iff, Option.mem_some_iff, forall_eq']
      refine exists_congr fun c => and_congr_right fun _ => ?_
      cases c.isEnum <;> simp

theorem checkNotThrowable_eq_ok_iff {parent : Option ClassId} {span : Option Span} :
    env.checkNotThrowable parent span = .ok () ↔
      ∀ p ∈ parent, env.isThrowable (.cls p) = .ok false := by
  cases parent with
  | none => simp [Env.checkNotThrowable]
  | some p =>
      unfold Env.checkNotThrowable
      dsimp only
      rw [bind_eq_ok_iff]
      simp only [Option.mem_some_iff, forall_eq']
      cases env.isThrowable (.cls p) with
      | error e => simp
      | ok b => cases b <;> simp

/-! ## The header -/

/-- What the header of a class has to be. -/
structure ProperHeader (env : Env) (id : ClassId) (superclass : Option Ty)
    (vars : List TypeVarId) : Prop where
  /-- The superclass is defined and no enum. -/
  parent : ∀ link ∈ superclass, ∃ p c, env.resolveLink link = .ok p ∧
    env.classDef? p = some c ∧ c.isEnum = false
  /-- The top class is not generic. -/
  notTop : vars ≠ [] → id ≠ env.wellKnown.object
  /-- A generic class extends no exception. -/
  notThrowable : vars ≠ [] → ∀ link ∈ superclass, ∀ p, env.resolveLink link = .ok p →
    env.isThrowable (.cls p) = .ok false
  /-- The type parameters exist and have different names. -/
  names : ∃ params, env.typeParamsOf vars = .ok params ∧ (params.map (·.name)).Nodup

/-- **A header passes the check exactly when it is proper.** -/
theorem checkClassHeader_eq_ok_iff {id : ClassId} {superclass : Option Ty}
    {vars : List TypeVarId} {span : Option Span} :
    env.checkClassHeader id superclass vars span = .ok () ↔
      ProperHeader env id superclass vars := by
  unfold Env.checkClassHeader
  rw [bind_eq_ok_iff]
  simp only [declaredSuperclass_eq_ok_iff, check_bind_eq_ok_iff, checkNotEnum_eq_ok_iff]
  constructor
  · intro h
    obtain ⟨parent, hparent, henum, h⟩ := h
    -- what is asked of generic headers only, with names that all headers have
    have hheader : (vars ≠ [] → id ≠ env.wellKnown.object ∧
          ∀ p ∈ parent, env.isThrowable (.cls p) = .ok false) ∧
        ∃ params, env.typeParamsOf vars = .ok params ∧ (params.map (·.name)).Nodup := by
      cases vars with
      | nil => exact ⟨fun hne => absurd rfl hne, [], rfl, List.nodup_nil⟩
      | cons v vars =>
          rw [if_neg (by simp)] at h
          split at h
          · cases h
          · -- generic and not the top class: exceptions and names are checked, in this order
            rename_i htop
            rw [check_bind_eq_ok_iff, checkNotThrowable_eq_ok_iff,
              checkDuplicates_eq_ok_iff] at h
            exact ⟨fun _ => ⟨htop, h.1⟩, h.2⟩
    refine ⟨?_, fun hne => (hheader.1 hne).1, ?_, hheader.2⟩
    · intro link hlink
      obtain ⟨p, hp, hres⟩ := hparent.resolve hlink
      obtain ⟨c, hc, hkind⟩ := henum p hp
      exact ⟨p, c, hres, hc, hkind⟩
    · -- the link resolves to one class, the one that was checked
      intro hne link hlink p hres
      obtain ⟨q, hq, hres'⟩ := hparent.resolve hlink
      rw [hres] at hres'
      cases hres'
      exact (hheader.1 hne).2 p hq
  · intro h
    -- a proper header has a superclass to check, if it names one
    obtain ⟨parent, hparent⟩ : ∃ parent, Names env superclass parent := by
      cases superclass with
      | none => exact ⟨none, rfl⟩
      | some link =>
          obtain ⟨p, -, hres, -⟩ := h.parent link rfl
          exact ⟨some p, p, hres, rfl⟩
    refine ⟨parent, hparent, fun p hp => ?_, ?_⟩
    · obtain ⟨link, hlink, hres⟩ := hparent.link hp
      obtain ⟨q, c, hres', hc, hkind⟩ := h.parent link hlink
      rw [hres] at hres'
      cases hres'
      exact ⟨c, hc, hkind⟩
    · -- nothing more is asked of a class that is not generic
      cases vars with
      | nil => rfl
      | cons v vars =>
          have hne : v :: vars ≠ [] := List.cons_ne_nil v vars
          rw [if_neg (by simp), if_neg (h.notTop hne), check_bind_eq_ok_iff,
            checkNotThrowable_eq_ok_iff, checkDuplicates_eq_ok_iff]
          refine ⟨fun p hp => ?_, h.names⟩
          obtain ⟨link, hlink, hres⟩ := hparent.link hp
          exact h.notThrowable hne link hlink p hres

end Lineage.Proofs
