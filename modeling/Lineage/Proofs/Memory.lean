import Lineage.Member.Generic
import Lineage.Proofs.Candidates

/-!
# Call rules with a memory

A call rule may remember what it has computed, and the search for a method asks it in an
order, and a number of times, that nobody should have to think about. This module says
when one need not. A computation *mirrors* another one that has no memory if it answers
the same from every memory that satisfies a given condition, and leaves a memory that
satisfies it. Mirroring goes through every way in which computations are put together,
so a search mirrors another as soon as the two call rules do, method by method. Only
the methods that the searched classes list need to be looked at.

The rule for generic methods remembers the erasures of classes. It mirrors the rule that
is told these erasures in advance, and on a method that is not generic it mirrors the
rule that looks at declared parameters only and does not touch its memory at all.
-/

namespace Lineage.Proofs

variable {σ α β : Type} {I : σ → Prop}

/-- From every memory in `I`, `x` answers like `y`, which remembers nothing, and the memory stays
in `I`. -/
def Mirrors (I : σ → Prop) (x : Resolve σ α) (y : Resolve Unit α) : Prop :=
  ∀ s, I s → (x.run.run s).1 = answer y ∧ I (x.run.run s).2

namespace Mirrors

theorem pure (a : α) : Mirrors I (pure a) (pure a) := fun _ hs => ⟨rfl, hs⟩

theorem throw (e : TypeError) : Mirrors I (throw e : Resolve σ α) (throw e) :=
  fun _ hs => ⟨rfl, hs⟩

theorem ofExcept (x : Except TypeError α) : Mirrors I (.ofExcept x) (.ofExcept x) := by
  cases x with
  | error e => exact throw e
  | ok a => exact pure a

theorem bind {x : Resolve σ α} {y : Resolve Unit α} {f : α → Resolve σ β} {g : α → Resolve Unit β}
    (h : Mirrors I x y) (hf : ∀ a, answer y = .ok a → Mirrors I (f a) (g a)) :
    Mirrors I (x >>= f) (y >>= g) := by
  intro s hs
  obtain ⟨hval, hkept⟩ := h s hs
  rw [answer_bind, ExceptT.run_bind, StateT.run_bind]
  rcases hrun : x.run.run s with ⟨r, s'⟩
  rw [hrun] at hval hkept
  -- a failure ends both runs, and the memory it leaves is kept as well
  cases r with
  | error e =>
      rw [← hval]
      exact ⟨rfl, hkept⟩
  | ok a =>
      rw [← hval]
      exact hf a hval.symm s' hkept

theorem tryCatch {x : Resolve σ α} {y : Resolve Unit α} {f : TypeError → Resolve σ α}
    {g : TypeError → Resolve Unit α} (h : Mirrors I x y) (hf : ∀ e, Mirrors I (f e) (g e)) :
    Mirrors I (tryCatch x f) (tryCatch y g) := by
  intro s hs
  obtain ⟨hval, hkept⟩ := h s hs
  rw [answer_tryCatch, ExceptT.run_tryCatch, StateT.run_bind]
  rcases hrun : x.run.run s with ⟨r, s'⟩
  rw [hrun] at hval hkept
  cases r with
  | error e =>
      rw [← hval]
      exact hf e s' hkept
  | ok a =>
      rw [← hval]
      exact ⟨rfl, hkept⟩

theorem ite {c : Prop} [Decidable c] {x x' : Resolve σ α} {y y' : Resolve Unit α}
    (h : c → Mirrors I x y) (h' : ¬ c → Mirrors I x' y') :
    Mirrors I (if c then x else x') (if c then y else y') := by
  by_cases hc : c
  · rw [if_pos hc, if_pos hc]
    exact h hc
  · rw [if_neg hc, if_neg hc]
    exact h' hc

end Mirrors

/-! ## The search -/

section Search

variable {env : Env} {fits : CallRule σ} {fits' : CallRule Unit} {call : MethodCall}
  {ctx : AccessContext}

/-- The two rules give the same answers about one method. -/
def Alike (I : σ → Prop) (fits : CallRule σ) (fits' : CallRule Unit) (m : Method) : Prop :=
  ∀ args, Mirrors I (fits m args) (fits' m args)

theorem applicableIn_mirrors {id : ClassId} {name : String} {ks : List MethodId}
    (h : ∀ m ∈ ks.filterMap env.method?, Alike I fits fits' m) :
    Mirrors I (Resolver.applicableIn ⟨env, fits⟩ call ctx id name ks)
      (Resolver.applicableIn ⟨env, fits'⟩ call ctx id name ks) := by
  induction ks with
  | nil => exact Mirrors.pure []
  | cons k ks ih =>
      rw [Resolver.applicableIn, Resolver.applicableIn]
      dsimp only
      cases hm : env.method? k with
      | none => exact Mirrors.throw _
      | some m =>
          rw [List.filterMap_cons_some hm, List.forall_mem_cons] at h
          refine Mirrors.ite (fun _ => ih h.2) fun _ => ?_
          refine (h.1 call.args).bind fun fits _ => ?_
          -- whether the method is kept or not, the others come next
          refine Mirrors.ite (fun _ => (Mirrors.ofExcept _).bind fun usable _ => ?_)
            fun _ => (Mirrors.pure false).bind fun usable _ => ?_
          · exact (ih h.2).bind fun others _ => Mirrors.pure _
          · exact (ih h.2).bind fun others _ => Mirrors.pure _

theorem applicableAlong_mirrors {ids : List ClassId}
    (h : ∀ m ∈ ids.flatMap (listed env), Alike I fits fits' m) :
    Mirrors I (Resolver.applicableAlong ⟨env, fits⟩ call ctx ids)
      (Resolver.applicableAlong ⟨env, fits'⟩ call ctx ids) := by
  induction ids with
  | nil => exact Mirrors.pure []
  | cons id ids ih =>
      rw [List.flatMap_cons] at h
      rw [Resolver.applicableAlong, Resolver.applicableAlong]
      -- the definition of the class does not depend on the memory
      refine (Mirrors.ofExcept _).bind fun c hc => ?_
      rw [answer_ofExcept] at hc
      rw [listed_eq (classDef_eq_ok_iff.mp hc)] at h
      refine (applicableIn_mirrors fun m hm => h m (List.mem_append_left _ hm)).bind
        fun found _ => ?_
      exact (ih fun m hm => h m (List.mem_append_right _ hm)).bind fun others _ => Mirrors.pure _

/-- The rules agree on every method of the classes that are searched for the receiver. -/
def AlikeFor (I : σ → Prop) (env : Env) (fits : CallRule σ) (fits' : CallRule Unit)
    (receiver : Ty) : Prop :=
  ∀ classes, searchedClasses env receiver = .ok classes →
    ∀ m ∈ classes.flatMap (listed env), Alike I fits fits' m

theorem applicable_mirrors (h : AlikeFor I env fits fits' call.receiver) :
    Mirrors I (Resolver.applicable ⟨env, fits⟩ call ctx)
      (Resolver.applicable ⟨env, fits'⟩ call ctx) := by
  rw [Resolver.applicable, Resolver.applicable]
  refine (Mirrors.ofExcept _).bind fun start hstart => ?_
  refine (Mirrors.ofExcept _).bind fun classes hclasses => ?_
  rw [answer_ofExcept] at hstart hclasses
  exact applicableAlong_mirrors (h classes (bind_eq_ok_iff.mpr ⟨start, hstart, hclasses⟩))

theorem moreSpecific_mirrors {m₁ m₂ : Method} (h : Alike I fits fits' m₂) :
    Mirrors I (Resolver.moreSpecific ⟨env, fits⟩ m₁ m₂)
      (Resolver.moreSpecific ⟨env, fits'⟩ m₁ m₂) := by
  unfold Resolver.moreSpecific
  refine Mirrors.ite (fun _ => ?_) fun _ => Mirrors.pure false
  exact (h m₁.params).tryCatch fun _ => Mirrors.pure false

theorem beaten_mirrors {m : Method} {candidates : List Method} (hm : Alike I fits fits' m)
    (h : ∀ o ∈ candidates, Alike I fits fits' o) :
    Mirrors I (Resolver.beaten ⟨env, fits⟩ m candidates)
      (Resolver.beaten ⟨env, fits'⟩ m candidates) := by
  induction candidates with
  | nil => exact Mirrors.pure false
  | cons o rest ih =>
      rw [List.forall_mem_cons] at h
      rw [Resolver.beaten, Resolver.beaten]
      refine Mirrors.ite (fun _ => ih h.2) fun _ => ?_
      refine (moreSpecific_mirrors hm).bind fun above _ => ?_
      refine Mirrors.ite (fun _ => ?_) fun _ => ih h.2
      refine (moreSpecific_mirrors h.1).bind fun below _ => ?_
      exact Mirrors.ite (fun _ => ih h.2) fun _ => Mirrors.pure true

theorem unbeaten_mirrors {candidates ms : List Method}
    (h : ∀ o ∈ candidates, Alike I fits fits' o) (hms : ∀ m ∈ ms, Alike I fits fits' m) :
    Mirrors I (Resolver.unbeaten ⟨env, fits⟩ candidates ms)
      (Resolver.unbeaten ⟨env, fits'⟩ candidates ms) := by
  induction ms with
  | nil => exact Mirrors.pure []
  | cons m rest ih =>
      rw [List.forall_mem_cons] at hms
      rw [Resolver.unbeaten, Resolver.unbeaten]
      refine (beaten_mirrors hms.1 h).bind fun lost _ => ?_
      exact (ih hms.2).bind fun others _ => Mirrors.pure _

/-- **A search mirrors a search whose call rule gives the same answers.** -/
theorem getMethod_mirrors (h : AlikeFor I env fits fits' call.receiver) :
    Mirrors I (Resolver.getMethod ⟨env, fits⟩ call ctx)
      (Resolver.getMethod ⟨env, fits'⟩ call ctx) := by
  rw [Resolver.getMethod, Resolver.getMethod]
  refine (applicable_mirrors h).bind fun candidates hcand => ?_
  -- only candidates are compared, and they are listed by the searched classes
  obtain ⟨classes, hclasses, hsub⟩ := applicable_listed hcand
  have halike : ∀ m ∈ candidates, Alike I fits fits' m :=
    fun m hm => h classes hclasses m (hsub.subset hm)
  refine Mirrors.ite (fun _ => Mirrors.throw _) fun _ => ?_
  refine (unbeaten_mirrors halike halike).bind fun tied _ => ?_
  -- one candidate is the answer, none or several are the same error on both sides
  rcases tied with _ | ⟨m, _ | ⟨o, rest⟩⟩
  · exact Mirrors.throw _
  · exact Mirrors.pure m
  · exact Mirrors.throw _

end Search

/-! ## The rule for generic methods -/

section Generic

variable {env : Env} {erasures : ClassId → Except TypeError Subst} {I : ErasureCache → Prop}

/-- The erased signature, with the erasures of classes known in advance. -/
def erasedBy (env : Env) (erasures : ClassId → Except TypeError Subst) (m : Method) :
    Resolve Unit Method := do
  let ofClass ← .ofExcept (erasures m.container)
  if m.typeParams.isEmpty then pure (ofClass.applyMethod m)
  else do
    let ofMethod ← .ofExcept (env.erasureSubst m.typeParams)
    pure ((ofClass.compose ofMethod).applyMethod m)

/-- The rule for generic methods, with the erasures of classes known in advance. -/
def genericBy (env : Env) (erasures : ClassId → Except TypeError Subst) : CallRule Unit :=
  fun m args => do
    if ← .ofExcept (env.callFits m args) then pure true
    else if CallRule.isGenericMember env m then do
      let erased ← erasedBy env erasures m
      .ofExcept (env.callFits erased args)
    else pure false

/-- Every cache in `I` gives the classes these erasures, and stays in `I`. -/
def Supplies (I : ErasureCache → Prop) (env : Env) (erasures : ClassId → Except TypeError Subst) :
    Prop :=
  ∀ id, Mirrors I (fun cache => cache.classErasure env id : Resolve ErasureCache Subst)
    (.ofExcept (erasures id))

theorem Supplies.erasedSignature (h : Supplies I env erasures) (m : Method) :
    Mirrors I (CallRule.erasedSignature env m) (erasedBy env erasures m) := by
  refine (h m.container).bind fun ofClass _ => ?_
  refine Mirrors.ite (fun _ => Mirrors.pure _) fun _ => ?_
  exact (Mirrors.ofExcept _).bind fun ofMethod _ => Mirrors.pure _

theorem Supplies.generic (h : Supplies I env erasures) (m : Method) :
    Alike I (CallRule.generic env) (genericBy env erasures) m := by
  intro args
  refine (Mirrors.ofExcept _).bind fun fits _ => ?_
  refine Mirrors.ite (fun _ => Mirrors.pure true) fun _ => ?_
  refine Mirrors.ite (fun _ => ?_) fun _ => Mirrors.pure false
  exact (h.erasedSignature m).bind fun erased _ => Mirrors.ofExcept _

/-- The erasure of a class is remembered; or it is computed, and remembered from then on; or it
cannot be computed, and the cache stays as it is. -/
theorem classErasure_cases (cache : ErasureCache) (env : Env) (id : ClassId) :
    (∃ subst, cache.get? id = some subst ∧ cache.classErasure env id = (.ok subst, cache)) ∨
    (∃ subst, cache.get? id = none ∧ ErasureCache.classErasure.compute env id = .ok subst ∧
      cache.classErasure env id = (.ok subst, ⟨(id, subst) :: cache.entries⟩)) ∨
    (∃ e, cache.get? id = none ∧ ErasureCache.classErasure.compute env id = .error e ∧
      cache.classErasure env id = (.error e, cache)) := by
  unfold ErasureCache.classErasure
  cases cache.get? id with
  | some subst => exact .inl ⟨subst, rfl, rfl⟩
  | none =>
      cases ErasureCache.classErasure.compute env id with
      | ok subst => exact .inr (.inl ⟨subst, rfl, rfl, rfl⟩)
      | error e => exact .inr (.inr ⟨e, rfl, rfl, rfl⟩)

theorem get?_remember (cache : ErasureCache) (id k : ClassId) (subst : Subst) :
    ErasureCache.get? ⟨(id, subst) :: cache.entries⟩ k =
      if k = id then some subst else cache.get? k := by
  unfold ErasureCache.get?
  rw [List.lookup_cons]
  by_cases h : k = id
  · simp [h]
  · rw [if_neg h, beq_false_of_ne h]

theorem classErasure_fst (cache : ErasureCache) (env : Env) (id : ClassId) :
    (cache.classErasure env id).1 = match cache.get? id with
      | some subst => .ok subst
      | none => ErasureCache.classErasure.compute env id := by
  rcases classErasure_cases cache env id with
    ⟨subst, hget, hrun⟩ | ⟨subst, hget, hcompute, hrun⟩ | ⟨e, hget, hcompute, hrun⟩
  · rw [hrun, hget]
  · rw [hrun, hget, hcompute]
  · rw [hrun, hget, hcompute]

/-- Every class gets the same erasure from both caches. -/
def SameErasures (env : Env) (cache cache' : ErasureCache) : Prop :=
  ∀ id, (cache'.classErasure env id).1 = (cache.classErasure env id).1

/-- What a cache gives does not change when it is asked, whatever it holds. -/
theorem sameErasures_supplies (env : Env) (cache : ErasureCache) :
    Supplies (SameErasures env cache) env fun id => (cache.classErasure env id).1 := by
  intro id cache' h
  rw [answer_ofExcept]
  refine ⟨h id, ?_⟩
  show SameErasures env cache (cache'.classErasure env id).2
  rcases classErasure_cases cache' env id with
    ⟨subst, -, hrun⟩ | ⟨subst, hget, hcompute, hrun⟩ | ⟨e, -, -, hrun⟩
  · rw [hrun]
    exact h
  · -- the new entry is what was computed for the class before
    rw [hrun]
    intro k
    rw [← h k, classErasure_fst, classErasure_fst, get?_remember]
    by_cases hk : k = id
    · rw [if_pos hk, hk, hget, hcompute]
    · rw [if_neg hk]
  · rw [hrun]
    exact h

/-- A method is not generic as a member if neither it nor its class has type parameters. -/
theorem isGenericMember_eq_false {m : Method} (hm : m.isGeneric = false)
    (hc : ∀ c ∈ env.classDef? m.container, c.typeParams = []) :
    CallRule.isGenericMember env m = false := by
  unfold CallRule.isGenericMember
  rw [hm, Bool.false_or]
  cases hdef : env.classDef? m.container with
  | none => rfl
  | some c => simp [hc c hdef]

/-- On a method that is not generic, nothing is erased. -/
theorem generic_alike_standard {m : Method} (hm : CallRule.isGenericMember env m = false)
    (I : ErasureCache → Prop) : Alike I (CallRule.generic env) (CallRule.standard env) m := by
  intro args s hs
  unfold CallRule.generic CallRule.standard
  rw [hm]
  rcases env.callFits m args with e | fits
  · exact ⟨rfl, hs⟩
  · cases fits <;> exact ⟨rfl, hs⟩

end Generic

end Lineage.Proofs
