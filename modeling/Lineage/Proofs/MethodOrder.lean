import Lineage.Proofs.Reordering
import Lineage.Proofs.Run
import Mathlib.Data.Multiset.Basic

/-!
# The order of declarations does not decide a call

The order in which a class lists its methods can do three things to a search. It permutes
the candidates, it decides which of several failures is met first, and it decides what a
rule with a memory remembers by the time it is asked about a method. The last makes no
difference because such a rule mirrors one without a memory. For the first two it is
enough that nobody counts positions: which candidates are unbeaten depends on which
candidates there are, and a failure on the way is never mistaken for a verdict.
-/

namespace Lineage.Proofs

open Store

/-! ## Collecting candidates -/

section Candidates

variable (r : Resolver Unit) (call : MethodCall) (ctx : AccessContext)

/-- What one listed method adds to the candidates. -/
def contribution (id : ClassId) (className : String) (k : MethodId) :
    Except TypeError (List Method) :=
  match r.env.method? k with
  | none =>
    .error (.internal (k.inspect ++ " listed on " ++ className ++ " is not in the environment"))
  | some m =>
    if m.name ≠ call.name then .ok []
    else (fun keep => if keep then [m] else []) <$> usableBy r call ctx id m

/-- Each method is looked at on its own. -/
theorem applicableIn_eq (id : ClassId) (className : String) (ks : List MethodId) :
    answer (r.applicableIn call ctx id className ks) =
      List.flatten <$> ks.mapM (contribution r call ctx id className) := by
  induction ks with
  | nil => rfl
  | cons k ks ih =>
      rw [List.mapM_cons, contribution]
      cases hm : r.env.method? k with
      | none =>
          rw [applicableIn_missing r call ctx hm]
          rfl
      | some m =>
          rw [applicableIn_cons r call ctx hm, ih]
          dsimp only
          -- what the other methods add does not matter to this one
          generalize ks.mapM (contribution r call ctx id className) = others
          split
          · cases others <;> rfl
          · rcases usableBy r call ctx id m with e | keep
            · rfl
            · cases others with
              | error e => rfl
              | ok found => cases keep <;> rfl

end Candidates

section Search

variable {env env' : Env} {fits fits' : CallRule Unit} {call : MethodCall} {ctx : AccessContext}

variable (h : Reordered env env')
  (hfits : ∀ m args, Agree Eq (answer (fits m args)) (answer (fits' m args)))

include h hfits

theorem contribution_agree (id : ClassId) (className : String) (k : MethodId) :
    Agree Eq (contribution ⟨env, fits⟩ call ctx id className k)
      (contribution ⟨env', fits'⟩ call ctx id className k) := by
  unfold contribution
  dsimp only
  rw [h.method?]
  cases env.method? k with
  | none => exact .error rfl rfl
  | some m =>
      refine Agree.ite (fun _ => Agree.same []) fun _ => ?_
      -- rules and access agree, so the same methods are kept
      have husable : Agree Eq (usableBy ⟨env, fits⟩ call ctx id m)
          (usableBy ⟨env', fits'⟩ call ctx id m) := by
        refine (hfits m call.args).next fun fits => ?_
        exact Agree.ite (fun _ => h.isAccessible _ _ _) fun _ => Agree.same false
      exact husable.map fun _ _ heq => by rw [heq]

theorem applicableIn_agree {id : ClassId} {className : String} {ks ks' : List MethodId}
    (hperm : ks.Perm ks') :
    Agree List.Perm (answer (Resolver.applicableIn ⟨env, fits⟩ call ctx id className ks))
      (answer (Resolver.applicableIn ⟨env', fits'⟩ call ctx id className ks')) := by
  rw [applicableIn_eq, applicableIn_eq]
  exact (mapM_perm (contribution_agree h hfits id className) hperm).map
    fun _ _ hfound => hfound.flatten

theorem applicableAlong_agree (ids : List ClassId) :
    Agree List.Perm (answer (Resolver.applicableAlong ⟨env, fits⟩ call ctx ids))
      (answer (Resolver.applicableAlong ⟨env', fits'⟩ call ctx ids)) := by
  induction ids with
  | nil => exact .ok (List.Perm.refl [])
  | cons id ids ih =>
      rw [applicableAlong_cons, applicableAlong_cons]
      refine (h.classDef id).bind ?_
      rintro c _ ⟨methods, hperm, rfl⟩
      refine (applicableIn_agree h hfits hperm).bind fun found found' hfound => ?_
      exact ih.bind fun others others' hothers => .ok (hfound.append hothers)

theorem applicable_agree :
    Agree List.Perm (answer (Resolver.applicable ⟨env, fits⟩ call ctx))
      (answer (Resolver.applicable ⟨env', fits'⟩ call ctx)) := by
  rw [applicable_eq, applicable_eq]
  exact (h.searchedClasses call.receiver).next fun classes =>
    applicableAlong_agree h hfits classes

/-! ## Choosing one -/

theorem prefersBy_reordered (m o : Method) :
    prefersBy ⟨env', fits'⟩ m o = prefersBy ⟨env, fits⟩ m o := by
  unfold prefersBy Resolver.related
  rw [(h.descends _ _).answeredYes_eq, (h.isEnclosed _ _).answeredYes_eq,
    (hfits o m.params).answeredYes_eq]

/-- Which candidates are unbeaten depends on which candidates there are. -/
theorem maximalBy_perm {candidates candidates' : List Method}
    (hperm : candidates.Perm candidates') :
    (maximalBy ⟨env, fits⟩ candidates).Perm (maximalBy ⟨env', fits'⟩ candidates') := by
  unfold maximalBy beatsBy
  simp only [prefersBy_reordered h hfits, hperm.any_eq]
  exact hperm.filter _

end Search

/-! ## Verdicts -/

/-- The call is ambiguous between candidates with these texts, in whatever order. -/
def AmbiguousBetween (x : Except TypeError Method) (name : String) (texts : Multiset String) :
    Prop :=
  ∃ listed : List String, listed = texts ∧ x = .error (.ambiguousMethod name listed)

/-- Both searches find the same method, both are ambiguous between the same candidates, both find
no method that fits, or both fail on the way. -/
structure SameVerdict (x y : Except TypeError Method) : Prop where
  found : ∀ m, x = .ok m ↔ y = .ok m
  ambiguous : ∀ name texts, AmbiguousBetween x name texts ↔ AmbiguousBetween y name texts
  inapplicable : ∀ name args container,
    x = .error (.noApplicableMethod name args container) ↔
      y = .error (.noApplicableMethod name args container)

namespace SameVerdict

theorem refl (x : Except TypeError Method) : SameVerdict x x :=
  ⟨fun _ => Iff.rfl, fun _ _ => Iff.rfl, fun _ _ _ => Iff.rfl⟩

theorem tied (name : String) {texts texts' : List String} (hperm : texts.Perm texts') :
    SameVerdict (.error (.ambiguousMethod name texts))
      (.error (.ambiguousMethod name texts')) where
  found := by simp
  ambiguous := by
    intro n ts
    have hcoe : (texts : Multiset String) = texts' := Multiset.coe_eq_coe.mpr hperm
    simp [AmbiguousBetween, hcoe, and_comm]
  inapplicable := by simp

/-- Failures on the way are no verdicts, and need not be the same. -/
theorem failed {e e' : TypeError} (he : isVerdict e = false) (he' : isVerdict e' = false) :
    SameVerdict (.error e) (.error e') where
  found := by simp
  ambiguous := by
    intro name texts
    -- an ambiguity is a verdict, and these two errors are none
    refine iff_of_false ?_ ?_
    · rintro ⟨_, -, ⟨⟩⟩
      cases he
    · rintro ⟨_, -, ⟨⟩⟩
      cases he'
  inapplicable := by
    intro name args container
    refine iff_of_false ?_ ?_
    · rintro ⟨⟩
      cases he
    · rintro ⟨⟩
      cases he'

end SameVerdict

section Reordering

variable {env env' : Env} {fits fits' : CallRule Unit} {call : MethodCall} {ctx : AccessContext}

variable (h : Reordered env env')
  (hfits : ∀ m args, Agree Eq (answer (fits m args)) (answer (fits' m args)))

include h hfits

theorem verdict_sameVerdict {candidates candidates' : List Method}
    (hperm : candidates.Perm candidates') :
    SameVerdict (verdict ⟨env, fits⟩ call candidates) (verdict ⟨env', fits'⟩ call candidates') := by
  -- texts of methods do not depend on the order of declarations
  have hqualified : Resolver.qualified ⟨env', fits'⟩ = Resolver.qualified ⟨env, fits⟩ := by
    funext m
    unfold Resolver.qualified
    rw [h.displayName, h.renderMethod]
  have hmax := maximalBy_perm h hfits hperm
  unfold verdict
  rw [hqualified]
  generalize maximalBy ⟨env, fits⟩ candidates = tied,
    maximalBy ⟨env', fits'⟩ candidates' = tied' at hmax
  -- permuted lists are both empty, both the same single candidate, or both longer
  rcases tied with _ | ⟨m, _ | ⟨o, rest⟩⟩
  · obtain rfl := hmax.nil_eq
    exact SameVerdict.tied call.name (hperm.map _)
  · obtain rfl := hmax.singleton_eq
    exact SameVerdict.refl _
  · have hlong : 2 ≤ tied'.length := by
      rw [← hmax.length_eq]
      simp
    rcases tied' with _ | ⟨m', _ | ⟨o', rest'⟩⟩
    · cases hlong
    · simp at hlong
    · exact SameVerdict.tied call.name (hmax.map _)

/-- Without a memory, a search comes to the same verdict in both environments. -/
theorem getMethod_sameVerdict :
    SameVerdict (answer (Resolver.getMethod ⟨env, fits⟩ call ctx))
      (answer (Resolver.getMethod ⟨env', fits'⟩ call ctx)) := by
  rw [getMethod_eq, getMethod_eq]
  have hfound : Agree List.Perm (answer (Resolver.applicable ⟨env, fits⟩ call ctx))
      (answer (Resolver.applicable ⟨env', fits'⟩ call ctx)) := applicable_agree h hfits
  generalize answer (Resolver.applicable ⟨env, fits⟩ call ctx) = x,
    answer (Resolver.applicable ⟨env', fits'⟩ call ctx) = y at hfound
  -- a failed search is no verdict, and candidates are the same up to their order
  cases hfound with
  | error he he' => exact SameVerdict.failed he he'
  | @ok candidates candidates' hperm =>
      simp only [ok_bind]
      rw [hperm.isEmpty_eq, h.renderTypes, h.renderType]
      split
      · exact SameVerdict.refl _
      · exact verdict_sameVerdict h hfits hperm

end Reordering

/--
**Ties are never broken by the order of declarations.** In two environments that differ
only in the order in which classes list their methods, every call comes to the same
verdict: the same method, an ambiguity between the same candidates, or no method that
fits. This is so for declared parameters, and for erased ones from whatever cache both
searches begin with.
-/
theorem getMethod_ignores_order {env env' : Env} (h : Reordered env env') (call : MethodCall)
    (ctx : AccessContext) :
    SameVerdict (answer ((Resolver.standard env).getMethod call ctx))
      (answer ((Resolver.standard env').getMethod call ctx)) ∧
    ∀ cache : ErasureCache,
      SameVerdict (((Resolver.generic env).getMethod call ctx).run.run cache).1
        (((Resolver.generic env').getMethod call ctx).run.run cache).1 := by
  constructor
  · refine getMethod_sameVerdict h fun m args => ?_
    rw [CallRule.standard, CallRule.standard, answer_ofExcept, answer_ofExcept]
    exact h.callFits m args
  · intro cache
    -- the memories part ways, but each search mirrors one that is told all erasures in advance
    have hmirror : ∀ env : Env, (((Resolver.generic env).getMethod call ctx).run.run cache).1 =
        answer (Resolver.getMethod ⟨env, genericBy env fun id => (cache.classErasure env id).1⟩
          call ctx) := fun env =>
      (getMethod_mirrors (fun _ _ m _ => (sameErasures_supplies env cache).generic m) cache
        fun _ => rfl).1
    rw [hmirror env, hmirror env']
    exact getMethod_sameVerdict h (h.genericBy cache)

/-- The environment with the methods of every class listed backwards. -/
def backwards (env : Env) : Env :=
  { env with classDef? := fun id =>
      (env.classDef? id).map fun c => { c with methods := c.methods.reverse } }

theorem reordered_backwards (env : Env) : Reordered env (backwards env) where
  classDef? := by
    intro id
    show Option.Rel Reorders (env.classDef? id) ((env.classDef? id).map _)
    cases env.classDef? id with
    | none => exact .none
    | some c => exact .some ⟨c.methods.reverse, c.methods.reverse_perm.symm, rfl⟩
  method? := rfl
  typeParam? := rfl
  lookup? := rfl
  wellKnown := rfl
  className? := rfl
  depthLimit := rfl
  varCount := rfl

/-- A generic class with two methods for two integers, the first of which fits only when its
signature is erased. Neither is more specific than the other. -/
def crossedRun : List Change :=
  [.addTypeParam { name := "T", bound := some (.cls wellKnownIds.number) },
   .addClass { name := "p.Box", typeParams := [⟨0⟩],
               methods := [{ name := "f", returnType := .prim .void, flags := .pub,
                             params := [.cls wellKnownIds.integer, .var ⟨0⟩] },
                           { name := "f", returnType := .prim .void, flags := .pub,
                             params := [.cls wellKnownIds.object, .cls wellKnownIds.integer] }] }]

theorem getMethod_ignores_order_crossed :
    let env := (afterAll Store.builtin crossedRun).env
    let call : MethodCall :=
      ⟨.cls ⟨12⟩, "f", [.cls wellKnownIds.integer, .cls wellKnownIds.integer]⟩
    let ctx : AccessContext := { current := ⟨12⟩ }
    let first := "p.Box.f(java.lang.Integer, T)"
    let second := "p.Box.f(java.lang.Object, java.lang.Integer)"
    (Reordered env (backwards env) ∧
      (((Resolver.generic env).getMethod call ctx).run.run {}).1 =
        .error (.ambiguousMethod "f" [first, second]) ∧
      (((Resolver.generic (backwards env)).getMethod call ctx).run.run {}).1 =
        .error (.ambiguousMethod "f" [second, first])) ∧
    AmbiguousBetween (((Resolver.generic (backwards env)).getMethod call ctx).run.run {}).1 "f"
      {first, second} ∧
    ∃ m, answer ((Resolver.standard env).getMethod call ctx) = .ok m ∧
      answer ((Resolver.standard (backwards env)).getMethod call ctx) = .ok m := by
  intro env call ctx first second
  have hback : Reordered env (backwards env) := reordered_backwards env
  obtain ⟨hstandard, hgeneric⟩ := getMethod_ignores_order hback call ctx
  have htied : (((Resolver.generic env).getMethod call ctx).run.run {}).1 =
      .error (.ambiguousMethod "f" [first, second]) := by decide
  have htied' : (((Resolver.generic (backwards env)).getMethod call ctx).run.run {}).1 =
      .error (.ambiguousMethod "f" [second, first]) := by decide
  obtain ⟨m, hm⟩ : ∃ m, answer ((Resolver.standard env).getMethod call ctx) = .ok m := ⟨_, rfl⟩
  refine ⟨⟨hback, htied, htied'⟩, ?_, m, hm, (hstandard.found m).mp hm⟩
  exact ((hgeneric {}).ambiguous "f" _).mp ⟨[first, second], rfl, htied⟩

end Lineage.Proofs
