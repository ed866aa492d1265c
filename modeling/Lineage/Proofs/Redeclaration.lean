import Lineage.Proofs.Conservative
import Lineage.Proofs.MostSpecific

/-!
# No call means a method that is redeclared below

A class that redeclares an inherited method, with the same parameters, is meant to hide
the inherited one from calls. The search has no rule that says so. It only compares
candidates: one that is redeclared below must lose because the redeclaration is more
specific, and this comparison passes the parameters of the one as the arguments of the
other.

So the question is whether a method can be called with arguments of its own parameter
types. For fixed arity each type converts to itself. For variable arity the last
parameter is an array, given as one argument; it is first tried as an element, and only
if it is none, as the array. Trying it as an element cannot fail, because above arrays
there is nothing to look up (`converts_element`), so in the end the array is taken.

The method that a call means is then redeclared by another candidate only if it is more
specific than that candidate in turn. Its container must lie below the other's, or be
nested in it. This does happen: a class can extend one that is nested in it.
-/

namespace Lineage.Proofs

open Store

/-! ## A method takes its own parameters -/

section Own

variable {env : Env}

theorem converts_self {t : Ty} (ht : t.isAmbiguous = false) : env.converts t t = .ok true := by
  rw [converts_eq_assignable, assignable_eq_assignableCanonical ht ht, assignableCanonical_self]

/-- Whether an array can be stored in a variable for its elements always has an answer. -/
theorem assignableCanonical_element {t : Ty} (ht : t.isAmbiguous = false) :
    ∃ found, env.assignableCanonical (.array t) t = .ok found := by
  induction t with
  | array u ih =>
      -- an array is larger than its elements
      have hne : .array u ≠ u := by
        intro heq
        have hsize := congrArg sizeOf heq
        simp at hsize
      rw [assignableCanonical_arrays hne]
      split
      · exact ⟨false, rfl⟩
      · exact ih ht
  | null | cls _ | var _ =>
      -- above an array there are three built-in types and no links to follow
      rw [assignableCanonical_references (by simp) (by simp) rfl rfl (by simp)]
      exact ⟨_, descends_array rfl rfl rfl (by simp)⟩
  | prim _ | package _ =>
      exact ⟨false, assignableCanonical_mixed (by simp) (by simp) (.inr rfl)⟩
  | named name => cases ht

theorem converts_element {t : Ty} (ht : t.isAmbiguous = false) :
    ∃ found, env.converts (.array t) t = .ok found := by
  have harray : (Ty.array t).isAmbiguous = false := ht
  rw [converts_eq_assignable, assignable_eq_assignableCanonical harray ht]
  exact assignableCanonical_element ht

/-- The array is taken, as an element or as it is. -/
theorem tailConverts_array {element : Ty} (he : element.isAmbiguous = false) :
    env.tailConverts element [.array element] = .ok true := by
  obtain ⟨found, hfound⟩ : ∃ found, env.converts (.array element) element = .ok found :=
    converts_element he
  rw [Env.tailConverts, hfound, ok_bind]
  cases found with
  | true => rfl
  | false => exact converts_self (t := .array element) he

theorem varargsConvert_own {element : Ty} {fixed : List Ty} (he : element.isAmbiguous = false)
    (hfixed : ∀ t ∈ fixed, t.isAmbiguous = false) :
    env.varargsConvert element fixed (fixed ++ [.array element]) = .ok true := by
  induction fixed with
  | nil => exact tailConverts_array he
  | cons t fixed ih =>
      rw [List.forall_mem_cons] at hfixed
      rw [List.cons_append, Env.varargsConvert, converts_self hfixed.1, ok_bind, if_pos rfl]
      exact ih hfixed.2

/-- **A method takes its own parameters**, if the question whether it fits has an answer for some
arguments. It has none where a variable-arity method lacks its trailing array. -/
theorem callFits_own {m : Method} (hcanon : ∀ t ∈ m.params, t.isAmbiguous = false)
    {args : List Ty} {fits : Bool} (h : env.callFits m args = .ok fits) :
    env.callFits m m.params = .ok true := by
  cases hvar : m.isVarargs with
  | false =>
      refine (callFits_iff hvar).mpr (List.forall₂_same.mpr fun t ht => ?_)
      rw [← converts_eq_assignable]
      exact converts_self (hcanon t ht)
  | true =>
      unfold Env.callFits at h ⊢
      rw [hvar, if_pos rfl] at h ⊢
      split at h
      · rename_i element hlast
        -- the last parameter is the array, and there is one argument for it
        have hparams : m.params.dropLast ++ [.array element] = m.params :=
          List.dropLast_append_getLast? _ hlast
        rw [← hparams, List.forall_mem_append] at hcanon
        rw [if_neg (by omega)]
        nth_rewrite 2 [← hparams]
        have helement : (Ty.array element).isAmbiguous = false :=
          hcanon.2 _ (List.mem_singleton_self _)
        exact varargsConvert_own helement hcanon.1
      · cases h

end Own

/-! ## Rules that begin with the declared parameters -/

/-- What fits the declared parameters fits by the rule, and nothing fits by the rule unless the
question about the declared parameters has an answer. -/
structure BeginsDeclared (env : Env) (fits : CallRule Unit) : Prop where
  wider : Wider (CallRule.standard env) fits
  asked : ∀ {m args}, answer (fits m args) = .ok true → ∃ found, env.callFits m args = .ok found

theorem beginsDeclared_standard (env : Env) : BeginsDeclared env (CallRule.standard env) where
  wider := fun _ _ h => h
  asked := fun h => ⟨true, by rwa [CallRule.standard, answer_ofExcept] at h⟩

theorem beginsDeclared_genericBy (env : Env) (erasures : ClassId → Except TypeError Subst) :
    BeginsDeclared env (genericBy env erasures) where
  wider := standard_wider env erasures
  asked := by
    intro m args h
    rw [genericBy, answer_bind, answer_ofExcept] at h
    obtain ⟨found, hfound, -⟩ := bind_eq_ok_iff.mp h
    exact ⟨found, hfound⟩

/-- By such a rule, too, a method that fits anything takes its own parameters. -/
theorem BeginsDeclared.own {env : Env} {fits : CallRule Unit} (h : BeginsDeclared env fits)
    {m : Method} (hcanon : ∀ t ∈ m.params, t.isAmbiguous = false) {args : List Ty}
    (hfits : answer (fits m args) = .ok true) : answer (fits m m.params) = .ok true := by
  obtain ⟨found, hfound⟩ := h.asked hfits
  refine h.wider m m.params ?_
  rw [CallRule.standard, answer_ofExcept]
  exact callFits_own hcanon hfound

/-! ## Candidates fit -/

section Fits

variable {r : Resolver Unit} {call : MethodCall} {ctx : AccessContext}

/-- Every candidate fits the arguments of the call. -/
theorem applicable_fits {candidates : List Method}
    (h : answer (r.applicable call ctx) = .ok candidates) :
    ∀ m ∈ candidates, answer (r.fits m call.args) = .ok true := by
  rw [applicable_eq] at h
  obtain ⟨classes, -, h⟩ := bind_eq_ok_iff.mp h
  obtain ⟨-, rfl⟩ := applicableAlong_eq_ok_iff.mp h
  intro m hm
  obtain ⟨id, -, hm⟩ := List.mem_flatMap.mp hm
  exact (offers_iff.mp (List.of_mem_filter hm)).2.1

/-- What a call means is a candidate, and no other candidate beats it. -/
theorem unbeaten_of_getMethod {m : Method} (h : answer (r.getMethod call ctx) = .ok m) :
    ∃ candidates, answer (r.applicable call ctx) = .ok candidates ∧ m ∈ candidates ∧
      ∀ o ∈ candidates, o.id ≠ m.id → beatsBy r o m = false := by
  rw [getMethod_eq] at h
  obtain ⟨candidates, hcand, h⟩ := bind_eq_ok_iff.mp h
  split at h
  · cases h
  · unfold verdict at h
    split at h
    · rename_i single hmax
      -- only a single unbeaten candidate is an answer
      cases h
      have hmem : m ∈ maximalBy r candidates := by
        rw [hmax]
        exact List.mem_singleton_self m
      obtain ⟨hm, hunbeaten⟩ := List.mem_filter.mp hmem
      rw [Bool.not_eq_true', List.any_eq_false] at hunbeaten
      refine ⟨candidates, hcand, hm, fun o ho hid => ?_⟩
      simpa [hid] using hunbeaten o ho
    · cases h
    · cases h

end Fits

/-! ## Redeclared methods -/

/-- The first method is another one than the second, with the same parameters, and its container
lies below the other's. -/
structure Redeclares (env : Env) (o m : Method) : Prop where
  other : o.id ≠ m.id
  params : o.params = m.params
  canonical : ∀ t ∈ m.params, t.isAmbiguous = false
  below : env.descends (.cls o.container) (.cls m.container) = .ok true

/-- A redeclaration is more specific than a method that fits the call. -/
theorem Redeclares.prefersBy {env : Env} {fits : CallRule Unit} (hrule : BeginsDeclared env fits)
    {o m : Method} (h : Redeclares env o m) {args : List Ty}
    (hfits : answer (fits m args) = .ok true) : prefersBy ⟨env, fits⟩ o m = true := by
  have hrelated : Resolver.related ⟨env, fits⟩ o.container m.container = true := by
    rw [Resolver.related, answeredYes_iff.mpr h.below, Bool.or_true, Bool.true_or]
  have hown : answer (fits m o.params) = .ok true := by
    rw [h.params]
    exact hrule.own h.canonical hfits
  rw [Proofs.prefersBy, hrelated, Bool.true_and, answeredYes_iff]
  exact hown

/-- The other way round, only a container that is below or nested in the other's will do. -/
theorem Redeclares.below_or_enclosed {env : Env} {fits : CallRule Unit} {o m : Method}
    (h : Redeclares env o m) (hprefers : Proofs.prefersBy ⟨env, fits⟩ m o = true) :
    env.descends (.cls m.container) (.cls o.container) = .ok true ∨
      env.isEnclosed m.container o.container = .ok true := by
  -- descent is proper, so the containers are not the same
  obtain ⟨hne, -⟩ := descends_sound rfl rfl h.below
  have hapart : (m.container == o.container) = false :=
    beq_eq_false_iff_ne.mpr fun heq => hne (by rw [heq])
  obtain ⟨hrelated, -⟩ := Bool.and_eq_true_iff.mp hprefers
  rw [Resolver.related, hapart, Bool.false_or, Bool.or_eq_true] at hrelated
  exact hrelated.imp answeredYes_iff.mp answeredYes_iff.mp

/-- From the memory `start`, the method is more specific than all candidates that redeclare it,
since its container is below theirs or nested in it. -/
def Prevails {σ : Type} (r : Resolver σ) (start : σ) (candidates : List Method) (m : Method) :
    Prop :=
  ∀ o ∈ candidates, Redeclares r.env o m →
    ((r.moreSpecific m o).run.run start).1 = .ok true ∧
      (r.env.descends (.cls m.container) (.cls o.container) = .ok true ∨
        r.env.isEnclosed m.container o.container = .ok true)

/-- **What a call means prevails among its candidates**, for every rule that answers like one that
begins with the declared parameters. -/
theorem prevails_of_getMethod {σ : Type} {I : σ → Prop} {env : Env} {fits : CallRule σ}
    {fits' : CallRule Unit} (halike : ∀ m, Alike I fits fits' m)
    (hrule : BeginsDeclared env fits') {start : σ} (hstart : I start) {call : MethodCall}
    {ctx : AccessContext} {m : Method}
    (hm : ((Resolver.getMethod ⟨env, fits⟩ call ctx).run.run start).1 = .ok m) :
    ∃ candidates,
      ((Resolver.applicable ⟨env, fits⟩ call ctx).run.run start).1 = .ok candidates ∧
        m ∈ candidates ∧ Prevails ⟨env, fits⟩ start candidates m := by
  have hall : AlikeFor I env fits fits' call.receiver := fun _ _ m _ => halike m
  -- the rule with a memory is replaced by one without, which answers alike
  rw [(getMethod_mirrors hall start hstart).1] at hm
  obtain ⟨candidates, hcand, hmem, hunbeaten⟩ := unbeaten_of_getMethod hm
  refine ⟨candidates, ?_, hmem, fun o ho h => ?_⟩
  · rw [(applicable_mirrors hall start hstart).1]
    exact hcand
  · have hfits := applicable_fits hcand m hmem
    -- the redeclaration is more specific than `m` and still does not beat it
    have hback : prefersBy ⟨env, fits'⟩ m o = true := by
      have hbeats := hunbeaten o ho h.other
      rw [beatsBy, h.prefersBy hrule hfits, Bool.true_and, Bool.not_eq_false'] at hbeats
      exact hbeats
    refine ⟨?_, h.below_or_enclosed hback⟩
    rw [(moreSpecific_mirrors (halike o) start hstart).1, moreSpecific_eq, hback]

/--
**No call means a method that another candidate redeclares below it**, unless that
method is more specific than the redeclaration in turn, and then its container is below
or nested in the container of the redeclaration. This is so for declared parameters,
and for erased ones with whatever cache.
-/
theorem getMethod_not_redeclared (env : Env) (call : MethodCall) (ctx : AccessContext)
    (m : Method) :
    (answer ((Resolver.standard env).getMethod call ctx) = .ok m →
      ∃ candidates, answer ((Resolver.standard env).applicable call ctx) = .ok candidates ∧
        m ∈ candidates ∧ Prevails (Resolver.standard env) () candidates m) ∧
    ∀ cache : ErasureCache,
      (((Resolver.generic env).getMethod call ctx).run.run cache).1 = .ok m →
        ∃ candidates,
          (((Resolver.generic env).applicable call ctx).run.run cache).1 = .ok candidates ∧
            m ∈ candidates ∧ Prevails (Resolver.generic env) cache candidates m := by
  constructor
  · intro hm
    have halike : ∀ m, Alike (fun _ => True) (CallRule.standard env) (CallRule.standard env) m :=
      fun _ _ _ _ => ⟨rfl, trivial⟩
    exact prevails_of_getMethod halike (beginsDeclared_standard env) trivial hm
  · intro cache hm
    exact prevails_of_getMethod (sameErasures_supplies env cache).generic
      (beginsDeclared_genericBy env _) (fun _ => rfl) hm

/-- A method of variable arity. -/
def joinDecl : MethodDecl :=
  { name := "join", returnType := .prim .void, flags := .pub ∪ .varargs,
    params := [.prim .int, .array (.cls wellKnownIds.string)] }

/-- A class that extends one nested two levels inside it. The class in between is an interface, and
a last class is below both of the outer ones. All but the last declare the method. -/
def nestedRun : List Change :=
  [.addClass { name := "p.Outer", superclass := some (.named "p.Inner"), methods := [joinDecl] },
   .addClass { name := "p.Middle", flags := .interface, outer := some ⟨12⟩,
               methods := [joinDecl] },
   .addClass { name := "p.Inner", outer := some ⟨13⟩, methods := [joinDecl] },
   .addClass { name := "p.Last", superclass := some (.cls ⟨12⟩), interfaces := [.cls ⟨13⟩] }]

/-- The call means the method of the inner class, which the outer class redeclares below it: the
interface beats the outer class and is beaten by the inner one. -/
theorem getMethod_not_redeclared_nested :
    let env := (afterAll Store.builtin nestedRun).env
    let call : MethodCall :=
      ⟨.cls ⟨15⟩, "join", [.prim .int, .cls wellKnownIds.string, .cls wellKnownIds.string]⟩
    let ctx : AccessContext := { current := ⟨15⟩ }
    let outer := methodOf ⟨5⟩ ⟨12⟩ joinDecl
    let middle := methodOf ⟨6⟩ ⟨13⟩ joinDecl
    let inner := methodOf ⟨7⟩ ⟨14⟩ joinDecl
    (answer ((Resolver.standard env).getMethod call ctx) = .ok inner ∧
      (((Resolver.generic env).getMethod call ctx).run.run {}).1 = .ok inner ∧
      answer ((Resolver.standard env).applicable call ctx) = .ok [outer, inner, middle] ∧
      (((Resolver.generic env).applicable call ctx).run.run {}).1 = .ok [outer, inner, middle] ∧
      Redeclares env outer inner) ∧
    answer ((Resolver.standard env).moreSpecific inner outer) = .ok true ∧
    (((Resolver.generic env).moreSpecific inner outer).run.run {}).1 = .ok true ∧
    (env.descends (.cls ⟨14⟩) (.cls ⟨12⟩) = .ok true ∨ env.isEnclosed ⟨14⟩ ⟨12⟩ = .ok true) := by
  intro env call ctx outer middle inner
  have hstandard : answer ((Resolver.standard env).getMethod call ctx) = .ok inner := by rfl
  have hgeneric : (((Resolver.generic env).getMethod call ctx).run.run {}).1 = .ok inner := by rfl
  have hcand : answer ((Resolver.standard env).applicable call ctx) =
      .ok [outer, inner, middle] := by rfl
  have hcand' : (((Resolver.generic env).applicable call ctx).run.run {}).1 =
      .ok [outer, inner, middle] := by rfl
  have hredeclares : Redeclares env outer inner := ⟨by decide, rfl, by decide, by rfl⟩
  refine ⟨⟨hstandard, hgeneric, hcand, hcand', hredeclares⟩, ?_⟩
  obtain ⟨hleft, hright⟩ := getMethod_not_redeclared env call ctx inner
  obtain ⟨candidates, hrun, -, hprevails⟩ := hleft hstandard
  obtain ⟨candidates', hrun', -, hprevails'⟩ := hright {} hgeneric
  rw [hcand] at hrun
  rw [hcand'] at hrun'
  cases hrun
  cases hrun'
  obtain ⟨hspecific, hcontainers⟩ := hprevails outer (by simp) hredeclares
  exact ⟨hspecific, (hprevails' outer (by simp) hredeclares).1, hcontainers⟩

end Lineage.Proofs
