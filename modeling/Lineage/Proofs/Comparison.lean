import Lineage.Proofs.Arity
import Lineage.Proofs.DepthLimit
import Lineage.Proofs.Redeclaration

/-!
# Comparisons that fail

Of several candidates a call means the most specific one. To find it, the search asks
about candidates what it asked about the call: whether one of them can be called with the
parameters of the other. The call may never have looked at these types. `null` fits a
parameter of any class, also of a class that extends something that does not exist, and
only the comparison asks what lies above this class.

A comparison that fails counts as lost. So a call that has candidates always comes to a
conclusion, whatever is wrong with their parameters (`verdict_concluded`), and nobody is
told what is wrong. At the end of the module there are two calls of this kind. One of
them means a method although it was not found out whether another one is as specific.

If the links above the parameters can be followed, every comparison has an answer. The
argument goes up from the search among supertypes, which fails only where a link does
(`search_answered`), through conversions and calls to the two call rules.
-/

namespace Lineage.Proofs

open Store Relation

/-! ## Questions that have an answer -/

section Search

variable {env : Env} {ancestor : Ty}

theorem anyReaches_answered {f : Ty → List Ty → Except TypeError (Bool × List Ty)} {ts : List Ty}
    (h : ∀ t ∈ ts, ∀ met, ∃ r, f t met = .ok r) (met : List Ty) :
    ∃ r, Env.anyReaches ancestor f ts met = .ok r := by
  induction ts generalizing met with
  | nil => exact ⟨_, rfl⟩
  | cons t ts ih =>
      rw [List.forall_mem_cons] at h
      rw [Env.anyReaches]
      split
      · exact ⟨_, rfl⟩
      · obtain ⟨⟨found, met'⟩, hrun⟩ := h.1 met
        rw [hrun, ok_bind]
        cases found with
        | true => exact ⟨_, rfl⟩
        | false => exact ih h.2 met'

/-- The search does not begin unless two different references are given and the first is new. -/
theorem search_declines {child : Ty} {n : Nat} {met : List Ty}
    (h : ¬ (child ≠ ancestor ∧ child.isReference = true ∧ ancestor.isReference = true ∧
      child ∉ met)) : env.search ancestor n child met = .ok (false, met) := by
  rw [Env.search.eq_def]
  dsimp only
  split
  · rfl
  · split
    · rfl
    · simp_all

/-- **The search has an answer if all links above can be followed**, at whatever depth it ends. -/
theorem search_answered {child : Ty} {n : Nat} {met : List Ty} (hch : ChartedAbove env child) :
    ∃ r, env.search ancestor n child met = .ok r := by
  induction n generalizing child met with
  | zero =>
      -- no level is left, and the search says no without following a link
      by_cases hguard : child ≠ ancestor ∧ child.isReference = true ∧
          ancestor.isReference = true ∧ child ∉ met
      · obtain ⟨hne, href, hanc, hmet⟩ := hguard
        exact ⟨_, search_zero href hanc hne hmet⟩
      · exact ⟨_, search_declines hguard⟩
  | succ n ih =>
      by_cases hguard : child ≠ ancestor ∧ child.isReference = true ∧
          ancestor.isReference = true ∧ child ∉ met
      · obtain ⟨hne, href, hanc, hmet⟩ := hguard
        cases child with
        | prim p => cases href
        | package name => cases href
        | named name => cases href
        | null => exact ⟨_, search_null hanc hne hmet⟩
        | array element => exact ⟨_, search_array hanc hne hmet⟩
        | var v =>
            obtain ⟨p, hp⟩ := hch.self
            rw [search_var hanc hne hmet hp]
            refine anyReaches_answered (List.forall_mem_singleton.mpr fun m => ?_) _
            exact ih (hch.link (Link.bound hp))
        | cls id =>
            -- all links of the class resolve, so what they lead to is a list
            obtain ⟨targets, hf⟩ := hch.self.follows
            rcases search_cls (n := n) hanc hne hmet hf with ⟨-, hrun⟩ | ⟨-, hrun⟩
            · exact ⟨_, hrun⟩
            · rw [hrun]
              refine anyReaches_answered (fun t ht m => ?_) _
              exact ih (hch.link (hf.link_iff.mpr ht))
      · exact ⟨_, search_declines hguard⟩

end Search

section Conversions

variable {env : Env} {a b : Ty} (ha : a.isAmbiguous = false) (hb : b.isAmbiguous = false)

include ha hb

theorem descends_answered (hch : ChartedAbove env a) :
    ∃ found, env.descends a b = .ok found := by
  obtain ⟨⟨found, met⟩, hrun⟩ : ∃ r, env.search b (env.depthLimit + 1) a [] = .ok r :=
    search_answered hch
  exact ⟨found, (descends_eq_ok_iff ha hb).mpr ⟨met, hrun⟩⟩

theorem assignableCanonical_answered_flat (harrays : ∀ t u, a = .array t → b ≠ .array u)
    (hch : ChartedAbove env a) : ∃ found, env.assignableCanonical a b = .ok found := by
  rcases assignableCanonical_cases harrays with ⟨found, hfound⟩ | hdescends
  · exact ⟨found, hfound env⟩
  · rw [hdescends env]
    exact descends_answered ha hb hch

end Conversions

section Calls

variable {env : Env}

/-- Links do not lead out of an array. -/
theorem chartedAbove_array (element : Ty) : ChartedAbove env (.array element) := by
  intro u hu
  rcases ReflTransGen.cases_head hu with rfl | ⟨w, hl, -⟩
  · trivial
  · cases hl

/-- Arrays are compared by their elements, so only what is innermost is looked up. -/
theorem assignableCanonical_answered {a b : Ty} (ha : a.isAmbiguous = false)
    (hb : b.isAmbiguous = false) (hch : ChartedAbove env a.innermost) :
    ∃ found, env.assignableCanonical a b = .ok found := by
  induction a generalizing b with
  | array t ih =>
      -- two arrays go by elements, and out of an array that meets a class no link leads
      by_cases hboth : ∃ u, b = .array u
      · obtain ⟨u, rfl⟩ := hboth
        by_cases hne : t = u
        · subst hne
          exact ⟨true, assignableCanonical_self _⟩
        · rw [assignableCanonical_arrays hne]
          split
          · exact ⟨false, rfl⟩
          · exact ih ha hb hch
      · exact assignableCanonical_answered_flat ha hb (fun _ u _ hu => hboth ⟨u, hu⟩)
          (chartedAbove_array t)
  | _ => exact assignableCanonical_answered_flat ha hb (fun _ _ h => nomatch h) hch

theorem converts_answered {a b : Ty} (ha : a.isAmbiguous = false) (hb : b.isAmbiguous = false)
    (hch : ChartedAbove env a.innermost) : ∃ found, env.converts a b = .ok found := by
  rw [converts_eq_assignable, assignable_eq_assignableCanonical ha hb]
  exact assignableCanonical_answered ha hb hch

/-- The method has a trailing array if it is of variable arity. -/
def WellFormed (m : Method) : Prop :=
  m.isVarargs = true → ∃ fixed element, m.params = fixed ++ [.array element]

theorem wellFormed_of_callFits {m : Method} {args : List Ty} {found : Bool}
    (h : env.callFits m args = .ok found) : WellFormed m := by
  intro hm
  by_contra hnot
  push Not at hnot
  rw [callFits_malformed hm hnot] at h
  cases h

theorem mem_paired {args params : List Ty} {q : Ty × List Ty} (h : q ∈ paired args params) :
    q.1 ∈ args ∧ ∀ t ∈ q.2, t ∈ params := by
  rw [paired, ← List.map_uncurry_zip_eq_zipWith] at h
  obtain ⟨⟨a, p⟩, hmem, rfl⟩ := List.mem_map.mp h
  obtain ⟨ha, hp⟩ := List.of_mem_zip hmem
  exact ⟨ha, List.forall_mem_singleton.mpr hp⟩

theorem mem_tailTrials {element : Ty} {args : List Ty} {q : Ty × List Ty}
    (h : q ∈ tailTrials element args) :
    q.1 ∈ args ∧ ∀ t ∈ q.2, t = element ∨ t = .array element := by
  rw [tailTrials_eq] at h
  obtain ⟨a, ha, rfl⟩ := List.mem_map.mp h
  refine ⟨ha, ?_⟩
  dsimp only
  split <;> simp

/-- A call can be checked if every argument can be compared with every parameter, and with what a
parameter is an array of. -/
theorem callFits_answered {m : Method} {args : List Ty} (hm : WellFormed m)
    (h : ∀ a ∈ args, ∀ t, t ∈ m.params ∨ .array t ∈ m.params →
      ∃ found, env.converts a t = .ok found) : ∃ found, env.callFits m args = .ok found := by
  cases hvar : m.isVarargs with
  | false =>
      rw [callFits_fixed hvar]
      split
      · rename_i hlen
        rw [← allM_paired hlen]
        refine allM_passes_eq_ok_iff.mpr ?_
        rintro a t ⟨ts, hts, ht⟩
        obtain ⟨ha, hparams⟩ := mem_paired hts.mem
        exact h a ha t (.inl (hparams t ht.mem))
      · exact ⟨false, rfl⟩
  | true =>
      obtain ⟨fixed, element, hparams⟩ := hm hvar
      rw [callFits_variable hvar hparams]
      split
      · rename_i hlen
        rw [← allM_variable element hlen]
        refine allM_passes_eq_ok_iff.mpr ?_
        rintro a t ⟨ts, hts, ht⟩
        -- what is left over is compared with the array or with its elements
        have hlast : .array element ∈ m.params := by simp [hparams]
        rcases List.mem_append.mp hts.mem with hmem | hmem
        · obtain ⟨ha, hfixed⟩ := mem_paired hmem
          refine h a (List.mem_of_mem_take ha) t (.inl ?_)
          rw [hparams]
          exact List.mem_append_left _ (hfixed t ht.mem)
        · obtain ⟨ha, htail⟩ := mem_tailTrials hmem
          refine h a (List.mem_of_mem_drop ha) t ?_
          rcases htail t ht.mem with rfl | rfl
          · exact .inr hlast
          · exact .inl hlast
      · exact ⟨false, rfl⟩

end Calls

/-! ## Candidates whose parameters can be read -/

/-- The parameters are canonical, and the links above them can be followed. -/
structure Legible (env : Env) (m : Method) : Prop where
  canonical : ∀ t ∈ m.params, t.isAmbiguous = false
  charted : ∀ t ∈ m.params, ChartedAbove env t.innermost

/-- If the method is generic, its parameters can be erased, and they are canonical then. -/
def Erasable (env : Env) (cache : ErasureCache) (m : Method) : Prop :=
  CallRule.isGenericMember env m = true →
    ∃ erased, ((CallRule.erasedSignature env m).run.run cache).1 = .ok erased ∧
      ∀ t ∈ erased.params, t.isAmbiguous = false

/-- Whether one candidate can be called with the parameters of another has an answer for every two
of them. -/
def Compared {σ : Type} (rule : CallRule σ) (memory : σ) (candidates : List Method) : Prop :=
  ∀ x ∈ candidates, ∀ y ∈ candidates, ∃ found, ((rule y x.params).run.run memory).1 = .ok found

section Rules

variable {env : Env} {erasures : ClassId → Except TypeError Subst} {x m : Method}

theorem Legible.callFits (hx : Legible env x) (hm : WellFormed m)
    (hcanon : ∀ t ∈ m.params, t.isAmbiguous = false) :
    ∃ found, env.callFits m x.params = .ok found := by
  refine callFits_answered hm fun a ha t ht => ?_
  have htcanon : t.isAmbiguous = false := by
    rcases ht with ht | ht
    · exact hcanon t ht
    · exact hcanon (.array t) ht
  exact converts_answered (hx.canonical a ha) htcanon (hx.charted a ha)

/-- A trailing array stays one when variables are replaced. -/
theorem WellFormed.applyMethod (h : WellFormed m) (subst : Subst) :
    WellFormed (subst.applyMethod m) := by
  intro hvar
  obtain ⟨fixed, element, hparams⟩ := h hvar
  refine ⟨subst.applyTypes fixed, subst.applyType element, ?_⟩
  show subst.applyTypes m.params = _
  rw [hparams, Subst.applyTypes, List.map_append]
  rfl

theorem erasedBy_eq_ok {erased : Method} (h : answer (erasedBy env erasures m) = .ok erased) :
    ∃ subst : Subst, erased = subst.applyMethod m := by
  unfold erasedBy at h
  rw [answer_bind] at h
  obtain ⟨ofClass, -, h⟩ := bind_eq_ok_iff.mp h
  rw [answer_ite] at h
  split at h
  · cases h
    exact ⟨ofClass, rfl⟩
  · rw [answer_bind] at h
    obtain ⟨ofMethod, -, h⟩ := bind_eq_ok_iff.mp h
    cases h
    exact ⟨ofClass.compose ofMethod, rfl⟩

theorem genericBy_answered (hx : Legible env x) (hm : WellFormed m)
    (hcanon : ∀ t ∈ m.params, t.isAmbiguous = false)
    (herased : CallRule.isGenericMember env m = true → ∃ erased,
      answer (erasedBy env erasures m) = .ok erased ∧
        ∀ t ∈ erased.params, t.isAmbiguous = false) :
    ∃ found, answer (genericBy env erasures m x.params) = .ok found := by
  obtain ⟨found, hfound⟩ := hx.callFits hm hcanon
  unfold genericBy
  rw [answer_bind, answer_ofExcept, hfound, ok_bind]
  cases found with
  | true => exact ⟨true, rfl⟩
  | false =>
      rw [if_neg Bool.false_ne_true, answer_ite]
      split
      · -- not fitted as declared: the erased signature is asked, and only if there is one to ask
        rename_i hgeneric
        obtain ⟨erased, hrun, hcanon'⟩ := herased hgeneric
        obtain ⟨subst, rfl⟩ := erasedBy_eq_ok hrun
        rw [answer_bind, hrun, ok_bind, answer_ofExcept]
        exact hx.callFits (hm.applyMethod subst) hcanon'
      · exact ⟨false, rfl⟩

/-- A candidate fits the call, so it has been checked and is well-formed. -/
theorem BeginsDeclared.wellFormed {rule : CallRule Unit} (h : BeginsDeclared env rule)
    {call : MethodCall} {ctx : AccessContext} {candidates : List Method}
    (hcand : answer (Resolver.applicable ⟨env, rule⟩ call ctx) = .ok candidates) :
    ∀ m ∈ candidates, WellFormed m := by
  intro m hm
  obtain ⟨found, hfound⟩ := h.asked (applicable_fits hcand m hm)
  exact wellFormed_of_callFits hfound

end Rules

/-! ## Conclusions -/

/-- A method is meant, or the call is ambiguous. -/
def Concluded (call : MethodCall) (outcome : Except TypeError Method) : Prop :=
  (∃ m, outcome = .ok m) ∨ ∃ names, outcome = .error (.ambiguousMethod call.name names)

/-- **Comparisons are never to blame if there is no conclusion.** -/
theorem verdict_concluded (r : Resolver Unit) (call : MethodCall) (candidates : List Method) :
    Concluded call (verdict r call candidates) := by
  unfold verdict
  split
  · exact .inl ⟨_, rfl⟩
  · exact .inr ⟨_, rfl⟩
  · exact .inr ⟨_, rfl⟩

theorem concluded_iff {r : Resolver Unit} {call : MethodCall} {ctx : AccessContext}
    {candidates : List Method} (h : answer (r.applicable call ctx) = .ok candidates) :
    Concluded call (answer (r.getMethod call ctx)) ↔ candidates ≠ [] := by
  rw [getMethod_eq, h, ok_bind]
  cases candidates with
  | nil =>
      refine iff_of_false ?_ (by simp)
      rintro (⟨m, hm⟩ | ⟨names, hnames⟩)
      · cases hm
      · cases hnames
  | cons m rest => exact iff_of_true (verdict_concluded r call (m :: rest)) (by simp)

/--
**Comparisons of candidates have answers where their parameters can be read.** A call whose
candidates are known comes to a conclusion exactly if it has any, whatever the
comparisons come to. If the parameters of the candidates are canonical and all links
above them can be followed, then every comparison has an answer, so that the conclusion
does not rest on one that failed. For erased parameters, with whatever cache, the erased
signatures of generic candidates have to exist as well.
-/
theorem getMethod_compares (env : Env) (call : MethodCall) (ctx : AccessContext) :
    (∀ candidates, answer ((Resolver.standard env).applicable call ctx) = .ok candidates →
      (Concluded call (answer ((Resolver.standard env).getMethod call ctx)) ↔ candidates ≠ []) ∧
      ((∀ m ∈ candidates, Legible env m) → Compared (CallRule.standard env) () candidates)) ∧
    ∀ (cache : ErasureCache) candidates,
      (((Resolver.generic env).applicable call ctx).run.run cache).1 = .ok candidates →
      (Concluded call (((Resolver.generic env).getMethod call ctx).run.run cache).1 ↔
        candidates ≠ []) ∧
      ((∀ m ∈ candidates, Legible env m ∧ Erasable env cache m) →
        Compared (CallRule.generic env) cache candidates) := by
  constructor
  · intro candidates hcand
    -- a candidate has been checked against the call, so it is well-formed
    refine ⟨concluded_iff hcand, fun hlegible x hx y hy => ?_⟩
    have hwell := (beginsDeclared_standard env).wellFormed hcand y hy
    obtain ⟨found, hfound⟩ := (hlegible x hx).callFits hwell (hlegible y hy).canonical
    exact ⟨found, (answer_ofExcept _).trans hfound⟩
  · intro cache candidates hcand
    -- what the cache supplies is known in advance
    have hcache : SameErasures env cache cache := fun _ => rfl
    have hsupplies := sameErasures_supplies env cache
    have hall : AlikeFor (SameErasures env cache) env (CallRule.generic env)
        (genericBy env fun id => (cache.classErasure env id).1) call.receiver :=
      fun _ _ m _ => hsupplies.generic m
    rw [Resolver.generic, (applicable_mirrors hall cache hcache).1] at hcand
    rw [Resolver.generic, (getMethod_mirrors hall cache hcache).1]
    refine ⟨concluded_iff hcand, fun hreadable x hx y hy => ?_⟩
    have hwell := (beginsDeclared_genericBy env _).wellFormed hcand y hy
    rw [(hsupplies.generic y x.params cache hcache).1]
    refine genericBy_answered (hreadable x hx).1 hwell (hreadable y hy).1.canonical ?_
    intro hgeneric
    obtain ⟨erased, herased, hcanon⟩ := (hreadable y hy).2 hgeneric
    rw [(hsupplies.erasedSignature y cache hcache).1] at herased
    exact ⟨erased, herased, hcanon⟩

/-- What the parameters of a method lead to can be read off a chart. -/
theorem legible_of_chart {env : Env} {chart : List Ty} (h : isChart env chart = true) {m : Method}
    (hm : ∀ t ∈ m.params, t.isAmbiguous = false ∧ t.innermost ∈ chart) : Legible env m :=
  ⟨fun t ht => (hm t ht).1, fun t ht => chartedAbove_of_chart h (hm t ht).2⟩

/-- A public method with one parameter. -/
def takesDecl (name : String) (param : Ty) : MethodDecl :=
  { name, returnType := .prim .void, flags := .pub, params := [param] }

/-- A generic class with overloads for its variable, for anything and for a number of integers. -/
def crateRun : List Change :=
  [.addTypeParam { name := "T", bound := some (.cls wellKnownIds.number) },
   .addClass { name := "p.Crate", typeParams := [⟨0⟩],
               methods := [takesDecl "put" (.var ⟨0⟩),
                           takesDecl "put" (.cls wellKnownIds.object),
                           { takesDecl "put" (.array (.cls wellKnownIds.integer)) with
                             flags := .pub ∪ .varargs }] }]

theorem getMethod_compares_crate :
    let env := (afterAll Store.builtin crateRun).env
    let call : MethodCall := ⟨.cls ⟨12⟩, "put", [.cls wellKnownIds.integer]⟩
    let ctx : AccessContext := { current := ⟨12⟩ }
    let own := methodOf ⟨5⟩ ⟨12⟩ (takesDecl "put" (.var ⟨0⟩))
    let any := methodOf ⟨6⟩ ⟨12⟩ (takesDecl "put" (.cls wellKnownIds.object))
    let many := methodOf ⟨7⟩ ⟨12⟩ { takesDecl "put" (.array (.cls wellKnownIds.integer)) with
      flags := .pub ∪ .varargs }
    (answer ((Resolver.standard env).applicable call ctx) = .ok [any, many] ∧
      (((Resolver.generic env).applicable call ctx).run.run {}).1 = .ok [own, any, many] ∧
      ∀ m ∈ [own, any, many], Legible env m ∧ Erasable env {} m) ∧
    (Concluded call (answer ((Resolver.standard env).getMethod call ctx)) ∧
      Compared (CallRule.standard env) () [any, many]) ∧
    Concluded call (((Resolver.generic env).getMethod call ctx).run.run {}).1 ∧
      Compared (CallRule.generic env) {} [own, any, many] := by
  intro env call ctx own any many
  have hstandard : answer ((Resolver.standard env).applicable call ctx) = .ok [any, many] := by
    decide
  have hgeneric : (((Resolver.generic env).applicable call ctx).run.run {}).1 =
      .ok [own, any, many] := by decide
  have hchart : isChart env [.var ⟨0⟩, .cls wellKnownIds.integer, .cls wellKnownIds.number,
      .cls wellKnownIds.object, .cls wellKnownIds.serializable] = true := by decide
  have hreadable : ∀ m ∈ [own, any, many], Legible env m ∧ Erasable env {} m := by
    have hlegible : ∀ m ∈ [own, any, many], Legible env m := by
      intro m hm
      refine legible_of_chart hchart ?_
      revert m
      decide
    have herasable : ∀ m ∈ [own, any, many], Erasable env {} m := by
      simp only [List.forall_mem_cons]
      exact ⟨fun _ => ⟨_, rfl, by decide⟩, fun _ => ⟨_, rfl, by decide⟩,
        fun _ => ⟨_, rfl, by decide⟩, by simp⟩
    exact fun m hm => ⟨hlegible m hm, herasable m hm⟩
  obtain ⟨hleft, hright⟩ := getMethod_compares env call ctx
  obtain ⟨hconcluded, hcompared⟩ := hleft _ hstandard
  obtain ⟨hconcluded', hcompared'⟩ := hright {} _ hgeneric
  refine ⟨⟨hstandard, hgeneric, hreadable⟩, ⟨hconcluded.mpr (by simp), hcompared ?_⟩,
    hconcluded'.mpr (by simp), hcompared' hreadable⟩
  exact fun m hm => (hreadable m (List.mem_cons_of_mem own hm)).1

/-- The first of three classes extends something that does not exist, and the third extends the
first. A last class has overloads for the first and the second, and for the first and the third. -/
def danglingRun : List Change :=
  [.addClass { name := "p.Foo", superclass := some (.named "p.Missing") },
   .addClass { name := "p.Bar" },
   .addClass { name := "p.Baz", superclass := some (.cls ⟨12⟩) },
   .addClass { name := "p.Host",
               methods := [takesDecl "f" (.cls ⟨12⟩), takesDecl "f" (.cls ⟨13⟩),
                           takesDecl "g" (.cls ⟨12⟩), takesDecl "g" (.cls ⟨14⟩)] }]

/-- **A conclusion may rest on a comparison that failed.** With `null`, the one call is ambiguous
and the other means the overload for the third class, although the comparison with the overload for
the first fails in both. -/
theorem getMethod_concludes_from_failure :
    let env := (afterAll Store.builtin danglingRun).env
    let ctx : AccessContext := { current := ⟨15⟩ }
    let f (id : Nat) (param : ClassId) := methodOf ⟨id⟩ ⟨15⟩ (takesDecl "f" (.cls param))
    let g (id : Nat) (param : ClassId) := methodOf ⟨id⟩ ⟨15⟩ (takesDecl "g" (.cls param))
    Reachable (afterAll Store.builtin danglingRun) ∧
    (answer ((Resolver.standard env).applicable ⟨.cls ⟨15⟩, "f", [.null]⟩ ctx) =
        .ok [f 5 ⟨12⟩, f 6 ⟨13⟩] ∧
      env.callFits (f 6 ⟨13⟩) (f 5 ⟨12⟩).params = .error (.unresolvedClass "p.Missing") ∧
      answer ((Resolver.standard env).getMethod ⟨.cls ⟨15⟩, "f", [.null]⟩ ctx) =
        .error (.ambiguousMethod "f" ["p.Host.f(p.Foo)", "p.Host.f(p.Bar)"])) ∧
    answer ((Resolver.standard env).applicable ⟨.cls ⟨15⟩, "g", [.null]⟩ ctx) =
        .ok [g 7 ⟨12⟩, g 8 ⟨14⟩] ∧
      env.callFits (g 8 ⟨14⟩) (g 7 ⟨12⟩).params = .error (.unresolvedClass "p.Missing") ∧
      answer ((Resolver.standard env).getMethod ⟨.cls ⟨15⟩, "g", [.null]⟩ ctx) =
        .ok (g 8 ⟨14⟩) := by
  intro env ctx f g
  have hs : Reachable (afterAll Store.builtin danglingRun) :=
    reachable_afterAll Reachable.builtin danglingRun
  refine ⟨hs, ⟨?_, ?_, ?_⟩, ?_, ?_, ?_⟩
  all_goals decide

end Lineage.Proofs
