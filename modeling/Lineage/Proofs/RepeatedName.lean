import Lineage.Proofs.Header
import Lineage.Proofs.Run

/-!
# Which repeated name is reported

The type parameters of one declaration must have different names. If several names are
repeated, one of them is reported, and the report points at a place in the source. The
check looks for a later parameter with the name of the first one, then of the second, and
so on. It does not count anything and does not know which occurrence it has found.

What it finds can be said without its loops. The name is the first in the list that
occurs more than once, and the place is that of the second parameter with the name:
everything in front of the first occurrence occurs once, so none of it has the name, and
the loop takes the next one (`duplicate?_eq_secondOf`).

Before any names are compared all variables are looked up. One that does not exist is
reported as such, and not by way of the names of the others.
-/

namespace Lineage.Proofs

/-! ## Repeated names -/

/-- The name that is listed first among those that occur more than once. -/
def firstRepeated? (names : List String) : Option String :=
  names.find? fun name => 1 < names.count name

/-- The second parameter of that name. -/
def secondOf? (params : List TypeParam) (name : String) : Option TypeParam :=
  (params.filter fun p => name == p.name)[1]?

theorem firstRepeated?_cons_of_mem {name : String} {names : List String} (h : name ∈ names) :
    firstRepeated? (name :: names) = some name := by
  refine List.find?_cons_of_pos ?_
  have hcount : 0 < names.count name := List.count_pos_iff.mpr h
  rw [decide_eq_true_iff, List.count_cons_self]
  omega

/-- A name that occurs once is passed over and changes no count but its own. -/
theorem firstRepeated?_cons_of_not_mem {name : String} {names : List String} (h : name ∉ names) :
    firstRepeated? (name :: names) = firstRepeated? names := by
  have hself : (name :: names).count name = 1 := by
    rw [List.count_cons_self, List.count_eq_zero_of_not_mem h]
  unfold firstRepeated?
  rw [List.find?_cons_of_neg (by simp [hself])]
  rw [← List.head?_filter, ← List.head?_filter]
  -- the same names of the rest are repeated, whether or not this one stands before
  refine congrArg List.head? (List.filter_congr fun other hother => ?_)
  have hne : name ≠ other := fun heq => h (heq ▸ hother)
  rw [List.count_cons_of_ne hne]

theorem secondOf?_cons_of_eq (p : TypeParam) (params : List TypeParam) :
    secondOf? (p :: params) p.name = params.find? fun q => p.name == q.name := by
  unfold secondOf?
  rw [List.filter_cons_of_pos (by simp), List.getElem?_cons_succ, ← List.head?_eq_getElem?,
    List.head?_filter]

theorem secondOf?_cons_of_ne {p : TypeParam} {params : List TypeParam} {name : String}
    (h : name ≠ p.name) : secondOf? (p :: params) name = secondOf? params name := by
  unfold secondOf?
  rw [List.filter_cons_of_neg (by simpa using h)]

theorem name_of_secondOf? {params : List TypeParam} {name : String} {p : TypeParam}
    (h : secondOf? params name = some p) : p.name = name := by
  have hmem := List.mem_of_getElem? h
  exact (beq_iff_eq.mp (List.mem_filter.mp hmem).2).symm

/-- **The search for a duplicate finds the second parameter of the first repeated name.** -/
theorem duplicate?_eq_secondOf (params : List TypeParam) :
    Env.duplicate? params = (firstRepeated? (params.map (·.name))).bind (secondOf? params) := by
  induction params with
  | nil => rfl
  | cons p params ih =>
      rw [Env.duplicate?, List.map_cons]
      by_cases hp : p.name ∈ params.map (·.name)
      · -- the first parameter has the name that is repeated
        rw [firstRepeated?_cons_of_mem hp, Option.bind_some, secondOf?_cons_of_eq]
        obtain ⟨q, hq, hname⟩ := List.mem_map.mp hp
        have hfound : (params.find? fun q => p.name == q.name).isSome = true :=
          List.find?_isSome.mpr ⟨q, hq, beq_iff_eq.mpr hname.symm⟩
        obtain ⟨second, hsecond⟩ := Option.isSome_iff_exists.mp hfound
        rw [hsecond]
      · -- nobody else has the name of the first parameter
        have hnone : params.find? (fun q => p.name == q.name) = none := by
          refine List.find?_eq_none.mpr fun q hq heq => hp ?_
          rw [beq_iff_eq.mp heq]
          exact List.mem_map_of_mem hq
        rw [hnone, firstRepeated?_cons_of_not_mem hp]
        dsimp only
        rw [ih]
        refine Option.bind_congr fun name hname => ?_
        -- the repeated name is one of the rest
        have hne : name ≠ p.name := fun heq => hp (heq ▸ List.mem_of_find?_eq_some hname)
        exact (secondOf?_cons_of_ne hne).symm

/-! ## The check -/

section Check

variable {env : Env}

/-- The look-up stops at a variable that does not exist. -/
theorem typeParamsOf_eq_error {vars : List TypeVarId} (h : ∃ v ∈ vars, env.typeParam? v = none) :
    ∃ v ∈ vars, env.typeParam? v = none ∧
      env.typeParamsOf vars = .error (.internal ("unknown type variable " ++ v.inspect)) := by
  induction vars with
  | nil => simp at h
  | cons v vars ih =>
      rw [Env.typeParamsOf]
      cases hv : env.typeParam? v with
      | none => exact ⟨v, List.mem_cons_self, hv, rfl⟩
      | some p =>
          obtain ⟨w, hw, hnone⟩ := h
          -- this one exists, so the missing one is among the rest
          have hrest : w ∈ vars := by
            rcases List.mem_cons.mp hw with rfl | hrest
            · rw [hv] at hnone
              cases hnone
            · exact hrest
          obtain ⟨u, hu, hmissing, herr⟩ := ih ⟨w, hrest, hnone⟩
          refine ⟨u, List.mem_cons_of_mem v hu, hmissing, ?_⟩
          dsimp only
          rw [herr, error_bind]

theorem checkDuplicates_of_duplicate {vars : List TypeVarId} {params : List TypeParam}
    {p : TypeParam} (h : env.typeParamsOf vars = .ok params)
    (hp : Env.duplicate? params = some p) :
    env.checkDuplicates vars = .error (.illegalGenericDeclaration .duplicateTypeVariable
      ("duplicate type variable declaration \"" ++ p.name ++ "\"") p.span) := by
  unfold Env.checkDuplicates
  rw [h, ok_bind, hp]
  rfl

end Check

/--
**The check for repeated names is exact**, in every environment and for every list of
variables. If all of them exist, it passes exactly if their names are different.
Otherwise it names the first name of the list that occurs more than once, at the place
where that name occurs for the second time. If one does not exist, the check fails on
account of it, whatever the names are.
-/
theorem checkDuplicates_exact (env : Env) (vars : List TypeVarId) :
    (∀ params, List.Forall₂ (fun v p => env.typeParam? v = some p) vars params →
      (env.checkDuplicates vars = .ok () ↔ (params.map (·.name)).Nodup) ∧
      (¬ (params.map (·.name)).Nodup → ∃ name p,
        firstRepeated? (params.map (·.name)) = some name ∧ secondOf? params name = some p ∧
        env.checkDuplicates vars = .error (.illegalGenericDeclaration .duplicateTypeVariable
          ("duplicate type variable declaration \"" ++ name ++ "\"") p.span))) ∧
    ((∃ v ∈ vars, env.typeParam? v = none) → ∃ v ∈ vars, env.typeParam? v = none ∧
      env.checkDuplicates vars = .error (.internal ("unknown type variable " ++ v.inspect))) := by
  constructor
  · intro params hparams
    have hlook : env.typeParamsOf vars = .ok params := typeParamsOf_eq_ok_iff.mpr hparams
    constructor
    · rw [checkDuplicates_eq_ok_iff]
      simp [hlook]
    · intro hrepeated
      -- names that are not all different have a duplicate, which is then reported
      obtain ⟨p, hp⟩ := Option.ne_none_iff_exists'.mp (duplicate?_eq_none_iff.not.mpr hrepeated)
      obtain ⟨name, hname, hsecond⟩ :=
        Option.bind_eq_some_iff.mp ((duplicate?_eq_secondOf params).symm.trans hp)
      refine ⟨name, p, hname, hsecond, ?_⟩
      rw [← name_of_secondOf? hsecond]
      exact checkDuplicates_of_duplicate hlook hp
  · intro hmissing
    obtain ⟨v, hv, hnone, herr⟩ := typeParamsOf_eq_error hmissing
    refine ⟨v, hv, hnone, ?_⟩
    unfold Env.checkDuplicates
    rw [herr, error_bind]

/-- Six variables with three names. Of the two names that are repeated, `B` is listed later and
repeated earlier. -/
def interleaved : Store :=
  afterAll .builtin
    [.addTypeParam { name := "C", span := some ⟨10, 11⟩ },
     .addTypeParam { name := "A", span := some ⟨20, 21⟩ },
     .addTypeParam { name := "B", span := some ⟨30, 31⟩ },
     .addTypeParam { name := "B", span := some ⟨40, 41⟩ },
     .addTypeParam { name := "A", span := some ⟨50, 51⟩ },
     .addTypeParam { name := "A", span := some ⟨60, 61⟩ }]

/-- The second `A` is reported. Without the repetitions all is well, and a variable that does not
exist goes before them. -/
theorem checkDuplicates_exact_interleaved :
    let env := interleaved.env
    let vars : List TypeVarId := [⟨0⟩, ⟨1⟩, ⟨2⟩, ⟨3⟩, ⟨4⟩, ⟨5⟩]
    let params := vars.filterMap env.typeParam?
    (List.Forall₂ (fun v p => env.typeParam? v = some p) vars params ∧
        ¬ (params.map (·.name)).Nodup ∧
        env.checkDuplicates vars = .error (.illegalGenericDeclaration .duplicateTypeVariable
          ("duplicate type variable declaration \"" ++ "A" ++ "\"") (some ⟨50, 51⟩))) ∧
      env.checkDuplicates (vars.take 3) = .ok () ∧
      (env.typeParam? ⟨6⟩ = none ∧ ∃ v ∈ vars ++ [⟨6⟩], env.typeParam? v = none ∧
        env.checkDuplicates (vars ++ [⟨6⟩]) =
          .error (.internal ("unknown type variable " ++ v.inspect))) := by
  intro env vars params
  have hall : List.Forall₂ (fun v p => env.typeParam? v = some p) vars params :=
    typeParamsOf_eq_ok_iff.mp (by decide)
  have hthree : List.Forall₂ (fun v p => env.typeParam? v = some p) (vars.take 3)
      (params.take 3) := typeParamsOf_eq_ok_iff.mp (by decide)
  have hrepeated : ¬ (params.map (·.name)).Nodup := by decide
  have hmissing : env.typeParam? ⟨6⟩ = none := by decide
  obtain ⟨name, p, hname, hsecond, herr⟩ :=
    ((checkDuplicates_exact env vars).1 params hall).2 hrepeated
  -- `A` is listed first, although `B` is the first to come again
  have hA : firstRepeated? (params.map (·.name)) = some "A" := by decide
  have hplace : (secondOf? params "A").map (·.span) = some (some ⟨50, 51⟩) := by decide
  obtain rfl : name = "A" := Option.some.inj (hname.symm.trans hA)
  have hspan : p.span = some ⟨50, 51⟩ := by
    rw [hsecond] at hplace
    exact Option.some.inj hplace
  rw [hspan] at herr
  exact ⟨⟨hall, hrepeated, herr⟩,
    ((checkDuplicates_exact env (vars.take 3)).1 _ hthree).1.mpr (by decide), hmissing,
    (checkDuplicates_exact env _).2 ⟨⟨6⟩, by decide, hmissing⟩⟩

end Lineage.Proofs
