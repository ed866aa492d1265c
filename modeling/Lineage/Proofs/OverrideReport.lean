import Lineage.Proofs.Arity
import Lineage.Proofs.Failures
import Lineage.Proofs.Renaming

/-!
# The first broken rule is reported

Six rules say whether a method may override another. They are asked in a fixed order, and
the first one that is broken is reported, by its name and at the place of the method. Two
of them ask the hierarchy and may fail to have an answer. Nothing after them is asked
then, and the failure is handed on.

So a report says more than that a rule is broken: all rules before it have been asked,
and every one has been found obeyed. And it can be told from a failure, because what a
question to the hierarchy fails with is never a report (`obeys_failsAs`). Whether the
rules are asked aloud or quietly comes in after they have been asked, and only then.

The rules compare types of one method with types of the other, whose type parameters have
other names. What they are taken for is said without substitutions: each variable becomes
the one at its position, and all else stays (`renameType`).
-/

namespace Lineage.Proofs

open Store Subst

/-! ## The first no -/

section FirstNo

variable {α ε : Type} {f : α → Except ε Bool}

/-- The first element of a list that has the answer no. -/
def firstNo (f : α → Except ε Bool) : List α → Except ε (Option α)
  | [] => .ok none
  | x :: xs => f x >>= fun yes => if yes = true then firstNo f xs else .ok (some x)

theorem firstNo_eq_some_iff {xs : List α} {x : α} :
    firstNo f xs = .ok (some x) ↔ Asked f true xs x ∧ f x = .ok false := by
  induction xs with
  | nil => simp [firstNo, Asked]
  | cons y xs ih =>
      rw [firstNo, asked_cons_iff]
      cases hy : f y with
      | error e =>
          simp only [error_bind, reduceCtorEq, false_and, or_false, false_iff, not_and]
          rintro rfl hx
          rw [hy] at hx
          cases hx
      | ok yes =>
          cases yes with
          | true =>
              -- a yes passes the question on, and is not what is looked for
              simp only [ok_bind, if_true, ih, true_and]
              constructor
              · rintro ⟨hasked, hx⟩
                exact ⟨.inr hasked, hx⟩
              · rintro ⟨rfl | hasked, hx⟩
                · rw [hy] at hx
                  cases hx
                · exact ⟨hasked, hx⟩
          | false =>
              simp only [ok_bind, Bool.false_eq_true, if_false, Except.ok.injEq, Option.some.injEq,
                false_and, or_false]
              constructor
              · rintro rfl
                exact ⟨rfl, hy⟩
              · rintro ⟨rfl, -⟩
                rfl

theorem firstNo_failsAs {P : ε → Prop} (hf : ∀ x, FailsAs P (f x)) (xs : List α) :
    FailsAs P (firstNo f xs) := by
  induction xs with
  | nil => exact failsAs_ok none
  | cons x xs ih => exact (hf x).bind fun yes => FailsAs.ite ih (failsAs_ok (some x))

end FirstNo

/-! ## The rules -/

/-- The rules in the order in which they are asked, each by what it is called when it is broken. -/
def overrideRules : List OverrideViolation :=
  [.incompatibleParameterTypes, .incompatibleReturnType, .throwsNotSubset, .weakerAccess,
   .staticMismatch, .overridesFinal]

/-- `mi` obeys the rule when it overrides `mj`. The types of `mj` are compared after its type
parameters have been renamed to those of `mi`, position by position (`renameType`). -/
def obeys (env : Env) (mi mj : Method) : OverrideViolation → Except TypeError Bool
  | .incompatibleParameterTypes =>
    .ok (mi.name = mj.name ∧ mi.typeParams.length = mj.typeParams.length ∧
      mi.params = mj.params.map (renameType mj.typeParams mi.typeParams))
  | .incompatibleReturnType =>
    env.returnFits mi.returnType (renameType mj.typeParams mi.typeParams mj.returnType)
  | .throwsNotSubset =>
    env.throwsCovered (mj.throws.map (renameType mj.typeParams mi.typeParams)) mi.throws
  | .weakerAccess => .ok (!mi.flags.moreRestrictive mj.flags)
  | .staticMismatch => .ok (mi.isStatic == mj.isStatic)
  | .overridesFinal => .ok (mi.id == mj.id || !mj.isFinal)

/-- Every rule before this one is obeyed, and this one is not. -/
def FirstBroken (env : Env) (mi mj : Method) (rule : OverrideViolation) : Prop :=
  (∃ before after, overrideRules = before ++ rule :: after ∧
    ∀ earlier ∈ before, obeys env mi mj earlier = .ok true) ∧
  obeys env mi mj rule = .ok false

section Walk

variable {f : OverrideViolation → Except TypeError Bool} {rule : OverrideViolation}
  {rest : List OverrideViolation} {detail : String}
  {next : Except TypeError (Option (OverrideViolation × String))}

/-- A rule that is asked before the rest. -/
theorem firstNo_of_asked {x : Except TypeError Bool} (hx : f rule = x)
    (hnext : Option.map Prod.fst <$> next = firstNo f rest) :
    Option.map Prod.fst <$> (x >>= fun yes =>
      if (!yes) = true then .ok (some (rule, detail)) else next) = firstNo f (rule :: rest) := by
  rw [firstNo, hx]
  cases x with
  | error e => rfl
  | ok yes =>
      cases yes with
      | true => exact hnext
      | false => rfl

/-- A rule that always has an answer. -/
theorem firstNo_of_seen {broken : Bool} (hx : f rule = .ok (!broken))
    (hnext : Option.map Prod.fst <$> next = firstNo f rest) :
    Option.map Prod.fst <$> (if broken = true then .ok (some (rule, detail)) else next) =
      firstNo f (rule :: rest) := by
  rw [firstNo, hx]
  cases broken with
  | true => rfl
  | false => exact hnext

end Walk

section Report

variable (env : Env) (mi mj : Method)

/-! ### Rules that cannot be decided -/

theorem isUnder_failsAs (root : ClassId) (t : Ty) : FailsAs Unanswerable (env.isUnder root t) :=
  FailsAs.ite (failsAs_ok true) (descends_failsAs env t (.cls root))

theorem isUnchecked_failsAs (t : Ty) : FailsAs Unanswerable (env.isUnchecked t) := by
  refine (isUnder_failsAs env _ t).bind fun runtime => ?_
  exact FailsAs.ite (failsAs_ok true) (isUnder_failsAs env _ t)

theorem throwAllowed_failsAs (thrown : Ty) (allowed : List Ty) :
    FailsAs Unanswerable (env.throwAllowed thrown allowed) := by
  induction allowed with
  | nil => exact failsAs_ok false
  | cons t allowed ih =>
      refine FailsAs.ite (failsAs_ok true) ?_
      exact (descends_failsAs env thrown t).bind fun below => FailsAs.ite (failsAs_ok true) ih

theorem throwsCovered_failsAs (allowed throws : List Ty) :
    FailsAs Unanswerable (env.throwsCovered allowed throws) := by
  induction throws with
  | nil => exact failsAs_ok true
  | cons t throws ih =>
      refine (isUnchecked_failsAs env t).bind fun unchecked => FailsAs.ite ih ?_
      refine (throwAllowed_failsAs env t allowed).bind fun found => ?_
      exact FailsAs.ite ih (failsAs_ok false)

/-- A rule that has no answer does not look like a broken one. -/
theorem obeys_failsAs (rule : OverrideViolation) :
    FailsAs Unanswerable (obeys env mi mj rule) := by
  cases rule with
  | incompatibleReturnType =>
      exact FailsAs.ite (failsAs_ok _) (assignable_failsAs env _ _)
  | throwsNotSubset => exact throwsCovered_failsAs env _ _
  | _ => exact failsAs_ok _

theorem kind_of_firstNo_error {rules : List OverrideViolation} {e : TypeError}
    (h : firstNo (obeys env mi mj) rules = .error e) : e.kind ≠ .illegalOverride := by
  rcases firstNo_failsAs (obeys_failsAs env mi mj) rules e h with hkind | hkind <;> simp [hkind]

/-! ### Asking the rules -/

theorem overrideEquivalent_eq_decide : mi.overrideEquivalent mj =
    decide (mi.name = mj.name ∧ mi.typeParams.length = mj.typeParams.length ∧
      mi.params = mj.params.map (renameType mj.typeParams mi.typeParams)) := by
  rw [Bool.eq_iff_iff, overrideEquivalent_iff_renamed, decide_eq_true_iff]

/-- **The violation that is found is the first rule with the answer no.** -/
theorem overrideViolation?_eq_firstNo :
    Option.map Prod.fst <$> env.overrideViolation? mi mj =
      firstNo (obeys env mi mj) overrideRules := by
  unfold Env.overrideViolation? Env.throwsSubset
  dsimp only
  -- the method is aligned by a substitution, and the rules are about renamed types
  rw [alignTo_returnType, alignTo_throws, overrideEquivalent_eq_decide]
  refine firstNo_of_seen (by simp only [obeys, Bool.not_not]) ?_
  refine firstNo_of_asked rfl ?_
  refine firstNo_of_asked rfl ?_
  refine firstNo_of_seen rfl ?_
  refine firstNo_of_seen (by simp [obeys, bne]) ?_
  refine firstNo_of_seen ?_ rfl
  -- the last rule is asked the other way round, and a method may override itself
  have hfinal : (mi.id == mj.id || !mj.isFinal) = !(decide (mi.id ≠ mj.id) && mj.isFinal) := by
    by_cases hid : mi.id = mj.id <;> simp [hid]
  exact congrArg Except.ok hfinal

/-- To be the first broken rule is to be the first with the answer no, so there is one at most. -/
theorem firstBroken_iff {rule : OverrideViolation} :
    FirstBroken env mi mj rule ↔ firstNo (obeys env mi mj) overrideRules = .ok (some rule) :=
  firstNo_eq_some_iff.symm

/-- What is made of the first broken rule. -/
def overrideVerdict (detail : String) (quiet : Bool) :
    Option OverrideViolation → Except TypeError Bool
  | none => .ok true
  | some rule => if quiet = true then .ok false else .error (env.overrideError mi mj rule detail)

/-- The rules are asked first, and only then does it matter whether they are asked quietly. -/
theorem canOverride_eq_overrideVerdict :
    ∃ detail, ∀ quiet, env.canOverride mi mj quiet =
      firstNo (obeys env mi mj) overrideRules >>= overrideVerdict env mi mj detail quiet := by
  simp only [← overrideViolation?_eq_firstNo, Env.canOverride]
  cases env.overrideViolation? mi mj with
  | error e => exact ⟨"", fun quiet => rfl⟩
  | ok found =>
      cases found with
      | none => exact ⟨"", fun quiet => rfl⟩
      | some reported => exact ⟨reported.2, fun quiet => rfl⟩

/-- **A report names the first broken rule, and both ways of asking agree.** Asked aloud, a rule is
reported exactly when it is the first broken one, and at the place of `mi`. Asked quietly, the
answer is no exactly when some rule would be reported. Otherwise it makes no difference how the
rules are asked: all are obeyed, or one of them has no answer, and that is not a report. -/
theorem canOverride_reports_first_broken :
    (∀ rule span,
      (∃ detail, env.canOverride mi mj false = .error (.illegalOverride rule detail span)) ↔
        FirstBroken env mi mj rule ∧ span = mi.span) ∧
    (env.canOverride mi mj true = .ok false ↔ ∃ rule, FirstBroken env mi mj rule) ∧
    ((∃ rule, FirstBroken env mi mj rule) ∨
      env.canOverride mi mj true = env.canOverride mi mj false ∧
      (env.canOverride mi mj false = .ok true ∨
        ∃ e, env.canOverride mi mj false = .error e ∧ e.kind ≠ .illegalOverride)) := by
  simp only [firstBroken_iff]
  obtain ⟨detail, hboth⟩ := canOverride_eq_overrideVerdict env mi mj
  cases hfirst : firstNo (obeys env mi mj) overrideRules with
  | error e =>
      -- a rule without an answer ends the walk with an error of another kind
      have hkind := kind_of_firstNo_error env mi mj hfirst
      simp only [hfirst, error_bind] at hboth
      refine ⟨fun rule span => iff_of_false ?_ (by simp), by simp [hboth],
        .inr ⟨by rw [hboth, hboth], .inr ⟨e, hboth false, hkind⟩⟩⟩
      rintro ⟨_, hreport⟩
      rw [hboth] at hreport
      cases hreport
      exact hkind rfl
  | ok found =>
      simp only [hfirst, ok_bind] at hboth
      cases found with
      | none => simp [hboth, overrideVerdict]
      | some rule =>
          -- the first no is reported aloud and answered quietly
          refine ⟨fun rule' span => ?_, by simp [hboth, overrideVerdict], .inl ⟨rule, rfl⟩⟩
          simp only [hboth, overrideVerdict, Bool.false_eq_true, if_false, Env.overrideError,
            Except.error.injEq, TypeError.illegalOverride.injEq, Except.ok.injEq,
            Option.some.injEq]
          constructor
          · rintro ⟨_, rfl, _, rfl⟩
            exact ⟨rfl, rfl⟩
          · rintro ⟨rfl, rfl⟩
            exact ⟨_, rfl, rfl, rfl⟩

end Report

/-- Picks one of several: `<V> V pick(V[])`. -/
def pickDecl (v : TypeVarId) : MethodDecl :=
  { name := "pick", typeParams := [v], params := [.array (.var v)], returnType := .var v,
    span := some ⟨3, 7⟩ }

/-- Two methods that differ in the name of their variable only are not reported. If the second one
returns a string, the rule about return types is the first that is broken. And if the first one
returns a class that nobody has heard of, that rule has no answer. -/
theorem canOverride_reports_first_broken_pick :
    let env := (afterAll Store.builtin
      [.addTypeParam { name := "A" }, .addTypeParam { name := "B" }]).env
    let mi := methodOf ⟨0⟩ ⟨0⟩ (pickDecl ⟨0⟩)
    let mj := methodOf ⟨1⟩ ⟨0⟩ (pickDecl ⟨1⟩)
    let narrow := { mj with returnType := .cls wellKnownIds.string }
    let lost := { mi with returnType := .cls ⟨99⟩ }
    (¬ (∃ rule, FirstBroken env mi mj rule) ∧ env.canOverride mi mj false = .ok true ∧
      env.canOverride mi mj true = .ok true) ∧
    (FirstBroken env mi narrow .incompatibleReturnType ∧
      (∃ detail, env.canOverride mi narrow false =
        .error (.illegalOverride .incompatibleReturnType detail (some ⟨3, 7⟩))) ∧
      env.canOverride mi narrow true = .ok false) ∧
    (¬ (∃ rule, FirstBroken env lost mj rule) ∧
      env.canOverride lost mj true = env.canOverride lost mj false ∧
      ∃ e, env.canOverride lost mj false = .error e ∧ e.kind ≠ .illegalOverride) := by
  intro env mi mj narrow lost
  have hmj : ¬ ∃ rule, FirstBroken env mi mj rule := by
    rintro ⟨rule, hrule⟩
    have hnone : firstNo (obeys env mi mj) overrideRules = .ok none := by decide
    rw [firstBroken_iff, hnone] at hrule
    cases hrule
  have hlost : ¬ ∃ rule, FirstBroken env lost mj rule := by
    rintro ⟨rule, hrule⟩
    -- the walk stops at the rule about return types without an answer
    have herror : (firstNo (obeys env lost mj) overrideRules).isOk = false := by decide
    rw [firstBroken_iff] at hrule
    rw [hrule] at herror
    cases herror
  have hnarrow : FirstBroken env mi narrow .incompatibleReturnType :=
    (firstBroken_iff env mi narrow).mpr (by decide)
  obtain ⟨hsame, -⟩ := (canOverride_reports_first_broken env mi mj).2.2.resolve_left hmj
  obtain ⟨hloud, hquiet, -⟩ := canOverride_reports_first_broken env mi narrow
  obtain ⟨hlostSame, hanswer⟩ :=
    (canOverride_reports_first_broken env lost mj).2.2.resolve_left hlost
  have hyes : env.canOverride mi mj false = .ok true := by decide
  refine ⟨⟨hmj, hyes, hsame.trans hyes⟩, ⟨hnarrow, ?_, hquiet.mpr ⟨_, hnarrow⟩⟩,
    hlost, hlostSame, hanswer.resolve_left (by decide)⟩
  exact (hloud _ _).mpr ⟨hnarrow, rfl⟩

end Lineage.Proofs
