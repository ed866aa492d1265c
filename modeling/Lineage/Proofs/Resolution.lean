import Lineage.Member.Resolution
import Lineage.Proofs.Outcome

/-!
# Resolution without a memory

The search for a method is written for call rules that remember what they computed.
The resolver of a rule that has nothing to remember is a computation that may fail and
nothing else. `answer` is that computation, and the equations below say what each part
of the search answers, in terms of the questions about types that it asks.

A comparison of two candidates always has an answer, because a question that fails on
the way counts as no. The candidates that nothing beats are therefore a plain filter.

Everything is shown for every rule of this kind. The rule that looks at declared
parameters only is one of them.
-/

namespace Lineage.Proofs

variable {α β : Type}

/-- What a computation without a memory comes to. -/
def answer (x : Resolve Unit α) : Except TypeError α := (x.run.run ()).1

@[simp] theorem answer_pure (a : α) : answer (pure a : Resolve Unit α) = .ok a := rfl

@[simp] theorem answer_throw (e : TypeError) : answer (throw e : Resolve Unit α) = .error e := rfl

@[simp] theorem answer_ofExcept (x : Except TypeError α) : answer (.ofExcept x) = x := by
  cases x <;> rfl

@[simp] theorem answer_bind (x : Resolve Unit α) (f : α → Resolve Unit β) :
    answer (x >>= f) = answer x >>= fun a => answer (f a) := by
  unfold answer
  rw [ExceptT.run_bind, StateT.run_bind]
  rcases x.run.run () with ⟨r, u⟩
  cases r <;> rfl

@[simp] theorem answer_tryCatch (x : Resolve Unit α) (f : TypeError → Resolve Unit α) :
    answer (tryCatch x f) = match answer x with
      | .ok a => .ok a
      | .error e => answer (f e) := by
  unfold answer
  rw [ExceptT.run_tryCatch, StateT.run_bind]
  rcases x.run.run () with ⟨r, u⟩
  cases r <;> rfl

@[simp] theorem answer_ite (c : Prop) [Decidable c] (x y : Resolve Unit α) :
    answer (if c then x else y) = if c then answer x else answer y := by
  split <;> rfl

theorem answeredYes_iff {x : Except TypeError Bool} : answeredYes x = true ↔ x = .ok true := by
  cases x with
  | error e => simp [answeredYes]
  | ok b => simp [answeredYes]

/-! ## Collecting candidates -/

section Candidates

variable (r : Resolver Unit) (call : MethodCall) (ctx : AccessContext)

/-- By the rule of the resolver, a method of the class `id` fits the arguments of the call, and it
may be used there. -/
def usableBy (id : ClassId) (m : Method) : Except TypeError Bool := do
  if ← answer (r.fits m call.args) then r.env.isAccessible (.cls id) m.flags ctx else pure false

/-- The methods of one class are gone through in order. -/
theorem applicableIn_cons {id : ClassId} {className : String} {k : MethodId}
    {ks : List MethodId} {m : Method} (hm : r.env.method? k = some m) :
    answer (r.applicableIn call ctx id className (k :: ks)) =
      if m.name ≠ call.name then answer (r.applicableIn call ctx id className ks)
      else (do
        let keep ← usableBy r call ctx id m
        let others ← answer (r.applicableIn call ctx id className ks)
        pure (if keep then m :: others else others)) := by
  rw [Resolver.applicableIn, hm]
  dsimp only
  rw [answer_ite]
  split
  · rfl
  · rw [answer_bind, usableBy, bind_assoc]
    congr 1
    funext fits
    -- a method that does not fit is not asked whether it may be used
    cases fits with
    | false =>
        simp only [Bool.false_eq_true, if_false, pure_bind, answer_bind, answer_pure]
        rfl
    | true =>
        simp only [if_true, answer_bind, answer_ofExcept, answer_pure]
        rfl

theorem applicableIn_missing {id : ClassId} {className : String} {k : MethodId}
    {ks : List MethodId} (hm : r.env.method? k = none) :
    answer (r.applicableIn call ctx id className (k :: ks)) =
      .error (.internal (k.inspect ++ " listed on " ++ className ++
        " is not in the environment")) := by
  rw [Resolver.applicableIn, hm]
  rfl

theorem applicableAlong_cons (id : ClassId) (ids : List ClassId) :
    answer (r.applicableAlong call ctx (id :: ids)) = (do
      let c ← r.env.classDef id
      let found ← answer (r.applicableIn call ctx id c.name c.methods)
      let others ← answer (r.applicableAlong call ctx ids)
      pure (found ++ others)) := by
  rw [Resolver.applicableAlong]
  simp only [answer_bind, answer_ofExcept, answer_pure]
  rfl

/-- The classes in which the methods of a receiver are looked up. -/
def searchedClasses (env : Env) (receiver : Ty) : Except TypeError (List ClassId) := do
  let start ← env.receiverClass receiver "method"
  env.methodClasses start

theorem applicable_eq :
    answer (r.applicable call ctx) = (do
      let classes ← searchedClasses r.env call.receiver
      answer (r.applicableAlong call ctx classes)) := by
  rw [Resolver.applicable, searchedClasses, bind_assoc]
  simp only [answer_bind, answer_ofExcept]

end Candidates

/-! ## Choosing one -/

section Choice

variable (r : Resolver Unit)

/-- By the rule of the resolver, the first method is more specific than the second. -/
def prefersBy (m o : Method) : Bool :=
  r.related m.container o.container && answeredYes (answer (r.fits o m.params))

theorem moreSpecific_eq (m o : Method) :
    answer (r.moreSpecific m o) = .ok (prefersBy r m o) := by
  unfold Resolver.moreSpecific prefersBy
  split
  · rename_i hrel
    -- an error of the comparison counts as a no
    rw [answer_tryCatch, hrel]
    cases answer (r.fits o m.params) <;> rfl
  · rename_i hrel
    rw [Bool.not_eq_true] at hrel
    rw [hrel]
    rfl

/-- The first method is more specific by the rule, and the second is not. -/
def beatsBy (o m : Method) : Bool := prefersBy r o m && !prefersBy r m o

theorem beaten_eq (m : Method) (candidates : List Method) :
    answer (r.beaten m candidates) =
      .ok (candidates.any fun o => o.id ≠ m.id && beatsBy r o m) := by
  induction candidates with
  | nil => rfl
  | cons o rest ih =>
      rw [Resolver.beaten, List.any_cons]
      -- a method is not compared with itself
      by_cases hid : o.id = m.id
      · rw [if_pos hid, ih]
        simp [hid]
      · rw [if_neg hid, answer_bind, moreSpecific_eq, ok_bind, answer_ite, answer_bind,
          moreSpecific_eq, ok_bind, answer_ite, ih, answer_pure]
        unfold beatsBy
        cases prefersBy r o m <;> cases prefersBy r m o <;> simp [hid]

/-- The candidates that no other candidate beats by the rule. -/
def maximalBy (candidates : List Method) : List Method :=
  candidates.filter fun m => !candidates.any fun o => o.id ≠ m.id && beatsBy r o m

theorem unbeaten_eq (candidates ms : List Method) :
    answer (r.unbeaten candidates ms) =
      .ok (ms.filter fun m => !candidates.any fun o => o.id ≠ m.id && beatsBy r o m) := by
  induction ms with
  | nil => rfl
  | cons m rest ih =>
      rw [Resolver.unbeaten, answer_bind, beaten_eq, ok_bind, answer_bind, ih, ok_bind,
        answer_pure, List.filter_cons]
      cases candidates.any fun o => o.id ≠ m.id && beatsBy r o m <;> rfl

/-- The candidate that remains, or the candidates between which the call is ambiguous. -/
def verdict (call : MethodCall) (candidates : List Method) : Except TypeError Method :=
  match maximalBy r candidates with
  | [single] => .ok single
  | [] => .error (.ambiguousMethod call.name (candidates.map r.qualified))
  | tied => .error (.ambiguousMethod call.name (tied.map r.qualified))

/-- What a call comes to once its candidates are known. -/
theorem getMethod_eq (call : MethodCall) (ctx : AccessContext) :
    answer (r.getMethod call ctx) = (do
      let candidates ← answer (r.applicable call ctx)
      if candidates.isEmpty then
        throw (.noApplicableMethod call.name (r.env.renderTypes call.args)
          (r.env.renderType call.receiver))
      else verdict r call candidates) := by
  rw [Resolver.getMethod, answer_bind]
  congr 1
  funext candidates
  rw [answer_ite, answer_bind, unbeaten_eq, ok_bind]
  congr 1
  show answer (match maximalBy r candidates with
    | [single] => _
    | [] => _
    | tied => _) = _
  unfold verdict
  rcases maximalBy r candidates with _ | ⟨m, _ | ⟨o, rest⟩⟩ <;> rfl

/-- A call with at least one candidate is decided by comparing its candidates. -/
theorem getMethod_of_candidates {call : MethodCall} {ctx : AccessContext}
    {candidates : List Method} (h : answer (r.applicable call ctx) = .ok candidates)
    (hne : candidates ≠ []) : answer (r.getMethod call ctx) = verdict r call candidates := by
  have hempty : candidates.isEmpty = false := by
    rw [List.isEmpty_eq_false_iff]
    exact hne
  rw [getMethod_eq, h, ok_bind, hempty, if_neg Bool.false_ne_true]

end Choice

/-- By the rule for declared parameters, a call fits if its arguments may be stored in them. -/
theorem answer_fits (env : Env) (m : Method) (args : List Ty) :
    answer ((Resolver.standard env).fits m args) = env.callFits m args := answer_ofExcept _

end Lineage.Proofs
