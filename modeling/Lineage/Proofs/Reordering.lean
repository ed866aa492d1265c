import Lineage.Proofs.Assignability
import Lineage.Proofs.Memory
import Mathlib.Data.List.Perm.Basic

/-!
# Environments that list methods in another order

Questions about types do not look at the methods of a class, so they have the same
answers in two environments that differ only in the order in which classes list their
methods. That is shown for one function after the other, down to the two rules by which
a method fits a call.

The comparison also keeps track of failures, because a search for a method hands on the
errors of the questions it asks. Two errors say how a search ended that went through: no
method fits, or none is the most specific one. `Agree` compares two computations which
both answer, or which both fail and then not with one of these two. Which of the other
errors they fail with is left open, because that does depend on the order.
-/

namespace Lineage.Proofs

/-! ## Computations that agree -/

/-- The error is how a search for a method ends that went through: no method fits, or none is
the most specific one. -/
def isVerdict : TypeError → Bool
  | .noApplicableMethod .. | .ambiguousMethod .. => true
  | _ => false

/-- Both computations answer, with related answers, or both fail on the way to a verdict. -/
inductive Agree {α β : Type} (R : α → β → Prop) :
    Except TypeError α → Except TypeError β → Prop where
  | ok {a : α} {b : β} : R a b → Agree R (.ok a) (.ok b)
  | error {e e' : TypeError} : isVerdict e = false → isVerdict e' = false →
      Agree R (.error e) (.error e')

namespace Agree

variable {α β γ δ : Type} {R : α → β → Prop} {S : γ → δ → Prop}

theorem same (a : α) : Agree Eq (.ok a) (.ok a : Except TypeError α) := .ok rfl

theorem bind {x : Except TypeError α} {y : Except TypeError β} {f : α → Except TypeError γ}
    {g : β → Except TypeError δ} (h : Agree R x y) (hf : ∀ a b, R a b → Agree S (f a) (g b)) :
    Agree S (x >>= f) (y >>= g) := by
  cases h with
  | ok hab => exact hf _ _ hab
  | error he he' => exact .error he he'

/-- Two computations with the same answer go on from that answer. -/
theorem next {x y : Except TypeError α} {f : α → Except TypeError γ} {g : α → Except TypeError δ}
    (h : Agree Eq x y) (hf : ∀ a, Agree S (f a) (g a)) : Agree S (x >>= f) (y >>= g) := by
  refine h.bind fun a b hab => ?_
  subst hab
  exact hf a

theorem map {x : Except TypeError α} {y : Except TypeError β} {f : α → γ} {g : β → δ}
    (h : Agree R x y) (hf : ∀ a b, R a b → S (f a) (g b)) : Agree S (f <$> x) (g <$> y) := by
  cases h with
  | ok hab => exact .ok (hf _ _ hab)
  | error he he' => exact .error he he'

theorem ite {c : Prop} [Decidable c] {x x' : Except TypeError α} {y y' : Except TypeError β}
    (h : c → Agree R x y) (h' : ¬ c → Agree R x' y') :
    Agree R (if c then x else x') (if c then y else y') := by
  by_cases hc : c
  · rw [if_pos hc, if_pos hc]
    exact h hc
  · rw [if_neg hc, if_neg hc]
    exact h' hc

theorem left {x y : Except TypeError α} (h : Agree Eq x y) : Agree Eq x x := by
  cases h with
  | ok _ => exact .ok rfl
  | error he _ => exact .error he he

theorem perm_trans {x y z : Except TypeError (List α)} (h : Agree List.Perm x y)
    (h' : Agree List.Perm y z) : Agree List.Perm x z := by
  cases h with
  | ok hab =>
      cases h' with
      | ok hbc => exact .ok (hab.trans hbc)
  | error he _ =>
      cases h' with
      | error _ he' => exact .error he he'

theorem answeredYes_eq {x y : Except TypeError Bool} (h : Agree Eq x y) :
    answeredYes x = answeredYes y := by
  cases h with
  | ok hab => exact congrArg (fun b => answeredYes (.ok b)) hab
  | error _ _ => rfl

end Agree

section Lists

variable {α β : Type} {f g : α → Except TypeError β}

theorem mapM_agree {xs : List α} (h : ∀ x ∈ xs, Agree Eq (f x) (g x)) :
    Agree Eq (xs.mapM f) (xs.mapM g) := by
  induction xs with
  | nil => exact Agree.same []
  | cons x xs ih =>
      rw [List.forall_mem_cons] at h
      rw [List.mapM_cons, List.mapM_cons]
      exact h.1.next fun y => (ih h.2).next fun ys => Agree.same _

theorem foldlM_agree {f g : β → α → Except TypeError β}
    (h : ∀ b x, Agree Eq (f b x) (g b x)) (xs : List α) (b : β) :
    Agree Eq (xs.foldlM f b) (xs.foldlM g b) := by
  induction xs generalizing b with
  | nil => exact Agree.same b
  | cons x xs ih =>
      rw [List.foldlM_cons, List.foldlM_cons]
      exact (h b x).next fun b' => ih b'

/-- **A list may be mapped in any order**, unless one asks which element fails first. -/
theorem mapM_perm (h : ∀ x, Agree Eq (f x) (g x)) {xs ys : List α} (hperm : xs.Perm ys) :
    Agree List.Perm (xs.mapM f) (ys.mapM g) := by
  induction hperm generalizing g with
  | nil => exact .ok (List.Perm.refl _)
  | cons x _ ih =>
      rw [List.mapM_cons, List.mapM_cons]
      exact (h x).next fun y => (ih h).bind fun as bs hab => .ok (hab.cons y)
  | swap x y xs =>
      rw [List.mapM_cons, List.mapM_cons, List.mapM_cons, List.mapM_cons]
      have hx := h x
      have hy := h y
      have hrest : Agree Eq (xs.mapM f) (xs.mapM g) := mapM_agree fun z _ => h z
      generalize f x = fx, g x = gx, f y = fy, g y = gy at hx hy
      -- two failures may change places, and then each side meets another one first
      cases hy with
      | error hy hy' =>
          cases hx with
          | error hx hx' => exact .error hy hx'
          | ok hx => exact .error hy hy'
      | ok hy =>
          cases hx with
          | error hx hx' => exact .error hx hx'
          | ok hx =>
              subst hx hy
              simp only [ok_bind, bind_assoc, pure_eq_ok]
              exact hrest.next fun zs => .ok (List.Perm.swap _ _ zs)
  | trans _ _ ih₁ ih₂ => exact (ih₁ fun x => (h x).left).perm_trans (ih₂ h)

end Lists

theorem ensureCanonical_agree (t : Ty) : Agree Eq t.ensureCanonical t.ensureCanonical := by
  unfold Ty.ensureCanonical
  exact Agree.ite (fun _ => .error rfl rfl) fun _ => Agree.same ()

theorem bindVar_agree {f g : TypeVarId → Except TypeError Ty}
    (h : ∀ v, Agree Eq (f v) (g v)) (t : Ty) : Agree Eq (t.bindVar f) (t.bindVar g) := by
  induction t with
  | var v => exact h v
  | array element ih => exact ih.next fun _ => Agree.same _
  | _ => exact Agree.same _

/-! ## Environments that list methods in another order -/

/-- The same definition with its methods in another order. -/
def Reorders (c c' : ClassDef) : Prop :=
  ∃ methods, c.methods.Perm methods ∧ c' = { c with methods }

/-- The two environments differ only in the order in which classes list their methods. -/
structure Reordered (env env' : Env) : Prop where
  classDef? : ∀ id, Option.Rel Reorders (env.classDef? id) (env'.classDef? id)
  method? : env'.method? = env.method?
  typeParam? : env'.typeParam? = env.typeParam?
  lookup? : env'.lookup? = env.lookup?
  wellKnown : env'.wellKnown = env.wellKnown
  className? : env'.className? = env.className?
  depthLimit : env'.depthLimit = env.depthLimit
  varCount : env'.varCount = env.varCount

/-- The classes of a chain that came to its end, or the error that ended it. -/
def completeFrom (c : Chain) : Except TypeError (List ClassId) :=
  match c.failure with
  | some e => throw e
  | none => pure c.classes

theorem completeFrom_cons (id : ClassId) (c : Chain) :
    completeFrom (c.cons id) = (id :: ·) <$> completeFrom c := by
  obtain ⟨classes, _ | e⟩ := c <;> rfl

namespace Reordered

variable {env env' : Env} (h : Reordered env env')

include h

/-! ## Text -/

theorem displayName (id : ClassId) : env'.displayName id = env.displayName id := by
  rw [Env.displayName, h.className?, Env.displayName]

theorem renderType (t : Ty) : env'.renderType t = env.renderType t := by
  induction t with
  | cls id => exact h.displayName id
  | var v => rw [Env.renderType, h.typeParam?, Env.renderType]
  | array element ih => rw [Env.renderType, ih, Env.renderType]
  | _ => rfl

theorem renderTypes (ts : List Ty) : env'.renderTypes ts = env.renderTypes ts := by
  unfold Env.renderTypes
  rw [List.map_congr_left fun t _ => h.renderType t]

theorem renderParams (varargs : Bool) (ts : List Ty) :
    env'.renderParams varargs ts = env.renderParams varargs ts := by
  fun_induction Env.renderParams env varargs ts with
  | case1 => rfl
  | case2 element => rw [Env.renderParams, h.renderType, h.renderType]
  | case3 t rest _ ih => rw [Env.renderParams, h.renderType, ih]; assumption

theorem renderMethod (m : Method) : env'.renderMethod m = env.renderMethod m := by
  unfold Env.renderMethod
  rw [h.renderTypes, h.renderParams]

/-! ## Definitions, bounds and links -/

theorem objectType : env'.objectType = env.objectType := by
  rw [Env.objectType, h.wellKnown, Env.objectType]

theorem arraySupertypes : env'.arraySupertypes = env.arraySupertypes := by
  rw [Env.arraySupertypes, h.objectType, h.wellKnown, Env.arraySupertypes]

theorem classDef (id : ClassId) : Agree Reorders (env.classDef id) (env'.classDef id) := by
  unfold Env.classDef
  have hid := h.classDef? id
  generalize env.classDef? id = c, env'.classDef? id = c' at hid
  cases hid with
  | none => exact .error rfl rfl
  | some hc => exact .ok hc

theorem boundOf (v : TypeVarId) : Agree Eq (env.boundOf v) (env'.boundOf v) := by
  unfold Env.boundOf
  rw [h.typeParam?]
  cases env.typeParam? v with
  | none => exact .error rfl rfl
  | some p => exact Agree.same _

theorem resolveLink (link : Ty) : Agree Eq (env.resolveLink link) (env'.resolveLink link) := by
  cases link with
  | cls id => exact Agree.same id
  | named name =>
      rw [Env.resolveLink, Env.resolveLink]
      unfold Env.find
      rw [h.lookup?]
      cases env.lookup? name with
      | none => exact .error rfl rfl
      | some id => exact Agree.same id
  | _ => exact .error rfl rfl

theorem superclassOf (id : ClassId) :
    Agree Eq (env.superclassOf id) (env'.superclassOf id) := by
  refine (h.classDef id).bind ?_
  -- links are not touched by the order of methods
  rintro c _ ⟨methods, -, rfl⟩
  dsimp only
  cases c.superclass with
  | none => exact Agree.same none
  | some link => exact (h.resolveLink link).map fun _ _ heq => congrArg some heq

theorem interfacesOf (id : ClassId) :
    Agree Eq (env.interfacesOf id) (env'.interfacesOf id) := by
  refine (h.classDef id).bind ?_
  rintro c _ ⟨methods, -, rfl⟩
  exact mapM_agree fun link _ => h.resolveLink link

/-! ## Walks over the hierarchy -/

theorem chainFrom (n : Nat) (seen : List ClassId) (id : ClassId) :
    Agree Eq (completeFrom (env.chainFrom n seen id))
      (completeFrom (env'.chainFrom n seen id)) := by
  induction n generalizing seen id with
  | zero => exact .error rfl rfl
  | succ n ih =>
      rw [Env.chainFrom, Env.chainFrom]
      by_cases hseen : id ∈ seen
      · rw [if_pos hseen, if_pos hseen]
        exact .error rfl rfl
      · rw [if_neg hseen, if_neg hseen]
        have hsup := h.superclassOf id
        generalize env.superclassOf id = x, env'.superclassOf id = y at hsup
        cases hsup with
        | error he he' => exact .error he he'
        | @ok parent _ heq =>
            subst heq
            cases parent with
            | none => exact Agree.same [id]
            | some p =>
                dsimp only
                rw [completeFrom_cons, completeFrom_cons]
                exact (ih (id :: seen) p).map fun _ _ heq => congrArg (id :: ·) heq

theorem completeChain (start : ClassId) :
    Agree Eq (env.completeChain start) (env'.completeChain start) := by
  show Agree Eq (completeFrom (env.chainFrom env.depthLimit [] start))
    (completeFrom (env'.chainFrom env'.depthLimit [] start))
  rw [h.depthLimit]
  exact h.chainFrom env.depthLimit [] start

theorem visitSupertypes (n : Nat) (path finished : List ClassId) (id : ClassId) :
    Agree Eq (env.visitSupertypes n path finished id)
      (env'.visitSupertypes n path finished id) := by
  induction n generalizing path finished id with
  | zero =>
      rw [Env.visitSupertypes.eq_def, Env.visitSupertypes.eq_def]
      exact Agree.ite (fun _ => Agree.same _) fun _ => .error rfl rfl
  | succ n ih =>
      rw [Env.visitSupertypes.eq_def, Env.visitSupertypes.eq_def]
      refine Agree.ite (fun _ => Agree.same _) fun _ => ?_
      refine Agree.ite (fun _ => .error rfl rfl) fun _ => ?_
      refine (h.superclassOf id).next fun parent => ?_
      -- whether or not there was a superclass to visit, the interfaces come next
      have hrest : ∀ f, Agree Eq
          (do let is ← env.interfacesOf id
              let f ← is.foldlM (fun f i => env.visitSupertypes n (id :: path) f i) f
              pure (id :: f))
          (do let is ← env'.interfacesOf id
              let f ← is.foldlM (fun f i => env'.visitSupertypes n (id :: path) f i) f
              pure (id :: f)) := fun f =>
        (h.interfacesOf id).next fun is =>
          (foldlM_agree (fun f i => ih (id :: path) f i) is f).next fun f => Agree.same _
      cases parent with
      | none => exact hrest finished
      | some p => exact (ih (id :: path) finished p).next fun f => hrest f

theorem expandInterfaces (rounds : Nat) (done pending : List ClassId) :
    Agree Eq (env.expandInterfaces rounds done pending)
      (env'.expandInterfaces rounds done pending) := by
  induction rounds generalizing done pending with
  | zero => cases pending <;> exact Agree.same _
  | succ rounds ih =>
      cases pending with
      | nil => exact Agree.same _
      | cons c rest =>
          rw [Env.expandInterfaces, Env.expandInterfaces]
          exact (h.interfacesOf c).next fun is => ih _ _

theorem supertypeClosure (start : ClassId) :
    Agree Eq (env.supertypeClosure start) (env'.supertypeClosure start) := by
  unfold Env.supertypeClosure Env.reachableSupertypes
  rw [h.depthLimit]
  refine (h.visitSupertypes env.depthLimit [] [] start).next fun reachable => ?_
  exact (h.completeChain start).next fun chain => h.expandInterfaces _ _ _

theorem enclosingFrom (n : Nat) (seen : List ClassId) (outer : Option ClassId) :
    Agree Eq (env.enclosingFrom n seen outer) (env'.enclosingFrom n seen outer) := by
  induction n generalizing seen outer with
  | zero =>
      cases outer with
      | none => exact Agree.same []
      | some id => exact .error rfl rfl
  | succ n ih =>
      cases outer with
      | none => exact Agree.same []
      | some id =>
          rw [Env.enclosingFrom, Env.enclosingFrom]
          refine Agree.ite (fun _ => .error rfl rfl) fun _ => (h.classDef id).bind ?_
          rintro c _ ⟨methods, -, rfl⟩
          exact (ih (id :: seen) c.outer).next fun rest => Agree.same _

theorem isEnclosed (inner outer : ClassId) :
    Agree Eq (env.isEnclosed inner outer) (env'.isEnclosed inner outer) := by
  unfold Env.isEnclosed Env.enclosingClasses
  rw [h.depthLimit]
  refine Agree.next ((h.classDef inner).bind ?_) fun around => Agree.same _
  rintro c _ ⟨methods, -, rfl⟩
  exact h.enclosingFrom _ _ _

/-! ## Descent and conversion -/

omit h in
theorem anyReaches {ancestor : Ty} {f g : Ty → List Ty → Except TypeError (Bool × List Ty)}
    (hfg : ∀ t met, Agree Eq (f t met) (g t met)) (ts met : List Ty) :
    Agree Eq (Env.anyReaches ancestor f ts met) (Env.anyReaches ancestor g ts met) := by
  induction ts generalizing met with
  | nil => exact Agree.same _
  | cons t ts ih =>
      rw [Env.anyReaches, Env.anyReaches]
      refine Agree.ite (fun _ => Agree.same _) fun _ => (hfg t met).next fun r => ?_
      obtain ⟨found, met⟩ := r
      exact Agree.ite (fun _ => Agree.same _) fun _ => ih met

theorem search (ancestor : Ty) (n : Nat) (child : Ty) (met : List Ty) :
    Agree Eq (env.search ancestor n child met) (env'.search ancestor n child met) := by
  induction n generalizing child met with
  | zero =>
      rw [Env.search.eq_def, Env.search.eq_def]
      refine Agree.ite (fun _ => Agree.same _) fun _ => ?_
      exact Agree.ite (fun _ => Agree.same _) fun _ => Agree.same _
  | succ n ih =>
      have hup : ∀ ts met, Agree Eq (Env.anyReaches ancestor (env.search ancestor n) ts met)
          (Env.anyReaches ancestor (env'.search ancestor n) ts met) := Reordered.anyReaches ih
      rw [Env.search.eq_def, Env.search.eq_def]
      refine Agree.ite (fun _ => Agree.same _) fun _ => ?_
      refine Agree.ite (fun _ => Agree.same _) fun _ => ?_
      cases child with
      | array element =>
          dsimp only
          rw [h.arraySupertypes]
          exact Agree.same _
      | var v => exact (h.boundOf v).next fun bound => hup _ _
      | cls id =>
          dsimp only
          rw [h.objectType, h.wellKnown]
          refine (h.classDef id).bind ?_
          rintro c _ ⟨methods, -, rfl⟩
          refine Agree.ite (fun _ => ?_) fun _ => ?_
          · refine Agree.ite (fun _ => Agree.same _) fun _ => ?_
            exact (h.interfacesOf id).next fun is => hup _ _
          · refine Agree.ite (fun _ => Agree.same _) fun _ => ?_
            refine (h.superclassOf id).next fun parent => (hup _ _).next fun r => ?_
            obtain ⟨found, met⟩ := r
            refine Agree.ite (fun _ => Agree.same _) fun _ => ?_
            exact (h.interfacesOf id).next fun is => hup _ _
      | _ => exact Agree.same _

theorem descends (child ancestor : Ty) :
    Agree Eq (env.descends child ancestor) (env'.descends child ancestor) := by
  unfold Env.descends
  rw [h.depthLimit]
  refine (ensureCanonical_agree child).next fun _ => ?_
  refine (ensureCanonical_agree ancestor).next fun _ => ?_
  exact (h.search ancestor (env.depthLimit + 1) child []).next fun r => Agree.same _

/-- Without recursion, only references are compared by asking the environment. -/
theorem assignableCanonical_flat {a b : Ty} (harrays : ∀ t u, a = .array t → b ≠ .array u) :
    Agree Eq (env.assignableCanonical a b) (env'.assignableCanonical a b) := by
  rcases assignableCanonical_cases harrays with ⟨found, hfound⟩ | hdescends
  · rw [hfound, hfound]
    exact Agree.same _
  · rw [hdescends, hdescends]
    exact h.descends a b

theorem assignableCanonical (a b : Ty) :
    Agree Eq (env.assignableCanonical a b) (env'.assignableCanonical a b) := by
  induction a generalizing b with
  | array t ih =>
      cases b with
      | array u =>
          by_cases hne : t = u
          · rw [hne, assignableCanonical_self, assignableCanonical_self]
            exact Agree.same _
          · rw [assignableCanonical_arrays hne, assignableCanonical_arrays hne]
            exact Agree.ite (fun _ => Agree.same _) fun _ => ih u
      | _ => exact h.assignableCanonical_flat (by simp)
  | _ => exact h.assignableCanonical_flat (by simp)

theorem converts (source target : Ty) :
    Agree Eq (env.converts source target) (env'.converts source target) := by
  rw [converts_eq_assignable, converts_eq_assignable]
  exact (ensureCanonical_agree source).next fun _ => (ensureCanonical_agree target).next fun _ =>
    h.assignableCanonical source target

/-! ## Bounds and erasures -/

theorem boundFrom (whole : Ty) (n : Nat) (t : Ty) :
    Agree Eq (env.boundFrom whole n t) (env'.boundFrom whole n t) := by
  induction n generalizing t with
  | zero =>
      cases t with
      | var v => exact .error rfl rfl
      | _ => exact Agree.same _
  | succ n ih =>
      cases t with
      | var v =>
          rw [Env.boundFrom, Env.boundFrom]
          exact (h.boundOf v).next fun bound => ih bound
      | _ => exact Agree.same _

theorem upperBound (t : Ty) : Agree Eq (env.upperBound t) (env'.upperBound t) := by
  unfold Env.upperBound
  rw [h.depthLimit]
  exact h.boundFrom t env.depthLimit t

theorem eraseWithin (n : Nat) (t : Ty) :
    Agree Eq (env.eraseWithin n t) (env'.eraseWithin n t) := by
  induction n generalizing t with
  | zero =>
      rw [Env.eraseWithin.eq_def, Env.eraseWithin.eq_def]
      refine bindVar_agree (fun v => ?_) t
      exact (h.upperBound (.var v)).next fun bound => .error rfl rfl
  | succ n ih =>
      rw [Env.eraseWithin.eq_def, Env.eraseWithin.eq_def]
      refine bindVar_agree (fun v => ?_) t
      exact (h.upperBound (.var v)).next fun bound => ih bound

theorem erasureEntries (vs : List TypeVarId) :
    Agree Eq (env.erasureEntries vs) (env'.erasureEntries vs) := by
  induction vs with
  | nil => exact Agree.same []
  | cons v vs ih =>
      rw [Env.erasureEntries, Env.erasureEntries]
      unfold Env.erase
      rw [h.varCount]
      exact (h.eraseWithin env.varCount (.var v)).next fun erased =>
        ih.next fun others => Agree.same _

theorem erasureSubst (vs : List TypeVarId) :
    Agree Eq (env.erasureSubst vs) (env'.erasureSubst vs) :=
  (h.erasureEntries vs).next fun _ => Agree.same _

/-- Asked from the same cache, a class has the same erasure in both environments. -/
theorem classErasure (cache : ErasureCache) (id : ClassId) :
    Agree Eq (cache.classErasure env id).1 (cache.classErasure env' id).1 := by
  rw [classErasure_fst, classErasure_fst]
  cases cache.get? id with
  | some subst => exact Agree.same subst
  | none =>
      refine (h.classDef id).bind ?_
      rintro c _ ⟨methods, -, rfl⟩
      exact h.erasureSubst c.typeParams

/-! ## Access -/

theorem isOpenTo (id : ClassId) (flags : Flags) (current : ClassId) :
    Agree Eq (env.isOpenTo id flags current) (env'.isOpenTo id flags current) := by
  -- names of classes decide about packages
  have hpackage : Agree Eq (env.samePackage id current) (env'.samePackage id current) := by
    refine (h.classDef id).bind ?_
    rintro a _ ⟨methods, -, rfl⟩
    refine (h.classDef current).bind ?_
    rintro b _ ⟨methods', -, rfl⟩
    exact Agree.same _
  have hprotected : Agree Eq
      (if flags.isProtected then env.descends (.cls current) (.cls id) else pure false)
      (if flags.isProtected then env'.descends (.cls current) (.cls id) else pure false) :=
    Agree.ite (fun _ => h.descends _ _) fun _ => Agree.same false
  refine Agree.ite (fun _ => hpackage.next fun inPackage => ?_) fun _ => hprotected
  exact Agree.ite (fun _ => Agree.same true) fun _ => hprotected

theorem isAccessible (target : Ty) (flags : Flags) (ctx : AccessContext) :
    Agree Eq (env.isAccessible target flags ctx) (env'.isAccessible target flags ctx) := by
  refine (ensureCanonical_agree target).next fun _ => ?_
  refine Agree.ite (fun _ => Agree.same true) fun _ => ?_
  cases target with
  | cls id =>
      refine Agree.ite (fun _ => Agree.same true) fun _ => ?_
      refine (h.isEnclosed id ctx.current).next fun enclosed => ?_
      exact Agree.ite (fun _ => Agree.same true) fun _ => h.isOpenTo id flags ctx.current
  | _ => exact Agree.same false

/-! ## Calls -/

theorem argsConvert (args params : List Ty) :
    Agree Eq (env.argsConvert args params) (env'.argsConvert args params) := by
  induction args generalizing params with
  | nil => cases params <;> exact Agree.same _
  | cons arg args ih =>
      cases params with
      | nil => exact Agree.same false
      | cons param params =>
          refine (h.converts arg param).next fun fits => ?_
          exact Agree.ite (fun _ => ih params) fun _ => Agree.same false

theorem allConvert (element : Ty) (args : List Ty) :
    Agree Eq (env.allConvert element args) (env'.allConvert element args) := by
  induction args with
  | nil => exact Agree.same true
  | cons arg args ih =>
      refine (h.converts arg element).next fun fits => ?_
      exact Agree.ite (fun _ => ih) fun _ => Agree.same false

theorem tailConverts (element : Ty) (args : List Ty) :
    Agree Eq (env.tailConverts element args) (env'.tailConverts element args) := by
  unfold Env.tailConverts
  split
  · refine (h.converts _ element).next fun fits => ?_
    exact Agree.ite (fun _ => Agree.same true) fun _ => h.converts _ _
  · exact h.allConvert element _

theorem varargsConvert (element : Ty) (params args : List Ty) :
    Agree Eq (env.varargsConvert element params args)
      (env'.varargsConvert element params args) := by
  induction params generalizing args with
  | nil => exact h.tailConverts element args
  | cons param params ih =>
      cases args with
      | nil => exact Agree.same false
      | cons arg args =>
          refine (h.converts arg param).next fun fits => ?_
          exact Agree.ite (fun _ => ih args) fun _ => Agree.same false

theorem callFits (m : Method) (args : List Ty) :
    Agree Eq (env.callFits m args) (env'.callFits m args) := by
  unfold Env.callFits
  refine Agree.ite (fun _ => ?_) fun _ => ?_
  · split
    · exact Agree.ite (fun _ => Agree.same false) fun _ => h.varargsConvert _ _ _
    · exact .error rfl rfl
  · exact Agree.ite (fun _ => Agree.same false) fun _ => h.argsConvert _ _

/-- Whether a class is generic is a matter of its type parameters. -/
theorem isGenericMember (m : Method) :
    CallRule.isGenericMember env' m = CallRule.isGenericMember env m := by
  unfold CallRule.isGenericMember
  have hdef := h.classDef? m.container
  generalize env.classDef? m.container = c, env'.classDef? m.container = c' at hdef
  cases hdef with
  | none => rfl
  | some hc =>
      obtain ⟨methods, -, rfl⟩ := hc
      rfl

/-- The rule for generic methods, told the erasures that one cache gives in the one environment
and in the other. -/
theorem genericBy (cache : ErasureCache) (m : Method) (args : List Ty) :
    Agree Eq (answer (Proofs.genericBy env (fun id => (cache.classErasure env id).1) m args))
      (answer (Proofs.genericBy env' (fun id => (cache.classErasure env' id).1) m args)) := by
  -- the erased method is made from type parameters, which are the same
  have herased : Agree Eq (answer (erasedBy env (fun id => (cache.classErasure env id).1) m))
      (answer (erasedBy env' (fun id => (cache.classErasure env' id).1) m)) := by
    unfold erasedBy
    simp only [answer_bind, answer_ofExcept, answer_ite, answer_pure]
    refine (h.classErasure cache m.container).next fun ofClass => ?_
    refine Agree.ite (fun _ => Agree.same _) fun _ => ?_
    exact (h.erasureSubst m.typeParams).next fun ofMethod => Agree.same _
  unfold Proofs.genericBy
  simp only [answer_bind, answer_ofExcept, answer_ite, answer_pure]
  rw [h.isGenericMember m]
  refine (h.callFits m args).next fun fits => Agree.ite (fun _ => Agree.same true) fun _ => ?_
  refine Agree.ite (fun _ => ?_) fun _ => Agree.same false
  exact herased.next fun erased => h.callFits erased args

/-! ## Searched classes -/

theorem receiverClass (t : Ty) (what : String) :
    Agree Eq (env.receiverClass t what) (env'.receiverClass t what) := by
  refine (ensureCanonical_agree t).next fun _ => ?_
  cases t with
  | cls id => exact Agree.same id
  | array element =>
      dsimp only
      rw [h.wellKnown]
      exact Agree.same _
  | var v =>
      dsimp only
      rw [h.wellKnown]
      refine (h.upperBound (.var v)).next fun bound => ?_
      -- a bound that is no class stands for the top class
      cases bound <;> exact Agree.same _
  | _ => exact .error rfl rfl

theorem searchedClasses (receiver : Ty) :
    Agree Eq (Proofs.searchedClasses env receiver) (Proofs.searchedClasses env' receiver) := by
  refine (h.receiverClass receiver "method").next fun start => ?_
  unfold Env.methodClasses
  rw [h.wellKnown]
  refine (h.supertypeClosure start).next fun classes => ?_
  exact Agree.ite (fun _ => Agree.same _) fun _ => Agree.same _

end Reordered

end Lineage.Proofs
