import Lineage.Member.Resolution
import Lineage.Proofs.Closure
import Lineage.Proofs.Descent
import Lineage.Proofs.Failures

/-!
# The nearest declaration of a field decides

A field is looked up along the superclass links, and the first class with a field of that
name settles the matter, even if its field may not be used. The walk up that the look-up
follows is guarded: it ends with an error at a link that does not resolve, at a class
that it has met before and at the depth limit. All this lies ahead of the look-up and
must not be noticed before it gets there.

`Leads` is a stretch of the way up, with the classes on it. As long as they are different
and not too many, the walk begins with them, whatever comes after (`chainFrom_begins`), so
a declaration at the end of the stretch is found, and nothing above it matters.

If there is no declaration on the whole way up, the outcome is that of the walk: it comes
to its end, or it is given up, or a link cannot be followed (`fieldAlong_undeclared`).
-/

namespace Lineage.Proofs

open Store Relation

/-- Superclass links lead from `c` to `k`, and `passed` are the classes before `k`. -/
inductive Leads (env : Env) : ClassId → List ClassId → ClassId → Prop where
  | here (c : ClassId) : Leads env c [] c
  | up {c parent k : ClassId} {passed : List ClassId} : HasSuperclass env c parent →
      Leads env parent passed k → Leads env c (c :: passed) k

/-- The classes are different from each other and from those seen before. -/
def Fresh (seen classes : List ClassId) : Prop := classes.Nodup ∧ ∀ x ∈ classes, x ∉ seen

theorem fresh_cons_iff {seen classes : List ClassId} {c : ClassId} :
    Fresh seen (c :: classes) ↔ c ∉ seen ∧ Fresh (c :: seen) classes := by
  unfold Fresh
  rw [List.nodup_cons, List.forall_mem_cons]
  constructor
  · rintro ⟨⟨hc, hnodup⟩, hseen, hrest⟩
    refine ⟨hseen, hnodup, fun x hx hmem => ?_⟩
    -- to be different from `c` is to be fresh where `c` is seen
    rcases List.mem_cons.mp hmem with rfl | hmem
    · exact hc hx
    · exact hrest x hx hmem
  · rintro ⟨hseen, hnodup, hrest⟩
    exact ⟨⟨fun hc => hrest c hc List.mem_cons_self, hnodup⟩, hseen,
      fun x hx hmem => hrest x hx (List.mem_cons_of_mem c hmem)⟩

theorem fresh_nil_iff {classes : List ClassId} : Fresh [] classes ↔ classes.Nodup := by
  simp [Fresh]

section Walk

variable {env : Env}

theorem Leads.reached {c k : ClassId} {passed : List ClassId} (h : Leads env c passed k) :
    ReflTransGen (HasSuperclass env) c k := by
  induction h with
  | here c => exact ReflTransGen.refl
  | up hp _ ih => exact ReflTransGen.head hp ih

/-- A class that is passed has a superclass, so it is defined. -/
theorem Leads.defined {c k : ClassId} {passed : List ClassId} (h : Leads env c passed k) :
    ∀ x ∈ passed, ∃ d, env.classDef? x = some d := by
  induction h with
  | here c => simp
  | up hp _ ih =>
      obtain ⟨d, hd, -⟩ := superclassOf_eq_ok_iff.mp hp
      exact List.forall_mem_cons.mpr ⟨⟨d, hd⟩, ih⟩

/-- **The walk begins with every stretch for which it has room**, and comes to its end if the way up
does. -/
theorem chainFrom_begins {n : Nat} {seen passed : List ClassId} {c k : ClassId}
    (h : Leads env c passed k) (hfresh : Fresh seen (passed ++ [k])) (hroom : passed.length < n) :
    (∃ more, (env.chainFrom n seen c).classes = passed ++ k :: more) ∧
      (env.superclassOf k = .ok none → (env.chainFrom n seen c).failure = none) := by
  induction h generalizing n seen with
  | here c =>
      obtain ⟨hc, -⟩ := fresh_cons_iff.mp hfresh
      cases n with
      | zero => cases hroom
      | succ n =>
          -- the class is met, whatever its own link comes to
          rw [Env.chainFrom, if_neg hc]
          rcases env.superclassOf c with e | (_ | p)
          · exact ⟨⟨[], rfl⟩, by simp⟩
          · exact ⟨⟨[], rfl⟩, fun _ => rfl⟩
          · exact ⟨⟨_, rfl⟩, by simp⟩
  | @up c parent k passed hp _ ih =>
      obtain ⟨hc, hrest⟩ := fresh_cons_iff.mp hfresh
      cases n with
      | zero => cases hroom
      | succ n =>
          obtain ⟨⟨more, hmore⟩, hends⟩ := ih hrest (Nat.lt_of_succ_lt_succ hroom)
          rw [Env.chainFrom, if_neg hc, hp]
          exact ⟨⟨more, congrArg (c :: ·) hmore⟩, hends⟩

/-- A walk that comes to its end has gone all the way up. -/
theorem leads_of_chainFrom {n : Nat} {seen : List ClassId} {c : ClassId}
    (h : (env.chainFrom n seen c).failure = none) :
    ∃ passed top, Leads env c passed top ∧ Fresh seen (passed ++ [top]) ∧ passed.length < n ∧
      env.superclassOf top = .ok none := by
  induction n generalizing seen c with
  | zero => cases h
  | succ n ih =>
      rw [Env.chainFrom] at h
      split at h
      · cases h
      · rename_i hc
        cases hsup : env.superclassOf c with
        | error e =>
            rw [hsup] at h
            cases h
        | ok parent =>
            rw [hsup] at h
            cases parent with
            | none =>
                refine ⟨[], c, .here c, fresh_cons_iff.mpr ⟨hc, ?_⟩, Nat.succ_pos n, hsup⟩
                simp [Fresh]
            | some p =>
                obtain ⟨passed, top, hleads, hfresh, hroom, htop⟩ := ih h
                exact ⟨c :: passed, top, .up hsup hleads, fresh_cons_iff.mpr ⟨hc, hfresh⟩,
                  Nat.succ_lt_succ hroom, htop⟩

/-- **The walk is given up** at a class met before and at the depth limit. -/
theorem chainFrom_gives_up {n : Nat} {seen passed : List ClassId} {c k : ClassId}
    (h : Leads env c passed k) (hstuck : ¬ (Fresh seen (passed ++ [k]) ∧ passed.length < n)) :
    ∃ x, (env.chainFrom n seen c).failure = some (env.cyclic x) := by
  induction h generalizing n seen with
  | here c =>
      cases n with
      | zero => exact ⟨c, rfl⟩
      | succ n =>
          -- there is room and the way is this one class, so it is stuck because it was seen
          have hc : c ∈ seen := by
            by_contra hc
            refine hstuck ⟨fresh_cons_iff.mpr ⟨hc, ?_⟩, Nat.succ_pos n⟩
            simp [Fresh]
          rw [Env.chainFrom, if_pos hc]
          exact ⟨c, rfl⟩
  | @up c parent k passed hp _ ih =>
      cases n with
      | zero => exact ⟨c, rfl⟩
      | succ n =>
          rw [Env.chainFrom]
          by_cases hc : c ∈ seen
          · rw [if_pos hc]
            exact ⟨c, rfl⟩
          · rw [if_neg hc, hp]
            -- this class fits, so what does not is the rest of the way
            refine ih fun hfits => hstuck ⟨fresh_cons_iff.mpr ⟨hc, hfits.1⟩, ?_⟩
            exact Nat.succ_lt_succ hfits.2

/-- A walk fails where it is given up or where a superclass cannot be told. -/
theorem chainFrom_eq_failure {n : Nat} {seen : List ClassId} {c : ClassId} {e : TypeError}
    (h : (env.chainFrom n seen c).failure = some e) :
    (∃ x, e = env.cyclic x) ∨ ∃ x, env.superclassOf x = .error e := by
  induction n generalizing seen c with
  | zero =>
      cases h
      exact .inl ⟨c, rfl⟩
  | succ n ih =>
      rw [Env.chainFrom] at h
      split at h
      · cases h
        exact .inl ⟨c, rfl⟩
      · cases hsup : env.superclassOf c with
        | error e' =>
            rw [hsup] at h
            cases h
            exact .inr ⟨c, hsup⟩
        | ok parent =>
            rw [hsup] at h
            cases parent with
            | none => cases h
            | some p => exact ih h

theorem classDef_undefined {x : ClassId} (h : env.classDef? x = none) :
    env.classDef x = .error (.unresolvedClass (env.displayName x)) := by
  unfold Env.classDef
  rw [h]
  rfl

theorem superclassOf_undefined {x : ClassId} (h : env.classDef? x = none) :
    env.superclassOf x = .error (.unresolvedClass (env.displayName x)) := by
  rw [Env.superclassOf, classDef_undefined h, error_bind]

/-- That a superclass cannot be told is never mistaken for a missing field. -/
theorem superclassOf_ne_fieldNotFound {x : ClassId} {name container : String} :
    env.superclassOf x ≠ .error (.fieldNotFound name container) := by
  intro h
  rcases superclassOf_failsAs env x _ h with hkind | hkind <;> cases hkind

end Walk

/-! ## Declarations -/

/-- The class declares `f`, as its first field of that name. -/
def FirstField (d : ClassDef) (name : String) (f : Field) : Prop :=
  ∃ before after, d.fields = before ++ f :: after ∧ f.name = name ∧ ∀ g ∈ before, g.name ≠ name

/-- The class has no field of that name. -/
def NoField (d : ClassDef) (name : String) : Prop := ∀ g ∈ d.fields, g.name ≠ name

theorem field?_eq_some_iff {d : ClassDef} {name : String} {f : Field} :
    d.field? name = some f ↔ FirstField d name f := by
  unfold ClassDef.field? FirstField
  rw [List.find?_eq_some_iff_append]
  simp only [beq_iff_eq, Bool.not_eq_true', beq_eq_false_iff_ne]
  constructor
  · rintro ⟨hf, before, after, hfields, hbefore⟩
    exact ⟨before, after, hfields, hf, hbefore⟩
  · rintro ⟨before, after, hfields, hf, hbefore⟩
    exact ⟨hf, before, after, hfields, hbefore⟩

theorem field?_eq_none_iff {d : ClassDef} {name : String} :
    d.field? name = none ↔ NoField d name := by
  unfold ClassDef.field? NoField
  rw [List.find?_eq_none]
  simp

section Lookup

variable {env : Env} {name : String} {ctx : AccessContext} {fallback : Except TypeError Field}

/-- A class without such a field is passed over. -/
theorem fieldAlong_cons {x : ClassId} {d : ClassDef} (hd : env.classDef? x = some d)
    (hno : NoField d name) (rest : List ClassId) :
    env.fieldAlong name ctx fallback (x :: rest) = env.fieldAlong name ctx fallback rest := by
  rw [Env.fieldAlong, classDef_eq_ok_iff.mpr hd, ok_bind, field?_eq_none_iff.mpr hno]

theorem fieldAlong_append {passed : List ClassId}
    (h : ∀ x ∈ passed, ∃ d, env.classDef? x = some d ∧ NoField d name) (rest : List ClassId) :
    env.fieldAlong name ctx fallback (passed ++ rest) =
      env.fieldAlong name ctx fallback rest := by
  induction passed with
  | nil => rfl
  | cons x passed ih =>
      rw [List.forall_mem_cons] at h
      obtain ⟨⟨d, hd, hno⟩, hrest⟩ := h
      rw [List.cons_append, fieldAlong_cons hd hno, ih hrest]

/-- What a declaration comes to: the field, if it may be used, or an error that names its class. -/
def decision (env : Env) (k : ClassId) (d : ClassDef) (f : Field) (name : String)
    (ctx : AccessContext) : Except TypeError Field :=
  match env.isAccessible (.cls k) f.flags ctx with
  | .ok true => .ok f
  | .ok false => .error (.inaccessibleField name d.name)
  | .error e => .error e

/-- A class with such a field decides, whatever comes after it. -/
theorem fieldAlong_declared {k : ClassId} {d : ClassDef} {f : Field}
    (hd : env.classDef? k = some d) (hf : FirstField d name f) (rest : List ClassId) :
    env.fieldAlong name ctx fallback (k :: rest) = decision env k d f name ctx := by
  rw [Env.fieldAlong, classDef_eq_ok_iff.mpr hd, ok_bind, field?_eq_some_iff.mpr hf, decision]
  dsimp only
  rcases env.isAccessible (.cls k) f.flags ctx with e | (_ | _) <;> rfl

/-- No class on the way up from `c` has a field of that name. -/
def Undeclared (env : Env) (c : ClassId) (name : String) : Prop :=
  ∀ x d, ReflTransGen (HasSuperclass env) c x → env.classDef? x = some d → NoField d name

/-- **Without a declaration, the outcome is that of the walk.** A class that is not defined can only
stand at its end, and is why it failed. -/
theorem fieldAlong_undeclared {n : Nat} {seen : List ClassId} {c : ClassId}
    (h : Undeclared env c name)
    (hfail : ∀ e, (env.chainFrom n seen c).failure = some e → fallback = .error e) :
    env.fieldAlong name ctx fallback (env.chainFrom n seen c).classes = fallback := by
  induction n generalizing seen c with
  | zero => rfl
  | succ n ih =>
      rw [Env.chainFrom] at hfail ⊢
      by_cases hc : c ∈ seen
      · rw [if_pos hc]
        rfl
      · rw [if_neg hc] at hfail ⊢
        cases hsup : env.superclassOf c with
        | error e =>
            -- the walk ends here, and if that is because `c` is not defined, so does the look-up
            rw [hsup] at hfail
            show env.fieldAlong name ctx fallback [c] = fallback
            cases hdef : env.classDef? c with
            | none =>
                rw [superclassOf_undefined hdef] at hsup
                cases hsup
                rw [Env.fieldAlong, classDef_undefined hdef, error_bind, hfail _ rfl]
            | some d => exact fieldAlong_cons hdef (h c d ReflTransGen.refl hdef) []
        | ok parent =>
            obtain ⟨d, hd, -⟩ := superclassOf_eq_ok_iff.mp hsup
            have hno := h c d ReflTransGen.refl hd
            rw [hsup] at hfail
            cases parent with
            | none => exact fieldAlong_cons hd hno []
            | some p =>
                -- the way up from the superclass is part of the way up from here
                have hrest : Undeclared env p name :=
                  fun x e hx he => h x e (ReflTransGen.head hsup hx) he
                show env.fieldAlong name ctx fallback
                  (c :: (env.chainFrom n (c :: seen) p).classes) = fallback
                rw [fieldAlong_cons hd hno]
                exact ih hrest hfail

end Lookup

/-! ## The look-up -/

/-- The nearest declaration on the way up from `c`: the classes in `passed` have no field of that
name, and the next one, `k`, has. All of them are different, and the depth limit admits them. -/
structure Nearest (env : Env) (c : ClassId) (name : String) (passed : List ClassId) (k : ClassId)
    (d : ClassDef) (f : Field) : Prop where
  leads : Leads env c passed k
  distinct : (passed ++ [k]).Nodup
  within : passed.length < env.depthLimit
  passedOver : ∀ x ∈ passed, ∀ e, env.classDef? x = some e → NoField e name
  defined : env.classDef? k = some d
  declares : FirstField d name f

/-- The two environments have the same fields in all classes up to `k`, and the same superclasses
below `k`. Nothing is said about the links of `k`, about other classes and about interfaces. -/
structure SameBelow (env env' : Env) (passed : List ClassId) (k : ClassId) : Prop where
  depthLimit : env'.depthLimit = env.depthLimit
  superclasses : ∀ x ∈ passed, env'.superclassOf x = env.superclassOf x
  fieldsBelow : ∀ x ∈ passed, ∀ d, env.classDef? x = some d →
    ∃ d', env'.classDef? x = some d' ∧ d'.fields = d.fields
  upTo : ∀ d, env.classDef? k = some d →
    ∃ d', env'.classDef? k = some d' ∧ d'.name = d.name ∧ d'.fields = d.fields

/-- The way up from `c` comes to its end within the depth limit, and all its classes are
different. -/
def EndsWithin (env : Env) (c : ClassId) : Prop :=
  ∃ passed top, Leads env c passed top ∧ (passed ++ [top]).Nodup ∧
    passed.length < env.depthLimit ∧ env.superclassOf top = .ok none

section Nearest

variable {env env' : Env} {c k : ClassId} {name : String} {passed : List ClassId} {d : ClassDef}
  {f : Field} {ctx : AccessContext}

theorem getField_eq (env : Env) (c : ClassId) (name : String) (ctx : AccessContext) :
    env.getField (.cls c) name ctx =
      env.fieldAlong name ctx
        (match (env.superclassChain c).failure with
          | some e => .error e
          | none => .error (.fieldNotFound name (env.renderType (.cls c))))
        (env.superclassChain c).classes := rfl

/-- **The nearest declaration decides.** -/
theorem Nearest.getField (h : Nearest env c name passed k d f) :
    env.getField (.cls c) name ctx = decision env k d f name ctx := by
  obtain ⟨more, hmore⟩ := (chainFrom_begins h.leads (fresh_nil_iff.mpr h.distinct) h.within).1
  -- the classes passed are defined, because a link leads on from them
  have hpassed : ∀ x ∈ passed, ∃ e, env.classDef? x = some e ∧ NoField e name := by
    intro x hx
    obtain ⟨e, he⟩ := h.leads.defined x hx
    exact ⟨e, he, h.passedOver x hx e he⟩
  rw [getField_eq, Env.superclassChain, hmore, fieldAlong_append hpassed,
    fieldAlong_declared h.defined h.declares]

theorem Leads.transfer (h : Leads env c passed k)
    (hlinks : ∀ x ∈ passed, env'.superclassOf x = env.superclassOf x) :
    Leads env' c passed k := by
  induction h with
  | here c => exact .here c
  | up hp _ ih =>
      rw [List.forall_mem_cons] at hlinks
      exact .up (hlinks.1.trans hp) (ih hlinks.2)

/-- It is still the nearest one if nothing has changed below. -/
theorem Nearest.sameBelow (h : Nearest env c name passed k d f)
    (hsame : SameBelow env env' passed k) :
    ∃ d', Nearest env' c name passed k d' f ∧ d'.name = d.name := by
  obtain ⟨d', hd', hname, hfields⟩ := hsame.upTo d h.defined
  refine ⟨d', ⟨h.leads.transfer hsame.superclasses, h.distinct, ?_, ?_, hd', ?_⟩, hname⟩
  · rw [hsame.depthLimit]
    exact h.within
  · -- the passed classes have the same fields, so none of that name here either
    intro x hx e' he'
    obtain ⟨e, he⟩ := h.leads.defined x hx
    obtain ⟨e₂, he₂, hfields⟩ := hsame.fieldsBelow x hx e he
    rw [he'] at he₂
    cases he₂
    unfold NoField
    rw [hfields]
    exact h.passedOver x hx e he
  · unfold FirstField
    rw [hfields]
    exact h.declares

theorem getField_undeclared (h : Undeclared env c name) :
    env.getField (.cls c) name ctx =
      match (env.superclassChain c).failure with
      | some e => .error e
      | none => .error (.fieldNotFound name (env.renderType (.cls c))) := by
  rw [getField_eq]
  refine fieldAlong_undeclared h fun e he => ?_
  rw [Env.superclassChain, he]

theorem endsWithin_iff : EndsWithin env c ↔ (env.superclassChain c).failure = none := by
  constructor
  · rintro ⟨passed, top, hleads, hdistinct, hwithin, htop⟩
    exact (chainFrom_begins hleads (fresh_nil_iff.mpr hdistinct) hwithin).2 htop
  · intro h
    obtain ⟨passed, top, hleads, hfresh, hwithin, htop⟩ := leads_of_chainFrom h
    exact ⟨passed, top, hleads, fresh_nil_iff.mp hfresh, hwithin, htop⟩

/-- A field is not found exactly where the whole way up has been searched. -/
theorem getField_eq_notFound_iff (h : Undeclared env c name) :
    (∃ n t, env.getField (.cls c) name ctx = .error (.fieldNotFound n t)) ↔ EndsWithin env c := by
  rw [endsWithin_iff, getField_undeclared h]
  cases hfail : (env.superclassChain c).failure with
  | none => simp
  | some e =>
      -- the failure of a walk is never that a field is missing
      refine iff_of_false ?_ (by simp)
      rintro ⟨n, t, heq⟩
      cases heq
      rcases chainFrom_eq_failure hfail with ⟨x, hx⟩ | ⟨x, hx⟩
      · cases hx
      · exact superclassOf_ne_fieldNotFound hx

theorem getField_gives_up (h : Undeclared env c name) (hleads : Leads env c passed k)
    (hstuck : ¬ (passed ++ [k]).Nodup ∨ env.depthLimit < (passed ++ [k]).length) :
    ∃ x, env.getField (.cls c) name ctx = .error (.cyclicInheritance (env.displayName x)) := by
  have hnot : ¬ (Fresh [] (passed ++ [k]) ∧ passed.length < env.depthLimit) := by
    rintro ⟨hfresh, hroom⟩
    rcases hstuck with hrepeat | hlong
    · exact hrepeat (fresh_nil_iff.mp hfresh)
    · rw [List.length_append, List.length_singleton] at hlong
      omega
  obtain ⟨x, hx⟩ := chainFrom_gives_up hleads hnot
  refine ⟨x, ?_⟩
  rw [getField_undeclared h, Env.superclassChain, hx]
  rfl

end Nearest

/--
**The nearest declaration of a field decides, and nothing above it matters**, in every
environment. The look-up gives the first field of that name of the nearest class that has
one, if it may be used; an error that names this class if it may not; and the error if
that question fails. In another environment that has the same fields and links below and
gives the same answer to that question, the outcome is the same.

If no class on the way up has such a field, it is reported as not found exactly if the way
up comes to its end within the depth limit. If it comes to a class for the second time or
has more classes than the limit, inheritance is reported as cyclic.
-/
theorem getField_nearest_decides (env : Env) (c : ClassId) (name : String)
    (ctx : AccessContext) :
    (∀ passed k d f, Nearest env c name passed k d f →
      env.getField (.cls c) name ctx = decision env k d f name ctx ∧
      ∀ env', SameBelow env env' passed k →
        env'.isAccessible (.cls k) f.flags ctx = env.isAccessible (.cls k) f.flags ctx →
        env'.getField (.cls c) name ctx = env.getField (.cls c) name ctx) ∧
    (Undeclared env c name →
      ((∃ n t, env.getField (.cls c) name ctx = .error (.fieldNotFound n t)) ↔
        EndsWithin env c) ∧
      (EndsWithin env c → env.getField (.cls c) name ctx =
        .error (.fieldNotFound name (env.renderType (.cls c)))) ∧
      ∀ passed k, Leads env c passed k →
        ¬ (passed ++ [k]).Nodup ∨ env.depthLimit < (passed ++ [k]).length →
        ∃ x, env.getField (.cls c) name ctx =
          .error (.cyclicInheritance (env.displayName x))) := by
  constructor
  · intro passed k d f h
    refine ⟨h.getField, fun env' hsame haccess => ?_⟩
    -- the same declaration is nearest in both, and the two classes have one name
    obtain ⟨d', h', hname⟩ := h.sameBelow hsame
    rw [h.getField, h'.getField, decision, decision, haccess, hname]
  · intro h
    refine ⟨getField_eq_notFound_iff h, fun hends => ?_, fun _ _ => getField_gives_up h⟩
    rw [getField_undeclared h, endsWithin_iff.mp hends]

/-! ## Checking the way up -/

/-- No superclass link leaves the list, and no class in it has a field of that name. -/
def lacksField (env : Env) (name : String) (classes : List ClassId) : Bool :=
  classes.all fun x =>
    (match env.superclassOf x with
      | .ok (some p) => decide (p ∈ classes)
      | _ => true) &&
    (match env.classDef? x with
      | some d => d.fields.all fun g => g.name != name
      | none => true)

theorem undeclared_of_lacksField {env : Env} {name : String} {c : ClassId}
    (classes : List ClassId) (h : lacksField env name classes = true) (hc : c ∈ classes) :
    Undeclared env c name := by
  intro x d hx hd
  -- the list is left by no superclass link
  have hmem : x ∈ classes := by
    clear hd
    induction hx with
    | refl => exact hc
    | tail _ hp ih =>
        have hlink := (Bool.and_eq_true_iff.mp (List.all_eq_true.mp h _ ih)).1
        rw [hp] at hlink
        exact of_decide_eq_true hlink
  have hfields := (Bool.and_eq_true_iff.mp (List.all_eq_true.mp h x hmem)).2
  rw [hd] at hfields
  intro g hg
  exact bne_iff_ne.mp (List.all_eq_true.mp hfields g hg)

/-- The middle one of three classes hides the field of the one above it. -/
def hidingDecl (link : Ty) : ClassDecl :=
  { name := "p.Sub", superclass := some link,
    fields := [{ name := "value", ty := .prim .long, flags := .priv }] }

/-- Three classes, where the middle one may extend something else, and the lowest may have
interfaces. -/
def hidingRun (link : Ty) (interfaces : List Ty) : List Change :=
  [.addClass { name := "p.Base", fields := [{ name := "value", ty := .prim .int, flags := .pub }] },
   .addClass (hidingDecl link),
   .addClass { name := "p.Leaf", superclass := some (.cls ⟨13⟩), interfaces },
   .addClass { name := "q.Other" }]

/-- From elsewhere, the field in the middle is found and may not be used. This is so as well if its
class extends nothing that exists, and the lowest class has an interface that does not exist. A
field that nobody declares is not found; on a knot, it is not looked for to the end. -/
theorem getField_nearest_decides_hiding :
    let env := (afterAll Store.builtin (hidingRun (.cls ⟨12⟩) [])).env
    let env' := (afterAll Store.builtin (hidingRun (.named "p.Gone") [.named "p.Lost"])).env
    let knot := (afterAll Store.builtin knotRun).env
    let ctx : AccessContext := { current := ⟨15⟩ }
    let d := Store.builtin.definitionOf ⟨13⟩ (hidingDecl (.cls ⟨12⟩)) []
    let f := fieldOf ⟨13⟩ { name := "value", ty := .prim .long, flags := .priv }
    (Nearest env ⟨14⟩ "value" [⟨14⟩] ⟨13⟩ d f ∧ SameBelow env env' [⟨14⟩] ⟨13⟩ ∧
        env'.isAccessible (.cls ⟨13⟩) f.flags ctx = env.isAccessible (.cls ⟨13⟩) f.flags ctx ∧
        Undeclared env ⟨14⟩ "size" ∧ EndsWithin env ⟨14⟩ ∧
        Undeclared knot ⟨12⟩ "size" ∧ Leads knot ⟨12⟩ [⟨12⟩, ⟨13⟩] ⟨12⟩) ∧
      env.getField (.cls ⟨14⟩) "value" ctx = decision env ⟨13⟩ d f "value" ctx ∧
      env'.getField (.cls ⟨14⟩) "value" ctx = env.getField (.cls ⟨14⟩) "value" ctx ∧
      env.getField (.cls ⟨14⟩) "size" ctx =
        .error (.fieldNotFound "size" (env.renderType (.cls ⟨14⟩))) ∧
      ∃ x, knot.getField (.cls ⟨12⟩) "size" ctx =
        .error (.cyclicInheritance (knot.displayName x)) := by
  intro env env' knot ctx d f
  have hd : env.classDef? ⟨13⟩ = some d := by rfl
  have hfirst : FirstField d "value" f := ⟨[], [], rfl, rfl, by simp⟩
  have hup : HasSuperclass env ⟨14⟩ ⟨13⟩ := by rfl
  have hleaf : ∀ e, env.classDef? ⟨14⟩ = some e → NoField e "value" := by
    intro e he
    exact field?_eq_none_iff.mp (by cases he; rfl)
  have hnearest : Nearest env ⟨14⟩ "value" [⟨14⟩] ⟨13⟩ d f :=
    ⟨.up hup (.here _), by decide, by decide, List.forall_mem_singleton.mpr hleaf, hd, hfirst⟩
  have hup' : HasSuperclass env' ⟨14⟩ ⟨13⟩ := by rfl
  have hsame : SameBelow env env' [⟨14⟩] ⟨13⟩ := by
    refine ⟨rfl, List.forall_mem_singleton.mpr (hup'.trans hup.symm),
      List.forall_mem_singleton.mpr ?_, ?_⟩
    · intro e he
      cases he
      exact ⟨_, rfl, rfl⟩
    · intro e he
      cases he
      exact ⟨_, rfl, rfl, rfl⟩
  have hclosed : env.isAccessible (.cls ⟨13⟩) f.flags ctx = .ok false := by decide
  have hclosed' : env'.isAccessible (.cls ⟨13⟩) f.flags ctx = .ok false := by decide
  have haccess := hclosed'.trans hclosed.symm
  have hbare : Undeclared env ⟨14⟩ "size" :=
    undeclared_of_lacksField [⟨14⟩, ⟨13⟩, ⟨12⟩, ⟨0⟩] (by decide) List.mem_cons_self
  have hends : EndsWithin env ⟨14⟩ := endsWithin_iff.mpr (by rfl)
  have hknot : Undeclared knot ⟨12⟩ "size" :=
    undeclared_of_lacksField [⟨12⟩, ⟨13⟩] (by decide) List.mem_cons_self
  have haround : Leads knot ⟨12⟩ [⟨12⟩, ⟨13⟩] ⟨12⟩ :=
    .up (show knot.superclassOf ⟨12⟩ = .ok (some ⟨13⟩) by rfl)
      (.up (show knot.superclassOf ⟨13⟩ = .ok (some ⟨12⟩) by rfl) (.here _))
  obtain ⟨hfound, hstays⟩ :=
    (getField_nearest_decides env ⟨14⟩ "value" ctx).1 [⟨14⟩] ⟨13⟩ d f hnearest
  exact ⟨⟨hnearest, hsame, haccess, hbare, hends, hknot, haround⟩, hfound,
    hstays env' hsame haccess,
    ((getField_nearest_decides env ⟨14⟩ "size" ctx).2 hbare).2.1 hends,
    ((getField_nearest_decides knot ⟨12⟩ "size" ctx).2 hknot).2.2 _ _ haround
      (.inl (by decide))⟩

end Lineage.Proofs
