import Lineage.Proofs.Closure
import Lineage.Proofs.Registry
import Lineage.Proofs.Resolution
import Mathlib.Data.List.Flatten

/-!
# The candidates of a call

The candidates that a call can mean are some of the methods of the classes above the
receiver, in the order of the classes and then of declaration. Class by class, they are
those that have the name, fit the arguments and may be used, provided that this can be
told of every method of that name (`applicableIn_eq_ok_iff`).

So a method is a candidate at most once: the classes are listed without repetition, a
class lists a method once, and no two classes list the same method.
-/

namespace Lineage.Proofs

open Store

variable {call : MethodCall} {ctx : AccessContext}

section Listed

variable {r : Resolver Unit}

/-- The methods that a class lists, as far as the environment knows them. -/
def listed (env : Env) (id : ClassId) : List Method :=
  match env.classDef? id with
  | some c => c.methods.filterMap env.method?
  | none => []

/-- The class offers the method for the call: it has the name, it fits and it may be used there. -/
def offers (r : Resolver Unit) (call : MethodCall) (ctx : AccessContext) (id : ClassId)
    (m : Method) : Bool :=
  m.name == call.name && answeredYes (usableBy r call ctx id m)

theorem offers_iff {id : ClassId} {m : Method} :
    offers r call ctx id m = true ↔ m.name = call.name ∧
      answer (r.fits m call.args) = .ok true ∧
      r.env.isAccessible (.cls id) m.flags ctx = .ok true := by
  unfold offers
  rw [Bool.and_eq_true, beq_iff_eq, answeredYes_iff, usableBy]
  rcases answer (r.fits m call.args) with e | fits
  · simp
  · cases fits <;> simp

/-- Whether the class offers the method can be told. Only methods of that name are asked about. -/
def Assessed (r : Resolver Unit) (call : MethodCall) (ctx : AccessContext) (id : ClassId)
    (m : Method) : Prop :=
  m.name = call.name → ∃ keep, usableBy r call ctx id m = .ok keep

/-- **What a class contributes**: of the methods that it lists, those that it offers. The search
comes to an answer exactly if it does so about every method. -/
theorem applicableIn_eq_ok_iff {id : ClassId} {name : String} {ks : List MethodId}
    {found : List Method} :
    answer (r.applicableIn call ctx id name ks) = .ok found ↔
      (∀ k ∈ ks, ∃ m, r.env.method? k = some m) ∧
      (∀ m ∈ ks.filterMap r.env.method?, Assessed r call ctx id m) ∧
      found = (ks.filterMap r.env.method?).filter (offers r call ctx id) := by
  induction ks generalizing found with
  | nil =>
      constructor
      · intro h
        cases h
        simp
      · rintro ⟨-, -, rfl⟩
        rfl
  | cons k ks ih =>
      rw [List.forall_mem_cons]
      cases hm : r.env.method? k with
      | none =>
          -- an unknown method ends the search, also if its name would not have been asked for
          rw [applicableIn_missing r call ctx hm]
          simp
      | some m =>
          rw [applicableIn_cons r call ctx hm, List.filterMap_cons_some hm, List.forall_mem_cons,
            List.filter_cons]
          -- only methods of that name are asked whether they can be used
          by_cases hname : m.name = call.name
          · rw [if_neg (not_not.mpr hname)]
            have hoffers : offers r call ctx id m = answeredYes (usableBy r call ctx id m) := by
              rw [offers, beq_iff_eq.mpr hname, Bool.true_and]
            rw [hoffers]
            unfold Assessed
            rw [forall_prop_of_true hname]
            cases usableBy r call ctx id m with
            | error e =>
                -- the question failed: no result on the left, no assessment on the right
                constructor
                · intro h
                  cases h
                · rintro ⟨-, ⟨⟨keep, hkeep⟩, -⟩, -⟩
                  cases hkeep
            | ok keep =>
                rw [ok_bind, bind_eq_ok_iff]
                constructor
                · -- the rest is assessed by the induction, and this one by its answer
                  rintro ⟨others, hothers, h⟩
                  obtain ⟨hpresent, hassessed, rfl⟩ := ih.mp hothers
                  cases h
                  exact ⟨⟨⟨m, rfl⟩, hpresent⟩, ⟨⟨keep, rfl⟩, hassessed⟩, rfl⟩
                · rintro ⟨⟨-, hpresent⟩, ⟨-, hassessed⟩, rfl⟩
                  exact ⟨_, ih.mpr ⟨hpresent, hassessed, rfl⟩, rfl⟩
          · rw [if_pos hname, ih]
            -- another name: never asked, so never offered and assessed for free
            have hoffers : offers r call ctx id m = false := by
              rw [offers, beq_eq_false_iff_ne.mpr hname, Bool.false_and]
            have hassessed : Assessed r call ctx id m := fun h => absurd h hname
            simp [hoffers, hassessed]

theorem listed_eq {env : Env} {id : ClassId} {c : ClassDef} (hc : env.classDef? id = some c) :
    listed env id = c.methods.filterMap env.method? := by
  unfold listed
  rw [hc]

/-- The class is defined, and the methods that it lists are there. -/
def Complete (env : Env) (id : ClassId) : Prop :=
  ∃ c, env.classDef? id = some c ∧ ∀ k ∈ c.methods, ∃ m, env.method? k = some m

/-- The classes contribute one after the other. -/
theorem applicableAlong_eq_ok_iff {ids : List ClassId} {found : List Method} :
    answer (r.applicableAlong call ctx ids) = .ok found ↔
      (∀ id ∈ ids, Complete r.env id ∧ ∀ m ∈ listed r.env id, Assessed r call ctx id m) ∧
      found = ids.flatMap fun id => (listed r.env id).filter (offers r call ctx id) := by
  induction ids generalizing found with
  | nil =>
      constructor
      · intro h
        cases h
        simp
      · rintro ⟨-, rfl⟩
        rfl
  | cons id ids ih =>
      rw [applicableAlong_cons, List.forall_mem_cons, List.flatMap_cons]
      constructor
      · intro h
        -- three steps that all have a result: the class, what it offers, what the others offer
        obtain ⟨c, hc, h⟩ := bind_eq_ok_iff.mp h
        obtain ⟨first, hfirst, h⟩ := bind_eq_ok_iff.mp h
        obtain ⟨others, hothers, h⟩ := bind_eq_ok_iff.mp h
        cases h
        rw [classDef_eq_ok_iff] at hc
        obtain ⟨hpresent, hassessed, rfl⟩ := applicableIn_eq_ok_iff.mp hfirst
        obtain ⟨hrest, rfl⟩ := ih.mp hothers
        rw [← listed_eq hc] at hassessed ⊢
        exact ⟨⟨⟨⟨c, hc, hpresent⟩, hassessed⟩, hrest⟩, rfl⟩
      · rintro ⟨⟨⟨⟨c, hc, hpresent⟩, hassessed⟩, hrest⟩, rfl⟩
        rw [listed_eq hc] at hassessed ⊢
        exact bind_eq_ok_iff.mpr ⟨c, classDef_eq_ok_iff.mpr hc, bind_eq_ok_iff.mpr
          ⟨_, applicableIn_eq_ok_iff.mpr ⟨hpresent, hassessed, rfl⟩, bind_eq_ok_iff.mpr
            ⟨_, ih.mpr ⟨hrest, rfl⟩, rfl⟩⟩⟩

theorem applicable_listed {candidates : List Method}
    (h : answer (r.applicable call ctx) = .ok candidates) :
    ∃ classes, searchedClasses r.env call.receiver = .ok classes ∧
      List.Sublist candidates (classes.flatMap (listed r.env)) := by
  rw [applicable_eq] at h
  obtain ⟨classes, hclasses, h⟩ := bind_eq_ok_iff.mp h
  obtain ⟨-, rfl⟩ := applicableAlong_eq_ok_iff.mp h
  exact ⟨classes, hclasses, List.Sublist.flatMap_right _ fun _ _ => List.filter_sublist⟩

end Listed

theorem mem_methodClasses_iff {env : Env} {start : ClassId} {all : List ClassId}
    (h : env.supertypeClosure start = .ok all) :
    ∃ classes, env.methodClasses start = .ok classes ∧
      ∀ x, x ∈ classes ↔ x ∈ all ∨ x = env.wellKnown.object := by
  unfold Env.methodClasses
  rw [h, ok_bind]
  by_cases htop : env.wellKnown.object ∈ all
  · refine ⟨all, if_pos htop, fun x => ?_⟩
    constructor
    · exact .inl
    · rintro (hx | rfl)
      · exact hx
      · exact htop
  · exact ⟨all ++ [env.wellKnown.object], if_neg htop, by simp⟩

theorem methodClasses_nodup {env : Env} {start : ClassId} {classes : List ClassId}
    (h : env.methodClasses start = .ok classes) : classes.Nodup := by
  obtain ⟨all, hall, h⟩ := bind_eq_ok_iff.mp h
  have hnd := (supertypeClosure_order hall).2
  split at h
  · cases h
    exact hnd
  · -- the top class is appended only where the closure lacks it
    rename_i hobj
    cases h
    refine List.nodup_append.mpr ⟨hnd, List.nodup_singleton _, ?_⟩
    intro x hx y hy heq
    rw [List.mem_singleton.mp hy] at heq
    exact hobj (heq ▸ hx)

variable {s : Store} {candidates : List Method}
  (h : answer ((Resolver.standard s.env).applicable call ctx) = .ok candidates)

include h

theorem applicable_sublist :
    ∃ classes : List ClassId, classes.Nodup ∧
      List.Sublist candidates (classes.flatMap s.methodsOf) := by
  obtain ⟨classes, hclasses, hsub⟩ := applicable_listed h
  obtain ⟨start, -, hclasses⟩ := bind_eq_ok_iff.mp hclasses
  exact ⟨classes, methodClasses_nodup hclasses, hsub⟩

/-- **A method is a candidate at most once.** -/
theorem candidates_nodup (hs : Reachable s) : candidates.Nodup := by
  obtain ⟨classes, hnd, hsub⟩ := applicable_sublist h
  exact hsub.nodup ((registry_reachable hs).members.nodup_flatMap_methodsOf hnd)

/-- A candidate is a method of the store. -/
theorem method?_of_candidate (hs : Reachable s) {m : Method} (hm : m ∈ candidates) :
    s.method? m.id = some m := by
  obtain ⟨classes, -, hsub⟩ := applicable_sublist h
  obtain ⟨k, -, hk⟩ := List.mem_flatMap.mp (hsub.subset hm)
  exact ((registry_reachable hs).members.of_mem_methodsOf hk).1

end Lineage.Proofs
