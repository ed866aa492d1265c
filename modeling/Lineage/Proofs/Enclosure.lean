import Lineage.Proofs.FieldLookup

/-!
# The classes around a class

Every class may name the class that it is written in, and a walk outwards collects the
classes around it. The walk is guarded against classes that name each other: it ends with
an error where it comes back to a class that it has met, the first one included, and
where it has collected as many classes as the limit.

`Around` is the walk without its guards: the classes on the way outwards, up to one that
stands by itself. What the guards add is that the classes are different and not too many
(`enclosingFrom_eq_ok_iff`), so a walk that succeeds has found exactly the classes that
lie around.
-/

namespace Lineage.Proofs

open Relation

/-- The class is written directly in the body of another. -/
def WrittenIn (env : Env) (inner outer : ClassId) : Prop :=
  ∃ d, env.classDef? inner = some d ∧ d.outer = some outer

/-- The class is written in the body of another, at any depth. -/
abbrev NestedIn (env : Env) : ClassId → ClassId → Prop := TransGen (WrittenIn env)

/-- From `outer`, if there is one, outwards: the classes on the way, all defined, the last of which
stands by itself. -/
inductive Around (env : Env) : Option ClassId → List ClassId → Prop where
  | outermost : Around env none []
  | inside {outer : ClassId} {d : ClassDef} {rest : List ClassId} :
      env.classDef? outer = some d → Around env d.outer rest →
      Around env (some outer) (outer :: rest)

section Walk

variable {env : Env}

theorem writtenIn_iff {inner outer : ClassId} {d : ClassDef} (hd : env.classDef? inner = some d) :
    WrittenIn env inner outer ↔ d.outer = some outer := by
  constructor
  · rintro ⟨e, he, houter⟩
    rw [hd] at he
    cases he
    exact houter
  · intro houter
    exact ⟨d, hd, houter⟩

/-- Nothing lies around a class that stands by itself. -/
theorem enclosingFrom_none_eq_ok_iff {n : Nat} {seen classes : List ClassId} :
    env.enclosingFrom n seen none = .ok classes ↔
      Around env none classes ∧ Fresh seen classes ∧ classes.length ≤ n := by
  have hrun : env.enclosingFrom n seen none = .ok [] := by cases n <;> rfl
  rw [hrun]
  constructor
  · intro h
    cases h
    exact ⟨.outermost, by simp [Fresh], Nat.zero_le n⟩
  · rintro ⟨haround, -, -⟩
    cases haround
    rfl

/-- **The walk outwards gives the classes on the way**, if they are different from each other and
from those seen before, and not more than there is room for. -/
theorem enclosingFrom_eq_ok_iff {n : Nat} {seen classes : List ClassId} {outer : Option ClassId} :
    env.enclosingFrom n seen outer = .ok classes ↔
      Around env outer classes ∧ Fresh seen classes ∧ classes.length ≤ n := by
  induction n generalizing seen classes outer with
  | zero =>
      cases outer with
      | none => exact enclosingFrom_none_eq_ok_iff
      | some o =>
          -- no room is left, but a class to go to is
          constructor
          · intro h
            cases h
          · rintro ⟨haround, -, hroom⟩
            cases haround
            cases hroom
  | succ n ih =>
      cases outer with
      | none => exact enclosingFrom_none_eq_ok_iff
      | some o =>
          rw [Env.enclosingFrom]
          -- a class that was seen before ends the walk with an error
          by_cases ho : o ∈ seen
          · rw [if_pos ho]
            constructor
            · intro h
              cases h
            · rintro ⟨haround, hfresh, -⟩
              cases haround
              exact absurd ho (fresh_cons_iff.mp hfresh).1
          · rw [if_neg ho]
            constructor
            · intro h
              -- fresh, defined and with room: the walk goes on around this class
              obtain ⟨d, hd, h⟩ := bind_eq_ok_iff.mp h
              obtain ⟨rest, hrest, h⟩ := bind_eq_ok_iff.mp h
              cases h
              obtain ⟨haround, hfresh, hroom⟩ := ih.mp hrest
              exact ⟨.inside (classDef_eq_ok_iff.mp hd) haround, fresh_cons_iff.mpr ⟨ho, hfresh⟩,
                Nat.succ_le_succ hroom⟩
            · rintro ⟨haround, hfresh, hroom⟩
              cases haround with
              | @inside _ d rest hd haround =>
                  have hrest : env.enclosingFrom n (o :: seen) d.outer = .ok rest :=
                    ih.mpr ⟨haround, (fresh_cons_iff.mp hfresh).2, Nat.le_of_succ_le_succ hroom⟩
                  rw [classDef_eq_ok_iff.mpr hd, ok_bind, hrest]
                  rfl

theorem enclosingClasses_eq_ok_iff {id : ClassId} {classes : List ClassId} :
    env.enclosingClasses id = .ok classes ↔
      ∃ d, env.classDef? id = some d ∧ Around env d.outer classes ∧ Fresh [id] classes ∧
        classes.length ≤ env.depthLimit := by
  unfold Env.enclosingClasses
  rw [bind_eq_ok_iff]
  simp only [classDef_eq_ok_iff, enclosingFrom_eq_ok_iff]

theorem Around.mem_iff {outer : Option ClassId} {classes : List ClassId}
    (h : Around env outer classes) {x : ClassId} :
    x ∈ classes ↔ ∃ k, outer = some k ∧ ReflTransGen (WrittenIn env) k x := by
  induction h with
  | outermost => simp
  | @inside o d rest hd _ ih =>
      -- a class is written in one place, so there is one way outwards
      have hhead : ReflTransGen (WrittenIn env) o x ↔
          o = x ∨ ∃ k, d.outer = some k ∧ ReflTransGen (WrittenIn env) k x := by
        rw [ReflTransGen.cases_head_iff]
        simp only [writtenIn_iff hd]
      simp only [Option.some.injEq, exists_eq_left', hhead, List.mem_cons, ih, eq_comm]

/-- **What a walk outwards has found is what lies around.** -/
theorem mem_enclosingClasses_iff {id x : ClassId} {classes : List ClassId}
    (h : env.enclosingClasses id = .ok classes) : x ∈ classes ↔ NestedIn env id x := by
  obtain ⟨d, hd, haround, -, -⟩ := enclosingClasses_eq_ok_iff.mp h
  have hhead : NestedIn env id x ↔ ∃ k, d.outer = some k ∧ ReflTransGen (WrittenIn env) k x := by
    unfold NestedIn
    rw [TransGen.head'_iff]
    simp only [writtenIn_iff hd]
  rw [haround.mem_iff, hhead]

end Walk

end Lineage.Proofs
