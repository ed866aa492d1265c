import Lineage.Proofs.Run

/-!
# A definition happens or it does not

A definition that is refused leaves no trace. That is not plain from the code: once
its checks are done, `define` binds variables one after the other, and each binding
could still be refused with the earlier ones in place. `define_of_admissible` rules
this out, so a refusal always comes from the checks, which change nothing.

`Definable` says what the checks ask for in terms of the declaration and the tables
alone, and the main result is that this is neither too much nor too little.
-/

namespace Lineage.Proofs

open Store

/-- What a declaration has to be for a store to take it as the definition of `id`. -/
structure Definable (s : Store) (id : ClassId) (decl : ClassDecl) : Prop where
  interned : s.className? id = some decl.name
  undefined : s.classDef? id = none
  /-- A variable-arity method ends with an array. -/
  varargs : ∀ d ∈ decl.methods, d.flags.isVarargs = true →
    ∃ element, d.params.getLast? = some (.array element)
  /-- An annotation element has a name and a type, and nothing else. -/
  elements : ∀ d ∈ decl.methods, d.elementDefault.isSome = true →
    d.params = [] ∧ d.throws = [] ∧ d.typeParams = []
  /-- The variables of the class exist and are free, or belong to the class already. -/
  classVars : ∀ v ∈ decl.typeParams, Bindable s (.cls id) v
  /-- The variables of the methods exist and are free. -/
  methodVars : ∀ v ∈ methodVars decl.methods, Unowned s v
  /-- No variable is listed twice by the methods, or by a method and the class. -/
  distinct : (Proofs.methodVars decl.methods).Nodup
  apart : ∀ v ∈ Proofs.methodVars decl.methods, v ∉ decl.typeParams

/-! ## The checks ask for no more and no less -/

theorem endsWithArray_iff {d : MethodDecl} :
    d.endsWithArray = true ↔ ∃ element, d.params.getLast? = some (.array element) := by
  unfold MethodDecl.endsWithArray
  split
  · rename_i element h
    exact iff_of_true rfl ⟨element, h⟩
  · rename_i h
    refine iff_of_false Bool.false_ne_true ?_
    intro hlast
    obtain ⟨element, hlast⟩ := hlast
    exact h element hlast

theorem isBare_iff {d : MethodDecl} :
    d.isBare = true ↔ d.params = [] ∧ d.throws = [] ∧ d.typeParams = [] := by
  simp [MethodDecl.isBare, and_assoc]

theorem checkMethodDecl_eq_ok_iff {name : String} {d : MethodDecl} :
    checkMethodDecl name d = .ok () ↔
      (d.flags.isVarargs = true → ∃ element, d.params.getLast? = some (.array element)) ∧
      (d.elementDefault.isSome = true →
        d.params = [] ∧ d.throws = [] ∧ d.typeParams = []) := by
  -- both sides depend on four answers of the declaration and nothing else
  rw [← endsWithArray_iff, ← isBare_iff]
  unfold checkMethodDecl
  cases d.flags.isVarargs <;> cases d.endsWithArray <;> cases d.elementDefault.isSome <;>
    cases d.isBare <;> simp

/-- A slot is open under a name exactly when the position has the name and no definition. -/
theorem open_slot_iff {s : Store} {id : ClassId} {name : String} :
    s.slots[id.index]? = some { name } ↔
      s.className? id = some name ∧ s.classDef? id = none := by
  unfold className? classDef?
  cases s.slots[id.index]? with
  | none => simp
  | some slot =>
      obtain ⟨n, definition⟩ := slot
      simp

theorem admissible_iff_definable {s : Store} {id : ClassId} {decl : ClassDecl} :
    Admissible s id decl ↔ Definable s id decl := by
  constructor
  · -- the check of a method is two of the fields, the rest is the same in both
    intro h
    have hslot := open_slot_iff.mp h.slot
    have hmethods := fun d hd => checkMethodDecl_eq_ok_iff.mp (h.methods d hd)
    exact
      { interned := hslot.1
        undefined := hslot.2
        varargs := fun d hd => (hmethods d hd).1
        elements := fun d hd => (hmethods d hd).2
        classVars := h.classVars
        methodVars := fun v hv => (h.methodVars v hv).1
        distinct := h.distinct
        apart := fun v hv => (h.methodVars v hv).2 }
  · intro h
    exact
      { slot := open_slot_iff.mpr ⟨h.interned, h.undefined⟩
        methods := fun d hd => checkMethodDecl_eq_ok_iff.mpr ⟨h.varargs d hd, h.elements d hd⟩
        classVars := h.classVars
        methodVars := fun v hv => ⟨h.methodVars v hv, h.apart v hv⟩
        distinct := h.distinct }

/-! ## Success and refusal -/

/-- A definition that is definable is taken; any other is refused and changes nothing. -/
theorem define_cases (s : Store) (id : ClassId) (decl : ClassDecl) :
    (Definable s id decl ∧ ∃ s', s.define id decl = (s', .ok id)) ∨
      (¬ Definable s id decl ∧ ∃ e, s.define id decl = (s, .error e)) := by
  rw [← admissible_iff_definable]
  -- all checks come before the first change, so a refusal has changed nothing yet
  by_cases h : Admissible s id decl
  · obtain ⟨s', hrun, -⟩ := define_of_admissible h
    exact .inl ⟨h, s', hrun⟩
  · exact .inr ⟨h, define_of_not_admissible h⟩

/-- A refused definition leaves the store as it was. -/
theorem define_eq_of_error {s : Store} {id : ClassId} {decl : ClassDecl} {e : TypeError}
    (h : (s.define id decl).2 = .error e) : (s.define id decl).1 = s := by
  rcases define_cases s id decl with ⟨-, s', hrun⟩ | ⟨-, e', hrun⟩
  · rw [hrun] at h
    cases h
  · rw [hrun]

/--
**A definition is taken exactly when it is definable, and a refusal leaves no trace**:
the store is then the one before the call. Interning and defining in one call leaves
the interned name behind and nothing else.
-/
theorem define_atomic (s : Store) (id : ClassId) (decl : ClassDecl) :
    ((∃ k, (s.define id decl).2 = .ok k) ↔ Definable s id decl) ∧
    (∀ e, (s.define id decl).2 = .error e → (s.define id decl).1 = s) ∧
    (∀ e, (s.addClass decl).2 = .error e → (s.addClass decl).1 = (s.intern decl.name).1) := by
  refine ⟨?_, fun e => define_eq_of_error, fun e => define_eq_of_error⟩
  rcases define_cases s id decl with ⟨hdef, s', hrun⟩ | ⟨hnot, e, hrun⟩
  · rw [hrun]
    exact iff_of_true ⟨id, rfl⟩ hdef
  · rw [hrun]
    refine iff_of_false ?_ hnot
    intro hok
    obtain ⟨k, hk⟩ := hok
    cases hk

/-- A class with the variable `T`, and a variable `U` that is free. -/
def ownedRun : List Change :=
  [.addTypeParam { name := "T" }, .addClass { name := "p.A", typeParams := [⟨0⟩] },
   .addTypeParam { name := "U" }]

/-- A class that would take `U`, with a second method that lists the `T` of another class. -/
def claimant : ClassDecl :=
  { name := "p.B", typeParams := [⟨1⟩],
    methods := [{ name := "first", returnType := .prim .void },
      { name := "second", returnType := .prim .void, typeParams := [⟨0⟩] }] }

/-- The same class without the second method. -/
def modest : ClassDecl := { claimant with methods := claimant.methods.take 1 }

/-- The claimant is refused under its name and leaves nothing but the name. Without the second
method it is taken. -/
theorem addClass_claimant_atomic :
    let s := afterAll Store.builtin ownedRun
    let named := (s.intern "p.B").1
    ((∃ e, (s.addClass claimant).2 = .error e) ∧ (s.addClass claimant).1 = named) ∧
      (¬ Definable named ⟨13⟩ claimant ∧ (named.define ⟨13⟩ claimant).1 = named) ∧
      Definable named ⟨13⟩ modest ∧ ∃ k, (named.define ⟨13⟩ modest).2 = .ok k := by
  intro s named
  have htaken : ∃ k, (named.define ⟨13⟩ modest).2 = .ok k := ⟨⟨13⟩, by decide⟩
  have hrefused : ∃ e, (named.define ⟨13⟩ claimant).2 = .error e := ⟨_, rfl⟩
  have herr : ∃ e, (s.addClass claimant).2 = .error e := ⟨_, rfl⟩
  obtain ⟨hiff, hkeeps, -⟩ := define_atomic named ⟨13⟩ claimant
  have hnot : ¬ Definable named ⟨13⟩ claimant := by
    rw [← hiff]
    rintro ⟨k, hk⟩
    obtain ⟨e, he⟩ := hrefused
    rw [hk] at he
    cases he
  -- the claimant under its name first, then under the name that was left behind
  refine ⟨⟨herr, ?_⟩, ⟨hnot, ?_⟩, (define_atomic named ⟨13⟩ modest).1.mp htaken, htaken⟩
  · obtain ⟨e, he⟩ := herr
    exact (define_atomic s ⟨13⟩ claimant).2.2 e he
  · obtain ⟨e, he⟩ := hrefused
    exact hkeeps e he

end Lineage.Proofs
