import Lineage.Proofs.Candidates
import Lineage.Proofs.PassOutcomes

/-!
# What the last pass does not look at

Two rules for methods reach further than the last pass looks.

A method is compared with what it overrides in the supertype closure of its class. The
methods that a receiver has come from the closure and from the top class as well, and an
interface does not have the top class in its closure unless something there names it. So
an interface can hide a method of the top class that it could not override.

The type parameters of a method are to have different names. That is looked at in the
methods that were collected after the class was attached, and not in those that its
declaration brought along.

For each rule this module has what the pass guarantees, as exactly as it can be said,
and a class that passes although it breaks the rule.
-/

namespace Lineage.Proofs

open Store

/-! ## Methods of the top class -/

section Interface

variable {s : Store} (hs : Reachable s)

include hs

theorem interface_ne_top {id : ClassId} {c : ClassDef} (hc : s.classDef? id = some c)
    (hint : c.isInterface = true) : id ≠ s.wellKnown.object := by
  rintro rfl
  obtain ⟨d, hd, hclass, -⟩ := bareTop_of_reachable hs
  obtain rfl : c = d := Option.some.inj (hc.symm.trans hd)
  rw [hint] at hclass
  cases hclass

/-- Whatever its links are, an interface descends from the top class. -/
theorem descends_top_of_interface {id : ClassId} {c : ClassDef} (hc : s.classDef? id = some c)
    (hint : c.isInterface = true) : s.env.descends (.cls id) s.env.objectType = .ok true := by
  have hne : id ≠ s.env.wellKnown.object := interface_ne_top hs hc hint
  have hdef : s.env.classDef id = .ok c := classDef_eq_ok_iff.mpr hc
  refine (descends_eq_ok_iff rfl rfl).mpr ⟨[.cls id], ?_⟩
  -- an interface is asked about the top class before its links are followed
  rw [Env.search.eq_def]
  simp [hne, hdef, hint, Env.objectType]

/-- Methods of two classes are stored at different positions. -/
theorem id_ne_of_mem_methodsOf {k k' : ClassId} (hk : k ≠ k') {m m' : Method}
    (hm : m ∈ s.methodsOf k) (hm' : m' ∈ s.methodsOf k') : m.id ≠ m'.id := by
  intro heq
  obtain ⟨hstored, hcont⟩ := (registry_reachable hs).members.of_mem_methodsOf hm
  obtain ⟨hstored', hcont'⟩ := (registry_reachable hs).members.of_mem_methodsOf hm'
  rw [heq, hstored'] at hstored
  cases hstored
  exact hk (hcont.symm.trans hcont')

/-- Among the methods that it is equivalent to, a method overrides those of the closure. -/
theorem mem_overridden_iff {k x : ClassId} {all : List ClassId} {mi mj : Method}
    {found : List Method} (hmi : mi ∈ s.methodsOf k) (hall : s.env.supertypeClosure k = .ok all)
    (hfound : s.env.overriddenMethods mi = .ok found) (hx : x ≠ k) (hmj : mj ∈ s.methodsOf x)
    (heq : mi.overrideEquivalent mj = true) : mj ∈ found ↔ x ∈ all := by
  have hmembers := (registry_reachable hs).members
  obtain ⟨all', hall', hin⟩ := bind_eq_ok_iff.mp hfound
  rw [(hmembers.of_mem_methodsOf hmi).2, hall] at hall'
  cases hall'
  obtain ⟨-, rfl⟩ := overriddenIn_eq_ok_iff.mp hin
  obtain ⟨⟨rest, rfl⟩, -⟩ := supertypeClosure_order hall
  rw [List.tail_cons, List.mem_flatMap]
  constructor
  · rintro ⟨y, hy, hmem⟩
    -- no other class has the method
    have hown := (hmembers.of_mem_methodsOf (List.mem_filter.mp hmem).1).2
    rw [(hmembers.of_mem_methodsOf hmj).2] at hown
    exact List.mem_cons_of_mem _ (hown ▸ hy)
  · -- another class than its own, so the methods differ and nothing is skipped
    intro hmem
    have hne : mj.id ≠ mi.id := id_ne_of_mem_methodsOf hs hx hmj hmi
    refine ⟨x, (List.mem_cons.mp hmem).resolve_left hx, List.mem_filter.mpr ⟨hmj, ?_⟩⟩
    simp [hne, heq]

end Interface

/--
**What a checked interface guarantees about the methods that its receivers have.** They
come from the classes of its supertype closure and from the top class, from which it
descends in any case. A method of the interface has been compared with an equivalent one
of another of these classes exactly if that class is in the closure, and then overrides
it legally. The one class that may be missing is the top class.
-/
theorem checkedInterface_compared_iff {s s' : Store} {b : AssembledClass} {k : CheckedClass}
    {c : ClassDef} (hs : Reachable s) (hrun : b.check s = (s', .ok k))
    (hc : s'.classDef? k.id = some c) (hint : c.isInterface = true) {mi : Method}
    (hmi : mi ∈ s'.methodsOf k.id) :
    s'.env.descends (.cls k.id) s'.env.objectType = .ok true ∧
    ∃ all classes overridden, s'.env.supertypeClosure k.id = .ok all ∧
      s'.env.methodClasses k.id = .ok classes ∧ s'.env.overriddenMethods mi = .ok overridden ∧
      s'.wellKnown.object ∈ classes ∧ s'.wellKnown.object ≠ k.id ∧
      ∀ x ∈ classes, x ≠ k.id → (x ∈ all ∨ x = s'.wellKnown.object) ∧
        ∀ mj ∈ s'.methodsOf x, mi.overrideEquivalent mj = true →
          (mj ∈ overridden ↔ x ∈ all) ∧
          (x ∈ all → ∀ quiet, s'.env.canOverride mi mj quiet = .ok true) := by
  obtain ⟨hid, -, hover⟩ := check_eq_ok hrun
  have hs' : Reachable s' := by
    have hafter := Reachable.tail (.check b) hs
    rwa [after, hrun] at hafter
  -- the rule is about the class that holds the method, which is the checked one
  have hcont := ((registry_reachable hs').members.of_mem_methodsOf hmi).2
  obtain ⟨all, hall, hlegal⟩ := overrides_of_check hover (hid ▸ hmi)
  rw [hcont] at hall hlegal
  obtain ⟨classes, hclasses, hmem⟩ := mem_methodClasses_iff hall
  obtain ⟨overridden, hoverridden, -⟩ :=
    bind_eq_ok_iff.mp (forM_eq_ok_iff.mp hover mi (hid ▸ hmi))
  refine ⟨descends_top_of_interface hs' hc hint, all, classes, overridden, hall, hclasses,
    hoverridden, (hmem _).mpr (.inr rfl), (interface_ne_top hs' hc hint).symm, ?_⟩
  intro x hx hne
  -- outside the closure there is the top class only, where nothing is compared
  refine ⟨(hmem x).mp hx, fun mj hmj heq => ⟨?_, ?_⟩⟩
  · exact mem_overridden_iff hs' hmi hall hoverridden hne hmj heq
  · intro hxall
    exact hlegal x hxall hne mj hmj (id_ne_of_mem_methodsOf hs' hne hmj hmi) heq

/-- An interface at the first free position. -/
def named : Store × DeclaredClass :=
  Store.builtin.declare { name := "p.Named", flags := .pub ∪ .interface ∪ .abstract } []

def namedAttached (superclass : Option Ty) : AttachedClass :=
  { id := ⟨12⟩, decl := named.2.attachedDecl superclass [] }

/-- Its one method has the signature of a method of the top class. -/
def namedMethod (returnType : Ty) : MethodDecl :=
  { name := "toString", returnType, flags := .pub ∪ .abstract }

def namedAssembled (superclass : Option Ty) (returnType : Ty) : AssembledClass :=
  ((namedAttached superclass).addMethod (namedMethod returnType)).assemble

/-- With a link to the top class, the interface is compared with it. -/
theorem checkedInterface_compared_named :
    let top : Ty := .cls wellKnownIds.object
    let s := (named.2.attach named.1 (some top) []).1
    let b := namedAssembled (some top) (.cls wellKnownIds.string)
    let s' := (b.check s).1
    let mi := methodOf ⟨5⟩ ⟨12⟩ (namedMethod (.cls wellKnownIds.string))
    (Reachable s ∧ b.check s = (s', .ok ⟨⟨12⟩⟩) ∧ mi ∈ s'.methodsOf ⟨12⟩ ∧
        ∃ c, s'.classDef? ⟨12⟩ = some c ∧ c.isInterface = true) ∧
      (∃ mj ∈ s'.methodsOf s'.wellKnown.object, mi.overrideEquivalent mj = true) ∧
      ∀ mj ∈ s'.methodsOf s'.wellKnown.object, mi.overrideEquivalent mj = true →
        ∀ quiet, s'.env.canOverride mi mj quiet = .ok true := by
  intro top s b s' mi
  have hattach : named.2.attach named.1 (some top) [] = (s, .ok (namedAttached (some top))) :=
    run_eq_of_outcome (by decide)
  have hs : Reachable s :=
    reachable_of_issued (.attach (.declare _ _ Reachable.builtin) hattach)
  have hrun : b.check s = (s', .ok ⟨⟨12⟩⟩) := run_eq_of_outcome (by decide)
  have hmi : mi ∈ s'.methodsOf ⟨12⟩ := by decide
  have hinterface : (s'.classDef? ⟨12⟩).map (·.isInterface) = some true := by decide
  obtain ⟨c, hc, hint⟩ := Option.map_eq_some_iff.mp hinterface
  have hclosure : s'.env.supertypeClosure ⟨12⟩ = .ok [⟨12⟩, ⟨0⟩] := by decide
  obtain ⟨-, all, classes, overridden, hall, -, -, htop, hne, hcompared⟩ :=
    checkedInterface_compared_iff hs hrun hc hint hmi
  have hsame : [(⟨12⟩ : ClassId), ⟨0⟩] = all := Except.ok.inj (hclosure.symm.trans hall)
  subst hsame
  refine ⟨⟨hs, hrun, hmi, c, hc, hint⟩, by decide, ?_⟩
  intro mj hmj heq
  exact ((hcompared _ htop hne).2 mj hmj heq).2 (by decide)

/-- **A checked interface may hide a method of the top class that it may not override.** -/
theorem checkedInterface_hides_top :
    let s := (named.2.attach named.1 none []).1
    let b := namedAssembled none (.prim .int)
    let s' := (b.check s).1
    let mi := methodOf ⟨5⟩ ⟨12⟩ (namedMethod (.prim .int))
    Issued s (.assembled b) ∧ b.check s = (s', .ok ⟨⟨12⟩⟩) ∧
      (s'.classDef? ⟨12⟩).map (·.isInterface) = some true ∧ mi ∈ s'.methodsOf ⟨12⟩ ∧
      ∃ mj ∈ s'.methodsOf s'.wellKnown.object, mi.overrideEquivalent mj = true ∧
        s'.env.canOverride mi mj true = .ok false := by
  intro s b s' mi
  have hrun : b.check s = (s', .ok ⟨⟨12⟩⟩) := run_eq_of_outcome (by decide)
  have hattach : named.2.attach named.1 none [] = (s, .ok (namedAttached none)) :=
    run_eq_of_outcome (by decide)
  have hissued : Issued s (.assembled b) :=
    .assemble (.addMethod _ (.attach (.declare _ _ Reachable.builtin) hattach))
  exact ⟨hissued, hrun, by decide, by decide, by decide⟩

/-! ## Names of type parameters -/

/-- Names of existing variables are different later exactly if they are now. -/
theorem Grows.checkDuplicates_iff {s s' : Store} (hg : Grows s s') {vars : List TypeVarId}
    (hvars : ∀ v ∈ vars, ∃ p, s.typeParam? v = some p) :
    s'.env.checkDuplicates vars = .ok () ↔ s.env.checkDuplicates vars = .ok () := by
  obtain ⟨params, hparams⟩ := exists_forall₂ hvars
  have hbefore : s.env.typeParamsOf vars = .ok params := typeParamsOf_eq_ok_iff.mpr hparams
  obtain ⟨params', hafter, hnames⟩ := hg.names hbefore
  rw [checkDuplicates_eq_ok_iff, checkDuplicates_eq_ok_iff, hbefore, hafter]
  simp [hnames]

/-- Methods have the type parameters of the declarations they come from. -/
theorem checkDuplicates_numbered_iff {env : Env} {id : ClassId} {first : Nat}
    {ds : List MethodDecl} :
    (∀ m ∈ numbered id first ds, env.checkDuplicates m.typeParams = .ok ()) ↔
      ∀ d ∈ ds, env.checkDuplicates d.typeParams = .ok () := by
  induction ds generalizing first with
  | nil => simp
  | cons d ds ih =>
      rw [numbered_cons, List.forall_mem_cons, List.forall_mem_cons, ih]
      rfl

/-- Names of a method's own variables are as they were before its class was defined. -/
theorem Defines.checkDuplicates_iff {s s' : Store} {id : ClassId} {decl : ClassDecl}
    (h : Defines s id decl s') {d : MethodDecl} (hd : d ∈ decl.methods) :
    s'.env.checkDuplicates d.typeParams = .ok () ↔
      s.env.checkDuplicates d.typeParams = .ok () := by
  refine (grows_defines h).checkDuplicates_iff fun v hv => ?_
  obtain ⟨p, hp, -⟩ := (h.admissible.methodVars v (mem_methodVars hd hv)).1
  exact ⟨p, hp⟩

/-- The methods that were collected have been looked at. -/
theorem checkDuplicates_of_check {b : AssembledClass} {s s' : Store} {k : CheckedClass}
    (h : b.check s = (s', .ok k)) :
    ∀ d ∈ b.methods, s.env.checkDuplicates d.typeParams = .ok () := by
  unfold AssembledClass.check at h
  split at h
  · cases h
  · rename_i hnames
    exact forM_eq_ok_iff.mp hnames

/--
**What a checked class guarantees about the names of type parameters.** The methods that
were collected come after those of the declaration, and the names of their type parameters
are different. For the whole class this holds exactly if it held of the methods that
the declaration brought along, which nothing looks at.
-/
theorem checked_names_iff {s s' : Store} {b : AssembledClass} {k : CheckedClass}
    (hrun : b.check s = (s', .ok k)) :
    (∀ m ∈ (s'.methodsOf k.id).drop b.decl.methods.length,
      s'.env.checkDuplicates m.typeParams = .ok ()) ∧
    ((∀ m ∈ s'.methodsOf k.id, s'.env.checkDuplicates m.typeParams = .ok ()) ↔
      ∀ d ∈ b.decl.methods, s.env.checkDuplicates d.typeParams = .ok ()) := by
  obtain ⟨hid, hdef, -⟩ := check_eq_ok hrun
  -- looked at before the class was defined, and names do not change by that
  have hcollected : ∀ d ∈ b.methods, s'.env.checkDuplicates d.typeParams = .ok () := by
    intro d hd
    rw [hdef.checkDuplicates_iff (List.mem_append_right _ hd)]
    exact checkDuplicates_of_check hrun d hd
  have hwritten : (∀ d ∈ b.decl.methods, s'.env.checkDuplicates d.typeParams = .ok ()) ↔
      ∀ d ∈ b.decl.methods, s.env.checkDuplicates d.typeParams = .ok () :=
    forall₂_congr fun d hd => hdef.checkDuplicates_iff (List.mem_append_left _ hd)
  -- the two parts are numbered one after the other, so the first ends where dropping begins
  have hmethods : s'.methodsOf k.id = numbered b.id s.methods.size b.decl.methods ++
      numbered b.id (s.methods.size + b.decl.methods.length) b.methods := by
    rw [hid, hdef.methodsOf_new, AssembledClass.fullDecl, numbered_append]
  rw [hmethods]
  constructor
  · rw [List.drop_left' (length_numbered _ _ _)]
    exact checkDuplicates_numbered_iff.mpr hcollected
  · rw [List.forall_mem_append, checkDuplicates_numbered_iff, checkDuplicates_numbered_iff,
      hwritten]
    exact and_iff_left hcollected

/-- Three free variables, the second of some name. -/
def spare (second : String) : Store :=
  afterAll .builtin [.addTypeParam { name := "A" }, .addTypeParam { name := second },
    .addTypeParam { name := "C" }]

/-- A class that is declared with a method for the first two of them. -/
def util (second : String) : Store × DeclaredClass :=
  (spare second).declare
    { name := "p.Util"
      methods := [{ name := "pick", returnType := .prim .void, typeParams := [⟨0⟩, ⟨1⟩] }] } []

def utilAttached (second : String) : AttachedClass :=
  { id := ⟨12⟩, decl := (util second).2.attachedDecl none [] }

/-- A method for the third one is collected. -/
def utilAssembled (second : String) : AssembledClass :=
  ((utilAttached second).addMethod
    { name := "drop", returnType := .prim .void, typeParams := [⟨2⟩] }).assemble

/-- All names are different if the declaration's are. -/
theorem checked_names_util :
    let s := ((util "B").2.attach (util "B").1 none []).1
    let b := utilAssembled "B"
    let s' := (b.check s).1
    b.check s = (s', .ok ⟨⟨12⟩⟩) ∧ (s'.methodsOf ⟨12⟩).map (·.name) = ["pick", "drop"] ∧
      ∀ m ∈ s'.methodsOf ⟨12⟩, s'.env.checkDuplicates m.typeParams = .ok () := by
  intro s b s'
  have hrun : b.check s = (s', .ok ⟨⟨12⟩⟩) := run_eq_of_outcome (by decide)
  exact ⟨hrun, by decide, (checked_names_iff hrun).2.mpr (by decide)⟩

/-- **A checked class may have a method with two type parameters of one name.** -/
theorem checked_repeats_name :
    let s := ((util "A").2.attach (util "A").1 none []).1
    let b := utilAssembled "A"
    let s' := (b.check s).1
    Issued s (.assembled b) ∧ b.check s = (s', .ok ⟨⟨12⟩⟩) ∧
      ∃ m ∈ s'.methodsOf ⟨12⟩, s'.env.checkDuplicates m.typeParams ≠ .ok () := by
  intro s b s'
  have hrun : b.check s = (s', .ok ⟨⟨12⟩⟩) := run_eq_of_outcome (by decide)
  have hattach : (util "A").2.attach (util "A").1 none [] = (s, .ok (utilAttached "A")) :=
    run_eq_of_outcome (by decide)
  have hspare : Reachable (spare "A") := reachable_afterAll Reachable.builtin _
  have hissued : Issued s (.assembled b) :=
    .assemble (.addMethod _ (.attach (.declare _ _ hspare) hattach))
  exact ⟨hissued, hrun, by decide⟩

end Lineage.Proofs
