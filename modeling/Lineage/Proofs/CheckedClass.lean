import Lineage.Proofs.Kinds
import Lineage.Proofs.Passes
import Lineage.Proofs.Persistence
import Lineage.Proofs.Registry

/-!
# What a checked class guarantees

The rules for a class are checked in two passes, the header when the class is attached
and its methods when it is defined, with anything happening in between. What the last
pass hands out is supposed to mean that all of them hold, together and now.

The rules for methods were checked on the store that the pass leaves behind, so they
only have to be read off the loop. The rules for the header were checked on an earlier
store, and there are two ways to lose them. The answers could change; they do not,
because links are class ids and answers persist. And the class itself could add a path
to the exceptions that was not there when its superclass was asked; it does not, because
the other links of the class lead to interfaces, and from interfaces only interfaces and
the top class can be reached.
-/

namespace Lineage.Proofs

open Store Relation

/-! ## The loop over overridden methods -/

section Overrides

variable {env : Env}

/-- Asked aloud, the answer is yes or an error, so asked quietly it is yes. -/
theorem canOverride_of_loud {mi mj : Method} {b : Bool}
    (h : env.canOverride mi mj false = .ok b) (quiet : Bool) :
    env.canOverride mi mj quiet = .ok true := by
  obtain ⟨violation, hv, h⟩ := bind_eq_ok_iff.mp h
  cases violation with
  | none =>
      unfold Env.canOverride
      rw [hv]
      rfl
  | some v => cases h

/-- The methods of one class that a method overrides, in declaration order. -/
def overriddenFrom (s : Store) (mi : Method) (k : ClassId) : List Method :=
  (s.methodsOf k).filter fun mj => mj.id ≠ mi.id && mi.overrideEquivalent mj

/-- Overridden methods are found in the order of the classes, all of which must be defined. -/
theorem overriddenIn_eq_ok_iff {s : Store} {mi : Method} {ids : List ClassId}
    {found : List Method} :
    s.env.overriddenIn mi ids = .ok found ↔
      (∀ k ∈ ids, ∃ c, s.classDef? k = some c) ∧ found = ids.flatMap (overriddenFrom s mi) := by
  induction ids generalizing found with
  | nil => simp [Env.overriddenIn, eq_comm]
  | cons id ids ih =>
      -- the methods of a class are those that it lists and the store knows
      have hfrom : ∀ {c}, s.classDef? id = some c →
          overriddenFrom s mi id = (c.methods.filterMap s.env.method?).filter
            fun mj => mj.id ≠ mi.id && mi.overrideEquivalent mj := by
        intro c hc
        rw [overriddenFrom, methodsOf, hc]
        rfl
      rw [List.forall_mem_cons, List.flatMap_cons]
      constructor
      · intro h
        obtain ⟨c, hc, h⟩ := bind_eq_ok_iff.mp h
        obtain ⟨others, hothers, h⟩ := bind_eq_ok_iff.mp h
        have hc : s.classDef? id = some c := classDef_eq_ok_iff.mp hc
        obtain ⟨hdefined, rfl⟩ := ih.mp hothers
        cases h
        exact ⟨⟨⟨c, hc⟩, hdefined⟩, by rw [hfrom hc]⟩
      · rintro ⟨⟨⟨c, hc⟩, hdefined⟩, rfl⟩
        refine bind_eq_ok_iff.mpr ⟨c, classDef_eq_ok_iff.mpr hc, ?_⟩
        refine bind_eq_ok_iff.mpr ⟨_, ih.mpr ⟨hdefined, rfl⟩, ?_⟩
        rw [hfrom hc]
        rfl

theorem mem_overriddenIn {s : Store} {mi mj : Method} {ids : List ClassId} {found : List Method}
    (h : s.env.overriddenIn mi ids = .ok found) {k : ClassId} (hk : k ∈ ids)
    (hmj : mj ∈ s.methodsOf k) (hne : mj.id ≠ mi.id) (heq : mi.overrideEquivalent mj = true) :
    mj ∈ found := by
  obtain ⟨-, rfl⟩ := overriddenIn_eq_ok_iff.mp h
  exact List.mem_flatMap.mpr ⟨k, hk, List.mem_filter.mpr ⟨hmj, by simp [hne, heq]⟩⟩

/-- A loop that ends has compared each method with all that it overrides above its class. -/
theorem overrides_of_check {s : Store} {ms : List Method}
    (h : s.env.checkOverrides ms = .ok ()) {mi : Method} (hmi : mi ∈ ms) :
    ∃ all, s.env.supertypeClosure mi.container = .ok all ∧
      ∀ k ∈ all, k ≠ mi.container → ∀ mj ∈ s.methodsOf k, mj.id ≠ mi.id →
        mi.overrideEquivalent mj = true → ∀ quiet, s.env.canOverride mi mj quiet = .ok true := by
  have hone := forM_eq_ok_iff.mp h mi hmi
  obtain ⟨overridden, hover, hloop⟩ := bind_eq_ok_iff.mp hone
  obtain ⟨all, hall, hin⟩ := bind_eq_ok_iff.mp hover
  refine ⟨all, hall, ?_⟩
  intro k hk hkne mj hmj hne heq
  -- the class itself is the head of the closure, and the loop takes the rest
  obtain ⟨⟨rest, rfl⟩, -⟩ := supertypeClosure_order hall
  have hrest : k ∈ rest := (List.mem_cons.mp hk).resolve_left hkne
  have hmem := mem_overriddenIn hin hrest hmj hne heq
  obtain ⟨b, hb, -⟩ := bind_eq_ok_iff.mp (forM_eq_ok_iff.mp hloop mj hmem)
  exact canOverride_of_loud hb

end Overrides

/-! ## Links that are class ids -/

/-- Such links lead where they lead in every store. -/
theorem PlainLinks.envGrows {s₀ s : Store} (h : PlainLinks s) (hg : Grows s₀ s) :
    EnvGrows s₀.env s.env := by
  refine hg.env fun hc hlink => ?_
  obtain ⟨target, rfl⟩ := h.ids (hg.classDef hc) hlink
  exact Persists.refl _

/-! ## The built-in classes that the rules mention -/

theorem reachable_flags {s : Store} (hs : Reachable s) {id : ClassId} {flags : Flags}
    (h : (Store.builtin.classDef? id).map (·.flags) = some flags) :
    ∃ c, s.classDef? id = some c ∧ c.flags = flags := by
  obtain ⟨c, hc, rfl⟩ := Option.map_eq_some_iff.mp h
  exact ⟨c, reachable_classDef hs hc, rfl⟩

/-- The class of all exceptions is defined, and is a class. -/
theorem reachable_throwable {s : Store} (hs : Reachable s) :
    ∃ c, s.classDef? s.wellKnown.throwable = some c ∧ c.isInterface = false := by
  have hdata : (Store.builtin.classDef? wellKnownIds.throwable).map (·.flags) = some .pub := by
    decide
  obtain ⟨c, hc, hflags⟩ := reachable_flags hs hdata
  rw [reachable_wellKnown hs]
  exact ⟨c, hc, by rw [ClassDef.isInterface, hflags]; rfl⟩

theorem top_not_enum {s : Store} (hs : Reachable s) :
    ∃ c, s.classDef? s.wellKnown.object = some c ∧ c.isEnum = false := by
  have hdata : (Store.builtin.classDef? wellKnownIds.object).map (·.flags) = some .pub := by
    decide
  obtain ⟨c, hc, hflags⟩ := reachable_flags hs hdata
  rw [reachable_wellKnown hs]
  exact ⟨c, hc, by rw [ClassDef.isEnum, hflags]; rfl⟩

/-- Exceptions are not reached from the top class or from interfaces. -/
theorem not_detached_throwable {s : Store} (hs : Reachable s) :
    ¬ Detached s.env (.cls s.wellKnown.throwable) := by
  intro h
  -- the class of all exceptions is neither the top class nor an interface
  rcases h with h | ⟨k, hk, hint⟩
  · rw [Env.objectType, Ty.cls.injEq] at h
    have hne : s.wellKnown.throwable ≠ s.wellKnown.object := by
      rw [reachable_wellKnown hs]
      decide
    exact hne h
  · cases hk
    obtain ⟨c, hc, hclass⟩ := reachable_throwable hs
    rw [hint c hc] at hclass
    cases hclass

theorem EnvGrows.isThrowable {env env' : Env} (h : EnvGrows env env') (t : Ty) :
    Persists (env.isThrowable t) (env'.isThrowable t) := by
  unfold Env.isThrowable Env.isUnder
  rw [h.wellKnown]
  exact Persists.ite (fun _ => Persists.refl _) fun _ => h.descends _ _

/-- What is found to be an exception leads to the class of all exceptions. -/
theorem reach_of_isThrowable {env : Env} {id : ClassId}
    (h : env.isThrowable (.cls id) = .ok true) :
    ReflTransGen (DirectSupertype env) (.cls id) (.cls env.wellKnown.throwable) := by
  unfold Env.isThrowable Env.isUnder at h
  split at h
  · rename_i heq
    rw [heq]
  · exact (descends_sound rfl rfl h).2.2.2.to_reflTransGen

/-- A class that is found to be no exception has none above it either. -/
theorem not_reach_of_isThrowable {s : Store} (hs : Reachable s) {id : ClassId}
    (hpaths : PathsWithin s.env s.depthLimit (.cls id))
    (h : s.env.isThrowable (.cls id) = .ok false) :
    ¬ ReflTransGen (DirectSupertype s.env) (.cls id) (.cls s.wellKnown.throwable) := by
  unfold Env.isThrowable Env.isUnder at h
  split at h
  · cases h
  · rename_i hne
    -- with paths this short, a no from the search is a proof that there is no path
    intro hreach
    rcases reflTransGen_iff_eq_or_transGen.mp hreach with heq | habove
    · exact hne heq.symm
    · exact not_properSupertype_of_descends (rooted_of_reachable hs) rfl rfl hpaths h
        ⟨hne, rfl, rfl, habove⟩

/-! ## The rules -/

/-- The rules for classes, at the class `id` with the definition `c`. -/
structure ObeysRules (s : Store) (id : ClassId) (c : ClassDef) : Prop where
  defined : s.classDef? id = some c
  /-- The type parameters have different names and belong to the class. -/
  params : ∃ ps, s.env.typeParamsOf c.typeParams = .ok ps ∧ (ps.map (·.name)).Nodup ∧
    ∀ p ∈ ps, p.owner = some (.cls id)
  /-- The superclass is defined and no enum. -/
  superclass : ∀ link ∈ c.superclass, ∃ parent p, s.env.resolveLink link = .ok parent ∧
    s.classDef? parent = some p ∧ p.isEnum = false
  /-- A generic class is neither the top class nor an exception. -/
  generic : c.typeParams ≠ [] →
    id ≠ s.wellKnown.object ∧ s.env.isThrowable (.cls id) ≠ .ok true
  /-- Every method may override what it overrides above the class. -/
  overrides : ∀ mi ∈ s.methodsOf id, ∃ all, s.env.supertypeClosure id = .ok all ∧
    ∀ k ∈ all, k ≠ id → ∀ mj ∈ s.methodsOf k, mj.id ≠ mi.id →
      mi.overrideEquivalent mj = true → ∀ quiet, s.env.canOverride mi mj quiet = .ok true

/-- Variables keep their names while a store grows. -/
theorem Grows.names {s s' : Store} (hg : Grows s s') {vars : List TypeVarId}
    {params : List TypeParam} (h : s.env.typeParamsOf vars = .ok params) :
    ∃ params', s'.env.typeParamsOf vars = .ok params' ∧
      params'.map (·.name) = params.map (·.name) := by
  simp only [typeParamsOf_eq_ok_iff] at h ⊢
  induction h with
  | nil => exact ⟨[], .nil, rfl⟩
  | @cons v p vars params hp _ ih =>
      obtain ⟨p', hp', hkeeps⟩ := hg.typeParam hp
      obtain ⟨params', hparams', hnames⟩ := ih
      refine ⟨p' :: params', .cons hp' hparams', ?_⟩
      rw [List.map_cons, List.map_cons, hnames, hkeeps.name]

/-- Variables that have found the owner `o` are listed as before, under the same names. -/
theorem Grows.typeParamsOf {s₀ s : Store} (hg : Grows s₀ s) {o : Owner} {vars : List TypeVarId}
    {ps : List TypeParam} (h : s₀.env.typeParamsOf vars = .ok ps)
    (hown : ∀ v ∈ vars, ∃ p, s.typeParam? v = some p ∧ p.owner = some o) :
    ∃ ps', s.env.typeParamsOf vars = .ok ps' ∧ ps'.map (·.name) = ps.map (·.name) ∧
      ∀ p ∈ ps', p.owner = some o := by
  obtain ⟨ps', hps', hnames⟩ := hg.names h
  refine ⟨ps', hps', hnames, fun p hp => ?_⟩
  -- a parameter in the list is that of the variable at its position
  obtain ⟨hlen, hget⟩ := List.forall₂_iff_get.mp (typeParamsOf_eq_ok_iff.mp hps')
  obtain ⟨i, hi, rfl⟩ := List.mem_iff_getElem.mp hp
  have hi' : i < vars.length := by omega
  obtain ⟨q, hq, howner⟩ := hown (vars.get ⟨i, hi'⟩) (List.get_mem vars ⟨i, hi'⟩)
  have heq : q = ps'[i] := Option.some.inj (hq.symm.trans (hget i hi' hi))
  rw [← heq]
  exact howner

section Rules

variable {s₀ s s' : Store} {id : ClassId} {decl : ClassDecl} (hs : Reachable s)
  (hs' : Reachable s')
  (hdef : Defines s id decl s') (hg : Grows s₀ s')
  (hheader : ProperHeader s₀.env id decl.superclass decl.typeParams) (hplain : PlainLinks s')

include hdef

theorem Defines.classDef?_new : s'.classDef? id = some (Defines.definition s id decl) := by
  rw [hdef.classDef?_eq, if_pos rfl]

include hs in
/-- The class was open until now, and exceptions are defined from the start. -/
theorem Defines.ne_throwable : id ≠ s'.wellKnown.throwable := by
  intro heq
  obtain ⟨c, hc, -⟩ := reachable_throwable hs
  rw [← hdef.wellKnown, ← heq, hdef.classDef?_before] at hc
  cases hc

include hg hheader

include hs' in
/-- Names stay, and whoever lists a variable owns it. -/
theorem params_of_header : ∃ ps, s'.env.typeParamsOf decl.typeParams = .ok ps ∧
    (ps.map (·.name)).Nodup ∧ ∀ p ∈ ps, p.owner = some (.cls id) := by
  obtain ⟨ps, hps, hnd⟩ := hheader.names
  have hown : ∀ v ∈ decl.typeParams, ∃ p, s'.typeParam? v = some p ∧ p.owner = some (.cls id) :=
    fun v hv => (registry_reachable hs').owners (o := .cls id) ⟨_, hdef.classDef?_new, hv⟩
  obtain ⟨ps', hps', hnames, hall⟩ := hg.typeParamsOf hps hown
  exact ⟨ps', hps', hnames ▸ hnd, hall⟩

include hplain

/-- A superclass link leads to the class that was written, or to the top class. -/
theorem superclass_of_header {link : Ty}
    (hlink : link ∈ (Defines.definition s id decl).superclass) :
    ∃ parent, link = .cls parent ∧ (parent = s'.wellKnown.object ∨
      .cls parent ∈ decl.superclass ∧ ∃ p, s'.classDef? parent = some p ∧ p.isEnum = false) := by
  have hmem : link ∈ (Defines.definition s id decl).superclass.toList ++
      (Defines.definition s id decl).interfaces :=
    List.mem_append_left _ (Option.mem_toList.mpr hlink)
  obtain ⟨parent, rfl⟩ := hplain.ids hdef.classDef?_new hmem
  refine ⟨parent, rfl, ?_⟩
  have hlink : Ty.cls parent ∈ s.effectiveSuperclass id decl := hlink
  unfold effectiveSuperclass at hlink
  -- without a superclass the top class is filled in, which the header never saw
  cases hsup : decl.superclass with
  | none =>
      simp only [hsup] at hlink
      split at hlink
      · cases hlink
        exact .inl (by rw [hdef.wellKnown])
      · cases hlink
  | some t =>
      simp only [hsup] at hlink
      cases hlink
      obtain ⟨p, c, hres, hc, hkind⟩ := hheader.parent (.cls parent) hsup
      cases hres
      exact .inr ⟨rfl, c, hg.classDef hc, hkind⟩

include hs'

/-- A generic class has no exception above it. -/
theorem not_above_throwable_of_header (hpaths : ∀ t, PathsWithin s'.env s'.depthLimit t)
    (hgeneric : decl.typeParams ≠ []) :
    ¬ Above s'.env (.cls id) (.cls s'.wellKnown.throwable) := by
  have hgrows := hplain.envGrows hg
  have hnotdet := not_detached_throwable hs'
  -- nothing detached leads to an exception
  have hdet : ∀ t, Detached s'.env t →
      ¬ ReflTransGen (DirectSupertype s'.env) t (.cls s'.wellKnown.throwable) :=
    fun t ht hreach => hnotdet
      (InterfacesKeepKind.detached_of_reach hplain.interfacesKeepKind (rooted_of_reachable hs') ht
        hreach)
  intro habove
  obtain ⟨u, hedge, hrest⟩ := TransGen.head'_iff.mp habove
  cases hedge with
  | top => exact hdet _ (.inl rfl) hrest
  | link hl =>
      cases hl with
      | @cls _ target c link hc hmem hres =>
          obtain rfl : Defines.definition s id decl = c :=
            Option.some.inj (hdef.classDef?_new.symm.trans hc)
          rcases List.mem_append.mp (followedLinks_subset _ _ _ hmem) with hsup | hint
          · -- the superclass was asked when it was vetted, and would answer the same now
            obtain ⟨parent, rfl, htop | ⟨hwritten, -⟩⟩ :=
              superclass_of_header hdef hg hheader hplain (Option.mem_toList.mp hsup)
            · cases hres
              subst htop
              exact hdet _ (.inl rfl) hrest
            · cases hres
              have hno : s'.env.isThrowable (.cls target) = .ok false :=
                hgrows.isThrowable (.cls target) false
                  (hheader.notThrowable hgeneric _ hwritten target rfl)
              exact not_reach_of_isThrowable hs' (hpaths _) hno hrest
          · -- an interface link leads to an interface, and that is detached
            obtain ⟨_, rfl⟩ := hplain.ids hc (List.mem_append_right _ hint)
            cases hres
            exact hdet _ (.inr ⟨target, rfl, fun d hd => hplain.interfaces hc hint hd⟩) hrest

include hs

/-- **A generic class is no exception.** -/
theorem not_throwable_of_header (hpaths : ∀ t, PathsWithin s'.env s'.depthLimit t)
    (hgeneric : decl.typeParams ≠ []) : s'.env.isThrowable (.cls id) ≠ .ok true := by
  intro hyes
  rcases reflTransGen_iff_eq_or_transGen.mp (reach_of_isThrowable hyes) with heq | habove
  · exact hdef.ne_throwable hs (Ty.cls.inj heq).symm
  · exact not_above_throwable_of_header hs' hdef hg hheader hplain hpaths hgeneric habove

end Rules

/--
**A checked class obeys the rules for classes**, in the store that the check leaves
behind and however its passes were spread over a run: it is defined, its type
parameters have different names and belong to it, it does not extend an enum, it is
neither the top class nor an exception if it is generic, and its methods may override
all that they override above it. This holds where supertype links are class ids,
interface links lead to interfaces, and no path of links is longer than the depth limit.
-/
theorem obeysRules_of_check {s s' : Store} {b : AssembledClass} {k : CheckedClass}
    (h : Issued s (.assembled b)) (hrun : b.check s = (s', .ok k)) (hplain : PlainLinks s')
    (hpaths : ∀ t, PathsWithin s'.env s'.depthLimit t) : ∃ c, ObeysRules s' k.id c := by
  obtain ⟨hid, hdef, hover⟩ := check_eq_ok hrun
  rw [hid]
  have hs : Reachable s := reachable_of_issued h
  have hs' : Reachable s' := by
    have hafter := Reachable.tail (.check b) hs
    rwa [after, hrun] at hafter
  obtain ⟨s₀, hg₀, hheader⟩ : Vetted s b.id b.decl := vetted_of_issued h
  have hg : Grows s₀ s' := hg₀.trans (grows_defines hdef)
  have hnew := hdef.classDef?_new
  refine ⟨_, hnew, params_of_header hs' hdef hg hheader, ?_, ?_, ?_⟩
  · intro link hlink
    obtain ⟨parent, rfl, rfl | ⟨-, p, hp, hkind⟩⟩ :=
      superclass_of_header hdef hg hheader hplain hlink
    · obtain ⟨c, hc, hkind⟩ := top_not_enum hs'
      exact ⟨_, c, rfl, hc, hkind⟩
    · exact ⟨parent, p, rfl, hp, hkind⟩
  · intro hgeneric
    refine ⟨?_, not_throwable_of_header hs hs' hdef hg hheader hplain hpaths hgeneric⟩
    rw [hg.wellKnown]
    exact hheader.notTop hgeneric
  · -- the loop speaks of the class of each method, which for these is this class
    intro mi hmi
    have hcont := ((registry_reachable hs').members.of_mem_methodsOf hmi).2
    obtain ⟨all, hall, hlegal⟩ := overrides_of_check hover hmi
    rw [hcont] at hall hlegal
    exact ⟨all, hall, hlegal⟩

/-- A generic class is declared and attached, another class is defined in between, and then the
first gets a method that overrides one of the top class. -/
theorem obeysRules_of_box_check :
    let declared := Store.builtin.declare { name := "p.Box", flags := .pub } [{ name := "T" }]
    let attached := declared.2.attach declared.1 (some (.cls wellKnownIds.number))
      [.cls wellKnownIds.cloneable]
    let a : AttachedClass :=
      { id := ⟨12⟩
        decl := declared.2.attachedDecl (some (.cls wellKnownIds.number))
          [.cls wellKnownIds.cloneable] }
    let s := after attached.1 (.addClass { name := "p.Other" })
    let b := (a.addMethod { name := "toString", returnType := .cls wellKnownIds.string,
                            flags := .pub }).assemble
    let s' := (b.check s).1
    (Issued s (.assembled b) ∧ b.check s = (s', .ok ⟨⟨12⟩⟩) ∧ PlainLinks s' ∧
        ∀ t, PathsWithin s'.env s'.depthLimit t) ∧
      ∃ c, ObeysRules s' ⟨12⟩ c := by
  intro declared attached a s b s'
  have hattach : declared.2.attach declared.1 (some (.cls wellKnownIds.number))
      [.cls wellKnownIds.cloneable] = (attached.1, .ok a) := by
    have houtcome : attached.2 = .ok a := by decide
    rw [← houtcome]
  have hissued : Issued s (.assembled b) :=
    .assemble (.addMethod _ (.later _ (.attach (.declare _ _ Reachable.builtin) hattach)))
  have houtcome : (b.check s).2 = .ok ⟨⟨12⟩⟩ := by decide
  have hrun : b.check s = (s', .ok ⟨⟨12⟩⟩) := by rw [← houtcome]
  have hplain : PlainLinks s' := plainLinks_of_hasPlainLinks (by decide)
  have hc : Coherent s' := (closed_of_isClosed (by decide)).coherent (by decide)
  exact ⟨⟨hissued, hrun, hplain, hc.paths⟩, obeysRules_of_check hissued hrun hplain hc.paths⟩

end Lineage.Proofs
