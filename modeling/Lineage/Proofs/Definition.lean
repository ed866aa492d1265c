import Lineage.Proofs.Binding

/-!
# What a definition does

`define` looks before it changes anything, and then changes variables, methods
and the slot of the class in that order. Both halves can be refused: the checks
because the declaration is bad, the changes because a variable has an owner.

`Admissible` is what the checks establish, and `Defines` is everything a
definition does to a store. The two are joined by `define_of_admissible`: after
the checks no change is refused, although the changes look at owners that earlier
changes have set. What carries the argument is that the lists of the methods
share no variable with each other or with the class, so when a method's turn
comes its variables are as free as they were at the start.
-/

namespace Lineage.Proofs

open Store

/-! ## What the checks establish -/

theorem checkClassVars_eq_ok_iff {s : Store} {id : ClassId} {vs : List TypeVarId} :
    s.checkClassVars id vs = .ok () ↔ ∀ v ∈ vs, Bindable s (.cls id) v := by
  induction vs with
  | nil => simp [checkClassVars]
  | cons v vs ih =>
      unfold checkClassVars
      simp only [bind_eq_ok_iff, typeParam_eq_ok_iff, List.forall_mem_cons, ← ih]
      constructor
      · rintro ⟨p, hp, h⟩
        -- owned by no one or by this class, or else the check has failed
        split at h
        · rename_i o hown
          split at h
          · rename_i ho
            exact ⟨⟨p, hp, Or.inr (ho ▸ hown)⟩, h⟩
          · cases h
        · rename_i hown
          exact ⟨⟨p, hp, Or.inl hown⟩, h⟩
      · rintro ⟨⟨p, hp, hown⟩, h⟩
        refine ⟨p, hp, ?_⟩
        rcases hown with hown | hown <;> simp [hown, h]

theorem claimMethodVars_eq_ok_iff {s : Store} {name : String} {claimed vs : List TypeVarId}
    {claimed' : List TypeVarId} :
    s.claimMethodVars name claimed vs = .ok claimed' ↔
      claimed' = vs.reverse ++ claimed ∧ (∀ v ∈ vs, Unowned s v ∧ v ∉ claimed) ∧ vs.Nodup := by
  induction vs generalizing claimed with
  | nil => simp [claimMethodVars, eq_comm]
  | cons v vs ih =>
      unfold claimMethodVars
      simp only [bind_eq_ok_iff, typeParam_eq_ok_iff, List.forall_mem_cons, List.nodup_cons]
      constructor
      · rintro ⟨p, hp, h⟩
        split at h
        · cases h
        · rename_i hfree
          simp only [Bool.or_eq_true, Option.isSome_iff_ne_none, decide_eq_true_eq, not_or,
            not_not] at hfree
          -- claimed by now, the variable may not come again
          obtain ⟨hc, hvs, hnd⟩ := ih.mp h
          refine ⟨by simp [hc], ⟨⟨⟨p, hp, hfree.1⟩, hfree.2⟩, fun w hw => ?_⟩, ?_, hnd⟩
          · exact ⟨(hvs w hw).1, fun hmem => (hvs w hw).2 (List.mem_cons_of_mem _ hmem)⟩
          · exact fun hv => (hvs v hv).2 List.mem_cons_self
      · rintro ⟨hc, ⟨⟨⟨p, hp, hown⟩, hv⟩, hvs⟩, hnot, hnd⟩
        refine ⟨p, hp, ?_⟩
        rw [if_neg (by simp [hown, hv])]
        refine ih.mpr ⟨by simp [hc], fun w hw => ⟨(hvs w hw).1, ?_⟩, hnd⟩
        rintro hmem
        rcases List.mem_cons.mp hmem with rfl | hmem
        · exact hnot hw
        · exact (hvs w hw).2 hmem

/-- The variables that the methods of a declaration list, in order. -/
def methodVars (ds : List MethodDecl) : List TypeVarId := ds.flatMap (·.typeParams)

@[simp] theorem methodVars_cons (d : MethodDecl) (ds : List MethodDecl) :
    methodVars (d :: ds) = d.typeParams ++ methodVars ds := by
  simp [methodVars]

theorem mem_methodVars {ds : List MethodDecl} {d : MethodDecl} {v : TypeVarId}
    (hd : d ∈ ds) (hv : v ∈ d.typeParams) : v ∈ methodVars ds :=
  List.mem_flatMap.mpr ⟨d, hd, hv⟩

/-- The methods claim free variables, each of them once and none that is claimed already. -/
theorem checkMethodVars_eq_ok_iff {s : Store} {claimed : List TypeVarId} {ds : List MethodDecl} :
    s.checkMethodVars claimed ds = .ok () ↔
      (∀ v ∈ methodVars ds, Unowned s v ∧ v ∉ claimed) ∧ (methodVars ds).Nodup := by
  induction ds generalizing claimed with
  | nil => simp [checkMethodVars, methodVars]
  | cons d ds ih =>
      unfold checkMethodVars
      simp only [bind_eq_ok_iff, claimMethodVars_eq_ok_iff, ih, methodVars_cons,
        List.nodup_append, List.mem_append]
      constructor
      · rintro ⟨_, ⟨rfl, hd, hnd⟩, hds, hnds⟩
        refine ⟨fun v hv => ?_, hnd, hnds, fun v hv w hw hvw => ?_⟩
        · -- what the first method claims is refused to the others
          rcases hv with hv | hv
          · exact hd v hv
          · exact ⟨(hds v hv).1, fun hc => (hds v hv).2 (by simp [hc])⟩
        · subst hvw
          exact (hds v hw).2 (by simp [hv])
      · rintro ⟨hall, hnd, hnds, hdisj⟩
        refine ⟨_, ⟨rfl, fun v hv => hall v (Or.inl hv), hnd⟩, fun v hv => ?_, hnds⟩
        refine ⟨(hall v (Or.inr hv)).1, fun hc => ?_⟩
        simp only [List.mem_append, List.mem_reverse] at hc
        rcases hc with hc | hc
        · exact hdisj v hc v hv rfl
        · exact (hall v (Or.inr hv)).2 hc

theorem openSlot_eq_ok_iff {s : Store} {id : ClassId} {name : String} :
    s.openSlot id name = .ok () ↔ s.slots[id.index]? = some { name } := by
  unfold openSlot
  cases hslot : s.slots[id.index]? with
  | none => simp
  | some slot =>
      obtain ⟨n, definition⟩ := slot
      cases definition with
      | some c => simp
      | none =>
          by_cases hn : n = name
          · simp [hn]
          · simp [hn]

/-- Everything that a declaration must satisfy before a store takes it as the definition of `id`. -/
structure Admissible (s : Store) (id : ClassId) (decl : ClassDecl) : Prop where
  /-- The class is interned under the declared name and not defined yet. -/
  slot : s.slots[id.index]? = some { name := decl.name }
  /-- The methods are well formed on their own. -/
  methods : ∀ d ∈ decl.methods, checkMethodDecl decl.name d = .ok ()
  /-- The variables of the class exist and belong to no one else. -/
  classVars : ∀ v ∈ decl.typeParams, Bindable s (.cls id) v
  /-- The variables of the methods are free and not those of the class. -/
  methodVars : ∀ v ∈ methodVars decl.methods, Unowned s v ∧ v ∉ decl.typeParams
  /-- No variable is listed twice by the methods. -/
  distinct : (Proofs.methodVars decl.methods).Nodup

theorem checkDefinition_eq_ok_iff {s : Store} {id : ClassId} {decl : ClassDecl} :
    s.checkDefinition id decl = .ok () ↔ Admissible s id decl := by
  unfold checkDefinition
  simp only [check_bind_eq_ok_iff, openSlot_eq_ok_iff, forM_eq_ok_iff, checkClassVars_eq_ok_iff,
    checkMethodVars_eq_ok_iff]
  constructor
  · rintro ⟨hslot, hmethods, hclass, hvars, hnd⟩
    exact ⟨hslot, hmethods, hclass, hvars, hnd⟩
  · rintro ⟨hslot, hmethods, hclass, hvars, hnd⟩
    exact ⟨hslot, hmethods, hclass, hvars, hnd⟩

/-! ## Adding methods -/

/-- The positions that the next `n` methods take. -/
def nextMethodIds (s : Store) (n : Nat) : List MethodId :=
  (List.range' s.methods.size n).map MethodId.mk

/-- The methods that declarations turn into, numbered from `first`. -/
def numbered (container : ClassId) (first : Nat) (ds : List MethodDecl) : List Method :=
  ds.mapIdx fun i d => methodOf ⟨first + i⟩ container d

@[simp] theorem numbered_nil (container : ClassId) (first : Nat) :
    numbered container first [] = [] := rfl

@[simp] theorem numbered_cons (container : ClassId) (first : Nat) (d : MethodDecl)
    (ds : List MethodDecl) :
    numbered container first (d :: ds)
      = methodOf ⟨first⟩ container d :: numbered container (first + 1) ds := by
  simp only [numbered, List.mapIdx_cons, Nat.add_zero]
  congr 2
  funext i d
  rw [show first + (i + 1) = first + 1 + i by omega]

theorem numbered_append (container : ClassId) (first : Nat) (ds ds' : List MethodDecl) :
    numbered container first (ds ++ ds')
      = numbered container first ds ++ numbered container (first + ds.length) ds' := by
  induction ds generalizing first with
  | nil => rfl
  | cons d ds ih =>
      rw [List.cons_append, numbered_cons, numbered_cons, ih, List.cons_append, List.length_cons,
        show first + 1 + ds.length = first + (ds.length + 1) by omega]

theorem length_numbered (container : ClassId) (first : Nat) (ds : List MethodDecl) :
    (numbered container first ds).length = ds.length := by
  simp [numbered]

/-- `s'` is `s` with the methods of a list added and made the owners of their variables. -/
structure Adds (container : ClassId) (s : Store) (ds : List MethodDecl) (s' : Store) : Prop where
  frame : ∃ methods params, s' = { s with methods, typeParams := params }
  methods : s'.methods = s.methods ++ (numbered container s.methods.size ds).toArray
  owned : ∀ {i d v}, ds[i]? = some d → v ∈ d.typeParams →
    ∃ p, s.typeParam? v = some p ∧
      s'.typeParam? v = some { p with owner := some (.method ⟨s.methods.size + i⟩) }
  others : ∀ {v}, v ∉ methodVars ds → s'.typeParam? v = s.typeParam? v

/-- Adding one method whose variables are free. -/
theorem addMethod_adds (container : ClassId) {s : Store} {d : MethodDecl}
    (hfree : ∀ v ∈ d.typeParams, Unowned s v) :
    ∃ s', s.addMethod container d = (s', .ok ⟨s.methods.size⟩) ∧ Adds container s [d] s' := by
  obtain ⟨params, hset⟩ := setOwners_eq (.method ⟨s.methods.size⟩) s d.typeParams
  refine ⟨{ setOwners (.method ⟨s.methods.size⟩) s d.typeParams with
    methods := s.methods.push (methodOf ⟨s.methods.size⟩ container d) }, ?_, ?_, ?_, ?_, ?_⟩
  · have hbind := bindTypeParams_eq (o := .method ⟨s.methods.size⟩)
      fun v hv => (hfree v hv).bindable _
    simp only [addMethod, hbind, hset]
  · exact ⟨_, _, by rw [hset]⟩
  · simp
  · -- there is one method, so its position is the first free one
    intro i d' v hd hv
    have hi : i = 0 := by
      have hlt := (List.getElem?_eq_some_iff.mp hd).1
      simpa using hlt
    subst hi
    cases hd
    obtain ⟨p, hp, _⟩ := hfree v hv
    refine ⟨p, hp, ?_⟩
    have := typeParam?_setOwners (.method ⟨s.methods.size⟩) s d.typeParams v
    rw [if_pos hv, hp] at this
    exact this
  · intro v hv
    have hv' : v ∉ d.typeParams := fun h => hv (mem_methodVars List.mem_cons_self h)
    have := typeParam?_setOwners (.method ⟨s.methods.size⟩) s d.typeParams v
    rw [if_neg hv'] at this
    exact this

/-- **Methods that share no variable are added without a refusal.** -/
theorem addMethods_adds (container : ClassId) {s : Store} {ds : List MethodDecl}
    (hfree : ∀ v ∈ methodVars ds, Unowned s v) (hnd : (methodVars ds).Nodup) :
    ∃ s', addMethods container s ds = (s', .ok (nextMethodIds s ds.length)) ∧
      Adds container s ds s' := by
  induction ds generalizing s with
  | nil =>
      refine ⟨s, rfl, ⟨s.methods, s.typeParams, rfl⟩, by simp, ?_, fun _ => rfl⟩
      intro i d v hd
      simp at hd
  | cons d ds ih =>
      rw [methodVars_cons] at hnd
      obtain ⟨hndd, hnds, hdisj⟩ := List.nodup_append.mp hnd
      obtain ⟨s₁, hrun₁, hadds₁⟩ := addMethod_adds container
        fun v hv => hfree v (mem_methodVars List.mem_cons_self hv)
      -- the variables still to come are not among those just bound
      have hother : ∀ v ∈ methodVars ds, s₁.typeParam? v = s.typeParam? v := by
        intro v hv
        apply hadds₁.others
        simp only [methodVars_cons, List.mem_append, not_or]
        exact ⟨fun hd => hdisj v hd v hv rfl, by simp [methodVars]⟩
      have hfree₁ : ∀ v ∈ methodVars ds, Unowned s₁ v := by
        intro v hv
        obtain ⟨p, hp, hown⟩ := hfree v (by simp [hv])
        exact ⟨p, by rw [hother v hv, hp], hown⟩
      obtain ⟨s₂, hrun₂, hadds₂⟩ := ih hfree₁ hnds
      have hsize : s₁.methods.size = s.methods.size + 1 := by simp [hadds₁.methods]
      refine ⟨s₂, ?_, ?_, ?_, ?_, ?_⟩
      · rw [addMethods, hrun₁]
        simp only [hrun₂]
        simp [nextMethodIds, hsize, List.range'_succ]
      · obtain ⟨_, _, h₁⟩ := hadds₁.frame
        obtain ⟨m, p, h₂⟩ := hadds₂.frame
        exact ⟨m, p, by rw [h₂, h₁]⟩
      · rw [hadds₂.methods, hsize, hadds₁.methods]
        simp
      · intro i d' v hd hv
        -- the first method is not touched again, the others are counted from the next position
        cases i with
        | zero =>
            cases hd
            obtain ⟨p, hp, hp₁⟩ := hadds₁.owned (i := 0) rfl hv
            refine ⟨p, hp, ?_⟩
            rw [hadds₂.others fun h => hdisj v hv v h rfl, hp₁]
        | succ i =>
            have hmem : v ∈ methodVars ds :=
              mem_methodVars (List.mem_of_getElem? (by simpa using hd)) hv
            obtain ⟨p, hp, hp₂⟩ := hadds₂.owned (by simpa using hd) hv
            refine ⟨p, by rw [← hother v hmem, hp], ?_⟩
            rw [hp₂, hsize, show s.methods.size + 1 + i = s.methods.size + (i + 1) by omega]
      · intro v hv
        rw [methodVars_cons, List.mem_append, not_or] at hv
        rw [hadds₂.others hv.2, hadds₁.others]
        simpa [methodVars] using hv.1

/-! ## The whole definition -/

/-- Everything that defining `id` by `decl` does to a store. -/
structure Defines (s : Store) (id : ClassId) (decl : ClassDecl) (s' : Store) : Prop where
  admissible : Admissible s id decl
  wellKnown : s'.wellKnown = s.wellKnown
  depthLimit : s'.depthLimit = s.depthLimit
  names : s'.names = s.names
  slots : s'.slots = s.slots.modify id.index fun slot =>
    { slot with
      definition := some (s.definitionOf id decl (nextMethodIds s decl.methods.length)) }
  methods : s'.methods = s.methods ++ (numbered id s.methods.size decl.methods).toArray
  classVar : ∀ {v}, v ∈ decl.typeParams →
    ∃ p, s.typeParam? v = some p ∧ s'.typeParam? v = some { p with owner := some (.cls id) }
  methodVar : ∀ {i d v}, decl.methods[i]? = some d → v ∈ d.typeParams →
    ∃ p, s.typeParam? v = some p ∧
      s'.typeParam? v = some { p with owner := some (.method ⟨s.methods.size + i⟩) }
  otherVar : ∀ {v}, v ∉ decl.typeParams → v ∉ methodVars decl.methods →
    s'.typeParam? v = s.typeParam? v

/-- **An admissible declaration is taken, and no change it makes is refused on the way.** -/
theorem define_of_admissible {s : Store} {id : ClassId} {decl : ClassDecl}
    (h : Admissible s id decl) :
    ∃ s', s.define id decl = (s', .ok id) ∧ Defines s id decl s' := by
  obtain ⟨params, hset⟩ := setOwners_eq (.cls id) s decl.typeParams
  have hclass := typeParam?_setOwners (.cls id) s decl.typeParams
  have hbind : bindTypeParams (.cls id) s decl.typeParams
      = (setOwners (.cls id) s decl.typeParams, .ok ()) := bindTypeParams_eq h.classVars
  generalize setOwners (.cls id) s decl.typeParams = s₁ at hset hclass hbind
  -- the class has taken its variables, and those of the methods are still free
  have hfree : ∀ v ∈ methodVars decl.methods, Unowned s₁ v := by
    intro v hv
    obtain ⟨⟨p, hp, hown⟩, hnot⟩ := h.methodVars v hv
    exact ⟨p, by rw [hclass, if_neg hnot, hp], hown⟩
  obtain ⟨s₂, hadd, hadds⟩ := addMethods_adds id hfree h.distinct
  obtain ⟨methods, params₂, hframe⟩ := hadds.frame
  have hsize : s₁.methods = s.methods := by rw [hset]
  have hids : nextMethodIds s₁ decl.methods.length = nextMethodIds s decl.methods.length := by
    rw [nextMethodIds, hsize, nextMethodIds]
  -- what is stored does not depend on variables or methods
  have hdef : s₂.definitionOf id decl (nextMethodIds s₁ decl.methods.length)
      = s.definitionOf id decl (nextMethodIds s decl.methods.length) := by
    rw [hids, hframe, hset]
    rfl
  refine ⟨s₂.setDefinition id (s₂.definitionOf id decl (nextMethodIds s₁ decl.methods.length)),
    ?_, ⟨h, ?_, ?_, ?_, ?_, ?_, ?_, ?_, ?_⟩⟩
  · rw [define, checkDefinition_eq_ok_iff.mpr h]
    simp only [enter, hbind, hadd]
  · rw [hframe, hset]; rfl
  · rw [hframe, hset]; rfl
  · rw [hframe, hset]; rfl
  · rw [hdef, setDefinition, hframe, hset]
  · show s₂.methods = _
    rw [hadds.methods, hsize]
  · -- the methods leave the variables of the class alone, and the other way round
    intro v hv
    obtain ⟨p, hp, _⟩ := h.classVars v hv
    refine ⟨p, hp, ?_⟩
    have hnot : v ∉ methodVars decl.methods := fun hm => (h.methodVars v hm).2 hv
    show s₂.typeParam? v = _
    rw [hadds.others hnot, hclass, if_pos hv, hp]
    rfl
  · intro i d v hd hv
    have hmem : v ∈ methodVars decl.methods := mem_methodVars (List.mem_of_getElem? hd) hv
    obtain ⟨p, hp, hp₂⟩ := hadds.owned hd hv
    rw [hclass, if_neg (h.methodVars v hmem).2] at hp
    rw [hsize] at hp₂
    exact ⟨p, hp, hp₂⟩
  · intro v hv hm
    show s₂.typeParam? v = _
    rw [hadds.others hm, hclass, if_neg hv]

/-- A declaration that is not admissible is refused, and the store stays as it is. -/
theorem define_of_not_admissible {s : Store} {id : ClassId} {decl : ClassDecl}
    (h : ¬ Admissible s id decl) : ∃ e, s.define id decl = (s, .error e) := by
  cases hcheck : s.checkDefinition id decl with
  | error e => exact ⟨e, by rw [define, hcheck]⟩
  | ok u => exact absurd (checkDefinition_eq_ok_iff.mp hcheck) h

end Lineage.Proofs
