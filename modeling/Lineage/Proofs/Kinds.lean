import Lineage.Proofs.Closure
import Lineage.Proofs.Coherence

/-!
# Links that keep to their kind

A superclass link should lead from a class to a class, and an interface link to an
interface. A store does not insist on it, and what is true of a hierarchy depends on how
much of it is the case. Four conditions are in use.

* `InterfacesKeepKind` asks least: what an interface lists is an interface, as far as it is
  defined. That is enough to know what lies above an interface, which is interfaces and the
  top class (`InterfacesKeepKind.detached_of_reach`).
* `PlainLinks` asks it of everything that is listed as an interface, and asks links to be
  class ids. These lead to the same class in every store.
* `KeepsKinds` asks that each link can be followed and leads to a class of the right kind.
* `WellKinded` is about the classes in a list only. An interface in the list must not have
  a superclass, because what it extends would not be followed.

The second and the third give the first, and the third gives the fourth for every list of
classes whose interfaces have no superclass.
-/

namespace Lineage.Proofs

open Store Relation

/-! ## Kinds -/

/-- The class is defined, as an interface or not. -/
def OfKind (env : Env) (interface : Bool) (id : ClassId) : Prop :=
  ∃ c, env.classDef? id = some c ∧ c.isInterface = interface

abbrev IsClass (env : Env) (id : ClassId) : Prop := OfKind env false id

abbrev IsInterface (env : Env) (id : ClassId) : Prop := OfKind env true id

/-- The class is an interface. -/
def isInterfaceClass (env : Env) (id : ClassId) : Bool := (env.classDef? id).any (·.isInterface)

/-- The link resolves to a class of that kind. -/
def LeadsTo (env : Env) (interface : Bool) (link : Ty) : Prop :=
  ∃ target, env.resolveLink link = .ok target ∧ OfKind env interface target

section Kinds

variable {env : Env} {id x y : ClassId}

theorem isInterfaceClass_iff : isInterfaceClass env id = true ↔ IsInterface env id := by
  rw [isInterfaceClass, Option.any_eq_true]
  rfl

theorem IsClass.not_interface (h : IsClass env id) : ¬ IsInterface env id := by
  intro h'
  obtain ⟨c, hc, hi⟩ := h
  obtain ⟨d, hd, hdi⟩ := h'
  rw [hc] at hd
  cases hd
  rw [hi] at hdi
  cases hdi

theorem LeadsTo.ofKind {interface : Bool} {link : Ty} (h : LeadsTo env interface link)
    (hres : env.resolveLink link = .ok id) : OfKind env interface id := by
  obtain ⟨target, hres', hkind⟩ := h
  rw [hres] at hres'
  cases hres'
  exact hkind

theorem hasSuperclass_iff : HasSuperclass env x y ↔
    ∃ c link, env.classDef? x = some c ∧ c.superclass = some link ∧
      env.resolveLink link = .ok y := by
  rw [HasSuperclass, superclassOf_eq_ok_iff]
  constructor
  · rintro ⟨c, hc, hsuper⟩
    cases hlink : c.superclass with
    | none =>
        rw [hlink] at hsuper
        cases hsuper
    | some link =>
        rw [hlink] at hsuper
        obtain ⟨p, hres, heq⟩ := hsuper
        exact ⟨c, link, hc, hlink, Option.some.inj heq ▸ hres⟩
  · rintro ⟨c, link, hc, hlink, hres⟩
    refine ⟨c, hc, ?_⟩
    rw [hlink]
    exact ⟨y, hres, rfl⟩

end Kinds

/-! ## Interfaces that list interfaces -/

/-- Where an interface lists a class that is defined, that class is an interface. -/
def InterfacesKeepKind (env : Env) : Prop :=
  ∀ {id c link target d}, env.classDef? id = some c → c.isInterface = true →
    link ∈ c.interfaces → env.resolveLink link = .ok target → env.classDef? target = some d →
      d.isInterface = true

/-- The top class, an interface, or a class that is not defined. -/
def Detached (env : Env) (t : Ty) : Prop :=
  t = env.objectType ∨ ∃ k, t = .cls k ∧ ∀ d, env.classDef? k = some d → d.isInterface = true

/-- **From interfaces only interfaces and the top class can be reached.** -/
theorem InterfacesKeepKind.detached_of_reach {env : Env} (h : InterfacesKeepKind env)
    (hroot : Rooted env) {t u : Ty} (ht : Detached env t)
    (hu : ReflTransGen (DirectSupertype env) t u) : Detached env u := by
  induction hu with
  | refl => exact ht
  | tail _ hedge ih =>
      -- nothing lies above the top class, and an interface lists interfaces
      rcases ih with rfl | ⟨k, rfl, hk⟩
      · exact absurd hedge (hroot.top _)
      · cases hedge with
        | top => exact .inl rfl
        | link hl =>
            cases hl with
            | @cls _ target c link hc hmem hres =>
                -- an interface is not followed to a superclass, whatever it lists as one
                have hi := hk c hc
                rw [followedLinks, if_pos hi] at hmem
                exact .inr ⟨target, rfl, fun d hd => h hc hi hmem hres hd⟩

/-! ## Stronger conditions -/

/-- Supertype links are class ids, and interface links lead to interfaces. -/
structure PlainLinks (s : Store) : Prop where
  ids : ∀ {id c link}, s.classDef? id = some c → link ∈ c.superclass.toList ++ c.interfaces →
    ∃ target, link = .cls target
  interfaces : ∀ {id c target d}, s.classDef? id = some c → .cls target ∈ c.interfaces →
    s.classDef? target = some d → d.isInterface = true

/-- Superclass links lead to classes and interface links to interfaces. -/
structure KeepsKinds (s : Store) : Prop where
  superclass : ∀ {id c link}, s.classDef? id = some c → c.superclass = some link →
    LeadsTo s.env false link
  interfaces : ∀ {id c link}, s.classDef? id = some c → link ∈ c.interfaces →
    LeadsTo s.env true link

/-- Links keep to their kind: an interface link leads to an interface, and a superclass link from
a class to a class. -/
structure WellKinded (env : Env) (all : List ClassId) : Prop where
  interfaces : ∀ x ∈ all, ∀ y, HasInterface env x y → isInterfaceClass env y = true
  superclasses : ∀ x ∈ all, ∀ y, HasSuperclass env x y →
    isInterfaceClass env x = false ∧ isInterfaceClass env y = false

section Implications

variable {s : Store}

theorem PlainLinks.interfacesKeepKind (h : PlainLinks s) : InterfacesKeepKind s.env := by
  intro id c link target d hc _ hmem hres hd
  obtain ⟨_, rfl⟩ := h.ids hc (List.mem_append_right _ hmem)
  cases hres
  exact h.interfaces hc hmem hd

theorem KeepsKinds.interfacesKeepKind (h : KeepsKinds s) : InterfacesKeepKind s.env := by
  intro id c link target d hc _ hmem hres hd
  obtain ⟨d', hd', hkind⟩ := (h.interfaces hc hmem).ofKind hres
  rw [hd] at hd'
  cases hd'
  exact hkind

theorem KeepsKinds.wellKinded (h : KeepsKinds s) {all : List ClassId}
    (hbare : ∀ x ∈ all, isInterfaceClass s.env x = true → s.env.superclassOf x = .ok none) :
    WellKinded s.env all where
  interfaces x _ y hy := by
    obtain ⟨is, his, hmem⟩ := hy
    obtain ⟨c, hc, htargets⟩ := interfacesOf_eq_ok_iff.mp his
    obtain ⟨link, hlink, hres⟩ := (mem_images_iff htargets).mp hmem
    exact isInterfaceClass_iff.mpr ((h.interfaces hc hlink).ofKind hres)
  superclasses x hx y hy := by
    obtain ⟨c, link, hc, hlink, hres⟩ := hasSuperclass_iff.mp hy
    constructor
    · -- an interface of the list has no superclass, so one that has is a class
      refine Bool.eq_false_iff.mpr fun hi => ?_
      rw [HasSuperclass, hbare x hx hi] at hy
      cases hy
    · have hclass : IsClass s.env y := (h.superclass hc hlink).ofKind hres
      exact Bool.eq_false_iff.mpr fun hi => hclass.not_interface (isInterfaceClass_iff.mp hi)

end Implications

/-! ## Checking a store -/

/-- The class that the link resolves to is defined and of that kind. -/
def leadsTo (env : Env) (interface : Bool) (link : Ty) : Bool :=
  match env.resolveLink link with
  | .ok target => (env.classDef? target).any (·.isInterface == interface)
  | .error _ => false

theorem leadsTo_of_check {env : Env} {interface : Bool} {link : Ty}
    (h : leadsTo env interface link = true) : LeadsTo env interface link := by
  unfold leadsTo at h
  split at h
  · rename_i target hres
    obtain ⟨c, hc, hkind⟩ := (Option.any_eq_true _ _).mp h
    exact ⟨target, hres, c, hc, beq_iff_eq.mp hkind⟩
  · cases h

/-- The links of every class lead to what they should. -/
def keepsKindsAll (s : Store) : Bool :=
  s.slots.toList.all fun slot =>
    match slot.definition with
    | some c => c.superclass.all (leadsTo s.env false) && c.interfaces.all (leadsTo s.env true)
    | none => true

theorem keepsKinds_of_check {s : Store} (h : keepsKindsAll s = true) : KeepsKinds s := by
  -- every definition stands in a slot, and the slots have been checked
  have hcheck : ∀ {id c}, s.classDef? id = some c →
      c.superclass.all (leadsTo s.env false) = true ∧
        c.interfaces.all (leadsTo s.env true) = true := by
    intro id c hc
    obtain ⟨slot, hmem, hdef⟩ := slot_of_within (within_of_classDef? hc)
    have hslot := List.all_eq_true.mp h slot hmem
    rw [← hdef, hc] at hslot
    exact Bool.and_eq_true_iff.mp hslot
  constructor
  · intro id c link hc hlink
    have hall := (hcheck hc).1
    rw [hlink] at hall
    exact leadsTo_of_check hall
  · intro id c link hc hlink
    exact leadsTo_of_check (List.all_eq_true.mp (hcheck hc).2 link hlink)

/-- The links of a store, checked one class at a time. -/
def hasPlainLinks (s : Store) : Bool :=
  s.slots.toList.all fun slot => slot.definition.all fun c =>
    (c.superclass.toList ++ c.interfaces).all (fun link => link.class?.isSome) &&
      c.interfaces.all fun link =>
        link.class?.all fun target => (s.classDef? target).all (·.isInterface)

theorem plainLinks_of_hasPlainLinks {s : Store} (h : hasPlainLinks s = true) :
    PlainLinks s := by
  have hclass : ∀ {id c}, s.classDef? id = some c →
      (∀ link ∈ c.superclass.toList ++ c.interfaces, link.class?.isSome = true) ∧
        ∀ link ∈ c.interfaces, ∀ target ∈ link.class?, ∀ d ∈ s.classDef? target,
          d.isInterface = true := by
    intro id c hc
    obtain ⟨slot, hslot, hdef⟩ := Option.bind_eq_some_iff.mp hc
    have hcheck := List.all_eq_true.mp h slot (Array.mem_of_getElem? hslot).val
    simpa [hdef, Option.all_eq_true, or_imp, forall_and] using hcheck
  constructor
  · intro id c link hc hlink
    have hsome := (hclass hc).1 link hlink
    cases link with
    | cls target => exact ⟨target, rfl⟩
    | _ => cases hsome
  · intro id c target d hc hlink hd
    exact (hclass hc).2 _ hlink target rfl d hd

end Lineage.Proofs
