import Lineage.Proofs.Descent

/-!
# Coherent stores

A store may hold names that nobody has defined, links that lead nowhere and
variables bounded by anything. In a *coherent* store none of that happens, and its
hierarchy is no deeper than the depth limit. Whatever is asked about types of the
store then stays within the store, so that descent always has an answer and the
answer is exact.

Bounds are classes or variables. What lies above a type is therefore a class or a
variable as well, except above `null`; no array and no `null` is ever a proper
supertype of anything else.
-/

namespace Lineage.Proofs

open Store Relation

/-- The type mentions only classes and variables of the store. -/
def Within (s : Store) : Ty → Prop
  | .cls id => (s.className? id).isSome = true
  | .var v => (s.typeParam? v).isSome = true
  | .array element => Within s element
  | _ => True

instance decidableWithin (s : Store) : (t : Ty) → Decidable (Within s t)
  | .cls id => inferInstanceAs (Decidable ((s.className? id).isSome = true))
  | .var v => inferInstanceAs (Decidable ((s.typeParam? v).isSome = true))
  | .array element => decidableWithin s element
  | .prim _ => .isTrue trivial
  | .null => .isTrue trivial
  | .package _ => .isTrue trivial
  | .named _ => .isTrue trivial

/-- A class type or a variable. -/
def Nominal (t : Ty) : Prop := (∃ id, t = .cls id) ∨ ∃ v, t = .var v

/-- Every class is defined, every supertype link resolves to a class of the store, and every
variable is bounded by a class or a variable of the store. -/
structure Closed (s : Store) : Prop where
  defined : ∀ {id}, Within s (.cls id) → ∃ c, s.classDef? id = some c
  resolved : ∀ {id c link}, s.classDef? id = some c →
    link ∈ c.superclass.toList ++ c.interfaces →
      ∃ target, s.env.resolveLink link = .ok target ∧ Within s (.cls target)
  bounds : ∀ {v p}, s.typeParam? v = some p → Nominal p.bound ∧ Within s p.bound

/-- Moreover, no path of links without a repetition is longer than the depth limit. -/
structure Coherent (s : Store) : Prop extends Closed s where
  paths : ∀ t, PathsWithin s.env s.depthLimit t

variable {s : Store}

/-! ## Questions stay within the store -/

theorem Closed.link (h : Closed s) {t u : Ty} (hl : Link s.env t u) :
    Nominal u ∧ Within s u := by
  cases hl with
  | @cls id target c link hc hmem hres =>
      obtain ⟨target', hres', hwithin⟩ := h.resolved hc (followedLinks_subset s.env id c hmem)
      rw [hres] at hres'
      cases hres'
      exact ⟨.inl ⟨target, rfl⟩, hwithin⟩
  | bound hp => exact h.bounds hp

theorem Closed.charted (h : Closed s) {t : Ty} (ht : Within s t) : Charted s.env t := by
  cases t with
  | cls id =>
      obtain ⟨c, hc⟩ := h.defined ht
      -- the links that are followed are among those that are listed
      refine ⟨c, hc, fun link hlink => ?_⟩
      obtain ⟨target, hres, -⟩ := h.resolved hc (followedLinks_subset s.env id c hlink)
      exact ⟨target, hres⟩
  | var v => exact Option.isSome_iff_exists.mp ht
  | prim p => trivial
  | null => trivial
  | array element => trivial
  | package name => trivial
  | named name => trivial

theorem Closed.chartedAbove (h : Closed s) {t : Ty} (ht : Within s t) :
    ChartedAbove s.env t := by
  intro u hu
  rcases ReflTransGen.cases_tail hu with rfl | ⟨w, -, hl⟩
  · exact h.charted ht
  · exact h.charted (h.link hl).2

/-- **In a coherent store, descent is exact** for all types of the store. -/
theorem Coherent.descends (h : Coherent s) (hs : Reachable s) {child ancestor : Ty}
    (hwithin : Within s child) (hchild : child.isAmbiguous = false)
    (hanc : ancestor.isAmbiguous = false) :
    ∃ found, s.env.descends child ancestor = .ok found ∧
      (found = true ↔ ProperSupertype s.env child ancestor) :=
  descends_complete (rooted_of_reachable hs) hchild hanc (h.chartedAbove hwithin) (h.paths child)

/-! ## What lies above a type -/

theorem Coherent.directSupertype_nominal (h : Coherent s) {t u : Ty} (ht : t ≠ .null)
    (hd : DirectSupertype s.env t u) : Nominal u := by
  cases hd with
  | link hl => exact (h.link hl).1
  | top => exact .inl ⟨_, rfl⟩
  | array hmem =>
      simp only [Env.arraySupertypes, List.mem_cons, List.not_mem_nil, or_false] at hmem
      rcases hmem with rfl | rfl | rfl <;> exact .inl ⟨_, rfl⟩
  | null => exact absurd rfl ht

theorem Nominal.ne_null {t : Ty} (h : Nominal t) : t ≠ .null := by
  rintro rfl
  rcases h with ⟨id, h⟩ | ⟨v, h⟩ <;> cases h

theorem Coherent.above_nominal (h : Coherent s) {t u : Ty} (ht : t ≠ .null)
    (habove : Above s.env t u) : Nominal u := by
  induction habove with
  | single hd => exact h.directSupertype_nominal ht hd
  | tail _ hd ih => exact h.directSupertype_nominal ih.ne_null hd

/-- Only `null` lies below an array. -/
theorem Coherent.eq_null_of_above_array (h : Coherent s) {t element : Ty}
    (habove : Above s.env t (.array element)) : t = .null := by
  by_contra hne
  rcases h.above_nominal hne habove with ⟨id, heq⟩ | ⟨v, heq⟩ <;> cases heq

/-! ## Checking a store

Links and bounds can be checked one entry at a time. A store with no more classes and variables
than the limit has no longer path either. -/

/-- The links of every class and the bounds of every variable lead into the store. -/
def isClosed (s : Store) : Bool :=
  (s.slots.toList.all fun slot =>
    match slot.definition with
    | some c =>
      (c.superclass.toList ++ c.interfaces).all fun link =>
        match s.env.resolveLink link with
        | .ok target => (s.className? target).isSome
        | .error _ => false
    | none => false) &&
  s.typeParams.toList.all fun p =>
    match p.bound with
    | .cls id => (s.className? id).isSome
    | .var v => (s.typeParam? v).isSome
    | _ => false

/-- The class types and variables of the store. -/
def typesOf (s : Store) : List Ty :=
  (List.range s.slots.size).map (fun i => .cls ⟨i⟩) ++
    (List.range s.typeParams.size).map (fun i => .var ⟨i⟩)

theorem mem_typesOf {t : Ty} (hn : Nominal t) (ht : Within s t) : t ∈ typesOf s := by
  rcases hn with ⟨id, rfl⟩ | ⟨v, rfl⟩
  · have hlt : id.index < s.slots.size := by
      simpa [Within, className?] using ht
    exact List.mem_append_left _ (List.mem_map.mpr ⟨id.index, List.mem_range.mpr hlt, rfl⟩)
  · have hlt : v.index < s.typeParams.size := by
      simpa [Within, typeParam?] using ht
    exact List.mem_append_right _ (List.mem_map.mpr ⟨v.index, List.mem_range.mpr hlt, rfl⟩)

theorem slot_of_within {id : ClassId} (h : Within s (.cls id)) :
    ∃ slot ∈ s.slots.toList, s.classDef? id = slot.definition := by
  obtain ⟨name, hname⟩ := Option.isSome_iff_exists.mp h
  obtain ⟨slot, hslot, -⟩ := Option.map_eq_some_iff.mp hname
  exact ⟨slot, (Array.mem_of_getElem? hslot).val, by rw [classDef?, hslot]; rfl⟩

theorem within_of_classDef? {id : ClassId} {c : ClassDef} (h : s.classDef? id = some c) :
    Within s (.cls id) := by
  obtain ⟨slot, hslot, -⟩ := Option.bind_eq_some_iff.mp h
  simp [Within, className?, hslot]

theorem closed_of_isClosed (h : isClosed s = true) : Closed s := by
  rw [isClosed, Bool.and_eq_true, List.all_eq_true, List.all_eq_true] at h
  obtain ⟨hslots, hparams⟩ := h
  constructor
  case defined =>
    intro id hid
    -- every slot holds a definition, the one of this class among them
    obtain ⟨slot, hmem, hdef⟩ := slot_of_within hid
    have hslot := hslots slot hmem
    split at hslot
    · rename_i c hc
      exact ⟨c, hdef.trans hc⟩
    · cases hslot
  case resolved =>
    intro id c link hc hlink
    obtain ⟨slot, hmem, hdef⟩ := slot_of_within (within_of_classDef? hc)
    have hslot := hslots slot hmem
    rw [← hdef, hc] at hslot
    have hres := List.all_eq_true.mp hslot link hlink
    split at hres
    · rename_i target htarget
      exact ⟨target, htarget, hres⟩
    · cases hres
  case bounds =>
    intro v p hp
    -- a bound that is neither class nor variable fails the check
    have hbound := hparams p (Array.mem_of_getElem? hp).val
    split at hbound
    · rename_i id heq
      rw [heq]
      exact ⟨.inl ⟨id, rfl⟩, hbound⟩
    · rename_i w heq
      rw [heq]
      exact ⟨.inr ⟨w, rfl⟩, hbound⟩
    · cases hbound

theorem Closed.coherent (h : Closed s)
    (hsmall : s.slots.size + s.typeParams.size ≤ s.depthLimit + 1) : Coherent s := by
  refine ⟨h, fun t => ?_⟩
  by_cases hl : ∃ u, Link s.env t u
  · obtain ⟨u, hl⟩ := hl
    -- a type with links is one of the store, so a path stays in a list of that size
    have ht : t ∈ typesOf s := by
      cases hl with
      | @cls id _ _ _ hc => exact mem_typesOf (.inl ⟨id, rfl⟩) (within_of_classDef? hc)
      | @bound v _ hp =>
          exact mem_typesOf (.inr ⟨v, rfl⟩) (Option.isSome_iff_exists.mpr ⟨_, hp⟩)
    refine pathsWithin_of_closed ?_ ht (by simpa [typesOf] using hsmall)
    intro w _ u hu
    exact mem_typesOf (h.link hu).1 (h.link hu).2
  · -- a type without links starts no path
    intro rest hchain _
    cases rest with
    | nil => exact Nat.zero_le _
    | cons u rest => exact absurd ⟨u, (List.isChain_cons_cons.mp hchain).1⟩ hl

end Lineage.Proofs
