import Lineage.Proofs.Run

/-!
# Stores only grow

What a store has answered once it answers ever after: a position keeps its name and
a name its position, a definition and a method never change, and a variable keeps
its name, its bound and, once it has one, its owner. The first half of this module
says what each step does to each look-up; the second reads growth off that.

Growth is what makes the built-in classes dependable: whatever happens to a store,
the top class stays a class without supertypes, and the two interfaces above all
arrays stay interfaces that extend nothing.
-/

namespace Lineage.Proofs

open Store Relation

/-! ## Look-ups after a new name -/

theorem className?_interned (s : Store) (name : String) (id : ClassId) :
    (interned s name).className? id
      = if id = ⟨s.slots.size⟩ then some name else s.className? id := by
  obtain ⟨i⟩ := id
  unfold interned className?
  rw [Array.getElem?_push]
  -- the new name stands at the position behind all others
  by_cases h : i = s.slots.size
  · simp [h]
  · simp [h]

@[simp] theorem classDef?_interned (s : Store) (name : String) (id : ClassId) :
    (interned s name).classDef? id = s.classDef? id := by
  unfold interned classDef?
  rw [Array.getElem?_push]
  split
  · rename_i h
    rw [Array.getElem?_eq_none (by omega)]
    rfl
  · rfl

theorem idOf?_interned (s : Store) (name n : String) :
    (interned s name).idOf? n = if n = name then some ⟨s.slots.size⟩ else s.idOf? n := by
  unfold interned idOf?
  rw [List.lookup_cons]
  by_cases h : n = name
  · simp [h]
  · rw [if_neg h, beq_false_of_ne h]

/-! ## Look-ups after a new variable -/

theorem typeParam?_addTypeParam (s : Store) (decl : TypeParamDecl) (v : TypeVarId) :
    (s.addTypeParam decl).1.typeParam? v =
      if v = ⟨s.typeParams.size⟩ then
        some { name := decl.name, bound := decl.bound.getD (.cls s.wellKnown.object),
               owner := none, span := decl.span }
      else s.typeParam? v := by
  obtain ⟨i⟩ := v
  unfold addTypeParam typeParam?
  rw [Array.getElem?_push]
  by_cases h : i = s.typeParams.size
  · simp [h]
  · simp [h]

/-! ## Look-ups after a definition -/

theorem numbered_getElem? (container : ClassId) (first i : Nat) (ds : List MethodDecl) :
    (numbered container first ds)[i]? = ds[i]?.map (methodOf ⟨first + i⟩ container) := by
  simp [numbered]

namespace Defines

variable {s s' : Store} {id : ClassId} {decl : ClassDecl}

/-- The definition that the class gets. -/
abbrev definition (s : Store) (id : ClassId) (decl : ClassDecl) : ClassDef :=
  s.definitionOf id decl (nextMethodIds s decl.methods.length)

theorem className?_eq (h : Defines s id decl s') (k : ClassId) :
    s'.className? k = s.className? k := by
  unfold className?
  rw [h.slots, Array.getElem?_modify]
  split <;> simp [Option.map_map, Function.comp_def]

theorem idOf?_eq (h : Defines s id decl s') (name : String) : s'.idOf? name = s.idOf? name := by
  rw [idOf?, h.names, idOf?]

theorem classDef?_eq (h : Defines s id decl s') (k : ClassId) :
    s'.classDef? k = if k = id then some (definition s id decl) else s.classDef? k := by
  unfold classDef?
  rw [h.slots, Array.getElem?_modify]
  by_cases hk : k = id
  · subst hk
    simp [h.admissible.slot]
  · -- classes are told apart by their positions
    have hne : id.index ≠ k.index := by
      intro he
      apply hk
      cases k; cases id; simp_all
    rw [if_neg hne, if_neg hk]

/-- The class was open before. -/
theorem classDef?_before (h : Defines s id decl s') : s.classDef? id = none := by
  unfold classDef?
  rw [h.admissible.slot]
  rfl

theorem method?_eq (h : Defines s id decl s') (k : MethodId) :
    s'.method? k = if k.index < s.methods.size then s.method? k
      else (decl.methods[k.index - s.methods.size]?).map (methodOf k id) := by
  obtain ⟨i⟩ := k
  unfold method?
  rw [h.methods, Array.getElem?_append]
  split
  · rfl
  · rename_i hi
    rw [List.getElem?_toArray, numbered_getElem?,
      show s.methods.size + (i - s.methods.size) = i by
        have : ¬ i < s.methods.size := hi
        omega]

end Defines

/-! ## Growth -/

/-- `p'` is `p`, except that it may have found its owner. -/
structure Keeps (p p' : TypeParam) : Prop where
  name : p'.name = p.name
  bound : p'.bound = p.bound
  span : p'.span = p.span
  owner : ∀ {o}, p.owner = some o → p'.owner = some o

theorem Keeps.refl (p : TypeParam) : Keeps p p := ⟨rfl, rfl, rfl, id⟩

theorem Keeps.trans {p q r : TypeParam} (h₁ : Keeps p q) (h₂ : Keeps q r) : Keeps p r where
  name := h₂.name.trans h₁.name
  bound := h₂.bound.trans h₁.bound
  span := h₂.span.trans h₁.span
  owner := fun h => h₂.owner (h₁.owner h)

/-- A variable that was free, or had this owner, keeps everything when the owner is recorded. -/
theorem Keeps.setOwner {p : TypeParam} {o : Owner} (h : p.owner = none ∨ p.owner = some o) :
    Keeps p { p with owner := some o } where
  name := rfl
  bound := rfl
  span := rfl
  owner := by
    intro o' ho'
    rcases h with h | h
    · rw [h] at ho'; cases ho'
    · rw [h] at ho'; exact ho'

/-- Whatever `s` answers, `s'` answers too. -/
structure Grows (s s' : Store) : Prop where
  wellKnown : s'.wellKnown = s.wellKnown
  depthLimit : s'.depthLimit = s.depthLimit
  className : ∀ {id n}, s.className? id = some n → s'.className? id = some n
  idOf : ∀ {n id}, s.idOf? n = some id → s'.idOf? n = some id
  classDef : ∀ {id c}, s.classDef? id = some c → s'.classDef? id = some c
  method : ∀ {id m}, s.method? id = some m → s'.method? id = some m
  typeParam : ∀ {v p}, s.typeParam? v = some p → ∃ p', s'.typeParam? v = some p' ∧ Keeps p p'

theorem Grows.refl (s : Store) : Grows s s where
  wellKnown := rfl
  depthLimit := rfl
  className := id
  idOf := id
  classDef := id
  method := id
  typeParam := fun {_ p} hp => ⟨p, hp, Keeps.refl p⟩

theorem Grows.trans {s₁ s₂ s₃ : Store} (h₁ : Grows s₁ s₂) (h₂ : Grows s₂ s₃) : Grows s₁ s₃ where
  wellKnown := h₂.wellKnown.trans h₁.wellKnown
  depthLimit := h₂.depthLimit.trans h₁.depthLimit
  className := fun h => h₂.className (h₁.className h)
  idOf := fun h => h₂.idOf (h₁.idOf h)
  classDef := fun h => h₂.classDef (h₁.classDef h)
  method := fun h => h₂.method (h₁.method h)
  typeParam := by
    intro v p hp
    obtain ⟨q, hq, hpq⟩ := h₁.typeParam hp
    obtain ⟨r, hr, hqr⟩ := h₂.typeParam hq
    exact ⟨r, hr, hpq.trans hqr⟩

theorem grows_interned {s : Store} {name : String} (h : s.idOf? name = none) :
    Grows s (interned s name) where
  wellKnown := rfl
  depthLimit := rfl
  className := by
    intro id n hn
    rw [className?_interned, if_neg ?_]
    · exact hn
    · -- the new position lies behind every position that has a name
      rintro rfl
      simp [className?] at hn
  idOf := by
    intro n id hid
    rw [idOf?_interned, if_neg ?_]
    · exact hid
    · rintro rfl
      rw [h] at hid
      cases hid
  classDef := fun hc => by rw [classDef?_interned]; exact hc
  method := id
  typeParam := fun {_ p} hp => ⟨p, hp, Keeps.refl p⟩

theorem grows_addTypeParam (s : Store) (decl : TypeParamDecl) :
    Grows s (s.addTypeParam decl).1 where
  wellKnown := rfl
  depthLimit := rfl
  className := id
  idOf := id
  classDef := id
  method := id
  typeParam := by
    intro v p hp
    refine ⟨p, ?_, Keeps.refl p⟩
    rw [typeParam?_addTypeParam, if_neg ?_]
    · exact hp
    · -- no variable had the new position
      rintro rfl
      simp [typeParam?] at hp

theorem grows_setOwner {s : Store} {o : Owner} {v : TypeVarId} (h : Bindable s o v) :
    Grows s (s.setOwner o v) where
  wellKnown := setOwner_wellKnown s o v
  depthLimit := setOwner_depthLimit s o v
  className := fun hn => by simpa [className?] using hn
  idOf := fun hid => by simpa [idOf?] using hid
  classDef := fun hc => by simpa [classDef?] using hc
  method := fun hm => by simpa [method?] using hm
  typeParam := by
    intro w p hp
    rw [typeParam?_setOwner]
    split
    · rename_i hw
      -- the variable that is bound was free, or belonged to the owner already
      subst hw
      obtain ⟨q, hq, hown⟩ := h
      rw [hp] at hq
      cases hq
      exact ⟨{ p with owner := some o }, by rw [hp]; rfl, Keeps.setOwner hown⟩
    · exact ⟨p, hp, Keeps.refl p⟩

theorem grows_defines {s s' : Store} {id : ClassId} {decl : ClassDecl}
    (h : Defines s id decl s') : Grows s s' where
  wellKnown := h.wellKnown
  depthLimit := h.depthLimit
  className := fun hn => by rw [h.className?_eq]; exact hn
  idOf := fun hid => by rw [h.idOf?_eq]; exact hid
  classDef := by
    intro k c hc
    rw [h.classDef?_eq, if_neg ?_]
    · exact hc
    · -- only an open class is defined
      rintro rfl
      rw [h.classDef?_before] at hc
      cases hc
  method := by
    intro k m hm
    have hlt : k.index < s.methods.size := (Array.getElem?_eq_some_iff.mp hm).1
    rw [h.method?_eq, if_pos hlt]
    exact hm
  typeParam := by
    intro v p hp
    -- listed by the class, by a method, or by neither and then untouched
    by_cases hclass : v ∈ decl.typeParams
    · obtain ⟨q, hq, hq'⟩ := h.classVar hclass
      obtain ⟨r, hr, hown⟩ := h.admissible.classVars v hclass
      obtain rfl : p = q := Option.some.inj (hp.symm.trans hq)
      obtain rfl : p = r := Option.some.inj (hp.symm.trans hr)
      exact ⟨_, hq', Keeps.setOwner hown⟩
    · by_cases hmethod : v ∈ methodVars decl.methods
      · obtain ⟨⟨r, hr, hown⟩, _⟩ := h.admissible.methodVars v hmethod
        obtain ⟨d, hd, hv⟩ := List.mem_flatMap.mp hmethod
        obtain ⟨i, hi⟩ := List.getElem?_of_mem hd
        obtain ⟨q, hq, hq'⟩ := h.methodVar hi hv
        obtain rfl : p = q := Option.some.inj (hp.symm.trans hq)
        obtain rfl : p = r := Option.some.inj (hp.symm.trans hr)
        exact ⟨_, hq', Keeps.setOwner (Or.inl hown)⟩
      · exact ⟨p, by rw [h.otherVar hclass hmethod]; exact hp, Keeps.refl p⟩

/-- Every step grows the store. -/
theorem grows_step {s s' : Store} (h : Step s s') : Grows s s' := by
  cases h with
  | intern h => exact grows_interned h
  | addTypeParam decl => exact grows_addTypeParam s decl
  | setOwner h => exact grows_setOwner h
  | define h => exact grows_defines h

/-- **Every call grows the store, whether or not it is refused.** -/
theorem grows_after (s : Store) (c : Change) : Grows s (after s c) :=
  steps_induction (P := Grows s) (fun hst hg => hg.trans (grows_step hst)) (steps_after s c)
    (Grows.refl s)

/-- What a store answers about classes does not depend on its depth limit. -/
theorem grows_classDef_limit {s s' : Store} {limit : Nat} {id : ClassId} {c : ClassDef}
    (h : Grows { s with depthLimit := limit } s') (hc : s.classDef? id = some c) :
    s'.classDef? id = some c := h.classDef hc

/-- The classes that a store begins with are defined the same way ever after. -/
theorem reachable_classDef {s : Store} (h : Reachable s) {id : ClassId} {c : ClassDef}
    (hc : Store.builtin.classDef? id = some c) : s.classDef? id = some c := by
  induction h with
  | builtin => exact hc
  | withSettings settings => exact grows_classDef_limit (Grows.refl _) hc
  | tail change _ ih => exact (grows_after _ change).classDef ih

theorem reachable_wellKnown {s : Store} (h : Reachable s) : s.wellKnown = wellKnownIds :=
  reachable_induction (P := fun s => s.wellKnown = wellKnownIds) rfl (fun _ h => h)
    (fun hst h => (grows_step hst).wellKnown.trans h) h

end Lineage.Proofs
