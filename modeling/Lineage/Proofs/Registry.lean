import Lineage.Proofs.Growth
import Mathlib.Data.List.Nodup

/-!
# The tables of a store agree

A store keeps four tables that point at each other: the slots and the name table,
the methods, and the variables with their owners. `Registry` says how they fit
together. None of its parts holds while a definition is half done (methods are in
the table before any class lists them), so each step is looked at as a whole, and
what a definition does is taken from `Defines`.

Two things do not follow from a part on its own. That a listed variable belongs to
whoever lists it needs growth: owners set by earlier steps are still there. That a
method is in exactly one list needs the numbering: a definition lists the positions
that were free before it, and all of them.
-/

namespace Lineage.Proofs

open Store

/-! ## The invariant -/

/-- Positions and names determine each other, and a definition carries the name of its slot. -/
structure NameTable (s : Store) : Prop where
  /-- A name is looked up to a position exactly when the position has that name. -/
  idOf_iff : ∀ {name id}, s.idOf? name = some id ↔ s.className? id = some name
  /-- The name table holds the names of the slots and nothing else. -/
  entry_iff : ∀ {name id}, (name, id) ∈ s.names ↔ s.className? id = some name
  definition_name : ∀ {id c}, s.classDef? id = some c → s.className? id = some c.name

/-- Members and the classes that list them agree. -/
structure MemberTable (s : Store) : Prop where
  method_id : ∀ {id m}, s.method? id = some m → m.id = id
  /-- A method is listed once by its container. -/
  method_listed : ∀ {id m}, s.method? id = some m →
    ∃ c, s.classDef? m.container = some c ∧ c.methods.count id = 1
  /-- What a class lists exists and has the class as its container. -/
  listed_method : ∀ {k c id}, s.classDef? k = some c → id ∈ c.methods →
    ∃ m, s.method? id = some m ∧ m.container = k
  field_container : ∀ {k c f}, s.classDef? k = some c → f ∈ c.fields → f.container = k

/-- The class or method lists the variable among its type parameters. -/
def Declares (s : Store) (v : TypeVarId) : Owner → Prop
  | .cls id => ∃ c, s.classDef? id = some c ∧ v ∈ c.typeParams
  | .method id => ∃ m, s.method? id = some m ∧ v ∈ m.typeParams

/-- Whoever lists a variable owns it. -/
def OwnersAgree (s : Store) : Prop :=
  ∀ {v o}, Declares s v o → ∃ p, s.typeParam? v = some p ∧ p.owner = some o

/-- Every class but the top one extends something. -/
def ClassesExtend (s : Store) : Prop :=
  ∀ {id c}, s.classDef? id = some c → c.isInterface = false → id ≠ s.wellKnown.object →
    c.superclass.isSome

/-- The tables of a store agree. -/
structure Registry (s : Store) : Prop where
  names : NameTable s
  members : MemberTable s
  owners : OwnersAgree s
  extend : ClassesExtend s

/-! ## Steps that leave most tables alone -/

theorem nameTable_of_eq {s s' : Store} (hnames : s'.names = s.names)
    (hname : ∀ id, s'.className? id = s.className? id)
    (hdef : ∀ {id c}, s'.classDef? id = some c → s.className? id = some c.name)
    (h : NameTable s) : NameTable s' where
  idOf_iff := by
    intro name id
    rw [hname, ← h.idOf_iff, idOf?, hnames, idOf?]
  entry_iff := by
    intro name id
    rw [hname, hnames]
    exact h.entry_iff
  definition_name := by
    intro id c hc
    rw [hname]
    exact hdef hc

/-- Classes and methods as before, and no variable has lost its owner. -/
theorem registry_of_grows {s s' : Store} (hg : Grows s s')
    (hclass : ∀ id, s'.classDef? id = s.classDef? id)
    (hmethod : ∀ id, s'.method? id = s.method? id) (hnames : NameTable s') (h : Registry s) :
    Registry s' where
  names := hnames
  members := by
    refine ⟨?_, ?_, ?_, ?_⟩
    · intro id m hm
      rw [hmethod] at hm
      exact h.members.method_id hm
    · intro id m hm
      rw [hmethod] at hm
      obtain ⟨c, hc, hcount⟩ := h.members.method_listed hm
      exact ⟨c, hg.classDef hc, hcount⟩
    · intro k c id hc hid
      rw [hclass] at hc
      obtain ⟨m, hm, hcont⟩ := h.members.listed_method hc hid
      exact ⟨m, hg.method hm, hcont⟩
    · intro k c f hc hf
      rw [hclass] at hc
      exact h.members.field_container hc hf
  owners := by
    intro v o hv
    -- nothing is listed that was not listed before, and owners stay
    have hold : Declares s v o := by
      cases o with
      | cls id =>
          obtain ⟨c, hc, hmem⟩ := hv
          exact ⟨c, by rw [← hclass]; exact hc, hmem⟩
      | method id =>
          obtain ⟨m, hm, hmem⟩ := hv
          exact ⟨m, by rw [← hmethod]; exact hm, hmem⟩
    obtain ⟨p, hp, hown⟩ := h.owners hold
    obtain ⟨p', hp', hkeeps⟩ := hg.typeParam hp
    exact ⟨p', hp', hkeeps.owner hown⟩
  extend := by
    intro id c hc hint hne
    rw [hclass] at hc
    rw [hg.wellKnown] at hne
    exact h.extend hc hint hne

theorem nameTable_interned {s : Store} {name : String} (hfresh : s.idOf? name = none)
    (h : NameTable s) : NameTable (interned s name) := by
  -- no slot carries the new name, and no name leads to the new position
  have hunused : ∀ id, s.className? id ≠ some name := by
    intro id hid
    rw [h.idOf_iff.mpr hid] at hfresh
    cases hfresh
  have hbeyond : ∀ n, s.className? ⟨s.slots.size⟩ ≠ some n := by
    intro n hn
    simp [className?] at hn
  refine ⟨?_, ?_, ?_⟩
  · intro n id
    rw [idOf?_interned, className?_interned]
    -- old name or new one, at an old position or the new one
    by_cases hn : n = name
    · subst hn
      by_cases hid : id = ⟨s.slots.size⟩
      · simp [hid]
      · simp only [if_true, if_neg hid, hunused id, iff_false, Option.some.injEq]
        exact fun he => hid he.symm
    · rw [if_neg hn]
      by_cases hid : id = ⟨s.slots.size⟩
      · subst hid
        simp only [if_true, Option.some.injEq]
        constructor
        · intro hlook
          exact absurd (h.idOf_iff.mp hlook) (hbeyond n)
        · intro he
          exact absurd he.symm hn
      · rw [if_neg hid]
        exact h.idOf_iff
  · intro n id
    rw [className?_interned]
    show (n, id) ∈ (name, (⟨s.slots.size⟩ : ClassId)) :: s.names ↔ _
    rw [List.mem_cons, h.entry_iff, Prod.mk.injEq]
    by_cases hid : id = ⟨s.slots.size⟩
    · subst hid
      simp [hbeyond n, eq_comm]
    · simp [hid]
  · intro id c hc
    rw [classDef?_interned] at hc
    exact (grows_interned hfresh).className (h.definition_name hc)

/-! ## Definitions -/

section Definition

variable {s s' : Store} {id : ClassId} {decl : ClassDecl}

theorem nextMethodIds_nodup (s : Store) (n : Nat) : (nextMethodIds s n).Nodup := by
  unfold nextMethodIds
  refine List.Nodup.map ?_ (List.nodup_range' 1)
  intro a b h
  exact MethodId.mk.inj h

theorem mem_nextMethodIds {s : Store} {n : Nat} {k : MethodId} :
    k ∈ nextMethodIds s n ↔ s.methods.size ≤ k.index ∧ k.index < s.methods.size + n := by
  obtain ⟨i⟩ := k
  simp [nextMethodIds, List.mem_range'_1]

/-- A method after a definition is an old one, or one that the definition brought. -/
theorem method?_defines (h : Defines s id decl s') {k : MethodId} {m : Method}
    (hm : s'.method? k = some m) :
    (k.index < s.methods.size ∧ s.method? k = some m) ∨
      ∃ i d, k = ⟨s.methods.size + i⟩ ∧ decl.methods[i]? = some d ∧ m = methodOf k id d := by
  rw [h.method?_eq] at hm
  split at hm
  · rename_i hlt
    exact Or.inl ⟨hlt, hm⟩
  · rename_i hge
    obtain ⟨d, hd, rfl⟩ := Option.map_eq_some_iff.mp hm
    -- positions that are not old are counted from the first free one
    refine Or.inr ⟨k.index - s.methods.size, d, ?_, hd, rfl⟩
    cases k
    simp only [MethodId.mk.injEq]
    simp only [Nat.not_lt] at hge
    omega

/-- A class after a definition is an old one, or the defined one. -/
theorem classDef?_defines (h : Defines s id decl s') {k : ClassId} {c : ClassDef}
    (hc : s'.classDef? k = some c) :
    s.classDef? k = some c ∨ k = id ∧ c = Defines.definition s id decl := by
  rw [h.classDef?_eq] at hc
  split at hc
  · rename_i hk
    exact Or.inr ⟨hk, (Option.some.inj hc).symm⟩
  · exact Or.inl hc

theorem nameTable_defines (h : Defines s id decl s') (hn : NameTable s) : NameTable s' := by
  refine nameTable_of_eq h.names h.className?_eq ?_ hn
  intro k c hc
  rcases classDef?_defines h hc with hold | ⟨rfl, rfl⟩
  · exact hn.definition_name hold
  · rw [className?, h.admissible.slot]
    rfl

theorem memberTable_defines (h : Defines s id decl s') (hm : MemberTable s) : MemberTable s' := by
  have hg := grows_defines h
  have hnew : s'.classDef? id = some (Defines.definition s id decl) := by
    rw [h.classDef?_eq, if_pos rfl]
  refine ⟨?_, ?_, ?_, ?_⟩
  · intro k m hk
    rcases method?_defines h hk with ⟨_, hold⟩ | ⟨i, d, rfl, _, rfl⟩
    · exact hm.method_id hold
    · rfl
  · intro k m hk
    rcases method?_defines h hk with ⟨_, hold⟩ | ⟨i, d, rfl, hd, rfl⟩
    · obtain ⟨c, hc, hcount⟩ := hm.method_listed hold
      exact ⟨c, hg.classDef hc, hcount⟩
    · -- a new method is listed by the class that brings it
      refine ⟨_, hnew, List.count_eq_one_of_mem (nextMethodIds_nodup s _) ?_⟩
      have hlt := (List.getElem?_eq_some_iff.mp hd).1
      exact mem_nextMethodIds.mpr ⟨by simp, by simpa using hlt⟩
  · intro k c i hc hi
    rcases classDef?_defines h hc with hold | ⟨rfl, rfl⟩
    · obtain ⟨m, hm', hcont⟩ := hm.listed_method hold hi
      exact ⟨m, hg.method hm', hcont⟩
    · -- the listed positions are exactly those the new methods take
      obtain ⟨hge, hlt⟩ := mem_nextMethodIds.mp hi
      have hd : i.index - s.methods.size < decl.methods.length := by omega
      refine ⟨methodOf i k decl.methods[i.index - s.methods.size], ?_, rfl⟩
      rw [h.method?_eq, if_neg (by omega), List.getElem?_eq_getElem hd]
      rfl
  · intro k c f hc hf
    rcases classDef?_defines h hc with hold | ⟨rfl, rfl⟩
    · exact hm.field_container hold hf
    · obtain ⟨d, _, rfl⟩ := List.mem_map.mp hf
      rfl

theorem ownersAgree_defines (h : Defines s id decl s') (ho : OwnersAgree s) : OwnersAgree s' := by
  have hg := grows_defines h
  have hkeep : ∀ {v o}, Declares s v o → ∃ p, s'.typeParam? v = some p ∧ p.owner = some o := by
    intro v o hv
    obtain ⟨p, hp, hown⟩ := ho hv
    obtain ⟨p', hp', hkeeps⟩ := hg.typeParam hp
    exact ⟨p', hp', hkeeps.owner hown⟩
  intro v o hv
  cases o with
  | cls k =>
      obtain ⟨c, hc, hmem⟩ := hv
      rcases classDef?_defines h hc with hold | ⟨rfl, rfl⟩
      · exact hkeep (o := .cls k) ⟨c, hold, hmem⟩
      · -- a definition gives its variables their owner
        obtain ⟨p, _, hp'⟩ := h.classVar hmem
        exact ⟨_, hp', rfl⟩
  | method k =>
      obtain ⟨m, hm, hmem⟩ := hv
      rcases method?_defines h hm with ⟨_, hold⟩ | ⟨i, d, rfl, hd, rfl⟩
      · exact hkeep (o := .method k) ⟨m, hold, hmem⟩
      · obtain ⟨p, _, hp'⟩ := h.methodVar hd hmem
        exact ⟨_, hp', rfl⟩

theorem classesExtend_defines (h : Defines s id decl s') (he : ClassesExtend s) :
    ClassesExtend s' := by
  intro k c hc hint hne
  rw [h.wellKnown] at hne
  rcases classDef?_defines h hc with hold | ⟨rfl, rfl⟩
  · exact he hold hint hne
  · show (s.effectiveSuperclass k decl).isSome
    -- without a superclass of its own it is given the top class
    have hflags : decl.flags.isInterface = false := hint
    unfold effectiveSuperclass
    cases decl.superclass with
    | some t => rfl
    | none => simp [hflags, hne]

end Definition

/-! ## The methods of classes -/

section Methods

variable {s : Store}

theorem mem_methodsOf_iff {k : ClassId} {m : Method} :
    m ∈ s.methodsOf k ↔
      ∃ c, s.classDef? k = some c ∧ ∃ i ∈ c.methods, s.method? i = some m := by
  unfold methodsOf
  cases s.classDef? k with
  | none => simp
  | some c => simp

/-- A method that a class lists is in the table under its own position, and belongs to the class. -/
theorem MemberTable.of_mem_methodsOf (h : MemberTable s) {k : ClassId} {m : Method}
    (hm : m ∈ s.methodsOf k) : s.method? m.id = some m ∧ m.container = k := by
  obtain ⟨c, hc, i, hi, hmi⟩ := mem_methodsOf_iff.mp hm
  obtain ⟨m', hm', hcont⟩ := h.listed_method hc hi
  rw [hmi] at hm'
  cases hm'
  rw [h.method_id hmi]
  exact ⟨hmi, hcont⟩

/-- A class lists a method once. -/
theorem MemberTable.nodup_methods (h : MemberTable s) {k : ClassId} {c : ClassDef}
    (hc : s.classDef? k = some c) : c.methods.Nodup := by
  rw [List.nodup_iff_count_eq_one]
  intro i hi
  obtain ⟨m, hm, hcont⟩ := h.listed_method hc hi
  obtain ⟨d, hd, hcount⟩ := h.method_listed hm
  rw [hcont, hc] at hd
  cases hd
  exact hcount

theorem MemberTable.nodup_methodsOf (h : MemberTable s) (k : ClassId) :
    (s.methodsOf k).Nodup := by
  unfold methodsOf
  cases hc : s.classDef? k with
  | none => exact List.nodup_nil
  | some c =>
      refine (h.nodup_methods hc).filterMap ?_
      -- a method knows its position, so two positions hold different methods
      intro i j m hi hj
      rw [← h.method_id hi, ← h.method_id hj]

/-- No method is among those of two classes. -/
theorem MemberTable.nodup_flatMap_methodsOf (h : MemberTable s) {ks : List ClassId}
    (hks : ks.Nodup) : (ks.flatMap s.methodsOf).Nodup := by
  rw [List.nodup_flatMap]
  refine ⟨fun k _ => h.nodup_methodsOf k, hks.imp ?_⟩
  intro k k' hne m hm hm'
  apply hne
  rw [← (h.of_mem_methodsOf hm).2, ← (h.of_mem_methodsOf hm').2]

end Methods

/-! ## Every store -/

theorem registry_empty : Registry emptyStore where
  names := ⟨by simp [emptyStore, idOf?, className?], by simp [emptyStore, className?],
    by simp [emptyStore, classDef?]⟩
  members := ⟨by simp [emptyStore, method?], by simp [emptyStore, method?],
    by simp [emptyStore, classDef?], by simp [emptyStore, classDef?]⟩
  owners := by
    intro v o hv
    cases o <;> simp [Declares, emptyStore, classDef?, method?] at hv
  extend := by
    intro id c hc
    simp [emptyStore, classDef?] at hc

theorem registry_step {s s' : Store} (hst : Step s s') (h : Registry s) : Registry s' := by
  have hg := grows_step hst
  cases hst with
  | intern hfresh =>
      exact registry_of_grows hg (classDef?_interned s _) (fun _ => rfl)
        (nameTable_interned hfresh h.names) h
  | addTypeParam decl =>
      exact registry_of_grows hg (fun _ => rfl) (fun _ => rfl)
        (nameTable_of_eq (s := s) rfl (fun _ => rfl) h.names.definition_name h.names) h
  | @setOwner o v hv =>
      -- an owner is written in the table of variables and nowhere else
      have hclass : ∀ id, (s.setOwner o v).classDef? id = s.classDef? id := by
        intro id; simp [classDef?]
      refine registry_of_grows hg hclass (fun id => by simp [method?])
        (nameTable_of_eq (setOwner_names s o v) (fun id => by simp [className?]) ?_ h.names) h
      intro id c hc
      rw [hclass] at hc
      exact h.names.definition_name hc
  | define hdef =>
      exact ⟨nameTable_defines hdef h.names, memberTable_defines hdef h.members,
        ownersAgree_defines hdef h.owners, classesExtend_defines hdef h.extend⟩

theorem registry_reachable {s : Store} (h : Reachable s) : Registry s :=
  reachable_induction registry_empty
    (fun _ h => ⟨⟨h.names.idOf_iff, h.names.entry_iff, h.names.definition_name⟩,
      ⟨h.members.method_id, h.members.method_listed, h.members.listed_method,
        h.members.field_container⟩, h.owners, h.extend⟩)
    registry_step h

/-! ## Methods as they were declared -/

/-- Every method is what a checked declaration has turned into, and lists no variable twice. -/
def MethodsDeclared (s : Store) : Prop :=
  ∀ {id m}, s.method? id = some m → ∃ className container d,
    checkMethodDecl className d = .ok () ∧ d.typeParams.Nodup ∧ m = methodOf id container d

theorem methodsDeclared_step {s s' : Store} (hst : Step s s') (h : MethodsDeclared s) :
    MethodsDeclared s' := by
  intro id m hm
  cases hst with
  | intern => exact h hm
  | addTypeParam decl => exact h hm
  | @setOwner o v =>
      rw [method?, setOwner_methods] at hm
      exact h hm
  | @define _ container decl hdef =>
      rcases method?_defines hdef hm with ⟨-, hold⟩ | ⟨i, d, rfl, hd, rfl⟩
      · exact h hold
      · -- an admissible class lists no variable twice, in one method or in two
        have hmem : d ∈ decl.methods := List.mem_of_getElem? hd
        have hdistinct := (List.nodup_flatMap.mp hdef.admissible.distinct).1 d hmem
        exact ⟨decl.name, container, d, hdef.admissible.methods d hmem, hdistinct, rfl⟩

theorem methodsDeclared_reachable {s : Store} (h : Reachable s) : MethodsDeclared s :=
  reachable_induction (by intro id m hm; simp [emptyStore, method?] at hm)
    (fun _ h => h) methodsDeclared_step h

/-- Two slots never carry the same name. -/
theorem NameTable.nodup {s : Store} (h : NameTable s) :
    (s.slots.toList.map (·.name)).Nodup := by
  have hname : ∀ i, (s.slots.toList.map (·.name))[i]? = s.className? ⟨i⟩ := by
    intro i
    simp [className?]
  rw [List.nodup_iff_getElem?_ne_getElem?]
  intro i j hij hj heq
  have hsome := List.getElem?_eq_getElem hj
  rw [hname] at heq hsome
  rw [hname, hsome] at heq
  have hi := h.idOf_iff.mpr heq
  rw [h.idOf_iff.mpr hsome] at hi
  have : j = i := ClassId.mk.inj (Option.some.inj hi)
  omega

/--
**The tables of every reachable store agree**, after refused calls as well: names and
positions are inverse to each other, every method is in the list of its container
and nowhere else, every field names its class, whoever lists a variable owns it, and
every class but the top one has a superclass.

So slots have different names, and no variable is listed by two declarations.
-/
theorem registry_of_reachable {s : Store} (h : Reachable s) :
    Registry s ∧ (s.slots.toList.map (·.name)).Nodup ∧
      ∀ v o o', Declares s v o → Declares s v o' → o = o' := by
  have hr := registry_reachable h
  refine ⟨hr, hr.names.nodup, ?_⟩
  intro v o o' ho ho'
  -- a variable has one owner, and both who list it are the owner
  obtain ⟨p, hp, hown⟩ := hr.owners ho
  obtain ⟨p', hp', hown'⟩ := hr.owners ho'
  rw [hp] at hp'
  cases hp'
  rw [hown] at hown'
  exact Option.some.inj hown'

/-- A class and a method with a variable each, and a class that is refused because it lists the
variable of the first. -/
def boxRun : List Change :=
  [.addTypeParam { name := "T" }, .addTypeParam { name := "U" },
   .addClass { name := "p.Box", typeParams := [⟨0⟩],
               methods := [{ name := "map", returnType := .var ⟨1⟩, typeParams := [⟨1⟩] }] },
   .addClass { name := "p.Other", typeParams := [⟨0⟩] }]

theorem registry_of_box_run :
    let s := afterAll Store.builtin boxRun
    (Reachable s ∧ s.isDefined ⟨12⟩ = true ∧ s.isDefined ⟨13⟩ = false) ∧
      Registry s ∧ (s.slots.toList.map (·.name)).Nodup ∧
      ∀ v o o', Declares s v o → Declares s v o' → o = o' := by
  have hreach := reachable_afterAll Reachable.builtin boxRun
  exact ⟨⟨hreach, by decide, by decide⟩, registry_of_reachable hreach⟩

end Lineage.Proofs
