import Lineage.Proofs.Memory

/-!
# The candidates of a call, one by one

The search for the candidates of a call goes through the classes above the receiver and,
class by class, through the methods that each lists. Its result is a sieve: all methods
of these classes in a row, without those that the call cannot mean. What is in it, how
often and in which order can be read from the row.

A store that has come about by calls makes the row a good one. A class lists its own
methods and no others, so a method is in the row if its container is among the classes,
and only there. The closure of a class has no repetitions, even where interfaces are
inherited on two ways, and the top class is appended if and only if it is not in the
closure. To say that it comes last then, no case is needed: the position of something
that a list does not have is the length of the list.

The classes of the row are all defined, since the closure of the receiver has been
computed. So the search fails only if a question about one of the methods does.
-/

namespace Lineage.Proofs

open Store

/-! ## The row of methods -/

/-- In a list without repetitions, what comes earlier has the smaller position. -/
theorem pairwise_idxOf {α : Type} [DecidableEq α] {l : List α} (h : l.Nodup) :
    l.Pairwise fun a b => l.idxOf a < l.idxOf b := by
  rw [List.pairwise_iff_getElem]
  intro i j hi hj hij
  rw [h.idxOf_getElem, h.idxOf_getElem]
  exact hij

theorem mem_searched_iff {env : Env} {start x : ClassId} {closure classes : List ClassId}
    (hclosure : env.supertypeClosure start = .ok closure)
    (h : env.methodClasses start = .ok classes) :
    x ∈ classes ↔ x ∈ closure ∨ x = env.wellKnown.object := by
  obtain ⟨classes', hclasses', hmem⟩ := mem_methodClasses_iff hclosure
  rw [h] at hclasses'
  cases hclasses'
  exact hmem x

/-- The classes that are searched are in the order of the closure, the top class being last if the
closure does not have it. -/
theorem methodClasses_ordered {env : Env} {start : ClassId} {closure classes : List ClassId}
    (hclosure : env.supertypeClosure start = .ok closure)
    (h : env.methodClasses start = .ok classes) :
    classes.Pairwise fun x y => closure.idxOf x < closure.idxOf y := by
  have hordered := pairwise_idxOf (supertypeClosure_order hclosure).2
  unfold Env.methodClasses at h
  rw [hclosure, ok_bind] at h
  -- the top class, where it is appended, has the position behind all others
  split at h
  · cases h
    exact hordered
  · rename_i htop
    cases h
    refine List.pairwise_append.mpr ⟨hordered, List.pairwise_singleton _ _, fun x hx y hy => ?_⟩
    rw [List.mem_singleton.mp hy, List.idxOf_eq_length_iff.mpr htop]
    exact List.idxOf_lt_length_iff.mpr hx

/-- The container of the first method comes before that of the second, or both have the same
container and it lists the first method before the second. -/
def Precedes (s : Store) (closure : List ClassId) (x y : Method) : Prop :=
  closure.idxOf x.container < closure.idxOf y.container ∨
    x.container = y.container ∧ ∃ c, s.classDef? x.container = some c ∧
      c.methods.idxOf x.id < c.methods.idxOf y.id

/-- A method of the store whose container is in the closure, or is the top class. -/
def AtHand (s : Store) (closure : List ClassId) (m : Method) : Prop :=
  s.method? m.id = some m ∧ (m.container ∈ closure ∨ m.container = s.wellKnown.object)

section Row

variable {s : Store} (h : MemberTable s)

include h

/-- The methods of a class are in the order of declaration. -/
theorem methodsOf_ordered (closure : List ClassId) (k : ClassId) :
    (s.methodsOf k).Pairwise (Precedes s closure) := by
  unfold methodsOf
  cases hc : s.classDef? k with
  | none => exact List.Pairwise.nil
  | some c =>
      refine List.pairwise_filterMap.mpr ((pairwise_idxOf (h.nodup_methods hc)).imp_of_mem ?_)
      intro i j hi hj hij x hx y hy
      -- both are listed by `k`, so `k` is the container of both
      obtain ⟨hxk, hyk⟩ : x.container = k ∧ y.container = k :=
        ⟨(h.of_mem_methodsOf (mem_methodsOf_iff.mpr ⟨c, hc, i, hi, hx⟩)).2,
          (h.of_mem_methodsOf (mem_methodsOf_iff.mpr ⟨c, hc, j, hj, hy⟩)).2⟩
      refine .inr ⟨hxk.trans hyk.symm, c, hxk ▸ hc, ?_⟩
      rw [h.method_id hx, h.method_id hy]
      exact hij

theorem flatMap_methodsOf_ordered {closure classes : List ClassId}
    (hclasses : classes.Pairwise fun x y => closure.idxOf x < closure.idxOf y) :
    (classes.flatMap s.methodsOf).Pairwise (Precedes s closure) := by
  refine List.pairwise_flatMap.mpr ⟨fun k _ => methodsOf_ordered h closure k, hclasses.imp ?_⟩
  -- methods of different classes stand as their classes do
  intro k k' hlt x hx y hy
  left
  rw [(h.of_mem_methodsOf hx).2, (h.of_mem_methodsOf hy).2]
  exact hlt

/-- A method that is in the store is listed by its container. -/
theorem mem_flatMap_methodsOf_iff {classes : List ClassId} {m : Method} :
    m ∈ classes.flatMap s.methodsOf ↔ s.method? m.id = some m ∧ m.container ∈ classes := by
  rw [List.mem_flatMap]
  constructor
  · rintro ⟨k, hk, hm⟩
    obtain ⟨hstored, rfl⟩ := h.of_mem_methodsOf hm
    exact ⟨hstored, hk⟩
  · rintro ⟨hstored, hcont⟩
    -- a container lists each of its methods, and exactly once
    obtain ⟨c, hc, hcount⟩ := h.method_listed hstored
    have hlists : m.id ∈ c.methods := List.count_pos_iff.mp (hcount ▸ Nat.one_pos)
    exact ⟨m.container, hcont, mem_methodsOf_iff.mpr ⟨c, hc, m.id, hlists, hstored⟩⟩

/-- The methods of the searched classes are those at hand. -/
theorem mem_row_iff {start : ClassId} {closure classes : List ClassId}
    (hclosure : s.env.supertypeClosure start = .ok closure)
    (hclasses : s.env.methodClasses start = .ok classes) {m : Method} :
    m ∈ classes.flatMap s.methodsOf ↔ AtHand s closure m := by
  rw [mem_flatMap_methodsOf_iff h, mem_searched_iff hclosure hclasses]
  rfl

/-- What is asked about the methods of a class is asked about their container. -/
theorem flatMap_filter_methodsOf {classes : List ClassId} (p : ClassId → Method → Bool) :
    (classes.flatMap fun k => (s.methodsOf k).filter (p k)) =
      (classes.flatMap s.methodsOf).filter fun m => p m.container m := by
  rw [List.filter_flatMap]
  refine List.flatMap_congr fun k _ => List.filter_congr fun m hm => ?_
  rw [(h.of_mem_methodsOf hm).2]

end Row

/-- Different methods of a store have different positions. -/
theorem nodup_map_id {s : Store} {ms : List Method}
    (hstored : ∀ m ∈ ms, s.method? m.id = some m) (hms : ms.Nodup) :
    (ms.map Method.id).Nodup := by
  refine hms.map_on fun x hx y hy hid => ?_
  have hx' := hstored x hx
  rw [hid, hstored y hy] at hx'
  exact (Option.some.inj hx').symm

/-! ## The sieve -/

/-- What can be asked about the method has an answer: whether it fits and, if so, whether it may be
used where the call is made. -/
def Told (env : Env) (fits : Method → Except TypeError Bool) (ctx : AccessContext) (m : Method) :
    Prop :=
  fits m = .ok false ∨
    fits m = .ok true ∧ ∃ mayUse, env.isAccessible (.cls m.container) m.flags ctx = .ok mayUse

/-- The list has the methods at hand that have the name of the call, fit its arguments and may be
used where it is made, each of them once, in the order of their containers and then of
declaration. -/
structure Enumerates (s : Store) (fits : Method → Except TypeError Bool) (name : String)
    (ctx : AccessContext) (closure : List ClassId) (found : List Method) : Prop where
  mem_iff : ∀ m, m ∈ found ↔ AtHand s closure m ∧ m.name = name ∧ fits m = .ok true ∧
    s.env.isAccessible (.cls m.container) m.flags ctx = .ok true
  once : (found.map Method.id).Nodup
  ordered : found.Pairwise (Precedes s closure)

/-- What the search for the candidates of a call comes to that is looked up from the class `start`,
by a rule that has the given memory. -/
structure Enumerated {σ : Type} (s : Store) (rule : CallRule σ) (memory : σ) (call : MethodCall)
    (ctx : AccessContext) (start : ClassId) : Prop where
  found : ∀ found, ((Resolver.applicable ⟨s.env, rule⟩ call ctx).run.run memory).1 = .ok found →
    ∃ closure, s.env.supertypeClosure start = .ok closure ∧
      Enumerates s (fun m => ((rule m call.args).run.run memory).1) call.name ctx closure found
  answered : (∃ found,
      ((Resolver.applicable ⟨s.env, rule⟩ call ctx).run.run memory).1 = .ok found) ↔
    ∃ closure, s.env.supertypeClosure start = .ok closure ∧
      ∀ m, AtHand s closure m → m.name = call.name →
        Told s.env (fun m => ((rule m call.args).run.run memory).1) ctx m

theorem assessed_iff {r : Resolver Unit} {call : MethodCall} {ctx : AccessContext} {m : Method} :
    Assessed r call ctx m.container m ↔
      (m.name = call.name → Told r.env (fun m => answer (r.fits m call.args)) ctx m) := by
  unfold Assessed Told usableBy
  dsimp only
  refine forall_congr' fun _ => ?_
  rcases answer (r.fits m call.args) with e | fits
  · simp
  · cases fits <;> simp

/-- All classes that are searched are defined, and what they list is there. -/
theorem complete_of_mem_methodClasses {s : Store} (hs : Reachable s) {start : ClassId}
    {closure : List ClassId} (hclosure : s.env.supertypeClosure start = .ok closure)
    {k : ClassId} (hk : k ∈ closure ∨ k = s.wellKnown.object) : Complete s.env k := by
  have hdefined : ∃ c, s.classDef? k = some c := by
    -- in the closure because its links were read, at the top because that is built in
    rcases hk with hk | rfl
    · obtain ⟨visited, chain, hspec⟩ := supertypeClosure_spec hclosure
      obtain ⟨targets, hlists⟩ := hspec.lists hk
      obtain ⟨c, hc, -⟩ := lists_iff.mp hlists
      exact ⟨c, hc⟩
    · obtain ⟨c, hc, -⟩ := bareTop_of_reachable hs
      exact ⟨c, hc⟩
  obtain ⟨c, hc⟩ := hdefined
  refine ⟨c, hc, fun i hi => ?_⟩
  obtain ⟨m, hm, -⟩ := (registry_reachable hs).members.listed_method hc hi
  exact ⟨m, hm⟩

section Sieve

variable {s : Store} (hs : Reachable s) {rule : CallRule Unit} {call : MethodCall}
  {ctx : AccessContext} {start : ClassId}
  (hstart : s.env.receiverClass call.receiver "method" = .ok start)

include hs hstart

/-- **The candidates are a sieve of the row of methods.** -/
theorem applicable_eq_ok_iff {found : List Method} :
    answer (Resolver.applicable ⟨s.env, rule⟩ call ctx) = .ok found ↔
      ∃ closure classes, s.env.supertypeClosure start = .ok closure ∧
        s.env.methodClasses start = .ok classes ∧
        (∀ m ∈ classes.flatMap s.methodsOf, m.name = call.name →
          Told s.env (fun m => answer (rule m call.args)) ctx m) ∧
        found = (classes.flatMap s.methodsOf).filter
          fun m => offers ⟨s.env, rule⟩ call ctx m.container m := by
  have htable := (registry_reachable hs).members
  rw [applicable_eq, searchedClasses, hstart, ok_bind, bind_eq_ok_iff]
  constructor
  · rintro ⟨classes, hclasses, h⟩
    obtain ⟨closure, hclosure, -⟩ := bind_eq_ok_iff.mp hclasses
    obtain ⟨hassessed, rfl⟩ := applicableAlong_eq_ok_iff.mp h
    refine ⟨closure, classes, hclosure, hclasses, fun m hm => ?_,
      flatMap_filter_methodsOf htable _⟩
    -- the search asks about the listing class, which is the container
    obtain ⟨k, hk, hm⟩ := List.mem_flatMap.mp hm
    have hmk := (hassessed k hk).2 m hm
    rw [← (htable.of_mem_methodsOf hm).2] at hmk
    exact assessed_iff.mp hmk
  · rintro ⟨closure, classes, hclosure, hclasses, htold, rfl⟩
    refine ⟨classes, hclasses, applicableAlong_eq_ok_iff.mpr ⟨fun k hk => ⟨?_, fun m hm => ?_⟩,
      (flatMap_filter_methodsOf htable _).symm⟩⟩
    · exact complete_of_mem_methodClasses hs hclosure ((mem_searched_iff hclosure hclasses).mp hk)
    · rw [← (htable.of_mem_methodsOf hm).2]
      exact assessed_iff.mpr (htold m (List.mem_flatMap.mpr ⟨k, hk, hm⟩))

theorem applicable_enumerated : Enumerated s rule () call ctx start := by
  have htable := (registry_reachable hs).members
  constructor
  · intro found hfound
    obtain ⟨closure, classes, hclosure, hclasses, -, rfl⟩ :=
      (applicable_eq_ok_iff hs hstart).mp hfound
    -- a sieve keeps order and repeats nothing
    have hnodup := (htable.nodup_flatMap_methodsOf (methodClasses_nodup hclasses)).filter
      fun m => offers ⟨s.env, rule⟩ call ctx m.container m
    refine ⟨closure, hclosure, fun m => ?_, nodup_map_id (s := s) (fun m hm => ?_) hnodup, ?_⟩
    · rw [List.mem_filter, mem_row_iff htable hclosure hclasses, offers_iff]
      rfl
    · exact ((mem_row_iff htable hclosure hclasses).mp (List.mem_of_mem_filter hm)).1
    · exact (flatMap_methodsOf_ordered htable (methodClasses_ordered hclosure hclasses)).filter _
  · constructor
    · rintro ⟨found, hfound⟩
      obtain ⟨closure, classes, hclosure, hclasses, htold, -⟩ :=
        (applicable_eq_ok_iff hs hstart).mp hfound
      refine ⟨closure, hclosure, fun m hm => htold m ?_⟩
      exact (mem_row_iff htable hclosure hclasses).mpr hm
    · rintro ⟨closure, hclosure, htold⟩
      obtain ⟨classes, hclasses, -⟩ := mem_methodClasses_iff hclosure
      refine ⟨_, (applicable_eq_ok_iff hs hstart).mpr
        ⟨closure, classes, hclosure, hclasses, fun m hm => htold m ?_, rfl⟩⟩
      exact (mem_row_iff htable hclosure hclasses).mp hm

end Sieve

/-- The same for a rule with a memory, if it answers like one without. -/
theorem Enumerated.of_alike {σ : Type} {I : σ → Prop} {s : Store} {rule : CallRule σ}
    {rule' : CallRule Unit} {call : MethodCall} {ctx : AccessContext} {start : ClassId}
    (h : Enumerated s rule' () call ctx start) (halike : ∀ m, Alike I rule rule' m) {memory : σ}
    (hmemory : I memory) : Enumerated s rule memory call ctx start := by
  have hrun : ((Resolver.applicable ⟨s.env, rule⟩ call ctx).run.run memory).1 =
      answer (Resolver.applicable ⟨s.env, rule'⟩ call ctx) :=
    (applicable_mirrors (fun _ _ m _ => halike m) memory hmemory).1
  -- rule and search answer as without a memory, so nothing else has to be shown
  have hfits : (fun m => ((rule m call.args).run.run memory).1) =
      fun m => answer (rule' m call.args) :=
    funext fun m => (halike m call.args memory hmemory).1
  constructor
  · rw [hrun, hfits]
    exact h.found
  · rw [hrun, hfits]
    exact h.answered

/--
**The candidates of a call, one by one.** In every store that has come about by calls, the
candidates are the methods at hand that have the name of the call, fit its arguments and
may be used where it is made; each of them is there once; and they are in the order of
their containers and then of declaration. There is a list of candidates exactly if the
receiver's class has a closure and everything that is asked about the methods of that
name has an answer. This is so for every rule that remembers nothing, and for erased
parameters with whatever cache.
-/
theorem applicable_enumerates {s : Store} (hs : Reachable s) {call : MethodCall} {start : ClassId}
    (hstart : s.env.receiverClass call.receiver "method" = .ok start) (ctx : AccessContext) :
    (∀ rule : CallRule Unit, Enumerated s rule () call ctx start) ∧
      ∀ cache : ErasureCache, Enumerated s (CallRule.generic s.env) cache call ctx start := by
  refine ⟨fun rule => applicable_enumerated hs hstart, fun cache => ?_⟩
  exact (applicable_enumerated hs hstart).of_alike (sameErasures_supplies s.env cache).generic
    fun _ => rfl

/-- Methods that differ in their parameter. -/
def equalsDecl (flags : Flags) (param : Ty) : MethodDecl :=
  { name := "equals", returnType := .prim .boolean, flags, params := [param] }

/-- An interface that inherits another one on two ways. The one it inherits is generic. Of its own
overloads, the first takes something else than a string, and the second is private. -/
def equalsRun : List Change :=
  [.addTypeParam { name := "T" },
   .addClass { name := "p.Top", flags := .interface, typeParams := [⟨0⟩],
               methods := [equalsDecl .pub (.var ⟨0⟩)] },
   .addClass { name := "p.Left", flags := .interface, interfaces := [.cls ⟨12⟩],
               methods := [equalsDecl .pub (.cls wellKnownIds.object)] },
   .addClass { name := "p.Right", flags := .interface, interfaces := [.cls ⟨12⟩] },
   .addClass { name := "p.Bottom", flags := .interface, interfaces := [.cls ⟨13⟩, .cls ⟨14⟩],
               methods := [equalsDecl .pub (.cls wellKnownIds.integer),
                           equalsDecl .priv (.cls wellKnownIds.string),
                           equalsDecl .pub (.cls wellKnownIds.serializable)] },
   .addClass { name := "q.Other" }]

/-- A string fits the parameter of the generic interface only if that is erased. With both rules,
the method of the top class is last. -/
theorem applicable_enumerates_equals :
    let s := afterAll Store.builtin equalsRun
    let call : MethodCall := ⟨.cls ⟨15⟩, "equals", [.cls wellKnownIds.string]⟩
    let ctx : AccessContext := { current := ⟨16⟩ }
    let bottom := methodOf ⟨9⟩ ⟨15⟩ (equalsDecl .pub (.cls wellKnownIds.serializable))
    let left := methodOf ⟨6⟩ ⟨13⟩ (equalsDecl .pub (.cls wellKnownIds.object))
    let generic := methodOf ⟨5⟩ ⟨12⟩ (equalsDecl .pub (.var ⟨0⟩))
    let object := methodOf ⟨1⟩ ⟨0⟩ (equalsDecl .pub (.cls wellKnownIds.object))
    (Reachable s ∧ s.env.receiverClass call.receiver "method" = .ok ⟨15⟩ ∧
      answer ((Resolver.standard s.env).applicable call ctx) = .ok [bottom, left, object] ∧
      (((Resolver.generic s.env).applicable call ctx).run.run {}).1 =
        .ok [bottom, left, generic, object]) ∧
    (∃ closure, s.env.supertypeClosure ⟨15⟩ = .ok closure ∧
      Enumerates s (fun m => answer (CallRule.standard s.env m call.args)) "equals" ctx closure
        [bottom, left, object]) ∧
    ∃ closure, s.env.supertypeClosure ⟨15⟩ = .ok closure ∧
      Enumerates s (fun m => ((CallRule.generic s.env m call.args).run.run {}).1) "equals" ctx
        closure [bottom, left, generic, object] := by
  intro s call ctx bottom left generic object
  have hs : Reachable s := reachable_afterAll Reachable.builtin equalsRun
  have hstart : s.env.receiverClass call.receiver "method" = .ok ⟨15⟩ := rfl
  have hstandard : answer ((Resolver.standard s.env).applicable call ctx) =
      .ok [bottom, left, object] := by decide
  have hgeneric : (((Resolver.generic s.env).applicable call ctx).run.run {}).1 =
      .ok [bottom, left, generic, object] := by decide
  obtain ⟨hplain, herased⟩ := applicable_enumerates hs hstart ctx
  exact ⟨⟨hs, hstart, hstandard, hgeneric⟩, (hplain _).found _ hstandard,
    (herased {}).found _ hgeneric⟩

end Lineage.Proofs
