import Lineage.Proofs.Enclosure

/-!
# Being written in a class is a strict order

The walk outwards from a class has two guards: it does not come back to the class where
it began, and it does not meet another class twice. Seen from a class on the way the
guards are different ones, because the walk from there begins with that class and knows
nothing of those before it. Still the two walks agree: what the one finds from there on is
what the other finds (`enclosingClasses_drop`).

The guards play no part in this. Each class has at most one class directly around it, so a
way outwards that comes to an end has no repetitions (`Around.nodup`); otherwise it would
be as long as a proper part of it. A walk therefore succeeds exactly if the way comes to
an end and is not too long, and that is handed down to every rest of the way. That one
class lies in another is a matter of positions in one list, and so a strict order.

If the way outwards leads into a circle there is no end. All classes on such a way are
defined and each is followed by another one (`InCircles.next`), so nothing but a guard
stops the walk.
-/

namespace Lineage.Proofs

open Relation

section Suffixes

variable {env : Env}

theorem Around.drop {outer : Option ClassId} {classes : List ClassId}
    (h : Around env outer classes) {i : Nat} {k : ClassId} (hk : classes[i]? = some k) :
    ∃ d, env.classDef? k = some d ∧ Around env d.outer (classes.drop (i + 1)) := by
  induction h generalizing i with
  | outermost => simp at hk
  | @inside o d rest hd haround ih =>
      cases i with
      | zero =>
          cases hk
          exact ⟨d, hd, haround⟩
      | succ i => exact ih hk

theorem Around.unique {outer : Option ClassId} {classes classes' : List ClassId}
    (h : Around env outer classes) (h' : Around env outer classes') : classes = classes' := by
  induction h generalizing classes' with
  | outermost =>
      cases h'
      rfl
  | @inside o d rest hd _ ih =>
      cases h' with
      | inside hd' hrest =>
          -- a class has one definition, so the two ways go on from the same place
          rw [hd] at hd'
          cases hd'
          rw [ih hrest]

/-- A way outwards that comes to an end does not pass the class where it began: it would be as long
as a rest of it. -/
theorem Around.not_mem {c : ClassId} {d : ClassDef} {classes : List ClassId}
    (hd : env.classDef? c = some d) (h : Around env d.outer classes) : c ∉ classes := by
  intro hmem
  obtain ⟨i, hi⟩ := List.mem_iff_getElem?.mp hmem
  obtain ⟨e, he, hrest⟩ := h.drop hi
  rw [hd] at he
  cases he
  -- from the same class the way is as long the second time as the first
  have hlen := congrArg List.length (h.unique hrest)
  have hlt : i < classes.length := (List.getElem?_eq_some_iff.mp hi).1
  rw [List.length_drop] at hlen
  omega

/-- **A way outwards that comes to an end has no repetitions.** -/
theorem Around.nodup {outer : Option ClassId} {classes : List ClassId}
    (h : Around env outer classes) : classes.Nodup := by
  induction h with
  | outermost => exact List.nodup_nil
  | inside hd haround ih => exact List.nodup_cons.mpr ⟨haround.not_mem hd, ih⟩

/-- So the guards stop nothing but ways that are too long, and ways that do not come to an end. -/
theorem enclosingClasses_eq_ok_iff_around {id : ClassId} {classes : List ClassId} :
    env.enclosingClasses id = .ok classes ↔
      ∃ d, env.classDef? id = some d ∧ Around env d.outer classes ∧
        classes.length ≤ env.depthLimit := by
  rw [enclosingClasses_eq_ok_iff]
  refine exists_congr fun d => and_congr_right fun hd => and_congr_right fun haround => ?_
  refine and_iff_right ⟨haround.nodup, fun x hx hmem => haround.not_mem hd ?_⟩
  rw [← List.mem_singleton.mp hmem]
  exact hx

/-- **The classes around a class on the way are the rest of the way.** -/
theorem enclosingClasses_drop {id k : ClassId} {classes : List ClassId} {i : Nat}
    (h : env.enclosingClasses id = .ok classes) (hk : classes[i]? = some k) :
    env.enclosingClasses k = .ok (classes.drop (i + 1)) := by
  obtain ⟨d, -, haround, hroom⟩ := enclosingClasses_eq_ok_iff_around.mp h
  obtain ⟨e, he, hrest⟩ := haround.drop hk
  refine enclosingClasses_eq_ok_iff_around.mpr ⟨e, he, hrest, ?_⟩
  rw [List.length_drop]
  omega

theorem not_mem_enclosingClasses {id : ClassId} {classes : List ClassId}
    (h : env.enclosingClasses id = .ok classes) : id ∉ classes := by
  obtain ⟨d, hd, haround, -⟩ := enclosingClasses_eq_ok_iff_around.mp h
  exact haround.not_mem hd

end Suffixes

/-! ## The order -/

section Order

variable {env : Env}

theorem isEnclosed_eq_ok_iff {inner outer : ClassId} {answer : Bool} :
    env.isEnclosed inner outer = .ok answer ↔
      ∃ classes, env.enclosingClasses inner = .ok classes ∧ (answer = true ↔ outer ∈ classes) := by
  unfold Env.isEnclosed
  rw [bind_eq_ok_iff]
  refine exists_congr fun classes => and_congr_right fun _ => ?_
  rw [pure_eq_ok, Except.ok.injEq, ← List.contains_iff_mem, ← Bool.eq_iff_iff, eq_comm]

theorem isEnclosed_irrefl {c : ClassId} {answer : Bool} (h : env.isEnclosed c c = .ok answer) :
    answer = false := by
  obtain ⟨classes, hclasses, hiff⟩ := isEnclosed_eq_ok_iff.mp h
  exact Bool.eq_false_iff.mpr fun hyes => not_mem_enclosingClasses hclasses (hiff.mp hyes)

/-- What lies around the outer one of two classes is the rest of what lies around the inner one. -/
theorem enclosingClasses_outer {inner outer : ClassId}
    (h : env.isEnclosed inner outer = .ok true) :
    ∃ classes i, env.enclosingClasses inner = .ok classes ∧
      env.enclosingClasses outer = .ok (classes.drop i) := by
  obtain ⟨classes, hclasses, hiff⟩ := isEnclosed_eq_ok_iff.mp h
  obtain ⟨i, hi⟩ := List.mem_iff_getElem?.mp (hiff.mp rfl)
  exact ⟨classes, i + 1, hclasses, enclosingClasses_drop hclasses hi⟩

theorem isEnclosed_trans {a b c : ClassId} (hab : env.isEnclosed a b = .ok true)
    (hbc : env.isEnclosed b c = .ok true) : env.isEnclosed a c = .ok true := by
  obtain ⟨classes, i, ha, hb⟩ := enclosingClasses_outer hab
  obtain ⟨rest, hrest, hiff⟩ := isEnclosed_eq_ok_iff.mp hbc
  -- what lies around `b` is a rest of what lies around `a`
  rw [hb] at hrest
  cases hrest
  have hc : c ∈ classes := List.mem_of_mem_drop (hiff.mp rfl)
  exact isEnclosed_eq_ok_iff.mpr ⟨classes, ha, iff_of_true rfl hc⟩

theorem isEnclosed_asymm {a b : ClassId} (hab : env.isEnclosed a b = .ok true) :
    env.isEnclosed b a = .ok false := by
  obtain ⟨classes, i, ha, hb⟩ := enclosingClasses_outer hab
  have hnot : a ∉ classes.drop i := fun hmem =>
    not_mem_enclosingClasses ha (List.mem_of_mem_drop hmem)
  exact isEnclosed_eq_ok_iff.mpr ⟨classes.drop i, hb, iff_of_false Bool.false_ne_true hnot⟩

end Order

/-! ## Circles -/

/-- The way outwards from the class leads into a circle, through the class or not. -/
def InCircles (env : Env) (c : ClassId) : Prop :=
  ∃ x, ReflTransGen (WrittenIn env) c x ∧ NestedIn env x x

section Circles

variable {env : Env}

/-- One step on the way into a circle is another such way. -/
theorem InCircles.next {c : ClassId} (h : InCircles env c) :
    ∃ outer, WrittenIn env c outer ∧ InCircles env outer := by
  obtain ⟨x, hcx, hxx⟩ := h
  rcases ReflTransGen.cases_head hcx with rfl | ⟨outer, hstep, hrest⟩
  · -- the class itself is on the circle
    obtain ⟨outer, hstep, hback⟩ := TransGen.head'_iff.mp hxx
    exact ⟨outer, hstep, c, hback, hxx⟩
  · exact ⟨outer, hstep, x, hrest, hxx⟩

/-- **On the way into a circle the walk is given up**, however much room there is. -/
theorem enclosingFrom_circles {c : ClassId} (h : InCircles env c) (n : Nat)
    (seen : List ClassId) : ∃ y, env.enclosingFrom n seen (some c) = .error (env.cyclic y) := by
  induction n generalizing c seen with
  | zero => exact ⟨c, rfl⟩
  | succ n ih =>
      rw [Env.enclosingFrom]
      by_cases hc : c ∈ seen
      · rw [if_pos hc]
        exact ⟨c, rfl⟩
      · -- the next class outwards is on the way into the circle again
        obtain ⟨outer, ⟨d, hd, houter⟩, hnext⟩ := h.next
        obtain ⟨y, hy⟩ := ih hnext (c :: seen)
        rw [if_neg hc, classDef_eq_ok_iff.mpr hd, ok_bind, houter, hy, error_bind]
        exact ⟨y, rfl⟩

theorem enclosingClasses_circles {c : ClassId} (h : InCircles env c) :
    ∃ y, env.enclosingClasses c = .error (env.cyclic y) := by
  obtain ⟨outer, ⟨d, hd, houter⟩, hnext⟩ := h.next
  unfold Env.enclosingClasses
  rw [classDef_eq_ok_iff.mpr hd, ok_bind, houter]
  exact enclosingFrom_circles hnext env.depthLimit [c]

end Circles

/--
**To be written in a class is a strict order, and one list tells it**, in every
environment. The classes around a class, where they can be told, are those that it is
written in, different from each other and from the class, and not more than the limit;
those around any of them are the rest of the list after it. So no class is found to lie
in itself, what lies in a class that lies in a third one lies in that one, and no two
classes lie in each other.

They can be told if the way outwards comes to an end within the limit. If it runs into a
circle, through the class or further out, this is reported.
-/
theorem enclosure_strict_order (env : Env) :
    (∀ (c : ClassId) (around : List ClassId), env.enclosingClasses c = .ok around →
      around.Nodup ∧ c ∉ around ∧ around.length ≤ env.depthLimit ∧
        (∀ x, x ∈ around ↔ NestedIn env c x) ∧
        ∀ (i : Nat) (k : ClassId), around[i]? = some k →
          env.enclosingClasses k = .ok (around.drop (i + 1))) ∧
    (∀ c answer, env.isEnclosed c c = .ok answer → answer = false) ∧
    (∀ a b c, env.isEnclosed a b = .ok true → env.isEnclosed b c = .ok true →
      env.isEnclosed a c = .ok true) ∧
    (∀ a b, env.isEnclosed a b = .ok true → env.isEnclosed b a = .ok false) ∧
    (∀ c d around, env.classDef? c = some d → Around env d.outer around →
      around.length ≤ env.depthLimit → env.enclosingClasses c = .ok around) ∧
    ∀ c x, ReflTransGen (WrittenIn env) c x → NestedIn env x x →
      ∃ y, env.enclosingClasses c = .error (env.cyclic y) := by
  refine ⟨?_, fun _ _ => isEnclosed_irrefl, fun _ _ _ => isEnclosed_trans,
    fun _ _ => isEnclosed_asymm, ?_, ?_⟩
  · intro c around h
    obtain ⟨d, hd, haround, hroom⟩ := enclosingClasses_eq_ok_iff_around.mp h
    exact ⟨haround.nodup, haround.not_mem hd, hroom, fun _ => mem_enclosingClasses_iff h,
      fun _ _ => enclosingClasses_drop h⟩
  · intro c d around hd haround hroom
    exact enclosingClasses_eq_ok_iff_around.mpr ⟨d, hd, haround, hroom⟩
  · intro c x hcx hxx
    exact enclosingClasses_circles ⟨x, hcx, hxx⟩

/-- Three classes in each other, as many as the limit allows, and one that is written in itself,
with another one in it. -/
def dolls : Store :=
  afterAll (Store.withSettings { maxHierarchyDepth := 2 })
    [.addClass { name := "p.Large" },
     .addClass { name := "p.Medium", outer := some ⟨12⟩ },
     .addClass { name := "p.Small", outer := some ⟨13⟩ },
     .addClass { name := "p.Hen", outer := some ⟨15⟩ },
     .addClass { name := "p.Egg", outer := some ⟨15⟩ }]

/-- The first three are ordered. The last one runs into the circle without being on it. -/
theorem enclosure_strict_order_dolls :
    let env := dolls.env
    (env.enclosingClasses ⟨14⟩ = .ok [⟨13⟩, ⟨12⟩] ∧ env.isEnclosed ⟨14⟩ ⟨13⟩ = .ok true ∧
        env.isEnclosed ⟨13⟩ ⟨12⟩ = .ok true ∧ env.isEnclosed ⟨14⟩ ⟨14⟩ = .ok false ∧
        Around env (some ⟨12⟩) [⟨12⟩] ∧ WrittenIn env ⟨16⟩ ⟨15⟩ ∧ NestedIn env ⟨15⟩ ⟨15⟩) ∧
      (NestedIn env ⟨14⟩ ⟨12⟩ ∧ env.enclosingClasses ⟨13⟩ = .ok [⟨12⟩]) ∧
      env.isEnclosed ⟨14⟩ ⟨12⟩ = .ok true ∧ env.isEnclosed ⟨12⟩ ⟨13⟩ = .ok false ∧
      env.enclosingClasses ⟨13⟩ = .ok [⟨12⟩] ∧
      ∃ y, env.enclosingClasses ⟨16⟩ = .error (env.cyclic y) := by
  intro env
  have hlist : env.enclosingClasses ⟨14⟩ = .ok [⟨13⟩, ⟨12⟩] := by rfl
  have hnear : env.isEnclosed ⟨14⟩ ⟨13⟩ = .ok true := by decide
  have hfar : env.isEnclosed ⟨13⟩ ⟨12⟩ = .ok true := by decide
  have hself : env.isEnclosed ⟨14⟩ ⟨14⟩ = .ok false := by decide
  have houter : ∀ {x : ClassId} {o : Option ClassId},
      (env.classDef? x).map (·.outer) = some o → ∃ d, env.classDef? x = some d ∧ d.outer = o :=
    Option.map_eq_some_iff.mp
  have hegg : WrittenIn env ⟨16⟩ ⟨15⟩ := houter (by decide)
  have hcircle : NestedIn env ⟨15⟩ ⟨15⟩ := .single (houter (by decide))
  obtain ⟨large, hlarge, hend⟩ := houter (x := ⟨12⟩) (o := none) (by decide)
  obtain ⟨medium, hmedium, hwritten⟩ := houter (x := ⟨13⟩) (o := some ⟨12⟩) (by decide)
  have haround : Around env (some ⟨12⟩) [⟨12⟩] := .inside hlarge (hend ▸ .outermost)
  obtain ⟨htold, -, htrans, hasymm, htell, hcycle⟩ := enclosure_strict_order env
  obtain ⟨-, -, -, hmem, hrest⟩ := htold _ _ hlist
  exact ⟨⟨hlist, hnear, hfar, hself, haround, hegg, hcircle⟩,
    ⟨(hmem _).mp (by decide), hrest 0 ⟨13⟩ rfl⟩, htrans _ _ _ hnear hfar, hasymm _ _ hfar,
    htell _ medium _ hmedium (hwritten ▸ haround) (by decide),
    hcycle _ _ (.single hegg) hcircle⟩

end Lineage.Proofs
