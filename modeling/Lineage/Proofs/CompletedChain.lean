import Lineage.Proofs.Dimensions
import Lineage.Proofs.FieldLookup
import Lineage.Proofs.LeastAncestor

/-!
# The top class lies above every completed chain

The chain of superclasses is walked without a look at interfaces, and the search for an
ancestor looks at both. Still, a chain that comes to its end says enough about the
search for the top class. The search tries the superclass of a class before its
interfaces, so it goes up the chain; and it never gets to the interfaces, because on that
way it meets the top class, or an interface, above which the top class is known to lie.

That there is nothing else to meet is a matter of the store: a class that is neither the
top one nor an interface extends something, so no chain ends there. And there is room
for the search: a chain that was not given up has no more classes than the limit.
-/

namespace Lineage.Proofs

open Store

theorem mem_map_cls {id : ClassId} {ids : List ClassId} : Ty.cls id ∈ ids.map .cls ↔ id ∈ ids :=
  List.mem_map_of_injective fun _ _ => Ty.cls.inj

section Chain

variable {s : Store} (hs : Reachable s)

include hs

/-- A chain ends at the top class or at an interface. -/
theorem isInterface_of_chain_end {k : ClassId} (h : s.env.superclassOf k = .ok none)
    (hne : k ≠ s.wellKnown.object) : IsInterface s.env k := by
  obtain ⟨c, hc, hsuper⟩ := superclassOf_eq_ok_iff.mp h
  cases hi : c.isInterface with
  | true => exact ⟨c, hc, hi⟩
  | false =>
      -- a class other than the top one has a superclass
      obtain ⟨link, hlink⟩ := Option.isSome_iff_exists.mp ((registry_reachable hs).extend hc hi hne)
      rw [hlink] at hsuper
      obtain ⟨p, -, hp⟩ := hsuper
      cases hp

omit hs in
theorem parent?_of_interface {env : Env} {k : ClassId} (h : IsInterface env k)
    (hne : k ≠ env.wellKnown.object) : env.parent? (.cls k) = .ok (some env.objectType) := by
  obtain ⟨c, hc, hi⟩ := h
  have hclass : env.classDef k = .ok c := classDef_eq_ok_iff.mpr hc
  simp [Env.parent?, hne, hclass, hi]

omit hs in
/-- From an interface it is one step to the top class. -/
theorem ascends_of_interface {env : Env} {k : ClassId} {n : Nat} {seen : List Ty}
    (h : IsInterface env k) (hne : k ≠ env.wellKnown.object) (hseen : .cls k ∉ seen) :
    Ascends env (n + 1) seen (.cls k) env.objectType := by
  have hother : Ty.cls k ≠ env.objectType := fun heq => hne (Ty.cls.inj heq)
  exact .step hother hseen (parent?_of_interface h hne) (.here _)

/-- **A way up that comes to its end leads to the top class**, for a walk that has room for it. -/
theorem Leads.ascends_top {c k : ClassId} {passed seen : List ClassId} {n : Nat}
    (h : Leads s.env c passed k) (hend : s.env.superclassOf k = .ok none)
    (hfresh : Fresh seen (passed ++ [k])) (hroom : passed.length < n) :
    Ascends s.env n (seen.map .cls) (.cls c) s.env.objectType := by
  induction h generalizing n seen with
  | here c =>
      -- the way ends at the top class, or at an interface one step below it
      by_cases htop : c = s.wellKnown.object
      · subst htop
        exact .here _
      · obtain ⟨hc, -⟩ := fresh_cons_iff.mp hfresh
        obtain ⟨n, rfl⟩ := Nat.exists_eq_add_one.mpr hroom
        have hi := isInterface_of_chain_end hs hend htop
        exact ascends_of_interface hi htop (mem_map_cls.not.mpr hc)
  | @up c parent k passed hp _ ih =>
      obtain ⟨hc, hrest⟩ := fresh_cons_iff.mp hfresh
      have htop : c ≠ s.wellKnown.object := ne_top_of_hasSuperclass hs hp
      obtain ⟨d, hd, -⟩ := superclassOf_eq_ok_iff.mp hp
      rw [List.length_cons] at hroom
      obtain ⟨n, rfl⟩ : ∃ m, n = m + 1 := ⟨n - 1, by omega⟩
      -- a walk leaves an interface for the top class and never takes the superclass
      cases hi : d.isInterface with
      | true => exact ascends_of_interface ⟨d, hd, hi⟩ htop (mem_map_cls.not.mpr hc)
      | false =>
          have hother : Ty.cls c ≠ s.env.objectType := fun heq => htop (Ty.cls.inj heq)
          have hparent := parent?_of_hasSuperclass hs ⟨d, hd, hi⟩ hp
          exact .step hother (mem_map_cls.not.mpr hc) hparent (ih hend hrest (by omega))

theorem descends_top_of_chain {c : ClassId} (hend : (s.env.superclassChain c).failure = none)
    (hne : c ≠ s.wellKnown.object) : s.env.descends (.cls c) s.env.objectType = .ok true := by
  obtain ⟨passed, k, hleads, hfresh, hroom, htop⟩ := leads_of_chainFrom hend
  have hup : Ascends s.env s.env.depthLimit [] (.cls c) s.env.objectType :=
    hleads.ascends_top hs htop hfresh hroom
  rcases hup.accepts rfl rfl rfl with heq | hdesc
  · exact absurd (Ty.cls.inj heq) hne
  · exact hdesc

end Chain

/-! ## Arrays -/

/-- Types that are no primitives are compared below any number of dimensions. -/
theorem assignableCanonical_wrap {env : Env} {t u : Ty} (ht : t.isPrimitive = false)
    (hu : u.isPrimitive = false) (n : Nat) :
    env.assignableCanonical (t.wrap n) (u.wrap n) = env.assignableCanonical t u := by
  induction n generalizing t u with
  | zero => rfl
  | succ n ih =>
      have harrays : env.assignableCanonical ((Ty.array t).wrap n) ((Ty.array u).wrap n) =
          env.assignableCanonical (.array t) (.array u) := ih rfl rfl
      exact harrays.trans (assignableCanonical_arrays_of_elements ht hu)

/-- With or without dimensions, what descends from the top class can be assigned to it. -/
theorem assignableCanonical_wrap_top {env : Env} {t : Ty} (ht : t.isAmbiguous = false)
    (h : env.descends t env.objectType = .ok true) (n : Nat) :
    env.assignableCanonical (t.wrap n) env.objectType = .ok true := by
  refine assignableCanonical_of_descends ?_
  cases n with
  | zero => exact h
  | succ n =>
      -- an array descends from the top class, whatever it is an array of
      have hshape : t.wrap (n + 1) = .array (t.wrap n) := wrap_array n t
      have hcanon : (t.wrap n).isAmbiguous = false := (isAmbiguous_wrap n t).trans ht
      have harray : Ty.array (t.wrap n) ≠ env.objectType := by
        intro heq
        cases heq
      rw [hshape, descends_array hcanon rfl rfl harray]
      simp [Env.arraySupertypes]

/--
**The top class lies above every class whose chain of superclasses comes to its end**, on
every reachable store. Arrays of the class, in any number of dimensions, can be assigned
to as many dimensions of the top class, and to the top class itself.

Nothing is asked of interfaces: those that the classes of the chain list may not exist or
may extend each other, a class of the chain may extend an interface, and the chain may
be as long as the limit allows.
-/
theorem top_above_completed_chain {s : Store} (hs : Reachable s) {c : ClassId}
    (hne : c ≠ s.wellKnown.object) (hend : (s.env.superclassChain c).failure = none) :
    s.env.descends (.cls c) s.env.objectType = .ok true ∧
      ∀ n, s.env.assignable ((Ty.cls c).wrap n) (s.env.objectType.wrap n) = .ok true ∧
        s.env.assignable ((Ty.cls c).wrap n) s.env.objectType = .ok true := by
  have hdesc := descends_top_of_chain hs hend hne
  refine ⟨hdesc, fun n => ?_⟩
  have hchild : ((Ty.cls c).wrap n).isAmbiguous = false := isAmbiguous_wrap n _
  have htop : (s.env.objectType.wrap n).isAmbiguous = false := isAmbiguous_wrap n _
  constructor
  · rw [assignable_eq_assignableCanonical hchild htop, assignableCanonical_wrap rfl rfl]
    exact assignableCanonical_of_descends hdesc
  · rw [assignable_eq_assignableCanonical hchild rfl]
    exact assignableCanonical_wrap_top rfl hdesc n

/-- An interface with an interface that does not exist, one that extends itself, a class that
extends the first, and two classes in a row. The depth limit is three. -/
def brokenAbove : Store :=
  afterAll (Store.withSettings { maxHierarchyDepth := 3 })
    [.addClass { name := "p.Gate", flags := .interface, interfaces := [.named "p.Gone"] },
     .addClass { name := "p.Knot", flags := .interface, interfaces := [.named "p.Knot"] },
     .addClass { name := "p.Odd", superclass := some (.cls ⟨12⟩), interfaces := [.cls ⟨13⟩] },
     .addClass { name := "p.Base", interfaces := [.named "p.Lost", .cls ⟨13⟩] },
     .addClass { name := "p.Leaf", superclass := some (.named "p.Base") }]

/-- The lowest class has as many classes on its chain as the limit allows, and the chain of the odd
one ends at an interface. Neither has a supertype closure. -/
theorem top_above_completed_chain_broken :
    let env := brokenAbove.env
    (Reachable brokenAbove ∧ env.superclassChain ⟨16⟩ = { classes := [⟨16⟩, ⟨15⟩, ⟨0⟩] } ∧
        env.superclassChain ⟨14⟩ = { classes := [⟨14⟩, ⟨12⟩] } ∧
        (env.supertypeClosure ⟨16⟩).isOk = false ∧ (env.supertypeClosure ⟨14⟩).isOk = false) ∧
      (env.descends (.cls ⟨16⟩) env.objectType = .ok true ∧
        ∀ n, env.assignable ((Ty.cls ⟨16⟩).wrap n) (env.objectType.wrap n) = .ok true ∧
          env.assignable ((Ty.cls ⟨16⟩).wrap n) env.objectType = .ok true) ∧
      env.descends (.cls ⟨14⟩) env.objectType = .ok true ∧
        ∀ n, env.assignable ((Ty.cls ⟨14⟩).wrap n) (env.objectType.wrap n) = .ok true ∧
          env.assignable ((Ty.cls ⟨14⟩).wrap n) env.objectType = .ok true := by
  intro env
  have hs : Reachable brokenAbove := reachable_afterAll (Reachable.withSettings _) _
  have hleaf : env.superclassChain ⟨16⟩ = { classes := [⟨16⟩, ⟨15⟩, ⟨0⟩] } := by decide
  have hodd : env.superclassChain ⟨14⟩ = { classes := [⟨14⟩, ⟨12⟩] } := by decide
  exact ⟨⟨hs, hleaf, hodd, by decide, by decide⟩,
    top_above_completed_chain hs (by decide) (by rw [hleaf]),
    top_above_completed_chain hs (by decide) (by rw [hodd])⟩

end Lineage.Proofs
