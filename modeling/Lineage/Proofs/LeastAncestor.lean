import Lineage.Proofs.CommonAncestor
import Lineage.Proofs.DepthLimit
import Lineage.Proofs.Kinds
import Lineage.Proofs.Registry

/-!
# The common ancestor of classes is the least one

The walk to a common ancestor goes up from one type and asks about all that lies above
the other, so the two arguments are not treated alike, and for interfaces the answer
does depend on their order. For classes it does not. Interface links lead to
interfaces, and from an interface only interfaces and the top class can be reached; a
class other than the top one is therefore above another only by way of superclass
links (`above_cases`), and the top class is at the end of these anyway.

What a class inherits from is thus a chain, and two classes are asked for the first
class that their chains share. From there on the chains are the same, which makes that
class the least of all common ones (`LeastCommon`). Least elements are unique as long
as no class lies above itself, and being one does not depend on which chain was walked.
-/

namespace Lineage.Proofs

open Store Relation

/-! ## Orderly stores -/

/-- Links keep to their kind, no class lies above itself, and no path of links without a repetition
is longer than the depth limit. -/
structure Orderly (s : Store) : Prop extends KeepsKinds s where
  acyclic : ∀ id, ¬ TransGen (Link s.env) (.cls id) (.cls id)
  paths : ∀ id, PathsWithin s.env s.depthLimit (.cls id)

variable {s : Store}

/-- A link is a superclass link from a class to a class, or leads to an interface. -/
theorem KeepsKinds.link (h : KeepsKinds s) {x : ClassId} {t : Ty} (hl : Link s.env (.cls x) t) :
    ∃ y, t = .cls y ∧
      (IsClass s.env x ∧ HasSuperclass s.env x y ∧ IsClass s.env y ∨ IsInterface s.env y) := by
  cases hl with
  | @cls _ target c link hc hmem hres =>
      refine ⟨target, rfl, ?_⟩
      have hinterface : link ∈ c.interfaces → IsInterface s.env target :=
        fun hlink => (h.interfaces hc hlink).ofKind hres
      -- an interface is followed to interfaces, a class first to its superclass
      unfold followedLinks at hmem
      split at hmem
      · exact .inr (hinterface hmem)
      · rename_i hi
        rw [Bool.not_eq_true] at hi
        split at hmem
        · cases hmem
        · rcases List.mem_append.mp hmem with hsuper | hlink
          · rw [Option.mem_toList] at hsuper
            exact .inl ⟨⟨c, hc, hi⟩, hasSuperclass_iff.mpr ⟨c, link, hc, hsuper, hres⟩,
              (h.superclass hc hsuper).ofKind hres⟩
          · exact .inr (hinterface hlink)

theorem KeepsKinds.link_ofKind (h : KeepsKinds s) {x : ClassId} {t : Ty}
    (hl : Link s.env (.cls x) t) : ∃ y interface, t = .cls y ∧ OfKind s.env interface y := by
  obtain ⟨y, heq, ⟨-, -, hkind⟩ | hkind⟩ := h.link hl
  · exact ⟨y, false, heq, hkind⟩
  · exact ⟨y, true, heq, hkind⟩

theorem KeepsKinds.charted (h : KeepsKinds s) {interface : Bool} {x : ClassId}
    (hx : OfKind s.env interface x) : Charted s.env (.cls x) := by
  obtain ⟨c, hc, -⟩ := hx
  refine ⟨c, hc, fun link hlink => ?_⟩
  rcases List.mem_append.mp (followedLinks_subset s.env x c hlink) with hsuper | hmem
  · rw [Option.mem_toList] at hsuper
    obtain ⟨target, hres, -⟩ := h.superclass hc hsuper
    exact ⟨target, hres⟩
  · obtain ⟨target, hres, -⟩ := h.interfaces hc hmem
    exact ⟨target, hres⟩

theorem KeepsKinds.chartedAbove (h : KeepsKinds s) {interface : Bool} {x : ClassId}
    (hx : OfKind s.env interface x) : ChartedAbove s.env (.cls x) := by
  intro u hu
  -- links lead from classes of some kind to classes of some kind
  have hkind : ∃ y interface, u = .cls y ∧ OfKind s.env interface y := by
    induction hu with
    | refl => exact ⟨x, interface, rfl, hx⟩
    | tail _ hl ih =>
        obtain ⟨y, _, rfl, -⟩ := ih
        exact h.link_ofKind hl
  obtain ⟨y, _, rfl, hy⟩ := hkind
  exact h.charted hy

/-! ## The chain of superclasses -/

/-- The class itself and what it extends, directly or not. -/
abbrev Inherits (env : Env) : ClassId → ClassId → Prop := ReflTransGen (HasSuperclass env)

/-- At most `n` superclass links lead from a class to the top class. -/
inductive TopWithin (env : Env) : Nat → ClassId → Prop where
  | top {n : Nat} : TopWithin env n env.wellKnown.object
  | step {n : Nat} {x y : ClassId} : HasSuperclass env x y → TopWithin env n y →
      TopWithin env (n + 1) x

theorem TopWithin.inherits {env : Env} {n : Nat} {x : ClassId} (h : TopWithin env n x) :
    Inherits env x env.wellKnown.object := by
  induction h with
  | top => exact ReflTransGen.refl
  | step hparent _ ih => exact ReflTransGen.head hparent ih

section Chain

variable (hs : Reachable s)

include hs

/-- The top class extends nothing. -/
theorem ne_top_of_hasSuperclass {x y : ClassId} (h : HasSuperclass s.env x y) :
    x ≠ s.wellKnown.object := by
  intro heq
  obtain ⟨c, hc, -, hnone, -⟩ := bareTop_of_reachable hs
  obtain ⟨d, link, hd, hlink, -⟩ := hasSuperclass_iff.mp h
  rw [heq] at hd
  have hcd : c = d := Option.some.inj (hc.symm.trans hd)
  rw [← hcd, hnone] at hlink
  cases hlink

theorem link_of_hasSuperclass {x y : ClassId} (hx : IsClass s.env x)
    (h : HasSuperclass s.env x y) : Link s.env (.cls x) (.cls y) := by
  obtain ⟨c, hc, hi⟩ := hx
  exact link_of_superclass hc hi (ne_top_of_hasSuperclass hs h) h

theorem parent?_of_hasSuperclass {x y : ClassId} (hx : IsClass s.env x)
    (h : HasSuperclass s.env x y) : s.env.parent? (.cls x) = .ok (some (.cls y)) := by
  obtain ⟨c, hc, hi⟩ := hx
  have hclass : s.env.classDef x = .ok c := classDef_eq_ok_iff.mpr hc
  have hsuper : s.env.superclassOf x = .ok (some y) := h
  have hne : x ≠ s.env.wellKnown.object := ne_top_of_hasSuperclass hs h
  simp [Env.parent?, hne, hclass, hi, hsuper]

/-- Every other class extends a class. -/
theorem KeepsKinds.exists_superclass (h : KeepsKinds s) {x : ClassId} (hx : IsClass s.env x)
    (hne : x ≠ s.wellKnown.object) : ∃ y, HasSuperclass s.env x y ∧ IsClass s.env y := by
  obtain ⟨c, hc, hi⟩ := hx
  obtain ⟨link, hlink⟩ := Option.isSome_iff_exists.mp ((registry_reachable hs).extend hc hi hne)
  obtain ⟨y, hres, hy⟩ := h.superclass hc hlink
  exact ⟨y, hasSuperclass_iff.mpr ⟨c, link, hc, hlink, hres⟩, hy⟩

omit hs in
theorem KeepsKinds.isClass_of_inherits (h : KeepsKinds s) {x y : ClassId} (hx : IsClass s.env x)
    (hxy : Inherits s.env x y) : IsClass s.env y := by
  induction hxy with
  | refl => exact hx
  | @tail y z _ hparent ih =>
      obtain ⟨c, link, hc, hlink, hres⟩ := hasSuperclass_iff.mp hparent
      exact (h.superclass hc hlink).ofKind hres

/-- Superclass links are links. -/
theorem KeepsKinds.links_of_inherits (h : KeepsKinds s) {x y : ClassId} (hx : IsClass s.env x)
    (hxy : Inherits s.env x y) : ReflTransGen (Link s.env) (.cls x) (.cls y) := by
  induction hxy with
  | refl => exact ReflTransGen.refl
  | tail hrest hparent ih =>
      exact ih.tail (link_of_hasSuperclass hs (h.isClass_of_inherits hx hrest) hparent)

/-- Two classes that inherit from each other are the same. -/
theorem Orderly.inherits_antisymm (h : Orderly s) {x y : ClassId} (hx : IsClass s.env x)
    (hxy : Inherits s.env x y) (hyx : Inherits s.env y x) : x = y := by
  have hup := h.links_of_inherits hs hx hxy
  have hdown := h.links_of_inherits hs (h.isClass_of_inherits hx hxy) hyx
  -- one and the same, or on a cycle
  rcases reflTransGen_iff_eq_or_transGen.mp hup with heq | hup
  · exact (Ty.cls.inj heq).symm
  · exact absurd (hup.trans_left hdown) (h.acyclic x)

/-- One step up: a walk with room that has only met what lies below can go on to the superclass, and
has room and has only met what lies below there. -/
theorem Orderly.room_superclass (h : Orderly s) {n : Nat} {met : List Ty} {x : ClassId}
    (hx : IsClass s.env x) (hne : x ≠ s.wellKnown.object)
    (hroom : Room s.env (n + 1) met (.cls x))
    (hbelow : ∀ t ∈ met, TransGen (Link s.env) t (.cls x)) :
    ∃ y, HasSuperclass s.env x y ∧ IsClass s.env y ∧ 0 < n ∧
      Room s.env n (.cls x :: met) (.cls y) ∧
      ∀ t ∈ Ty.cls x :: met, TransGen (Link s.env) t (.cls y) := by
  obtain ⟨y, hparent, hy⟩ := h.exists_superclass hs hx hne
  have hl := link_of_hasSuperclass hs hx hparent
  -- all that was met lies below, so to meet it again would be a cycle
  have hfresh : .cls x ∉ met := fun hmem => h.acyclic x (hbelow _ hmem)
  have hroom' := hroom.link hl hfresh (List.Subset.refl _)
  have hbelow' : ∀ t ∈ Ty.cls x :: met, TransGen (Link s.env) t (.cls y) :=
    List.forall_mem_cons.mpr ⟨TransGen.single hl, fun t ht => (hbelow t ht).tail hl⟩
  have hfresh' : .cls y ∉ Ty.cls x :: met := fun hmem => h.acyclic y (hbelow' _ hmem)
  exact ⟨y, hparent, hy, hroom'.pos hfresh', hroom', hbelow'⟩

theorem Orderly.topWithin_of_room (h : Orderly s) {n : Nat} {met : List Ty} {x : ClassId}
    (hx : IsClass s.env x) (hroom : Room s.env (n + 1) met (.cls x))
    (hbelow : ∀ t ∈ met, TransGen (Link s.env) t (.cls x)) : TopWithin s.env n x := by
  induction n generalizing met x with
  | zero =>
      -- one class fits, so it is the top class, which has no superclass to fit
      by_cases heq : x = s.wellKnown.object
      · rw [heq]
        exact .top
      · obtain ⟨y, -, -, hpos, -⟩ := h.room_superclass hs hx heq hroom hbelow
        exact absurd hpos (Nat.lt_irrefl 0)
  | succ n ih =>
      by_cases heq : x = s.wellKnown.object
      · rw [heq]
        exact .top
      · obtain ⟨y, hparent, hy, -, hroom', hbelow'⟩ := h.room_superclass hs hx heq hroom hbelow
        exact .step hparent (ih hy hroom' hbelow')

/-- **Every chain of superclasses ends at the top class**, within the depth limit. -/
theorem Orderly.topWithin (h : Orderly s) {x : ClassId} (hx : IsClass s.env x) :
    TopWithin s.env s.depthLimit x :=
  h.topWithin_of_room hs hx (h.paths x).room fun _ ht => nomatch ht

/-! ## What lies above a class -/

/-- Above a class are the classes that it inherits from, and interfaces. -/
theorem Orderly.above_cases (h : Orderly s) {x : ClassId} (hx : IsClass s.env x) {t : Ty}
    (ht : ReflTransGen (DirectSupertype s.env) (.cls x) t) :
    ∃ y, t = .cls y ∧ (Inherits s.env x y ∨ IsInterface s.env y) := by
  induction ht with
  | refl => exact ⟨x, rfl, .inl ReflTransGen.refl⟩
  | tail _ hedge ih =>
      obtain ⟨y, rfl, hy⟩ := ih
      cases hedge with
      | link hl =>
          obtain ⟨z, rfl, ⟨hclass, hparent, -⟩ | hz⟩ := h.link hl
          · -- a superclass link leads from a class, so the path was on the chain so far
            rcases hy with hup | hinterface
            · exact ⟨z, rfl, .inl (hup.tail hparent)⟩
            · exact absurd hinterface hclass.not_interface
          · exact ⟨z, rfl, .inr hz⟩
      | top => exact ⟨_, rfl, .inl (h.topWithin hs hx).inherits⟩

theorem Orderly.inherits_of_above (h : Orderly s) {x w : ClassId} (hx : IsClass s.env x)
    (hw : IsClass s.env w) (habove : Above s.env (.cls x) (.cls w)) : Inherits s.env x w := by
  obtain ⟨y, heq, hy⟩ := h.above_cases hs hx habove.to_reflTransGen
  cases heq
  exact hy.resolve_right hw.not_interface

theorem Orderly.above_of_inherits (h : Orderly s) {x w : ClassId} (hx : IsClass s.env x)
    (hne : x ≠ w) (hxw : Inherits s.env x w) : Above s.env (.cls x) (.cls w) := by
  rcases reflTransGen_iff_eq_or_transGen.mp (h.links_of_inherits hs hx hxw) with heq | hup
  · exact absurd (Ty.cls.inj heq).symm hne
  · exact hup.lift id fun _ _ hl => .link hl

/-- **Descent between classes is inheritance**, and the question has an answer. -/
theorem Orderly.descends_decides (h : Orderly s) {x w : ClassId} (hx : IsClass s.env x)
    (hw : IsClass s.env w) (hne : x ≠ w) :
    Decides (s.env.descends (.cls x) (.cls w)) (Inherits s.env x w) := by
  have hcomplete : Decides (s.env.descends (.cls x) (.cls w))
      (ProperSupertype s.env (.cls x) (.cls w)) :=
    descends_complete (rooted_of_reachable hs) rfl rfl (h.chartedAbove hx) (h.paths x)
  refine hcomplete.congr ⟨fun hproper => h.inherits_of_above hs hx hw hproper.2.2.2, ?_⟩
  intro hxw
  exact ⟨fun heq => hne (Ty.cls.inj heq), rfl, rfl, h.above_of_inherits hs hx hne hxw⟩

theorem Orderly.accepts_iff (h : Orderly s) {x w : ClassId} (hx : IsClass s.env x)
    (hw : IsClass s.env w) : Accepts s.env (.cls x) (.cls w) ↔ Inherits s.env x w := by
  unfold Accepts
  by_cases heq : x = w
  · rw [heq]
    exact iff_of_true (.inl rfl) ReflTransGen.refl
  · rw [(h.descends_decides hs hx hw heq).eq_ok_true_iff]
    exact or_iff_right fun h => heq (Ty.cls.inj h)

/-- Of classes, one can be assigned to what it inherits from. -/
theorem Orderly.assignable_iff (h : Orderly s) {x w : ClassId} (hx : IsClass s.env x)
    (hw : IsClass s.env w) :
    s.env.assignable (.cls x) (.cls w) = .ok true ↔ Inherits s.env x w := by
  rw [assignable_eq_assignableCanonical rfl rfl, ← h.accepts_iff hs hx hw]
  by_cases heq : x = w
  · rw [heq, assignableCanonical_self]
    exact iff_of_true rfl (.inl rfl)
  · have hne : Ty.cls x ≠ .cls w := fun h => heq (Ty.cls.inj h)
    rw [assignableCanonical_references hne (by simp) rfl rfl (by simp)]
    exact (or_iff_right hne).symm

end Chain

/-! ## The walk -/

/-- The first class that two chains share: both classes inherit from it, and it inherits from every
class from which both do. -/
structure LeastCommon (env : Env) (a b u : ClassId) : Prop where
  left : Inherits env a u
  right : Inherits env b u
  least : ∀ w, Inherits env a w → Inherits env b w → Inherits env u w

theorem LeastCommon.symm {env : Env} {a b u : ClassId} (h : LeastCommon env a b u) :
    LeastCommon env b a u :=
  ⟨h.right, h.left, fun w hb ha => h.least w ha hb⟩

theorem climb_stop {env : Env} {t₁ t₂ current : Ty} {n : Nat} {seen : List Ty}
    (h : Accepts env t₂ current) : env.climb t₁ t₂ n seen current = .ok current := by
  rw [Env.climb.eq_def]
  by_cases heq : t₂ = current
  · simp [heq]
  · simp [heq, h.resolve_left heq]

theorem climb_step {env : Env} {t₁ t₂ current next : Ty} {n : Nat} {seen : List Ty}
    (hne : t₂ ≠ current) (hno : env.descends t₂ current = .ok false) (hseen : current ∉ seen)
    (hparent : env.parent? current = .ok (some next)) :
    env.climb t₁ t₂ (n + 1) seen current = env.climb t₁ t₂ n (current :: seen) next := by
  rw [Env.climb.eq_def]
  simp [hne, hno, hseen, hparent]

/-- A class that the other does not inherit from is passed by. -/
theorem Orderly.climb_pass (h : Orderly s) (hs : Reachable s) {b x y : ClassId}
    (hb : IsClass s.env b) (hx : IsClass s.env x) (hnot : ¬ Inherits s.env b x)
    (hparent : HasSuperclass s.env x y) {t₁ : Ty} {n : Nat} {seen : List Ty}
    (hseen : .cls x ∉ seen) :
    s.env.climb t₁ (.cls b) (n + 1) seen (.cls x) =
      s.env.climb t₁ (.cls b) n (.cls x :: seen) (.cls y) := by
  have hne : b ≠ x := by
    intro heq
    rw [heq] at hnot
    exact hnot ReflTransGen.refl
  -- the question has an answer, and it is no
  obtain ⟨found, hrun, hfound⟩ := h.descends_decides hs hb hx hne
  cases found with
  | true => exact absurd (hfound.mp rfl) hnot
  | false =>
      exact climb_step (fun heq => hne (Ty.cls.inj heq)) hrun hseen
        (parent?_of_hasSuperclass hs hx hparent)

/-- **The walk up from a class ends at the first class that the other inherits from.** -/
theorem Orderly.climb_leastCommon (h : Orderly s) (hs : Reachable s) {b x : ClassId} {n : Nat}
    (hb : IsClass s.env b) (hx : IsClass s.env x) (htop : TopWithin s.env n x) {t₁ : Ty}
    {seen : List Ty} (hbelow : ∀ t ∈ seen, TransGen (Link s.env) t (.cls x)) :
    ∃ u, s.env.climb t₁ (.cls b) n seen (.cls x) = .ok (.cls u) ∧ LeastCommon s.env x b u := by
  -- where the other class inherits from the current one, nothing lower is common
  have hstop : ∀ {n x seen}, IsClass s.env x → Inherits s.env b x →
      ∃ u, s.env.climb t₁ (.cls b) n seen (.cls x) = .ok (.cls u) ∧ LeastCommon s.env x b u := by
    intro n x seen hx hbx
    have haccepts := (h.accepts_iff hs hb hx).mpr hbx
    exact ⟨x, climb_stop haccepts, ReflTransGen.refl, hbx, fun w hw _ => hw⟩
  induction htop generalizing seen with
  | top => exact hstop hx (h.topWithin hs hb).inherits
  | @step n x y hparent _ ih =>
      by_cases hbx : Inherits s.env b x
      · exact hstop hx hbx
      · have hl := link_of_hasSuperclass hs hx hparent
        have hy := h.isClass_of_inherits hx (ReflTransGen.single hparent)
        have hseen : .cls x ∉ seen := fun hmem => h.acyclic x (hbelow _ hmem)
        have hbelow' : ∀ t ∈ Ty.cls x :: seen, TransGen (Link s.env) t (.cls y) :=
          List.forall_mem_cons.mpr ⟨TransGen.single hl, fun t ht => (hbelow t ht).tail hl⟩
        obtain ⟨u, hrun, hleast⟩ := ih hy hbelow'
        refine ⟨u, (h.climb_pass hs hb hx hbx hparent hseen).trans hrun, ?_⟩
        refine ⟨ReflTransGen.head hparent hleast.left, hleast.right, fun w hxw hbw => ?_⟩
        -- a class that both inherit from is not `x`, so it lies on the rest of the chain
        rcases ReflTransGen.cases_head hxw with heq | ⟨z, hz, hzw⟩
        · rw [heq] at hbx
          exact absurd hbw hbx
        · have hyz : y = z := by
            unfold HasSuperclass at hparent hz
            rw [hparent] at hz
            exact Option.some.inj (Except.ok.inj hz)
          rw [← hyz] at hzw
          exact hleast.least w hzw hbw

theorem Orderly.commonAncestor_leastCommon (h : Orderly s) (hs : Reachable s) {a b : ClassId}
    (ha : IsClass s.env a) (hb : IsClass s.env b) :
    ∃ u, s.env.commonAncestor (.cls a) (.cls b) = .ok (.cls u) ∧ LeastCommon s.env a b u := by
  obtain ⟨u, hrun, hleast⟩ : ∃ u, s.env.climb (.cls a) (.cls b) s.env.depthLimit [] (.cls a) =
      .ok (.cls u) ∧ LeastCommon s.env a b u :=
    h.climb_leastCommon hs hb ha (h.topWithin hs ha) (by simp)
  refine ⟨u, ?_, hleast⟩
  unfold Env.commonAncestor
  rw [ensureCanonical_eq_ok rfl, ensureCanonical_eq_ok rfl, ok_bind, ok_bind,
    commonAncestorCanonical_flat (by simp) (by simp)]
  simpa using hrun

/-- There is one such class at most. -/
theorem Orderly.leastCommon_unique (h : Orderly s) (hs : Reachable s) {a b u u' : ClassId}
    (ha : IsClass s.env a) (hu : LeastCommon s.env a b u) (hu' : LeastCommon s.env a b u') :
    u = u' :=
  h.inherits_antisymm hs (h.isClass_of_inherits ha hu.left) (hu.least u' hu'.left hu'.right)
    (hu'.least u hu.left hu.right)

/--
**Of classes, the common ancestor is the least upper bound**, on every reachable store
whose links keep to their kind, without a cycle and without a path beyond the depth
limit. Any two classes have one, whichever of the two comes first; it is a class
itself, both can be assigned to it, and it can be assigned to every class that both can
be assigned to. Interfaces may be listed anywhere.
-/
theorem commonAncestor_least_and_comm {s : Store} (hs : Reachable s) (h : Orderly s)
    {a b : ClassId} (ha : IsClass s.env a) (hb : IsClass s.env b) :
    ∃ u, IsClass s.env u ∧
      s.env.commonAncestor (.cls a) (.cls b) = .ok (.cls u) ∧
      s.env.commonAncestor (.cls b) (.cls a) = .ok (.cls u) ∧
      s.env.assignable (.cls a) (.cls u) = .ok true ∧
      s.env.assignable (.cls b) (.cls u) = .ok true ∧
      ∀ w, IsClass s.env w → s.env.assignable (.cls a) (.cls w) = .ok true →
        s.env.assignable (.cls b) (.cls w) = .ok true →
          s.env.assignable (.cls u) (.cls w) = .ok true := by
  obtain ⟨u, hrun, hleast⟩ := h.commonAncestor_leastCommon hs ha hb
  obtain ⟨u', hrun', hleast'⟩ := h.commonAncestor_leastCommon hs hb ha
  -- the walks from both sides end at least common classes, of which there is one
  have huu : u' = u := h.leastCommon_unique hs ha hleast'.symm hleast
  rw [huu] at hrun'
  have hu : IsClass s.env u := h.isClass_of_inherits ha hleast.left
  refine ⟨u, hu, hrun, hrun', (h.assignable_iff hs ha hu).mpr hleast.left,
    (h.assignable_iff hs hb hu).mpr hleast.right, fun w hw haw hbw => ?_⟩
  rw [h.assignable_iff hs ha hw] at haw
  rw [h.assignable_iff hs hb hw] at hbw
  exact (h.assignable_iff hs hu hw).mpr (hleast.least w haw hbw)

/-! ## Checking a store -/

/-- What a class lists resolves, and the links that are followed are part of it. -/
theorem KeepsKinds.extends_of_link (h : KeepsKinds s) {x : ClassId} {t : Ty}
    (hl : Link s.env (.cls x) t) : ∃ y, t = .cls y ∧ Extends s.env x y := by
  cases hl with
  | @cls _ target c link hc hmem hres =>
      have hlinks : ∀ l ∈ c.superclass.toList ++ c.interfaces,
          ∃ y, s.env.resolveLink l = .ok y := by
        intro l hmem
        rcases List.mem_append.mp hmem with hsuper | hlink
        · obtain ⟨y, hy, -⟩ := h.superclass hc (Option.mem_toList.mp hsuper)
          exact ⟨y, hy⟩
        · obtain ⟨y, hy, -⟩ := h.interfaces hc hlink
          exact ⟨y, hy⟩
      obtain ⟨targets, htargets⟩ := exists_forall₂ hlinks
      refine ⟨target, rfl, targets, lists_iff.mpr ⟨c, hc, htargets⟩, ?_⟩
      exact (mem_images_iff htargets).mpr ⟨link, followedLinks_subset s.env x c hmem, hres⟩

/-- Where no class lies above itself by what it lists, none does so by the links that are
followed. -/
theorem KeepsKinds.acyclic (h : KeepsKinds s) (hacyclic : ∀ x, ¬ TransGen (Extends s.env) x x)
    (x : ClassId) : ¬ TransGen (Link s.env) (.cls x) (.cls x) := by
  -- links that are followed are among those that are listed
  have hup : ∀ t, TransGen (Link s.env) (.cls x) t → ∃ y, t = .cls y ∧
      TransGen (Extends s.env) x y := by
    intro t ht
    induction ht with
    | single hl =>
        obtain ⟨y, rfl, hy⟩ := h.extends_of_link hl
        exact ⟨y, rfl, TransGen.single hy⟩
    | tail _ hl ih =>
        obtain ⟨y, rfl, hy⟩ := ih
        obtain ⟨z, rfl, hz⟩ := h.extends_of_link hl
        exact ⟨z, rfl, hy.tail hz⟩
  intro hcycle
  obtain ⟨y, heq, hy⟩ := hup _ hcycle
  cases heq
  exact hacyclic x hy

/-- Shapes that can be drawn: a ring is a circle, and circles and squares are shapes. Squares and
rings list the interface again. -/
def shapesRun : List Change :=
  [.addClass { name := "p.Drawable", flags := .interface },
   .addClass { name := "p.Shape", interfaces := [.cls ⟨12⟩] },
   .addClass { name := "p.Circle", superclass := some (.named "p.Shape") },
   .addClass { name := "p.Ring", superclass := some (.cls ⟨14⟩), interfaces := [.cls ⟨12⟩] },
   .addClass { name := "p.Square", superclass := some (.cls ⟨13⟩),
               interfaces := [.cls wellKnownIds.serializable, .named "p.Drawable"] }]

/-- A ring and a square are shapes; that both can be drawn does not count. -/
theorem commonAncestor_least_and_comm_shapes :
    let s := afterAll Store.builtin shapesRun
    let shape : Ty := .cls ⟨13⟩
    let ring : Ty := .cls ⟨15⟩
    let square : Ty := .cls ⟨16⟩
    (Reachable s ∧ Orderly s ∧ IsClass s.env ⟨15⟩ ∧ IsClass s.env ⟨16⟩) ∧
      s.env.commonAncestor ring square = .ok shape ∧
      s.env.commonAncestor square ring = .ok shape ∧
      ∀ w, IsClass s.env w → s.env.assignable ring (.cls w) = .ok true →
        s.env.assignable square (.cls w) = .ok true →
          s.env.assignable shape (.cls w) = .ok true := by
  intro s shape ring square
  have hs : Reachable s := reachable_afterAll Reachable.builtin shapesRun
  have hkinds : KeepsKinds s := keepsKinds_of_check (by decide)
  have hacyclic := hkinds.acyclic (acyclic_of_visits (s := s) (n := 5) (by decide))
  have hcoherent : Coherent s := (closed_of_isClosed (by decide)).coherent (by decide)
  have horderly : Orderly s := ⟨hkinds, hacyclic, fun id => hcoherent.paths (.cls id)⟩
  have hring : IsClass s.env ⟨15⟩ := ⟨_, rfl, by decide⟩
  have hsquare : IsClass s.env ⟨16⟩ := ⟨_, rfl, by decide⟩
  have hshape : s.env.commonAncestor ring square = .ok shape := by rfl
  obtain ⟨u, -, hrun, hrun', -, -, hleast⟩ :=
    commonAncestor_least_and_comm hs horderly hring hsquare
  have hu : shape = .cls u := Except.ok.inj (hshape.symm.trans hrun)
  rw [← hu] at hrun' hleast
  exact ⟨⟨hs, horderly, hring, hsquare⟩, hshape, hrun', hleast⟩

end Lineage.Proofs
