import Lineage.Proofs.Closure
import Mathlib.Data.List.Chain

/-!
# Cycles are found, and nothing else is taken for one

Before the supertype closure is collected, a depth-first visit makes sure that no
class above the first one is its own supertype. It keeps the path that it is on and
what it has finished with; it gives up where a path meets itself, and where a path
grows too long.

That a visit finds every cycle lies in the order in which classes are finished: what
a class lists is finished before it (`Ordered`), so that links only ever lead towards
the end of the list and no path leads back. That it finds nothing else is a matter of
reading the walk off the place where it gave up (`GivesUp`). Without cycles no path
meets itself, so the walk has used up all of its room. The chain of superclasses
gives up for the same reasons, and the expansion by interfaces never does.

All this is about classes that are defined and whose links resolve. Links are those
of every class, also a superclass link of an interface.
-/

namespace Lineage.Proofs

open Store Relation

variable {env : Env}

/-- Every class that links lead to from `start` is defined, and its links resolve. -/
def Surveyed (env : Env) (start : ClassId) : Prop :=
  ∀ x, ReflTransGen (Extends env) start x → ∃ targets, Lists env x targets

/-- No class that links lead to from `start` lies on a cycle of links. -/
def AcyclicAbove (env : Env) (start : ClassId) : Prop :=
  ∀ x, ReflTransGen (Extends env) start x → ¬ TransGen (Extends env) x x

theorem Surveyed.self {id : ClassId} (h : Surveyed env id) : ∃ targets, Lists env id targets :=
  h id ReflTransGen.refl

theorem Surveyed.link {id next : ClassId} (h : Surveyed env id) (hl : Extends env id next) :
    Surveyed env next := fun x hx => h x (ReflTransGen.head hl hx)

theorem AcyclicAbove.link {id next : ClassId} (h : AcyclicAbove env id)
    (hl : Extends env id next) : AcyclicAbove env next := fun x hx => h x (ReflTransGen.head hl hx)

/-- What a class lists is settled. -/
theorem Lists.mem_of_extends {x y : ClassId} {targets : List ClassId} (h : Lists env x targets)
    (hxy : Extends env x y) : y ∈ targets := by
  obtain ⟨parent, is, hparent, his, rfl⟩ := h
  obtain ⟨_, ⟨parent', is', hparent', his', rfl⟩, hy⟩ := hxy
  rw [hparent] at hparent'
  rw [his] at his'
  cases hparent'
  cases his'
  exact hy

theorem Surveyed.reached_of_superclass {start x : ClassId} (h : Surveyed env start)
    (hx : ReflTransGen (HasSuperclass env) start x) : ReflTransGen (Extends env) start x := by
  induction hx with
  | refl => exact ReflTransGen.refl
  | tail _ hparent ih =>
      obtain ⟨targets, hlists⟩ := h _ ih
      exact ih.tail ⟨targets, hlists, hlists.superclass hparent⟩

/-! ## A visit that succeeds -/

/-- Every class of the list lists only classes behind it. -/
def Ordered (env : Env) : List ClassId → Prop
  | [] => True
  | x :: rest => x ∉ rest ∧ (∃ targets, Lists env x targets ∧ targets ⊆ rest) ∧ Ordered env rest

theorem Ordered.closed {l : List ClassId} (h : Ordered env l) {x y : ClassId} (hx : x ∈ l)
    (hxy : Extends env x y) : y ∈ l := by
  induction l with
  | nil => cases hx
  | cons a rest ih =>
      obtain ⟨-, ⟨targets, hlists, hsub⟩, hrest⟩ := h
      -- what the first one lists stands behind it, for the others that is the induction
      rcases List.mem_cons.mp hx with rfl | hx
      · exact List.mem_cons_of_mem x (hsub (hlists.mem_of_extends hxy))
      · exact List.mem_cons_of_mem a (ih hrest hx)

theorem Ordered.mem_of_reached {l : List ClassId} (h : Ordered env l) {x y : ClassId} (hx : x ∈ l)
    (hxy : ReflTransGen (Extends env) x y) : y ∈ l := by
  induction hxy with
  | refl => exact hx
  | tail _ hl ih => exact h.closed ih hl

/-- **No path of links leads back** to a class of an ordered list. -/
theorem Ordered.acyclic {l : List ClassId} (h : Ordered env l) :
    ∀ x ∈ l, ¬ TransGen (Extends env) x x := by
  induction l with
  | nil => exact fun _ hx => nomatch hx
  | cons a rest ih =>
      obtain ⟨hnew, ⟨targets, hlists, hsub⟩, hrest⟩ := h
      refine List.forall_mem_cons.mpr ⟨fun hcycle => ?_, ih hrest⟩
      -- the first link leads behind `a`, and from there no link leads back
      obtain ⟨y, hay, hback⟩ := TransGen.head'_iff.mp hcycle
      exact hnew (hrest.mem_of_reached (hsub (hlists.mem_of_extends hay)) hback)

/-- A visit finishes classes in order, and none that is on its path. -/
theorem visitSupertypes_ordered {n : Nat} {path before finished : List ClassId} {id : ClassId}
    (h : env.visitSupertypes n path before id = .ok finished) (hord : Ordered env before) :
    Ordered env finished ∧ ∀ x ∈ path, x ∈ finished → x ∈ before := by
  induction n using Nat.strongRecOn generalizing path before finished id with
  | ind n ih =>
      by_cases hid : id ∈ before
      · rw [visitSupertypes_of_mem hid] at h
        cases h
        exact ⟨hord, fun _ _ hx => hx⟩
      · obtain ⟨hpath, k, targets, done, rfl, hlists, hfold, rfl⟩ := visitSupertypes_eq_ok h hid
        -- one round: what is finished stays in order, and the path is still unfinished
        have hround : ∀ f i f', (Ordered env f ∧ ∀ x ∈ id :: path, x ∈ f → x ∈ before) →
            env.visitSupertypes k (id :: path) f i = .ok f' →
            Ordered env f' ∧ ∀ x ∈ id :: path, x ∈ f' → x ∈ before := by
          intro f i f' hf hvisit
          obtain ⟨hord', hfresh⟩ := ih k (Nat.lt_succ_self k) hvisit hf.1
          exact ⟨hord', fun x hx hmem => hf.2 x hx (hfresh x hx hmem)⟩
        obtain ⟨hdone, hfresh⟩ := foldlM_invariant hround hfold ⟨hord, fun _ _ hx => hx⟩
        -- the class is on the path of its own links, so none of them finished it
        have hnew : id ∉ done := fun hmem => hid (hfresh id List.mem_cons_self hmem)
        have hsub := (foldlM_gathers (fun _ _ _ => visitSupertypes_gathers) hfold).visited
        refine ⟨⟨hnew, ⟨targets, hlists, hsub⟩, hdone⟩, fun x hx hmem => ?_⟩
        rcases List.mem_cons.mp hmem with rfl | hmem
        · exact absurd hx hpath
        · exact hfresh x (List.mem_cons_of_mem id hx) hmem

/-- **Where the visit succeeds, there is no cycle.** -/
theorem acyclicAbove_of_visit {n : Nat} {start : ClassId} {visited : List ClassId}
    (h : env.visitSupertypes n [] [] start = .ok visited) : AcyclicAbove env start := by
  obtain ⟨hord, -⟩ := visitSupertypes_ordered h trivial
  have hstart : start ∈ visited := (visitSupertypes_gathers h).visited List.mem_cons_self
  exact fun x hx => hord.acyclic x (hord.mem_of_reached hstart hx)

/-! ## A walk that gives up -/

/-- `x` is where a walk that has come to `id` along `path`, with room for `n` more classes, is
given up: no room is left, or the walk is back on its path. -/
inductive GivesUp (env : Env) : Nat → List ClassId → ClassId → ClassId → Prop where
  | full {path : List ClassId} {id : ClassId} : GivesUp env 0 path id id
  | back {n : Nat} {path : List ClassId} {id : ClassId} : id ∈ path → GivesUp env n path id id
  | link {n : Nat} {path : List ClassId} {id next x : ClassId} : Extends env id next →
      GivesUp env n (id :: path) next x → GivesUp env (n + 1) path id x

theorem GivesUp.reached {n : Nat} {path : List ClassId} {id x : ClassId}
    (h : GivesUp env n path id x) : ReflTransGen (Extends env) id x := by
  induction h with
  | full => exact ReflTransGen.refl
  | back => exact ReflTransGen.refl
  | link hl _ ih => exact ReflTransGen.head hl ih

/-- Without cycles a walk is given up only when it has used up its room. -/
theorem GivesUp.path {n : Nat} {path : List ClassId} {id x : ClassId}
    (h : GivesUp env n path id x) (hpath : ∀ p ∈ path, TransGen (Extends env) p id)
    (hacyclic : AcyclicAbove env id) :
    ∃ rest, (id :: rest).IsChain (Extends env) ∧ rest.length = n := by
  induction h with
  | full => exact ⟨[], List.isChain_singleton _, rfl⟩
  | back hmem => exact absurd (hpath _ hmem) (hacyclic _ ReflTransGen.refl)
  | @link n path id next x hl _ ih =>
      -- every class on the path is below the next one, so to be back would be a cycle
      have hnext : ∀ p ∈ id :: path, TransGen (Extends env) p next :=
        List.forall_mem_cons.mpr ⟨TransGen.single hl, fun p hp => (hpath p hp).tail hl⟩
      obtain ⟨rest, hchain, hlen⟩ := ih hnext (hacyclic.link hl)
      exact ⟨next :: rest, List.isChain_cons_cons.mpr ⟨hl, hchain⟩, by simp [hlen]⟩

/-- Without cycles no path repeats a class. -/
theorem AcyclicAbove.nodup {start : ClassId} (h : AcyclicAbove env start) {rest : List ClassId}
    (hchain : (start :: rest).IsChain (Extends env)) : (start :: rest).Nodup := by
  have htrans : (start :: rest).IsChain (TransGen (Extends env)) :=
    hchain.imp fun _ _ => TransGen.single
  have hreached : ∀ x ∈ start :: rest, ReflTransGen (Extends env) start x :=
    List.forall_mem_cons.mpr
      ⟨ReflTransGen.refl, fun x hx => (htrans.rel_cons hx).to_reflTransGen⟩
  -- a class that comes again on a path would lie above itself
  refine (List.isChain_iff_pairwise.mp htrans).imp_of_mem ?_
  rintro x y hx - hxy rfl
  exact h x (hreached x hx) hxy

/-- A class that is neither finished nor on the path is visited by way of what it lists. -/
theorem visitSupertypes_eq {n : Nat} {path before targets : List ClassId} {id : ClassId}
    (hlists : Lists env id targets) (hid : id ∉ before) (hpath : id ∉ path) :
    env.visitSupertypes (n + 1) path before id = (do
      let done ← targets.foldlM (fun f i => env.visitSupertypes n (id :: path) f i) before
      pure (id :: done)) := by
  obtain ⟨parent, is, hparent, his, rfl⟩ := hlists
  rw [Env.visitSupertypes.eq_def]
  cases parent with
  | none => simp [hid, hpath, hparent, his]
  | some p => simp [hid, hpath, hparent, his]

theorem not_mem_of_visit_error {n : Nat} {path before : List ClassId} {id : ClassId}
    {e : TypeError} (h : env.visitSupertypes n path before id = .error e) : id ∉ before := by
  intro hid
  rw [visitSupertypes_of_mem hid] at h
  cases h

theorem visitSupertypes_full {path before : List ClassId} {id : ClassId} (hid : id ∉ before) :
    env.visitSupertypes 0 path before id = .error (env.cyclic id) := by
  rw [Env.visitSupertypes.eq_def]
  simp [hid]

theorem visitSupertypes_back {n : Nat} {path before : List ClassId} {id : ClassId}
    (hid : id ∉ before) (hpath : id ∈ path) :
    env.visitSupertypes (n + 1) path before id = .error (env.cyclic id) := by
  rw [Env.visitSupertypes.eq_def]
  simp [hid, hpath]

/-- **A visit fails only where its walk is given up.** -/
theorem visitSupertypes_eq_error {n : Nat} {path before : List ClassId} {id : ClassId}
    {e : TypeError} (hs : Surveyed env id) (h : env.visitSupertypes n path before id = .error e) :
    ∃ x, GivesUp env n path id x ∧ e = env.cyclic x := by
  induction n generalizing path before id with
  | zero =>
      have hid := not_mem_of_visit_error h
      rw [visitSupertypes_full hid] at h
      cases h
      exact ⟨id, .full, rfl⟩
  | succ n ih =>
      have hid := not_mem_of_visit_error h
      by_cases hpath : id ∈ path
      · rw [visitSupertypes_back hid hpath] at h
        cases h
        exact ⟨id, .back hpath, rfl⟩
      · obtain ⟨targets, hlists⟩ := hs.self
        rw [visitSupertypes_eq hlists hid hpath] at h
        -- the class itself is no reason to fail, so one of those that it lists is
        cases hfold : targets.foldlM (fun f i => env.visitSupertypes n (id :: path) f i) before with
        | ok done =>
            rw [hfold] at h
            cases h
        | error e' =>
            rw [hfold] at h
            cases h
            obtain ⟨i, hi, f, hfail⟩ := foldlM_eq_error hfold
            have hl : Extends env id i := ⟨targets, hlists, hi⟩
            obtain ⟨x, hx, rfl⟩ := ih (hs.link hl) hfail
            exact ⟨x, .link hl hx, rfl⟩

/-- The chain of superclasses fails for the same reasons. -/
theorem chainFrom_failure {n : Nat} {seen : List ClassId} {id : ClassId} {e : TypeError}
    (hs : Surveyed env id) (h : (env.chainFrom n seen id).failure = some e) :
    ∃ x, GivesUp env n seen id x ∧ e = env.cyclic x := by
  induction n generalizing seen id with
  | zero =>
      cases h
      exact ⟨id, .full, rfl⟩
  | succ n ih =>
      rw [Env.chainFrom] at h
      split at h
      · rename_i hid
        cases h
        exact ⟨id, .back hid, rfl⟩
      · -- the superclass is among what the class lists, so the chain is a walk as well
        obtain ⟨targets, hlists⟩ := hs.self
        have hlisted := hlists
        obtain ⟨parent, -, hparent, -, -⟩ := hlisted
        rw [hparent] at h
        cases parent with
        | none => cases h
        | some p =>
            have hl : Extends env id p := ⟨targets, hlists, hlists.superclass hparent⟩
            obtain ⟨x, hx, he⟩ := ih (hs.link hl) h
            exact ⟨x, .link hl hx, he⟩

theorem completeChain_eq_ok {start : ClassId} (h : (env.superclassChain start).failure = none) :
    env.completeChain start = .ok (env.superclassChain start).classes := by
  unfold Env.completeChain
  simp [h]

/-- The expansion cannot fail among classes whose interfaces are known. -/
theorem expandInterfaces_eq_ok {known : List ClassId}
    (hknown : ∀ x ∈ known, ∃ is, env.interfacesOf x = .ok is ∧ is ⊆ known) (rounds : Nat)
    (done : List ClassId) {pending : List ClassId} (hpending : pending ⊆ known) :
    ∃ all, env.expandInterfaces rounds done pending = .ok all := by
  induction rounds generalizing done pending with
  | zero =>
      cases pending with
      | nil => exact ⟨done, rfl⟩
      | cons c rest => exact ⟨done ++ c :: rest, rfl⟩
  | succ rounds ih =>
      cases pending with
      | nil => exact ⟨done, rfl⟩
      | cons c rest =>
          rw [List.cons_subset] at hpending
          obtain ⟨is, his, hsub⟩ := hknown c hpending.1
          rw [Env.expandInterfaces, his, ok_bind]
          -- what is pending stays among the known classes
          refine ih _ (List.append_subset.mpr ⟨hpending.2, fun x hx => ?_⟩)
          exact hsub (mem_freshIn.mp hx).1

/-! ## The closure -/

/-- No path of links that starts at `start` and repeats no class has more than `n` classes. -/
def ClassesWithin (env : Env) (n : Nat) (start : ClassId) : Prop :=
  ∀ rest, (start :: rest).IsChain (Extends env) → (start :: rest).Nodup →
    (start :: rest).length ≤ n

/-- Without cycles, no walk is given up that has room for every path. -/
theorem AcyclicAbove.not_givesUp {n : Nat} {start x : ClassId} (h : AcyclicAbove env start)
    (hpaths : ClassesWithin env n start) : ¬ GivesUp env n [] start x := by
  intro hx
  obtain ⟨rest, hchain, hlen⟩ := hx.path (fun _ hp => nomatch hp) h
  have hle := hpaths rest hchain (h.nodup hchain)
  rw [List.length_cons] at hle
  omega

/-- The interfaces of what was visited have been visited. -/
theorem interfacesOf_of_visit {n : Nat} {start : ClassId} {visited : List ClassId}
    (h : env.visitSupertypes n [] [] start = .ok visited) {x : ClassId} (hx : x ∈ visited) :
    ∃ is, env.interfacesOf x = .ok is ∧ is ⊆ visited := by
  obtain ⟨targets, hlists, hsub⟩ := (visitSupertypes_gathers h).closed x hx List.not_mem_nil
  have hlisted := hlists
  obtain ⟨-, is, -, his, -⟩ := hlisted
  exact ⟨is, his, List.Subset.trans (hlists.interfaces his) hsub⟩

/-- The three passes succeed where no walk is given up. -/
theorem supertypeClosure_eq_ok {start : ClassId} (hs : Surveyed env start)
    (hwalks : ∀ x, ¬ GivesUp env env.depthLimit [] start x) :
    (env.superclassChain start).failure = none ∧
      ∃ all, env.supertypeClosure start = .ok all ∧
        (env.superclassChain start).classes <+: all := by
  have hchain : (env.superclassChain start).failure = none := by
    cases hfail : (env.superclassChain start).failure with
    | none => rfl
    | some e =>
        obtain ⟨x, hx, -⟩ := chainFrom_failure hs hfail
        exact absurd hx (hwalks x)
  refine ⟨hchain, ?_⟩
  -- the visit comes first, and what it has met carries the other two passes
  cases hvisit : env.visitSupertypes env.depthLimit [] [] start with
  | error e =>
      obtain ⟨x, hx, -⟩ := visitSupertypes_eq_error hs hvisit
      exact absurd hx (hwalks x)
  | ok visited =>
      have hcomplete := completeChain_eq_ok hchain
      have hclimbs := completeChain_climbs hcomplete
      have hord := (visitSupertypes_ordered hvisit trivial).1
      have hstart := (visitSupertypes_gathers hvisit).visited List.mem_cons_self
      -- all that the expansion meets has been visited
      have hpending : (env.superclassChain start).classes ⊆ visited := by
        intro x hx
        exact hord.mem_of_reached hstart (hs.reached_of_superclass (hclimbs.reached x hx))
      obtain ⟨all, hall⟩ :=
        expandInterfaces_eq_ok (fun _ => interfacesOf_of_visit hvisit) visited.length [] hpending
      refine ⟨all, ?_, ?_⟩
      · unfold Env.supertypeClosure Env.reachableSupertypes
        rw [hvisit, ok_bind, hcomplete, ok_bind, hall]
      · exact (expandInterfaces_order hall hclimbs.nodup).1

/-- A cycle makes the visit fail, and so the closure. -/
theorem supertypeClosure_eq_error {start : ClassId} (hs : Surveyed env start)
    (hcycle : ¬ AcyclicAbove env start) :
    ∃ x, ReflTransGen (Extends env) start x ∧
      env.supertypeClosure start = .error (env.cyclic x) := by
  cases hvisit : env.visitSupertypes env.depthLimit [] [] start with
  | ok visited => exact absurd (acyclicAbove_of_visit hvisit) hcycle
  | error e =>
      obtain ⟨x, hx, rfl⟩ := visitSupertypes_eq_error hs hvisit
      refine ⟨x, hx.reached, ?_⟩
      unfold Env.supertypeClosure Env.reachableSupertypes
      rw [hvisit, error_bind]

/--
**Cycle detection is exact**, in every environment and for every class above which all
classes are defined and all links resolve.

If a class that links lead to lies on a cycle of links, there is no closure, and the
error says that inheritance is cyclic. If none does, and no path has more classes than
the depth limit, there is a closure. It begins with the class and holds nothing
twice, and the chain of superclasses, which comes to its end, is where it starts.
-/
theorem supertypeClosure_detects_cycles {start : ClassId} (hs : Surveyed env start) :
    ((∃ x, ReflTransGen (Extends env) start x ∧ TransGen (Extends env) x x) →
      ∃ x, ReflTransGen (Extends env) start x ∧
        env.supertypeClosure start = .error (.cyclicInheritance (env.displayName x))) ∧
    (AcyclicAbove env start → ClassesWithin env env.depthLimit start →
      ∃ all, env.supertypeClosure start = .ok all ∧ all.Nodup ∧ all.head? = some start ∧
        (env.superclassChain start).failure = none ∧
        (env.superclassChain start).classes <+: all) := by
  constructor
  · intro hcycle
    obtain ⟨x, hx, hback⟩ := hcycle
    exact supertypeClosure_eq_error hs fun hacyclic => hacyclic x hx hback
  · intro hacyclic hpaths
    obtain ⟨hchain, all, hall, hpre⟩ :=
      supertypeClosure_eq_ok hs fun _ => hacyclic.not_givesUp hpaths
    obtain ⟨⟨rest, rfl⟩, hnodup⟩ := supertypeClosure_order hall
    exact ⟨_, hall, hnodup, rfl, hchain, hpre⟩

/-! ## Surveys

Whether all classes above a class are defined and all links resolve can be read off a finite list
of classes that no link leaves. -/

/-- All that the classes list resolves, and is in the list. -/
def isSurvey (env : Env) (classes : List ClassId) : Bool :=
  classes.all fun x =>
    match env.superclassOf x, env.interfacesOf x with
    | .ok parent, .ok is => (parent.toList ++ is).all (· ∈ classes)
    | _, _ => false

section Survey

variable {classes : List ClassId} (h : isSurvey env classes = true)

include h

theorem lists_of_mem_survey {x : ClassId} (hx : x ∈ classes) :
    ∃ targets, Lists env x targets ∧ targets ⊆ classes := by
  have hmem := List.all_eq_true.mp h x hx
  split at hmem
  · rename_i parent is hparent his
    refine ⟨parent.toList ++ is, ⟨parent, is, hparent, his, rfl⟩, fun y hy => ?_⟩
    exact of_decide_eq_true (List.all_eq_true.mp hmem y hy)
  · cases hmem

theorem mem_survey_of_extends {x y : ClassId} (hx : x ∈ classes) (hl : Extends env x y) :
    y ∈ classes := by
  obtain ⟨targets, hlists, hsub⟩ := lists_of_mem_survey h hx
  exact hsub (hlists.mem_of_extends hl)

theorem surveyed_of_survey {start : ClassId} (hstart : start ∈ classes) : Surveyed env start := by
  intro x hx
  have hmem : x ∈ classes := by
    induction hx with
    | refl => exact hstart
    | tail _ hl ih => exact mem_survey_of_extends h ih hl
  obtain ⟨targets, hlists, -⟩ := lists_of_mem_survey h hmem
  exact ⟨targets, hlists⟩

/-- A path without a repetition has no more classes than the list. -/
theorem classesWithin_of_survey {start : ClassId} (hstart : start ∈ classes) {n : Nat}
    (hn : classes.length ≤ n) : ClassesWithin env n start := by
  intro rest hchain hnodup
  have hsub : start :: rest ⊆ classes := by
    clear hnodup
    induction rest generalizing start with
    | nil => exact List.cons_subset.mpr ⟨hstart, List.nil_subset classes⟩
    | cons next rest ih =>
        obtain ⟨hl, hchain⟩ := List.isChain_cons_cons.mp hchain
        exact List.cons_subset.mpr ⟨hstart, ih (mem_survey_of_extends h hstart hl) hchain⟩
  exact (hnodup.subperm hsub).length_le.trans hn

end Survey

/-- Two interfaces that extend each other, and a class below them. -/
def tangleRun : List Change :=
  [.intern "p.I", .addClass { name := "p.J", flags := .interface, interfaces := [.cls ⟨12⟩] },
   .addClass { name := "p.I", flags := .interface, interfaces := [.named "p.J"] },
   .addClass { name := "p.C", interfaces := [.cls ⟨12⟩] }]

/-- Four classes in a diamond. -/
def diamondRun : List Change :=
  [.addClass { name := "p.Top", flags := .interface },
   .addClass { name := "p.L", flags := .interface, interfaces := [.cls ⟨12⟩] },
   .addClass { name := "p.R", flags := .interface, interfaces := [.cls ⟨12⟩] },
   .addClass { name := "p.D", interfaces := [.cls ⟨13⟩, .named "p.R"] }]

/-- The class below the tangle is refused although it is on no cycle itself. The diamond has five
classes with the top class, as many as the depth limit, and is no cycle. -/
theorem supertypeClosure_of_tangle :
    let tangle := (afterAll Store.builtin tangleRun).env
    let diamond := (afterAll (Store.withSettings { maxHierarchyDepth := 5 }) diamondRun).env
    (Surveyed tangle ⟨14⟩ ∧ ReflTransGen (Extends tangle) ⟨14⟩ ⟨12⟩ ∧
        TransGen (Extends tangle) ⟨12⟩ ⟨12⟩) ∧
      (∃ x, ReflTransGen (Extends tangle) ⟨14⟩ x ∧
        tangle.supertypeClosure ⟨14⟩ = .error (.cyclicInheritance (tangle.displayName x))) ∧
      (Surveyed diamond ⟨15⟩ ∧ AcyclicAbove diamond ⟨15⟩ ∧
        ClassesWithin diamond diamond.depthLimit ⟨15⟩) ∧
      ∃ all, diamond.supertypeClosure ⟨15⟩ = .ok all ∧ all.Nodup ∧ all.head? = some ⟨15⟩ ∧
        (diamond.superclassChain ⟨15⟩).failure = none ∧
        (diamond.superclassChain ⟨15⟩).classes <+: all := by
  intro tangle diamond
  have htangle : isSurvey tangle [⟨14⟩, ⟨0⟩, ⟨12⟩, ⟨13⟩] = true := by decide
  have hs : Surveyed tangle ⟨14⟩ := surveyed_of_survey htangle List.mem_cons_self
  have hup : Extends tangle ⟨14⟩ ⟨12⟩ :=
    ⟨[⟨0⟩, ⟨12⟩], ⟨some ⟨0⟩, [⟨12⟩], rfl, rfl, rfl⟩, by decide⟩
  have hij : Extends tangle ⟨12⟩ ⟨13⟩ := ⟨[⟨13⟩], ⟨none, [⟨13⟩], rfl, rfl, rfl⟩, by decide⟩
  have hji : Extends tangle ⟨13⟩ ⟨12⟩ := ⟨[⟨12⟩], ⟨none, [⟨12⟩], rfl, rfl, rfl⟩, by decide⟩
  have hreach := ReflTransGen.single hup
  have hcycle := (TransGen.single hij).tail hji
  have hdiamond : isSurvey diamond [⟨15⟩, ⟨0⟩, ⟨13⟩, ⟨14⟩, ⟨12⟩] = true := by decide
  have hs' : Surveyed diamond ⟨15⟩ := surveyed_of_survey hdiamond List.mem_cons_self
  have hvisit : diamond.visitSupertypes diamond.depthLimit [] [] ⟨15⟩ =
      .ok [⟨15⟩, ⟨14⟩, ⟨13⟩, ⟨12⟩, ⟨0⟩] := by rfl
  have hacyclic : AcyclicAbove diamond ⟨15⟩ := acyclicAbove_of_visit hvisit
  have hpaths : ClassesWithin diamond diamond.depthLimit ⟨15⟩ :=
    classesWithin_of_survey hdiamond List.mem_cons_self (by decide)
  exact ⟨⟨hs, hreach, hcycle⟩,
    (supertypeClosure_detects_cycles hs).1 ⟨_, hreach, hcycle⟩,
    ⟨hs', hacyclic, hpaths⟩, (supertypeClosure_detects_cycles hs').2 hacyclic hpaths⟩

end Lineage.Proofs
