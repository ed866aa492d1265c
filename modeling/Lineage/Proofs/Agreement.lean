import Lineage.Proofs.Kinds
import Lineage.Proofs.Registry

/-!
# The closure and descent agree

Two walks go up from a class: the closure that member look-up uses, and the search
that decides subtyping. Both are cut off by the depth limit, but not in the same
way, and paths through a class that is already finished are not walked again. A
success of the closure therefore does not bound the length of paths, and
completeness of the search does not apply.

What saves the agreement is that both walks go depth first in the same order. As
long as the search has not found what it looks for, the classes that it has met are
those on the path of the visit and those that the visit has finished (`Tracks`);
so it enters a class exactly when the visit does, one level deeper in its budget,
and is never cut off. From there on only the two sets are compared.
-/

namespace Lineage.Proofs

open Store Relation

variable {env : Env} {ancestor : Ty}

/-! ## The search follows the visit -/

/-- The classes met are those on the path and those that are finished. -/
def Tracks (met : List Ty) (path finished : List ClassId) : Prop :=
  ∀ x, .cls x ∈ met ↔ x ∈ path ∨ x ∈ finished

theorem Tracks.enter {met : List Ty} {path finished : List ClassId} (h : Tracks met path finished)
    (id : ClassId) : Tracks (.cls id :: met) (id :: path) finished := by
  intro x
  rw [List.mem_cons, List.mem_cons, h x, Ty.cls.injEq, or_assoc]

theorem Tracks.leave {met : List Ty} {path finished : List ClassId} {id : ClassId}
    (h : Tracks met (id :: path) finished) : Tracks met path (id :: finished) := by
  intro x
  rw [h x, List.mem_cons, List.mem_cons, or_assoc, or_left_comm]

/-- The types that the search has yet to try are the classes that the visit has yet to make on
its way to `finished`. -/
def InStep (env : Env) (n : Nat) (path finished : List ClassId) (ts met : List Ty) : Prop :=
  ∃ ids f : List ClassId, ts = ids.map .cls ∧ Tracks met path f ∧
    ids.foldlM (fun f i => env.visitSupertypes n path f i) f = .ok finished

theorem InStep.tracks {n : Nat} {path finished : List ClassId} {met : List Ty}
    (h : InStep env n path finished [] met) : Tracks met path finished := by
  obtain ⟨ids, f, hids, htracks, hrun⟩ := h
  cases ids with
  | nil =>
      cases hrun
      exact htracks
  | cons i ids => cases hids

/-- **Where the visit succeeds, the search comes to an answer**, if the classes visited have no
links but those that are followed. -/
theorem search_answers_of_visit (hroot : Rooted env) (hanc : ancestor.isReference = true)
    {n : Nat} {path before finished : List ClassId} {id : ClassId} {met : List Ty}
    (h : env.visitSupertypes n path before id = .ok finished)
    (hfollows : ∀ x ∈ finished, ∀ targets, Lists env x targets → Follows env x targets)
    (htracks : Tracks met path before) (hne : .cls id ≠ ancestor) :
    Answers env ancestor met [.cls id] (fun m => Tracks m path finished)
      (env.search ancestor (n + 1) (.cls id) met) := by
  induction n using Nat.strongRecOn generalizing path before finished id met with
  | ind n ih =>
      by_cases hid : id ∈ before
      · -- a finished class is not visited again, and the search has met it
        rw [visitSupertypes_of_mem hid] at h
        cases h
        exact search_answers_of_mem hne ((htracks id).mpr (.inr hid)) htracks
      · obtain ⟨hpath, k, targets, done, rfl, hlists, hfold, rfl⟩ := visitSupertypes_eq_ok h hid
        -- neither on the path nor finished, so it is new to the search as well
        have hmet : .cls id ∉ met := fun hmem => ((htracks id).mp hmem).elim hpath hid
        have hf := hfollows id List.mem_cons_self targets hlists
        -- the visit has `k + 1` levels left and the search `k + 2`
        rcases search_cls (n := k + 1) hanc hne hmet hf with ⟨-, hrun⟩ | ⟨hedges, hrun⟩
        · rw [hrun]
          exact answers_true
        · rw [hrun]
          -- an edge that is not listed leads to the top class, where nothing is to be found
          have hup : ∀ t, DirectSupertype env (.cls id) t →
              t ∈ targets.map .cls ∨ Settled env ancestor [] t := by
            intro t ht
            rcases hedges t ht with hl | ⟨rfl, htop⟩
            · exact .inl (hf.link_iff.mp hl)
            · exact .inr (hroot.settled_top htop [])
          -- one round of the loop is one visit, and the search from that class keeps up with it
          have hround : ∀ t ts m, InStep env k (id :: path) done (t :: ts) m → t ≠ ancestor →
              Answers env ancestor m [t] (InStep env k (id :: path) done ts)
                (env.search ancestor (k + 1) t m) := by
            intro t ts m hstep hnet
            obtain ⟨ids, f, hids, htr, hrest⟩ := hstep
            cases ids with
            | nil => cases hids
            | cons i ids =>
                cases hids
                rw [List.foldlM_cons] at hrest
                obtain ⟨f₁, hvisit, hrest⟩ := bind_eq_ok_iff.mp hrest
                -- what this round has finished stays finished in the later ones
                have hsub := (foldlM_gathers (fun _ _ _ => visitSupertypes_gathers) hrest).kept
                have hans := ih k (Nat.lt_succ_self k) hvisit
                  (fun x hx => hfollows x (List.mem_cons_of_mem id (hsub hx))) htr hnet
                exact hans.imp fun m' _ htr' => ⟨ids, f₁, rfl, htr', hrest⟩
          have hloop := anyReaches_answers hround
            ⟨targets, before, rfl, htracks.enter id, hfold⟩
          exact (hloop.imp fun m _ hend => hend.tracks.leave).up hne hup

/-! ## The two sets -/

/-- Where links keep to their kind, all that a class lists is followed. -/
theorem WellKinded.follows {all : List ClassId} (hkinds : WellKinded env all)
    (hbare : BareTop env) {x : ClassId} (hx : x ∈ all) {targets : List ClassId}
    (h : Lists env x targets) : Follows env x targets := by
  obtain ⟨c, hc, htargets⟩ := lists_iff.mp h
  refine ⟨c, hc, ?_⟩
  have hlinks : followedLinks env x c = c.superclass.toList ++ c.interfaces := by
    unfold followedLinks
    split
    · -- an interface in the closure has no superclass that could be passed over
      rename_i hi
      cases hlink : c.superclass with
      | none => rfl
      | some link =>
          rw [hlink] at htargets
          cases htargets with
          | @cons _ p _ _ hp _ =>
              have hsup : HasSuperclass env x p :=
                hasSuperclass_iff.mpr ⟨c, link, hc, hlink, hp⟩
              have hkind := (hkinds.superclasses x hx p hsup).1
              simp [isInterfaceClass, hc, hi] at hkind
    · split
      · -- the links of the top class are never followed, but there are none
        rename_i hobj
        obtain ⟨d, hd, -, hnone, hnil⟩ := hbare
        rw [← hobj, hc] at hd
        cases hd
        rw [hnone, hnil]
        rfl
      · rfl
  rw [hlinks]
  exact htargets

/-- Only the top class has no superclass. -/
def EndsAtTop (env : Env) : Prop :=
  ∀ {id c}, env.classDef? id = some c → c.isInterface = false → id ≠ env.wellKnown.object →
    c.superclass.isSome

section Comparison

variable {start : ClassId} {visited chain all : List ClassId}
  (hclosure : ClosureOf env start visited chain all) (hkinds : WellKinded env all)

include hclosure hkinds

/-- Interfaces have no superclass to add, so the closure misses none. -/
theorem closure_closed {x y : ClassId} (hx : x ∈ all) (h : Extends env x y) : y ∈ all := by
  have hexp := hclosure.expands
  obtain ⟨targets, ⟨parent, is, hparent, his, rfl⟩, hy⟩ := h
  rcases List.mem_append.mp hy with hy | hy
  · rw [Option.mem_toList] at hy
    cases hy
    obtain ⟨r, hr, hreach⟩ := hexp.reached x hx
    rcases ReflTransGen.cases_tail hreach with rfl | ⟨w, hw, hwx⟩
    · -- a class of the chain, which goes all the way up
      obtain ⟨q, hq, hmem⟩ := hclosure.climbs.closed x hr
      rw [hparent] at hq
      cases hq
      exact hexp.kept (hmem y rfl)
    · -- a class that was reached through an interface link is an interface
      have hint := hkinds.interfaces w (hexp.mem_of_reached (hexp.kept hr) hw) x hwx
      rw [(hkinds.superclasses x hx y hparent).1] at hint
      cases hint
  · -- interfaces are added until none is new
    obtain ⟨js, hjs, hsub⟩ := hexp.closed x hx
    rw [his] at hjs
    cases hjs
    exact hsub hy

theorem closure_reached {x : ClassId} (h : ReflTransGen (Extends env) start x) : x ∈ all := by
  induction h with
  | refl => exact hclosure.expands.kept hclosure.climbs.start
  | tail _ hlink ih => exact closure_closed hclosure hkinds ih hlink

theorem visited_subset_closure : visited ⊆ all := by
  intro x hx
  obtain ⟨i, hi, hreach⟩ := (visitSupertypes_gathers hclosure.visit).reached x hx List.not_mem_nil
  rw [List.mem_singleton.mp hi] at hreach
  exact closure_reached hclosure hkinds hreach

/-- Within the closure, the links that are followed are all that there are. -/
theorem closure_link_iff (hbare : BareTop env) {x y : ClassId} (hx : x ∈ all) :
    Link env (.cls x) (.cls y) ↔ Extends env x y := by
  constructor
  · intro hl
    obtain ⟨targets, hlists⟩ := hclosure.lists hx
    obtain ⟨z, hz, heq⟩ := List.mem_map.mp ((hkinds.follows hbare hx hlists).link_iff.mp hl)
    cases heq
    exact ⟨targets, hlists, hz⟩
  · intro hext
    obtain ⟨targets, hlists, hy⟩ := hext
    exact (hkinds.follows hbare hx hlists).link_iff.mpr (List.mem_map_of_mem hy)

/-- The way up from a class ends at the top. -/
theorem top_mem_closure (hends : EndsAtTop env) (hstart : isInterfaceClass env start = false) :
    env.wellKnown.object ∈ all := by
  have hclimbs := hclosure.climbs
  obtain ⟨t, ht, hnone⟩ := hclimbs.top
  have hkind : isInterfaceClass env t = false := by
    -- superclass links do not turn a class into an interface
    rcases ReflTransGen.cases_tail (hclimbs.reached t ht) with rfl | ⟨w, hw, hwt⟩
    · exact hstart
    · exact (hkinds.superclasses w (hclosure.expands.kept (hclimbs.mem_of_reached hw)) t hwt).2
  obtain ⟨c, hc, hsup⟩ := superclassOf_eq_ok_iff.mp hnone
  have hi : c.isInterface = false := by simpa [isInterfaceClass, hc] using hkind
  have hobj : t = env.wellKnown.object := by
    by_contra hne
    obtain ⟨link, hlink⟩ := Option.isSome_iff_exists.mp (hends hc hi hne)
    rw [hlink] at hsup
    obtain ⟨p, -, heq⟩ := hsup
    cases heq
  exact hobj ▸ hclosure.expands.kept ht

theorem mem_closure_of_above (hroot : Rooted env) (hbare : BareTop env)
    (hends : EndsAtTop env) {a : ClassId} (h : Above env (.cls start) (.cls a)) :
    a ∈ all ∨ isInterfaceClass env start = true ∧ a = env.wellKnown.object := by
  -- the closure, with the top class above an interface, is not left by any edge
  have hup : ∀ t, ReflTransGen (DirectSupertype env) (.cls start) t → ∃ x, t = .cls x ∧
      (x ∈ all ∨ isInterfaceClass env start = true ∧ x = env.wellKnown.object) := by
    intro t ht
    induction ht with
    | refl => exact ⟨start, rfl, .inl (hclosure.expands.kept hclosure.climbs.start)⟩
    | tail _ hedge ih =>
        obtain ⟨x, rfl, hx | ⟨-, rfl⟩⟩ := ih
        · cases hedge with
          | link hl =>
              cases hl with
              | @cls _ target _ _ hc hmem hres =>
                  refine ⟨target, rfl, .inl (closure_closed hclosure hkinds hx ?_)⟩
                  exact (closure_link_iff hclosure hkinds hbare hx).mp (Link.cls hc hmem hres)
          | top =>
              -- an interface above a class: the way up from that class gets to the top too
              refine ⟨env.wellKnown.object, rfl, ?_⟩
              cases hstart : isInterfaceClass env start with
              | true => exact .inr ⟨rfl, rfl⟩
              | false => exact .inl (top_mem_closure hclosure hkinds hends hstart)
        · exact absurd hedge (hroot.top _)
  obtain ⟨x, heq, hx⟩ := hup _ h.to_reflTransGen
  cases heq
  exact hx

theorem above_of_mem_closure (hbare : BareTop env) {a : ClassId} (hmem : a ∈ all)
    (ha : a ≠ start) : Above env (.cls start) (.cls a) := by
  have hpath : ∀ x, ReflTransGen (Extends env) start x →
      ReflTransGen (DirectSupertype env) (.cls start) (.cls x) := by
    intro x hx
    induction hx with
    | refl => exact ReflTransGen.refl
    | tail hw hlink ih =>
        have hin := closure_reached hclosure hkinds hw
        exact ih.tail (.link ((closure_link_iff hclosure hkinds hbare hin).mpr hlink))
  -- the visit has been everywhere in the closure, and it began at `start`
  obtain ⟨i, hi, hreach⟩ := (visitSupertypes_gathers hclosure.visit).reached a
    (hclosure.within hmem) List.not_mem_nil
  rw [List.mem_singleton.mp hi] at hreach
  rcases reflTransGen_iff_eq_or_transGen.mp (hpath a hreach) with heq | habove
  · exact absurd (Ty.cls.inj heq) ha
  · exact habove

/-- **The classes above `start` are those of its closure**, and the top class if `start` is an
interface. -/
theorem above_iff_mem_closure (hroot : Rooted env) (hbare : BareTop env)
    (hends : EndsAtTop env) {a : ClassId} (ha : a ≠ start) :
    Above env (.cls start) (.cls a) ↔
      a ∈ all ∨ isInterfaceClass env start = true ∧ a = env.wellKnown.object := by
  constructor
  · exact mem_closure_of_above hclosure hkinds hroot hbare hends
  · intro h
    rcases h with hmem | ⟨hstart, rfl⟩
    · exact above_of_mem_closure hclosure hkinds hbare hmem ha
    · obtain ⟨c, hc, hi⟩ : ∃ c, env.classDef? start = some c ∧ c.isInterface = true := by
        simpa [isInterfaceClass, Option.any_eq_true] using hstart
      exact TransGen.single (.top hc hi)

end Comparison

/--
**The closure and descent agree** on every reachable store: if the closure of a class
is defined and its links keep to their kind, then the question whether the class
descends from another one has an answer, and the answer is yes exactly for the other
classes of the closure, and for the top class above an interface.
-/
theorem descends_iff_mem_closure {s : Store} (hs : Reachable s) {start : ClassId}
    {all : List ClassId} (h : s.env.supertypeClosure start = .ok all)
    (hkinds : WellKinded s.env all) {a : ClassId} (ha : a ≠ start) :
    s.env.descends (.cls start) (.cls a) = .ok (decide
      (a ∈ all ∨ isInterfaceClass s.env start = true ∧ a = s.wellKnown.object)) := by
  have hroot := rooted_of_reachable hs
  have hbare := bareTop_of_reachable hs
  obtain ⟨visited, chain, hclosure⟩ := supertypeClosure_spec h
  have hne : Ty.cls start ≠ .cls a := fun heq => ha (Ty.cls.inj heq).symm
  have hsub := visited_subset_closure hclosure hkinds
  have htracks : Tracks [] [] [] := by simp [Tracks]
  have hans := search_answers_of_visit hroot (isReference_cls a) hclosure.visit
    (fun x hx targets hlists => hkinds.follows hbare (hsub hx) hlists) htracks hne
  obtain ⟨found, hrun, hfound⟩ := descends_of_answers rfl rfl hans
  have hends : EndsAtTop s.env := (registry_reachable hs).extend
  have habove := above_iff_mem_closure hclosure hkinds hroot hbare hends ha
  rw [hrun]
  congr 1
  rw [Bool.eq_iff_iff, hfound, decide_eq_true_iff]
  constructor
  · intro hproper
    exact habove.mp hproper.2.2.2
  · intro hmem
    exact ⟨hne, rfl, rfl, habove.mpr hmem⟩

/-- A class that lists three interfaces of which each but the first extends the one before. -/
def ladderRun : List Change :=
  [.addClass { name := "p.A", flags := .interface },
   .addClass { name := "p.B", flags := .interface, interfaces := [.cls ⟨12⟩] },
   .addClass { name := "p.C", flags := .interface, interfaces := [.cls ⟨13⟩] },
   .addClass { name := "p.D", interfaces := [.cls ⟨12⟩, .named "p.B", .cls ⟨14⟩] }]

/-- The depth limit is two, and the path from `p.D` through all three interfaces is longer. Still
the first one is found, and strings are not. -/
theorem descends_up_ladder :
    let s := afterAll (Store.withSettings { maxHierarchyDepth := 2 }) ladderRun
    let all : List ClassId := [⟨15⟩, ⟨0⟩, ⟨12⟩, ⟨13⟩, ⟨14⟩]
    (Reachable s ∧ s.env.supertypeClosure ⟨15⟩ = .ok all ∧ WellKinded s.env all) ∧
      s.env.descends (.cls ⟨15⟩) (.cls ⟨12⟩) = .ok true ∧
      s.env.descends (.cls ⟨15⟩) (.cls wellKnownIds.string) = .ok false := by
  intro s all
  have hreach : Reachable s := reachable_afterAll (Reachable.withSettings _) ladderRun
  have hrun : s.env.supertypeClosure ⟨15⟩ = .ok all := by rfl
  have hkinds : WellKinded s.env all := (keepsKinds_of_check (by decide)).wellKinded (by decide)
  exact ⟨⟨hreach, hrun, hkinds⟩,
    (descends_iff_mem_closure hreach hrun hkinds (by decide)).trans (by decide),
    (descends_iff_mem_closure hreach hrun hkinds (by decide)).trans (by decide)⟩

end Lineage.Proofs
