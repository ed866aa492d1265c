import Lineage.Proofs.Coherence
import Lineage.Proofs.Cycles

/-!
# What the depth limit can hide

The search for an ancestor opens a class by following its links, and does not open
what lies below the depth limit. It marks a class as met before it looks at the depth,
and what is marked is not looked at again. So a class that is first met just below
the limit is never opened, not even when a shorter path comes to it later: a long
detour can hide an ancestor that is close, and whether it does depends on the order in
which links are listed.

Only classes that some path puts exactly one link below the limit can be lost like
that. All others that a search without success has met have been opened (`Swept`),
and so a path on which no class in between is lost leads the search to its end,
whatever other paths there are. Cycles do not matter for this.
-/

namespace Lineage.Proofs

open Store Relation

/-- Some path of `n` links leads from `t` to a type. -/
inductive LinksAway (env : Env) (t : Ty) : Nat → Ty → Prop where
  | self : LinksAway env t 0 t
  | link {n : Nat} {u w : Ty} : LinksAway env t n u → Link env u w → LinksAway env t (n + 1) w

/-- The links of `u` have been followed, and none of them leads to the ancestor. -/
def Opened (env : Env) (ancestor : Ty) (met : List Ty) (u : Ty) : Prop :=
  ∀ t, Link env u t → t ≠ ancestor ∧ t ∈ met

/-- What was met since `before` has been opened, or is `depth` links away from `root`. -/
structure Swept (env : Env) (ancestor root : Ty) (depth : Nat) (before met : List Ty) : Prop where
  kept : before ⊆ met
  opened : ∀ u ∈ met, u ∉ before → LinksAway env root depth u ∨ Opened env ancestor met u

/-- A search of `ts` comes to an answer. If that is no, then `ts` and all that was met on the way
have been swept. -/
def Sweeps (env : Env) (ancestor root : Ty) (depth : Nat) (met ts : List Ty)
    (outcome : Except TypeError (Bool × List Ty)) : Prop :=
  ∃ found met', outcome = .ok (found, met') ∧ (found = false →
    Swept env ancestor root depth met met' ∧ ∀ t ∈ ts, t ≠ ancestor ∧ t ∈ met')

section Sweep

variable {env : Env} {ancestor root : Ty} {depth : Nat}

theorem Opened.mono {met met' : List Ty} {u : Ty} (h : Opened env ancestor met u)
    (hsub : met ⊆ met') : Opened env ancestor met' u := fun t ht =>
  ⟨(h t ht).1, hsub (h t ht).2⟩

theorem Swept.refl (met : List Ty) : Swept env ancestor root depth met met :=
  ⟨List.Subset.refl met, fun _ hu hnot => absurd hu hnot⟩

theorem Swept.trans {met₁ met₂ met₃ : List Ty} (h : Swept env ancestor root depth met₁ met₂)
    (h' : Swept env ancestor root depth met₂ met₃) : Swept env ancestor root depth met₁ met₃ := by
  refine ⟨List.Subset.trans h.kept h'.kept, fun u hu hnot => ?_⟩
  -- opened by the first sweep, or met by the second
  by_cases hmid : u ∈ met₂
  · exact (h.opened u hmid hnot).imp_right fun hopen => hopen.mono h'.kept
  · exact h'.opened u hu hmid

/-- The loop over links: what one round sweeps adds up. -/
theorem anyReaches_sweeps {f : Ty → List Ty → Except TypeError (Bool × List Ty)} {ts : List Ty}
    (hround : ∀ t ∈ ts, t ≠ ancestor → ∀ m, Sweeps env ancestor root depth m [t] (f t m))
    (met : List Ty) : Sweeps env ancestor root depth met ts (Env.anyReaches ancestor f ts met) := by
  have hloop : ∃ found met', Env.anyReaches ancestor f ts met = .ok (found, met') ∧
      (found = false → Swept env ancestor root depth met met' ∧
        (∀ t ∈ ts, t ≠ ancestor ∧ t ∈ met') ∧ [] ⊆ ts) := by
    -- the loop rule wants an invariant of the types still to come: they are among the links
    refine anyReaches_loop (P := fun us _ => us ⊆ ts) (S := fun m t => t ≠ ancestor ∧ t ∈ m)
      Swept.refl (fun _ _ _ => Swept.trans) (fun _ _ _ hswept ht => ⟨ht.1, hswept.kept ht.2⟩) ?_
      (List.Subset.refl ts)
    intro t us m hsub hne
    rw [List.cons_subset] at hsub
    obtain ⟨found, m', hrun, hno⟩ := hround t hsub.1 hne m
    refine ⟨found, m', hrun, fun hfound => ?_⟩
    obtain ⟨hswept, hmet⟩ := hno hfound
    exact ⟨hswept, hmet t List.mem_cons_self, hsub.2⟩
  obtain ⟨found, met', hrun, hno⟩ := hloop
  exact ⟨found, met', hrun, fun hfound => ⟨(hno hfound).1, (hno hfound).2.1⟩⟩

/-- One level: a class that has not been met is opened, if the levels above sweep. -/
theorem search_opens (hanc : ancestor.isReference = true) {id : ClassId} {n : Nat} {met : List Ty}
    (hne : .cls id ≠ ancestor) (hmet : .cls id ∉ met) (hch : Charted env (.cls id))
    (hround : ∀ i, Link env (.cls id) (.cls i) → .cls i ≠ ancestor → ∀ m,
      Sweeps env ancestor root depth m [.cls i] (env.search ancestor n (.cls i) m)) :
    ∃ found met', env.search ancestor (n + 1) (.cls id) met = .ok (found, met') ∧
      (found = false → Swept env ancestor root depth (.cls id :: met) met' ∧
        Opened env ancestor met' (.cls id)) := by
  obtain ⟨targets, hf⟩ := hch.follows
  -- found on the spot, or the links are swept one after the other
  rcases search_cls (n := n) hanc hne hmet hf with ⟨-, hrun⟩ | ⟨-, hrun⟩
  · exact ⟨true, _, hrun, fun h => nomatch h⟩
  · have htargets : ∀ t ∈ targets.map Ty.cls, t ≠ ancestor → ∀ m,
        Sweeps env ancestor root depth m [t] (env.search ancestor n t m) := by
      refine List.forall_mem_map.mpr fun i hi => ?_
      exact hround i (hf.link_iff.mpr (List.mem_map_of_mem hi))
    obtain ⟨found, met', hloop, hno⟩ := anyReaches_sweeps htargets (.cls id :: met)
    refine ⟨found, met', hrun.trans hloop, fun hfound => ?_⟩
    obtain ⟨hswept, hall⟩ := hno hfound
    exact ⟨hswept, fun t ht => hall t (hf.link_iff.mp ht)⟩

theorem search_zero {child : Ty} {met : List Ty} (href : child.isReference = true)
    (hanc : ancestor.isReference = true) (hne : child ≠ ancestor) (hmet : child ∉ met) :
    env.search ancestor 0 child met = .ok (false, child :: met) := by
  rw [Env.search.eq_def]
  simp [href, hanc, hne, hmet]

theorem sweeps_of_mem {child : Ty} {n : Nat} {met : List Ty} (hne : child ≠ ancestor)
    (hmet : child ∈ met) :
    Sweeps env ancestor root depth met [child] (env.search ancestor n child met) := by
  rw [search_of_mem hne hmet]
  refine ⟨false, met, rfl, fun _ => ⟨Swept.refl met, ?_⟩⟩
  exact List.forall_mem_singleton.mpr ⟨hne, hmet⟩

/-- **A search that comes back empty-handed has opened all that it met**, but for what lies as far
from its root as its levels go. -/
theorem search_sweeps (hanc : ancestor.isReference = true) {id : ClassId} {n k : Nat}
    {met : List Ty} (hdepth : k + n = depth) (haway : LinksAway env root k (.cls id))
    (hne : .cls id ≠ ancestor) (hch : ChartedAbove env (.cls id)) :
    Sweeps env ancestor root depth met [.cls id] (env.search ancestor n (.cls id) met) := by
  induction n generalizing id k met with
  | zero =>
      by_cases hmet : .cls id ∈ met
      · exact sweeps_of_mem hne hmet
      · rw [search_zero rfl hanc hne hmet]
        refine ⟨false, _, rfl, fun _ => ⟨⟨List.subset_cons_self _ _, ?_⟩, ?_⟩⟩
        · -- marked, but not opened
          intro u hu hnot
          obtain rfl := (List.mem_cons.mp hu).resolve_right hnot
          exact .inl (hdepth ▸ haway)
        · exact List.forall_mem_singleton.mpr ⟨hne, List.mem_cons_self⟩
  | succ n ih =>
      by_cases hmet : .cls id ∈ met
      · exact sweeps_of_mem hne hmet
      · have hround : ∀ i, Link env (.cls id) (.cls i) → .cls i ≠ ancestor → ∀ m,
            Sweeps env ancestor root depth m [.cls i] (env.search ancestor n (.cls i) m) :=
          fun i hl hnei m => ih (by omega) (haway.link hl) hnei (hch.link hl)
        obtain ⟨found, met', hrun, hno⟩ := search_opens hanc hne hmet hch.self hround
        refine ⟨found, met', hrun, fun hfound => ?_⟩
        obtain ⟨hswept, hopen⟩ := hno hfound
        refine ⟨⟨List.Subset.trans (List.subset_cons_self _ _) hswept.kept, ?_⟩, ?_⟩
        · -- the class itself is open now, and what was met above it by induction
          intro u hu hnot
          by_cases heq : u = .cls id
          · exact .inr (heq ▸ hopen)
          · refine hswept.opened u hu ?_
            rw [List.mem_cons, not_or]
            exact ⟨heq, hnot⟩
        · exact List.forall_mem_singleton.mpr ⟨hne, hswept.kept List.mem_cons_self⟩

/-- A path through types that have all been opened cannot end at the ancestor. -/
theorem Opened.not_path {met : List Ty} {t : Ty} {between : List Ty}
    (h : Opened env ancestor met t)
    (hbetween : ∀ u ∈ between, u ∈ met → Opened env ancestor met u) :
    ¬ (t :: (between ++ [ancestor])).IsChain (Link env) := by
  intro hpath
  induction between generalizing t with
  | nil =>
      -- the last class of the path was opened, so its link to the ancestor was seen
      obtain ⟨hl, -⟩ := List.isChain_cons_cons.mp hpath
      exact (h ancestor hl).1 rfl
  | cons u between ih =>
      obtain ⟨hl, hrest⟩ := List.isChain_cons_cons.mp hpath
      rw [List.forall_mem_cons] at hbetween
      exact ih (hbetween.1 (h u hl).2) hbetween.2 hrest

end Sweep

/--
**A clear path to an ancestor is found.** Above `child` all classes are defined and all
links can be followed. If a path of links leads from `child` to `ancestor`, and no class
between the two is also one link below the depth limit, along whatever other path,
then the search finds the ancestor: however long other paths are, in whatever order
links are listed, and also if there are cycles.
-/
theorem descends_of_clear_path {env : Env} {child ancestor : ClassId}
    (hch : ChartedAbove env (.cls child)) (hne : child ≠ ancestor) {between : List Ty}
    (hpath : (.cls child :: (between ++ [.cls ancestor])).IsChain (Link env))
    (hclear : ∀ t ∈ between, ¬ LinksAway env (.cls child) (env.depthLimit + 1) t) :
    env.descends (.cls child) (.cls ancestor) = .ok true := by
  have hne' : Ty.cls child ≠ .cls ancestor := fun heq => hne (Ty.cls.inj heq)
  have hround : ∀ i, Link env (.cls child) (.cls i) → .cls i ≠ Ty.cls ancestor → ∀ m,
      Sweeps env (.cls ancestor) (.cls child) (env.depthLimit + 1) m [.cls i]
        (env.search (.cls ancestor) env.depthLimit (.cls i) m) :=
    fun i hl hnei m => search_sweeps rfl (by omega) (LinksAway.self.link hl) hnei (hch.link hl)
  obtain ⟨found, met, hrun, hno⟩ :=
    search_opens (isReference_cls ancestor) hne' List.not_mem_nil hch.self hround
  refine (descends_eq_ok_iff rfl rfl).mpr ⟨met, ?_⟩
  cases found with
  | true => exact hrun
  | false =>
      obtain ⟨hswept, hopen⟩ := hno rfl
      -- the search has opened the whole path, because none of it lies at the limit
      refine absurd hpath (hopen.not_path fun t ht hmet => ?_)
      by_cases heq : t = .cls child
      · exact heq ▸ hopen
      · exact (hswept.opened t hmet (by simpa using heq)).resolve_left (hclear t ht)

/-! ## Levels

On a chart, the types that lie so many links away can be listed. -/

/-- The types that are `n` links away from `t`. -/
def level (env : Env) (t : Ty) : Nat → List Ty
  | 0 => [t]
  | n + 1 => (level env t n).flatMap fun u => (linksOf env u).toOption.getD []

theorem mem_level {env : Env} {chart : List Ty} (h : isChart env chart = true) {t u : Ty} {n : Nat}
    (ht : t ∈ chart) (haway : LinksAway env t n u) : u ∈ chart ∧ u ∈ level env t n := by
  induction haway with
  | self => exact ⟨ht, List.mem_singleton_self t⟩
  | @link n u w _ hl ih =>
      refine ⟨(charted_of_mem_chart h ih.1).2 w hl, List.mem_flatMap.mpr ⟨u, ih.2, ?_⟩⟩
      have hmem := List.all_eq_true.mp h u ih.1
      cases hlinks : linksOf env u with
      | error e =>
          rw [hlinks] at hmem
          cases hmem
      | ok ts => exact (charted_of_linksOf hlinks).2 w hl

/-- A store has no cycle if the visit succeeds at each of its classes. -/
theorem acyclic_of_visits {s : Store} {n : Nat}
    (h : ∀ i < s.slots.size, (s.env.visitSupertypes n [] [] ⟨i⟩).isOk = true) :
    ∀ x, ¬ TransGen (Extends s.env) x x := by
  -- a class on a cycle has a link, so it is defined and was visited
  intro x hcycle
  obtain ⟨y, ⟨targets, hlists, -⟩, -⟩ := TransGen.head'_iff.mp hcycle
  obtain ⟨c, hc, -⟩ := lists_iff.mp hlists
  have hlt : x.index < s.slots.size := by
    simpa [Within, className?] using within_of_classDef? hc
  cases hvisit : s.env.visitSupertypes n [] [] x with
  | ok visited => exact acyclicAbove_of_visit hvisit x ReflTransGen.refl hcycle
  | error e =>
      have hok := h x.index hlt
      rw [hvisit] at hok
      cases hok

/-- Three interfaces in a row that lead to an ancestor, and a class that lists some of them. The
depth limit is two. -/
def detour (interfaces : List Ty) : Store :=
  afterAll (Store.withSettings { maxHierarchyDepth := 2 })
    [.addClass { name := "p.Ancestor", flags := .interface },
     .addClass { name := "p.Near", flags := .interface, interfaces := [.cls ⟨12⟩] },
     .addClass { name := "p.Middle", flags := .interface, interfaces := [.cls ⟨13⟩] },
     .addClass { name := "p.Far", flags := .interface, interfaces := [.cls ⟨14⟩] },
     .addClass { name := "p.Child", interfaces }]

/-- The second of the three is two links away, by way of the first. -/
theorem descends_of_clear_path_detour :
    let env := (detour [.cls ⟨15⟩, .cls ⟨13⟩]).env
    (ChartedAbove env (.cls ⟨16⟩) ∧ [.cls ⟨16⟩, .cls ⟨15⟩, .cls ⟨14⟩].IsChain (Link env) ∧
        ¬ LinksAway env (.cls ⟨16⟩) (env.depthLimit + 1) (.cls ⟨15⟩)) ∧
      env.descends (.cls ⟨16⟩) (.cls ⟨14⟩) = .ok true := by
  intro env
  have hchart : isChart env [.cls ⟨16⟩, .cls ⟨0⟩, .cls ⟨15⟩, .cls ⟨14⟩, .cls ⟨13⟩, .cls ⟨12⟩]
      = true := by decide
  have hch : ChartedAbove env (.cls ⟨16⟩) := chartedAbove_of_chart hchart List.mem_cons_self
  have hfar : Link env (.cls ⟨16⟩) (.cls ⟨15⟩) :=
    link_of_interface rfl (.inr (by decide))
      (show env.interfacesOf ⟨16⟩ = .ok [⟨15⟩, ⟨13⟩] from rfl) (by decide)
  have hup : Link env (.cls ⟨15⟩) (.cls ⟨14⟩) :=
    link_of_interface rfl (.inr (by decide)) (show env.interfacesOf ⟨15⟩ = .ok [⟨14⟩] from rfl)
      (by decide)
  have hpath : [.cls ⟨16⟩, .cls ⟨15⟩, .cls ⟨14⟩].IsChain (Link env) := by simp [hfar, hup]
  have hclear : ¬ LinksAway env (.cls ⟨16⟩) (env.depthLimit + 1) (.cls ⟨15⟩) := by
    intro haway
    have hmem := (mem_level hchart List.mem_cons_self haway).2
    revert hmem
    decide
  exact ⟨⟨hch, hpath, hclear⟩,
    descends_of_clear_path hch (by decide)
      (show (.cls ⟨16⟩ :: ([.cls ⟨15⟩] ++ [.cls ⟨14⟩])).IsChain (Link env) from hpath)
      (by simpa using hclear)⟩

/-- **A long detour can hide an ancestor that is close.** All links resolve to defined classes and
none is on a cycle; the ancestor is two links away, as many as the limit allows. If the detour is
listed first, the answer is no. Listed last, it does no harm. -/
theorem descends_misses_near_ancestor :
    let s := detour [.cls ⟨15⟩, .cls ⟨13⟩]
    let s' := detour [.cls ⟨13⟩, .cls ⟨15⟩]
    (Reachable s ∧ Closed s ∧ (∀ x, ¬ TransGen (Extends s.env) x x) ∧ s.depthLimit = 2 ∧
        [.cls ⟨16⟩, .cls ⟨13⟩, .cls ⟨12⟩].IsChain (Link s.env)) ∧
      s.env.descends (.cls ⟨16⟩) (.cls ⟨12⟩) = .ok false ∧
      s'.env.descends (.cls ⟨16⟩) (.cls ⟨12⟩) = .ok true := by
  intro s s'
  have hreach : Reachable s := reachable_afterAll (Reachable.withSettings _) _
  have hclosed : Closed s := closed_of_isClosed (by decide)
  have hacyclic : ∀ x, ¬ TransGen (Extends s.env) x x := acyclic_of_visits (n := 5) (by decide)
  have hnear : Link s.env (.cls ⟨16⟩) (.cls ⟨13⟩) :=
    link_of_interface rfl (.inr (by decide))
      (show s.env.interfacesOf ⟨16⟩ = .ok [⟨15⟩, ⟨13⟩] from rfl) (by decide)
  have hup : Link s.env (.cls ⟨13⟩) (.cls ⟨12⟩) :=
    link_of_interface rfl (.inr (by decide)) (show s.env.interfacesOf ⟨13⟩ = .ok [⟨12⟩] from rfl)
      (by decide)
  have hpath : [.cls ⟨16⟩, .cls ⟨13⟩, .cls ⟨12⟩].IsChain (Link s.env) := by simp [hnear, hup]
  exact ⟨⟨hreach, hclosed, hacyclic, rfl, hpath⟩, by rfl, by rfl⟩

end Lineage.Proofs
