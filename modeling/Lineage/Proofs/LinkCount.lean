import Lineage.Proofs.CompletedChain
import Lineage.Proofs.Cycles
import Lineage.Proofs.DepthLimit

/-!
# How many links the depth limit allows

Three walks go up the same links under the same limit, and each has its own way to
count. The chain of superclasses counts the classes that it yields, and so does the visit
before the supertype closure with the classes on its path. The search for an
ancestor counts levels from zero, and it recognises the ancestor one link before it would
get there.

On a straight line of classes (`StraightLine`) nothing but the limit can stop a walk, so
the three can be compared. With a limit of `d`, chain and closure follow fewer than `d`
links, the search `d + 1`. They come to the same outcome but for lines of exactly `d` and
`d + 1` links.
-/

namespace Lineage.Proofs

open Store Relation

/-- The class is defined, is no interface and lists none. -/
def IsPlain (env : Env) (x : ClassId) : Prop :=
  ∃ d, env.classDef? x = some d ∧ d.isInterface = false ∧ d.interfaces = []

/-- From `c` up to `top` there is one superclass link after the other and nothing else: `passed`
are the classes before `top`, from each of which one link leads on, and none leads on from `top`. -/
structure StraightLine (env : Env) (c : ClassId) (passed : List ClassId) (top : ClassId) :
    Prop where
  leads : Leads env c passed top
  distinct : (passed ++ [top]).Nodup
  plain : ∀ x ∈ passed ++ [top], IsPlain env x
  ends : env.superclassOf top = .ok none

section Walks

variable {env : Env}

theorem IsPlain.interfacesOf {x : ClassId} (h : IsPlain env x) : env.interfacesOf x = .ok [] := by
  obtain ⟨d, hd, -, hnone⟩ := h
  refine interfacesOf_eq_ok_iff.mpr ⟨d, hd, ?_⟩
  rw [hnone]
  exact List.Forall₂.nil

theorem IsPlain.lists {x : ClassId} {parent : Option ClassId} (h : IsPlain env x)
    (hparent : env.superclassOf x = .ok parent) : Lists env x parent.toList :=
  ⟨parent, [], hparent, h.interfacesOf, (List.append_nil _).symm⟩

/-! ## The chain of superclasses -/

/-- **The chain comes to its end on fewer links than the limit**, and is given up on as many. -/
theorem StraightLine.chain_failure {c top : ClassId} {passed : List ClassId}
    (h : StraightLine env c passed top) :
    ((env.superclassChain c).failure = none ↔ passed.length < env.depthLimit) ∧
      ((∃ x, (env.superclassChain c).failure = some (env.cyclic x)) ↔
        env.depthLimit ≤ passed.length) := by
  have hfresh : Fresh [] (passed ++ [top]) := fresh_nil_iff.mpr h.distinct
  -- the limit leaves room for the whole line, or the walk is given up on it
  rcases Nat.lt_or_ge passed.length env.depthLimit with hroom | hfull
  · have hends : (env.superclassChain c).failure = none :=
      (chainFrom_begins h.leads hfresh hroom).2 h.ends
    exact ⟨iff_of_true hends hroom, iff_of_false (by simp [hends]) (by omega)⟩
  · have hup : ∃ x, (env.superclassChain c).failure = some (env.cyclic x) := by
      refine chainFrom_gives_up h.leads fun hfits => ?_
      have hroom := hfits.2
      omega
    refine ⟨iff_of_false ?_ (by omega), iff_of_true hup hfull⟩
    obtain ⟨x, hx⟩ := hup
    simp [hx]

/-! ## The closure -/

theorem Leads.surveyed {c top : ClassId} {passed : List ClassId} (h : Leads env c passed top)
    (hplain : ∀ x ∈ passed ++ [top], IsPlain env x) (hends : env.superclassOf top = .ok none) :
    Surveyed env c := by
  induction h with
  | here c =>
      have hlists := (hplain c List.mem_cons_self).lists hends
      intro x hx
      rcases ReflTransGen.cases_head hx with rfl | ⟨y, hy, -⟩
      · exact ⟨_, hlists⟩
      · cases hlists.mem_of_extends hy
  | @up c parent top passed hp _ ih =>
      rw [List.cons_append, List.forall_mem_cons] at hplain
      have hlists := hplain.1.lists hp
      intro x hx
      rcases ReflTransGen.cases_head hx with rfl | ⟨y, hy, hrest⟩
      · exact ⟨_, hlists⟩
      · -- the only link leads to the superclass
        obtain rfl := List.mem_singleton.mp (hlists.mem_of_extends hy)
        exact ih hplain.2 hends x hrest

/-- A walk along the line that has room for all of its classes is not given up. -/
theorem Leads.not_givesUp {c top : ClassId} {passed seen : List ClassId} {n : Nat}
    (h : Leads env c passed top) (hplain : ∀ x ∈ passed ++ [top], IsPlain env x)
    (hends : env.superclassOf top = .ok none) (hfresh : Fresh seen (passed ++ [top]))
    (hroom : passed.length < n) (x : ClassId) : ¬ GivesUp env n seen c x := by
  intro hx
  induction h generalizing n seen with
  | here c =>
      have hlists := (hplain c List.mem_cons_self).lists hends
      obtain ⟨hc, -⟩ := fresh_cons_iff.mp hfresh
      -- there is room, nothing was seen, and no link leads on
      cases hx with
      | full => cases hroom
      | back hmem => exact hc hmem
      | link hl => cases hlists.mem_of_extends hl
  | @up c parent top passed hp _ ih =>
      rw [List.cons_append, List.forall_mem_cons] at hplain
      have hlists := hplain.1.lists hp
      obtain ⟨hc, hrest⟩ := fresh_cons_iff.mp hfresh
      rw [List.length_cons] at hroom
      -- not given up here, so further up, where one class more is seen and one less fits
      cases hx with
      | full => cases hroom
      | back hmem => exact hc hmem
      | link hl hnext =>
          obtain rfl := List.mem_singleton.mp (hlists.mem_of_extends hl)
          exact ih hplain.2 hends hrest (by omega) hnext

theorem chain_failure_of_closure {c : ClassId} {all : List ClassId}
    (h : env.supertypeClosure c = .ok all) : (env.superclassChain c).failure = none := by
  obtain ⟨visited, -, h⟩ := bind_eq_ok_iff.mp h
  obtain ⟨chain, hchain, -⟩ := bind_eq_ok_iff.mp h
  unfold Env.completeChain at hchain
  dsimp only at hchain
  cases hfail : (env.superclassChain c).failure with
  | none => rfl
  | some e =>
      rw [hfail] at hchain
      cases hchain

/-- **There is a closure exactly if the chain comes to its end.** -/
theorem StraightLine.closure_iff {c top : ClassId} {passed : List ClassId}
    (h : StraightLine env c passed top) :
    (∃ all, env.supertypeClosure c = .ok all) ↔ passed.length < env.depthLimit := by
  constructor
  · rintro ⟨all, hall⟩
    exact h.chain_failure.1.mp (chain_failure_of_closure hall)
  · intro hroom
    have hs : Surveyed env c := h.leads.surveyed h.plain h.ends
    have hfresh : Fresh [] (passed ++ [top]) := fresh_nil_iff.mpr h.distinct
    have hwalks := h.leads.not_givesUp h.plain h.ends hfresh hroom
    obtain ⟨-, all, hall, -⟩ := supertypeClosure_eq_ok hs hwalks
    exact ⟨all, hall⟩

/-! ## The search for the last class -/

theorem anyReaches_singleton {ancestor t : Ty}
    {f : Ty → List Ty → Except TypeError (Bool × List Ty)} {met met' : List Ty} {found : Bool}
    (hne : t ≠ ancestor) (h : f t met = .ok (found, met')) :
    Env.anyReaches ancestor f [t] met = .ok (found, met') := by
  rw [Env.anyReaches, if_neg hne, h]
  cases found with
  | true => rfl
  | false => rfl

theorem Fresh.ne_last {seen between : List ClassId} {c top : ClassId}
    (h : Fresh seen (c :: between ++ [top])) : Ty.cls c ≠ .cls top := by
  intro heq
  have hnodup := h.1
  rw [Ty.cls.inj heq, List.cons_append, List.nodup_cons] at hnodup
  exact hnodup.1 (List.mem_append_right _ List.mem_cons_self)

/-- A search with `n` levels follows `n` links of the line. -/
theorem Leads.search_line {c top : ClassId} {passed seen : List ClassId} {n : Nat}
    (h : Leads env c passed top) (hplain : ∀ x ∈ passed ++ [top], IsPlain env x)
    (hobj : ∀ x ∈ passed, x ≠ env.wellKnown.object) (hfresh : Fresh seen (passed ++ [top]))
    (hlinks : 0 < passed.length) :
    ∃ met, env.search (.cls top) n (.cls c) (seen.map .cls) =
      .ok (decide (passed.length ≤ n), met) := by
  induction h generalizing n seen with
  | here c => cases hlinks
  | @up c parent top passed hp hup ih =>
      rw [List.cons_append, List.forall_mem_cons] at hplain
      rw [List.forall_mem_cons] at hobj
      have hne : Ty.cls c ≠ .cls top := hfresh.ne_last
      obtain ⟨hc, hrest⟩ := fresh_cons_iff.mp hfresh
      have hmet : Ty.cls c ∉ seen.map .cls := mem_map_cls.not.mpr hc
      cases n with
      | zero =>
          rw [search_zero rfl rfl hne hmet]
          exact ⟨_, rfl⟩
      | succ n =>
          have his := hplain.1.interfacesOf
          obtain ⟨d, hd, hi, -⟩ := hplain.1
          rw [search_class rfl hne hmet hd hi hobj.1 hp his]
          -- a line of one link ends here, a longer one goes on with one level less
          cases hup with
          | here =>
              -- the next class is the last, and is recognised
              refine ⟨Ty.cls c :: seen.map .cls, ?_⟩
              simp [Env.anyReaches]
          | @up _ next _ between hp' hup' =>
              obtain ⟨met, hrun⟩ := ih (n := n) hplain.2 hobj.2 hrest (Nat.succ_pos _)
              have hsame : decide ((c :: parent :: between).length ≤ n + 1) =
                  decide ((parent :: between).length ≤ n) := by simp
              rw [hsame]
              exact ⟨met, anyReaches_singleton (Fresh.ne_last hrest) hrun⟩

/-- **The search follows one link more than the limit.** -/
theorem StraightLine.descends {c top : ClassId} {passed : List ClassId}
    (h : StraightLine env c passed top) (hobj : ∀ x ∈ passed, x ≠ env.wellKnown.object)
    (hlinks : 0 < passed.length) :
    env.descends (.cls c) (.cls top) = .ok (decide (passed.length ≤ env.depthLimit + 1)) :=
  (descends_eq_ok_iff rfl rfl).mpr
    (h.leads.search_line h.plain hobj (fresh_nil_iff.mpr h.distinct) hlinks)

end Walks

theorem ne_top_of_leads {s : Store} (hs : Reachable s) {c top : ClassId} {passed : List ClassId}
    (h : Leads s.env c passed top) : ∀ x ∈ passed, x ≠ s.wellKnown.object := by
  induction h with
  | here c => simp
  | up hp _ ih => exact List.forall_mem_cons.mpr ⟨ne_top_of_hasSuperclass hs hp, ih⟩

/--
**What the depth limit allows depends on the walk**, on every reachable store and for every
straight line of classes. With `n` links from the first class to the last and a limit of
`d`, the chain of superclasses comes to its end exactly if `n < d`, and is reported as
cyclic otherwise; there is a supertype closure exactly if `n < d`; and the first class is
found to descend from the last exactly if `n ≤ d + 1`.

So it is not the case for all three that they go through exactly if `n ≤ d`, unless `n` is
neither `d` nor `d + 1`.
-/
theorem depthLimit_by_walk {s : Store} (hs : Reachable s) {c top : ClassId}
    {passed : List ClassId} (h : StraightLine s.env c passed top) (hlinks : 0 < passed.length) :
    (((s.env.superclassChain c).failure = none ↔ passed.length < s.depthLimit) ∧
      ((∃ x, (s.env.superclassChain c).failure = some (s.env.cyclic x)) ↔
        s.depthLimit ≤ passed.length) ∧
      ((∃ all, s.env.supertypeClosure c = .ok all) ↔ passed.length < s.depthLimit) ∧
      (s.env.descends (.cls c) (.cls top) = .ok true ↔ passed.length ≤ s.depthLimit + 1)) ∧
    ((((s.env.superclassChain c).failure = none ↔ passed.length ≤ s.depthLimit) ∧
        ((∃ all, s.env.supertypeClosure c = .ok all) ↔ passed.length ≤ s.depthLimit) ∧
        (s.env.descends (.cls c) (.cls top) = .ok true ↔ passed.length ≤ s.depthLimit)) ↔
      passed.length ≠ s.depthLimit ∧ passed.length ≠ s.depthLimit + 1) := by
  obtain ⟨hchain, hcyclic⟩ := h.chain_failure
  have hclosure := h.closure_iff
  have hdesc : s.env.descends (.cls c) (.cls top) = .ok true ↔
      passed.length ≤ s.env.depthLimit + 1 := by
    rw [h.descends (ne_top_of_leads hs h.leads) hlinks, Except.ok.injEq, decide_eq_true_iff]
  have hlimit : s.env.depthLimit = s.depthLimit := rfl
  rw [hlimit] at hchain hcyclic hclosure hdesc
  refine ⟨⟨hchain, hcyclic, hclosure, hdesc⟩, ?_⟩
  -- what is left is arithmetic: three bounds, one of them two links from the others
  rw [hchain, hclosure, hdesc]
  omega

theorem isPlain_of_check {env : Env} {x : ClassId}
    (h : (env.classDef? x).map (fun d => (d.isInterface, d.interfaces)) = some (false, [])) :
    IsPlain env x := by
  obtain ⟨d, hd, hshape⟩ := Option.map_eq_some_iff.mp h
  simp only [Prod.mk.injEq] at hshape
  exact ⟨d, hd, hshape⟩

/-- Two classes in a row below the top class, and a limit of one. -/
def shallow : Store :=
  afterAll (Store.withSettings { maxHierarchyDepth := 1 })
    [.addClass { name := "p.Foo" },
     .addClass { name := "p.Bar", superclass := some (.cls ⟨12⟩) }]

theorem reachable_shallow : Reachable shallow := reachable_afterAll (Reachable.withSettings _) _

theorem shallow_one_link : StraightLine shallow.env ⟨12⟩ [⟨12⟩] ⟨0⟩ := by
  have hup : HasSuperclass shallow.env ⟨12⟩ ⟨0⟩ := by rfl
  refine ⟨.up hup (.here _), by decide, ?_, by rfl⟩
  exact List.forall_mem_cons.mpr ⟨isPlain_of_check (by decide),
    List.forall_mem_singleton.mpr (isPlain_of_check (by decide))⟩

theorem shallow_two_links : StraightLine shallow.env ⟨13⟩ [⟨13⟩, ⟨12⟩] ⟨0⟩ := by
  have hup : HasSuperclass shallow.env ⟨13⟩ ⟨12⟩ := by rfl
  have hrest := shallow_one_link
  refine ⟨.up hup hrest.leads, by decide, ?_, hrest.ends⟩
  exact List.forall_mem_cons.mpr ⟨isPlain_of_check (by decide), hrest.plain⟩

/-- Of the two links, the search follows both and the others none. -/
theorem depthLimit_by_walk_shallow :
    (Reachable shallow ∧ StraightLine shallow.env ⟨13⟩ [⟨13⟩, ⟨12⟩] ⟨0⟩) ∧
      (∃ x, (shallow.env.superclassChain ⟨13⟩).failure = some (shallow.env.cyclic x)) ∧
      (¬ ∃ all, shallow.env.supertypeClosure ⟨13⟩ = .ok all) ∧
      shallow.env.descends (.cls ⟨13⟩) (.cls ⟨0⟩) = .ok true := by
  obtain ⟨⟨-, hcyclic, hclosure, hdesc⟩, -⟩ :=
    depthLimit_by_walk reachable_shallow shallow_two_links (by decide)
  exact ⟨⟨reachable_shallow, shallow_two_links⟩, hcyclic.mpr (by decide),
    hclosure.not.mpr (by decide), hdesc.mpr (by decide)⟩

/-- **The limit is not the number of links that a walk may follow.** With a limit of one, the chain
and the closure of a class that is one link below the top class are refused, and a class that is two
links below it is found to descend from it. -/
theorem depthLimit_not_links :
    (Reachable shallow ∧ shallow.depthLimit = 1 ∧
        StraightLine shallow.env ⟨12⟩ [⟨12⟩] ⟨0⟩ ∧
        StraightLine shallow.env ⟨13⟩ [⟨13⟩, ⟨12⟩] ⟨0⟩) ∧
      (shallow.env.superclassChain ⟨12⟩).failure =
        some (.cyclicInheritance "java.lang.Object") ∧
      shallow.env.supertypeClosure ⟨12⟩ = .error (.cyclicInheritance "java.lang.Object") ∧
      shallow.env.descends (.cls ⟨13⟩) (.cls ⟨0⟩) = .ok true :=
  ⟨⟨reachable_shallow, by rfl, shallow_one_link, shallow_two_links⟩, by rfl, by rfl, by rfl⟩

end Lineage.Proofs
