import Lineage.CommonAncestor
import Lineage.Proofs.Assignability

/-!
# The common ancestor is an upper bound

The ancestor of two references is found by walking up from the first: superclass after
superclass, from a variable to its bound, from an interface or an array to the top
class. The walk stops at the first type that the second descends from. That the first
descends from it too is the answer of another walk, the depth-first search, with a
limit and a record of types met of its own.

The two agree because the search tries the superclass before the interfaces. A walk
that got somewhere (`Ascends`) is then the first branch of the search, which finds the
same type before it has turned aside, and it has one level more to spend. Nothing is
asked of the graph: whatever is broken beside the path is never looked at.

Arrays of numbers are the exception. Their ancestor is the array of the wider number,
and arrays of primitives go into no arrays but their own.
-/

namespace Lineage.Proofs

open Store

/-- Arrays of the same number of dimensions over two different numeric primitives. -/
structure UnlikeNumbers (a b : Ty) : Prop where
  dimensions : a.dimensions = b.dimensions
  array : 0 < a.dimensions
  numbers : ∃ p q, a.innermost = .prim p ∧ b.innermost = .prim q ∧ p ≠ q ∧
    p.isNumeric = true ∧ q.isNumeric = true

theorem unlikeNumbers_array_prims {p q : Primitive} :
    UnlikeNumbers (.array (.prim p)) (.array (.prim q)) ↔
      p ≠ q ∧ p.isNumeric = true ∧ q.isNumeric = true := by
  constructor
  · rintro ⟨-, -, p', q', hp, hq, h⟩
    cases hp
    cases hq
    exact h
  · intro h
    exact ⟨rfl, Nat.one_pos, p, q, rfl, rfl, h⟩

/-- One more dimension on both sides makes no difference, unless it is the first. -/
theorem unlikeNumbers_arrays {a b : Ty} (ha : a.isPrimitive = false) :
    UnlikeNumbers (.array a) (.array b) ↔ UnlikeNumbers a b := by
  constructor
  · rintro ⟨hdim, -, hnum⟩
    refine ⟨Nat.succ.inj hdim, ?_, hnum⟩
    -- with a primitive inside and none outside, there is a dimension between
    obtain ⟨p, q, hp, -⟩ := hnum
    cases a with
    | array t => exact Nat.succ_pos _
    | prim p => cases ha
    | _ => cases hp
  · rintro ⟨hdim, -, hnum⟩
    exact ⟨congrArg Nat.succ hdim, Nat.succ_pos _, hnum⟩

theorem UnlikeNumbers.exists_arrays {a b : Ty} (h : UnlikeNumbers a b) :
    ∃ c d, a = .array c ∧ b = .array d := by
  have ha := h.array
  have hb := h.dimensions ▸ h.array
  cases a with
  | array c =>
      cases b with
      | array d => exact ⟨c, d, rfl, rfl⟩
      | _ => cases hb
  | _ => cases ha

/-! ## The walk up -/

/-- Within `n` steps up, none of them from a type in `seen` or from the same type twice, a walk
gets from one type to another. -/
inductive Ascends (env : Env) : Nat → List Ty → Ty → Ty → Prop where
  | here {n : Nat} {seen : List Ty} (t : Ty) : Ascends env n seen t t
  | step {n : Nat} {seen : List Ty} {current next t : Ty} : current ≠ t → current ∉ seen →
      env.parent? current = .ok (some next) → Ascends env n (current :: seen) next t →
      Ascends env (n + 1) seen current t

section Walk

variable {env : Env}

theorem Ascends.eq_of_top {n : Nat} {seen : List Ty} {t : Ty}
    (h : Ascends env n seen env.objectType t) : t = env.objectType := by
  cases h with
  | here => rfl
  | step _ _ hparent => simp [Env.objectType, Env.parent?] at hparent

/-- A type at which the walk may stop: the second type, or one that it descends from. -/
def Accepts (env : Env) (t₂ t : Ty) : Prop := t₂ = t ∨ env.descends t₂ t = .ok true

/-- What one round of a successful walk does: it stops where it may, or else goes one step up. -/
theorem climb_round {t₁ t₂ t current : Ty} {budget : Nat} {seen : List Ty}
    (h : env.climb t₁ t₂ budget seen current = .ok t) :
    (t = current ∧ Accepts env t₂ current) ∨
      (¬ Accepts env t₂ current ∧ current ∉ seen ∧ ∃ n next, budget = n + 1 ∧
        env.parent? current = .ok (some next) ∧
        env.climb t₁ t₂ n (current :: seen) next = .ok t) := by
  rw [Env.climb.eq_def] at h
  dsimp only at h
  by_cases heq : t₂ = current
  · rw [if_pos heq] at h
    cases h
    exact .inl ⟨rfl, .inl heq⟩
  rw [if_neg heq] at h
  obtain ⟨above, habove, h⟩ := bind_eq_ok_iff.mp h
  cases above with
  | true =>
      cases h
      exact .inl ⟨rfl, .inr habove⟩
  | false =>
      -- both ways to be accepted have been asked, in this order
      have hnot : ¬ Accepts env t₂ current := by
        rintro (h | h)
        · exact heq h
        · rw [habove] at h
          cases h
      cases budget with
      | zero => cases h
      | succ n =>
          simp only [Bool.false_eq_true, if_false] at h
          split at h
          · cases h
          · rename_i hseen
            obtain ⟨next, hparent, h⟩ := bind_eq_ok_iff.mp h
            cases next with
            | none => cases h
            | some next => exact .inr ⟨hnot, hseen, n, next, rfl, hparent, h⟩

/-- **A walk that succeeds has gone up**, to a type that the second type accepts. -/
theorem climb_ascends {t₁ t₂ t current : Ty} {budget : Nat} {seen : List Ty}
    (h : env.climb t₁ t₂ budget seen current = .ok t) :
    Accepts env t₂ t ∧ Ascends env budget seen current t := by
  induction budget generalizing seen current with
  | zero =>
      rcases climb_round h with ⟨rfl, haccepts⟩ | ⟨-, -, n, -, hn, -⟩
      · exact ⟨haccepts, .here t⟩
      · cases hn
  | succ budget ih =>
      rcases climb_round h with ⟨rfl, haccepts⟩ | ⟨hnot, hseen, n, next, hn, hparent, hrest⟩
      · exact ⟨haccepts, .here t⟩
      · cases hn
        obtain ⟨haccepts, hup⟩ := ih hrest
        refine ⟨haccepts, .step ?_ hseen hparent hup⟩
        -- where the walk went on is not where it stopped
        rintro rfl
        exact hnot haccepts

/-! ## The search goes the same way -/

theorem anyReaches_head {ancestor t : Ty} {f : Ty → List Ty → Except TypeError (Bool × List Ty)}
    {ts met : List Ty} (h : t ≠ ancestor → ∃ met', f t met = .ok (true, met')) :
    ∃ met', Env.anyReaches ancestor f (t :: ts) met = .ok (true, met') := by
  rw [Env.anyReaches]
  by_cases heq : t = ancestor
  · rw [if_pos heq]
    exact ⟨met, rfl⟩
  · obtain ⟨met', hrun⟩ := h heq
    rw [if_neg heq, hrun]
    exact ⟨met', rfl⟩

/-- A class other than the top one is searched through the type above it first. -/
theorem search_parent_cls {ancestor next : Ty} {id : ClassId} {n : Nat} {met : List Ty}
    (hanc : ancestor.isReference = true) (hne : .cls id ≠ ancestor) (hmet : .cls id ∉ met)
    (hparent : env.parent? (.cls id) = .ok (some next))
    (htop : next = env.objectType → ancestor = env.objectType)
    (hnext : next ≠ ancestor →
      ∃ met', env.search ancestor n next (.cls id :: met) = .ok (true, met')) :
    ∃ met', env.search ancestor (n + 1) (.cls id) met = .ok (true, met') := by
  rw [Env.parent?] at hparent
  split at hparent
  · cases hparent
  rename_i hobj
  obtain ⟨c, hc, hparent⟩ := bind_eq_ok_iff.mp hparent
  have href : (Ty.cls id).isReference = true := rfl
  rw [Env.search.eq_def]
  simp only [hne, href, hanc, hmet, decide_false, Bool.not_true, Bool.or_self,
    Bool.false_eq_true, if_false, hc, ok_bind]
  split at hparent
  · -- an interface has the top class above it, which the search knows
    rename_i hi
    cases hparent
    rw [if_pos hi, if_pos (htop rfl)]
    exact ⟨_, rfl⟩
  · rename_i hi
    obtain ⟨parent, hsuper, hparent⟩ := bind_eq_ok_iff.mp hparent
    cases parent with
    | none => cases hparent
    | some parent =>
        cases hparent
        have hfirst : ∃ met', Env.anyReaches ancestor (env.search ancestor n) [.cls parent]
            (.cls id :: met) = .ok (true, met') := anyReaches_head hnext
        obtain ⟨met', hrun⟩ := hfirst
        rw [if_neg hi, if_neg hobj, hsuper, ok_bind]
        refine ⟨met', ?_⟩
        rw [Option.toList_some, List.map_singleton, hrun]
        rfl

/-- One step up is the first branch of the search. -/
theorem search_parent {ancestor current next : Ty} {n : Nat} {met : List Ty}
    (hanc : ancestor.isReference = true) (hne : current ≠ ancestor) (hmet : current ∉ met)
    (hparent : env.parent? current = .ok (some next))
    (htop : next = env.objectType → ancestor = env.objectType)
    (hnext : next ≠ ancestor →
      ∃ met', env.search ancestor n next (current :: met) = .ok (true, met')) :
    ∃ met', env.search ancestor (n + 1) current met = .ok (true, met') := by
  cases current with
  | cls id => exact search_parent_cls hanc hne hmet hparent htop hnext
  | var v =>
      obtain ⟨bound, hbound, hparent⟩ := bind_eq_ok_iff.mp hparent
      cases hparent
      obtain ⟨p, hp, rfl⟩ := boundOf_eq_ok_iff.mp hbound
      rw [search_var hanc hne hmet hp]
      exact anyReaches_head hnext
  | array element =>
      cases hparent
      have hmem : ancestor ∈ env.arraySupertypes := htop rfl ▸ List.mem_cons_self
      rw [search_array hanc hne hmet, decide_eq_true hmem]
      exact ⟨_, rfl⟩
  | _ => cases hparent

/-- **The search finds what a walk up comes to**, with as many levels as the walk had steps. -/
theorem Ascends.search {n : Nat} {seen : List Ty} {current t : Ty}
    (h : Ascends env n seen current t) (ht : t.isReference = true) (hne : current ≠ t)
    {levels : Nat} (hlevels : n ≤ levels) :
    ∃ met, env.search t levels current seen = .ok (true, met) := by
  induction h generalizing levels with
  | here => exact absurd rfl hne
  | step hcur hseen hparent hup ih =>
      cases levels with
      | zero => cases hlevels
      | succ levels =>
          refine search_parent ht hcur hseen hparent ?_ ?_
          · -- nothing is above the top class, so the walk ended there
            rintro rfl
            exact hup.eq_of_top
          · exact fun hnext => ih ht hnext (Nat.le_of_succ_le_succ hlevels)

/-- The first type, from which the walk began, accepts where it ended too. -/
theorem Ascends.accepts {a t : Ty} (h : Ascends env env.depthLimit [] a t)
    (ha : a.isAmbiguous = false) (ht : t.isAmbiguous = false) (href : t.isReference = true) :
    Accepts env a t := by
  by_cases heq : a = t
  · exact .inl heq
  · exact .inr ((descends_eq_ok_iff ha ht).mpr (h.search href heq (Nat.le_succ _)))

end Walk

/-! ## What is accepted can be assigned -/

section Assignment

variable {env : Env}

theorem isAmbiguous_of_descends {a t : Ty} {found : Bool} (h : env.descends a t = .ok found) :
    a.isAmbiguous = false ∧ t.isAmbiguous = false := by
  obtain ⟨u, ha, h⟩ := bind_eq_ok_iff.mp h
  obtain ⟨v, ht, -⟩ := bind_eq_ok_iff.mp h
  exact ⟨isAmbiguous_of_ensureCanonical ha, isAmbiguous_of_ensureCanonical ht⟩

/-- A type that descends from another can be assigned to it. -/
theorem assignableCanonical_of_descends {a t : Ty} (h : env.descends a t = .ok true) :
    env.assignableCanonical a t = .ok true := by
  obtain ⟨ha, ht⟩ := isAmbiguous_of_descends h
  obtain ⟨met, hrun⟩ := (descends_eq_ok_iff ha ht).mp h
  obtain ⟨hne, haref, htref, hmet, -⟩ := search_true_guards hrun
  -- `null` and arrays are compared by rules of their own, all else by descent
  by_cases hnull : a = .null
  · rw [hnull]
    exact assignableCanonical_null htref
  · rw [assignableCanonical_references hne hnull haref htref]
    · exact h
    · -- no array descends from another
      rintro e f rfl rfl
      rw [search_array htref hne hmet] at hrun
      simp [Env.arraySupertypes, Env.objectType] at hrun

theorem Accepts.assignableCanonical {a t : Ty} (h : Accepts env a t) :
    env.assignableCanonical a t = .ok true := by
  rcases h with rfl | h
  · exact assignableCanonical_self a
  · exact assignableCanonical_of_descends h

theorem Accepts.canonical {a t : Ty} (h : Accepts env a t) (ha : a.isAmbiguous = false) :
    t.isAmbiguous = false := by
  rcases h with rfl | h
  · exact ha
  · exact (isAmbiguous_of_descends h).2

theorem Accepts.isReference {a t : Ty} (h : Accepts env a t) (ha : a.isReference = true) :
    t.isReference = true := by
  rcases h with rfl | h
  · exact ha
  · obtain ⟨hcanon, htcanon⟩ := isAmbiguous_of_descends h
    exact (descends_sound hcanon htcanon h).2.2.1

/-- A numeric primitive goes into every one that is not narrower. -/
theorem assignableCanonical_of_rank_le {p r : Primitive} {m n : Nat} (hp : p.rank? = some m)
    (hr : r.rank? = some n) (hle : m ≤ n) :
    env.assignableCanonical (.prim p) (.prim r) = .ok true := by
  by_cases heq : p = r
  · rw [heq]
    exact assignableCanonical_self _
  · -- there is one primitive of each rank
    have hne : m ≠ n := by
      rintro rfl
      have hp := Primitive.ofRank?_eq_some_iff.mpr hp
      rw [Primitive.ofRank?_eq_some_iff.mpr hr] at hp
      exact heq (Option.some.inj hp).symm
    rw [assignableCanonical_prims heq]
    simp only [Primitive.widensTo, hp, hr]
    rw [decide_eq_true (by omega)]

theorem assignableCanonical_array_prims {p q : Primitive} :
    env.assignableCanonical (.array (.prim p)) (.array (.prim q)) = .ok true ↔ p = q := by
  constructor
  · intro h
    by_contra hne
    rw [assignableCanonical_arrays fun heq => hne (Ty.prim.inj heq)] at h
    cases h
  · rintro rfl
    exact assignableCanonical_self _

/-- Arrays of other types are compared by their elements. -/
theorem assignableCanonical_arrays_of_elements {a t : Ty} (ha : a.isPrimitive = false)
    (ht : t.isPrimitive = false) :
    env.assignableCanonical (.array a) (.array t) = env.assignableCanonical a t := by
  by_cases heq : a = t
  · rw [heq, assignableCanonical_self, assignableCanonical_self]
  · rw [assignableCanonical_arrays heq, ha, ht]
    rfl

end Assignment

/-! ## The ancestor -/

/-- `t` joins `a` and `b`: as a primitive, as an array of what joins their elements, or as a
reference that both can be assigned to. -/
inductive Joins (env : Env) : Ty → Ty → Ty → Prop where
  | prims {p q r : Primitive} : (p ≠ q → p.isNumeric = true ∧ q.isNumeric = true) →
      (p = q → r = p) → env.assignableCanonical (.prim p) (.prim r) = .ok true →
      env.assignableCanonical (.prim q) (.prim r) = .ok true →
      Joins env (.prim p) (.prim q) (.prim r)
  | arrays {a b t : Ty} : Joins env a b t → Joins env (.array a) (.array b) (.array t)
  | references {a b t : Ty} : a.isReference = true → b.isReference = true →
      t.isReference = true → t.isAmbiguous = false → (∀ c d, a = .array c → b ≠ .array d) →
      env.assignableCanonical a t = .ok true → env.assignableCanonical b t = .ok true →
      Joins env a b t

section Joins

variable {env : Env} {a b t : Ty}

theorem isPrimitive_of_isReference {t : Ty} (h : t.isReference = true) :
    t.isPrimitive = false := by
  cases t with
  | prim p => cases h
  | _ => rfl

theorem Joins.canonical (h : Joins env a b t) : t.isAmbiguous = false := by
  induction h with
  | prims => rfl
  | arrays _ ih => exact ih
  | references _ _ _ hcanon => exact hcanon

/-- Primitives join primitives, and nothing else does. -/
theorem Joins.isPrimitive (h : Joins env a b t) :
    a.isPrimitive = t.isPrimitive ∧ b.isPrimitive = t.isPrimitive := by
  cases h with
  | prims => exact ⟨rfl, rfl⟩
  | arrays => exact ⟨rfl, rfl⟩
  | references ha hb ht =>
      rw [isPrimitive_of_isReference ha, isPrimitive_of_isReference hb,
        isPrimitive_of_isReference ht]
      exact ⟨rfl, rfl⟩

/-- **Both types can be assigned to what joins them**, except for arrays of unlike numbers. -/
theorem Joins.assignable_iff (h : Joins env a b t) :
    (env.assignableCanonical a t = .ok true ∧ env.assignableCanonical b t = .ok true) ↔
      ¬ UnlikeNumbers a b := by
  induction h with
  | prims _ _ hp hq =>
      refine iff_of_true ⟨hp, hq⟩ fun hunlike => ?_
      exact absurd hunlike.array (Nat.lt_irrefl 0)
  | references _ _ _ _ harrays ha hb =>
      refine iff_of_true ⟨ha, hb⟩ fun hunlike => ?_
      obtain ⟨c, d, hc, hd⟩ := hunlike.exists_arrays
      exact harrays c d hc hd
  | @arrays a b t hj ih =>
      -- where numbers begin, widening ends: elements are numbers, or both go by elements
      cases ht : t.isPrimitive with
      | false =>
          have ha := hj.isPrimitive.1.trans ht
          have hb := hj.isPrimitive.2.trans ht
          rw [assignableCanonical_arrays_of_elements ha ht,
            assignableCanonical_arrays_of_elements hb ht, unlikeNumbers_arrays ha]
          exact ih
      | true =>
          cases hj with
          | arrays => cases ht
          | references _ _ href =>
              rw [isPrimitive_of_isReference href] at ht
              cases ht
          | @prims p q r hnum hsame =>
              rw [assignableCanonical_array_prims, assignableCanonical_array_prims,
                unlikeNumbers_array_prims]
              constructor
              · rintro ⟨hp, hq⟩ hunlike
                exact hunlike.1 (hp.trans hq.symm)
              · -- two numbers that are not unlike are the same, and then they join as themselves
                intro hnot
                by_cases heq : p = q
                · exact ⟨(hsame heq).symm, heq.symm.trans (hsame heq).symm⟩
                · exact absurd ⟨heq, hnum heq⟩ hnot

theorem joins_prims {p q : Primitive}
    (h : env.commonAncestorCanonical (.prim p) (.prim q) = .ok t) :
    Joins env (.prim p) (.prim q) t := by
  rw [Env.commonAncestorCanonical] at h
  split at h
  · rename_i heq
    subst heq
    cases h
    exact .prims (absurd rfl) (fun _ => rfl) (assignableCanonical_self _)
      (assignableCanonical_self _)
  · rename_i hne
    -- the wider of two numbers is the join, and nothing joins what has no rank
    split at h
    · rename_i m n hp hq
      split at h
      · rename_i r hr
        cases h
        have hr := Primitive.ofRank?_eq_some_iff.mp hr
        refine .prims (fun _ => ⟨?_, ?_⟩) (fun heq => absurd heq hne)
          (assignableCanonical_of_rank_le hp hr (Nat.le_max_left m n))
          (assignableCanonical_of_rank_le hq hr (Nat.le_max_right m n))
        · rw [Primitive.isNumeric, hp]
          rfl
        · rw [Primitive.isNumeric, hq]
          rfl
      · cases h
    · cases h

theorem commonAncestorCanonical_flat (hprims : ∀ p q, a = .prim p → b ≠ .prim q)
    (harrays : ∀ c d, a = .array c → b ≠ .array d) :
    env.commonAncestorCanonical a b =
      if b = .null && a.isReference then .ok a
      else if a = .null && b.isReference then .ok b
      else if a.isReference && b.isReference then env.climb a b env.depthLimit [] a
      else .error (env.noCommonAncestor a b) := by
  rw [Env.commonAncestorCanonical.eq_def]
  split
  · exact absurd rfl (hprims _ _ rfl)
  · exact absurd rfl (harrays _ _ rfl)
  · rfl

/-- References that are not both arrays are joined by what the walk up comes to. -/
theorem joins_flat (ha : a.isAmbiguous = false) (hb : b.isAmbiguous = false)
    (hprims : ∀ p q, a = .prim p → b ≠ .prim q) (harrays : ∀ c d, a = .array c → b ≠ .array d)
    (h : env.commonAncestorCanonical a b = .ok t) : Joins env a b t := by
  rw [commonAncestorCanonical_flat hprims harrays] at h
  simp only [Bool.and_eq_true, decide_eq_true_eq] at h
  split at h
  · rename_i hnull
    obtain ⟨rfl, href⟩ := hnull
    cases h
    exact .references href rfl href ha harrays (assignableCanonical_self _)
      (assignableCanonical_null href)
  split at h
  · rename_i hnull
    obtain ⟨rfl, href⟩ := hnull
    cases h
    exact .references rfl href href hb harrays (assignableCanonical_null href)
      (assignableCanonical_self _)
  split at h
  · rename_i href
    obtain ⟨haref, hbref⟩ := href
    obtain ⟨hsecond, hup⟩ := climb_ascends h
    have ht := hsecond.canonical hb
    have htref := hsecond.isReference hbref
    -- the second type accepts the end because the walk asked, the first because it came up
    have hfirst : Accepts env a t := hup.accepts ha ht htref
    exact .references haref hbref htref ht harrays hfirst.assignableCanonical
      hsecond.assignableCanonical
  · cases h

/-- **The ancestor joins the two types.** -/
theorem joins_of_commonAncestorCanonical (ha : a.isAmbiguous = false)
    (hb : b.isAmbiguous = false) (h : env.commonAncestorCanonical a b = .ok t) :
    Joins env a b t := by
  induction a generalizing b t with
  | prim p =>
      cases b with
      | prim q => exact joins_prims h
      | _ => exact joins_flat ha hb (by simp) (by simp) h
  | array a ih =>
      cases b with
      | array b =>
          rw [Env.commonAncestorCanonical] at h
          obtain ⟨element, helement, h⟩ := bind_eq_ok_iff.mp h
          cases h
          exact .arrays (ih ha hb helement)
      | _ => exact joins_flat ha hb (by simp) (by simp) h
  | _ => exact joins_flat ha hb (by simp) (by simp) h

end Joins

/--
**The common ancestor is an upper bound of both types**, in every environment: links may
be broken, classes undefined, the graph cyclic or deeper than the limit. If there is an
ancestor at all, then both types can be assigned to it, and the questions whether they
can are answered. The only exception are arrays of the same number of dimensions over two
different numbers, and these always are one.
-/
theorem commonAncestor_upper_bound_iff {env : Env} {a b t : Ty}
    (h : env.commonAncestor a b = .ok t) :
    (env.assignable a t = .ok true ∧ env.assignable b t = .ok true) ↔ ¬ UnlikeNumbers a b := by
  obtain ⟨u, ha, h⟩ := bind_eq_ok_iff.mp h
  obtain ⟨v, hb, h⟩ := bind_eq_ok_iff.mp h
  have ha := isAmbiguous_of_ensureCanonical ha
  have hb := isAmbiguous_of_ensureCanonical hb
  have hjoins := joins_of_commonAncestorCanonical ha hb h
  rw [assignable_eq_assignableCanonical ha hjoins.canonical,
    assignable_eq_assignableCanonical hb hjoins.canonical]
  exact hjoins.assignable_iff

/-- Two classes that extend each other have an ancestor, and so do arrays of them. Arrays of
unlike numbers have one, too, but are not assigned to it. -/
theorem commonAncestor_upper_bound_knot :
    let env := (afterAll (Store.withSettings { maxHierarchyDepth := 2 }) knotRun).env
    let x : Ty := .array (.cls ⟨12⟩)
    let y : Ty := .array (.cls ⟨13⟩)
    let ints : Ty := .array (.array (.prim .int))
    let longs : Ty := .array (.array (.prim .long))
    (env.commonAncestor x y = .ok x ∧
      env.assignable x x = .ok true ∧ env.assignable y x = .ok true) ∧
    (env.commonAncestor ints longs = .ok longs ∧
      ¬ (env.assignable ints longs = .ok true ∧ env.assignable longs longs = .ok true)) := by
  intro env x y ints longs
  have hxy : env.commonAncestor x y = .ok x := by rfl
  have hnums : env.commonAncestor ints longs = .ok longs := by rfl
  refine ⟨⟨hxy, (commonAncestor_upper_bound_iff hxy).mpr ?_⟩, hnums, fun hboth => ?_⟩
  · rintro ⟨-, -, p, q, hp, -⟩
    cases hp
  · refine (commonAncestor_upper_bound_iff hnums).mp hboth ⟨rfl, by decide, ?_⟩
    exact ⟨.int, .long, rfl, rfl, by decide, rfl, rfl⟩

end Lineage.Proofs
