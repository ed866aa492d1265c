import Lineage.Proofs.Assignability
import Mathlib.Data.List.Chain
import Mathlib.Data.List.Nodup

/-!
# A variable stands for its bound

The only type directly above a variable is its bound. What can be stored where a
variable may go is therefore decided by the bound, and a question about the variable
should have the answer that the bound has.

It mostly does. Assignment looks at the form of the two types before it looks for a
path: two arrays are compared by their elements, while a variable is always searched
upwards. Nothing lies above an array but the three classes of all arrays. So a
variable that is bounded by an array goes into that array and into those three
classes, but into no other array, although the bound may.
-/

namespace Lineage.Proofs

open Store Relation

/-! ## Above a variable -/

section Above

variable {env : Env} {v : TypeVarId} {p : TypeParam} (hp : env.typeParam? v = some p)

include hp

theorem eq_bound_of_link {t : Ty} (h : Link env (.var v) t) : t = p.bound := by
  cases h with
  | bound hq =>
      rw [hp] at hq
      cases hq
      rfl

theorem above_var_iff {x : Ty} :
    Above env (.var v) x ↔ x = p.bound ∨ Above env p.bound x := by
  have hlink : DirectSupertype env (.var v) p.bound := .link (.bound hp)
  constructor
  · intro h
    obtain ⟨u, hu, hrest⟩ := TransGen.head'_iff.mp h
    -- a variable is neither an interface nor an array nor null
    cases hu with
    | link hl =>
        rw [eq_bound_of_link hp hl] at hrest
        exact (reflTransGen_iff_eq_or_transGen.mp hrest).imp_left id
  · rintro (rfl | h)
    · exact TransGen.single hlink
    · exact TransGen.head hlink h

/-- The proper supertypes of a variable are its bound and those of the bound. -/
theorem properSupertype_var_iff (href : p.bound.isReference = true) {x : Ty} (hne : x ≠ .var v) :
    ProperSupertype env (.var v) x ↔ x = p.bound ∨ ProperSupertype env p.bound x := by
  unfold ProperSupertype
  rw [above_var_iff hp]
  constructor
  · rintro ⟨-, -, hx, habove⟩
    -- on a cycle the bound may lie above itself as well
    by_cases heq : x = p.bound
    · exact .inl heq
    · exact .inr ⟨fun h => heq h.symm, href, hx, habove.resolve_left heq⟩
  · rintro (rfl | ⟨-, -, hx, habove⟩)
    · exact ⟨hne.symm, rfl, href, .inl rfl⟩
    · exact ⟨hne.symm, rfl, hx, .inr habove⟩

/-- A path from the bound that comes to the variable ends there: the next link leads back to where
the path began. -/
theorem eq_nil_of_path_through_var {rest before after : List Ty}
    (hpath : p.bound :: rest = before ++ .var v :: after)
    (hchain : (p.bound :: rest).IsChain (Link env)) (hnodup : (p.bound :: rest).Nodup) :
    after = [] := by
  cases after with
  | nil => rfl
  | cons u after =>
      rw [hpath] at hchain hnodup
      have hu : u = p.bound := eq_bound_of_link hp (List.isChain_append_cons_cons.mp hchain).2.1
      -- the path began at the bound, so the bound stands before the variable
      have hfirst : p.bound ∈ before ++ [.var v] := by
        cases before with
        | nil => simp [(List.cons.inj hpath).1]
        | cons b before => simp [(List.cons.inj hpath).1]
      have hsplit : (before ++ [Ty.var v] ++ u :: after).Nodup := by simpa using hnodup
      exact absurd hu.symm (List.nodup_append.mp hsplit |>.2.2 _ hfirst _ List.mem_cons_self)

/-- Paths from the bound are no longer than those from the variable. -/
theorem PathsWithin.bound {n : Nat} (h : PathsWithin env n (.var v)) :
    PathsWithin env n p.bound := by
  intro rest hchain hnodup
  have hlink : Link env (.var v) p.bound := .bound hp
  by_cases hmem : .var v ∈ p.bound :: rest
  · -- a path that ends at the variable can be turned to start there
    obtain ⟨before, after, hpath⟩ := List.append_of_mem hmem
    obtain rfl := eq_nil_of_path_through_var hp hpath hchain hnodup
    have hlen : rest.length = before.length := by simpa using congrArg List.length hpath
    rw [hpath] at hchain hnodup
    rw [hlen]
    cases before with
    | nil => exact Nat.zero_le n
    | cons b before =>
        obtain rfl : p.bound = b := (List.cons.inj hpath).1
        refine h _ (List.isChain_cons_cons.mpr ⟨hlink, hchain.left_of_append⟩) ?_
        exact (List.nodup_append_comm.mp hnodup)
  · -- a path that avoids the variable can be begun there
    have hlen := h (p.bound :: rest) (List.isChain_cons_cons.mpr ⟨hlink, hchain⟩)
      (List.nodup_cons.mpr ⟨hmem, hnodup⟩)
    rw [List.length_cons] at hlen
    omega

end Above

/-! ## Assignment -/

section Assignment

variable {s : Store} {v : TypeVarId} {p : TypeParam}

/-- No reference goes where no reference may go. -/
theorem assignable_of_not_reference {env : Env} {t x : Ty} (ht : t.isAmbiguous = false)
    (hx : x.isAmbiguous = false) (htref : t.isReference = true) (hxref : x.isReference = false) :
    env.assignable t x = .ok false := by
  rw [assignable_eq_assignableCanonical ht hx]
  refine assignableCanonical_mixed ?_ ?_ (.inr hxref)
  · rintro rfl
    rw [htref] at hxref
    cases hxref
  · rintro q - rfl
    cases htref

/-- A reference goes where a path from it leads, unless two arrays are compared. -/
theorem assignable_decides_properSupertype {env : Env} {t x : Ty} (hroot : Rooted env)
    (ht : t.isAmbiguous = false) (hx : x.isAmbiguous = false) (htref : t.isReference = true)
    (hxref : x.isReference = true) (hne : t ≠ x) (harrays : ∀ e f, t = .array e → x ≠ .array f)
    (hch : ChartedAbove env t) (hpaths : PathsWithin env env.depthLimit t) :
    Decides (env.assignable t x) (ProperSupertype env t x) := by
  rw [assignable_eq_assignableCanonical ht hx]
  by_cases hnull : t = .null
  · subst hnull
    refine ⟨true, assignableCanonical_null hxref, iff_of_true rfl ?_⟩
    exact ⟨hne, rfl, hxref, TransGen.single (.null hxref hne.symm)⟩
  · rw [assignableCanonical_references hne hnull htref hxref harrays]
    exact descends_complete hroot ht hx hch hpaths

variable (hs : Reachable s) (hp : s.typeParam? v = some p)
  (hcanon : p.bound.isAmbiguous = false) (href : p.bound.isReference = true)
  (hch : ChartedAbove s.env (.var v)) (hpaths : PathsWithin s.env s.depthLimit (.var v))
  {x : Ty} (hx : x.isAmbiguous = false) (hne : x ≠ .var v)

include hs hp href hch hpaths hx hne

theorem assignable_var_decides (hxref : x.isReference = true) :
    Decides (s.env.assignable (.var v) x) (x = p.bound ∨ ProperSupertype s.env p.bound x) :=
  (assignable_decides_properSupertype (rooted_of_reachable hs) rfl hx rfl hxref hne.symm
    (by simp) hch hpaths).congr (properSupertype_var_iff hp href hne)

/-- Bounded by an array, a variable goes into no other array. -/
theorem assignable_var_other_array {e f : Ty} (he : p.bound = .array e) (hf : x = .array f)
    (hef : e ≠ f) : s.env.assignable (.var v) x = .ok false := by
  subst hf
  obtain ⟨found, hrun, hfound⟩ := assignable_var_decides hs hp href hch hpaths hx hne rfl
  rw [hrun]
  cases found with
  | false => rfl
  | true =>
      rcases hfound.mp rfl with heq | hproper
      · rw [he] at heq
        exact absurd (Ty.array.inj heq).symm hef
      · rw [he] at hproper
        -- above an array there are classes only
        have hmem := (rooted_of_reachable hs).mem_of_above_array hproper.2.2.2
        simp [Env.arraySupertypes, Env.objectType] at hmem

include hcanon

/-- In all other cases, a variable goes where its bound goes. -/
theorem assignable_var_eq_bound (harrays : ∀ e f, p.bound = .array e → x = .array f → e = f) :
    s.env.assignable (.var v) x = s.env.assignable p.bound x := by
  cases hxref : x.isReference with
  | false =>
      rw [assignable_of_not_reference rfl hx rfl hxref,
        assignable_of_not_reference hcanon hx href hxref]
  | true =>
      obtain ⟨found, hrun, hfound⟩ := assignable_var_decides hs hp href hch hpaths hx hne hxref
      by_cases heq : x = p.bound
      · subst heq
        have hself : s.env.assignable p.bound p.bound = .ok true := by
          rw [assignable_eq_assignableCanonical hcanon hcanon, assignableCanonical_self]
        rw [hrun, hself, hfound.mpr (.inl rfl)]
      · have hother : ∀ e f, p.bound = .array e → x ≠ .array f := by
          intro e f he hf
          have hef := harrays e f he hf
          exact heq (by rw [hf, he, hef])
        obtain ⟨found', hrun', hfound'⟩ := assignable_decides_properSupertype
          (rooted_of_reachable hs) hcanon hx href hxref (fun h => heq h.symm) hother
          (hch.link (.bound hp)) (hpaths.bound hp)
        rw [hrun, hrun', Except.ok.injEq, Bool.eq_iff_iff, hfound, hfound']
        exact or_iff_right heq

end Assignment

/--
**A variable goes where its bound goes, but for one case**, on every reachable store and
for every canonical target other than the variable itself. Above the variable, all
classes are defined, all links can be followed and no path is longer than the limit. The
bound is any canonical reference type: a class, an array or another variable.

The one case is that the bound and the target are different arrays. They are compared by
their elements, and a variable is not; there, the two answers agree exactly if the
answer for the bound is no.
-/
theorem assignable_var_eq_bound_iff {s : Store} (hs : Reachable s) {v : TypeVarId} {p : TypeParam}
    (hp : s.typeParam? v = some p) (hcanon : p.bound.isAmbiguous = false)
    (href : p.bound.isReference = true) (hch : ChartedAbove s.env (.var v))
    (hpaths : PathsWithin s.env s.depthLimit (.var v)) {x : Ty} (hx : x.isAmbiguous = false)
    (hne : x ≠ .var v) :
    s.env.assignable (.var v) x = s.env.assignable p.bound x ↔
      ∀ e f, p.bound = .array e → x = .array f → e ≠ f →
        s.env.assignable p.bound x = .ok false := by
  constructor
  · intro heq e f he hf hef
    rw [← heq]
    exact assignable_var_other_array hs hp href hch hpaths hx hne he hf hef
  · intro hno
    -- the hypothesis speaks of different arrays, and otherwise there is nothing to assume
    by_cases harrays : ∃ e f, p.bound = .array e ∧ x = .array f ∧ e ≠ f
    · obtain ⟨e, f, he, hf, hef⟩ := harrays
      rw [assignable_var_other_array hs hp href hch hpaths hx hne he hf hef, hno e f he hf hef]
    · refine assignable_var_eq_bound hs hp hcanon href hch hpaths hx hne fun e f he hf => ?_
      by_contra hef
      exact harrays ⟨e, f, he, hf, hef⟩

/-- A variable that is bounded by an array of integers. -/
def vectors : Store :=
  afterAll .builtin
    [.addTypeParam { name := "T", bound := some (.array (.cls wellKnownIds.integer)) }]

theorem vectors_chart :
    isChart vectors.env (typesOf vectors ++ [.array (.cls wellKnownIds.integer)]) = true := by
  decide

/-- It is serializable, like every array. -/
theorem assignable_var_eq_bound_vectors :
    let x : Ty := .cls wellKnownIds.serializable
    let bound : Ty := .array (.cls wellKnownIds.integer)
    (Reachable vectors ∧ (vectors.typeParam? ⟨0⟩).map (·.bound) = some bound ∧
        ChartedAbove vectors.env (.var ⟨0⟩) ∧
        PathsWithin vectors.env vectors.depthLimit (.var ⟨0⟩)) ∧
      vectors.env.assignable (.var ⟨0⟩) x = vectors.env.assignable bound x := by
  intro x bound
  have hs : Reachable vectors := reachable_afterAll Reachable.builtin _
  have hbound : (vectors.typeParam? ⟨0⟩).map (·.bound) = some bound := by rfl
  obtain ⟨p, hp, hpb⟩ := Option.map_eq_some_iff.mp hbound
  have hmem : .var ⟨0⟩ ∈ typesOf vectors ++ [bound] := by decide
  have hch := chartedAbove_of_chart vectors_chart hmem
  have hpaths : PathsWithin vectors.env vectors.depthLimit (.var ⟨0⟩) :=
    pathsWithin_of_chart vectors_chart hmem (by decide)
  refine ⟨⟨hs, hbound, hch, hpaths⟩, ?_⟩
  rw [← hpb]
  refine (assignable_var_eq_bound_iff hs hp (by rw [hpb]; rfl) (by rw [hpb]; rfl) hch hpaths rfl
    (by decide)).mpr ?_
  intro e f _ (hf : Ty.cls wellKnownIds.serializable = .array f)
  cases hf

/-- **A variable may not go where its bound goes.** All classes are defined, all links resolve and
all paths are short; an array of integers is an array of objects, and what is bounded by it is
not. -/
theorem assignable_var_ne_bound :
    (Reachable vectors ∧ (vectors.typeParam? ⟨0⟩).map (·.bound) =
        some (.array (.cls wellKnownIds.integer)) ∧
      ∀ t ∈ typesOf vectors,
        ChartedAbove vectors.env t ∧ PathsWithin vectors.env vectors.depthLimit t) ∧
      vectors.env.assignable (.array (.cls wellKnownIds.integer)) (.array vectors.env.objectType) =
        .ok true ∧
      vectors.env.assignable (.var ⟨0⟩) (.array vectors.env.objectType) = .ok false := by
  have hs : Reachable vectors := reachable_afterAll Reachable.builtin _
  refine ⟨⟨hs, by rfl, fun t ht => ?_⟩, by rfl, by rfl⟩
  have hmem := List.mem_append_left [.array (.cls wellKnownIds.integer)] ht
  exact ⟨chartedAbove_of_chart vectors_chart hmem,
    pathsWithin_of_chart vectors_chart hmem (by decide)⟩

end Lineage.Proofs
