import Lineage.Conversion
import Lineage.Proofs.Coherence

/-!
# Assignability is a preorder

What may be stored where another type is declared is decided case by case on the
two types. `Assigns` says the same as a relation with four rules: a type goes into
itself, a primitive into a wider one, an array into an array if their elements do
so, and a reference into everything above it. In a coherent store the function
decides the relation.

Transitivity is then a matter of the rules. Two steps up compose because paths do.
An array followed by a step up stays, because all arrays have the same classes above
them; a step up followed by an array can only have begun at `null`, which goes into
every array. Nothing else meets.
-/

namespace Lineage.Proofs

open Store Relation

/-- A value of the first type may be stored where the second is declared. -/
inductive Assigns (env : Env) : Ty → Ty → Prop where
  | refl (t : Ty) : Assigns env t t
  | widen {p q : Primitive} : p.widensTo q = true → Assigns env (.prim p) (.prim q)
  | array {t u : Ty} : t.isPrimitive = false → u.isPrimitive = false → Assigns env t u →
      Assigns env (.array t) (.array u)
  | up {t u : Ty} : ProperSupertype env t u → Assigns env t u

theorem widensTo_trans {p q r : Primitive} (h : p.widensTo q = true) (h' : q.widensTo r = true) :
    p.widensTo r = true := by
  unfold Primitive.widensTo at *
  -- a primitive without a rank widens to nothing, and nothing widens to it
  cases hp : p.rank? with
  | none => simp [hp] at h
  | some a =>
      cases hq : q.rank? with
      | none => simp [hq] at h'
      | some b =>
          cases hr : r.rank? with
          | none => simp [hr] at h'
          | some c =>
              simp only [hp, hq, hr, decide_eq_true_eq] at *
              omega

/-! ## Composition -/

section Composition

variable {s : Store}

/-- Nothing lies above an array but the classes above all arrays. -/
theorem Rooted.mem_of_above_array {env : Env} (hroot : Rooted env) {t w : Ty}
    (h : Above env (.array t) w) : w ∈ env.arraySupertypes := by
  obtain ⟨v, hv, hrest⟩ := TransGen.head'_iff.mp h
  cases hv with
  | link hl => cases hl
  | array hv =>
      rcases reflTransGen_iff_eq_or_transGen.mp hrest with rfl | hup
      · exact hv
      · rw [hroot.above_array hv hup]
        exact List.mem_cons_self

/-- What lies above one array lies above every array. -/
theorem properSupertype_array {env : Env} (hroot : Rooted env) {t u w : Ty}
    (h : ProperSupertype env (.array t) w) : ProperSupertype env (.array u) w := by
  obtain ⟨-, -, href, habove⟩ := h
  have hmem := hroot.mem_of_above_array habove
  refine ⟨?_, rfl, href, TransGen.single (DirectSupertype.array hmem)⟩
  intro heq
  subst heq
  simp [Env.arraySupertypes, Env.objectType] at hmem

/-- **Assignment composes** in a coherent store. -/
theorem Assigns.trans (hs : Reachable s) (hc : Coherent s) {t u w : Ty}
    (h : Assigns s.env t u) (h' : Assigns s.env u w) : Assigns s.env t w := by
  induction h generalizing w with
  | refl => exact h'
  | widen hpq =>
      cases h' with
      | refl => exact .widen hpq
      | widen hqr => exact .widen (widensTo_trans hpq hqr)
      | up hup => cases hup.2.1
  | array ht hu hinner ih =>
      cases h' with
      | refl => exact .array ht hu hinner
      | array _ hw hinner' => exact .array ht hw (ih hinner')
      | up hup =>
          -- whatever the elements are, the classes above an array are the same
          exact .up (properSupertype_array (rooted_of_reachable hs) hup)
  | @up t u hup =>
      cases h' with
      | refl => exact .up hup
      | widen => cases hup.2.2.1
      | array =>
          -- a step up into an array can only have begun at `null`
          rw [hc.eq_null_of_above_array hup.2.2.2]
          exact .up ⟨by simp, rfl, rfl, TransGen.single (.null rfl (by simp))⟩
      | up hup' =>
          -- on a cycle, two steps up may lead back to where they began
          by_cases heq : t = w
          · rw [heq]
            exact .refl w
          · exact .up ⟨heq, hup.2.1, hup'.2.2.1, hup.2.2.2.trans hup'.2.2.2⟩

end Composition

/-! ## The function, case by case -/

section Cases

variable {env : Env} {a b : Ty}

theorem assignableCanonical_self (t : Ty) : env.assignableCanonical t t = .ok true := by
  rw [Env.assignableCanonical.eq_def]
  simp

theorem assignableCanonical_prims {p q : Primitive} (hne : p ≠ q) :
    env.assignableCanonical (.prim p) (.prim q) = .ok (p.widensTo q) := by
  rw [Env.assignableCanonical.eq_def]
  simp [hne]

theorem assignableCanonical_arrays {t u : Ty} (hne : t ≠ u) :
    env.assignableCanonical (.array t) (.array u) =
      if t.isPrimitive || u.isPrimitive then .ok false else env.assignableCanonical t u := by
  have hbeq : (t == u) = false := beq_eq_false_iff_ne.mpr hne
  rw [Env.assignableCanonical.eq_def]
  simp [hne, hbeq]

theorem assignableCanonical_null (hb : b.isReference = true) :
    env.assignableCanonical .null b = .ok true := by
  rw [Env.assignableCanonical.eq_def]
  cases b <;> simp_all [Ty.isReference]

/-- References other than arrays are compared by descent. -/
theorem assignableCanonical_references (hne : a ≠ b) (hnull : a ≠ .null)
    (ha : a.isReference = true) (hb : b.isReference = true)
    (harrays : ∀ t u, a = .array t → b ≠ .array u) :
    env.assignableCanonical a b = env.descends a b := by
  rw [Env.assignableCanonical.eq_def]
  cases a <;> cases b <;> simp_all [Ty.isReference]

/-- Nothing else mixes with references. -/
theorem assignableCanonical_mixed (hne : a ≠ b) (hprims : ∀ p q, a = .prim p → b ≠ .prim q)
    (href : a.isReference = false ∨ b.isReference = false) :
    env.assignableCanonical a b = .ok false := by
  rw [Env.assignableCanonical.eq_def]
  cases a <;> cases b <;> simp_all [Ty.isReference]

/-- Between canonical types, the refusal of others makes no difference. -/
theorem assignable_eq_assignableCanonical (ha : a.isAmbiguous = false)
    (hb : b.isAmbiguous = false) : env.assignable a b = env.assignableCanonical a b := by
  unfold Env.assignable
  rw [ensureCanonical_eq_ok ha, ensureCanonical_eq_ok hb, ok_bind, ok_bind]

/-- Unless both types are arrays, every environment is asked about descent, or none is asked. -/
theorem assignableCanonical_cases (harrays : ∀ t u, a = .array t → b ≠ .array u) :
    (∃ found, ∀ env : Env, env.assignableCanonical a b = .ok found) ∨
      ∀ env : Env, env.assignableCanonical a b = env.descends a b := by
  by_cases hne : a = b
  · subst hne
    exact .inl ⟨true, fun _ => assignableCanonical_self a⟩
  -- past equality, only two references leave the answer to the environment
  by_cases hprims : ∃ p q, a = .prim p ∧ b = .prim q
  · obtain ⟨p, q, rfl, rfl⟩ := hprims
    have hpq : p ≠ q := fun heq => hne (by rw [heq])
    exact .inl ⟨p.widensTo q, fun _ => assignableCanonical_prims hpq⟩
  by_cases href : a.isReference = true ∧ b.isReference = true
  · by_cases hnull : a = .null
    · subst hnull
      exact .inl ⟨true, fun _ => assignableCanonical_null href.2⟩
    · exact .inr fun _ => assignableCanonical_references hne hnull href.1 href.2 harrays
  · have hmixed : a.isReference = false ∨ b.isReference = false :=
      (not_and_or.mp href).imp Bool.eq_false_iff.mpr Bool.eq_false_iff.mpr
    have hapart : ∀ p q, a = .prim p → b ≠ .prim q := fun p q hp hq => hprims ⟨p, q, hp, hq⟩
    exact .inl ⟨false, fun _ => assignableCanonical_mixed hne hapart hmixed⟩

/-- Implicit conversion asks the same questions in another order. -/
theorem converts_eq_assignable (a b : Ty) : env.converts a b = env.assignable a b := by
  unfold Env.converts Env.assignable
  cases ha : a.ensureCanonical with
  | error e => rfl
  | ok u =>
      cases hb : b.ensureCanonical with
      | error e => rfl
      | ok u =>
          simp only [ok_bind]
          by_cases hne : a = b
          · rw [if_pos hne, hne, assignableCanonical_self]
            rfl
          · -- a primitive and a reference are refused here before they are compared
            rw [if_neg hne]
            split
            · rw [assignableCanonical_prims fun heq => hne (by rw [heq])]
              rfl
            · rename_i hprims
              rw [assignableCanonical_mixed hne (fun _ q _ => hprims q) (.inl rfl)]
              rfl
            · rename_i hprims
              rw [assignableCanonical_mixed hne (fun p _ heq _ => hprims p heq) (.inr rfl)]
              rfl
            · rfl

end Cases

/-! ## The decision -/

section Decision

variable {s : Store}

theorem assigns_iff_properSupertype {env : Env} {a b : Ty} (hne : a ≠ b)
    (ha : a.isReference = true) (harrays : ∀ t u, a = .array t → b ≠ .array u) :
    Assigns env a b ↔ ProperSupertype env a b := by
  constructor
  · intro h
    cases h with
    | refl => exact absurd rfl hne
    | widen => cases ha
    | array => exact absurd rfl (harrays _ _ rfl)
    | up h => exact h
  · exact .up

theorem assigns_arrays_iff (hc : Coherent s) {t u : Ty} (hne : t ≠ u) :
    Assigns s.env (.array t) (.array u) ↔
      t.isPrimitive = false ∧ u.isPrimitive = false ∧ Assigns s.env t u := by
  constructor
  · -- no array lies above another: only `null` has arrays above it
    intro h
    cases h with
    | refl => exact absurd rfl hne
    | array ht hu h => exact ⟨ht, hu, h⟩
    | up h => cases hc.eq_null_of_above_array h.2.2.2
  · intro h
    exact .array h.1 h.2.1 h.2.2

variable (hs : Reachable s) (hc : Coherent s)

include hs hc

/-- The cases without recursion. -/
theorem assignableCanonical_decides_flat {a b : Ty} (ha : a.isAmbiguous = false)
    (hb : b.isAmbiguous = false) (hwithin : Within s a)
    (harrays : ∀ t u, a = .array t → b ≠ .array u) :
    ∃ found, s.env.assignableCanonical a b = .ok found ∧
      (found = true ↔ Assigns s.env a b) := by
  by_cases hne : a = b
  · subst hne
    exact ⟨true, assignableCanonical_self a, iff_of_true rfl (.refl a)⟩
  by_cases hprims : ∃ p q, a = .prim p ∧ b = .prim q
  · obtain ⟨p, q, rfl, rfl⟩ := hprims
    refine ⟨p.widensTo q, assignableCanonical_prims fun heq => hne (by rw [heq]), .widen, ?_⟩
    -- a rule other than widening would need two equal types or a reference
    intro h
    cases h with
    | refl => exact absurd rfl hne
    | widen h => exact h
    | up h => cases h.2.1
  by_cases href : a.isReference = true ∧ b.isReference = true
  · rw [assigns_iff_properSupertype hne href.1 harrays]
    by_cases hnull : a = .null
    · subst hnull
      refine ⟨true, assignableCanonical_null href.2, iff_of_true rfl ?_⟩
      exact ⟨hne, rfl, href.2, TransGen.single (.null href.2 fun heq => hne heq.symm)⟩
    · rw [assignableCanonical_references hne hnull href.1 href.2 harrays]
      exact hc.descends hs hwithin ha hb
  · -- a primitive on one side only, which none of the four rules admits
    have hmixed : a.isReference = false ∨ b.isReference = false :=
      (not_and_or.mp href).imp Bool.eq_false_iff.mpr Bool.eq_false_iff.mpr
    refine ⟨false, assignableCanonical_mixed hne ?_ hmixed, ?_⟩
    · exact fun p q hp hq => hprims ⟨p, q, hp, hq⟩
    · refine iff_of_false Bool.false_ne_true fun h => ?_
      cases h with
      | refl => exact hne rfl
      | widen => exact hprims ⟨_, _, rfl, rfl⟩
      | array => exact harrays _ _ rfl rfl
      | up h => exact href ⟨h.2.1, h.2.2.1⟩

/-- **The function decides the relation** on the types of a coherent store. -/
theorem assignableCanonical_decides {a b : Ty} (ha : a.isAmbiguous = false)
    (hb : b.isAmbiguous = false) (hwithin : Within s a) :
    ∃ found, s.env.assignableCanonical a b = .ok found ∧
      (found = true ↔ Assigns s.env a b) := by
  induction a generalizing b with
  | array t ih =>
      cases b with
      | array u =>
          by_cases hne : t = u
          · subst hne
            exact ⟨true, assignableCanonical_self _, iff_of_true rfl (.refl _)⟩
          -- arrays of different elements: function and relation both go down to the elements
          rw [assignableCanonical_arrays hne, assigns_arrays_iff hc hne]
          cases ht : t.isPrimitive with
          | true => exact ⟨false, rfl, by simp⟩
          | false =>
              cases hu : u.isPrimitive with
              | true => exact ⟨false, rfl, by simp⟩
              | false =>
                  obtain ⟨found, hrun, hfound⟩ := ih (b := u) ha hb hwithin
                  exact ⟨found, hrun, by simp [hfound]⟩
      | _ => exact assignableCanonical_decides_flat hs hc ha hb hwithin (by simp)
  | _ => exact assignableCanonical_decides_flat hs hc ha hb hwithin (by simp)

theorem assignable_decides {a b : Ty} (ha : a.isAmbiguous = false) (hb : b.isAmbiguous = false)
    (hwithin : Within s a) :
    ∃ found, s.env.assignable a b = .ok found ∧ (found = true ↔ Assigns s.env a b) := by
  rw [assignable_eq_assignableCanonical ha hb]
  exact assignableCanonical_decides hs hc ha hb hwithin

theorem assignable_iff {a b : Ty} (ha : a.isAmbiguous = false) (hb : b.isAmbiguous = false)
    (hwithin : Within s a) : s.env.assignable a b = .ok true ↔ Assigns s.env a b := by
  obtain ⟨found, hrun, hfound⟩ := assignable_decides hs hc ha hb hwithin
  rw [hrun, Except.ok.injEq, hfound]

end Decision

/--
**Assignability is a preorder** on the types of a coherent store, and implicit
conversion is the same relation: the question always has an answer, every type goes
into itself, and what goes into something goes wherever that goes.
-/
theorem assignable_preorder {s : Store} (hs : Reachable s) (hc : Coherent s) {t u w : Ty}
    (ht : t.isAmbiguous = false) (hu : u.isAmbiguous = false) (hw : w.isAmbiguous = false)
    (htin : Within s t) (huin : Within s u) :
    (∃ found, s.env.assignable t u = .ok found) ∧
    s.env.assignable t t = .ok true ∧
    (s.env.assignable t u = .ok true → s.env.assignable u w = .ok true →
      s.env.assignable t w = .ok true) ∧
    s.env.converts t u = s.env.assignable t u := by
  refine ⟨?_, ?_, ?_, converts_eq_assignable t u⟩
  · obtain ⟨found, hrun, -⟩ := assignable_decides hs hc ht hu htin
    exact ⟨found, hrun⟩
  · exact (assignable_iff hs hc ht ht htin).mpr (.refl t)
  · -- both steps and the result are rules of the relation, and there they compose
    rw [assignable_iff hs hc ht hu htin, assignable_iff hs hc hu hw huin,
      assignable_iff hs hc ht hw htin]
    exact Assigns.trans hs hc

/-- A variable bounded by a number, another bounded by the first, and a class with both. -/
def boundedRun : List Change :=
  [.addTypeParam { name := "N", bound := some (.cls wellKnownIds.number) },
   .addTypeParam { name := "M", bound := some (.var ⟨0⟩) },
   .addClass { name := "p.Pair", typeParams := [⟨0⟩, ⟨1⟩] }]

/-- An array of the second variable goes into an array of numbers, that into an array of what can be
serialized, and so the first into the last. The way back is refused, by conversion as well. -/
theorem assignable_preorder_bounded :
    let s := afterAll Store.builtin boundedRun
    let t : Ty := .array (.var ⟨1⟩)
    let u : Ty := .array (.cls wellKnownIds.number)
    let w : Ty := .array (.cls wellKnownIds.serializable)
    (Reachable s ∧ Coherent s ∧ Within s t ∧ Within s u ∧ Within s w ∧
        s.env.assignable t u = .ok true ∧ s.env.assignable u w = .ok true) ∧
      s.env.assignable t t = .ok true ∧ s.env.assignable t w = .ok true ∧
      s.env.converts t u = .ok true ∧
      s.env.assignable w t = .ok false ∧ s.env.converts w t = .ok false := by
  intro s t u w
  have hreach : Reachable s := reachable_afterAll Reachable.builtin boundedRun
  have hc : Coherent s := (closed_of_isClosed (by decide)).coherent (by decide)
  have ht : Within s t := by decide
  have hu : Within s u := by decide
  have hw : Within s w := by decide
  have htu : s.env.assignable t u = .ok true := by decide
  have huw : s.env.assignable u w = .ok true := by decide
  have hwt : s.env.assignable w t = .ok false := by decide
  obtain ⟨-, hrefl, htrans, hconverts⟩ :=
    assignable_preorder hreach hc (t := t) (u := u) (w := w) rfl rfl rfl ht hu
  obtain ⟨-, -, -, hback⟩ :=
    assignable_preorder hreach hc (t := w) (u := t) (w := t) rfl rfl rfl hw ht
  exact ⟨⟨hreach, hc, ht, hu, hw, htu, huw⟩, hrefl, htrans htu huw, hconverts.trans htu, hwt,
    hback.trans hwt⟩

end Lineage.Proofs
