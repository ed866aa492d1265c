import Lineage.Dimensions
import Lineage.Proofs.Descent

/-!
# Dimensions add up

Dimensions are put on a type and taken off it by one function of an integer. Growing and
shrinking do not have the same conditions: nothing can be taken off a type that is no
array, and there are no arrays of nothing, of `null` or of packages. An array of one of
these, should one come along, may grow.

A type is its innermost element under so many dimensions (`innermost_wrap_dimensions`),
and a change keeps the first and adds to the second. `extendDims_eq_ok_iff` says so, with
the two conditions beside it. What is left of two changes in a row is then a sum of
integers. That the sum asks for no more than the two did is the one point to be made: a
type from which something has been taken off was an array, so it can grow.
-/

namespace Lineage.Proofs

/-! ## A type is an element under dimensions -/

theorem wrap_array (n : Nat) (t : Ty) : (Ty.array t).wrap n = .array (t.wrap n) := by
  induction n generalizing t with
  | zero => rfl
  | succ n ih => exact ih (.array t)

theorem innermost_wrap (n : Nat) (t : Ty) : (t.wrap n).innermost = t.innermost := by
  induction n generalizing t with
  | zero => rfl
  | succ n ih => exact ih (.array t)

theorem dimensions_wrap (n : Nat) (t : Ty) : (t.wrap n).dimensions = t.dimensions + n := by
  induction n generalizing t with
  | zero => rfl
  | succ n ih =>
      have harray : ((Ty.array t).wrap n).dimensions = t.dimensions + 1 + n := ih (.array t)
      rw [Ty.wrap, harray]
      omega

theorem innermost_innermost (t : Ty) : t.innermost.innermost = t.innermost := by
  induction t with
  | array element ih => exact ih
  | _ => rfl

theorem dimensions_innermost (t : Ty) : t.innermost.dimensions = 0 := by
  induction t with
  | array element ih => exact ih
  | _ => rfl

theorem innermost_wrap_dimensions (t : Ty) : t.innermost.wrap t.dimensions = t := by
  induction t with
  | array element ih =>
      show (Ty.array element.innermost).wrap element.dimensions = .array element
      rw [wrap_array, ih]
  | _ => rfl

theorem eq_wrap_iff {t u : Ty} {n : Nat} :
    u = t.wrap n ↔ u.innermost = t.innermost ∧ u.dimensions = t.dimensions + n := by
  constructor
  · rintro rfl
    exact ⟨innermost_wrap n t, dimensions_wrap n t⟩
  · rintro ⟨hinner, hdims⟩
    -- a type is determined by its innermost element and the number of its dimensions
    rw [← innermost_wrap_dimensions u, ← innermost_wrap_dimensions (t.wrap n), innermost_wrap,
      dimensions_wrap, hinner, hdims]

theorem isAmbiguous_innermost (t : Ty) : t.innermost.isAmbiguous = t.isAmbiguous := by
  induction t with
  | array element ih => exact ih
  | _ => rfl

theorem isAmbiguous_wrap (n : Nat) (t : Ty) : (t.wrap n).isAmbiguous = t.isAmbiguous := by
  rw [← isAmbiguous_innermost, innermost_wrap, isAmbiguous_innermost]

/-- An array can always grow, whatever it is an array of. -/
theorem hasArrays_iff (t : Ty) :
    t.hasArrays = true ↔ 0 < t.dimensions ∨ t.innermost.hasArrays = true := by
  cases t with
  | array element => simp [Ty.hasArrays, Ty.dimensions]
  | _ => simp [Ty.dimensions, Ty.innermost]

theorem hasArrays_eq_true_iff (t : Ty) :
    t.hasArrays = true ↔ t ≠ .prim .void ∧ t ≠ .null ∧ ∀ name, t ≠ .package name := by
  cases t with
  | prim p => cases p <;> simp [Ty.hasArrays]
  | _ => simp [Ty.hasArrays]

/-! ## What a change of dimensions gives -/

section Change

variable {env : Env}

theorem strip_eq_ok_iff {n : Nat} {t u : Ty} : env.strip n t = .ok u ↔ t = u.wrap n := by
  induction n generalizing t with
  | zero =>
      rw [Env.strip, pure_eq_ok, Except.ok.injEq]
      rfl
  | succ n ih =>
      have hshape : u.wrap (n + 1) = .array (u.wrap n) := wrap_array n u
      rw [hshape]
      cases t with
      | array element => rw [Env.strip, ih, Ty.array.injEq]
      | _ => simp [Env.strip]

/-- **A change of dimensions keeps the innermost element and adds to the dimensions.** It succeeds
if there are that many to take off, and if the type can grow, should it have to. -/
theorem extendDims_eq_ok_iff {t u : Ty} {n : Int} :
    env.extendDims t n = .ok u ↔ t.isAmbiguous = false ∧ (0 < n → t.hasArrays = true) ∧
      u.innermost = t.innermost ∧ (u.dimensions : Int) = t.dimensions + n := by
  unfold Env.extendDims
  cases ht : t.isAmbiguous with
  | true => simp [Ty.ensureCanonical, ht]
  | false =>
      rw [ensureCanonical_eq_ok ht, ok_bind]
      by_cases hn : n > 0
      · -- growing
        rw [if_pos hn]
        cases harrays : t.hasArrays with
        | false => simp [hn]
        | true =>
            have hdims : (u.dimensions : Int) = t.dimensions + n ↔
                u.dimensions = t.dimensions + n.toNat := by omega
            rw [if_pos rfl, pure_eq_ok, Except.ok.injEq, eq_comm, eq_wrap_iff, hdims]
            simp
      · -- shrinking, or nothing to do
        have hdims : (u.dimensions : Int) = t.dimensions + n ↔
            t.dimensions = u.dimensions + n.natAbs := by omega
        have hno : 0 < n → t.hasArrays = true := fun hpos => absurd hpos hn
        rw [if_neg hn, strip_eq_ok_iff, eq_wrap_iff, hdims, eq_comm (a := t.innermost)]
        exact ⟨fun h => ⟨rfl, hno, h⟩, fun h => h.2.2⟩

theorem extendDims_trans {t u v : Ty} {a b : Int} (hu : env.extendDims t a = .ok u)
    (hv : env.extendDims u b = .ok v) : env.extendDims t (a + b) = .ok v := by
  obtain ⟨hcanon, hgrow, hinner, hdims⟩ := extendDims_eq_ok_iff.mp hu
  obtain ⟨-, hgrow', hinner', hdims'⟩ := extendDims_eq_ok_iff.mp hv
  -- element and dimensions are clear, so what is left is whether the type may grow
  refine extendDims_eq_ok_iff.mpr ⟨hcanon, fun hpos => ?_, hinner'.trans hinner, by omega⟩
  by_cases ha : 0 < a
  · exact hgrow ha
  · -- the type in the middle grows, and it has no more dimensions than the first
    have hmiddle : u.hasArrays = true := hgrow' (by omega)
    rw [hasArrays_iff, hinner] at hmiddle
    refine (hasArrays_iff t).mpr (hmiddle.imp_left fun hdim => ?_)
    omega

theorem extendDims_neg_ok_iff {t : Ty} (ht : t.isAmbiguous = false) (k : Nat) :
    (∃ u, env.extendDims t (-k) = .ok u) ↔ k ≤ t.dimensions := by
  constructor
  · rintro ⟨u, hu⟩
    have hdims := (extendDims_eq_ok_iff.mp hu).2.2.2
    omega
  · intro hk
    -- the dimensions that remain, around the same element
    refine ⟨t.innermost.wrap (t.dimensions - k), extendDims_eq_ok_iff.mpr ⟨ht, by omega, ?_, ?_⟩⟩
    · rw [innermost_wrap, innermost_innermost]
    · rw [dimensions_wrap, dimensions_innermost]
      omega

theorem extendDims_pos_ok_iff {t : Ty} (ht : t.isAmbiguous = false) {k : Nat} (hk : 0 < k) :
    (∃ u, env.extendDims t k = .ok u) ↔ t.hasArrays = true := by
  constructor
  · rintro ⟨u, hu⟩
    exact (extendDims_eq_ok_iff.mp hu).2.1 (by omega)
  · intro harrays
    refine ⟨t.wrap k, extendDims_eq_ok_iff.mpr ⟨ht, fun _ => harrays, innermost_wrap k t, ?_⟩⟩
    rw [dimensions_wrap]
    omega

theorem extendDims_back {t u : Ty} {k : Nat} (h : env.extendDims t k = .ok u) :
    env.extendDims u (-k) = .ok t := by
  obtain ⟨hcanon, -, hinner, hdims⟩ := extendDims_eq_ok_iff.mp h
  refine extendDims_eq_ok_iff.mpr ⟨?_, by omega, hinner.symm, by omega⟩
  rw [← isAmbiguous_innermost, hinner, isAmbiguous_innermost, hcanon]

end Change

/--
**Changes of dimensions add up**, in every environment and for every canonical type. Two
changes that succeed one after the other, up or down, are one change by their sum. As
many dimensions can be taken off as there are, and what was put on can be taken off
again. Some can be put on unless the type is nothing, `null` or a package.
-/
theorem extendDims_additive (env : Env) (t : Ty) (ht : t.isAmbiguous = false) :
    (∀ (a b : Int) (u v : Ty), env.extendDims t a = .ok u → env.extendDims u b = .ok v →
      env.extendDims t (a + b) = .ok v) ∧
    (∀ k : Nat, (∃ u, env.extendDims t (-k) = .ok u) ↔ k ≤ t.dimensions) ∧
    (∀ (k : Nat) (u : Ty), env.extendDims t k = .ok u → env.extendDims u (-k) = .ok t) ∧
    ∀ k : Nat, 0 < k → ((∃ u, env.extendDims t k = .ok u) ↔
      t ≠ .prim .void ∧ t ≠ .null ∧ ∀ name, t ≠ .package name) := by
  refine ⟨fun _ _ _ _ => extendDims_trans, extendDims_neg_ok_iff ht, fun _ _ => extendDims_back,
    fun k hk => ?_⟩
  rw [extendDims_pos_ok_iff ht hk, hasArrays_eq_true_iff]

/-- Two dimensions of nothing: one less, then three more. There is no third one to take off. -/
theorem extendDims_additive_void :
    let env := Store.builtin.env
    let rows : Nat → Ty := fun n => (Ty.prim .void).wrap n
    ((rows 2).isAmbiguous = false ∧ env.extendDims (rows 2) (-1) = .ok (rows 1) ∧
        env.extendDims (rows 1) 3 = .ok (rows 4) ∧ env.extendDims (rows 2) 1 = .ok (rows 3)) ∧
      env.extendDims (rows 2) (-1 + 3) = .ok (rows 4) ∧
      (∃ u, env.extendDims (rows 2) (-(2 : Nat)) = .ok u) ∧
      (¬ ∃ u, env.extendDims (rows 2) (-(3 : Nat)) = .ok u) ∧
      env.extendDims (rows 3) (-1) = .ok (rows 2) ∧
      ∃ u, env.extendDims (rows 2) (5 : Nat) = .ok u := by
  intro env rows
  have hdown : env.extendDims (rows 2) (-1) = .ok (rows 1) := rfl
  have hup : env.extendDims (rows 1) 3 = .ok (rows 4) := rfl
  have hmore : env.extendDims (rows 2) 1 = .ok (rows 3) := rfl
  obtain ⟨hadd, hcount, hback, hgrow⟩ := extendDims_additive env (rows 2) rfl
  exact ⟨⟨rfl, hdown, hup, hmore⟩, hadd (-1) 3 _ _ hdown hup, (hcount 2).mpr (by decide),
    (hcount 3).not.mpr (by decide), hback 1 _ hmore,
    (hgrow 5 (by decide)).mpr ⟨by decide, by decide, by simp [rows, Ty.wrap]⟩⟩

/-- The way back up is barred where the dimensions have all gone, while no change at all is fine. -/
example : (Store.builtin.env.extendDims (.prim .void) 1).isOk = false ∧
    Store.builtin.env.extendDims (.array (.prim .void)) (-1) = .ok (.prim .void) ∧
    Store.builtin.env.extendDims (.array (.prim .void)) 0 = .ok (.array (.prim .void)) :=
  ⟨by decide, rfl, rfl⟩

end Lineage.Proofs
