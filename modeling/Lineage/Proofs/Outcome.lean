import Lineage.Error
import Mathlib.Data.List.Forall2

/-!
# Reading outcomes

Every question about types and every check ends in a value or an error. The
lemmas here bring such computations into one form, `.ok` or `.error`, and take a
successful sequence apart into the steps that succeeded.
-/

namespace Lineage.Proofs

variable {ε α β : Type}

@[simp] theorem pure_eq_ok (a : α) : (pure a : Except ε α) = .ok a := rfl

@[simp] theorem throw_eq_error (e : ε) : (throw e : Except ε α) = .error e := rfl

@[simp] theorem ok_bind (a : α) (f : α → Except ε β) : (Except.ok a >>= f) = f a := rfl

@[simp] theorem error_bind (e : ε) (f : α → Except ε β) :
    (Except.error e >>= f) = .error e := rfl

@[simp] theorem map_ok (f : α → β) (a : α) : (f <$> (Except.ok a : Except ε α)) = .ok (f a) := rfl

@[simp] theorem map_error (f : α → β) (e : ε) :
    (f <$> (Except.error e : Except ε α)) = .error e := rfl

theorem exists_error_of_not_isOk {x : Except ε α} (h : x.isOk = false) : ∃ e, x = .error e := by
  cases x with
  | error e => exact ⟨e, rfl⟩
  | ok a => cases h

/-- A call that changes a state is known by the state and the outcome. -/
theorem run_eq_of_outcome {σ : Type} {run : σ × Except ε α} {outcome : Except ε α}
    (h : run.2 = outcome) : run = (run.1, outcome) := by
  rw [← h]

/-- A sequence succeeds exactly when each of its steps does. -/
theorem bind_eq_ok_iff {x : Except ε α} {f : α → Except ε β} {b : β} :
    (x >>= f) = .ok b ↔ ∃ a, x = .ok a ∧ f a = .ok b := by
  cases x with
  | error e => simp
  | ok a => simp

/-- The same for a check, which has nothing to hand on. -/
theorem check_bind_eq_ok_iff {x : Except ε Unit} {f : Unit → Except ε β} {b : β} :
    (x >>= f) = .ok b ↔ x = .ok () ∧ f () = .ok b := by
  cases x with
  | error e => simp
  | ok u => simp

/-- A check of every element succeeds exactly when it succeeds on each. -/
theorem forM_eq_ok_iff {xs : List α} {f : α → Except ε Unit} :
    xs.forM f = .ok () ↔ ∀ x ∈ xs, f x = .ok () := by
  induction xs with
  | nil => simp
  | cons x xs ih =>
      show (f x >>= fun _ => xs.forM f) = _ ↔ _
      rw [check_bind_eq_ok_iff, ih, List.forall_mem_cons]

/-- It fails with the error of the first element on which it fails. -/
theorem forM_eq_error_iff {xs : List α} {f : α → Except ε Unit} {e : ε} :
    xs.forM f = .error e ↔ ∃ before x rest, xs = before ++ x :: rest ∧
      (∀ y ∈ before, f y = .ok ()) ∧ f x = .error e := by
  constructor
  · intro h
    induction xs with
    | nil => cases h
    | cons x xs ih =>
        have h : (f x >>= fun _ => xs.forM f) = .error e := h
        -- the first failure is here, or in the rest and nothing before it fails
        cases hx : f x with
        | error e' =>
            rw [hx] at h
            cases h
            exact ⟨[], x, xs, rfl, by simp, hx⟩
        | ok u =>
            rw [hx, ok_bind] at h
            obtain ⟨before, y, rest, rfl, hbefore, hy⟩ := ih h
            exact ⟨x :: before, y, rest, rfl, List.forall_mem_cons.mpr ⟨hx, hbefore⟩, hy⟩
  · intro h
    obtain ⟨before, x, rest, rfl, hbefore, hx⟩ := h
    induction before with
    | nil =>
        show (f x >>= fun _ => rest.forM f) = _
        rw [hx, error_bind]
    | cons y before ih =>
        rw [List.forall_mem_cons] at hbefore
        show (f y >>= fun _ => (before ++ x :: rest).forM f) = _
        rw [hbefore.1, ok_bind]
        exact ih hbefore.2

/-- A list is mapped exactly when each element is. -/
theorem mapM_eq_ok_iff {xs : List α} {f : α → Except ε β} {ys : List β} :
    xs.mapM f = .ok ys ↔ List.Forall₂ (fun x y => f x = .ok y) xs ys := by
  induction xs generalizing ys with
  | nil => cases ys <;> simp
  | cons x xs ih =>
      rw [List.mapM_cons, bind_eq_ok_iff]
      constructor
      · rintro ⟨y, hy, h⟩
        obtain ⟨ys', hys', h⟩ := bind_eq_ok_iff.mp h
        cases h
        exact List.Forall₂.cons hy (ih.mp hys')
      · intro h
        cases h with
        | cons hy hrest => exact ⟨_, hy, by rw [ih.mpr hrest]; rfl⟩

/-- Elements that each have an image have one as a list. -/
theorem exists_forall₂ {R : α → β → Prop} {xs : List α} (h : ∀ x ∈ xs, ∃ y, R x y) :
    ∃ ys, List.Forall₂ R xs ys := by
  induction xs with
  | nil => exact ⟨[], List.Forall₂.nil⟩
  | cons x xs ih =>
      rw [List.forall_mem_cons] at h
      obtain ⟨y, hy⟩ := h.1
      obtain ⟨ys, hys⟩ := ih h.2
      exact ⟨y :: ys, List.Forall₂.cons hy hys⟩

/-- The images of a list under a function are what its elements are taken to. -/
theorem mem_images_iff {xs : List α} {f : α → Except ε β} {ys : List β}
    (h : List.Forall₂ (fun x y => f x = .ok y) xs ys) {y : β} :
    y ∈ ys ↔ ∃ x ∈ xs, f x = .ok y := by
  induction h with
  | nil => simp
  | @cons x z xs ys hx _ ih =>
      rw [List.mem_cons, List.exists_mem_cons_iff, ih, hx, Except.ok.injEq, eq_comm]

theorem exists_image {xs : List α} {f : α → Except ε β} {ys : List β}
    (h : List.Forall₂ (fun x y => f x = .ok y) xs ys) {x : α} (hx : x ∈ xs) :
    ∃ y, f x = .ok y := by
  induction h with
  | nil => cases hx
  | cons hy _ ih =>
      rcases List.mem_cons.mp hx with rfl | hx
      · exact ⟨_, hy⟩
      · exact ih hx

/-- What every round of a loop keeps holds at its end. -/
theorem foldlM_invariant {f : β → α → Except ε β} {P : β → Prop}
    (hf : ∀ b a b', P b → f b a = .ok b' → P b') {xs : List α} {b b' : β}
    (h : xs.foldlM f b = .ok b') (hb : P b) : P b' := by
  induction xs generalizing b with
  | nil =>
      cases h
      exact hb
  | cons x xs ih =>
      rw [List.foldlM_cons] at h
      obtain ⟨mid, hmid, h⟩ := bind_eq_ok_iff.mp h
      exact ih h (hf b x mid hb hmid)

/-- A loop fails as one of its rounds does. -/
theorem foldlM_eq_error {f : β → α → Except ε β} {xs : List α} {b : β} {e : ε}
    (h : xs.foldlM f b = .error e) : ∃ x ∈ xs, ∃ b', f b' x = .error e := by
  induction xs generalizing b with
  | nil => cases h
  | cons x xs ih =>
      rw [List.foldlM_cons] at h
      -- the round that fails may have begun with any state
      cases hx : f b x with
      | error e' =>
          rw [hx] at h
          cases h
          exact ⟨x, List.mem_cons_self, b, hx⟩
      | ok mid =>
          rw [hx, ok_bind] at h
          obtain ⟨y, hy, hfail⟩ := ih h
          exact ⟨y, List.mem_cons_of_mem x hy, hfail⟩

/-! ## Questions with an answer

A question that may fail is settled by a proposition if it does not fail and the answer is
yes exactly when the proposition holds. Questions that branch on the answers to others are
settled piece by piece. -/

/-- The question is answered, with yes exactly when `p` holds. -/
def Decides (x : Except ε Bool) (p : Prop) : Prop := ∃ b, x = .ok b ∧ (b = true ↔ p)

theorem Decides.eq_ok_true_iff {x : Except ε Bool} {p : Prop} (h : Decides x p) :
    x = .ok true ↔ p := by
  obtain ⟨b, hb, hp⟩ := h
  rw [hb, Except.ok.injEq, hp]

theorem Decides.congr {x : Except ε Bool} {p q : Prop} (h : Decides x p) (hpq : p ↔ q) :
    Decides x q := by
  obtain ⟨b, hb, hp⟩ := h
  exact ⟨b, hb, hp.trans hpq⟩

theorem decides_ok {b : Bool} {p : Prop} (h : b = true ↔ p) :
    Decides (.ok b : Except ε Bool) p := ⟨b, rfl, h⟩

/-- A branch on the answer to a question. -/
theorem Decides.branch {x y z : Except ε Bool} {p q r : Prop} (hx : Decides x p)
    (hy : Decides y q) (hz : Decides z r) :
    Decides (x >>= fun b => if b = true then y else z) ((p ∧ q) ∨ (¬ p ∧ r)) := by
  obtain ⟨b, hb, hp⟩ := hx
  rw [hb, ok_bind]
  -- the answer tells which branch is taken and which half of the condition counts
  cases b with
  | true =>
      have htrue : p := hp.mp rfl
      rw [if_pos rfl]
      exact hy.congr (by simp [htrue])
  | false =>
      have hfalse : ¬ p := fun h => Bool.false_ne_true (hp.mpr h)
      rw [if_neg Bool.false_ne_true]
      exact hz.congr (by simp [hfalse])

/-- A second question is asked only if the answer to the first is no. -/
theorem Decides.or {x y : Except ε Bool} {p q : Prop} (hx : Decides x p) (hy : Decides y q) :
    Decides (x >>= fun b => if b = true then .ok true else y) (p ∨ q) := by
  refine (hx.branch (decides_ok (iff_of_true rfl trivial)) hy).congr ?_
  tauto

/-! ## Answers that stay

Two computations of one shape are compared by what the first one answers: the second
must answer the same, but it may go on where the first one fails. The comparison goes
through every way in which computations are put together, so that two runs of the same
code can be compared step by step. -/

/-- Whatever `x` answers, `y` answers too. -/
def Persists (x y : Except ε α) : Prop := ∀ a, x = .ok a → y = .ok a

theorem Persists.refl (x : Except ε α) : Persists x x := fun _ h => h

/-- A failure promises nothing. -/
theorem persists_error (e : ε) (y : Except ε α) : Persists (.error e) y := fun _ h => nomatch h

theorem Persists.bind {x y : Except ε α} {f g : α → Except ε β} (h : Persists x y)
    (hf : ∀ a, x = .ok a → Persists (f a) (g a)) : Persists (x >>= f) (y >>= g) := by
  intro b hb
  obtain ⟨a, ha, hb⟩ := bind_eq_ok_iff.mp hb
  exact bind_eq_ok_iff.mpr ⟨a, h a ha, hf a ha b hb⟩

theorem Persists.map {x y : Except ε α} (f : α → β) (h : Persists x y) :
    Persists (f <$> x) (f <$> y) := by
  intro b hb
  cases x with
  | error e => cases hb
  | ok a =>
      rw [h a rfl]
      exact hb

theorem Persists.ite {c : Prop} [Decidable c] {x x' y y' : Except ε α} (h : c → Persists x y)
    (h' : ¬ c → Persists x' y') : Persists (if c then x else x') (if c then y else y') := by
  by_cases hc : c
  · rw [if_pos hc, if_pos hc]
    exact h hc
  · rw [if_neg hc, if_neg hc]
    exact h' hc

theorem mapM_persists {xs : List α} {f g : α → Except ε β}
    (h : ∀ x ∈ xs, Persists (f x) (g x)) : Persists (xs.mapM f) (xs.mapM g) := by
  induction xs with
  | nil => exact Persists.refl _
  | cons x xs ih =>
      rw [List.forall_mem_cons] at h
      rw [List.mapM_cons, List.mapM_cons]
      exact h.1.bind fun y _ => (ih h.2).bind fun ys _ => Persists.refl _

theorem foldlM_persists {f g : β → α → Except ε β} (h : ∀ b x, Persists (f b x) (g b x))
    (xs : List α) (b : β) : Persists (xs.foldlM f b) (xs.foldlM g b) := by
  induction xs generalizing b with
  | nil => exact Persists.refl _
  | cons x xs ih =>
      rw [List.foldlM_cons, List.foldlM_cons]
      exact (h b x).bind fun b' _ => ih b'

end Lineage.Proofs
