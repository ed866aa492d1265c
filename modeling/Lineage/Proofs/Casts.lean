import Lineage.Proofs.BoundChain
import Lineage.Proofs.VariableBound

/-!
# A cast is as legal as the cast back

Whether a cast is legal is decided by the first rule that matches the forms of the two
types. The rules come in pairs, one for each direction, and each pair asks the same
question about the hierarchy; between two classes, the questions may come in another
order. A variable on either side gives way to its bound first (`GivesWay`), and then
the rules are tried again.

So both directions have the same answer, if they have one. Only `null` breaks this: it
is cast to every reference type and none is cast to it. It must not occur in the types,
nor in the bounds that stand for variables. Nothing else is asked of the environment.
-/

namespace Lineage.Proofs

open Store Relation

/-! ## The rules -/

section Rules

variable {env : Env} {f : Ty → Ty → Except TypeError Bool} {a b : Ty}

theorem castWith_self (t : Ty) : env.castWith f t t = .ok true := by
  rw [Env.castWith.eq_def]
  simp

theorem true_of_castWith_self {t : Ty} {v : Bool} (h : env.castWith f t t = .ok v) : v = true := by
  rw [castWith_self] at h
  cases h
  rfl

theorem castWith_prims {p q : Primitive} (hne : p ≠ q) :
    env.castWith f (.prim p) (.prim q) = .ok (p.isNumeric && q.isNumeric) := by
  rw [Env.castWith.eq_def]
  simp [hne]

theorem castWith_arrays {t u : Ty} (hne : t ≠ u) :
    env.castWith f (.array t) (.array u) =
      if t.isPrimitive || u.isPrimitive then .ok false else env.castWith f t u := by
  have hbeq : (t == u) = false := beq_eq_false_iff_ne.mpr hne
  rw [Env.castWith.eq_def]
  simp [hne, hbeq]

theorem castWith_classes {x y : ClassId} (hne : x ≠ y) :
    env.castWith f (.cls x) (.cls y) = env.classCast x y := by
  rw [Env.castWith.eq_def]
  simp [hne]

theorem castWith_array_class {t : Ty} {y : ClassId} :
    env.castWith f (.array t) (.cls y) = env.descends (.array t) (.cls y) := by
  rw [Env.castWith.eq_def]
  simp

theorem castWith_null (hb : b.isReference = true) : env.castWith f .null b = .ok true := by
  rw [Env.castWith.eq_def]
  cases b <;> simp_all [Ty.isReference]

theorem castWith_var {v : TypeVarId} (hne : .var v ≠ b) (hb : b.isReference = true)
    (hnull : b ≠ .null) : env.castWith f (.var v) b = f (.var v) b := by
  rw [Env.castWith.eq_def]
  cases b <;> simp_all [Ty.isReference]

end Rules

/-! ## What a variable gives way to -/

/-- The second type is the first one, or stands at the end of its bounds; it is no variable. -/
inductive GivesWay (env : Env) : Ty → Ty → Prop where
  | here {t : Ty} : (∀ v, t ≠ .var v) → GivesWay env t t
  | bound {v : TypeVarId} {p : TypeParam} {u : Ty} : env.typeParam? v = some p →
      GivesWay env p.bound u → GivesWay env (.var v) u

/-- A type gives way to one type at most. -/
theorem GivesWay.unique {env : Env} {t u u' : Ty} (h : GivesWay env t u)
    (h' : GivesWay env t u') : u = u' := by
  induction h with
  | here hvar =>
      cases h' with
      | here => rfl
      | bound => exact absurd rfl (hvar _)
  | bound hp _ ih =>
      cases h' with
      | here hvar => exact absurd rfl (hvar _)
      | bound hq hrest =>
          -- a variable has one bound, so both go on from there
          rw [hp] at hq
          cases hq
          exact ih hrest

theorem BoundChain.givesWay {env : Env} {t u : Ty} {vs : List TypeVarId}
    (h : BoundChain env t vs u) (hu : ∀ v, u ≠ .var v) : GivesWay env t u := by
  induction h with
  | here => exact .here hu
  | step hp _ ih => exact .bound hp (ih hu)

theorem upperBound_givesWay {env : Env} {t u : Ty} (h : env.upperBound t = .ok u) :
    GivesWay env t u := by
  obtain ⟨vs, hchain, -, hu⟩ := boundFrom_eq_ok h
  exact hchain.givesWay hu

/-- What is done where a variable stands on either side, with `n` rounds left. -/
def castRound (env : Env) (n : Nat) (s t : Ty) : Except TypeError Bool := do
  let s' ← env.upperBound s
  let t' ← env.upperBound t
  match n with
  | 0 => throw (.cyclicInheritance (env.renderType s))
  | n + 1 => env.castWithin n s' t'

theorem castWithin_eq_ok {env : Env} {n : Nat} {a b : Ty} {v : Bool}
    (h : env.castWithin n a b = .ok v) : env.castWith (castRound env n) a b = .ok v := by
  rw [Env.castWithin.eq_def] at h
  obtain ⟨-, h⟩ := check_bind_eq_ok_iff.mp h
  obtain ⟨-, h⟩ := check_bind_eq_ok_iff.mp h
  exact h

/-- A round that has an answer is a cast between what the two sides give way to. -/
theorem castRound_eq_ok {env : Env} {n : Nat} {s t : Ty} {v : Bool}
    (h : castRound env n s t = .ok v) :
    ∃ k s' t', n = k + 1 ∧ GivesWay env s s' ∧ GivesWay env t t' ∧
      env.castWithin k s' t' = .ok v := by
  -- both bounds are found before the rounds are counted
  obtain ⟨s', hs, h⟩ := bind_eq_ok_iff.mp h
  obtain ⟨t', ht, h⟩ := bind_eq_ok_iff.mp h
  cases n with
  | zero => cases h
  | succ k => exact ⟨k, s', t', rfl, upperBound_givesWay hs, upperBound_givesWay ht, h⟩

/-! ## The cast back -/

/-- If both questions have an answer, it is the same. -/
def Concur (x y : Except TypeError Bool) : Prop := ∀ v w, x = .ok v → y = .ok w → v = w

theorem Concur.refl (x : Except TypeError Bool) : Concur x x := by
  intro v w hv hw
  rw [hv] at hw
  exact Except.ok.inj hw

/-- After steps whose outcomes do not matter to each other, it is enough that the rest concurs. -/
theorem concur_bind {α : Type} {x y : Except TypeError α} {f g : α → Except TypeError Bool}
    (h : ∀ a b, x = .ok a → y = .ok b → Concur (f a) (g b)) : Concur (x >>= f) (y >>= g) := by
  intro v w hv hw
  obtain ⟨a, ha, hv⟩ := bind_eq_ok_iff.mp hv
  obtain ⟨b, hb, hw⟩ := bind_eq_ok_iff.mp hw
  exact h a b ha hb v w hv hw

/-- Two questions asked in either order, where yes to the first one is enough. -/
theorem concur_or (x y : Except TypeError Bool) :
    Concur (x >>= fun b => if b = true then pure true else y)
      (y >>= fun b => if b = true then pure true else x) := by
  refine concur_bind fun a b ha hb => ?_
  rw [ha, hb]
  cases a <;> cases b <;> exact Concur.refl _

/-- `null` is not what the type is an array of, nor the type itself. -/
def NullFree (t : Ty) : Prop := t.innermost ≠ .null

instance : DecidablePred NullFree := fun t => inferInstanceAs (Decidable (t.innermost ≠ .null))

/-- Asked about the same type twice, both questions are answered by yes. -/
theorem concur_unless_same {a b : Ty} {x y : Except TypeError Bool} (h : Concur x y) :
    Concur (if a = b then pure true else x) (if b = a then pure true else y) := by
  by_cases heq : a = b
  · rw [if_pos heq, if_pos heq.symm]
    exact Concur.refl _
  · rw [if_neg heq, if_neg fun h => heq h.symm]
    exact h

/-- **Between two classes the rules are the same in both directions.** -/
theorem classCast_concur (env : Env) (x y : ClassId) :
    Concur (env.classCast x y) (env.classCast y x) := by
  unfold Env.classCast
  cases hx : env.classDef x with
  | error e => exact fun v w hv => nomatch hv
  | ok c =>
      cases hy : env.classDef y with
      | error e => exact fun v w hv => nomatch hv
      | ok d =>
          simp only [ok_bind]
          -- two classes are asked about descent in the order of the cast, and one yes is enough
          cases c.isInterface <;> cases d.isInterface
          · exact concur_or _ _
          · exact Concur.refl _
          · exact Concur.refl _
          · exact Concur.refl _

section Symmetry

variable {env : Env}

/-- **Down to the first variable, a cast is as legal as the cast back**, if that is so there. -/
theorem castWith_concur {f g : Ty → Ty → Except TypeError Bool}
    (hvar : ∀ s t, NullFree s → NullFree t → Concur (f s t) (g t s)) {a b : Ty}
    (ha : NullFree a) (hb : NullFree b) : Concur (env.castWith f a b) (env.castWith g b a) := by
  induction a generalizing b with
  | array s ih =>
      rw [Env.castWith.eq_def, Env.castWith.eq_def]
      -- equal types are cast either way, and different ones by the rule for their constructors
      refine concur_unless_same ?_
      cases b with
      | null => exact absurd rfl hb
      | prim q => exact Concur.refl _
      | var v => exact hvar _ _ ha hb
      | array t =>
          dsimp only
          -- the test for primitive elements has no order, and the elements go by induction
          rw [Bool.or_comm, BEq.comm (a := s)]
          by_cases hprim : (t.isPrimitive || s.isPrimitive) = true
          · rw [if_pos hprim, if_pos hprim]
            exact Concur.refl _
          · rw [if_neg hprim, if_neg hprim]
            exact ih ha hb
      | _ => exact Concur.refl _
  | null => exact absurd rfl ha
  -- a primitive is cast to numbers only, and nothing but a primitive to it
  | prim p =>
      rw [Env.castWith.eq_def, Env.castWith.eq_def]
      refine concur_unless_same ?_
      cases b with
      | prim q =>
          dsimp only
          rw [Bool.and_comm]
          exact Concur.refl _
      | null => exact absurd rfl hb
      | _ => exact Concur.refl _
  -- from here on the rules hand over to the rounds, with the sides exchanged
  | var v =>
      rw [Env.castWith.eq_def, Env.castWith.eq_def]
      refine concur_unless_same ?_
      cases b with
      | null => exact absurd rfl hb
      | prim q => exact Concur.refl _
      | _ => exact hvar _ _ ha hb
  | cls x =>
      rw [Env.castWith.eq_def, Env.castWith.eq_def]
      refine concur_unless_same ?_
      cases b with
      | null => exact absurd rfl hb
      | var v => exact hvar _ _ ha hb
      | cls y => exact classCast_concur env x y
      | _ => exact Concur.refl _
  -- the other kinds are refused, unless the other side is a variable
  | _ =>
      rw [Env.castWith.eq_def, Env.castWith.eq_def]
      refine concur_unless_same ?_
      cases b with
      | null => exact absurd rfl hb
      | var v => exact hvar _ _ ha hb
      | _ => exact Concur.refl _

/-- No variable is bounded by `null` or by arrays of it. -/
def BoundsNullFree (env : Env) : Prop := ∀ {v p}, env.typeParam? v = some p → NullFree p.bound

theorem GivesWay.nullFree {t u : Ty} (h : GivesWay env t u) (hvars : BoundsNullFree env)
    (ht : NullFree t) : NullFree u := by
  induction h with
  | here => exact ht
  | bound hp _ ih => exact ih (hvars hp)

/-- **A cast is as legal as the cast back**, however many rounds are made for either. -/
theorem castWithin_concur (hvars : BoundsNullFree env) {n m : Nat} {a b : Ty} (ha : NullFree a)
    (hb : NullFree b) : Concur (env.castWithin n a b) (env.castWithin m b a) := by
  induction n using Nat.strongRecOn generalizing m a b with
  | ind n ih =>
      intro v w hv hw
      refine castWith_concur ?_ ha hb v w (castWithin_eq_ok hv) (castWithin_eq_ok hw)
      -- the rules stop at a variable, and both rounds go on with the same two types there
      intro s t hs ht v w hv hw
      obtain ⟨k, s', t', hk, hss, htt, hv⟩ := castRound_eq_ok hv
      obtain ⟨l, t'', s'', -, htt', hss', hw⟩ := castRound_eq_ok hw
      rw [htt'.unique htt, hss'.unique hss] at hw
      exact ih k (by omega) (hss.nullFree hvars hs) (htt.nullFree hvars ht) v w hv hw

end Symmetry

/--
**A cast is as legal as the cast back**, in every environment: links may be broken,
classes undefined, and the graph cyclic or deeper than the limit. If both questions have
an answer, the answer is the same, as long as `null` occurs neither in the types nor in
a bound of a variable.
-/
theorem castable_symm {env : Env} (hvars : BoundsNullFree env) {a b : Ty} (ha : NullFree a)
    (hb : NullFree b) {v w : Bool} (hab : env.castable a b = .ok v)
    (hba : env.castable b a = .ok w) : v = w :=
  castWithin_concur hvars ha hb v w hab hba

/-- The bounds of the variables of a store, checked one by one. -/
theorem boundsNullFree_of_all {s : Store} (h : ∀ p ∈ s.typeParams.toList, NullFree p.bound) :
    BoundsNullFree s.env := fun hp => h _ (Array.mem_of_getElem? hp).val

/-- A variable that is bounded by arrays of another one, which is bounded by numbers. -/
def rowsRun : List Change :=
  [.addTypeParam { name := "N", bound := some (.cls wellKnownIds.number) },
   .addTypeParam { name := "R", bound := some (.array (.var ⟨0⟩)) }]

/-- Rows can be cast to a matrix of integers and back, and to a matrix of strings in neither
direction. -/
theorem castable_symm_rows :
    let env := (afterAll Store.builtin rowsRun).env
    let rows : Ty := .array (.var ⟨1⟩)
    let matrix : Ty := .array (.array (.cls wellKnownIds.integer))
    let strings : Ty := .array (.array (.cls wellKnownIds.string))
    (BoundsNullFree env ∧ NullFree rows ∧ NullFree matrix ∧ NullFree strings ∧
        (env.castable matrix rows).isOk = true ∧ (env.castable strings rows).isOk = true) ∧
      env.castable rows matrix = .ok true ∧ env.castable matrix rows = .ok true ∧
      env.castable rows strings = .ok false ∧ env.castable strings rows = .ok false := by
  intro env rows matrix strings
  have hvars : BoundsNullFree env := boundsNullFree_of_all (by decide)
  have hrows : NullFree rows := by decide
  have hmatrix : NullFree matrix := by decide
  have hstrings : NullFree strings := by decide
  have hto : env.castable rows matrix = .ok true := by rfl
  have hnot : env.castable rows strings = .ok false := by rfl
  obtain ⟨v, hback⟩ : ∃ v, env.castable matrix rows = .ok v := ⟨_, rfl⟩
  obtain ⟨w, hback'⟩ : ∃ w, env.castable strings rows = .ok w := ⟨_, rfl⟩
  have hv : true = v := castable_symm hvars hrows hmatrix hto hback
  have hw : false = w := castable_symm hvars hrows hstrings hnot hback'
  exact ⟨⟨hvars, hrows, hmatrix, hstrings, by rw [hback]; rfl, by rw [hback']; rfl⟩, hto,
    hv ▸ hback, hnot, hw ▸ hback'⟩

end Lineage.Proofs
