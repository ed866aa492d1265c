import Lineage.AccessControl
import Lineage.Proofs.Enclosure

/-!
# Private and package access goes both ways

Whether code in one class may use a member of another is asked from where the code
stands. The classes around the code are at hand in its context, those around the other
class are walked through when the question is asked. What the two find is the same
relation read in its two directions: one class is written in the other. So is the
question about packages the same from either side.

Only protected access is not like that, because a subclass may reach up and not down.
Without it, and for classes whose surroundings can be told, access is a symmetric
relation: `InOneNest`, and for package members also `InOnePackage`.
-/

namespace Lineage.Proofs

open Relation

/-- The two are one class, or one of them is written in the other. -/
def InOneNest (env : Env) (a b : ClassId) : Prop := a = b ∨ NestedIn env a b ∨ NestedIn env b a

/-- The names of the two classes have the same package, or none. -/
def InOnePackage (env : Env) (a b : ClassId) : Prop :=
  ∃ c d, env.classDef? a = some c ∧ env.classDef? b = some d ∧ c.package = d.package

/-- A private member is not a package member. -/
theorem isPackage_of_isPrivate {f : Flags} (h : f.isPrivate = true) : f.isPackage = false := by
  have hpriv : f.bits &&& 2 = 2 := beq_iff_eq.mp h
  refine beq_eq_false_iff_ne.mpr fun hpack => ?_
  -- the bit for private is one of the three access bits
  have hzero : f.bits &&& 2 = 0 := by
    calc f.bits &&& 2 = f.bits &&& (7 &&& 2) := rfl
      _ = f.bits &&& 7 &&& 2 := (UInt16.and_assoc _ _ _).symm
      _ = 0 := by rw [hpack]; rfl
  rw [hpriv] at hzero
  exact absurd hzero (by decide)

section Access

variable {env : Env} {flags : Flags}

theorem InOneNest.comm {a b : ClassId} : InOneNest env a b ↔ InOneNest env b a := by
  unfold InOneNest
  rw [eq_comm, or_comm (a := NestedIn env a b)]

theorem InOnePackage.comm {a b : ClassId} : InOnePackage env a b ↔ InOnePackage env b a := by
  have hswap : ∀ {a b}, InOnePackage env a b → InOnePackage env b a := by
    rintro a b ⟨c, d, hc, hd, hsame⟩
    exact ⟨d, c, hd, hc, hsame.symm⟩
  exact ⟨hswap, hswap⟩

theorem forClass_eq_ok_iff {c : ClassId} {ctx : AccessContext} :
    AccessContext.forClass env c = .ok ctx ↔
      ∃ around, env.enclosingClasses c = .ok around ∧
        ctx = { current := c, enclosing := around } := by
  unfold AccessContext.forClass
  rw [bind_eq_ok_iff]
  simp only [pure_eq_ok, Except.ok.injEq, eq_comm]

/-- Where the surroundings of a class can be told, it is known what the class is written in. -/
theorem isEnclosed_decides {inner outer : ClassId} {around : List ClassId}
    (h : env.enclosingClasses inner = .ok around) :
    Decides (env.isEnclosed inner outer) (NestedIn env inner outer) := by
  unfold Env.isEnclosed
  rw [h, ok_bind]
  refine decides_ok ?_
  rw [List.contains_iff_mem, mem_enclosingClasses_iff h]

theorem samePackage_decides {a b : ClassId} {c d : ClassDef} (hc : env.classDef? a = some c)
    (hd : env.classDef? b = some d) :
    Decides (env.samePackage a b) (InOnePackage env a b) := by
  unfold Env.samePackage
  rw [classDef_eq_ok_iff.mpr hc, ok_bind, classDef_eq_ok_iff.mpr hd, ok_bind]
  refine decides_ok ?_
  rw [beq_iff_eq]
  constructor
  · intro hsame
    exact ⟨c, d, hc, hd, hsame⟩
  · rintro ⟨c', d', hc', hd', hsame⟩
    rw [hc] at hc'
    rw [hd] at hd'
    cases hc'
    cases hd'
    exact hsame

/-- Between classes of different nests, only package members are open, within the package. -/
theorem isOpenTo_decides {id current : ClassId} {c d : ClassDef} (hc : env.classDef? id = some c)
    (hd : env.classDef? current = some d) (hprot : flags.isProtected = false) :
    Decides (env.isOpenTo id flags current)
      (flags.isPackage = true ∧ InOnePackage env id current) := by
  have hno : Decides (.ok false : Except TypeError Bool) False := decides_ok (by simp)
  unfold Env.isOpenTo
  cases hpack : flags.isPackage with
  | true =>
      simp only [hprot, if_true, Bool.false_eq_true, if_false]
      -- what is left of the rule is for protected members only
      exact ((samePackage_decides hc hd).or hno).congr (by simp)
  | false =>
      simp only [hprot, Bool.false_eq_true, if_false]
      exact hno.congr (by simp)

/-- **Access without the right of subclasses**, from code in `c` to members of `t`. -/
theorem isAccessible_decides {c t : ClassId} {ctx : AccessContext} {around : List ClassId}
    (hc : AccessContext.forClass env c = .ok ctx) (ht : env.enclosingClasses t = .ok around)
    (hpub : flags.isPublic = false) (hprot : flags.isProtected = false) :
    Decides (env.isAccessible (.cls t) flags ctx)
      (InOneNest env c t ∨ flags.isPackage = true ∧ InOnePackage env c t) := by
  obtain ⟨outside, houtside, rfl⟩ := forClass_eq_ok_iff.mp hc
  obtain ⟨dc, hdc, -⟩ := enclosingClasses_eq_ok_iff.mp houtside
  obtain ⟨dt, hdt, -⟩ := enclosingClasses_eq_ok_iff.mp ht
  unfold Env.isAccessible
  rw [ensureCanonical_eq_ok rfl, ok_bind]
  -- the questions are asked one after the other, and the first yes is the answer
  by_cases hself : t = c
  · subst hself
    simp only [hpub, Bool.false_or, beq_self_eq_true, if_true]
    exact decides_ok (iff_of_true rfl (.inl (.inl rfl)))
  · have hother : (Ty.cls t == Ty.cls c) = false :=
      beq_eq_false_iff_ne.mpr fun heq => hself (Ty.cls.inj heq)
    simp only [hpub, hother, Bool.false_or, Bool.false_eq_true, if_false]
    by_cases hin : NestedIn env c t
    · -- the class is one of those around the code
      have hwithin : (⟨c, outside⟩ : AccessContext).isWithin t = true := by
        simp [AccessContext.isWithin, (mem_enclosingClasses_iff houtside).mpr hin]
      rw [if_pos hwithin]
      exact decides_ok (iff_of_true rfl (.inl (.inr (.inl hin))))
    · -- the code is not within the class, so the class may be within that of the code
      have hwithin : (⟨c, outside⟩ : AccessContext).isWithin t = false := by
        simp [AccessContext.isWithin, mem_enclosingClasses_iff houtside, hin, Ne.symm hself]
      rw [hwithin, if_neg Bool.false_ne_true]
      refine ((isEnclosed_decides ht).or (isOpenTo_decides hdt hdc hprot)).congr ?_
      rw [InOnePackage.comm, InOneNest]
      have hne : c ≠ t := Ne.symm hself
      tauto

end Access

/--
**Private and package access is symmetric**, in every environment and for any two classes
whose surroundings can be told: code in the one may use a member of the other exactly if
code in the other may use such a member of the one, and both questions have an answer.

For private members the answer is yes exactly if the two are one class or one of them is
written in the other, at any depth. For package members, it is yes as well if the names of
the two have the same package.
-/
theorem isAccessible_symm {env : Env} {c t : ClassId} {ctx ctx' : AccessContext}
    (hc : AccessContext.forClass env c = .ok ctx) (ht : AccessContext.forClass env t = .ok ctx')
    {flags : Flags} (hpub : flags.isPublic = false) (hprot : flags.isProtected = false) :
    ∃ answer, env.isAccessible (.cls t) flags ctx = .ok answer ∧
      env.isAccessible (.cls c) flags ctx' = .ok answer ∧
      (answer = true ↔
        InOneNest env c t ∨ flags.isPackage = true ∧ InOnePackage env c t) ∧
      (flags.isPrivate = true →
        (answer = true ↔ c = t ∨ NestedIn env c t ∨ NestedIn env t c)) := by
  obtain ⟨around, haround, -⟩ := forClass_eq_ok_iff.mp hc
  obtain ⟨around', haround', -⟩ := forClass_eq_ok_iff.mp ht
  obtain ⟨there, hthere, hiff⟩ := isAccessible_decides hc haround' hpub hprot
  obtain ⟨back, hback, hiff'⟩ := isAccessible_decides ht haround hpub hprot
  -- both answers come down to one condition, read from either side
  rw [InOneNest.comm, InOnePackage.comm, ← hiff, ← Bool.eq_iff_iff] at hiff'
  subst hiff'
  refine ⟨back, hthere, hback, hiff, fun hpriv => ?_⟩
  rw [hiff, isPackage_of_isPrivate hpriv, InOneNest]
  simp

/-- A class with two classes in it, one of which has a class in it too. -/
def nest : Store :=
  afterAll .builtin
    [.addClass { name := "p.Outer" },
     .addClass { name := "p.Outer.Left", outer := some ⟨12⟩ },
     .addClass { name := "p.Outer.Left.Deep", outer := some ⟨13⟩ },
     .addClass { name := "p.Outer.Right", outer := some ⟨12⟩ }]

/-- The innermost class and the outermost one are open to each other; the two in the middle are
not. -/
theorem isAccessible_symm_nest :
    let env := nest.env
    let deep : AccessContext := { current := ⟨14⟩, enclosing := [⟨13⟩, ⟨12⟩] }
    let outer : AccessContext := { current := ⟨12⟩ }
    let left : AccessContext := { current := ⟨13⟩, enclosing := [⟨12⟩] }
    let right : AccessContext := { current := ⟨15⟩, enclosing := [⟨12⟩] }
    (AccessContext.forClass env ⟨14⟩ = .ok deep ∧ AccessContext.forClass env ⟨12⟩ = .ok outer ∧
        AccessContext.forClass env ⟨13⟩ = .ok left ∧ AccessContext.forClass env ⟨15⟩ = .ok right ∧
        Flags.priv.isPublic = false ∧ Flags.priv.isProtected = false) ∧
      (∃ answer, env.isAccessible (.cls ⟨12⟩) .priv deep = .ok answer ∧
        env.isAccessible (.cls ⟨14⟩) .priv outer = .ok answer ∧
        (answer = true ↔ (⟨14⟩ : ClassId) = ⟨12⟩ ∨ NestedIn env ⟨14⟩ ⟨12⟩ ∨
          NestedIn env ⟨12⟩ ⟨14⟩)) ∧
      (∃ answer, env.isAccessible (.cls ⟨15⟩) .priv left = .ok answer ∧
        env.isAccessible (.cls ⟨13⟩) .priv right = .ok answer ∧
        (answer = true ↔ (⟨13⟩ : ClassId) = ⟨15⟩ ∨ NestedIn env ⟨13⟩ ⟨15⟩ ∨
          NestedIn env ⟨15⟩ ⟨13⟩)) ∧
      env.isAccessible (.cls ⟨12⟩) .priv deep = .ok true ∧
      env.isAccessible (.cls ⟨15⟩) .priv left = .ok false := by
  intro env deep outer left right
  have hdeep : AccessContext.forClass env ⟨14⟩ = .ok deep := by rfl
  have houter : AccessContext.forClass env ⟨12⟩ = .ok outer := by rfl
  have hleft : AccessContext.forClass env ⟨13⟩ = .ok left := by rfl
  have hright : AccessContext.forClass env ⟨15⟩ = .ok right := by rfl
  have hpub : Flags.priv.isPublic = false := by decide
  have hprot : Flags.priv.isProtected = false := by decide
  have hpriv : Flags.priv.isPrivate = true := by decide
  obtain ⟨a, hthere, hback, -, hiff⟩ := isAccessible_symm hdeep houter hpub hprot
  obtain ⟨b, hthere', hback', -, hiff'⟩ := isAccessible_symm hleft hright hpub hprot
  exact ⟨⟨hdeep, houter, hleft, hright, hpub, hprot⟩, ⟨a, hthere, hback, hiff hpriv⟩,
    ⟨b, hthere', hback', hiff' hpriv⟩, by decide, by decide⟩

end Lineage.Proofs
