import Lineage.Override
import Lineage.Proofs.Assignability
import Lineage.Proofs.Registry

/-!
# Overriding is a preorder

Six rules say when a method may stand in for another. They are tried in turn, and some
of them are questions to the hierarchy that may fail. `Overrides` says the same as a
relation between methods without type parameters, with one part for each rule, and in a
coherent store the rules decide it.

Two of the parts could keep the relation from composing, because they make an exception
on one side only. Unchecked exceptions need not be allowed by the overridden method, so
the method in the middle may allow something with an exception that the third one never
mentions. What it allows that way lies below an unchecked exception and is unchecked
itself. And a final method may be overridden by itself alone, which composes because a
position holds one method.
-/

namespace Lineage.Proofs

open Store Relation

/-! ## At or below a type -/

section Under

variable {env : Env}

/-- The second type is the first one or lies above it. -/
def Under (env : Env) (t u : Ty) : Prop := t = u ∨ ProperSupertype env t u

theorem Under.trans {t u w : Ty} (h : Under env t u) (h' : Under env u w) : Under env t w := by
  rcases h with rfl | h
  · exact h'
  · rcases h' with rfl | h'
    · exact .inr h
    · -- on a cycle the two paths may lead back to where the first began
      by_cases heq : t = w
      · exact .inl heq
      · exact .inr ⟨heq, h.2.1, h'.2.2.1, h.2.2.2.trans h'.2.2.2⟩

/-- An exception that need not be declared. -/
def Unchecked (env : Env) (t : Ty) : Prop :=
  Under env t (.cls env.wellKnown.runtimeException) ∨ Under env t (.cls env.wellKnown.error)

/-- What lies below an unchecked exception is unchecked. -/
theorem Unchecked.below {t u : Ty} (h : Unchecked env u) (htu : Under env t u) :
    Unchecked env t := by
  rcases h with h | h
  · exact .inl (htu.trans h)
  · exact .inr (htu.trans h)

/-! ## What the rules ask for -/

/-- Primitives are returned as they are, references where they may be assigned. -/
def FitsReturn (env : Env) (t u : Ty) : Prop :=
  t = u ∨ t.isPrimitive = false ∧ u.isPrimitive = false ∧ Assigns env t u

/-- Every exception of the first list is unchecked or allowed by one in the second. -/
def ThrowsWithin (env : Env) (thrown allowed : List Ty) : Prop :=
  ∀ t ∈ thrown, Unchecked env t ∨ ∃ a ∈ allowed, Under env t a

theorem ThrowsWithin.refl (thrown : List Ty) : ThrowsWithin env thrown thrown :=
  fun t ht => .inr ⟨t, ht, .inl rfl⟩

theorem ThrowsWithin.trans {ts us ws : List Ty} (h : ThrowsWithin env ts us)
    (h' : ThrowsWithin env us ws) : ThrowsWithin env ts ws := by
  intro t ht
  rcases h t ht with hun | ⟨u, hu, htu⟩
  · exact .inl hun
  · rcases h' u hu with hun | ⟨w, hw, huw⟩
    · -- the third list need not allow what is allowed by an unchecked exception
      exact .inl (hun.below htu)
    · exact .inr ⟨w, hw, htu.trans huw⟩

/-- `mi` may stand in for `mj`, where neither has type parameters of its own. -/
structure Overrides (env : Env) (mi mj : Method) : Prop where
  name : mi.name = mj.name
  params : mi.params = mj.params
  returns : FitsReturn env mi.returnType mj.returnType
  throws : ThrowsWithin env mi.throws mj.throws
  access : mj.flags.access.rank ≤ mi.flags.access.rank
  static : mi.isStatic = mj.isStatic
  final : mj.isFinal = true → mi.id = mj.id

theorem Overrides.refl (m : Method) : Overrides env m m where
  name := rfl
  params := rfl
  returns := .inl rfl
  throws := ThrowsWithin.refl m.throws
  access := Nat.le_refl _
  static := rfl
  final := fun _ => rfl

end Under

theorem FitsReturn.trans {s : Store} (hs : Reachable s) (hc : Coherent s) {t u w : Ty}
    (h : FitsReturn s.env t u) (h' : FitsReturn s.env u w) : FitsReturn s.env t w := by
  rcases h with rfl | ⟨ht, hu, h⟩
  · exact h'
  · rcases h' with rfl | ⟨-, hw, h'⟩
    · exact .inr ⟨ht, hu, h⟩
    · exact .inr ⟨ht, hw, h.trans hs hc h'⟩

/-- **Overriding composes** in a coherent store. -/
theorem Overrides.trans {s : Store} (hs : Reachable s) (hc : Coherent s) {m₁ m₂ m₃ : Method}
    (h₂ : s.method? m₂.id = some m₂) (h₃ : s.method? m₃.id = some m₃)
    (h : Overrides s.env m₁ m₂) (h' : Overrides s.env m₂ m₃) : Overrides s.env m₁ m₃ where
  name := h.name.trans h'.name
  params := h.params.trans h'.params
  returns := h.returns.trans hs hc h'.returns
  throws := h.throws.trans h'.throws
  access := Nat.le_trans h'.access h.access
  static := h.static.trans h'.static
  final := by
    intro hfinal
    have hid : m₂.id = m₃.id := h'.final hfinal
    -- the method in the middle is the final one itself
    have heq : m₂ = m₃ := by
      rw [hid, h₃] at h₂
      exact (Option.some.inj h₂).symm
    subst heq
    exact h.final hfinal

/-! ## The rules as they are asked -/

section Rules

variable {env : Env}

/-- Every rule that `mi` has to obey when it overrides `mj` is asked and found obeyed. -/
structure RulesPass (env : Env) (mi mj : Method) : Prop where
  equivalent : mi.overrideEquivalent mj = true
  returns : env.returnFits mi.returnType (mj.alignTo mi).returnType = .ok true
  throws : env.throwsSubset mi (mj.alignTo mi) = .ok true
  access : mi.flags.moreRestrictive mj.flags = false
  static : mi.isStatic = mj.isStatic
  final : mi.id = mj.id ∨ mj.isFinal = false

/-- A broken rule is reported, and one that is obeyed hands on to the next. -/
theorem report_eq_ok_none_iff {ε α : Type} {broken : Bool} {report : α}
    {next : Except ε (Option α)} :
    (if broken = true then .ok (some report) else next) = .ok none ↔
      broken = false ∧ next = .ok none := by
  cases broken <;> simp

/-- No violation is found exactly when all rules pass. -/
theorem overrideViolation?_eq_none_iff {mi mj : Method} :
    env.overrideViolation? mi mj = .ok none ↔ RulesPass env mi mj := by
  unfold Env.overrideViolation?
  simp only [report_eq_ok_none_iff, bind_eq_ok_iff, pure_eq_ok, and_true]
  simp only [Bool.not_eq_false', bne_eq_false_iff_eq, Bool.and_eq_false_iff,
    decide_eq_false_iff_not, not_not]
  constructor
  · rintro ⟨hequiv, _, hreturns, rfl, _, hthrows, rfl, haccess, hstatic, hfinal⟩
    exact ⟨hequiv, hreturns, hthrows, haccess, hstatic, hfinal⟩
  · rintro ⟨hequiv, hreturns, hthrows, haccess, hstatic, hfinal⟩
    exact ⟨hequiv, true, hreturns, rfl, true, hthrows, rfl, haccess, hstatic, hfinal⟩

/-- Aloud or quietly, the answer is yes exactly when all rules pass. -/
theorem canOverride_eq_true_iff {mi mj : Method} {quiet : Bool} :
    env.canOverride mi mj quiet = .ok true ↔ RulesPass env mi mj := by
  rw [← overrideViolation?_eq_none_iff]
  unfold Env.canOverride
  cases env.overrideViolation? mi mj with
  | error e => simp
  | ok violation =>
      cases violation with
      | none => simp
      | some report => cases quiet <;> simp

theorem alignTo_of_monomorphic {mi mj : Method} (h : mj.typeParams = []) :
    mj.alignTo mi = mj := by
  rw [Method.alignTo, h]
  rfl

theorem overrideEquivalent_iff {mi mj : Method} (hi : mi.typeParams = [])
    (hj : mj.typeParams = []) :
    mi.overrideEquivalent mj = true ↔ mi.name = mj.name ∧ mi.params = mj.params := by
  rw [Method.overrideEquivalent, alignTo_of_monomorphic hj, Method.sameParams, hi, hj]
  simp

end Rules

/-! ## The rules decide the relation -/

/-- A method of the store without type parameters of its own, whose return type and exceptions
are canonical types of the store. -/
structure PlainMethod (s : Store) (m : Method) : Prop where
  stored : ∃ id, s.method? id = some m
  monomorphic : m.typeParams = []
  returns : m.returnType.isAmbiguous = false ∧ Within s m.returnType
  throws : ∀ t ∈ m.throws, t.isAmbiguous = false ∧ Within s t

section Decision

variable {s : Store} (hs : Reachable s) (hc : Coherent s)

include hs

theorem PlainMethod.method?_id {m : Method} (h : PlainMethod s m) : s.method? m.id = some m := by
  obtain ⟨id, hm⟩ := h.stored
  rw [(registry_reachable hs).members.method_id hm]
  exact hm

include hc

theorem under_decides {t u : Ty} (ht : t.isAmbiguous = false) (hwithin : Within s t)
    (hu : u.isAmbiguous = false) :
    Decides (if t = u then .ok true else s.env.descends t u) (Under s.env t u) := by
  -- descent is proper, so the type itself is asked about first
  by_cases heq : t = u
  · rw [if_pos heq]
    exact decides_ok (iff_of_true rfl (.inl heq))
  · rw [if_neg heq]
    have hdecides : Decides (s.env.descends t u) (ProperSupertype s.env t u) :=
      hc.descends hs hwithin ht hu
    exact hdecides.congr (by simp [Under, heq])

theorem isUnchecked_decides {t : Ty} (ht : t.isAmbiguous = false) (hwithin : Within s t) :
    Decides (s.env.isUnchecked t) (Unchecked s.env t) := by
  have hunder : ∀ root, Decides (s.env.isUnder root t) (Under s.env t (.cls root)) :=
    fun root => under_decides hs hc ht hwithin rfl
  exact (hunder s.env.wellKnown.runtimeException).or (hunder s.env.wellKnown.error)

theorem throwAllowed_decides {t : Ty} (ht : t.isAmbiguous = false) (hwithin : Within s t)
    {allowed : List Ty} (hall : ∀ a ∈ allowed, a.isAmbiguous = false) :
    Decides (s.env.throwAllowed t allowed) (∃ a ∈ allowed, Under s.env t a) := by
  induction allowed with
  | nil => exact decides_ok (by simp)
  | cons a allowed ih =>
      rw [List.forall_mem_cons] at hall
      rw [Env.throwAllowed, List.exists_mem_cons_iff]
      by_cases heq : t = a
      · rw [if_pos heq]
        exact decides_ok (iff_of_true rfl (.inl (.inl heq)))
      · rw [if_neg heq]
        have hdescends : Decides (s.env.descends t a) (ProperSupertype s.env t a) :=
          hc.descends hs hwithin ht hall.1
        refine (hdescends.or (ih hall.2)).congr (or_congr_left ?_)
        rw [Under, or_iff_right heq]

theorem throwsCovered_decides {thrown allowed : List Ty}
    (hthrown : ∀ t ∈ thrown, t.isAmbiguous = false ∧ Within s t)
    (hall : ∀ a ∈ allowed, a.isAmbiguous = false) :
    Decides (s.env.throwsCovered allowed thrown) (ThrowsWithin s.env thrown allowed) := by
  induction thrown with
  | nil => exact decides_ok (by simp [ThrowsWithin])
  | cons t thrown ih =>
      rw [List.forall_mem_cons] at hthrown
      have hunchecked := isUnchecked_decides hs hc hthrown.1.1 hthrown.1.2
      have hallowed := throwAllowed_decides hs hc hthrown.1.1 hthrown.1.2 hall
      have hrest := ih hthrown.2
      have hbranch := hunchecked.branch hrest
        (hallowed.branch hrest (decides_ok (iff_of_false Bool.false_ne_true not_false)))
      have hcons : ThrowsWithin s.env (t :: thrown) allowed ↔
          (Unchecked s.env t ∨ ∃ a ∈ allowed, Under s.env t a) ∧
            ThrowsWithin s.env thrown allowed := List.forall_mem_cons
      rw [hcons]
      refine hbranch.congr ?_
      by_cases hun : Unchecked s.env t <;> simp [hun]

theorem returnFits_decides {t u : Ty} (ht : t.isAmbiguous = false) (hwithin : Within s t)
    (hu : u.isAmbiguous = false) : Decides (s.env.returnFits t u) (FitsReturn s.env t u) := by
  unfold Env.returnFits
  by_cases hprim : (t.isPrimitive || u.isPrimitive) = true
  · rw [if_pos hprim]
    refine decides_ok ?_
    rw [beq_iff_eq, FitsReturn]
    constructor
    · exact .inl
    · rintro (heq | ⟨ht, hu, -⟩)
      · exact heq
      · rw [ht, hu] at hprim
        cases hprim
  · rw [if_neg hprim]
    have hassign : Decides (s.env.assignable t u) (Assigns s.env t u) :=
      assignable_decides hs hc ht hu hwithin
    rw [Bool.or_eq_true, not_or, Bool.not_eq_true, Bool.not_eq_true] at hprim
    refine hassign.congr ⟨fun h => .inr ⟨hprim.1, hprim.2, h⟩, ?_⟩
    -- for references, to be the same is to be assignable
    rintro (rfl | ⟨-, -, h⟩)
    · exact .refl t
    · exact h

/-- **The rules decide the relation** between plain methods of a coherent store. -/
theorem canOverride_iff_overrides {mi mj : Method} (hi : PlainMethod s mi)
    (hj : PlainMethod s mj) {quiet : Bool} :
    s.env.canOverride mi mj quiet = .ok true ↔ Overrides s.env mi mj := by
  have hreturns := returnFits_decides hs hc hi.returns.1 hi.returns.2 hj.returns.1
  have hthrows := throwsCovered_decides hs hc hi.throws fun a ha => (hj.throws a ha).1
  have hequiv := overrideEquivalent_iff hi.monomorphic hj.monomorphic
  have halign : mj.alignTo mi = mj := alignTo_of_monomorphic hj.monomorphic
  have haccess : mi.flags.moreRestrictive mj.flags = false ↔
      mj.flags.access.rank ≤ mi.flags.access.rank := by simp [Flags.moreRestrictive]
  rw [canOverride_eq_true_iff]
  constructor
  · intro h
    obtain ⟨hname, hparams⟩ := hequiv.mp h.equivalent
    -- without type parameters there is nothing to align
    have hret := h.returns
    have hthr := h.throws
    rw [halign] at hret hthr
    refine ⟨hname, hparams, hreturns.eq_ok_true_iff.mp hret, hthrows.eq_ok_true_iff.mp hthr,
      haccess.mp h.access, h.static, ?_⟩
    intro hfinal
    exact h.final.resolve_right (by simp [hfinal])
  · intro h
    refine ⟨hequiv.mpr ⟨h.name, h.params⟩, ?_, ?_, haccess.mpr h.access, h.static, ?_⟩
    · rw [halign]
      exact hreturns.eq_ok_true_iff.mpr h.returns
    · rw [halign]
      exact hthrows.eq_ok_true_iff.mpr h.throws
    · cases hfinal : mj.isFinal with
      | true => exact .inl (h.final hfinal)
      | false => exact .inr rfl

end Decision

/--
**Overriding is a preorder** on the methods of a coherent store that have no type
parameters of their own: every method may override itself, and what may override
something may override whatever that may override.
-/
theorem canOverride_preorder {s : Store} (hs : Reachable s) (hc : Coherent s)
    {m₁ m₂ m₃ : Method} (h₁ : PlainMethod s m₁) (h₂ : PlainMethod s m₂) (h₃ : PlainMethod s m₃)
    (quiet : Bool) :
    s.env.canOverride m₁ m₁ quiet = .ok true ∧
      (s.env.canOverride m₁ m₂ quiet = .ok true → s.env.canOverride m₂ m₃ quiet = .ok true →
        s.env.canOverride m₁ m₃ quiet = .ok true) := by
  rw [canOverride_iff_overrides hs hc h₁ h₁, canOverride_iff_overrides hs hc h₁ h₂,
    canOverride_iff_overrides hs hc h₂ h₃, canOverride_iff_overrides hs hc h₁ h₃]
  exact ⟨Overrides.refl m₁, Overrides.trans hs hc (h₂.method?_id hs) (h₃.method?_id hs)⟩

/-- Reads anything and may fail, for which there is a checked exception. -/
def readAny : MethodDecl :=
  { name := "read", returnType := .cls wellKnownIds.object, throws := [.cls ⟨12⟩] }

/-- Reads numbers, for more callers, and throws unchecked exceptions as well. -/
def readNumber : MethodDecl :=
  { name := "read", returnType := .cls wellKnownIds.number, flags := .prot,
    throws := [.cls ⟨12⟩, .cls wellKnownIds.runtimeException] }

/-- Reads integers, for everyone, and throws an exception that only the second one allows. -/
def readInteger : MethodDecl :=
  { name := "read", returnType := .cls wellKnownIds.integer, flags := .pub ∪ .final,
    throws := [.cls ⟨13⟩] }

def readersRun : List Change :=
  [.addClass { name := "p.Failure", superclass := some (.cls wellKnownIds.exception) },
   .addClass { name := "p.Stop", superclass := some (.cls wellKnownIds.runtimeException) },
   .addClass { name := "p.Reader", methods := [readAny] },
   .addClass { name := "p.NumberReader", superclass := some (.cls ⟨14⟩),
               methods := [readNumber] },
   .addClass { name := "p.IntegerReader", superclass := some (.cls ⟨15⟩),
               methods := [readInteger] }]

/-- The method for integers may stand in for the one for numbers, and so for the first one. Neither
of the others may stand in for it. -/
theorem canOverride_preorder_readers :
    let s := afterAll Store.builtin readersRun
    let m₁ := methodOf ⟨7⟩ ⟨16⟩ readInteger
    let m₂ := methodOf ⟨6⟩ ⟨15⟩ readNumber
    let m₃ := methodOf ⟨5⟩ ⟨14⟩ readAny
    (Reachable s ∧ Coherent s ∧ PlainMethod s m₁ ∧ PlainMethod s m₂ ∧ PlainMethod s m₃) ∧
      s.env.canOverride m₁ m₁ true = .ok true ∧
      s.env.canOverride m₁ m₂ true = .ok true ∧ s.env.canOverride m₂ m₃ true = .ok true ∧
      s.env.canOverride m₁ m₃ true = .ok true ∧
      s.env.canOverride m₂ m₁ true = .ok false ∧ s.env.canOverride m₃ m₁ true = .ok false := by
  intro s m₁ m₂ m₃
  have hreach : Reachable s := reachable_afterAll Reachable.builtin readersRun
  have hc : Coherent s := (closed_of_isClosed (by decide)).coherent (by decide)
  have h₁ : PlainMethod s m₁ := ⟨⟨⟨7⟩, by decide⟩, rfl, ⟨rfl, by decide⟩, by decide⟩
  have h₂ : PlainMethod s m₂ := ⟨⟨⟨6⟩, by decide⟩, rfl, ⟨rfl, by decide⟩, by decide⟩
  have h₃ : PlainMethod s m₃ := ⟨⟨⟨5⟩, by decide⟩, rfl, ⟨rfl, by decide⟩, by decide⟩
  have h₁₂ : s.env.canOverride m₁ m₂ true = .ok true := by decide
  have h₂₃ : s.env.canOverride m₂ m₃ true = .ok true := by decide
  obtain ⟨hrefl, htrans⟩ := canOverride_preorder hreach hc h₁ h₂ h₃ true
  exact ⟨⟨hreach, hc, h₁, h₂, h₃⟩, hrefl, h₁₂, h₂₃, htrans h₁₂ h₂₃, by decide, by decide⟩

end Lineage.Proofs
