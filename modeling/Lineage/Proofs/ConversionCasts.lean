import Lineage.Proofs.Casts
import Lineage.Proofs.LeastAncestor

/-!
# What converts can be cast

Conversion follows a variable up to its bound and on from there; a cast replaces the
variable by its bound and starts again. Conversion asks whether one type descends from
another; a cast between classes goes by a table of kinds, in which interfaces and final
classes have rules of their own. Still, casting a value is legal wherever the value
converts without a cast.

For classes this is a matter of the table. A class that descends from another passes
every rule, except perhaps that a final class is cast to an interface only if it
implements the interface; so the one danger is an interface below a final class.
Above interfaces there are interfaces and the top class, and the top class is not
final. For variables it is a matter of what lies above them: other variables, which give
way to the same type, or classes above that type (`GivesWay.above_cases`). That type
is then asked again whether it descends from the class, and with room for every path
the answer cannot have become no.
-/

namespace Lineage.Proofs

open Store Relation

/-- No variable is bounded by `null`. -/
def BoundsNotNull (env : Env) : Prop := ∀ {v p}, env.typeParam? v = some p → p.bound ≠ .null

/-- The top class can be extended. -/
theorem top_not_final {s : Store} (hs : Reachable s) :
    ∃ c, s.classDef? s.wellKnown.object = some c ∧ c.isFinal = false := by
  have hdata : (Store.builtin.classDef? wellKnownIds.object).map (·.isFinal) = some false := by
    decide
  obtain ⟨c, hc, hfinal⟩ := Option.map_eq_some_iff.mp hdata
  rw [reachable_wellKnown hs]
  exact ⟨c, reachable_classDef hs hc, hfinal⟩

/-! ## What lies above a type -/

section Above

variable {env : Env}

/-- Only classes lie directly above a type that is neither a variable nor `null`. -/
theorem exists_cls_of_directSupertype {t u : Ty} (h : DirectSupertype env t u)
    (hvar : ∀ v, t ≠ .var v) (hnull : t ≠ .null) : ∃ y, u = .cls y := by
  cases h with
  | link hl =>
      cases hl with
      | cls => exact ⟨_, rfl⟩
      | bound => exact absurd rfl (hvar _)
  | top => exact ⟨_, rfl⟩
  | array hmem =>
      simp only [Env.arraySupertypes, List.mem_cons, List.not_mem_nil, or_false] at hmem
      rcases hmem with rfl | rfl | rfl
      · exact ⟨_, rfl⟩
      · exact ⟨_, rfl⟩
      · exact ⟨_, rfl⟩
  | null => exact absurd rfl hnull

theorem exists_cls_of_above {t u : Ty} (h : Above env t u) (hvar : ∀ v, t ≠ .var v)
    (hnull : t ≠ .null) : ∃ y, u = .cls y := by
  induction h with
  | single hd => exact exists_cls_of_directSupertype hd hvar hnull
  | tail _ hd ih =>
      obtain ⟨y, rfl⟩ := ih
      exact exists_cls_of_directSupertype hd (by simp) (by simp)

theorem ne_null_of_above (hbounds : BoundsNotNull env) {t u : Ty} (h : Above env t u)
    (hnull : t ≠ .null) : u ≠ .null := by
  -- one step never leads to `null`: to a bound from a variable, to a class from all else
  have hedge : ∀ {t u}, DirectSupertype env t u → t ≠ .null → u ≠ .null := by
    intro t u hd ht
    by_cases hvar : ∃ v, t = .var v
    · obtain ⟨v, rfl⟩ := hvar
      cases hd with
      | link hl =>
          cases hl with
          | bound hp => exact hbounds hp
    · obtain ⟨y, rfl⟩ := exists_cls_of_directSupertype hd (fun v hv => hvar ⟨v, hv⟩) ht
      simp
  induction h with
  | single hd => exact hedge hd hnull
  | tail _ hd ih => exact hedge hd ih

/-- Above an interface are interfaces and the top class. -/
theorem eq_top_of_above_interface (hroot : Rooted env) (hkinds : InterfacesKeepKind env)
    {x y : ClassId} {c d : ClassDef} (hc : env.classDef? x = some c) (hi : c.isInterface = true)
    (h : Above env (.cls x) (.cls y)) (hd : env.classDef? y = some d)
    (hdi : d.isInterface = false) : y = env.wellKnown.object := by
  have hx : Detached env (.cls x) := by
    refine .inr ⟨x, rfl, fun c' hc' => ?_⟩
    rw [hc] at hc'
    cases hc'
    exact hi
  rcases hkinds.detached_of_reach hroot hx h.to_reflTransGen with heq | ⟨z, heq, hz⟩
  · exact Ty.cls.inj heq
  · cases heq
    rw [hz d hd] at hdi
    cases hdi

theorem GivesWay.not_var {t u : Ty} (h : GivesWay env t u) (v : TypeVarId) : u ≠ .var v := by
  induction h with
  | here hvar => exact hvar v
  | bound _ _ ih => exact ih

theorem GivesWay.ne_null {t u : Ty} (h : GivesWay env t u) (hbounds : BoundsNotNull env)
    (ht : t ≠ .null) : u ≠ .null := by
  induction h with
  | here => exact ht
  | bound hp _ ih => exact ih (hbounds hp)

/-- What lies above a type gives way to the same type, or is a class above what the type gives way
to. -/
theorem GivesWay.above_cases (hbounds : BoundsNotNull env) {t t' u u' : Ty}
    (ht : GivesWay env t t') (hu : GivesWay env u u') (hnull : t ≠ .null)
    (h : t = u ∨ Above env t u) : t' = u' ∨ Above env t' u ∧ ∃ y, u = .cls y ∧ u' = .cls y := by
  induction ht with
  | here hvar =>
      rcases h with rfl | habove
      · exact .inl (GivesWay.unique (.here hvar) hu)
      · obtain ⟨y, rfl⟩ := exists_cls_of_above habove hvar hnull
        exact .inr ⟨habove, y, rfl, hu.unique (.here (by simp))⟩
  | @bound v p t' hp hrest ih =>
      rcases h with rfl | habove
      · exact .inl (GivesWay.unique (.bound hp hrest) hu)
      · -- what lies above a variable is its bound or lies above its bound
        refine ih (hbounds hp) ?_
        rcases (above_var_iff hp).mp habove with heq | habove
        · exact .inl heq.symm
        · exact .inr habove

end Above

/-! ## Casts to what lies above -/

theorem isNumeric_of_widensTo {p q : Primitive} (h : p.widensTo q = true) :
    p.isNumeric = true ∧ q.isNumeric = true := by
  unfold Primitive.widensTo at h
  unfold Primitive.isNumeric
  split at h
  · rename_i hp hq
    rw [hp, hq]
    exact ⟨rfl, rfl⟩
  · cases h

section Casts

variable {s : Store} (hs : Reachable s) (hkinds : InterfacesKeepKind s.env)
  (hpaths : ∀ x, PathsWithin s.env s.depthLimit (.cls x))

include hs hkinds hpaths

/-- **A class can be cast to what lies above it.** -/
theorem classCast_of_above {x y : ClassId} (hne : x ≠ y) (h : Above s.env (.cls x) (.cls y))
    {v : Bool} (hcast : s.env.classCast x y = .ok v) : v = true := by
  have hproper : ProperSupertype s.env (.cls x) (.cls y) :=
    ⟨fun heq => hne (Ty.cls.inj heq), rfl, rfl, h⟩
  -- a search that may go this deep does not miss what lies above
  have hyes : ∀ {found}, s.env.descends (.cls x) (.cls y) = .ok found → found = true := by
    intro found hrun
    cases found with
    | true => rfl
    | false =>
        exact absurd hproper (not_properSupertype_of_descends (rooted_of_reachable hs) rfl rfl
          (hpaths x) hrun)
  obtain ⟨c, hc, hcast⟩ := bind_eq_ok_iff.mp hcast
  obtain ⟨d, hd, hcast⟩ := bind_eq_ok_iff.mp hcast
  rw [classDef_eq_ok_iff] at hc hd
  cases hci : c.isInterface with
  | false =>
      cases hdi : d.isInterface with
      | false =>
          simp only [hci, hdi] at hcast
          obtain ⟨found, hrun, hcast⟩ := bind_eq_ok_iff.mp hcast
          rw [hyes hrun] at hcast
          cases hcast
          rfl
      | true =>
          simp only [hci, hdi] at hcast
          -- a final class must descend from the interface, which it does; any other may be cast
          split at hcast
          · exact hyes hcast
          · cases hcast
            rfl
  | true =>
      cases hdi : d.isInterface with
      | false =>
          -- above an interface the only class is the top class, and it is not final
          have htop := eq_top_of_above_interface (rooted_of_reachable hs) hkinds hc hci h hd hdi
          obtain ⟨o, ho, hfinal⟩ := top_not_final hs
          rw [htop] at hd
          have hod : o = d := Option.some.inj (ho.symm.trans hd)
          rw [hod] at hfinal
          simp only [hci, hdi, hfinal] at hcast
          cases hcast
          rfl
      | true =>
          simp only [hci, hdi] at hcast
          cases hcast
          rfl

/-- So can an array, which has the same three classes above it whatever its elements are. -/
theorem castWith_of_above {f : Ty → Ty → Except TypeError Bool} {t : Ty} {y : ClassId}
    (hvar : ∀ v, t ≠ .var v) (hnull : t ≠ .null) (h : Above s.env t (.cls y)) {v : Bool}
    (hcast : s.env.castWith f t (.cls y) = .ok v) : v = true := by
  obtain ⟨u, hd, -⟩ := TransGen.head'_iff.mp h
  have href := isReference_of_directSupertype hd
  cases t with
  | cls x =>
      by_cases heq : x = y
      · rw [heq] at hcast
        exact true_of_castWith_self hcast
      · rw [castWith_classes heq] at hcast
        exact classCast_of_above hs hkinds hpaths heq h hcast
  | array e =>
      rw [castWith_array_class] at hcast
      have he : e.isAmbiguous = false := (isAmbiguous_of_descends hcast).1
      -- above an array there are the three classes of all arrays and nothing else
      have hmem := (rooted_of_reachable hs).mem_of_above_array h
      rw [descends_array he rfl rfl (by simp), decide_eq_true hmem] at hcast
      cases hcast
      rfl
  | var w => exact absurd rfl (hvar w)
  | null => exact absurd rfl hnull
  | prim p => cases href
  | package name => cases href
  | named name => cases href

variable (hbounds : BoundsNotNull s.env)

include hbounds

/-- **A variable can be cast to what lies above it.** -/
theorem castRound_of_above {n : Nat} {x : TypeVarId} {b : Ty} (h : Above s.env (.var x) b)
    {v : Bool} (hcast : castRound s.env n (.var x) b = .ok v) : v = true := by
  obtain ⟨k, t', b', -, ht, hb, hcast⟩ := castRound_eq_ok hcast
  have hcast := castWithin_eq_ok hcast
  -- both sides give way before they are cast, to one type or to a class and one above it
  rcases ht.above_cases hbounds hb (by simp) (.inr h) with heq | ⟨habove, y, rfl, rfl⟩
  · rw [heq] at hcast
    exact true_of_castWith_self hcast
  · exact castWith_of_above hs hkinds hpaths ht.not_var (ht.ne_null hbounds (by simp)) habove hcast

/-- A type can be cast to what it descends from. -/
theorem castWith_of_descends {n : Nat} {a b : Ty} (h : s.env.descends a b = .ok true)
    (hnull : a ≠ .null) {v : Bool} (hcast : s.env.castWith (castRound s.env n) a b = .ok v) :
    v = true := by
  obtain ⟨ha, hb⟩ := isAmbiguous_of_descends h
  obtain ⟨hne, -, href, habove⟩ := descends_sound ha hb h
  by_cases hvar : ∃ x, a = .var x
  · obtain ⟨x, rfl⟩ := hvar
    rw [castWith_var hne href (ne_null_of_above hbounds habove hnull)] at hcast
    exact castRound_of_above hs hkinds hpaths hbounds habove hcast
  · -- any other type has only classes above it
    have hvar : ∀ x, a ≠ .var x := fun x hx => hvar ⟨x, hx⟩
    obtain ⟨y, rfl⟩ := exists_cls_of_above habove hvar hnull
    exact castWith_of_above hs hkinds hpaths hvar hnull habove hcast

/-- The cases without recursion. -/
theorem castWith_of_assignable_flat {n : Nat} {a b : Ty}
    (harrays : ∀ t u, a = .array t → b ≠ .array u)
    (h : s.env.assignableCanonical a b = .ok true) {v : Bool}
    (hcast : s.env.castWith (castRound s.env n) a b = .ok v) : v = true := by
  by_cases hne : a = b
  · rw [hne] at hcast
    exact true_of_castWith_self hcast
  by_cases hprims : ∃ p q, a = .prim p ∧ b = .prim q
  · obtain ⟨p, q, rfl, rfl⟩ := hprims
    have hpq : p ≠ q := fun heq => hne (by rw [heq])
    rw [assignableCanonical_prims hpq] at h
    have hnumeric := isNumeric_of_widensTo (Except.ok.inj h)
    rw [castWith_prims hpq, hnumeric.1, hnumeric.2] at hcast
    cases hcast
    rfl
  by_cases href : a.isReference = true ∧ b.isReference = true
  · by_cases hnull : a = .null
    · rw [hnull, castWith_null href.2] at hcast
      cases hcast
      rfl
    · -- two references that are assigned by descent, the only case with a search in it
      rw [assignableCanonical_references hne hnull href.1 href.2 harrays] at h
      exact castWith_of_descends hs hkinds hpaths hbounds h hnull hcast
  · have hmixed : a.isReference = false ∨ b.isReference = false :=
      (not_and_or.mp href).imp Bool.eq_false_iff.mpr Bool.eq_false_iff.mpr
    have hapart : ∀ p q, a = .prim p → b ≠ .prim q := fun p q hp hq => hprims ⟨p, q, hp, hq⟩
    rw [assignableCanonical_mixed hne hapart hmixed] at h
    cases h

/-- **What can be assigned can be cast.** Arrays are taken apart by both sides alike. -/
theorem castWith_of_assignable {n : Nat} {a b : Ty}
    (h : s.env.assignableCanonical a b = .ok true) {v : Bool}
    (hcast : s.env.castWith (castRound s.env n) a b = .ok v) : v = true := by
  induction a generalizing b with
  | array t ih =>
      cases b with
      | array u =>
          by_cases hne : t = u
          · rw [hne] at hcast
            exact true_of_castWith_self hcast
          -- both questions look at the elements, and both refuse primitive ones
          rw [assignableCanonical_arrays hne] at h
          rw [castWith_arrays hne] at hcast
          split at h
          · cases h
          · rename_i hprim
            rw [if_neg hprim] at hcast
            exact ih h hcast
      | _ => exact castWith_of_assignable_flat hs hkinds hpaths hbounds (by simp) h hcast
  | _ => exact castWith_of_assignable_flat hs hkinds hpaths hbounds (by simp) h hcast

end Casts

/-- **What converts can be cast.** The types may be of any form. Of the store it is asked that an
interface lists only interfaces, that no variable is bounded by `null`, and that the paths above
its classes fit in the depth limit. -/
theorem castable_of_converts {s : Store} (hs : Reachable s) (hkinds : InterfacesKeepKind s.env)
    (hbounds : BoundsNotNull s.env) (hpaths : ∀ x, PathsWithin s.env s.depthLimit (.cls x))
    {a b : Ty} (hconv : s.env.converts a b = .ok true) {v : Bool}
    (hcast : s.env.castable a b = .ok v) : v = true := by
  rw [converts_eq_assignable] at hconv
  obtain ⟨_, -, hconv⟩ := bind_eq_ok_iff.mp hconv
  obtain ⟨_, -, hconv⟩ := bind_eq_ok_iff.mp hconv
  exact castWith_of_assignable hs hkinds hpaths hbounds hconv (castWithin_eq_ok hcast)

/-- A final class below an interface that extends another, and two variables below the class. -/
def coinsRun : List Change :=
  [.addClass { name := "p.Stored", flags := .interface,
               interfaces := [.cls wellKnownIds.serializable] },
   .addClass { name := "p.Coin", flags := .final, interfaces := [.named "p.Stored"] },
   .addTypeParam { name := "N", bound := some (.cls ⟨13⟩) },
   .addTypeParam { name := "M", bound := some (.var ⟨0⟩) }]

/-- Coins convert to what can be serialized, and so they can be cast to it. They neither convert to
strings nor can they be cast. -/
theorem castable_of_converts_coins :
    let s := afterAll Store.builtin coinsRun
    let coins : Ty := .array (.var ⟨1⟩)
    let serials : Ty := .array (.cls wellKnownIds.serializable)
    let strings : Ty := .array (.cls wellKnownIds.string)
    (Reachable s ∧ InterfacesKeepKind s.env ∧ BoundsNotNull s.env ∧
        (∀ x, PathsWithin s.env s.depthLimit (.cls x)) ∧
        (s.env.castable coins serials).isOk = true) ∧
      s.env.converts coins serials = .ok true ∧ s.env.castable coins serials = .ok true ∧
      s.env.converts coins strings = .ok false ∧ s.env.castable coins strings = .ok false := by
  intro s coins serials strings
  have hs : Reachable s := reachable_afterAll Reachable.builtin coinsRun
  have hkeeps : KeepsKinds s := keepsKinds_of_check (by decide)
  have hcoherent : Coherent s := (closed_of_isClosed (by decide)).coherent (by decide)
  have hbounds : BoundsNotNull s.env := by
    intro v p hp hnull
    have hnull' := (hcoherent.bounds hp).1
    rw [hnull] at hnull'
    rcases hnull' with ⟨_, h⟩ | ⟨_, h⟩ <;> cases h
  have hpaths : ∀ x, PathsWithin s.env s.depthLimit (.cls x) := fun x => hcoherent.paths (.cls x)
  have hconv : s.env.converts coins serials = .ok true := by rfl
  obtain ⟨v, hcast⟩ : ∃ v, s.env.castable coins serials = .ok v := ⟨_, rfl⟩
  have hv : v = true :=
    castable_of_converts hs hkeeps.interfacesKeepKind hbounds hpaths hconv hcast
  exact ⟨⟨hs, hkeeps.interfacesKeepKind, hbounds, hpaths, by rw [hcast]; rfl⟩, hconv,
    hv ▸ hcast, by rfl, by rfl⟩

end Lineage.Proofs
