import Lineage.Substitution
import Mathlib.Data.List.Basic

/-!
# Substitutions compose

To apply a composition is to apply one part and then the other. Both parts may replace
the same variable, and the first may bring in variables that the second replaces. One
equation settles this, `get?_compose`: the first part decides about a variable if it
has an entry for it, and what it gives is then subject to the second. Types follow
their variables. A type parameter of a signature follows the type that takes its place:
it survives as long as that type is a variable.

That composition is associative says more than that the results act alike, because a
substitution remembers the order of its entries. A composition is made by entering one
type after the other, and what stands where in the end is said once (`entries_compose`).
Both ways to compose three substitutions list the entries of the first, then those that
the second adds, then those that the third adds.
-/

namespace Lineage.Proofs

open Subst

/-! ## Looking up a variable -/

theorem get?_eq_none_iff {s : Subst} {v : TypeVarId} : s.get? v = none ↔ v ∉ s.keys := by
  unfold get? keys
  rw [List.lookup_eq_none_iff]
  simp only [bne_iff_ne, List.mem_map, not_exists, not_and]
  exact forall₂_congr fun e _ => ne_comm

theorem lookup_map_snd (f : Ty → Ty) (entries : List (TypeVarId × Ty)) (v : TypeVarId) :
    (entries.map fun e => (e.1, f e.2)).lookup v = (entries.lookup v).map f := by
  induction entries with
  | nil => rfl
  | cons e rest ih =>
      rw [List.map_cons, List.lookup_cons, List.lookup_cons]
      cases v == e.1 with
      | true => rfl
      | false => exact ih

/-- Entries for other variables may be left out. -/
theorem lookup_filter_fst {known : List TypeVarId} {v : TypeVarId} (hv : v ∉ known)
    (entries : List (TypeVarId × Ty)) :
    (entries.filter fun e => e.1 ∉ known).lookup v = entries.lookup v := by
  induction entries with
  | nil => rfl
  | cons e rest ih =>
      by_cases hknown : e.1 ∈ known
      · have hne : (v == e.1) = false := by
          rw [beq_eq_false_iff_ne]
          exact fun heq => hv (heq ▸ hknown)
        rw [List.filter_cons_of_neg (by simpa using hknown), ih, List.lookup_cons, hne]
      · rw [List.filter_cons_of_pos (by simpa using hknown), List.lookup_cons, List.lookup_cons,
          ih]

/-! ## Entering one after the other -/

theorem entries_insert_of_not_mem {s : Subst} {v : TypeVarId} (h : v ∉ s.keys) (t : Ty) :
    (s.insert v t).entries = s.entries ++ [(v, t)] := by
  rw [Subst.insert, dif_neg h]

theorem mem_keys_insert_of_not_mem {s : Subst} {v w : TypeVarId} (h : v ∉ s.keys) (t : Ty) :
    w ∈ (s.insert v t).keys ↔ w ∈ s.keys ∨ w = v := by
  rw [keys, entries_insert_of_not_mem h, List.map_append, List.mem_append]
  exact or_congr_right List.mem_singleton

/-- Entries for different variables are kept as they come. -/
theorem entries_foldl_insert {entries : List (TypeVarId × Ty)} {s : Subst}
    (hnd : (entries.map Prod.fst).Nodup) (hnew : ∀ e ∈ entries, e.1 ∉ s.keys) :
    (entries.foldl (fun s e => s.insert e.1 e.2) s).entries = s.entries ++ entries := by
  induction entries generalizing s with
  | nil => rw [List.foldl_nil, List.append_nil]
  | cons e rest ih =>
      obtain ⟨he, hnd⟩ := List.nodup_cons.mp hnd
      rw [List.forall_mem_cons] at hnew
      rw [List.foldl_cons, ih hnd, entries_insert_of_not_mem hnew.1, List.append_assoc]
      · rfl
      · intro e' he' hmem
        rcases (mem_keys_insert_of_not_mem hnew.1 e.2).mp hmem with hmem | heq
        · exact hnew.2 e' he' hmem
        · -- the variable that was entered last does not come again
          exact he (heq ▸ List.mem_map_of_mem he')

theorem entries_ofList {entries : List (TypeVarId × Ty)} (hnd : (entries.map Prod.fst).Nodup) :
    (ofList entries).entries = entries :=
  entries_foldl_insert hnd fun _ _ => List.not_mem_nil

/-- Of entries for different variables, those are added whose variable has none. -/
theorem entries_foldl_insertNew {entries : List (TypeVarId × Ty)} {s : Subst}
    (hnd : (entries.map Prod.fst).Nodup) :
    (entries.foldl (fun s e => s.insertNew e.1 e.2) s).entries =
      s.entries ++ entries.filter fun e => e.1 ∉ s.keys := by
  induction entries generalizing s with
  | nil => rw [List.foldl_nil, List.filter_nil, List.append_nil]
  | cons e rest ih =>
      obtain ⟨he, hnd⟩ := List.nodup_cons.mp hnd
      rw [List.foldl_cons, ih hnd]
      by_cases hmem : e.1 ∈ s.keys
      · rw [insertNew, if_pos hmem, List.filter_cons_of_neg (by simpa using hmem)]
      · -- the new variable is none of those that are still to come
        have hrest : (rest.filter fun e' => e'.1 ∉ (s.insert e.1 e.2).keys) =
            rest.filter fun e' => e'.1 ∉ s.keys := by
          refine List.filter_congr fun e' he' => ?_
          have hne : e'.1 ≠ e.1 := fun heq => he (heq ▸ List.mem_map_of_mem he')
          simp [mem_keys_insert_of_not_mem hmem, hne]
        rw [insertNew, if_neg hmem, hrest, entries_insert_of_not_mem hmem,
          List.filter_cons_of_pos (by simpa using hmem), List.append_assoc]
        rfl

/-! ## What a composition holds -/

/-- **The entries of a composition**, in order: those of the first part, with the second applied to
them, and those that the second adds. -/
theorem entries_compose (a b : Subst) :
    (a.compose b).entries = (a.entries.map fun e => (e.1, b.applyType e.2)) ++
      b.entries.filter fun e => e.1 ∉ a.keys := by
  have hkept : (a.entries.map fun e => (e.1, b.applyType e.2)).map Prod.fst = a.keys := by
    simp [keys]
  have hfirst : (ofList (a.entries.map fun e => (e.1, b.applyType e.2))).entries =
      a.entries.map fun e => (e.1, b.applyType e.2) := entries_ofList (hkept ▸ a.nodup)
  rw [compose, entries_foldl_insertNew b.nodup, keys, hfirst, hkept]

/-- **A composition looks in its first part, and in the second if the first has no entry.** -/
theorem get?_compose (a b : Subst) (v : TypeVarId) :
    (a.compose b).get? v = ((a.get? v).map b.applyType).or (b.get? v) := by
  rw [get?, entries_compose, List.lookup_append, lookup_map_snd]
  -- what the second part adds has no say where the first has an entry
  cases ha : a.get? v with
  | some t =>
      have ha' : a.entries.lookup v = some t := ha
      rw [ha']
      rfl
  | none =>
      have ha' : a.entries.lookup v = none := ha
      rw [ha', lookup_filter_fst (get?_eq_none_iff.mp ha)]
      rfl

/-! ## Types -/

theorem applyType_compose (a b : Subst) (t : Ty) :
    (a.compose b).applyType t = b.applyType (a.applyType t) := by
  induction t with
  | var v =>
      rw [applyType, applyType, get?_compose]
      cases a.get? v with
      | some t => rfl
      | none => rfl
  | array element ih => rw [applyType, applyType, applyType, ih]
  | _ => rfl

theorem applyTypes_compose (a b : Subst) (ts : List Ty) :
    (a.compose b).applyTypes ts = b.applyTypes (a.applyTypes ts) := by
  unfold applyTypes
  rw [List.map_map]
  exact List.map_congr_left fun t _ => applyType_compose a b t

theorem applyType_empty (t : Ty) : Subst.empty.applyType t = t := by
  induction t with
  | array element ih => rw [applyType, ih]
  | _ => rfl

/-! ## Signatures -/

/-- The variable that a type is, if it is one. -/
def varOf? : Ty → Option TypeVarId
  | .var v => some v
  | _ => none

/-- A type parameter survives if a variable takes its place. -/
theorem applyParam_eq (s : Subst) (v : TypeVarId) :
    s.applyParam v = varOf? (s.applyType (.var v)) := by
  unfold applyParam
  rw [applyType]
  cases s.get? v with
  | none => rfl
  | some t => cases t <;> rfl

/-- What is no variable does not become one. -/
theorem varOf?_applyType (s : Subst) (t : Ty) :
    varOf? (s.applyType t) = (varOf? t).bind s.applyParam := by
  cases t with
  | var v => exact (applyParam_eq s v).symm
  | _ => rfl

theorem applyParam_compose (a b : Subst) (v : TypeVarId) :
    (a.compose b).applyParam v = (a.applyParam v).bind b.applyParam := by
  rw [applyParam_eq, applyType_compose, varOf?_applyType, ← applyParam_eq]

theorem applyMethod_compose (a b : Subst) (m : Method) :
    (a.compose b).applyMethod m = b.applyMethod (a.applyMethod m) := by
  have hparams : m.typeParams.filterMap (a.compose b).applyParam =
      (m.typeParams.filterMap a.applyParam).filterMap b.applyParam := by
    rw [List.filterMap_filterMap]
    exact List.filterMap_congr fun v _ => applyParam_compose a b v
  unfold applyMethod
  rw [applyTypes_compose, applyType_compose, applyTypes_compose, hparams]

/-! ## Laws -/

theorem eq_of_entries {a b : Subst} (h : a.entries = b.entries) : a = b := by
  obtain ⟨as, has⟩ := a
  obtain ⟨bs, hbs⟩ := b
  obtain rfl : as = bs := h
  rfl

theorem mem_keys_compose {a b : Subst} {v : TypeVarId} :
    v ∈ (a.compose b).keys ↔ v ∈ a.keys ∨ v ∈ b.keys := by
  rw [← not_iff_not, not_or, ← get?_eq_none_iff, ← get?_eq_none_iff, ← get?_eq_none_iff,
    get?_compose, Option.or_eq_none_iff, Option.map_eq_none_iff]

theorem compose_assoc (a b c : Subst) :
    (a.compose b).compose c = a.compose (b.compose c) := by
  apply eq_of_entries
  -- the entries of `a`, then the new ones of `b`, then the new ones of `c`
  have hfirst : (a.entries.map fun e => (e.1, b.applyType e.2)).map
      (fun e => (e.1, c.applyType e.2)) =
        a.entries.map fun e => (e.1, (b.compose c).applyType e.2) := by
    rw [List.map_map]
    exact List.map_congr_left fun e _ => by simp [applyType_compose]
  have hsecond : (b.entries.filter fun e => e.1 ∉ a.keys).map (fun e => (e.1, c.applyType e.2)) =
      (b.entries.map fun e => (e.1, c.applyType e.2)).filter fun e => e.1 ∉ a.keys := by
    rw [List.filter_map]
    rfl
  have hthird : (c.entries.filter fun e => e.1 ∉ (a.compose b).keys) =
      (c.entries.filter fun e => e.1 ∉ b.keys).filter fun e => e.1 ∉ a.keys := by
    rw [List.filter_filter]
    exact List.filter_congr fun e _ => by simp [mem_keys_compose]
  rw [entries_compose, entries_compose, entries_compose, entries_compose, List.map_append,
    List.filter_append, hfirst, hsecond, hthird, List.append_assoc]

theorem empty_compose (a : Subst) : Subst.empty.compose a = a := by
  apply eq_of_entries
  rw [entries_compose]
  simp [keys, Subst.empty]

theorem compose_empty (a : Subst) : a.compose Subst.empty = a := by
  apply eq_of_entries
  have hnone : Subst.empty.entries = [] := rfl
  rw [entries_compose, hnone, List.filter_nil, List.append_nil]
  simp [applyType_empty]

/--
**Substitutions form a monoid that acts on types and on signatures.** A composition
acts as its first part followed by its second, on the type parameters of a signature
too; composing three substitutions either way gives the same entries in the same order;
and the substitution without entries is neutral on both sides.
-/
theorem subst_monoid_action (a b c : Subst) :
    (∀ t, (a.compose b).applyType t = b.applyType (a.applyType t)) ∧
    (∀ m, (a.compose b).applyMethod m = b.applyMethod (a.applyMethod m)) ∧
    (a.compose b).compose c = a.compose (b.compose c) ∧
    Subst.empty.compose a = a ∧ a.compose Subst.empty = a :=
  ⟨applyType_compose a b, applyMethod_compose a b, compose_assoc a b c, empty_compose a,
    compose_empty a⟩

end Lineage.Proofs
