import Lineage.Override
import Lineage.Proofs.Composition
import Lineage.Proofs.Registry
import Mathlib.Data.List.Induction

/-!
# Override-equivalence is an equivalence relation

Override-equivalence is asked from one side. The type parameters of the second method
are renamed to those of the first, position by position, and then the two must take the
same parameters; the variables of the first method stay as they are. So it has to be
shown that a renaming can be taken back, and that two of them make one.

Two things could prevent this. A renaming could send two variables to one, if a method
listed a variable twice. And a variable could be caught on the way: one that the second
method mentions without declaring it, and that happens to be a type parameter of the
first. It stays as it is in one direction and is renamed in the other.

A store rules out both. The variables that a method lists are different, and they belong
to the method (`OwnersAgree`), so only a variable of another method can be caught.
-/

namespace Lineage.Proofs

open Store Subst

/-! ## Looking up what was entered -/

theorem lookup_replace (v : TypeVarId) (t : Ty) (entries : List (TypeVarId × Ty))
    (w : TypeVarId) :
    (replace v t entries).lookup w =
      if w = v then (entries.lookup w).map fun _ => t else entries.lookup w := by
  unfold replace
  induction entries with
  | nil => simp
  | cons e rest ih =>
      obtain ⟨x, u⟩ := e
      rw [List.map_cons, List.lookup_cons, List.lookup_cons, ih]
      -- only entries for `v` change, and only their types
      by_cases hw : w = v
      · subst hw
        by_cases hx : x = w
        · simp [hx]
        · have hne : (w == x) = false := beq_false_of_ne fun h => hx h.symm
          simp [hx, hne]
      · by_cases hx : x = v
        · subst hx
          simp [hw, beq_false_of_ne hw]
        · simp [hx, hw]

theorem get?_insert (s : Subst) (v : TypeVarId) (t : Ty) (w : TypeVarId) :
    (s.insert v t).get? w = if w = v then some t else s.get? w := by
  unfold Subst.insert
  split
  · rename_i hv
    show (replace v t s.entries).lookup w = _
    rw [lookup_replace]
    by_cases hw : w = v
    · subst hw
      -- the entry is there already and is overwritten in its place
      obtain ⟨u, hu⟩ := Option.ne_none_iff_exists'.mp fun hnone => get?_eq_none_iff.mp hnone hv
      have hu' : s.entries.lookup w = some u := hu
      rw [if_pos rfl, if_pos rfl, hu']
      rfl
    · rw [if_neg hw, if_neg hw]
      rfl
  · rename_i hv
    show (s.entries ++ [(v, t)]).lookup w = _
    -- a new entry comes last, where an old one for another variable cannot hide it
    rw [List.lookup_append]
    by_cases hw : w = v
    · subst hw
      have hnone : s.entries.lookup w = none := get?_eq_none_iff.mpr hv
      simp [hnone]
    · have hne : (w == v) = false := beq_false_of_ne hw
      simp [hw, hne, List.lookup_cons, get?]

/-- A later entry for the same variable wins. -/
theorem get?_ofList (entries : List (TypeVarId × Ty)) (v : TypeVarId) :
    (ofList entries).get? v = entries.reverse.lookup v := by
  induction entries using List.reverseRecOn with
  | nil => rfl
  | append_singleton entries e ih =>
      unfold ofList at ih ⊢
      rw [List.foldl_append, List.foldl_cons, List.foldl_nil, get?_insert, ih,
        List.reverse_append, List.reverse_singleton, List.singleton_append, List.lookup_cons]
      -- the last entry is the first one in reverse
      by_cases hv : v = e.1
      · simp [hv]
      · simp [hv, beq_false_of_ne hv]

theorem get?_ofList_of_mem {entries : List (TypeVarId × Ty)} {v : TypeVarId} {t : Ty}
    (hmem : (v, t) ∈ entries) (honly : ∀ u, (v, u) ∈ entries → u = t) :
    (ofList entries).get? v = some t := by
  rw [get?_ofList]
  cases hlook : entries.reverse.lookup v with
  | none =>
      rw [List.lookup_eq_none_iff] at hlook
      have hne := hlook (v, t) (List.mem_reverse.mpr hmem)
      simp at hne
  | some u =>
      obtain ⟨before, rest, heq, -⟩ := List.lookup_eq_some_iff.mp hlook
      have hu : (v, u) ∈ entries.reverse := by simp [heq]
      rw [honly u (List.mem_reverse.mp hu)]

/-! ## Variables that are mentioned -/

/-- The type is the variable, or an array of it. -/
def Mentions (t : Ty) (v : TypeVarId) : Prop := t.innermost = .var v

instance (t : Ty) (v : TypeVarId) : Decidable (Mentions t v) :=
  inferInstanceAs (Decidable (t.innermost = .var v))

/-! ## Renaming by position -/

/-- The variable that stands in the second list where `v` stands in the first. If `v` stands there
more than once, its last place counts. -/
def counterpart? : List TypeVarId → List TypeVarId → TypeVarId → Option TypeVarId
  | x :: source, y :: target, v =>
    (counterpart? source target v).or (if x = v then some y else none)
  | _, _, _ => none

/-- The type with the variables of the first list replaced by their counterparts in the second.
All else stays as it is. -/
def renameType (source target : List TypeVarId) : Ty → Ty
  | .var v => .var ((counterpart? source target v).getD v)
  | .array element => .array (renameType source target element)
  | t => t

section Positional

variable {a b d : List TypeVarId} {v w : TypeVarId}

theorem counterpart?_of_not_mem (hv : v ∉ a) : counterpart? a b v = none := by
  induction a generalizing b with
  | nil => rfl
  | cons x a ih =>
      cases b with
      | nil => rfl
      | cons y b =>
          rw [List.mem_cons, not_or] at hv
          rw [counterpart?, ih hv.2, if_neg (Ne.symm hv.1), Option.none_or]

/-- The variable at a position of the one list becomes the variable at that position of the
other. -/
theorem counterpart?_of_getElem? (ha : a.Nodup) {i : Nat} (hv : a[i]? = some v)
    (hw : b[i]? = some w) : counterpart? a b v = some w := by
  induction a generalizing b i with
  | nil => simp at hv
  | cons x a ih =>
      obtain ⟨hx, ha⟩ := List.nodup_cons.mp ha
      cases b with
      | nil => simp at hw
      | cons y b =>
          cases i with
          | zero =>
              -- this is the only place of the variable
              obtain rfl : x = v := by simpa using hv
              obtain rfl : y = w := by simpa using hw
              rw [counterpart?, counterpart?_of_not_mem hx, if_pos rfl, Option.none_or]
          | succ i =>
              rw [List.getElem?_cons_succ] at hv hw
              rw [counterpart?, ih ha hv hw, Option.some_or]

/-- A substitution by position replaces a variable by its counterpart. -/
theorem get?_positional : (positional a b).get? v = (counterpart? a b v).map .var := by
  unfold positional
  rw [get?_ofList]
  induction a generalizing b with
  | nil => rfl
  | cons x a ih =>
      cases b with
      | nil => rfl
      | cons y b =>
          rw [List.zip_cons_cons, List.map_cons, List.reverse_cons, List.lookup_append, ih,
            counterpart?, Option.map_or]
          -- the rest of the lists comes first on both sides, so a later place wins
          congr 1
          by_cases hx : x = v
          · simp [hx]
          · simp [hx, List.lookup_cons, beq_false_of_ne (Ne.symm hx)]

theorem applyType_positional (t : Ty) : (positional a b).applyType t = renameType a b t := by
  induction t with
  | var v =>
      rw [applyType, get?_positional, renameType]
      cases counterpart? a b v <;> rfl
  | array element ih => rw [applyType, renameType, ih]
  | _ => rfl

/-- **Two renamings make one**, unless a variable is caught in the middle. -/
theorem renameType_trans (ha : a.Nodup) (hb : b.Nodup) (hab : a.length = b.length)
    (hbd : b.length = d.length) {t : Ty} (hcatch : ∀ v, Mentions t v → v ∈ b → v ∈ a) :
    renameType b d (renameType a b t) = renameType a d t := by
  induction t with
  | var v =>
      rw [renameType, renameType, renameType]
      by_cases hmem : v ∈ a
      · obtain ⟨i, hi⟩ := List.mem_iff_getElem?.mp hmem
        have hlt : i < a.length := (List.getElem?_eq_some_iff.mp hi).1
        have hbi : b[i]? = some b[i] := List.getElem?_eq_getElem (by omega)
        have hdi : d[i]? = some d[i] := List.getElem?_eq_getElem (by omega)
        rw [counterpart?_of_getElem? ha hi hbi, counterpart?_of_getElem? ha hi hdi,
          Option.getD_some, counterpart?_of_getElem? hb hbi hdi]
        rfl
      · -- it stays, and so it must not be one of those in the middle
        have hb' : v ∉ b := fun h => hmem (hcatch v rfl h)
        rw [counterpart?_of_not_mem hmem, counterpart?_of_not_mem hmem, Option.getD_none,
          counterpart?_of_not_mem hb', Option.getD_none]
  | array element ih =>
      rw [renameType, renameType, renameType, ih hcatch]
  | _ => rfl

theorem renameType_self (ha : a.Nodup) (t : Ty) : renameType a a t = t := by
  induction t with
  | var v =>
      rw [renameType]
      by_cases hmem : v ∈ a
      · obtain ⟨i, hi⟩ := List.mem_iff_getElem?.mp hmem
        rw [counterpart?_of_getElem? ha hi hi, Option.getD_some]
      · rw [counterpart?_of_not_mem hmem, Option.getD_none]
  | array element ih => rw [renameType, ih]
  | _ => rfl

end Positional

/-! ## Aligned methods -/

theorem applyMethod_empty (m : Method) : Subst.empty.applyMethod m = m := by
  have htypes : ∀ ts, Subst.empty.applyTypes ts = ts := by
    intro ts
    rw [applyTypes, List.map_congr_left fun t _ => applyType_empty t, List.map_id']
  have hparams : m.typeParams.filterMap Subst.empty.applyParam = m.typeParams :=
    List.filterMap_some
  rw [applyMethod, htypes, htypes, applyType_empty, hparams]

/-- A method without type parameters is aligned by a renaming as well, of no variables. -/
theorem alignTo_eq (mi mj : Method) :
    mj.alignTo mi = (positional mj.typeParams mi.typeParams).applyMethod mj := by
  unfold Method.alignTo
  split
  · rename_i hempty
    rw [List.isEmpty_iff.mp hempty]
    exact (applyMethod_empty mj).symm
  · rfl

theorem alignTo_params (mi mj : Method) :
    (mj.alignTo mi).params = mj.params.map (renameType mj.typeParams mi.typeParams) := by
  rw [alignTo_eq]
  exact List.map_congr_left fun t _ => applyType_positional t

theorem alignTo_returnType (mi mj : Method) :
    (mj.alignTo mi).returnType = renameType mj.typeParams mi.typeParams mj.returnType := by
  rw [alignTo_eq]
  exact applyType_positional mj.returnType

theorem alignTo_throws (mi mj : Method) :
    (mj.alignTo mi).throws = mj.throws.map (renameType mj.typeParams mi.typeParams) := by
  rw [alignTo_eq]
  exact List.map_congr_left fun t _ => applyType_positional t

/-- **What override-equivalence asks**: one name, as many type parameters, and the same parameters
after those of the second method have been renamed. -/
theorem overrideEquivalent_iff_renamed {mi mj : Method} :
    mi.overrideEquivalent mj = true ↔
      mi.name = mj.name ∧ mi.typeParams.length = mj.typeParams.length ∧
        mi.params = mj.params.map (renameType mj.typeParams mi.typeParams) := by
  rw [Method.overrideEquivalent, Method.sameParams, alignTo_params]
  simp [and_assoc]

/-! ## Methods of a store -/

/-- A method of the store whose parameters mention no variable that belongs to another method. -/
structure SelfContained (s : Store) (m : Method) : Prop where
  stored : ∃ id, s.method? id = some m
  formals : ∀ t ∈ m.params, ∀ v, Mentions t v → ∀ p, s.typeParam? v = some p →
    ∀ id, p.owner = some (.method id) → id = m.id

/-- The owner of the variable in a parameter, if it is a method, is this one. -/
def keepsToItself (s : Store) (m : Method) : Bool :=
  m.params.all fun t =>
    match t.innermost with
    | .var v =>
      match (s.typeParam? v).bind (·.owner) with
      | some (.method id) => id = m.id
      | _ => true
    | _ => true

theorem selfContained_of_keepsToItself {s : Store} {m : Method} {id : MethodId}
    (hm : s.method? id = some m) (h : keepsToItself s m = true) : SelfContained s m where
  stored := ⟨id, hm⟩
  formals := by
    intro t ht v hv p hp k howner
    have hcheck := List.all_eq_true.mp h t ht
    have hinner : t.innermost = .var v := hv
    simpa [hinner, hp, howner] using hcheck

section Store

variable {s : Store} (hs : Reachable s)

include hs

theorem SelfContained.method?_eq {m : Method} (h : SelfContained s m) :
    s.method? m.id = some m := by
  obtain ⟨id, hm⟩ := h.stored
  rw [(registry_reachable hs).members.method_id hm]
  exact hm

theorem SelfContained.nodup {m : Method} (h : SelfContained s m) : m.typeParams.Nodup := by
  obtain ⟨id, hm⟩ := h.stored
  obtain ⟨-, -, d, -, hdistinct, rfl⟩ := methodsDeclared_reachable hs hm
  exact hdistinct

/-- **No variable is caught**: a type parameter of any method that is mentioned by this one is a
type parameter of this one. -/
theorem SelfContained.not_caught {m m' : Method} (h : SelfContained s m)
    (h' : SelfContained s m') {t : Ty} (ht : t ∈ m.params) {v : TypeVarId} (hv : Mentions t v)
    (hmem : v ∈ m'.typeParams) : v ∈ m.typeParams := by
  have hm' := h'.method?_eq hs
  have hdecl : Declares s v (.method m'.id) := ⟨m', hm', hmem⟩
  obtain ⟨p, hp, howner⟩ := (registry_reachable hs).owners hdecl
  -- the variable belongs to `m'`, and only `m` may own what `m` mentions
  have hid : m'.id = m.id := h.formals t ht v hv p hp m'.id howner
  rw [hid, h.method?_eq hs] at hm'
  rw [Option.some.inj hm']
  exact hmem

/-- Renaming a method's parameters to a second method's variables, and then to those of a third, is
renaming them to the third method's at once. -/
theorem SelfContained.rename_trans {m m' : Method} (h : SelfContained s m)
    (h' : SelfContained s m') (hlen : m.typeParams.length = m'.typeParams.length)
    {vs : List TypeVarId} (hvs : m'.typeParams.length = vs.length) :
    (m.params.map (renameType m.typeParams m'.typeParams)).map (renameType m'.typeParams vs) =
      m.params.map (renameType m.typeParams vs) := by
  rw [List.map_map]
  refine List.map_congr_left fun t ht => ?_
  exact renameType_trans (h.nodup hs) (h'.nodup hs) hlen hvs
    fun v hv hmem => h.not_caught hs h' ht hv hmem

theorem SelfContained.rename_self {m : Method} (h : SelfContained s m) :
    m.params.map (renameType m.typeParams m.typeParams) = m.params := by
  rw [List.map_congr_left fun t _ => renameType_self (h.nodup hs) t, List.map_id']

end Store

/--
**Override-equivalence is an equivalence relation** on the methods of every reachable
store whose parameters mention no variable that belongs to another method. They may
mention variables of classes, variables that belong to nobody and variables that do not
exist.
-/
theorem overrideEquivalent_equivalence {s : Store} (hs : Reachable s) :
    Equivalence fun a b : { m : Method // SelfContained s m } =>
      a.val.overrideEquivalent b.val = true where
  refl := by
    rintro ⟨m, hm⟩
    exact overrideEquivalent_iff_renamed.mpr ⟨rfl, rfl, (hm.rename_self hs).symm⟩
  symm := by
    rintro ⟨mi, hi⟩ ⟨mj, hj⟩ h
    obtain ⟨hname, hlen, hparams⟩ := overrideEquivalent_iff_renamed.mp h
    refine overrideEquivalent_iff_renamed.mpr ⟨hname.symm, hlen.symm, ?_⟩
    -- to the other method's variables and back
    have hback := hj.rename_trans hs hi hlen.symm hlen
    rw [hj.rename_self hs] at hback
    dsimp only at hparams ⊢
    rw [hparams, hback]
  trans := by
    rintro ⟨mi, hi⟩ ⟨mj, hj⟩ ⟨mk, hk⟩ h h'
    obtain ⟨hname, hlen, hparams⟩ := overrideEquivalent_iff_renamed.mp h
    obtain ⟨hname', hlen', hparams'⟩ := overrideEquivalent_iff_renamed.mp h'
    refine overrideEquivalent_iff_renamed.mpr
      ⟨hname.trans hname', hlen.trans hlen', ?_⟩
    dsimp only at hlen hlen' hparams hparams' ⊢
    -- the third method's variables are renamed twice, to those of the second first
    rw [hparams, hparams']
    exact hk.rename_trans hs hj hlen'.symm hlen.symm

/-- Takes a key, values and what the class with the variable `T` holds. -/
def putDecl (key value : TypeVarId) : MethodDecl :=
  { name := "put", returnType := .prim .void,
    params := [.var key, .array (.var value), .var ⟨0⟩], typeParams := [key, value] }

/-- The same, with the two variables listed the other way round. -/
def putSwapped (key value : TypeVarId) : MethodDecl :=
  { putDecl key value with typeParams := [value, key] }

/-- Three classes with such a method, each with variables of its own, and one with the variables
swapped. -/
def putsRun : List Change :=
  ["T", "A", "B", "C", "D", "E", "F", "G", "H"].map (fun name => .addTypeParam { name }) ++
    [.addClass { name := "p.Box", typeParams := [⟨0⟩], methods := [putDecl ⟨1⟩ ⟨2⟩] },
     .addClass { name := "p.Crate", methods := [putDecl ⟨3⟩ ⟨4⟩] },
     .addClass { name := "p.Chest", methods := [putDecl ⟨5⟩ ⟨6⟩, putSwapped ⟨7⟩ ⟨8⟩] }]

/-- The answers for three equivalent methods, and for one that is not equivalent to them. -/
theorem overrideEquivalent_equivalence_puts :
    let s := afterAll Store.builtin putsRun
    let m₁ := methodOf ⟨5⟩ ⟨12⟩ (putDecl ⟨1⟩ ⟨2⟩)
    let m₂ := methodOf ⟨6⟩ ⟨13⟩ (putDecl ⟨3⟩ ⟨4⟩)
    let m₃ := methodOf ⟨7⟩ ⟨14⟩ (putDecl ⟨5⟩ ⟨6⟩)
    let swapped := methodOf ⟨8⟩ ⟨14⟩ (putSwapped ⟨7⟩ ⟨8⟩)
    (Reachable s ∧ SelfContained s m₁ ∧ SelfContained s m₂ ∧ SelfContained s m₃ ∧
      SelfContained s swapped ∧
      m₁.overrideEquivalent m₂ = true ∧ m₂.overrideEquivalent m₃ = true ∧
      m₁.overrideEquivalent swapped = false) ∧
      m₁.overrideEquivalent m₁ = true ∧ m₂.overrideEquivalent m₁ = true ∧
      m₁.overrideEquivalent m₃ = true ∧ swapped.overrideEquivalent m₁ = false ∧
      m₂.overrideEquivalent swapped = false := by
  intro s m₁ m₂ m₃ swapped
  have hs : Reachable s := reachable_afterAll Reachable.builtin putsRun
  have hm₁ : s.method? ⟨5⟩ = some m₁ := by decide
  have h₁ := selfContained_of_keepsToItself hm₁ (by decide)
  have hm₂ : s.method? ⟨6⟩ = some m₂ := by decide
  have h₂ := selfContained_of_keepsToItself hm₂ (by decide)
  have hm₃ : s.method? ⟨7⟩ = some m₃ := by decide
  have h₃ := selfContained_of_keepsToItself hm₃ (by decide)
  have hm₄ : s.method? ⟨8⟩ = some swapped := by decide
  have h₄ := selfContained_of_keepsToItself hm₄ (by decide)
  have h₁₂ : m₁.overrideEquivalent m₂ = true := by decide
  have h₂₃ : m₂.overrideEquivalent m₃ = true := by decide
  have h₁₄ : m₁.overrideEquivalent swapped = false := by decide
  have hequiv := overrideEquivalent_equivalence hs
  have h₂₁ := hequiv.symm (x := ⟨m₁, h₁⟩) (y := ⟨m₂, h₂⟩) h₁₂
  refine ⟨⟨hs, h₁, h₂, h₃, h₄, h₁₂, h₂₃, h₁₄⟩, hequiv.refl ⟨m₁, h₁⟩, h₂₁, ?_, ?_, ?_⟩
  · exact hequiv.trans (x := ⟨m₁, h₁⟩) (y := ⟨m₂, h₂⟩) (z := ⟨m₃, h₃⟩) h₁₂ h₂₃
  · -- a yes one way would be a yes the other way
    refine Bool.eq_false_iff.mpr fun h => Bool.false_ne_true (h₁₄.symm.trans ?_)
    exact hequiv.symm (x := ⟨swapped, h₄⟩) (y := ⟨m₁, h₁⟩) h
  · -- and a yes from an equivalent method as well
    refine Bool.eq_false_iff.mpr fun h => Bool.false_ne_true (h₁₄.symm.trans ?_)
    exact hequiv.trans (x := ⟨m₁, h₁⟩) (y := ⟨m₂, h₂⟩) (z := ⟨swapped, h₄⟩) h₁₂ h

end Lineage.Proofs
