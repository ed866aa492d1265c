import Lineage.Proofs.Atomicity
import Lineage.Proofs.BoundChain
import Lineage.Proofs.Comparison
import Lineage.Proofs.ErasureCache

/-!
# Erased signatures

There are two ways to erase a signature. One goes through its types and erases each of
them. The other is to compute the erasures of all type parameters in advance, those of
the class and those of the method, and to put them into the signature; those of the class
are taken from a cache. The second way is the one that calls use.

Both give the same signature, as long as its types mention no other variables. Every
image of the computed substitution is an erasure, so there is no variable left in it, and
the erasures of the method's variables have nothing to replace in those of the class. For
the same reason it does not matter if a variable stands in both lists, or twice in one.
-/

namespace Lineage.Proofs

open Store Subst

/-! ## Substitutions that erase -/

/-- Every type that the substitution enters is the erasure of its variable, and it enters one for
each of these variables. -/
structure Erases (env : Env) (vs : List TypeVarId) (subst : Subst) : Prop where
  image : ∀ {v u}, subst.get? v = some u → env.erase (.var v) = .ok u
  covers : ∀ v ∈ vs, ∃ u, subst.get? v = some u

section Entries

variable {env : Env} {vs : List TypeVarId} {entries : List (TypeVarId × Ty)}

theorem erasureEntries_fst (h : env.erasureEntries vs = .ok entries) :
    entries.map Prod.fst = vs := by
  induction vs generalizing entries with
  | nil =>
      cases h
      rfl
  | cons v vs ih =>
      obtain ⟨erased, -, h⟩ := bind_eq_ok_iff.mp h
      obtain ⟨others, hothers, h⟩ := bind_eq_ok_iff.mp h
      cases h
      rw [List.map_cons, ih hothers]

theorem erase_of_mem_erasureEntries (h : env.erasureEntries vs = .ok entries) {v : TypeVarId}
    {u : Ty} (hmem : (v, u) ∈ entries) : env.erase (.var v) = .ok u := by
  induction vs generalizing entries with
  | nil =>
      cases h
      cases hmem
  | cons w vs ih =>
      obtain ⟨erased, herased, h⟩ := bind_eq_ok_iff.mp h
      obtain ⟨others, hothers, h⟩ := bind_eq_ok_iff.mp h
      cases h
      rcases List.mem_cons.mp hmem with heq | hmem
      · cases heq
        exact herased
      · exact ih hothers hmem

end Entries

section Erases

variable {env : Env} {vs ws : List TypeVarId} {a b : Subst}

/-- A list may name a variable twice, and then enters the same type twice. -/
theorem erases_erasureSubst (h : env.erasureSubst vs = .ok a) : Erases env vs a := by
  obtain ⟨entries, hentries, h⟩ := bind_eq_ok_iff.mp h
  cases h
  constructor
  · intro v u hget
    rw [get?_ofList] at hget
    obtain ⟨before, rest, heq, -⟩ := List.lookup_eq_some_iff.mp hget
    have hmem : (v, u) ∈ entries.reverse := by simp [heq]
    exact erase_of_mem_erasureEntries hentries (List.mem_reverse.mp hmem)
  · intro v hv
    rw [← erasureEntries_fst hentries] at hv
    obtain ⟨⟨v, u⟩, hmem, rfl⟩ := List.mem_map.mp hv
    -- listed twice, the variable is entered twice, with one erasure
    refine ⟨u, get?_ofList_of_mem hmem fun u' hmem' => ?_⟩
    have hu := erase_of_mem_erasureEntries hentries hmem
    have hu' := erase_of_mem_erasureEntries hentries hmem'
    exact Except.ok.inj (hu'.symm.trans hu)

theorem applyType_of_ground {t : Ty} (h : Ground t) : a.applyType t = t := by
  induction t with
  | var v => exact absurd rfl (h v)
  | array t ih => rw [applyType, ih (ground_array.mp h)]
  | _ => rfl

/-- Nothing is left to replace in an erasure. -/
theorem Erases.compose (ha : Erases env vs a) (hb : Erases env ws b) :
    Erases env (vs ++ ws) (a.compose b) := by
  -- the second part finds no variable in what the first has entered
  have hget : ∀ v, (a.compose b).get? v = (a.get? v).or (b.get? v) := by
    intro v
    rw [get?_compose]
    cases hv : a.get? v with
    | none => rfl
    | some u => rw [Option.map_some, applyType_of_ground (ground_of_erase (ha.image hv))]
  constructor
  · intro v u hu
    rw [hget, Option.or_eq_some_iff] at hu
    rcases hu with hu | ⟨-, hu⟩
    · exact ha.image hu
    · exact hb.image hu
  · intro v hv
    rw [hget]
    cases hav : a.get? v with
    | some u => exact ⟨u, rfl⟩
    | none =>
        rcases List.mem_append.mp hv with hv | hv
        · obtain ⟨u, hu⟩ := ha.covers v hv
          rw [hav] at hu
          cases hu
        · exact hb.covers v hv

/-- **To replace each variable by its erasure is to erase the type.** -/
theorem Erases.erase_eq (ha : Erases env vs a) {t : Ty} (ht : ∀ v, Mentions t v → v ∈ vs) :
    env.erase t = .ok (a.applyType t) := by
  induction t with
  | var v =>
      obtain ⟨u, hu⟩ := ha.covers v (ht v rfl)
      rw [ha.image hu, applyType, hu]
      rfl
  | array t ih => rw [erase_array, ih ht, map_ok, applyType]
  | _ => exact erase_of_ground (by intro v hv; cases hv)

theorem Erases.erases_eq (ha : Erases env vs a) {ts : List Ty}
    (hts : ∀ t ∈ ts, ∀ v, Mentions t v → v ∈ vs) :
    ts.mapM env.erase = .ok (a.applyTypes ts) := by
  rw [mapM_eq_ok_iff, applyTypes, List.forall₂_map_right_iff, List.forall₂_same]
  exact fun t ht => ha.erase_eq (hts t ht)

/-- A type parameter whose place is taken by an erasure disappears. -/
theorem Erases.applyParam_eq_none (ha : Erases env vs a) {v : TypeVarId} (hv : v ∈ vs) :
    a.applyParam v = none := by
  obtain ⟨u, hu⟩ := ha.covers v hv
  have hground := ground_of_erase (ha.image hu)
  rw [applyParam, hu]
  cases u with
  | var w => exact absurd rfl (hground w)
  | _ => rfl

end Erases

/-! ## Signatures -/

/-- The types that a signature is made of. -/
def signatureTypes (m : Method) : List Ty := m.params ++ m.returnType :: m.throws

/-- A substitution that covers all variables of a signature erases it type by type. -/
theorem Erases.applyMethod_erases {env : Env} {vs : List TypeVarId} {subst : Subst}
    (h : Erases env vs subst) {m : Method}
    (hcovered : ∀ u ∈ signatureTypes m, ∀ v, Mentions u v → v ∈ vs)
    (hparams : ∀ v ∈ m.typeParams, v ∈ vs) :
    m.params.mapM env.erase = .ok (subst.applyMethod m).params ∧
    env.erase m.returnType = .ok (subst.applyMethod m).returnType ∧
    m.throws.mapM env.erase = .ok (subst.applyMethod m).throws ∧
    (∀ u ∈ signatureTypes (subst.applyMethod m), Ground u) ∧
    (subst.applyMethod m).typeParams = [] := by
  have htypes : signatureTypes (subst.applyMethod m) =
      (signatureTypes m).map subst.applyType := by
    simp [signatureTypes, applyMethod, applyTypes]
  refine ⟨?_, ?_, ?_, ?_, ?_⟩
  · exact h.erases_eq fun u hu => hcovered u (by simp [signatureTypes, hu])
  · exact h.erase_eq (hcovered m.returnType (by simp [signatureTypes]))
  · exact h.erases_eq fun u hu => hcovered u (by simp [signatureTypes, hu])
  · rw [htypes]
    -- each type of the new signature is the erasure of one of the old
    intro u' hu'
    obtain ⟨u, hu, rfl⟩ := List.mem_map.mp hu'
    exact ground_of_erase (h.erase_eq (hcovered u hu))
  · exact List.filterMap_eq_nil_iff.mpr fun v hv => h.applyParam_eq_none (hparams v hv)

/-- The signature is erased by one substitution for the variables of the class and the method. -/
theorem erasedSignature_eq_ok {env : Env} {cache : ErasureCache} (hcache : Current cache env)
    {m e : Method} (h : ((CallRule.erasedSignature env m).run.run cache).1 = .ok e) :
    ∃ c subst, env.classDef? m.container = some c ∧
      Erases env (c.typeParams ++ m.typeParams) subst ∧ e = subst.applyMethod m := by
  rw [((current_supplies env).erasedSignature m cache hcache).1, erasedBy, answer_bind,
    answer_ofExcept] at h
  obtain ⟨ofClass, hclass, h⟩ := bind_eq_ok_iff.mp h
  obtain ⟨c, hc, hsubst⟩ := compute_eq_ok_iff.mp hclass
  have herases := erases_erasureSubst hsubst
  rw [answer_ite] at h
  split at h
  · rename_i hempty
    cases h
    -- without type parameters of its own, the method needs the class only
    refine ⟨c, ofClass, hc, ?_, rfl⟩
    rw [List.isEmpty_iff.mp hempty, List.append_nil]
    exact herases
  · rw [answer_bind, answer_ofExcept] at h
    obtain ⟨ofMethod, hmethod, h⟩ := bind_eq_ok_iff.mp h
    cases h
    exact ⟨c, ofClass.compose ofMethod, hc, herases.compose (erases_erasureSubst hmethod), rfl⟩

theorem reachable_useAll {t : Session} (h : Reachable t.store) (us : List Use) :
    Reachable (t.useAll us).store := by
  induction us generalizing t with
  | nil => exact h
  | cons u us ih =>
      refine ih ?_
      cases u with
      | change c => exact Reachable.tail c h
      | _ => exact h

/-- A method with a variable number of parameters is declared with an array at the end. -/
theorem wellFormed_of_reachable {s : Store} (hs : Reachable s) {id : MethodId} {m : Method}
    (hm : s.method? id = some m) : WellFormed m := by
  -- the method was checked when it was declared, and nothing changes it later
  obtain ⟨className, container, d, hcheck, -, rfl⟩ := methodsDeclared_reachable hs hm
  intro hvar
  obtain ⟨element, hlast⟩ := (checkMethodDecl_eq_ok_iff.mp hcheck).1 hvar
  exact ⟨d.params.dropLast, element, (List.dropLast_append_getLast? _ hlast).symm⟩

/--
**A signature that is erased by substitution is erased type by type.** The cache has
served only this store, in any session that began with an empty cache, and the method is
one of the store, whose types mention type parameters of its own or of its class. The
erased signature then has the erasures of the declared types, none of which mentions a
variable, and no type parameters. It still ends with an array if the number of parameters
is variable, and everything else about the method has stayed as it was.
-/
theorem erasedSignature_eq_erasure {s : Store} (hs : Reachable s) (us : List Use) :
    let t := Session.useAll { store := s } us
    ∀ {id : MethodId} {m e : Method}, t.store.method? id = some m →
      (∀ u ∈ signatureTypes m, ∀ v, Mentions u v →
        v ∈ m.typeParams ∨ ∃ c, t.store.classDef? m.container = some c ∧ v ∈ c.typeParams) →
      ((CallRule.erasedSignature t.store.env m).run.run t.cache).1 = .ok e →
        m.params.mapM t.store.env.erase = .ok e.params ∧
        t.store.env.erase m.returnType = .ok e.returnType ∧
        m.throws.mapM t.store.env.erase = .ok e.throws ∧
        (∀ u ∈ signatureTypes e, Ground u) ∧
        e.typeParams = [] ∧
        (m.isVarargs = true → ∃ fixed element, e.params = fixed ++ [.array element]) ∧
        e = { m with params := e.params, returnType := e.returnType, throws := e.throws,
                     typeParams := e.typeParams } := by
  intro t id m e hm hvars h
  have hempty : Current ({} : ErasureCache) s.env := by
    intro id subst hmem
    cases hmem
  have hcurrent : Current t.cache t.store.env := current_useAll hempty us
  obtain ⟨c, subst, hc, herases, rfl⟩ := erasedSignature_eq_ok hcurrent h
  have hcovered : ∀ u ∈ signatureTypes m, ∀ v, Mentions u v → v ∈ c.typeParams ++ m.typeParams := by
    intro u hu v hv
    -- a variable of the method or of the class that holds it, which is the one erased
    rcases hvars u hu v hv with hown | ⟨c', hc', hclass⟩
    · exact List.mem_append_right _ hown
    · cases hc.symm.trans hc'
      exact List.mem_append_left _ hclass
  obtain ⟨hparams, hreturn, hthrows, hground, hnone⟩ :=
    herases.applyMethod_erases hcovered fun v => List.mem_append_right _
  have hvarargs := (wellFormed_of_reachable (reachable_useAll hs us) hm).applyMethod subst
  exact ⟨hparams, hreturn, hthrows, hground, hnone, hvarargs, rfl⟩

/-- Takes any number of values that fit into the box, returns them and may fail in a way of its
own. -/
def fillDecl : MethodDecl :=
  { name := "fill", flags := .varargs, returnType := .array (.var ⟨1⟩),
    params := [.var ⟨0⟩, .array (.var ⟨1⟩)], throws := [.var ⟨2⟩], typeParams := [⟨1⟩, ⟨2⟩] }

/-- The variable of the box is bounded by a class, one variable of the method by that of the box.
The erasure of the box is remembered, and the store goes on growing. -/
def fillSession : List Use :=
  [.change (.addTypeParam { name := "T", bound := some (.cls wellKnownIds.number) }),
   .change (.addTypeParam { name := "U", bound := some (.var ⟨0⟩) }),
   .change (.addTypeParam { name := "X", bound := some (.cls wellKnownIds.exception) }),
   .change (.addClass { name := "p.Box", typeParams := [⟨0⟩], methods := [fillDecl] }),
   .classErasure ⟨12⟩, .change (.intern "p.Late")]

theorem erasedSignature_eq_erasure_fill :
    let t := Session.useAll { store := Store.builtin } fillSession
    let number : Ty := .cls wellKnownIds.number
    let m := methodOf ⟨5⟩ ⟨12⟩ fillDecl
    let e : Method :=
      { m with
        params := [number, .array number], returnType := .array number,
        throws := [.cls wellKnownIds.exception], typeParams := [] }
    (t.store.method? ⟨5⟩ = some m ∧ (t.cache.get? ⟨12⟩).isSome = true ∧ m.isVarargs = true ∧
      (∀ u ∈ signatureTypes m, ∀ v, Mentions u v →
        v ∈ m.typeParams ∨ ∃ c, t.store.classDef? m.container = some c ∧ v ∈ c.typeParams) ∧
      ((CallRule.erasedSignature t.store.env m).run.run t.cache).1 = .ok e) ∧
      m.params.mapM t.store.env.erase = .ok e.params ∧
      t.store.env.erase m.returnType = .ok e.returnType ∧
      m.throws.mapM t.store.env.erase = .ok e.throws ∧
      (∀ u ∈ signatureTypes e, Ground u) ∧
      ∃ fixed element, e.params = fixed ++ [.array element] := by
  intro t number m e
  have hm : t.store.method? ⟨5⟩ = some m := by decide
  have hcached : (t.cache.get? ⟨12⟩).isSome = true := by decide
  have hflag : m.isVarargs = true := by decide
  have hclass : (t.store.classDef? m.container).map (·.typeParams) = some [⟨0⟩] := by decide
  have hrun : ((CallRule.erasedSignature t.store.env m).run.run t.cache).1 = .ok e := by decide
  have hmentioned : ∀ u ∈ signatureTypes m, u.innermost ∈ [Ty.var ⟨0⟩, .var ⟨1⟩, .var ⟨2⟩] := by
    decide
  have hvars : ∀ u ∈ signatureTypes m, ∀ v, Mentions u v →
      v ∈ m.typeParams ∨ ∃ c, t.store.classDef? m.container = some c ∧ v ∈ c.typeParams := by
    intro u hu v hv
    obtain ⟨c, hc, hparams⟩ := Option.map_eq_some_iff.mp hclass
    have hmem := hmentioned u hu
    rw [show u.innermost = .var v from hv] at hmem
    simp only [List.mem_cons, List.not_mem_nil, or_false, Ty.var.injEq] at hmem
    rcases hmem with rfl | rfl | rfl
    · exact .inr ⟨c, hc, by simp [hparams]⟩
    · exact .inl (by decide)
    · exact .inl (by decide)
  obtain ⟨hparams, hreturn, hthrows, hground, -, hvarargs, -⟩ :=
    erasedSignature_eq_erasure Reachable.builtin fillSession hm hvars hrun
  exact ⟨⟨hm, hcached, hflag, hvars, hrun⟩, hparams, hreturn, hthrows, hground, hvarargs hflag⟩

end Lineage.Proofs
