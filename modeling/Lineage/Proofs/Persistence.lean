import Lineage.CommonAncestor
import Lineage.Proofs.Assignability
import Lineage.Proofs.Resolution

/-!
# Answers stay as a store grows

A store only grows, but a question could still be answered differently later: walks
look at classes that may be undefined now and defined then, a name may be given to
another class, and some walks give up after a number of rounds that depends on the
store. What is shown here is that none of this touches an answer that has been given.
An answer was computed from definitions, bounds and resolved links alone, and all of
these are still there.

Every walk is compared with itself in a larger environment. The comparison follows
the code of the walk, one lemma for each function, and says that whatever the first
run answers the second run answers too (`Persists`). Failures may turn into answers,
and two walks make use of that: a chain that was broken may now go on, and a cast may
unfold more bounds.

The single place where growth can change an answer is a name without a dot. It means
a class of the package that every source imports only as long as no class has the
name itself. `Unshadowed` rules that out.
-/

namespace Lineage.Proofs

open Store

/-! ## Bounds that stay -/

/-- What `env` knows of bounds, `env'` knows too, and walks along them are as long. -/
structure BoundsGrow (env env' : Env) : Prop where
  depthLimit : env'.depthLimit = env.depthLimit
  varCount : env.varCount ≤ env'.varCount
  bound : ∀ {v p}, env.typeParam? v = some p →
    ∃ p', env'.typeParam? v = some p' ∧ p'.bound = p.bound

namespace BoundsGrow

variable {env env' : Env} (h : BoundsGrow env env')

include h

theorem boundOf (v : TypeVarId) : Persists (env.boundOf v) (env'.boundOf v) := by
  intro t ht
  obtain ⟨p, hp, rfl⟩ := boundOf_eq_ok_iff.mp ht
  obtain ⟨p', hp', hbound⟩ := h.bound hp
  exact boundOf_eq_ok_iff.mpr ⟨p', hp', hbound⟩

theorem boundFrom (whole : Ty) (n : Nat) (t : Ty) :
    Persists (env.boundFrom whole n t) (env'.boundFrom whole n t) := by
  induction n generalizing t with
  | zero =>
      cases t with
      | var v => exact persists_error _ _
      | _ => exact Persists.refl _
  | succ n ih =>
      cases t with
      | var v =>
          rw [Env.boundFrom, Env.boundFrom]
          exact (h.boundOf v).bind fun bound _ => ih bound
      | _ => exact Persists.refl _

theorem upperBound (t : Ty) : Persists (env.upperBound t) (env'.upperBound t) := by
  unfold Env.upperBound
  rw [h.depthLimit]
  exact h.boundFrom t env.depthLimit t

end BoundsGrow

/-! ## Environments that grow -/

/-- What `env` knows, `env'` knows too. -/
structure EnvGrows (env env' : Env) : Prop where
  wellKnown : env'.wellKnown = env.wellKnown
  depthLimit : env'.depthLimit = env.depthLimit
  varCount : env.varCount ≤ env'.varCount
  defines : ∀ {id c}, env.classDef? id = some c → env'.classDef? id = some c
  method : ∀ {id m}, env.method? id = some m → env'.method? id = some m
  bound : ∀ {v p}, env.typeParam? v = some p →
    ∃ p', env'.typeParam? v = some p' ∧ p'.bound = p.bound
  /-- The links of the classes that `env` knows lead where they led. -/
  link : ∀ {id c link}, env.classDef? id = some c → link ∈ c.superclass.toList ++ c.interfaces →
    Persists (env.resolveLink link) (env'.resolveLink link)

namespace EnvGrows

variable {env env' : Env} (h : EnvGrows env env')

include h

theorem objectType : env'.objectType = env.objectType := by
  rw [Env.objectType, h.wellKnown, Env.objectType]

theorem arraySupertypes : env'.arraySupertypes = env.arraySupertypes := by
  rw [Env.arraySupertypes, h.objectType, h.wellKnown, Env.arraySupertypes]

/-! ## Definitions, bounds and links -/

theorem classDef (id : ClassId) : Persists (env.classDef id) (env'.classDef id) :=
  fun _ hc => classDef_eq_ok_iff.mpr (h.defines (classDef_eq_ok_iff.mp hc))

theorem bounds : BoundsGrow env env' := ⟨h.depthLimit, h.varCount, h.bound⟩

theorem superclassOf (id : ClassId) : Persists (env.superclassOf id) (env'.superclassOf id) := by
  refine (h.classDef id).bind fun c hc => ?_
  cases hlink : c.superclass with
  | none => exact Persists.refl _
  | some link =>
      -- links are known to persist where a class has them
      have hmem : link ∈ c.superclass.toList ++ c.interfaces := by simp [hlink]
      exact (h.link (classDef_eq_ok_iff.mp hc) hmem).map some

theorem interfacesOf (id : ClassId) : Persists (env.interfacesOf id) (env'.interfacesOf id) := by
  refine (h.classDef id).bind fun c hc => mapM_persists fun link hlink => ?_
  exact h.link (classDef_eq_ok_iff.mp hc) (List.mem_append_right _ hlink)

/-! ## Walks over the hierarchy -/

/-- A broken chain may go on, but what there is of it stays. -/
theorem chainFrom (n : Nat) (seen : List ClassId) (id : ClassId) :
    env'.chainFrom n seen id = env.chainFrom n seen id ∨
      (env.chainFrom n seen id).failure.isSome = true ∧
        (env.chainFrom n seen id).classes <+: (env'.chainFrom n seen id).classes := by
  induction n generalizing seen id with
  | zero => exact .inr ⟨rfl, List.prefix_refl []⟩
  | succ n ih =>
      rw [Env.chainFrom, Env.chainFrom]
      split
      · exact .inr ⟨rfl, List.prefix_refl []⟩
      · cases hsup : env.superclassOf id with
        | ok parent =>
            rw [h.superclassOf id parent hsup]
            cases parent with
            | none => exact .inl rfl
            | some p =>
                rcases ih (id :: seen) p with heq | ⟨hfail, hpre⟩
                · exact .inl (congrArg (Chain.cons id) heq)
                · exact .inr ⟨hfail, (List.cons_prefix_cons).mpr ⟨rfl, hpre⟩⟩
        | error e =>
            -- the walk ended at `id`, where every longer one begins
            refine .inr ⟨rfl, ?_⟩
            rcases env'.superclassOf id with e' | (_ | p) <;>
              exact (List.cons_prefix_cons).mpr ⟨rfl, List.nil_prefix⟩

theorem superclassChain (start : ClassId) :
    env'.superclassChain start = env.superclassChain start ∨
      (env.superclassChain start).failure.isSome = true ∧
        (env.superclassChain start).classes <+: (env'.superclassChain start).classes := by
  unfold Env.superclassChain
  rw [h.depthLimit]
  exact h.chainFrom env.depthLimit [] start

theorem completeChain (start : ClassId) :
    Persists (env.completeChain start) (env'.completeChain start) := by
  unfold Env.completeChain
  rcases h.superclassChain start with heq | ⟨hfail, -⟩
  · rw [heq]
    exact Persists.refl _
  · obtain ⟨e, he⟩ := Option.isSome_iff_exists.mp hfail
    -- a chain that breaks off was not complete
    simp only [he]
    exact persists_error e _

theorem visitSupertypes (n : Nat) (path finished : List ClassId) (id : ClassId) :
    Persists (env.visitSupertypes n path finished id)
      (env'.visitSupertypes n path finished id) := by
  induction n generalizing path finished id with
  | zero =>
      rw [Env.visitSupertypes.eq_def, Env.visitSupertypes.eq_def]
      exact Persists.ite (fun _ => Persists.refl _) fun _ => persists_error _ _
  | succ n ih =>
      rw [Env.visitSupertypes.eq_def, Env.visitSupertypes.eq_def]
      refine Persists.ite (fun _ => Persists.refl _) fun _ => ?_
      -- a class met again on its own path is an error, and errors need not persist
      refine Persists.ite (fun _ => persists_error _ _) fun _ => ?_
      refine (h.superclassOf id).bind fun parent _ => ?_
      -- the superclass comes first if there is one, and the interfaces follow in any case
      have hrest : ∀ f, Persists
          (do let is ← env.interfacesOf id
              let f ← is.foldlM (fun f i => env.visitSupertypes n (id :: path) f i) f
              pure (id :: f))
          (do let is ← env'.interfacesOf id
              let f ← is.foldlM (fun f i => env'.visitSupertypes n (id :: path) f i) f
              pure (id :: f)) := fun f =>
        (h.interfacesOf id).bind fun is _ =>
          (foldlM_persists (fun f i => ih (id :: path) f i) is f).bind fun f _ => Persists.refl _
      cases parent with
      | none => exact hrest finished
      | some p => exact (ih (id :: path) finished p).bind fun f _ => hrest f

theorem expandInterfaces (rounds : Nat) (done pending : List ClassId) :
    Persists (env.expandInterfaces rounds done pending)
      (env'.expandInterfaces rounds done pending) := by
  induction rounds generalizing done pending with
  | zero => cases pending <;> exact Persists.refl _
  | succ rounds ih =>
      cases pending with
      | nil => exact Persists.refl _
      | cons c rest =>
          rw [Env.expandInterfaces, Env.expandInterfaces]
          exact (h.interfacesOf c).bind fun is _ => ih _ _

theorem supertypeClosure (start : ClassId) :
    Persists (env.supertypeClosure start) (env'.supertypeClosure start) := by
  unfold Env.supertypeClosure Env.reachableSupertypes
  rw [h.depthLimit]
  refine (h.visitSupertypes env.depthLimit [] [] start).bind fun reachable _ => ?_
  exact (h.completeChain start).bind fun chain _ => h.expandInterfaces _ _ _

theorem enclosingFrom (n : Nat) (seen : List ClassId) (outer : Option ClassId) :
    Persists (env.enclosingFrom n seen outer) (env'.enclosingFrom n seen outer) := by
  induction n generalizing seen outer with
  | zero =>
      cases outer with
      | none => exact Persists.refl _
      | some id => exact persists_error _ _
  | succ n ih =>
      cases outer with
      | none => exact Persists.refl _
      | some id =>
          rw [Env.enclosingFrom, Env.enclosingFrom]
          refine Persists.ite (fun _ => persists_error _ _) fun _ => ?_
          refine (h.classDef id).bind fun c _ => ?_
          exact (ih (id :: seen) c.outer).bind fun rest _ => Persists.refl _

theorem isEnclosed (inner outer : ClassId) :
    Persists (env.isEnclosed inner outer) (env'.isEnclosed inner outer) := by
  unfold Env.isEnclosed Env.enclosingClasses
  rw [h.depthLimit]
  refine Persists.bind ?_ fun around _ => Persists.refl _
  exact (h.classDef inner).bind fun c _ => h.enclosingFrom _ _ _

/-! ## Descent -/

omit h in
theorem anyReaches {ancestor : Ty} {f g : Ty → List Ty → Except TypeError (Bool × List Ty)}
    (hfg : ∀ t met, Persists (f t met) (g t met)) (ts met : List Ty) :
    Persists (Env.anyReaches ancestor f ts met) (Env.anyReaches ancestor g ts met) := by
  induction ts generalizing met with
  | nil => exact Persists.refl _
  | cons t ts ih =>
      rw [Env.anyReaches, Env.anyReaches]
      refine Persists.ite (fun _ => Persists.refl _) fun _ => (hfg t met).bind fun r _ => ?_
      obtain ⟨found, met⟩ := r
      exact Persists.ite (fun _ => Persists.refl _) fun _ => ih met

theorem search (ancestor : Ty) (n : Nat) (child : Ty) (met : List Ty) :
    Persists (env.search ancestor n child met) (env'.search ancestor n child met) := by
  induction n generalizing child met with
  | zero =>
      rw [Env.search.eq_def, Env.search.eq_def]
      exact Persists.refl _
  | succ n ih =>
      have hup : ∀ ts met, Persists (Env.anyReaches ancestor (env.search ancestor n) ts met)
          (Env.anyReaches ancestor (env'.search ancestor n) ts met) := EnvGrows.anyReaches ih
      rw [Env.search.eq_def, Env.search.eq_def]
      refine Persists.ite (fun _ => Persists.refl _) fun _ => ?_
      refine Persists.ite (fun _ => Persists.refl _) fun _ => ?_
      cases child with
      | null => exact Persists.refl _
      | array element =>
          -- above an array there are built-in types only, and the search goes no further
          dsimp only
          rw [h.arraySupertypes]
          exact Persists.refl _
      | var v => exact (h.bounds.boundOf v).bind fun bound _ => hup _ _
      | cls id =>
          dsimp only
          rw [h.objectType, h.wellKnown]
          refine (h.classDef id).bind fun c _ => ?_
          refine Persists.ite (fun _ => ?_) fun _ => ?_
          · refine Persists.ite (fun _ => Persists.refl _) fun _ => ?_
            exact (h.interfacesOf id).bind fun is _ => hup _ _
          · refine Persists.ite (fun _ => Persists.refl _) fun _ => ?_
            refine (h.superclassOf id).bind fun parent _ => (hup _ _).bind fun r _ => ?_
            obtain ⟨found, met⟩ := r
            refine Persists.ite (fun _ => Persists.refl _) fun _ => ?_
            exact (h.interfacesOf id).bind fun is _ => hup _ _
      | prim p => exact Persists.refl _
      | package name => exact Persists.refl _
      | named name => exact Persists.refl _

theorem descends (child ancestor : Ty) :
    Persists (env.descends child ancestor) (env'.descends child ancestor) := by
  unfold Env.descends
  rw [h.depthLimit]
  refine (Persists.refl _).bind fun _ _ => (Persists.refl _).bind fun _ _ => ?_
  exact (h.search ancestor (env.depthLimit + 1) child []).bind fun r _ => Persists.refl _

/-! ## Conversions -/

/-- Without recursion, only references are compared by asking the environment. -/
theorem assignableCanonical_flat {a b : Ty} (harrays : ∀ t u, a = .array t → b ≠ .array u) :
    Persists (env.assignableCanonical a b) (env'.assignableCanonical a b) := by
  rcases assignableCanonical_cases harrays with ⟨found, hfound⟩ | hdescends
  · rw [hfound, hfound]
    exact Persists.refl _
  · rw [hdescends, hdescends]
    exact h.descends a b

theorem assignableCanonical (a b : Ty) :
    Persists (env.assignableCanonical a b) (env'.assignableCanonical a b) := by
  induction a generalizing b with
  | array t ih =>
      cases b with
      | array u =>
          by_cases hne : t = u
          · rw [hne, assignableCanonical_self, assignableCanonical_self]
            exact Persists.refl _
          · rw [assignableCanonical_arrays hne, assignableCanonical_arrays hne]
            exact Persists.ite (fun _ => Persists.refl _) fun _ => ih u
      | _ => exact h.assignableCanonical_flat (by simp)
  | _ => exact h.assignableCanonical_flat (by simp)

theorem assignable (child ancestor : Ty) :
    Persists (env.assignable child ancestor) (env'.assignable child ancestor) :=
  (Persists.refl _).bind fun _ _ => (Persists.refl _).bind fun _ _ =>
    h.assignableCanonical child ancestor

theorem converts (source target : Ty) :
    Persists (env.converts source target) (env'.converts source target) := by
  rw [converts_eq_assignable, converts_eq_assignable]
  exact h.assignable source target

theorem classCast (source target : ClassId) :
    Persists (env.classCast source target) (env'.classCast source target) := by
  refine (h.classDef source).bind fun s _ => (h.classDef target).bind fun t _ => ?_
  split
  · refine (h.descends _ _).bind fun down _ => ?_
    exact Persists.ite (fun _ => Persists.refl _) fun _ => h.descends _ _
  · exact Persists.ite (fun _ => h.descends _ _) fun _ => Persists.refl _
  · exact Persists.ite (fun _ => h.descends _ _) fun _ => Persists.refl _
  · exact Persists.refl _

theorem castWith {f g : Ty → Ty → Except TypeError Bool} (hfg : ∀ s t, Persists (f s t) (g s t))
    (source target : Ty) : Persists (env.castWith f source target)
      (env'.castWith g source target) := by
  induction source generalizing target with
  | array s ih =>
      rw [Env.castWith.eq_def, Env.castWith.eq_def]
      refine Persists.ite (fun _ => Persists.refl _) fun _ => ?_
      cases target with
      | var v => exact hfg _ _
      | array t => exact Persists.ite (fun _ => Persists.refl _) fun _ => ih t
      | prim q => exact Persists.refl _
      | null => exact Persists.refl _
      | _ => exact h.descends _ _
  | _ =>
      rw [Env.castWith.eq_def, Env.castWith.eq_def]
      refine Persists.ite (fun _ => Persists.refl _) fun _ => ?_
      -- below the top only arrays go on, so each pair is settled by one question at most
      cases target <;> first
        | exact Persists.refl _
        | exact hfg _ _
        | exact h.descends _ _
        | exact h.classCast _ _

/-- More rounds do no harm. -/
theorem castWithin {n m : Nat} (hnm : n ≤ m) (source target : Ty) :
    Persists (env.castWithin n source target) (env'.castWithin m source target) := by
  induction n generalizing m source target with
  | zero =>
      rw [Env.castWithin.eq_def, Env.castWithin.eq_def]
      refine (Persists.refl _).bind fun _ _ => (Persists.refl _).bind fun _ _ => ?_
      refine h.castWith (fun s t => ?_) source target
      refine (h.bounds.upperBound s).bind fun s' _ => (h.bounds.upperBound t).bind fun t' _ => ?_
      exact persists_error _ _
  | succ n ih =>
      obtain ⟨k, rfl⟩ : ∃ k, m = k + 1 := ⟨m - 1, by omega⟩
      rw [Env.castWithin.eq_def, Env.castWithin.eq_def]
      refine (Persists.refl _).bind fun _ _ => (Persists.refl _).bind fun _ _ => ?_
      refine h.castWith (fun s t => ?_) source target
      refine (h.bounds.upperBound s).bind fun s' _ => (h.bounds.upperBound t).bind fun t' _ => ?_
      exact ih (by omega) s' t'

theorem castable (source target : Ty) :
    Persists (env.castable source target) (env'.castable source target) := by
  have := h.varCount
  exact h.castWithin (by omega) source target

/-! ## The least common ancestor -/

theorem parent? (t : Ty) : Persists (env.parent? t) (env'.parent? t) := by
  cases t with
  | cls id =>
      rw [Env.parent?, Env.parent?, h.wellKnown, h.objectType]
      refine Persists.ite (fun _ => Persists.refl _) fun _ => ?_
      refine (h.classDef id).bind fun c _ => Persists.ite (fun _ => Persists.refl _) fun _ => ?_
      exact (h.superclassOf id).bind fun parent _ => Persists.refl _
  | var v => exact (h.bounds.boundOf v).bind fun bound _ => Persists.refl _
  | array element =>
      rw [Env.parent?, Env.parent?, h.objectType]
      exact Persists.refl _
  | _ => exact Persists.refl _

theorem climb (t₁ t₂ : Ty) (n : Nat) (seen : List Ty) (current : Ty) :
    Persists (env.climb t₁ t₂ n seen current) (env'.climb t₁ t₂ n seen current) := by
  induction n generalizing seen current with
  | zero =>
      rw [Env.climb.eq_def, Env.climb.eq_def]
      refine Persists.ite (fun _ => Persists.refl _) fun _ => ?_
      refine (h.descends t₂ current).bind fun above _ => ?_
      exact Persists.ite (fun _ => Persists.refl _) fun _ => persists_error _ _
  | succ n ih =>
      rw [Env.climb.eq_def, Env.climb.eq_def]
      refine Persists.ite (fun _ => Persists.refl _) fun _ => ?_
      refine (h.descends t₂ current).bind fun above _ => ?_
      refine Persists.ite (fun _ => Persists.refl _) fun _ => ?_
      refine Persists.ite (fun _ => persists_error _ _) fun _ => ?_
      refine (h.parent? current).bind fun next _ => ?_
      cases next with
      | none => exact persists_error _ _
      | some next => exact ih (current :: seen) next

theorem commonAncestorCanonical (t₁ t₂ : Ty) :
    Persists (env.commonAncestorCanonical t₁ t₂) (env'.commonAncestorCanonical t₁ t₂) := by
  -- all pairs but two primitives and two arrays end here
  have hreferences : ∀ t u : Ty, Persists
      (if u = .null && t.isReference then pure t
        else if t = .null && u.isReference then pure u
        else if t.isReference && u.isReference then env.climb t u env.depthLimit [] t
        else throw (env.noCommonAncestor t u))
      (if u = .null && t.isReference then pure t
        else if t = .null && u.isReference then pure u
        else if t.isReference && u.isReference then env'.climb t u env'.depthLimit [] t
        else throw (env'.noCommonAncestor t u)) := by
    intro t u
    rw [h.depthLimit]
    refine Persists.ite (fun _ => Persists.refl _) fun _ => ?_
    refine Persists.ite (fun _ => Persists.refl _) fun _ => ?_
    exact Persists.ite (fun _ => h.climb t u env.depthLimit [] t) fun _ => persists_error _ _
  induction t₁ generalizing t₂ with
  | prim p =>
      cases t₂ with
      | prim q =>
          rw [Env.commonAncestorCanonical, Env.commonAncestorCanonical]
          refine Persists.ite (fun _ => Persists.refl _) fun _ => ?_
          -- two numbers have the wider one, and everything else fails
          rcases p.rank? with _ | a
          · exact persists_error _ _
          · rcases q.rank? with _ | b
            · exact persists_error _ _
            · dsimp only
              rcases Primitive.ofRank? (max a b) with _ | r
              · exact persists_error _ _
              · exact Persists.refl _
      | _ => exact hreferences _ _
  | array a ih =>
      cases t₂ with
      | array b =>
          rw [Env.commonAncestorCanonical, Env.commonAncestorCanonical]
          exact (ih b).bind fun element _ => Persists.refl _
      | _ => exact hreferences _ _
  | _ => exact hreferences _ _

theorem commonAncestor (t₁ t₂ : Ty) :
    Persists (env.commonAncestor t₁ t₂) (env'.commonAncestor t₁ t₂) :=
  (Persists.refl _).bind fun _ _ => (Persists.refl _).bind fun _ _ =>
    h.commonAncestorCanonical t₁ t₂

/-! ## Access -/

theorem isAccessible (target : Ty) (flags : Flags) (ctx : AccessContext) :
    Persists (env.isAccessible target flags ctx) (env'.isAccessible target flags ctx) := by
  -- where flags and nesting do not settle it, package and descent do
  have hopen : ∀ id, Persists (env.isOpenTo id flags ctx.current)
      (env'.isOpenTo id flags ctx.current) := by
    intro id
    have hpackage : Persists (env.samePackage id ctx.current) (env'.samePackage id ctx.current) :=
      (h.classDef id).bind fun a _ => (h.classDef ctx.current).bind fun b _ => Persists.refl _
    have hprotected : Persists
        (if flags.isProtected then env.descends (.cls ctx.current) (.cls id) else pure false)
        (if flags.isProtected then env'.descends (.cls ctx.current) (.cls id) else pure false) :=
      Persists.ite (fun _ => h.descends _ _) fun _ => Persists.refl _
    refine Persists.ite (fun _ => hpackage.bind fun inPackage _ => ?_) fun _ => hprotected
    exact Persists.ite (fun _ => Persists.refl _) fun _ => hprotected
  refine (Persists.refl _).bind fun _ _ => Persists.ite (fun _ => Persists.refl _) fun _ => ?_
  cases target with
  | cls id =>
      refine Persists.ite (fun _ => Persists.refl _) fun _ => ?_
      refine (h.isEnclosed id ctx.current).bind fun enclosed _ => ?_
      exact Persists.ite (fun _ => Persists.refl _) fun _ => hopen id
  | _ => exact Persists.refl _

/-! ## Members -/

theorem receiverClass (t : Ty) (what : String) :
    Persists (env.receiverClass t what) (env'.receiverClass t what) := by
  refine (Persists.refl _).bind fun _ _ => ?_
  cases t with
  | cls id => exact Persists.refl _
  | array element =>
      dsimp only
      rw [h.wellKnown]
      exact Persists.refl _
  | var v =>
      dsimp only
      rw [h.wellKnown]
      exact (h.bounds.upperBound (.var v)).bind fun bound _ => Persists.refl _
  | _ => exact persists_error _ _

/-- A field is found before the end of a chain, so a longer chain has it too. -/
theorem fieldAlong (name : String) (ctx : AccessContext) (e : TypeError)
    (fallback : Except TypeError Field) {ids ids' : List ClassId} (hpre : ids <+: ids') :
    Persists (env.fieldAlong name ctx (.error e) ids)
      (env'.fieldAlong name ctx fallback ids') := by
  induction ids generalizing ids' with
  | nil => exact persists_error e _
  | cons id ids ih =>
      obtain ⟨rest, rfl⟩ := hpre
      rw [List.cons_append, Env.fieldAlong, Env.fieldAlong]
      refine (h.classDef id).bind fun c _ => ?_
      cases c.field? name with
      | none => exact ih (List.prefix_append ids rest)
      | some field =>
          refine (h.isAccessible (.cls id) field.flags ctx).bind fun accessible _ => ?_
          exact Persists.ite (fun _ => Persists.refl _) fun _ => persists_error _ _

theorem getField (t : Ty) (name : String) (ctx : AccessContext) :
    Persists (env.getField t name ctx) (env'.getField t name ctx) := by
  refine (h.receiverClass t "field").bind fun start _ => ?_
  have hpre : (env.superclassChain start).classes <+: (env'.superclassChain start).classes := by
    rcases h.superclassChain start with heq | ⟨-, hpre⟩
    · simp [heq]
    · exact hpre
  dsimp only
  -- what is tried after the chain may change, but a field was found before it
  cases (env.superclassChain start).failure <;> exact h.fieldAlong name ctx _ _ hpre

theorem argsConvert (args params : List Ty) :
    Persists (env.argsConvert args params) (env'.argsConvert args params) := by
  induction args generalizing params with
  | nil => cases params <;> exact Persists.refl _
  | cons arg args ih =>
      cases params with
      | nil => exact Persists.refl _
      | cons param params =>
          refine (h.converts arg param).bind fun fits _ => ?_
          exact Persists.ite (fun _ => ih params) fun _ => Persists.refl _

theorem allConvert (element : Ty) (args : List Ty) :
    Persists (env.allConvert element args) (env'.allConvert element args) := by
  induction args with
  | nil => exact Persists.refl _
  | cons arg args ih =>
      refine (h.converts arg element).bind fun fits _ => ?_
      exact Persists.ite (fun _ => ih) fun _ => Persists.refl _

theorem tailConverts (element : Ty) (args : List Ty) :
    Persists (env.tailConverts element args) (env'.tailConverts element args) := by
  unfold Env.tailConverts
  split
  · refine (h.converts _ element).bind fun fits _ => ?_
    exact Persists.ite (fun _ => Persists.refl _) fun _ => h.converts _ _
  · exact h.allConvert element _

theorem varargsConvert (element : Ty) (params args : List Ty) :
    Persists (env.varargsConvert element params args)
      (env'.varargsConvert element params args) := by
  induction params generalizing args with
  | nil => exact h.tailConverts element args
  | cons param params ih =>
      cases args with
      | nil => exact Persists.refl _
      | cons arg args =>
          refine (h.converts arg param).bind fun fits _ => ?_
          exact Persists.ite (fun _ => ih args) fun _ => Persists.refl _

theorem callFits (m : Method) (args : List Ty) :
    Persists (env.callFits m args) (env'.callFits m args) := by
  unfold Env.callFits
  refine Persists.ite (fun _ => ?_) fun _ => ?_
  · split
    · exact Persists.ite (fun _ => Persists.refl _) fun _ => h.varargsConvert _ _ _
    · exact persists_error _ _
  · exact Persists.ite (fun _ => Persists.refl _) fun _ => h.argsConvert _ _

theorem usable (call : MethodCall) (ctx : AccessContext) (id : ClassId) (m : Method) :
    Persists (usableBy (.standard env) call ctx id m)
      (usableBy (.standard env') call ctx id m) := by
  unfold usableBy
  rw [answer_fits, answer_fits]
  refine (h.callFits m call.args).bind fun fits _ => ?_
  exact Persists.ite (fun _ => h.isAccessible _ _ _) fun _ => Persists.refl _

theorem applicableIn (call : MethodCall) (ctx : AccessContext) (id : ClassId) (name : String)
    (ks : List MethodId) :
    Persists (answer ((Resolver.standard env).applicableIn call ctx id name ks))
      (answer ((Resolver.standard env').applicableIn call ctx id name ks)) := by
  induction ks with
  | nil => exact Persists.refl _
  | cons k ks ih =>
      cases hm : env.method? k with
      | none =>
          -- a method that is missing now may be there later
          rw [applicableIn_missing (.standard env) call ctx hm]
          exact persists_error _ _
      | some m =>
          rw [applicableIn_cons (.standard env) call ctx hm,
            applicableIn_cons (.standard env') call ctx (h.method hm)]
          refine Persists.ite (fun _ => ih) fun _ => ?_
          refine (h.usable call ctx id m).bind fun keep _ => ?_
          exact ih.bind fun others _ => Persists.refl _

theorem applicableAlong (call : MethodCall) (ctx : AccessContext) (ids : List ClassId) :
    Persists (answer ((Resolver.standard env).applicableAlong call ctx ids))
      (answer ((Resolver.standard env').applicableAlong call ctx ids)) := by
  induction ids with
  | nil => exact Persists.refl _
  | cons id ids ih =>
      rw [applicableAlong_cons, applicableAlong_cons]
      refine (h.classDef id).bind fun c _ => ?_
      refine (h.applicableIn call ctx id c.name c.methods).bind fun found _ => ?_
      exact ih.bind fun others _ => Persists.refl _

theorem applicable (call : MethodCall) (ctx : AccessContext) :
    Persists (answer ((Resolver.standard env).applicable call ctx))
      (answer ((Resolver.standard env').applicable call ctx)) := by
  have hclasses : ∀ start, Persists (env.methodClasses start) (env'.methodClasses start) := by
    intro start
    unfold Env.methodClasses
    rw [h.wellKnown]
    exact (h.supertypeClosure start).bind fun classes _ => Persists.refl _
  rw [applicable_eq, applicable_eq]
  refine Persists.bind ?_ fun classes _ => h.applicableAlong call ctx classes
  exact (h.receiverClass call.receiver "method").bind fun start _ => hclasses start

end EnvGrows

/-! ## Stores that grow -/

section Stores

variable {s s' : Store}

theorem Grows.varCount (hg : Grows s s') : s.typeParams.size ≤ s'.typeParams.size := by
  by_contra hlt
  -- the last variable of `s` would be missing in `s'`
  have hlast : s'.typeParams.size < s.typeParams.size := by omega
  obtain ⟨p', hp', -⟩ := hg.typeParam (v := ⟨s'.typeParams.size⟩)
    (Array.getElem?_eq_getElem hlast)
  simp [typeParam?] at hp'

theorem Grows.bounds (hg : Grows s s') : BoundsGrow s.env s'.env where
  depthLimit := hg.depthLimit
  varCount := hg.varCount
  bound := by
    intro v p hp
    obtain ⟨p', hp', hkeeps⟩ := hg.typeParam hp
    exact ⟨p', hp', hkeeps.bound⟩

/-- A store that has grown knows more as an environment, if its links lead where they led. -/
theorem Grows.env (hg : Grows s s')
    (hlinks : ∀ {id c link}, s.classDef? id = some c →
      link ∈ c.superclass.toList ++ c.interfaces →
        Persists (s.env.resolveLink link) (s'.env.resolveLink link)) :
    EnvGrows s.env s'.env where
  wellKnown := hg.wellKnown
  depthLimit := hg.depthLimit
  varCount := hg.varCount
  defines := hg.classDef
  method := hg.method
  bound := hg.bounds.bound
  link := hlinks

/-- No name without a dot that stood for a class of the imported package has become the name of
another class. -/
def Unshadowed (s s' : Store) : Prop :=
  ∀ n, '.' ∉ n.toList → s.idOf? n = none → (s.idOf? ("java.lang." ++ n)).isSome = true →
    s'.idOf? n = none

theorem lookup?_of_unshadowed (hg : Grows s s') (h : Unshadowed s s') {n : String} {id : ClassId}
    (hid : s.lookup? n = some id) : s'.lookup? n = some id := by
  unfold lookup? at hid ⊢
  cases hexact : s.idOf? n with
  | some k =>
      rw [hexact] at hid
      rw [hg.idOf hexact]
      exact hid
  | none =>
      simp only [hexact] at hid
      split at hid
      · cases hid
      · rename_i hdot
        -- the name stands for a class of the imported package, and still does
        rw [h n hdot hexact (by rw [hid]; rfl)]
        simp only [if_neg hdot]
        exact hg.idOf hid

theorem resolveLink_of_unshadowed (hg : Grows s s') (h : Unshadowed s s') (link : Ty) :
    Persists (s.env.resolveLink link) (s'.env.resolveLink link) := by
  cases link with
  | cls id => exact Persists.refl _
  | named n =>
      intro id hid
      have hlook : s.lookup? n = some id := by
        cases hn : s.lookup? n <;> simp_all [Env.resolveLink, Env.find, Store.env]
      have hlook' := lookup?_of_unshadowed hg h hlook
      simp [Env.resolveLink, Env.find, Store.env, hlook']
  | _ => exact persists_error _ _

end Stores

theorem grows_afterAll (s : Store) (cs : List Change) : Grows s (afterAll s cs) := by
  induction cs generalizing s with
  | nil => exact Grows.refl s
  | cons c cs ih => exact (grows_after s c).trans (ih (after s c))

/-- Every question about types and members that `env` answers, `env'` answers alike. -/
structure SameAnswers (env env' : Env) : Prop where
  descends : ∀ t u, Persists (env.descends t u) (env'.descends t u)
  assignable : ∀ t u, Persists (env.assignable t u) (env'.assignable t u)
  converts : ∀ t u, Persists (env.converts t u) (env'.converts t u)
  castable : ∀ t u, Persists (env.castable t u) (env'.castable t u)
  commonAncestor : ∀ t u, Persists (env.commonAncestor t u) (env'.commonAncestor t u)
  closure : ∀ id, Persists (env.supertypeClosure id) (env'.supertypeClosure id)
  accessible : ∀ t flags ctx,
    Persists (env.isAccessible t flags ctx) (env'.isAccessible t flags ctx)
  field : ∀ t name ctx, Persists (env.getField t name ctx) (env'.getField t name ctx)
  applicable : ∀ call ctx,
    Persists (answer ((Resolver.standard env).applicable call ctx))
      (answer ((Resolver.standard env').applicable call ctx))

theorem EnvGrows.sameAnswers {env env' : Env} (h : EnvGrows env env') :
    SameAnswers env env' where
  descends := h.descends
  assignable := h.assignable
  converts := h.converts
  castable := h.castable
  commonAncestor := h.commonAncestor
  closure := h.supertypeClosure
  accessible := h.isAccessible
  field := h.getField
  applicable := h.applicable

/--
**What a store has answered stays true in every run**, whether or not the calls in
between are refused: names, definitions, methods and variables are frozen, and an owner
never changes. As long as no name without a dot is taken over by a new class, source
names keep their meaning and every question keeps the answer that it got.
-/
theorem answers_persist (s : Store) (cs : List Change) :
    Grows s (afterAll s cs) ∧
    (Unshadowed s (afterAll s cs) →
      (∀ n id, s.lookup? n = some id → (afterAll s cs).lookup? n = some id) ∧
      SameAnswers s.env (afterAll s cs).env) := by
  have hg := grows_afterAll s cs
  refine ⟨hg, fun hun => ⟨fun n id => lookup?_of_unshadowed hg hun, ?_⟩⟩
  exact (hg.env fun _ _ => resolveLink_of_unshadowed hg hun _).sameAnswers

/-! ## Checking names

Only the names that are interned matter, so whether one takes over another can be computed. -/

/-- Each name of `s'` has a dot, is a name of `s`, or stood for nothing there. -/
def keepsMeaning (s s' : Store) : Bool :=
  s'.names.all fun entry =>
    entry.1.toList.contains '.' || (s.idOf? entry.1).isSome ||
      (s.idOf? ("java.lang." ++ entry.1)).isNone

theorem unshadowed_of_keepsMeaning {s s' : Store} (h : keepsMeaning s s' = true) :
    Unshadowed s s' := by
  intro n hdot hnone hlang
  cases hid : s'.idOf? n with
  | none => rfl
  | some id =>
      obtain ⟨before, rest, hnames, -⟩ := List.lookup_eq_some_iff.mp hid
      have hmem : (n, id) ∈ s'.names := by simp [hnames]
      -- an entry without a dot that was no name before would take one over
      have hentry := List.all_eq_true.mp h (n, id) hmem
      obtain ⟨k, hk⟩ := Option.isSome_iff_exists.mp hlang
      simp [hdot, hnone, hk] at hentry

/-- A class that extends a built-in one by its short name. -/
def shortNameRun : List Change :=
  [.addClass { name := "p.A", superclass := some (.named "Number") }]

/-- A class that is called `Number` in its own package, one without a package, and a second
definition of `p.A`, which is refused. -/
def newcomersRun : List Change :=
  [.addClass { name := "q.Number" }, .addClass { name := "Late", superclass := some (.cls ⟨13⟩) },
   .addClass { name := "p.A" }]

theorem answers_persist_newcomers :
    let s := afterAll Store.builtin shortNameRun
    let s' := afterAll s newcomersRun
    (Unshadowed s s' ∧ s.env.descends (.cls ⟨12⟩) (.cls wellKnownIds.serializable) = .ok true) ∧
      s'.env.descends (.cls ⟨12⟩) (.cls wellKnownIds.serializable) = .ok true := by
  intro s s'
  have hun : Unshadowed s s' := unshadowed_of_keepsMeaning (by decide)
  have hold : s.env.descends (.cls ⟨12⟩) (.cls wellKnownIds.serializable) = .ok true := by rfl
  exact ⟨⟨hun, hold⟩, ((answers_persist s newcomersRun).2 hun).2.descends _ _ _ hold⟩

end Lineage.Proofs
