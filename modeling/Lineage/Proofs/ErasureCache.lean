import Lineage.Proofs.Memory
import Lineage.Proofs.Persistence

/-!
# The erasure cache never goes stale

The cache knows a class by its position only and drops nothing, while the store that it
serves goes on growing. That is sound because of what an erasure was computed from: the
list of type parameters in the definition of a class, which is final, and the bounds of
variables, which are set when a variable is made. Owners may still change, and so may
the number of rounds that erasing a type may take, but more rounds give no other answer.

A *session* is a store and a cache, used in any order: the store is changed, refused
or not, and the cache is asked by whoever erases something. `Current` is the invariant.
One step keeps it, either because the store grows or because every question mirrors one
that is asked with all erasures known in advance, and so a whole session does.
-/

namespace Lineage.Proofs

open Store

/-! ## Erasures stay as a store grows -/

theorem bindVar_persists {f g : TypeVarId → Except TypeError Ty}
    (h : ∀ v, Persists (f v) (g v)) (t : Ty) : Persists (t.bindVar f) (t.bindVar g) := by
  induction t with
  | var v => exact h v
  | array element ih => exact ih.bind fun _ _ => Persists.refl _
  | _ => exact Persists.refl _

namespace BoundsGrow

variable {env env' : Env} (h : BoundsGrow env env')

include h

/-- More rounds do no harm. -/
theorem eraseWithin {n m : Nat} (hnm : n ≤ m) (t : Ty) :
    Persists (env.eraseWithin n t) (env'.eraseWithin m t) := by
  induction n generalizing m t with
  | zero =>
      rw [Env.eraseWithin.eq_def, Env.eraseWithin.eq_def]
      refine bindVar_persists (fun v => ?_) t
      -- no round is left for a variable in the smaller store, so no answer has to persist
      exact (h.upperBound (.var v)).bind fun bound _ => persists_error _ _
  | succ n ih =>
      obtain ⟨k, rfl⟩ : ∃ k, m = k + 1 := ⟨m - 1, by omega⟩
      rw [Env.eraseWithin.eq_def, Env.eraseWithin.eq_def]
      refine bindVar_persists (fun v => ?_) t
      exact (h.upperBound (.var v)).bind fun bound _ => ih (by omega) bound

theorem erase (t : Ty) : Persists (env.erase t) (env'.erase t) := h.eraseWithin h.varCount t

theorem erasureEntries (vs : List TypeVarId) :
    Persists (env.erasureEntries vs) (env'.erasureEntries vs) := by
  induction vs with
  | nil => exact Persists.refl _
  | cons v vs ih =>
      rw [Env.erasureEntries, Env.erasureEntries]
      exact (h.erase (.var v)).bind fun erased _ => ih.bind fun others _ => Persists.refl _

theorem erasureSubst (vs : List TypeVarId) :
    Persists (env.erasureSubst vs) (env'.erasureSubst vs) :=
  (h.erasureEntries vs).bind fun _ _ => Persists.refl _

end BoundsGrow

/-! ## What a cache holds -/

/-- Every entry of the cache is the erasure that its class, which is defined, has now. -/
def Current (cache : ErasureCache) (env : Env) : Prop :=
  ∀ id subst, (id, subst) ∈ cache.entries →
    ∃ c, env.classDef? id = some c ∧ env.erasureSubst c.typeParams = .ok subst

theorem compute_eq_ok_iff {env : Env} {id : ClassId} {subst : Subst} :
    ErasureCache.classErasure.compute env id = .ok subst ↔
      ∃ c, env.classDef? id = some c ∧ env.erasureSubst c.typeParams = .ok subst := by
  unfold ErasureCache.classErasure.compute
  rw [bind_eq_ok_iff]
  exact exists_congr fun c => and_congr_left fun _ => classDef_eq_ok_iff

/-- What is found under a class is an entry for it. -/
theorem Current.compute {cache : ErasureCache} {env : Env} (h : Current cache env) {id : ClassId}
    {subst : Subst} (hget : cache.get? id = some subst) :
    ErasureCache.classErasure.compute env id = .ok subst := by
  obtain ⟨before, rest, hentries, -⟩ := List.lookup_eq_some_iff.mp hget
  exact compute_eq_ok_iff.mpr (h id subst (by simp [hentries]))

theorem Current.grows {s s' : Store} {cache : ErasureCache} (hg : Grows s s')
    (h : Current cache s.env) : Current cache s'.env := by
  intro id subst hmem
  obtain ⟨c, hc, hsubst⟩ := h id subst hmem
  exact ⟨c, hg.classDef hc, hg.bounds.erasureSubst c.typeParams subst hsubst⟩

/-- A cache whose entries are current gives a class the erasure that is computed for it, and its
entries stay current. -/
theorem current_supplies (env : Env) :
    Supplies (fun cache => Current cache env) env (ErasureCache.classErasure.compute env) := by
  intro id cache hcache
  rw [answer_ofExcept]
  show (cache.classErasure env id).1 = _ ∧ Current (cache.classErasure env id).2 env
  rcases classErasure_cases cache env id with
    ⟨subst, hget, hrun⟩ | ⟨subst, -, hcompute, hrun⟩ | ⟨e, -, hcompute, hrun⟩
  · rw [hrun, hcache.compute hget]
    exact ⟨rfl, hcache⟩
  · rw [hrun, hcompute]
    -- one entry is new, and it has just been computed
    refine ⟨rfl, fun k t hmem => ?_⟩
    rcases List.mem_cons.mp hmem with heq | hold
    · cases heq
      exact compute_eq_ok_iff.mp hcompute
    · exact hcache k t hold
  · rw [hrun, hcompute]
    exact ⟨rfl, hcache⟩

theorem classErasure_empty (env : Env) (id : ClassId) :
    (({} : ErasureCache).classErasure env id).1 = ErasureCache.classErasure.compute env id :=
  classErasure_fst {} env id

/-! ## Sessions -/

/-- A store and the cache that serves it. -/
structure Session where
  store : Store
  cache : ErasureCache := {}

/-- One use of a session: a call that may change the store, or a question that may change the
cache. Questions about fields, and all others that are not listed, know nothing of the cache. -/
inductive Use where
  | change (c : Change)
  | classErasure (id : ClassId)
  | erasedSignature (m : Method)
  | callFits (m : Method) (args : List Ty)
  | applicable (call : MethodCall) (ctx : AccessContext)
  | moreSpecific (m₁ m₂ : Method)
  | getMethod (call : MethodCall) (ctx : AccessContext)
  | clear

namespace Session

/-- The session after a question, answered or not. -/
def ask {α : Type} (t : Session) (x : Resolve ErasureCache α) : Session :=
  { t with cache := (x.run.run t.cache).2 }

/-- The session after one use. -/
def use (t : Session) : Use → Session
  | .change c => { t with store := after t.store c }
  | .classErasure id => { t with cache := (t.cache.classErasure t.store.env id).2 }
  | .erasedSignature m => t.ask (CallRule.erasedSignature t.store.env m)
  | .callFits m args => t.ask (CallRule.generic t.store.env m args)
  | .applicable call ctx => t.ask ((Resolver.generic t.store.env).applicable call ctx)
  | .moreSpecific m₁ m₂ => t.ask ((Resolver.generic t.store.env).moreSpecific m₁ m₂)
  | .getMethod call ctx => t.ask ((Resolver.generic t.store.env).getMethod call ctx)
  | .clear => { t with cache := t.cache.clear }

/-- The session after a run of uses. -/
def useAll (t : Session) (us : List Use) : Session := us.foldl use t

end Session

theorem current_ask {α : Type} {t : Session} {x : Resolve ErasureCache α} {y : Resolve Unit α}
    (hx : Mirrors (fun cache => Current cache t.store.env) x y)
    (h : Current t.cache t.store.env) : Current (t.ask x).cache t.store.env :=
  (hx t.cache h).2

/-- **Every use keeps the cache current.** -/
theorem current_use {t : Session} (h : Current t.cache t.store.env) (u : Use) :
    Current (t.use u).cache (t.use u).store.env := by
  have hsupplies := current_supplies t.store.env
  have halike := hsupplies.generic
  -- a change leaves the cache alone and keeps erasures, a question leaves the store alone
  cases u with
  | change c => exact h.grows (grows_after t.store c)
  | classErasure id => exact (hsupplies id t.cache h).2
  | erasedSignature m => exact current_ask (hsupplies.erasedSignature m) h
  | callFits m args => exact current_ask (halike m args) h
  | applicable call ctx => exact current_ask (applicable_mirrors fun _ _ m _ => halike m) h
  | moreSpecific m₁ m₂ => exact current_ask (moreSpecific_mirrors (halike m₂)) h
  | getMethod call ctx => exact current_ask (getMethod_mirrors fun _ _ m _ => halike m) h
  | clear =>
      intro id subst hmem
      cases hmem

theorem current_useAll {t : Session} (h : Current t.cache t.store.env) (us : List Use) :
    Current (t.useAll us).cache (t.useAll us).store.env := by
  induction us generalizing t with
  | nil => exact h
  | cons u us ih => exact ih (current_use h u)

theorem classErasure_unchanged_of_error {cache : ErasureCache} {env : Env} {id : ClassId}
    {e : TypeError} (h : (cache.classErasure env id).1 = .error e) :
    (cache.classErasure env id).2 = cache := by
  rcases classErasure_cases cache env id with
    ⟨subst, -, hrun⟩ | ⟨subst, -, -, hrun⟩ | ⟨_, -, -, hrun⟩
  · rw [hrun]
  · rw [hrun] at h
    cases h
  · rw [hrun]

/--
**A cache stays current through every session** that begins with it empty, on whatever
store: each entry belongs to a defined class and is the erasure that the class has in
the store as it is now. So a class always gets the erasure, or the refusal, that it
would get without a cache; a refusal leaves the cache alone; and so does a call of a
method when neither the method nor its class is generic.
-/
theorem erasureCache_current (s : Store) (us : List Use) :
    let t := Session.useAll { store := s } us
    Current t.cache t.store.env ∧
    (∀ id, (t.cache.classErasure t.store.env id).1 =
      (({} : ErasureCache).classErasure t.store.env id).1) ∧
    (∀ id e, (t.cache.classErasure t.store.env id).1 = .error e →
      (t.cache.classErasure t.store.env id).2 = t.cache) ∧
    (∀ m args, m.isGeneric = false →
      (∀ c ∈ t.store.classDef? m.container, c.typeParams = []) →
        ((CallRule.generic t.store.env m args).run.run t.cache).2 = t.cache) := by
  intro t
  have hempty : Current ({} : ErasureCache) s.env := fun id subst hmem => nomatch hmem
  have hcurrent : Current t.cache t.store.env := current_useAll (t := { store := s }) hempty us
  refine ⟨hcurrent, fun id => ?_, fun id e => classErasure_unchanged_of_error, ?_⟩
  · rw [classErasure_empty, ← answer_ofExcept (ErasureCache.classErasure.compute t.store.env id)]
    exact (current_supplies t.store.env id t.cache hcurrent).1
  · intro m args hm hc
    -- neither is generic, so the rule with a cache is the one without
    have hplain : CallRule.isGenericMember t.store.env m = false := isGenericMember_eq_false hm hc
    exact (generic_alike_standard hplain (· = t.cache) args t.cache rfl).2

/-- A class with a bounded variable is erased, a class that nobody has defined is refused, and the
store goes on growing, with a definition that is refused. -/
def boxSession : List Use :=
  [.change (.addTypeParam { name := "T", bound := some (.cls wellKnownIds.number) }),
   .change (.addClass { name := "p.Box", typeParams := [⟨0⟩] }),
   .classErasure ⟨12⟩, .change (.intern "p.Late"), .classErasure ⟨13⟩,
   .change (.addClass { name := "p.Other", typeParams := [⟨0⟩] }),
   .change (.addTypeParam { name := "U", bound := some (.var ⟨0⟩) })]

theorem erasureCache_current_box :
    let t := Session.useAll { store := Store.builtin } boxSession
    let refusal : TypeError := .unresolvedClass "p.Late"
    (t.cache.get? ⟨12⟩ = some (Subst.ofList [(⟨0⟩, .cls wellKnownIds.number)]) ∧
      (t.cache.classErasure t.store.env ⟨13⟩).1 = .error refusal ∧
      ∀ m ∈ t.store.methodsOf ⟨0⟩, m.isGeneric = false ∧ m.container = ⟨0⟩) ∧
    (t.cache.classErasure t.store.env ⟨12⟩).1 =
      (({} : ErasureCache).classErasure t.store.env ⟨12⟩).1 ∧
    (t.cache.classErasure t.store.env ⟨13⟩).2 = t.cache ∧
    ∀ m ∈ t.store.methodsOf ⟨0⟩, ∀ args,
      ((CallRule.generic t.store.env m args).run.run t.cache).2 = t.cache := by
  intro t refusal
  have hentry : t.cache.get? ⟨12⟩ = some (Subst.ofList [(⟨0⟩, .cls wellKnownIds.number)]) := by
    decide
  have hrefused : (t.cache.classErasure t.store.env ⟨13⟩).1 = .error refusal := by decide
  have hplain : ∀ m ∈ t.store.methodsOf ⟨0⟩, m.isGeneric = false ∧ m.container = ⟨0⟩ := by decide
  have htop : (t.store.classDef? ⟨0⟩).map (·.typeParams) = some [] := by decide
  obtain ⟨-, hsame, hunchanged, hcall⟩ := erasureCache_current Store.builtin boxSession
  refine ⟨⟨hentry, hrefused, hplain⟩, hsame ⟨12⟩, hunchanged ⟨13⟩ refusal hrefused, ?_⟩
  intro m hm args
  refine hcall m args (hplain m hm).1 fun c hc => ?_
  have hc' : t.store.classDef? m.container = some c := hc
  rw [(hplain m hm).2] at hc'
  rw [hc'] at htop
  exact Option.some.inj htop

end Lineage.Proofs
