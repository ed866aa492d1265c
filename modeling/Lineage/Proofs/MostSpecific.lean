import Lineage.Proofs.Assignability
import Lineage.Proofs.Candidates
import Mathlib.Data.Fintype.Card
import Mathlib.Data.Set.Finite.List

/-!
# A call means the most specific candidate

The search for a method only throws out candidates that another one beats. It does not
check that the one that remains beats all the others, and in general it need not. What
makes it do so is that specificity composes: one method is more specific than another
if its container and each of its parameters go where those of the other go, and
assignment composes in a coherent store.

The rest is an argument about finite orders. From a candidate that is beaten one can go
up to one that beats it, and on from there; with finitely many candidates this ends at
one that nothing beats, and by composition it beats the candidate at the start. So
there is always an unbeaten candidate, and if there is only one, it beats all others.
-/

namespace Lineage.Proofs

open Store

/-! ## Unbeaten elements of a finite order -/

/-- In a finite strict order, every element is unbeaten or beaten by an unbeaten one. -/
theorem exists_unbeaten {α : Type} {xs : List α} {R : α → α → Prop}
    (htrans : ∀ a ∈ xs, ∀ b ∈ xs, ∀ c ∈ xs, R a b → R b c → R a c) (hirr : ∀ a ∈ xs, ¬ R a a)
    {x : α} (hx : x ∈ xs) : ∃ u ∈ xs, (∀ y ∈ xs, ¬ R y u) ∧ (u = x ∨ R u x) := by
  let R' : {a // a ∈ xs} → {a // a ∈ xs} → Prop := fun a b => R a.1 b.1
  have : Finite {a // a ∈ xs} := List.finite_toSet xs
  have : IsTrans _ R' := ⟨fun a b c => htrans a.1 a.2 b.1 b.2 c.1 c.2⟩
  have : Std.Irrefl R' := ⟨fun a => hirr a.1 a.2⟩
  have hwf : WellFounded R' := Finite.wellFounded_of_trans_of_irrefl R'
  suffices hup : ∀ x : {a // a ∈ xs}, ∃ u ∈ xs, (∀ y ∈ xs, ¬ R y u) ∧ (u = x.1 ∨ R u x.1) from
    hup ⟨x, hx⟩
  intro x
  induction x using hwf.induction with
  | h x ih =>
      by_cases hbeaten : ∃ y ∈ xs, R y x.1
      · -- whatever is above what beats `x` beats `x`
        obtain ⟨y, hy, hyx⟩ := hbeaten
        obtain ⟨u, hu, hmax, habove⟩ := ih ⟨y, hy⟩ hyx
        refine ⟨u, hu, hmax, .inr ?_⟩
        rcases habove with rfl | huy
        · exact hyx
        · exact htrans u hu y hy x.1 x.2 huy hyx
      · exact ⟨x.1, x.2, fun y hy hyx => hbeaten ⟨y, hy, hyx⟩, .inl rfl⟩

/-! ## Specificity -/

/-- Arguments fit when each may be stored in its parameter. -/
theorem argsConvert_iff {env : Env} {args params : List Ty} :
    env.argsConvert args params = .ok true ↔
      List.Forall₂ (fun a p => env.assignable a p = .ok true) args params := by
  induction args generalizing params with
  | nil => cases params <;> simp [Env.argsConvert]
  | cons a args ih =>
      cases params with
      | nil => simp [Env.argsConvert]
      | cons p params =>
          rw [Env.argsConvert, List.forall₂_cons, ← ih, bind_eq_ok_iff, converts_eq_assignable]
          constructor
          · intro h
            obtain ⟨fits, hfits, h⟩ := h
            cases fits with
            | false => cases h
            | true => exact ⟨hfits, h⟩
          · intro h
            exact ⟨true, h.1, h.2⟩

theorem callFits_iff {env : Env} {m : Method} (hm : m.isVarargs = false) {args : List Ty} :
    env.callFits m args = .ok true ↔
      List.Forall₂ (fun a p => env.assignable a p = .ok true) args m.params := by
  rw [← argsConvert_iff]
  unfold Env.callFits
  rw [hm, if_neg Bool.false_ne_true]
  -- the count is checked first, and pairwise conversion implies it
  by_cases hlen : args.length = m.params.length
  · rw [if_neg (not_not.mpr hlen)]
  · rw [if_pos hlen]
    refine iff_of_false (by simp) fun h => ?_
    exact hlen (argsConvert_iff.mp h).length_eq

/-- The container and the parameters of the first method go where those of the second go. -/
structure Narrower (env : Env) (m o : Method) : Prop where
  container : Assigns env (.cls m.container) (.cls o.container)
  params : List.Forall₂ (Assigns env) m.params o.params

/-- Candidates of fixed arity, with parameters that are types of the store, in classes of which
none is nested in another. -/
structure Comparable (s : Store) (candidates : List Method) : Prop where
  fixedArity : ∀ m ∈ candidates, m.isVarargs = false
  canonical : ∀ m ∈ candidates, ∀ t ∈ m.params, t.isAmbiguous = false
  within : ∀ m ∈ candidates, ∀ t ∈ m.params, Within s t
  apart : ∀ m ∈ candidates, ∀ o ∈ candidates, m.container ≠ o.container →
    s.env.isEnclosed m.container o.container ≠ .ok true

/-- The search finds the first method more specific than the second. -/
def MoreSpecific (env : Env) (m o : Method) : Prop :=
  answer ((Resolver.standard env).moreSpecific m o) = .ok true

theorem moreSpecific_iff {env : Env} {m o : Method} :
    MoreSpecific env m o ↔ prefersBy (.standard env) m o = true := by
  rw [MoreSpecific, moreSpecific_eq, Except.ok.injEq]

theorem beatsBy_iff {r : Resolver Unit} {o m : Method} :
    beatsBy r o m = true ↔ prefersBy r o m = true ∧ ¬ prefersBy r m o = true := by
  simp [beatsBy]

theorem beatsBy_irrefl {r : Resolver Unit} {m : Method} : ¬ beatsBy r m m = true := by
  simp [beatsBy]

/-- The candidate is more specific than every other one, and no other one than it. -/
structure StrictMaximum (env : Env) (candidates : List Method) (m : Method) : Prop where
  mem : m ∈ candidates
  beats : ∀ o ∈ candidates, o ≠ m → MoreSpecific env m o ∧ ¬ MoreSpecific env o m

/-- Candidates are told apart by their positions, and nothing beats itself. -/
theorem mem_maximalBy_iff {s : Store} {r : Resolver Unit} {candidates : List Method}
    (hstored : ∀ m ∈ candidates, s.method? m.id = some m) {m : Method} :
    m ∈ maximalBy r candidates ↔
      m ∈ candidates ∧ ∀ o ∈ candidates, ¬ beatsBy r o m = true := by
  unfold maximalBy
  rw [List.mem_filter]
  refine and_congr_right fun hm => ?_
  rw [Bool.not_eq_true', List.any_eq_false]
  refine forall₂_congr fun o ho => ?_
  by_cases hid : o.id = m.id
  · -- one position holds one method
    have heq : o = m := by
      have hm' := hstored m hm
      rw [← hid, hstored o ho] at hm'
      exact Option.some.inj hm'
    simp [heq, beatsBy_irrefl]
  · simp [hid]

section Order

variable {s : Store} (hs : Reachable s) (hc : Coherent s)

include hs hc

/-- Parameter lists compose as their members do. -/
theorem forall₂_assigns_trans {as bs cs : List Ty} (h : List.Forall₂ (Assigns s.env) as bs)
    (h' : List.Forall₂ (Assigns s.env) bs cs) : List.Forall₂ (Assigns s.env) as cs := by
  induction h generalizing cs with
  | nil => exact h'
  | cons hab _ ih =>
      cases h' with
      | cons hbc hrest => exact .cons (hab.trans hs hc hbc) (ih hrest)

theorem Narrower.trans {m o k : Method} (h : Narrower s.env m o) (h' : Narrower s.env o k) :
    Narrower s.env m k where
  container := h.container.trans hs hc h'.container
  params := forall₂_assigns_trans hs hc h.params h'.params

/-- Two containers are related when the first goes where the second goes. -/
theorem related_iff {m o : Method} (hm : s.method? m.id = some m)
    (hapart : m.container ≠ o.container →
      s.env.isEnclosed m.container o.container ≠ .ok true) :
    (Resolver.standard s.env).related m.container o.container = true ↔
      Assigns s.env (.cls m.container) (.cls o.container) := by
  unfold Resolver.related
  rw [Bool.or_eq_true, Bool.or_eq_true, beq_iff_eq, answeredYes_iff, answeredYes_iff]
  by_cases heq : m.container = o.container
  · rw [heq]
    exact iff_of_true (.inl (.inl rfl)) (.refl _)
  · obtain ⟨c, hdef, -⟩ := (registry_reachable hs).members.method_listed hm
    -- containers are compared by descent, which has an answer in a coherent store
    obtain ⟨found, hrun, hfound⟩ : ∃ found,
        s.env.descends (.cls m.container) (.cls o.container) = .ok found ∧
          (found = true ↔ ProperSupertype s.env (.cls m.container) (.cls o.container)) :=
      hc.descends hs (within_of_classDef? hdef) rfl rfl
    have hne : Ty.cls m.container ≠ .cls o.container := fun h => heq (Ty.cls.inj h)
    rw [assigns_iff_properSupertype hne rfl (by simp), ← hfound]
    have henv : (Resolver.standard s.env).env = s.env := rfl
    rw [henv, hrun, Except.ok.injEq]
    constructor
    · intro h
      rcases h with (h | h) | h
      · exact absurd h heq
      · exact h
      · exact absurd h (hapart heq)
    · intro h
      exact .inl (.inr h)

theorem forall₂_assignable_iff {as bs : List Ty} (has : ∀ a ∈ as, a.isAmbiguous = false)
    (hbs : ∀ b ∈ bs, b.isAmbiguous = false) (hin : ∀ a ∈ as, Within s a) :
    List.Forall₂ (fun a b => s.env.assignable a b = .ok true) as bs ↔
      List.Forall₂ (Assigns s.env) as bs := by
  induction as generalizing bs with
  | nil => cases bs <;> simp
  | cons a as ih =>
      cases bs with
      | nil => simp
      | cons b bs =>
          rw [List.forall_mem_cons] at has hbs hin
          rw [List.forall₂_cons, List.forall₂_cons, ih has.2 hbs.2 hin.2,
            assignable_iff hs hc has.1 hbs.1 hin.1]

variable {candidates : List Method} (hcomp : Comparable s candidates)
  (hstored : ∀ m ∈ candidates, s.method? m.id = some m)

include hcomp hstored

/-- **Preference is specificity.** -/
theorem prefersBy_iff {m o : Method} (hm : m ∈ candidates) (ho : o ∈ candidates) :
    prefersBy (.standard s.env) m o = true ↔ Narrower s.env m o := by
  unfold prefersBy
  rw [answer_fits, Bool.and_eq_true, related_iff hs hc (hstored m hm) (hcomp.apart m hm o ho),
    answeredYes_iff, callFits_iff (hcomp.fixedArity o ho),
    forall₂_assignable_iff hs hc (hcomp.canonical m hm) (hcomp.canonical o ho)
      (hcomp.within m hm)]
  exact ⟨fun h => ⟨h.1, h.2⟩, fun h => ⟨h.container, h.params⟩⟩

theorem prefersBy_trans {m o k : Method} (hm : m ∈ candidates) (ho : o ∈ candidates)
    (hk : k ∈ candidates) (h : prefersBy (.standard s.env) m o = true)
    (h' : prefersBy (.standard s.env) o k = true) : prefersBy (.standard s.env) m k = true := by
  rw [prefersBy_iff hs hc hcomp hstored hm ho] at h
  rw [prefersBy_iff hs hc hcomp hstored ho hk] at h'
  rw [prefersBy_iff hs hc hcomp hstored hm hk]
  exact h.trans hs hc h'

/-- Every candidate is unbeaten or beaten by an unbeaten one. -/
theorem exists_maximal_above {m : Method} (hm : m ∈ candidates) :
    ∃ u ∈ maximalBy (.standard s.env) candidates,
      u = m ∨ beatsBy (.standard s.env) u m = true := by
  let r := Resolver.standard s.env
  have htrans : ∀ a ∈ candidates, ∀ b ∈ candidates, ∀ c ∈ candidates,
      beatsBy r a b = true → beatsBy r b c = true → beatsBy r a c = true := by
    intro a ha b hb c hcand hab hbc
    rw [beatsBy_iff] at hab hbc ⊢
    have htr := @prefersBy_trans s hs hc candidates hcomp hstored
    -- if `c` came before `a`, it would come before `b`
    exact ⟨htr ha hb hcand hab.1 hbc.1, fun hca => hbc.2 (htr hcand ha hb hca hab.1)⟩
  obtain ⟨u, hu, hmax, habove⟩ := exists_unbeaten htrans (fun _ _ => beatsBy_irrefl) hm
  exact ⟨u, (mem_maximalBy_iff hstored).mpr ⟨hu, hmax⟩, habove⟩

/-- **One candidate remains exactly when it beats all others.** -/
theorem maximalBy_eq_singleton_iff (hnd : candidates.Nodup) {m : Method} :
    maximalBy (.standard s.env) candidates = [m] ↔ StrictMaximum s.env candidates m := by
  constructor
  · intro h
    have hm : m ∈ maximalBy (.standard s.env) candidates := by rw [h]; exact List.mem_cons_self
    refine ⟨((mem_maximalBy_iff hstored).mp hm).1, fun o ho hne => ?_⟩
    -- above the other there is an unbeaten one, and only `m` is left for it
    obtain ⟨u, hu, habove⟩ := exists_maximal_above hs hc hcomp hstored ho
    rw [h, List.mem_singleton] at hu
    subst hu
    rw [moreSpecific_iff, moreSpecific_iff, ← beatsBy_iff]
    exact habove.resolve_left fun heq => hne heq.symm
  · intro h
    have hwins : ∀ o ∈ candidates, o ≠ m → beatsBy (.standard s.env) m o = true := by
      intro o ho hne
      rw [beatsBy_iff, ← moreSpecific_iff, ← moreSpecific_iff]
      exact h.beats o ho hne
    have hm : m ∈ maximalBy (.standard s.env) candidates := by
      refine (mem_maximalBy_iff hstored).mpr ⟨h.mem, fun o ho hom => ?_⟩
      by_cases heq : o = m
      · rw [heq] at hom
        exact beatsBy_irrefl hom
      · exact (beatsBy_iff.mp (hwins o ho heq)).2 (beatsBy_iff.mp hom).1
    -- an unbeaten one is not beaten by `m`, which beats all others
    have honly : ∀ u ∈ maximalBy (.standard s.env) candidates, u = m := by
      intro u hu
      by_contra hne
      obtain ⟨hmem, hmax⟩ := (mem_maximalBy_iff hstored).mp hu
      exact hmax m h.mem (hwins u hmem hne)
    have hmaxnd : (maximalBy (.standard s.env) candidates).Nodup := hnd.filter _
    refine List.perm_singleton.mp
      ((List.perm_ext_iff_of_nodup hmaxnd (List.nodup_singleton m)).mpr fun u => ?_)
    rw [List.mem_singleton]
    exact ⟨honly u, fun heq => heq ▸ hm⟩

end Order

/--
**A call means the strict maximum of its candidates**, in a coherent store and among
comparable candidates: the search answers with a method exactly when that method is
more specific than every other candidate and no other candidate is more specific than
it. If there is no such method, the call is ambiguous between at least two candidates,
which are exactly those that no other one beats.
-/
theorem getMethod_iff_strictMaximum {s : Store} (hs : Reachable s) (hc : Coherent s)
    {call : MethodCall} {ctx : AccessContext} {candidates : List Method}
    (happ : answer ((Resolver.standard s.env).applicable call ctx) = .ok candidates)
    (hne : candidates ≠ []) (hcomp : Comparable s candidates) :
    (∀ m, answer ((Resolver.standard s.env).getMethod call ctx) = .ok m ↔
      StrictMaximum s.env candidates m) ∧
    ((¬ ∃ m, StrictMaximum s.env candidates m) →
      ∃ tied : List Method, 2 ≤ tied.length ∧
        (∀ m, m ∈ tied ↔ m ∈ candidates ∧
          ∀ o ∈ candidates, MoreSpecific s.env o m → MoreSpecific s.env m o) ∧
        answer ((Resolver.standard s.env).getMethod call ctx) =
          .error (.ambiguousMethod call.name (tied.map (Resolver.standard s.env).qualified))) := by
  have hstored : ∀ m ∈ candidates, s.method? m.id = some m :=
    fun m hm => method?_of_candidate happ hs hm
  let r := Resolver.standard s.env
  have hsingle : ∀ m, maximalBy r candidates = [m] ↔ StrictMaximum s.env candidates m :=
    fun m => maximalBy_eq_singleton_iff hs hc hcomp hstored (candidates_nodup happ hs)
  have hmem : ∀ m, m ∈ maximalBy r candidates ↔ m ∈ candidates ∧
      ∀ o ∈ candidates, MoreSpecific s.env o m → MoreSpecific s.env m o := by
    intro m
    rw [mem_maximalBy_iff hstored]
    refine and_congr_right fun _ => forall₂_congr fun o _ => ?_
    rw [beatsBy_iff, moreSpecific_iff, moreSpecific_iff, not_and, not_not]
  -- there is a candidate, and above it an unbeaten one
  have hnonempty : maximalBy r candidates ≠ [] := by
    obtain ⟨m, hm⟩ := List.exists_mem_of_ne_nil candidates hne
    obtain ⟨u, hu, -⟩ := exists_maximal_above hs hc hcomp hstored hm
    exact List.ne_nil_of_mem hu
  have hrun := getMethod_of_candidates r happ hne
  unfold verdict at hrun
  rcases hmax : maximalBy r candidates with _ | ⟨u, _ | ⟨w, rest⟩⟩
  · exact absurd hmax hnonempty
  · -- one candidate remains
    rw [hmax] at hrun hsingle
    refine ⟨fun m => ?_, fun hnone => absurd ⟨u, (hsingle u).mp rfl⟩ hnone⟩
    rw [hrun, ← hsingle m, Except.ok.injEq, List.cons_eq_cons, and_iff_left rfl]
  · -- at least two remain
    rw [hmax] at hrun hsingle hmem
    refine ⟨fun m => ?_, fun _ => ⟨u :: w :: rest, by simp, hmem, hrun⟩⟩
    rw [hrun, ← hsingle m]
    simp

/-- A public method without a result. -/
def overload (name : String) (params : List Ty) : MethodDecl :=
  { name, params, returnType := .prim .void, flags := .pub }

/-- A class with two overloads, and a subclass with a third one; and two more methods, each of them
more specific than the other in one parameter. -/
def overloadsRun : List Change :=
  [.addClass { name := "p.A",
               methods := [overload "f" [.cls wellKnownIds.object],
                           overload "f" [.cls wellKnownIds.number],
                           overload "g" [.cls wellKnownIds.number, .cls wellKnownIds.integer]] },
   .addClass { name := "p.B", superclass := some (.cls ⟨12⟩),
               methods := [overload "f" [.cls wellKnownIds.integer],
                           overload "g" [.cls wellKnownIds.integer,
                                         .cls wellKnownIds.number]] }]

/-- The overload in the subclass is meant by the one call, and the other call is ambiguous. -/
theorem getMethod_of_overloads :
    let s := afterAll Store.builtin overloadsRun
    let r := Resolver.standard s.env
    let ctx : AccessContext := { current := ⟨13⟩ }
    let integer : Ty := .cls wellKnownIds.integer
    let call : MethodCall := ⟨.cls ⟨13⟩, "f", [integer]⟩
    let tie : MethodCall := ⟨.cls ⟨13⟩, "g", [integer, integer]⟩
    let fs := (s.methodsOf ⟨13⟩ ++ s.methodsOf ⟨12⟩).filter fun m => m.name == "f"
    let gs := (s.methodsOf ⟨13⟩ ++ s.methodsOf ⟨12⟩).filter fun m => m.name == "g"
    let winner := methodOf ⟨8⟩ ⟨13⟩ (overload "f" [integer])
    (Reachable s ∧ Coherent s) ∧
      (fs.length = 3 ∧ answer (r.applicable call ctx) = .ok fs ∧ Comparable s fs) ∧
      StrictMaximum s.env fs winner ∧ answer (r.getMethod call ctx) = .ok winner ∧
      (gs.length = 2 ∧ answer (r.applicable tie ctx) = .ok gs ∧ Comparable s gs) ∧
      (¬ ∃ m, StrictMaximum s.env gs m) ∧
      ∃ tied : List Method, 2 ≤ tied.length ∧
        (∀ m, m ∈ tied ↔ m ∈ gs ∧
          ∀ o ∈ gs, MoreSpecific s.env o m → MoreSpecific s.env m o) ∧
        answer (r.getMethod tie ctx) = .error (.ambiguousMethod "g" (tied.map r.qualified)) := by
  intro s r ctx integer call tie fs gs winner
  have hreach : Reachable s := reachable_afterAll Reachable.builtin overloadsRun
  have hc : Coherent s := (closed_of_isClosed (by decide)).coherent (by decide)
  have hf : answer (r.applicable call ctx) = .ok fs := by decide
  have hg : answer (r.applicable tie ctx) = .ok gs := by decide
  have hfcomp : Comparable s fs := ⟨by decide, by decide, by decide, by decide⟩
  have hgcomp : Comparable s gs := ⟨by decide, by decide, by decide, by decide⟩
  obtain ⟨hmeant, -⟩ := getMethod_iff_strictMaximum hreach hc hf (by decide) hfcomp
  obtain ⟨hnever, htied⟩ := getMethod_iff_strictMaximum hreach hc hg (by decide) hgcomp
  have hwinner : answer (r.getMethod call ctx) = .ok winner := by decide
  have hnone : ¬ ∃ m, StrictMaximum s.env gs m := by
    rintro ⟨m, hm⟩
    have herror : (answer (r.getMethod tie ctx)).isOk = false := by decide
    rw [(hnever m).mpr hm] at herror
    cases herror
  exact ⟨⟨hreach, hc⟩, ⟨rfl, hf, hfcomp⟩, (hmeant winner).mp hwinner, hwinner,
    ⟨rfl, hg, hgcomp⟩, hnone, htied hnone⟩

end Lineage.Proofs
