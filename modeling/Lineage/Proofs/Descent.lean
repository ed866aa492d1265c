import Lineage.Proofs.Supertype

/-!
# Descent decides reachability

The search for an ancestor is depth first, shares what it has met between
siblings, and gives up below its depth limit. That it finds only what lies above is
an induction on the levels left. That it misses nothing is the invariant
`Explored`: whenever the search comes back empty-handed, every type that it met on
the way has been done with, so that each of its direct supertypes is either among
the types met or leads nowhere (`Settled`). Types still on the stack are exempt;
they are among those met before.

At the end of a search nothing is on the stack. The types met are then closed under
direct supertypes as far as the ancestor is concerned, and it cannot lie above any
of them. Cycles need no care: they are closed like anything else.

All this is about types whose links can be followed. Where some cannot, the search
may fail, but an answer of no is still right: each level that gave an answer has
followed the links it needed, and that is enough to go on as before (`Underway`).
-/

namespace Lineage.Proofs

open Store Relation

/-! ## What one level of the search does -/

/-- Trying two lists one after the other. -/
theorem anyReaches_append (ancestor : Ty)
    (f : Ty → List Ty → Except TypeError (Bool × List Ty)) (ts us met : List Ty) :
    Env.anyReaches ancestor f (ts ++ us) met = (do
      let (found, met) ← Env.anyReaches ancestor f ts met
      if found then pure (true, met) else Env.anyReaches ancestor f us met) := by
  induction ts generalizing met with
  | nil => rfl
  | cons t ts ih =>
      rw [List.cons_append, Env.anyReaches, Env.anyReaches]
      -- what was met by the first list is handed on to the second
      split
      · rfl
      · cases f t met with
        | error e => rfl
        | ok r =>
            obtain ⟨found, met'⟩ := r
            cases found with
            | true => rfl
            | false => exact ih met'

section Level

variable {env : Env} {ancestor : Ty} {n : Nat} {met : List Ty}

theorem search_of_not_reference {child : Ty} (h : child.isReference = false) :
    env.search ancestor n child met = .ok (false, met) := by
  rw [Env.search.eq_def]
  simp [h]

theorem search_of_mem {child : Ty} (hne : child ≠ ancestor) (h : child ∈ met) :
    env.search ancestor n child met = .ok (false, met) := by
  rw [Env.search.eq_def]
  simp [h, hne]

variable (hanc : ancestor.isReference = true)

include hanc

theorem search_null (hne : .null ≠ ancestor) (h : .null ∉ met) :
    env.search ancestor (n + 1) .null met = .ok (true, .null :: met) := by
  rw [Env.search.eq_def]
  simp [hanc, hne, h]

theorem search_array {element : Ty} (hne : .array element ≠ ancestor) (h : .array element ∉ met) :
    env.search ancestor (n + 1) (.array element) met =
      .ok (decide (ancestor ∈ env.arraySupertypes), .array element :: met) := by
  rw [Env.search.eq_def]
  simp [hanc, hne, h]

theorem search_var {v : TypeVarId} {p : TypeParam} (hne : .var v ≠ ancestor) (h : .var v ∉ met)
    (hp : env.typeParam? v = some p) :
    env.search ancestor (n + 1) (.var v) met =
      Env.anyReaches ancestor (env.search ancestor n) [p.bound] (.var v :: met) := by
  have hb : env.boundOf v = .ok p.bound := boundOf_eq_ok_iff.mpr ⟨p, hp, rfl⟩
  rw [Env.search.eq_def]
  simp [hanc, hne, h, hb]

theorem search_interface {id : ClassId} {c : ClassDef} {is : List ClassId}
    (hne : .cls id ≠ ancestor) (h : .cls id ∉ met) (hc : env.classDef? id = some c)
    (hi : c.isInterface = true) (htop : ancestor ≠ env.objectType)
    (his : env.interfacesOf id = .ok is) :
    env.search ancestor (n + 1) (.cls id) met =
      Env.anyReaches ancestor (env.search ancestor n) (is.map .cls) (.cls id :: met) := by
  have hclass : env.classDef id = .ok c := classDef_eq_ok_iff.mpr hc
  rw [Env.search.eq_def]
  simp [hanc, hne, h, hclass, hi, htop, his]

theorem search_class {id : ClassId} {c : ClassDef} {parent : Option ClassId} {is : List ClassId}
    (hne : .cls id ≠ ancestor) (h : .cls id ∉ met) (hc : env.classDef? id = some c)
    (hi : c.isInterface = false) (hobj : id ≠ env.wellKnown.object)
    (hparent : env.superclassOf id = .ok parent) (his : env.interfacesOf id = .ok is) :
    env.search ancestor (n + 1) (.cls id) met =
      Env.anyReaches ancestor (env.search ancestor n) ((parent.toList ++ is).map .cls)
        (.cls id :: met) := by
  have hclass : env.classDef id = .ok c := classDef_eq_ok_iff.mpr hc
  rw [List.map_append, anyReaches_append, Env.search.eq_def]
  simp [hanc, hne, h, hclass, hi, hobj, hparent, his]

theorem search_object {c : ClassDef} (hne : env.objectType ≠ ancestor)
    (h : env.objectType ∉ met) (hc : env.classDef? env.wellKnown.object = some c)
    (hi : c.isInterface = false) :
    env.search ancestor (n + 1) env.objectType met = .ok (false, env.objectType :: met) := by
  have hclass : env.classDef env.wellKnown.object = .ok c := classDef_eq_ok_iff.mpr hc
  unfold Env.objectType at hne h ⊢
  rw [Env.search.eq_def]
  simp [hanc, hne, h, hclass, hi]

/-- A class is searched through the classes that its links lead to, unless it is an interface
and the top class is sought. -/
theorem search_cls {id : ClassId} {targets : List ClassId} (hne : .cls id ≠ ancestor)
    (h : .cls id ∉ met) (hf : Follows env id targets) :
    (DirectSupertype env (.cls id) ancestor ∧
      env.search ancestor (n + 1) (.cls id) met = .ok (true, .cls id :: met)) ∨
    ((∀ t, DirectSupertype env (.cls id) t →
        Link env (.cls id) t ∨ t = env.objectType ∧ t ≠ ancestor) ∧
      env.search ancestor (n + 1) (.cls id) met =
        Env.anyReaches ancestor (env.search ancestor n) (targets.map .cls) (.cls id :: met)) := by
  obtain ⟨c, hc, htargets⟩ := hf
  unfold followedLinks at htargets
  cases hi : c.isInterface with
  | true =>
      -- of an interface, the top class is the one edge that is no link
      by_cases htop : ancestor = env.objectType
      · subst htop
        refine .inl ⟨DirectSupertype.top hc hi, ?_⟩
        have hclass : env.classDef id = .ok c := classDef_eq_ok_iff.mpr hc
        rw [Env.search.eq_def]
        simp [hanc, hne, h, hclass, hi]
      · rw [if_pos hi] at htargets
        refine .inr ⟨?_, search_interface hanc hne h hc hi htop
          (interfacesOf_eq_ok_iff.mpr ⟨c, hc, htargets⟩)⟩
        intro t ht
        cases ht with
        | link hl => exact .inl hl
        | top => exact .inr ⟨rfl, fun heq => htop heq.symm⟩
  | false =>
      rw [if_neg (by simp [hi])] at htargets
      refine .inr ⟨?_, ?_⟩
      · intro t ht
        cases ht with
        | link hl => exact .inl hl
        | top hd hdi =>
            rw [hc] at hd
            cases hd
            rw [hi] at hdi
            cases hdi
      · -- the top class has nothing above it, and its links are not looked at
        by_cases hobj : id = env.wellKnown.object
        · rw [if_pos hobj] at htargets
          cases htargets
          subst hobj
          exact search_object hanc hne h hc hi
        · rw [if_neg hobj] at htargets
          obtain ⟨parent, is, hparent, his, rfl⟩ := lists_iff.mpr ⟨c, hc, htargets⟩
          exact search_class hanc hne h hc hi hobj hparent his

end Level

/-! ## What is found lies above -/

theorem anyReaches_true {ancestor : Ty} {f : Ty → List Ty → Except TypeError (Bool × List Ty)}
    {ts met met' : List Ty} (h : Env.anyReaches ancestor f ts met = .ok (true, met')) :
    ∃ t ∈ ts, t = ancestor ∨ ∃ m m', f t m = .ok (true, m') := by
  induction ts generalizing met with
  | nil => cases h
  | cons t ts ih =>
      rw [Env.anyReaches] at h
      split at h
      · rename_i heq
        exact ⟨t, List.mem_cons_self, .inl heq⟩
      · -- this one was searched: it has found the ancestor, or a later one has
        obtain ⟨⟨found, m⟩, hf, h⟩ := bind_eq_ok_iff.mp h
        cases found with
        | true => exact ⟨t, List.mem_cons_self, .inr ⟨met, m, hf⟩⟩
        | false =>
            obtain ⟨u, hu, hreach⟩ := ih h
            exact ⟨u, List.mem_cons_of_mem t hu, hreach⟩

/-- A search that succeeds has passed its guards and has a level to spend. -/
theorem search_true_guards {env : Env} {ancestor child : Ty} {n : Nat} {met met' : List Ty}
    (h : env.search ancestor n child met = .ok (true, met')) :
    child ≠ ancestor ∧ child.isReference = true ∧ ancestor.isReference = true ∧ child ∉ met ∧
      ∃ k, n = k + 1 := by
  rw [Env.search.eq_def] at h
  dsimp only at h
  split at h
  · cases h
  · rename_i hguard
    simp only [Bool.or_eq_true, decide_eq_true_eq, Bool.not_eq_true', not_or,
      Bool.not_eq_false] at hguard
    obtain ⟨⟨hne, href⟩, hanc⟩ := hguard
    -- met before, the child would have been passed over
    split at h
    · cases h
    · rename_i hmet
      cases n with
      | zero => cases h
      | succ k => exact ⟨hne, href, hanc, hmet, k, rfl⟩

/-- The search for `ancestor` above `child` is over, or goes on through links of `child`. -/
def Proceeds (env : Env) (ancestor : Ty) (n : Nat) (child : Ty) : Prop :=
  DirectSupertype env child ancestor ∨
    ∃ ts m m', (∀ t ∈ ts, Link env child t) ∧
      Env.anyReaches ancestor (env.search ancestor n) ts m = .ok (true, m')

theorem search_cls_proceeds {env : Env} {ancestor : Ty} {n : Nat} {id : ClassId}
    {met met' : List Ty} (h : env.search ancestor (n + 1) (.cls id) met = .ok (true, met')) :
    Proceeds env ancestor n (.cls id) := by
  obtain ⟨hne, href, hanc, hmet, -⟩ := search_true_guards h
  rw [Env.search.eq_def] at h
  simp only [hne, href, hanc, hmet, decide_false, Bool.not_true, Bool.or_self,
    Bool.false_eq_true, if_false] at h
  obtain ⟨c, hc, h⟩ := bind_eq_ok_iff.mp h
  have hc := classDef_eq_ok_iff.mp hc
  split at h
  · -- an interface: the top class is known to lie above, the rest is searched
    rename_i hi
    split at h
    · rename_i htop
      exact .inl (htop ▸ DirectSupertype.top hc hi)
    · obtain ⟨is, his, h⟩ := bind_eq_ok_iff.mp h
      refine .inr ⟨_, _, _, ?_, h⟩
      exact List.forall_mem_map.mpr fun i hmem => link_of_interface hc (.inl hi) his hmem
  · rename_i hi
    simp only [Bool.not_eq_true] at hi
    split at h
    · cases h
    · rename_i hobj
      obtain ⟨parent, hparent, h⟩ := bind_eq_ok_iff.mp h
      obtain ⟨⟨found, m⟩, hrun, h⟩ := bind_eq_ok_iff.mp h
      cases found with
      | true =>
          -- found above the superclass; the interfaces may even be broken
          refine .inr ⟨_, _, _, ?_, hrun⟩
          refine List.forall_mem_map.mpr fun p hmem => ?_
          rw [Option.mem_toList] at hmem
          cases hmem
          exact link_of_superclass hc hi hobj hparent
      | false =>
          obtain ⟨is, his, h⟩ := bind_eq_ok_iff.mp h
          refine .inr ⟨_, _, _, ?_, h⟩
          exact List.forall_mem_map.mpr fun i hmem => link_of_interface hc (.inr hobj) his hmem

/-- A search succeeds on the spot or by way of links, which need not all resolve. -/
theorem search_proceeds {env : Env} {ancestor child : Ty} {n : Nat} {met met' : List Ty}
    (h : env.search ancestor (n + 1) child met = .ok (true, met')) :
    Proceeds env ancestor n child := by
  obtain ⟨hne, href, hanc, hmet, -⟩ := search_true_guards h
  cases child with
  | prim p => cases href
  | package name => cases href
  | named name => cases href
  | null => exact .inl (DirectSupertype.null hanc fun heq => hne heq.symm)
  | array element =>
      rw [search_array hanc hne hmet, Except.ok.injEq, Prod.mk.injEq, decide_eq_true_eq] at h
      exact .inl (DirectSupertype.array h.1)
  | var v =>
      rw [Env.search.eq_def] at h
      simp only [hne, href, hanc, hmet, decide_false, Bool.not_true, Bool.or_self,
        Bool.false_eq_true, if_false] at h
      obtain ⟨bound, hb, h⟩ := bind_eq_ok_iff.mp h
      obtain ⟨p, hp, rfl⟩ := boundOf_eq_ok_iff.mp hb
      refine .inr ⟨_, _, _, ?_, h⟩
      intro t ht
      rw [List.mem_singleton.mp ht]
      exact Link.bound hp
  | cls id => exact search_cls_proceeds h

/-- **The search finds only proper supertypes**, whatever the state of the graph. -/
theorem search_sound {env : Env} {ancestor : Ty} {n : Nat} {child : Ty} {met met' : List Ty}
    (h : env.search ancestor n child met = .ok (true, met')) :
    ProperSupertype env child ancestor := by
  induction n generalizing child met met' with
  | zero =>
      obtain ⟨_, _, _, _, k, hk⟩ := search_true_guards h
      cases hk
  | succ n ih =>
      obtain ⟨hne, href, hanc, -⟩ := search_true_guards h
      refine ⟨hne, href, hanc, ?_⟩
      rcases search_proceeds h with hdirect | ⟨ts, m, m', hlinks, hrun⟩
      · exact TransGen.single hdirect
      · -- one of the links is the ancestor, or leads to it by induction
        obtain ⟨t, ht, rfl | ⟨m₁, m₂, hfound⟩⟩ := anyReaches_true hrun
        · exact TransGen.single (DirectSupertype.link (hlinks t ht))
        · exact TransGen.head (DirectSupertype.link (hlinks t ht)) (ih hfound).2.2.2

/-! ## What is missed does not -/

/-- As far as `ancestor` is concerned, nothing is left to do about `t`. -/
def Settled (env : Env) (ancestor : Ty) (met : List Ty) (t : Ty) : Prop :=
  t ≠ ancestor ∧ (t ∈ met ∨ ¬ Above env t ancestor)

/-- What was met since `before` has been done with. -/
def Explored (env : Env) (ancestor : Ty) (before met : List Ty) : Prop :=
  before ⊆ met ∧
    ∀ u ∈ met, u ∉ before → ∀ t, DirectSupertype env u t → Settled env ancestor met t

/-- A search of `ts` comes to an answer. If that is no, then `ts` and all that was met are done
with, and `Q` holds of what was met. -/
def Answers (env : Env) (ancestor : Ty) (met ts : List Ty) (Q : List Ty → Prop)
    (outcome : Except TypeError (Bool × List Ty)) : Prop :=
  ∃ found met', outcome = .ok (found, met') ∧ (found = false →
    Explored env ancestor met met' ∧ (∀ t ∈ ts, Settled env ancestor met' t) ∧ Q met')

/-- The loop over direct supertypes. `P` is what holds of the list and the types met before each
round. If every round that finds nothing moves what was met along `R`, and leaves its type with `S`,
then so does the loop with all of its types. -/
theorem anyReaches_loop {ancestor : Ty} {f : Ty → List Ty → Except TypeError (Bool × List Ty)}
    {R P : List Ty → List Ty → Prop} {S : List Ty → Ty → Prop} (hrefl : ∀ m, R m m)
    (htrans : ∀ m₁ m₂ m₃, R m₁ m₂ → R m₂ m₃ → R m₁ m₃)
    (hmono : ∀ m m' t, R m m' → S m t → S m' t)
    (hround : ∀ t ts m, P (t :: ts) m → t ≠ ancestor →
      ∃ found m', f t m = .ok (found, m') ∧ (found = false → R m m' ∧ S m' t ∧ P ts m'))
    {ts met : List Ty} (h : P ts met) :
    ∃ found met', Env.anyReaches ancestor f ts met = .ok (found, met') ∧
      (found = false → R met met' ∧ (∀ t ∈ ts, S met' t) ∧ P [] met') := by
  induction ts generalizing met with
  | nil => exact ⟨false, met, rfl, fun _ => ⟨hrefl met, by simp, h⟩⟩
  | cons t ts ih =>
      by_cases heq : t = ancestor
      · exact ⟨true, met, by rw [Env.anyReaches, if_pos heq]; rfl, by simp⟩
      · obtain ⟨found, met₁, hrun, hno⟩ := hround t ts met h heq
        rw [Env.anyReaches, if_neg heq, hrun]
        cases found with
        | true => exact ⟨true, met₁, rfl, by simp⟩
        | false =>
            -- a round that finds nothing is followed by the rest, and what it left holds on
            obtain ⟨hR, hS, hP⟩ := hno rfl
            obtain ⟨found, met₂, hrest, hno₂⟩ := ih hP
            refine ⟨found, met₂, hrest, fun hfound => ?_⟩
            obtain ⟨hR₂, hS₂, hend⟩ := hno₂ hfound
            refine ⟨htrans _ _ _ hR hR₂, List.forall_mem_cons.mpr ⟨?_, hS₂⟩, hend⟩
            exact hmono _ _ t hR₂ hS

section Answers

variable {env : Env} {ancestor : Ty}

theorem Settled.mono {met met' : List Ty} {t : Ty} (h : Settled env ancestor met t)
    (hsub : met ⊆ met') : Settled env ancestor met' t :=
  ⟨h.1, h.2.imp_left fun ht => hsub ht⟩

theorem Explored.refl (met : List Ty) : Explored env ancestor met met :=
  ⟨List.Subset.refl met, fun _ hu hnot => absurd hu hnot⟩

theorem Explored.trans {met₁ met₂ met₃ : List Ty} (h : Explored env ancestor met₁ met₂)
    (h' : Explored env ancestor met₂ met₃) : Explored env ancestor met₁ met₃ := by
  refine ⟨List.Subset.trans h.1 h'.1, ?_⟩
  intro u hu hnot t ht
  by_cases hmid : u ∈ met₂
  · -- what was settled stays settled when more is met
    exact (h.2 u hmid hnot t ht).mono h'.1
  · exact h'.2 u hu hmid t ht

/-- With nothing on the stack, the ancestor lies above nothing that is done with. -/
theorem Explored.not_above {met : List Ty} (h : Explored env ancestor [] met) {t : Ty}
    (ht : Settled env ancestor met t) : ¬ Above env t ancestor := by
  intro habove
  -- the path to the ancestor never leaves the types met: its last edge would settle the ancestor
  induction habove using TransGen.head_induction_on with
  | single hdirect =>
      rcases ht.2 with hmem | hnot
      · exact (h.2 _ hmem List.not_mem_nil _ hdirect).1 rfl
      · exact hnot (TransGen.single hdirect)
  | head hdirect hrest ih =>
      rcases ht.2 with hmem | hnot
      · exact ih (h.2 _ hmem List.not_mem_nil _ hdirect)
      · exact hnot (TransGen.head hdirect hrest)

theorem Answers.imp {met ts : List Ty} {Q Q' : List Ty → Prop}
    {outcome : Except TypeError (Bool × List Ty)} (h : Answers env ancestor met ts Q outcome)
    (himp : ∀ met', met ⊆ met' → Q met' → Q' met') :
    Answers env ancestor met ts Q' outcome := by
  obtain ⟨found, met', hrun, hno⟩ := h
  refine ⟨found, met', hrun, fun hfound => ?_⟩
  obtain ⟨hexp, hset, hq⟩ := hno hfound
  exact ⟨hexp, hset, himp met' hexp.1 hq⟩

theorem anyReaches_answers {f : Ty → List Ty → Except TypeError (Bool × List Ty)}
    {P : List Ty → List Ty → Prop}
    (hround : ∀ t ts met, P (t :: ts) met → t ≠ ancestor →
      Answers env ancestor met [t] (P ts) (f t met))
    {ts met : List Ty} (h : P ts met) :
    Answers env ancestor met ts (P []) (Env.anyReaches ancestor f ts met) := by
  refine anyReaches_loop Explored.refl (fun _ _ _ => Explored.trans)
    (fun _ _ _ hexp hset => hset.mono hexp.1) ?_ h
  intro t ts m hP hne
  -- one round answers for a list of one
  obtain ⟨found, m', hrun, hno⟩ := hround t ts m hP hne
  refine ⟨found, m', hrun, fun hfound => ?_⟩
  obtain ⟨hexp, hset, hrest⟩ := hno hfound
  exact ⟨hexp, hset t List.mem_cons_self, hrest⟩

/-- Once its direct supertypes are done with, the type itself is. -/
theorem Answers.up {child : Ty} {met ts : List Ty} {Q : List Ty → Prop}
    {outcome : Except TypeError (Bool × List Ty)}
    (h : Answers env ancestor (child :: met) ts Q outcome) (hne : child ≠ ancestor)
    (hts : ∀ t, DirectSupertype env child t → t ∈ ts ∨ Settled env ancestor [] t) :
    Answers env ancestor met [child] Q outcome := by
  obtain ⟨found, met', hrun, hno⟩ := h
  refine ⟨found, met', hrun, fun hfound => ?_⟩
  obtain ⟨hexp, hset, hq⟩ := hno hfound
  have hchild : child ∈ met' := hexp.1 List.mem_cons_self
  refine ⟨⟨List.Subset.trans (List.subset_cons_self child met) hexp.1, ?_⟩, ?_, hq⟩
  · intro u hu hnot t ht
    by_cases heq : u = child
    · -- `child` was on the stack, and leaves it now
      subst heq
      rcases hts t ht with hmem | hdone
      · exact hset t hmem
      · exact hdone.mono (List.nil_subset met')
    · refine hexp.2 u hu ?_ t ht
      rw [List.mem_cons, not_or]
      exact ⟨heq, hnot⟩
  · intro t ht
    rw [List.mem_singleton.mp ht]
    exact ⟨hne, .inl hchild⟩

theorem answers_true {met met' ts : List Ty} {Q : List Ty → Prop} :
    Answers env ancestor met ts Q (.ok (true, met')) := ⟨true, met', rfl, by simp⟩

/-- What is not a link and not the ancestor leads nowhere, because it is at the top. -/
theorem Rooted.settled_top (hroot : Rooted env) (hne : env.objectType ≠ ancestor)
    (met : List Ty) : Settled env ancestor met env.objectType :=
  ⟨hne, .inr hroot.not_above_top⟩

theorem Rooted.settled_array (hroot : Rooted env) (hnot : ancestor ∉ env.arraySupertypes)
    (met : List Ty) {t : Ty} (ht : t ∈ env.arraySupertypes) : Settled env ancestor met t := by
  refine ⟨fun heq => hnot (heq ▸ ht), .inr fun habove => hnot ?_⟩
  rw [hroot.above_array ht habove]
  exact List.mem_cons_self

/-- One level of the search: it succeeds on the spot or goes on through all links. -/
theorem search_level (hroot : Rooted env) (hanc : ancestor.isReference = true) {child : Ty}
    {n : Nat} {met : List Ty} (href : child.isReference = true) (hne : child ≠ ancestor)
    (h : child ∉ met) (hch : Charted env child) :
    env.search ancestor (n + 1) child met = .ok (true, child :: met) ∨
    ∃ ts, (∀ t ∈ ts, Link env child t) ∧
      (∀ t, DirectSupertype env child t → t ∈ ts ∨ Settled env ancestor [] t) ∧
      env.search ancestor (n + 1) child met =
        Env.anyReaches ancestor (env.search ancestor n) ts (child :: met) := by
  cases child with
  | prim p => cases href
  | package name => cases href
  | named name => cases href
  | null => exact .inl (search_null hanc hne h)
  | array element =>
      have hrun : env.search ancestor (n + 1) (.array element) met = _ := search_array hanc hne h
      by_cases hmem : ancestor ∈ env.arraySupertypes
      · rw [decide_eq_true hmem] at hrun
        exact .inl hrun
      · -- no link leads out of an array, and none of its three classes leads to the ancestor
        rw [decide_eq_false hmem] at hrun
        refine .inr ⟨[], by simp, ?_, hrun⟩
        intro t ht
        cases ht with
        | link hl => cases hl
        | array ht => exact .inr (hroot.settled_array hmem [] ht)
  | var v =>
      obtain ⟨p, hp⟩ := hch
      refine .inr ⟨[p.bound], ?_, ?_, search_var hanc hne h hp⟩
      · intro t ht
        rw [List.mem_singleton.mp ht]
        exact Link.bound hp
      · intro t ht
        cases ht with
        | link hl =>
            cases hl with
            | bound hq =>
                rw [hp] at hq
                cases hq
                exact .inl List.mem_cons_self
  | cls id =>
      obtain ⟨targets, hf⟩ := hch.follows
      rcases search_cls (n := n) hanc hne h hf with ⟨-, hrun⟩ | ⟨hedges, hrun⟩
      · exact .inl hrun
      · refine .inr ⟨targets.map .cls, fun t ht => hf.link_iff.mpr ht, ?_, hrun⟩
        intro t ht
        rcases hedges t ht with hl | ⟨rfl, htop⟩
        · exact .inl (hf.link_iff.mp hl)
        · exact .inr (hroot.settled_top htop [])

theorem search_answers_of_mem {child : Ty} {n : Nat} {met : List Ty} {Q : List Ty → Prop}
    (hne : child ≠ ancestor) (hmem : child ∈ met) (hq : Q met) :
    Answers env ancestor met [child] Q (env.search ancestor n child met) := by
  rw [search_of_mem hne hmem]
  refine ⟨false, met, rfl, fun _ => ⟨Explored.refl met, ?_, hq⟩⟩
  exact List.forall_mem_singleton.mpr ⟨hne, .inl hmem⟩

theorem search_answers_of_not_reference {child : Ty} {n : Nat} {met : List Ty}
    (hne : child ≠ ancestor) (href : child.isReference = false) :
    Answers env ancestor met [child] (fun _ => True) (env.search ancestor n child met) := by
  rw [search_of_not_reference href]
  refine ⟨false, met, rfl, fun _ => ⟨Explored.refl met, ?_, trivial⟩⟩
  -- nothing lies above what is no reference
  refine List.forall_mem_singleton.mpr ⟨hne, .inr fun habove => ?_⟩
  obtain ⟨u, hu, -⟩ := TransGen.head'_iff.mp habove
  rw [isReference_of_directSupertype hu] at href
  cases href

/-- **A search with room for every path comes to an answer, and misses nothing.** -/
theorem search_answers (hroot : Rooted env) (hanc : ancestor.isReference = true) {child : Ty}
    {n : Nat} {met : List Ty} (hne : child ≠ ancestor) (hch : ChartedAbove env child)
    (hroom : Room env n met child) :
    Answers env ancestor met [child] (fun _ => True) (env.search ancestor n child met) := by
  induction n generalizing child met with
  | zero =>
      -- without a level left, the child must have been met before
      have hmem : child ∈ met := by
        by_contra hnot
        exact absurd (hroom.pos hnot) (Nat.lt_irrefl 0)
      exact search_answers_of_mem hne hmem trivial
  | succ n ih =>
      by_cases hmem : child ∈ met
      · exact search_answers_of_mem hne hmem trivial
      cases href : child.isReference with
      | false => exact search_answers_of_not_reference hne href
      | true =>
          rcases search_level (n := n) hroot hanc href hne hmem hch.self with
            hrun | ⟨ts, hlinks, hedges, hrun⟩
          · rw [hrun]
            exact answers_true
          · rw [hrun]
            refine Answers.up ?_ hne hedges
            -- before each round: the links to come are links of `child`, which has been met
            have hround : ∀ t us m, (child :: met ⊆ m ∧ ∀ u ∈ t :: us, Link env child u) →
                t ≠ ancestor → Answers env ancestor m [t]
                  (fun m' => child :: met ⊆ m' ∧ ∀ u ∈ us, Link env child u)
                  (env.search ancestor n t m) := by
              intro t us m hbefore hnet
              obtain ⟨hsub, hus⟩ := hbefore
              rw [List.forall_mem_cons] at hus
              refine (ih hnet (hch.link hus.1) (hroom.link hus.1 hmem hsub)).imp ?_
              exact fun m' hm' _ => ⟨List.Subset.trans hsub hm', hus.2⟩
            have hloop := anyReaches_answers
              (P := fun us m => child :: met ⊆ m ∧ ∀ u ∈ us, Link env child u) hround
              ⟨List.Subset.refl _, hlinks⟩
            exact hloop.imp fun _ _ _ => trivial

/-- A search that comes back empty-handed could follow every link of where it began. -/
theorem charted_of_search {child : Ty} {n : Nat} {met met' : List Ty}
    (href : child.isReference = true) (hanc : ancestor.isReference = true)
    (hne : child ≠ ancestor) (hmet : child ∉ met)
    (h : env.search ancestor (n + 1) child met = .ok (false, met')) : Charted env child := by
  rw [Env.search.eq_def] at h
  simp only [hne, href, hanc, hmet, decide_false, Bool.not_true, Bool.or_self,
    Bool.false_eq_true, if_false] at h
  cases child with
  | cls id =>
      obtain ⟨c, hc, h⟩ := bind_eq_ok_iff.mp h
      refine ⟨c, classDef_eq_ok_iff.mp hc, ?_⟩
      unfold followedLinks
      split at h
      · rename_i hi
        rw [if_pos hi]
        split at h
        · cases h
        · obtain ⟨is, his, -⟩ := bind_eq_ok_iff.mp h
          obtain ⟨d, hd, htargets⟩ := interfacesOf_eq_ok_iff.mp his
          rw [classDef_eq_ok_iff.mp hc] at hd
          cases hd
          exact fun link hlink => exists_image htargets hlink
      · rename_i hi
        rw [if_neg hi]
        split at h
        · rename_i hobj
          rw [if_pos hobj]
          simp
        · rename_i hobj
          rw [if_neg hobj]
          obtain ⟨parent, hparent, h⟩ := bind_eq_ok_iff.mp h
          obtain ⟨⟨found, m⟩, -, h⟩ := bind_eq_ok_iff.mp h
          cases found with
          | true => cases h
          | false =>
              -- not above the superclass, so the interfaces were asked too
              obtain ⟨is, his, -⟩ := bind_eq_ok_iff.mp h
              obtain ⟨d, hd, htargets⟩ := lists_iff.mp ⟨parent, is, hparent, his, rfl⟩
              rw [classDef_eq_ok_iff.mp hc] at hd
              cases hd
              exact fun link hlink => exists_image htargets hlink
  | var v =>
      obtain ⟨bound, hb, -⟩ := bind_eq_ok_iff.mp h
      obtain ⟨p, hp, -⟩ := boundOf_eq_ok_iff.mp hb
      exact ⟨p, hp⟩
  | prim p => trivial
  | null => trivial
  | array element => trivial
  | package name => trivial
  | named name => trivial

/-- The loop over links of `child` is under way: it has met `child` and what was met before, it has
`ts` to go, and it will come back. -/
structure Underway (env : Env) (ancestor : Ty) (n : Nat) (child : Ty) (before ts met : List Ty) :
    Prop where
  kept : child :: before ⊆ met
  links : ∀ t ∈ ts, Link env child t
  returns : ∃ r, Env.anyReaches ancestor (env.search ancestor n) ts met = .ok r

/-- One round of a loop that comes back is a search that comes back. -/
theorem Underway.round {child t : Ty} {n : Nat} {before ts met : List Ty}
    (h : Underway env ancestor n child before (t :: ts) met) (hne : t ≠ ancestor)
    (hans : ∀ r, env.search ancestor n t met = .ok r →
      Answers env ancestor met [t] (fun _ => True) (env.search ancestor n t met)) :
    Answers env ancestor met [t] (Underway env ancestor n child before ts)
      (env.search ancestor n t met) := by
  -- the loop has come back, so this round and all later ones have
  obtain ⟨r, hrest⟩ := h.returns
  rw [Env.anyReaches, if_neg hne] at hrest
  obtain ⟨⟨found, met'⟩, hone, hrest⟩ := bind_eq_ok_iff.mp hrest
  obtain ⟨_, _, heq, hno⟩ := hans _ hone
  rw [hone] at heq
  cases heq
  refine ⟨found, met', hone, fun hfound => ?_⟩
  obtain ⟨hexp, hset, -⟩ := hno hfound
  subst hfound
  exact ⟨hexp, hset, List.Subset.trans h.kept hexp.1,
    fun u hu => h.links u (List.mem_cons_of_mem t hu), r, hrest⟩

/-- **A search with room for every path that comes back at all has missed nothing.** Nothing is
asked of the links above: those that matter were followed. -/
theorem search_answers_of_ok (hroot : Rooted env) (hanc : ancestor.isReference = true) {child : Ty}
    {n : Nat} {met : List Ty} (hne : child ≠ ancestor) (hroom : Room env n met child)
    {r : Bool × List Ty} (hrun : env.search ancestor n child met = .ok r) :
    Answers env ancestor met [child] (fun _ => True) (env.search ancestor n child met) := by
  induction n generalizing child met r with
  | zero =>
      have hmem : child ∈ met := by
        by_contra hnot
        exact absurd (hroom.pos hnot) (Nat.lt_irrefl 0)
      exact search_answers_of_mem hne hmem trivial
  | succ n ih =>
      by_cases hmem : child ∈ met
      · exact search_answers_of_mem hne hmem trivial
      cases href : child.isReference with
      | false => exact search_answers_of_not_reference hne href
      | true =>
          obtain ⟨found, met'⟩ := r
          cases found with
          | true =>
              rw [hrun]
              exact answers_true
          | false =>
              -- a no means that all links of the child could be followed
              have hch := charted_of_search href hanc hne hmem hrun
              rcases search_level (n := n) hroot hanc href hne hmem hch with
                htrue | ⟨ts, hlinks, hedges, hlevel⟩
              · rw [htrue] at hrun
                cases hrun
              · rw [hlevel] at hrun ⊢
                refine Answers.up ?_ hne hedges
                have hstart : Underway env ancestor n child met ts (child :: met) :=
                  ⟨List.Subset.refl _, hlinks, _, hrun⟩
                have hround : ∀ t us m, Underway env ancestor n child met (t :: us) m →
                    t ≠ ancestor → Answers env ancestor m [t]
                      (Underway env ancestor n child met us) (env.search ancestor n t m) := by
                  intro t us m h hnet
                  have hl := h.links t List.mem_cons_self
                  exact h.round hnet fun r => ih hnet (hroom.link hl hmem h.kept)
                exact (anyReaches_answers hround hstart).imp fun _ _ _ => trivial

end Answers

/-! ## The decision -/

theorem ensureCanonical_eq_ok {t : Ty} (h : t.isAmbiguous = false) :
    t.ensureCanonical = .ok () := by
  simp [Ty.ensureCanonical, h]

theorem isAmbiguous_of_ensureCanonical {t : Ty} {u : Unit} (h : t.ensureCanonical = .ok u) :
    t.isAmbiguous = false := by
  unfold Ty.ensureCanonical at h
  split at h
  · cases h
  · exact Bool.eq_false_iff.mpr ‹_›

theorem descends_eq_ok_iff {env : Env} {child ancestor : Ty} (hchild : child.isAmbiguous = false)
    (hanc : ancestor.isAmbiguous = false) {found : Bool} :
    env.descends child ancestor = .ok found ↔
      ∃ met, env.search ancestor (env.depthLimit + 1) child [] = .ok (found, met) := by
  unfold Env.descends
  rw [ensureCanonical_eq_ok hchild, ensureCanonical_eq_ok hanc, ok_bind, ok_bind, bind_eq_ok_iff]
  constructor
  · intro h
    obtain ⟨⟨b, met⟩, hrun, h⟩ := h
    cases h
    exact ⟨met, hrun⟩
  · intro h
    obtain ⟨met, hrun⟩ := h
    exact ⟨(found, met), hrun, rfl⟩

/-- Above an array there is nothing to look up. -/
theorem descends_array {env : Env} {t u : Ty} (ht : t.isAmbiguous = false)
    (hu : u.isAmbiguous = false) (href : u.isReference = true) (hne : .array t ≠ u) :
    env.descends (.array t) u = .ok (decide (u ∈ env.arraySupertypes)) := by
  have harray : (Ty.array t).isAmbiguous = false := ht
  exact (descends_eq_ok_iff harray hu).mpr ⟨_, search_array href hne (by simp)⟩

theorem descends_sound {env : Env} {child ancestor : Ty} (hchild : child.isAmbiguous = false)
    (hanc : ancestor.isAmbiguous = false) (h : env.descends child ancestor = .ok true) :
    ProperSupertype env child ancestor := by
  obtain ⟨met, hrun⟩ := (descends_eq_ok_iff hchild hanc).mp h
  exact search_sound hrun

/-- An answer of the search is the answer to the question. -/
theorem descends_of_answers {env : Env} {child ancestor : Ty} {Q : List Ty → Prop}
    (hchild : child.isAmbiguous = false) (hanc : ancestor.isAmbiguous = false)
    (h : Answers env ancestor [] [child] Q
      (env.search ancestor (env.depthLimit + 1) child [])) :
    ∃ found, env.descends child ancestor = .ok found ∧
      (found = true ↔ ProperSupertype env child ancestor) := by
  obtain ⟨found, met, hrun, hno⟩ := h
  refine ⟨found, (descends_eq_ok_iff hchild hanc).mpr ⟨met, hrun⟩, ?_⟩
  cases found with
  | true => exact iff_of_true rfl (search_sound hrun)
  | false =>
      -- all that was met is done with, so no path leads on to the ancestor
      obtain ⟨hexp, hset, -⟩ := hno rfl
      refine iff_of_false Bool.false_ne_true fun hproper => ?_
      exact hexp.not_above (hset child List.mem_cons_self) hproper.2.2.2

/-- **The walk decides proper supertypes** wherever its links can be followed and its limit leaves
room for every path. -/
theorem descends_complete {env : Env} {child ancestor : Ty} (hroot : Rooted env)
    (hchild : child.isAmbiguous = false) (hanc : ancestor.isAmbiguous = false)
    (hch : ChartedAbove env child) (hpaths : PathsWithin env env.depthLimit child) :
    ∃ found, env.descends child ancestor = .ok found ∧
      (found = true ↔ ProperSupertype env child ancestor) := by
  by_cases hne : child = ancestor
  · -- no type descends from itself, not even on a cycle
    subst hne
    refine ⟨false, (descends_eq_ok_iff hchild hanc).mpr ⟨[], env.search_self _ _ _⟩, ?_⟩
    exact iff_of_false Bool.false_ne_true fun hproper => hproper.1 rfl
  cases href : ancestor.isReference with
  | false =>
      refine ⟨false, (descends_eq_ok_iff hchild hanc).mpr ⟨[], ?_⟩, ?_⟩
      · rw [Env.search.eq_def]
        simp [href]
      · refine iff_of_false Bool.false_ne_true fun hproper => ?_
        rw [hproper.2.2.1] at href
        cases href
  | true =>
      exact descends_of_answers hchild hanc (search_answers hroot href hne hch hpaths.room)

/-- **A no is right** wherever the limit leaves room for every path, even if some links above the
type cannot be followed. -/
theorem not_properSupertype_of_descends {env : Env} {child ancestor : Ty} (hroot : Rooted env)
    (hchild : child.isAmbiguous = false) (hanc : ancestor.isAmbiguous = false)
    (hpaths : PathsWithin env env.depthLimit child)
    (h : env.descends child ancestor = .ok false) : ¬ ProperSupertype env child ancestor := by
  intro hproper
  obtain ⟨met, hrun⟩ := (descends_eq_ok_iff hchild hanc).mp h
  have hans := search_answers_of_ok hroot hproper.2.2.1 hproper.1 hpaths.room hrun
  obtain ⟨found, hfound, hiff⟩ := descends_of_answers hchild hanc hans
  rw [h] at hfound
  cases hfound
  exact Bool.false_ne_true (hiff.mpr hproper)

/--
**Descent is reachability by direct supertypes**, on every reachable store and
between all canonical types.

A positive answer is right whatever the state of the graph. If every class that can
be met is defined and every link on the way can be followed, and if no path without a
repetition is longer than the depth limit, then there is an answer and it is exact,
also if the graph has cycles. Both conditions are about declared links only: the edges
that go without saying lead to the built-in classes, or from `null`, and are not
walked.
-/
theorem descends_iff_properSupertype {s : Store} (hs : Reachable s) {child ancestor : Ty}
    (hchild : child.isAmbiguous = false) (hanc : ancestor.isAmbiguous = false) :
    (s.env.descends child ancestor = .ok true → ProperSupertype s.env child ancestor) ∧
    (ChartedAbove s.env child → PathsWithin s.env s.depthLimit child →
      ∃ found, s.env.descends child ancestor = .ok found ∧
        (found = true ↔ ProperSupertype s.env child ancestor)) :=
  ⟨descends_sound hchild hanc, descends_complete (rooted_of_reachable hs) hchild hanc⟩

/-- Two classes that extend each other, the second of which is serializable. -/
def knotRun : List Change :=
  [.intern "p.X", .addClass { name := "p.Y", superclass := some (.cls ⟨12⟩),
                              interfaces := [.cls wellKnownIds.serializable] },
   .addClass { name := "p.X", superclass := some (.named "p.Y") }]

/-- From inside the knot the way out to the interface is found, and there is no way to strings. -/
theorem descends_around_knot :
    let s := afterAll (Store.withSettings { maxHierarchyDepth := 2 }) knotRun
    let x : Ty := .cls ⟨12⟩
    let serializable : Ty := .cls wellKnownIds.serializable
    let string : Ty := .cls wellKnownIds.string
    (Reachable s ∧ ChartedAbove s.env x ∧ PathsWithin s.env s.depthLimit x) ∧
      s.env.descends x serializable = .ok true ∧ ProperSupertype s.env x serializable ∧
      s.env.descends x string = .ok false ∧ ¬ ProperSupertype s.env x string := by
  intro s x serializable string
  have hreach : Reachable s := reachable_afterAll (Reachable.withSettings _) knotRun
  have hchart : isChart s.env [.cls ⟨12⟩, .cls ⟨13⟩, .cls wellKnownIds.serializable] = true := by
    decide
  have hch := chartedAbove_of_chart hchart List.mem_cons_self
  have hpaths : PathsWithin s.env s.depthLimit (.cls ⟨12⟩) :=
    pathsWithin_of_chart hchart List.mem_cons_self (by decide)
  have hyes : s.env.descends x serializable = .ok true := by decide
  have hno : s.env.descends x string = .ok false := by decide
  have hproper := (descends_iff_properSupertype hreach rfl rfl).1 hyes
  obtain ⟨found, hfound, hiff⟩ :=
    @descends_iff_properSupertype s hreach x string rfl rfl |>.2 hch hpaths
  obtain rfl : found = false := Except.ok.inj (hfound.symm.trans hno)
  exact ⟨⟨hreach, hch, hpaths⟩, hyes, hproper, hno, fun h => Bool.false_ne_true (hiff.mpr h)⟩

end Lineage.Proofs
