import Lineage.Proofs.Supertype

/-!
# What the supertype closure holds

The closure of a class is computed in three passes: a depth-first visit that only
makes sure that the hierarchy above the class is sound, the chain of superclasses,
and a breadth-first expansion of that chain by interfaces. Each pass gets one
statement of the same form: it keeps what it had, contains where it started, is
closed under the links that it follows, and holds nothing that those links do not
lead to.

The visit also bounds the expansion. All that is ever queued is among the classes
visited, nothing is queued twice, and every round takes one class off the queue; as
many rounds as there are classes visited are therefore enough, and the expansion
never stops with work left. That nothing is queued twice also makes the closure a
list without repetition, and it begins with the class itself.
-/

namespace Lineage.Proofs

open Relation

/-- `x` lists `y`, as its superclass or among its interfaces. -/
def Extends (env : Env) (x y : ClassId) : Prop := ∃ targets, Lists env x targets ∧ y ∈ targets

/-- `y` is the superclass of `x`. -/
def HasSuperclass (env : Env) (x y : ClassId) : Prop := env.superclassOf x = .ok (some y)

/-- `y` is among the interfaces of `x`. -/
def HasInterface (env : Env) (x y : ClassId) : Prop := ∃ is, env.interfacesOf x = .ok is ∧ y ∈ is

variable {env : Env}

/-! ## The visit -/

/-- Visiting `ids` after `before` leads to `finished`. -/
structure Gathers (env : Env) (ids before finished : List ClassId) : Prop where
  kept : before ⊆ finished
  visited : ids ⊆ finished
  reached : ∀ x ∈ finished, x ∉ before → ∃ i ∈ ids, ReflTransGen (Extends env) i x
  closed : ∀ x ∈ finished, x ∉ before → ∃ targets, Lists env x targets ∧ targets ⊆ finished

/-- Nothing is done about classes that are finished already. -/
theorem Gathers.refl {ids finished : List ClassId} (h : ids ⊆ finished) :
    Gathers env ids finished finished where
  kept := List.Subset.refl finished
  visited := h
  reached := fun _ hx hnot => absurd hx hnot
  closed := fun _ hx hnot => absurd hx hnot

theorem Gathers.cons {i : ClassId} {ids f₁ f₂ f₃ : List ClassId} (h : Gathers env [i] f₁ f₂)
    (h' : Gathers env ids f₂ f₃) : Gathers env (i :: ids) f₁ f₃ where
  kept := List.Subset.trans h.kept h'.kept
  visited := List.cons_subset.mpr ⟨h'.kept (h.visited List.mem_cons_self), h'.visited⟩
  reached := by
    intro x hx hnot
    -- found by the first visit, or by the visits of the rest
    by_cases hmid : x ∈ f₂
    · obtain ⟨j, hj, hreach⟩ := h.reached x hmid hnot
      rw [List.mem_singleton.mp hj] at hreach
      exact ⟨i, List.mem_cons_self, hreach⟩
    · obtain ⟨j, hj, hreach⟩ := h'.reached x hx hmid
      exact ⟨j, List.mem_cons_of_mem i hj, hreach⟩
  closed := by
    intro x hx hnot
    by_cases hmid : x ∈ f₂
    · obtain ⟨targets, hlists, hsub⟩ := h.closed x hmid hnot
      exact ⟨targets, hlists, List.Subset.trans hsub h'.kept⟩
    · exact h'.closed x hx hmid

/-- Finishing a class after what it lists. -/
theorem Gathers.up {id : ClassId} {targets before finished : List ClassId}
    (h : Gathers env targets before finished) (hlists : Lists env id targets) :
    Gathers env [id] before (id :: finished) where
  kept := List.Subset.trans h.kept (List.subset_cons_self id finished)
  visited := List.cons_subset.mpr ⟨List.mem_cons_self, List.nil_subset _⟩
  reached := by
    intro x hx hnot
    refine ⟨id, List.mem_cons_self, ?_⟩
    rcases List.mem_cons.mp hx with rfl | hx
    · exact ReflTransGen.refl
    · obtain ⟨i, hi, hreach⟩ := h.reached x hx hnot
      exact ReflTransGen.head ⟨targets, hlists, hi⟩ hreach
  closed := by
    intro x hx hnot
    have hsub : finished ⊆ id :: finished := List.subset_cons_self id finished
    rcases List.mem_cons.mp hx with rfl | hx
    · exact ⟨targets, hlists, List.Subset.trans h.visited hsub⟩
    · obtain ⟨ts, hts, hclosed⟩ := h.closed x hx hnot
      exact ⟨ts, hts, List.Subset.trans hclosed hsub⟩

/-- A class that is not finished yet is visited by way of all that it lists. -/
theorem visitSupertypes_eq_ok {n : Nat} {path before finished : List ClassId} {id : ClassId}
    (h : env.visitSupertypes n path before id = .ok finished) (hid : id ∉ before) :
    id ∉ path ∧ ∃ k targets done, n = k + 1 ∧ Lists env id targets ∧
      targets.foldlM (fun f i => env.visitSupertypes k (id :: path) f i) before = .ok done ∧
      finished = id :: done := by
  rw [Env.visitSupertypes.eq_def] at h
  simp only [if_neg hid] at h
  cases n with
  | zero => cases h
  | succ k =>
      dsimp only at h
      split at h
      · cases h
      · rename_i hpath
        refine ⟨hpath, k, ?_⟩
        obtain ⟨parent, hparent, h⟩ := bind_eq_ok_iff.mp h
        -- the superclass is visited like a list of at most one class
        obtain ⟨f₁, hf₁, h⟩ : ∃ f₁,
            parent.toList.foldlM (fun f i => env.visitSupertypes k (id :: path) f i) before
              = .ok f₁ ∧ (do
              let interfaces ← env.interfacesOf id
              let done ←
                interfaces.foldlM (fun f i => env.visitSupertypes k (id :: path) f i) f₁
              pure (id :: done)) = .ok finished := by
          cases parent with
          | none => exact ⟨before, rfl, h⟩
          | some p =>
              obtain ⟨f₁, hf₁, h⟩ := bind_eq_ok_iff.mp h
              exact ⟨f₁, by simp [hf₁], h⟩
        obtain ⟨is, his, h⟩ := bind_eq_ok_iff.mp h
        obtain ⟨f₂, hf₂, h⟩ := bind_eq_ok_iff.mp h
        cases h
        refine ⟨parent.toList ++ is, f₂, rfl, ⟨parent, is, hparent, his, rfl⟩, ?_, rfl⟩
        rw [List.foldlM_append, hf₁]
        exact hf₂

theorem visitSupertypes_of_mem {n : Nat} {path before : List ClassId} {id : ClassId}
    (hid : id ∈ before) : env.visitSupertypes n path before id = .ok before := by
  rw [Env.visitSupertypes.eq_def]
  simp [hid]

theorem foldlM_gathers {f : List ClassId → ClassId → Except TypeError (List ClassId)}
    (hf : ∀ before i finished, f before i = .ok finished → Gathers env [i] before finished)
    {ids before finished : List ClassId} (h : ids.foldlM f before = .ok finished) :
    Gathers env ids before finished := by
  induction ids generalizing before with
  | nil =>
      cases h
      exact Gathers.refl (List.nil_subset _)
  | cons i ids ih =>
      rw [List.foldlM_cons] at h
      obtain ⟨mid, hmid, h⟩ := bind_eq_ok_iff.mp h
      exact (hf before i mid hmid).cons (ih h)

/-- **A visit that succeeds gathers what lies above the class.** -/
theorem visitSupertypes_gathers {n : Nat} {path before finished : List ClassId} {id : ClassId}
    (h : env.visitSupertypes n path before id = .ok finished) :
    Gathers env [id] before finished := by
  induction n using Nat.strongRecOn generalizing path before finished id with
  | ind n ih =>
      -- a class that is finished already is not entered again
      by_cases hid : id ∈ before
      · rw [visitSupertypes_of_mem hid] at h
        cases h
        exact Gathers.refl (by simpa using hid)
      · obtain ⟨_, k, targets, done, rfl, hlists, hfold, rfl⟩ := visitSupertypes_eq_ok h hid
        exact (foldlM_gathers (fun _ _ _ => ih k (Nat.lt_succ_self k)) hfold).up hlists

/-! ## The chain -/

/-- `classes` is the whole way up from `id`, and avoids `seen`. -/
structure Climbs (env : Env) (seen : List ClassId) (id : ClassId) (classes : List ClassId) :
    Prop where
  start : id ∈ classes
  nodup : classes.Nodup
  fresh : ∀ x ∈ classes, x ∉ seen
  reached : ∀ x ∈ classes, ReflTransGen (HasSuperclass env) id x
  closed : ∀ x ∈ classes, ∃ parent, env.superclassOf x = .ok parent ∧ ∀ p ∈ parent, p ∈ classes
  top : ∃ t ∈ classes, env.superclassOf t = .ok none

theorem Climbs.single {seen : List ClassId} {id : ClassId} (hid : id ∉ seen)
    (h : env.superclassOf id = .ok none) : Climbs env seen id [id] where
  start := List.mem_cons_self
  nodup := by simp
  fresh := List.forall_mem_singleton.mpr hid
  reached := List.forall_mem_singleton.mpr ReflTransGen.refl
  closed := List.forall_mem_singleton.mpr ⟨none, h, by simp⟩
  top := ⟨id, List.mem_cons_self, h⟩

theorem Climbs.cons {seen classes : List ClassId} {id parent : ClassId} (hid : id ∉ seen)
    (hp : env.superclassOf id = .ok (some parent))
    (h : Climbs env (id :: seen) parent classes) : Climbs env seen id (id :: classes) where
  start := List.mem_cons_self
  nodup := List.nodup_cons.mpr ⟨fun hmem => h.fresh id hmem List.mem_cons_self, h.nodup⟩
  fresh := List.forall_mem_cons.mpr
    ⟨hid, fun x hx hmem => h.fresh x hx (List.mem_cons_of_mem id hmem)⟩
  reached := List.forall_mem_cons.mpr
    ⟨ReflTransGen.refl, fun x hx => ReflTransGen.head hp (h.reached x hx)⟩
  closed := by
    refine List.forall_mem_cons.mpr ⟨⟨some parent, hp, ?_⟩, ?_⟩
    · intro p hmem
      cases hmem
      exact List.mem_cons_of_mem id h.start
    · intro x hx
      obtain ⟨q, hq, hmem⟩ := h.closed x hx
      exact ⟨q, hq, fun p hpq => List.mem_cons_of_mem id (hmem p hpq)⟩
  top := by
    obtain ⟨t, ht, hnone⟩ := h.top
    exact ⟨t, List.mem_cons_of_mem id ht, hnone⟩

theorem Climbs.mem_of_reached {seen classes : List ClassId} {id x : ClassId}
    (h : Climbs env seen id classes) (hx : ReflTransGen (HasSuperclass env) id x) :
    x ∈ classes := by
  induction hx with
  | refl => exact h.start
  | tail _ hp ih =>
      obtain ⟨parent, hparent, hmem⟩ := h.closed _ ih
      rw [hp] at hparent
      cases hparent
      exact hmem _ rfl

theorem chainFrom_climbs {n : Nat} {seen : List ClassId} {id : ClassId}
    (h : (env.chainFrom n seen id).failure = none) :
    Climbs env seen id (env.chainFrom n seen id).classes := by
  induction n generalizing seen id with
  | zero => cases h
  | succ n ih =>
      -- a class met before or a failed link ends the walk with a failure, which there is not
      rw [Env.chainFrom] at h ⊢
      split at h
      · cases h
      · rename_i hid
        rw [if_neg hid]
        cases hsup : env.superclassOf id with
        | error e =>
            rw [hsup] at h
            cases h
        | ok parent =>
            rw [hsup] at h
            cases parent with
            | none => exact Climbs.single hid hsup
            | some p => exact Climbs.cons hid hsup (ih h)

theorem completeChain_climbs {start : ClassId} {chain : List ClassId}
    (h : env.completeChain start = .ok chain) : Climbs env [] start chain := by
  unfold Env.completeChain at h
  dsimp only at h
  split at h
  · cases h
  · rename_i hfail
    cases h
    exact chainFrom_climbs hfail

/-! ## The expansion -/

theorem mem_freshIn {known is : List ClassId} {x : ClassId} :
    x ∈ Env.freshIn known is ↔ x ∈ is ∧ x ∉ known := by
  induction is generalizing known with
  | nil => simp [Env.freshIn]
  | cons i is ih =>
      rw [Env.freshIn]
      -- known interfaces are left out, and a fresh one is known to those after it
      by_cases hi : i ∈ known
      · rw [if_pos hi, ih]
        constructor
        · intro h
          exact ⟨List.mem_cons_of_mem i h.1, h.2⟩
        · intro h
          obtain ⟨hx, hnot⟩ := h
          rcases List.mem_cons.mp hx with rfl | hx
          · exact absurd hi hnot
          · exact ⟨hx, hnot⟩
      · rw [if_neg hi, List.mem_cons, ih, List.mem_cons]
        by_cases hxi : x = i
        · simp [hxi, hi]
        · simp [hxi]

theorem nodup_freshIn (known is : List ClassId) : (Env.freshIn known is).Nodup := by
  induction is generalizing known with
  | nil => simp [Env.freshIn]
  | cons i is ih =>
      rw [Env.freshIn]
      split
      · exact ih known
      · refine List.nodup_cons.mpr ⟨fun hmem => ?_, ih (i :: known)⟩
        exact (mem_freshIn.mp hmem).2 List.mem_cons_self

theorem nodup_append_freshIn {known : List ClassId} (h : known.Nodup) (is : List ClassId) :
    (known ++ Env.freshIn known is).Nodup := by
  refine List.nodup_append.mpr ⟨h, nodup_freshIn _ _, ?_⟩
  intro x hx y hy heq
  subst heq
  exact (mem_freshIn.mp hy).2 hx

/-- `all` holds `roots` and their interfaces, and the interfaces of those, and nothing else. -/
structure Expands (env : Env) (roots all : List ClassId) : Prop where
  kept : roots ⊆ all
  closed : ∀ x ∈ all, ∃ is, env.interfacesOf x = .ok is ∧ is ⊆ all
  reached : ∀ x ∈ all, ∃ r ∈ roots, ReflTransGen (HasInterface env) r x

theorem Expands.refl {all : List ClassId}
    (h : ∀ x ∈ all, ∃ is, env.interfacesOf x = .ok is ∧ is ⊆ all) : Expands env all all where
  kept := List.Subset.refl all
  closed := h
  reached := fun x hx => ⟨x, hx, ReflTransGen.refl⟩

theorem Expands.mem_of_reached {roots all : List ClassId} {r x : ClassId}
    (h : Expands env roots all) (hr : r ∈ all) (hx : ReflTransGen (HasInterface env) r x) :
    x ∈ all := by
  induction hx with
  | refl => exact hr
  | tail _ hi ih =>
      obtain ⟨is, his, hmem⟩ := hi
      obtain ⟨js, hjs, hsub⟩ := h.closed _ ih
      rw [his] at hjs
      cases hjs
      exact hsub hmem

/-- The state of the expansion between two rounds: nothing is queued twice, all that is queued is
known beforehand, what is done has been expanded, and the rounds left make up for what is known
and not done. -/
structure Queue (env : Env) (known : List ClassId) (rounds : Nat) (done pending : List ClassId) :
    Prop where
  nodup : (done ++ pending).Nodup
  within : done ++ pending ⊆ known
  expanded : ∀ x ∈ done, ∃ is, env.interfacesOf x = .ok is ∧ is ⊆ done ++ pending
  enough : known.length ≤ rounds + done.length

/-- Nothing can be pending when all that is known is done. -/
theorem Queue.pending_eq_nil {known done pending : List ClassId}
    (h : Queue env known 0 done pending) : pending = [] := by
  -- pairwise different and all known, so there are no more of them than that
  have hlen := (h.nodup.subperm h.within).length_le
  have henough := h.enough
  rw [List.length_append] at hlen
  exact List.eq_nil_of_length_eq_zero (by omega)

theorem Queue.expands {known done : List ClassId} {rounds : Nat}
    (h : Queue env known rounds done []) : Expands env (done ++ []) done := by
  have hdone := h.expanded
  rw [List.append_nil] at hdone ⊢
  exact Expands.refl hdone

/-- Taking a class off the queue adds its fresh interfaces at the end. -/
theorem queue_next (done rest fresh : List ClassId) (c : ClassId) :
    (done ++ [c]) ++ (rest ++ fresh) = (done ++ c :: rest) ++ fresh := by simp

/-- One round keeps the queue in order. -/
theorem Queue.next {known done rest is : List ClassId} {rounds : Nat} {c : ClassId}
    (hknown : ∀ x ∈ known, ∀ is, env.interfacesOf x = .ok is → is ⊆ known)
    (h : Queue env known (rounds + 1) done (c :: rest)) (his : env.interfacesOf c = .ok is) :
    Queue env known rounds (done ++ [c]) (rest ++ Env.freshIn (done ++ c :: rest) is) where
  nodup := by
    rw [queue_next]
    exact nodup_append_freshIn h.nodup is
  within := by
    rw [queue_next]
    have hc : c ∈ known := h.within (List.mem_append_right done List.mem_cons_self)
    refine List.append_subset.mpr ⟨h.within, fun x hx => ?_⟩
    exact hknown c hc is his (mem_freshIn.mp hx).1
  expanded := by
    rw [queue_next]
    intro x hx
    rcases List.mem_append.mp hx with hx | hx
    · obtain ⟨js, hjs, hmem⟩ := h.expanded x hx
      exact ⟨js, hjs, List.Subset.trans hmem (List.subset_append_left _ _)⟩
    · -- an interface of `c` was queued before or is fresh
      rw [List.mem_singleton.mp hx]
      refine ⟨is, his, fun y hy => ?_⟩
      by_cases hold : y ∈ done ++ c :: rest
      · exact List.mem_append_left _ hold
      · exact List.mem_append_right _ (mem_freshIn.mpr ⟨hy, hold⟩)
  enough := by
    have henough := h.enough
    rw [List.length_append, List.length_singleton]
    omega

/-- **The expansion is complete**: it ends only when nothing is pending. -/
theorem expandInterfaces_expands {known : List ClassId}
    (hknown : ∀ x ∈ known, ∀ is, env.interfacesOf x = .ok is → is ⊆ known)
    {rounds : Nat} {done pending all : List ClassId} (hq : Queue env known rounds done pending)
    (h : env.expandInterfaces rounds done pending = .ok all) :
    Expands env (done ++ pending) all := by
  induction rounds generalizing done pending with
  | zero =>
      have hnil := hq.pending_eq_nil
      subst hnil
      rw [Env.expandInterfaces] at h
      cases h
      exact hq.expands
  | succ rounds ih =>
      cases pending with
      | nil =>
          rw [Env.expandInterfaces] at h
          cases h
          exact hq.expands
      | cons c rest =>
          rw [Env.expandInterfaces] at h
          obtain ⟨is, his, h⟩ := bind_eq_ok_iff.mp h
          have hexp := ih (hq.next hknown his) h
          rw [queue_next] at hexp
          refine ⟨List.Subset.trans (List.subset_append_left _ _) hexp.kept, hexp.closed, ?_⟩
          intro x hx
          obtain ⟨r, hr, hreach⟩ := hexp.reached x hx
          rcases List.mem_append.mp hr with hr | hr
          · exact ⟨r, hr, hreach⟩
          · -- what came in through a fresh interface came in through `c`
            refine ⟨c, List.mem_append_right done List.mem_cons_self, ?_⟩
            exact ReflTransGen.head ⟨is, his, (mem_freshIn.mp hr).1⟩ hreach

/-! ## The closure -/

/-- What the three passes establish about the closure of a class: `visited` is what the visit
gathers, and `chain` the way up that the closure starts with. -/
structure ClosureOf (env : Env) (start : ClassId) (visited chain all : List ClassId) : Prop where
  visit : env.visitSupertypes env.depthLimit [] [] start = .ok visited
  climbs : Climbs env [] start chain
  expands : Expands env chain all
  within : all ⊆ visited

theorem ClosureOf.lists {start : ClassId} {visited chain all : List ClassId}
    (h : ClosureOf env start visited chain all) {x : ClassId} (hx : x ∈ all) :
    ∃ targets, Lists env x targets := by
  obtain ⟨targets, hlists, -⟩ :=
    (visitSupertypes_gathers h.visit).closed x (h.within hx) List.not_mem_nil
  exact ⟨targets, hlists⟩

/-- **The closure is complete**: it ends only when no interface is left out. -/
theorem supertypeClosure_spec {start : ClassId} {all : List ClassId}
    (h : env.supertypeClosure start = .ok all) :
    ∃ visited chain, ClosureOf env start visited chain all := by
  obtain ⟨visited, hvisit, h⟩ := bind_eq_ok_iff.mp h
  obtain ⟨chain, hchain, h⟩ := bind_eq_ok_iff.mp h
  have hgathers := visitSupertypes_gathers hvisit
  have hclimbs := completeChain_climbs hchain
  have hlisted : ∀ x ∈ visited, ∃ targets, Lists env x targets ∧ targets ⊆ visited :=
    fun x hx => hgathers.closed x hx List.not_mem_nil
  -- the visit takes in everything that the other two passes can meet
  have hup : ∀ x, ReflTransGen (HasSuperclass env) start x → x ∈ visited := by
    intro x hreach
    induction hreach with
    | refl => exact hgathers.visited List.mem_cons_self
    | tail _ hp ih =>
        obtain ⟨targets, hlists, hsub⟩ := hlisted _ ih
        exact hsub (hlists.superclass hp)
  have hacross : ∀ x ∈ visited, ∀ is, env.interfacesOf x = .ok is → is ⊆ visited := by
    intro x hx is his
    obtain ⟨targets, hlists, hsub⟩ := hlisted x hx
    exact List.Subset.trans (hlists.interfaces his) hsub
  have hq : Queue env visited visited.length [] chain :=
    ⟨hclimbs.nodup, fun x hx => hup x (hclimbs.reached x hx), by simp, by simp⟩
  have hexp : Expands env chain all := expandInterfaces_expands hacross hq h
  refine ⟨visited, chain, hvisit, hclimbs, hexp, ?_⟩
  -- what the expansion adds is reached from the chain by interfaces alone
  intro x hx
  obtain ⟨r, hr, hreach⟩ := hexp.reached x hx
  induction hreach with
  | refl => exact hup r (hclimbs.reached r hr)
  | tail hpath hi ih =>
      obtain ⟨is, his, hmem⟩ := hi
      exact hacross _ (ih (hexp.mem_of_reached (hexp.kept hr) hpath)) is his hmem

/-! ## The order of the closure -/

/-- The expansion adds at the end, and nothing twice. -/
theorem expandInterfaces_order {rounds : Nat} {done pending all : List ClassId}
    (h : env.expandInterfaces rounds done pending = .ok all) (hnd : (done ++ pending).Nodup) :
    done ++ pending <+: all ∧ all.Nodup := by
  induction rounds generalizing done pending with
  | zero =>
      cases pending with
      | nil =>
          cases h
          rw [List.append_nil] at hnd ⊢
          exact ⟨List.prefix_refl _, hnd⟩
      | cons c rest =>
          cases h
          exact ⟨List.prefix_refl _, hnd⟩
  | succ rounds ih =>
      cases pending with
      | nil =>
          cases h
          rw [List.append_nil] at hnd ⊢
          exact ⟨List.prefix_refl _, hnd⟩
      | cons c rest =>
          rw [Env.expandInterfaces] at h
          obtain ⟨is, -, h⟩ := bind_eq_ok_iff.mp h
          -- fresh interfaces are neither done nor pending
          have hnext : (done ++ [c] ++ (rest ++ Env.freshIn (done ++ c :: rest) is)).Nodup := by
            rw [queue_next]
            exact nodup_append_freshIn hnd is
          obtain ⟨hpre, hall⟩ := ih h hnext
          rw [queue_next] at hpre
          exact ⟨(List.prefix_append _ _).trans hpre, hall⟩

theorem chainFrom_head {n : Nat} {seen : List ClassId} {id : ClassId}
    (h : (env.chainFrom n seen id).failure = none) :
    ∃ rest, (env.chainFrom n seen id).classes = id :: rest := by
  cases n with
  | zero => cases h
  | succ n =>
      rw [Env.chainFrom] at h ⊢
      split at h
      · cases h
      · rename_i hid
        rw [if_neg hid]
        rcases env.superclassOf id with e | (_ | p)
        · exact ⟨[], rfl⟩
        · exact ⟨[], rfl⟩
        · exact ⟨_, rfl⟩

theorem completeChain_head {start : ClassId} {chain : List ClassId}
    (h : env.completeChain start = .ok chain) : ∃ rest, chain = start :: rest := by
  unfold Env.completeChain at h
  dsimp only at h
  split at h
  · cases h
  · rename_i hfail
    cases h
    exact chainFrom_head hfail

/-- **The closure begins with the class and holds nothing twice.** -/
theorem supertypeClosure_order {start : ClassId} {all : List ClassId}
    (h : env.supertypeClosure start = .ok all) : (∃ rest, all = start :: rest) ∧ all.Nodup := by
  obtain ⟨visited, -, h⟩ := bind_eq_ok_iff.mp h
  obtain ⟨chain, hchain, h⟩ := bind_eq_ok_iff.mp h
  obtain ⟨rest, rfl⟩ := completeChain_head hchain
  obtain ⟨⟨more, rfl⟩, hnd⟩ := expandInterfaces_order h (completeChain_climbs hchain).nodup
  exact ⟨⟨rest ++ more, rfl⟩, hnd⟩

end Lineage.Proofs
