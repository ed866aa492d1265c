import Lineage.Descent
import Lineage.Proofs.Growth
import Mathlib.Data.List.Perm.Subperm

/-!
# Direct supertypes

The graph that subtyping is about. Its edges come in two kinds. *Links* are
declared: a class leads to its superclass and its interfaces, an interface to its
interfaces, and a variable to its bound. The other edges go without saying: an
interface leads to the top class, an array to the three classes above all arrays,
and `null` to every other reference type.

The difference matters for walks. Only links are ever walked, so only they use up
depth and only they can be broken; what goes without saying is known at once. That
this loses nothing rests on `Rooted`: nothing lies above the top class, and only
the top class above the two interfaces of arrays.
-/

namespace Lineage.Proofs

open Store Relation

@[simp] theorem isReference_null : Ty.null.isReference = true := rfl

@[simp] theorem isReference_array (element : Ty) : (Ty.array element).isReference = true := rfl

@[simp] theorem isReference_cls (id : ClassId) : (Ty.cls id).isReference = true := rfl

@[simp] theorem isReference_var (v : TypeVarId) : (Ty.var v).isReference = true := rfl

/-! ## The graph -/

/-- The links that are followed from a class. Those of the top class are not, and neither is a
superclass link of an interface. -/
def followedLinks (env : Env) (id : ClassId) (c : ClassDef) : List Ty :=
  if c.isInterface then c.interfaces
  else if id = env.wellKnown.object then []
  else c.superclass.toList ++ c.interfaces

theorem followedLinks_subset (env : Env) (id : ClassId) (c : ClassDef) :
    followedLinks env id c ⊆ c.superclass.toList ++ c.interfaces := by
  unfold followedLinks
  split
  · exact List.subset_append_right _ _
  · split
    · exact List.nil_subset _
    · exact List.Subset.refl _

/-- The declared edges. -/
inductive Link (env : Env) : Ty → Ty → Prop where
  | cls {id target : ClassId} {c : ClassDef} {link : Ty} :
      env.classDef? id = some c → link ∈ followedLinks env id c →
      env.resolveLink link = .ok target → Link env (.cls id) (.cls target)
  | bound {v : TypeVarId} {p : TypeParam} :
      env.typeParam? v = some p → Link env (.var v) p.bound

/-- All edges. -/
inductive DirectSupertype (env : Env) : Ty → Ty → Prop where
  | link {t u : Ty} : Link env t u → DirectSupertype env t u
  | top {id : ClassId} {c : ClassDef} :
      env.classDef? id = some c → c.isInterface = true →
      DirectSupertype env (.cls id) env.objectType
  | array {element t : Ty} : t ∈ env.arraySupertypes → DirectSupertype env (.array element) t
  | null {t : Ty} : t.isReference = true → t ≠ .null → DirectSupertype env .null t

/-- `ancestor` lies above `child`, one or more edges away. -/
abbrev Above (env : Env) : Ty → Ty → Prop := TransGen (DirectSupertype env)

/-- Two different reference types, the second above the first. -/
def ProperSupertype (env : Env) (child ancestor : Ty) : Prop :=
  child ≠ ancestor ∧ child.isReference = true ∧ ancestor.isReference = true ∧
    Above env child ancestor

theorem isReference_of_directSupertype {env : Env} {t u : Ty} (h : DirectSupertype env t u) :
    t.isReference = true := by
  cases h with
  | link h => cases h <;> rfl
  | top => rfl
  | array => rfl
  | null => rfl

/-! ## Links can be followed -/

/-- The links of `t` can be followed: a class is defined and its links resolve, a variable
exists. -/
def Charted (env : Env) : Ty → Prop
  | .cls id => ∃ c, env.classDef? id = some c ∧
      ∀ link ∈ followedLinks env id c, ∃ target, env.resolveLink link = .ok target
  | .var v => ∃ p, env.typeParam? v = some p
  | _ => True

/-- Everything that links lead to from `t` is charted, and `t` is. -/
def ChartedAbove (env : Env) (t : Ty) : Prop := ∀ u, ReflTransGen (Link env) t u → Charted env u

theorem ChartedAbove.self {env : Env} {t : Ty} (h : ChartedAbove env t) : Charted env t :=
  h t ReflTransGen.refl

theorem ChartedAbove.link {env : Env} {t u : Ty} (h : ChartedAbove env t) (hl : Link env t u) :
    ChartedAbove env u := fun w hw => h w (ReflTransGen.head hl hw)

/-- No path of links that starts at `t` and repeats no type has more than `n` links. -/
def PathsWithin (env : Env) (n : Nat) (t : Ty) : Prop :=
  ∀ rest, (t :: rest).IsChain (Link env) → (t :: rest).Nodup → rest.length ≤ n

/-! ## What a class lists -/

theorem classDef_eq_ok_iff {env : Env} {id : ClassId} {c : ClassDef} :
    env.classDef id = .ok c ↔ env.classDef? id = some c := by
  unfold Env.classDef
  cases env.classDef? id with
  | none => simp
  | some d => simp

theorem boundOf_eq_ok_iff {env : Env} {v : TypeVarId} {t : Ty} :
    env.boundOf v = .ok t ↔ ∃ p, env.typeParam? v = some p ∧ p.bound = t := by
  unfold Env.boundOf
  cases env.typeParam? v with
  | none => simp
  | some p => simp

/-- The superclass is the class that the superclass link resolves to. -/
theorem superclassOf_eq_ok_iff {env : Env} {id : ClassId} {parent : Option ClassId} :
    env.superclassOf id = .ok parent ↔
      ∃ c, env.classDef? id = some c ∧
        match c.superclass with
        | none => parent = none
        | some link => ∃ p, env.resolveLink link = .ok p ∧ parent = some p := by
  unfold Env.superclassOf
  rw [bind_eq_ok_iff]
  simp only [classDef_eq_ok_iff]
  refine exists_congr fun c => and_congr_right fun _ => ?_
  cases c.superclass with
  | none => simp [eq_comm]
  | some link =>
      dsimp only
      cases env.resolveLink link with
      | error e => simp
      | ok p => simp [eq_comm]

/-- The interfaces are the classes that the interface links resolve to, in order. -/
theorem interfacesOf_eq_ok_iff {env : Env} {id : ClassId} {is : List ClassId} :
    env.interfacesOf id = .ok is ↔
      ∃ c, env.classDef? id = some c ∧
        List.Forall₂ (fun link i => env.resolveLink link = .ok i) c.interfaces is := by
  unfold Env.interfacesOf
  rw [bind_eq_ok_iff]
  simp only [classDef_eq_ok_iff, mapM_eq_ok_iff]

theorem link_of_superclass {env : Env} {id parent : ClassId} {c : ClassDef}
    (hc : env.classDef? id = some c) (hi : c.isInterface = false)
    (hobj : id ≠ env.wellKnown.object) (hp : env.superclassOf id = .ok (some parent)) :
    Link env (.cls id) (.cls parent) := by
  obtain ⟨d, hd, hsuper⟩ := superclassOf_eq_ok_iff.mp hp
  rw [hc] at hd
  cases hd
  cases hlink : c.superclass with
  | none =>
      rw [hlink] at hsuper
      cases hsuper
  | some link =>
      rw [hlink] at hsuper
      obtain ⟨p, hres, heq⟩ := hsuper
      cases heq
      -- of a class other than the top one, all links are followed
      exact Link.cls hc (by simp [followedLinks, hi, hobj, hlink]) hres

theorem link_of_interface {env : Env} {id i : ClassId} {c : ClassDef} {is : List ClassId}
    (hc : env.classDef? id = some c)
    (hkind : c.isInterface = true ∨ id ≠ env.wellKnown.object)
    (his : env.interfacesOf id = .ok is) (hi : i ∈ is) : Link env (.cls id) (.cls i) := by
  obtain ⟨d, hd, htargets⟩ := interfacesOf_eq_ok_iff.mp his
  rw [hc] at hd
  cases hd
  obtain ⟨link, hlink, hres⟩ := (mem_images_iff htargets).mp hi
  refine Link.cls hc ?_ hres
  unfold followedLinks
  split
  · exact hlink
  · rename_i hclass
    rw [if_neg (hkind.resolve_left hclass)]
    exact List.mem_append_right _ hlink

/-- The superclass of a class, if it has one, and then its interfaces. -/
def Lists (env : Env) (id : ClassId) (targets : List ClassId) : Prop :=
  ∃ parent is, env.superclassOf id = .ok parent ∧ env.interfacesOf id = .ok is ∧
    targets = parent.toList ++ is

theorem Lists.superclass {env : Env} {id parent : ClassId} {targets : List ClassId}
    (h : Lists env id targets) (hp : env.superclassOf id = .ok (some parent)) :
    parent ∈ targets := by
  obtain ⟨q, is, hq, -, rfl⟩ := h
  rw [hp] at hq
  cases hq
  exact List.mem_cons_self

theorem Lists.interfaces {env : Env} {id : ClassId} {targets is : List ClassId}
    (h : Lists env id targets) (his : env.interfacesOf id = .ok is) : is ⊆ targets := by
  obtain ⟨q, js, -, hjs, rfl⟩ := h
  rw [his] at hjs
  cases hjs
  exact List.subset_append_right _ _

/-- What a class lists is what its links resolve to. -/
theorem lists_iff {env : Env} {id : ClassId} {targets : List ClassId} :
    Lists env id targets ↔
      ∃ c, env.classDef? id = some c ∧
        List.Forall₂ (fun link target => env.resolveLink link = .ok target)
          (c.superclass.toList ++ c.interfaces) targets := by
  constructor
  · intro h
    obtain ⟨parent, is, hparent, his, rfl⟩ := h
    obtain ⟨c, hc, hsuper⟩ := superclassOf_eq_ok_iff.mp hparent
    obtain ⟨d, hd, hinterfaces⟩ := interfacesOf_eq_ok_iff.mp his
    rw [hc] at hd
    cases hd
    refine ⟨c, hc, ?_⟩
    cases hlink : c.superclass with
    | none =>
        rw [hlink] at hsuper
        subst hsuper
        exact hinterfaces
    | some link =>
        rw [hlink] at hsuper
        obtain ⟨p, hp, rfl⟩ := hsuper
        exact List.Forall₂.cons hp hinterfaces
  · intro h
    obtain ⟨c, hc, htargets⟩ := h
    -- a superclass link comes first, so it takes the first target
    cases hlink : c.superclass with
    | none =>
        rw [hlink] at htargets
        exact ⟨none, targets, superclassOf_eq_ok_iff.mpr ⟨c, hc, by rw [hlink]⟩,
          interfacesOf_eq_ok_iff.mpr ⟨c, hc, htargets⟩, rfl⟩
    | some link =>
        rw [hlink] at htargets
        cases htargets with
        | @cons _ p _ is hp his =>
            exact ⟨some p, is,
              superclassOf_eq_ok_iff.mpr ⟨c, hc, by rw [hlink]; exact ⟨p, hp, rfl⟩⟩,
              interfacesOf_eq_ok_iff.mpr ⟨c, hc, his⟩, rfl⟩

/-- The classes that the followed links of a class lead to, in order. -/
def Follows (env : Env) (id : ClassId) (targets : List ClassId) : Prop :=
  ∃ c, env.classDef? id = some c ∧
    List.Forall₂ (fun link target => env.resolveLink link = .ok target)
      (followedLinks env id c) targets

theorem Charted.follows {env : Env} {id : ClassId} (h : Charted env (.cls id)) :
    ∃ targets, Follows env id targets := by
  obtain ⟨c, hc, hlinks⟩ := h
  obtain ⟨targets, htargets⟩ := exists_forall₂ hlinks
  exact ⟨targets, c, hc, htargets⟩

theorem Follows.link_iff {env : Env} {id : ClassId} {targets : List ClassId}
    (h : Follows env id targets) {t : Ty} : Link env (.cls id) t ↔ t ∈ targets.map .cls := by
  obtain ⟨c, hc, htargets⟩ := h
  rw [List.mem_map]
  constructor
  · intro hl
    cases hl with
    | @cls _ target d link hd hmem hres =>
        rw [hc] at hd
        cases hd
        exact ⟨target, (mem_images_iff htargets).mpr ⟨link, hmem, hres⟩, rfl⟩
  · intro ht
    obtain ⟨target, hmem, rfl⟩ := ht
    obtain ⟨link, hlink, hres⟩ := (mem_images_iff htargets).mp hmem
    exact Link.cls hc hlink hres

/-! ## Charts

Whether the links above a type can be followed, and how long their paths are, can be read off a
finite list of types that no link leaves. -/

/-- The types that the links of a type lead to. -/
def linksOf (env : Env) : Ty → Except TypeError (List Ty)
  | .cls id => do
    let c ← env.classDef id
    let targets ← (followedLinks env id c).mapM env.resolveLink
    pure (targets.map .cls)
  | .var v => do
    let bound ← env.boundOf v
    pure [bound]
  | _ => pure []

/-- The links of every type in the list can be followed and lead back into the list. -/
def isChart (env : Env) (chart : List Ty) : Bool :=
  chart.all fun t =>
    match linksOf env t with
    | .ok ts => ts.all (· ∈ chart)
    | .error _ => false

theorem charted_of_linksOf {env : Env} {t : Ty} {ts : List Ty} (h : linksOf env t = .ok ts) :
    Charted env t ∧ ∀ u, Link env t u → u ∈ ts := by
  cases t with
  | cls id =>
      obtain ⟨c, hc, h⟩ := bind_eq_ok_iff.mp h
      obtain ⟨targets, htargets, h⟩ := bind_eq_ok_iff.mp h
      cases h
      have hc := classDef_eq_ok_iff.mp hc
      have htargets := mapM_eq_ok_iff.mp htargets
      have hf : Follows env id targets := ⟨c, hc, htargets⟩
      refine ⟨⟨c, hc, fun link hlink => ?_⟩, fun u hu => hf.link_iff.mp hu⟩
      exact exists_image htargets hlink
  | var v =>
      obtain ⟨bound, hb, h⟩ := bind_eq_ok_iff.mp h
      cases h
      obtain ⟨p, hp, rfl⟩ := boundOf_eq_ok_iff.mp hb
      refine ⟨⟨p, hp⟩, fun u hu => ?_⟩
      cases hu with
      | bound hq =>
          rw [hp] at hq
          cases hq
          exact List.mem_cons_self
  | prim p => exact ⟨trivial, fun u hu => nomatch hu⟩
  | null => exact ⟨trivial, fun u hu => nomatch hu⟩
  | array element => exact ⟨trivial, fun u hu => nomatch hu⟩
  | package name => exact ⟨trivial, fun u hu => nomatch hu⟩
  | named name => exact ⟨trivial, fun u hu => nomatch hu⟩

/-- A path without a repetition cannot be longer than a list that no link leaves. -/
theorem pathsWithin_of_closed {env : Env} {chart : List Ty}
    (hclosed : ∀ t ∈ chart, ∀ u, Link env t u → u ∈ chart) {t : Ty} (ht : t ∈ chart) {n : Nat}
    (hn : chart.length ≤ n + 1) : PathsWithin env n t := by
  intro rest hchain hnodup
  -- the path stays in the list, and has no repetition, so it fits
  have hsub : t :: rest ⊆ chart := by
    clear hnodup
    induction rest generalizing t with
    | nil => exact List.cons_subset.mpr ⟨ht, List.nil_subset chart⟩
    | cons u rest ih =>
        obtain ⟨hl, hchain⟩ := List.isChain_cons_cons.mp hchain
        exact List.cons_subset.mpr ⟨ht, ih (hclosed t ht u hl) hchain⟩
  have hlen := (hnodup.subperm hsub).length_le
  rw [List.length_cons] at hlen
  omega

section Chart

variable {env : Env} {chart : List Ty} (h : isChart env chart = true)

include h

theorem charted_of_mem_chart {t : Ty} (ht : t ∈ chart) :
    Charted env t ∧ ∀ u, Link env t u → u ∈ chart := by
  have hmem := List.all_eq_true.mp h t ht
  cases hl : linksOf env t with
  | error e =>
      -- a type whose links cannot be followed is in no chart
      rw [hl] at hmem
      cases hmem
  | ok ts =>
      rw [hl] at hmem
      obtain ⟨hch, hlinks⟩ := charted_of_linksOf hl
      refine ⟨hch, fun u hu => ?_⟩
      exact of_decide_eq_true (List.all_eq_true.mp hmem u (hlinks u hu))

theorem chartedAbove_of_chart {t : Ty} (ht : t ∈ chart) : ChartedAbove env t := by
  intro u hu
  -- no link leaves the chart, so no path does
  have hmem : u ∈ chart := by
    induction hu with
    | refl => exact ht
    | tail _ hl ih => exact (charted_of_mem_chart h ih).2 _ hl
  exact (charted_of_mem_chart h hmem).1

theorem pathsWithin_of_chart {t : Ty} (ht : t ∈ chart) {n : Nat} (hn : chart.length ≤ n + 1) :
    PathsWithin env n t :=
  pathsWithin_of_closed (fun _ hu => (charted_of_mem_chart h hu).2) ht hn

end Chart

/-! ## Room for a walk -/

/-- A walk that avoids what it has met has fewer than `n` links to go from `t`. -/
def Room (env : Env) (n : Nat) (met : List Ty) (t : Ty) : Prop :=
  ∀ rest, (t :: rest).IsChain (Link env) → (t :: rest).Nodup → (∀ u ∈ t :: rest, u ∉ met) →
    rest.length < n

theorem PathsWithin.room {env : Env} {n : Nat} {t : Ty} (h : PathsWithin env n t) :
    Room env (n + 1) [] t := fun rest hchain hnodup _ => by
  have := h rest hchain hnodup
  omega

theorem Room.pos {env : Env} {n : Nat} {met : List Ty} {t : Ty} (h : Room env n met t)
    (ht : t ∉ met) : 0 < n :=
  h [] (List.IsChain.singleton t) (by simp) (by simpa using ht)

/-- Following a link uses up one level. -/
theorem Room.link {env : Env} {n : Nat} {met met' : List Ty} {t u : Ty}
    (h : Room env (n + 1) met t) (hl : Link env t u) (ht : t ∉ met) (hsub : t :: met ⊆ met') :
    Room env n met' u := by
  intro rest hchain hnodup hmet
  have htmet : t ∈ met' := hsub List.mem_cons_self
  -- a path from `u` that avoids `met'` is one from `t` that avoids `met`, less its first link
  have hlong : (u :: rest).length < n + 1 := by
    refine h (u :: rest) (List.isChain_cons_cons.mpr ⟨hl, hchain⟩) ?_ ?_
    · exact List.nodup_cons.mpr ⟨fun hmem => hmet t hmem htmet, hnodup⟩
    · intro w hw hwmet
      rcases List.mem_cons.mp hw with rfl | hw
      · exact ht hwmet
      · exact hmet w hw (hsub (List.mem_cons_of_mem _ hwmet))
  simpa using hlong

/-! ## The top of the graph -/

/-- Nothing lies above the top class, and nothing but the top class above the supertypes of
arrays. -/
structure Rooted (env : Env) : Prop where
  top : ∀ t, ¬ DirectSupertype env env.objectType t
  arrays : ∀ t ∈ env.arraySupertypes, ∀ u, DirectSupertype env t u → u = env.objectType

theorem Rooted.not_above_top {env : Env} (h : Rooted env) {t : Ty} :
    ¬ Above env env.objectType t := by
  intro ht
  obtain ⟨u, hu, -⟩ := TransGen.head'_iff.mp ht
  exact h.top u hu

theorem Rooted.above_array {env : Env} (h : Rooted env) {t u : Ty} (ht : t ∈ env.arraySupertypes)
    (hu : Above env t u) : u = env.objectType := by
  obtain ⟨w, hw, hrest⟩ := TransGen.head'_iff.mp hu
  -- the first edge leads to the top class, and there is no second
  rw [h.arrays t ht w hw] at hrest
  rcases ReflTransGen.cases_head hrest with rfl | ⟨v, hv, -⟩
  · rfl
  · exact absurd hv (h.top v)

/-- A class that lists no links has at most the top class above it. -/
theorem directSupertype_of_no_links {env : Env} {id : ClassId} {t : Ty} {c : ClassDef}
    (h : DirectSupertype env (.cls id) t) (hc : env.classDef? id = some c)
    (hlinks : followedLinks env id c = []) : c.isInterface = true ∧ t = env.objectType := by
  cases h with
  | link hl =>
      cases hl with
      | cls hd hmem =>
          rw [hc] at hd
          cases hd
          rw [hlinks] at hmem
          cases hmem
  | top hd hi =>
      rw [hc] at hd
      cases hd
      exact ⟨hi, rfl⟩

/-- The top class is a class and lists nothing. -/
def BareTop (env : Env) : Prop :=
  ∃ c, env.classDef? env.wellKnown.object = some c ∧ c.isInterface = false ∧
    c.superclass = none ∧ c.interfaces = []

/-- In every run the top class stays the class without links that it is from the start. -/
theorem bareTop_of_reachable {s : Store} (h : Reachable s) : BareTop s.env := by
  have hdata : (Store.builtin.classDef? wellKnownIds.object).map
      (fun c => (c.isInterface, c.superclass, c.interfaces)) = some (false, none, []) := by
    decide
  obtain ⟨c, hc, hshape⟩ := Option.map_eq_some_iff.mp hdata
  simp only [Prod.mk.injEq] at hshape
  rw [← reachable_wellKnown h] at hc
  exact ⟨c, reachable_classDef h hc, hshape⟩

/-- The same for the two interfaces of arrays. -/
theorem reachable_arrayInterface {s : Store} (h : Reachable s) {id : ClassId}
    (hid : id = s.wellKnown.cloneable ∨ id = s.wellKnown.serializable) :
    ∃ c, s.classDef? id = some c ∧ c.isInterface = true ∧ c.interfaces = [] := by
  have hdata : ∀ k ∈ [wellKnownIds.cloneable, wellKnownIds.serializable],
      (Store.builtin.classDef? k).map (fun c => (c.isInterface, c.interfaces)) =
        some (true, []) := by
    decide
  rw [reachable_wellKnown h] at hid
  obtain ⟨c, hc, hshape⟩ := Option.map_eq_some_iff.mp (hdata id (by simpa using hid))
  simp only [Prod.mk.injEq] at hshape
  exact ⟨c, reachable_classDef h hc, hshape⟩

/-- **The graph of every reachable store is rooted.** -/
theorem rooted_of_reachable {s : Store} (h : Reachable s) : Rooted s.env := by
  obtain ⟨c, hc, hi, -, -⟩ := bareTop_of_reachable h
  have htop : ∀ t, ¬ DirectSupertype s.env s.env.objectType t := by
    intro t ht
    -- no links are followed from the top class, and it is no interface
    have hlinks : followedLinks s.env s.wellKnown.object c = [] := by
      simp [followedLinks, hi, Store.env]
    have := (directSupertype_of_no_links ht hc hlinks).1
    rw [hi] at this
    cases this
  refine ⟨htop, ?_⟩
  intro t ht u hu
  simp only [Env.arraySupertypes, List.mem_cons, List.not_mem_nil, or_false] at ht
  rcases ht with rfl | ht
  · exact absurd hu (htop u)
  · -- the other two are interfaces that list nothing
    obtain ⟨id, hid, rfl⟩ : ∃ id, (id = s.wellKnown.cloneable ∨
        id = s.wellKnown.serializable) ∧ t = .cls id := by
      rcases ht with rfl | rfl
      · exact ⟨_, .inl rfl, rfl⟩
      · exact ⟨_, .inr rfl, rfl⟩
    obtain ⟨d, hd, hdi, hnone⟩ := reachable_arrayInterface h hid
    have hlinks : followedLinks s.env id d = [] := by simp [followedLinks, hdi, hnone]
    exact (directSupertype_of_no_links hu hd hlinks).2

end Lineage.Proofs
