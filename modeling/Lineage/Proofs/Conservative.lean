import Lineage.Proofs.Memory

/-!
# Erased signatures only add candidates

The resolver for generic methods asks the same questions as the one that looks at
declared parameters only, and tries again where the answer is no. So it keeps every
candidate that the other one finds and may find more in between, in the same order.
More candidates can make a call ambiguous, which is why nothing is said about the method
that a call means in general.

Where nothing is generic there is nothing to try again. It is enough to know this about
the classes that are searched for the receiver and the methods they list: a method that
a class lists has the class as its container, so whether the container is generic was
settled with the class. All questions are then answered alike, failures included, and
the cache is never asked.
-/

namespace Lineage.Proofs

open Store

/-! ## Wider rules find more -/

section Wider

variable {env : Env} {fits fits' : CallRule Unit} {call : MethodCall} {ctx : AccessContext}

/-- What fits by the first rule fits by the second. -/
def Wider (fits fits' : CallRule Unit) : Prop :=
  ∀ m args, answer (fits m args) = .ok true → answer (fits' m args) = .ok true

theorem offers_wider (h : Wider fits fits') {id : ClassId} {m : Method}
    (hm : offers ⟨env, fits⟩ call ctx id m = true) : offers ⟨env, fits'⟩ call ctx id m = true := by
  obtain ⟨hname, hfits, haccess⟩ := offers_iff.mp hm
  exact offers_iff.mpr ⟨hname, h m call.args hfits, haccess⟩

/-- In every class, what the first rule keeps the second keeps too. -/
theorem applicable_wider (h : Wider fits fits') {found found' : List Method}
    (hfound : answer (Resolver.applicable ⟨env, fits⟩ call ctx) = .ok found)
    (hfound' : answer (Resolver.applicable ⟨env, fits'⟩ call ctx) = .ok found') :
    List.Sublist found found' := by
  rw [applicable_eq] at hfound hfound'
  obtain ⟨classes, hclasses, hfound⟩ := bind_eq_ok_iff.mp hfound
  obtain ⟨classes', hclasses', hfound'⟩ := bind_eq_ok_iff.mp hfound'
  -- which classes are searched does not depend on the rule
  obtain rfl : classes = classes' := Except.ok.inj (hclasses.symm.trans hclasses')
  obtain ⟨-, rfl⟩ := applicableAlong_eq_ok_iff.mp hfound
  obtain ⟨-, rfl⟩ := applicableAlong_eq_ok_iff.mp hfound'
  refine List.Sublist.flatMap_right _ fun id _ => ?_
  exact List.monotone_filter_right _ fun m hm => offers_wider h hm

/-- A call that fits the declared parameters is not tried again. -/
theorem standard_wider (env : Env) (erasures : ClassId → Except TypeError Subst) :
    Wider (CallRule.standard env) (genericBy env erasures) := by
  intro m args h
  unfold CallRule.standard at h
  rw [answer_ofExcept] at h
  unfold genericBy
  rw [answer_bind, answer_ofExcept, h]
  rfl

end Wider

/-! ## Receivers without generic members -/

/-- No class that is searched for the receiver has type parameters, and neither has any method
that one of them lists. -/
def Monomorphic (s : Store) (receiver : Ty) : Prop :=
  ∀ classes, searchedClasses s.env receiver = .ok classes → ∀ id ∈ classes,
    (∀ c ∈ s.classDef? id, c.typeParams = []) ∧ ∀ m ∈ s.methodsOf id, m.typeParams = []

theorem Monomorphic.alikeFor {s : Store} (hs : Reachable s) {receiver : Ty}
    (h : Monomorphic s receiver) (I : ErasureCache → Prop) :
    AlikeFor I s.env (CallRule.generic s.env) (CallRule.standard s.env) receiver := by
  intro classes hclasses m hm
  obtain ⟨id, hid, hlisted⟩ := List.mem_flatMap.mp hm
  obtain ⟨hclass, hmethods⟩ := h classes hclasses id hid
  -- the class that lists the method is the one whose type parameters count
  have hcontainer : m.container = id :=
    ((registry_reachable hs).members.of_mem_methodsOf hlisted).2
  refine generic_alike_standard (isGenericMember_eq_false ?_ ?_) I
  · rw [Method.isGeneric, hmethods m hlisted]
    rfl
  · rw [hcontainer]
    exact hclass

/-- From one memory only, mirroring says what the whole run is. -/
theorem Mirrors.run_eq {σ α : Type} {x : Resolve σ α} {y : Resolve Unit α} {s : σ}
    (h : Mirrors (· = s) x y) : x.run.run s = (answer y, s) :=
  Prod.ext (h s rfl).1 (h s rfl).2

/--
**The resolver for generic methods extends the one for declared parameters.** In every
reachable store and with whatever cache, the candidates of the one are among those of
the other, in the same order. And if neither the classes that are searched for the
receiver nor their methods have type parameters, the two resolvers collect, compare and
choose alike, with the same failures, and the cache is left alone.
-/
theorem generic_extends_standard {s : Store} (hs : Reachable s) (cache : ErasureCache)
    (call : MethodCall) (ctx : AccessContext) :
    (∀ found found',
      answer ((Resolver.standard s.env).applicable call ctx) = .ok found →
      (((Resolver.generic s.env).applicable call ctx).run.run cache).1 = .ok found' →
        List.Sublist found found') ∧
    (Monomorphic s call.receiver →
      ((Resolver.generic s.env).applicable call ctx).run.run cache =
        (answer ((Resolver.standard s.env).applicable call ctx), cache) ∧
      (∀ classes, searchedClasses s.env call.receiver = .ok classes →
        ∀ m₁ m₂, m₂ ∈ classes.flatMap s.methodsOf →
          ((Resolver.generic s.env).moreSpecific m₁ m₂).run.run cache =
            (answer ((Resolver.standard s.env).moreSpecific m₁ m₂), cache)) ∧
      ((Resolver.generic s.env).getMethod call ctx).run.run cache =
        (answer ((Resolver.standard s.env).getMethod call ctx), cache)) := by
  constructor
  · intro found found' hfound hfound'
    -- with its erasures known in advance, the resolver with a cache is one without
    have hgeneric := (sameErasures_supplies s.env cache).generic
    have hmirror : Mirrors (SameErasures s.env cache)
        ((Resolver.generic s.env).applicable call ctx) _ :=
      applicable_mirrors fun _ _ m _ => hgeneric m
    rw [(hmirror cache fun _ => rfl).1] at hfound'
    exact applicable_wider (standard_wider s.env _) hfound hfound'
  · intro hmono
    -- no member is generic, so the cache is never asked and stays as it is
    have halike := hmono.alikeFor hs (· = cache)
    refine ⟨(applicable_mirrors halike).run_eq, ?_, (getMethod_mirrors halike).run_eq⟩
    intro classes hclasses m₁ m₂ hm₂
    exact (moreSpecific_mirrors (halike classes hclasses m₂ hm₂)).run_eq

/-- A generic class with two overloads, of which one takes the variable, and a class without type
parameters that has two as well. -/
def boxesRun : List Change :=
  [.addTypeParam { name := "T", bound := some (.cls wellKnownIds.number) },
   .addClass { name := "p.Box", typeParams := [⟨0⟩],
               methods := [{ name := "put", returnType := .prim .void, flags := .pub,
                             params := [.var ⟨0⟩] },
                           { name := "put", returnType := .prim .void, flags := .pub,
                             params := [.cls wellKnownIds.object] }] },
   .addClass { name := "p.A",
               methods := [{ name := "f", returnType := .prim .void, flags := .pub,
                             params := [.cls wellKnownIds.object] },
                           { name := "f", returnType := .prim .void, flags := .pub,
                             params := [.cls wellKnownIds.number] }] }]

theorem generic_extends_standard_boxes :
    let s := afterAll Store.builtin boxesRun
    let put : MethodCall := ⟨.cls ⟨12⟩, "put", [.cls wellKnownIds.integer]⟩
    let f : MethodCall := ⟨.cls ⟨13⟩, "f", [.cls wellKnownIds.integer]⟩
    let ctx : AccessContext := { current := ⟨13⟩ }
    let cache := (((Resolver.generic s.env).applicable put ctx).run.run {}).2
    (Reachable s ∧ cache.size = 1 ∧ (s.methodsOf ⟨12⟩).length = 2 ∧
      answer ((Resolver.standard s.env).applicable put ctx) = .ok ((s.methodsOf ⟨12⟩).drop 1) ∧
      (((Resolver.generic s.env).applicable put ctx).run.run cache).1 =
        .ok (s.methodsOf ⟨12⟩) ∧
      Monomorphic s f.receiver) ∧
    List.Sublist ((s.methodsOf ⟨12⟩).drop 1) (s.methodsOf ⟨12⟩) ∧
    ((Resolver.generic s.env).getMethod f ctx).run.run cache =
      (answer ((Resolver.standard s.env).getMethod f ctx), cache) := by
  intro s put f ctx cache
  have hs : Reachable s := reachable_afterAll Reachable.builtin boxesRun
  have hfound : answer ((Resolver.standard s.env).applicable put ctx) =
      .ok ((s.methodsOf ⟨12⟩).drop 1) := by decide
  have hfound' : (((Resolver.generic s.env).applicable put ctx).run.run cache).1 =
      .ok (s.methodsOf ⟨12⟩) := by decide
  have hmono : Monomorphic s f.receiver := by
    have hsearched : searchedClasses s.env f.receiver = .ok [⟨13⟩, ⟨0⟩] := by decide
    intro classes hclasses
    obtain rfl : [⟨13⟩, ⟨0⟩] = classes := Except.ok.inj (hsearched.symm.trans hclasses)
    decide
  refine ⟨⟨hs, by decide, by decide, hfound, hfound', hmono⟩, ?_, ?_⟩
  · exact (generic_extends_standard hs cache put ctx).1 _ _ hfound hfound'
  · exact ((generic_extends_standard hs cache f ctx).2 hmono).2.2

end Lineage.Proofs
