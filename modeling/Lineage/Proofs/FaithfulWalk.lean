import Lineage.SuperclassWalk
import Lineage.Proofs.FieldLookup
import Mathlib.Data.List.Chain

/-!
# A walk up is bounded and faithful

A walk up the superclass links is asked for one class after another. It keeps four things
in mind: the class to begin with, the class yielded last, what it has met and whether it
is over. The links may lead back, or go on for longer than allowed, or lead nowhere.

Two steps settle what comes out of it. First, however often it is asked, the answers are
those of the chain that is computed at once, its classes and then its failure, and nothing
ever after (`answer_eq`). The step behind this is about a walk that is about to arrive at
a class; where it came from, whether from the beginning or by a link, makes no
difference.

Second, the chain is a stretch of the way up without repetition, and it ends for one of
three reasons (`chainFrom_halts`). There is no superclass; or it cannot be told; or it is
not to be yielded, because it was met or because there is no more room. Which it is, is
told by the last class alone, so the reasons exclude each other.
-/

namespace Lineage.Proofs

open SuperclassWalk

/-! ## The answers of a walk -/

/-- The classes of a chain, and the error that ended it, if one did. -/
def yields (chain : Chain) : List (Except TypeError ClassId) :=
  chain.classes.map .ok ++ chain.failure.toList.map .error

section Answers

variable {env : Env} {w : SuperclassWalk}

theorem answer_zero : w.answer env 0 = (w.next env).1 := rfl

theorem answer_succ (n : Nat) : w.answer env (n + 1) = (w.next env).2.answer env n := rfl

/-- A walk that is over stays so. -/
theorem answer_done (h : w.done = true) (n : Nat) : w.answer env n = none := by
  have hnext : w.next env = (none, w) := if_pos h
  induction n with
  | zero => rw [answer_zero, hnext]
  | succ n ih =>
      rw [answer_succ, hnext]
      exact ih

/-- The answer with which a walk ends is its last. -/
theorem answer_of_last {v : SuperclassWalk} {last : Option (Except TypeError ClassId)}
    (hnext : w.next env = (last, v)) (hdone : v.done = true) (n : Nat) :
    w.answer env n = last.toList[n]? := by
  cases n with
  | zero =>
      rw [answer_zero, hnext]
      cases last <;> rfl
  | succ n =>
      rw [answer_succ, hnext, answer_done hdone]
      cases last <;> rfl

theorem arrive_stop {id : ClassId} (h : id ∈ w.seen ∨ env.depthLimit ≤ w.seen.length) :
    w.arrive env id =
      (some (.error (env.cyclic id)), { w with seen := w.seen.insert id, done := true }) := by
  -- a class seen before adds nothing to the count, so the two tests are one
  have hstop : id ∈ w.seen ∨ env.depthLimit < (w.seen.insert id).length := by
    by_cases hid : id ∈ w.seen
    · exact .inl hid
    · have hfull := h.resolve_left hid
      rw [List.length_insert_of_not_mem hid]
      omega
  exact if_pos hstop

theorem arrive_go {id : ClassId} (hid : id ∉ w.seen) (hroom : w.seen.length < env.depthLimit) :
    w.arrive env id = (some (.ok id), { w with seen := id :: w.seen, last := some id }) := by
  have hgo : ¬ (id ∈ w.seen ∨ env.depthLimit < (w.seen.insert id).length) := by
    refine not_or.mpr ⟨hid, ?_⟩
    rw [List.length_insert_of_not_mem hid]
    omega
  unfold arrive
  rw [if_neg hgo, List.insert_of_not_mem hid]

/-- Under way, the next class is found by the link of the last one. -/
theorem next_under_way {prev : ClassId} (hstart : w.start = none) (hlast : w.last = some prev)
    (hdone : w.done = false) :
    w.next env =
      match env.superclassOf prev with
      | .ok (some id) => w.arrive env id
      | .ok none => (none, { w with done := true })
      | .error e => (some (.error e), { w with done := true }) := by
  unfold next
  rw [hdone, hstart, hlast]
  rfl

theorem chainFrom_stop {n : Nat} {seen : List ClassId} {id : ClassId} (h : id ∈ seen ∨ n = 0) :
    env.chainFrom n seen id = { classes := [], failure := some (env.cyclic id) } := by
  cases n with
  | zero => rfl
  | succ n =>
      have hid : id ∈ seen := h.resolve_right (Nat.succ_ne_zero n)
      rw [Env.chainFrom, if_pos hid]

/-- **A walk that arrives at a class yields the chain from there.** The induction is on the room
that is left; every arrival but the first is the next call of a walk under way. -/
theorem answer_of_arrival {n : Nat} {w v : SuperclassWalk} {id : ClassId}
    (hnext : w.next env = v.arrive env id) (hstart : v.start = none) (hdone : v.done = false)
    (hroom : v.seen.length + n = env.depthLimit) (i : Nat) :
    w.answer env i = (yields (env.chainFrom n v.seen id))[i]? := by
  induction n generalizing w v id i with
  | zero =>
      rw [arrive_stop (.inr (by omega))] at hnext
      rw [chainFrom_stop (.inr rfl)]
      exact answer_of_last hnext rfl i
  | succ n ih =>
      by_cases hid : id ∈ v.seen
      · rw [arrive_stop (.inl hid)] at hnext
        rw [chainFrom_stop (.inl hid)]
        exact answer_of_last hnext rfl i
      · rw [arrive_go hid (by omega)] at hnext
        have hunder : next env { v with seen := id :: v.seen, last := some id } = _ :=
          next_under_way hstart rfl hdone
        rw [Env.chainFrom, if_neg hid]
        -- the first answer is the class arrived at, the later ones are those of a walk under way
        cases i with
        | zero =>
            rw [answer_zero, hnext]
            rcases env.superclassOf id with e | (_ | parent) <;> rfl
        | succ i =>
            rw [answer_succ, hnext]
            rcases hsup : env.superclassOf id with e | (_ | parent)
            · rw [hsup] at hunder
              exact answer_of_last hunder rfl i
            · rw [hsup] at hunder
              exact answer_of_last hunder rfl i
            · -- the walk arrives at the superclass
              rw [hsup] at hunder
              refine ih hunder hstart hdone ?_ i
              rw [List.length_cons]
              omega

/-- **Asked again and again, a walk yields the chain, and then nothing.** -/
theorem answer_eq (start : ClassId) (i : Nat) :
    (beginAt start).answer env i = (yields (env.superclassChain start))[i]? :=
  answer_of_arrival (v := { beginAt start with start := none }) rfl rfl rfl (Nat.zero_add _) i

end Answers

/-! ## How a chain ends -/

/-- Why nothing comes after the class, where `barred` are the classes that are not to come. -/
inductive Halts (env : Env) (barred : ClassId → Prop) (last : ClassId) :
    Option TypeError → Prop where
  | top : env.superclassOf last = .ok none → Halts env barred last none
  | broken {e : TypeError} : env.superclassOf last = .error e → Halts env barred last (some e)
  | cyclic {next : ClassId} : HasSuperclass env last next → barred next →
      Halts env barred last (some (env.cyclic next))

section Halts

variable {env : Env} {barred barred' : ClassId → Prop} {last : ClassId}
  {failure : Option TypeError}

theorem Halts.mono (h : Halts env barred last failure) (himp : ∀ x, barred x → barred' x) :
    Halts env barred' last failure := by
  cases h with
  | top htop => exact .top htop
  | broken hsup => exact .broken hsup
  | cyclic hnext hbarred => exact .cyclic hnext (himp _ hbarred)

theorem superclassOf_error_kind {e : TypeError} (h : env.superclassOf last = .error e) :
    e.kind ≠ .cyclicInheritance := by
  rcases superclassOf_failsAs env last e h with hkind | hkind <;> simp [hkind]

theorem Halts.none_iff (h : Halts env barred last failure) :
    failure = none ↔ env.superclassOf last = .ok none := by
  cases h with
  | top htop => simp [htop]
  | broken hsup => simp [hsup]
  | @cyclic next hnext _ =>
      have hsup : env.superclassOf last = .ok (some next) := hnext
      simp [hsup]

theorem Halts.broken_iff (h : Halts env barred last failure) {e : TypeError} :
    failure = some e ∧ e.kind ≠ .cyclicInheritance ↔ env.superclassOf last = .error e := by
  -- a cyclic end has a link that could be followed, so a broken one is told by its error
  refine ⟨fun hfail => ?_, fun hsup => ⟨?_, superclassOf_error_kind hsup⟩⟩
  · obtain ⟨rfl, hkind⟩ := hfail
    cases h with
    | broken hsup => exact hsup
    | cyclic _ _ => exact absurd rfl hkind
  · cases h with
    | top htop => cases htop.symm.trans hsup
    | broken hsup' =>
        cases hsup'.symm.trans hsup
        rfl
    | cyclic hnext _ => cases Eq.trans (Eq.symm hnext) hsup

theorem Halts.cyclic_iff (h : Halts env barred last failure) {e : TypeError} :
    failure = some e ∧ e.kind = .cyclicInheritance ↔
      ∃ next, HasSuperclass env last next ∧ barred next ∧ e = env.cyclic next := by
  constructor
  · rintro ⟨rfl, hkind⟩
    cases h with
    | broken hsup => exact absurd hkind (superclassOf_error_kind hsup)
    | cyclic hnext hbarred => exact ⟨_, hnext, hbarred, rfl⟩
  · rintro ⟨next, hnext, -, rfl⟩
    have hsup : env.superclassOf last = .ok (some next) := hnext
    refine ⟨?_, rfl⟩
    cases h with
    | top htop => cases htop.symm.trans hsup
    | broken hsup' => cases hsup'.symm.trans hsup
    | cyclic hnext' _ =>
        cases Eq.trans (Eq.symm hnext') hsup
        rfl

end Halts

section Chain

variable {env : Env}

theorem Leads.head?_eq {c k : ClassId} {passed : List ClassId} (h : Leads env c passed k) :
    (passed ++ [k]).head? = some c := by
  cases h <;> rfl

theorem Leads.isChain {c k : ClassId} {passed : List ClassId} (h : Leads env c passed k) :
    (passed ++ [k]).IsChain (HasSuperclass env) := by
  induction h with
  | here c => exact .singleton c
  | @up c parent k passed hp hleads ih =>
      refine ih.cons fun y hy => ?_
      -- the rest of the way begins with the superclass
      rw [hleads.head?_eq] at hy
      cases hy
      exact hp

/-- **A chain goes up without repetition and ends at a class that tells why.** -/
theorem chainFrom_halts (env : Env) (n : Nat) {seen : List ClassId} {c : ClassId} (hc : c ∉ seen) :
    ∃ passed last, (env.chainFrom (n + 1) seen c).classes = passed ++ [last] ∧
      Leads env c passed last ∧ Fresh seen (passed ++ [last]) ∧ passed.length ≤ n ∧
      Halts env (fun x => x ∈ seen ∨ x ∈ passed ++ [last] ∨ passed.length = n) last
        (env.chainFrom (n + 1) seen c).failure := by
  induction n using Nat.strongRecOn generalizing seen c with
  | ind n ih =>
      have hfresh : Fresh seen [c] := fresh_cons_iff.mpr ⟨hc, by simp [Fresh]⟩
      rw [Env.chainFrom, if_neg hc]
      cases hsup : env.superclassOf c with
      | error e => exact ⟨[], c, rfl, .here c, hfresh, Nat.zero_le n, .broken hsup⟩
      | ok parent =>
          cases parent with
          | none => exact ⟨[], c, rfl, .here c, hfresh, Nat.zero_le n, .top hsup⟩
          | some p =>
              by_cases hstop : p ∈ c :: seen ∨ n = 0
              · -- the superclass is barred: met before, the class itself, or one too many
                dsimp only
                rw [chainFrom_stop hstop]
                refine ⟨[], c, rfl, .here c, hfresh, Nat.zero_le n, .cyclic hsup ?_⟩
                rcases hstop with hmem | hzero
                · rcases List.mem_cons.mp hmem with rfl | hmem
                  · exact .inr (.inl List.mem_cons_self)
                  · exact .inl hmem
                · exact .inr (.inr hzero.symm)
              · obtain ⟨hp, hn⟩ := not_or.mp hstop
                obtain ⟨m, rfl⟩ := Nat.exists_eq_succ_of_ne_zero hn
                obtain ⟨passed, last, hclasses, hleads, hrest, hlen, hends⟩ :=
                  ih m (Nat.lt_succ_self m) hp
                refine ⟨c :: passed, last, congrArg (c :: ·) hclasses, .up hsup hleads,
                  fresh_cons_iff.mpr ⟨hc, hrest⟩, Nat.succ_le_succ hlen, hends.mono fun x hx => ?_⟩
                -- what is barred further up is barred here too, with one class more passed
                rcases hx with hmem | hmem | hfull
                · rcases List.mem_cons.mp hmem with rfl | hmem
                  · exact .inr (.inl List.mem_cons_self)
                  · exact .inl hmem
                · exact .inr (.inl (List.mem_cons_of_mem c hmem))
                · exact .inr (.inr (congrArg (· + 1) hfull))

end Chain

/-! ## Faithful walks -/

/-- The class that comes after those yielded: the first one, or the superclass of the last. -/
def ComesNext (env : Env) (start : ClassId) (ids : List ClassId) (next : ClassId) : Prop :=
  match ids.getLast? with
  | none => next = start
  | some last => HasSuperclass env last next

/-- The classes `ids` are yielded on a walk up from `start`, followed by `failure`, if there is
one. -/
structure WalksUp (env : Env) (start : ClassId) (ids : List ClassId)
    (failure : Option TypeError) : Prop where
  distinct : ids.Nodup
  within : ids.length ≤ env.depthLimit
  begins : 0 < env.depthLimit → ids.head? = some start
  linked : ids.IsChain (HasSuperclass env)
  /-- It comes to its end at a class without a superclass link, and nowhere else. -/
  ends_iff : failure = none ↔
    ∃ last d, ids.getLast? = some last ∧ env.classDef? last = some d ∧ d.superclass = none
  /-- It fails with the error of a link that cannot be followed. -/
  broken_iff : ∀ e, failure = some e ∧ e.kind ≠ .cyclicInheritance ↔
    ∃ last, ids.getLast? = some last ∧ env.superclassOf last = .error e
  /-- It is given up at a class that was yielded and at one for which there is no room. -/
  cyclic_iff : ∀ e, failure = some e ∧ e.kind = .cyclicInheritance ↔
    ∃ next, ComesNext env start ids next ∧ (next ∈ ids ∨ ids.length = env.depthLimit) ∧
      e = env.cyclic next

section Faithful

variable {env : Env} {start : ClassId}

theorem superclassOf_eq_none_iff {id : ClassId} :
    env.superclassOf id = .ok none ↔ ∃ d, env.classDef? id = some d ∧ d.superclass = none := by
  rw [superclassOf_eq_ok_iff]
  refine exists_congr fun d => and_congr_right fun _ => ?_
  cases d.superclass <;> simp

/-- Where no class may be yielded, the first one is refused. -/
theorem walksUp_of_no_room (h : env.depthLimit = 0) :
    WalksUp env start [] (some (env.cyclic start)) where
  distinct := List.nodup_nil
  within := Nat.zero_le _
  begins hpos := absurd h (Nat.ne_of_gt hpos)
  linked := .nil
  ends_iff := by simp
  broken_iff e := by
    refine iff_of_false ?_ (by simp)
    rintro ⟨hfail, hkind⟩
    cases hfail
    exact hkind rfl
  cyclic_iff e := by
    constructor
    · rintro ⟨hfail, -⟩
      cases hfail
      exact ⟨start, rfl, .inr h.symm, rfl⟩
    · rintro ⟨next, rfl, -, rfl⟩
      exact ⟨rfl, rfl⟩

theorem walksUp_of_leads {passed : List ClassId} {last : ClassId} {failure : Option TypeError}
    (hleads : Leads env start passed last) (hnodup : (passed ++ [last]).Nodup)
    (hroom : passed.length < env.depthLimit)
    (hends : Halts env (fun x => x ∈ passed ++ [last] ∨ (passed ++ [last]).length = env.depthLimit)
      last failure) :
    WalksUp env start (passed ++ [last]) failure where
  distinct := hnodup
  within := by
    rw [List.length_append]
    exact hroom
  begins _ := hleads.head?_eq
  linked := hleads.isChain
  ends_iff := by simp [hends.none_iff, superclassOf_eq_none_iff]
  broken_iff e := by simp [hends.broken_iff]
  cyclic_iff e := by simp [hends.cyclic_iff, ComesNext]

theorem superclassChain_walksUp (env : Env) (start : ClassId) :
    WalksUp env start (env.superclassChain start).classes (env.superclassChain start).failure := by
  unfold Env.superclassChain
  cases hlimit : env.depthLimit with
  | zero => exact walksUp_of_no_room hlimit
  | succ n =>
      obtain ⟨passed, last, hclasses, hleads, hfresh, hlen, hends⟩ :=
        chainFrom_halts env n (List.not_mem_nil (a := start))
      rw [hclasses]
      refine walksUp_of_leads hleads hfresh.1 (by omega) (hends.mono fun x hx => ?_)
      -- nothing was seen before the start, so met means yielded
      rcases hx with hmem | hmem | hfull
      · cases hmem
      · exact .inl hmem
      · refine .inr ?_
        rw [List.length_append, hfull, hlimit]
        rfl

end Faithful

/--
**A walk up the superclass links is bounded and faithful**, in every environment and from
every class, whatever the links lead to. Asked again and again it yields classes,
different from each other and not more than the limit, from the start on and each the
superclass of the one before. Then it yields an error or none, and nothing ever after.

There is no error exactly if the last class is defined and has no superclass link. The
error is that of the last class's link exactly if it cannot be followed; and it is about
cyclic inheritance exactly if the class that comes next has been yielded already, or as
many as the limit have been.
-/
theorem superclassWalk_faithful (env : Env) (start : ClassId) :
    ∃ ids failure, WalksUp env start ids failure ∧
      (∀ i, (beginAt start).answer env i =
        (ids.map .ok ++ failure.toList.map .error : List (Except TypeError ClassId))[i]?) ∧
      env.superclassChain start = { classes := ids, failure := failure } :=
  ⟨_, _, superclassChain_walksUp env start, answer_eq start, rfl⟩

/-- Two classes that extend each other, and a third one below them. Each is yielded once. -/
example :
    let env := (afterAll .builtin
      [.addClass { name := "p.Hen", superclass := some (.named "p.Egg") },
       .addClass { name := "p.Egg", superclass := some (.cls ⟨12⟩) },
       .addClass { name := "p.Nest", superclass := some (.cls ⟨13⟩) }]).env
    (List.range 5).map ((beginAt ⟨14⟩).answer env) =
      [some (.ok ⟨14⟩), some (.ok ⟨13⟩), some (.ok ⟨12⟩),
        some (.error (.cyclicInheritance "p.Egg")), none] := by
  decide

end Lineage.Proofs
