import Lineage.Member.Call
import Lineage.Proofs.Run

/-!
# How many arguments a method takes

A method of fixed arity takes one argument for each parameter. A method of variable arity
ends with an array and takes its elements one by one, any number of them, or takes the
array itself as one argument. The check follows the list of parameters, so it has no
positions to get wrong. The rule that it implements is one about positions, though:
which type stands at the position of an argument, and what else that argument may be.

`trials` is the rule in this form. It reads the list of parameters at positions, which
may lie beyond its end, and gives for every argument the types that it is tried with.
For a number of arguments that the method takes, no position lies beyond the end, and
the check is the one that goes through the trials in order, up to the first argument that
converts to none of its types.

A conversion may fail to have an answer. Only those matter that are asked for on the
way, and if they have one, so has the check.
-/

namespace Lineage.Proofs

open Store

/-! ## Questions asked in order -/

section Order

variable {α ε : Type} {f : α → Except ε Bool}

/-- The elements of a list are asked one after the other, as long as the answer is `go`, and `x` is
one of those that are asked. -/
def Asked (f : α → Except ε Bool) (go : Bool) (xs : List α) (x : α) : Prop :=
  ∃ before after, xs = before ++ x :: after ∧ ∀ y ∈ before, f y = .ok go

theorem asked_head (go : Bool) (x : α) (xs : List α) : Asked f go (x :: xs) x :=
  ⟨[], xs, rfl, by simp⟩

theorem Asked.cons {go : Bool} {x y : α} {xs : List α} (hy : f y = .ok go)
    (h : Asked f go xs x) : Asked f go (y :: xs) x := by
  obtain ⟨before, after, rfl, hbefore⟩ := h
  exact ⟨y :: before, after, rfl, List.forall_mem_cons.mpr ⟨hy, hbefore⟩⟩

theorem Asked.mem {go : Bool} {x : α} {xs : List α} (h : Asked f go xs x) : x ∈ xs := by
  obtain ⟨before, after, rfl, -⟩ := h
  simp

/-- What is asked is the first element, or it is asked after the first. -/
theorem asked_cons_iff {go : Bool} {x y : α} {xs : List α} :
    Asked f go (y :: xs) x ↔ x = y ∨ f y = .ok go ∧ Asked f go xs x := by
  constructor
  · rintro ⟨before, after, heq, hbefore⟩
    cases before with
    | nil =>
        obtain ⟨rfl, -⟩ := List.cons.inj heq
        exact .inl rfl
    | cons z before =>
        obtain ⟨rfl, rfl⟩ := List.cons.inj heq
        rw [List.forall_mem_cons] at hbefore
        exact .inr ⟨hbefore.1, before, after, rfl, hbefore.2⟩
  · rintro (rfl | ⟨hy, h⟩)
    · exact asked_head go x xs
    · exact h.cons hy

/-- A loop that goes on as long as the answer is `go` has an answer exactly when all that it asks
has one. -/
theorem loop_eq_ok_iff_asked {go : Bool} {loop : List α → Except ε Bool}
    (hnil : ∃ found, loop [] = .ok found)
    (hcons : ∀ y ys, loop (y :: ys) = f y >>= fun b => if b = go then loop ys else .ok b)
    {xs : List α} :
    (∃ found, loop xs = .ok found) ↔ ∀ x, Asked f go xs x → ∃ found, f x = .ok found := by
  induction xs with
  | nil => simpa [Asked] using hnil
  | cons y xs ih =>
      rw [hcons]
      simp only [asked_cons_iff]
      cases hy : f y with
      | error e => simp [hy]
      | ok b =>
          rw [ok_bind]
          -- an answer other than `go` ends the loop, and nothing after it is asked
          by_cases hgo : b = go
          · rw [if_pos hgo, ih]
            constructor
            · rintro h x (rfl | ⟨-, hx⟩)
              · exact ⟨b, hy⟩
              · exact h x hx
            · exact fun h x hx => h x (.inr ⟨by rw [hgo], hx⟩)
          · rw [if_neg hgo]
            simp [hy, hgo]

theorem allM_eq_ok_iff_asked {xs : List α} :
    (∃ found, xs.allM f = .ok found) ↔ ∀ x, Asked f true xs x → ∃ found, f x = .ok found := by
  refine loop_eq_ok_iff_asked ⟨true, rfl⟩ fun y ys => ?_
  rw [List.allM_cons]
  congr 1
  funext b
  cases b <;> rfl

theorem anyM_eq_ok_iff_asked {xs : List α} :
    (∃ found, xs.anyM f = .ok found) ↔ ∀ x, Asked f false xs x → ∃ found, f x = .ok found := by
  refine loop_eq_ok_iff_asked ⟨false, rfl⟩ fun y ys => ?_
  rw [List.anyM_cons]
  congr 1
  funext b
  cases b <;> rfl

theorem allM_eq_true_iff {xs : List α} : xs.allM f = .ok true ↔ ∀ x ∈ xs, f x = .ok true := by
  induction xs with
  | nil => simp
  | cons y xs ih =>
      rw [List.allM_cons, List.forall_mem_cons, ← ih, bind_eq_ok_iff]
      simp

/-- If all that is asked has an answer, one of the elements has the answer yes exactly when the
first yes is asked for. -/
theorem anyM_eq_true_iff {xs : List α}
    (h : ∀ x, Asked f false xs x → ∃ found, f x = .ok found) :
    xs.anyM f = .ok true ↔ ∃ x ∈ xs, f x = .ok true := by
  induction xs with
  | nil => simp
  | cons y xs ih =>
      -- the first is asked in any case, the others only after a no
      obtain ⟨b, hy⟩ := h y (asked_head false y xs)
      rw [List.anyM_cons, List.exists_mem_cons_iff, hy, ok_bind]
      cases b with
      | true => simp
      | false => simpa using ih fun x hx => h x (hx.cons hy)

/-- If the answer goes on being yes, all elements are asked. -/
theorem forall_of_asked {xs : List α} (h : ∀ x, Asked f true xs x → f x = .ok true) :
    ∀ x ∈ xs, f x = .ok true := by
  induction xs with
  | nil => simp
  | cons y xs ih =>
      have hy := h y (asked_head true y xs)
      exact List.forall_mem_cons.mpr ⟨hy, ih fun x hx => h x (hx.cons hy)⟩

theorem decides_of_eq_ok {x : Except ε Bool} {p : Prop} (h : ∃ found, x = .ok found)
    (hp : x = .ok true ↔ p) : Decides x p := by
  obtain ⟨found, rfl⟩ := h
  rw [Except.ok.injEq] at hp
  exact decides_ok hp

end Order

/-! ## Trials -/

/-- The types that the argument at position `i` of `count` is tried with, in order: the parameter
there, or from the last parameter on the element type, and then the last parameter itself if there
are as many arguments as parameters. `none` stands for a position beyond the parameters. -/
def triedAt (params : List Ty) (element : Option Ty) (count i : Nat) : Option (List Ty) :=
  match element with
  | none => params[i]?.map fun p => [p]
  | some e =>
    if i + 1 < params.length then params[i]?.map fun p => [p]
    else if count = params.length ∧ i + 1 = params.length then params[i]?.map fun p => [e, p]
    else some [e]

/-- Every argument with the types that it is tried with. -/
def trials (params : List Ty) (element : Option Ty) (args : List Ty) :
    Option (List (Ty × List Ty)) :=
  args.zipIdx.mapM fun q => (triedAt params element args.length q.2).map fun ts => (q.1, ts)

/-- The argument converts to one of its types, which are tried in order. -/
def passes (env : Env) (trial : Ty × List Ty) : Except TypeError Bool :=
  trial.2.anyM (env.converts trial.1)

/-- The method takes so many arguments: as many as it has parameters, or at most one less than that
if it is of variable arity and ends with an array of `element`. -/
inductive Takes (m : Method) (count : Nat) : Option Ty → Prop where
  | fixedArity : m.isVarargs = false → count = m.params.length → Takes m count none
  | variableArity {fixed : List Ty} {element : Ty} : m.isVarargs = true →
      m.params = fixed ++ [.array element] → fixed.length ≤ count → Takes m count (some element)

section Trials

variable {env : Env}

/-- A loop over positions that can read something at each of them. -/
theorem mapM_zipIdx_eq_some {α β : Type} {f : α × Nat → Option β} {xs : List α} {ys : List β}
    {k : Nat} (hlen : ys.length = xs.length)
    (h : ∀ i x, xs[i]? = some x → f (x, k + i) = ys[i]?) : (xs.zipIdx k).mapM f = some ys := by
  induction xs generalizing ys k with
  | nil =>
      rw [List.eq_nil_of_length_eq_zero hlen]
      rfl
  | cons x xs ih =>
      cases ys with
      | nil => cases hlen
      | cons y ys =>
          -- the positions of the rest are counted from `k + 1`
          have hrest : (xs.zipIdx (k + 1)).mapM f = some ys := by
            refine ih (by simpa using hlen) fun i z hz => ?_
            have hnext := h (i + 1) z hz
            rwa [← Nat.add_assoc, Nat.add_right_comm] at hnext
          have hfirst : f (x, k) = some y := h 0 x rfl
          rw [List.zipIdx_cons, List.mapM_cons, hfirst, hrest]
          rfl

/-- Each argument with the parameter at its position. -/
def paired (args params : List Ty) : List (Ty × List Ty) :=
  List.zipWith (fun a p => (a, [p])) args params

/-- What the arguments after the fixed parameters are tried with. -/
def tailTrials (element : Ty) : List Ty → List (Ty × List Ty)
  | [arg] => [(arg, [element, .array element])]
  | args => args.map fun a => (a, [element])

theorem trials_fixed {params args : List Ty} (h : args.length = params.length) :
    trials params none args = some (paired args params) := by
  refine mapM_zipIdx_eq_some (by simp [paired, h]) fun i a ha => ?_
  have hi : i < params.length := by
    rw [← h]
    exact (List.getElem?_eq_some_iff.mp ha).1
  simp [triedAt, paired, List.getElem?_zipWith, ha, hi]

/-- Only an argument that stands alone is tried with the array. -/
theorem tailTrials_eq (element : Ty) (args : List Ty) :
    tailTrials element args =
      args.map fun a => (a, if args.length = 1 then [element, .array element] else [element]) := by
  rcases args with _ | ⟨a, _ | ⟨b, args⟩⟩ <;> simp [tailTrials]

theorem trials_variable {fixed args : List Ty} {element : Ty} (h : fixed.length ≤ args.length) :
    trials (fixed ++ [.array element]) (some element) args =
      some (paired (args.take fixed.length) fixed ++
        tailTrials element (args.drop fixed.length)) := by
  have hlen : (paired (args.take fixed.length) fixed).length = fixed.length := by
    simp [paired, h]
  rw [tailTrials_eq]
  refine mapM_zipIdx_eq_some ?_ fun i a ha => ?_
  · rw [List.length_append, hlen, List.length_map, List.length_drop]
    omega
  · rw [Nat.zero_add]
    have hi := (List.getElem?_eq_some_iff.mp ha).1
    by_cases hfixed : i < fixed.length
    · rw [List.getElem?_append_left (by omega)]
      simp [triedAt, paired, List.getElem?_zipWith, hfixed, ha, List.getElem?_append_left]
    · -- from the last parameter on, where only the last position of all reads a parameter
      have hpos : fixed.length + (i - fixed.length) = i := by omega
      rw [List.getElem?_append_right (by omega), hlen, List.getElem?_map, List.getElem?_drop, hpos,
        ha, List.length_drop]
      have hbeyond : ¬ i + 1 < (fixed ++ [Ty.array element]).length := by
        rw [List.length_append, List.length_singleton]
        omega
      simp only [triedAt, if_neg hbeyond]
      -- one argument is left over exactly if there are as many as parameters
      by_cases halone : args.length = fixed.length + 1
      · have hlast : i = fixed.length := by omega
        simp [halone, hlast]
      · have hmore : ¬ args.length - fixed.length = 1 := by omega
        simp [halone, hmore]

theorem passes_single (a p : Ty) : passes env (a, [p]) = env.converts a p := by
  rw [passes, List.anyM_cons, List.anyM_nil]
  rcases env.converts a p with e | (_ | _) <;> rfl

theorem passes_pair (a p q : Ty) :
    passes env (a, [p, q]) =
      env.converts a p >>= fun b => if b then .ok true else env.converts a q := by
  rw [← passes_single a q, passes, List.anyM_cons]
  rfl

theorem allM_single {α ε : Type} (f : α → Except ε Bool) (x : α) : [x].allM f = f x := by
  rw [List.allM_cons]
  rcases f x with e | (_ | _) <;> rfl

/-! The check goes through the trials. -/

theorem allM_paired {args params : List Ty} (h : args.length = params.length) :
    (paired args params).allM (passes env) = env.argsConvert args params := by
  induction args generalizing params with
  | nil =>
      rw [List.eq_nil_of_length_eq_zero h.symm]
      rfl
  | cons a args ih =>
      cases params with
      | nil => cases h
      | cons p params =>
          show ((a, [p]) :: paired args params).allM (passes env) = _
          rw [List.allM_cons, passes_single, ih (by simpa using h), Env.argsConvert]

theorem allM_elements (element : Ty) (args : List Ty) :
    (args.map fun a => (a, [element])).allM (passes env) = env.allConvert element args := by
  induction args with
  | nil => rfl
  | cons a args ih => rw [List.map_cons, List.allM_cons, passes_single, ih, Env.allConvert]

theorem allM_tailTrials (element : Ty) (args : List Ty) :
    (tailTrials element args).allM (passes env) = env.tailConverts element args := by
  rcases args with _ | ⟨a, _ | ⟨b, args⟩⟩
  · rfl
  · rw [tailTrials, allM_single, passes_pair, Env.tailConverts]
    rfl
  · exact allM_elements element (a :: b :: args)

theorem allM_variable {fixed args : List Ty} (element : Ty) (h : fixed.length ≤ args.length) :
    (paired (args.take fixed.length) fixed ++ tailTrials element (args.drop fixed.length)).allM
      (passes env) = env.varargsConvert element fixed args := by
  induction fixed generalizing args with
  | nil =>
      rw [Env.varargsConvert, ← allM_tailTrials]
      rfl
  | cons p fixed ih =>
      cases args with
      | nil => cases h
      | cons a args =>
          show ((a, [p]) :: (paired (args.take fixed.length) fixed ++
            tailTrials element (args.drop fixed.length))).allM (passes env) = _
          rw [List.allM_cons, passes_single, ih (by simpa using h), Env.varargsConvert]

end Trials

/-! ## The check -/

section Check

variable {env : Env} {m : Method} {args : List Ty}

theorem callFits_fixed (hm : m.isVarargs = false) :
    env.callFits m args =
      if args.length = m.params.length then env.argsConvert args m.params else .ok false := by
  unfold Env.callFits
  rw [hm, if_neg Bool.false_ne_true]
  split <;> simp_all

theorem callFits_variable (hm : m.isVarargs = true) {fixed : List Ty} {element : Ty}
    (hparams : m.params = fixed ++ [.array element]) :
    env.callFits m args =
      if fixed.length ≤ args.length then env.varargsConvert element fixed args else .ok false := by
  unfold Env.callFits
  rw [hm, if_pos rfl, hparams, List.getLast?_concat, List.dropLast_concat, List.length_append,
    List.length_singleton]
  by_cases h : fixed.length ≤ args.length
  · rw [if_pos h]
    exact if_neg (by omega)
  · rw [if_neg h]
    exact if_pos (by omega)

/-- **No position is read beyond the parameters, and the check goes through the trials.** -/
theorem callFits_eq_trials {element : Option Ty} (h : Takes m args.length element) :
    ∃ plan, trials m.params element args = some plan ∧
      env.callFits m args = plan.allM (passes env) := by
  cases h with
  | fixedArity hm hlen =>
      refine ⟨_, trials_fixed hlen, ?_⟩
      rw [callFits_fixed hm, if_pos hlen, allM_paired hlen]
  | @variableArity fixed element hm hparams hlen =>
      rw [hparams]
      refine ⟨_, trials_variable hlen, ?_⟩
      rw [callFits_variable hm hparams, if_pos hlen, allM_variable element hlen]

end Check

/-! ## Conversions that are asked for -/

/-- The argument is tried with the type: the arguments before it all convert to one of their types,
and it converts to none of those that come before `t`. -/
def Tried (env : Env) (plan : List (Ty × List Ty)) (a t : Ty) : Prop :=
  ∃ ts, Asked (passes env) true plan (a, ts) ∧ Asked (env.converts a) false ts t

/-- Every conversion that is tried has an answer. -/
def Answered (env : Env) (m : Method) (args : List Ty) : Prop :=
  ∀ element plan, Takes m args.length element → trials m.params element args = some plan →
    ∀ a t, Tried env plan a t → ∃ found, env.converts a t = .ok found

/-- The value converts without a cast. -/
def Converts (env : Env) (a t : Ty) : Prop := env.converts a t = .ok true

/-- The arguments fit the fixed parameters and a trailing array of `element`: those at the fixed
parameters convert to them, and those after are elements, or one array in the last place. -/
def FitsVariably (env : Env) (fixed : List Ty) (element : Ty) (args : List Ty) : Prop :=
  fixed.length ≤ args.length ∧
    List.Forall₂ (Converts env) (args.take fixed.length) fixed ∧
    ((∀ a ∈ args.drop fixed.length, Converts env a element) ∨
      args.length = fixed.length + 1 ∧
        ∃ a, args.getLast? = some a ∧ Converts env a (.array element))

section Answered

variable {env : Env} {plan : List (Ty × List Ty)}

theorem allM_passes_eq_ok_iff :
    (∃ found, plan.allM (passes env) = .ok found) ↔
      ∀ a t, Tried env plan a t → ∃ found, env.converts a t = .ok found := by
  rw [allM_eq_ok_iff_asked]
  constructor
  · rintro h a t ⟨ts, hts, ht⟩
    exact anyM_eq_ok_iff_asked.mp (h (a, ts) hts) t ht
  · intro h q hq
    exact anyM_eq_ok_iff_asked.mpr fun t ht => h q.1 t ⟨q.2, hq, ht⟩

/-- The trials are passed if every argument converts to one of its types. -/
theorem allM_passes_decides
    (h : ∀ a t, Tried env plan a t → ∃ found, env.converts a t = .ok found) :
    Decides (plan.allM (passes env)) (∀ q ∈ plan, ∃ t ∈ q.2, Converts env q.1 t) := by
  refine decides_of_eq_ok (allM_passes_eq_ok_iff.mpr h) ?_
  rw [allM_eq_true_iff]
  constructor
  · intro hall q hq
    -- the check has passed, so each of its questions had an answer
    have hok : ∃ found, passes env q = .ok found := ⟨true, hall q hq⟩
    exact (anyM_eq_true_iff (anyM_eq_ok_iff_asked.mp hok)).mp (hall q hq)
  · intro hall
    refine forall_of_asked fun q hq => ?_
    exact (anyM_eq_true_iff fun t ht => h q.1 t ⟨q.2, hq, ht⟩).mpr (hall q hq.mem)

theorem paired_convert_iff {args params : List Ty} (h : args.length = params.length) :
    (∀ q ∈ paired args params, ∃ t ∈ q.2, Converts env q.1 t) ↔
      List.Forall₂ (Converts env) args params := by
  induction args generalizing params with
  | nil =>
      rw [List.eq_nil_of_length_eq_zero h.symm]
      simp [paired]
  | cons a args ih =>
      cases params with
      | nil => cases h
      | cons p params =>
          show (∀ q ∈ (a, [p]) :: paired args params, ∃ t ∈ q.2, Converts env q.1 t) ↔ _
          rw [List.forall_mem_cons, List.forall₂_cons, ih (by simpa using h)]
          simp

theorem tail_convert_iff {element : Ty} {args : List Ty} :
    (∀ q ∈ tailTrials element args, ∃ t ∈ q.2, Converts env q.1 t) ↔
      (∀ a ∈ args, Converts env a element) ∨
        ∃ a, args = [a] ∧ Converts env a (.array element) := by
  rcases args with _ | ⟨a, _ | ⟨b, args⟩⟩
  · simp [tailTrials]
  · simp [tailTrials]
  · simp [tailTrials]

/-- One argument is left after the first `k` exactly when there are `k + 1`, and it is the last. -/
theorem drop_eq_singleton_iff {α : Type} {xs : List α} {k : Nat} {a : α} :
    xs.drop k = [a] ↔ xs.length = k + 1 ∧ xs.getLast? = some a := by
  constructor
  · intro h
    have hlen := congrArg List.length h
    have hxs : xs = xs.take k ++ [a] := by rw [← h, List.take_append_drop]
    rw [List.length_drop, List.length_singleton] at hlen
    refine ⟨by omega, ?_⟩
    rw [hxs, List.getLast?_concat]
  · rintro ⟨hlen, hlast⟩
    obtain ⟨ys, rfl⟩ := List.getLast?_eq_some_iff.mp hlast
    have hk : ys.length = k := by simpa using hlen
    rw [← hk, List.drop_left]

variable {m : Method} {args : List Ty}

theorem callFits_fixed_decides (hm : m.isVarargs = false) (h : Answered env m args) :
    Decides (env.callFits m args) (List.Forall₂ (Converts env) args m.params) := by
  by_cases hlen : args.length = m.params.length
  · rw [callFits_fixed hm, if_pos hlen, ← allM_paired hlen]
    refine (allM_passes_decides ?_).congr (paired_convert_iff hlen)
    exact h none _ (.fixedArity hm hlen) (trials_fixed hlen)
  · rw [callFits_fixed hm, if_neg hlen]
    exact ⟨false, rfl, iff_of_false Bool.false_ne_true fun hall => hlen hall.length_eq⟩

theorem callFits_variable_decides (hm : m.isVarargs = true) {fixed : List Ty} {element : Ty}
    (hparams : m.params = fixed ++ [.array element]) (h : Answered env m args) :
    Decides (env.callFits m args) (FitsVariably env fixed element args) := by
  by_cases hlen : fixed.length ≤ args.length
  · have htake : (args.take fixed.length).length = fixed.length := by simp [hlen]
    have htrials := congrArg (trials · (some element) args) hparams |>.trans (trials_variable hlen)
    rw [callFits_variable hm hparams, if_pos hlen, ← allM_variable element hlen]
    -- fixed parameters and elements are one plan, and the two conditions are its two parts
    refine (allM_passes_decides (h _ _ (.variableArity hm hparams hlen) htrials)).congr ?_
    rw [List.forall_mem_append, paired_convert_iff htake, tail_convert_iff, FitsVariably]
    simp only [drop_eq_singleton_iff, hlen, true_and, and_assoc, exists_and_left]
  · rw [callFits_variable hm hparams, if_neg hlen]
    exact ⟨false, rfl, iff_of_false Bool.false_ne_true fun hall => hlen hall.1⟩

/-- If the check has an answer, so have all conversions that were tried for it. -/
theorem answered_of_callFits {found : Bool} (h : env.callFits m args = .ok found) :
    Answered env m args := by
  intro element plan htakes hplan
  obtain ⟨plan', hplan', hcheck⟩ : ∃ plan', trials m.params element args = some plan' ∧
      env.callFits m args = plan'.allM (passes env) := callFits_eq_trials htakes
  -- the plan is a function of method and arguments, so it is the one that was followed
  rw [hplan] at hplan'
  cases hplan'
  exact allM_passes_eq_ok_iff.mp ⟨found, by rw [← hcheck, h]⟩

theorem callFits_malformed (hm : m.isVarargs = true)
    (hparams : ∀ fixed element, m.params ≠ fixed ++ [.array element]) :
    env.callFits m args = .error
      (.internal ("variable-arity method " ++ m.name ++ " has no trailing array parameter")) := by
  unfold Env.callFits
  rw [hm, if_pos rfl]
  split
  · rename_i element hlast
    obtain ⟨fixed, hfixed⟩ := List.getLast?_eq_some_iff.mp hlast
    exact absurd hfixed (hparams fixed element)
  · rfl

end Answered

/--
**A call obeys the arity of the method**, in every environment, for every method and all
arguments. For as many arguments as the method takes, the check is the one that goes
through the trials, none of which lies beyond the parameters.

If the conversions that are tried have answers, so has the check. For fixed arity the
answer is yes exactly if the arguments convert to the parameters one by one. For variable
arity it is yes exactly if the arguments at the fixed parameters convert to them, and
those that are left are any number of elements, or the one last argument is an array. A
method of variable arity that does not end with an array is an error.
-/
theorem callFits_obeys_arity (env : Env) (m : Method) (args : List Ty) :
    (∀ element, Takes m args.length element →
      ∃ plan, trials m.params element args = some plan ∧
        env.callFits m args = plan.allM (passes env)) ∧
    (m.isVarargs = false → Answered env m args →
      Decides (env.callFits m args) (List.Forall₂ (Converts env) args m.params)) ∧
    (∀ fixed element, m.isVarargs = true → m.params = fixed ++ [.array element] →
      Answered env m args → Decides (env.callFits m args) (FitsVariably env fixed element args)) ∧
    (m.isVarargs = true → (∀ fixed element, m.params ≠ fixed ++ [.array element]) →
      env.callFits m args = .error
        (.internal ("variable-arity method " ++ m.name ++ " has no trailing array parameter"))) :=
  ⟨fun _ => callFits_eq_trials, callFits_fixed_decides,
    fun _ _ hm => callFits_variable_decides hm, callFits_malformed⟩

/-- A method that takes a number and any number of strings. -/
def tagged : Method :=
  methodOf ⟨5⟩ ⟨12⟩
    { name := "tagged", returnType := .prim .void, flags := .varargs,
      params := [.prim .int, .array (.cls wellKnownIds.string)] }

/-- It is called with two strings, with an array, and, as a method of fixed arity, with that array
again. Without its array it cannot be called. -/
theorem callFits_obeys_arity_tagged :
    let env := Store.builtin.env
    let string : Ty := .cls wellKnownIds.string
    let two : List Ty := [.prim .short, string, .null]
    let whole : List Ty := [.prim .short, .array string]
    let plain : Method := { tagged with flags := .pub }
    let broken : Method := { tagged with params := [.prim .int] }
    (Takes tagged two.length (some string) ∧ Answered env tagged two ∧ Answered env tagged whole ∧
        Answered env plain whole ∧
        ∀ fixed element, broken.params ≠ fixed ++ [.array element]) ∧
      (∃ plan, trials tagged.params (some string) two = some plan ∧
        env.callFits tagged two = plan.allM (passes env)) ∧
      Decides (env.callFits tagged two) (FitsVariably env [.prim .int] string two) ∧
      Decides (env.callFits tagged whole) (FitsVariably env [.prim .int] string whole) ∧
      Decides (env.callFits plain whole) (List.Forall₂ (Converts env) whole plain.params) ∧
      env.callFits broken two = .error
        (.internal "variable-arity method tagged has no trailing array parameter") := by
  intro env string two whole plain broken
  have htakes : Takes tagged two.length (some string) :=
    .variableArity rfl (show tagged.params = [.prim .int] ++ [.array string] from rfl) (by decide)
  have htwo : Answered env tagged two :=
    answered_of_callFits (show env.callFits tagged two = .ok true from rfl)
  have hwhole : Answered env tagged whole :=
    answered_of_callFits (show env.callFits tagged whole = .ok true from rfl)
  have hplain : Answered env plain whole :=
    answered_of_callFits (show env.callFits plain whole = .ok true by decide)
  have hbroken : ∀ fixed element, broken.params ≠ fixed ++ [.array element] := by
    intro fixed element heq
    have hlast := congrArg List.getLast? heq
    rw [List.getLast?_concat] at hlast
    cases hlast
  exact ⟨⟨htakes, htwo, hwhole, hplain, hbroken⟩,
    (callFits_obeys_arity env tagged two).1 _ htakes,
    (callFits_obeys_arity env tagged two).2.2.1 _ _ rfl rfl htwo,
    (callFits_obeys_arity env tagged whole).2.2.1 _ _ rfl rfl hwhole,
    (callFits_obeys_arity env plain whole).2.1 (by decide) hplain,
    (callFits_obeys_arity env broken two).2.2.2 (by decide) hbroken⟩

end Lineage.Proofs
