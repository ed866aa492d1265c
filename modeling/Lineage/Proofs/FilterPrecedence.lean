import Lineage.Settings.PlainFilter
import Mathlib.Data.List.TakeWhile
import Mathlib.Data.String.Basic

/-!
# Whose directive is in force

The filter in effect is read from two texts with a comma between them, and either text can
spoil the whole. Which reader is plugged in does not matter, as long as four things are
true of it (`LawfulReader`): it splits the text at commas, drops empty pieces, fails
exactly on account of an invalid piece, and keeps for each target the last directive.

The comma separates the pieces of one text from the pieces of the other, which settles both
questions at once. The whole can be read exactly when both can, and the last directive for
a target is the second text's where it has one.

The reader of plain directives is lawful (`lawful_plain`). It keeps its directives in
order, but no order is needed to see which of them is found: a directive is always put in
front of the one that it replaces.
-/

namespace Lineage.Proofs

open Settings

/-! ## Lawful readers -/

section Lawful

variable {Filter Directive Target : Type} [DecidableEq Target]

/-- The last directive of the text for the target, where `directive?` reads a piece and `about`
tells the target of a directive. -/
def lastFor (directive? : String → Option Directive) (about : Directive → Target) (text : String)
    (target : Target) : Option Directive :=
  ((pieces text).filterMap directive?).reverse.find? fun d => about d = target

/--
What is assumed of a reader. It works on the pieces between commas that are not empty, and
reads a single piece by `directive?`. What a directive sets the level of, one target or
everything else, is told by `about`, and `inForce` is the directive that a filter has for it.
-/
structure LawfulReader (reader : FilterReader Filter Directive)
    (directive? : String → Option Directive) (about : Directive → Target)
    (inForce : Filter → Target → Option Directive) : Prop where
  /-- A text cannot be read exactly if one of its pieces cannot. -/
  fails_iff : ∀ text, reader.read? text = none ↔ ∃ piece ∈ pieces text, directive? piece = none
  /-- Of several directives for one target the last is kept. -/
  keeps_last : ∀ text f, reader.read? text = some f →
    ∀ target, inForce f target = lastFor directive? about text target

variable {first second : String}

/-- No piece reaches over a comma. -/
theorem pieces_comma : pieces (first ++ "," ++ second) = pieces first ++ pieces second := by
  have hchars : (first ++ "," ++ second).toList = first.toList ++ ',' :: second.toList := by
    simp
  unfold pieces
  rw [hchars, List.splitOn_append_cons_self, List.filter_append, List.map_append]

/-- Where the second text has a directive for the target, the first one's does not count. -/
theorem lastFor_comma {directive? : String → Option Directive} {about : Directive → Target}
    {target : Target} :
    lastFor directive? about (first ++ "," ++ second) target =
      (lastFor directive? about second target).or (lastFor directive? about first target) := by
  unfold lastFor
  rw [pieces_comma, List.filterMap_append, List.reverse_append, List.find?_append]

variable {reader : FilterReader Filter Directive} {directive? : String → Option Directive}
  {about : Directive → Target} {inForce : Filter → Target → Option Directive}
  (h : LawfulReader reader directive? about inForce)

include h

/-- Each text can spoil the whole, and nothing else can. -/
theorem LawfulReader.comma_eq_none_iff :
    reader.read? (first ++ "," ++ second) = none ↔
      reader.read? first = none ∨ reader.read? second = none := by
  rw [h.fails_iff, h.fails_iff, h.fails_iff, pieces_comma]
  simp only [List.mem_append, or_and_right, exists_or]

/-- **Two texts that can be read make one that can**, and the second goes first in force. -/
theorem LawfulReader.comma_eq_some {f g : Filter} (hf : reader.read? first = some f)
    (hg : reader.read? second = some g) :
    ∃ both, reader.read? (first ++ "," ++ second) = some both ∧
      ∀ target, inForce both target = (inForce g target).or (inForce f target) := by
  have hsome : reader.read? (first ++ "," ++ second) ≠ none := by
    rw [Ne, h.comma_eq_none_iff, hf, hg]
    simp
  obtain ⟨both, hboth⟩ := Option.ne_none_iff_exists'.mp hsome
  refine ⟨both, hboth, fun target => ?_⟩
  rw [h.keeps_last _ _ hboth, h.keeps_last _ _ hf, h.keeps_last _ _ hg, lastFor_comma]

end Lawful

/-! ## Plain directives -/

/-- The plain directive that a filter has for a target, or for everything else. -/
def plainFor (f : PlainFilter) (target : Option String) : Option PlainDirective :=
  f.directives.find? fun d => d.target = target

section Plain

variable {d : PlainDirective} {target : Option String}

/-- A directive that is put in place is found for its target, and nothing changes for others. -/
theorem find?_place (ds : List PlainDirective) :
    (PlainFilter.place d ds).find? (fun e => e.target = target) =
      if d.target = target then some d else ds.find? fun e => e.target = target := by
  induction ds with
  | nil =>
    rw [PlainFilter.place, List.find?_singleton, List.find?_nil]
    simp
  | cons e rest ih =>
    unfold PlainFilter.place
    by_cases hsame : e.target = d.target
    · -- what is replaced was there for the same target
      rw [if_pos hsame, List.find?_cons, List.find?_cons, hsame]
      by_cases hsought : d.target = target <;> simp [hsought]
    · rw [if_neg hsame]
      by_cases hsought : d.target = target
      · -- the directive is sought, and the one before which it may go is for another target
        have hother : e.target ≠ target := fun he => hsame (he.trans hsought.symm)
        rw [if_pos hsought] at ih ⊢
        split_ifs
        · exact List.find?_cons_of_pos (by simpa using hsought)
        · rw [List.find?_cons_of_neg (by simpa using hother), ih]
      · rw [if_neg hsought] at ih ⊢
        split_ifs
        · exact List.find?_cons_of_neg (by simpa using hsought)
        · rw [List.find?_cons, List.find?_cons, ih]

/-- Of directives that are added one after another the last one for each target is found. -/
theorem plainFor_foldl_add (ds : List PlainDirective) (f : PlainFilter) :
    plainFor (ds.foldl PlainFilter.add f) target =
      (ds.reverse.find? fun d => d.target = target).or (plainFor f target) := by
  induction ds generalizing f with
  | nil => rfl
  | cons d ds ih =>
    -- the one added first counts only if no later one is for its target
    have hadd : plainFor (f.add d) target =
        if d.target = target then some d else plainFor f target := find?_place f.directives
    rw [List.foldl_cons, ih, hadd, List.reverse_cons, List.find?_append, Option.or_assoc,
      List.find?_singleton]
    congr 1
    by_cases hsought : d.target = target <;> simp [hsought]

theorem mapM_eq_none_iff {α β : Type} {read : α → Option β} {xs : List α} :
    xs.mapM read = none ↔ ∃ x ∈ xs, read x = none := by
  induction xs with
  | nil => simp
  | cons x xs ih =>
    rw [List.mapM_cons, List.exists_mem_cons_iff, ← ih]
    cases hx : read x with
    | none => simp
    | some y => cases xs.mapM read <;> simp

theorem mapM_eq_filterMap {α β : Type} {read : α → Option β} {xs : List α} {ys : List β}
    (h : xs.mapM read = some ys) : ys = xs.filterMap read := by
  induction xs generalizing ys with
  | nil => simpa using h.symm
  | cons x xs ih =>
    rw [List.mapM_cons] at h
    obtain ⟨y, hy, hrest⟩ := Option.bind_eq_some_iff.mp h
    obtain ⟨zs, hzs, hys⟩ := Option.bind_eq_some_iff.mp hrest
    rw [List.filterMap_cons_some hy, ← ih hzs]
    exact (Option.some.inj hys).symm

end Plain

/-- **The reader of plain directives is lawful.** -/
theorem lawful_plain :
    LawfulReader PlainFilter.reader PlainDirective.ofString? PlainDirective.target plainFor where
  fails_iff text := by
    show PlainFilter.ofString? text = none ↔ _
    rw [← mapM_eq_none_iff, PlainFilter.ofString?]
    cases (pieces text).mapM PlainDirective.ofString? <;> simp
  keeps_last text f hf target := by
    obtain ⟨ds, hds, hfold⟩ := Option.bind_eq_some_iff.mp hf
    obtain rfl := Option.some.inj hfold
    rw [plainFor_foldl_add, mapM_eq_filterMap hds]
    exact Option.or_none

/-! ## The filter in effect -/

/-- A text of nothing but white space. -/
def IsBlank (text : String) : Prop := ∀ c ∈ text.toList, Text.isBlank c = true

instance (text : String) : Decidable (IsBlank text) := List.decidableBAll _ _

theorem trim_eq_empty_iff {text : String} : Text.trim text = "" ↔ IsBlank text := by
  have hleft : (∀ c ∈ text.toList.dropWhile Text.isBlank, Text.isBlank c = true) ↔
      text.toList.dropWhile Text.isBlank = [] := by
    constructor
    · intro hall
      -- what is left begins with a character that is not blank, so nothing is left
      by_contra hne
      have hhead := List.head_dropWhile_not Text.isBlank hne
      rw [hall _ (List.head_mem hne)] at hhead
      exact absurd hhead (by decide)
    · intro hnil c hc
      rw [hnil] at hc
      exact absurd hc List.not_mem_nil
  unfold Text.trim IsBlank
  -- blanks go from the left, and then from the right of what is left
  rw [String.ofList_eq_empty_iff, List.reverse_eq_nil_iff, List.dropWhile_eq_nil_iff]
  simp only [List.mem_reverse]
  rw [hleft, List.dropWhile_eq_nil_iff]

section Effect

variable {Filter Directive : Type} {reader : FilterReader Filter Directive} {l : Logging}
  {environment : Option String} {overriding : String}

theorem filter_of_blank (h : ∀ text, environment = some text → IsBlank text) :
    l.filter reader environment = Logging.configured reader l.level := by
  cases environment with
  | none => rfl
  | some text =>
    have hempty : Text.trim text = "" := trim_eq_empty_iff.mpr (h text rfl)
    unfold Logging.filter
    simp only [Option.map_some, hempty]
    rw [Option.filter_some_neg (by decide)]

/-- Text that is not blank is tried behind the configured directives, then alone. -/
theorem filter_of_not_blank (h : ¬ IsBlank overriding) :
    l.filter reader (some overriding) =
      ((reader.read? (Logging.normalize l.level ++ "," ++ Text.trim overriding)).or
        (reader.read? (Text.trim overriding))).getD (Logging.configured reader l.level) := by
  have hne : Text.trim overriding ≠ "" := fun hempty => h (trim_eq_empty_iff.mp hempty)
  unfold Logging.filter
  simp only [Option.map_some]
  rw [Option.filter_some_pos (by simpa using hne)]
  dsimp only
  cases reader.read? (Logging.normalize l.level ++ "," ++ Text.trim overriding) with
  | none => rw [Option.none_or]
  | some f => rw [Option.some_or, Option.getD_some]

end Effect

end Lineage.Proofs
