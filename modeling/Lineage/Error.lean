import Lineage.Span

/-!
# Type errors

What can go wrong while types are checked, and how each cause is reported: its kind, a stable
code, the wording, and the place in the source where one is known.
-/

namespace Lineage

/-- The family an error belongs to. -/
inductive ErrorKind where
  | typeMismatch
  | memberNotFound
  | inaccessibleMember
  | ambiguousMethod
  | illegalOverride
  | illegalGenericDeclaration
  | unresolvedClass
  | cyclicInheritance
  | internalInvariantViolation
  deriving DecidableEq, Repr

/-- The name of the family. -/
def ErrorKind.name : ErrorKind → String
  | typeMismatch => "type-mismatch"
  | memberNotFound => "member-not-found"
  | inaccessibleMember => "inaccessible-member"
  | ambiguousMethod => "ambiguous-method"
  | illegalOverride => "illegal-override"
  | illegalGenericDeclaration => "illegal-generic-declaration"
  | unresolvedClass => "unresolved-class"
  | cyclicInheritance => "cyclic-inheritance"
  | internalInvariantViolation => "internal-invariant-violation"

/-- The code under which diagnostics report the family. -/
def ErrorKind.code : ErrorKind → String
  | internalInvariantViolation => "internal-error"
  | kind => kind.name

/-- The rule that an overriding method breaks. -/
inductive OverrideViolation where
  | incompatibleParameterTypes
  | incompatibleReturnType
  | throwsNotSubset
  | weakerAccess
  | staticMismatch
  | overridesFinal
  deriving DecidableEq, Repr

def OverrideViolation.name : OverrideViolation → String
  | incompatibleParameterTypes => "incompatible-parameter-types"
  | incompatibleReturnType => "incompatible-return-type"
  | throwsNotSubset => "throws-not-subset"
  | weakerAccess => "weaker-access"
  | staticMismatch => "static-mismatch"
  | overridesFinal => "overrides-final"

/-- The rule that a generic declaration breaks. -/
inductive GenericViolation where
  | extendsEnum
  | genericObject
  | genericThrowable
  | duplicateTypeVariable
  deriving DecidableEq, Repr

def GenericViolation.name : GenericViolation → String
  | extendsEnum => "extends-enum"
  | genericObject => "generic-object"
  | genericThrowable => "generic-throwable"
  | duplicateTypeVariable => "duplicate-type-variable"

/-- Why a question about types has no answer, or a declaration is refused. -/
inductive TypeError where
  | typeMismatch (detail : String)
  | fieldNotFound (name container : String)
  | noApplicableMethod (name args container : String)
  | inaccessibleField (name container : String)
  | ambiguousMethod (name : String) (candidates : List String)
  | illegalOverride (reason : OverrideViolation) (detail : String) (span : Option Span)
  | illegalGenericDeclaration (reason : GenericViolation) (detail : String) (span : Option Span)
  | unresolvedClass (name : String)
  | cyclicInheritance (name : String)
  | internal (detail : String)
  deriving DecidableEq, Repr

namespace TypeError

def kind : TypeError → ErrorKind
  | typeMismatch _ => .typeMismatch
  | fieldNotFound .. | noApplicableMethod .. => .memberNotFound
  | inaccessibleField .. => .inaccessibleMember
  | ambiguousMethod .. => .ambiguousMethod
  | illegalOverride .. => .illegalOverride
  | illegalGenericDeclaration .. => .illegalGenericDeclaration
  | unresolvedClass _ => .unresolvedClass
  | cyclicInheritance _ => .cyclicInheritance
  | internal _ => .internalInvariantViolation

/-- The wording of every cause. -/
def message : TypeError → String
  | typeMismatch detail => detail
  | fieldNotFound name container =>
    "field \"" ++ name ++ "\" not found in type \"" ++ container ++ "\""
  | noApplicableMethod name args container =>
    "no valid method call found for " ++ name ++ "(" ++ args ++ ") in " ++ container
  | inaccessibleField name container =>
    "field \"" ++ name ++ "\" found in \"" ++ container ++
      "\", but with wrong access permissions"
  | ambiguousMethod name candidates =>
    "reference to " ++ name ++ " is ambiguous, multiple methods match: " ++
      ", ".intercalate candidates
  | illegalOverride _ detail _ => detail
  | illegalGenericDeclaration _ detail _ => detail
  | unresolvedClass name => "class \"" ++ name ++ "\" not found"
  | cyclicInheritance name => "cyclic inheritance involving \"" ++ name ++ "\""
  | internal detail => "internal type checker error: " ++ detail

/-- Only broken declarations know where they stand in the source. -/
def span : TypeError → Option Span
  | illegalOverride _ _ span => span
  | illegalGenericDeclaration _ _ span => span
  | _ => none

/-- The name of the broken rule, for the two families that have rules. -/
def reason? : TypeError → Option String
  | illegalOverride reason _ _ => some reason.name
  | illegalGenericDeclaration reason _ _ => some reason.name
  | _ => none

/-- Only a broken invariant of the checker itself is fatal. -/
def isFatal : TypeError → Bool
  | internal _ => true
  | _ => false

end TypeError

/-- How bad a diagnostic is. -/
inductive Severity where
  | error
  deriving DecidableEq, Repr

def Severity.name : Severity → String
  | error => "error"

/-- A finding as it is shown to the user. -/
structure Diagnostic where
  severity : Severity
  code : String
  message : String
  span : Option Span
  deriving DecidableEq, Repr

def TypeError.toDiagnostic (e : TypeError) : Diagnostic :=
  { severity := .error, code := e.kind.code, message := e.message, span := e.span }

end Lineage
