import Lineage.AccessControl
import Lineage.Member.Call

/-!
# Member resolution

A field is looked up along the superclass chain and the nearest declaration decides. A method is
chosen among all accessible declarations above the receiver that fit the arguments: the one that
no other candidate beats.

Whether a method fits is left to a call rule, which may keep a memory of type `σ` between the
questions it is asked. The memory survives a question that fails.
-/

namespace Lineage

/-- A computation that may fail and that carries a memory, also through failures. -/
abbrev Resolve (σ α : Type) := ExceptT TypeError (StateM σ) α

/-- A computation that does not touch the memory. -/
def Resolve.ofExcept {σ α : Type} : Except TypeError α → Resolve σ α
  | .ok a => pure a
  | .error e => throw e

/-- The question was answered, and the answer is yes. -/
def answeredYes : Except TypeError Bool → Bool
  | .ok b => b
  | .error _ => false

/-- Whether a method can be called with arguments of the given types. -/
abbrev CallRule (σ : Type) := Method → List Ty → Resolve σ Bool

/-- The rule that looks at the declared parameters only and remembers nothing. -/
def CallRule.standard (env : Env) : CallRule Unit := fun m args => .ofExcept (env.callFits m args)

namespace Env

variable (env : Env)

/-- The class in which the members of a receiver are looked up. -/
def receiverClass (t : Ty) (what : String) : Except TypeError ClassId := do
  t.ensureCanonical
  match t with
  | .cls id => pure id
  | .array _ => pure env.wellKnown.object
  | .var _ =>
    match ← env.upperBound t with
    | .cls id => pure id
    | _ => pure env.wellKnown.object
  | _ =>
    throw (.typeMismatch (what ++ " access is valid only on reference types, found \"" ++
      env.renderType t ++ "\""))

/-! ## Fields -/

/-- Looks a field up along a chain of classes; `fallback` answers when the chain is exhausted. -/
def fieldAlong (name : String) (ctx : AccessContext) (fallback : Except TypeError Field) :
    List ClassId → Except TypeError Field
  | [] => fallback
  | id :: rest => do
    let c ← env.classDef id
    match c.field? name with
    | none => fieldAlong name ctx fallback rest
    | some field =>
      if ← env.isAccessible (.cls id) field.flags ctx then pure field
      else throw (.inaccessibleField name c.name)

/-- The field that a name denotes on a receiver. -/
def getField (t : Ty) (name : String) (ctx : AccessContext) : Except TypeError Field := do
  let start ← env.receiverClass t "field"
  let chain := env.superclassChain start
  let fallback : Except TypeError Field :=
    match chain.failure with
    | some e => throw e
    | none => throw (.fieldNotFound name (env.renderType t))
  env.fieldAlong name ctx fallback chain.classes

/-! ## Methods -/

/-- The classes whose methods a receiver has: everything above it, and the top class even for an
interface. -/
def methodClasses (start : ClassId) : Except TypeError (List ClassId) := do
  let classes ← env.supertypeClosure start
  if env.wellKnown.object ∈ classes then pure classes
  else pure (classes ++ [env.wellKnown.object])

end Env

/-- The environment and the call rule by which methods are chosen. -/
structure Resolver (σ : Type) where
  env : Env
  fits : CallRule σ

/-- The resolver that looks at declared parameters only. -/
def Resolver.standard (env : Env) : Resolver Unit := { env, fits := .standard env }

namespace Resolver

variable {σ : Type} (r : Resolver σ)

/-- The listed methods of one class that a call can mean. -/
def applicableIn (call : MethodCall) (ctx : AccessContext) (id : ClassId) (className : String) :
    List MethodId → Resolve σ (List Method)
  | [] => pure []
  | methodId :: rest => do
    match r.env.method? methodId with
    | none =>
      throw (.internal (methodId.inspect ++ " listed on " ++ className ++
        " is not in the environment"))
    | some m =>
      if m.name ≠ call.name then applicableIn call ctx id className rest
      else do
        let fits ← r.fits m call.args
        let usable ←
          if fits then .ofExcept (r.env.isAccessible (.cls id) m.flags ctx) else pure false
        let others ← applicableIn call ctx id className rest
        pure (if usable then m :: others else others)

/-- The methods that a call can mean in a list of classes, in order. -/
def applicableAlong (call : MethodCall) (ctx : AccessContext) :
    List ClassId → Resolve σ (List Method)
  | [] => pure []
  | id :: rest => do
    let c ← .ofExcept (r.env.classDef id)
    let found ← r.applicableIn call ctx id c.name c.methods
    let others ← applicableAlong call ctx rest
    pure (found ++ others)

/-- The methods that a call can mean, in the order of the classes above the receiver and then of
declaration. -/
def applicable (call : MethodCall) (ctx : AccessContext) : Resolve σ (List Method) := do
  let start ← .ofExcept (r.env.receiverClass call.receiver "method")
  let classes ← .ofExcept (r.env.methodClasses start)
  r.applicableAlong call ctx classes

/-- The container of the first method is that of the second, or below it, or nested in it. A
question that fails counts as no. -/
def related (c₁ c₂ : ClassId) : Bool :=
  c₁ == c₂ || answeredYes (r.env.descends (.cls c₁) (.cls c₂)) ||
    answeredYes (r.env.isEnclosed c₁ c₂)

/-- The first method beats the second: its container is related to the other's, and the second
could be called with the parameters of the first. A call rule that fails counts as no. -/
def moreSpecific (m₁ m₂ : Method) : Resolve σ Bool :=
  if r.related m₁.container m₂.container then
    tryCatch (r.fits m₂ m₁.params) fun _ => pure false
  else pure false

/-- Some candidate other than `m` is more specific than `m` and not the other way round. -/
def beaten (m : Method) : List Method → Resolve σ Bool
  | [] => pure false
  | other :: rest =>
    if other.id = m.id then beaten m rest
    else do
      if ← r.moreSpecific other m then
        if ← r.moreSpecific m other then beaten m rest else pure true
      else beaten m rest

/-- The methods in the list that no candidate beats. -/
def unbeaten (candidates : List Method) : List Method → Resolve σ (List Method)
  | [] => pure []
  | m :: rest => do
    let lost ← r.beaten m candidates
    let others ← unbeaten candidates rest
    pure (if lost then others else m :: others)

/-- The signature with the class that declares it. -/
def qualified (m : Method) : String :=
  r.env.displayName m.container ++ "." ++ r.env.renderMethod m

/-- The method that a call means. Without a single unbeaten candidate the call is ambiguous
between the unbeaten ones, or between all candidates when they beat each other in a circle. -/
def getMethod (call : MethodCall) (ctx : AccessContext) : Resolve σ Method := do
  let candidates ← r.applicable call ctx
  if candidates.isEmpty then
    throw (.noApplicableMethod call.name (r.env.renderTypes call.args)
      (r.env.renderType call.receiver))
  else do
    match ← r.unbeaten candidates candidates with
    | [single] => pure single
    | [] => throw (.ambiguousMethod call.name (candidates.map r.qualified))
    | tied => throw (.ambiguousMethod call.name (tied.map r.qualified))

end Resolver

end Lineage
