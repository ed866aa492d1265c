import Lineage.Erasure
import Lineage.Member.Resolution

/-!
# Calls of generic methods

A call that does not fit the declared parameters of a generic method, or of a method of a
generic class, is tried again on the erased signature.
-/

namespace Lineage

namespace CallRule

/-- The signature with the variables of the method and of its class erased. -/
def erasedSignature (env : Env) (m : Method) : Resolve ErasureCache Method := do
  let ofClass ← (fun cache => cache.classErasure env m.container : Resolve ErasureCache Subst)
  if m.typeParams.isEmpty then pure (ofClass.applyMethod m)
  else do
    let ofMethod ← Resolve.ofExcept (env.erasureSubst m.typeParams)
    pure ((ofClass.compose ofMethod).applyMethod m)

/-- The method or its class has type parameters. -/
def isGenericMember (env : Env) (m : Method) : Bool :=
  m.isGeneric ||
    match env.classDef? m.container with
    | some c => !c.typeParams.isEmpty
    | none => false

/-- The rule that falls back on the erased signature. -/
def generic (env : Env) : CallRule ErasureCache := fun m args => do
  if ← .ofExcept (env.callFits m args) then pure true
  else if isGenericMember env m then do
    let erased ← erasedSignature env m
    .ofExcept (env.callFits erased args)
  else pure false

end CallRule

/-- The resolver that falls back on erased signatures. -/
def Resolver.generic (env : Env) : Resolver ErasureCache := { env, fits := .generic env }

end Lineage
