import Lineage.Store.Basic

/-!
# The built-in classes

A new store already knows the twelve classes that the rules of the language mention.
-/

namespace Lineage.Store

/-- The names of the well-known classes, in their fixed order. -/
def wellKnownNames : List String :=
  ["java.lang.Object", "java.lang.String", "java.lang.Class", "java.lang.Throwable",
   "java.lang.Exception", "java.lang.RuntimeException", "java.lang.Error",
   "java.lang.Cloneable", "java.io.Serializable", "java.lang.Enum", "java.lang.Number",
   "java.lang.Integer"]

/-- The well-known classes take the first positions, in the order of their names. -/
def wellKnownIds : WellKnown where
  object := ⟨0⟩
  string := ⟨1⟩
  classType := ⟨2⟩
  throwable := ⟨3⟩
  exception := ⟨4⟩
  runtimeException := ⟨5⟩
  error := ⟨6⟩
  cloneable := ⟨7⟩
  serializable := ⟨8⟩
  enum := ⟨9⟩
  number := ⟨10⟩
  integer := ⟨11⟩

/-- The declarations of the built-in classes, in the order in which they are defined. -/
def builtins : List ClassDecl :=
  let w := wellKnownIds
  [{ name := "java.lang.Object", flags := .pub,
     methods :=
      [{ name := "toString", returnType := .cls w.string, flags := .pub },
       { name := "equals", returnType := .prim .boolean, flags := .pub,
         params := [.cls w.object] },
       { name := "hashCode", returnType := .prim .int, flags := .pub }] },
   { name := "java.io.Serializable", flags := .interface ∪ .abstract ∪ .pub },
   { name := "java.lang.Cloneable", flags := .interface ∪ .abstract ∪ .pub },
   { name := "java.lang.String", flags := .pub ∪ .final, interfaces := [.cls w.serializable],
     methods := [{ name := "length", returnType := .prim .int, flags := .pub }] },
   { name := "java.lang.Class", flags := .pub ∪ .final },
   { name := "java.lang.Throwable", flags := .pub, interfaces := [.cls w.serializable],
     methods := [{ name := "getMessage", returnType := .cls w.string, flags := .pub }] },
   { name := "java.lang.Exception", flags := .pub, superclass := some (.cls w.throwable) },
   { name := "java.lang.RuntimeException", flags := .pub,
     superclass := some (.cls w.exception) },
   { name := "java.lang.Error", flags := .pub, superclass := some (.cls w.throwable) },
   { name := "java.lang.Enum", flags := .pub ∪ .abstract, interfaces := [.cls w.serializable] },
   { name := "java.lang.Number", flags := .pub ∪ .abstract,
     interfaces := [.cls w.serializable] },
   { name := "java.lang.Integer", flags := .pub ∪ .final, superclass := some (.cls w.number),
     fields :=
      [{ name := "MAX_VALUE", ty := .prim .int, flags := .pub ∪ .static ∪ .final }] }]

/-- The store with the well-known names interned and none of them defined. -/
def bare : Store :=
  wellKnownNames.foldl (fun s name => (s.intern name).1) { wellKnown := wellKnownIds }

/-- The store with the built-in classes. -/
def builtin : Store := builtins.foldl (fun s decl => (s.addClass decl).1) bare

/-- The store with the built-in classes and a depth limit, which is at least one. -/
def withSettings (settings : Settings.Checker) : Store :=
  { builtin with depthLimit := max settings.maxHierarchyDepth 1 }

end Lineage.Store
