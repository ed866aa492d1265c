import Lineage.Toml.Number

/-!
# Documents

A document is read line by line: pairs of a key and a value, and the headings of tables. The
lines are then put together. A table may be opened once only; tables that a heading or a dotted
key passes through come into being on the way, and only a heading may still open them.
-/

namespace Lineage.Toml

/-! ## Tables under construction -/

/-- How a table came into being: by its own heading, on the way to another heading, or on the way
of a dotted key. -/
inductive Origin where
  | opened
  | passed
  | dotted
  deriving DecidableEq, Repr

/-- A value, a table that may still grow, or a list of tables. -/
inductive Node where
  | leaf (v : Value)
  | table (origin : Origin) (entries : List (String × Node))
  | tables (elements : List (List (String × Node)))

abbrev Entries := List (String × Node)

mutual

def Node.toValue : Node → Value
  | .leaf v => v
  | .table _ entries => .table (entriesToValues entries)
  | .tables elements => .array (elementsToValues elements)

def entriesToValues : List (String × Node) → List (String × Value)
  | [] => []
  | (k, n) :: rest => (k, n.toValue) :: entriesToValues rest

def elementsToValues : List (List (String × Node)) → List Value
  | [] => []
  | entries :: rest => .table (entriesToValues entries) :: elementsToValues rest

end

namespace Entries

/-- Replaces the node of a key that has one, in its place. -/
def update (entries : Entries) (k : String) (n : Node) : Entries :=
  entries.map fun e => if e.1 = k then (k, n) else e

def remove (entries : Entries) (k : String) : Entries := entries.filter fun e => e.1 != k

/-- Applies a change to the last element. -/
def changeLast (change : Entries → Option Entries) (elements : List Entries) :
    Option (List Entries) := do
  let last ← elements.getLast?
  let last ← change last
  pure (elements.dropLast ++ [last])

/-- Adds a value under a dotted key. `inDotted` says whether the table at hand belongs to a
dotted key; the table that takes the value must, unless the key has a single part. -/
def addPair (v : Value) (inDotted : Bool) : (path : List String) → (top : Bool) → Entries →
    Option Entries
  | [], _, _ => none
  | [k], top, entries =>
    if inDotted = top || (entries.lookup k).isSome then none
    else some (entries ++ [(k, .leaf v)])
  | k :: ks, _, entries =>
    match entries.lookup k with
    | none => do
      let inner ← addPair v true ks false []
      pure (entries ++ [(k, .table .dotted inner)])
    | some (.table .opened _) => none
    | some (.table .passed inner) => do
      let inner ← addPair v false ks false inner
      pure (entries.update k (.table .passed inner))
    | some (.table .dotted inner) => do
      let inner ← addPair v true ks false inner
      pure (entries.update k (.table .dotted inner))
    | some (.tables elements) => do
      let elements ← changeLast (addPair v false ks false) elements
      pure (entries.update k (.tables elements))
    | some (.leaf _) => none

/-- Adds pairs in order. -/
def addPairs (entries : Entries) (pairs : List (List String × Value)) : Option Entries :=
  pairs.foldlM (fun entries (path, v) => addPair v false path true entries) entries

/-- Applies a change to the table at the end of a path. Tables that are missing on the way come
into being; a list of tables is entered at its last element. -/
def changeAt (change : Entries → Option Entries) : List String → Entries → Option Entries
  | [], entries => change entries
  | k :: ks, entries =>
    match entries.lookup k with
    | none => do
      let inner ← changeAt change ks []
      pure (entries ++ [(k, .table .passed inner)])
    | some (.table origin inner) => do
      let inner ← changeAt change ks inner
      pure (entries.update k (.table origin inner))
    | some (.tables elements) => do
      let elements ← changeLast (changeAt change ks) elements
      pure (entries.update k (.tables elements))
    | some (.leaf _) => none

/-- Opens the table `k` with the given pairs. A table that a heading has passed through moves to
the end and keeps what it has. -/
def openTable (k : String) (pairs : List (List String × Value)) (entries : Entries) :
    Option Entries :=
  match entries.lookup k with
  | none => do
    let inner ← addPairs [] pairs
    pure (entries ++ [(k, .table .opened inner)])
  | some (.table .passed inner) => do
    let inner ← addPairs inner pairs
    pure (entries.remove k ++ [(k, .table .opened inner)])
  | some _ => none

/-- Adds an element with the given pairs to the list of tables `k`. -/
def openElement (k : String) (pairs : List (List String × Value)) (entries : Entries) :
    Option Entries :=
  match entries.lookup k with
  | none => do
    let inner ← addPairs [] pairs
    pure (entries ++ [(k, .tables [inner])])
  | some (.tables elements) => do
    let inner ← addPairs [] pairs
    pure (entries.update k (.tables (elements ++ [inner])))
  | some _ => none

end Entries

/-! ## Values -/

/-- The pairs of an inline table. -/
def inlinePairs (value : Scan Value) : Scan (List (List String × Value)) := do
  match ← Scan.attempt (Scan.separated pair (Scan.literal ",") (← Scan.bound)) with
  | some pairs => pure pairs
  | none => pure []
where
  pair : Scan (List String × Value) := do
    let path ← key
    Scan.literal "="
    white
    let v ← value
    white
    pure (path, v)

/-- An inline table, which is complete when it ends. -/
def inlineTable (value : Scan Value) : Scan Value := do
  Scan.literal "\x7b"
  let pairs ← inlinePairs value
  white
  Scan.literal "\x7d"
  match Entries.addPairs [] pairs with
  | some entries => pure (.table (entriesToValues entries))
  | none => failure

/-- An array, which may span lines. -/
def array (value : Scan Value) : Scan Value := do
  Scan.literal "["
  let items ← Scan.trailed item (Scan.literal ",") (← Scan.bound)
  trivia
  Scan.literal "]"
  pure (.array items)
where
  item : Scan Value := do
    trivia
    let v ← value
    trivia
    pure v

/-- A value in which arrays and inline tables are nested at most `depth` levels. -/
def value : (depth : Nat) → Scan Value
  | depth, cs =>
    match cs, depth with
    | '"' :: _, _ => (do return .string (← string) : Scan Value) cs
    | '\'' :: _, _ => (do return .string (← string) : Scan Value) cs
    | '[' :: _, depth + 1 => array (value depth) cs
    | '\x7b' :: _, depth + 1 => inlineTable (value depth) cs
    | 't' :: _, _ => (do Scan.literal "true"; pure (.boolean true) : Scan Value) cs
    | 'f' :: _, _ => (do Scan.literal "false"; pure (.boolean false) : Scan Value) cs
    | _, _ => number cs

/-! ## Lines -/

inductive Line where
  | blank
  | pair (path : List String) (v : Value)
  | table (path : List String)
  | element (path : List String)

/-- One line with its end. A value may make it span several lines of text. -/
def line : Scan Line := do
  white
  let content ← (fun cs =>
    match cs with
    | '[' :: '[' :: _ => element cs
    | '[' :: _ => table cs
    | '#' :: _ => some (.blank, cs)
    | '\n' :: _ => some (.blank, cs)
    | '\r' :: _ => some (.blank, cs)
    | [] => some (.blank, cs)
    | _ => pair cs : Scan Line)
  lineEnd
  pure content
where
  element : Scan Line := do
    Scan.literal "[["
    let path ← key
    Scan.literal "]]"
    pure (.element path)
  table : Scan Line := do
    Scan.literal "["
    let path ← key
    Scan.literal "]"
    pure (.table path)
  pair : Scan Line := do
    let path ← key
    Scan.literal "="
    white
    let v ← value (nestingLimit - 1)
    pure (.pair path v)

/-- All lines of a text. -/
def linesOf : (bound : Nat) → List Char → Option (List Line)
  | _, [] => some []
  | 0, _ :: _ => none
  | bound + 1, c :: cs => do
    let (l, rest) ← line (c :: cs)
    let others ← linesOf bound rest
    pure (l :: others)

/-! ## Sections -/

abbrev Pairs := List (List String × Value)

/-- A heading with the pairs below it. -/
structure Section where
  /-- The heading adds an element to a list of tables. -/
  isElement : Bool
  path : List String
  pairs : Pairs

/-- The pairs before the first heading, and the sections. -/
def sectionsOf : List Line → Pairs × List Section
  | [] => ([], [])
  | .blank :: rest => sectionsOf rest
  | .pair path v :: rest =>
    let (pairs, sections) := sectionsOf rest
    ((path, v) :: pairs, sections)
  | .table path :: rest =>
    let (pairs, sections) := sectionsOf rest
    ([], { isElement := false, path, pairs } :: sections)
  | .element path :: rest =>
    let (pairs, sections) := sectionsOf rest
    ([], { isElement := true, path, pairs } :: sections)

/-- Adds the table or element that a section describes. -/
def Entries.addSection (entries : Entries) (s : Section) : Option Entries := do
  let k ← s.path.getLast?
  let change := if s.isElement then openElement k s.pairs else openTable k s.pairs
  changeAt change s.path.dropLast entries

/-- The table that a list of lines describes. -/
def assemble (lines : List Line) : Option Entries := do
  let (pairs, sections) := sectionsOf lines
  let entries ← Entries.addPairs [] pairs
  sections.foldlM Entries.addSection entries

/-- Reads a document. A byte order mark at the start is ignored. -/
def parse (text : String) : Option (List (String × Value)) := do
  let cs := match text.toList with
    | '\ufeff' :: cs => cs
    | cs => cs
  let lines ← linesOf cs.length cs
  let entries ← assemble lines
  pure (entriesToValues entries)

end Lineage.Toml
