/-!
# JSON values

Enough of JSON to publish a schema: values, their text, and look-up by pointer.
-/

namespace Lineage

/-- A JSON value. A decimal number carries the digits after its point. -/
inductive Json where
  | null
  | bool (b : Bool)
  | int (n : Int)
  | decimal (whole : Int) (fraction : List Char)
  | str (s : String)
  | arr (items : List Json)
  | obj (entries : List (String × Json))

namespace Json

/-- One character of a string. Controls, the quote and the backslash are escaped. -/
def escapeChar (c : Char) : List Char :=
  match c with
  | '"' => ['\\', '"']
  | '\\' => ['\\', '\\']
  | '\n' => ['\\', 'n']
  | '\r' => ['\\', 'r']
  | '\t' => ['\\', 't']
  | c =>
    if c.toNat < 0x20 then
      let digits := Nat.toDigits 16 c.toNat
      ['\\', 'u'] ++ List.replicate (4 - digits.length) '0' ++ digits
    else [c]

def quote (s : String) : String :=
  String.ofList ('"' :: (s.toList.flatMap escapeChar ++ ['"']))

mutual

def text : Json → String
  | null => "null"
  | bool b => if b then "true" else "false"
  | int n => toString n
  | decimal whole fraction => toString whole ++ "." ++ String.ofList fraction
  | str s => quote s
  | arr items => "[" ++ ",".intercalate (texts items) ++ "]"
  | obj entries => "\x7b" ++ ",".intercalate (entryTexts entries) ++ "\x7d"

def texts : List Json → List String
  | [] => []
  | v :: rest => v.text :: texts rest

def entryTexts : List (String × Json) → List String
  | [] => []
  | (key, v) :: rest => (quote key ++ ":" ++ v.text) :: entryTexts rest

end

/-! ## Pointers -/

/-- A step of a pointer, in which a slash and a tilde are escaped. -/
def unescapeStep : List Char → List Char
  | '~' :: '1' :: rest => '/' :: unescapeStep rest
  | '~' :: '0' :: rest => '~' :: unescapeStep rest
  | c :: rest => c :: unescapeStep rest
  | [] => []

/-- A position in an array: digits without a leading zero. -/
def index? (step : String) : Option Nat :=
  match step.toList with
  | ['0'] => some 0
  | c :: cs =>
    if c != '0' && (c :: cs).all Char.isDigit then
      some ((c :: cs).foldl (fun n c => 10 * n + (c.toNat - '0'.toNat)) 0)
    else none
  | [] => none

/-- The value one step further. -/
def step? (v : Json) (step : String) : Option Json :=
  match v with
  | obj entries => entries.lookup step
  | arr items => (index? step).bind fun i => items[i]?
  | _ => none

/-- The value that a pointer leads to. The empty pointer is the value itself; any other starts
with a slash. -/
def pointer? (v : Json) (pointer : String) : Option Json :=
  match pointer.splitOn "/" with
  | [""] => some v
  | "" :: steps =>
    steps.foldlM (fun v step => v.step? (String.ofList (unescapeStep step.toList))) v
  | _ => none

end Json

end Lineage
