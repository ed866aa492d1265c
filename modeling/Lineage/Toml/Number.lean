import Lineage.Toml.Text
import Lineage.Toml.Value

/-!
# Numbers, dates and times

Digits may be grouped by underscores, each of which stands between two digits. A decimal number
has no leading zeros. Integers fit 64 bits. Dates and times are checked and otherwise not
looked at.
-/

namespace Lineage.Toml

/-- The number that digits denote in a base. -/
def ofDigits (base : Nat) (digits : List Char) : Nat :=
  digits.foldl (fun n c => base * n + (hexDigit? c).getD 0) 0

/-- Digits after the first one, each perhaps after an underscore. -/
def moreDigits (isDigit : Char → Bool) : List Char → List Char × List Char
  | '_' :: c :: cs =>
    if isDigit c then
      let (digits, rest) := moreDigits isDigit cs
      (c :: digits, rest)
    else ([], '_' :: c :: cs)
  | c :: cs =>
    if isDigit c then
      let (digits, rest) := moreDigits isDigit cs
      (c :: digits, rest)
    else ([], c :: cs)
  | [] => ([], [])

/-- Grouped digits, at least one. -/
def digits (isDigit : Char → Bool) : Scan (List Char) := do
  let first ← Scan.one isDigit
  let more ← (fun cs => some (moreDigits isDigit cs) : Scan (List Char))
  pure (first :: more)

/-- A minus sign was read. -/
def sign : Scan Bool := do
  match ← Scan.attempt (Scan.one fun c => c == '+' || c == '-') with
  | some c => pure (c == '-')
  | none => pure false

/-- Decimal digits without a leading zero. -/
def decimalDigits : Scan (List Char) := do
  match ← Scan.attempt (Scan.literal "0") with
  | some _ => pure ['0']
  | none => digits Char.isDigit

/-! ## Integers -/

def inRange (n : Int) : Bool := -Int.pow 2 63 ≤ n && n < Int.pow 2 63

def radix (mark : String) (base : Nat) (isDigit : Char → Bool) : Scan Int := do
  Scan.literal mark
  let n : Int := ofDigits base (← digits isDigit)
  if inRange n then pure n else failure

def isHexDigit (c : Char) : Bool := (hexDigit? c).isSome
def isOctalDigit (c : Char) : Bool := '0' ≤ c && c ≤ '7'
def isBinaryDigit (c : Char) : Bool := c == '0' || c == '1'

def decimalInteger : Scan Int := do
  let negative ← sign
  let n : Int := ofDigits 10 (← decimalDigits)
  let n := if negative then -n else n
  if inRange n then pure n else failure

def integer : Scan Int := fun cs =>
  match cs with
  | '0' :: 'x' :: _ => radix "0x" 16 isHexDigit cs
  | '0' :: 'o' :: _ => radix "0o" 8 isOctalDigit cs
  | '0' :: 'b' :: _ => radix "0b" 2 isBinaryDigit cs
  | _ => decimalInteger cs

/-! ## Floats -/

def fraction : Scan (List Char) := do
  Scan.literal "."
  digits Char.isDigit

def exponent : Scan Int := do
  let _ ← Scan.one fun c => c == 'e' || c == 'E'
  let negative ← sign
  let n : Int := ofDigits 10 (← digits Char.isDigit)
  pure (if negative then -n else n)

/-- A decimal with a fraction, an exponent or both. One that is too large for a finite number is
refused, unless it is negative. -/
def decimalFloat : Scan Decimal.Binary64 := do
  let negative ← sign
  let whole ← decimalDigits
  let part ← Scan.attempt fraction
  let power ← Scan.attempt exponent
  if part.isNone && power.isNone then failure
  let part := part.getD []
  let x := Decimal.Binary64.ofDecimal negative (ofDigits 10 (whole ++ part))
    (power.getD 0 - part.length)
  if x = .infinite false then failure else pure x

def specialFloat : Scan Decimal.Binary64 := do
  let negative ← sign
  match ← Scan.attempt (Scan.literal "inf") with
  | some _ => pure (.infinite negative)
  | none =>
    Scan.literal "nan"
    pure .nan

/-! ## Dates and times -/

/-- Exactly `n` digits whose number is in a range. -/
def fixedDigits (n lo hi : Nat) : Scan Nat := do
  let cs ← (List.replicate n (Scan.one Char.isDigit)).mapM id
  let value := ofDigits 10 cs
  if lo ≤ value && value ≤ hi then pure value else failure

def daysInMonth (year month : Nat) : Nat :=
  let leap := year % 4 == 0 && (year % 100 != 0 || year % 400 == 0)
  match month with
  | 2 => if leap then 29 else 28
  | 4 | 6 | 9 | 11 => 30
  | _ => 31

def date : Scan Unit := do
  let year ← fixedDigits 4 0 9999
  Scan.literal "-"
  let month ← fixedDigits 2 1 12
  Scan.literal "-"
  let day ← fixedDigits 2 1 31
  if daysInMonth year month < day then failure

/-- Hours, minutes and seconds; a minute may have a sixty-first second. -/
def time : Scan Unit := do
  let _ ← fixedDigits 2 0 23
  Scan.literal ":"
  let _ ← fixedDigits 2 0 59
  Scan.literal ":"
  let _ ← fixedDigits 2 0 60
  let _ ← Scan.attempt do
    Scan.literal "."
    let _ ← Scan.span1 Char.isDigit

def offset : Scan Unit := do
  match ← Scan.attempt (Scan.one fun c => c == 'Z' || c == 'z') with
  | some _ => pure ()
  | none =>
    let _ ← Scan.one fun c => c == '+' || c == '-'
    let _ ← fixedDigits 2 0 23
    Scan.literal ":"
    let _ ← fixedDigits 2 0 59

/-- A date, a date with a time, or a time. -/
def datetime : Scan Unit := dated <|> time
where
  dated : Scan Unit := do
    date
    let _ ← Scan.attempt do
      let _ ← Scan.one fun c => c == 'T' || c == 't' || c == ' '
      time
      let _ ← Scan.attempt offset

/-- Anything that starts with a digit or a sign. -/
def number : Scan Value :=
  (do datetime; pure .datetime) <|> (do return .float (← decimalFloat)) <|>
    (do return .float (← specialFloat)) <|> (do return .integer (← integer))

end Lineage.Toml
