/-!
# Binary floating-point numbers

Numbers with 53 significant bits, read from decimals and written as decimals. A decimal is
rounded to the nearest number, ties going to the even one. A number is written with the fewest
digits that read back as the same number; among those, with the nearest, and of two equally near
ones with the greater.
-/

namespace Lineage.Decimal

/-- A binary64 number. A finite one is its mantissa times a power of two. -/
inductive Binary64 where
  | finite (negative : Bool) (mantissa : Nat) (exponent : Int)
  | infinite (negative : Bool)
  | nan
  deriving DecidableEq, Repr

/-- The integer nearest to a quotient, the even one if two are equally near. -/
def roundDiv (num den : Nat) : Nat :=
  let q := num / den
  let r := num % den
  if den < 2 * r || (2 * r == den && q % 2 == 1) then q + 1 else q

/-- The first number times ten to the power of an integer, as a fraction. -/
def scale10 (n : Nat) (e : Int) : Nat × Nat :=
  if 0 ≤ e then (n * Nat.pow 10 e.toNat, 1) else (n, Nat.pow 10 (-e).toNat)

/-- The first number times two to the power of an integer, as a fraction. -/
def scale2 (n : Nat) (e : Int) : Nat × Nat :=
  if 0 ≤ e then (n * Nat.pow 2 e.toNat, 1) else (n, Nat.pow 2 (-e).toNat)

/-- The greatest power of two that is not above a positive fraction. -/
def floorLog2 (num den : Nat) : Int :=
  let guess : Int := (num.log2 : Int) - den.log2
  let (a, b) := scale2 1 guess
  if a * den ≤ num * b then guess else guess - 1

/-- The number of decimal digits. -/
def digitCount (n : Nat) : Nat := (Nat.toDigits 10 n).length

namespace Binary64

/-- The number nearest to a positive fraction. -/
def ofRatio (negative : Bool) (num den : Nat) : Binary64 :=
  let e := max (floorLog2 num den - 52) (-1074)
  let (a, b) := scale2 1 e
  let m := roundDiv (num * b) (den * a)
  let (m, e) := if m = Nat.pow 2 53 then (Nat.pow 2 52, e + 1) else (m, e)
  if 971 < e then .infinite negative else .finite negative m e

/-- The number nearest to `digits * 10 ^ exponent`. -/
def ofDecimal (negative : Bool) (digits : Nat) (exponent : Int) : Binary64 :=
  let magnitude := digitCount digits + exponent
  if digits = 0 || magnitude < -400 then .finite negative 0 0
  else if 400 < magnitude then .infinite negative
  else
    let (num, den) := scale10 digits exponent
    ofRatio negative num den

/-- The least `k` for which a positive fraction is below `10 ^ k`. -/
def decimalPoint (num den : Nat) : Int :=
  if den ≤ num then digitCount (num / den)
  else
    let zeros := digitCount (den / num)
    if den ≤ num * Nat.pow 10 (zeros - 1) then 2 - zeros else 1 - zeros

/-- A decimal with at most `n` digits that reads back as `m * 2 ^ e`, the nearest one if there
are two and the greater one if these are equally near, as digits and exponent. -/
def withDigits? (m : Nat) (e : Int) (n : Nat) : Option (Nat × Int) :=
  -- the number and the ends of the interval that rounds to it, over a common denominator
  let (unit, den) := scale2 1 (e - 2)
  let v := 4 * m * unit
  let lo := if m = Nat.pow 2 52 && -1074 < e then v - unit else v - 2 * unit
  let hi := v + 2 * unit
  let p := decimalPoint v den - n
  let (up, down) := scale10 1 p
  let inside (c : Nat) : Bool :=
    let x := c * up * den
    if m % 2 = 0 then lo * down ≤ x && x ≤ hi * down else lo * down < x && x < hi * down
  let below := v * down / (den * up)
  let above := below + 1
  let pastMiddle : Bool := (below + above) * up * den ≤ 2 * (v * down)
  if inside below && inside above then some (if pastMiddle then above else below, p)
  else if inside below then some (below, p)
  else if inside above then some (above, p)
  else none

/-- The shortest decimal that reads back as `m * 2 ^ e`, for a positive mantissa. -/
def shortest (m : Nat) (e : Int) : Nat × Int :=
  ((List.range 17).findSome? fun n => withDigits? m e (n + 1)).getD (m, e)

/-- `digits * 10 ^ exponent` without an exponent, with at least one digit after the point. -/
def positional (digits : Nat) (exponent : Int) : String :=
  let ds := Nat.toDigits 10 digits
  if 0 ≤ exponent then String.ofList (ds ++ List.replicate exponent.toNat '0') ++ ".0"
  else
    let point : Int := ds.length + exponent
    if 0 < point then
      String.ofList (ds.take point.toNat) ++ "." ++ String.ofList (ds.drop point.toNat)
    else "0." ++ String.ofList (List.replicate (-point).toNat '0' ++ ds)

/-- The number as a decimal without an exponent. -/
def text : Binary64 → String
  | finite negative m e =>
    let sign := if negative then "-" else ""
    if m = 0 then sign ++ "0.0"
    else
      let (digits, exponent) := shortest m e
      if digits = 10 then sign ++ positional 1 (exponent + 1)
      else sign ++ positional digits exponent
  | infinite negative => if negative then "-inf" else "inf"
  | nan => "NaN"

end Binary64

end Lineage.Decimal
