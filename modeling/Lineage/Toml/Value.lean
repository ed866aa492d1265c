import Lineage.Decimal.Binary64

/-!
# Document values

The values of a TOML document. Tables keep their entries in the order in which they were
written.
-/

namespace Lineage.Toml

inductive Value where
  | string (s : String)
  | integer (n : Int)
  | float (x : Decimal.Binary64)
  | boolean (b : Bool)
  | datetime
  | array (items : List Value)
  | table (entries : List (String × Value))

end Lineage.Toml
