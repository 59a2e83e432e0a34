import Descent.Dictionary
import Descent.Number

/-!
# JSON values

The values of JSON. A number written without a fraction and an exponent is an integer.
-/

namespace Descent

inductive Json where
  | null
  | bool (b : Bool)
  | number (n : Number)
  | string (s : Text)
  | array (items : List Json)
  | object (members : List (Text × Json))

end Descent
