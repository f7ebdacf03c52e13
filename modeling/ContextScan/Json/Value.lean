/-!
# Json.Value — JSON values

Numbers are kept as they are written: one without fraction and exponent is an integer of any size, every other one a
decimal, even where its value is whole.  The members of an object are kept in order, and each has a name of its own.
-/
namespace ContextScan.Json

/-- **A JSON value.** -/
inductive Value where
  | null
  | bool (b : Bool)
  /-- A number without fraction and exponent. -/
  | integer (n : Int)
  /-- A number with a fraction or an exponent, which stands for `mantissa * 10 ^ exponent`. -/
  | decimal (mantissa exponent : Int)
  | string (s : String)
  | array (items : List Value)
  /-- The names of the members are distinct; nothing is meant by an object that repeats one. -/
  | object (members : List (String × Value))

namespace Value

/-- **The name of a bare choice**: a text, or an object whose only member is the name with a null. -/
def choice? : Value → Option String
  | string s => some s
  | object [(s, null)] => some s
  | _ => none

/-- **The parts of a record**, in the order of their names: an object that has all of them, or an array of exactly as
many items.  Other members of an object do not matter.  As the names of an object are distinct, the first member with a
name is the only one. -/
def fields? (names : List String) : Value → Option (List Value)
  | array items => if items.length = names.length then some items else none
  | object members => names.mapM fun name => members.lookup name
  | _ => none

end Value
end ContextScan.Json
