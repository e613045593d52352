/-!
# JSON values

The JSON values of a report: numbers are natural numbers, and the members of an object keep their
order.
-/

namespace FeatureDoc

/-- A JSON value. -/
inductive Json where
  | null
  | number (n : Nat)
  | string (s : String)
  | array (items : List Json)
  | object (members : List (String × Json))
  deriving Repr, BEq

namespace Json

/-- An array of strings. -/
def strings (texts : List String) : Json := .array (texts.map .string)

/-- A member that is there only if there is a value. -/
def member? {α : Type} (name : String) (value : Option α) (toJson : α → Json) :
    List (String × Json) :=
  (value.map fun a => (name, toJson a)).toList

end Json

end FeatureDoc
