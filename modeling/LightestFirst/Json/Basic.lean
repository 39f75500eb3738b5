-- JSON values. An integer of one machine word is kept by its value, any other number as written.
-- The members of an object stand in the order of the text, repeated keys included.
namespace LightestFirst

inductive Json where
  | null
  | bool (value : Bool)
  | integer (value : Int)
  | real (lexeme : String)
  | string (value : String)
  | array (elements : List Json)
  | object (members : List (String × Json))

namespace Json

-- The last value under a key.
def member? (members : List (String × Json)) (key : String) : Option Json :=
  (members.reverse.find? (fun entry => entry.1 = key)).map (·.2)

def get? (value : Json) (key : String) : Option Json :=
  match value with
  | .object members => member? members key
  | _ => none

end Json
end LightestFirst
