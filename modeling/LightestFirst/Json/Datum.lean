import LightestFirst.Json.Basic
import LightestFirst.Datum
-- A JSON value as the data it states.
namespace LightestFirst
namespace Json

mutual

def toDatum : Json → Datum
  | .null => .other
  | .bool _ => .other
  | .integer value => .integer value
  | .real _ => .other
  | .string value => .text value
  | .array elements => .list (elementsToDatum elements)
  | .object members => .record (membersToDatum members)

def elementsToDatum : List Json → List Datum
  | [] => []
  | element :: rest => element.toDatum :: elementsToDatum rest

def membersToDatum : List (String × Json) → List (String × Datum)
  | [] => []
  | (key, value) :: rest => (key, value.toDatum) :: membersToDatum rest

end

end Json
end LightestFirst
