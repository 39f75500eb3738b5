import LightestFirst.Grammar.Basic
import LightestFirst.Toml.Parser
import LightestFirst.Json.Datum
-- Reading a grammar from data. A rule or a grammar is a record of its fields, or the list of their
-- values in order, where fields with a usual value may be missing at the end. Unknown and repeated
-- fields are refused.
namespace LightestFirst

-- What a list does with elements that no field is left for.
inductive Surplus where
  | refused
  | ignored
deriving DecidableEq

namespace Datum

def field? (entries : List (String × Datum)) (name : String) : Option Datum :=
  (entries.find? (fun entry => entry.1 = name)).map (·.2)

def distinct : List String → Bool
  | [] => true
  | name :: rest => !rest.contains name && distinct rest

def fields? (surplus : Surplus) (names : List String) : Datum → Option (List (Option Datum))
  | .record entries =>
    let given := entries.map (·.1)
    if given.all names.contains && distinct given then some (names.map (field? entries)) else none
  | .list elements =>
    if surplus = .refused && names.length < elements.length then none
    else some ((List.range names.length).map (elements[·]?))
  | _ => none

def text? : Datum → Option String
  | .text value => some value
  | _ => none

def weight? : Datum → Option Weight
  | .integer value => if 0 ≤ value ∧ value.toNat < UInt64.size then some (UInt64.ofNat value.toNat) else none
  | _ => none

def list? : Datum → Option (List Datum)
  | .list elements => some elements
  | _ => none

end Datum

def orUsual {β : Type} (usual : β) (read : Datum → Option β) : Option Datum → Option β
  | none => some usual
  | some datum => read datum

def Rule.ofDatum? (surplus : Surplus) (datum : Datum) : Option Rule :=
  match datum.fields? surplus ["name", "weight", "symbols"] with
  | some [some name, weight, symbols] =>
    match name.text?, orUsual Rule.usualWeight Datum.weight? weight,
        orUsual [] (fun datum => datum.list?.bind (·.mapM Datum.text?)) symbols with
    | some name, some weight, some symbols => some ⟨name, weight, symbols⟩
    | _, _, _ => none
  | _ => none

namespace Grammar

def ofDatum? (surplus : Surplus) (datum : Datum) : Option Grammar :=
  match datum.fields? surplus ["start", "rule"] with
  | some [some start, rules] =>
    match start.text?,
        orUsual [] (fun datum => datum.list?.bind (·.mapM (Rule.ofDatum? surplus))) rules with
    | some start, some rules => some ⟨start, rules⟩
    | _, _ => none
  | _ => none

def ofToml? (text : String) : Option Grammar :=
  (Toml.parse? text).bind (fun entries => ofDatum? .ignored (.record entries))

def ofJson? (value : Json) : Option Grammar := ofDatum? .refused value.toDatum

end Grammar
end LightestFirst
