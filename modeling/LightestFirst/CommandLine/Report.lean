import LightestFirst.Grammar.Basic
import LightestFirst.Json.Printer
-- What the commands print about a grammar and its derivations, as lines of text and as JSON.
namespace LightestFirst

namespace Report

def lines (texts : List String) : String := String.join (texts.map (· ++ "\n"))

def padded (width : Nat) (text : String) : String :=
  text ++ String.ofList (List.replicate (width - text.length) ' ')

def derivationLine (derivation : Derivation) : String :=
  toString derivation.weight.toNat ++ "\t" ++ derivation.text

def noDerivations (start : String) (depth : Nat) : String :=
  "No derivations of '" ++ start ++ "' within depth " ++ toString depth

def enumerationText (start : String) (depth : Nat) (derivations : List Derivation) : String :=
  if derivations.isEmpty then lines [noDerivations start depth]
  else lines (derivations.map derivationLine)

def derivationJson (derivation : Derivation) : Json :=
  .object [("weight", .integer derivation.weight.toNat),
    ("tokens", .array (derivation.tokens.map .string))]

def enumerationJson (start : String) (limit depth : Nat) (derivations : List Derivation) : Json :=
  .object [("start", .string start), ("depth", .integer depth), ("limit", .integer limit),
    ("count", .integer derivations.length), ("derivations", .array (derivations.map derivationJson))]

def alternativeLine (alternative : String × List Rule) : String :=
  "  " ++ padded 12 alternative.1 ++ " " ++ toString alternative.2.length ++ " alternative(s)"

def summaryText (grammar : Grammar) : String :=
  lines (["Grammar OK", "==========", "Start:        " ++ grammar.start,
      "Rules:        " ++ toString grammar.rules.length,
      "Nonterminals: " ++ toString grammar.alternatives.length] ++
    grammar.alternatives.map alternativeLine ++
    ["Terminals:    " ++ " ".intercalate grammar.terminals])

def alternativeJson (alternative : String × List Rule) : Json :=
  .object [("name", .string alternative.1), ("rules", .integer alternative.2.length)]

def summaryJson (grammar : Grammar) : Json :=
  .object [("valid", .bool true), ("start", .string grammar.start),
    ("rules", .integer grammar.rules.length),
    ("nonterminals", .array (grammar.alternatives.map alternativeJson)),
    ("terminals", .array (grammar.terminals.map .string))]

end Report

end LightestFirst
