import LightestFirst.Derivation
import LightestFirst.Fault
import LightestFirst.Text.Blank
import LightestFirst.Text.Sorted
-- Weighted grammars. A symbol that names a rule is a nonterminal, any other symbol is a terminal.
namespace LightestFirst

structure Rule where
  name : String
  weight : Weight
  symbols : List String
deriving DecidableEq, Repr

def Rule.usualWeight : Weight := 1

structure Grammar where
  start : String
  rules : List Rule
deriving DecidableEq, Repr

inductive GrammarError where
  | noRules
  -- the rule of this number, counted from 1
  | emptyName (position : Nat)
  | emptySymbol (rule : String)
  | unknownNonterminal (name : String)
  -- the stream of derivations could not answer after so many
  | stalled (produced : Nat)
  | abandoned (cause : Fault)
deriving DecidableEq, Repr

def GrammarError.message : GrammarError → String
  | .noRules => "Invalid grammar: grammar has no rules"
  | .emptyName position => "Invalid grammar: rule #" ++ toString position ++ " has an empty name"
  | .emptySymbol rule => "Invalid grammar: rule '" ++ rule ++ "' contains an empty symbol"
  | .unknownNonterminal name => "Unknown nonterminal: " ++ name
  | .stalled produced => "Enumeration stalled after " ++ toString produced ++ " derivations"
  | .abandoned cause => cause.message

-- The first thing wrong with a rule; its name is looked at before its symbols.
def Rule.flaw? (position : Nat) (rule : Rule) : Option GrammarError :=
  if Text.allBlank rule.name then some (.emptyName position)
  else if rule.symbols.any (· = "") then some (.emptySymbol rule.name)
  else none

def Rule.firstFlaw? : Nat → List Rule → Option GrammarError
  | _, [] => none
  | position, rule :: rest => (rule.flaw? position).or (firstFlaw? (position + 1) rest)

namespace Grammar

def defines (grammar : Grammar) (name : String) : Bool := grammar.rules.any (·.name = name)

def flaw? (grammar : Grammar) : Option GrammarError :=
  if grammar.rules.isEmpty then some .noRules
  else match Rule.firstFlaw? 1 grammar.rules with
    | some flaw => some flaw
    | none => if grammar.defines grammar.start then none else some (.unknownNonterminal grammar.start)

def validate (grammar : Grammar) : Except GrammarError Unit :=
  match grammar.flaw? with
  | some flaw => .error flaw
  | none => .ok ()

-- Rules in groups by their names, the names ascending.
abbrev Index : Type := List (String × Array Rule)

-- A rule goes behind the others of its name, or makes a group where its name belongs.
def Index.insert : Index → Rule → Index
  | [], rule => [(rule.name, #[rule])]
  | (name, group) :: rest, rule =>
    if rule.name = name then (name, group.push rule) :: rest
    else if rule.name < name then (rule.name, #[rule]) :: (name, group) :: rest
    else (name, group) :: insert rest rule

def index (grammar : Grammar) : Index := grammar.rules.foldl Index.insert []

def alternatives (grammar : Grammar) : List (String × List Rule) :=
  grammar.index.map fun (name, group) => (name, group.toList)

def terminals (grammar : Grammar) : List String :=
  Text.sortedDistinct ((grammar.rules.flatMap (·.symbols)).filter (!grammar.defines ·))

theorem defines_iff {grammar : Grammar} {name : String} :
    grammar.defines name = true ↔ ∃ rule ∈ grammar.rules, rule.name = name := by
  simp [defines]

end Grammar
end LightestFirst
