import LightestFirst.Grammar.Basic
import LightestFirst.Flow
-- The derivations of a nonterminal, lightest first, as a stream put together along the grammar:
--   a terminal is itself, a nonterminal is its rules merged,
--   a row of symbols is their product, a rule makes its derivations heavier.
-- Nonterminals inside a rule are followed so many levels deep; beyond that they derive nothing.
-- A nested nonterminal is built when somebody asks for it, so a cycle costs what is asked.
namespace LightestFirst
namespace Grammar

abbrev Derivations := Flow Unit Derivation

def symbolFlow (index : Index) (nested : String → Derivations) (symbol : String) : Derivations :=
  if (index.lookup symbol).isSome then nested symbol else .single (.terminal symbol)

def sequenceFlow (symbol : String → Derivations) : List String → Derivations
  | [] => .single .epsilon
  | [only] => symbol only
  | first :: rest => .paired Derivation.le Derivation.join (symbol first) (sequenceFlow symbol rest)

def ruleFlow (symbol : String → Derivations) (rule : Rule) : Derivations :=
  .mapped (Derivation.heavier rule.weight) (sequenceFlow symbol rule.symbols)

def rulesFlow (symbol : String → Derivations) (rules : List Rule) : Derivations :=
  .mergedAll Derivation.le (rules.map (ruleFlow symbol))

def flow (index : Index) : Nat → String → Derivations
  | 0, name => rulesFlow (symbolFlow index (fun _ => .empty)) ((index.lookup name).getD #[]).toList
  | depth + 1, name =>
    rulesFlow (symbolFlow index (fun symbol => .deferred ⟨fun _ => flow index depth symbol⟩))
      ((index.lookup name).getD #[]).toList

def derivations (grammar : Grammar) (name : String) (depth : Nat) : Except GrammarError Derivations :=
  match grammar.index.lookup name with
  | none => .error (.unknownNonterminal name)
  | some _ => .ok (flow grammar.index depth name)

-- What came of taking derivations: a pending answer means that there is no way on.
def ofTaken : Attempt (List Derivation × Option Shortage) → Except GrammarError (List Derivation)
  | .error cause => .error (.abandoned cause)
  | .ok (taken, some .pending) => .error (.stalled taken.length)
  | .ok (taken, _) => .ok taken

def enumerate (grammar : Grammar) (start : Option String) (limit depth : Nat) :
    Except GrammarError (List Derivation) :=
  match grammar.validate with
  | .error flaw => .error flaw
  | .ok () =>
    match grammar.derivations (start.getD grammar.start) depth with
    | .error unknown => .error unknown
    | .ok flow => ofTaken (flow.take limit ()).1

end Grammar
end LightestFirst
