import Mathlib.Data.List.Permutation
import LightestFirst.Proofs.Derivations.Enumeration
-- The order of an enumeration, equal weights included: by the rules in the order of the file, and within
-- a rule by the choices for its first symbol, then for those behind it.
namespace LightestFirst
namespace Grammar
variable {grammar : Grammar}

section Lists

def symbolList (grammar : Grammar) (nested : String → List Derivation) (symbol : String) : List Derivation :=
  if grammar.defines symbol then nested symbol else [.terminal symbol]

-- A row of symbols: the joins of the first with the rest, row by row, stably sorted.
def sequenceList (symbol : String → List Derivation) : List String → List Derivation
  | [] => [.epsilon]
  | [only] => symbol only
  | first :: rest =>
    (Grid.joins Derivation.join (symbol first) (sequenceList symbol rest)).mergeSort Derivation.le

def ruleList (symbol : String → List Derivation) (rule : Rule) : List Derivation :=
  (sequenceList symbol rule.symbols).map (Derivation.heavier rule.weight)

def rulesList (symbol : String → List Derivation) (rules : List Rule) : List Derivation :=
  (rules.flatMap (ruleList symbol)).mergeSort Derivation.le

-- All that a nonterminal derives with others nested so deep, in order.
def ordered (grammar : Grammar) : Nat → String → List Derivation
  | 0, name => rulesList (symbolList grammar fun _ => []) (grammar.rulesOf name)
  | depth + 1, name => rulesList (symbolList grammar (ordered grammar depth)) (grammar.rulesOf name)

end Lists

def Follows (flow : Derivations) (items : List Derivation) : Prop :=
  flow.Gives items ∧ items.Pairwise (Derivation.le · · = true)

theorem mergeSort_rises (items : List Derivation) :
    (items.mergeSort Derivation.le).Pairwise (Derivation.le · · = true) := by
  have either : ∀ x y, (Derivation.le x y || Derivation.le y x) = true := fun x y => by
    simpa using Derivation.le_total x y
  have chain : ∀ x y z, Derivation.le x y = true → Derivation.le y z = true → Derivation.le x z = true :=
    fun _ _ _ => Derivation.le_trans
  exact List.pairwise_mergeSort chain either items

theorem symbolFlow_follows {nested : String → Derivations} {lists : String → List Derivation}
    (follows : ∀ symbol, Follows (nested symbol) (lists symbol)) (symbol : String) :
    Follows (symbolFlow grammar.index nested symbol) (symbolList grammar lists symbol) := by
  rw [symbolFlow, symbolList, isSome_lookup]
  split
  · exact follows symbol
  · exact ⟨Flow.single_gives _, List.pairwise_singleton _ _⟩

theorem sequenceFlow_follows {symbol : String → Derivations} {lists : String → List Derivation}
    (follows : ∀ name, Follows (symbol name) (lists name)) (symbols : List String) :
    Follows (sequenceFlow symbol symbols) (sequenceList lists symbols) := by
  induction symbols with
  | nil => exact ⟨Flow.single_gives _, List.pairwise_singleton _ _⟩
  | cons first rest ih =>
    cases rest with
    | nil => exact follows first
    | cons next rest =>
      obtain ⟨gives, sorted⟩ := follows first
      have rising := Grid.rising_lists Derivation.le_total Derivation.le_trans Derivation.join_left
        Derivation.join_right sorted ih.2
      exact ⟨Flow.paired_gives rising gives ih.1, mergeSort_rises _⟩

theorem ruleFlow_follows {symbol : String → Derivations} {lists : String → List Derivation}
    (follows : ∀ name, Follows (symbol name) (lists name)) (rule : Rule) :
    Follows (ruleFlow symbol rule) (ruleList lists rule) := by
  obtain ⟨gives, sorted⟩ := sequenceFlow_follows follows rule.symbols
  exact ⟨Flow.mapped_gives _ gives, List.pairwise_map.mpr (sorted.imp (Derivation.heavier_mono _))⟩

theorem rulesFlow_follows {symbol : String → Derivations} {lists : String → List Derivation}
    (follows : ∀ name, Follows (symbol name) (lists name)) (rules : List Rule) :
    Follows (rulesFlow symbol rules) (rulesList lists rules) :=
  ⟨Flow.mergedAll_gives Derivation.le_total Derivation.le_trans (fun rule _ => (ruleFlow_follows follows rule).1)
    fun rule _ => (ruleFlow_follows follows rule).2, mergeSort_rises _⟩

theorem flow_follows (grammar : Grammar) (depth : Nat) (name : String) :
    Follows (flow grammar.index depth name) (grammar.ordered depth name) := by
  induction depth generalizing name with
  | zero =>
    rw [flow, ordered, lookup_rulesOf]
    exact rulesFlow_follows (symbolFlow_follows fun _ => ⟨Flow.empty_gives, .nil⟩) _
  | succ depth ih =>
    have nested : ∀ symbol, Follows (.deferred ⟨fun _ => flow grammar.index depth symbol⟩)
        (grammar.ordered depth symbol) := fun symbol => ⟨Flow.deferred_gives (ih symbol).1, (ih symbol).2⟩
    rw [flow, ordered, lookup_rulesOf]
    exact rulesFlow_follows (symbolFlow_follows nested) _

-- An enumeration is the front of the ordered list, equals in the places they have there.
theorem enumerates_in_order (grammar : Grammar) (name : String) (limit depth : Nat)
    (valid : grammar.validate = .ok ()) (defined : grammar.defines name = true) :
    grammar.enumerate (some name) limit depth = .ok ((grammar.ordered depth name).take limit) := by
  obtain ⟨ending, later, after, taken, going⟩ := Flow.gives_taken (flow_follows grammar depth name).1 limit ()
  have stream := derivations_of_defines defined depth
  rw [enumerate, valid]
  simp only [Option.getD_some, stream, taken]
  cases ending with
  | pending => exact absurd rfl going
  | limit => rfl
  | ended => rfl

def evenChoices : Grammar := ⟨"S", [⟨"S", 2, ["a"]⟩, ⟨"S", 2, ["S", "S"]⟩, ⟨"S", 2, ["b"]⟩]⟩

theorem evenChoices_in_order : evenChoices.validate = .ok () ∧ evenChoices.defines "S" = true ∧
    evenChoices.enumerate (some "S") 5 1 =
      .ok [⟨2, ["a"]⟩, ⟨2, ["b"]⟩, ⟨6, ["a", "a"]⟩, ⟨6, ["a", "b"]⟩, ⟨6, ["b", "a"]⟩] := by
  have valid : evenChoices.validate = .ok () := by decide +kernel
  have defined : evenChoices.defines "S" = true := by decide +kernel
  have front : (evenChoices.ordered 1 "S").take 5 =
      [⟨2, ["a"]⟩, ⟨2, ["b"]⟩, ⟨6, ["a", "a"]⟩, ⟨6, ["a", "b"]⟩, ⟨6, ["b", "a"]⟩] := by cbv
  refine ⟨valid, defined, ?_⟩
  rw [enumerates_in_order evenChoices "S" 5 1 valid defined, front]

end Grammar
end LightestFirst
