import Mathlib.Data.List.Nodup
import LightestFirst.Grammar.Basic
-- Derivation trees. A node names its rule by the place it has in the grammar, so that rules that
-- read the same are still two; its children are as many trees as the rule has symbols.
namespace LightestFirst

mutual
inductive Tree where
  | leaf (token : String)
  | node (place : Nat) (children : Forest)
inductive Forest where
  | nil
  | cons (tree : Tree) (rest : Forest)
end

-- Trees that begin with the given symbol. A leaf is a symbol that no rule is named after.
mutual
inductive Tree.Of (grammar : Grammar) : String → Tree → Prop where
  | leaf {token : String} (terminal : grammar.defines token = false) : Tree.Of grammar token (.leaf token)
  | node {place : Nat} {rule : Rule} {children : Forest} (listed : grammar.rules[place]? = some rule)
      (under : Forest.Of grammar rule.symbols children) : Tree.Of grammar rule.name (.node place children)
inductive Forest.Of (grammar : Grammar) : List String → Forest → Prop where
  | nil : Forest.Of grammar [] .nil
  | cons {symbol : String} {symbols : List String} {tree : Tree} {rest : Forest}
      (first : Tree.Of grammar symbol tree) (others : Forest.Of grammar symbols rest) :
      Forest.Of grammar (symbol :: symbols) (.cons tree rest)
end

-- What the leaves read from left to right.
mutual
def Tree.tokens : Tree → List String
  | .leaf token => [token]
  | .node _ children => children.tokens
def Forest.tokens : Forest → List String
  | .nil => []
  | .cons tree rest => tree.tokens ++ rest.tokens
end

-- The weights of all rules used, added up without an end to them.
mutual
def Tree.weight (grammar : Grammar) : Tree → Nat
  | .leaf _ => 0
  | .node place children =>
    (grammar.rules[place]?.elim 0 fun rule => rule.weight.toNat) + children.weight grammar
def Forest.weight (grammar : Grammar) : Forest → Nat
  | .nil => 0
  | .cons tree rest => tree.weight grammar + rest.weight grammar
end

-- How many nonterminals stand on the longest way down, the root among them.
mutual
def Tree.levels : Tree → Nat
  | .leaf _ => 0
  | .node _ children => children.levels + 1
def Forest.levels : Forest → Nat
  | .nil => 0
  | .cons tree rest => max tree.levels rest.levels
end

namespace Grammar
variable {grammar : Grammar} {bound : Nat}

section Listing
variable (grammar : Grammar)

def symbolTrees (nested : String → List Tree) (symbol : String) : List Tree :=
  if grammar.defines symbol then nested symbol else [.leaf symbol]

def sequenceTrees (trees : String → List Tree) : List String → List Forest
  | [] => [.nil]
  | symbol :: symbols => (trees symbol).flatMap fun tree => (sequenceTrees trees symbols).map (.cons tree)

def ruleTrees (trees : String → List Tree) (listed : Rule × Nat) : List Tree :=
  (sequenceTrees trees listed.1.symbols).map (.node listed.2)

def placesOf (name : String) : List (Rule × Nat) := grammar.rules.zipIdx.filter (·.1.name = name)

def rulesTrees (trees : String → List Tree) (name : String) : List Tree :=
  (grammar.placesOf name).flatMap (ruleTrees trees)

def trees : Nat → String → List Tree
  | 0, name => grammar.rulesTrees (grammar.symbolTrees fun _ => []) name
  | depth + 1, name => grammar.rulesTrees (grammar.symbolTrees (trees depth)) name

end Listing

theorem mem_placesOf {name : String} {listed : Rule × Nat} : listed ∈ grammar.placesOf name ↔
    grammar.rules[listed.2]? = some listed.1 ∧ listed.1.name = name := by
  simp [placesOf, List.mem_zipIdx_iff_getElem?]

def Lists (grammar : Grammar) (bound : Nat) (trees : String → List Tree) (symbol : String) : Prop :=
  (trees symbol).Nodup ∧ ∀ tree, tree ∈ trees symbol ↔ Tree.Of grammar symbol tree ∧ tree.levels ≤ bound

theorem symbolTrees_lists {nested : String → List Tree}
    (lists : ∀ symbol, grammar.defines symbol = true → Lists grammar bound nested symbol) (symbol : String) :
    Lists grammar bound (grammar.symbolTrees nested) symbol := by
  rw [Lists, symbolTrees]
  cases defined : grammar.defines symbol with
  | true => exact lists symbol defined
  | false =>
    refine ⟨List.nodup_singleton _, fun tree => ?_⟩
    rw [if_neg Bool.false_ne_true, List.mem_singleton]
    constructor
    · rintro rfl
      exact ⟨.leaf defined, Nat.zero_le _⟩
    · rintro ⟨of, _⟩
      cases of with
      | leaf => rfl
      | node listed => exact absurd (defines_iff.mpr ⟨_, List.mem_of_getElem? listed, rfl⟩) (by simp [defined])

theorem mem_sequenceTrees {trees : String → List Tree} (lists : ∀ symbol, Lists grammar bound trees symbol)
    {symbols : List String} {forest : Forest} :
    forest ∈ sequenceTrees trees symbols ↔ Forest.Of grammar symbols forest ∧ forest.levels ≤ bound := by
  induction symbols generalizing forest with
  | nil =>
    rw [sequenceTrees, List.mem_singleton]
    constructor
    · rintro rfl
      exact ⟨.nil, Nat.zero_le _⟩
    · rintro ⟨⟨⟩, _⟩
      rfl
  | cons symbol symbols ih =>
    simp only [sequenceTrees, List.mem_flatMap, List.mem_map, (lists symbol).2, ih]
    constructor
    · rintro ⟨tree, ⟨first, low⟩, rest, ⟨others, under⟩, rfl⟩
      exact ⟨.cons first others, Nat.max_le.mpr ⟨low, under⟩⟩
    · rintro ⟨⟨⟩ | ⟨first, others⟩, within⟩
      obtain ⟨low, under⟩ := Nat.max_le.mp within
      exact ⟨_, ⟨first, low⟩, _, ⟨others, under⟩, rfl⟩

theorem nodup_sequenceTrees {trees : String → List Tree} (lists : ∀ symbol, Lists grammar bound trees symbol)
    (symbols : List String) : (sequenceTrees trees symbols).Nodup := by
  induction symbols with
  | nil => exact List.nodup_singleton _
  | cons symbol symbols ih =>
    refine List.nodup_flatMap.mpr ⟨fun tree _ => ih.map fun _ _ same => by cases same; rfl, ?_⟩
    refine (lists symbol).1.imp fun {one other} apart => ?_
    rintro _ here there
    obtain ⟨_, _, rfl⟩ := List.mem_map.mp here
    obtain ⟨_, _, same⟩ := List.mem_map.mp there
    cases same
    exact apart rfl

theorem rulesTrees_lists {trees : String → List Tree} (lists : ∀ symbol, Lists grammar bound trees symbol)
    {name : String} (defined : grammar.defines name = true) :
    Lists grammar (bound + 1) (grammar.rulesTrees trees) name := by
  constructor
  · refine List.nodup_flatMap.mpr ⟨fun listed _ => ?_, ?_⟩
    · exact (nodup_sequenceTrees lists _).map fun _ _ same => by cases same; rfl
    · have distinct : (grammar.placesOf name).Pairwise (fun one other => one.2 ≠ other.2) := by
        have places : (grammar.rules.zipIdx.map Prod.snd).Nodup := by
          rw [List.zipIdx_map_snd]
          exact List.nodup_range'
        exact (List.pairwise_map.mp places).sublist List.filter_sublist
      refine distinct.imp fun {one other} apart => ?_
      rintro _ here there
      obtain ⟨_, _, rfl⟩ := List.mem_map.mp here
      obtain ⟨_, _, same⟩ := List.mem_map.mp there
      exact apart (Tree.node.inj same).1.symm
  · intro tree
    simp only [rulesTrees, ruleTrees, List.mem_flatMap, mem_placesOf, List.mem_map, mem_sequenceTrees lists]
    constructor
    · rintro ⟨⟨rule, place⟩, ⟨listed, rfl⟩, children, ⟨under, low⟩, rfl⟩
      exact ⟨.node listed under, Nat.succ_le_succ low⟩
    · rintro ⟨of, low⟩
      cases of with
      | leaf terminal => exact absurd defined (by simp [terminal])
      | node listed under => exact ⟨(_, _), ⟨listed, rfl⟩, _, ⟨under, Nat.le_of_succ_le_succ low⟩, rfl⟩

theorem trees_lists (grammar : Grammar) (depth : Nat) {name : String} (defined : grammar.defines name = true) :
    Lists grammar (depth + 1) (grammar.trees depth) name := by
  induction depth generalizing name with
  | zero =>
    refine rulesTrees_lists (symbolTrees_lists fun symbol inner => ⟨List.nodup_nil, fun tree => ?_⟩) defined
    refine ⟨nofun, fun ⟨of, low⟩ => ?_⟩
    cases of with
    | leaf terminal => exact absurd inner (by simp [terminal])
    | node => exact absurd low (Nat.not_succ_le_zero _)
  | succ depth ih =>
    exact rulesTrees_lists (symbolTrees_lists fun _ inner => ih inner) defined

end Grammar
end LightestFirst
