import LightestFirst.Proofs.Derivations.Index
import LightestFirst.Proofs.Derivations.Trees
import LightestFirst.Proofs.Flows.SortedLists
-- The stream of a nonterminal gives its derivation trees up to the depth, each of them once.
namespace LightestFirst

namespace Weight

def stopped (total : Nat) : Weight := UInt64.ofNat (min total (UInt64.size - 1))

theorem toNat_stopped (total : Nat) : (stopped total).toNat = min total (UInt64.size - 1) := by
  have inside : min total (UInt64.size - 1) < UInt64.size := Nat.lt_of_le_of_lt (Nat.min_le_right _ _) (by decide)
  exact UInt64.toNat_ofNat_of_lt' inside

theorem stopped_toNat (weight : Weight) : stopped weight.toNat = weight := by
  have inside := weight.toNat_lt_size
  rw [← UInt64.toNat_inj, toNat_stopped]
  omega

theorem plus_stopped (a b : Nat) : plus (stopped a) (stopped b) = stopped (a + b) := by
  rw [← UInt64.toNat_inj, toNat_plus, toNat_stopped, toNat_stopped, toNat_stopped]
  omega

theorem plus_mono {x x' y y' : Weight} (first : x ≤ x') (second : y ≤ y') : plus x y ≤ plus x' y' := by
  rw [UInt64.le_iff_toNat_le] at *
  rw [toNat_plus, toNat_plus]
  omega

end Weight

namespace Derivation

theorem le_total (x y : Derivation) : x.le y = true ∨ y.le x = true := by
  simpa [le] using UInt64.le_total x.weight y.weight

theorem le_trans {x y z : Derivation} (one : x.le y = true) (two : y.le z = true) : x.le z = true := by
  exact decide_eq_true (UInt64.le_trans (of_decide_eq_true one) (of_decide_eq_true two))

theorem join_left {x x' : Derivation} (y : Derivation) (below : x.le x' = true) :
    (x.join y).le (x'.join y) = true := by
  exact decide_eq_true (Weight.plus_mono (of_decide_eq_true below) (UInt64.le_refl _))

theorem join_right (x : Derivation) {y y' : Derivation} (below : y.le y' = true) :
    (x.join y).le (x.join y') = true := by
  exact decide_eq_true (Weight.plus_mono (UInt64.le_refl _) (of_decide_eq_true below))

theorem heavier_mono (weight : Weight) {x y : Derivation} (below : x.le y = true) :
    (heavier weight x).le (heavier weight y) = true := by
  exact decide_eq_true (Weight.plus_mono (of_decide_eq_true below) (UInt64.le_refl _))

end Derivation

def Tree.entry (grammar : Grammar) (tree : Tree) : Derivation := ⟨.stopped (tree.weight grammar), tree.tokens⟩

def Forest.entry (grammar : Grammar) (forest : Forest) : Derivation :=
  ⟨.stopped (forest.weight grammar), forest.tokens⟩

namespace Grammar
variable {grammar : Grammar}

theorem entry_cons (tree : Tree) (rest : Forest) :
    Forest.entry grammar (.cons tree rest) = (tree.entry grammar).join (rest.entry grammar) := by
  simp only [Forest.entry, Tree.entry, Derivation.join, Weight.plus_stopped, Forest.weight, Forest.tokens]

theorem entry_only (tree : Tree) : Forest.entry grammar (.cons tree .nil) = tree.entry grammar := by
  simp only [Forest.entry, Tree.entry, Forest.weight, Forest.tokens, Nat.add_zero, List.append_nil]

theorem entry_node {place : Nat} {rule : Rule} (listed : grammar.rules[place]? = some rule) (children : Forest) :
    Tree.entry grammar (.node place children) = Derivation.heavier rule.weight (children.entry grammar) := by
  simp only [Tree.entry, Forest.entry, Derivation.heavier, Tree.weight, Tree.tokens, listed, Option.elim_some]
  rw [← Weight.stopped_toNat rule.weight, Weight.plus_stopped, Weight.stopped_toNat, Nat.add_comm]

theorem symbolFlow_sorts {nested : String → Derivations} {trees : String → List Tree}
    (sorts : ∀ symbol, (nested symbol).Sorts Derivation.le ((trees symbol).map (Tree.entry grammar)))
    (symbol : String) : (symbolFlow grammar.index nested symbol).Sorts Derivation.le
      ((grammar.symbolTrees trees symbol).map (Tree.entry grammar)) := by
  rw [symbolFlow, symbolTrees, isSome_lookup]
  split
  · exact sorts symbol
  · exact ⟨_, Flow.single_gives _, .refl _, List.pairwise_singleton _ _⟩

theorem sequenceFlow_sorts {symbol : String → Derivations} {trees : String → List Tree}
    (sorts : ∀ name, (symbol name).Sorts Derivation.le ((trees name).map (Tree.entry grammar)))
    (symbols : List String) : (sequenceFlow symbol symbols).Sorts Derivation.le
      ((sequenceTrees trees symbols).map (Forest.entry grammar)) := by
  induction symbols with
  | nil => exact ⟨_, Flow.single_gives _, .refl _, List.pairwise_singleton _ _⟩
  | cons first rest ih =>
    cases rest with
    | nil =>
      have alone : (sequenceTrees trees [first]).map (Forest.entry grammar) =
          (trees first).map (Tree.entry grammar) := by
        simp only [sequenceTrees, List.map_cons, List.map_nil, List.map_flatMap, entry_only]
        exact List.map_eq_flatMap.symm
      rw [alone]
      exact sorts first
    | cons next rest =>
      have grid : (sequenceTrees trees (first :: next :: rest)).map (Forest.entry grammar) =
          Grid.joins Derivation.join ((trees first).map (Tree.entry grammar))
            ((sequenceTrees trees (next :: rest)).map (Forest.entry grammar)) := by
        rw [Grid.joins, List.flatMap_map, sequenceTrees, List.map_flatMap]
        simp only [List.map_map, Function.comp_def, entry_cons]
      rw [grid]
      exact Flow.paired_sorts Derivation.le_total Derivation.le_trans Derivation.join_left Derivation.join_right
        (sorts first) ih

theorem ruleFlow_sorts {symbol : String → Derivations} {trees : String → List Tree}
    (sorts : ∀ name, (symbol name).Sorts Derivation.le ((trees name).map (Tree.entry grammar)))
    {listed : Rule × Nat} (here : grammar.rules[listed.2]? = some listed.1) :
    (ruleFlow symbol listed.1).Sorts Derivation.le ((ruleTrees trees listed).map (Tree.entry grammar)) := by
  have heavier : (ruleTrees trees listed).map (Tree.entry grammar) =
      ((sequenceTrees trees listed.1.symbols).map (Forest.entry grammar)).map
        (Derivation.heavier listed.1.weight) := by
    simp only [ruleTrees, List.map_map, Function.comp_def, entry_node here]
  rw [heavier]
  exact Flow.mapped_sorts (Derivation.heavier_mono _) (sequenceFlow_sorts sorts _)

theorem map_placesOf (grammar : Grammar) (name : String) : (grammar.placesOf name).map Prod.fst = grammar.rulesOf name := by
  conv_rhs => rw [rulesOf, ← List.zipIdx_map_fst 0 grammar.rules, List.filter_map]
  rfl

theorem rulesFlow_sorts {symbol : String → Derivations} {trees : String → List Tree}
    (sorts : ∀ name, (symbol name).Sorts Derivation.le ((trees name).map (Tree.entry grammar))) (name : String) :
    (rulesFlow symbol ((grammar.index.lookup name).getD #[]).toList).Sorts Derivation.le
      ((grammar.rulesTrees trees name).map (Tree.entry grammar)) := by
  rw [lookup_rulesOf, rulesFlow, ← map_placesOf, List.map_map, rulesTrees, List.map_flatMap]
  exact Flow.mergedAll_sorts Derivation.le_total Derivation.le_trans
    fun listed among => ruleFlow_sorts sorts (mem_placesOf.mp among).1

theorem flow_sorts (grammar : Grammar) (depth : Nat) (name : String) :
    (flow grammar.index depth name).Sorts Derivation.le
      ((grammar.trees depth name).map (Tree.entry grammar)) := by
  induction depth generalizing name with
  | zero =>
    exact rulesFlow_sorts (symbolFlow_sorts fun _ => ⟨[], Flow.empty_gives, .nil, .nil⟩) name
  | succ depth ih =>
    have nested : ∀ symbol, Flow.Sorts Derivation.le
        (.deferred ⟨fun _ => flow grammar.index depth symbol⟩)
        ((grammar.trees depth symbol).map (Tree.entry grammar)) := fun symbol => Flow.deferred_sorts (ih symbol)
    exact rulesFlow_sorts (symbolFlow_sorts nested) name

-- The stream of a nonterminal is drained after finitely many rounds. It has given one entry for each
-- derivation tree up to the depth, lightest first, and an enumeration is the front of these entries.
theorem enumerates_the_trees (grammar : Grammar) (name : String) (depth : Nat)
    (valid : grammar.validate = .ok ()) (defined : grammar.defines name = true) :
    ∃ (trees : List Tree) (flow : Derivations) (entries : List Derivation),
      trees.Nodup ∧
      (∀ tree, tree ∈ trees ↔ Tree.Of grammar name tree ∧ tree.levels ≤ depth + 1) ∧
      grammar.derivations name depth = .ok flow ∧
      (∀ limit, entries.length < limit → ∃ later after,
        Session.drain flow.machine limit 0 [] 0 flow.state () = (.ok ⟨entries, .ended, 0⟩, later, after)) ∧
      entries.Perm (trees.map (Tree.entry grammar)) ∧
      entries.Pairwise (fun x y => x.weight ≤ y.weight) ∧
      ∀ limit, grammar.enumerate (some name) limit depth = .ok (entries.take limit) := by
  obtain ⟨entries, gives, perm, sorted⟩ := flow_sorts grammar depth name
  obtain ⟨distinct, all⟩ := trees_lists grammar depth defined
  have stream := derivations_of_defines defined depth
  refine ⟨grammar.trees depth name, _, entries, distinct, all, stream, fun limit room => ?_, perm, ?_, fun limit => ?_⟩
  · exact Flow.gives_drained gives room ()
  · exact sorted.imp of_decide_eq_true
  · obtain ⟨ending, later, after, taken, going⟩ := Flow.gives_taken gives limit ()
    rw [enumerate, valid]
    simp only [Option.getD_some, stream, taken]
    cases ending with
    | pending => exact absurd rfl going
    | limit => rfl
    | ended => rfl

def unitCycle : Grammar := ⟨"S", [⟨"S", 1, ["S"]⟩, ⟨"S", 2, ["a"]⟩]⟩

theorem unitCycle_enumerates : unitCycle.validate = .ok () ∧ unitCycle.defines "S" = true ∧
    ∃ (trees : List Tree) (entries : List Derivation),
      (∀ tree, tree ∈ trees ↔ Tree.Of unitCycle "S" tree ∧ tree.levels ≤ 3 + 1) ∧
      entries.Perm (trees.map (Tree.entry unitCycle)) ∧
      unitCycle.enumerate (some "S") 2 3 = .ok (entries.take 2) := by
  have valid : unitCycle.validate = .ok () := by decide +kernel
  have defined : unitCycle.defines "S" = true := by decide +kernel
  obtain ⟨trees, _, entries, _, all, _, _, perm, _, enumerated⟩ :=
    enumerates_the_trees unitCycle "S" 3 valid defined
  exact ⟨valid, defined, trees, entries, all, perm, enumerated 2⟩

end Grammar
end LightestFirst
