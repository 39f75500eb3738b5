import Mathlib.Data.String.Basic
import LightestFirst.Grammar.Enumeration
-- The index of a grammar, made by going through its rules once: under each of their names stand the rules of
-- that name, in the order of the file.
namespace LightestFirst
namespace Grammar

def rulesOf (grammar : Grammar) (name : String) : List Rule := grammar.rules.filter (·.name = name)

namespace Index
variable {index : Index} {name : String}

def names (index : Index) : List String := index.map (·.1)

def Ascends (index : Index) : Prop := index.names.Pairwise (· < ·)

theorem lookup_cons (other : String) (group : Array Rule) :
    List.lookup name ((other, group) :: index) = if name = other then some group else index.lookup name := by
  rw [List.lookup_cons]
  by_cases same : name = other
  · rw [if_pos same, beq_iff_eq.mpr same]
  · rw [if_neg same, beq_eq_false_iff_ne.mpr same]

theorem lookup_eq_none : index.lookup name = none ↔ name ∉ index.names := by
  rw [List.lookup_eq_none_iff, names, List.mem_map, not_exists]
  refine forall_congr' fun entry => ?_
  rw [not_and, bne_iff_ne, ne_comm]

theorem lookup_of_mem {group : Array Rule} (ascends : index.Ascends) (among : (name, group) ∈ index) :
    index.lookup name = some group := by
  induction index with
  | nil => cases among
  | cons entry rest ih =>
    obtain ⟨least, behind⟩ := List.pairwise_cons.mp ascends
    rw [lookup_cons]
    rcases List.mem_cons.mp among with rfl | later
    · rw [if_pos rfl]
    · rw [if_neg (ne_of_gt (least name (List.mem_map_of_mem later))), ih behind later]

theorem nil_ascends : Ascends [] := .nil

theorem mem_insert {rule : Rule} : name ∈ (index.insert rule).names ↔ name = rule.name ∨ name ∈ index.names := by
  induction index with
  | nil => simp [insert, names]
  | cons entry rest ih =>
    obtain ⟨other, group⟩ := entry
    simp only [names, List.map_cons, List.mem_cons] at ih ⊢
    rw [insert]
    split
    · next same => simp [same]
    · split
      · simp
      · rw [List.map_cons, List.mem_cons, ih]
        exact or_left_comm

theorem insert_ascends {rule : Rule} (ascends : index.Ascends) : (index.insert rule).Ascends := by
  induction index with
  | nil => exact List.pairwise_singleton _ _
  | cons entry rest ih =>
    obtain ⟨other, group⟩ := entry
    obtain ⟨least, behind⟩ := List.pairwise_cons.mp ascends
    rw [insert]
    split
    · exact ascends
    · next different =>
      split
      · next below =>
        refine List.pairwise_cons.mpr ⟨fun name among => ?_, ascends⟩
        rcases List.mem_cons.mp among with rfl | later
        · exact below
        · exact below.trans (least name later)
      · next above =>
        refine List.pairwise_cons.mpr ⟨fun name among => ?_, ih behind⟩
        rcases mem_insert.mp among with rfl | later
        · exact lt_of_le_of_ne (not_lt.mp above) (Ne.symm different)
        · exact least name later

-- Only the group of the rule's own name is another one, and where the names ascend there is one such group.
theorem lookup_insert {rule : Rule} (ascends : index.Ascends) (name : String) :
    (index.insert rule).lookup name =
      if name = rule.name then some (((index.lookup name).getD #[]).push rule) else index.lookup name := by
  induction index with
  | nil => rw [insert, lookup_cons]; rfl
  | cons entry rest ih =>
    obtain ⟨other, group⟩ := entry
    obtain ⟨least, behind⟩ := List.pairwise_cons.mp ascends
    rw [insert]
    split
    · next same =>
      subst same
      rw [lookup_cons, lookup_cons]
      split
      · rfl
      · rfl
    · next different =>
      split
      · next below =>
        rw [lookup_cons]
        split
        · next same =>
          have missing : rule.name ∉ names ((other, group) :: rest) := by
            intro among
            rcases List.mem_cons.mp among with first | later
            · exact different first
            · exact lt_asymm below (least _ later)
          rw [same, lookup_eq_none.mpr missing]
          rfl
        · rfl
      · rw [lookup_cons, ih behind, lookup_cons]
        by_cases same : name = other
        · rw [if_pos same, if_pos same, if_neg fun own => different (own.symm.trans same)]
        · rw [if_neg same, if_neg same]

theorem insert_all_ascends {rules : List Rule} (ascends : index.Ascends) : Ascends (rules.foldl insert index) := by
  induction rules generalizing index with
  | nil => exact ascends
  | cons rule rules ih => exact ih (insert_ascends ascends)

theorem lookup_insert_all {rules : List Rule} (ascends : index.Ascends) (name : String) :
    List.lookup name (rules.foldl insert index) =
      if rules.any (·.name = name) then some ((index.lookup name).getD #[] ++ rules.filter (·.name = name))
      else index.lookup name := by
  induction rules generalizing index with
  | nil => rfl
  | cons rule rules ih =>
    rw [List.foldl_cons, ih (insert_ascends ascends), lookup_insert ascends, List.any_cons, List.filter_cons]
    by_cases own : rule.name = name
    · rw [if_pos own.symm, Option.getD_some]
      split
      · simp [own]
      · next last =>
        have nothing : rules.filter (·.name = name) = [] := by simpa using last
        simp [own, nothing]
    · have other : name ≠ rule.name := Ne.symm own
      simp [own, other]

end Index

theorem index_ascends (grammar : Grammar) : Index.Ascends grammar.index :=
  Index.insert_all_ascends Index.nil_ascends

theorem lookup_index (grammar : Grammar) (name : String) :
    grammar.index.lookup name = if grammar.defines name then some (grammar.rulesOf name).toArray else none := by
  rw [index, Index.lookup_insert_all Index.nil_ascends name]
  simp [defines, rulesOf]

theorem isSome_lookup (grammar : Grammar) (name : String) :
    (grammar.index.lookup name).isSome = grammar.defines name := by
  rw [lookup_index]
  cases grammar.defines name with
  | true => rfl
  | false => rfl

theorem lookup_rulesOf (grammar : Grammar) (name : String) :
    ((grammar.index.lookup name).getD #[]).toList = grammar.rulesOf name := by
  rw [lookup_index]
  split
  · rfl
  · next undefined =>
    rw [rulesOf, List.filter_eq_nil_iff.mpr]
    · rfl
    · intro rule listed named
      exact undefined (List.any_eq_true.mpr ⟨rule, listed, named⟩)

theorem derivations_of_defines {grammar : Grammar} {name : String} (defined : grammar.defines name = true) (depth : Nat) :
    grammar.derivations name depth = .ok (flow grammar.index depth name) := by
  rw [derivations, lookup_index, if_pos defined]

theorem names_alternatives (grammar : Grammar) : grammar.alternatives.map (·.1) = Index.names grammar.index := by
  rw [alternatives, List.map_map]
  rfl

theorem mem_alternatives {grammar : Grammar} {name : String} {group : List Rule}
    (among : (name, group) ∈ grammar.alternatives) : grammar.index.lookup name = some group.toArray := by
  obtain ⟨⟨_, rules⟩, listed, same⟩ := List.mem_map.mp among
  cases same
  rw [Index.lookup_of_mem (index_ascends grammar) listed, Array.toArray_toList]

end Grammar
end LightestFirst
