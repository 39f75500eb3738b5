import LightestFirst.Proofs.Texts
import LightestFirst.Proofs.Derivations.Depth
-- The alphabet of a grammar. A symbol is a terminal or it heads a group of rules, never both; the summary
-- of a grammar and the enumeration of its derivations tell the two apart alike.
namespace LightestFirst

-- A leaf is no nonterminal, and it is the root itself or a symbol of some rule.
mutual
theorem Tree.Of.tokens {grammar : Grammar} {symbol : String} {tree : Tree} : Tree.Of grammar symbol tree →
    ∀ token ∈ tree.tokens, ¬ grammar.Names token ∧
      (token = symbol ∨ ∃ rule ∈ grammar.rules, token ∈ rule.symbols)
  | .leaf terminal => by
    intro token among
    rw [Tree.tokens, List.mem_singleton] at among
    subst among
    refine ⟨fun named => ?_, .inl rfl⟩
    rw [Grammar.names_iff.mp named] at terminal
    cases terminal
  | .node listed under => by
    intro token among
    rw [Tree.tokens] at among
    obtain ⟨unnamed, here | inside⟩ := under.tokens token among
    · exact ⟨unnamed, .inr ⟨_, List.mem_of_getElem? listed, here⟩⟩
    · exact ⟨unnamed, .inr inside⟩
theorem Forest.Of.tokens {grammar : Grammar} {symbols : List String} {forest : Forest} :
    Forest.Of grammar symbols forest → ∀ token ∈ forest.tokens, ¬ grammar.Names token ∧
      (token ∈ symbols ∨ ∃ rule ∈ grammar.rules, token ∈ rule.symbols)
  | .nil => by
    intro token among
    rw [Forest.tokens] at among
    cases among
  | .cons first others => by
    intro token among
    rw [Forest.tokens, List.mem_append] at among
    rcases among with here | behind
    · obtain ⟨unnamed, rfl | inside⟩ := first.tokens token here
      · exact ⟨unnamed, .inl List.mem_cons_self⟩
      · exact ⟨unnamed, .inr inside⟩
    · obtain ⟨unnamed, later | inside⟩ := others.tokens token behind
      · exact ⟨unnamed, .inl (List.mem_cons_of_mem _ later)⟩
      · exact ⟨unnamed, .inr inside⟩
end

namespace Grammar
variable {grammar : Grammar} {name : String}

theorem ordered_tokens {depth : Nat} {derivation : Derivation} (named : grammar.Names name)
    (among : derivation ∈ grammar.ordered depth name) : ∀ token ∈ derivation.tokens, token ∈ grammar.terminals := by
  intro token read
  obtain ⟨tree, listed, rfl⟩ := List.mem_map.mp ((ordered_entries grammar depth name).mem_iff.mp among)
  obtain ⟨of, -⟩ := ((trees_lists grammar depth (names_iff.mp named)).2 tree).mp listed
  obtain ⟨unnamed, rfl | inside⟩ := of.tokens token read
  · exact absurd named unnamed
  · exact mem_terminals.mpr ⟨inside, unnamed⟩

theorem mem_keys : name ∈ grammar.alternatives.map (·.1) ↔ grammar.Names name := by
  rw [names_alternatives, names_iff, ← isSome_lookup, Option.isSome_iff_ne_none, Ne, Index.lookup_eq_none, not_not]

theorem group_eq {group : List Rule} (among : (name, group) ∈ grammar.alternatives) : group = grammar.rulesOf name := by
  rw [← lookup_rulesOf, mem_alternatives among, Option.getD_some]

theorem keys_ascend (grammar : Grammar) : (grammar.alternatives.map (·.1)).Pairwise (· < ·) := by
  rw [names_alternatives]
  exact index_ascends grammar

theorem groups_perm {names : List String} (distinct : names.Nodup) {rules : List Rule}
    (covered : ∀ rule ∈ rules, rule.name ∈ names) :
    (names.flatMap fun name => rules.filter (·.name = name)).Perm rules := by
  induction names generalizing rules with
  | nil =>
    cases rules with
    | nil => exact .nil
    | cons rule rules => cases covered rule List.mem_cons_self
  | cons name names ih =>
    obtain ⟨fresh, distinct⟩ := List.nodup_cons.mp distinct
    have others : ∀ rule ∈ rules.filter (fun rule => !decide (rule.name = name)), rule.name ∈ names := by
      intro rule among
      obtain ⟨listed, different⟩ := List.mem_filter.mp among
      exact (List.mem_cons.mp (covered rule listed)).resolve_left (by simpa using different)
    have rest : (names.flatMap fun other => rules.filter (·.name = other)) =
        names.flatMap fun other => (rules.filter fun rule => !decide (rule.name = name)).filter (·.name = other) := by
      refine List.flatMap_congr fun other among => ?_
      rw [List.filter_filter]
      refine List.filter_congr fun rule _ => ?_
      by_cases same : rule.name = other
      · subst same
        simp [show rule.name ≠ name from fun eq => fresh (eq ▸ among)]
      · simp [same]
    rw [List.flatMap_cons, rest]
    exact ((ih distinct others).append_left _).trans (List.filter_append_perm _ rules)

theorem alternatives_partition (grammar : Grammar) : (grammar.alternatives.flatMap (·.2)).Perm grammar.rules := by
  have groups : grammar.alternatives.flatMap (·.2) = (grammar.alternatives.map (·.1)).flatMap grammar.rulesOf := by
    rw [List.flatMap_map]
    exact List.flatMap_congr fun entry among => group_eq among
  rw [groups]
  refine groups_perm ?_ fun rule listed => mem_keys.mpr ⟨rule, listed, rfl⟩
  exact (keys_ascend grammar).imp ne_of_lt

theorem terminals_ascend (grammar : Grammar) : grammar.terminals.Pairwise (· < ·) :=
  Text.sortedDistinct_ascends _

-- What a grammar is said to consist of, and that its derivations consist of just that.
theorem alphabet_of_summary_and_derivations (grammar : Grammar) (valid : grammar.validate = .ok ()) :
    grammar.terminals.Pairwise (fun x y => Text.bytes x < Text.bytes y) ∧
    (∀ symbol, symbol ∈ grammar.terminals ↔ (∃ rule ∈ grammar.rules, symbol ∈ rule.symbols) ∧
      ∀ rule ∈ grammar.rules, rule.name ≠ symbol) ∧
    (grammar.alternatives.map (·.1)).Pairwise (fun x y => Text.bytes x < Text.bytes y) ∧
    (∀ name, name ∈ grammar.alternatives.map (·.1) ↔ ∃ rule ∈ grammar.rules, rule.name = name) ∧
    (∀ name group, (name, group) ∈ grammar.alternatives → group = grammar.rules.filter (·.name = name)) ∧
    (∀ symbol, (grammar.index.lookup symbol).isSome = true ↔ ∃ rule ∈ grammar.rules, rule.name = symbol) ∧
    (grammar.alternatives.flatMap (·.2)).Perm grammar.rules ∧
    (∀ rule ∈ grammar.rules, ∀ symbol ∈ rule.symbols,
      (symbol ∈ grammar.terminals ↔ symbol ∉ grammar.alternatives.map (·.1))) ∧
    ∀ (start : Option String) (limit depth : Nat), grammar.defines (start.getD grammar.start) = true →
      ∃ derivations, grammar.enumerate start limit depth = .ok derivations ∧
        ∀ derivation ∈ derivations, ∀ token ∈ derivation.tokens, token ∈ grammar.terminals := by
  have sound := validate_eq_ok.mp valid
  have unnamed {symbol : String} : ¬ grammar.Names symbol ↔ ∀ rule ∈ grammar.rules, rule.name ≠ symbol := by
    simp only [Names, not_exists, not_and, ne_eq]
  refine ⟨(terminals_ascend grammar).imp Text.bytes_lt, fun symbol => ?_, ?_, fun _ => mem_keys, fun _ _ => group_eq,
    fun symbol => ?_, alternatives_partition grammar, fun rule listed symbol among => ?_, fun start limit depth defined => ?_⟩
  · rw [mem_terminals, unnamed]
  · exact (keys_ascend grammar).imp Text.bytes_lt
  · rw [isSome_lookup]
    exact defines_iff
  · rw [mem_terminals, mem_keys]
    exact and_iff_right ⟨rule, listed, among⟩
  · have named := names_iff.mpr defined
    refine ⟨_, enumerate_sound sound named limit depth, fun derivation among => ?_⟩
    exact ordered_tokens named (List.mem_of_mem_take among)

def mixedScript : Grammar :=
  ⟨"Σ", [⟨"Σ", 1, ["z", "é", "T"]⟩, ⟨"T", 2, ["語"]⟩, ⟨"Σ", 1, ["z", "Σ"]⟩, ⟨"T", 0, ["é"]⟩]⟩

theorem mixedScript_alphabet : mixedScript.validate = .ok () ∧ mixedScript.defines "T" = true ∧
    mixedScript.terminals = ["z", "é", "語"] ∧
    mixedScript.terminals.Pairwise (fun x y => Text.bytes x < Text.bytes y) ∧
    (∀ name group, (name, group) ∈ mixedScript.alternatives → group = mixedScript.rules.filter (·.name = name)) ∧
    ∃ derivations, mixedScript.enumerate (some "T") 4 2 = .ok derivations ∧
      ∀ derivation ∈ derivations, ∀ token ∈ derivation.tokens, token ∈ mixedScript.terminals := by
  have valid : mixedScript.validate = .ok () := by decide +kernel
  have defined : mixedScript.defines "T" = true := by decide +kernel
  have terminals : mixedScript.terminals = ["z", "é", "語"] := by cbv
  obtain ⟨ascends, -, -, -, groups, -, -, -, derived⟩ := alphabet_of_summary_and_derivations mixedScript valid
  exact ⟨valid, defined, terminals, ascends, groups, derived (some "T") 4 2 defined⟩

end Grammar
end LightestFirst
