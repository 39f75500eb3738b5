import LightestFirst.Proofs.Derivations.Errors
-- Other grammars with the same derivations: the rules moved about in the file, or the nonterminals renamed.
namespace LightestFirst

def Rule.renamed (exchange : String → String) (rule : Rule) : Rule :=
  ⟨exchange rule.name, rule.weight, rule.symbols.map exchange⟩

theorem Rule.renamed_id (rule : Rule) : rule.renamed id = rule := by
  rw [Rule.renamed, List.map_id, id]

namespace Grammar
variable {grammar other : Grammar} {exchange : String → String} {depth : Nat}

def newName (grammar : Grammar) (rename : String → String) (symbol : String) : String :=
  if grammar.defines symbol then rename symbol else symbol

def renamed (grammar : Grammar) (rename : String → String) : Grammar :=
  ⟨grammar.newName rename grammar.start, grammar.rules.map (Rule.renamed (grammar.newName rename))⟩

def Drains (grammar : Grammar) (name : String) (depth : Nat) (entries : List Derivation) : Prop :=
  ∃ flow, grammar.derivations name depth = .ok flow ∧ ∀ limit, entries.length < limit → ∃ later after,
    Session.drain flow.machine limit 0 [] 0 flow.state () = (.ok ⟨entries, .ended, 0⟩, later, after)

theorem ordered_drains {name : String} (named : grammar.Names name) (depth : Nat) :
    grammar.Drains name depth (grammar.ordered depth name) := by
  refine ⟨_, derivations_of_defines (names_iff.mp named) depth, fun limit room => ?_⟩
  exact Flow.gives_drained (flow_follows grammar depth name).1 room ()

theorem mem_rulesOf {name : String} {rule : Rule} :
    rule ∈ grammar.rulesOf name ↔ rule ∈ grammar.rules ∧ rule.name = name := by
  simp [rulesOf]

theorem names_iff_rulesOf {name : String} : grammar.Names name ↔ grammar.rulesOf name ≠ [] := by
  rw [Names, Ne, List.eq_nil_iff_forall_not_mem, not_forall]
  simp only [mem_rulesOf, not_not]

section Moved
variable (moved : other.rules.Perm grammar.rules)
include moved

theorem names_moved {name : String} : other.Names name ↔ grammar.Names name := by
  simp only [Names, moved.mem_iff]

theorem sound_moved (sound : grammar.Sound) (start : other.start = grammar.start) : other.Sound where
  some_rule nothing := sound.some_rule (nothing ▸ moved).symm.eq_nil
  rules rule listed := sound.rules rule (moved.mem_iff.mp listed)
  start := start ▸ (names_moved moved).mpr sound.start

theorem symbolList_perm {lists lists' : String → List Derivation} (perm : ∀ name, (lists' name).Perm (lists name))
    (symbol : String) : (symbolList other lists' symbol).Perm (symbolList grammar lists symbol) := by
  have same : other.defines symbol = grammar.defines symbol := by
    rw [Bool.eq_iff_iff, ← names_iff, ← names_iff, names_moved moved]
  rw [symbolList, symbolList, same]
  split
  · exact perm symbol
  · exact .refl _

omit moved in
theorem sequenceList_perm {lists lists' : String → List Derivation} (perm : ∀ name, (lists' name).Perm (lists name))
    (symbols : List String) : (sequenceList lists' symbols).Perm (sequenceList lists symbols) := by
  induction symbols with
  | nil => exact .refl _
  | cons first rest ih =>
    cases rest with
    | nil => exact perm first
    | cons next rest =>
      have joins : (Grid.joins Derivation.join (lists' first) (sequenceList lists' (next :: rest))).Perm
          (Grid.joins Derivation.join (lists first) (sequenceList lists (next :: rest))) :=
        (perm first).flatMap fun x _ => ih.map (Derivation.join x)
      exact (List.mergeSort_perm _ _).trans (joins.trans (List.mergeSort_perm _ _).symm)

theorem rulesList_perm {lists lists' : String → List Derivation} (perm : ∀ name, (lists' name).Perm (lists name))
    (name : String) : (rulesList lists' (other.rulesOf name)).Perm (rulesList lists (grammar.rulesOf name)) := by
  have rows : ((other.rulesOf name).flatMap (ruleList lists')).Perm ((grammar.rulesOf name).flatMap (ruleList lists)) :=
    (moved.filter _).flatMap fun rule _ => (sequenceList_perm perm rule.symbols).map _
  exact (List.mergeSort_perm _ _).trans (rows.trans (List.mergeSort_perm _ _).symm)

-- By the depth: what the nested nonterminals derive is exchanged within equals, and so is what is made of it.
theorem ordered_perm (depth : Nat) (name : String) : (other.ordered depth name).Perm (grammar.ordered depth name) := by
  induction depth generalizing name with
  | zero => exact rulesList_perm moved (symbolList_perm moved fun _ => .refl _) name
  | succ depth ih => exact rulesList_perm moved (symbolList_perm moved ih) name

end Moved

theorem ordered_rises (grammar : Grammar) (depth : Nat) (name : String) :
    (grammar.ordered depth name).Pairwise (Derivation.le · · = true) := (flow_follows grammar depth name).2

theorem weights_of_perm {l m : List Derivation} (perm : l.Perm m) (left : l.Pairwise (Derivation.le · · = true))
    (right : m.Pairwise (Derivation.le · · = true)) : l.map (·.weight) = m.map (·.weight) := by
  have first : (l.map (·.weight)).Pairwise (· ≤ ·) := List.pairwise_map.mpr (left.imp of_decide_eq_true)
  have second : (m.map (·.weight)).Pairwise (· ≤ ·) := List.pairwise_map.mpr (right.imp of_decide_eq_true)
  exact List.Perm.eq_of_pairwise (fun _ _ _ _ => UInt64.le_antisymm) first second (perm.map (·.weight))

-- The rules of each nonterminal are those of its counterpart, with their symbols exchanged.
structure Corresponds (grammar other : Grammar) (exchange : String → String) : Prop where
  rules : ∀ name, grammar.Names name →
    other.rulesOf (exchange name) = (grammar.rulesOf name).map (Rule.renamed exchange)
  terminals : ∀ rule ∈ grammar.rules, ∀ symbol ∈ rule.symbols, ¬ grammar.Names symbol →
    exchange symbol = symbol ∧ ¬ other.Names symbol

theorem Corresponds.names (same : Corresponds grammar other exchange) {name : String} (named : grammar.Names name) :
    other.Names (exchange name) := by
  rw [names_iff_rulesOf, same.rules name named, Ne, List.map_eq_nil_iff]
  exact names_iff_rulesOf.mp named

theorem sequenceList_renamed {lists lists' : String → List Derivation} {symbols : List String}
    (agree : ∀ symbol ∈ symbols, lists' (exchange symbol) = lists symbol) :
    sequenceList lists' (symbols.map exchange) = sequenceList lists symbols := by
  induction symbols with
  | nil => rfl
  | cons first rest ih =>
    have here := agree first List.mem_cons_self
    cases rest with
    | nil => exact here
    | cons next rest =>
      have behind := ih fun symbol among => agree symbol (List.mem_cons_of_mem _ among)
      simp only [List.map_cons, sequenceList] at behind ⊢
      rw [here, behind]

theorem rulesList_renamed {lists lists' : String → List Derivation} {rules : List Rule}
    (agree : ∀ rule ∈ rules, ∀ symbol ∈ rule.symbols, lists' (exchange symbol) = lists symbol) :
    rulesList lists' (rules.map (Rule.renamed exchange)) = rulesList lists rules := by
  have rows : rules.flatMap (fun rule => ruleList lists' (rule.renamed exchange)) = rules.flatMap (ruleList lists) := by
    refine List.flatMap_congr fun rule listed => ?_
    rw [ruleList, Rule.renamed, sequenceList_renamed (agree rule listed), ruleList]
  rw [rulesList, List.flatMap_map, rows, rulesList]

theorem Corresponds.symbolList (same : Corresponds grammar other exchange) {lists lists' : String → List Derivation}
    (agree : ∀ name, grammar.Names name → lists' (exchange name) = lists name) {rule : Rule}
    (listed : rule ∈ grammar.rules) {symbol : String} (among : symbol ∈ rule.symbols) :
    symbolList other lists' (exchange symbol) = symbolList grammar lists symbol := by
  rw [Grammar.symbolList, Grammar.symbolList]
  by_cases named : grammar.Names symbol
  · rw [if_pos (names_iff.mp (same.names named)), if_pos (names_iff.mp named), agree symbol named]
  · obtain ⟨kept, unnamed⟩ := same.terminals rule listed symbol among named
    rw [kept, if_neg fun defined => unnamed (names_iff.mpr defined), if_neg fun defined => named (names_iff.mpr defined)]

theorem Corresponds.ordered (same : Corresponds grammar other exchange) (depth : Nat) {name : String}
    (named : grammar.Names name) : other.ordered depth (exchange name) = grammar.ordered depth name := by
  induction depth generalizing name with
  | zero =>
    rw [Grammar.ordered, Grammar.ordered, same.rules name named]
    exact rulesList_renamed fun rule listed symbol among =>
      same.symbolList (fun _ _ => rfl) (mem_rulesOf.mp listed).1 among
  | succ depth ih =>
    rw [Grammar.ordered, Grammar.ordered, same.rules name named]
    exact rulesList_renamed fun rule listed symbol among =>
      same.symbolList (fun _ inner => ih inner) (mem_rulesOf.mp listed).1 among

theorem Corresponds.of_moved (moved : other.rules.Perm grammar.rules)
    (kept : ∀ name, other.rulesOf name = grammar.rulesOf name) : Corresponds grammar other id where
  rules name _ := by
    rw [List.map_congr_left fun rule _ => rule.renamed_id, List.map_id']
    exact kept name
  terminals _ _ _ _ unnamed := ⟨rfl, fun named => unnamed ((names_moved moved).mp named)⟩

-- New names for the nonterminals: different ones, each with more to it than blanks, and none of them a terminal.
structure Renames (grammar : Grammar) (rename : String → String) : Prop where
  injective : ∀ one other, grammar.Names one → grammar.Names other → rename one = rename other → one = other
  named : ∀ name, grammar.Names name → ∃ c ∈ (rename name).toList, Text.isBlank c = false
  apart : ∀ name, grammar.Names name → rename name ∉ grammar.terminals

section Renamed
variable (rename : String → String)

theorem newName_nonterminal {name : String} (named : grammar.Names name) : grammar.newName rename name = rename name :=
  if_pos (names_iff.mp named)

theorem newName_terminal {symbol : String} (unnamed : ¬ grammar.Names symbol) :
    grammar.newName rename symbol = symbol := if_neg fun defined => unnamed (names_iff.mpr defined)

theorem newName_rule {rule : Rule} (listed : rule ∈ grammar.rules) :
    (rule.renamed (grammar.newName rename)).name = rename rule.name := newName_nonterminal rename ⟨rule, listed, rfl⟩

variable {rename}

theorem mem_terminals {symbol : String} : symbol ∈ grammar.terminals ↔
    (∃ rule ∈ grammar.rules, symbol ∈ rule.symbols) ∧ ¬ grammar.Names symbol := by
  simp [terminals, Text.mem_sortedDistinct, names_iff]

theorem names_renamed {name : String} :
    (grammar.renamed rename).Names name ↔ ∃ old, grammar.Names old ∧ rename old = name := by
  constructor
  · rintro ⟨_, image, rfl⟩
    obtain ⟨rule, listed, rfl⟩ := List.mem_map.mp image
    exact ⟨rule.name, ⟨rule, listed, rfl⟩, (newName_rule rename listed).symm⟩
  · rintro ⟨_, ⟨rule, listed, rfl⟩, rfl⟩
    exact ⟨_, List.mem_map_of_mem listed, newName_rule rename listed⟩

theorem Renames.corresponds (renames : grammar.Renames rename) :
    Corresponds grammar (grammar.renamed rename) (grammar.newName rename) where
  rules name named := by
    rw [rulesOf, rulesOf, renamed, List.filter_map]
    refine congrArg _ (List.filter_congr fun rule listed => ?_)
    rw [Function.comp, newName_rule rename listed, newName_nonterminal rename named, decide_eq_decide]
    exact ⟨renames.injective _ _ ⟨rule, listed, rfl⟩ named, congrArg rename⟩
  terminals rule listed symbol among unnamed := by
    refine ⟨newName_terminal rename unnamed, fun named => ?_⟩
    obtain ⟨old, inside, rfl⟩ := names_renamed.mp named
    exact renames.apart old inside (mem_terminals.mpr ⟨⟨rule, listed, among⟩, unnamed⟩)

theorem Renames.sound (renames : grammar.Renames rename) (sound : grammar.Sound) : (grammar.renamed rename).Sound where
  some_rule nothing := sound.some_rule (List.map_eq_nil_iff.mp nothing)
  rules := by
    refine List.forall_mem_map.mpr fun rule listed => ⟨?_, fun blank => ?_⟩
    · rw [Rule.Named, newName_rule rename listed]
      exact renames.named rule.name ⟨rule, listed, rfl⟩
    · obtain ⟨symbol, among, blank⟩ := List.mem_map.mp blank
      by_cases named : grammar.Names symbol
      · obtain ⟨c, here, -⟩ := renames.named symbol named
        rw [← newName_nonterminal rename named, blank] at here
        exact List.not_mem_nil here
      · rw [newName_terminal rename named] at blank
        exact (sound.rules rule listed).2 (blank ▸ among)
  start := names_renamed.mpr ⟨grammar.start, sound.start, (newName_nonterminal rename sound.start).symm⟩

end Renamed

-- What changes of the grammar an enumeration does not show. Ties are told by the order in which a nonterminal
-- has its rules, and by nothing else in the file; the weights not even by that; and names are nowhere told.
theorem rewriting_keeps_enumerations (grammar : Grammar) (start : Option String) (depth : Nat)
    (valid : grammar.validate = .ok ()) (defined : grammar.defines (start.getD grammar.start) = true) :
    (∀ other : Grammar, other.start = grammar.start → other.rules.Perm grammar.rules →
      (∀ name, other.rulesOf name = grammar.rulesOf name) →
      ∀ limit, other.enumerate start limit depth = grammar.enumerate start limit depth) ∧
    (∀ other : Grammar, other.start = grammar.start → other.rules.Perm grammar.rules →
      ∃ entries, grammar.Drains (start.getD grammar.start) depth entries ∧
        ∀ limit, ∃ before after, grammar.enumerate start limit depth = .ok before ∧
          other.enumerate start limit depth = .ok after ∧
          after.map (·.weight) = before.map (·.weight) ∧
          (entries.length ≤ limit → after.Perm before)) ∧
    (∀ rename : String → String, grammar.Renames rename →
      ∀ limit, (grammar.renamed rename).enumerate (start.map rename) limit depth = grammar.enumerate start limit depth) := by
  have sound := validate_eq_ok.mp valid
  have named := names_iff.mpr defined
  have enumerated := enumerate_sound sound named
  have moved_enumerated (other : Grammar) (same : other.start = grammar.start) (moved : other.rules.Perm grammar.rules)
      (limit : Nat) : other.enumerate start limit depth =
        .ok ((other.ordered depth (start.getD grammar.start)).take limit) := by
    have here : other.Names (start.getD other.start) := same ▸ (names_moved moved).mpr named
    rw [enumerate_sound (sound_moved moved sound same) here, same]
  refine ⟨fun other same moved kept limit => ?_, fun other same moved => ?_, fun rename renames limit => ?_⟩
  · have ordered : other.ordered depth (start.getD grammar.start) = grammar.ordered depth (start.getD grammar.start) :=
      (Corresponds.of_moved moved kept).ordered depth named
    rw [enumerated, moved_enumerated other same moved, ordered]
  · have perm := ordered_perm moved depth (start.getD grammar.start)
    refine ⟨_, ordered_drains named depth, fun limit =>
      ⟨_, _, enumerated limit depth, moved_enumerated other same moved limit, ?_, fun all => ?_⟩⟩
    · rw [List.map_take, List.map_take, weights_of_perm perm (ordered_rises _ _ _) (ordered_rises _ _ _)]
    · rwa [List.take_of_length_le (perm.length_eq ▸ all), List.take_of_length_le all]
  · have start_renamed : (start.map rename).getD (grammar.renamed rename).start =
        grammar.newName rename (start.getD grammar.start) := by
      cases start with
      | none => rfl
      | some name => exact (newName_nonterminal rename named).symm
    have here : (grammar.renamed rename).Names ((start.map rename).getD (grammar.renamed rename).start) := by
      rw [start_renamed]
      exact renames.corresponds.names named
    rw [enumerated, enumerate_sound (renames.sound sound) here, start_renamed, renames.corresponds.ordered depth named]

def evenPairs : Grammar := ⟨"S", [⟨"S", 1, ["A", "A"]⟩, ⟨"A", 2, ["a"]⟩, ⟨"A", 2, ["b"]⟩]⟩

def evenPairsMixed : Grammar := ⟨"S", [⟨"A", 2, ["a"]⟩, ⟨"S", 1, ["A", "A"]⟩, ⟨"A", 2, ["b"]⟩]⟩

def evenPairsTurned : Grammar := ⟨"S", [⟨"A", 2, ["b"]⟩, ⟨"S", 1, ["A", "A"]⟩, ⟨"A", 2, ["a"]⟩]⟩

theorem evenPairs_rewritten : evenPairs.validate = .ok () ∧ evenPairs.defines "A" = true ∧
    evenPairsMixed.enumerate (some "A") 5 1 = evenPairs.enumerate (some "A") 5 1 ∧
    (∃ limit before after, evenPairs.enumerate (some "A") limit 1 = .ok before ∧
      evenPairsTurned.enumerate (some "A") limit 1 = .ok after ∧
      after.map (·.weight) = before.map (·.weight) ∧ after.Perm before) ∧
    (evenPairs.renamed ("the " ++ ·)).enumerate (some "the A") 5 1 = evenPairs.enumerate (some "A") 5 1 := by
  have valid : evenPairs.validate = .ok () := by decide +kernel
  have defined : evenPairs.defines "A" = true := by decide +kernel
  obtain ⟨mixed, turned, renamed⟩ := rewriting_keeps_enumerations evenPairs (some "A") 1 valid defined
  refine ⟨valid, defined, mixed evenPairsMixed rfl (by decide +kernel) (fun name => ?_) 5, ?_, ?_⟩
  · by_cases first : "S" = name
    · subst first
      decide +kernel
    · by_cases second : "A" = name
      · subst second
        decide +kernel
      · simp [rulesOf, evenPairs, evenPairsMixed, first, second]
  · obtain ⟨entries, -, enumerated⟩ := turned evenPairsTurned rfl (by decide +kernel)
    obtain ⟨before, after, here, there, weights, perm⟩ := enumerated entries.length
    exact ⟨_, before, after, here, there, weights, perm (Nat.le_refl _)⟩
  · refine renamed ("the " ++ ·) ⟨fun one other _ _ same => ?_, fun name _ => ⟨'t', ?_, by decide⟩, ?_⟩ 5
    · exact String.append_right_inj _ |>.mp same
    · simp
    · rintro name ⟨rule, listed, rfl⟩ terminal
      obtain ⟨inside, -⟩ := mem_terminals.mp terminal
      have nowhere : ∀ rule ∈ evenPairs.rules, ¬ ∃ other ∈ evenPairs.rules, "the " ++ rule.name ∈ other.symbols := by
        decide +kernel
      exact nowhere rule listed inside

end Grammar
end LightestFirst
