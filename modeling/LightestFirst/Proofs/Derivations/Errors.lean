import LightestFirst.CommandLine.Execution
import LightestFirst.Proofs.Derivations.TieOrder
-- What keeps a grammar from being enumerated, and that nothing else does: the rules are gone through in the
-- order of the file, then come the grammar's own start and the start that was asked for.
namespace LightestFirst

-- A rule to enumerate with: there is more than blanks in its name, and no symbol is empty.
def Rule.Named (rule : Rule) : Prop := ∃ c ∈ rule.name.toList, Text.isBlank c = false

def Rule.Sound (rule : Rule) : Prop := rule.Named ∧ "" ∉ rule.symbols

namespace Grammar
variable {grammar : Grammar}

def Names (grammar : Grammar) (name : String) : Prop := ∃ rule ∈ grammar.rules, rule.name = name

structure Sound (grammar : Grammar) : Prop where
  some_rule : grammar.rules ≠ []
  rules : ∀ rule ∈ grammar.rules, rule.Sound
  start : grammar.Names grammar.start

-- The one reason for which an enumeration from the given start is refused. Of two unsound rules the
-- earlier one is told, and of a rule unsound in both ways its name.
inductive Refused (grammar : Grammar) (start : Option String) : GrammarError → Prop where
  | noRules (nothing : grammar.rules = []) : Refused grammar start .noRules
  | emptyName {before after : List Rule} {rule : Rule} (listed : grammar.rules = before ++ rule :: after)
      (earlier : ∀ other ∈ before, other.Sound) (unnamed : ¬ rule.Named) :
      Refused grammar start (.emptyName (before.length + 1))
  | emptySymbol {before after : List Rule} {rule : Rule} (listed : grammar.rules = before ++ rule :: after)
      (earlier : ∀ other ∈ before, other.Sound) (named : rule.Named) (blank : "" ∈ rule.symbols) :
      Refused grammar start (.emptySymbol rule.name)
  | ownStart (some_rule : grammar.rules ≠ []) (rules : ∀ rule ∈ grammar.rules, rule.Sound)
      (unnamed : ¬ grammar.Names grammar.start) : Refused grammar start (.unknownNonterminal grammar.start)
  | requestedStart {name : String} (sound : grammar.Sound) (asked : start = some name)
      (unnamed : ¬ grammar.Names name) : Refused grammar start (.unknownNonterminal name)

end Grammar

namespace Rule
variable {position : Nat} {rule : Rule} {rules : List Rule} {flaw : GrammarError}

theorem named_iff : rule.Named ↔ Text.allBlank rule.name = false := by
  simp [Named, Text.allBlank]

theorem flaw?_eq_none : rule.flaw? position = none ↔ rule.Sound := by
  rw [flaw?, Sound, named_iff]
  cases Text.allBlank rule.name with
  | true => simp
  | false => simp

theorem flaw?_eq_some : rule.flaw? position = some flaw ↔
    (¬ rule.Named ∧ flaw = .emptyName position) ∨
      (rule.Named ∧ "" ∈ rule.symbols ∧ flaw = .emptySymbol rule.name) := by
  rw [flaw?, named_iff]
  cases Text.allBlank rule.name with
  | true => simp [eq_comm (a := flaw)]
  | false => simp [eq_comm (a := flaw)]

theorem firstFlaw?_eq_none : firstFlaw? position rules = none ↔ ∀ rule ∈ rules, rule.Sound := by
  induction rules generalizing position with
  | nil => simp [firstFlaw?]
  | cons rule rest ih => rw [firstFlaw?, Option.or_eq_none_iff, flaw?_eq_none, ih, List.forall_mem_cons]

theorem firstFlaw?_eq_some : firstFlaw? position rules = some flaw ↔
    ∃ before rule after, rules = before ++ rule :: after ∧ (∀ other ∈ before, other.Sound) ∧
      rule.flaw? (position + before.length) = some flaw := by
  induction rules generalizing position with
  | nil => simp [firstFlaw?]
  | cons rule rest ih =>
    rw [firstFlaw?, Option.or_eq_some_iff, flaw?_eq_none, ih]
    constructor
    · rintro (found | ⟨sound, before, other, after, rfl, earlier, found⟩)
      · exact ⟨[], rule, rest, rfl, nofun, found⟩
      · refine ⟨rule :: before, other, after, rfl, List.forall_mem_cons.mpr ⟨sound, earlier⟩, ?_⟩
        rwa [List.length_cons, Nat.add_comm before.length, ← Nat.add_assoc]
    · rintro ⟨before, other, after, split, earlier, found⟩
      cases before with
      | nil =>
        cases split
        exact .inl found
      | cons first before =>
        cases split
        obtain ⟨sound, earlier⟩ := List.forall_mem_cons.mp earlier
        rw [List.length_cons, Nat.add_comm before.length, ← Nat.add_assoc] at found
        exact .inr ⟨sound, before, other, after, rfl, earlier, found⟩

end Rule

namespace Grammar
variable {grammar : Grammar} {start : Option String} {error : GrammarError}

theorem names_iff {name : String} : grammar.Names name ↔ grammar.defines name = true := defines_iff.symm

theorem flaw?_eq_none : grammar.flaw? = none ↔ grammar.Sound := by
  constructor
  · intro clean
    rw [flaw?] at clean
    split at clean
    · cases clean
    · next some_rule =>
      split at clean
      · cases clean
      · next unflawed =>
        split at clean
        · next own =>
          exact ⟨fun nothing => some_rule (by rw [nothing]; rfl), Rule.firstFlaw?_eq_none.mp unflawed, names_iff.mpr own⟩
        · cases clean
  · intro sound
    rw [flaw?, if_neg (by simpa using sound.some_rule), Rule.firstFlaw?_eq_none.mpr sound.rules]
    exact if_pos (names_iff.mp sound.start)

theorem flaw?_eq_some : grammar.flaw? = some error ↔ grammar.Refused none error := by
  constructor
  · intro flawed
    rw [flaw?] at flawed
    split at flawed
    · next nothing =>
      cases flawed
      exact .noRules (List.isEmpty_iff.mp nothing)
    · next some_rule =>
      split at flawed
      · next found =>
        cases flawed
        obtain ⟨before, rule, after, listed, earlier, found⟩ := Rule.firstFlaw?_eq_some.mp found
        rw [Nat.add_comm] at found
        obtain ⟨unnamed, rfl⟩ | ⟨named, blank, rfl⟩ := Rule.flaw?_eq_some.mp found
        · exact .emptyName listed earlier unnamed
        · exact .emptySymbol listed earlier named blank
      · next unflawed =>
        split at flawed
        · cases flawed
        · next undefined =>
          cases flawed
          have unnamed : ¬ grammar.Names grammar.start := fun named => undefined (names_iff.mp named)
          exact .ownStart (fun nothing => some_rule (by rw [nothing]; rfl)) (Rule.firstFlaw?_eq_none.mp unflawed) unnamed
  · intro refused
    have found {before after : List Rule} {rule : Rule} (listed : grammar.rules = before ++ rule :: after)
        (earlier : ∀ other ∈ before, other.Sound) (flawed : rule.flaw? (before.length + 1) = some error) :
        grammar.flaw? = some error := by
      rw [Nat.add_comm] at flawed
      rw [flaw?, if_neg (by rw [listed]; simp), Rule.firstFlaw?_eq_some.mpr ⟨before, rule, after, listed, earlier, flawed⟩]
    cases refused with
    | noRules nothing => rw [flaw?, nothing]; rfl
    | emptyName listed earlier unnamed => exact found listed earlier (Rule.flaw?_eq_some.mpr (.inl ⟨unnamed, rfl⟩))
    | emptySymbol listed earlier named blank =>
      exact found listed earlier (Rule.flaw?_eq_some.mpr (.inr ⟨named, blank, rfl⟩))
    | ownStart some_rule rules unnamed =>
      rw [flaw?, if_neg (by simpa using some_rule), Rule.firstFlaw?_eq_none.mpr rules]
      exact if_neg fun own => unnamed (names_iff.mpr own)
    | requestedStart _ asked => cases asked

theorem validate_eq_ok : grammar.validate = .ok () ↔ grammar.Sound := by
  rw [← flaw?_eq_none, validate]
  cases grammar.flaw? <;> simp

theorem validate_eq_error : grammar.validate = .error error ↔ grammar.Refused none error := by
  rw [← flaw?_eq_some, validate]
  cases grammar.flaw? <;> simp

theorem Refused.of_sound (refused : grammar.Refused start error) (sound : grammar.Sound) :
    ∃ name, start = some name ∧ ¬ grammar.Names name ∧ error = .unknownNonterminal name := by
  have apart {before after : List Rule} {rule : Rule} (listed : grammar.rules = before ++ rule :: after) : rule.Sound :=
    sound.rules rule (by rw [listed]; simp)
  cases refused with
  | noRules nothing => exact absurd nothing sound.some_rule
  | emptyName listed _ unnamed => exact absurd (apart listed).1 unnamed
  | emptySymbol listed _ _ blank => exact absurd blank (apart listed).2
  | ownStart _ _ unnamed => exact absurd sound.start unnamed
  | requestedStart _ asked unnamed => exact ⟨_, asked, unnamed, rfl⟩

theorem Refused.of_unsound (refused : grammar.Refused start error) (unsound : ¬ grammar.Sound) (other : Option String) :
    grammar.Refused other error := by
  cases refused with
  | noRules nothing => exact .noRules nothing
  | emptyName listed earlier unnamed => exact .emptyName listed earlier unnamed
  | emptySymbol listed earlier named blank => exact .emptySymbol listed earlier named blank
  | ownStart some_rule rules unnamed => exact .ownStart some_rule rules unnamed
  | requestedStart sound => exact absurd sound unsound

-- The stream of derivations is never pending and breaks no contract, so it can be taken from.
theorem enumerate_sound (sound : grammar.Sound) (named : grammar.Names (start.getD grammar.start)) (limit depth : Nat) :
    grammar.enumerate start limit depth = .ok ((grammar.ordered depth (start.getD grammar.start)).take limit) := by
  obtain ⟨ending, later, after, taken, going⟩ :=
    Flow.gives_taken (flow_follows grammar depth (start.getD grammar.start)).1 limit ()
  rw [enumerate, validate_eq_ok.mpr sound]
  simp only [derivations_of_defines (names_iff.mp named), taken]
  cases ending with
  | pending => exact absurd rfl going
  | limit => rfl
  | ended => rfl

theorem enumerate_unnamed (sound : grammar.Sound) {name : String} (unnamed : ¬ grammar.Names name) (limit depth : Nat) :
    grammar.enumerate (some name) limit depth = .error (.unknownNonterminal name) := by
  rw [enumerate, validate_eq_ok.mpr sound]
  have missing : ¬ grammar.defines name = true := fun defined => unnamed (names_iff.mpr defined)
  simp only [Option.getD_some, derivations, lookup_index, if_neg missing]

theorem enumerate_invalid (refused : grammar.Refused none error) (limit depth : Nat) :
    grammar.enumerate start limit depth = .error error := by
  rw [enumerate, validate_eq_error.mpr refused]

theorem enumerate_eq_error (limit depth : Nat) :
    grammar.enumerate start limit depth = .error error ↔ grammar.Refused start error := by
  by_cases sound : grammar.Sound
  · by_cases named : grammar.Names (start.getD grammar.start)
    · rw [enumerate_sound sound named]
      refine ⟨nofun, fun refused => ?_⟩
      obtain ⟨name, rfl, unnamed, -⟩ := refused.of_sound sound
      exact absurd named unnamed
    · cases start with
      | none => exact absurd sound.start named
      | some name =>
        have refusal : grammar.enumerate (some name) limit depth = .error (.unknownNonterminal name) :=
          enumerate_unnamed sound named limit depth
        rw [refusal]
        constructor
        · rintro ⟨⟩
          exact .requestedStart sound rfl named
        · intro refused
          obtain ⟨other, ⟨⟩, -, rfl⟩ := refused.of_sound sound
          rfl
  · obtain ⟨flaw, flawed⟩ : ∃ flaw, grammar.flaw? = some flaw :=
      Option.ne_none_iff_exists'.mp fun clean => sound (flaw?_eq_none.mp clean)
    have refused := flaw?_eq_some.mp flawed
    constructor
    · intro failed
      rw [enumerate_invalid refused] at failed
      cases failed
      exact refused.of_unsound sound start
    · exact fun other => enumerate_invalid (other.of_unsound sound none) limit depth

theorem enumerate_eq_ok (limit depth : Nat) :
    (∃ derivations, grammar.enumerate start limit depth = .ok derivations) ↔
      grammar.Sound ∧ ∀ name, start = some name → grammar.Names name := by
  constructor
  · rintro ⟨derivations, enumerated⟩
    have sound : grammar.Sound := by
      rw [enumerate] at enumerated
      split at enumerated
      · cases enumerated
      · next valid => exact validate_eq_ok.mp valid
    refine ⟨sound, fun name asked => by_contra fun unnamed => ?_⟩
    rw [(enumerate_eq_error limit depth).mpr (.requestedStart sound asked unnamed)] at enumerated
    cases enumerated
  · rintro ⟨sound, named⟩
    refine ⟨_, enumerate_sound sound ?_ limit depth⟩
    cases start with
    | none => exact sound.start
    | some name => exact named name rfl

-- The errors of an enumeration, for every grammar and all that can be asked of it: it never stalls and no
-- stream in it breaks its contract, and a grammar found valid is enumerated whatever the limit and the depth.
theorem enumeration_errors (grammar : Grammar) (start : Option String) (limit depth : Nat) :
    (∀ error, grammar.enumerate start limit depth = .error error ↔ grammar.Refused start error) ∧
      ((∃ derivations, grammar.enumerate start limit depth = .ok derivations) ↔
        grammar.Sound ∧ ∀ name, start = some name → grammar.Names name) ∧
      (∀ produced, grammar.enumerate start limit depth ≠ .error (.stalled produced)) ∧
      (∀ cause, grammar.enumerate start limit depth ≠ .error (.abandoned cause)) ∧
      (grammar.validate = .ok () ↔ ∃ derivations, grammar.enumerate none limit depth = .ok derivations) := by
  refine ⟨fun error => enumerate_eq_error limit depth, enumerate_eq_ok limit depth, fun produced stalled => ?_,
    fun cause abandoned => ?_, ?_⟩
  · cases (enumerate_eq_error limit depth).mp stalled
  · cases (enumerate_eq_error limit depth).mp abandoned
  · rw [validate_eq_ok, enumerate_eq_ok]
    simp

example : (Grammar.mk "T" [⟨" ", 1, [""]⟩, ⟨"", 1, []⟩]).enumerate (some "U") 3 2 = .error (.emptyName 1) := by
  decide +kernel

end Grammar

theorem Grammar.loadBy_valid {reader : String → Option Grammar} {text : String} {grammar : Grammar}
    (loaded : loadBy reader text = .ok grammar) : grammar.validate = .ok () := by
  rw [loadBy] at loaded
  split at loaded
  · cases loaded
  · split at loaded
    · cases loaded
    · next valid =>
      cases loaded
      exact valid

theorem Invocation.loadGrammar_valid {reader : String → Option Grammar} {contents : Except Failure ByteArray}
    {grammar : Grammar} (loaded : loadGrammar reader contents = .ok grammar) : grammar.validate = .ok () := by
  cases contents with
  | error failure => cases loaded
  | ok bytes =>
    rw [loadGrammar] at loaded
    split at loaded
    · cases loaded
    · exact Grammar.loadBy_valid loaded

theorem Invocation.checked_enumerates (reader : String → Option Grammar) (contents : Except Failure ByteArray)
    (quiet jsonMode : Bool) (file : String) (limit depth : Nat) :
    (∃ text, executeBy reader ⟨quiet, jsonMode, .check file⟩ contents = .ok text) ↔
      ∃ text, executeBy reader ⟨quiet, jsonMode, .enumerate file none limit depth⟩ contents = .ok text := by
  rw [executeBy, executeBy]
  cases loaded : loadGrammar reader contents with
  | error failure => simp
  | ok grammar =>
    have sound : grammar.Sound := Grammar.validate_eq_ok.mp (loadGrammar_valid loaded)
    obtain ⟨derivations, enumerated⟩ :=
      (Grammar.enumerate_eq_ok limit depth).mpr (⟨sound, nofun⟩ : grammar.Sound ∧ ∀ name, none = some name → _)
    simp only [output, enumerated]
    exact ⟨fun _ => ⟨_, rfl⟩, fun _ => ⟨_, rfl⟩⟩

end LightestFirst
