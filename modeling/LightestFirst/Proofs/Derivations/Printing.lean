import LightestFirst.Proofs.Derivations.Alphabet
-- What an enumeration prints, and what a reader finds who takes it line by line: the weight up to the first
-- tab, the tokens behind it. Symbols are printed as they are, and a line ends where one of them ends it.
namespace LightestFirst

namespace Text

theorem toList_toString_ne_nil (n : Nat) : (toString n).toList ≠ [] := by
  rw [Nat.toString_eq_ofList_toDigits, String.toList_ofList]
  exact Nat.toDigits_ne_nil

theorem isDigit_of_mem {n : Nat} {c : Char} (among : c ∈ (toString n).toList) : c.isDigit = true := by
  rw [Nat.toString_eq_ofList_toDigits, String.toList_ofList] at among
  exact Nat.isDigit_of_mem_toDigits (by decide) (by decide) among

theorem digit?_of_isDigit {c : Char} (digit : c.isDigit = true) : digit? 10 c = some (c.toNat - '0'.toNat) := by
  have range : '0' ≤ c ∧ c ≤ '9' := by simpa [Char.isDigit, Char.le_def] using digit
  have small : c.toNat ≤ '9'.toNat := range.2
  have below : c.toNat - '0'.toNat < 10 := by
    have nine : '9'.toNat = '0'.toNat + 9 := rfl
    omega
  simp only [digit?, if_pos range, Option.filter_some, below, decide_true, if_true]

theorem number_ofDigits {digits : List Char} (all : ∀ c ∈ digits, c.isDigit = true) :
    number 10 digits = Nat.ofDigitChars 10 digits 0 := by
  rw [number, Nat.ofDigitChars_eq_foldl]
  generalize 0 = value
  induction digits generalizing value with
  | nil => rfl
  | cons c rest ih =>
    obtain ⟨digit, rest⟩ := List.forall_mem_cons.mp all
    rw [List.foldl_cons, List.foldl_cons, ih rest, withDigit, digit?_of_isDigit digit, Nat.mul_comm]

theorem number_toString (n : Nat) : number 10 (toString n).toList = n := by
  rw [number_ofDigits fun c => isDigit_of_mem, Nat.toString_eq_ofList_toDigits, String.toList_ofList,
    Nat.ofDigitChars_ten_toDigits]

-- The lines in a text, and what stands behind the last of them.
def linesIn (text : String) : List String := (text.toList.splitOn '\n').map String.ofList

theorem linesIn_append (front back : String) : linesIn (front ++ "\n" ++ back) = linesIn front ++ linesIn back := by
  have joined : (front ++ "\n" ++ back).toList = front.toList ++ '\n' :: back.toList := by simp
  rw [linesIn, joined, List.splitOn_append_cons_self, List.map_append]
  rfl

theorem linesIn_whole {text : String} (whole : '\n' ∉ text.toList) : linesIn text = [text] := by
  rw [linesIn, List.splitOn_eq_singleton whole, List.map_singleton, String.ofList_toList]

theorem length_linesIn (text : String) : (linesIn text).length = text.toList.count '\n' + 1 := by
  rw [linesIn, List.length_map]
  induction text.toList with
  | nil => rfl
  | cons c rest ih =>
    rw [List.splitOn_cons_eq_if_modifyHead, List.count_cons]
    split
    · rw [List.length_cons, ih]
    · rw [List.length_modifyHead, ih]

end Text

theorem Invocation.number?_toString {n : Nat} (fits : n < UInt64.size) : number? (toString n) = some n := by
  have digits : (toString n).toList.all (Text.isDigit 10) = true := by
    rw [List.all_eq_true]
    intro c among
    rw [Text.isDigit, Text.digit?_of_isDigit (Text.isDigit_of_mem among)]
    rfl
  have some_digit : (toString n).toList.isEmpty = false :=
    List.isEmpty_eq_false_iff.mpr (Text.toList_toString_ne_nil n)
  have unsigned : ∀ rest, (toString n).toList ≠ '+' :: rest := by
    intro rest signed
    have plus : '+' ∈ (toString n).toList := signed ▸ List.mem_cons_self
    cases Text.isDigit_of_mem plus
  unfold number?
  split
  · next rest signed => exact absurd signed (unsigned rest)
  · dsimp only
    rw [some_digit, digits, Text.numberBelow?_eq _ _ _ (by decide) (by decide), Text.number_toString, if_pos fits]
    rfl

def Derivation.newlines (derivation : Derivation) : Nat :=
  (derivation.tokens.map (·.toList.count '\n')).sum

theorem Derivation.newlines_eq_zero {derivation : Derivation} :
    derivation.newlines = 0 ↔ ∀ token ∈ derivation.tokens, '\n' ∉ token.toList := by
  simp [newlines, List.sum_eq_zero_iff_forall_eq_nat, List.count_eq_zero]

theorem Derivation.count_text (derivation : Derivation) : derivation.text.toList.count '\n' = derivation.newlines := by
  rw [text, newlines, String.toList_intercalate]
  induction derivation.tokens with
  | nil => rfl
  | cons first rest ih =>
    cases rest with
    | nil => simp
    | cons second rest =>
      rw [List.map_cons, List.map_cons, List.intercalate_cons_cons, List.count_append, List.count_append]
      rw [List.map_cons] at ih
      rw [ih]
      simp

namespace Report

theorem lines_cons (first : String) (rest : List String) : lines (first :: rest) = first ++ "\n" ++ lines rest := by
  apply String.toList_inj.mp
  simp [lines, String.toList_join]

theorem linesIn_lines (texts : List String) : Text.linesIn (lines texts) = texts.flatMap Text.linesIn ++ [""] := by
  induction texts with
  | nil => rfl
  | cons first rest ih => rw [lines_cons, Text.linesIn_append, ih, List.flatMap_cons, List.append_assoc]

-- A line as a reader takes it: a weight up to the first tab, and a text behind it.
def reading? (line : String) : Option (Nat × String) :=
  match Text.span (· ≠ '\t') line.toList with
  | (digits, _ :: text) => (Invocation.number? (String.ofList digits)).map fun weight => (weight, String.ofList text)
  | (_, []) => none

theorem reading?_derivationLine (derivation : Derivation) :
    reading? (derivationLine derivation) = some (derivation.weight.toNat, derivation.text) := by
  have untabbed : ∀ c ∈ (toString derivation.weight.toNat).toList, decide (c ≠ '\t') = true := by
    intro c among
    have digit := Text.isDigit_of_mem among
    apply decide_eq_true
    rintro rfl
    cases digit
  have line : (derivationLine derivation).toList =
      (toString derivation.weight.toNat).toList ++ '\t' :: derivation.text.toList := by
    rw [derivationLine, String.toList_append, String.toList_append, List.append_assoc]
    rfl
  have read := Invocation.number?_toString derivation.weight.toNat_lt_size
  rw [reading?, line, Text.span_eq, List.takeWhile_append_of_pos untabbed, List.dropWhile_append_of_pos untabbed]
  simp only [List.takeWhile_cons, List.dropWhile_cons, ne_eq, not_true_eq_false, decide_false, Bool.false_eq_true,
    if_false, List.append_nil, String.ofList_toList, read, Option.map_some]

theorem length_derivationLine (derivation : Derivation) :
    (Text.linesIn (derivationLine derivation)).length = derivation.newlines + 1 := by
  have digits : (toString derivation.weight.toNat).toList.count '\n' = 0 := by
    apply List.count_eq_zero.mpr
    intro among
    cases Text.isDigit_of_mem among
  rw [Text.length_linesIn, derivationLine, String.toList_append, String.toList_append, List.count_append,
    List.count_append, digits, derivation.count_text, Nat.zero_add]
  exact congrArg (· + 1) (Nat.zero_add _)

theorem derivationLine_whole {derivation : Derivation} (whole : derivation.newlines = 0) :
    Text.linesIn (derivationLine derivation) = [derivationLine derivation] := by
  have one := length_derivationLine derivation
  rw [Text.length_linesIn, whole] at one
  exact Text.linesIn_whole (List.count_eq_zero.mp (Nat.succ.inj one))

theorem length_linesIn_derivations (derivations : List Derivation) :
    (Text.linesIn (lines (derivations.map derivationLine))).length =
      derivations.length + (derivations.map Derivation.newlines).sum + 1 := by
  rw [linesIn_lines, List.length_append, List.length_singleton]
  induction derivations with
  | nil => rfl
  | cons first rest ih =>
    rw [List.map_cons, List.flatMap_cons, List.length_append, length_derivationLine, List.map_cons, List.sum_cons,
      List.length_cons]
    omega

theorem linesIn_derivations {derivations : List Derivation} (whole : ∀ derivation ∈ derivations, derivation.newlines = 0) :
    Text.linesIn (lines (derivations.map derivationLine)) = derivations.map derivationLine ++ [""] := by
  rw [linesIn_lines]
  induction derivations with
  | nil => rfl
  | cons first rest ih =>
    obtain ⟨here, later⟩ := List.forall_mem_cons.mp whole
    rw [List.map_cons, List.flatMap_cons, derivationLine_whole here, List.append_assoc, ih later]
    rfl

-- What is said of no derivations is not what is printed of some: a line of one starts with a digit.
theorem noDerivations_ne (start : String) (depth : Nat) {derivations : List Derivation} (some : derivations ≠ []) :
    lines (derivations.map derivationLine) ≠ lines [noDerivations start depth] := by
  intro same
  obtain ⟨first, rest, rfl⟩ := List.exists_cons_of_ne_nil some
  obtain ⟨digit, digits, written⟩ := List.exists_cons_of_ne_nil (Text.toList_toString_ne_nil first.weight.toNat)
  have isDigit : digit.isDigit = true := Text.isDigit_of_mem (written ▸ List.mem_cons_self)
  have digit_first : (lines ((first :: rest).map derivationLine)).toList.head? = Option.some digit := by
    rw [List.map_cons, lines_cons, derivationLine]
    simp only [String.toList_append, written, List.cons_append, List.head?_cons]
  have letter_first : (lines [noDerivations start depth]).toList.head? = Option.some 'N' := by
    have letter : "No derivations of '".toList.head? = Option.some 'N' := by decide +kernel
    unfold noDerivations
    simp only [lines_cons, String.toList_append, List.head?_append, letter, Option.some_or]
  rw [same, letter_first] at digit_first
  rw [← Option.some.inj digit_first] at isDigit
  exact absurd isDigit (by decide)

end Report

theorem Grammar.enumerated_from {grammar : Grammar} {start : Option String} {limit depth : Nat}
    {derivations : List Derivation} (found : grammar.enumerate start limit depth = .ok derivations) :
    grammar.Sound ∧ grammar.Names (start.getD grammar.start) := by
  obtain ⟨sound, named⟩ := (enumerate_eq_ok limit depth).mp ⟨derivations, found⟩
  cases start with
  | none => exact ⟨sound, sound.start⟩
  | some name => exact ⟨sound, named name rfl⟩

theorem Grammar.ordered_eq_nil {grammar : Grammar} {name : String} {depth : Nat} (named : grammar.Names name) :
    grammar.ordered depth name = [] ↔ ¬ ∃ tree, Tree.Of grammar name tree ∧ tree.levels ≤ depth + 1 := by
  have listed := (trees_lists grammar depth (names_iff.mp named)).2
  rw [← List.length_eq_zero_iff, (ordered_entries grammar depth name).length_eq, List.length_map, List.length_eq_zero_iff,
    List.eq_nil_iff_forall_not_mem, not_exists]
  exact forall_congr' fun tree => not_congr (listed tree)

namespace Invocation
variable {reader : String → Option Grammar} {contents : Except Failure ByteArray} {grammar : Grammar} {start : Option String}

theorem loadGrammar_text {text : String} (small : text.toByteArray.size ≤ Failure.largestFile)
    (read : reader text = some grammar) (valid : grammar.validate = .ok ()) :
    loadGrammar reader (.ok text.toByteArray) = .ok grammar := by
  have decoded : textOf text.toByteArray = .ok text := by
    rw [textOf, if_neg (Nat.not_lt_of_le small)]
    simp [String.fromUTF8?, String.fromUTF8, text.isValidUTF8]
  rw [loadGrammar, decoded]
  simp only [Grammar.loadBy, read, valid]

theorem enumerated_text (loaded : loadGrammar reader contents = .ok grammar) {limit depth : Nat} {derivations : List Derivation}
    (found : grammar.enumerate start limit depth = .ok derivations) (quiet : Bool) (file : String) :
    executeBy reader ⟨quiet, false, .enumerate file start limit depth⟩ contents =
      .ok (Report.enumerationText (start.getD grammar.start) depth derivations) := by
  rw [executeBy, loaded]
  simp only [output, found]
  rfl

theorem printed_text (loaded : loadGrammar reader contents = .ok grammar) {limit depth : Nat} {derivations : List Derivation}
    (found : grammar.enumerate start limit depth = .ok derivations) (some : derivations ≠ []) (quiet : Bool)
    (file : String) : executeBy reader ⟨quiet, false, .enumerate file start limit depth⟩ contents =
      .ok (Report.lines (derivations.map Report.derivationLine)) := by
  rw [enumerated_text loaded found, Report.enumerationText, if_neg (by simpa using some)]

-- What is printed of some derivations has a line for each of them and one more for each newline in their tokens.
-- Where there is none, also because no terminal of the grammar has one, the lines are read as the derivations.
theorem lines_are_derivations (loaded : loadGrammar reader contents = .ok grammar) {limit depth : Nat}
    {derivations : List Derivation} (found : grammar.enumerate start limit depth = .ok derivations)
    (some : derivations ≠ []) (quiet : Bool) (file : String) : ∃ text,
      executeBy reader ⟨quiet, false, .enumerate file start limit depth⟩ contents = .ok text ∧
      Text.linesIn text = derivations.flatMap (fun derivation => Text.linesIn (Report.derivationLine derivation)) ++ [""] ∧
      (Text.linesIn text).length = derivations.length + (derivations.map Derivation.newlines).sum + 1 ∧
      ((∀ terminal ∈ grammar.terminals, '\n' ∉ terminal.toList) →
        ∀ derivation ∈ derivations, ∀ token ∈ derivation.tokens, '\n' ∉ token.toList) ∧
      ((∀ derivation ∈ derivations, ∀ token ∈ derivation.tokens, '\n' ∉ token.toList) ↔
        (Text.linesIn text).length = derivations.length + 1) ∧
      ((∀ derivation ∈ derivations, ∀ token ∈ derivation.tokens, '\n' ∉ token.toList) →
        Text.linesIn text = derivations.map Report.derivationLine ++ [""] ∧
        (Text.linesIn text).dropLast.map Report.reading? =
          derivations.map fun derivation => Option.some (derivation.weight.toNat, derivation.text)) := by
  refine ⟨_, printed_text loaded found some quiet file, ?_, Report.length_linesIn_derivations derivations, ?_, ?_, ?_⟩
  · rw [Report.linesIn_lines, List.flatMap_map]
  · intro clean derivation among token read
    obtain ⟨sound, named⟩ := Grammar.enumerated_from found
    rw [Grammar.enumerate_sound sound named] at found
    cases found
    exact clean token (Grammar.ordered_tokens named (List.mem_of_mem_take among) token read)
  · rw [Report.length_linesIn_derivations, Nat.add_right_cancel_iff, Nat.add_eq_left, List.sum_eq_zero_iff_forall_eq_nat,
      List.forall_mem_map]
    exact forall₂_congr fun derivation _ => Derivation.newlines_eq_zero.symm
  · intro clean
    have whole : ∀ derivation ∈ derivations, derivation.newlines = 0 := fun derivation among =>
      Derivation.newlines_eq_zero.mpr (clean derivation among)
    rw [Report.linesIn_derivations whole, List.dropLast_concat, List.map_map]
    refine ⟨rfl, List.map_congr_left fun derivation _ => ?_⟩
    exact Report.reading?_derivationLine derivation

def letterAndPair : String :=
  "start = \"s\"\n[[rule]]\nname = \"s\"\nweight = 2\nsymbols = [\"b\", \"c\"]\n[[rule]]\nname = \"s\"\nsymbols = [\"a\"]\n"

theorem letterAndPair_read_back : ∃ grammar derivations text,
    loadGrammar Grammar.ofToml? (.ok letterAndPair.toByteArray) = .ok grammar ∧ grammar.enumerate none 20 8 = .ok derivations ∧
      execute ⟨false, false, .enumerate "g.toml" none 20 8⟩ (.ok letterAndPair.toByteArray) = .ok text ∧
      (Text.linesIn text).dropLast.map Report.reading? = [some (1, "a"), some (2, "b c")] := by
  have loaded : loadGrammar Grammar.ofToml? (.ok letterAndPair.toByteArray) = .ok ⟨"s", [⟨"s", 2, ["b", "c"]⟩, ⟨"s", 1, ["a"]⟩]⟩ :=
    loadGrammar_text (by decide +kernel) (by decide +kernel) (by decide +kernel)
  have found : (Grammar.mk "s" [⟨"s", 2, ["b", "c"]⟩, ⟨"s", 1, ["a"]⟩]).enumerate none 20 8 =
      .ok [⟨1, ["a"]⟩, ⟨2, ["b", "c"]⟩] := by decide +kernel
  obtain ⟨text, printed, -, -, -, -, read⟩ := lines_are_derivations loaded found (by decide) false "g.toml"
  exact ⟨_, _, text, loaded, found, printed, (read (by decide +kernel)).2⟩

-- A symbol may hold a newline, and what stands behind it may look like a line of its own.
def brokenSymbol : String := "start = \"s\"\n[[rule]]\nname = \"s\"\nsymbols = [\"a\\n7\\tb\"]\n"

theorem one_derivation_two_lines : ∃ grammar text,
    loadGrammar Grammar.ofToml? (.ok brokenSymbol.toByteArray) = .ok grammar ∧
      grammar.enumerate none 20 8 = .ok [⟨1, ["a\n7\tb"]⟩] ∧
      execute ⟨false, false, .enumerate "g.toml" none 20 8⟩ (.ok brokenSymbol.toByteArray) = .ok text ∧
      Text.linesIn text = ["1\ta", "7\tb", ""] ∧
      (Text.linesIn text).dropLast.map Report.reading? = [some (1, "a"), some (7, "b")] := by
  have loaded : loadGrammar Grammar.ofToml? (.ok brokenSymbol.toByteArray) = .ok ⟨"s", [⟨"s", 1, ["a\n7\tb"]⟩]⟩ :=
    loadGrammar_text (by decide +kernel) (by decide +kernel) (by decide +kernel)
  have found : (Grammar.mk "s" [⟨"s", 1, ["a\n7\tb"]⟩]).enumerate none 20 8 = .ok [⟨1, ["a\n7\tb"]⟩] := by decide +kernel
  exact ⟨_, _, loaded, found, printed_text loaded found (by decide) false "g.toml", by decide +kernel, by decide +kernel⟩

-- That there are no derivations is said just when none is asked for or no tree is low enough. Otherwise some
-- are printed.
theorem says_none_iff (loaded : loadGrammar reader contents = .ok grammar) (defined : grammar.Names (start.getD grammar.start))
    (limit depth : Nat) (quiet : Bool) (file : String) :
    (executeBy reader ⟨quiet, false, .enumerate file start limit depth⟩ contents =
        .ok (Report.lines [Report.noDerivations (start.getD grammar.start) depth]) ↔
      limit = 0 ∨ ¬ ∃ tree, Tree.Of grammar (start.getD grammar.start) tree ∧ tree.levels ≤ depth + 1) ∧
    (0 < limit → (∃ tree, Tree.Of grammar (start.getD grammar.start) tree ∧ tree.levels ≤ depth + 1) →
      ∃ derivations, derivations ≠ [] ∧ grammar.enumerate start limit depth = .ok derivations ∧
        executeBy reader ⟨quiet, false, .enumerate file start limit depth⟩ contents =
          .ok (Report.lines (derivations.map Report.derivationLine))) := by
  have sound : grammar.Sound := Grammar.validate_eq_ok.mp (loadGrammar_valid loaded)
  have found := Grammar.enumerate_sound sound defined limit depth
  have nothing : (grammar.ordered depth (start.getD grammar.start)).take limit = [] ↔
      limit = 0 ∨ ¬ ∃ tree, Tree.Of grammar (start.getD grammar.start) tree ∧ tree.levels ≤ depth + 1 := by
    rw [List.take_eq_nil_iff, Grammar.ordered_eq_nil defined]
  refine ⟨?_, fun room derivable => ?_⟩
  · rw [← nothing]
    constructor
    · intro said
      by_contra some
      rw [printed_text loaded found some] at said
      exact Report.noDerivations_ne _ _ some (Except.ok.inj said)
    · intro none
      rw [enumerated_text loaded found, none]
      rfl
  · have some : (grammar.ordered depth (start.getD grammar.start)).take limit ≠ [] := fun none => by
      rcases nothing.mp none with zero | underivable
      · exact absurd zero (Nat.ne_of_gt room)
      · exact underivable derivable
    exact ⟨_, some, found, printed_text loaded found some quiet file⟩

def endlessRule : String := "start = \"s\"\n[[rule]]\nname = \"s\"\nsymbols = [\"a\", \"s\"]\n"

theorem endlessRule_says_none : ∃ grammar, loadGrammar Grammar.ofToml? (.ok endlessRule.toByteArray) = .ok grammar ∧
    grammar.Names "s" ∧ ¬ ∃ tree, Tree.Of grammar "s" tree ∧ tree.levels ≤ 8 + 1 := by
  have loaded : loadGrammar Grammar.ofToml? (.ok endlessRule.toByteArray) = .ok ⟨"s", [⟨"s", 1, ["a", "s"]⟩]⟩ :=
    loadGrammar_text (by decide +kernel) (by decide +kernel) (by decide +kernel)
  have named : (Grammar.mk "s" [⟨"s", 1, ["a", "s"]⟩]).Names "s" := ⟨_, .head _, rfl⟩
  have found : (Grammar.mk "s" [⟨"s", 1, ["a", "s"]⟩]).enumerate none 20 8 = .ok [] := by decide +kernel
  have said : execute ⟨false, false, .enumerate "g.toml" none 20 8⟩ (.ok endlessRule.toByteArray) =
      .ok (Report.lines [Report.noDerivations "s" 8]) := enumerated_text loaded found false "g.toml"
  have none := (@says_none_iff _ _ _ none loaded named 20 8 false "g.toml").1.mp said
  exact ⟨_, loaded, named, none.resolve_left (by decide)⟩

def singleLetter : String := "start = \"s\"\n[[rule]]\nname = \"s\"\nsymbols = [\"a\"]\n"

theorem none_asked_none_said : ∃ grammar, loadGrammar Grammar.ofToml? (.ok singleLetter.toByteArray) = .ok grammar ∧
    (∃ tree, Tree.Of grammar "s" tree ∧ tree.levels ≤ 8 + 1) ∧
    execute ⟨false, false, .enumerate "g.toml" none 0 8⟩ (.ok singleLetter.toByteArray) =
      .ok (Report.lines [Report.noDerivations "s" 8]) := by
  have loaded : loadGrammar Grammar.ofToml? (.ok singleLetter.toByteArray) = .ok ⟨"s", [⟨"s", 1, ["a"]⟩]⟩ :=
    loadGrammar_text (by decide +kernel) (by decide +kernel) (by decide +kernel)
  have found : (Grammar.mk "s" [⟨"s", 1, ["a"]⟩]).enumerate none 0 8 = .ok [] := by decide +kernel
  have terminal : (Grammar.mk "s" [⟨"s", 1, ["a"]⟩]).defines "a" = false := by decide +kernel
  have derived : Tree.Of ⟨"s", [⟨"s", 1, ["a"]⟩]⟩ "s" (.node 0 (.cons (.leaf "a") .nil)) :=
    @Tree.Of.node _ 0 ⟨"s", 1, ["a"]⟩ _ rfl (.cons (.leaf terminal) .nil)
  exact ⟨_, loaded, ⟨_, derived, by decide⟩, enumerated_text loaded found false "g.toml"⟩

end Invocation
end LightestFirst
