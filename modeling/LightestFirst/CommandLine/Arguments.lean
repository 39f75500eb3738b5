import LightestFirst.Text.Scan
-- What is asked for on a command line. Words are read from left to right, first by the program
-- itself and behind the name of a command by that command. A value that comes as a word of its own
-- is looked at when the next option known, or the end, shows that no more of it will come.
namespace LightestFirst

-- Why no command is run. Help and version are not failures, but end the reading the same way.
inductive Refusal where
  | help
  | version
  | nothingGiven
  | missingCommand
  | unknownCommand
  | unknownArgument
  -- no value, or one that cannot be empty
  | missingValue
  -- a value that is no number
  | badValue
  -- an option given twice
  | repeated
  -- a flag with a value
  | surplusValue
  | missingOption
deriving DecidableEq, Repr

namespace Refusal

def kind : Refusal → String
  | .help => "DisplayHelp"
  | .version => "DisplayVersion"
  | .nothingGiven => "DisplayHelpOnMissingArgumentOrSubcommand"
  | .missingCommand => "MissingSubcommand"
  | .unknownCommand => "InvalidSubcommand"
  | .unknownArgument => "UnknownArgument"
  | .missingValue => "InvalidValue"
  | .badValue => "ValueValidation"
  | .repeated => "ArgumentConflict"
  | .surplusValue => "TooManyValues"
  | .missingOption => "MissingRequiredArgument"

def exitCode : Refusal → Nat
  | .help => 0
  | .version => 0
  | _ => 2

end Refusal

inductive Command where
  | check (grammar : String)
  | enumerate (grammar : String) (start : Option String) (limit depth : Nat)
deriving DecidableEq, Repr

structure Invocation where
  quiet : Bool
  jsonMode : Bool
  command : Command
deriving DecidableEq, Repr

namespace Invocation

def usualLimit : Nat := 20

def usualDepth : Nat := 8

inductive Flag where
  | quiet
  | jsonMode
  | help
  | version
deriving DecidableEq, Repr

inductive Setting where
  | grammar
  | start
  | limit
  | depth
deriving DecidableEq, Repr

inductive Known where
  | flag (flag : Flag)
  | setting (setting : Setting)
deriving DecidableEq, Repr

inductive Level where
  | program
  | check
  | enumerate
deriving DecidableEq, Repr

def short? : Level → Char → Option Known
  | _, 'q' => some (.flag .quiet)
  | _, 'h' => some (.flag .help)
  | .program, 'V' => some (.flag .version)
  | .check, 'g' => some (.setting .grammar)
  | .enumerate, 'g' => some (.setting .grammar)
  | .enumerate, 's' => some (.setting .start)
  | .enumerate, 'n' => some (.setting .limit)
  | .enumerate, 'd' => some (.setting .depth)
  | _, _ => none

def long? : Level → String → Option Known
  | _, "quiet" => some (.flag .quiet)
  | _, "json-mode" => some (.flag .jsonMode)
  | _, "help" => some (.flag .help)
  | .program, "version" => some (.flag .version)
  | .check, "grammar" => some (.setting .grammar)
  | .enumerate, "grammar" => some (.setting .grammar)
  | .enumerate, "start" => some (.setting .start)
  | .enumerate, "limit" => some (.setting .limit)
  | .enumerate, "depth" => some (.setting .depth)
  | _, _ => none

-- What one level has read so far. `pending` is a setting whose value came, or is still to come, as
-- a word of its own.
structure Draft where
  quiet : Bool
  jsonMode : Bool
  grammar : Option String
  start : Option String
  limit : Option Nat
  depth : Option Nat
  pending : Option (Setting × Option String)

def Draft.blank : Draft := ⟨false, false, none, none, none, none, none⟩

def number? (text : String) : Option Nat :=
  let digits := match text.toList with
    | '+' :: rest => rest
    | characters => characters
  if digits.isEmpty || !digits.all (Text.isDigit 10) then none
  else Text.numberBelow? UInt64.size 10 digits

def assign (draft : Draft) (setting : Setting) (text : String) : Except Refusal Draft :=
  match setting with
  | .grammar =>
    if draft.grammar.isSome then .error .repeated
    else if text = "" then .error .missingValue
    else .ok { draft with grammar := some text }
  | .start =>
    if draft.start.isSome then .error .repeated
    else .ok { draft with start := some text }
  | .limit =>
    if draft.limit.isSome then .error .repeated
    else match number? text with
      | none => .error .badValue
      | some value => .ok { draft with limit := some value }
  | .depth =>
    if draft.depth.isSome then .error .repeated
    else match number? text with
      | none => .error .badValue
      | some value => .ok { draft with depth := some value }

def settle (draft : Draft) : Except Refusal Draft :=
  match draft.pending with
  | none => .ok draft
  | some (_, none) => .error .missingValue
  | some (setting, some text) => assign { draft with pending := none } setting text

def raise (draft : Draft) (flag : Flag) : Except Refusal Draft :=
  match settle draft with
  | .error refusal => .error refusal
  | .ok draft =>
    match flag with
    | .quiet => if draft.quiet then .error .repeated else .ok { draft with quiet := true }
    | .jsonMode => if draft.jsonMode then .error .repeated else .ok { draft with jsonMode := true }
    | .help => .error .help
    | .version => .error .version

def await (draft : Draft) (setting : Setting) : Option String → Except Refusal Draft
  | some text =>
    match settle draft with
    | .error refusal => .error refusal
    | .ok draft => assign draft setting text
  | none =>
    match settle draft with
    | .error refusal => .error refusal
    | .ok draft => .ok { draft with pending := some (setting, none) }

-- What is attached to a short setting: the rest of the word, an equals sign in front not counted.
def attached? : List Char → Option String
  | [] => none
  | '=' :: rest => some (String.ofList rest)
  | rest => some (String.ofList rest)

-- Short options run together behind one dash; the first that takes a value takes the rest.
def readShort (level : Level) (draft : Draft) : List Char → Except Refusal Draft
  | [] => .ok draft
  | c :: rest =>
    match short? level c with
    | none => .error .unknownArgument
    | some (.setting setting) => await draft setting (attached? rest)
    | some (.flag flag) =>
      match raise draft flag with
      | .error refusal => .error refusal
      | .ok draft => readShort level draft rest

def readLong (level : Level) (draft : Draft) (text : List Char) : Except Refusal Draft :=
  match Text.span (· ≠ '=') text with
  | (name, rest) =>
    match long? level (String.ofList name), rest with
    | none, _ => .error .unknownArgument
    | some (.flag _), _ :: _ => .error .surplusValue
    | some (.flag flag), [] => raise draft flag
    | some (.setting setting), rest => await draft setting (attached? rest)

def readOption? (level : Level) (draft : Draft) (word : String) : Option (Except Refusal Draft) :=
  match word.toList with
  | '-' :: '-' :: c :: rest => some (readLong level draft (c :: rest))
  | '-' :: '-' :: [] => none
  | '-' :: c :: rest => some (readShort level draft (c :: rest))
  | _ => none

-- The words of a command. Nothing may follow two dashes, and no word stands for itself but as the
-- value of a setting.
def readWords (level : Level) (draft : Draft) : List String → Except Refusal Draft
  | [] => settle draft
  | word :: rest =>
    if word = "--" then if rest.isEmpty then settle draft else .error .unknownArgument
    else match readOption? level draft word with
      | some (.error refusal) => .error refusal
      | some (.ok draft) => readWords level draft rest
      | none =>
        match draft.pending with
        | some (setting, none) =>
          readWords level { draft with pending := some (setting, some word) } rest
        | _ => .error .unknownArgument

def ofDraft (level : Level) (program draft : Draft) : Except Refusal Invocation :=
  match draft.grammar with
  | none => .error .missingOption
  | some grammar =>
    .ok ⟨program.quiet || draft.quiet, program.jsonMode || draft.jsonMode,
      match level with
      | .enumerate => .enumerate grammar draft.start (draft.limit.getD usualLimit)
          (draft.depth.getD usualDepth)
      | _ => .check grammar⟩

def readCommand (level : Level) (program : Draft) (words : List String) : Except Refusal Invocation :=
  match readWords level .blank words with
  | .error refusal => .error refusal
  | .ok draft => ofDraft level program draft

def commandNames : List String := ["check", "enumerate", "help"]

def readHelp : List String → Refusal
  | [] => .help
  | [name] => if commandNames.contains name then .help else .unknownCommand
  | _ => .unknownCommand

def withoutCommand (program : Draft) : Refusal :=
  if program.quiet || program.jsonMode then .missingCommand else .nothingGiven

-- What follows two dashes is no command, although it may have the name of one.
def readDashed (program : Draft) : List String → Refusal
  | [] => withoutCommand program
  | name :: _ => if commandNames.contains name then .unknownArgument else .unknownCommand

def readProgram (program : Draft) : List String → Except Refusal Invocation
  | [] => .error (withoutCommand program)
  | word :: rest =>
    if word = "check" then readCommand .check program rest
    else if word = "enumerate" then readCommand .enumerate program rest
    else if word = "help" then .error (readHelp rest)
    else if word = "--" then .error (readDashed program rest)
    else match readOption? .program program word with
      | some (.error refusal) => .error refusal
      | some (.ok program) => readProgram program rest
      | none => .error .unknownCommand

def parse (words : List String) : Except Refusal Invocation := readProgram .blank words

end Invocation
end LightestFirst
