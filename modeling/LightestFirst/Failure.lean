import LightestFirst.Grammar.Reading
-- What can go wrong between naming a grammar file and having its derivations.
namespace LightestFirst

inductive PathError where
  | notFound
  | notDirectory
  | nameTooLong
  | tooManyLinks
  | nulByte
  -- anything else, in the words of the system
  | other (text : String)
deriving DecidableEq, Repr

def PathError.message : PathError → String
  | .notFound => "No such file or directory (os error 2)"
  | .notDirectory => "Not a directory (os error 20)"
  | .nameTooLong => "File name too long (os error 36)"
  | .tooManyLinks => "Too many levels of symbolic links (os error 40)"
  | .nulByte => "file name contained an unexpected NUL byte"
  | .other text => text

inductive Failure where
  | invalidPath (path : String) (cause : PathError)
  | notRegular (path : String)
  | tooLarge (size largest : Nat)
  | notText
  -- the file is no TOML, or no grammar
  | unreadable
  -- the data is no grammar
  | unsuited
  | grammar (error : GrammarError)
deriving DecidableEq, Repr

def Failure.largestFile : Nat := 1048576

def Failure.message : Failure → String
  | .invalidPath path cause => "I/O error: Invalid file path '" ++ path ++ "': " ++ cause.message
  | .notRegular path => "I/O error: Path '" ++ path ++ "' is not a regular file"
  | .tooLarge size largest => "File size " ++ toString size ++ " bytes exceeds maximum allowed " ++
      toString largest ++ " bytes"
  | .notText => "I/O error: Read file: stream did not contain valid UTF-8"
  | .unreadable => "Grammar parse error"
  | .unsuited => "Serialization error"
  | .grammar error => error.message

namespace Grammar

-- A grammar from a text, validated. How texts are read is left open.
def loadBy (reader : String → Option Grammar) (text : String) : Except Failure Grammar :=
  match reader text with
  | none => .error .unreadable
  | some grammar =>
    match grammar.validate with
    | .error flaw => .error (.grammar flaw)
    | .ok () => .ok grammar

def load : String → Except Failure Grammar := loadBy ofToml?

def adopt (value : Json) : Except Failure Grammar :=
  match ofJson? value with
  | none => .error .unsuited
  | some grammar => .ok grammar

end Grammar
end LightestFirst
