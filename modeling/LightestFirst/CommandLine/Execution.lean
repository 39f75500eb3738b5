import LightestFirst.CommandLine.Arguments
import LightestFirst.CommandLine.Report
import LightestFirst.Failure
import LightestFirst.Grammar.Enumeration
-- Running a command on the contents of its grammar file: all the output, or what went wrong.
namespace LightestFirst

def versionText : String := "ordo 0.4.2\n"

namespace Invocation

def textOf (contents : ByteArray) : Except Failure String :=
  if contents.size > Failure.largestFile then .error (.tooLarge contents.size Failure.largestFile)
  else match String.fromUTF8? contents with
    | none => .error .notText
    | some text => .ok text

def loadGrammar (reader : String → Option Grammar) (contents : Except Failure ByteArray) : Except Failure Grammar :=
  match contents with
  | .error failure => .error failure
  | .ok bytes =>
    match textOf bytes with
    | .error failure => .error failure
    | .ok text => Grammar.loadBy reader text

def output (jsonMode : Bool) (command : Command) (grammar : Grammar) : Except Failure String :=
  match command with
  | .check _ => .ok (if jsonMode then Report.lines [(Report.summaryJson grammar).pretty]
      else Report.summaryText grammar)
  | .enumerate _ start limit depth =>
    match grammar.enumerate start limit depth with
    | .error error => .error (.grammar error)
    | .ok derivations =>
      let start := start.getD grammar.start
      .ok (if jsonMode then Report.lines [(Report.enumerationJson start limit depth derivations).pretty]
        else Report.enumerationText start depth derivations)

def file (invocation : Invocation) : String :=
  match invocation.command with
  | .check grammar => grammar
  | .enumerate grammar _ _ _ => grammar

def executeBy (reader : String → Option Grammar) (invocation : Invocation) (contents : Except Failure ByteArray) :
    Except Failure String :=
  match loadGrammar reader contents with
  | .error failure => .error failure
  | .ok grammar => output invocation.jsonMode invocation.command grammar

def execute : Invocation → Except Failure ByteArray → Except Failure String := executeBy Grammar.ofToml?

end Invocation
end LightestFirst
