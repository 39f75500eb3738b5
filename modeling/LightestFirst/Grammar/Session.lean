import LightestFirst.Grammar.Enumeration
-- Several streams of one grammar's derivations, opened and read in turns.
namespace LightestFirst

inductive Request where
  | opening (nonterminal : String) (depth : Nat)
  | query (stream : Nat)
  | advance (stream : Nat)
  | take (stream limit : Nat)

inductive Response where
  | opened (stream : Nat)
  | status (status : Status Derivation)
  | done
  | taken (derivations : List Derivation)
  | failed (error : GrammarError)
  | fault (fault : Fault)
  -- no stream of this number has been opened
  | unopened

namespace Grammar

def respond (grammar : Grammar) (streams : List Derivations) : Request → Response × List Derivations
  | .opening name depth =>
    match grammar.derivations name depth with
    | .error error => (.failed error, streams)
    | .ok flow => (.opened streams.length, streams ++ [flow])
  | .query stream =>
    match streams[stream]? with
    | none => (.unopened, streams)
    | some flow =>
      match flow.query () with
      | (.error fault, flow, _) => (.fault fault, streams.set stream flow)
      | (.ok status, flow, _) => (.status status, streams.set stream flow)
  | .advance stream =>
    match streams[stream]? with
    | none => (.unopened, streams)
    | some flow =>
      match flow.advance () with
      | (.error fault, flow, _) => (.fault fault, streams.set stream flow)
      | (.ok (), flow, _) => (.done, streams.set stream flow)
  | .take stream limit =>
    match streams[stream]? with
    | none => (.unopened, streams)
    | some flow =>
      match flow.take limit () with
      | (.error fault, flow, _) => (.fault fault, streams.set stream flow)
      | (.ok taken, flow, _) =>
        match ofTaken (.ok taken) with
        | .error error => (.failed error, streams.set stream flow)
        | .ok derivations => (.taken derivations, streams.set stream flow)

def responses (grammar : Grammar) : List Derivations → List Request → List Response
  | _, [] => []
  | streams, request :: rest =>
    match respond grammar streams request with
    | (response, streams) => response :: responses grammar streams rest

end Grammar
end LightestFirst
