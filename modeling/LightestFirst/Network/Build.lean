import LightestFirst.Network.Basic
-- Building the streams that recipes describe.
namespace LightestFirst

abbrev Definitions (α : Type) := Table (Recipe α)

namespace Recipe
variable {α : Type}

-- Operands are built left to right, and what was taken before a failure is gone.
def build (fuel : Nat) : Recipe α → Network α → Attempt (Stream α) × Network α
  | .empty, network => (.ok .empty, network)
  | .single value, network => (.ok (.single (.holding value)), network)
  | .iterated supply, network => (.ok (.iterated (.start supply)), network)
  | .deferred tally body, network => (.ok (.postponed (.waiting (.recipe tally body fuel))), network)
  | .mapped f inner, network =>
    match inner.build fuel network with
    | (.error fault, network) => (.error fault, network)
    | (.ok inner, network) => (.ok (.mapped f (.start inner)), network)
  | .merged le left right, network =>
    match left.build fuel network with
    | (.error fault, network) => (.error fault, network)
    | (.ok left, network) =>
      match right.build fuel network with
      | (.error fault, network) => (.error fault, network)
      | (.ok right, network) => (.ok (.merged le (.of left right)), network)
  | .paired le join left right, network =>
    match left.build fuel network with
    | (.error fault, network) => (.error fault, network)
    | (.ok left, network) =>
      match right.build fuel network with
      | (.error fault, network) => (.error fault, network)
      | (.ok right, network) => (.ok (.paired le join (.of left right)), network)
  | .multiplexed source, network =>
    match source.build fuel network with
    | (.error fault, network) => (.error fault, network)
    | (.ok source, network) =>
      match network.addCell source with
      | (cell, network) => (.ok (.multiplexer cell .start), network)
  | .view name, network =>
    match network.multiplexers.get? name with
    | none => (.error (.noMultiplexer name), network)
    | some cell => (.ok (.view cell .start), network)
  | .boxed inner, network =>
    match inner.build fuel network with
    | (.error fault, network) => (.error fault, network)
    | (.ok inner, network) => (.ok (.boxed inner), network)
  | .taken handle, network =>
    match network.handles.get? handle with
    | none => (.error (.noHandle handle), network)
    | some held =>
      (.ok held.contents, { network with handles := network.handles.erase handle })
  | .defined definition fuel, network =>
    (.ok (.postponed (.waiting (.definition definition fuel))), network)
  | .recurring definition, network =>
    match fuel with
    | 0 => (.ok .empty, network)
    | fuel + 1 => (.ok (.postponed (.waiting (.definition definition fuel))), network)
  | .probed name inner, network =>
    match inner.build fuel network with
    | (.error fault, network) => (.error fault, network)
    | (.ok inner, network) => (.ok (.probed name inner), network)
  | .gated gate inner, network =>
    match inner.build fuel network with
    | (.error fault, network) => (.error fault, network)
    | (.ok inner, network) => (.ok (.gated gate inner), network)
  | .delayed period inner, network =>
    match inner.build fuel network with
    | (.error fault, network) => (.error fault, network)
    | (.ok inner, network) => (.ok (.delayed (.everywhere period inner)), network)
  | .following head tail, network =>
    match tail.build fuel network with
    | (.error fault, network) => (.error fault, network)
    | (.ok tail, network) => (.ok (.following (.after tail (.start (.ofList head none)))), network)

end Recipe

def Blueprint.build {α : Type} (definitions : Definitions α) (blueprint : Blueprint α)
    (network : Network α) : Attempt (Stream α) × Network α :=
  match blueprint with
  | .recipe tally body fuel => body.build fuel (network.updateLedger (·.tallyIf tally))
  | .definition name fuel =>
    match definitions.get? name with
    | none => (.error (.noDefinition name), network)
    | some body => body.build fuel network

end LightestFirst
