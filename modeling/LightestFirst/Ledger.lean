import LightestFirst.Table
import LightestFirst.Fault
-- What the functions inside a network act on: named counters, and gates that are open or closed.
namespace LightestFirst

structure Ledger where
  counters : Table Nat
  openGates : List String

namespace Ledger

def blank : Ledger := ⟨[], []⟩

def count (ledger : Ledger) (name : String) : Nat := (ledger.counters.get? name).getD 0

def tally (ledger : Ledger) (name : String) : Ledger :=
  { ledger with counters := ledger.counters.put name (ledger.count name + 1) }

def tallyIf (ledger : Ledger) : Option String → Ledger
  | some name => ledger.tally name
  | none => ledger

def isOpen (ledger : Ledger) (gate : String) : Bool := ledger.openGates.contains gate

def openGate (ledger : Ledger) (gate : String) : Ledger :=
  { ledger with openGates := gate :: ledger.openGates }

def closeGate (ledger : Ledger) (gate : String) : Ledger :=
  { ledger with openGates := ledger.openGates.filter (· ≠ gate) }

end Ledger
end LightestFirst
