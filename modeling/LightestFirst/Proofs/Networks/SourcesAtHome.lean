import Mathlib.Logic.Function.Basic
import LightestFirst.Proofs.Networks.CallEffects
-- The source of a cell is out of it while it runs and at no other time: whatever a call meets on its way,
-- and however it ends, the cells without a source are those it found without one.
namespace LightestFirst
variable {α : Type}

namespace Network

def lent (network : Network α) (cell : Nat) : Bool := (network.cells[cell]?).any (·.source.isNone)

def Returns (before after : Network α) : Prop := after.lent = before.lent

theorem returns_drifts : Drifts (Returns : Network α → Network α → Prop) := ⟨fun _ => rfl, fun one two => two.trans one⟩

variable {network : Network α} {cell : Nat} {shared : Buffered (Option (Stream α)) α}

theorem lent_setCell (inside : cell < network.cells.size) :
    (network.setCell cell shared).lent = Function.update network.lent cell shared.source.isNone := by
  funext other
  rw [lent, getElem?_setCell network cell other shared inside, Function.update_apply]
  split <;> rfl

theorem lent_restored {running : Stream α} (there : shared.source = some running) :
    (network.setCell cell shared).lent = Function.update network.lent cell false := by
  by_cases inside : cell < network.cells.size
  · rw [lent_setCell inside, there]
    rfl
  · have nowhere : network.lent cell = false := by
      rw [lent, Array.getElem?_eq_none (Nat.le_of_not_lt inside)]
      rfl
    rw [← nowhere, Function.update_eq_self, setCell, Array.setIfInBounds_eq_of_size_le (Nat.le_of_not_lt inside)]

theorem returns_addCell (network : Network α) (source : Stream α) : Returns network (network.addCell source).2 := by
  funext other
  simp only [lent, addCell, Array.getElem?_push]
  split
  · next last =>
    rw [Array.getElem?_eq_none (Nat.le_of_eq last.symm)]
    rfl
  · rfl

end Network

open Network

namespace Stream

theorem readCell_returns {source : Machine (Network α) (Stream α) α} (inner : source.Along Returns) (cell place : Nat)
    (network : Network α) : Returns network (readCell source cell place network).2 := by
  refine readCell_within returns_drifts inner fun {shared _ _ _ _ _} there _ idle ran => ?_
  have emptied : (network.setCell cell (shared.replace none)).lent = Function.update network.lent cell true :=
    lent_setCell (Array.getElem?_eq_some_iff.mp there).1
  have home : network.lent cell = false := by
    rw [lent, there, Option.any_some, idle]
    rfl
  rw [Returns, lent_restored (Buffered.absorb_source _ _ _ _), ran, emptied, Function.update_idem, ← home,
    Function.update_eq_self]

end Stream

theorem Network.returns_cellwise : Cellwise (Returns : Network α → Network α → Prop) where
  drifts := returns_drifts
  aside same := by
    funext cell
    rw [lent, lent, same]
  adds := returns_addCell
  reads := Stream.readCell_returns

theorem Session.sources_at_home (definitions : Definitions α) (depth : Nat) (conversation : List (Step α)) (cell : Nat)
    (shared : Buffered (Option (Stream α)) α)
    (there : (steps (Stream.machine definitions depth) .blank conversation).2.cells[cell]? = some shared) :
    shared.source.isSome = true := by
  have returns := steps_along returns_cellwise (Stream.machine_along returns_cellwise.confines definitions depth)
    conversation .blank
  have nothing : (steps (Stream.machine definitions depth) .blank conversation).2.lent cell = false := by
    rw [returns]
    rfl
  rw [lent, there, Option.any_some] at nothing
  cases held : shared.source with
  | some _ => rfl
  | none =>
    rw [held] at nothing
    cases nothing

end LightestFirst
