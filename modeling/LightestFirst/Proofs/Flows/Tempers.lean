import Mathlib.Data.List.Infix
import LightestFirst.Proofs.Along
import LightestFirst.Proofs.Flows.Basic
-- Functions that refuse some of their calls, and what a call that was refused inside a stream leaves
-- behind: a state from which the same call is the first to be made again.
namespace LightestFirst
variable {κ ω σ τ ι α β : Type}

-- Who says which calls are refused, and the calls made so far, the latest first.
structure Temper (κ : Type) where
  refuses : List κ → Bool
  calls : List κ

namespace Temper

def Goes (before after : Temper κ) : Prop := after.refuses = before.refuses ∧ before.calls <:+ after.calls

def Calm (temper : Temper κ) : Prop := ∀ more, more ≠ [] → temper.refuses (more ++ temper.calls) = false

def Refused (before after : Temper κ) : Prop :=
  ∃ more, more ≠ [] ∧ more ++ before.calls <:+ after.calls ∧ before.refuses (more ++ before.calls) = true

theorem goes_drifts : Drifts (Goes : Temper κ → Temper κ → Prop) where
  stays _ := ⟨rfl, List.suffix_rfl⟩
  goes_on one two := ⟨two.1.trans one.1, one.2.trans two.2⟩

variable {before middle after : Temper κ}

theorem Refused.from_before (went : before.Goes middle) (refused : middle.Refused after) : before.Refused after := by
  obtain ⟨refuses, earlier, known⟩ := went
  obtain ⟨more, some_, made, said⟩ := refused
  rw [← known, ← List.append_assoc] at made said
  refine ⟨more ++ earlier, fun none => some_ (List.append_eq_nil_iff.mp none).1, made, ?_⟩
  rwa [← refuses]

theorem Refused.until_after (refused : before.Refused middle) (went : middle.Goes after) : before.Refused after := by
  obtain ⟨more, some_, made, said⟩ := refused
  exact ⟨more, some_, made.trans went.2, said⟩

theorem Calm.not_refused (calm : before.Calm) : ¬ before.Refused after := by
  rintro ⟨more, some_, _, said⟩
  rw [calm more some_] at said
  cases said

theorem Calm.goes (calm : before.Calm) (went : before.Goes after) : after.Calm := by
  obtain ⟨refuses, earlier, known⟩ := went
  intro more some_
  rw [refuses, ← known, ← List.append_assoc]
  exact calm _ fun none => some_ (List.append_eq_nil_iff.mp none).1

def say (call : κ) (value : β) (temper : Temper κ) : Attempt β × Temper κ :=
  (if temper.refuses (call :: temper.calls) then .error (.refusedCall (temper.calls.length + 1)) else .ok value,
    { temper with calls := call :: temper.calls })

def setting (κ : Type) : Setting (Temper κ) where
  sound _ := True
  moves := Goes
  hinders cause before after := (∃ fault, cause = .fault fault) ∧ before.Refused after
  stays := goes_drifts.stays
  goes_on := goes_drifts.goes_on
  hinders_before went held := ⟨held.1, held.2.from_before went⟩
  hinders_after held went := ⟨held.1, held.2.until_after went⟩

end Temper

structure Footing (κ ω : Type) where
  foot : ω → Temper κ
  moves : ω → ω → Prop
  drifts : Drifts moves
  goes : ∀ {before after}, moves before after → (foot before).Goes (foot after)

def Temper.footing (κ : Type) : Footing κ (Temper κ) := ⟨id, Goes, goes_drifts, id⟩

-- With a buffer in the world: what it answers by itself it goes on answering.
def Footing.sharing (footing : Footing κ ω) (σ α : Type) : Footing κ (Buffered σ α × ω) where
  foot shared := footing.foot shared.2
  moves before after := footing.moves before.2 after.2 ∧
    ∀ place status, before.1.settled? place = some status → after.1.settled? place = some status
  drifts := ⟨fun shared => ⟨footing.drifts.stays shared.2, fun _ _ same => same⟩,
    fun one two => ⟨footing.drifts.goes_on one.1 two.1, fun _ _ same => two.2 _ _ (one.2 _ _ same)⟩⟩
  goes moved := footing.goes moved.1

theorem Footing.calls {footing : Footing κ ω} {before after : ω} (moved : footing.moves before after) :
    (footing.foot before).calls <:+ (footing.foot after).calls := (footing.goes moved).2

-- An act that comes to something good, or else is given up because the last call in it was refused: one
-- that is the first to be made when the act is tried again.
inductive Tried (foot : ω → Temper κ) (good : β → ω → Prop) (again : ω → ω) (before : Temper κ) :
    Attempt β × ω → Prop where
  | done {value : β} {after : ω} (fine : good value after) : Tried foot good again before (.ok value, after)
  | refused {fault : Fault} {after : ω} {call : κ} {older : List κ} (last : (foot after).calls = call :: older)
      (made : before.calls <:+ older) (said : (foot after).refuses (call :: older) = true)
      (numbered : fault = .refusedCall (older.length + 1))
      (repeated : call :: call :: older <:+ (foot (again after)).calls) :
      Tried foot good again before (.error fault, after)

section Trying
variable {υ : Type} {foot : ω → Temper κ} {foot' : υ → Temper κ} {good : β → ω → Prop} {good' : β → υ → Prop}
  {again : ω → ω} {again' : υ → υ} {before middle : Temper κ} {outcome : Attempt β × ω}

theorem Tried.from_before (went : before.Goes middle) (tried : Tried foot good again middle outcome) :
    Tried foot good again before outcome := by
  cases tried with
  | done fine => exact .done fine
  | refused last made said numbered repeated => exact .refused last (went.2.trans made) said numbered repeated

theorem Tried.onto (put : ω → υ) (foots : ∀ after, foot' (put after) = foot after)
    (goods : ∀ {value after}, good value after → good' value (put after))
    (agains : ∀ after, (foot (again after)).calls <:+ (foot' (again' (put after))).calls)
    (tried : Tried foot good again before outcome) : Tried foot' good' again' before (outcome.1, put outcome.2) := by
  cases tried with
  | done fine => exact .done (goods fine)
  | @refused _ after _ _ last made said numbered repeated =>
    exact .refused ((foots after).symm ▸ last) made ((foots after).symm ▸ said) numbered (repeated.trans (agains after))

end Trying

-- A function that comes to `value` and is known to have been called by what it has said.
structure Speaks (footing : Footing κ ω) (setting : Setting ω) (call : κ) (value : β) (act : ω → Attempt β × ω) :
    Prop where
  computes : setting.Computes act value
  along : ∀ world, footing.moves world (act world).2
  logs : ∀ world, (footing.foot (act world).2).calls = call :: (footing.foot world).calls
  refused : ∀ world fault, (act world).1 = .error fault →
    fault = .refusedCall ((footing.foot world).calls.length + 1) ∧
      (footing.foot (act world).2).refuses (call :: (footing.foot world).calls) = true

theorem Temper.say_speaks (call : κ) (value : β) : Speaks (footing κ) (setting κ) call value (say call value) where
  computes temper _ := by
    have went : temper.Goes (say call value temper).2 := ⟨rfl, List.suffix_cons _ _⟩
    cases refused : temper.refuses (call :: temper.calls) with
    | false =>
      simp only [say, refused]
      exact .given trivial went
    | true =>
      simp only [say, refused]
      exact .refused ⟨⟨_, rfl⟩, [call], List.cons_ne_nil _ _, List.suffix_rfl, refused⟩ trivial went
  along temper := ⟨rfl, List.suffix_cons _ _⟩
  logs _ := rfl
  refused temper fault same := by
    simp only [say] at same
    split at same
    · next refused =>
      cases same
      exact ⟨rfl, refused⟩
    · cases same

theorem Speaks.tried {footing : Footing κ ω} {setting : Setting ω} {call : κ} {value : β} {act : ω → Attempt β × ω}
    {good : β → ω → Prop} {again : ω → ω} (speaks : Speaks footing setting call value act) {world : ω}
    (comes : ∀ value after, act world = (.ok value, after) → good value after)
    (repeats : (footing.foot (again (act world).2)).calls = call :: (footing.foot (act world).2).calls) :
    Tried footing.foot good again (footing.foot world) (act world) := by
  have logs := speaks.logs world
  have refused := speaks.refused world
  rw [logs] at repeats
  generalize act world = outcome at comes logs refused repeats ⊢
  obtain ⟨fault | value, after⟩ := outcome
  · obtain ⟨numbered, said⟩ := refused fault rfl
    exact .refused logs List.suffix_rfl said numbered (repeats ▸ List.suffix_rfl)
  · exact .done (comes value after rfl)

end LightestFirst
