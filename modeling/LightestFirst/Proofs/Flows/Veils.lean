import Mathlib.Data.List.Forall2
import LightestFirst.Proofs.Flows.Basic
import LightestFirst.Proofs.Flows.Visits
import LightestFirst.Proofs.Flows.Withheld
-- A tree of streams, and the same tree in which parts of it may be held back at any moment.
namespace LightestFirst

namespace Flow
variable {κ ω α : Type}

def withheld (keeper : Keeper κ ω) (kept : κ) (inner : Flow (Tallied ω) α) : Flow (Tallied ω) α :=
  ⟨Withheld κ inner.State, Withheld.machine keeper inner.machine, ⟨kept, inner.state⟩⟩

theorem withheld_keeps {flow : Flow (Tallied ω) α} {course : Course α} (keeper : Keeper κ ω) (kept : κ)
    (keeps : flow.Keeps (Withheld.setting ω) course) :
    (withheld keeper kept flow).Keeps (Withheld.setting ω) course := by
  obtain ⟨stands, plays, starts⟩ := keeps
  exact ⟨_, Withheld.plays plays, fun world => ⟨false, id, starts world⟩⟩

end Flow

-- The first flow, and the same with any of its parts veiled.
inductive Veiled {ω : Type} : ∀ {α : Type}, Flow (Tallied ω) α → Flow (Tallied ω) α → Prop where
  | empty {α : Type} : Veiled (.empty : Flow _ α) .empty
  | single {α : Type} (value : α) : Veiled (.single value) (.single value)
  | iterated {ι α : Type} (next : ι → Option α × ι) (iterator : ι) :
      Veiled (.iterated (Iterated.plainly next) iterator) (.iterated (Iterated.plainly next) iterator)
  | mapped {α β : Type} (f : α → β) {bare veiled : Flow (Tallied ω) α} (inner : Veiled bare veiled) :
      Veiled (.mappedBy (Mapped.plainly f) bare) (.mappedBy (Mapped.plainly f) veiled)
  | merged {α : Type} (le : α → α → Bool) {left right veiled veiled' : Flow (Tallied ω) α}
      (first : Veiled left veiled) (second : Veiled right veiled') :
      Veiled (.merged le left right) (.merged le veiled veiled')
  | paired {α : Type} (le : α → α → Bool) (join : α → α → α) {left right veiled veiled' : Flow (Tallied ω) α}
      (first : Veiled left veiled) (second : Veiled right veiled') :
      Veiled (.paired le join left right) (.paired le join veiled veiled')
  | multiplexed {α : Type} {bare veiled : Flow (Tallied ω) α} (source : Veiled bare veiled) :
      Veiled (.multiplexed bare) (.multiplexed veiled)
  | deferred {α : Type} {later later' : Thunk (Flow (Tallied ω) α)} (built : Veiled later.get later'.get) :
      Veiled (.deferred later) (.deferred later')
  | withheld {κ α : Type} (keeper : Keeper κ ω) (kept : κ) {bare veiled : Flow (Tallied ω) α}
      (inner : Veiled bare veiled) : Veiled bare (.withheld keeper kept veiled)

namespace Veiled
variable {ω α : Type} {bare veiled : Flow (Tallied ω) α}

theorem mergedAll (le : α → α → Bool) {bares veileds : List (Flow (Tallied ω) α)}
    (parts : List.Forall₂ Veiled bares veileds) : Veiled (Flow.mergedAll le bares) (Flow.mergedAll le veileds) := by
  induction parts with
  | nil => exact .empty
  | @cons bare veiled bares veileds first rest ih =>
    cases rest with
    | nil => exact first
    | cons second rest => exact .merged le first ih

structure Alike (bare veiled : Flow (Tallied ω) α) (course : Course α) : Prop where
  definite : course.Definite
  bare : bare.Keeps (Withheld.setting ω).prompt course
  veiled : veiled.Keeps (Withheld.setting ω) course

theorem alike (veils : Veiled bare veiled) : ∃ course, Alike bare veiled course := by
  induction veils with
  | empty => exact ⟨_, Course.definite_ended, Flow.empty_keeps, Flow.empty_keeps⟩
  | single value =>
    exact ⟨_, Course.definite_ofAnswers _, Flow.single_keeps value, Flow.single_keeps value⟩
  | iterated next iterator =>
    exact ⟨_, Course.definite_ofAnswers _, Flow.iterated_keeps next iterator, Flow.iterated_keeps next iterator⟩
  | mapped f _ ih =>
    obtain ⟨course, alike⟩ := ih
    exact ⟨course.map f, alike.definite.map f,
      Flow.mappedBy_keeps (fun _ value => Setting.computes_pure _ (f value)) alike.bare,
      Flow.mappedBy_keeps (fun _ value => Setting.computes_pure _ (f value)) alike.veiled⟩
  | merged le _ _ first second =>
    obtain ⟨xs, left⟩ := first
    obtain ⟨ys, right⟩ := second
    exact ⟨.merged le xs ys, left.definite.merged right.definite, Flow.merged_keeps le left.bare right.bare,
      Flow.merged_keeps le left.veiled right.veiled⟩
  | paired le join _ _ first second =>
    obtain ⟨xs, left⟩ := first
    obtain ⟨ys, right⟩ := second
    exact ⟨.joined le join xs ys, left.definite.joined right.definite,
      Flow.pairedBy_keeps le (fun x y => Setting.computes_pure _ (join x y)) left.bare right.bare,
      Flow.pairedBy_keeps le (fun x y => Setting.computes_pure _ (join x y)) left.veiled right.veiled⟩
  | multiplexed _ ih =>
    obtain ⟨course, alike⟩ := ih
    exact ⟨course, alike.definite, Flow.multiplexed_keeps alike.bare, Flow.multiplexed_keeps alike.veiled⟩
  | deferred _ ih =>
    obtain ⟨course, alike⟩ := ih
    exact ⟨course, alike.definite, Flow.deferred_keeps alike.bare, Flow.deferred_keeps alike.veiled⟩
  | withheld keeper kept _ ih =>
    obtain ⟨course, alike⟩ := ih
    exact ⟨course, alike.definite, alike.bare, Flow.withheld_keeps keeper kept alike.veiled⟩

theorem Alike.drains {course : Course α} (alike : Alike bare veiled course) {limit : Nat} {items : List α}
    {ending : Ending} (serves : course.Serves 0 limit items ending) (start : Tallied ω) :
    ∃ later after, Session.drain bare.machine limit 0 [] 0 bare.state start = (.ok ⟨items, ending, 0⟩, later, after) := by
  obtain ⟨stands, plays, starts⟩ := alike.bare
  exact plays.drains (Setting.prompt_prompt _) serves [] 0 (starts start) trivial

-- Whatever has been held back so far, the elements passed are those the bare tree begins with; what is
-- told next is what it says next, unless something is held back in this very call; and what has been
-- shown can be passed.
theorem pending_changes_nothing (veils : Veiled bare veiled) {first now : Tallied ω} {visit : Visit veiled.State α}
    (reached : Visit.Reached veiled.machine (fun before after => before.tally = after.tally)
      (.fresh veiled.state, first) (visit, now)) :
    (∀ start, ∃ later after, Session.drain bare.machine visit.passed.length 0 [] 0 bare.state start =
      (.ok ⟨visit.passed, .limit, 0⟩, later, after)) ∧
    (∃ status state after, veiled.machine.query visit.state now = (.ok status, state, after) ∧
      (∀ value, status = .ready value → ∀ start, ∃ later after,
        Session.drain bare.machine (visit.passed.length + 1) 0 [] 0 bare.state start =
          (.ok ⟨visit.passed ++ [value], .limit, 0⟩, later, after)) ∧
      (status = .ended → ∀ start, ∃ later after,
        Session.drain bare.machine (visit.passed.length + 1) 0 [] 0 bare.state start =
          (.ok ⟨visit.passed, .ended, 0⟩, later, after)) ∧
      (status = .pending → now.tally < after.tally)) ∧
    (visit.shown.isSome = true → ∃ state after, veiled.machine.advance visit.state now = (.ok (), state, after)) := by
  obtain ⟨course, alike⟩ := veils.alike
  obtain ⟨stands, plays, starts⟩ := alike.veiled
  have allowed : ∀ {before after : Tallied ω}, before.tally = after.tally → (Withheld.setting ω).sound before →
      (Withheld.setting ω).sound after ∧ (Withheld.setting ω).moves before after :=
    fun same _ => ⟨trivial, Nat.le_of_eq same⟩
  obtain ⟨sound, there⟩ := reached.invariant plays allowed trivial (Visit.fresh_stands (starts first))
  have here : course visit.passed.length ≠ .pending := alike.definite _ there.begins.reaches
  refine ⟨fun start => alike.drains (Course.serves_begun there.begins) start, ?_, fun lawful => ?_⟩
  · obtain ⟨seen, _, standing⟩ := there.there
    have told := plays.query standing sound
    generalize veiled.machine.query visit.state now = outcome at told ⊢
    cases told with
    | failed hinders => exact nomatch hinders.1
    | @answered status state after answers _ _ _ =>
      refine ⟨status, state, after, rfl, ?_, ?_, ?_⟩
      · rintro value rfl start
        have begins := there.begins.append (answers.of_stable rfl)
        have served := alike.drains (Course.serves_begun begins) start
        rwa [List.length_append] at served
      · rintro rfl start
        exact alike.drains (Course.serves_all there.begins (answers.of_stable rfl) (Nat.lt_succ_self _)) start
      · rintro rfl
        exact (answers.resolve_left here).2.2
  · have passes := there.passes plays sound lawful
    generalize veiled.machine.advance visit.state now = outcome at passes ⊢
    cases passes with
    | passed _ _ _ => exact ⟨_, _, rfl⟩

section Three

def three : Flow (Tallied Bool) Nat := .mergedAll (· ≤ ·) [.single 3, .single 1, .single 2]

def threeVeiled : Flow (Tallied Bool) Nat :=
  .mergedAll (· ≤ ·) [.withheld (Withheld.gate id) () (.single 3), .single 1, .withheld (Withheld.delay 1) 1 (.single 2)]

-- Asked in vain, asked again with the gate open, and only then is there anything to pass.
theorem gate_and_delay : ∃ (visit : Visit threeVeiled.State Nat) (now : Tallied Bool),
    Visit.Reached threeVeiled.machine (fun before after => before.tally = after.tally)
      (.fresh threeVeiled.state, ⟨0, false⟩) (visit, now) ∧
    visit.passed = [1] ∧ now.tally = 2 ∧
    ∃ later after, Session.drain three.machine 1 0 [] 0 three.state ⟨0, false⟩ =
      (.ok ⟨[1], .limit, 0⟩, later, after) := by
  have veils : Veiled three threeVeiled :=
    .mergedAll _ (.cons (.withheld _ _ (.single 3)) (.cons (.single 1) (.cons (.withheld _ _ (.single 2)) .nil)))
  have waits : Visit.Reached threeVeiled.machine (fun before after => before.tally = after.tally)
      (.fresh threeVeiled.state, ⟨0, false⟩)
      (((Visit.fresh threeVeiled.state).ask threeVeiled.machine ⟨0, false⟩).1, ⟨2, false⟩) := .asked .start
  have opened := waits.elsewhere (rfl : _ = (⟨2, true⟩ : Tallied Bool).tally)
  have passed := opened.asked.advanced rfl
  have front := (pending_changes_nothing veils passed).1 ⟨0, false⟩
  exact ⟨_, _, passed, rfl, rfl, front⟩

end Three
end Veiled
end LightestFirst
