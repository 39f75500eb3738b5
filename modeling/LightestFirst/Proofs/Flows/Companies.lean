import Mathlib.Data.List.Forall2
import LightestFirst.Flow
import LightestFirst.Proofs.Flows.Visits
-- Any number of streams of one world in one hand, taken up, copied and called in whatever order.
namespace LightestFirst
variable {ω : Type} {Kind : Type → Type 1} {flow : ∀ α : Type, Kind α → Flow ω α}

structure Member (flow : ∀ α : Type, Kind α → Flow ω α) where
  Item : Type
  kind : Kind Item
  visit : Visit (flow Item kind).State Item

inductive Call (Kind : Type → Type 1) where
  | fresh {α : Type} (kind : Kind α)
  | copy (place : Nat)
  | ask (place : Nat)
  | advance (place : Nat)

inductive Heard where
  | told {α : Type} (answer : Attempt (Status α))
  | passed (answer : Attempt Unit)

namespace Member

def fresh {α : Type} (kind : Kind α) : Member flow := ⟨α, kind, .fresh (flow α kind).state⟩

def query (member : Member flow) (world : ω) : Attempt (Status member.Item) × (flow _ member.kind).State × ω :=
  (flow _ member.kind).machine.query member.visit.state world

def advance (member : Member flow) (world : ω) : Attempt Unit × (flow _ member.kind).State × ω :=
  (flow _ member.kind).machine.advance member.visit.state world

def asked (member : Member flow) (world : ω) : Member flow × ω :=
  match member.visit.ask (flow _ member.kind).machine world with
  | (visit, world) => ({ member with visit }, world)

def advanced (member : Member flow) (world : ω) : Member flow × ω :=
  match member.visit.advance (flow _ member.kind).machine world with
  | (visit, world) => ({ member with visit }, world)

end Member

structure Company (flow : ∀ α : Type, Kind α → Flow ω α) where
  members : List (Member flow)
  world : ω

namespace Company

def put (company : Company flow) (place : Nat) (outcome : Member flow × ω) : Company flow :=
  ⟨company.members.set place outcome.1, outcome.2⟩

def act (now : Company flow) : Call Kind → Option Heard × Company flow
  | .fresh kind => (none, ⟨now.members ++ [.fresh kind], now.world⟩)
  | .copy place => (none, ⟨now.members ++ now.members[place]?.toList, now.world⟩)
  | .ask place =>
    match now.members[place]? with
    | none => (none, now)
    | some member => (some (.told (member.query now.world).1), now.put place (member.asked now.world))
  | .advance place =>
    match now.members[place]? with
    | none => (none, now)
    | some member => (some (.passed (member.advance now.world).1), now.put place (member.advanced now.world))

def replies (now : Company flow) : List (Call Kind) → List (Option Heard)
  | [] => []
  | call :: calls => (now.act call).1 :: (now.act call).2.replies calls

def Lawful (now : Company flow) : Call Kind → Prop
  | .advance place => ∀ member, now.members[place]? = some member → member.visit.shown.isSome = true
  | _ => True

-- A strict company makes lawful calls only. What a member may be turned into is said by `turns`.
inductive Reached (strict : Bool) (turns : Member flow → Member flow → Prop) (world : ω) : Company flow → Prop where
  | start : Reached strict turns world ⟨[], world⟩
  | called {now : Company flow} (before : Reached strict turns world now) (call : Call Kind)
      (lawful : strict = true → now.Lawful call) : Reached strict turns world (now.act call).2
  | turned {now : Company flow} {place : Nat} {member later : Member flow} (before : Reached strict turns world now)
      (here : now.members[place]? = some member) (turn : turns member later) :
      Reached strict turns world (now.put place (later, now.world))

variable {strict : Bool} {turns : Member flow → Member flow → Prop} {sound : ω → Prop} {moves : ω → ω → Prop}
  {holds : Member flow → ω → Prop}

-- What a call leaves: a world in order, moved no further than others may move it, and what holds of the member in it.
structure Left (sound : ω → Prop) (moves : ω → ω → Prop) (holds : Member flow → ω → Prop) (before : ω)
    (outcome : Member flow × ω) : Prop where
  sound : sound outcome.2
  moved : moves before outcome.2
  holds : holds outcome.1 outcome.2

structure Upheld (strict : Bool) (turns : Member flow → Member flow → Prop) (sound : ω → Prop)
    (moves : ω → ω → Prop) (holds : Member flow → ω → Prop) : Prop where
  fresh : ∀ {α : Type} (kind : Kind α) world, sound world → holds (.fresh kind) world
  asked : ∀ {member world}, holds member world → sound world → Left sound moves holds world (member.asked world)
  advanced : ∀ {member world}, holds member world → sound world →
    (strict = true → member.visit.shown.isSome = true) → Left sound moves holds world (member.advanced world)
  turned : ∀ {member later world}, holds member world → turns member later → holds later world
  kept : ∀ {member world after}, holds member world → moves world after → holds member after

def AllHold (sound : ω → Prop) (holds : Member flow → ω → Prop) (now : Company flow) : Prop :=
  sound now.world ∧ ∀ member ∈ now.members, holds member now.world

theorem AllHold.put {now : Company flow} {place : Nat} {outcome : Member flow × ω}
    (upheld : Upheld strict turns sound moves holds) (all : now.AllHold sound holds)
    (left : Left sound moves holds now.world outcome) : (now.put place outcome).AllHold sound holds := by
  refine ⟨left.sound, fun member among => ?_⟩
  rcases List.mem_or_eq_of_mem_set among with among | rfl
  · exact upheld.kept (all.2 member among) left.moved
  · exact left.holds

theorem AllHold.act {now : Company flow} (upheld : Upheld strict turns sound moves holds) (all : now.AllHold sound holds)
    (call : Call Kind) (lawful : strict = true → now.Lawful call) : (now.act call).2.AllHold sound holds := by
  cases call with
  | fresh kind =>
    refine ⟨all.1, fun member among => ?_⟩
    rcases List.mem_append.mp among with among | last
    · exact all.2 member among
    · obtain rfl := List.mem_singleton.mp last
      exact upheld.fresh kind _ all.1
  | copy place =>
    refine ⟨all.1, fun member among => ?_⟩
    rcases List.mem_append.mp among with among | last
    · exact all.2 member among
    · exact all.2 member (List.mem_of_getElem? (Option.mem_toList.mp last))
  | ask place =>
    simp only [Company.act]
    cases here : now.members[place]? with
    | none => exact all
    | some member => exact all.put upheld (upheld.asked (all.2 _ (List.mem_of_getElem? here)) all.1)
  | advance place =>
    simp only [Company.act]
    cases here : now.members[place]? with
    | none => exact all
    | some member =>
      exact all.put upheld (upheld.advanced (all.2 _ (List.mem_of_getElem? here)) all.1
        fun strictly => lawful strictly member here)

theorem Reached.upheld {world : ω} {now : Company flow} (upheld : Upheld strict turns sound moves holds)
    (fair : sound world) (reached : Reached strict turns world now) : now.AllHold sound holds := by
  induction reached with
  | start => exact ⟨fair, nofun⟩
  | called _ call lawful ih => exact ih.act upheld call lawful
  | turned _ here turn ih =>
    refine ⟨ih.1, fun member among => ?_⟩
    rcases List.mem_or_eq_of_mem_set among with among | rfl
    · exact ih.2 member among
    · exact upheld.turned (ih.2 _ (List.mem_of_getElem? here)) turn

section Sameness

def Alike {σ α : Type} (machine : Machine ω σ α) (one other : σ) : Prop :=
  ∀ world, machine.query other world = machine.query one world ∧ machine.advance other world = machine.advance one world

theorem Alike.refl {σ α : Type} (machine : Machine ω σ α) (state : σ) : Alike machine state state :=
  fun _ => ⟨rfl, rfl⟩

-- The same stream in a state like the other's; what the client remembers of it may differ.
inductive Same : Member flow → Member flow → Prop where
  | same {α : Type} {kind : Kind α} {visit other : Visit (flow α kind).State α}
      (alike : Alike (flow α kind).machine visit.state other.state) : Same ⟨α, kind, visit⟩ ⟨α, kind, other⟩

theorem Same.refl (member : Member flow) : Same member member := .same (.refl _ _)

theorem Same.left {α β : Type} {kind : Kind α} (visit other : Visit (flow α kind).State α) (shown : β → Option α)
    (passed others : List α) (outcome : Attempt β × (flow α kind).State × ω) :
    Same ⟨α, kind, (visit.left shown passed outcome).1⟩ ⟨α, kind, (other.left shown others outcome).1⟩ ∧
      (other.left shown others outcome).2 = (visit.left shown passed outcome).2 := by
  obtain ⟨_ | _, _, _⟩ := outcome
  · exact ⟨.same (.refl _ _), rfl⟩
  · exact ⟨.same (.refl _ _), rfl⟩

theorem Same.asked {member other : Member flow} (same : Same member other) (world : ω) :
    Heard.told (other.query world).1 = .told (member.query world).1 ∧
      Same (member.asked world).1 (other.asked world).1 ∧ (other.asked world).2 = (member.asked world).2 := by
  cases same with
  | @same α kind visit other alike =>
    simp only [Member.query, Member.asked, Visit.ask, (alike world).1]
    exact ⟨trivial, Same.left visit other _ _ _ _⟩

theorem Same.advanced {member other : Member flow} (same : Same member other) (world : ω) :
    Heard.passed (other.advance world).1 = .passed (member.advance world).1 ∧
      Same (member.advanced world).1 (other.advanced world).1 ∧ (other.advanced world).2 = (member.advanced world).2 := by
  cases same with
  | @same α kind visit other alike =>
    simp only [Member.advance, Member.advanced, Visit.advance, (alike world).2]
    exact ⟨trivial, Same.left visit other _ _ _ _⟩

theorem same_getElem? {members others : List (Member flow)} (same : List.Forall₂ Same members others) (place : Nat) :
    members[place]? = none ∧ others[place]? = none ∨
      ∃ member other, members[place]? = some member ∧ others[place]? = some other ∧ Same member other := by
  induction same generalizing place with
  | nil => exact .inl ⟨rfl, rfl⟩
  | @cons member other _ _ here _ ih =>
    cases place with
    | zero => exact .inr ⟨member, other, rfl, rfl, here⟩
    | succ place => exact ih place

theorem same_set {members others : List (Member flow)} (same : List.Forall₂ Same members others) (place : Nat)
    {member other : Member flow} (here : Same member other) :
    List.Forall₂ Same (members.set place member) (others.set place other) := by
  induction same generalizing place with
  | nil => exact .nil
  | cons first rest ih =>
    cases place with
    | zero => exact .cons here rest
    | succ place => exact .cons first (ih place)

theorem act_same {now other : Company flow} (members : List.Forall₂ Same now.members other.members)
    (world : other.world = now.world) (call : Call Kind) : (other.act call).1 = (now.act call).1 ∧
      List.Forall₂ Same (now.act call).2.members (other.act call).2.members ∧
      (other.act call).2.world = (now.act call).2.world := by
  cases call with
  | fresh kind => exact ⟨rfl, List.rel_append members (.cons (.refl _) .nil), world⟩
  | copy place =>
    refine ⟨rfl, List.rel_append members ?_, world⟩
    rcases same_getElem? members place with ⟨here, there⟩ | ⟨_, _, here, there, same⟩
    · rw [here, there]
      exact .nil
    · rw [here, there]
      exact .cons same .nil
  | ask place =>
    rcases same_getElem? members place with ⟨here, there⟩ | ⟨member, _, here, there, same⟩
    · simp only [act, here, there]
      exact ⟨trivial, members, world⟩
    · obtain ⟨answer, later, moved⟩ := same.asked now.world
      simp only [act, here, there, world, put, answer]
      exact ⟨trivial, same_set members place later, moved⟩
  | advance place =>
    rcases same_getElem? members place with ⟨here, there⟩ | ⟨member, _, here, there, same⟩
    · simp only [act, here, there]
      exact ⟨trivial, members, world⟩
    · obtain ⟨answer, later, moved⟩ := same.advanced now.world
      simp only [act, here, there, world, put, answer]
      exact ⟨trivial, same_set members place later, moved⟩

theorem replies_same {now other : Company flow} (members : List.Forall₂ Same now.members other.members)
    (world : other.world = now.world) (calls : List (Call Kind)) : other.replies calls = now.replies calls := by
  induction calls generalizing now other with
  | nil => rfl
  | cons call calls ih =>
    obtain ⟨answer, later, moved⟩ := act_same members world call
    rw [replies, replies, answer, ih later moved]

end Sameness
end Company
end LightestFirst
