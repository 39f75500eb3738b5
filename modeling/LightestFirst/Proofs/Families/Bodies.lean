import LightestFirst.Interrupted
import LightestFirst.Proofs.Flows.Lists
-- Families of definitions that refer to one another. A body is put together from finite lists in order,
-- and may share what a part of it gives; a reference stands for the body of another definition with one
-- unit of fuel less, and for nothing when there is none left. What a body comes to is a list.
namespace LightestFirst

structure Ranking (α : Type) where
  le : α → α → Bool
  total : ∀ x y, le x y = true ∨ le y x = true
  trans : ∀ {x y z}, le x y = true → le y z = true → le x z = true

namespace Ranking
variable {α : Type} (ranking : Ranking α)

def Sorted (items : List α) : Prop := items.Pairwise (ranking.le · · = true)

structure Monotone where
  apply : α → α
  mono : ∀ {x y}, ranking.le x y = true → ranking.le (apply x) (apply y) = true

structure Joining where
  join : α → α → α
  left : ∀ {x x'} y, ranking.le x x' = true → ranking.le (join x y) (join x' y) = true
  right : ∀ x {y y'}, ranking.le y y' = true → ranking.le (join x y) (join x y') = true

variable {ranking} {l m : List α}

theorem either (ranking : Ranking α) (x y : α) : (ranking.le x y || ranking.le y x) = true := by
  simpa using ranking.total x y

theorem chain (ranking : Ranking α) (x y z : α) (one : ranking.le x y = true) (two : ranking.le y z = true) :
    ranking.le x z = true := ranking.trans one two

theorem Monotone.sorted (f : ranking.Monotone) (sorted : ranking.Sorted l) : ranking.Sorted (l.map f.apply) :=
  List.pairwise_map.mpr (sorted.imp f.mono)

theorem Sorted.merge (left : ranking.Sorted l) (right : ranking.Sorted m) : ranking.Sorted (l.merge m ranking.le) :=
  List.pairwise_merge ranking.chain ranking.either l m left right

theorem sorted_mergeSort (items : List α) : ranking.Sorted (items.mergeSort ranking.le) :=
  List.pairwise_mergeSort ranking.chain ranking.either items

theorem Joining.rising (join : ranking.Joining) (left : ranking.Sorted l) (right : ranking.Sorted m) :
    Grid.Rising ranking.le join.join (Stream'.Seq.ofList l) (Stream'.Seq.ofList m) :=
  Grid.rising_lists ranking.total ranking.trans join.left join.right left right

end Ranking

-- The index is the number of shared parts whose elements can be read here.
inductive Body {α : Type} (ranking : Ranking α) (κ : Type) : Nat → Type where
  | empty {n : Nat} : Body ranking κ n
  | single {n : Nat} (value : α) : Body ranking κ n
  | literal {n : Nat} (items : List α) (sorted : ranking.Sorted items) : Body ranking κ n
  | mapped {n : Nat} (f : ranking.Monotone) (inner : Body ranking κ n) : Body ranking κ n
  | merged {n : Nat} (left right : Body ranking κ n) : Body ranking κ n
  | paired {n : Nat} (join : ranking.Joining) (left right : Body ranking κ n) : Body ranking κ n
  -- a buffer over `source`, for any number of readers in what stands within
  | shared {n : Nat} (source : Body ranking κ n) (within : Body ranking κ (n + 1)) : Body ranking κ n
  | reader {n : Nat} (buffer : Fin n) : Body ranking κ n
  | reference {n : Nat} (name : κ) : Body ranking κ n

namespace Body
variable {α κ : Type} {ranking : Ranking α} {n : Nat}

def list (lists : κ → List α) : {n : Nat} → Body ranking κ n → (Fin n → List α) → List α
  | _, .empty, _ => []
  | _, .single value, _ => [value]
  | _, .literal items _, _ => items
  | _, .mapped f inner, read => (inner.list lists read).map f.apply
  | _, .merged left right, read => (left.list lists read).merge (right.list lists read) ranking.le
  | _, .paired join left right, read =>
    (Grid.joins join.join (left.list lists read) (right.list lists read)).mergeSort ranking.le
  | _, .shared source within, read => within.list lists (Fin.cases (source.list lists read) read)
  | _, .reader buffer, read => read buffer
  | _, .reference name, _ => lists name

theorem list_sorted {lists : κ → List α} (named : ∀ name, ranking.Sorted (lists name)) (body : Body ranking κ n)
    {read : Fin n → List α} (readable : ∀ buffer, ranking.Sorted (read buffer)) :
    ranking.Sorted (body.list lists read) := by
  induction body with
  | empty => exact .nil
  | single value => exact List.pairwise_singleton _ _
  | literal items sorted => exact sorted
  | mapped f inner ih => exact f.sorted (ih readable)
  | merged left right first second => exact (first readable).merge (second readable)
  | paired join left right first second => exact Ranking.sorted_mergeSort _
  | shared source within first second => exact second (Fin.cases (first readable) readable)
  | reader buffer => exact readable buffer
  | reference name => exact named name

end Body

inductive Turn where
  | first
  | second
  | unfolded
deriving DecidableEq, Repr

abbrev Path := List Turn

-- What can be noted of a reference: a call of it, and that its body is built.
inductive Notice where
  | called (place : Path)
  | ran (place : Path)
deriving DecidableEq, Repr

namespace Flow
variable {ω α β : Type}

def enclosed (source : Flow ω α) (within : Flow (Buffered source.State α × ω) β) : Flow ω β :=
  ⟨Buffered source.State α × within.State, Enclosed.machine within.machine, (.start source.state, within.state)⟩

def noted (note : Notice → ω → ω) (place : Path) (later : Thunk (Flow ω α)) : Flow ω α where
  State := Postponed Unit later.get.State
  machine := Probed.machine (note (.called place)) (note (.called place))
    (Postponed.machine (fun _ world => (.ok later.get.state, note (.ran place) world)) later.get.machine)
  state := .waiting ()

end Flow

def Body.take {α : Type} (rest : List α) : Option α × List α := (rest.head?, rest.tail)

namespace Body
variable {α κ : Type} {ranking : Ranking α}

def readers {ω σ : Type} {n : Nat} (source : Machine ω σ α) (readAt : Fin n → Nat → ω → Attempt (Status α) × ω) :
    Fin (n + 1) → Nat → Buffered σ α × ω → Attempt (Status α) × Buffered σ α × ω :=
  Fin.cases (Paired.readRight source) fun buffer place => aside (readAt buffer place)

def flow (references : κ → (ω : Type) → (Notice → ω → ω) → Path → Flow ω α) : {n : Nat} → Body ranking κ n →
    (ω : Type) → (Notice → ω → ω) → (Fin n → Nat → ω → Attempt (Status α) × ω) → Path → Flow ω α
  | _, .empty, _, _, _, _ => .empty
  | _, .single value, _, _, _, _ => .single value
  | _, .literal items _, _, _, _, _ => .iterated (Iterated.plainly take) items
  | _, .mapped f inner, ω, note, readAt, place => .mapped f.apply (inner.flow references ω note readAt place)
  | _, .merged left right, ω, note, readAt, place =>
    .merged ranking.le (left.flow references ω note readAt (place ++ [.first]))
      (right.flow references ω note readAt (place ++ [.second]))
  | _, .paired join left right, ω, note, readAt, place =>
    .paired ranking.le join.join (left.flow references ω note readAt (place ++ [.first]))
      (right.flow references ω note readAt (place ++ [.second]))
  | _, .shared source within, ω, note, readAt, place =>
    let buffer := source.flow references ω note readAt (place ++ [.first])
    .enclosed buffer (within.flow references (Buffered buffer.State α × ω) (fun notice => Prod.map id (note notice))
      (readers buffer.machine readAt) (place ++ [.second]))
  | _, .reader buffer, _, _, readAt, _ => .view (readAt buffer)
  | _, .reference name, ω, note, _, place => references name ω note place

end Body

abbrev Family {α : Type} (ranking : Ranking α) (κ : Type) := κ → Body ranking κ 0

namespace Family
variable {α κ : Type} {ranking : Ranking α} (family : Family ranking κ)

def list : Nat → κ → List α
  | 0, name => (family name).list (fun _ => []) nofun
  | fuel + 1, name => (family name).list (list fuel) nofun

def flow : Nat → κ → (ω : Type) → (Notice → ω → ω) → Path → Flow ω α
  | 0, name, ω, note, place => (family name).flow (fun _ _ _ _ => .empty) ω note nofun place
  | fuel + 1, name, ω, note, place =>
    (family name).flow (fun other ω note place =>
      .noted note place ⟨fun _ => flow fuel other ω note (place ++ [.unfolded])⟩) ω note nofun place

theorem list_sorted (fuel : Nat) (name : κ) : ranking.Sorted (family.list fuel name) := by
  induction fuel generalizing name with
  | zero => exact (family name).list_sorted (fun _ => .nil) nofun
  | succ fuel ih => exact (family name).list_sorted ih nofun

end Family

end LightestFirst
