import LightestFirst.Proofs.Flows.Basic
import LightestFirst.Proofs.Merging.Many
import LightestFirst.Proofs.Products.Order
-- What streams merged give to a reader: two of them the merge of their sequences, any number of sorted ones
-- their elements in order, ties by the stream and then by the place.
namespace LightestFirst
open Stream' (Seq)
variable {ω α : Type}

namespace Grid

theorem take_ofList (l : List α) (limit : Nat) : (Seq.ofList l).take limit = l.take limit := by
  apply List.ext_getElem?
  intro place
  rw [Seq.getElem?_take, Seq.ofList_get?, List.getElem?_take]

theorem course_serves (s : Seq α) (place limit : Nat) : ∃ ending,
    (course s).Serves place limit ((s.drop place).take limit) ending ∧
      (ending = .limit ∧ ((s.drop place).take limit).length = limit ∨
        ending = .ended ∧ ((s.drop place).take limit).length < limit) := by
  induction limit generalizing place with
  | zero => exact ⟨.limit, .limit, .inl ⟨rfl, rfl⟩⟩
  | succ limit ih =>
    have shown := Merging.course_head s place
    have next : s.drop (place + 1) = (s.drop place).tail := rfl
    obtain ⟨ending, serves, stop⟩ := ih (place + 1)
    rw [next] at serves stop
    generalize s.drop place = rest at shown serves stop
    cases rest with
    | nil => exact ⟨.ended, .ended shown, .inr ⟨rfl, Nat.succ_pos limit⟩⟩
    | cons x rest =>
      rw [Seq.tail_cons] at serves stop
      rw [Seq.take_succ_cons, List.length_cons]
      exact ⟨ending, .ready shown serves, stop.imp (And.imp_right (congrArg _)) (And.imp_right Nat.succ_lt_succ)⟩

end Grid

namespace Flow
section Definition
variable (setting : Setting ω) (flow : Flow ω α) (world : ω)

-- Asked in this world, the flow has the elements of the sequence, and never waits.
def Offers (s : Seq α) : Prop :=
  ∃ stands, Plays setting flow.machine (Grid.course s) stands ∧ stands 0 false flow.state world

def Drained (limit : Nat) (items : List α) : Prop :=
  ∃ ending later after,
    Session.drain flow.machine limit 0 [] 0 flow.state world = (.ok ⟨items, ending, 0⟩, later, after) ∧
    (ending = .limit ∧ items.length = limit ∨ ending = .ended ∧ items.length < limit)

end Definition
variable {setting : Setting ω} {flow left right : Flow ω α} {world : ω} {s xs ys : Seq α}

theorem Offers.drained (offers : flow.Offers setting world s) (prompt : setting.Prompt) (sound : setting.sound world)
    (limit : Nat) : flow.Drained world limit (s.take limit) := by
  obtain ⟨stands, plays, starts⟩ := offers
  obtain ⟨ending, serves, stop⟩ := Grid.course_serves s 0 limit
  obtain ⟨later, after, drained⟩ := plays.drains prompt serves [] 0 starts sound
  exact ⟨ending, later, after, drained, stop⟩

theorem empty_offers : (empty : Flow ω α).Offers setting world .nil := ⟨_, Empty.plays.along fun _ => rfl, trivial⟩

theorem merged_offers (le : α → α → Bool) (first : left.Offers setting world xs)
    (second : right.Offers setting world ys) : (merged le left right).Offers setting world (Merging.merge le xs ys) := by
  obtain ⟨stands, plays, starts⟩ := first
  obtain ⟨others, follows, begins⟩ := second
  refine ⟨_, (Merged.plays plays follows).along fun ⟨_, _, reached, _⟩ => Merging.merged_course reached, ?_⟩
  exact ⟨0, 0, rfl, rfl, ⟨false, starts⟩, false, begins⟩

theorem mergedAll_offers (le : α → α → Bool) {flows : List (Flow ω α)} {seqs : List (Seq α)}
    (offers : List.Forall₂ (fun flow s => flow.Offers setting world s) flows seqs) :
    (mergedAll le flows).Offers setting world (Merging.mergeAll le seqs) := by
  induction offers with
  | nil => exact empty_offers
  | @cons flow s flows seqs first rest ih =>
    cases rest with
    | nil =>
      rw [Merging.mergeAll_cons, Merging.mergeAll, List.foldr_nil, Merging.merge_nil_right]
      exact first
    | cons => exact merged_offers le first ih

end Flow

namespace Merging
variable {setting : Setting ω} {world : ω}

-- Two streams in whatever order, finite or not, are read as their sequences merged; lists among them as these
-- merged. Of any number of streams that never fall the first elements are read that there are, and of finite
-- ones the stable sort of all of them in a row.
theorem merges_give_the_first_elements (prompt : setting.Prompt) (sound : setting.sound world) :
    (∀ (le : α → α → Bool) (left right : Flow ω α) (xs ys : Seq α), left.Offers setting world xs →
      right.Offers setting world ys → ∀ limit,
        (Flow.merged le left right).Drained world limit ((merge le xs ys).take limit) ∧
        (∃ sides i j, Interleaved le xs ys limit sides i j) ∧
        ∀ l m, xs = Seq.ofList l → ys = Seq.ofList m →
          (Flow.merged le left right).Drained world limit ((l.merge m le).take limit)) ∧
    (∀ le : α → α → Bool, (∀ x y, le x y = true ∨ le y x = true) →
      (∀ {x y z}, le x y = true → le y z = true → le x z = true) → ∀ (flows : List (Flow ω α)) (seqs : List (Seq α)),
      List.Forall₂ (fun flow s => flow.Offers setting world s) flows seqs → (∀ s ∈ seqs, Ascends le s) →
      ∀ limit, ∃ places items, (Flow.mergedAll le flows).Drained world limit items ∧
        Smallest le seqs limit places items ∧
        ∀ lists : List (List α), seqs = lists.map Seq.ofList → items = (lists.flatten.mergeSort le).take limit) ∧
    ∀ (le : α → α → Bool) limit, (Flow.mergedAll le [] : Flow ω α).Drained world limit [] := by
  refine ⟨?_, ?_, ?_⟩
  · intro le left right xs ys first second limit
    have drained := (Flow.merged_offers le first second).drained prompt sound limit
    refine ⟨drained, interleaved le xs ys limit, ?_⟩
    rintro l m rfl rfl
    rwa [merge_ofList, Grid.take_ofList] at drained
  · intro le total trans flows seqs offers ascends limit
    obtain ⟨places, taken⟩ := smallest total trans ascends limit
    refine ⟨places, _, (Flow.mergedAll_offers le offers).drained prompt sound limit, taken, ?_⟩
    rintro lists rfl
    have sorted : ∀ l ∈ lists, l.Pairwise (le · · = true) := fun l among =>
      (ascends (Seq.ofList l) (List.mem_map_of_mem among)).sorted total trans
    rw [mergeAll_ofList total trans sorted, Grid.take_ofList]
  · intro le limit
    have drained : (Flow.mergedAll le [] : Flow ω α).Drained world limit (Seq.nil.take limit) :=
      Flow.empty_offers.drained prompt sound limit
    rwa [Seq.take_nil] at drained

def byFirst (x y : Nat × Nat) : Bool := x.1 ≤ y.1

def inTurn (s : Seq α) : Flow Unit α := .iterated (Iterated.inTurn s) 0

theorem inTurn_offers (s : Seq α) : (inTurn s).Offers (Setting.free Unit) () s :=
  ⟨_, Iterated.inTurn_plays s, Iterated.inTurn_starts s ()⟩

theorem ties_to_the_earlier :
    (Flow.mergedAll byFirst [inTurn (Seq.ofList [(1, 0), (2, 0)]), inTurn (Seq.ofList [(1, 1)]),
        inTurn (Seq.ofList [(0, 2), (2, 2)])]).Drained () 9 [(0, 2), (1, 0), (1, 1), (2, 0), (2, 2)] ∧
      (Flow.merged byFirst (inTurn (Seq.ofList [(3, 0), (1, 0)])) (inTurn (Seq.ofList [(2, 1)]))).Drained
        () 9 [(2, 1), (3, 0), (1, 0)] := by
  obtain ⟨two, many, _⟩ :=
    @merges_give_the_first_elements Unit (Nat × Nat) (Setting.free Unit) () Setting.free_prompt trivial
  have total : ∀ x y, byFirst x y = true ∨ byFirst y x = true := by
    simpa [byFirst] using fun x y => Nat.le_total x y
  have trans : ∀ {x y z}, byFirst x y = true → byFirst y z = true → byFirst x z = true := by
    intro x y z one two
    simp only [byFirst, decide_eq_true_eq] at *
    exact Nat.le_trans one two
  constructor
  · have sorted : ∀ l ∈ [[(1, 0), (2, 0)], [(1, 1)], [(0, 2), (2, 2)]], l.Pairwise (byFirst · · = true) := by decide
    have ascends : ∀ s ∈ [[(1, 0), (2, 0)], [(1, 1)], [(0, 2), (2, 2)]].map Seq.ofList, Ascends byFirst s := by
      intro s among
      obtain ⟨l, listed, rfl⟩ := List.mem_map.mp among
      exact fun _ _ _ => Grid.list_rises (sorted l listed)
    obtain ⟨_, items, drained, _, inOrder⟩ := many byFirst total trans _ _
      (.cons (inTurn_offers _) (.cons (inTurn_offers _) (.cons (inTurn_offers _) .nil))) ascends 9
    rw [inOrder [[(1, 0), (2, 0)], [(1, 1)], [(0, 2), (2, 2)]] rfl] at drained
    have given : ([[(1, 0), (2, 0)], [(1, 1)], [(0, 2), (2, 2)]].flatten.mergeSort byFirst).take 9 =
        [(0, 2), (1, 0), (1, 1), (2, 0), (2, 2)] := by
      simp [byFirst, List.mergeSort, List.MergeSort.Internal.splitInTwo]
    rwa [given] at drained
  · have drained := (two byFirst _ _ _ _ (inTurn_offers _) (inTurn_offers _) 9).2.2 [(3, 0), (1, 0)] [(2, 1)] rfl rfl
    have given : ([(3, 0), (1, 0)].merge [(2, 1)] byFirst).take 9 = [(2, 1), (3, 0), (1, 0)] := by simp [byFirst]
    rwa [given] at drained

end Merging
end LightestFirst
