import LightestFirst.Proofs.Flows.Lists
-- Flows that give a list, and flows that give some bag of elements in order, wherever they are started.
namespace LightestFirst

namespace Flow
variable {ω α : Type} {le : α → α → Bool} {flow left right : Flow ω α} {l m : List α}

def Gives (flow : Flow ω α) (items : List α) : Prop :=
  ∃ stands, Plays (Setting.free ω) flow.machine (.ofList items) stands ∧
    ∀ world, stands 0 false flow.state world

theorem empty_gives : (empty : Flow ω α).Gives [] := empty_keeps_list

theorem single_gives (value : α) : (single value : Flow ω α).Gives [value] := single_keeps value

theorem mapped_gives (f : α → α) (gives : flow.Gives l) : (mapped f flow).Gives (l.map f) := mapped_keeps_list f gives

theorem merged_gives (first : left.Gives l) (second : right.Gives m) :
    (merged le left right).Gives (l.merge m le) := merged_keeps_list le first second

theorem mergedAll_gives {β : Type} (total : ∀ x y, le x y = true ∨ le y x = true)
    (trans : ∀ {x y z}, le x y = true → le y z = true → le x z = true) {flows : β → Flow ω α}
    {lists : β → List α} {parts : List β} (gives : ∀ part ∈ parts, (flows part).Gives (lists part))
    (sorted : ∀ part ∈ parts, (lists part).Pairwise (le · · = true)) :
    (mergedAll le (parts.map flows)).Gives ((parts.flatMap lists).mergeSort le) := by
  have either : ∀ x y, (le x y || le y x) = true := fun x y => by simpa using total x y
  have chain : ∀ x y z, le x y = true → le y z = true → le x z = true := fun _ _ _ => trans
  induction parts with
  | nil => simpa [mergedAll] using empty_gives
  | cons part parts ih =>
    have here := gives part List.mem_cons_self
    have rises := sorted part List.mem_cons_self
    cases parts with
    | nil => simpa [mergedAll, List.mergeSort_of_pairwise rises] using here
    | cons next parts =>
      have rest := ih (fun other among => gives other (List.mem_cons_of_mem _ among))
        fun other among => sorted other (List.mem_cons_of_mem _ among)
      rw [List.flatMap_cons, ← Ties.merge_sorted chain either rises]
      exact merged_gives here rest

theorem paired_gives {join : α → α → α} (rising : Grid.Rising le join (Stream'.Seq.ofList l) (Stream'.Seq.ofList m))
    (first : left.Gives l) (second : right.Gives m) :
    (paired le join left right).Gives ((Grid.joins join l m).mergeSort le) := paired_keeps_list rising first second

theorem deferred_gives {later : Thunk (Flow ω α)} (gives : later.get.Gives l) : (deferred later).Gives l :=
  deferred_keeps gives

-- Read to its end, the flow gives the bag in order, equals in whatever order.
def Sorts (le : α → α → Bool) (flow : Flow ω α) (bag : List α) : Prop :=
  ∃ items, flow.Gives items ∧ items.Perm bag ∧ items.Pairwise (le · · = true)

theorem merged_sorts (total : ∀ x y, le x y = true ∨ le y x = true)
    (trans : ∀ {x y z}, le x y = true → le y z = true → le x z = true)
    (first : left.Sorts le l) (second : right.Sorts le m) : (merged le left right).Sorts le (l ++ m) := by
  obtain ⟨items, gives, perm, sorted⟩ := first
  obtain ⟨others, follows, same, rising⟩ := second
  have either : ∀ x y, (le x y || le y x) = true := fun x y => by simpa using total x y
  have chain : ∀ x y z, le x y = true → le y z = true → le x z = true := fun _ _ _ => trans
  exact ⟨_, merged_gives gives follows, (List.merge_perm_append le).trans (perm.append same),
    List.pairwise_merge chain either _ _ sorted rising⟩

theorem mergedAll_sorts {β : Type} (total : ∀ x y, le x y = true ∨ le y x = true)
    (trans : ∀ {x y z}, le x y = true → le y z = true → le x z = true) {flows : β → Flow ω α}
    {bags : β → List α} {parts : List β} (sorts : ∀ part ∈ parts, (flows part).Sorts le (bags part)) :
    (mergedAll le (parts.map flows)).Sorts le (parts.flatMap bags) := by
  induction parts with
  | nil => exact ⟨[], empty_gives, .nil, .nil⟩
  | cons part parts ih =>
    have here := sorts part (by simp)
    cases parts with
    | nil => simpa [mergedAll] using here
    | cons next parts =>
      exact merged_sorts total trans here (ih fun other among => sorts other (List.mem_cons_of_mem _ among))

theorem mapped_sorts {f : α → α} (mono : ∀ {x y}, le x y = true → le (f x) (f y) = true)
    (sorts : flow.Sorts le l) : (mapped f flow).Sorts le (l.map f) := by
  obtain ⟨items, gives, perm, sorted⟩ := sorts
  exact ⟨_, mapped_gives f gives, perm.map f, List.pairwise_map.mpr (sorted.imp mono)⟩

theorem paired_sorts {join : α → α → α} (total : ∀ x y, le x y = true ∨ le y x = true)
    (trans : ∀ {x y z}, le x y = true → le y z = true → le x z = true)
    (join_left : ∀ {x x'} y, le x x' = true → le (join x y) (join x' y) = true)
    (join_right : ∀ x {y y'}, le y y' = true → le (join x y) (join x y') = true)
    (first : left.Sorts le l) (second : right.Sorts le m) :
    (paired le join left right).Sorts le (Grid.joins join l m) := by
  obtain ⟨items, gives, perm, sorted⟩ := first
  obtain ⟨others, follows, same, rising⟩ := second
  have either : ∀ x y, (le x y || le y x) = true := fun x y => by simpa using total x y
  have chain : ∀ x y z, le x y = true → le y z = true → le x z = true := fun _ _ _ => trans
  refine ⟨_, paired_gives (Grid.rising_lists total trans join_left join_right sorted rising) gives follows, ?_, ?_⟩
  · refine (List.mergeSort_perm _ le).trans ?_
    exact perm.flatMap fun x _ => same.map (join x)
  · exact List.pairwise_mergeSort chain either _

theorem deferred_sorts {later : Thunk (Flow ω α)} (sorts : later.get.Sorts le l) : (deferred later).Sorts le l := by
  obtain ⟨items, gives, perm, sorted⟩ := sorts
  exact ⟨items, deferred_gives gives, perm, sorted⟩

theorem gives_drained (gives : flow.Gives l) {limit : Nat} (room : l.length < limit) (world : ω) :
    ∃ later after, Session.drain flow.machine limit 0 [] 0 flow.state world = (.ok ⟨l, .ended, 0⟩, later, after) := by
  obtain ⟨stands, plays, starts⟩ := gives
  exact plays.drains Setting.free_prompt (Course.serves_all (Course.ofList_begins l) (Course.ofList_length l) room)
    [] 0 (starts world) trivial

theorem gives_taken (gives : flow.Gives l) (limit : Nat) (world : ω) :
    ∃ ending later after, flow.take limit world = (.ok (l.take limit, Plays.shortage ending), later, after) ∧
      ending ≠ .pending := by
  obtain ⟨stands, plays, starts⟩ := gives
  obtain ⟨ending, serves, finished⟩ := Course.serves_ofList l limit
  obtain ⟨later, after, taken⟩ := plays.takes Setting.free_prompt serves [] (starts world) trivial
  refine ⟨ending, { flow with state := later.stream }, after, ?_, serves.going⟩
  rw [take, Iteration.take, taken]
  rfl

end Flow
end LightestFirst
