import LightestFirst.Proofs.Flows.Basic
import LightestFirst.Proofs.Merging.Sequences
-- Flows that keep to finite lists: what each way of putting streams together makes of the lists of its parts.
namespace LightestFirst

theorem merged_lists {α : Type} {le : α → α → Bool} {l m : List α} {place i j : Nat}
    (reached : Course.mergedAt le (.ofList l) (.ofList m) place = some (i, j)) :
    Course.merged le (.ofList l) (.ofList m) place = Course.ofList (l.merge m le) place := by
  rw [← Grid.course_ofList, ← Grid.course_ofList] at reached ⊢
  rw [Merging.merged_course reached, Merging.merge_ofList, Grid.course_ofList]

namespace Flow
variable {ω α : Type} {setting : Setting ω} {flow left right : Flow ω α} {l m : List α}

theorem empty_keeps_list : (empty : Flow ω α).Keeps setting (.ofList []) :=
  ⟨_, Empty.plays.along fun _ => rfl, fun _ => trivial⟩

theorem mapped_keeps_list (f : α → α) (keeps : flow.Keeps setting (.ofList l)) :
    (mapped f flow).Keeps setting (.ofList (l.map f)) := by
  have image : (mapped f flow).Keeps setting ((Course.ofList l).map f) :=
    mappedBy_keeps (fun _ value => setting.computes_pure (f value)) keeps
  rwa [Course.map_ofList] at image

theorem merged_keeps_list (le : α → α → Bool) (first : left.Keeps setting (.ofList l))
    (second : right.Keeps setting (.ofList m)) : (merged le left right).Keeps setting (.ofList (l.merge m le)) := by
  obtain ⟨stands, plays, starts⟩ := first
  obtain ⟨others, follows, begins⟩ := second
  refine ⟨_, (Merged.plays plays follows).along fun ⟨_, _, reached, _⟩ => merged_lists reached, fun world => ?_⟩
  exact ⟨0, 0, rfl, rfl, ⟨false, starts world⟩, false, begins world⟩

theorem paired_keeps_list {le : α → α → Bool} {join : α → α → α}
    (rising : Grid.Rising le join (Stream'.Seq.ofList l) (Stream'.Seq.ofList m)) (first : left.Keeps setting (.ofList l))
    (second : right.Keeps setting (.ofList m)) :
    (paired le join left right).Keeps setting (.ofList ((Grid.joins join l m).mergeSort le)) := by
  obtain ⟨stands, plays, starts⟩ := first
  obtain ⟨others, follows, begins⟩ := second
  exact ⟨_, Paired.plays_lists rising plays follows, fun world => Paired.of_stands (starts world) (begins world)⟩

end Flow
end LightestFirst
