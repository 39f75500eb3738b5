import Mathlib.Data.List.Nodup
import Mathlib.Data.List.ProdSigma
import Mathlib.Data.List.Perm.Subperm
import LightestFirst.Proofs.Products.Given
import LightestFirst.Proofs.Ties
-- Of two finite sequences the product is a stable sort: the joins row by row, put in order.
namespace LightestFirst
namespace Grid
variable {α β : Type}

theorem sublist_of_tied {le : β → β → Bool} (trans : ∀ x y z, le x y = true → le y z = true → le x z = true)
    (total : ∀ x y, (le x y || le y x) = true) {list : List β} {p q : β} (forth : le p q = true)
    (back : le q p = true) (sorted : List.Sublist [p, q] (list.mergeSort le)) : List.Sublist [p, q] list := by
  have self := Ties.tied_self total p
  have ties : Ties.tied le p q = true := Ties.tied_iff.mpr ⟨forth, back⟩
  have within := sorted.filter (Ties.tied le p)
  rw [List.filter_cons_of_pos self, List.filter_cons_of_pos ties, List.filter_nil,
    Ties.mergeSort_tied trans total] at within
  exact within.trans List.filter_sublist

section Cells
variable {le : α → α → Bool} {join : α → α → α} {l m : List α}

def joins (join : α → α → α) (l m : List α) : List α := l.flatMap fun x => m.map (join x)

theorem length_joins (join : α → α → α) (l m : List α) : (joins join l m).length = l.length * m.length := by
  simp [joins, List.length_flatMap]

def cells (l m : List α) : List (Nat × Nat) := (List.range l.length).product (List.range m.length)

theorem value_isSome {p : Nat × Nat} :
    (value join (Stream'.Seq.ofList l) (Stream'.Seq.ofList m) p).isSome = true ↔ p ∈ cells l m := by
  obtain ⟨i, j⟩ := p
  rw [cells, List.pair_mem_product, List.mem_range, List.mem_range, value, Stream'.Seq.ofList_get?,
    Stream'.Seq.ofList_get?]
  rcases Nat.lt_or_ge i l.length with inside | outside
  · simp [inside]
  · simp [Nat.not_lt_of_ge outside]

theorem cells_ordered (l m : List α) :
    (cells l m).Pairwise (fun p q => p.1 < q.1 ∨ p.1 = q.1 ∧ p.2 < q.2) := by
  rw [cells, List.product, List.pairwise_flatMap]
  refine ⟨fun i _ => ?_, List.pairwise_lt_range.imp fun lower p hp q hq => ?_⟩
  · rw [List.pairwise_map]
    exact List.pairwise_lt_range.imp fun lower => .inr ⟨rfl, lower⟩
  · obtain ⟨_, _, rfl⟩ := List.mem_map.mp hp
    obtain ⟨_, _, rfl⟩ := List.mem_map.mp hq
    exact .inl lower

theorem range_getElem? (l : List α) : (List.range l.length).map (l[·]?) = l.map some := by
  apply List.ext_getElem?
  intro i
  rcases Nat.lt_or_ge i l.length with inside | outside
  · simp [inside]
  · simp [outside]

theorem cells_values (join : α → α → α) (l m : List α) :
    (cells l m).map (value join (Stream'.Seq.ofList l) (Stream'.Seq.ofList m)) = (joins join l m).map some := by
  have row : ∀ a : Option α, (List.range m.length).map (fun j => a.bind fun x => m[j]?.map (join x)) =
      (m.map some).map fun b => a.bind fun x => b.map (join x) := by
    intro a
    rw [← range_getElem? m, List.map_map]
    rfl
  have grid : (List.range l.length).flatMap (fun i =>
      (List.range m.length).map fun j => l[i]?.bind fun x => m[j]?.map (join x)) =
      (l.map some).flatMap fun a => (m.map some).map fun b => a.bind fun x => b.map (join x) := by
    rw [← range_getElem? l, List.flatMap_map]
    exact List.flatMap_congr fun i _ => row l[i]?
  rw [cells, List.product, List.map_flatMap]
  simp only [List.map_map, Function.comp_def, value, Stream'.Seq.ofList_get?]
  rw [grid, joins, List.map_flatMap, List.flatMap_map]
  simp [Function.comp_def]

-- The order of elements that may be missing: a missing one goes first.
def leOption (le : α → α → Bool) : Option α → Option α → Bool
  | none, _ => true
  | some _, none => false
  | some x, some y => le x y

theorem leOption_total (le : α → α → Bool) (total : ∀ x y, le x y = true ∨ le y x = true) (a b : Option α) :
    (leOption le a b || leOption le b a) = true := by
  cases a <;> cases b <;> simp [leOption, total]

theorem leOption_trans (le : α → α → Bool)
    (trans : ∀ {x y z}, le x y = true → le y z = true → le x z = true) (a b c : Option α)
    (one : leOption le a b = true) (two : leOption le b c = true) : leOption le a c = true := by
  cases a with
  | none => rfl
  | some x =>
    cases b with
    | none => cases one
    | some y =>
      cases c with
      | none => cases two
      | some z => exact trans (x := x) (y := y) one two

theorem pairs_sorted {pairs : List (Nat × Nat)}
    (rising : Rising le join (Stream'.Seq.ofList l) (Stream'.Seq.ofList m))
    (ordered : pairs.Pairwise (Before le join (Stream'.Seq.ofList l) (Stream'.Seq.ofList m)))
    (all : ∀ p, p ∈ pairs ↔ p ∈ cells l m) :
    pairs = (cells l m).mergeSort fun p q => leOption le
      (value join (Stream'.Seq.ofList l) (Stream'.Seq.ofList m) p)
      (value join (Stream'.Seq.ofList l) (Stream'.Seq.ofList m) q) := by
  generalize above : (fun p q => leOption le (value join (Stream'.Seq.ofList l) (Stream'.Seq.ofList m) p)
    (value join (Stream'.Seq.ofList l) (Stream'.Seq.ofList m) q)) = lePair
  have total : ∀ p q, (lePair p q || lePair q p) = true := by
    intro p q
    rw [← above]
    exact leOption_total le rising.total _ _
  have trans : ∀ p q r, lePair p q = true → lePair q r = true → lePair p r = true := by
    intro p q r
    rw [← above]
    exact leOption_trans le rising.trans _ _ _
  have sorted : ((cells l m).mergeSort lePair).Pairwise
      (Before le join (Stream'.Seq.ofList l) (Stream'.Seq.ofList m)) := by
    refine List.pairwise_iff_forall_sublist.mpr fun {p q} within => ?_
    have among : ∀ r ∈ [p, q], r ∈ cells l m := fun r here => List.mem_mergeSort.mp (within.subset here)
    have has : ∀ r ∈ [p, q], ∃ v, value join (Stream'.Seq.ofList l) (Stream'.Seq.ofList m) r = some v :=
      fun r here => Option.isSome_iff_exists.mp (value_isSome.mpr (among r here))
    obtain ⟨v, hv⟩ := has p (by simp)
    obtain ⟨w, hw⟩ := has q (by simp)
    have forth : lePair p q = true :=
      List.pairwise_iff_forall_sublist.mp (List.pairwise_mergeSort trans total (cells l m)) within
    have meaning : lePair p q = le v w ∧ lePair q p = le w v := by
      rw [← above]
      simp only [hv, hw, leOption, and_self]
    refine ⟨v, w, hv, hw, meaning.1 ▸ forth, fun back => ?_⟩
    have back : lePair q p = true := meaning.2 ▸ back
    exact List.pairwise_iff_forall_sublist.mp (cells_ordered l m) (sublist_of_tied trans total forth back within)
  refine List.Perm.eq_of_pairwise (fun p q _ _ one two => absurd two (one.asymm rising)) ordered sorted ?_
  refine (List.perm_ext_iff_of_nodup (Before.nodup ordered) (Before.nodup sorted)).mpr fun p => ?_
  rw [all, List.mem_mergeSort]

theorem sorted_of_pairs {pairs : List (Nat × Nat)} {items : List α}
    (rising : Rising le join (Stream'.Seq.ofList l) (Stream'.Seq.ofList m))
    (ordered : pairs.Pairwise (Before le join (Stream'.Seq.ofList l) (Stream'.Seq.ofList m)))
    (all : ∀ p, p ∈ pairs ↔ p ∈ cells l m)
    (values : pairs.map (value join (Stream'.Seq.ofList l) (Stream'.Seq.ofList m)) = items.map some) :
    items = (joins join l m).mergeSort le := by
  apply List.map_injective_iff.mpr fun _ _ => Option.some.inj
  calc items.map some
      = pairs.map (value join (Stream'.Seq.ofList l) (Stream'.Seq.ofList m)) := values.symm
    _ = ((cells l m).map (value join (Stream'.Seq.ofList l) (Stream'.Seq.ofList m))).mergeSort (leOption le) := by
        rw [pairs_sorted rising ordered all]
        exact List.map_mergeSort fun _ _ _ _ => rfl
    _ = ((joins join l m).map some).mergeSort (leOption le) := by rw [cells_values]
    _ = ((joins join l m).mergeSort le).map some := by
        rw [List.map_mergeSort]
        exact fun _ _ _ _ => rfl

end Cells

section Lists
variable {le : α → α → Bool} {join : α → α → α} {l m : List α}

theorem course_ofList (l : List α) : course (Stream'.Seq.ofList l) = Course.ofList l := by
  funext place
  simp only [course, Course.ofList, Course.ofAnswers, Stream'.Seq.ofList_get?]

theorem joinedAt_mono {xs ys : Course α} {place later : Nat} (finished : Course.joinedAt le join xs ys place = none)
    (behind : place ≤ later) : Course.joinedAt le join xs ys later = none := by
  induction behind with
  | refl => exact finished
  | step _ ih => simp only [Course.joinedAt, ih]

theorem emitted_all (rising : Rising le join (Stream'.Seq.ofList l) (Stream'.Seq.ofList m)) :
    ∃ rows pairs, Emitted le join (Stream'.Seq.ofList l) (Stream'.Seq.ofList m) rows pairs
        ((joins join l m).mergeSort le) ∧
      Course.joined le join (.ofList l) (.ofList m) ((joins join l m).mergeSort le).length = .ended := by
  obtain ⟨rows, pairs, items, done, stop⟩ := emitted rising ((cells l m).length + 1)
  have among : ∀ p ∈ pairs, p ∈ cells l m := by
    intro p given
    have there : value join (Stream'.Seq.ofList l) (Stream'.Seq.ofList m) p ∈ items.map some := by
      rw [← done.values]
      exact List.mem_map_of_mem given
    obtain ⟨v, _, same⟩ := List.mem_map.mp there
    exact value_isSome.mp (by rw [← same]; rfl)
  have short : items.length ≤ (cells l m).length := by
    rw [← done.length_eq]
    exact (List.subperm_of_subset (Before.nodup done.taken.ordered) among).length_le
  obtain ⟨_, finished, all⟩ := stop.resolve_left (by omega)
  have sorted := sorted_of_pairs rising done.taken.ordered
    (fun p => ⟨among p, fun inside => all p (value_isSome.mpr inside)⟩) done.values
  rw [course_ofList, course_ofList] at finished
  exact ⟨rows, pairs, sorted ▸ done, sorted ▸ finished⟩

theorem joinedAt_ended {xs ys : Course α} {place : Nat} (finished : Course.joined le join xs ys place = .ended) :
    Course.joinedAt le join xs ys (place + 1) = none := by
  cases reached : Course.joinedAt le join xs ys place with
  | none => exact joinedAt_mono reached (Nat.le_succ place)
  | some rows =>
    simp only [Course.joined, reached] at finished
    simp only [Course.joinedAt, reached]
    split
    · next decision =>
      rw [decision] at finished
      cases finished
    · rfl

theorem joined_lists (rising : Rising le join (Stream'.Seq.ofList l) (Stream'.Seq.ofList m)) {place : Nat}
    {rows : List Nat} (reached : Course.joinedAt le join (.ofList l) (.ofList m) place = some rows) :
    Course.joined le join (.ofList l) (.ofList m) place = Course.ofList ((joins join l m).mergeSort le) place := by
  obtain ⟨last, pairs, done, finished⟩ := emitted_all rising
  generalize (joins join l m).mergeSort le = items at done finished
  rcases Nat.lt_trichotomy place items.length with inside | rfl | beyond
  · have shown := done.begins place _ (List.getElem?_eq_getElem inside)
    rw [course_ofList, course_ofList] at shown
    rw [shown, Course.ofList_begins items place _ (List.getElem?_eq_getElem inside)]
  · rw [finished, Course.ofList_length]
  · rw [joinedAt_mono (joinedAt_ended finished) beyond] at reached
    cases reached

theorem list_rises (sorted : l.Pairwise (le · · = true)) {i : Nat} {x x' : α}
    (here : (Stream'.Seq.ofList l).get? i = some x) (there : (Stream'.Seq.ofList l).get? (i + 1) = some x') :
    le x x' = true := by
  rw [Stream'.Seq.ofList_get?] at here there
  obtain ⟨inside, rfl⟩ := List.getElem?_eq_some_iff.mp here
  obtain ⟨within, rfl⟩ := List.getElem?_eq_some_iff.mp there
  exact List.pairwise_iff_getElem.mp sorted i (i + 1) inside within (Nat.lt_succ_self i)

theorem rising_lists (total : ∀ x y, le x y = true ∨ le y x = true)
    (trans : ∀ {x y z}, le x y = true → le y z = true → le x z = true)
    (join_left : ∀ {x x'} y, le x x' = true → le (join x y) (join x' y) = true)
    (join_right : ∀ x {y y'}, le y y' = true → le (join x y) (join x y') = true)
    (left : l.Pairwise (le · · = true)) (right : m.Pairwise (le · · = true)) :
    Rising le join (Stream'.Seq.ofList l) (Stream'.Seq.ofList m) where
  total := total
  trans := trans
  join_left := join_left
  join_right := join_right
  left := list_rises left
  right := list_rises right

end Lists
end Grid

namespace Paired
variable {ω σ τ α : Type} {setting : Setting ω} {first : Machine ω σ α} {second : Machine ω τ α}
  {firstStands : Standing σ ω} {secondStands : Standing τ ω} {le : α → α → Bool} {join : α → α → α} {l m : List α}

theorem plays_lists (rising : Grid.Rising le join (Stream'.Seq.ofList l) (Stream'.Seq.ofList m))
    (left : Plays setting first (.ofList l) firstStands) (right : Plays setting second (.ofList m) secondStands) :
    Plays setting (machine first second le (plainly join)) (.ofList ((Grid.joins join l m).mergeSort le))
      (Stands le join (.ofList l) (.ofList m) firstStands secondStands) :=
  (plays left right fun x y => setting.computes_pure (join x y)).along
    fun ⟨_, _, reached, _⟩ => Grid.joined_lists rising reached

end Paired
end LightestFirst
