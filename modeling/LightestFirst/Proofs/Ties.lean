import Mathlib.Data.List.Sort
-- Lists in order in which equals keep their places. What stands in such a list is told by its classes:
-- a merge and a stable sort both leave the elements that tie with one another as they came.
namespace LightestFirst
namespace Ties
variable {α : Type} {le : α → α → Bool} {l m : List α}

def tied (le : α → α → Bool) (x y : α) : Bool := le x y && le y x

theorem tied_iff {x y : α} : tied le x y = true ↔ le x y = true ∧ le y x = true := by
  rw [tied, Bool.and_eq_true]

section Orders
variable (trans : ∀ x y z, le x y = true → le y z = true → le x z = true) (total : ∀ x y, (le x y || le y x) = true)
include total

theorem tied_self (x : α) : tied le x x = true := by
  have either := total x x
  rw [Bool.or_self] at either
  exact tied_iff.mpr ⟨either, either⟩

theorem head_least {x : α} (sorted : (x :: l).Pairwise (le · · = true)) {y : α} (here : y ∈ x :: l) : le x y = true := by
  rcases List.mem_cons.mp here with rfl | behind
  · exact (tied_iff.mp (tied_self total y)).1
  · exact (List.pairwise_cons.mp sorted).1 y behind

theorem mem_of_classes (classes : ∀ p, l.filter (tied le p) = m.filter (tied le p)) {x : α} (here : x ∈ l) : x ∈ m := by
  have both := List.mem_filter.mpr ⟨here, tied_self total x⟩
  rw [classes] at both
  exact (List.mem_filter.mp both).1

-- By the two lists: their heads tie, and the class of these begins with either.
theorem eq_of_classes (left : l.Pairwise (le · · = true)) (right : m.Pairwise (le · · = true))
    (classes : ∀ p, l.filter (tied le p) = m.filter (tied le p)) : l = m := by
  induction l generalizing m with
  | nil =>
    refine (List.eq_nil_iff_forall_not_mem.mpr fun y there => ?_).symm
    exact List.not_mem_nil (mem_of_classes total (fun p => (classes p).symm) there)
  | cons x l ih =>
    cases m with
    | nil => exact absurd (mem_of_classes total classes List.mem_cons_self) List.not_mem_nil
    | cons y m =>
      have heads : tied le x y = true := tied_iff.mpr
        ⟨head_least total left (mem_of_classes total (fun p => (classes p).symm) List.mem_cons_self),
          head_least total right (mem_of_classes total classes List.mem_cons_self)⟩
      obtain ⟨rfl, -⟩ : x = y ∧ _ := by
        have here := classes x
        rw [List.filter_cons_of_pos (tied_self total x), List.filter_cons_of_pos heads] at here
        exact List.cons.inj here
      rw [ih (List.pairwise_cons.mp left).2 (List.pairwise_cons.mp right).2 fun p => ?_]
      have here := classes p
      rw [List.filter_cons, List.filter_cons] at here
      split at here
      · exact (List.cons.inj here).2
      · exact here

include trans

theorem mergeSort_tied (p : α) (l : List α) : (l.mergeSort le).filter (tied le p) = l.filter (tied le p) := by
  have class_sorted : (l.filter (tied le p)).Pairwise (le · · = true) := by
    refine List.pairwise_of_forall_mem_list fun x hx y hy => ?_
    have before := tied_iff.mp (List.mem_filter.mp hx).2
    have after := tied_iff.mp (List.mem_filter.mp hy).2
    exact trans _ _ _ before.2 after.1
  have kept := (List.sublist_mergeSort trans total class_sorted List.filter_sublist).filter (tied le p)
  rw [List.filter_filter] at kept
  simp only [Bool.and_self] at kept
  exact (kept.eq_of_length ((List.mergeSort_perm l le).filter _).length_eq.symm).symm

theorem merge_tied (p : α) (sorted : l.Pairwise (le · · = true)) :
    (l.merge m le).filter (tied le p) = l.filter (tied le p) ++ m.filter (tied le p) := by
  induction l generalizing m with
  | nil => simp
  | cons x l ih =>
    induction m with
    | nil => simp
    | cons y m also =>
      rw [List.cons_merge_cons]
      split
      · rw [List.filter_cons, List.filter_cons, ih (List.pairwise_cons.mp sorted).2]
        split <;> simp
      · next later =>
        rw [List.filter_cons, List.filter_cons (x := y), also]
        split
        · next ties =>
          have nothing : (x :: l).filter (tied le p) = [] := by
            refine List.filter_eq_nil_iff.mpr fun z among both => later ?_
            have above := head_least total sorted among
            exact trans _ _ _ (trans _ _ _ above (tied_iff.mp both).2) (tied_iff.mp ties).1
          rw [nothing, List.nil_append, List.nil_append]
        · rfl

theorem merge_sorted (sorted : l.Pairwise (le · · = true)) (m : List α) :
    l.merge (m.mergeSort le) le = (l ++ m).mergeSort le := by
  refine eq_of_classes total ?_ (List.pairwise_mergeSort trans total _) fun p => ?_
  · exact List.pairwise_merge trans total _ _ sorted (List.pairwise_mergeSort trans total _)
  · rw [merge_tied trans total p sorted, mergeSort_tied trans total, mergeSort_tied trans total, List.filter_append]

end Orders
end Ties
end LightestFirst
