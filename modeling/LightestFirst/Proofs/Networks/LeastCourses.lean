import LightestFirst.Network.Build
import LightestFirst.Proofs.Playing.Pairing
-- The courses that the buffers of a network have, however cyclic their definitions are. What is not
-- known of a course stands as `pending`; knowing more of the courses read, one knows more of the
-- course defined, and no place of it depends on places behind it.
namespace LightestFirst
variable {α : Type}

def Status.Below (one other : Status α) : Prop := one = .pending ∨ one = other

theorem Status.Below.refl (status : Status α) : status.Below status := .inr rfl

theorem Status.Below.trans {one two three : Status α} (first : one.Below two) (second : two.Below three) :
    one.Below three := by
  rcases first with rfl | rfl
  · exact .inl rfl
  · exact second

theorem Status.Below.antisymm {one other : Status α} (first : one.Below other) (second : other.Below one) :
    one = other := by
  rcases first with rfl | same
  · exact second.elim Eq.symm Eq.symm
  · exact same

theorem Status.Below.eq_of_stable {one other : Status α} (below : one.Below other) (stable : one.isStable = true) :
    one = other := by
  rcases below with rfl | same
  · cases stable
  · exact same

theorem Status.Below.map {β : Type} (f : α → β) {one other : Status α} (below : one.Below other) :
    (one.map f).Below (other.map f) := by
  rcases below with rfl | rfl
  · exact .inl rfl
  · exact .inr rfl

namespace Course
variable {xs xs' ys ys' : Course α} {bound : Nat}

def Below (bound : Nat) (xs ys : Course α) : Prop := ∀ place ≤ bound, (xs place).Below (ys place)

theorem map_below {β : Type} (f : α → β) (below : xs.Below bound xs') : (xs.map f).Below bound (xs'.map f) :=
  fun place inside => (below place inside).map f

theorem after_below (head : List α) (below : xs.Below bound xs') : (after head xs).Below bound (after head xs') := by
  intro place inside
  rw [after, after]
  split
  · exact .refl _
  · exact below _ (Nat.le_trans (Nat.sub_le _ _) inside)

section Merging
variable {le : α → α → Bool}

theorem between_below {x x' y y' : Status α} {verdict : Verdict α} (first : x.Below x') (second : y.Below y')
    (decided : Verdict.between le x y = some verdict) : Verdict.between le x' y' = some verdict := by
  obtain ⟨left, right⟩ := Verdict.stable_of_between decided
  rw [← first.eq_of_stable left, ← second.eq_of_stable right, decided]

theorem mergedAt_below (first : xs.Below bound xs') (second : ys.Below bound ys') {place i j : Nat}
    (inside : place ≤ bound + 1) (reached : mergedAt le xs ys place = some (i, j)) :
    i + j = place ∧ mergedAt le xs' ys' place = some (i, j) := by
  induction place generalizing i j with
  | zero =>
    cases reached
    exact ⟨rfl, rfl⟩
  | succ place ih =>
    simp only [mergedAt] at reached
    split at reached
    · cases reached
    · next i j before =>
      obtain ⟨sum, same⟩ := ih (by omega) before
      have low := first i (by omega)
      have right := second j (by omega)
      split at reached
      · next decided =>
        cases reached
        exact ⟨by omega, by simp only [mergedAt, same, between_below low right decided]⟩
      · next decided =>
        cases reached
        exact ⟨by omega, by simp only [mergedAt, same, between_below low right decided]⟩
      · cases reached

theorem merged_below (first : xs.Below bound xs') (second : ys.Below bound ys') :
    (merged le xs ys).Below bound (merged le xs' ys') := by
  intro place inside
  cases reached : mergedAt le xs ys place with
  | none => exact .inl (by simp only [merged, reached])
  | some sides =>
    obtain ⟨i, j⟩ := sides
    obtain ⟨sum, same⟩ := mergedAt_below first second (Nat.le_succ_of_le inside) reached
    rw [Merged.merged_eq reached, Merged.merged_eq same]
    cases decided : Verdict.between le (xs i) (ys j) with
    | none => exact .inl rfl
    | some verdict =>
      rw [between_below (first i (by omega)) (second j (by omega)) decided]
      exact .refl _

end Merging

section Joining
variable {le : α → α → Bool} {join : α → α → α}

theorem entry_below (first : xs.Below bound xs') (second : ys.Below bound ys') {row column : Nat}
    (within : row ≤ bound) (inside : column ≤ bound) :
    (entry join xs ys row column).Below (entry join xs' ys' row column) := by
  rcases first row within with waits | same
  · exact .inl (by simp only [entry, waits])
  · rw [entry, entry, ← same]
    split
    · exact (second column inside).map _
    · exact .refl _

-- With nothing pending among them, entries next in line are what they are for good.
theorem lineup_below (first : xs.Below bound xs') (second : ys.Below bound ys') {row : Nat} {columns : List Nat}
    (within : row + columns.length ≤ bound + 1) (inside : ∀ column ∈ columns, column ≤ bound)
    (settled : (lineup join xs ys row columns).any Status.isPending = false) :
    lineup join xs ys row columns = lineup join xs' ys' row columns := by
  induction columns generalizing row with
  | nil => rfl
  | cons column columns ih =>
    rw [List.length_cons] at within
    rw [lineup, List.any_cons, Bool.or_eq_false_iff] at settled
    have here : (entry join xs ys row column).Below (entry join xs' ys' row column) :=
      entry_below first second (by omega) (inside column (by simp))
    rw [lineup, lineup, ih (by omega) (fun other among => inside other (List.mem_cons_of_mem _ among)) settled.2,
      here.eq_of_stable (by rw [Status.isStable, settled.1]; rfl)]

theorem decision_below (first : xs.Below bound xs') (second : ys.Below bound ys') {columns : List Nat}
    (within : columns.length ≤ bound) (inside : ∀ column ∈ columns, column ≤ bound) {choice : Choice α}
    (decided : decision le join xs ys columns = some choice) : decision le join xs' ys' columns = some choice := by
  have settled : (lineup join xs ys 0 (columns ++ [0])).any Status.isPending = false := by
    cases waits : (lineup join xs ys 0 (columns ++ [0])).any Status.isPending with
    | false => rfl
    | true =>
      rw [decision, Paired.choose, if_pos waits] at decided
      cases decided
  have same := lineup_below first second (by simp; omega) (by
    intro column among
    rcases List.mem_append.mp among with begun | last
    · exact inside column begun
    · rw [List.mem_singleton.mp last]
      exact Nat.zero_le _) settled
  rw [decision, ← same]
  exact decided

theorem given_le {columns : List Nat} {row place : Nat} (short : columns.length ≤ place)
    (low : ∀ column ∈ columns, column ≤ place) : (given columns row).length ≤ place + 1 ∧
      ∀ column ∈ given columns row, column ≤ place + 1 := by
  rw [given]
  split
  · refine ⟨by rw [List.length_modify]; omega, fun column among => ?_⟩
    obtain ⟨k, found⟩ := List.mem_iff_getElem?.mp among
    rw [List.getElem?_modify] at found
    obtain ⟨old, there, rfl⟩ := Option.map_eq_some_iff.mp found
    have := low old (List.mem_of_getElem? there)
    split <;> omega
  · refine ⟨by simp; omega, fun column among => ?_⟩
    rcases List.mem_append.mp among with begun | last
    · exact Nat.le_succ_of_le (low column begun)
    · rw [List.mem_singleton.mp last]
      omega

theorem joinedAt_below (first : xs.Below bound xs') (second : ys.Below bound ys') {place : Nat}
    {columns : List Nat} (inside : place ≤ bound + 1) (reached : joinedAt le join xs ys place = some columns) :
    columns.length ≤ place ∧ (∀ column ∈ columns, column ≤ place) ∧
      joinedAt le join xs' ys' place = some columns := by
  induction place generalizing columns with
  | zero =>
    cases reached
    exact ⟨Nat.le_refl _, nofun, rfl⟩
  | succ place ih =>
    simp only [joinedAt] at reached
    split at reached
    · cases reached
    · next columns before =>
      obtain ⟨short, low, same⟩ := ih (by omega) before
      split at reached
      · next decided =>
        cases reached
        obtain ⟨shorter, lower⟩ := given_le short low
        have decided := decision_below first second (Nat.le_trans short (Nat.le_of_succ_le_succ inside))
          (fun column among => Nat.le_trans (low column among) (Nat.le_of_succ_le_succ inside)) decided
        exact ⟨shorter, lower, by simp only [joinedAt, same, decided]⟩
      · cases reached

theorem joined_below (first : xs.Below bound xs') (second : ys.Below bound ys') :
    (joined le join xs ys).Below bound (joined le join xs' ys') := by
  intro place inside
  cases reached : joinedAt le join xs ys place with
  | none => exact .inl (by simp only [joined, reached])
  | some columns =>
    obtain ⟨short, low, same⟩ := joinedAt_below first second (Nat.le_succ_of_le inside) reached
    simp only [joined, reached, same]
    cases decided : decision le join xs ys columns with
    | none => exact .inl rfl
    | some choice =>
      rw [decision_below first second (Nat.le_trans short inside)
        (fun column among => Nat.le_trans (low column among) inside) decided]
      exact .refl _

end Joining
end Course
end LightestFirst
