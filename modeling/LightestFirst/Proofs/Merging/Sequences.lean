import Mathlib.Data.Seq.Basic
import LightestFirst.Proofs.Playing.Definite
import LightestFirst.Proofs.Products.Sorting
-- Two sequences merged, finite or not, sorted or not: the left head goes first unless the right one is to,
-- and what is left of one side follows when the other has ended. A merge of two streams plays just this.
namespace LightestFirst
open Stream' (Seq)
variable {α : Type}

namespace Merging
section Definition
variable (le : α → α → Bool)

def next : Seq α × Seq α → Option (α × Seq α × Seq α)
  | (s, t) =>
    match s.head, t.head with
    | some x, some y => if le x y then some (x, s.tail, t) else some (y, s, t.tail)
    | some x, none => some (x, s.tail, t)
    | none, some y => some (y, s, t.tail)
    | none, none => none

def merge (s t : Seq α) : Seq α := Seq.corec (next le) (s, t)

end Definition
variable {le : α → α → Bool} {s t : Seq α}

theorem merge_some {x : α} {s' t' : Seq α} (found : next le (s, t) = some (x, s', t')) :
    merge le s t = .cons x (merge le s' t') := by
  apply Seq.destruct_eq_cons
  rw [merge, Seq.corec_eq, found]
  rfl

theorem merge_none (nothing : next le (s, t) = none) : merge le s t = .nil := by
  apply Seq.destruct_eq_none
  rw [merge, Seq.corec_eq, nothing]
  rfl

theorem merge_cons_cons (x y : α) (s t : Seq α) : merge le (.cons x s) (.cons y t) =
    if le x y then .cons x (merge le s (.cons y t)) else .cons y (merge le (.cons x s) t) := by
  split
  · next first => exact merge_some (by simp [next, first])
  · next later => exact merge_some (by simp [next, later])

theorem merge_nil_left (t : Seq α) : merge le .nil t = t := by
  refine Seq.eq_of_bisim_strong (fun whole rest => whole = merge le .nil rest) rfl fun whole rest same => ?_
  cases rest with
  | nil => exact .inl (same.trans (merge_none (by simp [next])))
  | cons y rest => exact .inr ⟨y, _, rest, same.trans (merge_some (by simp [next])), rfl, rfl⟩

theorem merge_nil_right (s : Seq α) : merge le s .nil = s := by
  refine Seq.eq_of_bisim_strong (fun whole rest => whole = merge le rest .nil) rfl fun whole rest same => ?_
  cases rest with
  | nil => exact .inl (same.trans (merge_none (by simp [next])))
  | cons x rest => exact .inr ⟨x, _, rest, same.trans (merge_some (by simp [next])), rfl, rfl⟩

theorem merge_ofList (l m : List α) : merge le (Seq.ofList l) (Seq.ofList m) = Seq.ofList (l.merge m le) := by
  induction l generalizing m with
  | nil => rw [Seq.ofList_nil, merge_nil_left, List.nil_merge]
  | cons x l ih =>
    induction m with
    | nil => rw [Seq.ofList_nil, merge_nil_right, List.merge_right]
    | cons y m also =>
      rw [Seq.ofList_cons, Seq.ofList_cons, merge_cons_cons, List.cons_merge_cons]
      split
      · rw [Seq.ofList_cons, ← ih, Seq.ofList_cons]
      · rw [Seq.ofList_cons, ← also, Seq.ofList_cons]

theorem merge_left {x : α} (first : ∀ y, t.get? 0 = some y → le x y = true) :
    merge le (.cons x s) t = .cons x (merge le s t) := by
  cases t with
  | nil => rw [merge_nil_right, merge_nil_right]
  | cons y t => rw [merge_cons_cons, if_pos (first y rfl)]

theorem merge_right {y : α} (later : ∀ x, s.get? 0 = some x → le x y = false) :
    merge le s (.cons y t) = .cons y (merge le s t) := by
  cases s with
  | nil => rw [merge_nil_left, merge_nil_left]
  | cons x s => rw [merge_cons_cons, later x rfl, if_neg Bool.false_ne_true]

theorem heads_cases (le : α → α → Bool) (s t : Seq α) :
    (s = .nil ∧ t = .nil) ∨
    (∃ x s', s = .cons x s' ∧ ∀ y, t.get? 0 = some y → le x y = true) ∨
    ∃ y t', t = .cons y t' ∧ ∀ x, s.get? 0 = some x → le x y = false := by
  cases s with
  | nil =>
    cases t with
    | nil => exact .inl ⟨rfl, rfl⟩
    | cons y t => exact .inr (.inr ⟨y, t, rfl, nofun⟩)
  | cons x s =>
    cases t with
    | nil => exact .inr (.inl ⟨x, s, rfl, nofun⟩)
    | cons y t =>
      cases first : le x y with
      | true => exact .inr (.inl ⟨x, s, rfl, by rintro _ ⟨⟩; exact first⟩)
      | false => exact .inr (.inr ⟨y, t, rfl, by rintro _ ⟨⟩; exact first⟩)

section Sides

-- The element there on the other side, if there is one, lets this side come to its place.
def Yields (le : α → α → Bool) (s t : Seq α) (a b : Nat) : Prop :=
  ∀ y, t.get? b = some y → ∀ before ≤ a, ∀ x, s.get? before = some x → le x y = true

-- The elements read are told by the side they came from: on either side they are the first ones, in
-- their order. One is missing only while the other side puts its own elements before it.
structure Interleaved (le : α → α → Bool) (s t : Seq α) (limit : Nat) (sides : List (α ⊕ α)) (i j : Nat) : Prop where
  items : sides.map (Sum.elim id id) = (merge le s t).take limit
  left : sides.filterMap Sum.getLeft? = s.take i
  right : sides.filterMap Sum.getRight? = t.take j
  count : i + j = sides.length
  stop : sides.length = limit ∨ sides.length < limit ∧ s.get? i = none ∧ t.get? j = none
  left_comes : ∀ a b, (s.get? a).isSome = true → Yields le s t a b → a + b < limit → a < i
  right_comes : ∀ a b, (t.get? b).isSome = true → Yields (fun y x => !le x y) t s b a → a + b < limit → b < j

variable {limit i j : Nat} {sides : List (α ⊕ α)}

theorem Yields.behind {x : α} {a b : Nat} (yields : Yields le (.cons x s) t (a + 1) b) : Yields le s t a b :=
  fun y there before inside x' here => yields y there (before + 1) (Nat.succ_le_succ inside) x' here

theorem Yields.first {a : Nat} {y : α} (yields : Yields le s t a 0) (here : (s.get? a).isSome = true)
    (there : t.get? 0 = some y) : ∃ x, s.get? 0 = some x ∧ le x y = true := by
  obtain ⟨z, found⟩ := Option.isSome_iff_exists.mp here
  obtain ⟨x, first⟩ := s.ge_stable (Nat.zero_le a) found
  exact ⟨x, first, yields y there 0 (Nat.zero_le a) x first⟩

theorem Interleaved.start (le : α → α → Bool) (s t : Seq α) : Interleaved le s t 0 [] 0 0 :=
  ⟨rfl, rfl, rfl, rfl, .inl rfl, nofun, nofun⟩

theorem Interleaved.ended (le : α → α → Bool) (limit : Nat) : Interleaved le .nil .nil (limit + 1) [] 0 0 where
  items := by
    rw [merge_nil_left]
    rfl
  left := rfl
  right := rfl
  count := rfl
  stop := .inr ⟨Nat.succ_pos limit, rfl, rfl⟩
  left_comes := nofun
  right_comes := nofun

theorem Interleaved.from_left {x : α} (first : ∀ y, t.get? 0 = some y → le x y = true)
    (rest : Interleaved le s t limit sides i j) :
    Interleaved le (.cons x s) t (limit + 1) (.inl x :: sides) (i + 1) j where
  items := by
    rw [merge_left first, Seq.take_succ_cons, List.map_cons, rest.items]
    rfl
  left := by
    rw [Seq.take_succ_cons, ← rest.left]
    rfl
  right := rest.right
  count := by rw [List.length_cons, ← rest.count, Nat.add_right_comm]
  stop := by
    rw [List.length_cons, Seq.get?_cons_succ]
    exact rest.stop.imp (congrArg _) (And.imp_left Nat.succ_lt_succ)
  left_comes := by
    intro a b here yields room
    cases a with
    | zero => exact Nat.succ_pos i
    | succ a => exact Nat.succ_lt_succ (rest.left_comes a b here yields.behind (by omega))
  right_comes := by
    intro a b here yields room
    cases a with
    | zero =>
      obtain ⟨y, found, later⟩ := yields.first here rfl
      rw [first y found] at later
      cases later
    | succ a => exact rest.right_comes a b here (fun x' there => yields x' there) (by omega)

theorem Interleaved.from_right {y : α} (later : ∀ x, s.get? 0 = some x → le x y = false)
    (rest : Interleaved le s t limit sides i j) :
    Interleaved le s (.cons y t) (limit + 1) (.inr y :: sides) i (j + 1) where
  items := by
    rw [merge_right later, Seq.take_succ_cons, List.map_cons, rest.items]
    rfl
  left := rest.left
  right := by
    rw [Seq.take_succ_cons, ← rest.right]
    rfl
  count := by rw [List.length_cons, ← rest.count, Nat.add_assoc]
  stop := by
    rw [List.length_cons, Seq.get?_cons_succ]
    exact rest.stop.imp (congrArg _) (And.imp_left Nat.succ_lt_succ)
  left_comes := by
    intro a b here yields room
    cases b with
    | zero =>
      obtain ⟨x, found, first⟩ := yields.first here rfl
      rw [later x found] at first
      cases first
    | succ b => exact rest.left_comes a b here (fun y' there => yields y' there) (by omega)
  right_comes := by
    intro a b here yields room
    cases b with
    | zero => exact Nat.succ_pos j
    | succ b => exact Nat.succ_lt_succ (rest.right_comes a b here yields.behind (by omega))

theorem interleaved (le : α → α → Bool) (s t : Seq α) (limit : Nat) :
    ∃ sides i j, Interleaved le s t limit sides i j := by
  induction limit generalizing s t with
  | zero => exact ⟨[], 0, 0, .start le s t⟩
  | succ limit ih =>
    rcases heads_cases le s t with ⟨rfl, rfl⟩ | ⟨x, s, rfl, first⟩ | ⟨y, t, rfl, later⟩
    · exact ⟨[], 0, 0, .ended le limit⟩
    · obtain ⟨sides, i, j, rest⟩ := ih s t
      exact ⟨_, _, _, rest.from_left first⟩
    · obtain ⟨sides, i, j, rest⟩ := ih s t
      exact ⟨_, _, _, rest.from_right later⟩

end Sides

section Courses
variable {xs ys : Seq α} {place i j : Nat}

theorem course_head (s : Seq α) (place : Nat) : Grid.course s place = Iterated.answer (s.drop place).head := by
  have same : (s.drop place).get? 0 = s.get? place := Seq.drop_get?
  exact congrArg Iterated.answer same.symm

theorem next_between (le : α → α → Bool) (s t : Seq α) : next le (s, t) =
    match Verdict.between le (Iterated.answer s.head) (Iterated.answer t.head) with
    | some (.left z) => some (z, s.tail, t)
    | some (.right z) => some (z, s, t.tail)
    | _ => none := by
  rw [next]
  cases s.head with
  | none => cases t.head <;> rfl
  | some x =>
    cases t.head with
    | none => rfl
    | some y =>
      by_cases first : le x y = true
      · simp [Iterated.answer, Verdict.between, first]
      · simp [Iterated.answer, Verdict.between, first]

theorem mergedAt_drop (reached : Course.mergedAt le (Grid.course xs) (Grid.course ys) place = some (i, j)) :
    (merge le xs ys).drop place = merge le (xs.drop i) (ys.drop j) := by
  induction place generalizing i j with
  | zero =>
    cases reached
    rfl
  | succ place ih =>
    simp only [Course.mergedAt] at reached
    split at reached
    · cases reached
    · next i j before =>
      have step := next_between le (xs.drop i) (ys.drop j)
      rw [course_head, course_head] at reached
      rw [Seq.drop, ih before]
      split at reached
      · next decided =>
        cases reached
        rw [decided] at step
        rw [merge_some step, Seq.tail_cons, Seq.drop]
      · next decided =>
        cases reached
        rw [decided] at step
        rw [merge_some step, Seq.tail_cons, Seq.drop]
      · cases reached

theorem merged_course (reached : Course.mergedAt le (Grid.course xs) (Grid.course ys) place = some (i, j)) :
    Course.merged le (Grid.course xs) (Grid.course ys) place = Grid.course (merge le xs ys) place := by
  have step := next_between le (xs.drop i) (ys.drop j)
  obtain ⟨verdict, decided⟩ :=
    Course.between_definite le (x := Iterated.answer (xs.drop i).head) (y := Iterated.answer (ys.drop j).head)
      Iterated.answer_ne_pending Iterated.answer_ne_pending
  rw [Merged.merged_eq reached, course_head, course_head, course_head, mergedAt_drop reached, decided]
  rw [decided] at step
  cases verdict with
  | left z => rw [merge_some step, Seq.head_cons]; rfl
  | right z => rw [merge_some step, Seq.head_cons]; rfl
  | ended => rw [merge_none step, Seq.head_nil]; rfl

end Courses
end Merging
end LightestFirst
