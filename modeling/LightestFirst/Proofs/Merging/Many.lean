import LightestFirst.Proofs.Merging.Sequences
-- Any number of sequences merged. Where none of them ever falls, the elements come by value, then by the
-- sequence they are in, then by their place there.
namespace LightestFirst
open Stream' (Seq)
variable {α : Type}

namespace Merging
section Definition
variable (le : α → α → Bool) (seqs : List (Seq α))

def mergeAll : Seq α := seqs.foldr (merge le) .nil

def element (p : Nat × Nat) : Option α := seqs[p.1]?.bind (·.get? p.2)

def Precedes (p q : Nat × Nat) : Prop :=
  ∃ v w, element seqs p = some v ∧ element seqs q = some w ∧ le v w = true ∧
    (le w v = true → p.1 < q.1 ∨ p.1 = q.1 ∧ p.2 < q.2)

def Ascends (s : Seq α) : Prop :=
  ∀ place x y, s.get? place = some x → s.get? (place + 1) = some y → le x y = true

def behind (k : Nat) (p : Nat × Nat) : Nat × Nat := if p.1 = k then (p.1, p.2 + 1) else p

structure Picked (k : Nat) (x : α) (s : Seq α) : Prop where
  found : seqs[k]? = some (.cons x s)
  merged : mergeAll le seqs = .cons x (mergeAll le (seqs.set k s))
  least : ∀ i y, element seqs (i, 0) = some y → le x y = true ∧ (le y x = true → k ≤ i)

-- The first elements of them all, in their order.
structure Smallest (limit : Nat) (places : List (Nat × Nat)) (items : List α) : Prop where
  values : places.map (element seqs) = items.map some
  ordered : places.Pairwise (Precedes le seqs)
  least : ∀ p ∈ places, ∀ q, q ∉ places → (element seqs q).isSome = true → Precedes le seqs p q
  stop : items.length = limit ∨ items.length < limit ∧ ∀ q, (element seqs q).isSome = true → q ∈ places

end Definition
variable {le : α → α → Bool} {seqs : List (Seq α)} {k : Nat} {x : α} {s : Seq α} {p q : Nat × Nat}

theorem Ascends.tail (ascends : Ascends le (.cons x s)) : Ascends le s :=
  fun place y z here there => ascends (place + 1) y z here there

theorem element_behind (found : seqs[k]? = some (.cons x s)) (p : Nat × Nat) :
    element seqs (behind k p) = element (seqs.set k s) p := by
  obtain ⟨i, place⟩ := p
  rw [element, element, behind]
  split
  · next same =>
    obtain rfl : i = k := same
    rw [found, List.getElem?_set_self (List.getElem?_eq_some_iff.mp found).1]
    exact Seq.get?_cons_succ x s place
  · next other => rw [List.getElem?_set_ne (Ne.symm other)]

theorem behind_cases (k : Nat) (p : Nat × Nat) : p = (k, 0) ∨ ∃ q, behind k q = p := by
  obtain ⟨i, place⟩ := p
  by_cases same : i = k
  · subst same
    cases place with
    | zero => exact .inl rfl
    | succ place => exact .inr ⟨(i, place), if_pos rfl⟩
  · exact .inr ⟨(i, place), if_neg same⟩

theorem behind_ne (k : Nat) (p : Nat × Nat) : behind k p ≠ (k, 0) := by
  rw [behind]
  split
  · exact fun same => Nat.succ_ne_zero _ (congrArg Prod.snd same)
  · next other => exact fun same => other (congrArg Prod.fst same)

theorem precedes_behind (found : seqs[k]? = some (.cons x s)) :
    Precedes le seqs (behind k p) (behind k q) ↔ Precedes le (seqs.set k s) p q := by
  have same : (behind k p).1 < (behind k q).1 ∨ (behind k p).1 = (behind k q).1 ∧ (behind k p).2 < (behind k q).2 ↔
      p.1 < q.1 ∨ p.1 = q.1 ∧ p.2 < q.2 := by
    simp only [behind]
    split <;> split <;> simp <;> omega
  simp only [Precedes, element_behind found, same]

theorem mergeAll_cons (s : Seq α) (seqs : List (Seq α)) : mergeAll le (s :: seqs) = merge le s (mergeAll le seqs) := rfl

theorem element_of_nil (empty : ∀ s ∈ seqs, s = .nil) (p : Nat × Nat) : element seqs p = none := by
  rw [element]
  cases found : seqs[p.1]? with
  | none => rfl
  | some s =>
    rw [empty s (List.mem_of_getElem? found)]
    rfl

theorem Picked.of_first (refl : ∀ x, le x x = true) (first : ∀ y, (mergeAll le seqs).get? 0 = some y → le x y = true)
    (least : ∀ i y, element seqs (i, 0) = some y → le x y = true) : Picked le (.cons x s :: seqs) 0 x s where
  found := rfl
  merged := by rw [List.set_cons_zero, mergeAll_cons, mergeAll_cons, merge_left first]
  least := by
    intro i y there
    cases i with
    | zero =>
      obtain rfl : x = y := Option.some.inj there
      exact ⟨refl x, fun _ => Nat.le_refl 0⟩
    | succ i => exact ⟨least i y there, fun _ => Nat.zero_le _⟩

theorem Picked.of_later {rest : Seq α} (total : ∀ x y, le x y = true ∨ le y x = true) (picked : Picked le seqs k x rest)
    (later : ∀ y, s.get? 0 = some y → le y x = false) : Picked le (s :: seqs) (k + 1) x rest where
  found := picked.found
  merged := by rw [List.set_cons_succ, mergeAll_cons, mergeAll_cons, picked.merged, merge_right later]
  least := by
    intro i y there
    cases i with
    | zero =>
      have strict := later y there
      exact ⟨(total x y).resolve_right (by simp [strict]), by simp [strict]⟩
    | succ i => exact (picked.least i y there).imp_right fun first back => Nat.succ_le_succ (first back)

theorem Smallest.present {limit : Nat} {places : List (Nat × Nat)} {items : List α}
    (smallest : Smallest le seqs limit places items) (given : p ∈ places) : (element seqs p).isSome = true := by
  have among := List.mem_map_of_mem (f := element seqs) given
  rw [smallest.values] at among
  obtain ⟨w, _, same⟩ := List.mem_map.mp among
  rw [← same]
  rfl

section Least
variable (total : ∀ x y, le x y = true ∨ le y x = true)
  (trans : ∀ {x y z}, le x y = true → le y z = true → le x z = true)
include total trans

theorem mergeAll_cases (seqs : List (Seq α)) :
    ((∀ s ∈ seqs, s = .nil) ∧ mergeAll le seqs = .nil) ∨ ∃ k x s, Picked le seqs k x s := by
  have refl : ∀ x, le x x = true := fun x => (total x x).elim id id
  induction seqs with
  | nil => exact .inl ⟨nofun, rfl⟩
  | cons s seqs ih =>
    rcases ih with ⟨empty, rest⟩ | ⟨k, z, tail, picked⟩
    · cases s with
      | nil => exact .inl ⟨by simpa using empty, by rw [mergeAll_cons, merge_nil_left, rest]⟩
      | cons x s =>
        refine .inr ⟨0, x, s, .of_first refl (by rw [rest]; nofun) fun i y there => ?_⟩
        rw [element_of_nil empty] at there
        cases there
    · have head : (mergeAll le seqs).get? 0 = some z := by
        rw [picked.merged]
        rfl
      cases s with
      | nil => exact .inr ⟨k + 1, z, tail, picked.of_later total nofun⟩
      | cons x s =>
        cases first : le x z with
        | true =>
          refine .inr ⟨0, x, s, .of_first refl (fun y there => ?_) fun i y there => trans first (picked.least i y there).1⟩
          rwa [← Option.some.inj (head.symm.trans there)]
        | false => exact .inr ⟨k + 1, z, tail, picked.of_later total (by rintro _ ⟨⟩; exact first)⟩

theorem Ascends.rises (ascends : Ascends le s) {i j : Nat} {x y : α} (here : s.get? i = some x)
    (there : s.get? j = some y) (later : i ≤ j) : le x y = true :=
  Grid.rises (fun x => (total x x).elim id id) trans (fun here there => ascends _ _ _ here there) here there later

theorem Ascends.sorted {l : List α} (ascends : Ascends le (Seq.ofList l)) : l.Pairwise (le · · = true) := by
  refine List.pairwise_iff_getElem.mpr fun i j inside within lower => ?_
  refine ascends.rises total trans (i := i) (j := j) ?_ ?_ (Nat.le_of_lt lower)
  · rw [Seq.ofList_get?, List.getElem?_eq_getElem inside]
  · rw [Seq.ofList_get?, List.getElem?_eq_getElem within]

theorem first_precedes (ascends : ∀ s ∈ seqs, Ascends le s) (picked : Picked le seqs k x s)
    (there : (element seqs q).isSome = true) (other : q ≠ (k, 0)) : Precedes le seqs (k, 0) q := by
  obtain ⟨i, place⟩ := q
  obtain ⟨w, there⟩ := Option.isSome_iff_exists.mp there
  have first : element seqs (k, 0) = some x := by
    rw [element, picked.found]
    rfl
  obtain ⟨t, at_i, inside⟩ := Option.bind_eq_some_iff.mp there
  obtain ⟨y, head⟩ := t.ge_stable (Nat.zero_le place) inside
  have rises : le y w = true :=
    (ascends t (List.mem_of_getElem? at_i)).rises total trans head inside (Nat.zero_le place)
  obtain ⟨below, tie⟩ := picked.least i y (by rw [element, at_i]; exact head)
  refine ⟨x, w, first, there, trans below rises, fun back => ?_⟩
  rcases Nat.lt_or_eq_of_le (tie (trans rises back)) with lower | rfl
  · exact .inl lower
  · refine .inr ⟨rfl, Nat.pos_of_ne_zero ?_⟩
    rintro rfl
    exact other rfl

theorem Smallest.step {limit : Nat} {places : List (Nat × Nat)} {items : List α} (ascends : ∀ s ∈ seqs, Ascends le s)
    (picked : Picked le seqs k x s) (rest : Smallest le (seqs.set k s) limit places items) :
    Smallest le seqs (limit + 1) ((k, 0) :: places.map (behind k)) (x :: items) where
  values := by
    have others : (places.map (behind k)).map (element seqs) = items.map some := by
      rw [List.map_map, ← rest.values]
      exact List.map_congr_left fun p _ => element_behind picked.found p
    rw [List.map_cons, List.map_cons, others, element, picked.found]
    rfl
  ordered := by
    refine List.pairwise_cons.mpr ⟨fun q among => ?_, ?_⟩
    · obtain ⟨p, given, rfl⟩ := List.mem_map.mp among
      refine first_precedes total trans ascends picked ?_ (behind_ne k p)
      rw [element_behind picked.found]
      exact rest.present given
    · exact List.pairwise_map.mpr (rest.ordered.imp (precedes_behind picked.found).mpr)
  least := by
    intro p given q out there
    have distinct : q ≠ (k, 0) := fun same => out (by rw [same]; exact List.mem_cons_self)
    rcases List.mem_cons.mp given with rfl | among
    · exact first_precedes total trans ascends picked there distinct
    · obtain ⟨p, before, rfl⟩ := List.mem_map.mp among
      obtain ⟨q, rfl⟩ := (behind_cases k q).resolve_left distinct
      rw [element_behind picked.found] at there
      refine (precedes_behind picked.found).mpr (rest.least p before q (fun inside => ?_) there)
      exact out (List.mem_cons_of_mem _ (List.mem_map_of_mem inside))
  stop := by
    rw [List.length_cons]
    refine rest.stop.imp (congrArg _) (And.imp Nat.succ_lt_succ fun all q there => ?_)
    rcases behind_cases k q with rfl | ⟨q, rfl⟩
    · exact List.mem_cons_self
    · rw [element_behind picked.found] at there
      exact List.mem_cons_of_mem _ (List.mem_map_of_mem (all q there))

theorem smallest (ascends : ∀ s ∈ seqs, Ascends le s) (limit : Nat) :
    ∃ places, Smallest le seqs limit places ((mergeAll le seqs).take limit) := by
  induction limit generalizing seqs with
  | zero => exact ⟨[], rfl, .nil, nofun, .inl rfl⟩
  | succ limit ih =>
    rcases mergeAll_cases total trans seqs with ⟨empty, nothing⟩ | ⟨k, x, s, picked⟩
    · rw [nothing]
      refine ⟨[], rfl, .nil, nofun, .inr ⟨Nat.succ_pos limit, fun q there => ?_⟩⟩
      rw [element_of_nil empty] at there
      cases there
    · have others : ∀ t ∈ seqs.set k s, Ascends le t := by
        intro t among
        rcases List.mem_or_eq_of_mem_set among with before | rfl
        · exact ascends t before
        · exact (ascends _ (List.mem_of_getElem? picked.found)).tail
      obtain ⟨places, taken⟩ := ih others
      rw [picked.merged, Seq.take_succ_cons]
      exact ⟨_, taken.step total trans ascends picked⟩

theorem mergeAll_ofList {lists : List (List α)} (sorted : ∀ l ∈ lists, l.Pairwise (le · · = true)) :
    mergeAll le (lists.map Seq.ofList) = Seq.ofList (lists.flatten.mergeSort le) := by
  induction lists with
  | nil => rw [List.map_nil, List.flatten_nil, List.mergeSort_nil, Seq.ofList_nil]; rfl
  | cons l lists ih =>
    have rest := ih fun m among => sorted m (List.mem_cons_of_mem l among)
    have either : ∀ x y, (le x y || le y x) = true := fun x y => by simpa using total x y
    have chain : ∀ x y z, le x y = true → le y z = true → le x z = true := fun _ _ _ => trans
    rw [List.map_cons, mergeAll_cons, rest, merge_ofList, List.flatten_cons,
      Ties.merge_sorted chain either (sorted l List.mem_cons_self)]

end Least
end Merging
end LightestFirst
