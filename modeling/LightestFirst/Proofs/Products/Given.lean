import LightestFirst.Proofs.Products.Grid
-- What a product has given after so many elements. Every row that may still have something shows its
-- next pair, or it is hidden behind the first pair of the first row not begun, which is before it.
namespace LightestFirst
namespace Grid
variable {α : Type}

def course (s : Stream'.Seq α) : Course α := .ofAnswers s.get?

variable {le : α → α → Bool} {join : α → α → α} {xs ys : Stream'.Seq α} {rows : List Nat}
  {pairs : List (Nat × Nat)}

theorem entry_eq (row column : Nat) : Course.entry join (course xs) (course ys) row column =
    Iterated.answer (value join xs ys (row, column)) := by
  cases left : xs.get? row with
  | none => simp [Course.entry, course, Course.ofAnswers, Iterated.answer, value, left]
  | some x =>
    cases right : ys.get? column <;>
      simp [Course.entry, course, Course.ofAnswers, Iterated.answer, value, left, right, Status.map]

theorem lineup_heads (rows : List Nat) (row : Nat) :
    (Course.lineup join (course xs) (course ys) 0 (rows ++ [0]))[row]? =
      if row ≤ rows.length then some (Iterated.answer (value join xs ys (head rows row))) else none := by
  rw [Paired.lineup_getElem?, Nat.zero_add, List.getElem?_append]
  rcases Nat.lt_trichotomy row rows.length with begun | rfl | beyond
  · simp [begun, Nat.le_of_lt begun, entry_eq, head]
  · simp [entry_eq, head]
  · rw [if_neg (by omega), if_neg (by omega)]
    simp [Nat.sub_eq_zero_iff_le, beyond]

theorem lineup_settled (rows : List Nat) :
    (Course.lineup join (course xs) (course ys) 0 (rows ++ [0])).any Status.isPending = false := by
  rw [List.any_eq_false]
  intro status among
  obtain ⟨row, found⟩ := List.mem_iff_getElem?.mp among
  rw [lineup_heads] at found
  split at found
  · cases found
    cases value join xs ys (head rows row) <;> simp [Iterated.answer, Status.isPending]
  · cases found

inductive Picked (join : α → α → α) (xs ys : Stream'.Seq α) (rows : List Nat) : Option (Choice α) → Prop where
  | head {v : α} {row : Nat} (inside : row ≤ rows.length) (there : value join xs ys (head rows row) = some v) :
      Picked join xs ys rows (some (.ready v row))
  | ended (nothing : ∀ row ≤ rows.length, value join xs ys (head rows row) = none) :
      Picked join xs ys rows (some .ended)

theorem picked (le : α → α → Bool) (rows : List Nat) :
    Picked join xs ys rows (Course.decision le join (course xs) (course ys) rows) := by
  rw [Course.decision, Paired.choose, lineup_settled, if_neg Bool.false_ne_true]
  cases found : Paired.least le (Course.lineup join (course xs) (course ys) 0 (rows ++ [0])) with
  | none =>
    refine .ended fun row inside => Option.eq_none_iff_forall_ne_some.mpr fun v there => ?_
    have nothing := (leastFrom_none found).2 row v
    rw [lineup_heads, if_pos inside, there] at nothing
    exact nothing rfl
  | some best =>
    obtain ⟨row, v⟩ := best
    have here := ((Paired.leastFrom_getElem? found).resolve_left (by simp)).2
    rw [Nat.sub_zero, lineup_heads] at here
    split at here
    · next inside => exact .head inside (Iterated.answer_eq_ready.mp (Option.some.inj here))
    · cases here

inductive Decided (le : α → α → Bool) (join : α → α → α) (xs ys : Stream'.Seq α) (rows : List Nat) :
    Option (Choice α) → Prop where
  | least {value : α} {row : Nat} (inside : row ≤ rows.length)
      (there : Grid.value join xs ys (head rows row) = some value)
      (below : ∀ other ≤ rows.length, ∀ w, Grid.value join xs ys (head rows other) = some w →
        le value w = true ∧ (le w value = true → row ≤ other)) :
      Decided le join xs ys rows (some (.ready value row))
  | ended (nothing : ∀ row ≤ rows.length, Grid.value join xs ys (head rows row) = none) :
      Decided le join xs ys rows (some .ended)

theorem decided (rising : Rising le join xs ys) (rows : List Nat) :
    Decided le join xs ys rows (Course.decision le join (course xs) (course ys) rows) := by
  have picked : Picked join xs ys rows (Course.decision le join (course xs) (course ys) rows) := picked le rows
  generalize decision : Course.decision le join (course xs) (course ys) rows = choice at picked ⊢
  cases picked with
  | ended nothing => exact .ended nothing
  | @head v row inside there =>
    refine .least inside there fun other among w here => ?_
    have found := Paired.least_of_choose decision
    have below := (leastFrom_least rising.total rising.trans (by simp) found).2 other w
    rw [lineup_heads, if_pos among, here, Nat.zero_add] at below
    exact below rfl

theorem given_count {row : Nat} (inside : row ≤ rows.length) (other : Nat) :
    (Course.given rows row)[other]?.getD 0 = rows[other]?.getD 0 + if other = row then 1 else 0 := by
  rw [Course.given]
  split
  · next begun =>
    rw [List.getElem?_modify]
    by_cases same : row = other
    · subst same
      simp [begun]
    · simp [same, Ne.symm same]
  · next last =>
    obtain rfl : row = rows.length := by omega
    rw [List.getElem?_append]
    rcases Nat.lt_trichotomy other rows.length with begun | rfl | beyond
    · simp [begun, Nat.ne_of_lt begun]
    · simp
    · simp [Nat.not_lt_of_gt beyond, Nat.ne_of_gt beyond, Nat.sub_eq_zero_iff_le, beyond]

theorem given_mem {row : Nat} (inside : row ≤ rows.length) (p : Nat × Nat) :
    p.2 < (Course.given rows row)[p.1]?.getD 0 ↔ p.2 < rows[p.1]?.getD 0 ∨ p = head rows row := by
  rw [given_count inside]
  by_cases same : p.1 = row
  · rw [if_pos same, Nat.lt_succ_iff_lt_or_eq]
    refine or_congr Iff.rfl ⟨fun eq => Prod.ext same ?_, fun eq => by rw [eq]; rfl⟩
    rw [eq, same]
    rfl
  · rw [if_neg same, Nat.add_zero]
    exact (or_iff_left fun eq => same (by rw [eq]; rfl)).symm

-- The pairs given so far, in turn, when each row has given so many of its joins.
structure Taken (le : α → α → Bool) (join : α → α → α) (xs ys : Stream'.Seq α) (rows : List Nat)
    (pairs : List (Nat × Nat)) : Prop where
  given : ∀ p, p ∈ pairs ↔ p.2 < rows[p.1]?.getD 0
  ordered : pairs.Pairwise (Before le join xs ys)
  least : ∀ p ∈ pairs, ∀ q, q ∉ pairs → (value join xs ys q).isSome = true → Before le join xs ys p q

theorem Taken.start : Taken le join xs ys [] [] := ⟨by simp, .nil, nofun⟩

-- What has not been given is the head of its row or behind it, or it stands in a row that is hidden
-- behind the first one not begun.
theorem Taken.head_before (rising : Rising le join xs ys) (taken : Taken le join xs ys rows pairs) {q : Nat × Nat}
    (out : q ∉ pairs) {w : α} (there : value join xs ys q = some w) :
    ∃ row ≤ rows.length, row ≤ q.1 ∧ (head rows row).2 ≤ q.2 ∧ ∃ v, value join xs ys (head rows row) = some v := by
  have behind : rows[q.1]?.getD 0 ≤ q.2 := Nat.le_of_not_lt fun given => out ((taken.given q).mpr given)
  rcases Nat.le_total q.1 rows.length with inside | beyond
  · obtain ⟨v, here, _⟩ := rising.value_le (p := head rows q.1) there (Nat.le_refl _) behind
    exact ⟨q.1, inside, Nat.le_refl _, behind, v, here⟩
  · have fresh : (head rows rows.length).2 = 0 := by simp [head]
    obtain ⟨v, here, _⟩ := rising.value_le (p := head rows rows.length) there beyond (by rw [fresh]; exact Nat.zero_le _)
    exact ⟨rows.length, Nat.le_refl _, beyond, by rw [fresh]; exact Nat.zero_le _, v, here⟩

theorem Taken.head_out (taken : Taken le join xs ys rows pairs) (row : Nat) : head rows row ∉ pairs :=
  fun given => Nat.lt_irrefl _ ((taken.given _).mp given)

theorem Taken.step (rising : Rising le join xs ys) (taken : Taken le join xs ys rows pairs) {row : Nat}
    (inside : row ≤ rows.length) {v : α} (there : value join xs ys (head rows row) = some v)
    (below : ∀ other ≤ rows.length, ∀ w, value join xs ys (head rows other) = some w →
      le v w = true ∧ (le w v = true → row ≤ other)) :
    Taken le join xs ys (Course.given rows row) (pairs ++ [head rows row]) where
  given p := by rw [List.mem_append, List.mem_singleton, taken.given, given_mem inside]
  ordered := by
    refine List.pairwise_append.mpr ⟨taken.ordered, List.pairwise_singleton _ _, fun p given q last => ?_⟩
    obtain rfl := List.mem_singleton.mp last
    exact taken.least p given _ (taken.head_out row) (by rw [there]; rfl)
  least := by
    intro p given q out exists_
    rw [List.mem_append, not_or, List.mem_singleton] at out
    rcases List.mem_append.mp given with earlier | last
    · exact taken.least p earlier q out.1 exists_
    · obtain rfl := List.mem_singleton.mp last
      obtain ⟨w, hw⟩ := Option.isSome_iff_exists.mp exists_
      obtain ⟨other, among, above, right, u, hu⟩ := taken.head_before rising out.1 hw
      obtain ⟨low, tie⟩ := below other among u hu
      obtain ⟨u', hu', high⟩ := rising.value_le (p := head rows other) hw above right
      obtain rfl := Option.some.inj (hu.symm.trans hu')
      refine ⟨v, w, there, hw, rising.trans low high, fun back => ?_⟩
      have first : row ≤ other := tie (rising.trans high back)
      rcases Nat.lt_or_eq_of_le (Nat.le_trans first above) with lower | same
      · exact .inl lower
      · obtain rfl : other = row := by omega
        refine .inr ⟨same, Nat.lt_of_le_of_ne right fun eq => out.2 (Prod.ext same.symm eq.symm)⟩

theorem Taken.complete (rising : Rising le join xs ys) (taken : Taken le join xs ys rows pairs)
    (nothing : ∀ row ≤ rows.length, value join xs ys (head rows row) = none) (q : Nat × Nat)
    (exists_ : (value join xs ys q).isSome = true) : q ∈ pairs := by
  by_contra out
  obtain ⟨w, hw⟩ := Option.isSome_iff_exists.mp exists_
  obtain ⟨row, inside, _, _, v, here⟩ := taken.head_before rising out hw
  rw [nothing row inside] at here
  cases here

structure Emitted (le : α → α → Bool) (join : α → α → α) (xs ys : Stream'.Seq α) (rows : List Nat)
    (pairs : List (Nat × Nat)) (items : List α) : Prop where
  taken : Taken le join xs ys rows pairs
  values : pairs.map (value join xs ys) = items.map some
  reached : Course.joinedAt le join (course xs) (course ys) items.length = some rows
  begins : (Course.joined le join (course xs) (course ys)).Begins items

theorem Emitted.length_eq {items : List α} (emitted : Emitted le join xs ys rows pairs items) :
    pairs.length = items.length := by
  simpa using congrArg List.length emitted.values

theorem Emitted.joined_eq {items : List α} (emitted : Emitted le join xs ys rows pairs items) :
    Course.joined le join (course xs) (course ys) items.length =
      Paired.answer (Course.decision le join (course xs) (course ys) rows) := by
  simp only [Course.joined, emitted.reached]

theorem Emitted.step (rising : Rising le join xs ys) {items : List α}
    (emitted : Emitted le join xs ys rows pairs items) :
    (∃ row v, Emitted le join xs ys (Course.given rows row) (pairs ++ [head rows row]) (items ++ [v])) ∨
      Course.joined le join (course xs) (course ys) items.length = .ended ∧
        ∀ q, (value join xs ys q).isSome = true → q ∈ pairs := by
  have here := emitted.joined_eq
  generalize decision : Course.decision le join (course xs) (course ys) rows = decided at here
  have outcome := Grid.decided rising rows
  rw [decision] at outcome
  cases outcome with
  | ended nothing => exact .inr ⟨here, emitted.taken.complete rising nothing⟩
  | @least v row inside there below =>
    refine .inl ⟨row, v, emitted.taken.step rising inside there below, ?_, ?_, ?_⟩
    · rw [List.map_append, List.map_append, emitted.values]
      simp [there]
    · rw [List.length_append, List.length_singleton]
      exact Paired.joinedAt_given emitted.reached decision
    · exact emitted.begins.append here

theorem emitted (rising : Rising le join xs ys) (limit : Nat) : ∃ rows pairs items,
    Emitted le join xs ys rows pairs items ∧
      (items.length = limit ∨ items.length < limit ∧
        Course.joined le join (course xs) (course ys) items.length = .ended ∧
        ∀ q, (value join xs ys q).isSome = true → q ∈ pairs) := by
  induction limit with
  | zero => exact ⟨[], [], [], ⟨.start, rfl, rfl, nofun⟩, .inl rfl⟩
  | succ limit ih =>
    obtain ⟨rows, pairs, items, emitted, reached | ⟨short, finished⟩⟩ := ih
    · rcases emitted.step rising with ⟨row, v, further⟩ | finished
      · exact ⟨_, _, _, further, .inl (by simp [reached])⟩
      · exact ⟨rows, pairs, items, emitted, .inr ⟨by omega, finished⟩⟩
    · exact ⟨rows, pairs, items, emitted, .inr ⟨by omega, finished⟩⟩

end Grid
end LightestFirst
