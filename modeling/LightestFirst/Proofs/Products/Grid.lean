import Mathlib.Data.Seq.Defs
import LightestFirst.Proofs.Playing.Pairing
import LightestFirst.Proofs.Reading
-- The grid of joins of two sequences, and the order in which a product goes through it: by the
-- value of the join, then by row, then by column. Each row is given from its start, so what has been
-- given is told by a count for each row; the rows behind those begun have not been looked at.
namespace LightestFirst
namespace Grid
variable {α : Type}

section Values
variable (le : α → α → Bool) (join : α → α → α) (xs ys : Stream'.Seq α)

def value (pair : Nat × Nat) : Option α :=
  (xs.get? pair.1).bind fun x => (ys.get? pair.2).map (join x)

def Before (p q : Nat × Nat) : Prop :=
  ∃ v w, value join xs ys p = some v ∧ value join xs ys q = some w ∧ le v w = true ∧
    (le w v = true → p.1 < q.1 ∨ p.1 = q.1 ∧ p.2 < q.2)

-- A total preorder, a join that follows it on both sides, and two sequences that never fall.
structure Rising : Prop where
  total : ∀ x y, le x y = true ∨ le y x = true
  trans : ∀ {x y z}, le x y = true → le y z = true → le x z = true
  join_left : ∀ {x x'} y, le x x' = true → le (join x y) (join x' y) = true
  join_right : ∀ x {y y'}, le y y' = true → le (join x y) (join x y') = true
  left : ∀ {i x x'}, xs.get? i = some x → xs.get? (i + 1) = some x' → le x x' = true
  right : ∀ {j y y'}, ys.get? j = some y → ys.get? (j + 1) = some y' → le y y' = true

def head (rows : List Nat) (row : Nat) : Nat × Nat := (row, rows[row]?.getD 0)

end Values

section Order
variable {le : α → α → Bool} {join : α → α → α} {xs ys : Stream'.Seq α} {p q r : Nat × Nat}

theorem Rising.refl (rising : Rising le join xs ys) (x : α) : le x x = true := (rising.total x x).elim id id

theorem rises (refl : ∀ x, le x x = true) (trans : ∀ {x y z}, le x y = true → le y z = true → le x z = true)
    {s : Stream'.Seq α} (step : ∀ {i x x'}, s.get? i = some x → s.get? (i + 1) = some x' → le x x' = true)
    {i k : Nat} {x z : α} (here : s.get? i = some x) (there : s.get? k = some z) (behind : i ≤ k) :
    le x z = true := by
  induction behind generalizing z with
  | refl =>
    obtain rfl := Option.some.inj (here.symm.trans there)
    exact refl _
  | @step k _ ih =>
    obtain ⟨y, between⟩ := s.ge_stable (Nat.le_succ k) there
    exact trans (ih between) (step between there)

theorem value_some {v : α} : value join xs ys p = some v ↔
    ∃ x y, xs.get? p.1 = some x ∧ ys.get? p.2 = some y ∧ join x y = v := by
  simp only [value, Option.bind_eq_some_iff, Option.map_eq_some_iff]
  constructor
  · rintro ⟨x, here, y, there, rfl⟩
    exact ⟨x, y, here, there, rfl⟩
  · rintro ⟨x, y, here, there, rfl⟩
    exact ⟨x, here, y, there, rfl⟩

theorem Rising.value_le (rising : Rising le join xs ys) {w : α} (there : value join xs ys q = some w)
    (down : p.1 ≤ q.1) (right : p.2 ≤ q.2) : ∃ v, value join xs ys p = some v ∧ le v w = true := by
  obtain ⟨x', y', hx', hy', rfl⟩ := value_some.mp there
  obtain ⟨x, hx⟩ := xs.ge_stable down hx'
  obtain ⟨y, hy⟩ := ys.ge_stable right hy'
  refine ⟨join x y, value_some.mpr ⟨x, y, hx, hy, rfl⟩, ?_⟩
  exact rising.trans (rising.join_left y (rises rising.refl rising.trans rising.left hx hx' down))
    (rising.join_right x' (rises rising.refl rising.trans rising.right hy hy' right))

theorem Before.irrefl : ¬ Before le join xs ys p p := by
  rintro ⟨v, w, here, there, below, tie⟩
  obtain rfl := Option.some.inj (here.symm.trans there)
  have := tie below
  omega

theorem Before.nodup {pairs : List (Nat × Nat)} (ordered : pairs.Pairwise (Before le join xs ys)) : pairs.Nodup := by
  refine ordered.imp fun {p q} before => ?_
  rintro rfl
  exact before.irrefl

theorem Before.trans (rising : Rising le join xs ys) (one : Before le join xs ys p q)
    (two : Before le join xs ys q r) : Before le join xs ys p r := by
  obtain ⟨u, v, hp, hq, uv, tie⟩ := one
  obtain ⟨v', w, hq', hr, vw, tie'⟩ := two
  obtain rfl := Option.some.inj (hq.symm.trans hq')
  refine ⟨u, w, hp, hr, rising.trans uv vw, fun back => ?_⟩
  have first := tie (rising.trans vw back)
  have second := tie' (rising.trans back uv)
  omega

theorem Before.asymm (rising : Rising le join xs ys) (one : Before le join xs ys p q) :
    ¬ Before le join xs ys q p := fun other => Before.irrefl (one.trans rising other)

end Order

section Least
variable {le : α → α → Bool} {statuses : List (Status α)}

def Beats (le : α → α → Bool) (one other : Nat × α) : Prop :=
  le one.2 other.2 = true ∧ (le other.2 one.2 = true → one.1 ≤ other.1)

theorem Beats.trans {one middle other : Nat × α} (first : Beats le one middle) (second : Beats le middle other)
    (trans : ∀ {x y z}, le x y = true → le y z = true → le x z = true) : Beats le one other := by
  refine ⟨trans first.1 second.1, fun back => ?_⟩
  exact Nat.le_trans (first.2 (trans second.1 back)) (second.2 (trans back first.1))

theorem keep_beats (total : ∀ x y, le x y = true ∨ le y x = true) {place : Nat} {best : Option (Nat × α)}
    (earlier : ∀ held ∈ best, held.1 < place) (value : α) :
    (Paired.keep le best place value).1 < place + 1 ∧ Beats le (Paired.keep le best place value) (place, value) ∧
      ∀ held ∈ best, Beats le (Paired.keep le best place value) held := by
  have refl : ∀ x, le x x = true := fun x => (total x x).elim id id
  cases best with
  | none => exact ⟨Nat.lt_succ_self _, ⟨refl _, fun _ => Nat.le_refl _⟩, by simp⟩
  | some held =>
    have before : held.1 < place := earlier held rfl
    rw [Paired.keep]
    split
    · next stays =>
      refine ⟨by omega, ⟨stays, fun _ => Nat.le_of_lt before⟩, ?_⟩
      rintro _ ⟨⟩
      exact ⟨refl _, fun _ => Nat.le_refl _⟩
    · next falls =>
      refine ⟨Nat.lt_succ_self _, ⟨refl _, fun _ => Nat.le_refl _⟩, ?_⟩
      rintro _ ⟨⟩
      exact ⟨(total held.2 value).resolve_left falls, fun stays => absurd stays falls⟩

-- By the answers: `best` is the one held so far, and it came from an earlier place.
theorem leastFrom_least (total : ∀ x y, le x y = true ∨ le y x = true)
    (trans : ∀ {x y z}, le x y = true → le y z = true → le x z = true) {place : Nat}
    {best : Option (Nat × α)} (earlier : ∀ held ∈ best, held.1 < place) {pick : Nat × α}
    (found : Paired.leastFrom le place best statuses = some pick) :
    (∀ held ∈ best, Beats le pick held) ∧
      ∀ k value, statuses[k]? = some (.ready value) → Beats le pick (place + k, value) := by
  induction statuses generalizing place best with
  | nil =>
    refine ⟨fun held same => ?_, by simp⟩
    obtain rfl : held = pick := Option.some.inj (Eq.trans (Eq.symm same) (by simpa [Paired.leastFrom] using found))
    exact ⟨(total held.2 held.2).elim id id, fun _ => Nat.le_refl _⟩
  | cons status statuses ih =>
    cases shown : status.isReady with
    | false =>
      rw [Paired.leastFrom_skip shown] at found
      obtain ⟨below, rest⟩ := ih (fun held same => Nat.lt_succ_of_lt (earlier held same)) found
      refine ⟨below, fun k value there => ?_⟩
      cases k with
      | zero =>
        obtain rfl := Option.some.inj there
        cases shown
      | succ k => exact Nat.succ_add_eq_add_succ place k ▸ rest k value there
    | true =>
      obtain ⟨current, rfl⟩ := Status.isReady_iff.mp shown
      rw [Paired.leastFrom_ready] at found
      obtain ⟨inside, here, before⟩ := keep_beats total earlier current
      obtain ⟨below, rest⟩ := ih (by simpa using inside) found
      have top := below _ rfl
      refine ⟨fun held same => top.trans (before held same) trans, fun k value there => ?_⟩
      cases k with
      | zero =>
        cases there
        exact top.trans here trans
      | succ k => exact Nat.succ_add_eq_add_succ place k ▸ rest k value there

theorem leastFrom_none {place : Nat} {best : Option (Nat × α)}
    (found : Paired.leastFrom le place best statuses = none) :
    best = none ∧ ∀ (k : Nat) (value : α), statuses[k]? ≠ some (.ready value) := by
  induction statuses generalizing place best with
  | nil => exact ⟨by simpa [Paired.leastFrom] using found, by simp⟩
  | cons status statuses ih =>
    cases shown : status.isReady with
    | false =>
      rw [Paired.leastFrom_skip shown] at found
      refine (ih found).imp_right fun rest k value there => ?_
      cases k with
      | zero =>
        obtain rfl := Option.some.inj there
        cases shown
      | succ k => exact rest k value there
    | true =>
      obtain ⟨current, rfl⟩ := Status.isReady_iff.mp shown
      rw [Paired.leastFrom_ready] at found
      exact absurd (ih found).1 (by simp)

end Least
end Grid
end LightestFirst
