import LightestFirst.Proofs.Families.Bodies
-- The stream of a definition keeps to the list that the definition comes to, in whatever world it is read
-- and whatever is noted of its references.
namespace LightestFirst

variable {ω σ ρ κ α β : Type} {setting : Setting ω}

theorem Reader.aside_plays {source : Machine ω σ β} {given : Course β} {standing : Standing σ ω}
    (source_plays : Plays setting source given standing) {readAt : Nat → ω → Attempt (Status α) × ω} {course : Course α}
    {stands : Standing Reader ω} (reads : Plays setting (machine readAt) course stands) :
    Plays (setting.sharing given standing) (machine fun place => aside (readAt place)) course
      (fun place seen reader shared => stands place seen reader shared.2) where
  query := by
    rintro place seen ⟨index, observed⟩ ⟨cell, world⟩ there ⟨sound, held⟩
    have told := reads.query there sound
    simp only [machine, Reader.query, aside] at told ⊢
    generalize readAt index world = outcome at told ⊢
    obtain ⟨_ | status, after⟩ := outcome
    · cases told with
      | failed hinders sound moved there =>
        exact .failed hinders ⟨sound, held.kept (source_plays.stays moved)⟩ ⟨moved, Nat.le_refl _⟩ there
    · cases told with
      | answered answers sound moved there =>
        exact .answered answers ⟨sound, held.kept (source_plays.stays moved)⟩ ⟨moved, Nat.le_refl _⟩ there
  advance := by
    rintro place ⟨index, observed⟩ ⟨cell, world⟩ there ready ⟨sound, held⟩
    have passed := reads.advance there ready sound
    cases observed with
    | false => cases passed
    | true =>
      cases passed with
      | passed sound moved there => exact .passed ⟨sound, held⟩ ⟨moved, Nat.le_refl _⟩ there
  kept there moved := reads.kept there moved.1

theorem Probed.plays {inner : Machine ω σ α} {course : Course α} {stands : Standing σ ω} {onQuery onAdvance : ω → ω}
    (queried : ∀ world, setting.sound world → setting.sound (onQuery world) ∧ setting.moves world (onQuery world))
    (advanced : ∀ world, setting.sound world → setting.sound (onAdvance world) ∧ setting.moves world (onAdvance world))
    (plays : Plays setting inner course stands) : Plays setting (machine onQuery onAdvance inner) course stands where
  query {_ _ _ world} there sound := by
    obtain ⟨fine, moved⟩ := queried world sound
    exact (plays.query (plays.kept there moved) fine).from_before moved
  advance {_ _ world} there ready sound := by
    obtain ⟨fine, moved⟩ := advanced world sound
    exact (plays.advance (plays.kept there moved) ready fine).from_before moved
  kept := plays.kept

def Setting.Indifferent (setting : Setting ω) (note : Notice → ω → ω) : Prop :=
  ∀ notice world, setting.sound world → setting.sound (note notice world) ∧ setting.moves world (note notice world)

theorem Setting.Indifferent.sharing {note : Notice → ω → ω} (indifferent : setting.Indifferent note)
    {source : Machine ω σ α} {course : Course α} {stands : Standing σ ω} (plays : Plays setting source course stands) :
    (setting.sharing course stands).Indifferent fun notice => Prod.map id (note notice) := by
  rintro notice ⟨cell, world⟩ ⟨sound, held⟩
  obtain ⟨fine, moved⟩ := indifferent notice world sound
  exact ⟨⟨fine, held.kept (plays.stays moved)⟩, moved, Nat.le_refl _⟩

namespace Flow
variable {source flow : Flow ω α} {course given : Course α} {note : Notice → ω → ω}

theorem literal_keeps (items : List α) :
    (iterated (Iterated.plainly Body.take) items : Flow ω α).Keeps setting (.ofList items) := by
  have later : ∀ place, Iterated.later Body.take items place = items.drop place := by
    intro place
    induction place with
    | zero => rfl
    | succ place ih =>
      rw [Iterated.later, ih]
      exact List.tail_drop
  have answers : Iterated.answers Body.take items = fun place => items[place]? := by
    funext place
    rw [Iterated.answers, later]
    exact List.head?_drop
  rw [Course.ofList, ← answers]
  exact iterated_keeps Body.take items

theorem noted_keeps {later : Thunk (Flow ω α)} (indifferent : setting.Indifferent note)
    (keeps : later.get.Keeps setting course) (place : Path) : (noted note place later).Keeps setting course := by
  obtain ⟨stands, plays, starts⟩ := keeps
  have builds : Postponed.Builds setting
      (fun (_ : Unit) world => (.ok later.get.state, note (.ran place) world)) stands (fun _ _ => True) := by
    refine ⟨fun {_ world} _ sound => ?_, fun _ _ => trivial⟩
    obtain ⟨fine, moved⟩ := indifferent (.ran place) world sound
    exact ⟨_, _, rfl, fine, moved, starts _⟩
  exact ⟨_, Probed.plays (indifferent _) (indifferent _) (Postponed.plays builds plays), fun _ => ⟨rfl, rfl, trivial⟩⟩

end Flow

namespace Body
variable {ranking : Ranking α} {n : Nat} {references : κ → (ω : Type) → (Notice → ω → ω) → Path → Flow ω α}
  {lists : κ → List α}

def Named (references : κ → (ω : Type) → (Notice → ω → ω) → Path → Flow ω α) (lists : κ → List α) : Prop :=
  ∀ (name : κ) {ω : Type} {setting : Setting ω} {note : Notice → ω → ω} (place : Path), setting.Indifferent note →
    (references name ω note place).Keeps setting (.ofList (lists name))

theorem keeps (named : Named references lists) (sorted : ∀ name, ranking.Sorted (lists name)) (body : Body ranking κ n)
    {ω : Type} {setting : Setting ω} {note : Notice → ω → ω} (indifferent : setting.Indifferent note)
    {readAt : Fin n → Nat → ω → Attempt (Status α) × ω} {read : Fin n → List α}
    (rises : ∀ buffer, ranking.Sorted (read buffer))
    (reads : ∀ buffer, (Flow.view (readAt buffer)).Keeps setting (.ofList (read buffer))) (place : Path) :
    (body.flow references ω note readAt place).Keeps setting (.ofList (body.list lists read)) := by
  induction body generalizing ω place with
  | empty => exact Flow.empty_keeps_list
  | single value => exact Flow.single_keeps value
  | literal items _ => exact Flow.literal_keeps items
  | mapped f inner ih => exact Flow.mapped_keeps_list f.apply (ih indifferent rises reads place)
  | merged left right first second =>
    exact Flow.merged_keeps_list ranking.le (first indifferent rises reads _) (second indifferent rises reads _)
  | paired join left right first second =>
    have rising := join.rising (list_sorted sorted left rises) (list_sorted sorted right rises)
    exact Flow.paired_keeps_list rising (first indifferent rises reads _) (second indifferent rises reads _)
  | shared source within first second =>
    obtain ⟨standing, plays, starts⟩ := first indifferent rises reads (place ++ [.first])
    have more : ∀ buffer, ranking.Sorted (Fin.cases (source.list lists read) read buffer : List α) :=
      Fin.cases (list_sorted sorted source rises) rises
    have beside : ∀ buffer, (Flow.view (readers (source.flow references ω note readAt (place ++ [.first])).machine readAt
        buffer)).Keeps (setting.sharing (.ofList (source.list lists read)) standing)
        (.ofList (Fin.cases (source.list lists read) read buffer)) := by
      refine Fin.cases ?_ fun buffer => ?_
      · exact ⟨_, Buffered.readers_play plays, fun _ => ⟨rfl, Nat.zero_le _, nofun, nofun⟩⟩
      · obtain ⟨stands, reading, begins⟩ := reads buffer
        exact ⟨_, Reader.aside_plays plays reading, fun shared => begins shared.2⟩
    obtain ⟨stands, inner, begins⟩ := second (indifferent.sharing plays) more beside (place ++ [.second])
    exact ⟨_, Enclosed.plays plays inner, fun world => ⟨Buffered.start_stands (starts world), begins _⟩⟩
  | reader buffer => exact reads buffer
  | reference name => exact named name place indifferent

end Body

theorem Family.keeps {ranking : Ranking α} (family : Family ranking κ) (fuel : Nat) (name : κ) {ω : Type}
    {setting : Setting ω} {note : Notice → ω → ω} (place : Path) (indifferent : setting.Indifferent note) :
    (family.flow fuel name ω note place).Keeps setting (.ofList (family.list fuel name)) := by
  induction fuel generalizing name ω place with
  | zero =>
    exact (family name).keeps (fun _ _ _ _ _ _ => Flow.empty_keeps_list) (fun _ => .nil) indifferent nofun nofun place
  | succ fuel ih =>
    have sorted := family.list_sorted fuel
    refine (family name).keeps (fun other _ _ _ place indifferent => ?_) sorted indifferent nofun nofun place
    refine Flow.noted_keeps indifferent ?_ place
    exact ih other _ indifferent

end LightestFirst
