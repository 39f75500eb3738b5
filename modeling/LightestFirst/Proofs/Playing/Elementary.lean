import Mathlib.Data.Seq.Defs
import LightestFirst.Interrupted
import LightestFirst.Postponed
import LightestFirst.Proofs.Courses
-- Which courses the streams play that read no other stream, or one, or two one after the other.
namespace LightestFirst
variable {ω σ τ ι α β : Type} {setting : Setting ω}

namespace Empty

theorem plays : Plays setting (machine : Machine ω Unit α) (fun _ => .ended) (fun _ _ _ _ => True) where
  query _ sound := .answered (.inl rfl) sound (setting.stays _) trivial
  advance _ ready := by cases ready
  kept _ _ := trivial

end Empty

namespace Single

def Stands (value : α) : Standing (Single α) ω := fun place _ state _ =>
  place = 0 ∧ state.held = some value ∨ place = 1 ∧ state.held = none

theorem plays (value : α) : Plays setting machine (.ofList [value]) (Stands value) where
  query := by
    rintro place seen ⟨held⟩ world (⟨rfl, rfl⟩ | ⟨rfl, rfl⟩) sound
    · exact .answered (.inl rfl) sound (setting.stays _) (.inl ⟨rfl, rfl⟩)
    · exact .answered (.inl rfl) sound (setting.stays _) (.inr ⟨rfl, rfl⟩)
  advance := by
    rintro place ⟨held⟩ world (⟨rfl, rfl⟩ | ⟨rfl, rfl⟩) ready sound
    · exact .passed sound (setting.stays _) (.inr ⟨rfl, rfl⟩)
    · cases ready
  kept there _ := there

end Single

namespace Iterated

structure Yields (setting : Setting ω) (next : ι → ω → Option α × ι × ω) (answers : Nat → Option α)
    (stands : Nat → ι → ω → Prop) : Prop where
  next : ∀ {place iterator world}, stands place iterator world → setting.sound world →
    ∃ later after, next iterator world = (answers place, later, after) ∧ setting.sound after ∧
      setting.moves world after ∧ stands (place + 1) later after
  kept : ∀ {place iterator world after}, stands place iterator world → setting.moves world after →
    stands place iterator after

variable {next : ι → ω → Option α × ι × ω} {answers : Nat → Option α} {stands : Nat → ι → ω → Prop}

def Stands (answers : Nat → Option α) (stands : Nat → ι → ω → Prop) : Standing (Iterated ι α) ω :=
  fun place seen state world =>
    match state.head with
    | none => seen = false ∧ stands place state.iterator world
    | some head => head = answers place ∧ stands (place + 1) state.iterator world

theorem kept {before after : ω}
    (ahead : ∀ ⦃place iterator⦄, stands place iterator before → stands place iterator after) :
    (Stands answers stands).Kept before after := by
  rintro place seen ⟨iterator, head⟩ there
  cases head with
  | none => exact ⟨there.1, ahead there.2⟩
  | some head => exact ⟨there.1, ahead there.2⟩

theorem plays (yields : Yields setting next answers stands) :
    Plays setting (machine next) (.ofAnswers answers) (Stands answers stands) where
  query := by
    rintro place seen ⟨iterator, head⟩ world there sound
    cases head with
    | some head =>
      obtain ⟨rfl, ahead⟩ := there
      exact .answered (.inl rfl) sound (setting.stays _) ⟨rfl, ahead⟩
    | none =>
      obtain ⟨later, after, answered, fine, moved, ahead⟩ := yields.next there.2 sound
      simp only [machine, query, answered]
      exact .answered (.inl rfl) fine moved ⟨rfl, ahead⟩
  advance := by
    rintro place ⟨iterator, head⟩ world there ready sound
    cases head with
    | none => cases there.1
    | some head =>
      obtain ⟨rfl, ahead⟩ := there
      cases shown : answers place with
      | none => simp [Course.ofAnswers, answer, shown, Status.isReady] at ready
      | some value => exact .passed sound (setting.stays _) ⟨rfl, ahead⟩
  kept there moved := kept (fun _ _ ahead => yields.kept ahead moved) there

def inTurn (s : Stream'.Seq α) (place : Nat) (world : ω) : Option α × Nat × ω := (s.get? place, place + 1, world)

def InTurn (s : Stream'.Seq α) : Standing (Iterated Nat α) ω := Stands s.get? fun place iterator _ => iterator = place

theorem inTurn_starts (s : Stream'.Seq α) (world : ω) : InTurn s 0 false (.start 0) world := ⟨rfl, rfl⟩

theorem inTurn_plays (s : Stream'.Seq α) :
    Plays setting (machine (inTurn s)) (.ofAnswers s.get?) (InTurn s) := by
  refine plays ⟨?_, fun there _ => there⟩
  rintro place _ world rfl sound
  exact ⟨_, _, rfl, sound, setting.stays _, rfl⟩

end Iterated

namespace Postponed
variable {build : τ → ω → Attempt σ × ω} {inner : Machine ω σ α} {course : Course α}
  {stands : Standing σ ω} {waits : τ → ω → Prop}

structure Builds (setting : Setting ω) (build : τ → ω → Attempt σ × ω) (stands : Standing σ ω)
    (waits : τ → ω → Prop) : Prop where
  build : ∀ {thunk world}, waits thunk world → setting.sound world →
    ∃ state after, build thunk world = (.ok state, after) ∧ setting.sound after ∧
      setting.moves world after ∧ stands 0 false state after
  kept : ∀ {thunk world after}, waits thunk world → setting.moves world after → waits thunk after

def Stands (stands : Standing σ ω) (waits : τ → ω → Prop) : Standing (Postponed τ σ) ω :=
  fun place seen state world =>
    match state with
    | .waiting thunk => place = 0 ∧ seen = false ∧ waits thunk world
    | .forced inner => stands place seen inner world
    | .spent => False

theorem kept {before after : ω} (inside : stands.Kept before after)
    (later : ∀ ⦃thunk⦄, waits thunk before → waits thunk after) : (Stands stands waits).Kept before after := by
  rintro place seen state there
  cases state with
  | spent => cases there
  | forced state => exact inside there
  | waiting thunk => exact ⟨there.1, there.2.1, later there.2.2⟩

theorem plays (builds : Builds setting build stands waits) (plays : Plays setting inner course stands) :
    Plays setting (machine build inner) course (Stands stands waits) where
  query := by
    rintro place seen state world there sound
    cases state with
    | spent => cases there
    | forced state => exact (plays.query there sound).within id
    | waiting thunk =>
      obtain ⟨rfl, rfl, waiting⟩ := there
      obtain ⟨state, after, built, fine, moved, there⟩ := builds.build waiting sound
      simp only [machine, reach, built]
      exact ((plays.query there fine).from_before moved).within id
  advance := by
    rintro place state world there ready sound
    cases state with
    | spent => cases there
    | forced state => exact (plays.advance there ready sound).within fun _ there => there
    | waiting thunk => cases there.2.1
  kept there moved := kept (plays.stays moved) (fun _ waiting => builds.kept waiting moved) there

end Postponed

namespace Mapped
variable {source : Machine ω σ α} {f : Nat → α → ω → Attempt β × ω} {g : α → β} {course : Course α}
  {stands : Standing σ ω}

def Stands (course : Course α) (g : α → β) (stands : Standing σ ω) : Standing (Mapped σ β) ω :=
  fun place seen state world =>
    match state.cached with
    | none => seen = false ∧ ∃ shown, stands place shown state.inner world
    | some status => status = (course place).map g ∧ (course place).isStable = true ∧
        stands place true state.inner world

theorem kept {before after : ω} (inside : stands.Kept before after) : (Stands course g stands).Kept before after := by
  rintro place seen ⟨inner, cached, calls⟩ there
  cases cached with
  | none =>
    obtain ⟨same, shown, there⟩ := there
    exact ⟨same, shown, inside there⟩
  | some status => exact ⟨there.1, there.2.1, inside there.2.2⟩

theorem query_told (plays : Plays setting source course stands)
    (computes : ∀ call value, setting.Computes (f call value) (g value)) {place : Nat} {seen : Bool}
    {state : Mapped σ β} {world : ω} (there : Stands course g stands place seen state world)
    (sound : setting.sound world) :
    Told setting (course.map g) (Stands course g stands) place world (query source f state world) := by
  obtain ⟨inner, cached, calls⟩ := state
  cases cached with
  | some status =>
    obtain ⟨rfl, stable, there⟩ := there
    exact .answered (.inl rfl) sound (setting.stays _) ⟨rfl, stable, there⟩
  | none =>
    obtain ⟨rfl, shown, there⟩ := there
    have told := plays.query there sound
    simp only [query]
    generalize source.query inner world = outcome at told ⊢
    cases told with
    | failed hinders sound moved there => exact .failed hinders sound moved ⟨rfl, _, there⟩
    | @answered status state after answers sound moved there =>
      cases status with
      | pending => exact .answered (Course.answers_map g answers) sound moved ⟨rfl, _, there⟩
      | ended =>
        have answer := answers.of_stable rfl
        have kept : Stands course g stands place true ⟨state, some .ended, calls⟩ after :=
          ⟨by rw [answer]; rfl, by rw [answer]; rfl, there⟩
        exact .answered (Course.answers_map g answers) sound moved kept
      | ready value =>
        have answer := answers.of_stable rfl
        have given := computes (calls + 1) value after sound
        dsimp only
        generalize f (calls + 1) value after = outcome at given ⊢
        cases given with
        | given sound went =>
          have kept : Stands course g stands place true ⟨state, some (.ready (g value)), calls + 1⟩ _ :=
            ⟨by rw [answer]; rfl, by rw [answer]; rfl, plays.kept there went⟩
          exact .answered (Course.answers_map g (answers.until_after went)) sound (setting.goes_on moved went) kept
        | refused hinders sound went =>
          exact .failed (setting.hinders_before moved hinders) sound (setting.goes_on moved went)
            ⟨rfl, _, plays.kept there went⟩

theorem advance_passed (plays : Plays setting source course stands) {place : Nat} {state : Mapped σ β} {world : ω}
    (there : Stands course g stands place true state world) (ready : ((course.map g) place).isReady = true)
    (sound : setting.sound world) :
    Passed setting (Stands course g stands) place world (advance source state world) := by
  obtain ⟨inner, cached, calls⟩ := state
  cases cached with
  | none => cases there.1
  | some status =>
    obtain ⟨rfl, stable, there⟩ := there
    have ready : (course place).isReady = true := by simpa [Course.map] using ready
    obtain ⟨value, shown⟩ := Status.isReady_iff.mp ready
    simp only [advance, shown, Status.map]
    exact (plays.advance there ready sound).within fun _ there => ⟨rfl, _, there⟩

theorem plays (plays : Plays setting source course stands)
    (computes : ∀ call value, setting.Computes (f call value) (g value)) :
    Plays setting (machine source f) (course.map g) (Stands course g stands) where
  query there sound := query_told plays computes there sound
  advance there ready sound := advance_passed plays there ready sound
  kept there moved := kept (plays.stays moved) there

end Mapped

namespace Verdict
variable {le : α → α → Bool} {x y : Status α} {verdict : Verdict α}

theorem between_pending_right (x : Status α) : between le x .pending = none := by
  cases x <;> rfl

theorem stable_of_between (decided : between le x y = some verdict) :
    x.isStable = true ∧ y.isStable = true := by
  cases x <;> cases y <;> simp [between] at decided <;> exact ⟨rfl, rfl⟩

theorem ready_of_between_left {value : α} (decided : between le x y = some (.left value)) :
    x = .ready value := by
  cases x <;> cases y <;> simp [between] at decided
  · split at decided <;> simp_all
  · simp_all

theorem ready_of_between_right {value : α} (decided : between le x y = some (.right value)) :
    y = .ready value := by
  cases x <;> cases y <;> simp [between] at decided
  · split at decided <;> simp_all
  · simp_all

end Verdict

namespace Merged
variable {first : Machine ω σ α} {second : Machine ω τ α} {le : α → α → Bool} {xs ys : Course α}
  {firstStands : Standing σ ω} {secondStands : Standing τ ω}

def Stands (le : α → α → Bool) (xs ys : Course α) (first : Standing σ ω) (second : Standing τ ω) :
    Standing (Merged σ τ α) ω := fun place seen state world =>
  ∃ i j, Course.mergedAt le xs ys place = some (i, j) ∧
    match state.verdict with
    | none => seen = false ∧ (∃ shown, first i shown state.left world) ∧
        ∃ shown, second j shown state.right world
    | some verdict => Verdict.between le (xs i) (ys j) = some verdict ∧
        first i true state.left world ∧ second j true state.right world

theorem merged_eq {place i j : Nat} (reached : Course.mergedAt le xs ys place = some (i, j)) :
    Course.merged le xs ys place = Verdict.answer (Verdict.between le (xs i) (ys j)) := by
  simp only [Course.merged, reached]

theorem answers_between {place i j : Nat} {world middle after : ω} {x y : Status α}
    (reached : Course.mergedAt le xs ys place = some (i, j))
    (first : setting.Answers xs i world middle x) (moved : setting.moves world middle)
    (second : setting.Answers ys j middle after y) (went : setting.moves middle after) :
    setting.Answers (.merged le xs ys) place world after (Verdict.answer (Verdict.between le x y)) := by
  rcases first with rfl | ⟨rfl, held⟩
  · rcases second with rfl | ⟨rfl, held⟩
    · exact .inl (merged_eq reached)
    · rw [Verdict.between_pending_right]
      exact .inr ⟨rfl, setting.hinders_before moved held⟩
  · exact .inr ⟨rfl, setting.hinders_after held went⟩

theorem kept {before after : ω} (left : firstStands.Kept before after) (right : secondStands.Kept before after) :
    (Stands le xs ys firstStands secondStands).Kept before after := by
  rintro place seen ⟨l, r, verdict⟩ ⟨i, j, reached, there⟩
  cases verdict with
  | none =>
    obtain ⟨same, ⟨_, leftThere⟩, _, rightThere⟩ := there
    exact ⟨i, j, reached, same, ⟨_, left leftThere⟩, _, right rightThere⟩
  | some verdict => exact ⟨i, j, reached, there.1, left there.2.1, right there.2.2⟩

theorem query_told (left : Plays setting first xs firstStands) (right : Plays setting second ys secondStands)
    {place : Nat} {seen : Bool} {state : Merged σ τ α} {world : ω}
    (there : Stands le xs ys firstStands secondStands place seen state world) (sound : setting.sound world) :
    Told setting (.merged le xs ys) (Stands le xs ys firstStands secondStands) place world
      (query first second le state world) := by
  obtain ⟨l, r, verdict⟩ := state
  obtain ⟨i, j, reached, there⟩ := there
  cases verdict with
  | some verdict =>
    obtain ⟨decided, leftThere, rightThere⟩ := there
    refine .answered (.inl ?_) sound (setting.stays _) ⟨i, j, reached, decided, leftThere, rightThere⟩
    rw [merged_eq reached, decided]
    rfl
  | none =>
    obtain ⟨rfl, ⟨_, leftThere⟩, _, rightThere⟩ := there
    have told := left.query leftThere sound
    simp only [query]
    generalize first.query l world = outcome at told ⊢
    cases told with
    | failed hinders sound moved there =>
      exact .failed hinders sound moved ⟨i, j, reached, rfl, ⟨_, there⟩, _, right.kept rightThere moved⟩
    | @answered x l middle answers sound moved there =>
      have told := right.query (right.kept rightThere moved) sound
      dsimp only
      generalize second.query r middle = outcome at told ⊢
      cases told with
      | failed hinders sound went other =>
        exact .failed (setting.hinders_before moved hinders) sound (setting.goes_on moved went)
          ⟨i, j, reached, rfl, ⟨_, left.kept there went⟩, _, other⟩
      | @answered y r after answered sound went other =>
        refine .answered (answers_between reached answers moved answered went) sound
          (setting.goes_on moved went) ⟨i, j, reached, ?_⟩
        cases decided : Verdict.between le x y with
        | none => exact ⟨rfl, ⟨_, left.kept there went⟩, _, other⟩
        | some verdict =>
          obtain ⟨leftStable, rightStable⟩ := Verdict.stable_of_between decided
          rw [leftStable] at there
          rw [rightStable] at other
          refine ⟨?_, left.kept there went, other⟩
          rw [answers.of_stable leftStable, answered.of_stable rightStable, decided]

theorem advance_passed (left : Plays setting first xs firstStands) (right : Plays setting second ys secondStands)
    {place : Nat} {state : Merged σ τ α} {world : ω}
    (there : Stands le xs ys firstStands secondStands place true state world)
    (ready : (Course.merged le xs ys place).isReady = true) (sound : setting.sound world) :
    Passed setting (Stands le xs ys firstStands secondStands) place world (advance first second state world) := by
  obtain ⟨l, r, verdict⟩ := state
  obtain ⟨i, j, reached, there⟩ := there
  cases verdict with
  | none => cases there.1
  | some verdict =>
    obtain ⟨decided, leftThere, rightThere⟩ := there
    rw [merged_eq reached, decided] at ready
    cases verdict with
    | ended => cases ready
    | left value =>
      have next : Course.mergedAt le xs ys (place + 1) = some (i + 1, j) := by
        simp only [Course.mergedAt, reached, decided]
      have shown : (xs i).isReady = true := by rw [Verdict.ready_of_between_left decided]; rfl
      simp only [advance]
      exact (left.advance leftThere shown sound).within fun moved there =>
        ⟨i + 1, j, next, rfl, ⟨_, there⟩, _, right.kept rightThere moved⟩
    | right value =>
      have next : Course.mergedAt le xs ys (place + 1) = some (i, j + 1) := by
        simp only [Course.mergedAt, reached, decided]
      have shown : (ys j).isReady = true := by rw [Verdict.ready_of_between_right decided]; rfl
      simp only [advance]
      exact (right.advance rightThere shown sound).within fun moved there =>
        ⟨i, j + 1, next, rfl, ⟨_, left.kept leftThere moved⟩, _, there⟩

theorem plays (left : Plays setting first xs firstStands) (right : Plays setting second ys secondStands) :
    Plays setting (machine first second le) (.merged le xs ys)
      (Stands le xs ys firstStands secondStands) where
  query there sound := query_told left right there sound
  advance there ready sound := advance_passed left right there ready sound
  kept there moved := kept (left.stays moved) (right.stays moved) there

end Merged

namespace Followed
variable {first : Machine ω σ α} {second : Machine ω τ α} {head : List α} {tail : Course α}
  {firstStands : Standing σ ω} {secondStands : Standing τ ω}

def Stands (head : List α) (first : Standing σ ω) (second : Standing τ ω) : Standing (Followed σ τ) ω :=
  fun place seen state world => ∃ shown shownTail,
    first (min place head.length) shown state.head world ∧
    second (place - head.length) shownTail state.tail world ∧
    (seen = true → state.inHead = decide (place < head.length) ∧
      (place < head.length → shown = true) ∧ (head.length ≤ place → shownTail = true))

theorem ofList_inside {place : Nat} {value : α} (shown : head[place]? = some value) :
    Course.ofList head place = .ready value := by rw [Course.ofList, Course.ofAnswers, shown]; rfl

theorem ofList_past {place : Nat} (past : head.length ≤ place) : Course.ofList head place = .ended := by
  rw [Course.ofList, Course.ofAnswers, List.getElem?_eq_none past]; rfl

theorem after_head {place : Nat} {value : α} (shown : head[place]? = some value) :
    Course.after head tail place = .ready value := by simp only [Course.after, shown]

theorem after_tail {place : Nat} (past : head.length ≤ place) :
    Course.after head tail place = tail (place - head.length) := by
  simp only [Course.after, List.getElem?_eq_none past]

theorem kept {before after : ω} (first : firstStands.Kept before after) (second : secondStands.Kept before after) :
    (Stands head firstStands secondStands).Kept before after := by
  rintro place seen ⟨h, inHead, t⟩ ⟨_, _, headThere, tailThere, flags⟩
  exact ⟨_, _, first headThere, second tailThere, flags⟩

theorem query_told (before : Plays setting.prompt first (.ofList head) firstStands)
    (behind : Plays setting second tail secondStands) {place : Nat} {seen : Bool} {state : Followed σ τ} {world : ω}
    (there : Stands head firstStands secondStands place seen state world) (sound : setting.sound world) :
    Told setting (.after head tail) (Stands head firstStands secondStands) place world
      (query first second state world) := by
  obtain ⟨h, inHead, t⟩ := state
  obtain ⟨_, shownTail, headThere, tailThere, flags⟩ := there
  obtain ⟨h, middle, told, fine, moved, there⟩ :=
    (before.query headThere sound).exactly setting.prompt_prompt
  have moved : setting.moves world middle := moved
  simp only [query, told]
  by_cases inside : place < head.length
  · have shown : head[place]? = some head[place] := List.getElem?_eq_getElem inside
    rw [Nat.min_eq_left (Nat.le_of_lt inside), ofList_inside shown] at there ⊢
    refine .answered (.inl (after_head shown)) fine moved ⟨true, _, ?_, behind.kept tailThere moved, ?_⟩
    · rwa [Nat.min_eq_left (Nat.le_of_lt inside)]
    · exact fun _ => ⟨(decide_eq_true inside).symm, fun _ => rfl, fun past => absurd inside (by omega)⟩
  · have past : head.length ≤ place := Nat.le_of_not_lt inside
    rw [Nat.min_eq_right past, ofList_past (Nat.le_refl _)] at there ⊢
    have told := behind.query (behind.kept tailThere moved) fine
    refine Told.from_before moved ?_
    dsimp only at told ⊢
    generalize second.query t middle = outcome at told ⊢
    cases told with
    | failed hinders sound went other =>
      refine .failed hinders sound went ⟨true, _, ?_, other, nofun⟩
      rw [Nat.min_eq_right past]
      exact before.kept there went
    | answered answers sound went other =>
      refine .answered ?_ sound went ⟨true, _, ?_, other, fun seen => ⟨?_, ?_, fun _ => seen⟩⟩
      · rwa [Setting.Answers, after_tail past]
      · rw [Nat.min_eq_right past]
        exact before.kept there went
      · exact (decide_eq_false inside).symm
      · exact fun within => absurd within inside

theorem advance_passed (before : Plays setting.prompt first (.ofList head) firstStands)
    (behind : Plays setting second tail secondStands) {place : Nat} {state : Followed σ τ} {world : ω}
    (there : Stands head firstStands secondStands place true state world)
    (ready : (Course.after head tail place).isReady = true) (sound : setting.sound world) :
    Passed setting (Stands head firstStands secondStands) place world (advance first second state world) := by
  obtain ⟨h, inHead, t⟩ := state
  obtain ⟨headShown, tailShown, headThere, tailThere, flags⟩ := there
  obtain ⟨flag, shown, shownTail⟩ := flags rfl
  by_cases inside : place < head.length
  · obtain rfl := shown inside
    obtain rfl : inHead = true := flag.trans (decide_eq_true inside)
    rw [Nat.min_eq_left (Nat.le_of_lt inside)] at headThere
    have here : (Course.ofList head place).isReady = true := by
      rw [ofList_inside (List.getElem?_eq_getElem inside)]; rfl
    simp only [advance]
    refine (before.advance headThere here sound).of_prompt.within fun moved there => ⟨false, tailShown, ?_, ?_, nofun⟩
    · rwa [Nat.min_eq_left (Nat.succ_le_of_lt inside)]
    · rw [show place + 1 - head.length = place - head.length by omega]
      exact behind.kept tailThere moved
  · have past : head.length ≤ place := Nat.le_of_not_lt inside
    obtain rfl := shownTail past
    obtain rfl : inHead = false := flag.trans (decide_eq_false inside)
    rw [after_tail past] at ready
    simp only [advance]
    refine (behind.advance tailThere ready sound).within fun moved there => ⟨headShown, false, ?_, ?_, nofun⟩
    · rw [Nat.min_eq_right (by omega), ← Nat.min_eq_right past]
      exact before.kept headThere moved
    · rwa [show place + 1 - head.length = place - head.length + 1 by omega]

theorem plays (before : Plays setting.prompt first (.ofList head) firstStands)
    (behind : Plays setting second tail secondStands) :
    Plays setting (machine first second) (.after head tail) (Stands head firstStands secondStands) where
  query there sound := query_told before behind there sound
  advance there ready sound := advance_passed before behind there ready sound
  kept there moved := kept (before.stays moved) (behind.stays moved) there

end Followed

namespace Gated
variable {inner : Machine ω σ α} {course : Course α} {stands : Standing σ ω} {isOpen : ω → Bool}

def Stands (stands : Standing σ ω) : Standing σ ω := fun place seen state world =>
  ∃ shown, (seen = true → shown = true) ∧ stands place shown state world

theorem plays (plays : Plays setting inner course stands)
    (held : ∀ world, isOpen world = false → setting.hinders .pending world world) :
    Plays setting (machine isOpen inner) course (Stands stands) where
  query := by
    rintro place seen state world ⟨shown, _, there⟩ sound
    simp only [machine]
    split
    · have told := plays.query there sound
      generalize inner.query state world = outcome at told ⊢
      cases told with
      | answered answers sound moved there => exact .answered answers sound moved ⟨_, id, there⟩
      | failed hinders sound moved there => exact .failed hinders sound moved ⟨_, id, there⟩
    · next closed =>
      have held := held world (by simpa using closed)
      exact .answered (.inr ⟨rfl, held⟩) sound (setting.stays world) ⟨shown, nofun, there⟩
  advance := by
    rintro place state world ⟨shown, answered, there⟩ ready sound
    obtain rfl := answered rfl
    have passed := plays.advance there ready sound
    simp only [machine]
    generalize inner.advance state world = outcome at passed ⊢
    cases passed with
    | passed sound moved there => exact .passed sound moved ⟨_, id, there⟩
  kept := by
    rintro place seen state world after ⟨shown, answered, there⟩ moved
    exact ⟨shown, answered, plays.kept there moved⟩

end Gated

namespace Delayed
variable {inner : Machine ω σ α} {course : Course α} {stands : Standing σ ω}

def Stands (stands : Standing σ ω) : Standing (Delayed σ) ω := fun place seen state world =>
  (seen = true → state.left = 0) ∧ stands place seen state.inner world

theorem plays (plays : Plays setting inner course stands)
    (held : ∀ world, setting.hinders .pending world world) :
    Plays setting (machine inner) course (Stands stands) where
  query := by
    rintro place seen ⟨period, left, inside⟩ world ⟨given, there⟩ sound
    cases left with
    | zero => exact (plays.query there sound).within fun there => ⟨fun _ => rfl, there⟩
    | succ left =>
      have unseen : seen = false := by
        cases seen with
        | false => rfl
        | true => cases given rfl
      subst unseen
      exact .answered (.inr ⟨rfl, held world⟩) sound (setting.stays world) ⟨nofun, there⟩
  advance := by
    rintro place ⟨period, left, inside⟩ world ⟨_, there⟩ ready sound
    exact (plays.advance there ready sound).within fun _ there => ⟨nofun, there⟩
  kept := by
    rintro place seen state world after ⟨given, there⟩ moved
    exact ⟨given, plays.kept there moved⟩

end Delayed
end LightestFirst
