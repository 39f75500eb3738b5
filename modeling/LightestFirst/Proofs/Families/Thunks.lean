import LightestFirst.Proofs.Budgets
import LightestFirst.Proofs.Flows.SortedLists
import LightestFirst.Proofs.Families.DefinitionCourses
-- A reference is built by the first call that reaches it, and never again. For each place the budget is a
-- single build: what has not been called may still spend it, and it has been spent once the body is built.
namespace LightestFirst
variable {ω σ ρ κ α β : Type}

namespace Notice

def place : Notice → Path
  | .called place => place
  | .ran place => place

-- Not called, or called and built at once and then only called.
def InTurn (place : Path) (heard : List Notice) : Prop :=
  heard = [] ∨ ∃ later, heard = .called place :: .ran place :: List.replicate later (.called place)

def about (place : Path) (log : List Notice) : List Notice := log.filter (·.place = place)

def onto (notice : Notice) (log : List Notice) : List Notice := log ++ [notice]

variable {place : Path} {log : List Notice}

theorem about_called : about place ((called place).onto log) = about place log ++ [called place] := by
  simp [onto, about, List.filter_append, Notice.place]

theorem about_ran : about place ((ran place).onto log) = about place log ++ [ran place] := by
  simp [onto, about, List.filter_append, Notice.place]

theorem about_elsewhere {notice : Notice} (away : notice.place ≠ place) :
    about place (notice.onto log) = about place log := by
  simp [onto, about, List.filter_append, away]

theorem InTurn.first (turn : InTurn place (about place log)) (fresh : .ran place ∉ log) : about place log = [] := by
  rcases turn with nothing | ⟨later, told⟩
  · exact nothing
  · have among : Notice.ran place ∈ about place log := by simp [told]
    exact absurd (List.mem_filter.mp among).1 fresh

theorem InTurn.again (turn : InTurn place (about place log)) (built : .ran place ∈ log) :
    InTurn place (about place (onto (.called place) log)) := by
  rw [about_called]
  rcases turn with nothing | ⟨later, told⟩
  · have among : Notice.ran place ∈ about place log := List.mem_filter.mpr ⟨built, by simp [Notice.place]⟩
    rw [nothing] at among
    cases among
  · exact .inr ⟨later + 1, by rw [told, List.replicate_succ']; rfl⟩

end Notice

-- What notes do to a budget that is kept for one place: a first call there spends one, and calls after that,
-- which know that it has been built, spend nothing more.
structure Bills (budget : Budget ω) (note : Notice → ω → ω) (place : Path) (built : ω → Prop) : Prop where
  elsewhere : ∀ {notice j world}, notice.place ≠ place → budget.spent j world →
    budget.spent j (note notice world) ∧ budget.moves world (note notice world)
  first : ∀ {j world}, budget.spent j world → 1 + j < budget.limit →
    budget.spent (1 + j) (note (.ran place) (note (.called place) world)) ∧
      budget.moves world (note (.ran place) (note (.called place) world)) ∧
      built (note (.ran place) (note (.called place) world))
  again : ∀ {j world}, built world → budget.spent j world →
    budget.spent j (note (.called place) world) ∧ budget.moves world (note (.called place) world)
  kept : ∀ {world after}, built world → budget.moves world after → built after

section Bills
variable {budget : Budget ω} {note : Notice → ω → ω} {place : Path} {built : ω → Prop}

theorem Bills.sharing (bills : Bills budget note place built) {allows : Allowance σ ω} {source : Machine ω σ α}
    (agree : Agree budget allows source source) :
    Bills (budget.sharing allows : Budget (Buffered σ α × ω)) (fun notice => Prod.map id (note notice)) place
      (built ·.2) where
  elsewhere := by
    rintro notice j ⟨cell, world⟩ away ⟨x, i, less, there, spent⟩
    obtain ⟨spent, moved⟩ := bills.elsewhere away spent
    exact ⟨⟨x, i, less, agree.kept there moved, spent⟩, moved⟩
  first := by
    rintro j ⟨cell, world⟩ ⟨x, i, less, there, spent⟩ room
    have inside : 1 + i < budget.limit := by
      have room : 1 + j < budget.limit := room
      omega
    obtain ⟨spent, moved, known⟩ := bills.first spent inside
    exact ⟨⟨x, 1 + i, by omega, agree.kept there moved, spent⟩, moved, known⟩
  again := by
    rintro j ⟨cell, world⟩ known ⟨x, i, less, there, spent⟩
    obtain ⟨spent, moved⟩ := bills.again known spent
    exact ⟨⟨x, i, less, agree.kept there moved, spent⟩, moved⟩
  kept known moved := bills.kept known moved

end Bills

def Budget.single (place : Path) : Budget (List Notice) where
  spent j log := Notice.InTurn place (Notice.about place log) ∧ (.ran place ∈ log → 1 ≤ j)
  moves before after := .ran place ∈ before → .ran place ∈ after
  limit := 2
  drifts := ⟨fun _ built => built, fun one two built => two (one built)⟩

theorem Bills.logged (place : Path) : Bills (.single place) Notice.onto place (.ran place ∈ ·) where
  elsewhere := by
    rintro notice j log away ⟨turn, spent⟩
    have other : Notice.ran place ≠ notice := by
      rintro rfl
      exact away rfl
    refine ⟨⟨?_, fun built => spent ?_⟩, fun built => List.mem_append_left _ built⟩
    · rwa [Notice.about_elsewhere away]
    · exact (List.mem_append.mp built).resolve_right fun last => other (List.mem_singleton.mp last)
  first := by
    rintro j log ⟨turn, spent⟩ room
    have nothing : .ran place ∉ log := by
      intro built
      have := spent built
      have room : 1 + j < 2 := room
      omega
    have now : Notice.ran place ∈ Notice.onto (.ran place) (Notice.onto (.called place) log) := by simp [Notice.onto]
    refine ⟨⟨.inr ⟨0, ?_⟩, fun _ => Nat.le_add_right 1 j⟩, fun _ => now, now⟩
    rw [Notice.about_ran, Notice.about_called, turn.first nothing]
    rfl
  again := by
    rintro j log built ⟨turn, spent⟩
    exact ⟨⟨turn.again built, fun _ => spent built⟩, fun built => List.mem_append_left _ built⟩
  kept built moved := moved built

section Machines
variable {budget : Budget ω} {allows : Allowance σ ω}

def Enclosed.allowing (allows : Allowance σ ω) (others : Allowance ρ (Buffered σ α × ω)) :
    Allowance (Buffered σ α × ρ) ω :=
  fun k state world => ∃ x y, x + y ≤ k ∧ allows x state.1.source world ∧ others y state.2 (state.1, world)

theorem Enclosed.agree {source : Machine ω σ α} {one other : Machine (Buffered σ α × ω) ρ β}
    {others : Allowance ρ (Buffered σ α × ω)} (sourced : Agree budget allows source source)
    (within : Agree (budget.sharing allows) others one other) :
    Agree budget (Enclosed.allowing allows others) (machine one) (machine other) := by
  have encloses : ∀ {γ : Type} {x y j k : Nat} {inside outside : Attempt γ × ρ × Buffered σ α × ω}
      {cell : Buffered σ α} {world : ω}, x + y ≤ k →
      Agreed (budget.sharing allows) others (y + (x + j)) (cell, world) inside outside →
      Agreed budget (Enclosed.allowing allows others) (k + j) world (enclose inside) (enclose outside) := by
    rintro γ x y j k _ _ cell world both agreed
    cases agreed with
    | @agreed result state after k' j' there shared less moved =>
      obtain ⟨cell, after⟩ := after
      obtain ⟨x', i, inside, behind, spent⟩ := shared
      exact .agreed ⟨x', k', Nat.le_refl _, behind, there⟩ spent (by omega) moved
  constructor
  · rintro k j ⟨cell, inside⟩ world ⟨x, y, both, behind, there⟩ spent room
    have room : y + (x + j) < budget.limit := by omega
    exact encloses both (within.query there ⟨x, j, Nat.le_refl _, behind, spent⟩ room)
  · rintro k j ⟨cell, inside⟩ world ⟨x, y, both, behind, there⟩ spent room
    have room : y + (x + j) < budget.limit := by omega
    exact encloses both (within.advance there ⟨x, j, Nat.le_refl _, behind, spent⟩ room)
  · rintro k ⟨cell, inside⟩ world after ⟨x, y, both, behind, there⟩ moved
    exact ⟨x, y, both, sourced.kept behind moved, within.kept there moved⟩

theorem ReadAlike.aside {one other : Nat → ω → Attempt (Status β) × ω} (reads : ReadAlike budget one other)
    {source : Machine ω σ α} (sourced : Agree budget allows source source) :
    ReadAlike (budget.sharing allows : Budget (Buffered σ α × ω)) (fun place => LightestFirst.aside (one place))
      (fun place => LightestFirst.aside (other place)) := by
  rintro place j ⟨cell, world⟩ ⟨x, i, less, there, spent⟩ room
  have room : j < budget.limit := room
  have shown := reads place spent (by omega)
  simp only [LightestFirst.aside]
  generalize one place world = outcome, other place world = outcome' at shown ⊢
  cases shown with
  | @shown _ _ j' spent below moved =>
    exact .shown ⟨x, j', Nat.le_refl _, sourced.kept there moved, spent⟩ (by omega) moved

end Machines

namespace Flow
variable {budget : Budget ω} {note : Notice → ω → ω} {place : Path} {built : ω → Prop} {flow left right : Flow ω α}
  {cost less more : Nat}

def Costs (budget : Budget ω) (flow : Flow ω α) (cost : Nat) : Prop :=
  ∃ allows, Agree budget allows flow.machine flow.machine ∧ ∀ world, allows cost flow.state world

theorem mapped_costs (f : α → α) (costs : flow.Costs budget cost) : (mapped f flow).Costs budget cost := by
  obtain ⟨allows, agree, starts⟩ := costs
  exact ⟨_, Mapped.agree agree fun _ _ => fun {_ world} spent => ⟨spent, budget.drifts.stays world⟩, starts⟩

theorem merged_costs (le : α → α → Bool) (first : left.Costs budget less) (second : right.Costs budget more) :
    (merged le left right).Costs budget (less + more) := by
  obtain ⟨allows, agree, starts⟩ := first
  obtain ⟨others, follows, begins⟩ := second
  exact ⟨_, Merged.agree agree follows, fun world => ⟨less, more, Nat.le_refl _, starts world, begins world⟩⟩

theorem paired_costs (le : α → α → Bool) (join : α → α → α) (first : left.Costs budget less)
    (second : right.Costs budget more) : (paired le join left right).Costs budget (less + more) := by
  obtain ⟨allows, agree, starts⟩ := first
  obtain ⟨others, follows, begins⟩ := second
  refine ⟨_, Paired.agree agree follows fun _ _ => fun {_ world} spent => ⟨spent, budget.drifts.stays world⟩, ?_⟩
  exact fun world => ⟨less, more, Nat.le_refl _, starts world, begins world⟩

theorem literal_costs (items : List α) : (iterated (Iterated.plainly Body.take) items : Flow ω α).Costs budget 0 :=
  ⟨_, Iterated.agree fun _ => fun {_ world} spent => ⟨spent, budget.drifts.stays world⟩, fun _ => trivial⟩

theorem noted_costs_elsewhere {away : Path} (bills : Bills budget note place built) {later : Thunk (Flow ω α)}
    (other : away ≠ place) (costs : later.get.Costs budget cost) : (noted note away later).Costs budget cost := by
  obtain ⟨allows, agree, starts⟩ := costs
  have called : ∀ {j world}, budget.spent j world →
      budget.spent j (note (.called away) world) ∧ budget.moves world (note (.called away) world) := bills.elsewhere other
  have ran : ∀ {j world}, budget.spent j world →
      budget.spent j (note (.ran away) world) ∧ budget.moves world (note (.ran away) world) := bills.elsewhere other
  have builds : ∀ {k j : Nat} {world : ω}, cost ≤ k → budget.spent j world →
      Postponed.Built budget allows (k + j) world (.ok later.get.state, note (.ran away) world) :=
    fun enough spent => .built (starts _) (ran spent).1 (by omega) (ran spent).2
  have later := Postponed.agree (fun k (_ : Unit) _ => cost ≤ k) agree (fun enough spent _ => builds enough spent)
    fun enough _ => enough
  exact ⟨_, Probed.agree called called later, fun _ => Nat.le_refl _⟩

theorem noted_costs_here (bills : Bills budget note place built) {later : Thunk (Flow ω α)}
    (costs : later.get.Costs budget cost) : (noted note place later).Costs budget (1 + cost) := by
  obtain ⟨allows, agree, starts⟩ := costs
  let owed : Allowance (Postponed Unit later.get.State) ω := fun k state world =>
    match state with
    | .waiting _ => 1 + cost ≤ k
    | .forced inside => built world ∧ allows k inside world
    | .spent => False
  have reaches : ∀ {γ : Type} {call : later.get.State → ω → Attempt γ × later.get.State × ω},
      (∀ {k j state world}, allows k state world → budget.spent j world → k + j < budget.limit →
        Agreed budget allows (k + j) world (call state world) (call state world)) →
      ∀ {k j state world}, owed k state world → budget.spent j world → k + j < budget.limit →
        Agreed budget owed (k + j) world
          (Postponed.reach (fun _ world => (.ok later.get.state, note (.ran place) world)) call state
            (note (.called place) world))
          (Postponed.reach (fun _ world => (.ok later.get.state, note (.ran place) world)) call state
            (note (.called place) world)) := by
    rintro γ call calls k j (_ | inside | _) world there spent room
    · have enough : 1 + cost ≤ k := there
      obtain ⟨spent, moved, known⟩ := bills.first spent (by omega)
      have called := calls (starts (note (.ran place) (note (.called place) world))) spent (by omega)
      simp only [Postponed.reach]
      refine Agreed.from_before moved (by omega : cost + (1 + j) + 0 ≤ k + j) (called.within 0 (Nat.le_refl _) ?_)
      exact fun went there => ⟨bills.kept known went, there⟩
    · obtain ⟨known, there⟩ := there
      obtain ⟨spent, moved⟩ := bills.again known spent
      have called := calls (agree.kept there moved) spent room
      simp only [Postponed.reach]
      refine Agreed.from_before moved (Nat.le_refl _) (called.within 0 (Nat.le_refl _) ?_)
      exact fun went there => ⟨bills.kept (bills.kept known moved) went, there⟩
    · cases there
  refine ⟨owed, ⟨reaches agree.query, reaches agree.advance, ?_⟩, fun _ => Nat.le_refl _⟩
  rintro k (_ | inside | _) world after there moved
  · exact there
  · exact ⟨bills.kept there.1 moved, agree.kept there.2 moved⟩
  · cases there

end Flow

namespace Body
variable {ranking : Ranking α} {n : Nat}

def count (references : κ → Path → Nat) : {n : Nat} → Body ranking κ n → Path → Nat
  | _, .empty, _ => 0
  | _, .single _, _ => 0
  | _, .literal _ _, _ => 0
  | _, .mapped _ inner, place => inner.count references place
  | _, .merged left right, place =>
    left.count references (place ++ [.first]) + right.count references (place ++ [.second])
  | _, .paired _ left right, place =>
    left.count references (place ++ [.first]) + right.count references (place ++ [.second])
  | _, .shared source within, place =>
    source.count references (place ++ [.first]) + within.count references (place ++ [.second])
  | _, .reader _, _ => 0
  | _, .reference name, place => references name place

-- One at most, and none outside of what leads to the place.
def Sole (target : Path) (count : Path → Nat) : Prop :=
  ∀ place, count place ≤ 1 ∧ (count place ≠ 0 → place <+: target)

theorem Sole.both {target : Path} {one other : Path → Nat} (first : Sole target one) (second : Sole target other) :
    Sole target fun place => one (place ++ [.first]) + other (place ++ [.second]) := by
  intro place
  have fork : one (place ++ [.first]) ≠ 0 → other (place ++ [.second]) = 0 := by
    intro here
    by_contra there
    obtain ⟨rest, left⟩ := (first _).2 here
    obtain ⟨more, right⟩ := (second _).2 there
    rw [← right, List.append_assoc, List.append_assoc, List.append_cancel_left_eq] at left
    cases left
  have single := (first (place ++ [.first])).1
  have other_single := (second (place ++ [.second])).1
  dsimp only
  refine ⟨by omega, fun here => ?_⟩
  by_cases left : one (place ++ [.first]) = 0
  · have right : other (place ++ [.second]) ≠ 0 := by omega
    exact (List.prefix_append _ _).trans ((second _).2 right)
  · exact (List.prefix_append _ _).trans ((first _).2 left)

theorem count_sole {references : κ → Path → Nat} {target : Path} (sole : ∀ name, Sole target (references name))
    (body : Body ranking κ n) : Sole target (body.count references) := by
  induction body with
  | mapped _ _ ih => exact ih
  | merged _ _ first second => exact first.both second
  | paired _ _ _ first second => exact first.both second
  | shared _ _ first second => exact first.both second
  | reference name => exact sole name
  | _ => exact fun _ => ⟨Nat.zero_le 1, fun here => absurd rfl here⟩

theorem costs {references : κ → (ω : Type) → (Notice → ω → ω) → Path → Flow ω α} {counts : κ → Path → Nat} {target : Path}
    (named : ∀ (name : κ) {ω : Type} {budget : Budget ω} {note : Notice → ω → ω} {built : ω → Prop} (place : Path),
      Bills budget note target built → (references name ω note place).Costs budget (counts name place))
    (body : Body ranking κ n) {ω : Type} {budget : Budget ω} {note : Notice → ω → ω} {built : ω → Prop}
    (bills : Bills budget note target built) {readAt : Fin n → Nat → ω → Attempt (Status α) × ω}
    (reads : ∀ buffer, ReadAlike budget (readAt buffer) (readAt buffer)) (place : Path) :
    (body.flow references ω note readAt place).Costs budget (body.count counts place) := by
  induction body generalizing ω place with
  | empty => exact ⟨_, Empty.agree, fun _ => trivial⟩
  | single value => exact ⟨_, Single.agree, fun _ => trivial⟩
  | literal items _ => exact Flow.literal_costs items
  | mapped f inner ih => exact Flow.mapped_costs f.apply (ih bills reads place)
  | merged left right first second => exact Flow.merged_costs ranking.le (first bills reads _) (second bills reads _)
  | paired join left right first second =>
    exact Flow.paired_costs ranking.le join.join (first bills reads _) (second bills reads _)
  | shared source within first second =>
    obtain ⟨allows, agree, starts⟩ := first bills reads (place ++ [.first])
    have beside : ∀ buffer, ReadAlike (budget.sharing allows)
        (readers (source.flow references ω note readAt (place ++ [.first])).machine readAt buffer)
        (readers (source.flow references ω note readAt (place ++ [.first])).machine readAt buffer) :=
      Fin.cases (Buffered.read_agree agree) fun buffer => (reads buffer).aside agree
    obtain ⟨others, inner, begins⟩ := second (bills.sharing agree) beside (place ++ [.second])
    exact ⟨_, Enclosed.agree agree inner, fun world => ⟨_, _, Nat.le_refl _, starts world, begins _⟩⟩
  | reader buffer => exact ⟨_, Reader.agree (reads buffer), fun _ => trivial⟩
  | reference name => exact named name place bills

end Body

namespace Family
variable {ranking : Ranking α} (family : Family ranking κ)

def count (target : Path) : Nat → κ → Path → Nat
  | 0, name, place => (family name).count (fun _ _ => 0) place
  | fuel + 1, name, place =>
    (family name).count (fun other place =>
      (if place = target then 1 else 0) + count target fuel other (place ++ [.unfolded])) place

theorem count_sole (target : Path) (fuel : Nat) (name : κ) : Body.Sole target (family.count target fuel name) := by
  induction fuel generalizing name with
  | zero => exact Body.count_sole (fun _ _ => ⟨Nat.zero_le 1, fun here => absurd rfl here⟩) (family name)
  | succ fuel ih =>
    refine Body.count_sole (fun other place => ?_) (family name)
    obtain ⟨single, leads⟩ := ih other (place ++ [.unfolded])
    split
    · next here =>
      subst here
      have nothing : family.count place fuel other (place ++ [.unfolded]) = 0 := by
        by_contra beyond
        have longer := (leads beyond).length_le
        rw [List.length_append, List.length_singleton] at longer
        omega
      exact ⟨by omega, fun _ => List.prefix_rfl⟩
    · refine ⟨by omega, fun here => ?_⟩
      exact (List.prefix_append _ _).trans (leads (by omega))

theorem costs (fuel : Nat) (name : κ) {ω : Type} {budget : Budget ω} {note : Notice → ω → ω} {built : ω → Prop}
    {target : Path} (place : Path) (bills : Bills budget note target built) :
    (family.flow fuel name ω note place).Costs budget (family.count target fuel name place) := by
  induction fuel generalizing name ω place with
  | zero =>
    exact (family name).costs (fun _ _ _ _ _ _ _ => ⟨_, Empty.agree, fun _ => trivial⟩) bills (fun b => b.elim0) place
  | succ fuel ih =>
    refine (family name).costs (fun other _ _ _ _ place bills => ?_) bills (fun b => b.elim0) place
    have inner := ih other (place ++ [.unfolded]) bills
    by_cases here : place = target
    · subst here
      rw [if_pos rfl]
      exact Flow.noted_costs_here bills inner
    · rw [if_neg here, Nat.zero_add]
      exact Flow.noted_costs_elsewhere bills here inner

end Family

inductive Called (machine : Machine ω σ α) (first : σ × ω) : σ × ω → Prop where
  | start : Called machine first first
  | asked {state : σ} {world : ω} (before : Called machine first (state, world)) :
      Called machine first (machine.query state world).2
  | advanced {state : σ} {world : ω} (before : Called machine first (state, world)) :
      Called machine first (machine.advance state world).2

theorem Called.spends {budget : Budget ω} {allows : Allowance σ ω} {machine : Machine ω σ α}
    (agree : Agree budget allows machine machine) {first now : σ × ω}
    (starts : ∃ k j, allows k first.1 first.2 ∧ budget.spent j first.2 ∧ k + j < budget.limit)
    (called : Called machine first now) : ∃ k j, allows k now.1 now.2 ∧ budget.spent j now.2 ∧ k + j < budget.limit := by
  have onward : ∀ {γ : Type} {sum : Nat} {before : ω} {outcome : γ × σ × ω}, sum < budget.limit →
      Agreed budget allows sum before outcome outcome →
      ∃ k j, allows k outcome.2.1 outcome.2.2 ∧ budget.spent j outcome.2.2 ∧ k + j < budget.limit := by
    intro γ sum before outcome room agreed
    cases agreed with
    | agreed there spent less => exact ⟨_, _, there, spent, Nat.lt_of_le_of_lt less room⟩
  induction called with
  | start => exact starts
  | asked _ ih =>
    obtain ⟨k, j, there, spent, room⟩ := ih
    exact onward room (agree.query there spent room)
  | advanced _ ih =>
    obtain ⟨k, j, there, spent, room⟩ := ih
    exact onward room (agree.advance there spent room)

namespace Family
variable {ranking : Ranking α}

-- A definition with so much fuel is drained after finitely many rounds and has given exactly what its body
-- comes to on lists, in order, whatever is noted on the way. Building it runs nothing, and whatever calls
-- it is put to, each reference in it is built at most once, by the first call that reaches it.
theorem unfolds_on_demand (family : Family ranking κ) (fuel : Nat) (name : κ) :
    ranking.Sorted (family.list fuel name) ∧
      (∀ (ω : Type) (note : Notice → ω → ω) (world : ω) limit, (family.list fuel name).length < limit →
        ∃ later after, Session.drain (family.flow fuel name ω note []).machine limit 0 [] 0
          (family.flow fuel name ω note []).state world = (.ok ⟨family.list fuel name, .ended, 0⟩, later, after)) ∧
      ∀ state log, Called (family.flow fuel name _ Notice.onto []).machine
        ((family.flow fuel name _ Notice.onto []).state, []) (state, log) →
        ∀ place, Notice.InTurn place (Notice.about place log) := by
  refine ⟨family.list_sorted fuel name, fun ω note world limit room => ?_, fun state log called place => ?_⟩
  · exact Flow.gives_drained (family.keeps fuel name [] fun _ _ _ => ⟨trivial, trivial⟩) room world
  · obtain ⟨allows, agree, starts⟩ := family.costs fuel name [] (Bills.logged place)
    have single := (family.count_sole place fuel name []).1
    have unspent : (Budget.single place).spent 0 [] := ⟨.inl rfl, fun built => absurd built List.not_mem_nil⟩
    obtain ⟨_, _, _, spent, _⟩ := called.spends agree ⟨_, 0, starts [], unspent, Nat.lt_succ_of_le single⟩
    exact spent.1

def upwards : Ranking Nat where
  le x y := x ≤ y
  total x y := by simpa using Nat.le_total x y
  trans one two := by simpa using Nat.le_trans (of_decide_eq_true one) (of_decide_eq_true two)

def successor : upwards.Monotone := ⟨(· + 1), fun below => by simpa [upwards] using of_decide_eq_true below⟩

def parity : Family upwards Bool
  | true => .merged (.single 0) (.mapped successor (.reference false))
  | false => .mapped successor (.reference true)

theorem parity_unfolds : parity.list 6 true = [0, 2, 4, 6] ∧
    (∃ later after, Session.drain (parity.flow 6 true _ Notice.onto []).machine 5 0 [] 0
      (parity.flow 6 true _ Notice.onto []).state [] = (.ok ⟨[0, 2, 4, 6], .ended, 0⟩, later, after)) ∧
    ∀ state log, ((parity.flow 6 true _ Notice.onto []).machine.query (parity.flow 6 true _ Notice.onto []).state []).2 =
      (state, log) → ∀ place, Notice.InTurn place (Notice.about place log) := by
  have evens : parity.list 6 true = [0, 2, 4, 6] := by cbv
  obtain ⟨_, drained, turns⟩ := unfolds_on_demand parity 6 true
  have drained := drained _ Notice.onto [] 5
  rw [evens] at drained
  exact ⟨evens, drained (by decide), fun state log asked => turns state log (asked ▸ .asked .start)⟩

end Family
end LightestFirst
