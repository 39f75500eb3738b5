import Mathlib.Algebra.BigOperators.Group.Finset.Piecewise
import LightestFirst.Proofs.Budgets
import LightestFirst.Proofs.Networks.SourcesAtHome
import LightestFirst.Proofs.Networks.Sizes
-- How far a call can go in a network before it meets nothing but streams without streams inside. Every
-- source has a share; a source that runs is out of its cell, and what it may spend is with the call
-- that runs it. Building a deferred part moves shares about and makes none.
namespace LightestFirst
variable {α : Type}

def Stream.allows : Allowance (Stream α) (Network α) := fun k stream network => stream.Fits network.cells.size k

namespace Network

-- Every source has its share, but for those that run, which are out of their cells.
structure Portions (running : List Nat) (shares : Nat → Nat) (network : Network α) : Prop where
  known : ∀ {name cell}, network.multiplexers.get? name = some cell → cell < network.cells.size
  out : ∀ cell, network.lent cell = decide (cell ∈ running)
  home : ∀ {cell shared source}, network.cells[cell]? = some shared → shared.source = some source →
    ∃ k, k < shares cell ∧ source.Fits network.cells.size k

def Carries (running : List Nat) (load : Nat) (network : Network α) : Prop :=
  ∃ shares k, network.Portions running shares ∧ Table.Enough (Handle.Fits network.cells.size) k network.handles ∧
    (Finset.range network.cells.size).sum shares + k ≤ load

-- Cells are added, and nothing is done to those whose sources are out.
structure Extends (before after : Network α) : Prop where
  grown : before.cells.size ≤ after.cells.size
  untouched : ∀ {cell}, before.lent cell = true → after.cells[cell]? = before.cells[cell]?

theorem extends_drifts : Drifts (Extends : Network α → Network α → Prop) where
  stays _ := ⟨Nat.le_refl _, fun _ => rfl⟩
  goes_on {first second _} one two := by
    refine ⟨Nat.le_trans one.grown two.grown, fun {cell} out => ?_⟩
    have still : second.lent cell = true := by rw [lent, one.untouched out, ← lent, out]
    exact (two.untouched still).trans (one.untouched out)

theorem extends_addCell (network : Network α) (source : Stream α) : Extends network (network.addCell source).2 := by
  refine ⟨by simp [addCell], fun {cell} out => ?_⟩
  have inside : cell ≠ network.cells.size := by
    rintro rfl
    rw [lent, Array.getElem?_eq_none (Nat.le_refl _)] at out
    cases out
  simp only [addCell, Array.getElem?_push, if_neg inside]

theorem Extends.of_cells {before after : Network α} (same : after.cells = before.cells) : before.Extends after :=
  ⟨Nat.le_of_eq (congrArg Array.size same.symm), fun _ => by rw [same]⟩

def budget (running : List Nat) (limit : Nat) : Budget (Network α) where
  spent := Carries running
  moves := Extends
  limit := limit
  drifts := extends_drifts

variable {running : List Nat} {shares : Nat → Nat} {load cell k : Nat} {network : Network α}
  {shared : Buffered (Option (Stream α)) α} {source : Stream α}

theorem sum_update {cells : Nat} (inside : cell < cells) (shares : Nat → Nat) (share : Nat) :
    (Finset.range cells).sum (Function.update shares cell share) + shares cell =
      (Finset.range cells).sum shares + share := by
  have among : cell ∈ Finset.range cells := Finset.mem_range.mpr inside
  rw [Finset.sum_update_of_mem among, Finset.sum_eq_add_sum_sdiff_singleton_of_mem among shares]
  omega

theorem Carries.known {name : String} (carries : network.Carries running load)
    (found : network.multiplexers.get? name = some cell) : cell < network.cells.size := by
  obtain ⟨shares, k, portions, _⟩ := carries
  exact portions.known found

theorem Carries.out (carries : network.Carries running load) (cell : Nat) :
    network.lent cell = decide (cell ∈ running) := by
  obtain ⟨shares, k, portions, _⟩ := carries
  exact portions.out cell

theorem Carries.wider {more : Nat} (carries : network.Carries running load) (wide : load ≤ more) :
    network.Carries running more := by
  obtain ⟨shares, k, portions, enough, sum⟩ := carries
  exact ⟨shares, k, portions, enough, Nat.le_trans sum wide⟩

theorem Carries.ledger {ledger : Ledger} (carries : network.Carries running load) :
    ({ network with ledger } : Network α).Carries running load := by
  obtain ⟨shares, k, portions, enough, sum⟩ := carries
  exact ⟨shares, k, ⟨portions.known, portions.out, portions.home⟩, enough, sum⟩

theorem Carries.erased (carries : network.Carries running load) (handle : String) :
    ({ network with handles := network.handles.erase handle } : Network α).Carries running load := by
  obtain ⟨shares, k, portions, enough, sum⟩ := carries
  exact ⟨shares, k, ⟨portions.known, portions.out, portions.home⟩, enough.erase handle, sum⟩

theorem Carries.takes {handle : String} {held : Handle α} (carries : network.Carries running load)
    (found : network.handles.get? handle = some held) : ∃ x load', held.Fits network.cells.size x ∧ x + load' ≤ load ∧
      ({ network with handles := network.handles.erase handle } : Network α).Carries running load' := by
  obtain ⟨shares, k, portions, enough, sum⟩ := carries
  obtain ⟨x, y, fits, rest, less⟩ := enough.takes found
  have total : x + ((Finset.range network.cells.size).sum shares + y) ≤ load := by omega
  exact ⟨x, _, fits, total, shares, y, ⟨portions.known, portions.out, portions.home⟩, rest, Nat.le_refl _⟩

theorem Carries.puts (carries : network.Carries running load) {held : Handle α} (fits : held.Fits network.cells.size k)
    (handle : String) :
    ({ network with handles := network.handles.put handle held } : Network α).Carries running (k + load) := by
  obtain ⟨shares, x, portions, enough, sum⟩ := carries
  have total : (Finset.range network.cells.size).sum shares + (k + x) ≤ k + load := by omega
  exact ⟨shares, k + x, ⟨portions.known, portions.out, portions.home⟩, .put fits (enough.erase handle), total⟩

theorem Carries.named (carries : network.Carries running load) (inside : cell < network.cells.size) (name : String) :
    ({ network with multiplexers := network.multiplexers.put name cell } : Network α).Carries running load := by
  obtain ⟨shares, k, portions, enough, sum⟩ := carries
  refine ⟨shares, k, ⟨fun known => ?_, portions.out, portions.home⟩, enough, sum⟩
  rcases Table.get?_of_put known with rfl | before
  · exact inside
  · exact portions.known before

theorem Portions.put (portions : network.Portions running shares) (inside : cell < network.cells.size)
    {others : List Nat} {share : Nat} (elsewhere : ∀ other, other ≠ cell → (other ∈ others ↔ other ∈ running))
    (here : shared.source.isNone = decide (cell ∈ others))
    (fits : ∀ {source}, shared.source = some source → ∃ k, k < share ∧ source.Fits network.cells.size k) :
    (network.setCell cell shared).Portions others (Function.update shares cell share) := by
  constructor
  · rw [size_setCell]
    exact portions.known
  · intro other
    rw [lent_setCell inside, Function.update_apply, portions.out]
    by_cases same : other = cell
    · rw [if_pos same, here, same]
    · rw [if_neg same, decide_eq_decide]
      exact (elsewhere other same).symm
  · intro other found source there held
    rw [getElem?_setCell _ _ _ _ inside] at there
    rw [size_setCell]
    by_cases same : other = cell
    · rw [if_pos same, Option.some.injEq] at there
      subst there
      rw [same, Function.update_self]
      exact fits held
    · rw [if_neg same] at there
      rw [Function.update_of_ne same]
      exact portions.home there held

theorem Carries.lends (carries : network.Carries running load) (there : network.cells[cell]? = some shared)
    (held : shared.source = some source) :
    ∃ k load', source.Fits network.cells.size k ∧ k + load' < load ∧
      (network.setCell cell (shared.replace none)).Carries (cell :: running) load' := by
  obtain ⟨shares, x, portions, enough, sum⟩ := carries
  have inside : cell < network.cells.size := (Array.getElem?_eq_some_iff.mp there).1
  obtain ⟨k, less, fits⟩ := portions.home there held
  have rest := sum_update inside shares 0
  have emptied : (network.setCell cell (shared.replace none)).Portions (cell :: running) (Function.update shares cell 0) := by
    refine portions.put inside (fun other different => ?_) (by simp [Buffered.replace]) nofun
    rw [List.mem_cons, or_iff_right different]
  refine ⟨k, _, fits, ?_, _, x, emptied, ?_, Nat.le_refl _⟩
  · rw [size_setCell]
    omega
  · rw [size_setCell]
    exact enough

theorem Carries.returned (carries : network.Carries (cell :: running) load) (home : cell ∉ running)
    (inside : cell < network.cells.size) (held : shared.source = some source) (fits : source.Fits network.cells.size k) :
    (network.setCell cell shared).Carries running (k + load + 1) := by
  obtain ⟨shares, x, portions, enough, sum⟩ := carries
  have whole := sum_update inside shares (k + 1)
  have restored : (network.setCell cell shared).Portions running (Function.update shares cell (k + 1)) := by
    refine portions.put inside (fun other different => ?_) ?_ fun {source} found => ?_
    · rw [List.mem_cons, or_iff_right different]
    · rw [held, decide_eq_false home]
      rfl
    · obtain rfl := Option.some.inj (held.symm.trans found)
      exact ⟨k, Nat.lt_succ_self k, fits⟩
  refine ⟨_, x, restored, ?_, ?_⟩
  · rw [size_setCell]
    exact enough
  · rw [size_setCell]
    omega

theorem Extends.around {after : Network α} {emptied : Buffered (Option (Stream α)) α}
    (moved : (network.setCell cell emptied).Extends after) (inside : cell < network.cells.size)
    (out : emptied.source = none) (home : network.lent cell = false) (restored : Buffered (Option (Stream α)) α) :
    after.cells[cell]? = some emptied ∧ network.Extends (after.setCell cell restored) := by
  have lent : (network.setCell cell emptied).lent = _ := lent_setCell inside
  have left : after.cells[cell]? = some emptied := by
    rw [moved.untouched, getElem?_setCell _ _ _ _ inside, if_pos rfl]
    rw [lent, Function.update_self, out]
    rfl
  have inside' : cell < after.cells.size := (Array.getElem?_eq_some_iff.mp left).1
  refine ⟨left, ?_, fun {other} gone => ?_⟩
  · rw [size_setCell]
    exact (size_setCell network cell emptied).symm.le.trans moved.grown
  · have different : other ≠ cell := by
      rintro rfl
      rw [home] at gone
      cases gone
    rw [getElem?_setCell _ _ _ _ inside', if_neg different, moved.untouched, getElem?_setCell _ _ _ _ inside,
      if_neg different]
    rw [lent, Function.update_of_ne different, gone]

theorem Carries.added (carries : network.Carries running load) (fits : source.Fits network.cells.size k) :
    (network.addCell source).2.Carries running (k + load + 1) ∧ Extends network (network.addCell source).2 := by
  obtain ⟨shares, x, portions, enough, sum⟩ := carries
  have grown : (network.addCell source).2.cells.size = network.cells.size + 1 := Array.size_push _
  have above := Nat.le_succ network.cells.size
  refine ⟨⟨Function.update shares network.cells.size (k + 1), x, ⟨?_, ?_, ?_⟩, ?_, ?_⟩, extends_addCell network source⟩
  · intro name cell known
    rw [grown]
    exact Nat.lt_succ_of_lt (portions.known known)
  · exact fun cell => (congrFun (returns_addCell network source) cell).trans (portions.out cell)
  · intro cell shared running there held
    rw [grown]
    have pushed := there
    simp only [addCell, Array.getElem?_push] at pushed
    split at pushed
    · next last =>
      obtain rfl := Option.some.inj pushed
      obtain rfl := Option.some.inj held
      rw [last, Function.update_self]
      exact ⟨k, Nat.lt_succ_self k, fits.kept above⟩
    · next before =>
      rw [Function.update_of_ne before]
      obtain ⟨k, less, fits⟩ := portions.home pushed held
      exact ⟨k, less, fits.kept above⟩
  · rw [grown]
    exact enough.imp fun fits => fits.kept above
  · have same : (Finset.range network.cells.size).sum (Function.update shares network.cells.size (k + 1)) =
        (Finset.range network.cells.size).sum shares :=
      Finset.sum_congr rfl fun cell inside => Function.update_of_ne (Nat.ne_of_lt (Finset.mem_range.mp inside)) _ _
    rw [grown, Finset.sum_range_succ, same, Function.update_self]
    omega

end Network

theorem Recipe.build_fits {running : List Nat} (limit : Nat) {recipe : Recipe α} (woven : recipe.Woven) (fuel : Nat)
    {load : Nat} {network : Network α} (carries : network.Carries running load) :
    Postponed.Built (Network.budget running limit) Stream.allows (recipe.size + load) network
      (recipe.build fuel network) := by
  have stays := Network.extends_drifts.stays network
  induction recipe generalizing load network with
  | empty => exact .built (k := 0) .empty carries (Nat.le_refl _) stays
  | single value => exact .built (k := 0) .single carries (Nat.le_refl _) stays
  | iterated supply => exact .built (k := 0) .iterated carries (Nat.le_refl _) stays
  | deferred tally body => exact .built (.waiting woven (Nat.lt_succ_self _)) carries (Nat.le_refl _) stays
  | mapped _ inner ih | boxed inner ih | probed _ inner ih | gated _ inner ih | delayed _ inner ih
  | following _ inner ih =>
    have outcome := ih woven carries stays
    rw [build]
    generalize inner.build fuel network = built at outcome ⊢
    cases outcome with
    | failed spent less moved => exact .failed spent (by simp only [size]; omega) moved
    | @built stream after x _ there spent less moved =>
      refine .built (k := x + 1) ?_ spent (by simp only [size]; omega) moved
      constructor
      · exact there
      · exact Nat.lt_succ_self x
  | merged _ left right first second | paired _ _ left right first second =>
    have outcome := first woven.1 carries stays
    rw [build]
    generalize left.build fuel network = built at outcome ⊢
    cases outcome with
    | failed spent less moved => exact .failed spent (by simp only [size]; omega) moved
    | @built _ middle x _ there spent less moved =>
      have outcome := second woven.2 spent (Network.extends_drifts.stays middle)
      dsimp only
      generalize right.build fuel middle = built at outcome ⊢
      cases outcome with
      | failed spent below went =>
        exact .failed spent (by simp only [size]; omega) (Network.extends_drifts.goes_on moved went)
      | @built _ _ y _ behind spent below went =>
        refine .built (k := x + y + 1) ?_ spent (by simp only [size]; omega) (Network.extends_drifts.goes_on moved went)
        constructor
        · exact there.kept went.grown
        · exact behind
        · exact Nat.lt_succ_self (x + y)
  | multiplexed source ih =>
    have outcome := ih woven carries stays
    rw [build]
    generalize source.build fuel network = built at outcome ⊢
    cases outcome with
    | failed spent less moved => exact .failed spent (by simp only [size]; omega) moved
    | built there spent less moved =>
      obtain ⟨added, went⟩ := spent.added there
      exact .built (k := 0) (.multiplexer (by simp)) added (by simp only [size]; omega)
        (Network.extends_drifts.goes_on moved went)
  | view name =>
    rw [build]
    cases found : network.multiplexers.get? name with
    | none => exact .failed carries (Nat.le_add_left _ _) stays
    | some cell =>
      exact .built (k := 0) (.view (carries.known found)) carries (Nat.le_refl _) stays
  | taken handle =>
    rw [build]
    cases found : network.handles.get? handle with
    | none => exact .failed carries (Nat.le_add_left _ _) stays
    | some held =>
      obtain ⟨x, load', fits, less, rest⟩ := carries.takes found
      exact .built (Handle.contents_fits fits) rest (by simp only [size]; omega) (.of_cells rfl)
  | _ => exact woven.elim

end LightestFirst
