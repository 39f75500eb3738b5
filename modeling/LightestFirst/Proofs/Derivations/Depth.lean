import Mathlib.Data.List.Perm.Subperm
import LightestFirst.Proofs.Derivations.Rewriting
-- What more depth adds. The trees of a nonterminal up to a depth are among those up to any larger one, so
-- an enumeration that goes deeper loses no derivation, and what it gives at a place is never heavier.
namespace LightestFirst

section Places
variable {α : Type} {le : α → α → Bool} {l m : List α} {place : Nat} {x : α}

theorem lt_countP_of_sorted (total : ∀ x y, le x y = true ∨ le y x = true) (sorted : l.Pairwise (le · · = true))
    (found : l[place]? = some x) : place < l.countP (le · x) := by
  obtain ⟨inside, rfl⟩ := List.getElem?_eq_some_iff.mp found
  have upto : ∀ y ∈ l.take (place + 1), le y l[place] = true := by
    intro y among
    obtain ⟨i, within, rfl⟩ := List.mem_take_iff_getElem.mp among
    rcases Nat.lt_succ_iff_lt_or_eq.mp (Nat.lt_min.mp within).1 with before | rfl
    · exact List.pairwise_iff_getElem.mp sorted i place _ inside before
    · exact (total l[i] l[i]).elim id id
  calc place < (l.take (place + 1)).length := by rw [List.length_take_of_le inside]; exact Nat.lt_succ_self place
    _ = (l.take (place + 1)).countP (le · l[place]) := (List.countP_eq_length.mpr upto).symm
    _ ≤ l.countP (le · l[place]) := (List.take_sublist _ l).countP_le

theorem le_of_lt_countP (trans : ∀ {x y z}, le x y = true → le y z = true → le x z = true)
    (sorted : m.Pairwise (le · · = true)) (count : place < m.countP (le · x)) :
    ∃ y, m[place]? = some y ∧ le y x = true := by
  have inside : place < m.length := Nat.lt_of_lt_of_le count List.countP_le_length
  refine ⟨m[place], List.getElem?_eq_getElem inside, by_contra fun larger => ?_⟩
  have behind : (m.drop place).countP (le · x) = 0 := by
    refine List.countP_eq_zero.mpr fun z among low => larger ?_
    rw [List.drop_eq_getElem_cons inside] at among
    rcases List.mem_cons.mp among with rfl | later
    · exact low
    · have rises := sorted.sublist (List.drop_sublist place m)
      rw [List.drop_eq_getElem_cons inside] at rises
      exact trans ((List.pairwise_cons.mp rises).1 z later) low
  have front : (m.take place).countP (le · x) ≤ place :=
    Nat.le_trans List.countP_le_length (List.length_take_le place m)
  rw [← List.take_append_drop place m, List.countP_append, behind] at count
  omega

theorem place_le_of_subperm (total : ∀ x y, le x y = true ∨ le y x = true)
    (trans : ∀ {x y z}, le x y = true → le y z = true → le x z = true) (among : l.Subperm m)
    (left : l.Pairwise (le · · = true)) (right : m.Pairwise (le · · = true)) (found : l[place]? = some x) :
    ∃ y, m[place]? = some y ∧ le y x = true :=
  le_of_lt_countP trans right (Nat.lt_of_lt_of_le (lt_countP_of_sorted total left found) (among.countP_le _))

end Places

theorem Flow.Gives.unique {ω α : Type} [Nonempty ω] {flow : Flow ω α} {l m : List α} (one : flow.Gives l)
    (other : flow.Gives m) : l = m := by
  obtain ⟨world⟩ := ‹Nonempty ω›
  obtain ⟨_, _, drained⟩ := Flow.gives_drained one (Nat.lt_succ_of_le (Nat.le_max_left l.length m.length)) world
  obtain ⟨_, _, again⟩ := Flow.gives_drained other (Nat.lt_succ_of_le (Nat.le_max_right l.length m.length)) world
  rw [drained] at again
  cases again
  rfl

namespace Grammar
variable {grammar : Grammar} {shallow deep : Nat} {name : String}

theorem ordered_entries (grammar : Grammar) (depth : Nat) (name : String) :
    (grammar.ordered depth name).Perm ((grammar.trees depth name).map (Tree.entry grammar)) := by
  obtain ⟨items, gives, perm, -⟩ := flow_sorts grammar depth name
  rwa [(flow_follows grammar depth name).1.unique gives]

theorem trees_deeper (defined : grammar.defines name = true) (deeper : shallow ≤ deep) :
    (grammar.trees shallow name).Subperm (grammar.trees deep name) := by
  obtain ⟨distinct, few⟩ := trees_lists grammar shallow defined
  obtain ⟨-, many⟩ := trees_lists grammar deep defined
  refine List.subperm_of_subset distinct fun tree among => ?_
  obtain ⟨of, low⟩ := (few tree).mp among
  exact (many tree).mpr ⟨of, Nat.le_trans low (Nat.succ_le_succ deeper)⟩

theorem ordered_deeper (defined : grammar.defines name = true) (deeper : shallow ≤ deep) :
    (grammar.ordered shallow name).Subperm (grammar.ordered deep name) := by
  obtain ⟨kept, perm, among⟩ := trees_deeper defined deeper
  have entries : (kept.map (Tree.entry grammar)).Perm (grammar.ordered shallow name) :=
    (perm.map _).trans (ordered_entries grammar shallow name).symm
  have within : (kept.map (Tree.entry grammar)).Subperm (grammar.ordered deep name) :=
    (among.map _).subperm.trans (ordered_entries grammar deep name).symm.subperm
  exact entries.symm.subperm.trans within

theorem enumerate_named (sound : grammar.Sound) (named : grammar.Names name) (limit depth : Nat) :
    grammar.enumerate (some name) limit depth = .ok ((grammar.ordered depth name).take limit) := by
  have asked : grammar.Names ((some name).getD grammar.start) := named
  exact enumerate_sound sound asked limit depth

-- A deeper drain has every derivation of a shallower one, as often at least; so wherever the shallower
-- enumeration has a derivation, the deeper one has one that weighs no more.
theorem deeper_enumerations_keep_derivations (grammar : Grammar) (name : String) (valid : grammar.validate = .ok ())
    (defined : grammar.defines name = true) (deeper : shallow ≤ deep) :
    ∃ few many : List Derivation, grammar.Drains name shallow few ∧ grammar.Drains name deep many ∧
      few.Subperm many ∧
      ∀ (limit place : Nat) (given : List Derivation) (x : Derivation),
        grammar.enumerate (some name) limit shallow = .ok given → given[place]? = some x →
        ∀ larger, place < larger → ∃ (more : List Derivation) (y : Derivation),
          grammar.enumerate (some name) larger deep = .ok more ∧ more[place]? = some y ∧ y.weight ≤ x.weight := by
  have sound := validate_eq_ok.mp valid
  have named := names_iff.mpr defined
  have among := ordered_deeper defined deeper
  refine ⟨_, _, ordered_drains named shallow, ordered_drains named deep, among, ?_⟩
  intro limit place given x here found larger room
  rw [enumerate_named sound named] at here
  cases here
  have there : (grammar.ordered shallow name)[place]? = some x := by
    rw [List.getElem?_take] at found
    split at found
    · exact found
    · cases found
  obtain ⟨y, stands, lighter⟩ := place_le_of_subperm Derivation.le_total Derivation.le_trans among
    (ordered_rises grammar shallow name) (ordered_rises grammar deep name) there
  refine ⟨_, y, enumerate_named sound named larger deep, ?_, of_decide_eq_true lighter⟩
  rw [List.getElem?_take, if_pos room, stands]

def lightDetour : Grammar := ⟨"S", [⟨"S", 5, ["a"]⟩, ⟨"S", 0, ["T", "T"]⟩, ⟨"T", 1, ["t"]⟩]⟩

theorem lightDetour_deeper : lightDetour.validate = .ok () ∧ lightDetour.defines "S" = true ∧
    lightDetour.enumerate (some "S") 2 0 = .ok [⟨5, ["a"]⟩] ∧
    ∃ (few many more : List Derivation) (y : Derivation), lightDetour.Drains "S" 0 few ∧
      lightDetour.Drains "S" 1 many ∧ few.Subperm many ∧
      lightDetour.enumerate (some "S") 1 1 = .ok more ∧ more[0]? = some y ∧ y.weight ≤ 5 := by
  have valid : lightDetour.validate = .ok () := by decide +kernel
  have defined : lightDetour.defines "S" = true := by decide +kernel
  have front : (lightDetour.ordered 0 "S").take 2 = [⟨5, ["a"]⟩] := by cbv
  have first : lightDetour.enumerate (some "S") 2 0 = .ok [⟨5, ["a"]⟩] := by
    rw [← front]
    exact enumerate_named (validate_eq_ok.mp valid) (names_iff.mpr defined) 2 0
  obtain ⟨few, many, drained, further, among, lighter⟩ :=
    deeper_enumerations_keep_derivations lightDetour "S" valid defined (Nat.zero_le 1)
  obtain ⟨more, y, enumerated, found, below⟩ := lighter 2 0 _ _ first rfl 1 Nat.zero_lt_one
  exact ⟨valid, defined, first, few, many, more, y, drained, further, among, enumerated, found, below⟩

end Grammar
end LightestFirst
