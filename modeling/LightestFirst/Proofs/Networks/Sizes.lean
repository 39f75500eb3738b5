import LightestFirst.Network.Basic
-- How much there is in a stream for calls to go through, counted on the recipe it is built from and on
-- what has been built. A table of handles has so much in all as its streams have between them.
namespace LightestFirst
variable {α β : Type}

namespace Table
variable {fits : Nat → β → Prop} {k x y : Nat} {table : Table β} {name : String} {value : β}

inductive Enough (fits : Nat → β → Prop) : Nat → Table β → Prop where
  | nil {k : Nat} : Enough fits k []
  | cons {k x y : Nat} {name : String} {value : β} {rest : Table β} (here : fits x value) (behind : Enough fits y rest)
      (both : x + y ≤ k) : Enough fits k ((name, value) :: rest)

theorem Enough.imp {others : Nat → β → Prop} (implies : ∀ {x value}, fits x value → others x value)
    (enough : Enough fits k table) : Enough others k table := by
  induction enough with
  | nil => exact .nil
  | cons here _ both ih => exact .cons (implies here) ih both

theorem Enough.wider (enough : Enough fits x table) (wide : x ≤ k) : Enough fits k table := by
  cases enough with
  | nil => exact .nil
  | cons here behind both => exact .cons here behind (Nat.le_trans both wide)

theorem erase_cons_ne {other : String} (rest : Table β) (different : other ≠ name) :
    erase ((other, value) :: rest) name = (other, value) :: erase rest name := by
  simp [erase, different]

theorem erase_cons_self (rest : Table β) : erase ((name, value) :: rest) name = erase rest name := by
  simp [erase]

theorem put_erase : put (erase table name) name value = put table name value := by
  simp [put, erase]

theorem Enough.erase (enough : Enough fits k table) (name : String) : Enough fits k (table.erase name) := by
  induction enough with
  | nil => exact .nil
  | @cons k x y other value rest here _ both ih =>
    by_cases same : other = name
    · subst same
      rw [erase_cons_self]
      exact ih.wider (by omega)
    · rw [erase_cons_ne rest same]
      exact .cons here ih both

theorem Enough.takes (enough : Enough fits k table) (found : table.get? name = some value) :
    ∃ x y, fits x value ∧ Enough fits y (table.erase name) ∧ x + y ≤ k := by
  induction enough with
  | nil => cases found
  | @cons k x y other held rest here behind both ih =>
    rw [get?] at found
    split at found
    · next same =>
      subst same
      obtain rfl := Option.some.inj found
      rw [erase_cons_self]
      exact ⟨x, y, here, behind.erase other, both⟩
    · next different =>
      obtain ⟨x', y', there, left, less⟩ := ih found
      rw [erase_cons_ne rest different]
      exact ⟨x', x + y', there, .cons here left (Nat.le_refl _), by omega⟩

theorem Enough.put (here : fits x value) (enough : Enough fits y (table.erase name)) :
    Enough fits (x + y) (table.put name value) := .cons here enough (Nat.le_refl _)

end Table

namespace Recipe

-- Trees of the streams of this library, with readers of any buffers and streams of handles among their leaves.
def Woven : Recipe α → Prop
  | .empty => True
  | .single _ => True
  | .iterated _ => True
  | .deferred _ body => body.Woven
  | .mapped _ inner => inner.Woven
  | .merged _ left right => left.Woven ∧ right.Woven
  | .paired _ _ left right => left.Woven ∧ right.Woven
  | .multiplexed source => source.Woven
  | .view _ => True
  | .boxed inner => inner.Woven
  | .taken _ => True
  | .probed _ inner => inner.Woven
  | .gated _ inner => inner.Woven
  | .delayed _ inner => inner.Woven
  | .following _ tail => tail.Woven
  | _ => False

-- The streams in it that have other streams inside. One that was read by taking comes boxed.
def size : Recipe α → Nat
  | .deferred _ body => body.size + 1
  | .mapped _ inner => inner.size + 1
  | .merged _ left right => left.size + right.size + 1
  | .paired _ _ left right => left.size + right.size + 1
  | .multiplexed source => source.size + 1
  | .boxed inner => inner.size + 1
  | .taken _ => 1
  | .probed _ inner => inner.size + 1
  | .gated _ inner => inner.size + 1
  | .delayed _ inner => inner.size + 1
  | .following _ tail => tail.size + 1
  | _ => 0

end Recipe

-- Built from such trees, with so much in it at most, and reading no cells but those there are.
inductive Stream.Fits (cells : Nat) : Nat → Stream α → Prop where
  | empty {k : Nat} : Fits cells k .empty
  | single {k : Nat} {state : Single α} : Fits cells k (.single state)
  | iterated {k : Nat} {state : Iterated (Supply α) α} : Fits cells k (.iterated state)
  | waiting {k fuel : Nat} {tally : Option String} {body : Recipe α} (woven : body.Woven) (less : body.size < k) :
      Fits cells k (.postponed (.waiting (.recipe tally body fuel)))
  | forced {k x : Nat} {inner : Stream α} (there : Fits cells x inner) (less : x < k) :
      Fits cells k (.postponed (.forced inner))
  | spent {k : Nat} (less : 0 < k) : Fits cells k (.postponed .spent)
  | mapped {k x : Nat} {f : Action α} {state : Mapped (Stream α) α} (there : Fits cells x state.inner) (less : x < k) :
      Fits cells k (.mapped f state)
  | merged {k x y : Nat} {le : α → α → Bool} {state : Merged (Stream α) (Stream α) α} (there : Fits cells x state.left)
      (behind : Fits cells y state.right) (less : x + y < k) : Fits cells k (.merged le state)
  | paired {k x y : Nat} {le : α → α → Bool} {join : JoinAction α} {state : Paired (Stream α) (Stream α) α}
      (there : Fits cells x state.left) (behind : Fits cells y state.right.source) (less : x + y < k) :
      Fits cells k (.paired le join state)
  | multiplexer {k cell : Nat} {reader : Reader} (inside : cell < cells) : Fits cells k (.multiplexer cell reader)
  | view {k cell : Nat} {reader : Reader} (inside : cell < cells) : Fits cells k (.view cell reader)
  | boxed {k x : Nat} {inner : Stream α} (there : Fits cells x inner) (less : x < k) : Fits cells k (.boxed inner)
  | probed {k x : Nat} {name : String} {inner : Stream α} (there : Fits cells x inner) (less : x < k) :
      Fits cells k (.probed name inner)
  | gated {k x : Nat} {gate : String} {inner : Stream α} (there : Fits cells x inner) (less : x < k) :
      Fits cells k (.gated gate inner)
  | delayed {k x : Nat} {state : Delayed (Stream α)} (there : Fits cells x state.inner) (less : x < k) :
      Fits cells k (.delayed state)
  | following {k x : Nat} {state : Followed (Iterated (Supply α) α) (Stream α)} (there : Fits cells x state.tail)
      (less : x < k) : Fits cells k (.following state)

namespace Stream
variable {cells more k x : Nat} {stream : Stream α}

theorem Fits.kept (fits : stream.Fits cells k) (grown : cells ≤ more) : stream.Fits more k := by
  induction fits with
  | empty => exact .empty
  | single => exact .single
  | iterated => exact .iterated
  | waiting woven less => exact .waiting woven less
  | forced _ less ih => exact .forced ih less
  | spent less => exact .spent less
  | mapped _ less ih => exact .mapped ih less
  | merged _ _ less first second => exact .merged first second less
  | paired _ _ less first second => exact .paired first second less
  | multiplexer inside => exact .multiplexer (Nat.lt_of_lt_of_le inside grown)
  | view inside => exact .view (Nat.lt_of_lt_of_le inside grown)
  | boxed _ less ih => exact .boxed ih less
  | probed _ less ih => exact .probed ih less
  | gated _ less ih => exact .gated ih less
  | delayed _ less ih => exact .delayed ih less
  | following _ less ih => exact .following ih less

theorem Fits.wider (fits : stream.Fits cells x) (wide : x ≤ k) : stream.Fits cells k := by
  cases fits with
  | empty => exact .empty
  | single => exact .single
  | iterated => exact .iterated
  | waiting woven less => exact .waiting woven (Nat.lt_of_lt_of_le less wide)
  | forced there less => exact .forced there (Nat.lt_of_lt_of_le less wide)
  | spent less => exact .spent (Nat.lt_of_lt_of_le less wide)
  | mapped there less => exact .mapped there (Nat.lt_of_lt_of_le less wide)
  | merged there behind less => exact .merged there behind (Nat.lt_of_lt_of_le less wide)
  | paired there behind less => exact .paired there behind (Nat.lt_of_lt_of_le less wide)
  | multiplexer inside => exact .multiplexer inside
  | view inside => exact .view inside
  | boxed there less => exact .boxed there (Nat.lt_of_lt_of_le less wide)
  | probed there less => exact .probed there (Nat.lt_of_lt_of_le less wide)
  | gated there less => exact .gated there (Nat.lt_of_lt_of_le less wide)
  | delayed there less => exact .delayed there (Nat.lt_of_lt_of_le less wide)
  | following there less => exact .following there (Nat.lt_of_lt_of_le less wide)

end Stream

def Handle.Fits (cells k : Nat) : Handle α → Prop
  | .stream held => held.Fits cells k
  | .iteration held => held.stream.Fits cells k

theorem Handle.Fits.kept {cells more k : Nat} {held : Handle α} (fits : held.Fits cells k) (grown : cells ≤ more) :
    held.Fits more k := by
  cases held with
  | stream _ => exact Stream.Fits.kept fits grown
  | iteration _ => exact Stream.Fits.kept fits grown

theorem Handle.contents_fits {cells k : Nat} {held : Handle α} (fits : held.Fits cells k) :
    held.contents.Fits cells (k + 1) := by
  cases held with
  | stream _ => exact Stream.Fits.wider fits (Nat.le_succ k)
  | iteration _ => exact .boxed fits (Nat.lt_succ_self k)

end LightestFirst
