import LightestFirst.Proofs.Following
import LightestFirst.Proofs.Sharing
import LightestFirst.Proofs.Taking.Bridges
-- A buffer in a world that its own source can reach. While the source runs it is out of the buffer, and on
-- its way it may ask, advance, make and copy readers of the very buffer it feeds, and it may be abandoned at
-- any point of this. What is said of such a buffer and its readers rests on nobody else writing to it.
namespace LightestFirst
variable {ω σ τ α : Type}

namespace Buffered

-- Where a buffer is kept in a world. Its source is out of it while it runs.
structure Place (ω σ α : Type) where
  find : ω → Option (Buffered (Option σ) α)
  put : ω → Buffered (Option σ) α → ω
  find_put : ∀ {world held} (shared), find world = some held → find (put world shared) = some shared

-- Reads a buffer where it is kept. The source comes back to the buffer as it is then.
def Place.read (place : Place ω σ α) (source : Machine ω σ α) (index : Nat) (world : ω) :
    Attempt (Status α) × ω :=
  match place.find world with
  | none => (.ok .pending, world)
  | some shared =>
    match shared.settled? index with
    | some status => (.ok status, world)
    | none =>
      match shared.source with
      | none => (.ok .pending, world)
      | some running =>
        match draw source running shared.headBuffered (place.put world (shared.replace none)) with
        | (result, headBuffered, running, world) =>
          match place.find world with
          | none => (result, world)
          | some now => (result, place.put world (now.absorb result headBuffered (some running)))

theorem Place.read_away {place : Place ω σ α} {shared : Buffered (Option σ) α} {world : ω}
    (found : place.find world = some shared) (out : shared.source = none) (source : Machine ω σ α) (index : Nat) :
    place.read source index world = (.ok ((shared.settled? index).getD .pending), world) := by
  rw [read, found]
  dsimp only
  cases shared.settled? index with
  | some status => rfl
  | none =>
    rw [out]
    rfl

end Buffered

-- A world with the readers there are of one of its buffers, and what has been said to the source of it.
structure Commons (ω α : Type) where
  world : ω
  readers : List Reader
  log : List (Exchange α)

namespace Commons
open Buffered (Place)

def start (world : ω) : Commons ω α := ⟨world, [.start], []⟩

def within (place : Place ω σ α) : Place (Commons ω α) σ α where
  find now := place.find now.world
  put now shared := { now with world := place.put now.world shared }
  find_put shared found := place.find_put shared found

def noted (source : Machine (Commons ω α) σ α) : Machine (Commons ω α) σ α where
  query state now :=
    match source.query state now with
    | (answer, state, ⟨world, readers, log⟩) => (answer, state, ⟨world, readers, .asked answer :: log⟩)
  advance state now :=
    match source.advance state now with
    | (answer, state, ⟨world, readers, log⟩) => (answer, state, ⟨world, readers, .advanced answer :: log⟩)

def ask (place : Place ω σ α) (source : Machine (Commons ω α) σ α) (reader : Reader) (now : Commons ω α) :
    Attempt (Status α) × Reader × Commons ω α := reader.query ((within place).read (noted source)) now

section Steps
variable (place : Place ω σ α) (drives : Machine (Commons ω α) σ α → Prop)

inductive Step : Commons ω α → Sharing.Event α → Commons ω α → Prop where
  | asked {now later : Commons ω α} {source : Machine (Commons ω α) σ α} {number : Nat} {reader moved : Reader}
      {answer : Attempt (Status α)} (driven : drives source) (here : now.readers[number]? = some reader)
      (call : ask place source reader now = (answer, moved, later)) :
      Step now (.asked number answer) { later with readers := later.readers.set number moved }
  | advanced {now later : Commons ω α} {number : Nat} {reader moved : Reader} {answer : Attempt Unit}
      (here : now.readers[number]? = some reader) (call : reader.advance now = (answer, moved, later)) :
      Step now (.advanced number answer) { later with readers := later.readers.set number moved }
  | viewed {now : Commons ω α} : Step now .viewed { now with readers := now.readers ++ [.start] }
  | forked {now : Commons ω α} {number : Nat} {reader : Reader} (here : now.readers[number]? = some reader) :
      Step now (.forked number) { now with readers := now.readers ++ [reader] }
  -- something moved the world around the buffer
  | elsewhere {now : Commons ω α} {world : ω} (still : place.find world = place.find now.world) :
      Step now .elsewhere { now with world }

-- What happens while the source is out comes of readers and of what is around the buffer: nothing else
-- gets at a buffer, its own source included.
def Reenters (before after : Commons ω α) : Prop :=
  (∃ shared, place.find before.world = some shared ∧ shared.source = none) → Reached (Step place drives) before after

end Steps

-- The reader of this number, as a stream that runs while the source of the buffer is out.
def viewing (place : Place ω σ α) (number : Nat) : Machine (Commons ω α) Unit α where
  query _ now :=
    match now.readers[number]?, place.find now.world with
    | some reader, some shared =>
      match reader.query (fun index now => (.ok ((shared.settled? index).getD .pending), now)) now with
      | (answer, moved, now) => (answer, (), { now with readers := now.readers.set number moved })
    | _, _ => (.ok .pending, (), now)
  advance _ now :=
    match now.readers[number]? with
    | some reader =>
      match reader.advance now with
      | (answer, moved, now) => (answer, (), { now with readers := now.readers.set number moved })
    | none => (.error (.violation .reader), (), now)

structure Held (place : Place ω σ α) (shared : Buffered (Option σ) α) (now : Commons ω α) : Prop where
  found : place.find now.world = some shared
  readers : ∀ reader ∈ now.readers, reader.Follows shared.buffer.size

def Leaves (place : Place ω σ α) (shared : Buffered (Option σ) α) (before after : Commons ω α) : Prop :=
  Held place shared before → Held place shared after ∧ after.log = before.log

def shows : Attempt (Status α) → Bool
  | .ok status => status.isReady
  | .error _ => false

-- What a buffer says to its source to get one element more, and where that leaves the source.
inductive Exchanged (log : List (Exchange α)) : Bool → Attempt (Status α) → Bool → List (Exchange α) → Prop where
  | asked {answer : Attempt (Status α)} : Exchanged log false answer (shows answer) (.asked answer :: log)
  | passed {answer : Attempt (Status α)} :
      Exchanged log true answer (shows answer) (.asked answer :: .advanced (.ok ()) :: log)
  | refused {fault : Fault} : Exchanged log true (.error fault) true (.advanced (.error fault) :: log)

-- The element a source stands on, going by what it has said: it showed it when it was asked last, and it has
-- accepted no advance since.
def shown? : List (Exchange α) → Option α
  | .asked (.ok (.ready value)) :: _ => some value
  | .advanced (.error _) :: earlier => shown? earlier
  | _ => none

-- What the buffer and its flags say of the source is what the source has said.
structure Attests (log : List (Exchange α)) (shared : Buffered τ α) : Prop where
  head : shared.headBuffered = true → ∃ value, shared.buffer.back? = some value ∧ shown? log = some value
  complete : shared.ended = true → log.head? = some (.asked (.ok .ended))

-- What a step does: it leaves the buffer alone, or it is a reader's question that the buffer alone did not
-- answer, and the source was drawn from.
inductive Moved (place : Place ω σ α) (shared : Buffered (Option σ) α) (now : Commons ω α) :
    Sharing.Event α → Commons ω α → Prop where
  | still {event : Sharing.Event α} {later : Commons ω α} (held : Held place shared later)
      (silent : later.log = now.log) : Moved place shared now event later
  | drawn {number : Nat} {reader : Reader} {answer : Attempt (Status α)} {flag : Bool} {running : σ}
      {later : Commons ω α} (home : shared.source.isSome = true) (here : now.readers[number]? = some reader)
      (unsettled : shared.settled? reader.index = none)
      (exchanged : Exchanged now.log shared.headBuffered answer flag later.log)
      (held : Held place (shared.absorb answer flag (some running)) later) :
      Moved place shared now (.asked number answer) later

variable {place : Place ω σ α} {source : Machine (Commons ω α) σ α} {drives : Machine (Commons ω α) σ α → Prop}
  {shared : Buffered (Option σ) α} {now later : Commons ω α} {event : Sharing.Event α}

theorem stays_away (reached : Reached (Step place drives) now later) (found : place.find now.world = some shared)
    (out : shared.source = none) : place.find later.world = some shared := by
  refine reached.invariant found fun next there => ?_
  cases next with
  | asked driven here call =>
    have read := Reader.query_reads call
    have there : (within place).find _ = some shared := there
    rw [Place.read_away there out] at read
    cases read
    exact there
  | advanced here call =>
    rw [Reader.advance] at call
    split at call
    · cases call
      exact there
    · cases call
      exact there
  | viewed => exact there
  | forked => exact there
  | elsewhere still => exact still.trans there

-- A new reader can be brought to any place up to the end of the buffer, and nothing else comes of it.
theorem walked (driven : drives source) (found : place.find now.world = some shared) {index : Nat}
    (behind : index ≤ shared.buffer.size) :
    Reached (Step place drives) now { now with readers := now.readers ++ [⟨index, false⟩] } := by
  have replaced : ∀ reader moved : Reader,
      (now.readers ++ [reader]).set now.readers.length moved = now.readers ++ [moved] := by simp
  induction index with
  | zero => exact Reached.start.step .viewed
  | succ index ih =>
    have inside : index < shared.buffer.size := behind
    have settled : shared.settled? index = some (.ready shared.buffer[index]) := by
      rw [Buffered.settled?, Array.getElem?_eq_getElem inside]
    have asked : ask place source ⟨index, false⟩ { now with readers := now.readers ++ [⟨index, false⟩] } =
        (.ok (.ready shared.buffer[index]), ⟨index, true⟩,
          { now with readers := now.readers ++ [⟨index, false⟩] }) := by
      simp only [ask, Reader.query, Place.read, within, found, settled, Status.isReady]
    have shown := (ih (Nat.le_of_lt inside)).step (.asked driven List.getElem?_concat_length asked)
    rw [replaced] at shown
    have passed := shown.step (.advanced List.getElem?_concat_length (rfl : Reader.advance ⟨index, true⟩ _ = _))
    rw [replaced] at passed
    exact passed

theorem reenters_drifts : Drifts (Reenters place drives) where
  stays _ _ := .start
  goes_on one two out := by
    have first := one out
    obtain ⟨shared, found, gone⟩ := out
    exact first.trans (two ⟨shared, stays_away first found gone, gone⟩)

theorem viewing_along (driven : drives source) (number : Nat) :
    (viewing place number).Along (Reenters place drives) where
  query := by
    rintro _ now ⟨shared, found, out⟩
    simp only [viewing]
    cases here : now.readers[number]? with
    | none => exact .start
    | some reader =>
      have there : (within place).find now = some shared := found
      have asked : ask place source reader now =
          reader.query (fun index now => (.ok ((shared.settled? index).getD .pending), now)) now :=
        Reader.query_congr (Place.read_away there out (noted source) reader.index)
      rw [found]
      exact Reached.start.step (.asked driven here asked)
  advance := by
    rintro _ now _
    simp only [viewing]
    cases here : now.readers[number]? with
    | none => exact .start
    | some reader => exact Reached.start.step (.advanced here rfl)

theorem Held.set (held : Held place shared now) {reader : Reader} (follows : reader.Follows shared.buffer.size)
    (number : Nat) : Held place shared { now with readers := now.readers.set number reader } := by
  refine ⟨held.found, fun other among => ?_⟩
  rcases List.mem_or_eq_of_mem_set among with among | rfl
  · exact held.readers other among
  · exact follows

theorem Held.added (held : Held place shared now) {reader : Reader} (follows : reader.Follows shared.buffer.size) :
    Held place shared { now with readers := now.readers ++ [reader] } := by
  refine ⟨held.found, fun other among => ?_⟩
  rcases List.mem_append.mp among with among | last
  · exact held.readers other among
  · obtain rfl := List.mem_singleton.mp last
    exact follows

theorem Held.put {other : Buffered (Option σ) α} (held : Held place shared now)
    (grown : shared.buffer.size ≤ other.buffer.size) : Held place other ((within place).put now other) :=
  ⟨place.find_put other held.found, fun reader among => (held.readers reader among).kept grown⟩

section Drawing
variable (leaves : source.Along (Leaves place shared)) (held : Held place shared now)
include leaves held

theorem ask_exchanged (state : σ) {answer : Attempt (Status α)} {flag : Bool} {running : σ}
    (asked : Buffered.draw.ask (noted source) state now = (answer, flag, running, later)) :
    flag = shows answer ∧ later.log = .asked answer :: now.log ∧ Held place shared later := by
  obtain ⟨⟨result, stream, after⟩, told⟩ := Exists.intro _ (rfl : source.query state now = _)
  have left := leaves.query state now
  rw [told] at left
  obtain ⟨⟨found, readers⟩, silent⟩ := left held
  simp only [Buffered.draw.ask, noted, told] at asked
  cases result with
  | error fault =>
    cases asked
    exact ⟨rfl, congrArg _ silent, found, readers⟩
  | ok status =>
    cases asked
    exact ⟨rfl, congrArg _ silent, found, readers⟩

theorem draw_exchanged (state : σ) {before flag : Bool} {answer : Attempt (Status α)} {running : σ}
    (drew : Buffered.draw (noted source) state before now = (answer, flag, running, later)) :
    Exchanged now.log before answer flag later.log ∧ Held place shared later := by
  cases before with
  | false =>
    obtain ⟨rfl, said, after⟩ := ask_exchanged leaves held state drew
    exact ⟨said ▸ .asked, after⟩
  | true =>
    obtain ⟨⟨result, stream, middle⟩, passed⟩ := Exists.intro _ (rfl : source.advance state now = _)
    have left := leaves.advance state now
    rw [passed] at left
    obtain ⟨⟨found, readers⟩, silent⟩ := left held
    simp only [Buffered.draw, noted, passed] at drew
    cases result with
    | error fault =>
      cases drew
      exact ⟨silent ▸ .refused, found, readers⟩
    | ok =>
      have between : Held place shared ⟨middle.world, middle.readers, .advanced (.ok ()) :: middle.log⟩ :=
        ⟨found, readers⟩
      obtain ⟨rfl, said, after⟩ := ask_exchanged leaves between stream drew
      rw [silent] at said
      exact ⟨said ▸ .passed, after⟩

end Drawing

theorem read_drawn {running : σ} {index : Nat} {answer : Attempt (Status α)}
    (leaves : source.Along (Leaves place (shared.replace none))) (held : Held place shared now)
    (home : shared.source = some running) (unsettled : shared.settled? index = none)
    (read : (within place).read (noted source) index now = (answer, later)) :
    ∃ flag stream, Exchanged now.log shared.headBuffered answer flag later.log ∧
      Held place (shared.absorb answer flag (some stream)) later := by
  have there : (within place).find now = some shared := held.found
  have out : Held place (shared.replace none) ((within place).put now (shared.replace none)) := held.put (Nat.le_refl _)
  obtain ⟨⟨result, flag, stream, after⟩, drew⟩ := Exists.intro _
    (rfl : Buffered.draw (noted source) running shared.headBuffered ((within place).put now (shared.replace none)) = _)
  obtain ⟨exchanged, back⟩ := draw_exchanged leaves out running drew
  have still : (within place).find after = some (shared.replace none) := back.found
  simp only [Place.read, there, unsettled, home, drew, still, Buffered.absorb_replace] at read
  cases read
  exact ⟨flag, stream, exchanged, back.put (Buffered.size_absorb shared answer flag (some stream))⟩

theorem Step.moved
    (leaves : shared.source = none ∨ ∀ source, drives source → source.Along (Leaves place (shared.replace none)))
    (held : Held place shared now) (next : Step place drives now event later) : Moved place shared now event later := by
  cases next with
  | @asked middle source number reader moved answer driven here call =>
    have follows := held.readers reader (List.mem_of_getElem? here)
    have read := Reader.query_reads call
    have there : (within place).find now = some shared := held.found
    cases settled : shared.settled? reader.index with
    | some status =>
      simp only [Place.read, there, settled] at read
      cases read
      refine .still (held.set (follows.queried (Nat.le_refl _) call ?_) number) rfl
      rintro value ⟨⟩
      exact Buffered.settled_ready settled
    | none =>
      cases home : shared.source with
      | none =>
        rw [Place.read_away there home, settled] at read
        cases read
        exact .still (held.set (follows.queried (Nat.le_refl _) call nofun) number) rfl
      | some running =>
        have leaves := leaves.resolve_left (by simp [home]) source driven
        obtain ⟨flag, stream, exchanged, back⟩ := read_drawn leaves held home settled read
        have grown := Buffered.size_absorb shared answer flag (some stream)
        refine .drawn (by simp [home]) here settled exchanged (back.set (follows.queried grown call ?_) number)
        rintro value rfl
        rw [Buffered.size_absorb_ready]
        exact Nat.lt_succ_of_le follows.behind
  | @advanced middle number reader moved answer here call =>
    obtain ⟨ahead, rfl⟩ := (held.readers reader (List.mem_of_getElem? here)).advanced call
    exact .still (held.set ahead number) rfl
  | viewed => exact .still (held.added (.start _)) rfl
  | forked here => exact .still (held.added (held.readers _ (List.mem_of_getElem? here))) rfl
  | elsewhere still => exact .still ⟨still.trans held.found, held.readers⟩ rfl

theorem reached_leaves (out : shared.source = none) (reached : Reached (Step place drives) now later) :
    Leaves place shared now later := by
  intro held
  refine reached.invariant ⟨held, rfl⟩ fun next before => ?_
  obtain ⟨between, silent⟩ := before
  cases next.moved (.inl out) between with
  | still after quiet => exact ⟨after, quiet.trans silent⟩
  | drawn home => simp [out] at home

theorem mannered_leaves (mannered : source.Along (Reenters place drives)) (out : shared.source = none) :
    source.Along (Leaves place shared) where
  query state _ held := reached_leaves out (mannered.query state _ ⟨shared, held.found, out⟩) held
  advance state _ held := reached_leaves out (mannered.advance state _ ⟨shared, held.found, out⟩) held

theorem Attests.told {answer : Attempt (Status α)} (going : shared.ended = false) (log : List (Exchange α))
    (source : τ) :
    Attests (.asked answer :: log) (shared.absorb answer (shows answer) source) := by
  obtain ⟨_, buffer, ended, _⟩ := shared
  obtain rfl : ended = false := going
  constructor
  · rcases answer with _ | value | _ | _
    · nofun
    · exact fun _ => ⟨value, Array.back?_push, rfl⟩
    · nofun
    · nofun
  · rcases answer with _ | _ | _ | _
    · nofun
    · nofun
    · exact fun _ => rfl
    · nofun

theorem Attests.drawn {log after : List (Exchange α)} {flag : Bool} {answer : Attempt (Status α)}
    (attests : Attests log shared) (going : shared.ended = false)
    (exchanged : Exchanged log shared.headBuffered answer flag after) (source : τ) :
    Attests after (shared.absorb answer flag source) := by
  generalize held : shared.headBuffered = before at exchanged
  cases exchanged with
  | asked => exact .told going log source
  | passed => exact .told going _ source
  | refused =>
    obtain ⟨_, buffer, ended, _⟩ := shared
    obtain rfl : ended = false := going
    exact ⟨fun _ => attests.head held, nofun⟩

structure Stands (place : Place ω σ α) (shared : Buffered (Option σ) α) (now : Commons ω α) : Prop
    extends Held place shared now, Attests now.log shared where
  home : shared.source.isSome = true

theorem start_stands {world : ω} {stream : σ} (fresh : place.find world = some (.start (some stream))) :
    Stands place (.start (some stream)) (start world) where
  found := fresh
  readers reader among := by
    obtain rfl := List.mem_singleton.mp among
    exact .start _
  home := rfl
  head := nofun
  complete := nofun

theorem Stands.moved (stands : Stands place shared now) (moved : Moved place shared now event later) :
    ∃ after, Stands place after later := by
  cases moved with
  | still held silent => exact ⟨shared, held, silent ▸ stands.toAttests, stands.home⟩
  | @drawn number reader answer flag running _ home here unsettled exchanged held =>
    refine ⟨_, held, stands.toAttests.drawn (Buffered.going_of_unsettled unsettled) exchanged _, ?_⟩
    rw [Buffered.absorb_source]
    rfl

theorem Stands.next (mannered : ∀ source, drives source → source.Along (Reenters place drives))
    (stands : Stands place shared now) (next : Step place drives now event later) :
    Moved place shared now event later :=
  next.moved (.inr fun source driven => mannered_leaves (mannered source driven) rfl) stands.toHeld

theorem reached_stands (mannered : ∀ source, drives source → source.Along (Reenters place drives))
    {first : Commons ω α} (begins : ∃ shared, Stands place shared first) (reached : Reached (Step place drives) first now) :
    ∃ shared, Stands place shared now := by
  refine reached.invariant begins fun next before => ?_
  obtain ⟨shared, stands⟩ := before
  exact stands.moved (stands.next mannered next)

theorem Moved.lands (moved : Moved place shared now event later) (held : Held place shared now) :
    ∃ after, place.find later.world = some after ∧ (after.buffer = shared.buffer ∨
      ∃ number reader value, event = .asked number (.ok (.ready value)) ∧ now.readers[number]? = some reader ∧
        reader.index = shared.buffer.size ∧ after.buffer = shared.buffer.push value) := by
  cases moved with
  | still held => exact ⟨shared, held.found, .inl rfl⟩
  | @drawn number reader answer flag running _ home here unsettled exchanged back =>
    refine ⟨_, back.found, ?_⟩
    obtain ⟨_, buffer, ended, _⟩ := shared
    rcases answer with _ | value | _ | _
    · exact .inl rfl
    · have behind := (held.readers reader (List.mem_of_getElem? here)).behind
      exact .inr ⟨number, reader, value, rfl, here, (Buffered.unsettled behind unsettled).1, rfl⟩
    · exact .inl rfl
    · exact .inl rfl

-- A buffer between calls, and what the next call does to it: an element more comes of a reader that stands at the
-- end of the buffer, which is told that element.
structure Orderly (place : Place ω σ α) (drives : Machine (Commons ω α) σ α → Prop) (shared : Buffered (Option σ) α)
    (now : Commons ω α) : Prop extends Stands place shared now where
  lands : ∀ {event later}, Step place drives now event later →
    ∃ after, place.find later.world = some after ∧ (after.buffer = shared.buffer ∨
      ∃ number reader value, event = .asked number (.ok (.ready value)) ∧ now.readers[number]? = some reader ∧
        reader.index = shared.buffer.size ∧ after.buffer = shared.buffer.push value)

theorem reached_orderly (mannered : ∀ source, drives source → source.Along (Reenters place drives)) {world : ω}
    {stream : σ} (fresh : place.find world = some (.start (some stream)))
    (reached : Reached (Step place drives) (Commons.start world) now) : ∃ shared, Orderly place drives shared now := by
  obtain ⟨shared, stands⟩ := reached_stands mannered ⟨_, start_stands fresh⟩ reached
  exact ⟨shared, stands, fun next => (stands.next mannered next).lands stands.toHeld⟩

end Commons
end LightestFirst
