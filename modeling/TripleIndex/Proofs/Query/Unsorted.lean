/-
  Joins of inputs that are in any order. Such a join may miss matches, but what it hands out is one:
  the inputs stand at items with one key, and they all move on between two matches. A pass over the
  lanes that does not bring the keys together reads something (`Lane.sweep_reads_lt`), so a search
  makes no more passes than reads, and one more.

  * `Lane.Walks`: a lane reads its items one by one, and holds none but the last that it read.
  * `Merge.Walking.next_cases`: what a read of a merge comes to.
  * `Merge.exists_passes`: the passes of a read.
  * `ObjectJoin.matches_unsorted`: all reads of a join.
-/
import Mathlib
import TripleIndex.Proofs.Query.States

namespace TripleIndex

open Cursor (Yields)

variable {σ : Type} [Cursor σ Statement QueryError] {mk : MergeKey} {c : Codec}
  {x : Except QueryError Bool} {items : List Statement} {inputs : List (List Statement)}

namespace Lane

/-! ## Reads of lanes are counted -/

theorem reads_advance (mk : MergeKey) (c : Codec) (lane : Lane (Metered σ)) :
    (lane.advance mk c).2.input.reads = lane.input.reads + 1 := by
  unfold advance
  cases found : Cursor.next lane.input.inner with
  | mk outcome rest =>
    rw [Metered.next_eq found]
    match outcome with
    | .error e => rfl
    | .ok none => rfl
    | .ok (some s) =>
      dsimp only
      split <;> rfl

theorem reads_lt_of_advance {lane moved : Lane (Metered σ)}
    (read : lane.advance mk c = (x, moved)) : lane.input.reads < moved.input.reads := by
  have counted := reads_advance mk c lane
  rw [read] at counted
  exact counted ▸ Nat.lt_succ_self _

/-- Steps that do not count leave a lane as it is. -/
theorem Steps.reads_lt {lane moved : Lane (Metered σ)} (h : Steps mk c lane x moved) :
    lane = moved ∨ lane.input.reads < moved.input.reads := by
  induction h with
  | rest => exact .inl rfl
  | last read => exact .inr (reads_lt_of_advance read)
  | more gains _ ih =>
    have lt := reads_lt_of_advance gains
    rcases ih with rfl | lt'
    · exact .inr lt
    · exact .inr (lt.trans lt')

/-- How many items the lanes read in all. -/
def totalReads (lanes : List (Lane (Metered σ))) : Nat :=
  (lanes.map fun lane => lane.input.reads).sum

theorem Round.totalReads_lt {lanes moved : List (Lane (Metered σ))}
    (h : Round mk c lanes (x, moved)) :
    lanes = moved ∨ totalReads lanes < totalReads moved := by
  have steps : List.Forall₂ (fun lane moved => lane = moved
      ∨ lane.input.reads < moved.input.reads) lanes moved :=
    h.steps.imp fun _ _ steps => steps.elim Steps.reads_lt Steps.reads_lt
  clear h
  unfold totalReads
  induction steps with
  | nil => exact .inl rfl
  | cons own _ ih =>
    simp only [List.map_cons, List.sum_cons]
    rcases own with rfl | lt
    · rcases ih with rfl | lt'
      · exact .inl rfl
      · exact .inr (Nat.add_lt_add_left lt' _)
    · rcases ih with rfl | lt'
      · exact .inr (Nat.add_lt_add_right lt _)
      · exact .inr (Nat.add_lt_add lt lt')

theorem Round.totalReads_le {lanes moved : List (Lane (Metered σ))}
    (h : Round mk c lanes (x, moved)) : totalReads lanes ≤ totalReads moved := by
  rcases h.totalReads_lt with rfl | lt
  · exact Nat.le_refl _
  · exact lt.le

/-! ## Passes over lanes -/

/-- Bringing the keys of lanes together takes a number of passes. -/
inductive Passes (mk : MergeKey) (c : Codec) : List (Lane σ) → Nat → Prop
  | none {lanes : List (Lane σ)} : greatest? lanes = none → Passes mk c lanes 0
  | last {lanes moved : List (Lane σ)} {target : Bytes}
      {outcome : Except QueryError (Option Bytes)} : greatest? lanes = some target →
      sweep mk c target lanes = (outcome, moved) →
      (∀ reached, outcome = .ok (some reached) → reached = target) → Passes mk c lanes 1
  | again {lanes moved : List (Lane σ)} {target reached : Bytes} {n : Nat} :
      greatest? lanes = some target → sweep mk c target lanes = (.ok (some reached), moved) →
      reached ≠ target → Passes mk c moved n → Passes mk c lanes (n + 1)

theorem sweep_reads_le {lanes moved : List (Lane (Metered σ))} {target : Bytes}
    {outcome : Except QueryError (Option Bytes)}
    (swept : sweep mk c target lanes = (outcome, moved)) : totalReads lanes ≤ totalReads moved := by
  have round := sweep_round mk c target lanes
  rw [swept] at round
  exact round.totalReads_le

/-- A pass that does not bring the keys together reads something. -/
theorem sweep_reads_lt {lanes moved : List (Lane (Metered σ))} {target reached : Bytes}
    (top : greatest? lanes = some target)
    (swept : sweep mk c target lanes = (.ok (some reached), moved)) (ne : reached ≠ target) :
    totalReads lanes < totalReads moved := by
  have round := sweep_round mk c target lanes
  rw [swept] at round
  rcases round.totalReads_lt with rfl | lt
  · -- lanes that were not read are left as they are, against the bound on what is left
    have less := totalLoad_sweep_lt mk c reached (not_greatest?_lt top) (by rw [swept]) ne
    rw [swept] at less
    exact absurd less (Nat.lt_irrefl _)
  · exact lt

/-- Every pass but the last reads something. -/
theorem align_passes (mk : MergeKey) (c : Codec) (lanes : List (Lane (Metered σ))) :
    ∃ n, Passes mk c lanes n ∧ n + totalReads lanes ≤ totalReads (align mk c lanes).2 + 1 := by
  fun_induction align mk c lanes with
  | case1 lanes top => exact ⟨0, .none top, by dsimp only; omega⟩
  | case2 lanes target top e moved swept =>
    have le := sweep_reads_le swept
    exact ⟨1, .last top swept (by rintro _ ⟨⟩), by dsimp only; omega⟩
  | case3 lanes target top moved swept =>
    have le := sweep_reads_le swept
    exact ⟨1, .last top swept (by rintro _ ⟨⟩), by dsimp only; omega⟩
  | case4 lanes target moved top swept =>
    have le := sweep_reads_le swept
    exact ⟨1, .last top swept (by rintro _ ⟨⟩; rfl), by dsimp only; omega⟩
  | case5 lanes target top reached moved swept ne ih =>
    obtain ⟨n, passes, le⟩ := ih
    have lt := sweep_reads_lt top swept ne
    exact ⟨n + 1, .again top swept ne passes, by omega⟩

/-! ## Lanes on their way through their items -/

/-- A lane reads items that have keys one by one. What it holds is the item that it read last. -/
structure Walks (mk : MergeKey) (c : Codec) (lane : Lane (Metered σ)) (items : List Statement) :
    Prop where
  keyed : ∀ s ∈ items, ∃ key, mk.of c s = .ok key
  within : lane.input.reads ≤ items.length
  rest : Yields lane.input.inner (items.drop lane.input.reads)
  held : ∀ head ∈ lane.head, lane.input.latest items = some head.statement
    ∧ mk.of c head.statement = .ok head.key

theorem Walks.letGo {lane : Lane (Metered σ)} (h : lane.Walks mk c items) :
    lane.letGo.Walks mk c items :=
  ⟨h.keyed, h.within, h.rest, nofun⟩

/-- The next read takes in the next item, or finds that there is none. -/
theorem Walks.advance {lane moved : Lane (Metered σ)} (h : lane.Walks mk c items)
    (read : lane.advance mk c = (x, moved)) :
    (x = .ok true ∧ moved.Walks mk c items)
      ∨ (x = .ok false ∧ moved.input.reads ≤ items.length + 1) := by
  obtain ⟨keyed, within, rest, held⟩ := h
  have counted := reads_advance mk c lane
  rw [read] at counted
  generalize left : items.drop lane.input.reads = next at rest
  unfold Lane.advance at read
  cases rest with
  | done found =>
    rw [Metered.next_eq found] at read
    cases read
    exact .inr ⟨rfl, Nat.succ_le_succ within⟩
  | @item _ t s next found rest =>
    have here : items[lane.input.reads]? = some s := by
      rw [← List.head?_drop, left]
      rfl
    obtain ⟨key, own⟩ := keyed s (List.mem_of_getElem? here)
    rw [Metered.next_eq found] at read
    simp only [own] at read
    cases read
    refine .inl ⟨rfl, keyed, (List.getElem?_eq_some_iff.mp here).1, ?_, ?_⟩
    · rw [← List.tail_drop, left]
      exact rest
    · rintro _ ⟨⟩
      exact ⟨here, own⟩

theorem Walks.steps {lane moved : Lane (Metered σ)} (h : lane.Walks mk c items)
    (steps : Steps mk c lane x moved) :
    (x = .ok true ∧ moved.Walks mk c items)
      ∨ (x = .ok false ∧ moved.input.reads ≤ items.length + 1) := by
  induction steps with
  | rest => exact .inl ⟨rfl, h⟩
  | last read => exact h.advance read
  | more gains _ ih =>
    rcases h.advance gains with ⟨-, walks⟩ | ⟨found, -⟩
    · exact ih walks
    · cases found

/-- No read of a round fails, and a round that does not succeed reads past the end of an input. -/
theorem Round.walks {lanes moved : List (Lane (Metered σ))} (round : Round mk c lanes (x, moved))
    (walks : List.Forall₂ (Walks mk c) lanes inputs) :
    (x = .ok true ∧ List.Forall₂ (Walks mk c) moved inputs)
      ∨ (x = .ok false
        ∧ List.Forall₂ (fun lane items => lane.input.reads ≤ items.length + 1) moved inputs) := by
  match x with
  | .error e =>
    obtain ⟨lane, mem, last, failed⟩ := round.failed e rfl
    obtain ⟨items, -, walks⟩ := exists_mem_of_forall₂ (List.Forall₂.flip walks) mem
    rcases Walks.steps walks failed with ⟨found, -⟩ | ⟨found, -⟩
    · cases found
    · cases found
  | .ok true =>
    refine .inl ⟨rfl, forall₂_trans (fun after before items steps walks => ?_)
      (List.Forall₂.flip round.all) walks⟩
    rcases Walks.steps walks steps with ⟨-, walks⟩ | ⟨found, -⟩
    · exact walks
    · cases found
  | .ok false =>
    refine .inr ⟨rfl, forall₂_trans (fun after before items steps walks => ?_)
      (List.Forall₂.flip round.steps) walks⟩
    have bounded {y : Except QueryError Bool} (steps : Steps mk c before y after) :
        after.input.reads ≤ items.length + 1 := by
      rcases Walks.steps walks steps with ⟨-, walks⟩ | ⟨-, le⟩
      · exact walks.within.trans (Nat.le_succ _)
      · exact le
    exact steps.elim bounded bounded

/-- Lanes at one key hold the items that were read last. -/
theorem latest_of_level {lanes : List (Lane (Metered σ))} {key : Bytes}
    (walks : List.Forall₂ (Walks mk c) lanes inputs)
    (level : ∀ lane ∈ lanes, ∃ held, lane.head = some held ∧ held.key = key) :
    ∀ item ∈ List.zipWith Metered.latest (lanes.map input) inputs,
      ∃ s, item = some s ∧ mk.of c s = .ok key := by
  induction walks with
  | nil => exact nofun
  | @cons lane items lanes inputs own _ ih =>
    obtain ⟨⟨held, holds, rfl⟩, levels⟩ := List.forall_mem_cons.mp level
    obtain ⟨here, keyed⟩ := own.held held holds
    exact List.forall_mem_cons.mpr ⟨⟨held.statement, here, keyed⟩, ih levels⟩

end Lane

/-! ## Reads of a merge -/

namespace Merge

variable {m : Merge (Metered σ)}

/-- Of each input, the item that was read last. -/
def latest (m : Merge (Metered σ)) (inputs : List (List Statement)) : List (Option Statement) :=
  List.zipWith Metered.latest m.inputs inputs

/-- The inputs stand at items with one key, and the first of them at the statement. -/
def StandsAt (mk : MergeKey) (c : Codec) (m : Merge (Metered σ)) (inputs : List (List Statement))
    (s : Statement) : Prop :=
  (m.latest inputs).head? = some (some s)
    ∧ ∃ key, ∀ item ∈ m.latest inputs, ∃ s, item = some s ∧ mk.of c s = .ok key

/-- The merge looks for matches on its way through inputs that hand out items with keys. -/
structure Walking (mk : MergeKey) (c : Codec) (m : Merge (Metered σ))
    (inputs : List (List Statement)) : Prop where
  live : m.Live
  key : m.key = mk
  codec : m.codec = c
  lanes : List.Forall₂ (Lane.Walks mk c) m.lanes inputs

theorem walking_ofInputs {cursors : List σ} (yields : List.Forall₂ Yields cursors inputs)
    (keyed : ∀ items ∈ inputs, ∀ s ∈ items, ∃ key, mk.of c s = .ok key) :
    (ofInputs mk c (cursors.map Metered.ofCursor)).Walking mk c inputs := by
  refine ⟨live_ofInputs .., rfl, rfl, ?_⟩
  change List.Forall₂ (Lane.Walks mk c) ((cursors.map Metered.ofCursor).map Lane.ofInput) inputs
  induction yields with
  | nil => exact .nil
  | cons own _ ih =>
    obtain ⟨first, others⟩ := List.forall_mem_cons.mp keyed
    exact .cons ⟨first, Nat.zero_le _, own, nofun⟩ (ih others)

theorem Walking.reads_le (h : m.Walking mk c inputs) :
    List.Forall₂ (fun reads items => reads ≤ items.length) m.reads inputs := by
  rw [reads_eq, List.forall₂_map_left_iff]
  exact h.lanes.imp fun _ _ walks => walks.within

/-- A search that succeeds reads every input. -/
theorem Live.reads_lt_of_seek (live : m.Live) {moved : List (Lane (Metered σ))}
    (found : m.seek = (.ok true, moved)) :
    List.Forall₂ (· < ·) (m.lanes.map fun lane => lane.input.reads)
      (moved.map fun lane => lane.input.reads) := by
  obtain ⟨next, gains, aligned⟩ := live.seek_gains found
  have round := Lane.align_round m.key m.codec next
  rw [aligned] at round
  rw [List.forall₂_map_left_iff, List.forall₂_map_right_iff]
  refine forall₂_trans (fun before gained after gain steps => ?_) gains round.all
  have lt := Lane.reads_lt_of_advance gain
  rcases steps.reads_lt with rfl | lt'
  · exact lt
  · exact lt.trans lt'

/-- A read that finds a match brings the inputs to items with one key and moves on in every input.
A read that finds none ends the merge. No read fails. -/
theorem Walking.next_cases (h : m.Walking mk c inputs) :
    (∃ s, m.next.1 = .ok (some s) ∧ m.next.2.Walking mk c inputs ∧ m.next.2.StandsAt mk c inputs s
        ∧ List.Forall₂ (· < ·) m.reads m.next.2.reads)
      ∨ (m.next.1 = .ok none ∧ m.next.2.state = .exhausted ∧ m.next.2.closed = false
        ∧ List.Forall₂ (fun reads items => reads ≤ items.length + 1) m.next.2.reads inputs) := by
  obtain ⟨live, rfl, rfl, walking⟩ := h
  have round := m.seek_round
  rcases live.next_cases with ⟨first, others, head, sought, holds, level, found⟩
    | ⟨lanes, sought, found⟩ | ⟨e, lanes, sought, found⟩
  · rw [sought] at round
    obtain ⟨-, walks⟩ | ⟨none, -⟩ := round.walks walking
    · have items := Lane.latest_of_level walks level
      have further := live.reads_lt_of_seek sought
      rw [found]
      refine .inl ⟨head.statement, rfl, ⟨⟨live.opened, nofun, .inr rfl⟩, rfl, rfl, ?_⟩,
        ⟨?_, head.key, items⟩, ?_⟩
      · cases walks with
        | cons own rest => exact .cons own.letGo rest
      · cases walks with
        | cons own rest => exact congrArg some (own.held head holds).1
      · rw [reads_eq, reads_eq]
        exact further
    · cases none
  · rw [sought] at round
    obtain ⟨some, -⟩ | ⟨-, bounded⟩ := round.walks walking
    · cases some
    · rw [found]
      refine .inr ⟨rfl, rfl, live.opened, ?_⟩
      rw [reads_eq, List.forall₂_map_left_iff]
      exact bounded
  · rw [sought] at round
    rcases round.walks walking with ⟨found, -⟩ | ⟨found, -⟩
    · cases found
    · cases found

/-! ## Passes of a read -/

/-- A read of a merge takes a number of passes over the lanes: none if the merge has ended, or if it
ends because not all lanes have an item to move on to. -/
inductive Passes (m : Merge σ) : Nat → Prop
  | ended : m.state = .exhausted → Passes m 0
  | stopped {outcome : Except QueryError Bool} {lanes : List (Lane σ)} : m.Live →
      Lane.advanceAll m.key m.codec m.lanes = (outcome, lanes) → outcome ≠ .ok true → Passes m 0
  | moved {lanes : List (Lane σ)} {n : Nat} : m.Live →
      Lane.advanceAll m.key m.codec m.lanes = (.ok true, lanes) →
      Lane.Passes m.key m.codec lanes n → Passes m n

theorem Live.reads_next (live : m.Live) : m.next.2.reads.sum = Lane.totalReads m.seek.2 := by
  rw [reads_eq]
  rcases live.next_cases with ⟨first, others, head, sought, _, _, found⟩
    | ⟨lanes, sought, found⟩ | ⟨e, lanes, sought, found⟩
  · rw [sought, found]
    rfl
  · rw [sought, found]
    rfl
  · rw [sought, found, List.map_map]
    rfl

/-- Every read ends, after no more passes than items are read, and one more. -/
theorem exists_passes (standing : m.Live ∨ m.state = .exhausted) :
    ∃ n, m.Passes n ∧ n + m.reads.sum ≤ m.next.2.reads.sum + 1 := by
  rcases standing with live | ended
  · have before : m.reads.sum = Lane.totalReads m.lanes := congrArg List.sum (reads_eq m)
    have round := Lane.advanceAll_round m.key m.codec m.lanes
    rw [before, live.reads_next, seek, if_pos live.behind]
    match read : Lane.advanceAll m.key m.codec m.lanes with
    | (.ok true, lanes) =>
      rw [read] at round
      have le := round.totalReads_le
      obtain ⟨n, passes, le'⟩ := Lane.align_passes m.key m.codec lanes
      exact ⟨n, .moved live read passes, by dsimp only; omega⟩
    | (.ok false, lanes) =>
      rw [read] at round
      have le := round.totalReads_le
      exact ⟨0, .stopped live read nofun, by dsimp only; omega⟩
    | (.error e, lanes) =>
      rw [read] at round
      have le := round.totalReads_le
      exact ⟨0, .stopped live read nofun, by dsimp only; omega⟩
  · refine ⟨0, .ended ended, ?_⟩
    rw [next_of_exhausted ended]
    dsimp only
    omega

/-! ## All reads of a merge -/

/-- The merge after a number of reads. -/
def pulled (m : Merge σ) (n : Nat) : Merge σ :=
  m.after (List.replicate n .next)

theorem pulled_add (m : Merge σ) (k n : Nat) : m.pulled (k + n) = (m.pulled k).pulled n := by
  rw [pulled, List.replicate_add, after_append]
  rfl

theorem pulled_succ (m : Merge σ) (n : Nat) : m.pulled (n + 1) = (m.pulled n).next.2 :=
  m.pulled_add n 1

/-- A merge that is at its end and was not closed stays as it is. -/
theorem pulled_of_exhausted {m : Merge σ} (ended : m.state = .exhausted) (n : Nat) :
    m.pulled n = m := by
  induction n with
  | zero => rfl
  | succ n ih => rw [pulled_succ, ih, next_of_exhausted ended]

/-- A merge hands out finitely many matches. Up to the last it is on its way through its inputs, and
then a read finds nothing. -/
theorem Walking.exists_out (h : m.Walking mk c inputs) : ∃ out : List Statement,
    ∀ n ≤ out.length, (m.pulled n).Walking mk c inputs ∧ (m.pulled n).next.1 = .ok out[n]? := by
  induction bound : m.load using Nat.strong_induction_on generalizing m with
  | _ load ih =>
    rcases h.next_cases with ⟨s, found, walking, -⟩ | ⟨none, -⟩
    · have less : m.next.2.load < load := bound ▸ Cursor.remaining_next_lt m s found
      obtain ⟨out, runs⟩ := ih _ less walking rfl
      refine ⟨s :: out, fun n le => ?_⟩
      cases n with
      | zero => exact ⟨h, found⟩
      | succ n => exact runs n (Nat.le_of_succ_le_succ le)
    · refine ⟨[], fun n le => ?_⟩
      obtain rfl := Nat.le_zero.mp le
      exact ⟨h, none⟩

section Run

variable {out : List Statement} (runs : ∀ n ≤ out.length, (m.pulled n).Walking mk c inputs
  ∧ (m.pulled n).next.1 = .ok out[n]?)

include runs

/-- A read that finds a match leaves the inputs at the match, and has moved on in all of them. -/
theorem pulled_of_match {n : Nat} {s : Statement} (here : out[n]? = some s) :
    (m.pulled (n + 1)).StandsAt mk c inputs s
      ∧ List.Forall₂ (· < ·) (m.pulled n).reads (m.pulled (n + 1)).reads := by
  obtain ⟨walking, found⟩ := runs n (List.getElem?_eq_some_iff.mp here).1.le
  rw [here] at found
  rw [pulled_succ]
  rcases walking.next_cases with ⟨s', found', _, stands, further⟩ | ⟨none, -⟩
  · rw [found] at found'
    cases found'
    exact ⟨stands, further⟩
  · rw [found] at none
    cases none

/-- From one match to another the reads move on in every input. -/
theorem reads_lt_of_lt {j k : Nat} (lt : j < k) (le : k ≤ out.length) :
    List.Forall₂ (· < ·) (m.pulled j).reads (m.pulled k).reads := by
  induction k with
  | zero => cases lt
  | succ k ih =>
    have step := (pulled_of_match runs (List.getElem?_eq_getElem le)).2
    rcases Nat.eq_or_lt_of_le (Nat.le_of_lt_succ lt) with rfl | lt
    · exact step
    · exact forall₂_trans (fun a b c (before : a < b) (after : b < c) => before.trans after)
        (ih lt (Nat.le_of_succ_le le)) step

/-- Behind the last match the merge has ended. -/
theorem pulled_of_length_lt {n : Nat} (lt : out.length < n) :
    (m.pulled n).state = .exhausted ∧ (m.pulled n).closed = false
      ∧ List.Forall₂ (fun reads items => reads ≤ items.length + 1) (m.pulled n).reads inputs := by
  obtain ⟨walking, found⟩ := runs out.length (Nat.le_refl _)
  obtain ⟨k, rfl⟩ := Nat.exists_eq_add_of_le (Nat.succ_le_of_lt lt)
  rw [pulled_add, pulled_succ]
  rcases walking.next_cases with ⟨s, found', -⟩ | ⟨-, ended, kept⟩
  · rw [found, List.getElem?_eq_none (Nat.le_refl _)] at found'
    cases found'
  · rw [pulled_of_exhausted ended]
    exact ⟨ended, kept⟩

end Run

end Merge

/-! ## Joins -/

namespace ObjectJoin

/-- The join after a number of reads. -/
def pulled (j : ObjectJoin σ) (n : Nat) : ObjectJoin σ :=
  j.after (List.replicate n .next)

theorem merge_pulled (j : ObjectJoin σ) (n : Nat) : (j.pulled n).merge = j.merge.pulled n :=
  merge_after j _

/-- How often each input of a join was read. -/
def reads (j : ObjectJoin (Metered σ)) : List Nat :=
  j.merge.reads

/-- Of each input of a join, the item that was read last. -/
def latest (j : ObjectJoin (Metered σ)) (inputs : List (List Statement)) :
    List (Option Statement) :=
  j.merge.latest inputs

/-- A join of two or more inputs in any order, whose items all have keys. No read fails; each ends
after no more passes over the inputs than it makes reads of them, and one more, and no input is read
beyond its end more than once. A statement is handed out only if the items that were read last have one key
in all inputs, and it is that of the first input. Between two reads that hand out a statement all
inputs move on, so no item has a part in both. -/
theorem matches_unsorted (c : Codec) {cursors : List σ} {inputs : List (List Statement)}
    (several : 2 ≤ inputs.length) (yields : List.Forall₂ Yields cursors inputs)
    (encodable : ∀ items ∈ inputs, ∀ s ∈ items, ∃ key, c.encodeObject s.object = .ok key) :
    ∃ (join : ObjectJoin (Metered σ)) (out : List Statement),
      ofInputs c (cursors.map Metered.ofCursor) = ⟨.ok join, []⟩ ∧
      (∀ n, (join.pulled n).next.1 = .ok out[n]?) ∧
      (∀ n, ∃ passes, (join.pulled n).merge.Passes passes ∧
        passes + (join.pulled n).reads.sum ≤ (join.pulled (n + 1)).reads.sum + 1) ∧
      (∀ n, List.Forall₂ (fun reads items => reads ≤ items.length + 1)
        (join.pulled n).reads inputs) ∧
      (∀ n s, out[n]? = some s →
        ((join.pulled (n + 1)).latest inputs).head? = some (some s) ∧
        ∃ key, ∀ item ∈ (join.pulled (n + 1)).latest inputs,
          ∃ i, item = some i ∧ c.encodeObject i.object = .ok key) ∧
      ∀ j k, j < k → k ≤ out.length →
        List.Forall₂ (· < ·) (join.pulled j).reads (join.pulled k).reads := by
  have enough : ¬ (cursors.map Metered.ofCursor).length < 2 := by
    rw [List.length_map, yields.length_eq]
    exact Nat.not_lt.mpr several
  let merge := Merge.ofInputs .object c (cursors.map Metered.ofCursor)
  have walking : merge.Walking .object c inputs := Merge.walking_ofInputs yields encodable
  obtain ⟨out, runs⟩ := walking.exists_out
  refine ⟨⟨merge⟩, out, if_neg enough, fun n => ?_, fun n => ?_, fun n => ?_, fun n s here => ?_,
    fun j k lt le => ?_⟩
  · have found : ((⟨merge⟩ : ObjectJoin (Metered σ)).pulled n).next.1 = (merge.pulled n).next.1 := by
      rw [← merge_pulled]
      rfl
    rw [found]
    rcases Nat.lt_or_ge out.length n with lt | le
    · obtain ⟨ended, opened, -⟩ := Merge.pulled_of_length_lt runs lt
      rw [Merge.next_of_exhausted ended, opened, List.getElem?_eq_none lt.le]
      rfl
    · exact (runs n le).2
  · rw [reads, reads, merge_pulled, merge_pulled, Merge.pulled_succ]
    apply Merge.exists_passes
    rcases Nat.lt_or_ge out.length n with lt | le
    · exact .inr (Merge.pulled_of_length_lt runs lt).1
    · exact .inl (runs n le).1.live
  · rw [reads, merge_pulled]
    rcases Nat.lt_or_ge out.length n with lt | le
    · exact (Merge.pulled_of_length_lt runs lt).2.2
    · exact (runs n le).1.reads_le.imp fun _ _ => Nat.le_succ_of_le
  · rw [latest, merge_pulled]
    exact (Merge.pulled_of_match runs here).1
  · rw [reads, reads, merge_pulled, merge_pulled]
    exact Merge.reads_lt_of_lt runs lt le

/-- Two inputs with the same two objects in opposite orders. The first match is the greater object,
and the second input has read both of its items by then. -/
theorem matches_unsorted_two :
    let one : Statement := .triple (.resource "a") (.resource "p") (.plain "1")
    let two : Statement := .triple (.resource "b") (.resource "p") (.plain "2")
    let cursors : List (Scripted Statement) :=
      [.ofItems [some two, some one] none false, .ofItems [some one, some two] none false]
    let inputs := [[two, one], [one, two]]
    ∃ (join : ObjectJoin (Metered (Scripted Statement))) (out : List Statement),
      ofInputs .standard (cursors.map Metered.ofCursor) = ⟨.ok join, []⟩ ∧
      (∀ n, (join.pulled n).next.1 = .ok out[n]?) ∧ out[0]? = some two ∧
      (join.pulled 1).reads = [1, 2] ∧
      (∃ key, ∀ item ∈ (join.pulled 1).latest inputs,
        ∃ i, item = some i ∧ Codec.standard.encodeObject i.object = .ok key) ∧
      List.Forall₂ (· < ·) (join.pulled 0).reads (join.pulled 1).reads := by
  intro one two cursors inputs
  have yields : List.Forall₂ Yields cursors inputs :=
    .cons (Scripted.yields [two, one] false 0 0) (.cons (Scripted.yields [one, two] false 0 0) .nil)
  have encodable : ∀ items ∈ inputs, ∀ s ∈ items,
      ∃ key, Codec.standard.encodeObject s.object = .ok key := by
    have first : ∃ key, Codec.standard.encodeObject one.object = .ok key :=
      ⟨[0x31, 0x01, 0x03], by decide +kernel⟩
    have second : ∃ key, Codec.standard.encodeObject two.object = .ok key :=
      ⟨[0x32, 0x01, 0x03], by decide +kernel⟩
    simp only [inputs, List.forall_mem_cons]
    exact ⟨⟨second, first, nofun⟩, ⟨first, second, nofun⟩, nofun⟩
  have several : 2 ≤ inputs.length := Nat.le_refl 2
  obtain ⟨join, out, opened, reads, -, -, stands, further⟩ :=
    matches_unsorted .standard several yields encodable
  obtain rfl : _ = join := Except.ok.inj (congrArg Opening.outcome opened)
  have here : out[0]? = some two := by
    have found := congrArg Except.toOption (reads 0)
    exact Option.some.inj (found.symm.trans (by decide +kernel))
  exact ⟨_, out, opened, reads, here, by decide +kernel, (stands 0 two here).2,
    further 0 1 Nat.zero_lt_one (List.getElem?_eq_some_iff.mp here).1⟩

end ObjectJoin

end TripleIndex
