/-
  The states of a merge over any sequence of reads and closings, whatever its inputs hand out: they
  may be in any order, find nothing now and something later, fail, or hold statements without a key.
  Between two calls a merge stands in one of three ways (`Merge.Standing`), and each call leads from
  one of them to another (`Merge.Standing.next`, `Merge.Standing.close`).

  * `Merge.after_of_exhausted`: a merge that ended reads nothing more.
  * `Merge.length_failures_le`: at most one read fails before the merge is closed.
  * `Merge.states_after`: the states, the outcomes of reads and what the lanes hold.
-/
import Mathlib
import TripleIndex.Proofs.Cursor.Reads
import TripleIndex.Proofs.Query.Closing

namespace TripleIndex

namespace Merge

variable {σ : Type} {m : Merge σ} {calls : List JoinCall}

/-- The first lane has given away what it held, and the others still hold their items. -/
def HandedOut (lanes : List (Lane σ)) : Prop :=
  ∃ first others, lanes = first :: others ∧ first.head = none ∧ ∀ lane ∈ others, lane.head.isSome

/-- How a merge stands after a sequence of calls. -/
inductive Standing (m : Merge σ) (calls : List JoinCall) : Prop
  | unread (none : calls = []) (opened : m.closed = false) (state : m.state = .start)
      (pending : m.pending = false)
  | matched (called : calls ≠ []) (unclosed : .close ∉ calls) (opened : m.closed = false)
      (state : m.state = .checking) (pending : m.pending = true) (lanes : HandedOut m.lanes)
  | ended (called : calls ≠ []) (closed : m.closed = decide (.close ∈ calls))
      (state : m.state = .exhausted) (pending : m.pending = false)

theorem standing_ofInputs (key : MergeKey) (c : Codec) (inputs : List σ) :
    (ofInputs key c inputs).Standing [] :=
  .unread rfl rfl rfl rfl

theorem live_ofInputs (key : MergeKey) (c : Codec) (inputs : List σ) :
    (ofInputs key c inputs).Live where
  opened := rfl
  running := nofun
  behind := .inl rfl

/-- A merge that has not ended still looks for matches, and no call has closed it. -/
theorem Standing.live (h : m.Standing calls) (running : m.state ≠ .exhausted) :
    m.Live ∧ .close ∉ calls := by
  cases h with
  | unread none opened state pending => exact ⟨⟨opened, running, .inl state⟩, none ▸ nofun⟩
  | matched called unclosed opened state pending lanes =>
    exact ⟨⟨opened, running, .inr pending⟩, unclosed⟩
  | ended called closed state pending => exact absurd state running

theorem Standing.start_iff (h : m.Standing calls) : m.state = .start ↔ calls = [] := by
  cases h with
  | unread none _ state _ => exact iff_of_true state none
  | matched called _ _ state _ _ => exact iff_of_false (by rw [state]; decide) called
  | ended called _ state _ => exact iff_of_false (by rw [state]; decide) called

theorem Standing.matched_of_pending (h : m.Standing calls) (pending : m.pending = true) :
    m.state = .checking ∧ HandedOut m.lanes := by
  cases h with
  | unread _ _ _ idle => rw [idle] at pending; cases pending
  | matched _ _ _ state _ lanes => exact ⟨state, lanes⟩
  | ended _ _ _ idle => rw [idle] at pending; cases pending

/-- A merge is closed after calls of which one closes. -/
theorem Standing.closed_eq (h : m.Standing calls) : m.closed = decide (.close ∈ calls) := by
  cases h with
  | unread none opened _ _ => rw [opened, none]; rfl
  | matched _ unclosed opened _ _ _ => rw [opened, decide_eq_false unclosed]
  | ended _ closed _ _ => exact closed

/-! ## One call -/

variable [Cursor σ Statement QueryError]

/-- A read either finds a match and stands behind it, or ends the merge. -/
theorem Standing.next (h : m.Standing calls) :
    m.next.2.Standing (calls ++ [.next])
      ∧ ((∃ s, m.next.1 = .ok (some s)) ∧ m.next.2.state = .checking
        ∨ (∀ s, m.next.1 ≠ .ok (some s)) ∧ m.next.2.state = .exhausted) := by
  have called : calls ++ [.next] ≠ [] := List.append_ne_nil_of_right_ne_nil _ (by decide)
  have closings : .close ∈ calls ++ [.next] ↔ .close ∈ calls := by simp
  by_cases state : m.state = .exhausted
  · rw [next_of_exhausted state]
    cases h with
    | unread none opened fresh pending => rw [fresh] at state; cases state
    | matched _ unclosed opened checking pending lanes => rw [checking] at state; cases state
    | ended _ closed _ pending =>
      refine ⟨.ended called (by rw [closed, decide_eq_decide.mpr closings]) state pending,
        .inr ⟨fun s => ?_, state⟩⟩
      dsimp only
      split <;> nofun
  · obtain ⟨live, unclosed⟩ := h.live state
    have unclosed' : .close ∉ calls ++ [.next] := fun mem => unclosed (closings.mp mem)
    have closed : m.closed = decide (.close ∈ calls ++ [.next]) :=
      live.opened.trans (decide_eq_false unclosed').symm
    rcases live.next_cases with
      ⟨first, others, head, _, _, level, found⟩ | ⟨lanes, _, found⟩ | ⟨e, lanes, _, found⟩
    · rw [found]
      refine ⟨.matched called unclosed' live.opened rfl rfl
        ⟨first.letGo, others, rfl, rfl, fun lane mem => ?_⟩, .inl ⟨⟨_, rfl⟩, rfl⟩⟩
      obtain ⟨held, holds, _⟩ := level lane (List.mem_cons_of_mem _ mem)
      exact Option.isSome_iff_exists.mpr ⟨held, holds⟩
    · rw [found]
      exact ⟨.ended called closed rfl rfl, .inr ⟨nofun, rfl⟩⟩
    · rw [found]
      exact ⟨.ended called closed rfl rfl, .inr ⟨nofun, rfl⟩⟩

theorem Standing.next_checking_iff (h : m.Standing calls) :
    m.next.2.state = .checking ↔ ∃ s, m.next.1 = .ok (some s) := by
  rcases h.next.2 with ⟨found, state⟩ | ⟨none, state⟩
  · exact iff_of_true state found
  · exact iff_of_false (by rw [state]; decide) (not_exists.mpr none)

theorem Standing.next_exhausted_iff (h : m.Standing calls) :
    m.next.2.state = .exhausted ↔ ¬ ∃ s, m.next.1 = .ok (some s) := by
  rcases h.next.2 with ⟨found, state⟩ | ⟨none, state⟩
  · exact iff_of_false (by rw [state]; decide) (not_not_intro found)
  · exact iff_of_true state (not_exists.mpr none)

/-- A merge that ended without being closed finds nothing. -/
theorem Standing.next_of_ended (h : m.Standing calls) (unclosed : .close ∉ calls)
    (ended : m.state = .exhausted) : m.next.1 = .ok none := by
  rw [next_of_exhausted ended, h.closed_eq, decide_eq_false unclosed]
  rfl

/-- A merge that was closed reports that. -/
theorem Standing.next_of_closing (h : m.Standing calls) (closing : .close ∈ calls) :
    m.next.1 = .error .cursorClosed := by
  unfold Merge.next
  rw [h.closed_eq, decide_eq_true closing]
  rfl

theorem Standing.close (m : Merge σ) (calls : List JoinCall) :
    m.close.2.Standing (calls ++ [.close]) :=
  .ended (List.append_ne_nil_of_right_ne_nil _ (by decide)) (by simp [Merge.close]) rfl rfl

/-! ## Sequences of calls -/

theorem after_append (m : Merge σ) (calls later : List JoinCall) :
    m.after (calls ++ later) = (m.after calls).after later :=
  List.foldl_append

theorem after_next (m : Merge σ) (calls : List JoinCall) :
    m.after (.next :: calls) = m.next.2.after calls :=
  rfl

theorem standing_after (key : MergeKey) (c : Codec) (inputs : List σ) (calls : List JoinCall) :
    ((ofInputs key c inputs).after calls).Standing calls := by
  induction calls using List.reverseRecOn with
  | nil => exact standing_ofInputs key c inputs
  | append_singleton calls call ih =>
    rw [after_append]
    cases call with
    | next => exact ih.next.1
    | close => exact .close _ calls

/-- How often each input of a merge was read. -/
def reads (m : Merge (Metered σ)) : List Nat :=
  m.inputs.map Metered.reads

omit [Cursor σ Statement QueryError] in
theorem reads_eq (m : Merge (Metered σ)) : m.reads = m.lanes.map fun lane => lane.input.reads :=
  List.map_map

/-- Closing an input does not read it. -/
theorem reads_close (m : Merge (Metered σ)) : m.close.2.reads = m.reads := by
  rw [reads_eq, reads_eq, lanes_close, List.map_map]
  refine List.map_congr_left fun lane _ => ?_
  simp only [Function.comp_apply, Lane.close]
  split <;> rfl

/-- A merge that ended never goes on, and reads nothing more. -/
theorem after_of_exhausted {m : Merge (Metered σ)} (ended : m.state = .exhausted)
    (calls : List JoinCall) :
    (m.after calls).state = .exhausted ∧ (m.after calls).reads = m.reads := by
  induction calls generalizing m with
  | nil => exact ⟨ended, rfl⟩
  | cons call calls ih =>
    cases call with
    | next =>
      have still : m.next.2 = m := congrArg Prod.snd (next_of_exhausted ended)
      rw [after_next, still]
      exact ih ended
    | close =>
      obtain ⟨state, reads⟩ := ih (m := m.close.2) rfl
      exact ⟨state, reads.trans (reads_close m)⟩

/-- The errors that reads report before the first closing. -/
def failures (m : Merge σ) : List JoinCall → List QueryError
  | [] => []
  | .close :: _ => []
  | .next :: calls =>
    match m.next with
    | (.error e, later) => e :: later.failures calls
    | (.ok _, later) => later.failures calls

theorem failures_of_exhausted (ended : m.state = .exhausted) (opened : m.closed = false)
    (calls : List JoinCall) : m.failures calls = [] := by
  induction calls with
  | nil => rfl
  | cons call calls ih =>
    cases call with
    | next =>
      have rest : m.next = (.ok none, m) := by
        rw [next_of_exhausted ended, opened]
        rfl
      rw [failures, rest]
      exact ih
    | close => rfl

/-- A read that fails ends the merge, so that no other read fails before the merge is closed. -/
theorem length_failures_le (live : m.Live) (calls : List JoinCall) :
    (m.failures calls).length ≤ 1 := by
  induction calls generalizing m with
  | nil => exact Nat.zero_le 1
  | cons call calls ih =>
    cases call with
    | next =>
      rcases live.next_cases with
        ⟨first, others, head, _, _, _, found⟩ | ⟨lanes, _, found⟩ | ⟨e, lanes, _, found⟩
      · rw [failures, found]
        exact ih ⟨live.opened, nofun, .inr rfl⟩
      · simp only [failures, found]
        rw [failures_of_exhausted]
        · exact Nat.zero_le 1
        · rfl
        · exact live.opened
      · simp only [failures, found]
        rw [failures_of_exhausted]
        · exact Nat.le_refl 1
        · rfl
        · exact live.opened
    | close => exact Nat.zero_le 1

/-- A merge of two or more inputs of any kind, as of a join, after any calls. It is at its start
until the first call; a read that returns a statement leaves it looking for matches, and any other
read, like closing, ends it. A merge that ended never goes on, and reads no input again. Before the
merge is closed at most one read fails, and those after it find nothing; once it is closed all reads
report that. A move past a match is pending only while matches are looked for, and then all lanes
but the first hold their items. -/
theorem states_after (c : Codec) (inputs : List σ) (several : 2 ≤ inputs.length) :
    let cursors := inputs.map Metered.ofCursor
    ObjectJoin.ofInputs c cursors = ⟨.ok ⟨ofInputs .object c cursors⟩, []⟩ ∧
    ∀ (key : MergeKey) (calls : List JoinCall),
      let now := (ofInputs key c cursors).after calls
      (now.state = .start ↔ calls = []) ∧
      (now.next.2.state = .checking ↔ ∃ s, now.next.1 = .ok (some s)) ∧
      (now.next.2.state = .exhausted ↔ ¬ ∃ s, now.next.1 = .ok (some s)) ∧
      now.close.2.state = .exhausted ∧
      (now.state = .exhausted → ∀ later, (now.after later).state = .exhausted ∧
        (now.after later).reads = now.reads) ∧
      ((ofInputs key c cursors).failures calls).length ≤ 1 ∧
      (.close ∉ calls → ∀ e, now.next.1 = .error e → ∀ later, .close ∉ later →
        (now.next.2.after later).next.1 = .ok none) ∧
      (.close ∈ calls → now.next.1 = .error .cursorClosed) ∧
      (now.pending = true → now.state = .checking ∧ ∃ first others,
        now.lanes = first :: others ∧ first.head = none ∧ ∀ lane ∈ others, lane.head.isSome) := by
  intro cursors
  have enough : ¬ cursors.length < 2 := by
    rw [List.length_map]
    exact Nat.not_lt.mpr several
  refine ⟨if_neg enough, fun key calls => ?_⟩
  intro now
  have standing : now.Standing calls := standing_after key c cursors calls
  refine ⟨standing.start_iff, standing.next_checking_iff, standing.next_exhausted_iff, rfl,
    after_of_exhausted, length_failures_le (live_ofInputs ..) calls, ?_, standing.next_of_closing,
    standing.matched_of_pending⟩
  intro unclosed e failed later unclosed'
  have ended : now.next.2.state = .exhausted := by
    rw [standing.next_exhausted_iff, failed]
    exact nofun
  have standing' : (now.next.2.after later).Standing (calls ++ .next :: later) := by
    have run := standing_after key c cursors (calls ++ .next :: later)
    rwa [after_append] at run
  exact standing'.next_of_ended (by simp [unclosed, unclosed']) (after_of_exhausted ended later).1

/-- An input that fails behind its only statement, beside one that finds nothing there and something
later: a match, a failure, and no more reads. -/
theorem states_after_failure :
    let s : Statement := .triple (.resource "a") (.resource "p") (.plain "1")
    let unreadable : Scripted Statement := .ofItems [some s] (some 1) false
    let gap : Scripted Statement := .ofItems [some s, none, some s] none false
    let merge := ofInputs .object .standard ([unreadable, gap].map Metered.ofCursor)
    (∃ found, merge.next.1 = .ok (some found)) ∧
      (∃ first others, (merge.after [.next]).lanes = first :: others ∧ first.head = none ∧
        ∀ lane ∈ others, lane.head.isSome) ∧
      (merge.after [.next, .next]).state = .exhausted ∧
      (merge.after [.next, .next, .next]).next.1 = .ok none ∧
      (merge.failures [.next, .next, .next, .close, .next]).length ≤ 1 ∧
      (merge.after [.next, .next, .close]).next.1 = .error .cursorClosed ∧
      ((merge.after [.next, .next]).after [.next, .close, .next]).reads = [2, 1] := by
  intro s unreadable gap merge
  obtain ⟨-, runs⟩ := states_after .standard [unreadable, gap] (Nat.le_refl 2)
  obtain ⟨-, finds, -, -, -, -, -, -, -⟩ := runs .object []
  obtain ⟨-, -, ends, -, -, -, later, -, pending⟩ := runs .object [.next]
  obtain ⟨-, -, -, -, rest, -, -, -, -⟩ := runs .object [.next, .next]
  obtain ⟨-, -, -, -, -, once, -, -, -⟩ := runs .object [.next, .next, .next, .close, .next]
  obtain ⟨-, -, -, -, -, -, -, closed, -⟩ := runs .object [.next, .next, .close]
  obtain ⟨e, failed⟩ : ∃ e, (merge.after [.next]).next.1 = .error e := by
    have failed : (merge.after [.next]).next.1.isOk = false := by decide +kernel
    cases outcome : (merge.after [.next]).next.1 with
    | error e => exact ⟨e, rfl⟩
    | ok found => rw [outcome] at failed; cases failed
  have ended : (merge.after [.next, .next]).state = .exhausted := by
    have run : merge.after [.next, .next] = (merge.after [.next]).next.2 :=
      (after_append merge [.next] [.next]).trans (after_next _ _)
    rw [run, ends]
    rintro ⟨found, other⟩
    cases failed.symm.trans other
  have counted : (merge.after [.next, .next]).reads = [2, 1] := by decide +kernel
  refine ⟨?_, ?_, ?_, ?_, ?_, ?_, ?_⟩
  · exact finds.mp (by decide +kernel)
  · exact (pending (by decide +kernel)).2
  · exact ended
  · have run : merge.after [.next, .next, .next] = (merge.after [.next]).next.2.after [.next] :=
      (after_append merge [.next] [.next, .next]).trans (after_next _ _)
    rw [run]
    exact later (by decide) e failed [.next] (by decide)
  · exact once
  · exact closed (by decide)
  · exact (rest ended [.next, .close, .next]).2.trans counted

end Merge

end TripleIndex
