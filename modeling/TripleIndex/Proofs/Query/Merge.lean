/-
  What a merge hands out. Between two reads every lane has still to move on (`Merge.Moving`); a
  read that finds a match goes from one such state to the next and adds the match to those of the
  items behind it (`Merge.next_eq`), so reading to the end hands out all matches.
-/
import Mathlib
import TripleIndex.Proofs.Query.Lane
import TripleIndex.Query.Merge

namespace TripleIndex

open Cursor (Yields)
open Head (Joined)
open Lane (Feeds Holds)

namespace Merge

variable {σ : Type} [Cursor σ Statement QueryError] {mk : MergeKey} {c : Codec}

/-- The merge has to move on in every lane, and its inputs have these items left. -/
structure Moving (m : Merge σ) (inputs : List (List Head)) : Prop where
  running : m.state ≠ .exhausted
  opened : m.closed = false
  behind : m.state = .start ∨ m.pending
  feeds : List.Forall₂ (fun lane items => Feeds m.key m.codec lane.input items) m.lanes inputs

theorem moving_ofInputs {cursors : List σ} {inputs : List (List Head)}
    (feeds : List.Forall₂ (Feeds mk c) cursors inputs) :
    (ofInputs mk c cursors).Moving inputs where
  running := nofun
  opened := rfl
  behind := .inl rfl
  feeds := List.forall₂_map_left_iff.mpr feeds

/-- Behind the items that the lanes hold are the tails of their inputs. -/
theorem feeds_tail {lanes : List (Lane σ)} {inputs : List (List Head)}
    (holds : List.Forall₂ (Holds mk c) lanes inputs) :
    List.Forall₂ (fun lane items => Feeds mk c lane.input items) lanes (inputs.map List.tail) := by
  refine List.forall₂_map_right_iff.mpr (holds.imp ?_)
  rintro lane items ⟨_, head, rest, rfl, _, feeds⟩
  exact feeds

/-- If all lanes hold one key, then all their inputs start with it. -/
theorem starts_with {target : Bytes} {lanes : List (Lane σ)} {inputs : List (List Head)}
    (holds : List.Forall₂ (Holds mk c) lanes inputs)
    (level : ∀ lane ∈ lanes, ∃ head, lane.head = some head ∧ head.key = target) :
    ∀ items ∈ inputs, ∃ head rest, items = head :: rest ∧ head.key = target := by
  intro items mem
  obtain ⟨lane, listed, own⟩ := exists_mem_of_forall₂ holds mem
  obtain ⟨head, rest, e, held, _⟩ := own.exists_head
  obtain ⟨head', held', same⟩ := level lane listed
  rw [held] at held'
  cases held'
  exact ⟨head, rest, e, same⟩

/-- A read finds the first match and moves behind it, or there is no match and the merge ends. -/
theorem next_eq {m : Merge σ} {inputs : List (List Head)} (moving : m.Moving inputs) :
    (∃ head m' inputs', Cursor.next m = (.ok (some head.statement), m') ∧ m'.Moving inputs'
        ∧ ∀ out, Joined inputs' out → Joined inputs (head :: out))
      ∨ ∃ m', Cursor.next m = (.ok none, m') ∧ m'.state = .exhausted ∧ Joined inputs [] := by
  have pulled : Cursor.next m = m.pull := by
    change m.next = _
    rw [next, moving.opened]
    rfl
  rw [pulled, pull, if_neg moving.running, seek, if_pos moving.behind]
  obtain ⟨lanes, ⟨read, holds⟩ | ⟨read, ended⟩⟩ := Lane.advanceAll_eq moving.feeds
  · rw [read]
    simp only
    rcases Lane.align_eq holds with ⟨aligned, inputs', found, all, back⟩
      | ⟨aligned, found, joined⟩
    · rw [found]
      have held := Lane.held_of_gains (Lane.gains_of_advanceAll read)
      obtain ⟨target, level⟩ := Lane.align_level held found
      have starts := starts_with all level
      cases all with
      | nil => exact absurd rfl (Lane.ne_nil_of_align found)
      | @cons lane items lanes inputs' first others =>
        obtain ⟨head, rest, rfl, held, _⟩ := first.exists_head
        have taken : Lane.takeFirst (lane :: lanes)
            = (some head.statement, { lane with head := none } :: lanes) := by
          rw [Lane.takeFirst, held]
          rfl
        simp only [taken]
        obtain ⟨later, laters⟩ := List.forall₂_cons.mp (feeds_tail (.cons first others))
        exact .inl ⟨head, _, rest :: inputs'.map List.tail, rfl,
          ⟨by rintro ⟨⟩, moving.opened, .inr rfl, .cons later laters⟩,
          fun out joined => back _ (.cons starts joined)⟩
    · rw [found]
      exact .inr ⟨_, rfl, rfl, joined⟩
  · rw [read]
    exact .inr ⟨_, rfl, rfl, .nil_of_ended ended⟩

/-- A merge hands out the matches of its inputs. -/
theorem exists_yields {m : Merge σ} {inputs : List (List Head)} (moving : m.Moving inputs) :
    ∃ out, Yields m (out.map Head.statement) ∧ Joined inputs out := by
  induction h : m.load using Nat.strong_induction_on generalizing m inputs with
  | _ load ih =>
    rcases next_eq moving with ⟨head, m', inputs', found, moving', back⟩ | ⟨m', found, _, joined⟩
    · have less : m'.load < load := by
        have lt := Cursor.remaining_next_lt m head.statement (by rw [found])
        rw [found] at lt
        exact h ▸ lt
      obtain ⟨out, yields, joined⟩ := ih _ less moving' rfl
      exact ⟨head :: out, .item found yields, back out joined⟩
    · exact ⟨[], .done found, joined⟩

/-- Statements that have keys, with their keys. -/
theorem exists_heads {items : List Statement}
    (keyed : ∀ s ∈ items, ∃ key, mk.of c s = .ok key) :
    ∃ heads : List Head, heads.map Head.statement = items
      ∧ ∀ head ∈ heads, mk.of c head.statement = .ok head.key := by
  induction items with
  | nil => exact ⟨[], rfl, nofun⟩
  | cons s items ih =>
    obtain ⟨key, hk⟩ := keyed s List.mem_cons_self
    obtain ⟨heads, rfl, hks⟩ := ih fun s h => keyed s (List.mem_cons_of_mem _ h)
    exact ⟨⟨key, s⟩ :: heads, rfl, List.forall_mem_cons.mpr ⟨hk, hks⟩⟩

/-- The statements come in the order of their keys. -/
def Ascending (mk : MergeKey) (c : Codec) (items : List Statement) : Prop :=
  items.Pairwise fun s t => ∀ a b, mk.of c s = .ok a → mk.of c t = .ok b → a ≤ b

theorem exists_feeds {cursors : List σ} {inputs : List (List Statement)}
    (yields : List.Forall₂ Yields cursors inputs)
    (keyed : ∀ items ∈ inputs, ∀ s ∈ items, ∃ key, mk.of c s = .ok key)
    (ascending : ∀ items ∈ inputs, Ascending mk c items) :
    ∃ heads : List (List Head), heads.map (List.map Head.statement) = inputs
      ∧ List.Forall₂ (Feeds mk c) cursors heads
      ∧ ∀ items ∈ heads, ∀ head ∈ items, mk.of c head.statement = .ok head.key := by
  induction yields with
  | nil => exact ⟨[], rfl, .nil, nofun⟩
  | @cons cursor items cursors inputs first _ ih =>
    obtain ⟨firstKeyed, keyed⟩ := List.forall_mem_cons.mp keyed
    obtain ⟨firstAscending, ascending⟩ := List.forall_mem_cons.mp ascending
    obtain ⟨heads, rfl, feeds, others⟩ := ih keyed ascending
    obtain ⟨head, rfl, keys⟩ := exists_heads firstKeyed
    refine ⟨head :: heads, rfl, .cons ⟨first, keys, ?_⟩ feeds,
      List.forall_mem_cons.mpr ⟨keys, others⟩⟩
    apply (List.pairwise_map.mp firstAscending).imp_of_mem
    intro a b ha hb le
    exact le a.key b.key (keys a ha) (keys b hb)

/-- Among items with keys, those with one key are those whose statements have it. -/
theorem filter_statements {heads : List Head}
    (keyed : ∀ head ∈ heads, mk.of c head.statement = .ok head.key) (key : Bytes) :
    (heads.map Head.statement).filter (mk.of c · = .ok key)
      = (heads.filter (·.key = key)).map Head.statement := by
  rw [List.filter_map]
  congr 1
  apply List.filter_congr
  intro head mem
  simp [keyed head mem]

/-- Keys are counted among statements as they are among items. -/
theorem counts_statements {heads : List (List Head)}
    (keyed : ∀ items ∈ heads, ∀ head ∈ items, mk.of c head.statement = .ok head.key)
    (key : Bytes) :
    (heads.map (List.map Head.statement)).map (fun items => items.countP (mk.of c · = .ok key))
      = heads.map fun items => items.countP (·.key = key) := by
  rw [List.map_map]
  apply List.map_congr_left
  intro items mem
  rw [Function.comp_apply, List.countP_eq_length_filter, filter_statements (keyed items mem),
    List.length_map, List.countP_eq_length_filter]

/-- A merge of sorted inputs hands out the first statements of the first input with a key, as many
as the input with the fewest of them has. -/
theorem exists_yields_ofInputs (mk : MergeKey) (c : Codec) {cursors : List σ}
    {inputs : List (List Statement)}
    (yields : List.Forall₂ Yields cursors inputs) (filled : inputs ≠ [])
    (keyed : ∀ items ∈ inputs, ∀ s ∈ items, ∃ key, mk.of c s = .ok key)
    (ascending : ∀ items ∈ inputs, Ascending mk c items) :
    ∃ out, Yields (ofInputs mk c cursors) out ∧ out.Sublist (inputs.headD [])
      ∧ ∀ key, (inputs.map fun items => items.countP (mk.of c · = .ok key)).min?
          = some (out.countP (mk.of c · = .ok key))
        ∧ out.filter (mk.of c · = .ok key) <+: (inputs.headD []).filter (mk.of c · = .ok key) := by
  obtain ⟨heads, rfl, feeds, keys⟩ := exists_feeds yields keyed ascending
  obtain ⟨first, others, rfl⟩ := List.exists_cons_of_ne_nil (l := heads) (by simpa using filled)
  obtain ⟨out, merged, sublist, matched⟩ := exists_yields (moving_ofInputs feeds)
  have firstKeys := keys first List.mem_cons_self
  have outKeys : ∀ head ∈ out, mk.of c head.statement = .ok head.key :=
    fun head mem => firstKeys head (sublist.subset mem)
  refine ⟨_, merged, sublist.map _, fun key => ⟨?_, ?_⟩⟩
  · obtain ⟨attained, le⟩ := Head.fewest_spec key (first :: others) (List.cons_ne_nil _ _)
    have counted : (out.map Head.statement).countP (mk.of c · = .ok key)
        = Head.fewest key (first :: others) := by
      have firstLe := le first List.mem_cons_self
      rw [List.countP_eq_length_filter] at firstLe
      rw [List.countP_eq_length_filter, filter_statements outKeys, List.length_map, matched,
        List.length_take]
      exact Nat.min_eq_left firstLe
    rw [counts_statements keys, counted, List.min?_eq_some_iff]
    exact ⟨List.mem_map.mpr attained, List.forall_mem_map.mpr le⟩
  · change _ <+: (first.map Head.statement).filter _
    rw [filter_statements outKeys, filter_statements firstKeys, matched]
    exact (List.take_prefix _ _).map _

end Merge

end TripleIndex
