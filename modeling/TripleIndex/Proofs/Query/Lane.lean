/-
  Lanes on sorted inputs. Each input is a list of items with keys, and the matches of the inputs
  pair equal keys by position (`Head.Joined`).

  * `Head.Joined.of_skip`: items below a key that one input has already passed are in no match.
  * `Head.Joined.cons`: inputs that all start with one key have the first item as a match.
  * `Lane.align_eq`: bringing the keys together changes no match; it fails at the end of an input
    only, and then there is no match.
-/
import Mathlib
import TripleIndex.Proofs.Cursor
import TripleIndex.Proofs.Query.Steps

namespace TripleIndex

open Cursor (Yields)

/-! ## Matches -/

namespace Head

/-- The least number of items with a key that one of the inputs has. -/
def fewest (key : Bytes) (inputs : List (List Head)) : Nat :=
  (inputs.map fun items => items.countP (·.key = key)).min?.getD 0

/-- The least count is one of the counts, and no count is less. -/
theorem fewest_spec (key : Bytes) (inputs : List (List Head)) (filled : inputs ≠ []) :
    (∃ items ∈ inputs, items.countP (·.key = key) = fewest key inputs)
      ∧ ∀ items ∈ inputs, fewest key inputs ≤ items.countP (·.key = key) := by
  obtain ⟨m, least⟩ := Option.isSome_iff_exists.mp
    (List.isSome_min?_of_ne_nil
      (l := inputs.map fun items => items.countP (·.key = key)) (by simpa using filled))
  have value : fewest key inputs = m := by rw [fewest, least, Option.getD_some]
  obtain ⟨mem, le⟩ := List.min?_eq_some_iff.mp least
  rw [value]
  exact ⟨List.mem_map.mp mem, fun items h => le _ (List.mem_map_of_mem h)⟩

/-- A key that one of the inputs does not have is in no match. -/
theorem fewest_eq_zero {key : Bytes} {inputs : List (List Head)} {items : List Head}
    (mem : items ∈ inputs) (absent : ∀ h ∈ items, h.key ≠ key) : fewest key inputs = 0 := by
  have le := (fewest_spec key inputs (List.ne_nil_of_mem mem)).2 items mem
  rw [List.countP_eq_zero.mpr fun h hh => by simpa using absent h hh] at le
  exact Nat.le_zero.mp le

/-- The matches of inputs: of each key the first items of the first input, as many as every input
has, in the order of the first input. -/
structure Joined (inputs : List (List Head)) (out : List Head) : Prop where
  sublist : out.Sublist (inputs.headD [])
  matched : ∀ key, out.filter (·.key = key)
    = ((inputs.headD []).filter (·.key = key)).take (fewest key inputs)

/-- If an input is at its end, then there is no match. -/
theorem Joined.nil_of_ended {inputs : List (List Head)} (ended : [] ∈ inputs) :
    Joined inputs [] where
  sublist := List.nil_sublist _
  matched key := by
    rw [fewest_eq_zero ended (List.forall_mem_nil _), List.take_zero, List.filter_nil]

/-- An input that has nothing below a key. -/
def Idle (target : Bytes) (inputs : List (List Head)) : Prop :=
  ∃ items ∈ inputs, ∀ h ∈ items, target ≤ h.key

/-- The items from the first on whose key is not below the target. -/
abbrev skip (target : Bytes) (items : List Head) : List Head :=
  items.dropWhile (·.key < target)

theorem le_of_skip {target : Bytes} {items rest : List Head} {head : Head}
    (h : skip target items = head :: rest) : target ≤ head.key := by
  have stopped := List.head?_dropWhile_not (fun h : Head => decide (h.key < target)) items
  rw [show items.dropWhile _ = head :: rest from h] at stopped
  exact List.not_lt.mp (of_decide_eq_false stopped)

theorem filter_skip {target key : Bytes} (le : target ≤ key) (items : List Head) :
    (skip target items).filter (·.key = key) = items.filter (·.key = key) := by
  have dropped : (items.takeWhile (·.key < target)).filter (·.key = key) = [] := by
    rw [List.filter_eq_nil_iff]
    intro h mem same
    have below := List.mem_takeWhile_imp mem
    simp only [decide_eq_true_eq] at below same
    exact List.not_lt.mpr le (same ▸ below)
  calc (skip target items).filter (·.key = key)
    _ = (items.takeWhile (·.key < target) ++ skip target items).filter (·.key = key) := by
      rw [List.filter_append, dropped, List.nil_append]
    _ = items.filter (·.key = key) := by
      rw [skip, List.takeWhile_append_dropWhile]

theorem countP_skip {target key : Bytes} (le : target ≤ key) (items : List Head) :
    (skip target items).countP (·.key = key) = items.countP (·.key = key) := by
  rw [List.countP_eq_length_filter, List.countP_eq_length_filter, filter_skip le]

theorem idle_skip {target : Bytes} {before after : List (List Head)} {items : List Head}
    (idle : Idle target (before ++ items :: after)) :
    Idle target (before ++ skip target items :: after) := by
  obtain ⟨passed, mem, above⟩ := idle
  rcases List.mem_append.mp mem with h | h
  · exact ⟨passed, List.mem_append_left _ h, above⟩
  · rcases List.mem_cons.mp h with rfl | h
    · exact ⟨_, List.mem_append_right _ List.mem_cons_self,
        fun h hh => above h ((List.dropWhile_sublist _).subset hh)⟩
    · exact ⟨passed, List.mem_append_right _ (List.mem_cons_of_mem _ h), above⟩

/-- A key below one that an input has passed is in no match. -/
theorem fewest_of_idle {target key : Bytes} {inputs : List (List Head)}
    (idle : Idle target inputs) (lt : key < target) : fewest key inputs = 0 := by
  obtain ⟨items, mem, above⟩ := idle
  apply fewest_eq_zero mem
  intro h hh same
  exact List.not_lt.mpr (above h hh) (same ▸ lt)

/-- Once an input has nothing below a key, skipping what is below it in an input leaves all
matches. -/
theorem Joined.of_skip {target : Bytes} {before after : List (List Head)} {items out : List Head}
    (idle : Idle target (before ++ items :: after))
    (joined : Joined (before ++ skip target items :: after) out) :
    Joined (before ++ items :: after) out := by
  have counted : ∀ key,
      fewest key (before ++ skip target items :: after) = fewest key (before ++ items :: after) := by
    intro key
    by_cases lt : key < target
    · rw [fewest_of_idle idle lt, fewest_of_idle (idle_skip idle) lt]
    · unfold fewest
      simp only [List.map_append, List.map_cons, countP_skip (List.not_lt.mp lt)]
  constructor
  · refine joined.sublist.trans ?_
    cases before with
    | nil => exact List.dropWhile_sublist _
    | cons first before => exact List.Sublist.refl _
  · intro key
    rw [joined.matched key, counted]
    by_cases lt : key < target
    · rw [fewest_of_idle idle lt, List.take_zero, List.take_zero]
    · cases before with
      | nil =>
        simp only [List.nil_append, List.headD_cons, filter_skip (List.not_lt.mp lt)]
      | cons first before => rfl

/-- If all inputs start with one key, then every input has that key once more than its tail. -/
theorem fewest_of_level {target : Bytes} {inputs : List (List Head)} (filled : inputs ≠ [])
    (level : ∀ items ∈ inputs, ∃ head rest, items = head :: rest ∧ head.key = target)
    (key : Bytes) :
    fewest key inputs
      = fewest key (inputs.map List.tail) + if target = key then 1 else 0 := by
  have counted : ∀ items ∈ inputs, items.countP (·.key = key)
      = items.tail.countP (·.key = key) + if target = key then 1 else 0 := by
    intro items mem
    obtain ⟨head, rest, rfl, rfl⟩ := level items mem
    simp [List.countP_cons]
  obtain ⟨⟨items, mem, attained⟩, le⟩ := fewest_spec key inputs filled
  obtain ⟨⟨tail, tailMem, tailAttained⟩, tailLe⟩ :=
    fewest_spec key (inputs.map List.tail) (by simpa using filled)
  obtain ⟨items', mem', rfl⟩ := List.mem_map.mp tailMem
  have := tailLe items.tail (List.mem_map_of_mem mem)
  have := le items' mem'
  have := counted items mem
  have := counted items' mem'
  omega

/-- If all inputs start with one key, then the first item of the first input is a match, and the
other matches are those of the tails. -/
theorem Joined.cons {target : Bytes} {h : Head} {first : List Head} {others : List (List Head)}
    {out : List Head} (level : ∀ items ∈ (h :: first) :: others, ∃ head rest,
      items = head :: rest ∧ head.key = target)
    (joined : Joined (first :: others.map List.tail) out) :
    Joined ((h :: first) :: others) (h :: out) where
  sublist := List.Sublist.cons_cons h joined.sublist
  matched key := by
    obtain ⟨_, _, e, same⟩ := level _ List.mem_cons_self
    obtain ⟨rfl, rfl⟩ := List.cons.inj e
    have counted : fewest key ((h :: first) :: others)
        = fewest key (first :: others.map List.tail) + if target = key then 1 else 0 :=
      fewest_of_level (List.cons_ne_nil _ _) level key
    have matched : out.filter (·.key = key)
        = (first.filter (·.key = key)).take (fewest key (first :: others.map List.tail)) :=
      joined.matched key
    rw [counted, List.headD_cons, ← same]
    by_cases this : h.key = key
    · rw [if_pos this, List.filter_cons_of_pos (by simpa using this),
        List.filter_cons_of_pos (by simpa using this), List.take_succ_cons, matched]
    · rw [if_neg this, List.filter_cons_of_neg (by simpa using this),
        List.filter_cons_of_neg (by simpa using this), Nat.add_zero, matched]

end Head

/-! ## Lanes -/

namespace Lane

open Head (Joined Idle skip)

variable {σ : Type} [Cursor σ Statement QueryError] {mk : MergeKey} {c : Codec}

/-- A cursor hands out items with the given keys, in the order of their keys. -/
structure Feeds (mk : MergeKey) (c : Codec) (input : σ) (items : List Head) : Prop where
  yields : Yields input (items.map Head.statement)
  keyed : ∀ head ∈ items, mk.of c head.statement = .ok head.key
  ascending : items.Pairwise (·.key ≤ ·.key)

/-- A lane holds the first of its items, and its input hands out the others. -/
def Holds (mk : MergeKey) (c : Codec) (lane : Lane σ) (items : List Head) : Prop :=
  items.Pairwise (·.key ≤ ·.key)
    ∧ ∃ head rest, items = head :: rest ∧ lane.head = some head ∧ Feeds mk c lane.input rest

/-- The next read of a lane takes in its first item. -/
theorem advance_of_cons {lane : Lane σ} {items : List Head} {head : Head}
    (feeds : Feeds mk c lane.input (head :: items)) :
    ∃ moved, lane.advance mk c = (.ok true, moved) ∧ moved.Holds mk c (head :: items) := by
  obtain ⟨yields, keyed, ascending⟩ := feeds
  cases yields with
  | @item s s' i items' found rest =>
    refine ⟨{ lane with input := s', head := some head }, ?_, ascending, head, items, rfl, rfl,
      rest, fun h mem => keyed h (List.mem_cons_of_mem _ mem), ascending.of_cons⟩
    simp only [advance, found, keyed head List.mem_cons_self]

theorem advance_of_nil {lane : Lane σ} (feeds : Feeds mk c lane.input []) :
    ∃ moved, lane.advance mk c = (.ok false, moved) := by
  cases feeds.yields with
  | done found => exact ⟨_, by simp only [advance, found]; rfl⟩

/-- Reading on in every lane takes in the first item of each, unless an input is at its end. -/
theorem advanceAll_eq {lanes : List (Lane σ)} {inputs : List (List Head)}
    (feeds : List.Forall₂ (fun lane items => Feeds mk c lane.input items) lanes inputs) :
    ∃ moved, (advanceAll mk c lanes = (.ok true, moved) ∧ List.Forall₂ (Holds mk c) moved inputs)
      ∨ (advanceAll mk c lanes = (.ok false, moved) ∧ [] ∈ inputs) := by
  induction feeds with
  | nil => exact ⟨[], .inl ⟨rfl, .nil⟩⟩
  | @cons lane items lanes inputs first _ ih =>
    cases items with
    | nil =>
      obtain ⟨moved, read⟩ := advance_of_nil first
      exact ⟨moved :: lanes, .inr ⟨by simp only [advanceAll, read], List.mem_cons_self⟩⟩
    | cons head items =>
      obtain ⟨moved, read, holds⟩ := advance_of_cons first
      obtain ⟨others, ⟨reads, all⟩ | ⟨reads, ended⟩⟩ := ih
      · exact ⟨moved :: others, .inl ⟨by simp only [advanceAll, read, reads], .cons holds all⟩⟩
      · exact ⟨moved :: others,
          .inr ⟨by simp only [advanceAll, read, reads], List.mem_cons_of_mem _ ended⟩⟩

/-- Catching up with a key skips what is below it, up to the end of the input if there is nothing
else. -/
theorem catchUp_eq (target : Bytes) {lane : Lane σ} {items : List Head}
    (holds : lane.Holds mk c items) :
    ∃ moved, (lane.catchUp mk c target = (.ok true, moved) ∧ moved.Holds mk c (skip target items))
      ∨ (lane.catchUp mk c target = (.ok false, moved) ∧ skip target items = []) := by
  induction items generalizing lane with
  | nil =>
    obtain ⟨_, _, _, e, _⟩ := holds
    cases e
  | cons head items ih =>
    obtain ⟨_, _, e, held, feeds⟩ := holds.2
    obtain ⟨rfl, rfl⟩ := List.cons.inj e
    by_cases below : head.key < target
    · have dropped : skip target (head :: items) = skip target items :=
        List.dropWhile_cons_of_pos (decide_eq_true below)
      rw [catchUp_of_below held below, dropped]
      cases items with
      | nil =>
        obtain ⟨moved, read⟩ := advance_of_nil feeds
        exact ⟨moved, .inr ⟨by simp only [read], rfl⟩⟩
      | cons next items =>
        obtain ⟨moved, read, holds'⟩ := advance_of_cons feeds
        simp only [read]
        exact ih holds'
    · have kept : skip target (head :: items) = head :: items :=
        List.dropWhile_cons_of_neg (by simpa using below)
      rw [kept]
      refine ⟨lane, .inl ⟨catchUp_eq_self fun h e => ?_, holds⟩⟩
      rw [held] at e
      exact Option.some.inj e ▸ below

/-- None of the items of a lane is below the key that it holds. -/
theorem Holds.exists_head {lane : Lane σ} {items : List Head} (holds : lane.Holds mk c items) :
    ∃ head rest, items = head :: rest ∧ lane.head = some head
      ∧ ∀ h ∈ items, head.key ≤ h.key := by
  obtain ⟨ascending, head, rest, rfl, held, _⟩ := holds
  refine ⟨head, rest, rfl, held, fun h mem => ?_⟩
  rcases List.mem_cons.mp mem with rfl | mem
  · exact List.le_refl _
  · exact List.rel_of_pairwise_cons ascending mem

/-- A sweep from a key that one input has passed keeps the matches. It ends at a key that one input
has passed, unless an input is at its end. -/
theorem sweep_eq {target : Bytes} {lanes : List (Lane σ)} (before : List (List Head))
    {inputs : List (List Head)}
    (holds : List.Forall₂ (Holds mk c) lanes inputs) (idle : Idle target (before ++ inputs)) :
    (∃ reached moved inputs', sweep mk c target lanes = (.ok (some reached), moved)
        ∧ List.Forall₂ (Holds mk c) moved inputs' ∧ Idle reached (before ++ inputs')
        ∧ ∀ out, Joined (before ++ inputs') out → Joined (before ++ inputs) out)
      ∨ ∃ moved, sweep mk c target lanes = (.ok none, moved) ∧ Joined (before ++ inputs) [] := by
  induction holds generalizing target before with
  | nil =>
    exact .inl ⟨target, [], [], rfl, .nil, idle, fun _ => id⟩
  | @cons lane items lanes inputs first _ ih =>
    obtain ⟨moved, ⟨caught, holds⟩ | ⟨caught, ended⟩⟩ := catchUp_eq target first
    · obtain ⟨head, rest, e, held, least⟩ := holds.exists_head
      have raised : moved.raise target = head.key := raise_of_le held (Head.le_of_skip e)
      have front : before ++ skip target items :: inputs
          = (before ++ [skip target items]) ++ inputs := by
        rw [List.append_assoc, List.singleton_append]
      have passed : Idle head.key ((before ++ [skip target items]) ++ inputs) :=
        ⟨_, by simp, least⟩
      rcases ih _ passed with ⟨reached, others, inputs', swept, all, idle', back⟩
        | ⟨others, swept, joined⟩
      · refine .inl ⟨reached, moved :: others, skip target items :: inputs', ?_, .cons holds all,
          ?_, fun out joined => .of_skip idle ?_⟩
        · simp only [sweep, caught, raised, swept]
        · rwa [List.append_assoc, List.singleton_append] at idle'
        · rw [front]
          refine back out ?_
          rwa [List.append_assoc, List.singleton_append]
      · refine .inr ⟨moved :: others, by simp only [sweep, caught, raised, swept], .of_skip idle ?_⟩
        rwa [front]
    · refine .inr ⟨moved :: lanes, by simp only [sweep, caught], .of_skip idle ?_⟩
      rw [ended]
      exact .nil_of_ended (by simp)

/-- One of the inputs has passed the greatest key that the lanes hold. -/
theorem idle_of_greatest? {target : Bytes} {lanes : List (Lane σ)} {inputs : List (List Head)}
    (holds : List.Forall₂ (Holds mk c) lanes inputs) (top : greatest? lanes = some target) :
    Idle target inputs := by
  induction holds generalizing target with
  | nil => cases top
  | @cons lane items lanes inputs first _ ih =>
    obtain ⟨head, _, _, held, least⟩ := first.exists_head
    have own : Idle head.key (items :: inputs) := ⟨items, List.mem_cons_self, least⟩
    rw [greatest?] at top
    split at top
    · next best found =>
      obtain ⟨passed, mem, above⟩ := ih found
      cases top
      simp only [raise, held]
      split
      · exact own
      · exact ⟨passed, List.mem_cons_of_mem _ mem, above⟩
    · rw [held] at top
      cases top
      exact own

/-- What a sweep from the greatest key that the lanes hold has come to. -/
theorem sweep_of_greatest? {target : Bytes} {lanes moved : List (Lane σ)}
    {inputs : List (List Head)} {outcome : Except QueryError (Option Bytes)}
    (holds : List.Forall₂ (Holds mk c) lanes inputs)
    (top : greatest? lanes = some target) (swept : sweep mk c target lanes = (outcome, moved)) :
    (outcome = .ok none ∧ Joined inputs [])
      ∨ ∃ reached inputs', outcome = .ok (some reached)
        ∧ List.Forall₂ (Holds mk c) moved inputs'
        ∧ ∀ out, Joined inputs' out → Joined inputs out := by
  rcases sweep_eq [] holds (idle_of_greatest? holds top) with
    ⟨reached, moved', inputs', found, all, _, back⟩ | ⟨moved', found, joined⟩
  · rw [swept] at found
    cases found
    exact .inr ⟨reached, inputs', rfl, all, back⟩
  · rw [swept] at found
    cases found
    exact .inl ⟨rfl, joined⟩

/-- Bringing the keys together keeps the matches, and comes to an end without failing. -/
theorem align_eq {lanes : List (Lane σ)} {inputs : List (List Head)}
    (holds : List.Forall₂ (Holds mk c) lanes inputs) :
    (∃ moved inputs', align mk c lanes = (.ok true, moved)
        ∧ List.Forall₂ (Holds mk c) moved inputs'
        ∧ ∀ out, Joined inputs' out → Joined inputs out)
      ∨ ∃ moved, align mk c lanes = (.ok false, moved) ∧ Joined inputs [] := by
  fun_induction align mk c lanes generalizing inputs with
  | case1 lanes missing =>
    refine .inr ⟨lanes, rfl, ?_⟩
    cases holds with
    | nil => exact ⟨List.Sublist.refl _, fun _ => rfl⟩
    | cons first _ =>
      obtain ⟨head, _, _, held, _⟩ := first.exists_head
      rw [head_eq_none_of_greatest? missing _ List.mem_cons_self] at held
      cases held
  | case2 lanes target top e moved swept =>
    rcases sweep_of_greatest? holds top swept with ⟨found, _⟩ | ⟨_, _, found, _⟩
    · cases found
    · cases found
  | case3 lanes target top moved swept =>
    rcases sweep_of_greatest? holds top swept with ⟨_, joined⟩ | ⟨_, _, found, _⟩
    · exact .inr ⟨moved, rfl, joined⟩
    · cases found
  | case4 lanes target moved top swept =>
    rcases sweep_of_greatest? holds top swept with
      ⟨found, _⟩ | ⟨_, inputs', found, all, back⟩
    · cases found
    · cases found
      exact .inl ⟨moved, inputs', rfl, all, back⟩
  | case5 lanes target top reached moved swept ne ih =>
    rcases sweep_of_greatest? holds top swept with
      ⟨found, _⟩ | ⟨_, inputs', found, all, back⟩
    · cases found
    · rcases ih all with ⟨lanes', inputs'', aligned, all', back'⟩ | ⟨lanes', aligned, joined⟩
      · exact .inl ⟨lanes', inputs'', aligned, all', fun out joined => back out (back' out joined)⟩
      · exact .inr ⟨lanes', aligned, back [] joined⟩

end Lane

end TripleIndex
