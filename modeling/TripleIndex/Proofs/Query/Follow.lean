/-
  Merges of inputs that may fail, beside merges of inputs that do not. An input follows another one
  if it hands out the same statements up to a failure of its own (`Cursor.Follows`). Every step of a
  merge then comes to the same on both sides, or fails on the one (`Tracks`); a step is shown to do
  so by cases on the steps that it is made of.

  * `Merge.next_tracks`: one read of a merge.
  * `Merge.exists_delivers`: all reads of a merge, beside inputs that end where its own fail.
  * `Merge.prefix_of_delivers`: what is handed out is the front of what is without failures, and
    all of it if no read fails.
-/
import Mathlib
import TripleIndex.Proofs.Cursor.Reads
import TripleIndex.Proofs.Query.Merge

namespace TripleIndex

open Cursor (Yields Serves Delivers read read_zero cut cut_cons)

variable {σ τ : Type} [Cursor σ Statement QueryError] [Cursor τ Statement QueryError]
  {mk : MergeKey} {c : Codec} {may : QueryError → Prop} {strict : Prop}

/-- A cursor hands out statements with keys like another one, up to the end of both or to a failure
of its own that `may` be. In a `strict` comparison the other one is at its end there. -/
inductive Cursor.Follows (mk : MergeKey) (c : Codec) (may : QueryError → Prop) (strict : Prop) :
    σ → τ → Prop
  | item {s s' : σ} {t t' : τ} {i : Statement} {key : Bytes} : next s = (.ok (some i), s') →
      next t = (.ok (some i), t') → mk.of c i = .ok key → Follows mk c may strict s' t' →
      Follows mk c may strict s t
  | done {s s' : σ} {t t' : τ} : next s = (.ok none, s') → next t = (.ok none, t') →
      Follows mk c may strict s t
  | failed {s s' : σ} {t : τ} {e : QueryError} : next s = (.error e, s') → may e →
      (strict → (next t).1 = .ok none) → Follows mk c may strict s t

/-- A step comes to what the step beside it comes to, or fails as it `may`. In a `strict` comparison
the step beside a failing one comes to `last`, which is what steps come to at the end of an input. -/
inductive Tracks (may : QueryError → Prop) (strict : Prop) {α β γ : Type} (last : γ)
    (R : α → β → Prop) : Except QueryError γ × α → Except QueryError γ × β → Prop
  | go {b : γ} {s : α} {t : β} : R s t → Tracks may strict last R (.ok b, s) (.ok b, t)
  | stop {s : α} {t : β} : Tracks may strict last R (.ok last, s) (.ok last, t)
  | failed {e : QueryError} {s : α} {y : Except QueryError γ × β} : may e →
      (strict → y.1 = .ok last) → Tracks may strict last R (.error e, s) y

/-- A failure of the first part of a step is one of the step, if the step beside it ends where its
own first part does. -/
theorem Tracks.failed_after {α β β' γ γ' : Type} {last : γ} {last' : γ'} {R : α → β → Prop}
    {e : QueryError} {s : α} {y : Except QueryError γ × β'} {z : Except QueryError γ' × β}
    (allowed : may e) (ended : strict → y.1 = .ok last)
    (ends : ∀ t, y = (.ok last, t) → z.1 = .ok last') :
    Tracks may strict last' R (.error e, s) z := by
  refine .failed allowed fun isStrict => ?_
  obtain ⟨outcome, t⟩ := y
  obtain rfl : outcome = .ok last := ended isStrict
  exact ends t rfl

/-- A cursor that fails at some read follows one that hands out the items, or at least those before
the failing read; if it hands out no others, the comparison is strict. -/
theorem Cursor.Serves.follows {items rest : List Statement} {failAt : Option Nat} {s : σ} {t : τ}
    (serves : Serves s items failAt) (yields : Yields t rest) (front : cut failAt items <+: rest)
    (whole : rest <+: items) (exact : strict → rest = cut failAt items)
    (keyed : ∀ i ∈ items, ∃ key, mk.of c i = .ok key)
    (errors : ∀ k ∈ failAt, ∀ e, read s k = .error e → may e) :
    Follows mk c may strict s t := by
  induction items generalizing s t rest failAt with
  | nil =>
    obtain rfl := List.prefix_nil.mp whole
    cases yields with
    | done found' =>
      by_cases now : failAt = some 0
      · subst now
        obtain ⟨e, s', found⟩ := serves.next_of_zero
        exact .failed found (errors 0 rfl e (read_zero found)) fun _ => by rw [found']
      · obtain ⟨s', found, _⟩ := serves.next_of_later fun k mem =>
          Nat.pos_of_ne_zero fun zero => now (zero ▸ mem)
        exact .done found found'
  | cons i items ih =>
    by_cases now : failAt = some 0
    · subst now
      obtain ⟨e, s', found⟩ := serves.next_of_zero
      refine .failed found (errors 0 rfl e (read_zero found)) fun isStrict => ?_
      have none : rest = [] := exact isStrict
      subst none
      cases yields with
      | done found' => rw [found']
    · have later : ∀ k ∈ failAt, 0 < k := fun k mem =>
        Nat.pos_of_ne_zero fun zero => now (zero ▸ mem)
      obtain ⟨s', found, tail, reads⟩ := serves.next_of_later later
      rw [cut_cons later] at front exact
      obtain ⟨rest, rfl⟩ : ∃ others, rest = i :: others := by
        obtain ⟨others, rfl⟩ := front
        exact ⟨_, rfl⟩
      obtain ⟨key, hk⟩ := keyed i List.mem_cons_self
      cases yields with
      | item found' yields =>
        refine .item found found' hk (ih tail yields (List.cons_prefix_cons.mp front).2
          (List.cons_prefix_cons.mp whole).2 (fun isStrict => (List.cons.inj (exact isStrict)).2)
          (fun i mem => keyed i (List.mem_cons_of_mem _ mem)) ?_)
        intro k mem e failed
        obtain ⟨first, own, rfl⟩ := Option.mem_map.mp mem
        rw [reads, ← Nat.succ_eq_add_one, Nat.succ_pred_eq_of_pos (later first own)] at failed
        exact errors first own e failed

/-! ## Lanes -/

namespace Lane

/-- A lane holds what another one holds, and its input follows that of the other one. -/
structure Follows (mk : MergeKey) (c : Codec) (may : QueryError → Prop) (strict : Prop)
    (lane : Lane σ) (lane' : Lane τ) : Prop where
  head : lane.head = lane'.head
  input : Cursor.Follows mk c may strict lane.input lane'.input

theorem Follows.raise_eq {lane : Lane σ} {lane' : Lane τ} (h : lane.Follows mk c may strict lane')
    (target : Bytes) : lane.raise target = lane'.raise target := by
  unfold raise
  rw [h.head]

theorem greatest?_eq {lanes : List (Lane σ)} {lanes' : List (Lane τ)}
    (h : List.Forall₂ (Follows mk c may strict) lanes lanes') :
    greatest? lanes = greatest? lanes' := by
  induction h with
  | nil => rfl
  | cons first _ ih =>
    rw [greatest?, greatest?, ih, first.head]
    cases greatest? _ with
    | none => rfl
    | some best => simp only [first.raise_eq best]

theorem advance_tracks {lane : Lane σ} {lane' : Lane τ} (h : lane.Follows mk c may strict lane') :
    Tracks may strict false (Follows mk c may strict) (lane.advance mk c) (lane'.advance mk c) := by
  obtain ⟨_, input⟩ := h
  unfold advance
  cases input with
  | item found found' keyed later =>
    simp only [found, found', keyed]
    exact .go ⟨rfl, later⟩
  | done found found' =>
    simp only [found, found']
    exact .stop
  | failed found allowed ended =>
    simp only [found]
    exact .failed_after allowed ended fun _ found' => by rw [found']

theorem advanceAll_tracks {lanes : List (Lane σ)} {lanes' : List (Lane τ)}
    (h : List.Forall₂ (Follows mk c may strict) lanes lanes') :
    Tracks may strict false (List.Forall₂ (Follows mk c may strict)) (advanceAll mk c lanes)
      (advanceAll mk c lanes') := by
  induction h with
  | nil => exact .go .nil
  | @cons lane lane' lanes lanes' first _ ih =>
    have step := advance_tracks first
    rw [advanceAll, advanceAll]
    generalize lane.advance mk c = x at step ⊢
    generalize lane'.advance mk c = y at step ⊢
    cases step with
    | @go b moved moved' follows =>
      cases b with
      | false => exact .stop
      | true =>
        simp only
        generalize advanceAll mk c lanes = xs at ih ⊢
        generalize advanceAll mk c lanes' = ys at ih ⊢
        cases ih with
        | go all => exact .go (.cons follows all)
        | stop => exact .stop
        | failed allowed ended => exact .failed allowed ended
    | stop => exact .stop
    | failed allowed ended => exact .failed_after allowed ended fun _ found => by rw [found]

theorem catchUp_tracks (target : Bytes) {lane : Lane σ} {lane' : Lane τ}
    (h : lane.Follows mk c may strict lane') :
    Tracks may strict false (Follows mk c may strict) (lane.catchUp mk c target)
      (lane'.catchUp mk c target) := by
  fun_induction catchUp mk c target lane generalizing lane' with
  | case1 lane held =>
    rw [catchUp_eq_self fun head held' => by rw [← h.head, held] at held'; cases held']
    exact .go h
  | case2 lane head held below moved read ih =>
    have step := advance_tracks h
    rw [catchUp_of_below (h.head.symm.trans held) below]
    rw [read] at step
    generalize lane'.advance mk c = y at step ⊢
    cases step with
    | go follows => exact ih follows
  | case3 lane head held below outcome moved other read =>
    have step := advance_tracks h
    rw [catchUp_of_below (h.head.symm.trans held) below]
    rw [read] at step
    generalize lane'.advance mk c = y at step ⊢
    cases step with
    | @go b _ _ _ =>
      cases b with
      | false => exact .stop
      | true => exact absurd rfl other
    | stop => exact .stop
    | failed allowed ended => exact .failed_after allowed ended fun _ found => by rw [found]
  | case4 lane head held level =>
    rw [catchUp_eq_self fun head' held' => by
      rw [← h.head, held] at held'
      exact Option.some.inj held' ▸ level]
    exact .go h

theorem sweep_tracks (target : Bytes) {lanes : List (Lane σ)} {lanes' : List (Lane τ)}
    (h : List.Forall₂ (Follows mk c may strict) lanes lanes') :
    Tracks may strict none (List.Forall₂ (Follows mk c may strict)) (sweep mk c target lanes)
      (sweep mk c target lanes') := by
  induction h generalizing target with
  | nil => exact .go .nil
  | @cons lane lane' lanes lanes' first _ ih =>
    have step := catchUp_tracks target first
    rw [sweep, sweep]
    generalize lane.catchUp mk c target = x at step ⊢
    generalize lane'.catchUp mk c target = y at step ⊢
    cases step with
    | @go b moved moved' follows =>
      cases b with
      | false => exact .stop
      | true =>
        have rest := ih (moved.raise target)
        simp only [← follows.raise_eq target]
        generalize sweep mk c (moved.raise target) lanes = xs at rest ⊢
        generalize sweep mk c (moved.raise target) lanes' = ys at rest ⊢
        cases rest with
        | go all => exact .go (.cons follows all)
        | stop => exact .stop
        | failed allowed ended => exact .failed allowed ended
    | stop => exact .stop
    | failed allowed ended => exact .failed_after allowed ended fun _ found => by rw [found]

theorem align_of_none {lanes : List (Lane σ)} (top : greatest? lanes = none) :
    align mk c lanes = (.ok false, lanes) := by
  rw [align]
  split
  · rfl
  · next found => rw [top] at found; cases found

/-- Lanes are swept up to their greatest key until a sweep stays at it. -/
theorem align_of_some {lanes : List (Lane σ)} {target : Bytes} (top : greatest? lanes = some target) :
    align mk c lanes = match sweep mk c target lanes with
      | (.error e, moved) => (.error e, moved)
      | (.ok none, moved) => (.ok false, moved)
      | (.ok (some reached), moved) =>
        if reached = target then (.ok true, moved) else align mk c moved := by
  rw [align]
  split
  · next found => rw [top] at found; cases found
  · next found =>
    rw [top] at found
    cases found
    split <;> next swept => simp only [swept]

theorem align_tracks {lanes : List (Lane σ)} {lanes' : List (Lane τ)}
    (h : List.Forall₂ (Follows mk c may strict) lanes lanes') :
    Tracks may strict false (List.Forall₂ (Follows mk c may strict)) (align mk c lanes)
      (align mk c lanes') := by
  fun_induction align mk c lanes generalizing lanes' with
  | case1 lanes top =>
    rw [align_of_none ((greatest?_eq h).symm.trans top)]
    exact .stop
  | case2 lanes target top e moved swept =>
    have step := sweep_tracks target h
    rw [align_of_some ((greatest?_eq h).symm.trans top)]
    rw [swept] at step
    generalize sweep mk c target lanes' = y at step ⊢
    cases step with
    | failed allowed ended => exact .failed_after allowed ended fun _ found => by rw [found]
  | case3 lanes target top moved swept =>
    have step := sweep_tracks target h
    rw [align_of_some ((greatest?_eq h).symm.trans top)]
    rw [swept] at step
    generalize sweep mk c target lanes' = y at step ⊢
    cases step with
    | go all => exact .stop
    | stop => exact .stop
  | case4 lanes target moved top swept =>
    have step := sweep_tracks target h
    rw [align_of_some ((greatest?_eq h).symm.trans top)]
    rw [swept] at step
    generalize sweep mk c target lanes' = y at step ⊢
    cases step with
    | go all =>
      simp only [if_true]
      exact .go all
  | case5 lanes target top reached moved swept ne ih =>
    have step := sweep_tracks target h
    rw [align_of_some ((greatest?_eq h).symm.trans top)]
    rw [swept] at step
    generalize sweep mk c target lanes' = y at step ⊢
    cases step with
    | go all =>
      simp only [if_neg ne]
      exact ih all

end Lane

/-! ## Merges -/

namespace Merge

/-- Two merges that look for matches in the same way, the lanes of the one following those of the
other. -/
structure Follows (mk : MergeKey) (c : Codec) (may : QueryError → Prop) (strict : Prop)
    (m : Merge σ) (m' : Merge τ) : Prop where
  keys : m.key = mk ∧ m'.key = mk
  codecs : m.codec = c ∧ m'.codec = c
  states : m.state = m'.state
  pendings : m.pending = m'.pending
  running : m.state ≠ .exhausted
  opened : m.closed = false ∧ m'.closed = false
  lanes : List.Forall₂ (Lane.Follows mk c may strict) m.lanes m'.lanes

theorem follows_ofInputs {cursors : List σ} {others : List τ}
    (h : List.Forall₂ (Cursor.Follows mk c may strict) cursors others) :
    Follows mk c may strict (ofInputs mk c cursors) (ofInputs mk c others) where
  keys := ⟨rfl, rfl⟩
  codecs := ⟨rfl, rfl⟩
  states := rfl
  pendings := rfl
  running := nofun
  opened := ⟨rfl, rfl⟩
  lanes := List.forall₂_map_left_iff.mpr (List.forall₂_map_right_iff.mpr
    (h.imp fun _ _ follows => ⟨rfl, follows⟩))

/-- A merge that ended and was not closed finds nothing more. -/
theorem read_of_exhausted {m : Merge σ} (ended : m.state = .exhausted) (opened : m.closed = false)
    (n : Nat) : read m n = .ok none := by
  refine Cursor.read_of_rest ?_ n
  change m.next = _
  rw [next_of_exhausted ended, opened]
  rfl

theorem seek_tracks {m : Merge σ} {m' : Merge τ} (h : Follows mk c may strict m m') :
    Tracks may strict false (List.Forall₂ (Lane.Follows mk c may strict)) m.seek m'.seek := by
  obtain ⟨⟨hk, hk'⟩, ⟨hc, hc'⟩, states, pendings, _, _, lanes⟩ := h
  unfold seek
  rw [hk, hk', hc, hc', states, pendings]
  split
  · have step := Lane.advanceAll_tracks lanes
    generalize Lane.advanceAll mk c m.lanes = x at step ⊢
    generalize Lane.advanceAll mk c m'.lanes = y at step ⊢
    cases step with
    | @go b _ _ all =>
      cases b with
      | false => exact .stop
      | true => exact Lane.align_tracks all
    | stop => exact .stop
    | failed allowed ended => exact .failed_after allowed ended fun _ found => by rw [found]
  · exact Lane.align_tracks lanes

/-- Lanes that hold the same give away the same. -/
theorem takeFirst_follows {lanes : List (Lane σ)} {lanes' : List (Lane τ)}
    (h : List.Forall₂ (Lane.Follows mk c may strict) lanes lanes') :
    (Lane.takeFirst lanes).1 = (Lane.takeFirst lanes').1
      ∧ List.Forall₂ (Lane.Follows mk c may strict) (Lane.takeFirst lanes).2
        (Lane.takeFirst lanes').2 := by
  cases h with
  | nil => exact ⟨rfl, .nil⟩
  | cons first others =>
    exact ⟨congrArg (Option.map Head.statement) first.head, .cons ⟨rfl, first.input⟩ others⟩

/-- A read finds what the read beside it finds, and both merges go on or both end; or it fails and
its merge ends. -/
theorem next_tracks {m : Merge σ} {m' : Merge τ} (h : Follows mk c may strict m m') :
    (∃ found t t', Cursor.next m = (.ok found, t) ∧ Cursor.next m' = (.ok found, t')
        ∧ t.state = t'.state ∧ t.closed = false
        ∧ (t.state = .exhausted ∧ found = none ∨ Follows mk c may strict t t'))
      ∨ ∃ e t, Cursor.next m = (.error e, t) ∧ may e ∧ t.state = .exhausted ∧ t.closed = false
        ∧ (strict → (Cursor.next m').1 = .ok none) := by
  have pulled : Cursor.next m = m.pull := by
    change m.next = _
    rw [next, h.opened.1]
    rfl
  have pulled' : Cursor.next m' = m'.pull := by
    change m'.next = _
    rw [next, h.opened.2]
    rfl
  have step := seek_tracks h
  rw [pulled, pulled', pull, pull, if_neg h.running, if_neg (h.states ▸ h.running)]
  generalize m.seek = x at step ⊢
  generalize m'.seek = y at step ⊢
  cases step with
  | @go b lanes lanes' all =>
    cases b with
    | false => exact .inl ⟨none, _, _, rfl, rfl, rfl, h.opened.1, .inl ⟨rfl, rfl⟩⟩
    | true =>
      obtain ⟨same, later⟩ := takeFirst_follows all
      have running : MergeState.checking ≠ .exhausted := by decide
      refine .inl ⟨(Lane.takeFirst lanes).1,
        { m with lanes := (Lane.takeFirst lanes).2, state := .checking, pending := true },
        { m' with lanes := (Lane.takeFirst lanes').2, state := .checking, pending := true },
        rfl, ?_, rfl, h.opened.1, .inr ⟨h.keys, h.codecs, rfl, rfl, running, h.opened, later⟩⟩
      rw [same]
  | stop => exact .inl ⟨none, _, _, rfl, rfl, rfl, h.opened.1, .inl ⟨rfl, rfl⟩⟩
  | failed allowed ended =>
    refine .inr ⟨_, _, rfl, allowed, rfl, h.opened.1, fun isStrict => ?_⟩
    obtain ⟨outcome, lanes'⟩ := y
    obtain rfl : outcome = .ok false := ended isStrict
    rfl

/-- Beside inputs that end where its own fail, a merge hands out the same, and then finds nothing
or fails. -/
theorem exists_delivers {m : Merge σ} {m' : Merge τ} {inputs : List (List Head)}
    {out : List Statement} (yields : Yields m' out) (moving : m'.Moving inputs)
    (follows : Follows mk c may True m m') :
    ∃ ending, Delivers m out ending ∧ ∀ e ∈ ending, may e := by
  induction yields generalizing m inputs with
  | @done m' t' found =>
    have ended : t'.state = .exhausted := by
      rcases next_eq moving with ⟨_, _, _, found', _⟩ | ⟨_, found', ended, _⟩
      · rw [found] at found'
        cases found'
      · rw [found] at found'
        cases found'
        exact ended
    rcases next_tracks follows with
      ⟨_, t, _, read, read', states, opened, _⟩ | ⟨e, t, read, allowed, last, opened, _⟩
    · rw [found] at read'
      cases read'
      exact ⟨none, .done read (read_of_exhausted (states.trans ended) opened), nofun⟩
    · exact ⟨some e, .failed read (read_of_exhausted last opened), by rintro _ ⟨⟩; exact allowed⟩
  | @item m' t' i items found _ ih =>
    rcases next_tracks follows with
      ⟨_, t, _, read, read', _, _, ⟨_, none⟩ | later⟩ | ⟨_, _, _, _, _, _, ended⟩
    · rw [found, none] at read'
      cases read'
    · rw [found] at read'
      cases read'
      rcases next_eq moving with ⟨head, _, inputs', found', moving', _⟩ | ⟨_, found', _⟩
      · rw [found] at found'
        cases found'
        obtain ⟨ending, delivers, allowed⟩ := ih moving' later
        exact ⟨ending, .item read delivers, allowed⟩
      · rw [found] at found'
        cases found'
    · have ended := ended trivial
      rw [found] at ended
      cases ended

/-- Beside inputs that do not fail, a merge hands out the front of what is handed out there, and all
of it if it does not fail itself. -/
theorem prefix_of_delivers {m : Merge σ} {m' : Merge τ} {out all : List Statement}
    {ending : Option QueryError} (delivers : Delivers m out ending) (yields : Yields m' all)
    (follows : Follows mk c may False m m') : out <+: all ∧ (ending = none → out = all) := by
  induction delivers generalizing m' all with
  | done found =>
    refine ⟨List.nil_prefix, fun _ => ?_⟩
    rcases next_tracks follows with ⟨_, _, _, read, read', _⟩ | ⟨_, _, read, _⟩
    · rw [found] at read
      cases read
      cases yields with
      | done _ => rfl
      | item found' _ => rw [read'] at found'; cases found'
    · rw [found] at read
      cases read
  | failed => exact ⟨List.nil_prefix, nofun⟩
  | item found _ ih =>
    rcases next_tracks follows with
      ⟨_, _, _, read, read', _, _, ⟨_, none⟩ | later⟩ | ⟨_, _, read, _⟩
    · rw [found, none] at read
      cases read
    · rw [found] at read
      cases read
      cases yields with
      | done found' => rw [read'] at found'; cases found'
      | item found' yields =>
        rw [read'] at found'
        cases found'
        obtain ⟨front, whole⟩ := ih yields later
        exact ⟨List.cons_prefix_cons.mpr ⟨rfl, front⟩, fun none => by rw [whole none]⟩
    · rw [found] at read
      cases read

end Merge

end TripleIndex
