/-
  What a search for a match makes of the lanes, whatever their inputs hand out. It changes lanes by
  reads alone (`Lane.Steps`): every lane takes in some items, and in at most one of them a read that
  finds nothing or fails then ends the search (`Lane.Round`). A search that succeeds leaves all
  lanes at one key.

  * `Merge.seek_round`: the reads of a search.
  * `Merge.Live.next_cases`: what a read of a merge comes to.
-/
import Mathlib
import TripleIndex.Query.Merge

namespace TripleIndex

variable {σ : Type} [Cursor σ Statement QueryError] {mk : MergeKey} {c : Codec}
  {x : Except QueryError Bool}

/-- Of two lists related member by member, each member of the second has one of the first that is
related to it. -/
theorem exists_mem_of_forall₂ {α β : Type} {R : α → β → Prop} {as : List α} {bs : List β}
    (h : List.Forall₂ R as bs) {b : β} (mem : b ∈ bs) : ∃ a ∈ as, R a b := by
  induction h with
  | nil => cases mem
  | cons own _ ih =>
    rcases List.mem_cons.mp mem with rfl | mem
    · exact ⟨_, List.mem_cons_self, own⟩
    · obtain ⟨a, listed, related⟩ := ih mem
      exact ⟨a, List.mem_cons_of_mem _ listed, related⟩

theorem forall₂_trans {α β γ : Type} {R : α → β → Prop} {S : β → γ → Prop} {T : α → γ → Prop}
    (combine : ∀ a b c, R a b → S b c → T a c) {as : List α} {bs : List β} {cs : List γ}
    (h : List.Forall₂ R as bs) (h' : List.Forall₂ S bs cs) : List.Forall₂ T as cs := by
  induction h generalizing cs with
  | nil => cases h'; exact .nil
  | cons own _ ih =>
    cases h' with
    | cons own' rest => exact .cons (combine _ _ _ own own') (ih rest)

namespace Lane

/-! ## Reads of one lane -/

/-- A read takes an item into the lane. -/
def Gains (mk : MergeKey) (c : Codec) (lane moved : Lane σ) : Prop :=
  lane.advance mk c = (.ok true, moved)

/-- Reads of a lane that take in items, up to the last, which comes to what they all come to. -/
inductive Steps (mk : MergeKey) (c : Codec) : Lane σ → Except QueryError Bool → Lane σ → Prop
  | rest {lane : Lane σ} : Steps mk c lane (.ok true) lane
  | last {lane moved : Lane σ} {x : Except QueryError Bool} : lane.advance mk c = (x, moved) →
      Steps mk c lane x moved
  | more {lane next moved : Lane σ} {x : Except QueryError Bool} : lane.Gains mk c next →
      Steps mk c next x moved → Steps mk c lane x moved

theorem Steps.trans {lane next moved : Lane σ} (first : Steps mk c lane (.ok true) next)
    (later : Steps mk c next x moved) : Steps mk c lane x moved := by
  generalize outcome : (Except.ok true : Except QueryError Bool) = y at first
  induction first with
  | rest => exact later
  | last read =>
    subst outcome
    exact .more read later
  | more gains _ ih => exact .more gains (ih later outcome)

theorem Gains.held {lane moved : Lane σ} (h : lane.Gains mk c moved) : moved.head.isSome := by
  unfold Gains advance at h
  split at h
  · cases h
  · cases h
  · split at h <;> cases h
    rfl

/-- A lane that holds an item and takes in others holds one. -/
theorem Steps.held {lane moved : Lane σ} (h : Steps mk c lane (.ok true) moved)
    (held : lane.head.isSome) : moved.head.isSome := by
  generalize outcome : (Except.ok true : Except QueryError Bool) = y at h
  induction h with
  | rest => exact held
  | last read =>
    subst outcome
    exact Gains.held read
  | more gains _ ih => exact ih gains.held outcome

theorem catchUp_steps (mk : MergeKey) (c : Codec) (target : Bytes) (lane : Lane σ) :
    Steps mk c lane (lane.catchUp mk c target).1 (lane.catchUp mk c target).2 := by
  fun_induction catchUp mk c target lane with
  | case1 => exact .rest
  | case2 lane head held below moved read ih => exact .more read ih
  | case3 lane head held below outcome moved _ read => exact .last read
  | case4 => exact .rest

omit [Cursor σ Statement QueryError] in
theorem raise_of_le {target : Bytes} {lane : Lane σ} {head : Head} (held : lane.head = some head)
    (le : target ≤ head.key) : lane.raise target = head.key := by
  simp only [raise, held]
  split
  · rfl
  · next level => exact List.le_antisymm le (List.not_lt.mp level)

/-- A lane that has caught up with a key holds nothing below it. -/
theorem le_of_catchUp {target : Bytes} {lane moved : Lane σ}
    (caught : lane.catchUp mk c target = (.ok true, moved)) :
    ∀ head ∈ moved.head, target ≤ head.key := by
  fun_induction catchUp mk c target lane with
  | case1 lane none =>
    cases caught
    rw [none]
    rintro _ ⟨⟩
  | case2 lane head held below next read ih => exact ih caught
  | case3 lane head held below outcome next other read =>
    cases caught
    exact absurd rfl other
  | case4 lane head held level =>
    cases caught
    rw [held]
    rintro _ ⟨⟩
    exact List.not_lt.mp level

/-! ## Reads of all lanes -/

/-- Reads of lanes that take in items, up to one that ends the search with the outcome. -/
structure Round (mk : MergeKey) (c : Codec) (lanes : List (Lane σ))
    (result : Except QueryError Bool × List (Lane σ)) : Prop where
  steps : List.Forall₂ (fun lane moved => Steps mk c lane (.ok true) moved
    ∨ Steps mk c lane result.1 moved) lanes result.2
  /-- A failure is that of a read. -/
  failed : ∀ e, result.1 = .error e → ∃ lane ∈ lanes, ∃ moved, Steps mk c lane (.error e) moved

namespace Round

theorem rest {lanes : List (Lane σ)} {found : Bool} : Round mk c lanes (.ok found, lanes) where
  steps := List.forall₂_same.mpr fun _ _ => .inl .rest
  failed := nofun

/-- The lane that ends a round leaves those behind it as they are. -/
theorem stop {lane moved : Lane σ} (own : Steps mk c lane x moved) (lanes : List (Lane σ)) :
    Round mk c (lane :: lanes) (x, moved :: lanes) where
  steps := .cons (.inr own) (List.forall₂_same.mpr fun _ _ => .inl .rest)
  failed := by
    rintro e rfl
    exact ⟨lane, List.mem_cons_self, moved, own⟩

theorem cons {lane moved : Lane σ} {lanes others : List (Lane σ)}
    (own : Steps mk c lane (.ok true) moved) (round : Round mk c lanes (x, others)) :
    Round mk c (lane :: lanes) (x, moved :: others) where
  steps := .cons (.inl own) round.steps
  failed e h := by
    obtain ⟨failing, mem, steps⟩ := round.failed e h
    exact ⟨failing, List.mem_cons_of_mem _ mem, steps⟩

/-- In a round that succeeds every lane only takes in items. -/
theorem all {lanes moved : List (Lane σ)} (h : Round mk c lanes (.ok true, moved)) :
    List.Forall₂ (fun lane moved => Steps mk c lane (.ok true) moved) lanes moved :=
  h.steps.imp fun _ _ steps => steps.elim id id

theorem trans {lanes next moved : List (Lane σ)} (first : Round mk c lanes (.ok true, next))
    (later : Round mk c next (x, moved)) : Round mk c lanes (x, moved) := by
  constructor
  · exact forall₂_trans (fun _ _ _ own steps => steps.imp own.trans own.trans) first.all later.steps
  · intro e h
    obtain ⟨failing, mem, last, failure⟩ := later.failed e h
    obtain ⟨lane, listed, gains⟩ := exists_mem_of_forall₂ first.all mem
    exact ⟨lane, listed, last, gains.trans failure⟩

end Round

theorem advanceAll_round (mk : MergeKey) (c : Codec) (lanes : List (Lane σ)) :
    Round mk c lanes (advanceAll mk c lanes) := by
  induction lanes with
  | nil => exact .rest
  | cons lane lanes ih =>
    unfold advanceAll
    split
    · next read => exact .cons (.last read) ih
    · next read => exact .stop (.last read) lanes

/-- Reading on in every lane takes one item into each. -/
theorem gains_of_advanceAll {lanes moved : List (Lane σ)}
    (h : advanceAll mk c lanes = (.ok true, moved)) : List.Forall₂ (Gains mk c) lanes moved := by
  induction lanes generalizing moved with
  | nil => cases h; exact .nil
  | cons lane lanes ih =>
    unfold advanceAll at h
    split at h
    · next next read =>
      obtain ⟨outcome, rfl⟩ := Prod.mk.inj h
      exact .cons read (ih (Prod.ext outcome rfl))
    · next other read =>
      cases h
      exact absurd rfl other

theorem held_of_gains {lanes moved : List (Lane σ)} (h : List.Forall₂ (Gains mk c) lanes moved) :
    ∀ lane ∈ moved, lane.head.isSome := by
  intro lane mem
  obtain ⟨before, -, gained⟩ := exists_mem_of_forall₂ h mem
  exact gained.held

theorem sweep_round (mk : MergeKey) (c : Codec) (target : Bytes) (lanes : List (Lane σ)) :
    Round mk c lanes
      ((sweep mk c target lanes).1.map Option.isSome, (sweep mk c target lanes).2) := by
  induction lanes generalizing target with
  | nil => exact .rest
  | cons lane lanes ih =>
    have own := catchUp_steps mk c target lane
    unfold sweep
    split
    · next caught => rw [caught] at own; exact .stop own lanes
    · next caught => rw [caught] at own; exact .stop own lanes
    · next moved caught => rw [caught] at own; exact .cons own (ih (moved.raise target))

theorem align_round (mk : MergeKey) (c : Codec) (lanes : List (Lane σ)) :
    Round mk c lanes (align mk c lanes) := by
  fun_induction align mk c lanes with
  | case1 => exact .rest
  | case2 lanes target top e moved swept =>
    have round := sweep_round mk c target lanes
    rwa [swept] at round
  | case3 lanes target top moved swept =>
    have round := sweep_round mk c target lanes
    rwa [swept] at round
  | case4 lanes target moved top swept =>
    have round := sweep_round mk c target lanes
    rwa [swept] at round
  | case5 lanes target top reached moved swept ne ih =>
    have round := sweep_round mk c target lanes
    rw [swept] at round
    exact round.trans ih

/-! ## Lanes at one key -/

/-- The lane holds a key between two others. -/
def Within (lower upper : Bytes) (lane : Lane σ) : Prop :=
  ∃ head, lane.head = some head ∧ lower ≤ head.key ∧ head.key ≤ upper

/-- A sweep that reaches a key leaves all lanes between it and the key that it set out from. -/
theorem sweep_within {target reached : Bytes} {lanes moved : List (Lane σ)}
    (held : ∀ lane ∈ lanes, lane.head.isSome)
    (swept : sweep mk c target lanes = (.ok (some reached), moved)) :
    target ≤ reached ∧ ∀ lane ∈ moved, lane.Within target reached := by
  induction lanes generalizing target moved with
  | nil =>
    cases swept
    exact ⟨List.le_refl _, List.forall_mem_nil _⟩
  | cons lane lanes ih =>
    have own := catchUp_steps mk c target lane
    unfold sweep at swept
    split at swept
    · cases swept
    · cases swept
    · next next caught =>
      rw [caught] at own
      obtain ⟨outcome, rfl⟩ := Prod.mk.inj swept
      obtain ⟨head, holds⟩ := Option.isSome_iff_exists.mp (own.held (held lane List.mem_cons_self))
      have le : target ≤ head.key := le_of_catchUp caught head holds
      rw [raise_of_le holds le] at outcome ⊢
      obtain ⟨le', within⟩ := ih (fun l mem => held l (List.mem_cons_of_mem _ mem))
        (Prod.ext outcome rfl)
      refine ⟨List.le_trans le le', List.forall_mem_cons.mpr
        ⟨⟨head, holds, le, le'⟩, fun l mem => ?_⟩⟩
      obtain ⟨h, holds', lower, upper⟩ := within l mem
      exact ⟨h, holds', List.le_trans le lower, upper⟩

/-- Lanes whose keys were brought together hold one key. -/
theorem align_level {lanes moved : List (Lane σ)} (held : ∀ lane ∈ lanes, lane.head.isSome)
    (aligned : align mk c lanes = (.ok true, moved)) :
    ∃ target, ∀ lane ∈ moved, ∃ head, lane.head = some head ∧ head.key = target := by
  fun_induction align mk c lanes with
  | case1 => cases aligned
  | case2 => cases aligned
  | case3 => cases aligned
  | case4 lanes target next top swept =>
    cases aligned
    refine ⟨target, fun lane mem => ?_⟩
    obtain ⟨head, holds, lower, upper⟩ := (sweep_within held swept).2 lane mem
    exact ⟨head, holds, List.le_antisymm upper lower⟩
  | case5 lanes target top reached next swept ne ih =>
    refine ih (fun lane mem => ?_) aligned
    obtain ⟨head, holds, _⟩ := (sweep_within held swept).2 lane mem
    exact Option.isSome_iff_exists.mpr ⟨head, holds⟩

theorem ne_nil_of_align {lanes moved : List (Lane σ)}
    (aligned : align mk c lanes = (.ok true, moved)) : moved ≠ [] := by
  rintro rfl
  have round := align_round mk c lanes
  rw [aligned] at round
  obtain rfl := List.forall₂_nil_right_iff.mp round.all
  rw [align] at aligned
  cases aligned

end Lane

/-! ## Searches -/

namespace Merge

theorem seek_round (m : Merge σ) : Lane.Round m.key m.codec m.lanes m.seek := by
  unfold seek
  split
  · have round := Lane.advanceAll_round m.key m.codec m.lanes
    split
    · next read =>
      rw [read] at round
      exact round.trans (Lane.align_round _ _ _)
    · next read => rwa [read] at round
  · exact Lane.align_round _ _ _

/-- A read of a merge that ended leaves it as it is. -/
theorem next_of_exhausted {m : Merge σ} (ended : m.state = .exhausted) :
    m.next = (if m.closed then .error .cursorClosed else .ok none, m) := by
  unfold next pull
  rw [if_pos ended]
  split <;> rfl

/-- The merge still looks for matches, and has to move on in every lane to find the next one. -/
structure Live (m : Merge σ) : Prop where
  opened : m.closed = false
  running : m.state ≠ .exhausted
  behind : m.state = .start ∨ m.pending

/-- A search that succeeds first takes one item into every lane. -/
theorem Live.seek_gains {m : Merge σ} (live : m.Live) {moved : List (Lane σ)}
    (found : m.seek = (.ok true, moved)) :
    ∃ next, List.Forall₂ (Lane.Gains m.key m.codec) m.lanes next
      ∧ Lane.align m.key m.codec next = (.ok true, moved) := by
  unfold seek at found
  rw [if_pos live.behind] at found
  split at found
  · next next read => exact ⟨next, Lane.gains_of_advanceAll read, found⟩
  · next other read =>
    cases found
    exact absurd rfl other

/-- A search that succeeds leaves all lanes at one key. -/
theorem Live.seek_level {m : Merge σ} (live : m.Live) {moved : List (Lane σ)}
    (found : m.seek = (.ok true, moved)) :
    ∃ first others head, moved = first :: others ∧ first.head = some head
      ∧ ∀ lane ∈ moved, ∃ held, lane.head = some held ∧ held.key = head.key := by
  obtain ⟨next, gains, aligned⟩ := live.seek_gains found
  obtain ⟨target, level⟩ := Lane.align_level (Lane.held_of_gains gains) aligned
  cases moved with
  | nil => exact absurd rfl (Lane.ne_nil_of_align aligned)
  | cons first others =>
    obtain ⟨head, holds, rfl⟩ := level first List.mem_cons_self
    exact ⟨first, others, head, rfl, holds, level⟩

/-- A read hands out what the first lane holds when all lanes hold one key, or it ends the merge. -/
theorem Live.next_cases {m : Merge σ} (live : m.Live) :
    (∃ first others head, m.seek = (.ok true, first :: others) ∧ first.head = some head
        ∧ (∀ lane ∈ first :: others, ∃ held, lane.head = some held ∧ held.key = head.key)
        ∧ m.next = (.ok (some head.statement),
          { m with lanes := first.letGo :: others, state := .checking, pending := true }))
      ∨ (∃ lanes, m.seek = (.ok false, lanes) ∧ m.next = (.ok none,
          { m with lanes := lanes, state := .exhausted, pending := false }))
      ∨ ∃ e lanes, m.seek = (.error e, lanes) ∧ m.next = (.error e,
          { m with lanes := lanes.map Lane.letGo, state := .exhausted, pending := false }) := by
  have pulled : m.next = m.pull := by
    rw [next, live.opened]
    rfl
  rw [pulled, pull, if_neg live.running]
  match sought : m.seek with
  | (.error e, lanes) => exact .inr (.inr ⟨e, lanes, rfl, rfl⟩)
  | (.ok false, lanes) => exact .inr (.inl ⟨lanes, rfl, rfl⟩)
  | (.ok true, lanes) =>
    obtain ⟨first, others, head, rfl, holds, level⟩ := live.seek_level sought
    refine .inl ⟨first, others, head, rfl, holds, level, ?_⟩
    simp only [Lane.takeFirst, holds]
    rfl

end Merge

end TripleIndex
