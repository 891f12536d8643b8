/-
  Closing of joins. Reads never close an input; the first closing of a join closes every one of its
  inputs, whatever the others report, and no later closing or read touches them. So every input is
  closed exactly once by the time the join is let go of (`ObjectJoin.closes_once`). The inputs count
  their closings (`Counted`), which a read keeps (`Merge.gauges_next`).

  * `Merge.gauges_after`: what any calls make of the inputs.
-/
import Mathlib
import TripleIndex.Cursor.Scripted
import TripleIndex.Proofs.Cursor.Gauge
import TripleIndex.Proofs.Query.Steps
import TripleIndex.Query.Join

namespace TripleIndex

/-- A cursor that counts how often it is closed. -/
structure Counted (σ : Type) where
  inner : σ
  closes : Nat

namespace Counted

variable {σ ι ε : Type}

/-- A cursor that has not been closed. -/
def ofCursor (s : σ) : Counted σ :=
  ⟨s, 0⟩

instance [Cursor σ ι ε] : Cursor (Counted σ) ι ε where
  next s := ((Cursor.next s.inner).1, { s with inner := (Cursor.next s.inner).2 })
  close s := ((Cursor.close s.inner).1, ⟨(Cursor.close s.inner).2, s.closes + 1⟩)
  remaining s := Cursor.remaining s.inner
  remaining_next_le s := Cursor.remaining_next_le s.inner
  remaining_next_lt s := Cursor.remaining_next_lt s.inner

/-- How often a cursor was closed. -/
def gauge [Cursor σ ι ε] : Gauge (Counted σ) Nat where
  of := closes
  shut := Nat.succ
  next _ := rfl
  close _ := rfl

end Counted

/-! ## Reads close nothing -/

namespace Lane

variable {σ α : Type} [Cursor σ Statement QueryError] (g : Gauge σ α)

/-- The gauge of the input of a lane, and whether the input is still to be closed. -/
def gauge (lane : Lane σ) : α × Bool :=
  (g.of lane.input, lane.isOpen)

theorem gauges_takeFirst (lanes : List (Lane σ)) :
    (takeFirst lanes).2.map (gauge g) = lanes.map (gauge g) := by
  cases lanes <;> rfl

theorem gauges_letGo (lanes : List (Lane σ)) :
    (lanes.map letGo).map (gauge g) = lanes.map (gauge g) := by
  rw [List.map_map]
  rfl

variable (mk : MergeKey) (c : Codec)

theorem gauge_advance (lane : Lane σ) : (lane.advance mk c).2.gauge g = lane.gauge g := by
  have kept := g.next lane.input
  unfold advance
  split
  · next h => rw [h] at kept; exact Prod.ext kept rfl
  · next h => rw [h] at kept; exact Prod.ext kept rfl
  · next h =>
    rw [h] at kept
    split
    · exact Prod.ext kept rfl
    · exact Prod.ext kept rfl

theorem gauge_steps {lane moved : Lane σ} {x : Except QueryError Bool}
    (steps : Steps mk c lane x moved) : moved.gauge g = lane.gauge g := by
  have once {lane moved : Lane σ} {x : Except QueryError Bool}
      (read : lane.advance mk c = (x, moved)) : moved.gauge g = lane.gauge g := by
    have kept := gauge_advance g mk c lane
    rwa [read] at kept
  induction steps with
  | rest => rfl
  | last read => exact once read
  | more gains _ ih => exact ih.trans (once gains)

theorem gauges_round {lanes : List (Lane σ)} {result : Except QueryError Bool × List (Lane σ)}
    (round : Round mk c lanes result) : result.2.map (gauge g) = lanes.map (gauge g) := by
  have kept : List.Forall₂ (fun lane moved => moved.gauge g = lane.gauge g) lanes result.2 :=
    round.steps.imp fun _ _ steps => steps.elim (gauge_steps g mk c) (gauge_steps g mk c)
  rw [← List.forall₂_eq_eq_eq, List.forall₂_map_left_iff, List.forall₂_map_right_iff]
  exact kept.flip

end Lane

namespace Merge

variable {σ α : Type} [Cursor σ Statement QueryError] (g : Gauge σ α)

/-- A read closes nothing, whatever comes of it. -/
theorem gauges_next (m : Merge σ) :
    m.next.2.lanes.map (Lane.gauge g) = m.lanes.map (Lane.gauge g)
      ∧ m.next.2.closed = m.closed := by
  have kept := Lane.gauges_round g _ _ m.seek_round
  unfold next
  split
  · exact ⟨rfl, rfl⟩
  · unfold pull
    split
    · exact ⟨rfl, rfl⟩
    · split
      · next h =>
        rw [h] at kept
        exact ⟨(Lane.gauges_letGo g _).trans kept, rfl⟩
      · next h =>
        rw [h] at kept
        exact ⟨kept, rfl⟩
      · next h =>
        rw [h] at kept
        exact ⟨(Lane.gauges_takeFirst g _).trans kept, rfl⟩

end Merge

/-! ## The first closing and those after it -/

namespace Lane

variable {σ : Type} [Cursor σ Statement QueryError]

/-- Closing reaches every lane, also behind one that fails. -/
theorem snd_closeAll (lanes : List (Lane σ)) :
    (closeAll lanes).2 = lanes.map fun lane => lane.close.2 := by
  induction lanes with
  | nil => rfl
  | cons lane lanes ih =>
    show lane.close.2 :: (closeAll lanes).2 = _
    rw [ih]
    rfl

/-- The outcome of closing is the failure of the lowest lane that fails. -/
theorem closeAll_eq_error_iff (lanes : List (Lane σ)) (e : QueryError) :
    (closeAll lanes).1 = .error e ↔
      ∃ i lane, lanes[i]? = some lane ∧ lane.close.1 = .error e ∧
        ∀ earlier ∈ lanes.take i, earlier.close.1 = .ok () := by
  induction lanes with
  | nil => simp [closeAll]
  | cons lane lanes ih =>
    have here : (closeAll (lane :: lanes)).1 = lane.close.1.bind fun _ => (closeAll lanes).1 := rfl
    rw [here]
    constructor
    · intro failed
      match own : lane.close.1 with
      | .error e' =>
        rw [own] at failed
        cases failed
        exact ⟨0, lane, rfl, own, fun _ none => nomatch none⟩
      | .ok () =>
        rw [own] at failed
        obtain ⟨i, failing, at_i, fails, earlier⟩ := ih.mp failed
        refine ⟨i + 1, failing, at_i, fails, fun other mem => ?_⟩
        rcases List.mem_cons.mp mem with rfl | mem
        · exact own
        · exact earlier other mem
    · rintro ⟨i, failing, at_i, fails, earlier⟩
      cases i with
      | zero =>
        cases at_i
        rw [fails]
        rfl
      | succ i =>
        rw [earlier lane List.mem_cons_self]
        exact ih.mpr ⟨i, failing, at_i, fails,
          fun other mem => earlier other (List.mem_cons_of_mem _ mem)⟩

theorem fst_close_of_isOpen {lane : Lane σ} (h : lane.isOpen = true) :
    lane.close.1 = (Cursor.close lane.input).1 := by
  unfold close
  rw [if_pos h]

/-- A lane that was closed and holds nothing is left as it is. -/
theorem close_eq_self {lane : Lane σ} (shut : lane.isOpen = false) (bare : lane.head = none) :
    lane.close = (.ok (), lane) := by
  unfold close letGo
  rw [if_neg (by rw [shut]; decide), ← bare]

theorem closeAll_eq_self {lanes : List (Lane σ)}
    (shut : ∀ lane ∈ lanes, lane.isOpen = false ∧ lane.head = none) :
    closeAll lanes = (.ok (), lanes) := by
  induction lanes with
  | nil => rfl
  | cons lane lanes ih =>
    have own := shut lane List.mem_cons_self
    unfold closeAll
    rw [close_eq_self own.1 own.2, ih fun l mem => shut l (List.mem_cons_of_mem _ mem)]
    rfl

theorem head_close (lane : Lane σ) : lane.close.2.head = none := by
  unfold close
  split <;> rfl

/-- What closing makes of the gauge of a lane: nothing, if it was closed before. -/
def shutGauge {α : Type} (g : Gauge σ α) (a : α × Bool) : α × Bool :=
  if a.2 then (g.shut a.1, false) else a

theorem gauge_close {α : Type} (g : Gauge σ α) (lane : Lane σ) :
    lane.close.2.gauge g = shutGauge g (lane.gauge g) := by
  unfold close shutGauge gauge
  cases isOpen : lane.isOpen with
  | true => exact Prod.ext (g.close lane.input) rfl
  | false =>
    simp only [Bool.false_eq_true, if_false]
    exact Prod.ext rfl isOpen

theorem shutGauge_shutGauge {α : Type} (g : Gauge σ α) (a : α × Bool) :
    shutGauge g (shutGauge g a) = shutGauge g a := by
  obtain ⟨a, isOpen⟩ := a
  cases isOpen <;> rfl

/-- How often the input of a lane was closed, and whether it is still to be closed. -/
def mark (lane : Lane (Counted σ)) : Nat × Bool :=
  (lane.input.closes, lane.isOpen)

theorem mark_close {lane : Lane (Counted σ)} (h : lane.mark = (0, true)) :
    lane.close.2.mark = (1, false) := by
  have unclosed : lane.input.closes = 0 := congrArg Prod.fst h
  have isOpen : lane.isOpen = true := congrArg Prod.snd h
  unfold close
  rw [if_pos isOpen]
  show (lane.input.closes + 1, false) = (1, false)
  rw [unclosed]

end Lane

namespace Merge

variable {σ : Type}

/-- None of the inputs has been closed. -/
structure Unclosed (m : Merge (Counted σ)) : Prop where
  isOpen : m.closed = false
  marks : ∀ lane ∈ m.lanes, lane.mark = (0, true)

/-- Every input has been closed once, and nothing is left to do. -/
structure Shut (m : Merge (Counted σ)) : Prop where
  closed : m.closed = true
  state : m.state = .exhausted
  pending : m.pending = false
  marks : ∀ lane ∈ m.lanes, lane.mark = (1, false)
  heads : ∀ lane ∈ m.lanes, lane.head = none

theorem Unclosed.ofInputs (key : MergeKey) (c : Codec) (inputs : List σ) :
    (Merge.ofInputs key c (inputs.map Counted.ofCursor)).Unclosed := by
  refine ⟨rfl, fun lane mem => ?_⟩
  obtain ⟨input, listed, rfl⟩ := List.mem_map.mp mem
  obtain ⟨s, -, rfl⟩ := List.mem_map.mp listed
  rfl

theorem length_ofInputs (key : MergeKey) (c : Codec) (inputs : List σ) :
    (Merge.ofInputs key c (inputs.map Counted.ofCursor)).lanes.length = inputs.length := by
  simp [Merge.ofInputs]

variable [Cursor σ Statement QueryError] {m : Merge (Counted σ)}

theorem Unclosed.next (h : m.Unclosed) : m.next.2.Unclosed := by
  obtain ⟨kept, closed⟩ := gauges_next Counted.gauge m
  have marks : m.next.2.lanes.map Lane.mark = m.lanes.map Lane.mark := kept
  refine ⟨closed.trans h.isOpen, fun lane mem => ?_⟩
  have listed : lane.mark ∈ m.lanes.map Lane.mark := marks ▸ List.mem_map_of_mem mem
  obtain ⟨before, mem, same⟩ := List.mem_map.mp listed
  rw [← same]
  exact h.marks before mem

theorem lanes_close (m : Merge σ) : m.close.2.lanes = m.lanes.map fun lane => lane.close.2 :=
  Lane.snd_closeAll m.lanes

theorem Unclosed.close (h : m.Unclosed) : m.close.2.Shut := by
  refine ⟨rfl, rfl, rfl, ?_, ?_⟩
  · intro lane mem
    rw [lanes_close] at mem
    obtain ⟨before, listed, rfl⟩ := List.mem_map.mp mem
    exact Lane.mark_close (h.marks before listed)
  · intro lane mem
    rw [lanes_close] at mem
    obtain ⟨before, -, rfl⟩ := List.mem_map.mp mem
    exact Lane.head_close before

theorem Shut.next (h : m.Shut) : m.next = (.error .cursorClosed, m) := by
  rw [next_of_exhausted h.state, h.closed]
  rfl

theorem Shut.close (h : m.Shut) : m.close = (.ok (), m) := by
  have lanes : Lane.closeAll m.lanes = (.ok (), m.lanes) :=
    Lane.closeAll_eq_self fun lane mem =>
      ⟨congrArg Prod.snd (h.marks lane mem), h.heads lane mem⟩
  unfold Merge.close
  rw [lanes, ← h.closed, ← h.state, ← h.pending]

end Merge

/-! ## Runs of a join -/

/-- What can be asked of a join. -/
inductive JoinCall where
  | next
  | close
  deriving DecidableEq

namespace Merge

variable {σ α : Type} [Cursor σ Statement QueryError]

/-- The merge after a call. -/
def call (m : Merge σ) : JoinCall → Merge σ
  | .next => m.next.2
  | .close => m.close.2

/-- The merge after a sequence of calls. -/
def after (m : Merge σ) (calls : List JoinCall) : Merge σ :=
  calls.foldl call m

theorem gauges_close (g : Gauge σ α) (m : Merge σ) : m.close.2.lanes.map (Lane.gauge g)
    = (m.lanes.map (Lane.gauge g)).map (Lane.shutGauge g) := by
  rw [lanes_close, List.map_map, List.map_map]
  exact List.map_congr_left fun lane _ => Lane.gauge_close g lane

/-- The first call that closes reaches every input that was not closed before; no other call
reaches any. -/
theorem gauges_after (g : Gauge σ α) (m : Merge σ) (calls : List JoinCall) :
    (m.after calls).lanes.map (Lane.gauge g)
      = if .close ∈ calls then (m.lanes.map (Lane.gauge g)).map (Lane.shutGauge g)
        else m.lanes.map (Lane.gauge g) := by
  induction calls generalizing m with
  | nil => rfl
  | cons call calls ih =>
    refine (ih (m.call call)).trans ?_
    cases call with
    | next =>
      rw [show m.call .next = m.next.2 from rfl, (gauges_next g m).1]
      simp
    | close =>
      -- closing what is closed changes nothing
      have again : (m.close.2.lanes.map (Lane.gauge g)).map (Lane.shutGauge g)
          = m.close.2.lanes.map (Lane.gauge g) := by
        rw [gauges_close, List.map_map]
        exact List.map_congr_left fun a _ => Lane.shutGauge_shutGauge g a
      rw [show m.call .close = m.close.2 from rfl, again, ite_self, gauges_close,
        if_pos List.mem_cons_self]

end Merge

namespace ObjectJoin

variable {σ : Type}

/-- How often each input of a join was closed. -/
def closes (j : ObjectJoin (Counted σ)) : List Nat :=
  j.merge.inputs.map Counted.closes

variable [Cursor σ Statement QueryError]

/-- The join after a call. -/
def call (j : ObjectJoin σ) : JoinCall → ObjectJoin σ
  | .next => j.next.2
  | .close => j.close.2

/-- The join after a sequence of calls. -/
def after (j : ObjectJoin σ) (calls : List JoinCall) : ObjectJoin σ :=
  calls.foldl call j

theorem after_of_shut {j : ObjectJoin (Counted σ)} (h : j.merge.Shut) (calls : List JoinCall) :
    j.after calls = j := by
  induction calls with
  | nil => rfl
  | cons call calls ih =>
    have still : j.call call = j := by
      cases call with
      | next => exact congrArg ObjectJoin.mk (congrArg Prod.snd h.next)
      | close => exact congrArg ObjectJoin.mk (congrArg Prod.snd h.close)
    show (j.call call).after calls = j
    rw [still, ih]

/-- Nothing is closed as long as no call closes. -/
theorem unclosed_after {j : ObjectJoin (Counted σ)} (h : j.merge.Unclosed) {calls : List JoinCall}
    (reads : .close ∉ calls) : (j.after calls).merge.Unclosed := by
  induction calls generalizing j with
  | nil => exact h
  | cons call calls ih =>
    cases call with
    | next => exact ih h.next fun mem => reads (List.mem_cons_of_mem _ mem)
    | close => exact absurd List.mem_cons_self reads

/-- A call that closes leaves nothing to close, whatever is called before and after it. -/
theorem shut_after {j : ObjectJoin (Counted σ)} (h : j.merge.Unclosed) {calls : List JoinCall}
    (closing : .close ∈ calls) : (j.after calls).merge.Shut := by
  induction calls generalizing j with
  | nil => cases closing
  | cons call calls ih =>
    cases call with
    | next => exact ih h.next ((List.mem_cons.mp closing).resolve_left nofun)
    | close =>
      have shut : j.close.2.merge.Shut := h.close
      show (j.close.2.after calls).merge.Shut
      rwa [after_of_shut shut]

/-- The merge of a join goes through the same calls. -/
theorem merge_after (j : ObjectJoin σ) (calls : List JoinCall) :
    (j.after calls).merge = j.merge.after calls := by
  induction calls generalizing j with
  | nil => rfl
  | cons call calls ih =>
    have step : (j.call call).merge = j.merge.call call := by cases call <;> rfl
    exact (ih (j.call call)).trans (congrArg (Merge.after · calls) step)

/-- A join of inputs that are not closed yet, after any reads and closings, whatever they find and
whichever fail. -/
theorem closes_after {j : ObjectJoin (Counted σ)} (h : j.merge.Unclosed) (calls : List JoinCall) :
    (j.after calls).closes =
      List.replicate j.merge.lanes.length (if .close ∈ calls then 1 else 0) := by
  have fresh : j.merge.lanes.map (Lane.gauge Counted.gauge)
      = List.replicate j.merge.lanes.length (0, true) :=
    List.map_eq_replicate_iff.mpr h.marks
  have closes : (j.after calls).closes
      = ((j.merge.after calls).lanes.map (Lane.gauge Counted.gauge)).map Prod.fst := by
    rw [← merge_after, List.map_map]
    exact List.map_map
  rw [closes, Merge.gauges_after, fresh]
  split
  · rw [List.map_replicate, List.map_replicate]
    rfl
  · rw [List.map_replicate]

/-- Letting go of a join closes what is still to be closed. -/
theorem closes_release {j : ObjectJoin (Counted σ)} (h : j.merge.Unclosed) (calls : List JoinCall) :
    ObjectJoin.closes ⟨(j.after calls).merge.release⟩ = List.replicate j.merge.lanes.length 1 := by
  have closed := closes_after h (calls ++ [.close])
  rw [if_pos (List.mem_append_right _ List.mem_cons_self)] at closed
  have release : j.after (calls ++ [.close]) = ⟨(j.after calls).merge.release⟩ :=
    List.foldl_append
  rwa [release] at closed

/-- The first closing reports the failure of the lowest input that fails to close. -/
theorem close_eq_error_iff {j : ObjectJoin (Counted σ)} (h : j.merge.Unclosed) (e : QueryError) :
    j.close.1 = .error e ↔
      ∃ i input, j.merge.inputs[i]? = some input ∧ (Cursor.close input).1 = .error e ∧
        ∀ earlier ∈ j.merge.inputs.take i, (Cursor.close earlier).1 = .ok () := by
  have own : ∀ lane ∈ j.merge.lanes, lane.close.1 = (Cursor.close lane.input).1 :=
    fun lane mem => Lane.fst_close_of_isOpen (congrArg Prod.snd (h.marks lane mem))
  refine (Lane.closeAll_eq_error_iff j.merge.lanes e).trans ?_
  constructor
  · rintro ⟨i, lane, at_i, fails, earlier⟩
    refine ⟨i, lane.input, by rw [Merge.inputs, List.getElem?_map, at_i]; rfl, ?_,
      fun input mem => ?_⟩
    · rw [← own lane (List.mem_of_getElem? at_i), fails]
    · rw [Merge.inputs, ← List.map_take] at mem
      obtain ⟨other, listed, rfl⟩ := List.mem_map.mp mem
      rw [← own other (List.mem_of_mem_take listed), earlier other listed]
  · rintro ⟨i, input, found, fails, earlier⟩
    rw [Merge.inputs, List.getElem?_map] at found
    obtain ⟨lane, at_i, rfl⟩ := Option.map_eq_some_iff.mp found
    refine ⟨i, lane, at_i, ?_, fun other mem => ?_⟩
    · rw [own lane (List.mem_of_getElem? at_i), fails]
    · rw [own other (List.mem_of_mem_take mem)]
      apply earlier
      rw [Merge.inputs, ← List.map_take]
      exact List.mem_map_of_mem mem

/-- Every input of a join is closed exactly once, whatever its reads, the keys of its statements
and its closing come to: at the opening if there are fewer than two inputs, else by the first call
that closes, or when the join is let go of. The first closing reports the failure of the lowest
input that fails; a later one succeeds and changes nothing. Reads close nothing. -/
theorem closes_once (c : Codec) (inputs : List σ) :
    let opening := ofInputs c (inputs.map Counted.ofCursor)
    (inputs.length < 2 →
      (∃ message, opening.outcome = .error (.invalidArgument message)) ∧
        opening.released.map Counted.closes = List.replicate inputs.length 1) ∧
    (2 ≤ inputs.length →
      opening.released = [] ∧ ∃ join, opening.outcome = .ok join ∧
        ∀ calls, let before := join.after calls
          before.closes = List.replicate inputs.length (if .close ∈ calls then 1 else 0) ∧
          before.merge.release.inputs.map Counted.closes = List.replicate inputs.length 1 ∧
          (.close ∉ calls → ∀ e, before.close.1 = .error e ↔
            ∃ i input, before.merge.inputs[i]? = some input ∧
              (Cursor.close input).1 = .error e ∧
              ∀ earlier ∈ before.merge.inputs.take i, (Cursor.close earlier).1 = .ok ()) ∧
          (.close ∈ calls → before.close = (.ok (), before))) := by
  intro opening
  have count : (inputs.map Counted.ofCursor).length = inputs.length := List.length_map _
  constructor
  · intro few
    have refused : opening = ⟨.error (.invalidArgument _), Cursor.closeAll _⟩ :=
      if_pos (count ▸ few)
    rw [refused]
    refine ⟨⟨_, rfl⟩, ?_⟩
    refine List.eq_replicate_iff.mpr ⟨by simp [Cursor.closeAll], fun n mem => ?_⟩
    obtain ⟨released, listed, rfl⟩ := List.mem_map.mp mem
    obtain ⟨given, among, rfl⟩ := List.mem_map.mp listed
    obtain ⟨input, -, rfl⟩ := List.mem_map.mp among
    rfl
  · intro enough
    have opened : opening = ⟨.ok ⟨Merge.ofInputs .object c _⟩, []⟩ :=
      if_neg (count ▸ Nat.not_lt.mpr enough)
    rw [opened]
    refine ⟨rfl, _, rfl, fun calls => ?_⟩
    have fresh := Merge.Unclosed.ofInputs .object c inputs
    have lanes := Merge.length_ofInputs .object c inputs
    refine ⟨?_, ?_, fun reads e => ?_, fun closing => ?_⟩
    · rw [← lanes]
      exact closes_after fresh calls
    · rw [← lanes]
      exact closes_release fresh calls
    · exact close_eq_error_iff (unclosed_after fresh reads) e
    · have shut := (shut_after fresh closing).close
      exact congrArg (fun r => (r.1, ObjectJoin.mk r.2)) shut

/-- A lone input that fails to close, and three inputs of which the second fails to be read and the
last two fail to close. -/
theorem closes_once_failing :
    let good : Scripted Statement := .ofItems [none] none false
    let unreadable : Scripted Statement := .ofItems [] (some 0) true
    let stuck : Scripted Statement := .ofItems [none] none true
    let lone := ofInputs .standard ([stuck].map Counted.ofCursor)
    let three := ofInputs .standard ([good, unreadable, stuck].map Counted.ofCursor)
    lone.released.map Counted.closes = [1] ∧
      ∃ join, three.outcome = .ok join ∧ (join.after [.next]).closes = [0, 0, 0] ∧
        (join.after [.next]).close.1 = .error (.core (.storage "close failed")) ∧
        (join.after [.next, .close, .next]).closes = [1, 1, 1] ∧
        (join.after [.next, .close, .next]).close
          = (.ok (), join.after [.next, .close, .next]) := by
  intro good unreadable stuck lone three
  obtain ⟨-, released⟩ := (closes_once .standard [stuck]).1 (by decide)
  obtain ⟨-, join, opened, runs⟩ := (closes_once .standard [good, unreadable, stuck]).2 (by decide)
  obtain ⟨none, -, reports, -⟩ := runs [.next]
  obtain ⟨all, -, -, again⟩ := runs [.next, .close, .next]
  refine ⟨released, join, opened, none, ?_, all, again (by decide)⟩
  obtain rfl : _ = join := Except.ok.inj opened
  exact (reports (by decide) _).mpr ⟨1, _, rfl, rfl, by decide⟩

end ObjectJoin

end TripleIndex
