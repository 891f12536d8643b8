/-
  Scanners whose cursors can be told apart and count their closings (`Loan`, `Watched`), over any
  scanner. Cursors that read the loans keep them (`Watched.Lends`) until they are closed, and then
  each loan is closed once (`Watched.Returned`).

  * `Watched.Lends.settles`: whatever is called on a merge of the loans.
-/
import Mathlib
import TripleIndex.Proofs.Query.Closing
import TripleIndex.Store.Scanner

namespace TripleIndex

/-- A cursor that a scanner handed out, with the number of the request and of its closings. -/
structure Loan (σ : Type) where
  rows : σ
  number : Nat
  closes : Nat

namespace Loan

variable {σ : Type}

/-- Which loan it is, and how often it was closed. -/
def mark (s : Loan σ) : Nat × Nat :=
  (s.number, s.closes)

variable [Cursor σ Row Error]

instance : Cursor (Loan σ) Row Error where
  next s := ((Cursor.next s.rows).1, { s with rows := (Cursor.next s.rows).2 })
  close s := ((Cursor.close s.rows).1, ⟨(Cursor.close s.rows).2, s.number, s.closes + 1⟩)
  remaining s := Cursor.remaining s.rows
  remaining_next_le s := Cursor.remaining_next_le s.rows
  remaining_next_lt s := Cursor.remaining_next_lt s.rows

/-- The mark of a loan, which closing counts up. -/
def gauge : Gauge (Loan σ) (Nat × Nat) where
  of := mark
  shut a := (a.1, a.2 + 1)
  next _ := rfl
  close _ := rfl

end Loan

/-- A scanner that keeps the requests it gets, and the numbers of those it grants. -/
structure Watched (ω : Type) where
  scanner : ω
  requests : List ScanPlan
  granted : List Nat

namespace Watched

variable {ω σ τ : Type}

/-- The scanner before any request. -/
def ofScanner (scanner : ω) : Watched ω :=
  ⟨scanner, [], []⟩

instance [Scanner ω σ] : Scanner (Watched ω) (Loan σ) where
  scan w plan :=
    let requests := w.requests ++ [plan]
    match Scanner.scan w.scanner plan with
    | (.error e, scanner) => (.error e, ⟨scanner, requests, w.granted⟩)
    | (.ok rows, scanner) =>
      (.ok ⟨rows, w.requests.length, 0⟩, ⟨scanner, requests, w.granted ++ [w.requests.length]⟩)

variable {ι ε : Type} [Cursor τ ι ε]

/-- The given cursors read the loans, one each and in order, and none was closed. -/
def Lends (w : Watched ω) (g : Gauge τ ((Nat × Nat) × Bool)) (inputs : List τ) : Prop :=
  inputs.map g.of = w.granted.map fun n => ((n, 0), false)

/-- The given cursors read the loans, one each and in order, and each was closed once. -/
def Returned (w : Watched ω) (g : Gauge τ ((Nat × Nat) × Bool)) (inputs : List τ) : Prop :=
  inputs.map g.of = w.granted.map fun n => ((n, 1), true)

end Watched

/-! ## Lending and returning -/

namespace Watched

variable {ω σ τ ι ε : Type} [Cursor τ ι ε] {w last : Watched ω}
  {g : Gauge τ ((Nat × Nat) × Bool)} {inputs : List τ}

theorem lends_ofScanner (scanner : ω) : (ofScanner scanner).Lends g [] := rfl

/-- Closing every cursor returns every loan. -/
theorem Lends.closeAll (h : w.Lends g inputs)
    (once : ∀ n, g.shut ((n, 0), false) = ((n, 1), true)) :
    w.Returned g (Cursor.closeAll inputs) := by
  unfold Returned
  rw [g.closeAll, h, List.map_map]
  exact List.map_congr_left fun n _ => once n

/-- One more loan behind the ones so far. -/
theorem Lends.concat (h : w.Lends g inputs) {input : τ} {n : Nat}
    (granted : last.granted = w.granted ++ [n]) (fresh : g.of input = ((n, 0), false)) :
    last.Lends g (inputs ++ [input]) := by
  unfold Lends
  rw [List.map_append, h, granted, List.map_append, List.map_singleton, List.map_singleton, fresh]

section Scanner

variable [Scanner ω σ] {plan : ScanPlan}

theorem scan_eq_ok {loan : Loan σ} (scanned : Scanner.scan w plan = (.ok loan, last)) :
    last.granted = w.granted ++ [loan.number] ∧ loan.closes = 0 := by
  change (match Scanner.scan w.scanner plan with
    | (.error e, scanner) => _
    | (.ok rows, scanner) => _) = _ at scanned
  split at scanned
  · cases scanned
  · cases scanned
    exact ⟨rfl, rfl⟩

theorem scan_eq_error {e : Error} (refused : Scanner.scan w plan = (.error e, last)) :
    last.granted = w.granted := by
  change (match Scanner.scan w.scanner plan with
    | (.error e, scanner) => _
    | (.ok rows, scanner) => _) = _ at refused
  split at refused
  · cases refused
    rfl
  · cases refused

end Scanner

end Watched

/-! ## Runs of joins -/

theorem Merge.inputs_after_exhausted {σ : Type} [Cursor σ Statement QueryError] (key : MergeKey)
    (c : Codec) (calls : List JoinCall) : ((exhausted key c : Merge σ).after calls).inputs = [] := by
  let g : Gauge σ Unit := ⟨fun _ => (), id, fun _ => rfl, fun _ => rfl⟩
  have lanes : ((exhausted key c).after calls).lanes.map (Lane.gauge g) = [] :=
    (gauges_after g (exhausted key c) calls).trans (ite_self [])
  rw [inputs, List.map_eq_nil_iff.mp lanes, List.map_nil]

namespace SubjectJoin

variable {σ : Type} [Cursor σ Statement QueryError]

/-- The join after a call. -/
def call (j : SubjectJoin σ) : JoinCall → SubjectJoin σ
  | .next => j.next.2
  | .close => j.close.2

/-- The join after a sequence of calls. -/
def after (j : SubjectJoin σ) (calls : List JoinCall) : SubjectJoin σ :=
  calls.foldl call j

theorem merge_next (j : SubjectJoin σ) : j.next.2.merge = j.merge.next.2 := by
  unfold next
  split
  · next read => rw [read]
  · next read => rw [read]

/-- The merge of a join goes through the same calls. -/
theorem merge_after (j : SubjectJoin σ) (calls : List JoinCall) :
    (j.after calls).merge = j.merge.after calls := by
  induction calls generalizing j with
  | nil => rfl
  | cons call calls ih =>
    have step : (j.call call).merge = j.merge.call call := by
      cases call with
      | next => exact merge_next j
      | close => rfl
    exact (ih (j.call call)).trans (congrArg (Merge.after · calls) step)

end SubjectJoin

namespace Watched

variable {ω τ : Type} [Cursor τ Statement QueryError] {w : Watched ω}
  {g : Gauge τ ((Nat × Nat) × Bool)} {inputs : List τ}

/-- A merge that keeps the loans until a call closes it or it is let go of, and returns each once,
whatever is called. -/
def Settles (w : Watched ω) (g : Gauge τ ((Nat × Nat) × Bool)) (after : List JoinCall → Merge τ) :
    Prop :=
  ∀ calls, (.close ∉ calls → w.Lends g (after calls).inputs)
    ∧ (.close ∈ calls → w.Returned g (after calls).inputs)
    ∧ w.Returned g (after calls).release.inputs

theorem Lends.settles (h : w.Lends g inputs)
    (once : ∀ n, g.shut ((n, 0), false) = ((n, 1), true)) (key : MergeKey) (c : Codec) :
    w.Settles g (Merge.ofInputs key c inputs).after := by
  have own (m : Merge τ) : m.inputs.map g.of = (m.lanes.map (Lane.gauge g)).map Prod.fst := by
    unfold Merge.inputs
    rw [List.map_map, List.map_map]
    rfl
  have fresh : (Merge.ofInputs key c inputs).lanes.map (Lane.gauge g)
      = w.granted.map fun n => (((n, 0), false), true) := by
    have lanes : (Merge.ofInputs key c inputs).lanes.map (Lane.gauge g)
        = (inputs.map g.of).map fun a => (a, true) := by
      unfold Merge.ofInputs
      rw [List.map_map, List.map_map]
      rfl
    rw [lanes, h, List.map_map]
    rfl
  have returned (calls : List JoinCall) (closing : .close ∈ calls) :
      w.Returned g ((Merge.ofInputs key c inputs).after calls).inputs := by
    rw [Returned, own, Merge.gauges_after, if_pos closing, fresh, List.map_map, List.map_map]
    exact List.map_congr_left fun n _ => once n
  refine fun calls => ⟨fun reads => ?_, returned calls, ?_⟩
  · rw [Lends, own, Merge.gauges_after, if_neg reads, fresh, List.map_map]
    rfl
  · -- letting go is one more closing
    have last : (Merge.ofInputs key c inputs).after (calls ++ [.close])
        = ((Merge.ofInputs key c inputs).after calls).release := List.foldl_append
    rw [← last]
    exact returned _ (List.mem_append_right _ List.mem_cons_self)

end Watched

end TripleIndex
