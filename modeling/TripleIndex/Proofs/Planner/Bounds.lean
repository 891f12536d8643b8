/-
  Which bounds are empty. The bounds of a plan are those of its leading fields, or those of its one
  range behind them (`interval_cases`). The first kind always holds a key (`Key.leadingBounds_start_lt`).
  In the second kind the ends are in order, and what is added behind an end that does not count is
  below whatever another end goes on with, so that the bounds are the wrong way round only if both ends
  encode alike (`Key.spanBounds_start_lt_iff`).
-/
import Mathlib
import TripleIndex.Proofs.Planner

namespace TripleIndex.Planner

open Outcome (bind_eq_ok)

variable {planner : Planner} {c : Codec} {p : Pattern} {range : KeyInterval}

/-- The bounds of a range of the pattern at a position, behind the fields of its other terms. -/
def SpannedBy (c : Codec) (p : Pattern) (range : KeyInterval) (position : Position)
    (r : ValueRange) : Prop :=
  p.term position = .range r ∧ ∃ front bounds, r.encode c position = .ok bounds
    ∧ range = Key.spanBounds front bounds []

/-- What bounds are made of: of the fields of scalars alone, or of the one range behind them. -/
theorem boundsFrom_cases {positions : List Position} {complete hashed : Bool} {front : List Bytes}
    (h : boundsFrom c p complete hashed front positions = .ok range)
    (bound : ∀ q ∈ positions, (p.term q).isBound = true)
    (scalars : ∀ q ∈ positions.dropLast, (p.term q).isRange = false) :
    (∃ fields, range = Key.leadingBounds fields complete)
        ∧ (∀ q ∈ positions, (p.term q).isRange = false)
      ∨ ∃ position r, SpannedBy c p range position r
        ∧ ∀ q ∈ positions, (p.term q).isRange = true → q = position := by
  induction positions generalizing front with
  | nil => exact .inl ⟨⟨front, (Except.ok.inj h).symm⟩, nofun⟩
  | cons position positions ih =>
    rw [boundsFrom] at h
    cases term : p.term position with
    | unbound =>
      have first := bound position List.mem_cons_self
      rw [term] at first
      cases first
    | scalar v =>
      have own : (p.term position).isRange = false := by rw [term]; rfl
      simp only [term] at h
      obtain ⟨field, _, h⟩ := bind_eq_ok.mp h
      rcases ih h (fun q mem => bound q (List.mem_cons_of_mem _ mem))
          (fun q mem => scalars q (mem_dropLast_cons mem)) with
        ⟨leading, others⟩ | ⟨last, r, spanned, others⟩
      · exact .inl ⟨leading, List.forall_mem_cons.mpr ⟨own, others⟩⟩
      · refine .inr ⟨last, r, spanned, List.forall_mem_cons.mpr ⟨fun ranges => ?_, others⟩⟩
        rw [own] at ranges
        cases ranges
    | range r =>
      simp only [term] at h
      obtain ⟨bounds, encoded, h⟩ := bind_eq_ok.mp h
      obtain rfl := eq_nil_of_range term scalars
      exact .inr ⟨position, r, ⟨term, front, bounds, encoded, (Except.ok.inj h).symm⟩,
        fun q mem _ => List.mem_singleton.mp mem⟩

/-- A pattern with bounds in a layout has no range, or exactly one, whose bounds they are. -/
theorem interval_cases (planned : planner.interval c p = .ok range) :
    (∃ fields complete, range = Key.leadingBounds fields complete)
        ∧ (∀ q, (p.term q).isRange = false)
      ∨ ∃ position r, SpannedBy c p range position r
        ∧ ∀ q, (p.term q).isRange = true → q = position := by
  obtain ⟨front, back, last, _, fields, _, met, bounds⟩ := interval_eq_ok planned
  -- a position with a range is a bound one of the key
  have inFront (q : Position) (ranges : (p.term q).isRange = true) : q ∈ front := by
    have mem : q ∈ planner.layout.fields := by
      rw [Layout.mem_fields]
      rintro rfl
      cases asked : p.context <;> simp [Pattern.term, asked, Term.isRange] at ranges
    rw [fields] at mem
    refine (List.mem_append.mp mem).resolve_right fun mem => ?_
    have unbound := met.unbound q mem
    cases term : p.term q <;> simp [term, Term.isRange, Term.isBound] at ranges unbound
  rcases boundsFrom_cases bounds met.bound met.scalars with
    ⟨⟨found, leading⟩, none⟩ | ⟨position, r, spanned, only⟩
  · refine .inl ⟨⟨found, _, leading⟩, fun q => Bool.eq_false_iff.mpr fun ranges => ?_⟩
    rw [none q (inFront q ranges)] at ranges
    cases ranges
  · exact .inr ⟨position, r, spanned, fun q ranges => only q (inFront q ranges) ranges⟩

/-- The bounds of a range are in order unless the range is vacant. -/
theorem SpannedBy.start_lt_iff {position : Position} {r : ValueRange}
    (h : SpannedBy c p range position r) : range.start < range.stop ↔ ¬ r.Vacant c position := by
  obtain ⟨_, front, bounds, encoded, rfl⟩ := h
  obtain ⟨canonical, _, hstart, hstop, _⟩ := ValueRange.encode_eq_ok_iff.mp encoded
  have le := ValueRange.start_le_stop_of_encode encoded
  rw [Key.spanBounds_start_lt_iff front (Codec.delimiter_lt hstart) (Codec.delimiter_lt hstop),
    ValueRange.vacant_iff_of_encode encoded]
  have split : bounds.start ≤ bounds.stop ↔ bounds.start < bounds.stop ∨ bounds.start = bounds.stop :=
    List.le_iff_lt_or_eq
  have apart : bounds.start < bounds.stop → bounds.start ≠ bounds.stop := by
    rintro lt same
    rw [same] at lt
    exact List.lt_irrefl _ lt
  tauto

/-- For every codec, the bounds of a pattern in a layout are empty exactly if the pattern has a range
whose ends encode alike and do not both count. In all other cases the first bound comes before the
last one, whichever end of the range was given first and whether or not one of them goes on behind the
other. -/
theorem interval_isEmpty_iff (planner : Planner) (c : Codec) (p : Pattern) (range : KeyInterval)
    (planned : planner.interval c p = .ok range) :
    let vacant := ∃ position r, p.term position = .range r ∧ r.Vacant c position
    (range.isEmpty = true ↔ vacant) ∧ (¬ vacant → range.start < range.stop) := by
  intro vacant
  have order : range.start < range.stop ↔ ¬ vacant := by
    rcases interval_cases planned with
      ⟨⟨fields, complete, rfl⟩, none⟩ | ⟨position, r, spanned, only⟩
    · refine iff_of_true (Key.leadingBounds_start_lt fields complete) ?_
      rintro ⟨position, r, term, _⟩
      have scalar := none position
      rw [term] at scalar
      cases scalar
    · rw [spanned.start_lt_iff]
      refine not_congr ⟨fun empty => ⟨position, r, spanned.1, empty⟩, ?_⟩
      rintro ⟨q, r', term, empty⟩
      obtain rfl : q = position := only q (by rw [term]; rfl)
      obtain rfl : r' = r := Term.range.inj (term.symm.trans spanned.1)
      exact empty
  exact ⟨by rw [Key.isEmpty_iff, order, not_not], order.mpr⟩

/-- Two subjects of which one goes on behind the other, in reverse order and neither counting: there
are keys between them. Behind a predicate, two spellings of one number of which only the last counts:
there are none. -/
theorem interval_isEmpty_iff_extension :
    let between : Pattern :=
      { Pattern.any with subject := .range ⟨.resource "ab", .resource "a", false, false⟩ }
    let level : Pattern := { Pattern.ofPredicate (.resource "p") with
      object := .range ⟨.literal "7" Xsd.integer, .literal "007" Xsd.integer, false, true⟩ }
    (∃ range, (⟨.spo, false⟩ : Planner).interval Codec.standard between = .ok range
      ∧ range.start < range.stop)
    ∧ ∃ range, (⟨.pos, false⟩ : Planner).interval Codec.standard level = .ok range
      ∧ range.isEmpty = true := by
  intro between level
  have planned : (⟨.spo, false⟩ : Planner).interval Codec.standard between
      = .ok ⟨[0x61, 0x00, 0xFF], [0x61, 0x62]⟩ := by decide +kernel
  let seven : Bytes := 0x38 :: List.replicate 14 0x30 ++ [0x37, 0x01, 0x05]
  have planned' : (⟨.pos, false⟩ : Planner).interval Codec.standard level
      = .ok ⟨[0x70, 0x00] ++ seven ++ [0x00, 0xFF], [0x70, 0x00] ++ seven ++ [0x00, 0xFF]⟩ := by
    decide +kernel
  refine ⟨⟨_, planned, (interval_isEmpty_iff _ _ _ _ planned).2 ?_⟩,
    _, planned', (interval_isEmpty_iff _ _ _ _ planned').1.mpr ?_⟩
  · rintro ⟨position, r, term, ⟨field, first, last⟩, _⟩
    cases position with
    | subject =>
      obtain rfl := Term.range.inj term
      have other : (Codec.standard.encodeField .subject (.resource "ab"))
          ≠ Codec.standard.encodeField .subject (.resource "a") := by decide +kernel
      exact other (first.trans last.symm)
    | predicate => cases term
    | object => cases term
    | context => cases term
  · exact ⟨.object, _, rfl, ⟨seven, by decide +kernel, by decide +kernel⟩, by decide⟩

end TripleIndex.Planner
