/-
  Why planning fails. A layout refuses a pattern by the shape of its terms, before anything is
  encoded; once it takes the pattern, all that is left to fail is the encoding of a value that the
  pattern names (`error_of_interval`, `error_of_plan`). The ends of a range are put in order as
  objects and then encoded for their position, and the shape settles ahead of both that they are of
  one type and may stand there, so that neither step fails in a way of its own.

  * `shape_of_boundFields`: what taking a pattern says of the shape of its terms.
  * `exists_interval_iff`, `exists_plan_iff`: when there are bounds, and when there is a scan.
  * `failures_classified`: which failures there are.
-/
import Mathlib
import TripleIndex.Proofs.Planner

namespace TripleIndex.Planner

open Outcome (bind_eq_ok bind_eq_error map_eq_ok map_eq_error)

variable {planner : Planner} {c : Codec} {p : Pattern} {e : Error}

/-! ## Shapes -/

theorem shape_of_advance {hashedKeys : Bool} {seen next : Progress} {position : Position}
    (advanced : seen.advance hashedKeys p position = .ok next) :
    shapeRefusal? position (p.term position) = none := by
  unfold Progress.advance at advanced
  simp only at advanced
  split at advanced
  · split at advanced
    · cases advanced
    · next shape => exact shape
  · next unbound =>
    cases term : p.term position with
    | unbound => rfl
    | scalar v => exact absurd (by rw [term]; rfl) unbound
    | range r => exact absurd (by rw [term]; rfl) unbound

theorem shape_of_foldlM {hashedKeys : Bool} {positions : List Position} {seen last : Progress}
    (met : positions.foldlM (Progress.advance hashedKeys p) seen = .ok last) :
    ∀ q ∈ positions, shapeRefusal? q (p.term q) = none := by
  induction positions generalizing seen with
  | nil => nofun
  | cons position positions ih =>
    rw [List.foldlM_cons] at met
    obtain ⟨next, advanced, met⟩ := bind_eq_ok.mp met
    rw [List.forall_mem_cons]
    exact ⟨shape_of_advance advanced, ih met⟩

/-- The terms of a layout that answers a pattern have a shape that can be encoded. -/
theorem shape_of_boundFields {n : Nat} (bound : planner.boundFields p = .ok n) :
    ∀ q ∈ planner.layout.fields, shapeRefusal? q (p.term q) = none := by
  obtain ⟨last, met, _⟩ := map_eq_ok.mp bound
  exact shape_of_foldlM met

/-- A range of a shape that can be encoded has ends of one type that may stand at its position. -/
theorem range_of_shape {position : Position} {r : ValueRange}
    (shape : shapeRefusal? position (.range r) = none) :
    r.start.comparable r.stop = true ∧ (position = .object ∨ r.start.isResource = true) := by
  unfold shapeRefusal? at shape
  simp only at shape
  split at shape
  · cases shape
  · next comparable =>
    split at shape
    · cases shape
    · next fits =>
      refine ⟨by simpa using comparable, ?_⟩
      by_contra neither
      obtain ⟨outside, literal⟩ := not_or.mp neither
      exact fits ⟨outside, by simpa using literal⟩

/-! ## Errors -/

/-- If the bounds of terms that can be encoded are not found, one of their values does not encode. -/
theorem error_of_boundsFrom {positions : List Position} {complete hashed : Bool} {front : List Bytes}
    (shape : ∀ q ∈ positions, shapeRefusal? q (p.term q) = none)
    (failed : boundsFrom c p complete hashed front positions = .error e) :
    ∃ q ∈ positions, ∃ v ∈ (p.term q).values, c.encodeField q v = .error e := by
  induction positions generalizing front with
  | nil => cases failed
  | cons position positions ih =>
    obtain ⟨own, others⟩ := List.forall_mem_cons.mp shape
    rw [boundsFrom] at failed
    cases term : p.term position with
    | unbound =>
      simp only [term] at failed
      cases failed
    | scalar v =>
      simp only [term] at failed
      rcases bind_eq_error.mp failed with refused | ⟨field, _, later⟩
      · exact ⟨position, List.mem_cons_self, v, by simp [term, Term.values], refused⟩
      · obtain ⟨q, mem, value⟩ := ih others later
        exact ⟨q, List.mem_cons_of_mem _ mem, value⟩
    | range r =>
      simp only [term] at failed
      rcases bind_eq_error.mp failed with unencoded | ⟨bounds, _, never⟩
      · rw [term] at own
        obtain ⟨comparable, fits⟩ := range_of_shape own
        rcases ValueRange.error_of_encode comparable fits unencoded with first | last
        · exact ⟨position, List.mem_cons_self, r.start, by simp [term, Term.values], first⟩
        · exact ⟨position, List.mem_cons_self, r.stop, by simp [term, Term.values], last⟩
      · cases never

/-- A layout that answers a pattern finds no bounds only if a value of its key does not encode. -/
theorem error_of_interval (answers : planner.answers p = true)
    (failed : planner.interval c p = .error e) :
    ∃ q ∈ planner.layout.fields, ∃ v ∈ (p.term q).values, c.encodeField q v = .error e := by
  obtain ⟨n, bound⟩ := answers_iff.mp answers
  unfold interval at failed
  rw [bound] at failed
  obtain ⟨q, mem, value⟩ := error_of_boundsFrom
    (fun q mem => shape_of_boundFields bound q (List.mem_of_mem_take mem)) failed
  exact ⟨q, List.mem_of_mem_take mem, value⟩

/-- A layout that answers a pattern finds no scan only if a value of its key does not encode, or the
context that it asks of the column family. -/
theorem error_of_plan (answers : planner.answers p = true) (failed : planner.plan c p = .error e) :
    (∃ q ∈ planner.layout.fields, ∃ v ∈ (p.term q).values, c.encodeField q v = .error e)
      ∨ planner.layout.isContextFirst = false
        ∧ ∃ context ∈ p.context, c.encodeField .context context = .error e := by
  rcases bind_eq_error.mp failed with unbounded | ⟨range, _, later⟩
  · exact .inl (error_of_interval answers unbounded)
  · rcases bind_eq_error.mp later with unfiltered | ⟨family, _, never⟩
    · split at unfiltered
      · next context asked standard =>
        exact .inr ⟨standard, context, asked, map_eq_error.mp unfiltered⟩
      · cases unfiltered
    · cases never

/-- A layout that does not answer a pattern says so, with its reason, whatever is asked of it. -/
theorem refused_of_not_answers (c : Codec) (h : planner.answers p = false) :
    ∃ refusal, planner.boundFields p = .error refusal
      ∧ planner.interval c p = .error (.unsupportedPattern planner.layout refusal.message)
      ∧ planner.plan c p = .error (.unsupportedPattern planner.layout refusal.message) := by
  cases bound : planner.boundFields p with
  | ok n => simp [answers, bound] at h
  | error refusal =>
    have unbounded : planner.interval c p
        = .error (.unsupportedPattern planner.layout refusal.message) := by
      unfold interval
      rw [bound]
    exact ⟨refusal, rfl, unbounded, bind_eq_error.mpr (.inl unbounded)⟩

/-! ## Successes -/

/-- A layout that answers a pattern has bounds for it exactly if the values of its key encode. -/
theorem exists_interval_iff (answers : planner.answers p = true) :
    (∃ range, planner.interval c p = .ok range) ↔ p.Encodes c planner.layout.fields := by
  constructor
  · rintro ⟨range, planned⟩ q mem
    obtain ⟨front, back, last, _, fields, _, met, bounds⟩ := interval_eq_ok planned
    apply Term.Encodable.values
    rw [fields] at mem
    rcases List.mem_append.mp mem with mem | mem
    · exact encodable_of_boundsFrom bounds met.bound met.scalars q mem
    · exact Term.encodable_of_not_isBound (met.unbound q mem)
  · intro encodes
    cases planned : planner.interval c p with
    | ok range => exact ⟨range, rfl⟩
    | error e =>
      obtain ⟨q, mem, v, named, failed⟩ := error_of_interval answers planned
      obtain ⟨f, encoded⟩ := encodes q mem v named
      cases failed.symm.trans encoded

/-- There is a scan exactly if the values of the key encode and, where the key leaves the context out,
so does the context that the pattern asks for. -/
theorem exists_plan_iff (answers : planner.answers p = true) :
    (∃ plan, planner.plan c p = .ok plan) ↔ p.Encodes c planner.layout.fields
      ∧ (planner.layout.isContextFirst = false → ∀ context ∈ p.context,
        ∃ f, c.encodeField .context context = .ok f) := by
  constructor
  · rintro ⟨plan, planned⟩
    obtain ⟨_, bounded, _, familyOf, _⟩ := plan_eq_ok planned
    refine ⟨(exists_interval_iff answers).mp ⟨_, bounded⟩, fun standard context asked => ?_⟩
    obtain ⟨f, encoded, _⟩ := familyOf standard context asked
    exact ⟨f, encoded⟩
  · rintro ⟨encodes, grouped⟩
    cases planned : planner.plan c p with
    | ok plan => exact ⟨plan, rfl⟩
    | error e =>
      rcases error_of_plan answers planned with
        ⟨q, mem, v, named, failed⟩ | ⟨standard, context, asked, failed⟩
      · obtain ⟨f, encoded⟩ := encodes q mem v named
        cases failed.symm.trans encoded
      · obtain ⟨f, encoded⟩ := grouped standard context asked
        cases failed.symm.trans encoded

/-! ## Failures -/

/-- Whatever fails for a layout that answers a pattern, it is the encoding of a value that the pattern
names. -/
theorem exists_value_of_error (answers : planner.answers p = true)
    (failed : planner.interval c p = .error e ∨ planner.plan c p = .error e) :
    ∃ position, ∃ v ∈ (p.term position).values, c.encodeField position v = .error e := by
  have failed : (∃ q ∈ planner.layout.fields, ∃ v ∈ (p.term q).values, c.encodeField q v = .error e)
      ∨ planner.layout.isContextFirst = false
        ∧ ∃ context ∈ p.context, c.encodeField .context context = .error e :=
    failed.elim (fun unbounded => .inl (error_of_interval answers unbounded)) (error_of_plan answers)
  rcases failed with ⟨q, _, value⟩ | ⟨_, context, asked, unencoded⟩
  · exact ⟨q, value⟩
  · have asked : p.context = some context := asked
    exact ⟨.context, context, by simp [Pattern.term, asked, Term.values], unencoded⟩

/-- With the standard resolvers only a layout that does not answer a pattern refuses it. -/
theorem not_answers_of_unsupported {layout : Layout} {reason : String}
    (refused : planner.interval Codec.standard p = .error (.unsupportedPattern layout reason)
      ∨ planner.plan Codec.standard p = .error (.unsupportedPattern layout reason)) :
    planner.answers p = false := by
  rw [Bool.eq_false_iff]
  intro answers
  obtain ⟨position, v, _, unencoded⟩ := exists_value_of_error answers refused
  rcases Codec.error_of_encodeField unencoded with ⟨_, other⟩ | ⟨_, other⟩
  · cases other
  · cases other

/-- The failures of planning with the standard resolvers. Bounds, and with them a scan, are refused
as unsupported exactly if the layout does not answer the pattern. If it does, there are bounds exactly
if every scalar and both ends of a range that the pattern has in the key encode at their positions,
and there is a scan exactly if the context, where the column family holds it, encodes too. Anything
else that is reported is the failure of such a value to encode: no resolver has its datatype, or it is
no value of its datatype or position. -/
theorem failures_classified (planner : Planner) (p : Pattern) :
    ((∃ layout reason,
        planner.interval Codec.standard p = .error (.unsupportedPattern layout reason)) ↔
      planner.answers p = false) ∧
    ((∃ layout reason,
        planner.plan Codec.standard p = .error (.unsupportedPattern layout reason)) ↔
      planner.answers p = false) ∧
    (planner.answers p = true →
      ((∃ range, planner.interval Codec.standard p = .ok range) ↔
        p.Encodes Codec.standard planner.layout.fields) ∧
      ((∃ plan, planner.plan Codec.standard p = .ok plan) ↔
        p.Encodes Codec.standard planner.layout.fields
          ∧ (planner.layout.isContextFirst = false → ∀ context ∈ p.context,
            ∃ field, Codec.standard.encodeField .context context = .ok field)) ∧
      ∀ e, planner.interval Codec.standard p = .error e ∨ planner.plan Codec.standard p = .error e →
        (∃ position, ∃ v ∈ (p.term position).values, Codec.standard.encodeField position v = .error e)
          ∧ ((∃ datatype, e = .unsupportedType datatype) ∨ ∃ detail, e = .invalidValue detail)) := by
  refine ⟨⟨fun ⟨layout, reason, refused⟩ => not_answers_of_unsupported (.inl refused), fun h => ?_⟩,
    ⟨fun ⟨layout, reason, refused⟩ => not_answers_of_unsupported (.inr refused), fun h => ?_⟩,
    fun answers => ⟨exists_interval_iff answers, exists_plan_iff answers, fun e failed => ?_⟩⟩
  · obtain ⟨refusal, _, unbounded, _⟩ := refused_of_not_answers Codec.standard h
    exact ⟨_, _, unbounded⟩
  · obtain ⟨refusal, _, _, unplanned⟩ := refused_of_not_answers Codec.standard h
    exact ⟨_, _, unplanned⟩
  · obtain ⟨position, v, named, unencoded⟩ := exists_value_of_error answers failed
    exact ⟨⟨position, v, named, unencoded⟩, Codec.error_of_encodeField unencoded⟩

/-- A literal as the context: the key has its bounds, and the column family no scan. -/
theorem failures_classified_context :
    let p : Pattern := { Pattern.ofPredicate (.resource "p") with context := some (.plain "g") }
    let planner : Planner := ⟨.pos, false⟩
    planner.answers p = true ∧ p.Encodes Codec.standard planner.layout.fields
      ∧ ∃ e, planner.plan Codec.standard p = .error e
        ∧ ((∃ datatype, e = .unsupportedType datatype) ∨ ∃ detail, e = .invalidValue detail) := by
  intro p planner
  obtain ⟨-, -, classified⟩ := failures_classified planner p
  have answered : planner.answers p = true := by decide +kernel
  obtain ⟨bounds, scans, failures⟩ := classified answered
  have planned : planner.interval Codec.standard p = .ok ⟨[0x70, 0x00], [0x70, 0x00, 0xFF]⟩ := by
    decide +kernel
  refine ⟨answered, bounds.mp ⟨_, planned⟩, ?_⟩
  cases scanned : planner.plan Codec.standard p with
  | error e => exact ⟨e, rfl, (failures e (.inr scanned)).2⟩
  | ok plan =>
    obtain ⟨field, encoded⟩ := (scans.mp ⟨plan, scanned⟩).2 rfl _ rfl
    cases encoded

end TripleIndex.Planner
