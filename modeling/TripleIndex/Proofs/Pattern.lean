/-
  Patterns on encoded fields. A term asks of a field to be one encoding or to lie between two
  (`Term.Accepts`); on the fields of a statement that is what matching its values means, up to the
  types of values in a range (`Term.matches?_eq`).

  * `Pattern.matches?_eq_ok`: matching succeeds if all bound terms encode, and says whether the
    context is the one asked for and every term matches.
-/
import Mathlib
import TripleIndex.Pattern
import TripleIndex.Proofs.Range.Ordered
import TripleIndex.Proofs.Row

namespace TripleIndex

open Outcome (ok_bind)

namespace Term

/-- Whether a field is what the term asks for, its type apart. -/
def Accepts (t : Term) (c : Codec) (position : Position) (field : Bytes) : Prop :=
  match t with
  | .unbound => True
  | .scalar v => c.encodeField position v = .ok field
  | .range r => ∃ bounds, r.encode c position = .ok bounds ∧ bounds.contains field = true

/-- Whether the values of a term encode at a position. -/
def Encodable (t : Term) (c : Codec) (position : Position) : Prop :=
  match t with
  | .unbound => True
  | .scalar v => ∃ field, c.encodeField position v = .ok field
  | .range r => ∃ bounds, r.encode c position = .ok bounds

/-- The values that a term names: none, its own, or the two ends of its range. -/
def values : Term → List Value
  | .unbound => []
  | .scalar v => [v]
  | .range r => [r.start, r.stop]

variable {t : Term} {c : Codec} {position : Position} {v : Value} {field : Bytes}

/-- A term encodes only if all its values do. -/
theorem Encodable.values (h : t.Encodable c position) :
    ∀ v ∈ t.values, ∃ f, c.encodeField position v = .ok f := by
  cases t with
  | unbound => nofun
  | scalar v => simpa [Term.values, Encodable] using h
  | range r =>
    obtain ⟨bounds, encoded⟩ := h
    obtain ⟨first, last⟩ := ValueRange.exists_encodeField_of_encode encoded
    simp [Term.values, first, last]

theorem accepts_scalar {w : Value} {wanted : Bytes} (h : c.encodeField position w = .ok wanted) :
    (scalar w).Accepts c position field ↔ wanted = field := by
  change c.encodeField position w = .ok field ↔ _
  rw [h, Except.ok.injEq]

theorem accepts_range {r : ValueRange} {bounds : FieldRange}
    (h : r.encode c position = .ok bounds) :
    (range r).Accepts c position field ↔ bounds.contains field = true := by
  change (∃ bounds, r.encode c position = .ok bounds ∧ _) ↔ _
  rw [h]
  simp

/-- What a term asks of a field, in terms of the encodings of its values: a scalar asks for its own,
a range for one between those of its ends in order. -/
theorem accepts_iff : t.Accepts c position field ↔
    (∀ v, t = .scalar v → c.encodeField position v = .ok field)
      ∧ ∀ r, t = .range r → ∃ canonical lower upper, r.ordered c = .ok canonical
        ∧ c.encodeField position canonical.start = .ok lower
        ∧ c.encodeField position canonical.stop = .ok upper
        ∧ (if canonical.startInclusive then lower ≤ field else lower < field)
        ∧ (if canonical.stopInclusive then field ≤ upper else field < upper) := by
  cases t with
  | unbound => simp [Accepts]
  | scalar v => simp [Accepts]
  | range r =>
    simp only [reduceCtorEq, false_implies, implies_true, true_and, Term.range.injEq, forall_eq']
    constructor
    · rintro ⟨bounds, encoded, inside⟩
      obtain ⟨canonical, ordered, hlower, hupper, first, last⟩ :=
        ValueRange.encode_eq_ok_iff.mp encoded
      refine ⟨canonical, _, _, ordered, hlower, hupper, ?_⟩
      rw [first, last]
      exact Key.fieldRange_contains_iff.mp inside
    · rintro ⟨canonical, lower, upper, ordered, hlower, hupper, inside⟩
      exact ⟨⟨lower, upper, canonical.startInclusive, canonical.stopInclusive⟩,
        ValueRange.encode_eq_ok_iff.mpr ⟨canonical, ordered, hlower, hupper, rfl, rfl⟩,
        Key.fieldRange_contains_iff.mpr inside⟩

theorem accepts_of_not_isBound (h : t.isBound = false) : t.Accepts c position field := by
  cases t with
  | unbound => trivial
  | scalar v => cases h
  | range r => cases h

theorem encodable_of_not_isBound (h : t.isBound = false) : t.Encodable c position := by
  cases t with
  | unbound => trivial
  | scalar v => cases h
  | range r => cases h

/-- Matching compares encodings: a value that matches has a field that is accepted, and for a term
without a range the other way round. -/
theorem matches?_eq (encodable : t.Encodable c position)
    (encoded : c.encodeField position v = .ok field) :
    ∃ found, t.matches? c position v = .ok found ∧ (found = true → t.Accepts c position field)
      ∧ (t.isRange = false → t.Accepts c position field → found = true) := by
  cases t with
  | unbound => exact ⟨true, rfl, fun _ => trivial, fun _ _ => rfl⟩
  | scalar w =>
    obtain ⟨wanted, hw⟩ := encodable
    refine ⟨decide (wanted = field), ?_, ?_, ?_⟩
    · by_cases comparable : w.comparable v = true
      · simp only [matches?, if_pos comparable, hw, encoded, ok_bind]
      · have ne : wanted ≠ field := by
          rintro rfl
          exact comparable (decide_eq_true (Codec.comparable_of_encodeField hw encoded))
        rw [matches?, if_neg comparable, decide_eq_false ne]
    · intro found
      exact (accepts_scalar hw).mpr (of_decide_eq_true found)
    · intro _ accepted
      exact decide_eq_true ((accepts_scalar hw).mp accepted)
  | range r =>
    obtain ⟨bounds, hb⟩ := encodable
    refine ⟨v.comparable r.start && bounds.contains field, ?_, ?_, nofun⟩
    · by_cases comparable : v.comparable r.start = true
      · simp only [matches?, ValueRange.contains, comparable, if_true, hb, encoded, ok_bind,
          Bool.true_and]
      · rw [Bool.not_eq_true] at comparable
        simp [matches?, ValueRange.contains, comparable]
    · intro found
      exact (accepts_range hb).mpr (Bool.and_eq_true_iff.mp found).2

end Term

namespace Pattern

/-- Whether the values that a pattern names at some positions encode there. -/
def Encodes (p : Pattern) (c : Codec) (positions : List Position) : Prop :=
  ∀ position ∈ positions, ∀ v ∈ (p.term position).values, ∃ f, c.encodeField position v = .ok f

/-- Whether a pattern asks for the graph of a statement. -/
def AsksContext (p : Pattern) (s : Statement) : Prop :=
  ∀ context ∈ p.context, s.context = some context

variable {p : Pattern} {c : Codec} {s : Statement} {field : Position → Bytes}

/-- What is found at the three positions decides, if the context is the one asked for. -/
theorem matches?_eq_ok {fs fp fo : Bool}
    (subject : p.subject.matches? c .subject s.subject = .ok fs)
    (predicate : p.predicate.matches? c .predicate s.predicate = .ok fp)
    (object : p.object.matches? c .object s.object = .ok fo) :
    ∃ b, p.matches? c s = .ok b
      ∧ (b = true ↔ p.AsksContext s ∧ fs = true ∧ fp = true ∧ fo = true) := by
  have context : p.AsksContext s ↔ ¬ (p.context.isSome = true ∧ p.context ≠ s.context) := by
    unfold AsksContext
    cases p.context with
    | none => simp
    | some context => simp [eq_comm]
  unfold matches?
  by_cases other : p.context.isSome = true ∧ p.context ≠ s.context
  · exact ⟨false, if_pos other, by simp [context, other]⟩
  · rw [if_neg other, subject, predicate, object]
    simp only [ok_bind, context, other, not_false_eq_true, true_and]
    cases fs <;> cases fp <;> simp

/-- Matching a statement against a pattern whose terms encode. A statement that matches has fields
that are accepted, and in a pattern without ranges the other way round. -/
theorem matches?_of_encodes (encodes : s.Encodes c field)
    (encodable : ∀ position, (p.term position).Encodable c position) :
    ∃ b, p.matches? c s = .ok b
      ∧ (b = true → p.AsksContext s
        ∧ ∀ position ≠ .context, (p.term position).Accepts c position (field position))
      ∧ (p.countRanges = 0 → p.AsksContext s →
        (∀ position ≠ .context, (p.term position).Accepts c position (field position)) →
        b = true) := by
  obtain ⟨fs, hs, sound, complete⟩ := Term.matches?_eq (encodable .subject) encodes.subject
  obtain ⟨fp, hp, sound', complete'⟩ := Term.matches?_eq (encodable .predicate) encodes.predicate
  obtain ⟨fo, ho, sound'', complete''⟩ := Term.matches?_eq (encodable .object) encodes.object
  obtain ⟨b, hb, decides⟩ := matches?_eq_ok hs hp ho
  refine ⟨b, hb, ?_, ?_⟩
  · intro found
    obtain ⟨context, subject, predicate, object⟩ := decides.mp found
    refine ⟨context, fun position outside => ?_⟩
    cases position with
    | subject => exact sound subject
    | predicate => exact sound' predicate
    | object => exact sound'' object
    | context => exact absurd rfl outside
  · intro plain context accepts
    have scalar : ∀ t ∈ [p.subject, p.predicate, p.object], ¬ t.isRange = true :=
      List.countP_eq_zero.mp plain
    simp only [List.mem_cons, List.not_mem_nil, or_false, forall_eq_or_imp, forall_eq,
      Bool.not_eq_true] at scalar
    exact decides.mpr ⟨context, complete scalar.1 (accepts .subject (by decide)),
      complete' scalar.2.1 (accepts .predicate (by decide)),
      complete'' scalar.2.2 (accepts .object (by decide))⟩

end Pattern

end TripleIndex
