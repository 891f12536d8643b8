/-
  Ranges in order. The ends of a range are put in the order of their encodings as objects, while the
  fields that are compared may lack the marker; the two orders agree at every position
  (`Codec.encodeField_le_iff`). A range and its reverse are put in the same order unless both ends
  encode alike. They then stay two ranges, but such a range holds what encodes as its ends do, and
  this if both ends count, whichever of them comes first.

  * `ValueRange.inOrder_of_ordered`: what putting in order gives.
  * `ValueRange.contains_reversed`: a range holds what its reverse holds.
  * `ValueRange.ordered_canonical`: the two together, for every codec.
-/
import Mathlib
import TripleIndex.Proofs.Codec
import TripleIndex.Proofs.Key
import TripleIndex.Range

namespace TripleIndex

open Outcome (bind_eq_ok bind_eq_error ok_bind)

theorem Value.comparable_comm (v w : Value) : v.comparable w = w.comparable v :=
  decide_eq_decide.mpr eq_comm

/-- Between equal ends it does not matter which of them counts. -/
theorem FieldRange.contains_level (bytes field : Bytes) (one other : Bool) :
    (FieldRange.mk bytes bytes one other).contains field
      = (FieldRange.mk bytes bytes other one).contains field := by
  have apart {a b : Bytes} (lt : a < b) : ¬ b ≤ a := List.not_le.mpr lt
  rw [Bool.eq_iff_iff, Key.fieldRange_contains_iff, Key.fieldRange_contains_iff]
  cases one <;> cases other <;> simp only [if_true, Bool.false_eq_true, if_false]
  · exact ⟨fun ⟨lt, le⟩ => absurd le (apart lt), fun ⟨le, lt⟩ => absurd le (apart lt)⟩
  · exact ⟨fun ⟨le, lt⟩ => absurd le (apart lt), fun ⟨lt, le⟩ => absurd le (apart lt)⟩

namespace ValueRange

variable {c : Codec} {r canonical : ValueRange} {position : Position} {v : Value}

/-! ## Putting in order -/

@[simp] theorem reversed_reversed (r : ValueRange) : r.reversed.reversed = r := rfl

/-- Whether the ends of a range are of one type and encode, the first not after the last. -/
def InOrder (c : Codec) (r : ValueRange) : Prop :=
  r.start.comparable r.stop = true ∧ ∃ start stop, c.encodeObject r.start = .ok start
    ∧ c.encodeObject r.stop = .ok stop ∧ start ≤ stop

/-- A range is put in order if its ends are of one type and encode. -/
theorem ordered_eq_ok : r.ordered c = .ok canonical ↔
    r.start.comparable r.stop = true ∧ ∃ start stop, c.encodeObject r.start = .ok start
      ∧ c.encodeObject r.stop = .ok stop
      ∧ canonical = if stop < start then r.reversed else r := by
  unfold ordered
  by_cases comparable : r.start.comparable r.stop = true
  · rw [if_pos comparable]
    simp only [bind_eq_ok, Except.ok.injEq, comparable, true_and]
    constructor
    · rintro ⟨start, hstart, stop, hstop, rfl⟩
      exact ⟨start, stop, hstart, hstop, rfl⟩
    · rintro ⟨start, stop, hstart, hstop, rfl⟩
      exact ⟨start, hstart, stop, hstop, rfl⟩
  · rw [if_neg comparable]
    simp [comparable]

theorem InOrder.ordered (h : r.InOrder c) : r.ordered c = .ok r := by
  obtain ⟨comparable, start, stop, hstart, hstop, le⟩ := h
  exact ordered_eq_ok.mpr ⟨comparable, start, stop, hstart, hstop,
    (if_neg (List.not_lt.mpr le)).symm⟩

/-- Putting in order gives a range in order: the same one or its reverse. -/
theorem inOrder_of_ordered (h : r.ordered c = .ok canonical) :
    canonical.InOrder c ∧ (canonical = r ∨ canonical = r.reversed) := by
  obtain ⟨comparable, start, stop, hstart, hstop, rfl⟩ := ordered_eq_ok.mp h
  by_cases swaps : stop < start
  · rw [if_pos swaps]
    refine ⟨⟨?_, stop, start, hstop, hstart, List.le_of_lt swaps⟩, .inr rfl⟩
    rwa [reversed, Value.comparable_comm]
  · rw [if_neg swaps]
    exact ⟨⟨comparable, start, stop, hstart, hstop, List.not_lt.mp swaps⟩, .inl rfl⟩

/-- A range and its reverse are put in the same order, unless both are in order already. -/
theorem ordered_reversed (h : r.ordered c = .ok canonical) :
    r.reversed.ordered c = .ok canonical ∨ r.InOrder c ∧ r.reversed.InOrder c := by
  obtain ⟨comparable, start, stop, hstart, hstop, rfl⟩ := ordered_eq_ok.mp h
  have comparable' : r.stop.comparable r.start = true := by rwa [Value.comparable_comm]
  by_cases level : start = stop
  · subst level
    exact .inr ⟨⟨comparable, start, start, hstart, hstop, List.le_refl _⟩,
      comparable', start, start, hstop, hstart, List.le_refl _⟩
  · refine .inl (ordered_eq_ok.mpr ⟨comparable', stop, start, hstop, hstart, ?_⟩)
    by_cases swaps : stop < start
    · rw [if_pos swaps, if_neg (List.lt_asymm swaps)]
    · have before : start < stop := List.not_le.mp fun le =>
        level (List.le_antisymm (List.not_lt.mp swaps) le)
      rw [if_neg swaps, if_pos before, reversed_reversed]

/-! ## Encoded ends -/

/-- The fields of the ends of a range in order. -/
theorem encode_eq_ok_iff {bounds : FieldRange} : r.encode c position = .ok bounds ↔
    ∃ canonical, r.ordered c = .ok canonical
      ∧ c.encodeField position canonical.start = .ok bounds.start
      ∧ c.encodeField position canonical.stop = .ok bounds.stop
      ∧ canonical.startInclusive = bounds.startInclusive
      ∧ canonical.stopInclusive = bounds.stopInclusive := by
  unfold encode
  simp only [bind_eq_ok, Except.ok.injEq]
  constructor
  · rintro ⟨canonical, ordered, start, hstart, stop, hstop, rfl⟩
    exact ⟨canonical, ordered, hstart, hstop, rfl, rfl⟩
  · rintro ⟨canonical, ordered, hstart, hstop, first, last⟩
    exact ⟨canonical, ordered, _, hstart, _, hstop, by rw [first, last]⟩

/-- A range encodes at a position only if both of its ends do. -/
theorem exists_encodeField_of_encode {bounds : FieldRange} (h : r.encode c position = .ok bounds) :
    (∃ f, c.encodeField position r.start = .ok f) ∧ ∃ f, c.encodeField position r.stop = .ok f := by
  obtain ⟨canonical, ordered, hstart, hstop, _⟩ := encode_eq_ok_iff.mp h
  rcases (inOrder_of_ordered ordered).2 with rfl | rfl
  · exact ⟨⟨_, hstart⟩, _, hstop⟩
  · exact ⟨⟨_, hstop⟩, _, hstart⟩

/-- A range of one type that may stand at a position fails to encode there only because one of its
ends does, for the same reason. -/
theorem error_of_encode {e : Error} (comparable : r.start.comparable r.stop = true)
    (fits : position = .object ∨ r.start.isResource = true) (h : r.encode c position = .error e) :
    c.encodeField position r.start = .error e ∨ c.encodeField position r.stop = .error e := by
  have fits' : position = .object ∨ r.stop.isResource = true := by
    have same : r.start.datatype? = r.stop.datatype? := of_decide_eq_true comparable
    rwa [Value.isResource_eq, ← same, ← Value.isResource_eq]
  rcases bind_eq_error.mp h with unordered | ⟨canonical, ordered, failed⟩
  · unfold ordered at unordered
    rw [if_pos comparable] at unordered
    rcases bind_eq_error.mp unordered with first | ⟨start, _, later⟩
    · exact .inl (Codec.encodeField_of_encodeObject_error fits first)
    · rcases bind_eq_error.mp later with last | ⟨stop, _, never⟩
      · exact .inr (Codec.encodeField_of_encodeObject_error fits' last)
      · cases never
  · have ends : c.encodeField position canonical.start = .error e
        ∨ c.encodeField position canonical.stop = .error e := by
      rcases bind_eq_error.mp failed with first | ⟨start, _, later⟩
      · exact .inl first
      · rcases bind_eq_error.mp later with last | ⟨stop, _, never⟩
        · exact .inr last
        · cases never
    rcases (inOrder_of_ordered ordered).2 with rfl | rfl
    · exact ends
    · exact ends.symm

/-- At every position the ends of a range in order have fields in order. -/
theorem InOrder.le_of_encodeField (h : r.InOrder c) {f g : Bytes}
    (hf : c.encodeField position r.start = .ok f) (hg : c.encodeField position r.stop = .ok g) :
    f ≤ g := by
  obtain ⟨_, start, stop, hstart, hstop, le⟩ := h
  exact (Codec.encodeField_le_iff hf hg hstart hstop).mpr le

theorem start_le_stop_of_encode {bounds : FieldRange} (h : r.encode c position = .ok bounds) :
    bounds.start ≤ bounds.stop := by
  obtain ⟨canonical, ordered, hstart, hstop, _⟩ := encode_eq_ok_iff.mp h
  exact (inOrder_of_ordered ordered).1.le_of_encodeField hstart hstop

/-- Whether a range holds nothing by its ends alone: they encode alike, and one of them does not
count. -/
def Vacant (r : ValueRange) (c : Codec) (position : Position) : Prop :=
  (∃ field, c.encodeField position r.start = .ok field ∧ c.encodeField position r.stop = .ok field)
    ∧ ¬ (r.startInclusive = true ∧ r.stopInclusive = true)

/-- Putting the ends in order does not change whether the range is vacant. -/
theorem vacant_iff_of_encode {bounds : FieldRange} (h : r.encode c position = .ok bounds) :
    r.Vacant c position ↔ bounds.start = bounds.stop
      ∧ ¬ (bounds.startInclusive = true ∧ bounds.stopInclusive = true) := by
  obtain ⟨canonical, ordered, hstart, hstop, first, last⟩ := encode_eq_ok_iff.mp h
  have alike : (∃ field, c.encodeField position canonical.start = .ok field
      ∧ c.encodeField position canonical.stop = .ok field) ↔ bounds.start = bounds.stop := by
    rw [hstart, hstop]
    simp [eq_comm]
  rw [← alike, ← first, ← last]
  rcases (inOrder_of_ordered ordered).2 with rfl | rfl
  · rfl
  · exact and_congr (exists_congr fun _ => and_comm) (not_congr and_comm)

/-! ## Reversed ranges -/

/-- A value of another type is not in a range; any other is compared, if all of them encode. -/
theorem contains_eq_ok {found : Bool} : r.contains c position v = .ok found ↔
    if v.comparable r.start = true then
      ∃ bounds field, r.encode c position = .ok bounds ∧ c.encodeField position v = .ok field
        ∧ bounds.contains field = found
    else found = false := by
  unfold contains
  by_cases comparable : v.comparable r.start = true
  · rw [if_pos comparable, if_pos comparable]
    simp only [bind_eq_ok, Except.ok.injEq]
    constructor
    · rintro ⟨bounds, encoded, field, hfield, inside⟩
      exact ⟨bounds, field, encoded, hfield, inside⟩
    · rintro ⟨bounds, field, encoded, hfield, inside⟩
      exact ⟨bounds, encoded, field, hfield, inside⟩
  · rw [if_neg comparable, if_neg comparable, Except.ok.injEq, eq_comm]

/-- The encoded ends of a range and those of its reverse hold the same fields. -/
theorem exists_encode_reversed {bounds : FieldRange} (encoded : r.encode c position = .ok bounds) :
    ∃ bounds', r.reversed.encode c position = .ok bounds'
      ∧ ∀ field, bounds'.contains field = bounds.contains field := by
  obtain ⟨canonical, ordered, hstart, hstop, first, last⟩ := encode_eq_ok_iff.mp encoded
  rcases ordered_reversed ordered with same | ⟨inOrder, inOrder'⟩
  · exact ⟨bounds, encode_eq_ok_iff.mpr ⟨canonical, same, hstart, hstop, first, last⟩, fun _ => rfl⟩
  · -- both ends encode alike, and each of the two ranges is left as it is
    obtain rfl : r = canonical := Except.ok.inj (inOrder.ordered.symm.trans ordered)
    obtain ⟨start, stop, _, _⟩ := bounds
    subst first last
    have level : start = stop := List.le_antisymm (inOrder.le_of_encodeField hstart hstop)
      (inOrder'.le_of_encodeField hstop hstart)
    subst level
    exact ⟨⟨start, start, r.stopInclusive, r.startInclusive⟩,
      encode_eq_ok_iff.mpr ⟨_, inOrder'.ordered, hstop, hstart, rfl, rfl⟩,
      fun field => FieldRange.contains_level ..⟩

/-- What is found of a value in a range is found of it in the reverse. -/
theorem contains_reversed (comparable : r.start.comparable r.stop = true) {found : Bool}
    (inside : r.contains c position v = .ok found) :
    r.reversed.contains c position v = .ok found := by
  have ends : v.comparable r.stop = v.comparable r.start := by
    have same : r.start.datatype? = r.stop.datatype? := of_decide_eq_true comparable
    unfold Value.comparable
    rw [same]
  rw [contains_eq_ok] at inside ⊢
  change if v.comparable r.stop = true then _ else _
  rw [ends]
  by_cases typed : v.comparable r.start = true
  · rw [if_pos typed] at inside ⊢
    obtain ⟨bounds, field, encoded, hfield, inside⟩ := inside
    obtain ⟨bounds', encoded', same⟩ := exists_encode_reversed encoded
    exact ⟨bounds', field, encoded', hfield, (same field).trans inside⟩
  · rwa [if_neg typed] at inside ⊢

/-- For every codec: a range that can be put in order is put in an order that is kept. At every
position where its ends encode, the first is then not after the last. The reverse of the range can
be put in order too, and is put in the same one unless both ends encode alike; in any case what is
found of a value in the one is found of it in the other, or both fail. -/
theorem ordered_canonical (c : Codec) (r canonical : ValueRange)
    (ordered : r.ordered c = .ok canonical) :
    (canonical = r ∨ canonical = r.reversed)
      ∧ canonical.ordered c = .ok canonical
      ∧ (∀ position bounds, r.encode c position = .ok bounds → bounds.start ≤ bounds.stop)
      ∧ (∃ canonical', r.reversed.ordered c = .ok canonical'
        ∧ (canonical' = canonical ∨ c.encodeObject r.start = c.encodeObject r.stop))
      ∧ ∀ position v,
        (∃ found, r.contains c position v = .ok found ∧ r.reversed.contains c position v = .ok found)
          ∨ ∃ e e', r.contains c position v = .error e
            ∧ r.reversed.contains c position v = .error e' := by
  obtain ⟨inOrder, same⟩ := inOrder_of_ordered ordered
  obtain ⟨comparable, start, stop, hstart, hstop, _⟩ := ordered_eq_ok.mp ordered
  refine ⟨same, inOrder.ordered, fun position bounds => start_le_stop_of_encode, ?_, ?_⟩
  · rcases ordered_reversed ordered with back | ⟨h, h'⟩
    · exact ⟨canonical, back, .inl rfl⟩
    · refine ⟨r.reversed, h'.ordered, .inr ?_⟩
      have first : c.encodeField .object r.start = .ok start := hstart
      have last : c.encodeField .object r.stop = .ok stop := hstop
      rw [hstart, hstop, List.le_antisymm (h.le_of_encodeField first last)
        (h'.le_of_encodeField last first)]
  · intro position v
    have comparable' : r.reversed.start.comparable r.reversed.stop = true := by
      rwa [reversed, Value.comparable_comm]
    cases one : r.contains c position v with
    | ok found => exact .inl ⟨found, rfl, contains_reversed comparable one⟩
    | error e =>
      cases other : r.reversed.contains c position v with
      | ok found =>
        have back := contains_reversed comparable' other
        rw [reversed_reversed, one] at back
        cases back
      | error e' => exact .inr ⟨e, e', rfl, rfl⟩

/-- Two spellings of one number, the first of which does not count: neither does the last then, from
either end. -/
theorem ordered_canonical_spellings :
    let r : ValueRange := ⟨.literal "7" Xsd.integer, .literal "007" Xsd.integer, false, true⟩
    let v := Value.literal "+7" Xsd.integer
    r.ordered Codec.standard = .ok r ∧ r.reversed.ordered Codec.standard = .ok r.reversed
      ∧ r.contains Codec.standard .object v = .ok false
      ∧ r.reversed.contains Codec.standard .object v = .ok false := by
  intro r v
  have ordered : r.ordered Codec.standard = .ok r := by decide +kernel
  obtain ⟨_, _, _, _, alike⟩ := ordered_canonical Codec.standard r r ordered
  have outside : r.contains Codec.standard .object v = .ok false := by decide +kernel
  refine ⟨ordered, by decide +kernel, outside, ?_⟩
  rcases alike .object v with ⟨found, one, other⟩ | ⟨e, _, failed, _⟩
  · rw [outside] at one
    rw [other, ← one]
  · rw [outside] at failed
    cases failed

end ValueRange

end TripleIndex
