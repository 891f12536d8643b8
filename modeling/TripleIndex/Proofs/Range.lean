/-
  Ranges of resources. A resource encodes at every position or at none, with its identifier in
  front (`Value.IsSubject.encodeField_eq`), so its fields are in the order of the identifiers.
  The range from a resource on ends at one identifier, the highest single character, which is not the
  highest identifier: what goes on behind that character comes after it.

  * `ValueRange.contains_onward`: the range holds what lies between its first resource and the last,
    whichever of the two comes first.
  * `ValueRange.contains_onward_exact`: for which resources the last one is no bound.
-/
import Mathlib
import TripleIndex.Proofs.Range.Ordered

namespace TripleIndex

open Outcome (ok_bind)

/-! ## Resources as fields -/

namespace Value

/-- The bytes of an identifier. -/
def bytes (v : Value) : Bytes :=
  Text.Utf8.encode v.data

/-- Whether a value can be a subject. -/
def IsSubject (v : Value) : Prop :=
  Codec.standard.encodeField .subject v = .ok v.bytes

instance (v : Value) : Decidable v.IsSubject :=
  inferInstanceAs (Decidable (_ = _))

theorem isSubject_of_encodeField {v : Value} {field : Bytes}
    (h : Codec.standard.encodeField .subject v = .ok field) : v.IsSubject ∧ field = v.bytes := by
  obtain ⟨_, rfl⟩ := Codec.encodeField_standard (by decide) h
  exact ⟨h, rfl⟩

theorem isSubject_topResource : topResource.IsSubject := by
  decide +kernel

namespace IsSubject

variable {v w : Value}

theorem datatype?_eq (h : v.IsSubject) : v.datatype? = none :=
  ((Codec.encodeField_eq_ok (by decide)).mp h).1

theorem comparable (hv : v.IsSubject) (hw : w.IsSubject) : v.comparable w = true :=
  decide_eq_true (hv.datatype?_eq.trans hw.datatype?_eq.symm)

theorem markerDelimiter_lt (h : v.IsSubject) : ∀ b ∈ v.bytes, Key.markerDelimiter < b :=
  ((Codec.encodeField_eq_ok (by decide)).mp h).2.2

/-- Subjects with the same bytes are the same. -/
theorem eq_of_bytes_eq (hv : v.IsSubject) (hw : w.IsSubject) (same : v.bytes = w.bytes) : v = w := by
  unfold IsSubject at hw
  rw [← same] at hw
  exact Codec.eq_of_encodeField (by decide) hv hw

end IsSubject

end Value

/-- What stands behind the identifier of a resource in its field: the marker, if it is an object. -/
def Position.suffix (position : Position) : Bytes :=
  if position = .object then [Key.markerDelimiter, Codec.standard.resource.marker] else []

theorem Position.isTail_suffix (position : Position) :
    Bytes.IsTail Key.markerDelimiter position.suffix := by
  unfold suffix
  split
  · exact Bytes.isTail_cons _ _
  · exact Bytes.isTail_nil _

namespace Value.IsSubject

variable {v w : Value}

/-- A subject encodes at every position. -/
theorem encodeField_eq (h : v.IsSubject) (position : Position) :
    Codec.standard.encodeField position v = .ok (v.bytes ++ position.suffix) := by
  obtain ⟨none, write, free⟩ := (Codec.encodeField_eq_ok (by decide)).mp h
  obtain ⟨mem, datatype⟩ := Codec.resource_mem Codec.standard
  unfold Position.suffix
  by_cases object : position = .object
  · subst object
    exact Codec.encodeObject_eq_ok.mpr ⟨_, mem, datatype.trans none.symm, _, write, free, rfl⟩
  · rw [if_neg object, List.append_nil]
    exact (Codec.encodeField_eq_ok object).mpr ⟨none, write, free⟩

/-- The fields of subjects are in the order of their bytes. -/
theorem append_suffix_lt_iff (hv : v.IsSubject) (hw : w.IsSubject) (position : Position) :
    v.bytes ++ position.suffix < w.bytes ++ position.suffix ↔ v.bytes < w.bytes := by
  rw [Bytes.append_tail_lt_iff hv.markerDelimiter_lt hw.markerDelimiter_lt position.isTail_suffix
    position.isTail_suffix]
  simp

theorem append_suffix_le_iff (hv : v.IsSubject) (hw : w.IsSubject) (position : Position) :
    v.bytes ++ position.suffix ≤ w.bytes ++ position.suffix ↔ v.bytes ≤ w.bytes :=
  Bytes.append_tail_le_iff hv.markerDelimiter_lt hw.markerDelimiter_lt position.isTail_suffix

end Value.IsSubject

/-- A resource that encodes at some position can be a subject. -/
theorem Value.isSubject_of_position {position : Position} {id : String} {field : Bytes}
    (h : Codec.standard.encodeField position (.resource id) = .ok field) :
    (Value.resource id).IsSubject := by
  apply (Codec.encodeField_eq_ok (by decide)).mpr
  by_cases object : position = .object
  · subst object
    obtain ⟨r, mem, none, data, write, free, _⟩ := Codec.encodeObject_eq_ok.mp h
    obtain ⟨resource, datatype⟩ := Codec.resource_mem Codec.standard
    have own : r = Codec.standard.resource := Codec.eq_of_datatype_eq mem resource
      (none.trans datatype.symm)
    rw [own] at write
    have text : data = (Value.resource id).bytes := (Except.ok.inj write).symm
    exact ⟨rfl, text ▸ write, text ▸ free⟩
  · obtain ⟨none, write, free⟩ := (Codec.encodeField_eq_ok object).mp h
    have text : field = (Value.resource id).bytes := (Except.ok.inj write).symm
    exact ⟨none, text ▸ write, text ▸ free⟩

/-! ## Resources from a first one on -/

namespace ValueRange

open Value (topResource isSubject_topResource)

/-- Whether bytes lie between two ends, given in either order. -/
def Between (one other bytes : Bytes) : Prop :=
  one ≤ bytes ∧ bytes ≤ other ∨ other ≤ bytes ∧ bytes ≤ one

instance (one other bytes : Bytes) : Decidable (Between one other bytes) :=
  inferInstanceAs (Decidable (_ ∨ _))

/-- To lie between two ends is to be not before the one, except for what comes after the other. -/
theorem between_iff_le_iff {one other bytes : Bytes} :
    (Between one other bytes ↔ one ≤ bytes) ↔
      bytes < other ∨ bytes = one ∨ bytes = other ∧ one < other := by
  have total := List.le_total one bytes
  have level : one ≤ bytes ∧ bytes ≤ one ↔ bytes = one :=
    ⟨fun ⟨le, ge⟩ => List.le_antisymm ge le, fun same => same ▸ ⟨List.le_refl _, List.le_refl _⟩⟩
  unfold Between
  by_cases before : bytes < other
  · have above : ¬ other ≤ bytes := List.not_le.mpr before
    have below : bytes ≤ other := List.le_of_lt before
    grind
  · by_cases same : bytes = other
    · subst same
      have least := List.le_refl bytes
      have split : one ≤ bytes ↔ one < bytes ∨ one = bytes := List.le_iff_lt_or_eq
      grind
    · have above : other ≤ bytes := List.not_lt.mp before
      have below : ¬ bytes ≤ other := fun le => same (List.le_antisymm le above)
      grind

variable {first v : Value}

/-- The ends of the range in the order of their encodings. -/
theorem ordered_onward (h : first.IsSubject) :
    (onward first).ordered Codec.standard
      = .ok (if topResource.bytes < first.bytes then (onward first).reversed else onward first) := by
  have top := isSubject_topResource
  have encoded := h.encodeField_eq .object
  have encodedTop := top.encodeField_eq .object
  have swaps := top.append_suffix_lt_iff h .object
  exact ordered_eq_ok.mpr ⟨h.comparable top, _, _, encoded, encodedTop, by simp only [swaps]⟩

/-- The encoded ends of the range: of the first resource and the last one, the lower comes first. -/
theorem encode_onward (h : first.IsSubject) (position : Position) :
    (onward first).encode Codec.standard position
      = .ok (if topResource.bytes < first.bytes
          then ⟨topResource.bytes ++ position.suffix, first.bytes ++ position.suffix, true, true⟩
          else ⟨first.bytes ++ position.suffix, topResource.bytes ++ position.suffix, true, true⟩) := by
  have encoded := h.encodeField_eq position
  have encodedTop := isSubject_topResource.encodeField_eq position
  refine encode_eq_ok_iff.mpr ⟨_, ordered_onward h, ?_⟩
  by_cases beyond : topResource.bytes < first.bytes
  · rw [if_pos beyond, if_pos beyond]
    exact ⟨encodedTop, encoded, rfl, rfl⟩
  · rw [if_neg beyond, if_neg beyond]
    exact ⟨encoded, encodedTop, rfl, rfl⟩

/-- The range from a resource on holds what lies between that resource and the last one. -/
theorem contains_onward (hfirst : first.IsSubject) (hv : v.IsSubject) (position : Position) :
    (onward first).contains Codec.standard position v
      = .ok (decide (Between first.bytes topResource.bytes v.bytes)) := by
  have top := isSubject_topResource
  have comparable : v.comparable (onward first).start = true := hv.comparable hfirst
  unfold contains
  rw [if_pos comparable, encode_onward hfirst, ok_bind, hv.encodeField_eq, ok_bind]
  congr 1
  unfold FieldRange.contains Between
  by_cases beyond : topResource.bytes < first.bytes
  · have above : first.bytes ≤ v.bytes → ¬ v.bytes ≤ topResource.bytes := fun le le' =>
      List.not_lt.mpr (List.le_trans le le') beyond
    simp only [if_pos beyond, if_true, top.append_suffix_le_iff hv, hv.append_suffix_le_iff hfirst]
    rw [← Bool.decide_and]
    apply decide_eq_decide.mpr
    grind
  · have below := List.not_lt.mp beyond
    simp only [if_neg beyond, if_true, hfirst.append_suffix_le_iff hv, hv.append_suffix_le_iff top]
    rw [← Bool.decide_and]
    apply decide_eq_decide.mpr
    have between : topResource.bytes ≤ v.bytes ∧ v.bytes ≤ first.bytes →
        first.bytes ≤ v.bytes ∧ v.bytes ≤ topResource.bytes := fun ⟨le, le'⟩ =>
      ⟨List.le_trans below le, List.le_trans le' below⟩
    grind

/-- Up to the last resource, the range from a resource on holds what is not before it. -/
theorem contains_onward_of_le (hfirst : first.IsSubject) (le : first.bytes ≤ topResource.bytes)
    (hv : v.IsSubject) (top : v.bytes ≤ topResource.bytes) (position : Position) :
    (onward first).contains Codec.standard position v = .ok (decide (first.bytes ≤ v.bytes)) := by
  rw [contains_onward hfirst hv]
  congr 1
  apply decide_eq_decide.mpr
  unfold Between
  constructor
  · rintro (⟨le', _⟩ | ⟨behind, _⟩)
    · exact le'
    · exact List.le_trans le behind
  · exact fun le' => .inl ⟨le', top⟩

/-- Membership of a resource in the range from another one on never fails: the range holds what lies
between its first resource and the last one, whichever of them comes first. So it holds a resource
exactly if that is not before the first one, as long as the resource is before the last one, or is the
first one, or is the last one with the first before it. Of all others that come after the last one it
holds none that is behind the first one, and each that is before it. -/
theorem contains_onward_exact (position : Position) {first id : String} {start field : Bytes}
    (hfirst : Codec.standard.encodeField position (.resource first) = .ok start)
    (hid : Codec.standard.encodeField position (.resource id) = .ok field) :
    let lower := Text.Utf8.encode first
    let bytes := Text.Utf8.encode id
    let top := topResource.bytes
    ∃ found, (onward (.resource first)).contains Codec.standard position (.resource id) = .ok found
      ∧ (found = true ↔ lower ≤ bytes ∧ bytes ≤ top ∨ top ≤ bytes ∧ bytes ≤ lower)
      ∧ ((found = true ↔ lower ≤ bytes) ↔ bytes < top ∨ bytes = lower ∨ bytes = top ∧ lower < top) := by
  intro lower bytes top
  refine ⟨_, contains_onward (Value.isSubject_of_position hfirst) (Value.isSubject_of_position hid)
    position, decide_eq_true_iff, ?_⟩
  rw [decide_eq_true_iff]
  exact between_iff_le_iff

/-- A first resource behind the last one: the range holds one that is before it. -/
theorem contains_onward_exact_swapped :
    let first := String.ofList [Char.ofNat 0x10FFFF, 'b']
    let id := String.ofList [Char.ofNat 0x10FFFF, 'a']
    (onward (.resource first)).contains Codec.standard .object (.resource id) = .ok true
      ∧ ¬ Text.Utf8.encode first ≤ Text.Utf8.encode id := by
  intro first id
  have start : Codec.standard.encodeField .object (.resource first)
      = .ok [0xF4, 0x8F, 0xBF, 0xBF, 0x62, 0x01, 0x02] := by decide +kernel
  have field : Codec.standard.encodeField .object (.resource id)
      = .ok [0xF4, 0x8F, 0xBF, 0xBF, 0x61, 0x01, 0x02] := by decide +kernel
  obtain ⟨found, contains, between, -⟩ := contains_onward_exact .object start field
  have inside : found = true := between.mpr (.inr (by decide +kernel))
  exact ⟨inside ▸ contains, by decide +kernel⟩

/-- A resource that goes on behind the highest character comes after `a` and is not in the range from
`a` on. -/
theorem contains_onward_misses :
    let beyond := Value.resource (String.ofList [Char.ofNat 0x10FFFF, 'x'])
    (∃ field, Codec.standard.encodeField .subject beyond = .ok field)
      ∧ (Value.resource "a").bytes ≤ beyond.bytes
      ∧ (onward (.resource "a")).contains Codec.standard .subject beyond = .ok false := by
  intro beyond
  exact ⟨⟨[0xF4, 0x8F, 0xBF, 0xBF, 0x78], by decide +kernel⟩, by decide +kernel, by decide +kernel⟩

end ValueRange

end TripleIndex
