/-
  The order of row keys. Under every codec the fields of a key stay above the delimiter, so keys are
  in the order of their fields (`RowFormat.key_lt_key_iff`), with the hash of the first field in front
  if keys are hashed. Of one predicate, the keys that start with it are in the order of the objects,
  and those of one object in the order of the subjects (`RowFormat.key_pos_lt_iff`).
-/
import Mathlib
import TripleIndex.Proofs.Row

namespace TripleIndex

/-- No field of a statement holds a delimiter. -/
theorem Statement.Encodes.delimiter_lt {c : Codec} {s : Statement} {field : Position → Bytes}
    (h : s.Encodes c field) (position : Position) : ∀ b ∈ field position, Key.delimiter < b := by
  cases value : s.value? position with
  | none =>
    rw [h.of_none value]
    exact List.forall_mem_nil _
  | some v => exact Codec.delimiter_lt (h.of_value? value)

namespace RowFormat

variable {format : RowFormat} {layout : Layout} {s t : Statement} {field field' : Position → Bytes}

theorem delimiter_lt_keyFields {fields : List Bytes} (h : ∀ f ∈ fields, ∀ b ∈ f, Key.delimiter < b) :
    ∀ f ∈ format.keyFields fields, ∀ b ∈ f, Key.delimiter < b := by
  unfold keyFields
  split
  · exact List.forall_mem_cons.mpr ⟨(Key.isField_anchorHash _).delimiter_lt, h⟩
  · exact h

section Keys

variable (hs : s.Encodes format.codec field) (ht : t.Encodes format.codec field')
include hs ht

/-- Keys are in the order of their fields. -/
theorem key_lt_key_iff (layout : Layout) :
    format.key (layout.fields.map field) < format.key (layout.fields.map field') ↔
      format.keyFields (layout.fields.map field) < format.keyFields (layout.fields.map field') := by
  rw [key_eq, key_eq]
  apply Key.join_lt_join_iff
  · exact delimiter_lt_keyFields (List.forall_mem_map.mpr fun position _ => hs.delimiter_lt position)
  · exact delimiter_lt_keyFields (List.forall_mem_map.mpr fun position _ => ht.delimiter_lt position)
  · exact length_keyFields (by simp)

/-- Keys tell their fields. -/
theorem key_eq_key_iff (layout : Layout) :
    format.key (layout.fields.map field) = format.key (layout.fields.map field') ↔
      layout.fields.map field = layout.fields.map field' := by
  rw [key_eq, key_eq, Key.join_eq_join_iff, keyFields_inj]
  · exact delimiter_lt_keyFields (List.forall_mem_map.mpr fun position _ => hs.delimiter_lt position)
  · exact delimiter_lt_keyFields (List.forall_mem_map.mpr fun position _ => ht.delimiter_lt position)
  · exact length_keyFields (by simp)

/-- Keys of one predicate are in the order of the objects, and then of the subjects. -/
theorem key_pos_lt_iff (predicate : field .predicate = field' .predicate) :
    format.key (Layout.pos.fields.map field) < format.key (Layout.pos.fields.map field') ↔
      field .object < field' .object
        ∨ field .object = field' .object ∧ field .subject < field' .subject := by
  have fields (field : Position → Bytes) :
      Layout.pos.fields.map field = [field .predicate, field .object, field .subject] := rfl
  rw [key_lt_key_iff hs ht .pos, fields, fields, keyFields, keyFields]
  cases hashed : format.hashedKeys with
  | true => simp [List.cons_lt_cons_iff, predicate]
  | false => simp [List.cons_lt_cons_iff, predicate]

end Keys

/-- Rows of one layout are in the order of the encoded fields of their statements, one field after
the other, with the hash of the first field in front of them if keys are hashed. In particular rows
of one predicate are in the order of the encodings of their objects, and then of their subjects. -/
theorem write_ordered (format : RowFormat) (layout : Layout) {s t : Statement} {row row' : Row}
    (hs : format.write layout s = .ok row) (ht : format.write layout t = .ok row') :
    ∃ field field', s.Encodes format.codec field ∧ t.Encodes format.codec field'
      ∧ (row.key < row'.key ↔
        format.keyFields (layout.fields.map field) < format.keyFields (layout.fields.map field'))
      ∧ (row.key = row'.key ↔ layout.fields.map field = layout.fields.map field')
      ∧ (layout = .pos → field .predicate = field' .predicate →
        (row.key < row'.key ↔ field .object < field' .object
          ∨ field .object = field' .object ∧ field .subject < field' .subject)) := by
  obtain ⟨field, encodes, _, rfl⟩ := eq_rowOf_of_write hs
  obtain ⟨field', encodes', _, rfl⟩ := eq_rowOf_of_write ht
  refine ⟨field, field', encodes, encodes', key_lt_key_iff encodes encodes' layout,
    key_eq_key_iff encodes encodes' layout, ?_⟩
  rintro rfl predicate
  exact key_pos_lt_iff encodes encodes' predicate

/-- Two hashed rows of one predicate, the object of one of which is the start of that of the other:
the marker behind the shorter one is below what the longer one goes on with, whatever the subjects. -/
theorem write_ordered_prefix :
    let format : RowFormat := ⟨Codec.standard, true⟩
    let s := Statement.triple (.resource "b") (.resource "p") (.plain "x")
    let t := Statement.triple (.resource "a") (.resource "p") (.plain "xy")
    ∃ row row', format.write .pos s = .ok row ∧ format.write .pos t = .ok row'
      ∧ row.key < row'.key := by
  intro format s t
  let hash : Bytes := Key.anchorHash [0x70]
  let row : Row := ⟨hash ++ [0x00, 0x70, 0x00, 0x78, 0x01, 0x03, 0x00, 0x62], [], [], none⟩
  let row' : Row := ⟨hash ++ [0x00, 0x70, 0x00, 0x78, 0x79, 0x01, 0x03, 0x00, 0x61], [], [], none⟩
  have hs : format.write .pos s = .ok row := by decide +kernel
  have ht : format.write .pos t = .ok row' := by decide +kernel
  obtain ⟨field, field', encodes, encodes', -, -, ordered⟩ := write_ordered format .pos hs ht
  have predicate : field .predicate = field' .predicate :=
    Except.ok.inj (encodes.predicate.symm.trans encodes'.predicate)
  have object : field .object = [0x78, 0x01, 0x03] :=
    Except.ok.inj (encodes.object.symm.trans (by decide +kernel))
  have object' : field' .object = [0x78, 0x79, 0x01, 0x03] :=
    Except.ok.inj (encodes'.object.symm.trans (by decide +kernel))
  refine ⟨row, row', hs, ht, (ordered rfl predicate).mpr (.inl ?_)⟩
  rw [object, object']
  decide

end RowFormat

end TripleIndex
