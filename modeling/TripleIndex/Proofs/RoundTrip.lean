/-
  Rows read back. A row of any layout leads back to its statement with the object in canonical form
  (`RowFormat.round_trip`), except that a leap second at the end of the calendar is written but
  cannot be read (`RowFormat.round_trip_leap_second`). Two statements that share their cell in one
  layout share it in all that take both.
-/
import Mathlib
import TripleIndex.Proofs.Row

namespace TripleIndex.RowFormat

open Outcome (bind_eq_ok ok_bind)

variable {format : RowFormat} {layout : Layout} {s : Statement} {row : Row}

/-- A row of a statement reads back as the statement with the object that its encoding stands for,
unless the object is a leap second at the end of the calendar; from that row nothing is read. The
graph is never lost or gained. Two statements have one cell in a layout exactly if they have one
cell in any other layout that takes both. -/
theorem round_trip (hashed : Bool) (layout : Layout) (s : Statement) (row : Row)
    (written : (⟨Codec.standard, hashed⟩ : RowFormat).write layout s = .ok row) :
    let format : RowFormat := ⟨Codec.standard, hashed⟩
    (¬ s.object.EndsCalendar → ∃ object,
        (Codec.standard.encodeObject s.object >>= Codec.standard.decodeObject) = .ok object
          ∧ format.read layout row = .ok { s with object := object })
      ∧ (s.object.EndsCalendar → ∃ message, format.read layout row = .error (.decode message))
      ∧ (∀ decoded, format.read layout row = .ok decoded → decoded.context = s.context)
      ∧ ∀ u row', format.write layout u = .ok row' →
        ∀ other rowₛ rowᵤ, format.write other s = .ok rowₛ → format.write other u = .ok rowᵤ →
          (row.cellKey = row'.cellKey ↔ rowₛ.cellKey = rowᵤ.cellKey) := by
  intro format
  obtain ⟨field, encodes, takes, rfl⟩ := eq_rowOf_of_write written
  have back {object : Value}
      (canonical : Codec.standard.decodeObject (field .object) = .ok object) :
      format.read layout (format.rowOf layout s field) = .ok { s with object := object } :=
    read_rowOf rfl encodes takes canonical
  have failed {e : Error} (failed : Codec.standard.decodeObject (field .object) = .error e) :
      format.read layout (format.rowOf layout s field) = .error e :=
    read_rowOf_error rfl encodes takes failed
  refine ⟨fun inside => ?_, fun ends => ?_, fun decoded read => ?_, ?_⟩
  · obtain ⟨object, canonical⟩ := Codec.exists_decodeObject encodes.object inside
    refine ⟨object, ?_, back canonical⟩
    rw [encodes.object, ok_bind, canonical]
  · obtain ⟨message, missing⟩ := Codec.decodeObject_of_ends encodes.object ends
    exact ⟨message, failed missing⟩
  · cases canonical : Codec.standard.decodeObject (field .object) with
    | error e =>
      rw [failed canonical] at read
      cases read
    | ok object =>
      rw [back canonical] at read
      rw [← Except.ok.inj read]
  · intro u row' written' other rowₛ rowᵤ writtenₛ writtenᵤ
    obtain ⟨field', encodes', _, rfl⟩ := eq_rowOf_of_write written'
    rw [eq_rowOf encodes writtenₛ, eq_rowOf encodes' writtenᵤ, cellKey_eq_iff encodes encodes',
      cellKey_eq_iff encodes encodes']

/-- A statement in a named graph, read back with its number in canonical form. -/
theorem round_trip_named :
    let s := ((Statement.triple (.resource "a") (.resource "p")
      (.literal "007" Xsd.integer)).inContext (.resource "g")).visibleTo [0x78]
    ∃ row object, (⟨Codec.standard, false⟩ : RowFormat).write .spo s = .ok row
      ∧ (⟨Codec.standard, false⟩ : RowFormat).read .spo row = .ok { s with object := object } := by
  intro s
  have written : (⟨Codec.standard, false⟩ : RowFormat).write .spo s
      = .ok ⟨[0x61, 0x00, 0x70, 0x00, 0x38] ++ List.replicate 14 0x30 ++ [0x37, 0x01, 0x05], [0x67],
        [0x78], none⟩ := by decide +kernel
  obtain ⟨object, _, read⟩ := (round_trip false .spo s _ written).1 (by decide +kernel)
  exact ⟨_, object, written, read⟩

/-- The leap second at the end of the last year is written as the second after it, which has no
text. -/
theorem round_trip_leap_second :
    let s := Statement.triple (.resource "a") (.resource "p")
      (.literal "+262142-12-31T23:59:60" Xsd.dateTime)
    ∃ row, (⟨Codec.standard, false⟩ : RowFormat).write .spo s = .ok row
      ∧ (⟨Codec.standard, false⟩ : RowFormat).read .spo row
        = .error (.decode "dateTime out of range: 8210266876800000000") := by
  intro s
  let row : Row :=
    ⟨[0x61, 0x00, 0x70, 0x00] ++ Text.Utf8.encode "f1f0ba397ed1e000" ++ [0x01, 0x07], [], [], none⟩
  exact ⟨row, by decide +kernel, by decide +kernel⟩

end TripleIndex.RowFormat
