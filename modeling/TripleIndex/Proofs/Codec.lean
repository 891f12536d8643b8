/-
  Encodings of values. An encoding is data above the delimiters, and for objects the marker of the
  resolver behind it (`encodeObject_eq_ok`), so that an encoding tells the datatype of its value
  (`comparable_of_encodeField`), and no field of a key holds a delimiter (`delimiter_lt`).

  * `decodeObject_encodeObject`: with the standard resolvers an object reads back as a value of the
    same type and the same encoding; outside the object a field reads back as the very value
    (`decodeField_of_outside`).
  * `exists_decodeObject`: every object but a leap second at the end of the calendar reads back.
-/
import Mathlib
import TripleIndex.Codec
import TripleIndex.Proofs.Resolver

namespace TripleIndex

/-- Resources are the values without a datatype. -/
theorem Value.isResource_eq (v : Value) : v.isResource = v.datatype?.isNone := by
  cases v <;> rfl

/-- Whether a value, if it is a moment, lies in the years 0 to 9999 of UTC as an instant that is
stored. The leap second 9999-12-31T23:59:60Z does not: it is stored in the year 10000. -/
def Value.InFourDigitYears (v : Value) : Prop :=
  v.datatype? = some Xsd.dateTime → Resolver.InFourDigitYears v.data

instance (v : Value) : Decidable v.InFourDigitYears :=
  inferInstanceAs (Decidable (_ → _))

/-- Whether a value is a leap second at the end of the days that can be stored. -/
def Value.EndsCalendar (v : Value) : Prop :=
  v.datatype? = some Xsd.dateTime ∧ Resolver.EndsCalendar v.data

instance (v : Value) : Decidable v.EndsCalendar :=
  inferInstanceAs (Decidable (_ ∧ _))

namespace Codec

open Outcome (bind_eq_ok bind_eq_error map_ok map_error ok_bind)

/-! ## Resolvers of a codec -/

/-- Where no key occurs twice, a table holds all resolvers. -/
theorem table_eq_some_iff {κ : Type} [DecidableEq κ] {key : Resolver → κ} {rs : List Resolver}
    (distinct : (rs.map key).Nodup) {k : κ} {r : Resolver} :
    table key rs k = some r ↔ r ∈ rs ∧ key r = k := by
  have own {r' : Resolver} (found : table key rs k = some r') : r' ∈ rs ∧ key r' = k := by
    rw [table_eq_getLast?] at found
    simpa using List.mem_of_getLast? found
  refine ⟨own, fun ⟨mem, same⟩ => ?_⟩
  obtain ⟨r', found⟩ := Option.isSome_iff_exists.mp
    (isSome_table.mpr (List.mem_map.mpr ⟨r, mem, same⟩))
  obtain ⟨mem', same'⟩ := own found
  rw [found, List.inj_on_of_nodup_map distinct mem' mem (same'.trans same.symm)]

section Resolvers

variable {c : Codec} {r : Resolver}

theorem byDatatype_eq_some_iff {datatype : Option String} :
    c.byDatatype datatype = some r ↔ r ∈ c.resolvers ∧ r.datatype = datatype :=
  table_eq_some_iff c.wellFormed.datatypes

theorem byMarker_eq_some_iff {marker : UInt8} :
    c.byMarker marker = some r ↔ r ∈ c.resolvers ∧ r.marker = marker :=
  table_eq_some_iff c.wellFormed.markers

theorem byDatatype_none (c : Codec) : c.byDatatype none = some c.resource :=
  (Option.some_get _).symm

theorem resource_mem (c : Codec) : c.resource ∈ c.resolvers ∧ c.resource.datatype = none :=
  byDatatype_eq_some_iff.mp c.byDatatype_none

theorem eq_of_datatype_eq {r r' : Resolver} (h : r ∈ c.resolvers) (h' : r' ∈ c.resolvers)
    (e : r.datatype = r'.datatype) : r = r' :=
  List.inj_on_of_nodup_map c.wellFormed.datatypes h h' e

theorem eq_of_marker_eq {r r' : Resolver} (h : r ∈ c.resolvers) (h' : r' ∈ c.resolvers)
    (e : r.marker = r'.marker) : r = r' :=
  List.inj_on_of_nodup_map c.wellFormed.markers h h' e

/-- The resolver of a value is the one of its datatype. -/
theorem resolverOf_eq_ok {v : Value} :
    c.resolverOf v = .ok r ↔ r ∈ c.resolvers ∧ r.datatype = v.datatype? := by
  rw [← byDatatype_eq_some_iff]
  cases v with
  | resource id =>
    change Except.ok c.resource = .ok r ↔ c.byDatatype none = some r
    rw [c.byDatatype_none, Except.ok.injEq, Option.some.injEq]
  | literal lexical datatype =>
    rw [resolverOf, Value.datatype?]
    cases c.byDatatype (some datatype) with
    | none => simp
    | some r' => rw [Except.ok.injEq, Option.some.injEq]

end Resolvers

/-! ## Encodings -/

theorem markerDelimiter_lt_iff (b : UInt8) :
    Key.markerDelimiter < b ↔ ¬ (b = Key.delimiter ∨ b = Key.markerDelimiter) := by
  rw [← UInt8.toNat_inj, ← UInt8.toNat_inj, UInt8.lt_iff_toNat_lt]
  change 1 < b.toNat ↔ ¬ (b.toNat = 0 ∨ b.toNat = 1)
  omega

/-- Data is encoded exactly if it is written without a delimiter. -/
theorem encodeData_eq_ok {r : Resolver} {v : Value} {data : Bytes} :
    encodeData r v = .ok data ↔
      r.write v.data = .ok data ∧ ∀ b ∈ data, Key.markerDelimiter < b := by
  unfold encodeData
  rw [bind_eq_ok]
  constructor
  · rintro ⟨written, write, h⟩
    split at h
    · cases h
    · next free =>
      rw [← Except.ok.inj h]
      refine ⟨write, fun b hb => (markerDelimiter_lt_iff b).mpr ?_⟩
      simpa using List.find?_eq_none.mp free b hb
  · rintro ⟨write, free⟩
    refine ⟨data, write, ?_⟩
    have none : data.find? (fun b => b = Key.delimiter ∨ b = Key.markerDelimiter) = none := by
      rw [List.find?_eq_none]
      intro b hb
      simpa using (markerDelimiter_lt_iff b).mp (free b hb)
    rw [none]

variable {c : Codec}

/-- An object is its data and the marker of the one resolver for its datatype. -/
theorem encodeObject_eq_ok {v : Value} {bytes : Bytes} :
    c.encodeObject v = .ok bytes ↔
      ∃ r ∈ c.resolvers, r.datatype = v.datatype? ∧ ∃ data, r.write v.data = .ok data ∧
        (∀ b ∈ data, Key.markerDelimiter < b) ∧ bytes = data ++ [Key.markerDelimiter, r.marker] := by
  unfold encodeObject
  simp only [bind_eq_ok, resolverOf_eq_ok, encodeData_eq_ok]
  constructor
  · rintro ⟨r, ⟨mem, same⟩, data, ⟨write, free⟩, h⟩
    exact ⟨r, mem, same, data, write, free, (Except.ok.inj h).symm⟩
  · rintro ⟨r, mem, same, data, write, free, rfl⟩
    exact ⟨r, ⟨mem, same⟩, data, ⟨write, free⟩, rfl⟩

/-- Outside the object a field is the data of a resource. -/
theorem encodeField_eq_ok {position : Position} (outside : position ≠ .object) {v : Value}
    {field : Bytes} :
    c.encodeField position v = .ok field ↔ v.datatype? = none ∧
      c.resource.write v.data = .ok field ∧ ∀ b ∈ field, Key.markerDelimiter < b := by
  unfold encodeField
  rw [if_neg outside]
  cases v with
  | resource id =>
    rw [if_pos (show (Value.resource id).isResource = true from rfl), encodeData_eq_ok]
    simp [Value.datatype?]
  | literal lexical datatype => simp [Value.isResource, Value.datatype?]

/-- The field of a resource with the marker of resources behind it is the resource as an object. -/
theorem encodeObject_of_outside {position : Position} (outside : position ≠ .object) {v : Value}
    {field : Bytes} (h : c.encodeField position v = .ok field) :
    c.encodeObject v = .ok (field ++ [Key.markerDelimiter, c.resource.marker]) := by
  obtain ⟨none, write, free⟩ := (encodeField_eq_ok outside).mp h
  obtain ⟨mem, datatype⟩ := c.resource_mem
  exact encodeObject_eq_ok.mpr ⟨_, mem, datatype.trans none.symm, field, write, free, rfl⟩

/-- At every position values are in the order that they have as objects: no data holds a byte that is
as low as the delimiter in front of the marker. -/
theorem encodeField_le_iff {position : Position} {v w : Value} {f g a b : Bytes}
    (hv : c.encodeField position v = .ok f) (hw : c.encodeField position w = .ok g)
    (objectV : c.encodeObject v = .ok a) (objectW : c.encodeObject w = .ok b) :
    f ≤ g ↔ a ≤ b := by
  by_cases object : position = .object
  · subst object
    change c.encodeObject v = .ok f at hv
    change c.encodeObject w = .ok g at hw
    rw [Except.ok.inj (hv.symm.trans objectV), Except.ok.inj (hw.symm.trans objectW)]
  · have freeV := ((encodeField_eq_ok object).mp hv).2.2
    have freeW := ((encodeField_eq_ok object).mp hw).2.2
    rw [encodeObject_of_outside object hv] at objectV
    rw [encodeObject_of_outside object hw] at objectW
    rw [← Except.ok.inj objectV, ← Except.ok.inj objectW,
      Bytes.append_tail_le_iff freeV freeW (Bytes.isTail_cons _ _)]

theorem marker_bounds {r : Resolver} (h : r ∈ c.resolvers) :
    Key.delimiter < r.marker ∧ r.marker < Key.ceiling := by
  have free := c.wellFormed.free r h
  have top := r.marker.toNat_lt
  simp only [isReserved, decide_eq_false_iff_not, not_or, ← UInt8.toNat_inj] at free
  rw [UInt8.lt_iff_toNat_lt, UInt8.lt_iff_toNat_lt]
  change r.marker.toNat ≠ 0 ∧ r.marker.toNat ≠ 1 ∧ r.marker.toNat ≠ 255 at free
  change 0 < r.marker.toNat ∧ r.marker.toNat < 255
  omega

/-- No field of a key holds a delimiter. -/
theorem delimiter_lt {position : Position} {v : Value} {field : Bytes}
    (h : c.encodeField position v = .ok field) : ∀ b ∈ field, Key.delimiter < b := by
  have above {b : UInt8} (hb : Key.markerDelimiter < b) : Key.delimiter < b :=
    UInt8.lt_trans (by decide) hb
  by_cases object : position = .object
  · subst object
    obtain ⟨r, mem, _, data, _, free, rfl⟩ := encodeObject_eq_ok.mp h
    intro b hb
    simp only [List.mem_append, List.mem_cons, List.not_mem_nil, or_false] at hb
    rcases hb with hb | rfl | rfl
    · exact above (free b hb)
    · decide
    · exact (marker_bounds mem).1
  · exact fun b hb => above (((encodeField_eq_ok object).mp h).2.2 b hb)

/-- Values of one encoding are of one datatype. -/
theorem comparable_of_encodeField {position : Position} {v w : Value} {field : Bytes}
    (hv : c.encodeField position v = .ok field) (hw : c.encodeField position w = .ok field) :
    v.datatype? = w.datatype? := by
  by_cases object : position = .object
  · subst object
    obtain ⟨r, mem, same, data, _, _, rfl⟩ := encodeObject_eq_ok.mp hv
    obtain ⟨r', mem', same', data', _, _, h⟩ := encodeObject_eq_ok.mp hw
    have marker : r.marker = r'.marker := by
      have last := congrArg List.getLast? h
      simpa using last
    rw [← same, ← same', eq_of_marker_eq mem mem' marker]
  · rw [((encodeField_eq_ok object).mp hv).1, ((encodeField_eq_ok object).mp hw).1]

/-- A value that does not encode as an object does not encode at any other position that it may stand
at, for the same reason. -/
theorem encodeField_of_encodeObject_error {position : Position} {v : Value} {e : Error}
    (fits : position = .object ∨ v.isResource = true) (h : c.encodeObject v = .error e) :
    c.encodeField position v = .error e := by
  unfold encodeField
  by_cases object : position = .object
  · rwa [if_pos object]
  · rw [if_neg object, if_pos (fits.resolve_left object)]
    cases v with
    | literal lexical datatype => cases fits.resolve_left object
    | resource id =>
      rcases bind_eq_error.mp h with missing | ⟨r, own, failed⟩
      · cases missing
      · obtain rfl := Except.ok.inj own
        rcases bind_eq_error.mp failed with refused | ⟨data, _, never⟩
        · exact refused
        · cases never

/-! ## The standard codec -/

theorem resource_standard : standard.resource = Resolver.resource := rfl

/-- No byte of a field reaches the ceiling of keys. -/
theorem lt_ceiling {position : Position} {v : Value} {field : Bytes}
    (h : standard.encodeField position v = .ok field) : ∀ b ∈ field, b < Key.ceiling := by
  intro b hb
  by_cases object : position = .object
  · subst object
    obtain ⟨r, mem, _, data, write, _, rfl⟩ := encodeObject_eq_ok.mp h
    simp only [List.mem_append, List.mem_cons, List.not_mem_nil, or_false] at hb
    rcases hb with hb | rfl | rfl
    · exact Resolver.mem_write mem write hb
    · decide
    · exact (marker_bounds mem).2
  · obtain ⟨_, write, _⟩ := (encodeField_eq_ok object).mp h
    exact Resolver.mem_write (resource_mem standard).1 write hb

/-- Outside the object the field of a resource is its identifier. -/
theorem encodeField_standard {position : Position} (outside : position ≠ .object) {v : Value}
    {field : Bytes} (h : standard.encodeField position v = .ok field) :
    v = .resource v.data ∧ field = Text.Utf8.encode v.data := by
  obtain ⟨none, write, _⟩ := (encodeField_eq_ok outside).mp h
  refine ⟨?_, (Except.ok.inj write).symm⟩
  cases v with
  | resource id => rfl
  | literal lexical datatype => cases none

theorem error_of_encodeData {r : Resolver} (mem : r ∈ standard.resolvers) {v : Value} {e : Error}
    (h : encodeData r v = .error e) : ∃ detail, e = .invalidValue detail := by
  rcases bind_eq_error.mp h with refused | ⟨data, _, reserved⟩
  · exact Resolver.error_of_write mem refused
  · split at reserved
    · exact ⟨_, (Except.error.inj reserved).symm⟩
    · cases reserved

/-- A value does not encode because no resolver has its datatype, or because it is refused. -/
theorem error_of_encodeField {position : Position} {v : Value} {e : Error}
    (h : standard.encodeField position v = .error e) :
    (∃ detail, e = .unsupportedType detail) ∨ ∃ detail, e = .invalidValue detail := by
  unfold encodeField at h
  split at h
  · rcases bind_eq_error.mp h with missing | ⟨r, own, failed⟩
    · refine .inl ?_
      unfold resolverOf at missing
      split at missing
      · cases missing
      · split at missing
        · cases missing
        · exact ⟨_, (Except.error.inj missing).symm⟩
    · rcases bind_eq_error.mp failed with refused | ⟨data, _, never⟩
      · exact .inr (error_of_encodeData (resolverOf_eq_ok.mp own).1 refused)
      · cases never
  · split at h
    · exact .inr (error_of_encodeData (resource_mem standard).1 h)
    · exact .inr ⟨_, (Except.error.inj h).symm⟩

theorem eq_of_encodeField {position : Position} (outside : position ≠ .object) {v w : Value}
    {field : Bytes} (hv : standard.encodeField position v = .ok field)
    (hw : standard.encodeField position w = .ok field) : v = w := by
  obtain ⟨ev, fv⟩ := encodeField_standard outside hv
  obtain ⟨ew, fw⟩ := encodeField_standard outside hw
  rw [ev, ew, Text.Utf8.encode_injective (fv.symm.trans fw)]

theorem decodeField_encode {position : Position} (outside : position ≠ .object) (id : String) :
    standard.decodeField position (Text.Utf8.encode id) = .ok (.resource id) := by
  rw [decodeField, if_neg outside, resource_standard]
  change (Resolver.readText _).map Value.resource = _
  rw [Resolver.readText_encode, map_ok]

/-- Outside the object a field reads back as its value. -/
theorem decodeField_of_outside {position : Position} (outside : position ≠ .object) {v : Value}
    {field : Bytes} (h : standard.encodeField position v = .ok field) :
    standard.decodeField position field = .ok v := by
  obtain ⟨value, rfl⟩ := encodeField_standard outside h
  rw [decodeField_encode outside, ← value]

/-- Data in front of the marker of a resolver is read by that resolver. -/
theorem decodeObject_append {r : Resolver} (mem : r ∈ c.resolvers) (data : Bytes) :
    c.decodeObject (data ++ [Key.markerDelimiter, r.marker]) = (r.read data).map fun s =>
      match r.datatype with
      | none => .resource s
      | some datatype => .literal s datatype := by
  have back : (data ++ [Key.markerDelimiter, r.marker]).reverse
      = r.marker :: Key.markerDelimiter :: data.reverse := by simp
  unfold decodeObject
  have own : c.byMarker r.marker = some r := byMarker_eq_some_iff.mpr ⟨mem, rfl⟩
  cases datatype : r.datatype with
  | none => simp only [back, if_true, own, List.reverse_reverse, datatype]
  | some _ => simp only [back, if_true, own, List.reverse_reverse, datatype]

/-- An object reads back as a value of its type and encoding. -/
theorem decodeObject_encodeObject {v : Value} {bytes : Bytes}
    (h : standard.encodeObject v = .ok bytes) (years : v.InFourDigitYears) :
    ∃ w, standard.decodeObject bytes = .ok w ∧ standard.encodeObject w = .ok bytes := by
  obtain ⟨r, mem, same, data, write, free, rfl⟩ := encodeObject_eq_ok.mp h
  obtain ⟨t, read, write'⟩ := Resolver.restores_of_write mem write fun e => years (same ▸ e)
  rw [decodeObject_append mem, read, map_ok]
  cases datatype : r.datatype with
  | none =>
    exact ⟨.resource t, rfl, encodeObject_eq_ok.mpr ⟨r, mem, datatype, data, write', free, rfl⟩⟩
  | some name =>
    exact ⟨.literal t name, rfl,
      encodeObject_eq_ok.mpr ⟨r, mem, datatype, data, write', free, rfl⟩⟩

/-- From the encoding of an object a value is read, unless it is the end of the calendar. -/
theorem exists_decodeObject {v : Value} {bytes : Bytes} (h : standard.encodeObject v = .ok bytes)
    (inside : ¬ v.EndsCalendar) : ∃ w, standard.decodeObject bytes = .ok w := by
  obtain ⟨r, mem, same, data, write, _, rfl⟩ := encodeObject_eq_ok.mp h
  obtain ⟨t, read⟩ := Resolver.read_of_write mem write (same ▸ inside)
  rw [decodeObject_append mem, read, map_ok]
  exact ⟨_, rfl⟩

theorem decodeObject_of_ends {v : Value} {bytes : Bytes} (h : standard.encodeObject v = .ok bytes)
    (ends : v.EndsCalendar) : ∃ message, standard.decodeObject bytes = .error (.decode message) := by
  obtain ⟨r, mem, same, data, write, _, rfl⟩ := encodeObject_eq_ok.mp h
  obtain rfl := Resolver.eq_dateTime mem (same.trans ends.1)
  obtain ⟨message, read⟩ := Resolver.dateTime_read_of_ends write ends.2
  rw [decodeObject_append mem, read, map_error]
  exact ⟨message, rfl⟩

/-! ## Fields read at another position -/

/-- Bytes that are read as an identifier, but not as an object. -/
def IsIdentifier (bytes : Bytes) : Prop :=
  (∃ id, Text.Utf8.encode id = bytes) ∧ Key.markerDelimiter ∉ bytes

theorem isIdentifier_anchorHash (anchor : Bytes) : IsIdentifier (Key.anchorHash anchor) := by
  constructor
  · apply Text.Utf8.exists_encode_of_lt
    intro b mem
    exact UInt8.lt_of_le_of_lt (Text.Hex.mem_encode mem).2 (by decide)
  · intro mem
    exact absurd (Text.Hex.mem_encode mem).1 (by decide)

theorem isIdentifier_of_encodeField {position : Position} (outside : position ≠ .object) {v : Value}
    {field : Bytes} (h : standard.encodeField position v = .ok field) : IsIdentifier field := by
  obtain ⟨_, text⟩ := encodeField_standard outside h
  obtain ⟨_, _, free⟩ := (encodeField_eq_ok outside).mp h
  exact ⟨⟨v.data, text.symm⟩, fun mem => UInt8.lt_irrefl _ (free _ mem)⟩

theorem IsIdentifier.exists_decodeField {bytes : Bytes} (h : IsIdentifier bytes)
    {position : Position} (outside : position ≠ .object) :
    ∃ v, standard.decodeField position bytes = .ok v := by
  obtain ⟨⟨id, rfl⟩, _⟩ := h
  exact ⟨.resource id, decodeField_encode outside id⟩

theorem IsIdentifier.decodeObject {bytes : Bytes} (h : IsIdentifier bytes) :
    ∃ message, c.decodeObject bytes = .error (.decode message) := by
  unfold Codec.decodeObject
  split
  · next marker delimiter data reversed =>
    have ne : delimiter ≠ Key.markerDelimiter := by
      rintro rfl
      apply h.2
      rw [← List.mem_reverse, reversed]
      simp
    rw [if_neg ne]
    exact ⟨_, rfl⟩
  · exact ⟨_, rfl⟩

end Codec

end TripleIndex
