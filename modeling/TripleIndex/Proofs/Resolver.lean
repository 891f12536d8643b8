/-
  The standard resolvers, one by one. What a resolver writes it reads back as a text that it writes
  the same way (`restores_of_write`), and no byte of it reaches the ceiling of keys (`mem_write`).

  * Moments read back in the years 0 to 9999 of UTC only: outside them the text that is read has a
    signed year, and the notation with a letter for the offset has no room for the sign.
  * A text is read from all that is written (`read_of_write`), except from a leap second at the end
    of the calendar (`dateTime_read_of_ends`).
-/
import Mathlib
import TripleIndex.Proofs.Calendar.Moments
import TripleIndex.Proofs.OrderedDigits
import TripleIndex.Proofs.Outcome
import TripleIndex.Proofs.Text.Utf8
import TripleIndex.Resolver.Temporal

namespace TripleIndex.Resolver

open Calendar (Date Instant)
open Numeral (Binary Format integerText)
open Outcome (map_ok map_error bind_eq_ok bind_eq_error map_eq_ok map_eq_error error_bind)
open Text (trim)

/-- The resolver reads the data as a text that it writes as the same data. -/
def Restores (r : Resolver) (data : Bytes) (s : String) : Prop :=
  r.read data = .ok s ∧ r.write s = .ok data

/-- Whether a text, if it is a moment, lies in the years 0 to 9999 of UTC. The year is that of the
instant as it is stored. A leap second is stored as the second after it, so 9999-12-31T23:59:60Z
counts to the year 10000. -/
def InFourDigitYears (s : String) : Prop :=
  ∀ i ∈ Instant.read? (trim s.toList), 0 ≤ i.year ∧ i.year ≤ 9999

instance (s : String) : Decidable (InFourDigitYears s) :=
  inferInstanceAs (Decidable (∀ i ∈ _, _))

/-- Whether a text is a leap second at the end of the days that can be stored. -/
def EndsCalendar (s : String) : Prop :=
  ∃ i ∈ Instant.read? (trim s.toList), i.micros / 1000000 = Calendar.endSecond

instance (s : String) : Decidable (EndsCalendar s) :=
  inferInstanceAs (Decidable (∃ i ∈ _, _))

/-! ## Texts -/

theorem readText_encode (s : String) : readText (Text.Utf8.encode s) = .ok s := by
  rw [readText, Text.Utf8.decode_encode]

/-! ## Integers -/

theorem readInt64_integerText (datatype : String) (n : Int64) :
    readInt64 datatype (String.ofList (integerText n.toInt)) = .ok n := by
  have low : Int64.minValue.toInt ≤ n.toInt := by
    rw [Int64.toInt_minValue]
    exact n.minValue_le_toInt
  have high : n.toInt ≤ Int64.maxValue.toInt := by
    rw [Int64.toInt_maxValue]
    exact n.toInt_le
  rw [readInt64, String.toList_ofList, Text.trim_eq_self fun c => Numeral.isBlank_of_mem_integerText,
    Numeral.readInteger_integerText low high]
  exact congrArg Except.ok (Int64.ofInt_toInt n)

theorem readInt32_integerText (n : Int32) :
    readInt32 (String.ofList (integerText n.toInt)) = .ok n := by
  have low : Int32.minValue.toInt ≤ n.toInt := by
    rw [Int32.toInt_minValue]
    exact n.minValue_le_toInt
  have high : n.toInt ≤ Int32.maxValue.toInt := by
    rw [Int32.toInt_maxValue]
    exact n.toInt_le
  rw [readInt32, String.toList_ofList, Text.trim_eq_self fun c => Numeral.isBlank_of_mem_integerText,
    Numeral.readInteger_integerText low high]
  exact congrArg Except.ok (Int32.ofInt_toInt n)

theorem int64_restores {datatype : String} {marker : UInt8} {s : String} {data : Bytes}
    (h : (int64 datatype marker).write s = .ok data) :
    ∃ t, (int64 datatype marker).Restores data t := by
  obtain ⟨n, _, rfl⟩ := map_eq_ok.mp h
  refine ⟨String.ofList (integerText n.toInt), ?_, ?_⟩
  · change (OrderedDigits.decodeInt64 _).map _ = _
    rw [OrderedDigits.decodeInt64_encodeInt64, map_ok]
  · simp only [int64, readInt64_integerText, map_ok]

theorem int_restores {s : String} {data : Bytes} (h : int.write s = .ok data) :
    ∃ t, int.Restores data t := by
  obtain ⟨n, _, rfl⟩ := map_eq_ok.mp h
  refine ⟨String.ofList (integerText n.toInt), ?_, ?_⟩
  · change (OrderedDigits.decodeInt32 _).map _ = _
    rw [OrderedDigits.decodeInt32_encodeInt32, map_ok]
  · simp only [int, readInt32_integerText, map_ok]

/-! ## Floating-point numbers -/

theorem readBinary_text {f : Format} (name : String) {x : Binary f}
    (finite : x.magnitude < f.infinity) : readBinary f name x.text = .ok x := by
  obtain ⟨l, read, value⟩ := Binary.readLiteral_text finite
  rw [readBinary, Text.trim_eq_self fun c => Binary.isBlank_of_mem_text finite]
  simp only [read, value]

/-- The two zeros are written alike. -/
theorem encodeBinary64_congr {x y : Binary Format.binary64} {digits : Bytes}
    (h : OrderedDigits.encodeBinary64 x = .ok digits)
    (same : y.canonicalZero = x.canonicalZero) : OrderedDigits.encodeBinary64 y = .ok digits := by
  obtain ⟨finite, rfl⟩ := OrderedDigits.encodeBinary64_eq_ok h
  have below : y.magnitude < Format.binary64.infinity := by
    rwa [← Binary.magnitude_canonicalZero y, same, Binary.magnitude_canonicalZero]
  rw [OrderedDigits.encodeBinary64, Binary.isNaN_of_lt below, Binary.isInfinite_of_lt below, same]
  rfl

theorem double_restores {s : String} {data : Bytes} (h : double.write s = .ok data) :
    ∃ t, double.Restores data t := by
  obtain ⟨x, _, encoded⟩ := bind_eq_ok.mp h
  obtain ⟨finite, _⟩ := OrderedDigits.encodeBinary64_eq_ok encoded
  have below : x.canonicalZero.magnitude < Format.binary64.infinity := by
    rwa [Binary.magnitude_canonicalZero]
  refine ⟨x.canonicalZero.text, ?_, ?_⟩
  · change (OrderedDigits.decodeBinary64 _).map _ = _
    rw [OrderedDigits.decodeBinary64_encodeBinary64 encoded, map_ok]
  · change readBinary _ _ _ >>= _ = _
    rw [readBinary_text _ below]
    exact encodeBinary64_congr encoded (Binary.canonicalZero_canonicalZero x)

/-- Of single precision only finite numbers are finite in double precision. -/
theorem lt_infinity_of_convert {x : Binary Format.binary32}
    (finite : (x.convert Format.binary64).magnitude < Format.binary64.infinity) :
    x.magnitude < Format.binary32.infinity := by
  have nan : ¬ (Binary.quietNaN Format.binary64).magnitude < Format.binary64.infinity := by
    decide +kernel
  unfold Binary.convert at finite
  split at finite
  · exact absurd finite nan
  · next number =>
    split at finite
    · exact absurd finite (Nat.lt_irrefl _)
    · next inside => exact Binary.lt_infinity (by simpa using number) (by simpa using inside)

/-- Narrowing a number that was widened loses at most the sign of zero. -/
theorem canonicalZero_convert_convert {x : Binary Format.binary32}
    (below : x.magnitude < Format.binary32.infinity)
    (below' : (x.convert Format.binary64).magnitude < Format.binary64.infinity) :
    let narrow := (x.convert Format.binary64).canonicalZero.convert Format.binary32
    narrow.magnitude < Format.binary32.infinity
      ∧ (narrow.convert Format.binary64).canonicalZero
        = (x.convert Format.binary64).canonicalZero := by
  intro narrow
  by_cases zero : (x.convert Format.binary64).magnitude = 0
  · have canonical : (x.convert Format.binary64).canonicalZero
        = ⟨false, 0, Format.binary64.codes_pos⟩ := by
      unfold Binary.canonicalZero
      rw [if_pos zero]
      simp only [zero]
    have e : narrow = ⟨false, 0, Format.binary32.codes_pos⟩ := by
      change (x.convert Format.binary64).canonicalZero.convert Format.binary32 = _
      rw [canonical]
      decide +kernel
    rw [e, canonical]
    decide +kernel
  · have canonical : (x.convert Format.binary64).canonicalZero = x.convert Format.binary64 :=
      if_neg zero
    have e : narrow = x := by
      change (x.convert Format.binary64).canonicalZero.convert Format.binary32 = _
      rw [canonical]
      exact Binary.convert_convert (by decide) (by decide) below below'
    rw [e]
    exact ⟨below, rfl⟩

theorem float_restores {s : String} {data : Bytes} (h : float.write s = .ok data) :
    ∃ t, float.Restores data t := by
  obtain ⟨x, _, encoded⟩ := bind_eq_ok.mp h
  obtain ⟨finite, _⟩ := OrderedDigits.encodeBinary64_eq_ok encoded
  obtain ⟨below, same⟩ := canonicalZero_convert_convert (lt_infinity_of_convert finite) finite
  refine ⟨((x.convert Format.binary64).canonicalZero.convert Format.binary32).text, ?_, ?_⟩
  · change (OrderedDigits.decodeBinary64 _).map _ = _
    rw [OrderedDigits.decodeBinary64_encodeBinary64 encoded, map_ok]
  · change readBinary _ _ _ >>= _ = _
    rw [readBinary_text _ below]
    exact encodeBinary64_congr encoded same

/-! ## Dates and truth values -/

/-- The moments that are read fit 64 bits. -/
theorem toInt_micros {i : Instant} (h : i.date.Valid ∨ i.micros / 1000000 = Calendar.endSecond) :
    (Int64.ofInt i.micros).toInt = i.micros := by
  have range : -8334601315200 ≤ i.micros / 1000000 ∧ i.micros / 1000000 ≤ 8210266876800 := by
    rcases h with valid | ends
    · have bounds := Instant.valid_date_iff.mp valid
      have first : Calendar.daysBeforeYear Calendar.firstYear = -95746130 := by decide
      have last : Calendar.daysBeforeYear (Calendar.lastYear + 1) = 95745399 := by decide
      rw [first, last] at bounds
      unfold Calendar.epochDay at bounds
      omega
    · rw [ends]
      decide
  exact Int64.toInt_ofInt_of_le (by omega) (by omega)

theorem toInt_dayNumber {d : Date} (h : d.Valid) :
    (Int32.ofInt d.dayNumber).toInt = d.dayNumber := by
  have range := Date.dayNumber_range h
  exact Int32.toInt_ofInt_of_le (by omega) (by omega)

theorem readInstant_eq_ok {s : String} {i : Instant} (h : readInstant s = .ok i) :
    Instant.read? (trim s.toList) = some i := by
  unfold readInstant at h
  split at h
  · next found => rw [found, Except.ok.inj h]
  · cases h

theorem dateTime_restores {s : String} {data : Bytes} (h : dateTime.write s = .ok data)
    (years : InFourDigitYears s) : ∃ t, dateTime.Restores data t := by
  obtain ⟨i, read, rfl⟩ := map_eq_ok.mp h
  have year := years i (readInstant_eq_ok read)
  have valid := Instant.valid_date year
  obtain ⟨cs, written, back⟩ := Instant.read?_text? year
  refine ⟨String.ofList cs, ?_, ?_⟩
  · change OrderedDigits.decodeInt64 _ >>= _ = _
    rw [OrderedDigits.decodeInt64_encodeInt64]
    simp only [Outcome.ok_bind, toInt_micros (.inl valid), written]
  · have again : readInstant (String.ofList cs) = .ok i := by
      rw [readInstant, String.toList_ofList,
        Text.trim_eq_self fun c => Instant.isBlank_of_mem_text? valid written, back]
    simp only [dateTime, again, map_ok]

/-- What is read from a moment that was written: its text, if it has one. -/
theorem dateTime_read_eq {s : String} {data : Bytes} (h : dateTime.write s = .ok data) :
    ∃ i, Instant.read? (trim s.toList) = some i ∧ dateTime.read data = match i.text? with
      | some cs => .ok (String.ofList cs)
      | none => .error (.decode
        s!"dateTime out of range: {String.ofList (integerText i.micros)}") := by
  obtain ⟨i, read, rfl⟩ := map_eq_ok.mp h
  have found := readInstant_eq_ok read
  refine ⟨i, found, ?_⟩
  change OrderedDigits.decodeInt64 _ >>= _ = _
  rw [OrderedDigits.decodeInt64_encodeInt64]
  cases text : i.text? with
  | none => simp only [Outcome.ok_bind, toInt_micros (Instant.inside_of_read? found), text]
  | some cs => simp only [Outcome.ok_bind, toInt_micros (Instant.inside_of_read? found), text]

theorem dateTime_read_of_inside {s : String} {data : Bytes} (h : dateTime.write s = .ok data)
    (inside : ¬ EndsCalendar s) : ∃ t, dateTime.read data = .ok t := by
  obtain ⟨i, found, read⟩ := dateTime_read_eq h
  have valid : i.date.Valid :=
    (Instant.inside_of_read? found).resolve_right fun ends => inside ⟨i, found, ends⟩
  rw [Instant.text?_eq valid] at read
  exact ⟨_, read⟩

/-- The text that is read from a moment outside the years 0 to 9999 is refused. -/
theorem dateTime_refuses {s : String} {data : Bytes} (h : dateTime.write s = .ok data)
    (inside : ¬ EndsCalendar s) (sign : ¬ InFourDigitYears s) :
    ∃ t, dateTime.read data = .ok t
      ∧ dateTime.write t = .error (.invalidValue s!"Cannot parse dateTime: {t}") := by
  obtain ⟨i, found, read⟩ := dateTime_read_eq h
  have valid : i.date.Valid :=
    (Instant.inside_of_read? found).resolve_right fun ends => inside ⟨i, found, ends⟩
  have year : ¬ (0 ≤ i.year ∧ i.year ≤ 9999) := fun year => sign fun j mem => by
    rw [found] at mem
    exact Option.some.inj mem ▸ year
  obtain ⟨cs, written⟩ : ∃ cs, i.text? = some cs := ⟨_, Instant.text?_eq valid⟩
  rw [written] at read
  refine ⟨String.ofList cs, read, ?_⟩
  have refused : readInstant (String.ofList cs)
      = .error (.invalidValue s!"Cannot parse dateTime: {String.ofList cs}") := by
    rw [readInstant, String.toList_ofList,
      Text.trim_eq_self fun c => Instant.isBlank_of_mem_text? valid written,
      Instant.read?_text?_of_sign valid year written]
  simp only [dateTime, refused, Outcome.map_error]

/-- The second behind the calendar has no text. -/
theorem dateTime_read_of_ends {s : String} {data : Bytes} (h : dateTime.write s = .ok data)
    (ends : EndsCalendar s) : ∃ message, dateTime.read data = .error (.decode message) := by
  obtain ⟨i, found, read⟩ := dateTime_read_eq h
  obtain ⟨i', found', last⟩ := ends
  obtain rfl := Option.some.inj (found.symm.trans found')
  rw [Instant.text?_eq_none (Instant.not_valid_date last)] at read
  exact ⟨_, read⟩

theorem readDate_eq_ok {s : String} {d : Date} (h : readDate s = .ok d) :
    Date.read (trim s.toList) = .ok d := by
  unfold readDate at h
  split at h
  · next read => rw [read, Except.ok.inj h]
  · cases h

theorem date_restores {s : String} {data : Bytes} (h : date.write s = .ok data) :
    ∃ t, date.Restores data t := by
  obtain ⟨d, read, rfl⟩ := map_eq_ok.mp h
  have valid := Date.valid_of_read (readDate_eq_ok read)
  refine ⟨String.ofList d.text, ?_, ?_⟩
  · change OrderedDigits.decodeInt32 _ >>= _ = _
    rw [OrderedDigits.decodeInt32_encodeInt32]
    simp only [Outcome.ok_bind, toInt_dayNumber valid, Date.ofDayNumber?_dayNumber valid]
  · have again : readDate (String.ofList d.text) = .ok d := by
      rw [readDate, String.toList_ofList, Text.trim_eq_self fun c => Date.isBlank_of_mem_text,
        Date.read_text valid]
    simp only [date, again, map_ok]

/-- A truth value is written as one digit. -/
theorem boolean_write_eq_ok {s : String} {data : Bytes} (h : boolean.write s = .ok data) :
    ∃ b, readBoolean? (trim s.toList) = some b ∧ data = [if b then 0x31 else 0x30] := by
  unfold boolean at h
  simp only at h
  split at h
  · next b read => exact ⟨b, read, (Except.ok.inj h).symm⟩
  · cases h

theorem boolean_restores {s : String} {data : Bytes} (h : boolean.write s = .ok data) :
    ∃ t, boolean.Restores data t := by
  obtain ⟨b, _, rfl⟩ := boolean_write_eq_ok h
  cases b with
  | true => exact ⟨"true", rfl, by decide +kernel⟩
  | false => exact ⟨"false", rfl, by decide +kernel⟩

/-! ## All of them -/

/-- What a standard resolver writes it reads back as a text that it writes the same way; a moment
has to lie in the years that have four digits. -/
theorem restores_of_write {r : Resolver} (standard : r ∈ standard) {s : String} {data : Bytes}
    (h : r.write s = .ok data) (years : r.datatype = some Xsd.dateTime → InFourDigitYears s) :
    ∃ t, r.Restores data t := by
  simp only [Resolver.standard, List.mem_cons, List.not_mem_nil, or_false] at standard
  rcases standard with rfl | rfl | rfl | rfl | rfl | rfl | rfl | rfl | rfl | rfl
  · obtain rfl := Except.ok.inj h
    exact ⟨s, readText_encode s, rfl⟩
  · obtain rfl := Except.ok.inj h
    exact ⟨s, readText_encode s, rfl⟩
  · exact int64_restores h
  · exact int64_restores h
  · exact double_restores h
  · exact dateTime_restores h (years rfl)
  · exact float_restores h
  · exact int_restores h
  · exact boolean_restores h
  · exact date_restores h

theorem eq_dateTime {r : Resolver} (mem : r ∈ standard) (h : r.datatype = some Xsd.dateTime) :
    r = dateTime := by
  have distinct : (standard.map Resolver.datatype).Nodup := by decide +kernel
  have listed : dateTime ∈ standard := by simp [standard]
  exact List.inj_on_of_nodup_map distinct mem listed h

/-- From what a standard resolver writes a text is read, unless it is the end of the calendar. -/
theorem read_of_write {r : Resolver} (standard : r ∈ standard) {s : String} {data : Bytes}
    (h : r.write s = .ok data)
    (inside : ¬ (r.datatype = some Xsd.dateTime ∧ EndsCalendar s)) :
    ∃ t, r.read data = .ok t := by
  by_cases moment : r.datatype = some Xsd.dateTime
  · obtain rfl := eq_dateTime standard moment
    exact dateTime_read_of_inside h fun ends => inside ⟨moment, ends⟩
  · obtain ⟨t, read, _⟩ := restores_of_write standard h fun e => absurd e moment
    exact ⟨t, read⟩

/-- Resources and texts apart, nothing is read from data with a byte in it that is no digit. -/
theorem read_of_mem {r : Resolver} (standard : r ∈ standard) (noResource : r.datatype ≠ none)
    (noText : r.datatype ≠ some Xsd.string) {data : Bytes} {b : UInt8} (mem : b ∈ data)
    (none : Text.Hex.digitValue? b = none) : ∃ message, r.read data = .error (.decode message) := by
  obtain ⟨message₈, int64⟩ := OrderedDigits.decodeInt64_of_mem mem none
  obtain ⟨message₄, int32⟩ := OrderedDigits.decodeInt32_of_mem mem none
  obtain ⟨message, binary⟩ := OrderedDigits.decodeBinary64_of_mem mem none
  simp only [Resolver.standard, List.mem_cons, List.not_mem_nil, or_false] at standard
  rcases standard with rfl | rfl | rfl | rfl | rfl | rfl | rfl | rfl | rfl | rfl
  · exact absurd rfl noResource
  · exact absurd rfl noText
  · exact ⟨message₈, by simp only [long, Resolver.int64, int64, map_error]⟩
  · exact ⟨message₈, by simp only [integer, Resolver.int64, int64, map_error]⟩
  · exact ⟨message, by simp only [double, binary, map_error]⟩
  · exact ⟨message₈, by simp only [dateTime, int64, error_bind]⟩
  · exact ⟨message, by simp only [float, binary, map_error]⟩
  · exact ⟨message₄, by simp only [int, int32, map_error]⟩
  · have other (d : UInt8) (digit : Text.Hex.digitValue? d ≠ Option.none) : data ≠ [d] := by
      rintro rfl
      exact digit (List.mem_singleton.mp mem ▸ none)
    simp only [boolean, if_neg (other 0x31 (by decide)), if_neg (other 0x30 (by decide))]
    exact ⟨_, rfl⟩
  · exact ⟨message₄, by simp only [date, int32, error_bind]⟩

/-! ## Refusals -/

theorem error_of_readBinary {f : Format} {name data : String} {e : Error}
    (h : readBinary f name data = .error e) : ∃ detail, e = .invalidValue detail := by
  unfold readBinary at h
  split at h
  · cases h
  · exact ⟨_, (Except.error.inj h).symm⟩

theorem error_of_encodeBinary64 {x : Binary Format.binary64} {e : Error}
    (h : OrderedDigits.encodeBinary64 x = .error e) : ∃ detail, e = .invalidValue detail := by
  unfold OrderedDigits.encodeBinary64 at h
  split at h
  · exact ⟨_, (Except.error.inj h).symm⟩
  · split at h
    · exact ⟨_, (Except.error.inj h).symm⟩
    · cases h

theorem error_of_int64 {datatype : String} {marker : UInt8} {s : String} {e : Error}
    (h : (int64 datatype marker).write s = .error e) : ∃ detail, e = .invalidValue detail := by
  have h : readInt64 datatype s = .error e := map_eq_error.mp h
  unfold readInt64 at h
  split at h
  · cases h
  · exact ⟨_, (Except.error.inj h).symm⟩

/-- A standard resolver fails in one way: it refuses a text that is no value of its datatype. -/
theorem error_of_write {r : Resolver} (standard : r ∈ standard) {s : String} {e : Error}
    (h : r.write s = .error e) : ∃ detail, e = .invalidValue detail := by
  simp only [Resolver.standard, List.mem_cons, List.not_mem_nil, or_false] at standard
  rcases standard with rfl | rfl | rfl | rfl | rfl | rfl | rfl | rfl | rfl | rfl
  · cases h
  · cases h
  · exact error_of_int64 h
  · exact error_of_int64 h
  · rcases bind_eq_error.mp h with unread | ⟨x, _, refused⟩
    · exact error_of_readBinary unread
    · exact error_of_encodeBinary64 refused
  · have h : readInstant s = .error e := map_eq_error.mp h
    unfold readInstant at h
    split at h
    · cases h
    · exact ⟨_, (Except.error.inj h).symm⟩
  · rcases bind_eq_error.mp h with unread | ⟨x, _, refused⟩
    · exact error_of_readBinary unread
    · exact error_of_encodeBinary64 refused
  · have h : readInt32 s = .error e := map_eq_error.mp h
    unfold readInt32 at h
    split at h
    · cases h
    · exact ⟨_, (Except.error.inj h).symm⟩
  · simp only [boolean] at h
    split at h
    · cases h
    · exact ⟨_, (Except.error.inj h).symm⟩
  · have h : readDate s = .error e := map_eq_error.mp h
    unfold readDate at h
    split at h
    · cases h
    · exact ⟨_, (Except.error.inj h).symm⟩

/-! ## Bytes -/

theorem lt_of_mem_hex {bytes : Bytes} {b : UInt8} (h : b ∈ Text.Hex.encode bytes) : b < 0xFF :=
  UInt8.lt_of_le_of_lt (Text.Hex.mem_encode h).2 (by decide)

theorem lt_of_mem_encodeBinary64 {x : Binary Format.binary64} {digits : Bytes}
    (h : OrderedDigits.encodeBinary64 x = .ok digits) {b : UInt8} (hb : b ∈ digits) : b < 0xFF := by
  obtain ⟨_, rfl⟩ := OrderedDigits.encodeBinary64_eq_ok h
  exact lt_of_mem_hex hb

/-- No byte that a standard resolver writes reaches the ceiling of keys. -/
theorem mem_write {r : Resolver} (standard : r ∈ standard) {s : String} {data : Bytes}
    (h : r.write s = .ok data) {b : UInt8} (hb : b ∈ data) : b < 0xFF := by
  simp only [Resolver.standard, List.mem_cons, List.not_mem_nil, or_false] at standard
  rcases standard with rfl | rfl | rfl | rfl | rfl | rfl | rfl | rfl | rfl | rfl
  · obtain rfl := Except.ok.inj h
    exact Text.Utf8.mem_encode hb
  · obtain rfl := Except.ok.inj h
    exact Text.Utf8.mem_encode hb
  · obtain ⟨_, _, rfl⟩ := map_eq_ok.mp h
    exact lt_of_mem_hex hb
  · obtain ⟨_, _, rfl⟩ := map_eq_ok.mp h
    exact lt_of_mem_hex hb
  · obtain ⟨_, _, encoded⟩ := bind_eq_ok.mp h
    exact lt_of_mem_encodeBinary64 encoded hb
  · obtain ⟨_, _, rfl⟩ := map_eq_ok.mp h
    exact lt_of_mem_hex hb
  · obtain ⟨_, _, encoded⟩ := bind_eq_ok.mp h
    exact lt_of_mem_encodeBinary64 encoded hb
  · obtain ⟨_, _, rfl⟩ := map_eq_ok.mp h
    exact lt_of_mem_hex hb
  · obtain ⟨b, _, rfl⟩ := boolean_write_eq_ok h
    rw [List.mem_singleton.mp hb]
    cases b <;> decide
  · obtain ⟨_, _, rfl⟩ := map_eq_ok.mp h
    exact lt_of_mem_hex hb

end TripleIndex.Resolver
