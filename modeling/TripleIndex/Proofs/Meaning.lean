/-
  What values stand for, and the order of their encodings. The encodings of two values of one
  standard datatype compare as what the values stand for, whatever their texts look like
  (`Codec.encodeObject_ordered`): texts and identifiers by the codes of their characters, numbers by
  exact value, truth values with false first, dates by the calendar, moments by their time in UTC to
  the microsecond. The marker behind the data does not change this, since it starts with a byte
  below all data.
-/
import Mathlib
import TripleIndex.Proofs.Codec

namespace TripleIndex

open Calendar (Date Instant sinceEpoch)
open Numeral (Binary Format numeral? readLiteral)
open Outcome (bind_eq_ok map_eq_ok)
open Text (trim)

/-- What a value stands for. -/
inductive Meaning where
  | text (cs : List Char)
  | integer (n : Int)
  | number (q : ℚ)
  | truth (b : Bool)
  | day (d : Date)
  /-- A time in UTC, in microseconds from the epoch. -/
  | moment (micros : Int)
  deriving DecidableEq

namespace Meaning

/-- Whether a meaning comes before another one of its kind. -/
def Below : Meaning → Meaning → Prop
  | .text cs, .text ds => cs < ds
  | .integer m, .integer n => m < n
  | .number p, .number q => p < q
  | .truth a, .truth b => a < b
  | .day d, .day e => d < e
  | .moment i, .moment j => i < j
  | _, _ => False

/-- The finite number of format `f` that is nearest to a number literal. -/
def number? (f : Format) (cs : List Char) : Option Meaning :=
  match readLiteral cs with
  | .ok l =>
    let x := Binary.ofLiteral f l
    if x.magnitude < f.infinity then some (.number x.value) else none
  | .error _ => none

/-- The moment that a text writes. Second 60 is the second after second 59. -/
def moment? (cs : List Char) : Option Meaning :=
  (Instant.fields? cs).map fun (d, t, offset) => .moment (sinceEpoch d t offset / 1000)

/-- What a text of a standard datatype stands for; without a datatype it is an identifier. -/
def ofText? (datatype : Option String) (s : String) : Option Meaning :=
  let cs := trim s.toList
  if datatype = none ∨ datatype = some Xsd.string then some (.text s.toList)
  else if datatype = some Xsd.long ∨ datatype = some Xsd.integer ∨ datatype = some Xsd.int then
    (numeral? cs).map .integer
  else if datatype = some Xsd.double then number? Format.binary64 cs
  else if datatype = some Xsd.float then number? Format.binary32 cs
  else if datatype = some Xsd.boolean then (Resolver.readBoolean? cs).map .truth
  else if datatype = some Xsd.date then (Date.read cs).toOption.map .day
  else if datatype = some Xsd.dateTime then moment? cs
  else none

end Meaning

/-- What a value of a standard datatype stands for. -/
def Value.meaning? (v : Value) : Option Meaning :=
  Meaning.ofText? v.datatype? v.data

/-- Two byte strings compare as two meanings of one kind. -/
structure Meaning.Ordered (a b : Bytes) (x y : Meaning) : Prop where
  below : a < b ↔ x.Below y
  same : a = b ↔ x = y
  above : b < a ↔ y.Below x

/-- Meanings of one kind are ordered as what they are made of, and then equality is no more than not
being ordered. -/
theorem Meaning.ordered_of_lt_iff {α : Type} [LinearOrder α] {kind : α → Meaning}
    (order : ∀ k l, (kind k).Below (kind l) ↔ k < l) {a b : Bytes} {k l : α}
    (below : a < b ↔ k < l) (above : b < a ↔ l < k) : Ordered a b (kind k) (kind l) := by
  refine ⟨below.trans (order k l).symm, ?_, above.trans (order l k).symm⟩
  constructor
  · rintro rfl
    have level : k = l := le_antisymm (not_lt.mp fun lt => List.lt_irrefl _ (above.mpr lt))
      (not_lt.mp fun lt => List.lt_irrefl _ (below.mpr lt))
    rw [level]
  · intro same
    have irrefl : ¬ (kind l).Below (kind l) := fun lt => lt_irrefl l ((order l l).mp lt)
    refine List.le_antisymm (List.not_lt.mp fun lt => ?_) (List.not_lt.mp fun lt => ?_)
    · exact irrefl (same ▸ (order l k).mpr (above.mp lt))
    · exact irrefl (same ▸ (order k l).mpr (below.mp lt))

/-! ## What is written -/

namespace Resolver

variable {s t : String} {a b data : Bytes}

theorem int64_writes {datatype : String} {marker : UInt8}
    (h : (int64 datatype marker).write s = .ok data) :
    ∃ n : Int64, numeral? (trim s.toList) = some n.toInt ∧ data = OrderedDigits.encodeInt64 n := by
  obtain ⟨n, read, rfl⟩ := map_eq_ok.mp h
  refine ⟨n, ?_, rfl⟩
  unfold readInt64 at read
  split at read
  · next m written =>
    obtain ⟨value, low, high⟩ := Numeral.numeral?_of_readInteger (by decide) (by decide) written
    rw [Int64.toInt_minValue] at low
    rw [Int64.toInt_maxValue] at high
    rw [value, ← Except.ok.inj read, Int64.toInt_ofInt_of_le (by omega) (by omega)]
  · cases read

theorem int_writes (h : int.write s = .ok data) :
    ∃ n : Int32, numeral? (trim s.toList) = some n.toInt ∧ data = OrderedDigits.encodeInt32 n := by
  obtain ⟨n, read, rfl⟩ := map_eq_ok.mp h
  refine ⟨n, ?_, rfl⟩
  unfold readInt32 at read
  split at read
  · next m written =>
    obtain ⟨value, low, high⟩ := Numeral.numeral?_of_readInteger (by decide) (by decide) written
    rw [Int32.toInt_minValue] at low
    rw [Int32.toInt_maxValue] at high
    rw [value, ← Except.ok.inj read, Int32.toInt_ofInt_of_le (by omega) (by omega)]
  · cases read

theorem number?_of_readBinary {f : Format} {name : String} {x : Binary f}
    (read : readBinary f name s = .ok x) (finite : x.magnitude < f.infinity) :
    Meaning.number? f (trim s.toList) = some (.number x.value) := by
  unfold readBinary at read
  split at read
  · next l written =>
    obtain rfl := Except.ok.inj read
    unfold Meaning.number?
    rw [written]
    exact if_pos finite
  · cases read

theorem double_writes (h : double.write s = .ok data) :
    ∃ x : Binary Format.binary64, Meaning.number? Format.binary64 (trim s.toList)
      = some (.number x.value) ∧ OrderedDigits.encodeBinary64 x = .ok data := by
  obtain ⟨x, read, encoded⟩ := bind_eq_ok.mp h
  obtain ⟨finite, _⟩ := OrderedDigits.encodeBinary64_eq_ok encoded
  exact ⟨x, number?_of_readBinary read finite, encoded⟩

/-- A number of single precision is written as the same number of double precision. -/
theorem float_writes (h : float.write s = .ok data) :
    ∃ x : Binary Format.binary64, Meaning.number? Format.binary32 (trim s.toList)
      = some (.number x.value) ∧ OrderedDigits.encodeBinary64 x = .ok data := by
  obtain ⟨x, read, encoded⟩ := bind_eq_ok.mp h
  obtain ⟨finite, _⟩ := OrderedDigits.encodeBinary64_eq_ok encoded
  have below := lt_infinity_of_convert finite
  refine ⟨x.convert Format.binary64, ?_, encoded⟩
  rw [Binary.value_convert (by decide) (by decide) below finite]
  exact number?_of_readBinary read below

theorem dateTime_writes (h : dateTime.write s = .ok data) :
    ∃ n : Int64, Meaning.moment? (trim s.toList) = some (.moment n.toInt)
      ∧ data = OrderedDigits.encodeInt64 n := by
  obtain ⟨i, read, rfl⟩ := map_eq_ok.mp h
  have found := readInstant_eq_ok read
  obtain ⟨d, t, offset, fields, moment⟩ := Instant.fields?_of_read? found
  refine ⟨Int64.ofInt i.micros, ?_, rfl⟩
  rw [toInt_micros (Instant.inside_of_read? found), Instant.micros_of_ofLocal? moment,
    Meaning.moment?, fields]
  rfl

/-! ## The order of what is written -/

/-- What the resolver writes compares as what the texts stand for. -/
def KeepsOrder (r : Resolver) : Prop :=
  ∀ {s t a b}, r.write s = .ok a → r.write t = .ok b →
    ∃ x y, Meaning.ofText? r.datatype s = some x ∧ Meaning.ofText? r.datatype t = some y
      ∧ Meaning.Ordered a b x y

/-- A resolver keeps the order if it writes codes that compare as the `value` of what is coded, and
its texts stand for these values. -/
theorem keepsOrder_of_writes {r : Resolver} {κ α : Type} [LinearOrder α] (kind : α → Meaning)
    (value : κ → α) (Codes : κ → Bytes → Prop) (order : ∀ k l, (kind k).Below (kind l) ↔ k < l)
    (mono : ∀ {k l a b}, Codes k a → Codes l b → (a < b ↔ value k < value l))
    (writes : ∀ {s data}, r.write s = .ok data →
      ∃ k, Meaning.ofText? r.datatype s = some (kind (value k)) ∧ Codes k data) :
    r.KeepsOrder := by
  intro s t a b hs ht
  obtain ⟨k, meaning, codes⟩ := writes hs
  obtain ⟨l, meaning', codes'⟩ := writes ht
  exact ⟨_, _, meaning, meaning',
    Meaning.ordered_of_lt_iff order (mono codes codes') (mono codes' codes)⟩

theorem keepsOrder_text {r : Resolver} (write : ∀ s, r.write s = .ok (Text.Utf8.encode s))
    (meaning : ∀ s, Meaning.ofText? r.datatype s = some (.text s.toList)) : r.KeepsOrder := by
  refine keepsOrder_of_writes .text String.toList (fun s data => data = Text.Utf8.encode s)
    (fun _ _ => .rfl) ?_ fun {s data} h => ⟨s, meaning s, Except.ok.inj (h.symm.trans (write s))⟩
  rintro s t _ _ rfl rfl
  exact Text.Utf8.encode_lt_encode_iff s t

/-- Digits of 64 bits keep the order of the integers that they count. -/
theorem keepsOrder_int64 {r : Resolver} (kind : Int → Meaning)
    (order : ∀ k l, (kind k).Below (kind l) ↔ k < l)
    (writes : ∀ {s data}, r.write s = .ok data → ∃ n : Int64,
      Meaning.ofText? r.datatype s = some (kind n.toInt) ∧ data = OrderedDigits.encodeInt64 n) :
    r.KeepsOrder := by
  refine keepsOrder_of_writes kind Int64.toInt _ order ?_ writes
  rintro m n _ _ rfl rfl
  exact OrderedDigits.encodeInt64_lt_iff m n

theorem keepsOrder_integers {datatype : String} (marker : UInt8)
    (meaning : ∀ s, Meaning.ofText? (some datatype) s
      = (numeral? (trim s.toList)).map .integer) : (int64 datatype marker).KeepsOrder := by
  refine keepsOrder_int64 .integer (fun _ _ => .rfl) fun {s data} h => ?_
  obtain ⟨n, value, digits⟩ := int64_writes h
  refine ⟨n, ?_, digits⟩
  show Meaning.ofText? (some datatype) s = _
  rw [meaning, value]
  rfl

theorem keepsOrder_int : int.KeepsOrder := by
  refine keepsOrder_of_writes .integer Int32.toInt
    (fun n data => data = OrderedDigits.encodeInt32 n) (fun _ _ => .rfl) ?_ fun {s data} h => ?_
  · rintro m n _ _ rfl rfl
    exact OrderedDigits.encodeInt32_lt_iff m n
  · obtain ⟨n, value, digits⟩ := int_writes h
    exact ⟨n, congrArg (Option.map Meaning.integer) value, digits⟩

theorem keepsOrder_binary {r : Resolver}
    (writes : ∀ {s data}, r.write s = .ok data → ∃ x : Binary Format.binary64,
      Meaning.ofText? r.datatype s = some (.number x.value)
        ∧ OrderedDigits.encodeBinary64 x = .ok data) : r.KeepsOrder :=
  keepsOrder_of_writes .number Binary.value _ (fun _ _ => .rfl)
    OrderedDigits.encodeBinary64_lt_iff writes

theorem keepsOrder_boolean : boolean.KeepsOrder := by
  refine keepsOrder_of_writes .truth id (fun b data => data = [if b then 0x31 else 0x30])
    (fun _ _ => .rfl) ?_ fun {s data} h => ?_
  · rintro a b _ _ rfl rfl
    cases a <;> cases b <;> decide
  · obtain ⟨b, read, digit⟩ := boolean_write_eq_ok h
    exact ⟨b, congrArg (Option.map Meaning.truth) read, digit⟩

theorem keepsOrder_date : date.KeepsOrder := by
  refine keepsOrder_of_writes .day id
    (fun d data => d.Valid ∧ data = OrderedDigits.encodeInt32 (Int32.ofInt d.dayNumber))
    (fun _ _ => .rfl) ?_ fun {s data} h => ?_
  · rintro d e _ _ ⟨hd, rfl⟩ ⟨he, rfl⟩
    rw [OrderedDigits.encodeInt32_lt_iff, toInt_dayNumber hd, toInt_dayNumber he]
    exact Date.dayNumber_lt_iff (Date.inMonth_of_valid hd) (Date.inMonth_of_valid he)
  · obtain ⟨d, read, rfl⟩ := map_eq_ok.mp h
    have found := readDate_eq_ok read
    refine ⟨d, ?_, Date.valid_of_read found, rfl⟩
    show (Date.read (trim s.toList)).toOption.map Meaning.day = _
    rw [found]
    rfl

/-- Every standard resolver keeps the order of its datatype. -/
theorem keepsOrder {r : Resolver} (standard : r ∈ standard) : r.KeepsOrder := by
  simp only [Resolver.standard, List.mem_cons, List.not_mem_nil, or_false] at standard
  rcases standard with rfl | rfl | rfl | rfl | rfl | rfl | rfl | rfl | rfl | rfl
  · exact keepsOrder_text (fun _ => rfl) fun _ => rfl
  · exact keepsOrder_text (fun _ => rfl) fun _ => rfl
  · exact keepsOrder_integers _ fun _ => rfl
  · exact keepsOrder_integers _ fun _ => rfl
  · exact keepsOrder_binary double_writes
  · exact keepsOrder_int64 .moment (fun _ _ => .rfl) dateTime_writes
  · exact keepsOrder_binary float_writes
  · exact keepsOrder_int
  · exact keepsOrder_boolean
  · exact keepsOrder_date

end Resolver

/-! ## The order of objects -/

namespace Codec

/-- Two objects of one datatype stand for meanings of one kind, and their encodings compare as these
do, whatever the texts look like and also if the data of one is the start of that of the other. -/
theorem encodeObject_ordered (v w : Value) (a b : Bytes) (alike : v.datatype? = w.datatype?)
    (hv : standard.encodeObject v = .ok a) (hw : standard.encodeObject w = .ok b) :
    ∃ x y, v.meaning? = some x ∧ w.meaning? = some y
      ∧ (a < b ↔ x.Below y) ∧ (a = b ↔ x = y) ∧ (b < a ↔ y.Below x) := by
  obtain ⟨r, mem, same, data, write, free, rfl⟩ := encodeObject_eq_ok.mp hv
  obtain ⟨r', mem', same', data', write', free', rfl⟩ := encodeObject_eq_ok.mp hw
  obtain rfl : r = r' := eq_of_datatype_eq mem mem' (same.trans (alike.trans same'.symm))
  obtain ⟨x, y, meaning, meaning', ordered⟩ := Resolver.keepsOrder mem write write'
  -- the markers are the same, and below all data they start a tail
  have tail := Bytes.isTail_cons Key.markerDelimiter [r.marker]
  have irrefl : ¬ [Key.markerDelimiter, r.marker] < [Key.markerDelimiter, r.marker] :=
    List.lt_irrefl _
  refine ⟨x, y, by rw [Value.meaning?, ← same, meaning], by rw [Value.meaning?, ← same', meaning'],
    ?_, ?_, ?_⟩
  · rw [Bytes.append_tail_lt_iff free free' tail tail, ← ordered.below]
    simp [irrefl]
  · rw [List.append_left_inj, ordered.same]
  · rw [Bytes.append_tail_lt_iff free' free tail tail, ← ordered.above]
    simp [irrefl]

/-- A text and its extension, and two moments less than a microsecond apart, of which one is before
the epoch. -/
theorem encodeObject_ordered_epoch :
    let short := Value.plain "ab"
    let long := Value.plain "abc"
    let before := Value.literal "1969-12-31T23:59:59.9999999Z" Xsd.dateTime
    let epoch := Value.literal "1970-1-1T1:0:0+0100" Xsd.dateTime
    (∃ a b, standard.encodeObject short = .ok a ∧ standard.encodeObject long = .ok b ∧ a < b)
      ∧ before.meaning? = some (.moment (-1)) ∧ epoch.meaning? = some (.moment 0)
      ∧ ∃ a b, standard.encodeObject before = .ok a ∧ standard.encodeObject epoch = .ok b
        ∧ a < b := by
  intro short long before epoch
  have meaning : before.meaning? = some (.moment (-1)) := by decide +kernel
  have meaning' : epoch.meaning? = some (.moment 0) := by decide +kernel
  refine ⟨?_, meaning, meaning', ?_⟩
  · have written : standard.encodeObject short = .ok (Text.Utf8.encode "ab" ++ [0x01, 0x03]) := by
      decide +kernel
    have written' : standard.encodeObject long = .ok (Text.Utf8.encode "abc" ++ [0x01, 0x03]) := by
      decide +kernel
    obtain ⟨_, _, ⟨⟩, ⟨⟩, below, -⟩ := encodeObject_ordered short long _ _ rfl written written'
    have less : "ab".toList < "abc".toList := by decide
    exact ⟨_, _, written, written', below.mpr less⟩
  · have written : standard.encodeObject before
        = .ok (Text.Utf8.encode "7fffffffffffffff" ++ [0x01, 0x07]) := by decide +kernel
    have written' : standard.encodeObject epoch
        = .ok (Text.Utf8.encode "8000000000000000" ++ [0x01, 0x07]) := by decide +kernel
    obtain ⟨x, y, hx, hy, below, -⟩ := encodeObject_ordered before epoch _ _ rfl written written'
    obtain rfl := Option.some.inj (meaning.symm.trans hx)
    obtain rfl := Option.some.inj (meaning'.symm.trans hy)
    have less : (-1 : Int) < 0 := by decide
    exact ⟨_, _, written, written', below.mpr less⟩

end Codec

end TripleIndex
