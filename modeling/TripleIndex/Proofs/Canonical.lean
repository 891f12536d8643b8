/-
  Values that were encoded and read back. What is read is canonical: it has the datatype and the
  encoding of the value that was written, so reading and writing once more change nothing
  (`Codec.canonical_form`). Moments are the exception (`Codec.canonical_moment`). Outside the years
  0 to 9999 their text has a signed year and the letter for UTC, which no notation reads together:
  such a moment is written and read, but what was read cannot be written again.
-/
import Mathlib
import TripleIndex.Proofs.Codec

namespace TripleIndex

open Numeral (Binary Format)
open Outcome (bind_eq_ok map_ok ok_bind error_bind)

/-- A value in the form in which it is read back: a resource, a text, or a number or truth value. -/
inductive Value.Canonical : Value → Prop
  | resource (id : String) : Canonical (.resource id)
  | plain (lexical : String) : Canonical (.plain lexical)
  | int (n : Int32) : Canonical (.int n)
  | long (n : Int64) : Canonical (.long n)
  | integer (n : Int64) : Canonical (.integer n)
  | double (x : Binary Format.binary64) : Canonical (.double x)
  | boolean (b : Bool) : Canonical (.boolean b)

namespace Resolver

/-! ## Canonical texts -/

/-- The name of a number that is not finite reads as such a number. -/
theorem readBinary_name {name : String} {x y : Binary Format.binary64}
    (above : ¬ x.magnitude < Format.binary64.infinity)
    (read : readBinary Format.binary64 name x.text = .ok y) :
    ¬ y.magnitude < Format.binary64.infinity := by
  have named {text : String} {l : Numeral.Literal} (e : x.text = text)
      (found : Numeral.readLiteral (Text.trim text.toList) = .ok l) :
      y = Binary.ofLiteral Format.binary64 l := by
    rw [e, readBinary, found] at read
    exact (Except.ok.inj read).symm
  by_cases nan : x.isNaN = true
  · have text : x.text = "NaN" := by rw [Binary.text, Binary.textWith, if_pos nan]
    rw [named text (l := .nan) (by decide +kernel)]
    decide +kernel
  · have infinite : x.isInfinite = true := by
      unfold Binary.isNaN at nan
      unfold Binary.isInfinite
      rw [decide_eq_true_eq] at nan
      rw [beq_iff_eq]
      omega
    have text : x.text = String.ofList (if x.negative then "-inf".toList else "inf".toList) := by
      rw [Binary.text, Binary.textWith, if_neg nan, infinite]
      rfl
    cases sign : x.negative with
    | true =>
      rw [sign] at text
      rw [named text (l := .infinite true) (by decide +kernel)]
      decide +kernel
    | false =>
      rw [sign] at text
      rw [named text (l := .infinite false) (by decide +kernel)]
      decide +kernel

theorem double_reads {x : Binary Format.binary64} {data : Bytes}
    (h : double.write x.canonicalZero.text = .ok data) :
    double.read data = .ok x.canonicalZero.text := by
  obtain ⟨y, read, encoded⟩ := bind_eq_ok.mp h
  obtain ⟨finite, _⟩ := OrderedDigits.encodeBinary64_eq_ok encoded
  by_cases below : x.canonicalZero.magnitude < Format.binary64.infinity
  · rw [readBinary_text _ below] at read
    obtain rfl := Except.ok.inj read
    change (OrderedDigits.decodeBinary64 _).map _ = _
    rw [OrderedDigits.decodeBinary64_encodeBinary64 encoded, map_ok,
      Binary.canonicalZero_canonicalZero]
  · exact absurd finite (readBinary_name below read)

theorem int64_reads {datatype : String} {marker : UInt8} {n : Int64} {data : Bytes}
    (h : (int64 datatype marker).write (String.ofList (Numeral.integerText n.toInt)) = .ok data) :
    (int64 datatype marker).read data = .ok (String.ofList (Numeral.integerText n.toInt)) := by
  simp only [int64, readInt64_integerText, map_ok] at h
  change (OrderedDigits.decodeInt64 _).map _ = _
  rw [← Except.ok.inj h, OrderedDigits.decodeInt64_encodeInt64, map_ok]

theorem int_reads {n : Int32} {data : Bytes}
    (h : int.write (String.ofList (Numeral.integerText n.toInt)) = .ok data) :
    int.read data = .ok (String.ofList (Numeral.integerText n.toInt)) := by
  simp only [int, readInt32_integerText, map_ok] at h
  change (OrderedDigits.decodeInt32 _).map _ = _
  rw [← Except.ok.inj h, OrderedDigits.decodeInt32_encodeInt32, map_ok]

theorem boolean_reads {b : Bool} {data : Bytes}
    (h : boolean.write (if b then "true" else "false") = .ok data) :
    boolean.read data = .ok (if b then "true" else "false") := by
  cases b with
  | true =>
    have written : boolean.write "true" = .ok [0x31] := by decide +kernel
    obtain rfl := Except.ok.inj (written.symm.trans h)
    rfl
  | false =>
    have written : boolean.write "false" = .ok [0x30] := by decide +kernel
    obtain rfl := Except.ok.inj (written.symm.trans h)
    rfl

end Resolver

namespace Codec

/-- From what its resolver writes for a canonical value its own text is read. -/
theorem read_of_canonical {v : Value} (canonical : v.Canonical) {r : Resolver}
    (mem : r ∈ standard.resolvers) (same : r.datatype = v.datatype?) {data : Bytes}
    (h : r.write v.data = .ok data) : r.read data = .ok v.data := by
  have only {r' : Resolver} (mem' : r' ∈ standard.resolvers) (same' : r'.datatype = v.datatype?) :
      r = r' := eq_of_datatype_eq mem mem' (same.trans same'.symm)
  cases canonical with
  | resource id =>
    obtain rfl : r = Resolver.resource := only (by simp [standard, Resolver.standard]) rfl
    obtain rfl := Except.ok.inj h
    exact Resolver.readText_encode id
  | plain lexical =>
    obtain rfl : r = Resolver.string := only (by simp [standard, Resolver.standard]) rfl
    obtain rfl := Except.ok.inj h
    exact Resolver.readText_encode lexical
  | int n =>
    obtain rfl : r = Resolver.int := only (by simp [standard, Resolver.standard]) rfl
    exact Resolver.int_reads h
  | long n =>
    obtain rfl : r = Resolver.long := only (by simp [standard, Resolver.standard]) rfl
    exact Resolver.int64_reads h
  | integer n =>
    obtain rfl : r = Resolver.integer := only (by simp [standard, Resolver.standard]) rfl
    exact Resolver.int64_reads h
  | double x =>
    obtain rfl : r = Resolver.double := only (by simp [standard, Resolver.standard]) rfl
    exact Resolver.double_reads h
  | boolean b =>
    obtain rfl : r = Resolver.boolean := only (by simp [standard, Resolver.standard]) rfl
    exact Resolver.boolean_reads h

theorem decodeObject_of_canonical {v : Value} (canonical : v.Canonical) {bytes : Bytes}
    (h : standard.encodeObject v = .ok bytes) : standard.decodeObject bytes = .ok v := by
  obtain ⟨r, mem, same, data, write, _, rfl⟩ := encodeObject_eq_ok.mp h
  rw [decodeObject_append mem, read_of_canonical canonical mem same write, map_ok, same]
  cases v <;> rfl

/-! ## What is read back -/

/-- An object that is no moment reads back as a value of its kind, its datatype and its encoding,
from which the same value is read again. Values in canonical form read back as they are, and so do
all values outside the object. -/
theorem canonical_form :
    (∀ v bytes, v.datatype? ≠ some Xsd.dateTime →
      standard.encodeField .object v = .ok bytes →
      ∃ w, standard.decodeField .object bytes = .ok w
        ∧ w.isResource = v.isResource ∧ w.datatype? = v.datatype?
        ∧ standard.encodeField .object w = .ok bytes
        ∧ (standard.encodeField .object w >>= standard.decodeField .object) = .ok w
        ∧ (v.Canonical → w = v))
      ∧ ∀ position v field, position ≠ .object → standard.encodeField position v = .ok field →
        standard.decodeField position field = .ok v := by
  refine ⟨fun v bytes noMoment encoded => ?_, fun position v field outside encoded =>
    decodeField_of_outside outside encoded⟩
  obtain ⟨w, decoded, again⟩ :=
    decodeObject_encodeObject encoded fun moment => absurd moment noMoment
  have same : w.datatype? = v.datatype? :=
    comparable_of_encodeField (show standard.encodeField .object w = .ok bytes from again) encoded
  have kind : w.isResource = v.isResource := by
    rw [Value.isResource_eq, Value.isResource_eq, same]
  refine ⟨w, decoded, kind, same, again, bind_eq_ok.mpr ⟨bytes, again, decoded⟩,
    fun canonical => ?_⟩
  rw [decodeObject_of_canonical canonical encoded] at decoded
  exact (Except.ok.inj decoded).symm

/-- A date of a negative year with one digit for its month, a number of single precision, and an
identifier. -/
theorem canonical_form_ides :
    (∃ w bytes, standard.encodeField .object (.literal " -44-3-15" Xsd.date) = .ok bytes
      ∧ standard.decodeField .object bytes = .ok w ∧ standard.encodeField .object w = .ok bytes)
    ∧ (∃ w bytes, standard.encodeField .object (.literal "+1e-1" Xsd.float) = .ok bytes
      ∧ standard.decodeField .object bytes = .ok w ∧ standard.encodeField .object w = .ok bytes)
    ∧ standard.decodeField .subject [0x61] = .ok (.resource "a") := by
  have ides : standard.encodeField .object (.literal " -44-3-15" Xsd.date)
      = .ok (Text.Utf8.encode "7fffc016" ++ [0x01, 0x0B]) := by decide +kernel
  have tenth : standard.encodeField .object (.literal "+1e-1" Xsd.float)
      = .ok (Text.Utf8.encode "bfb99999a0000000" ++ [0x01, 0x08]) := by decide +kernel
  obtain ⟨w, read, _, _, again, _⟩ := canonical_form.1 _ _ (by decide) ides
  obtain ⟨w', read', _, _, again', _⟩ := canonical_form.1 _ _ (by decide) tenth
  exact ⟨⟨w, _, ides, read, again⟩, ⟨w', _, tenth, read', again'⟩,
    canonical_form.2 .subject (.resource "a") [0x61] (by decide) (by decide +kernel)⟩

/-- A moment is read back unless it is a leap second at the end of the calendar. What is read has
the encoding of the moment in the years 0 to 9999 of UTC, and is refused outside them. -/
theorem canonical_moment (lexical : String) (bytes : Bytes)
    (encoded : standard.encodeObject (.literal lexical Xsd.dateTime) = .ok bytes) :
    let v := Value.literal lexical Xsd.dateTime
    (v.EndsCalendar → ∃ message, standard.decodeObject bytes = .error (.decode message))
      ∧ (¬ v.EndsCalendar → ∃ text,
        standard.decodeObject bytes = .ok (.literal text Xsd.dateTime)
          ∧ standard.encodeObject (.literal text Xsd.dateTime) =
            if v.InFourDigitYears then .ok bytes
            else .error (.invalidValue s!"Cannot parse dateTime: {text}")) := by
  intro v
  refine ⟨decodeObject_of_ends encoded, fun inside => ?_⟩
  obtain ⟨r, mem, same, data, write, free, rfl⟩ := encodeObject_eq_ok.mp encoded
  obtain rfl := Resolver.eq_dateTime mem same
  have inside' : ¬ Resolver.EndsCalendar lexical := fun ends => inside ⟨rfl, ends⟩
  by_cases years : v.InFourDigitYears
  · obtain ⟨text, read, write'⟩ := Resolver.dateTime_restores write (years rfl)
    refine ⟨text, ?_, ?_⟩
    · rw [decodeObject_append mem, read]
      rfl
    · rw [if_pos years, encodeObject_eq_ok]
      exact ⟨_, mem, rfl, data, write', free, rfl⟩
  · obtain ⟨text, read, refused⟩ :=
      Resolver.dateTime_refuses write inside' fun own => years fun _ => own
    refine ⟨text, ?_, ?_⟩
    · rw [decodeObject_append mem, read]
      rfl
    · have resolver : standard.resolverOf (.literal text Xsd.dateTime) = .ok Resolver.dateTime :=
        resolverOf_eq_ok.mpr ⟨mem, rfl⟩
      rw [if_neg years, encodeObject, resolver, ok_bind, encodeData]
      change (Resolver.dateTime.write text >>= _) >>= _ = _
      rw [refused]
      rfl

/-- Noon of a leap day, east of UTC. -/
theorem canonical_moment_noon :
    let v := Value.literal "2024-02-29T12:00:00.5+05:30" Xsd.dateTime
    ∃ text bytes, standard.encodeObject v = .ok bytes
      ∧ standard.decodeObject bytes = .ok (.literal text Xsd.dateTime)
      ∧ standard.encodeObject (.literal text Xsd.dateTime) = .ok bytes := by
  intro v
  have encoded : standard.encodeObject v
      = .ok (Text.Utf8.encode "8006127f638b8b20" ++ [0x01, 0x07]) := by decide +kernel
  obtain ⟨text, read, again⟩ := (canonical_moment _ _ encoded).2 (by decide +kernel)
  rw [if_pos (by decide +kernel)] at again
  exact ⟨text, _, encoded, read, again⟩

/-- The last hour of the year 9999 one hour west of UTC is in the next year there, and what is read
back cannot be written. -/
theorem canonical_moment_last_hour :
    let v := Value.literal "9999-12-31T23:59:59-01:00" Xsd.dateTime
    let w := Value.literal "+10000-01-01T00:59:59Z" Xsd.dateTime
    (standard.encodeObject v >>= standard.decodeObject) = .ok w
      ∧ standard.encodeObject w
        = .error (.invalidValue "Cannot parse dateTime: +10000-01-01T00:59:59Z") := by
  decide +kernel

end Codec

end TripleIndex
