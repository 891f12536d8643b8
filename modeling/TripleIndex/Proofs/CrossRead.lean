/-
  Rows read under the other setting of hashed keys. A key without a hash has too few fields for the
  reader of hashed keys, so it is never read. A hashed key has one field too many: the reader of
  plain keys takes the hash for the first field and the last two fields for one. That fails unless
  the object comes last and is a resource or a text (`RowFormat.cross_read`).

  * `read_hashed_plain`: a plain row is not read as a hashed one.
  * `readFields_shifted_error`: an identifier in the place of the object is refused.
  * `decodeObject_join`: two fields in one are an object if the last of them is a text.
-/
import Mathlib
import TripleIndex.Proofs.RoundTrip

namespace TripleIndex

open Outcome (map_error ok_bind)

namespace RowFormat

variable {layout : Layout} {s : Statement} {field : Position → Bytes}

/-- How rows are written and read without a hash. -/
abbrev plain : RowFormat := ⟨Codec.standard, false⟩

/-- How rows are written and read with a hash. -/
abbrev hashed : RowFormat := ⟨Codec.standard, true⟩

/-! ## Keys without a hash -/

/-- What stands behind the first field of a key is taken for the key, or nothing is. -/
theorem unhash?_join {f : Bytes} (h : Key.IsField f) {fields : List Bytes} (ne : fields ≠ []) :
    unhash? (Key.join (f :: fields)) = none
      ∨ unhash? (Key.join (f :: fields)) = some (Key.join fields) := by
  rw [Key.join_cons ne, unhash?, Key.splitFirst?_append h]
  dsimp only
  split
  · exact .inr rfl
  · exact .inl rfl

/-- A key without a hash has too few fields behind the first one. -/
theorem read_hashed_plain (encodes : s.Encodes Codec.standard field) :
    ∃ message, hashed.read layout (plain.rowOf layout s field) = .error (.decode message) := by
  obtain ⟨q, qs, fields, ne⟩ : ∃ q qs, layout.fields = q :: qs ∧ qs ≠ [] := by
    cases layout <;> exact ⟨_, _, rfl, List.cons_ne_nil _ _⟩
  have ne : qs.map field ≠ [] := fun empty => ne (List.map_eq_nil_iff.mp empty)
  have isField : ∀ f ∈ qs.map field, Key.IsField f := by
    intro f mem
    obtain ⟨position, _, rfl⟩ := List.mem_map.mp mem
    exact encodes.isField position
  have key : plain.key (layout.fields.map field) = Key.join (field q :: qs.map field) := by
    rw [fields]
    rfl
  unfold read rowOf
  dsimp only
  rw [key]
  rcases unhash?_join (encodes.isField q) ne with none | some
  · simp only [if_true, none, Outcome.error_bind]
    exact ⟨_, rfl⟩
  · have few : Key.split? layout.fields.length (Key.join (qs.map field)) = none := by
      apply Key.split?_join_of_lt isField ne
      rw [fields, List.length_map, List.length_cons]
      exact Nat.lt_succ_self _
    simp only [if_true, some, ok_bind, few, Outcome.error_bind]
    exact ⟨_, rfl⟩

/-! ## Hashed keys -/

/-- The fields of a hashed key for a reader of plain keys: first the hash, and last what is left over,
two fields in one. -/
def shifted (layout : Layout) (field : Position → Bytes) : List Bytes :=
  let fields := layout.fields.map field
  Key.anchorHash (field layout.anchor) :: fields.take (fields.length - 2)
    ++ [Key.join (fields.drop (fields.length - 2))]

theorem split?_hashed (encodes : s.Encodes Codec.standard field) :
    Key.split? layout.fields.length (hashed.key (layout.fields.map field))
      = some (shifted layout field) := by
  let fields := layout.fields.map field
  let front := Key.anchorHash (field layout.anchor) :: fields.take (fields.length - 2)
  let back := fields.drop (fields.length - 2)
  have key : hashed.key fields = Key.join (front ++ back) := by
    rw [List.cons_append, List.take_append_drop]
    rfl
  have isField : ∀ f ∈ front, Key.IsField f := by
    intro f mem
    rcases List.mem_cons.mp mem with rfl | mem
    · exact Key.isField_anchorHash _
    · obtain ⟨position, _, rfl⟩ := List.mem_map.mp (List.mem_of_mem_take mem)
      exact encodes.isField position
  have ne : back ≠ [] := by cases layout <;> exact List.cons_ne_nil _ _
  have count : layout.fields.length = front.length + 1 := by cases layout <;> rfl
  rw [key, count, Key.split?_join_append isField ne]
  rfl

/-- The last two fields in one are no object, unless the last is a resource or a text. -/
theorem decodeObject_join (encodes : s.Encodes Codec.standard field) :
    let last := Key.join [field .predicate, field .object]
    let text := s.object.datatype? = none ∨ s.object.datatype? = some Xsd.string
    (text → ∃ v, Codec.standard.decodeObject last = .ok v ∧ v.datatype? = s.object.datatype?
        ∧ v.data = s.predicate.data ++ "\x00" ++ s.object.data)
      ∧ (¬ text → ∃ message, Codec.standard.decodeObject last = .error (.decode message)) := by
  intro last text
  obtain ⟨r, mem, same, data, write, _, own⟩ := Codec.encodeObject_eq_ok.mp encodes.object
  have back :
      last = (field .predicate ++ Key.delimiter :: data) ++ [Key.markerDelimiter, r.marker] := by
    change field .predicate ++ Key.delimiter :: field .object = _
    rw [own, List.append_assoc, List.cons_append]
  rw [back, Codec.decodeObject_append mem]
  constructor
  · intro isText
    have stored : data = Text.Utf8.encode s.object.data ∧ r.read = Resolver.readText := by
      rcases isText with none | string
      · obtain rfl : r = Resolver.resource := Codec.eq_of_datatype_eq mem
          (by simp [Codec.standard, Resolver.standard]) (same.trans none)
        exact ⟨(Except.ok.inj write).symm, rfl⟩
      · obtain rfl : r = Resolver.string := Codec.eq_of_datatype_eq mem
          (by simp [Codec.standard, Resolver.standard]) (same.trans string)
        exact ⟨(Except.ok.inj write).symm, rfl⟩
    obtain ⟨_, predicate⟩ := Codec.encodeField_standard (by decide) encodes.predicate
    have whole : field .predicate ++ Key.delimiter :: data
        = Text.Utf8.encode (s.predicate.data ++ "\x00" ++ s.object.data) := by
      rw [Text.Utf8.encode_append, Text.Utf8.encode_append, ← predicate, ← stored.1,
        List.append_assoc]
      rfl
    rw [whole, stored.2, Resolver.readText_encode, Outcome.map_ok, ← same]
    cases r.datatype <;> exact ⟨_, rfl, rfl, rfl⟩
  · intro other
    have inside : Key.delimiter ∈ field .predicate ++ Key.delimiter :: data :=
      List.mem_append_right _ List.mem_cons_self
    obtain ⟨message, failed⟩ := Resolver.read_of_mem mem (fun e => other (.inl (same ▸ e)))
      (fun e => other (.inr (same ▸ e))) inside (by decide)
    exact ⟨message, by rw [failed, map_error]⟩

/-- Identifiers are read up to the position of the object, where one is refused. -/
theorem readFields_of_isIdentifier (front : List Position) (fields : List Bytes)
    {back : List Position} {rest : List Bytes} (outside : .object ∉ front)
    (count : fields.length = front.length + 1) (each : ∀ f ∈ fields, Codec.IsIdentifier f) :
    ∃ message, plain.readFields (front ++ .object :: back) (fields ++ rest)
      = .error (.decode message) := by
  induction front generalizing fields with
  | nil =>
    obtain ⟨f, rfl⟩ := List.length_eq_one_iff.mp count
    obtain ⟨message, failed⟩ := (each f List.mem_cons_self).decodeObject (c := Codec.standard)
    have first : Codec.standard.decodeField .object f = .error (.decode message) := failed
    refine ⟨message, ?_⟩
    rw [List.nil_append, List.singleton_append, readFields, first, Outcome.error_bind]
  | cons position front ih =>
    obtain ⟨f, fields, rfl⟩ := List.exists_cons_of_length_eq_add_one count
    obtain ⟨v, first⟩ := (each f List.mem_cons_self).exists_decodeField
      fun e => outside (e ▸ List.mem_cons_self)
    obtain ⟨message, failed⟩ := ih fields (fun mem => outside (List.mem_cons_of_mem _ mem))
      (Nat.succ.inj count) fun g mem => each g (List.mem_cons_of_mem _ mem)
    refine ⟨message, ?_⟩
    rw [List.cons_append, List.cons_append, readFields, first, ok_bind, failed, Outcome.error_bind]

theorem isIdentifier_context (encodes : s.Encodes Codec.standard field)
    (takes : applies layout s = true) (first : layout.isContextFirst = true) :
    Codec.IsIdentifier (field .context) := by
  obtain ⟨v, named⟩ := Option.ne_none_iff_exists'.mp (applies_iff.mp takes first)
  exact Codec.isIdentifier_of_encodeField (by decide) (encodes.context named)

/-- Where the object is not the last field, an identifier stands in its place. -/
theorem readFields_shifted_error (encodes : s.Encodes Codec.standard field)
    (takes : applies layout s = true) (early : ¬ (layout = .spo ∨ layout = .cspo)) :
    ∃ message, plain.readFields layout.fields (shifted layout field) = .error (.decode message) := by
  have hash := Codec.isIdentifier_anchorHash (field layout.anchor)
  have predicate := Codec.isIdentifier_of_encodeField (by decide) encodes.predicate
  let hash' := Key.anchorHash (field layout.anchor)
  cases layout with
  | spo => exact absurd (.inl rfl) early
  | cspo => exact absurd (.inr rfl) early
  | pos =>
    refine readFields_of_isIdentifier [.predicate] [hash', field .predicate] (by decide) rfl ?_
    simp only [List.forall_mem_cons]
    exact ⟨hash, predicate, List.forall_mem_nil _⟩
  | osp =>
    refine readFields_of_isIdentifier [] [hash'] (by decide) rfl ?_
    exact List.forall_mem_singleton.mpr hash
  | cpos =>
    have graph := isIdentifier_context encodes takes rfl
    refine readFields_of_isIdentifier [.context, .predicate]
      [hash', field .context, field .predicate] (by decide) rfl ?_
    simp only [List.forall_mem_cons]
    exact ⟨hash, graph, predicate, List.forall_mem_nil _⟩
  | cosp =>
    have graph := isIdentifier_context encodes takes rfl
    refine readFields_of_isIdentifier [.context] [hash', field .context] (by decide) rfl ?_
    simp only [List.forall_mem_cons]
    exact ⟨hash, graph, List.forall_mem_nil _⟩

/-- What stands in the place of each field, if the object is the last one. -/
def taken (layout : Layout) (field : Position → Bytes) : Position → Bytes
  | .context => Key.anchorHash (field layout.anchor)
  | .subject => if layout.isContextFirst then field .context else Key.anchorHash (field layout.anchor)
  | .predicate => field .subject
  | .object => Key.join [field .predicate, field .object]

theorem shifted_eq_taken (last : layout = .spo ∨ layout = .cspo) :
    shifted layout field = layout.fields.map (taken layout field) := by
  rcases last with rfl | rfl <;> rfl

theorem isIdentifier_taken (encodes : s.Encodes Codec.standard field)
    (takes : applies layout s = true) {position : Position} (outside : position ≠ .object) :
    Codec.IsIdentifier (taken layout field position) := by
  have hash := Codec.isIdentifier_anchorHash (field layout.anchor)
  cases position with
  | object => exact absurd rfl outside
  | context => exact hash
  | predicate => exact Codec.isIdentifier_of_encodeField (by decide) encodes.subject
  | subject =>
    cases first : layout.isContextFirst with
    | true =>
      rw [taken, if_pos first]
      exact isIdentifier_context encodes takes first
    | false =>
      rw [taken, if_neg (Bool.eq_false_iff.mp first)]
      exact hash

/-- A hashed key is read as a plain one if its last two fields in one are an object. -/
theorem read_hashed_of_taken (encodes : s.Encodes Codec.standard field)
    (takes : applies layout s = true) (last : layout = .spo ∨ layout = .cspo) {object : Value}
    (decoded : Codec.standard.decodeObject (taken layout field .object) = .ok object) :
    ∃ t, plain.read layout (hashed.rowOf layout s field) = .ok t ∧ t.predicate = s.subject
      ∧ t.object = object := by
  have each (position : Position) :
      ∃ v, Codec.standard.decodeField position (taken layout field position) = .ok v := by
    by_cases isObject : position = .object
    · subst isObject
      exact ⟨object, decoded⟩
    · exact (isIdentifier_taken encodes takes isObject).exists_decodeField isObject
  choose value decodes using each
  have isPredicate : value .predicate = s.subject := by
    have outside : Position.subject ≠ .object := by decide
    have own : Codec.standard.decodeField .predicate (field .subject) = .ok s.subject :=
      Codec.decodeField_of_outside outside encodes.subject
    exact Except.ok.inj ((decodes .predicate).symm.trans own)
  have isObject : value .object = object := Except.ok.inj ((decodes .object).symm.trans decoded)
  have values : plain.readFields layout.fields (shifted layout field)
      = .ok (layout.fields.map fun position => (position, value position)) := by
    rw [shifted_eq_taken last]
    exact readFields_eq fun position _ => decodes position
  obtain ⟨context, graph⟩ : ∃ context, (if layout.isContextFirst = true
      then .ok (some (value .context))
      else readContext Codec.standard (hashed.rowOf layout s field).family)
        = (.ok context : Except Error (Option Value)) := by
    unfold rowOf
    cases layout.isContextFirst with
    | true => exact ⟨_, rfl⟩
    | false => exact ⟨_, readContext_eq encodes⟩
  have read := read_of_readFields (fun h => absurd h Bool.false_ne_true) (fun _ => rfl)
    (split?_hashed encodes) values graph
  refine ⟨_, read, ?_, ?_⟩
  · simp [Statement.triple, isPredicate]
  · simp [Statement.triple, isObject]

/-- If the object comes last, the last two fields in one have to be an object. -/
theorem readFields_taken_error (encodes : s.Encodes Codec.standard field)
    (takes : applies layout s = true) (last : layout = .spo ∨ layout = .cspo) {e : Error}
    (failed : Codec.standard.decodeObject (taken layout field .object) = .error e) :
    plain.readFields layout.fields (shifted layout field) = .error e := by
  rw [shifted_eq_taken last]
  refine readFields_of_object failed (fun position _ outside => ?_)
    (Layout.mem_fields.mpr fun e => absurd e (by decide))
  exact (isIdentifier_taken encodes takes outside).exists_decodeField outside

/-- Rows written under one setting of hashed keys and read under the other. A plain row is never
read as a hashed one. A hashed row is read as a plain one exactly if the object comes last and is a
resource or a text. What is read then is another statement: its predicate is the subject, and its
object holds the predicate, a delimiter and the object. -/
theorem cross_read (layout : Layout) (s : Statement) (plainRow hashedRow : Row)
    (writtenPlain : plain.write layout s = .ok plainRow)
    (writtenHashed : hashed.write layout s = .ok hashedRow) :
    let misread := (layout = .spo ∨ layout = .cspo)
      ∧ (s.object.datatype? = none ∨ s.object.datatype? = some Xsd.string)
    (∃ message, hashed.read layout plainRow = .error (.decode message))
      ∧ (¬ misread → ∃ message, plain.read layout hashedRow = .error (.decode message))
      ∧ (misread → ∃ t, plain.read layout hashedRow = .ok t ∧ t ≠ s ∧ t.predicate = s.subject
          ∧ t.object.datatype? = s.object.datatype?
          ∧ t.object.data = s.predicate.data ++ "\x00" ++ s.object.data) := by
  intro misread
  obtain ⟨field, encodes, takes, rfl⟩ := eq_rowOf_of_write writtenPlain
  have shared : s.Encodes hashed.codec field := encodes
  obtain rfl := eq_rowOf shared writtenHashed
  obtain ⟨accepted, refused⟩ := decodeObject_join encodes
  refine ⟨read_hashed_plain encodes, fun other => ?_, fun ⟨last, text⟩ => ?_⟩
  · obtain ⟨message, failed⟩ : ∃ message,
        plain.readFields layout.fields (shifted layout field) = .error (.decode message) := by
      by_cases last : layout = .spo ∨ layout = .cspo
      · obtain ⟨message, failed⟩ := refused fun text => other ⟨last, text⟩
        exact ⟨message, readFields_taken_error encodes takes last failed⟩
      · exact readFields_shifted_error encodes takes last
    exact ⟨message, read_of_readFields_error (fun h => absurd h Bool.false_ne_true) (fun _ => rfl)
      (split?_hashed encodes) failed⟩
  · obtain ⟨object, decoded, datatype, data⟩ := accepted text
    obtain ⟨t, read, predicate, rfl⟩ := read_hashed_of_taken encodes takes last decoded
    refine ⟨t, read, ?_, predicate, datatype, data⟩
    rintro rfl
    have longer := congrArg String.length data
    have one : ("\x00" : String).length = 1 := rfl
    rw [String.length_append, String.length_append, one] at longer
    omega

/-- Where the object stands in the middle, neither row passes for one of the other kind. -/
theorem cross_read_pos :
    let s := Statement.triple (.resource "a") (.resource "p") (.plain "x")
    ∃ plainRow hashedRow, plain.write .pos s = .ok plainRow ∧ hashed.write .pos s = .ok hashedRow
      ∧ (∃ message, hashed.read .pos plainRow = .error (.decode message))
      ∧ ∃ message, plain.read .pos hashedRow = .error (.decode message) := by
  intro s
  let key : Bytes := [0x70, 0x00, 0x78, 0x01, 0x03, 0x00, 0x61]
  let plainRow : Row := ⟨key, [], [], none⟩
  let hashedRow : Row := ⟨Key.anchorHash [0x70] ++ 0x00 :: key, [], [], none⟩
  have writtenPlain : plain.write .pos s = .ok plainRow := by decide +kernel
  have writtenHashed : hashed.write .pos s = .ok hashedRow := by decide +kernel
  have apart := cross_read .pos s plainRow hashedRow writtenPlain writtenHashed
  exact ⟨plainRow, hashedRow, writtenPlain, writtenHashed, apart.1, apart.2.1 (by decide)⟩

/-- Read without hashed keys, the hashed row of a text is one of another statement, with the subject
as its predicate. -/
theorem hashed_row_misread :
    ∃ row, hashed.write .spo (.triple (.resource "a") (.resource "p") (.plain "x")) = .ok row
      ∧ plain.read .spo row = .ok (.triple
        (.resource "ca978112ca1bbdcafac231b39a23dc4da786eff8147c4e72b9807785afee48bb")
        (.resource "a") (.plain "p\x00x")) := by
  let key : Bytes := [0x61, 0x00, 0x70, 0x00, 0x78, 0x01, 0x03]
  let row : Row := ⟨Key.anchorHash [0x61] ++ 0x00 :: key, [], [], none⟩
  exact ⟨row, by decide +kernel, by decide +kernel⟩

end RowFormat

end TripleIndex
