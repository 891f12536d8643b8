/-
  Rows of statements. A statement whose values all encode has one field for every position, and
  every layout that takes it writes those fields in its own order (`write_of_encodes`).

  * `cellKey_eq_iff`: the cell of a layout tells all the fields and the visibility.
  * `read_rowOf`: a row reads back as its statement, with the object in canonical form.
-/
import Mathlib
import TripleIndex.Proofs.Codec
import TripleIndex.Proofs.Key
import TripleIndex.Row
import TripleIndex.Store.Basic

namespace TripleIndex

open Outcome (bind_eq_ok bind_eq_error map_eq_ok exists_ok_of_mapM exists_error_of_mapM mapM_ok
  ok_bind map_ok)

namespace Statement

/-- The value at a position; the default graph has none. -/
def value? (s : Statement) : Position → Option Value
  | .subject => some s.subject
  | .predicate => some s.predicate
  | .object => some s.object
  | .context => s.context

theorem value?_isSome (s : Statement) {position : Position} (h : position ≠ .context) :
    ∃ v, s.value? position = some v := by
  cases position with
  | subject => exact ⟨_, rfl⟩
  | predicate => exact ⟨_, rfl⟩
  | object => exact ⟨_, rfl⟩
  | context => exact absurd rfl h

/-- The fields of a statement: the encodings of its values, and nothing for the default graph. -/
def Encodes (c : Codec) (s : Statement) (field : Position → Bytes) : Prop :=
  ∀ position, match s.value? position with
    | some v => c.encodeField position v = .ok (field position)
    | none => field position = []

variable {c : Codec} {s : Statement} {field : Position → Bytes}

theorem Encodes.of_value? (h : s.Encodes c field) {position : Position} {v : Value}
    (hv : s.value? position = some v) : c.encodeField position v = .ok (field position) := by
  have := h position
  rwa [hv] at this

theorem Encodes.of_none (h : s.Encodes c field) {position : Position}
    (hv : s.value? position = none) : field position = [] := by
  have := h position
  rwa [hv] at this

theorem Encodes.subject (h : s.Encodes c field) :
    c.encodeField .subject s.subject = .ok (field .subject) :=
  h .subject

theorem Encodes.predicate (h : s.Encodes c field) :
    c.encodeField .predicate s.predicate = .ok (field .predicate) :=
  h .predicate

theorem Encodes.object (h : s.Encodes c field) :
    c.encodeObject s.object = .ok (field .object) :=
  h .object

theorem Encodes.context (h : s.Encodes c field) {v : Value} (named : s.context = some v) :
    c.encodeField .context v = .ok (field .context) := by
  have value : s.value? .context = some v := named
  exact h.of_value? value

theorem Encodes.of_default (h : s.Encodes c field) (default : s.context = none) :
    field .context = [] := by
  have value : s.value? .context = none := default
  exact h.of_none value

/-- If every value encodes, the statement has fields. -/
theorem exists_encodes
    (h : ∀ position v, s.value? position = some v → ∃ f, c.encodeField position v = .ok f) :
    ∃ field, s.Encodes c field := by
  have each : ∀ position, ∃ f, match s.value? position with
      | some v => c.encodeField position v = .ok f
      | none => f = [] := by
    intro position
    cases hv : s.value? position with
    | none => exact ⟨[], rfl⟩
    | some v => exact h position v hv
  exact ⟨fun position => (each position).choose, fun position => (each position).choose_spec⟩

theorem Encodes.isField (h : s.Encodes Codec.standard field) (position : Position) :
    Key.IsField (field position) := by
  cases hv : s.value? position with
  | none => rw [h.of_none hv]; exact Key.isField_nil
  | some v =>
    have encoded := h.of_value? hv
    exact fun b hb => ⟨Codec.delimiter_lt encoded b hb, Codec.lt_ceiling encoded b hb⟩

/-- Only the default graph has an empty field. -/
theorem Encodes.context_eq_nil_iff (h : s.Encodes Codec.standard field) :
    field .context = [] ↔ s.context = none := by
  constructor
  · intro empty
    cases hv : s.context with
    | none => rfl
    | some v =>
      obtain ⟨_, text⟩ := Codec.encodeField_standard (by decide) (h.context hv)
      have none : v.data = "" := Text.Utf8.encode_injective (text.symm.trans empty)
      exact absurd none (s.named v hv)
  · intro hv
    exact h.of_default hv

/-- Outside the object the fields tell the values. -/
theorem Encodes.value?_eq (h : s.Encodes Codec.standard field) {t : Statement}
    (h' : t.Encodes Codec.standard field) (position : Position) (outside : position ≠ .object) :
    s.value? position = t.value? position := by
  by_cases context : position = .context
  · subst context
    change s.context = t.context
    cases hs : s.context with
    | none =>
      have empty := h.context_eq_nil_iff.mpr hs
      rw [h'.context_eq_nil_iff.mp empty]
    | some v =>
      cases ht : t.context with
      | none =>
        have empty := h'.context_eq_nil_iff.mpr ht
        rw [h.context_eq_nil_iff.mp empty] at hs
        cases hs
      | some w =>
        rw [Codec.eq_of_encodeField outside (h.context hs)
          (h'.context ht)]
  · obtain ⟨v, hv⟩ := s.value?_isSome context
    obtain ⟨w, hw⟩ := t.value?_isSome context
    rw [hv, hw, Codec.eq_of_encodeField outside (h.of_value? hv) (h'.of_value? hw)]

theorem visibility_eq_iff {s t : Statement} :
    s.visibility.getD [] = t.visibility.getD [] ↔ s.visibility = t.visibility := by
  refine ⟨fun h => ?_, fun h => by rw [h]⟩
  cases hs : s.visibility with
  | none =>
    cases ht : t.visibility with
    | none => rfl
    | some b =>
      rw [hs, ht] at h
      exact absurd h.symm (t.guarded b ht)
  | some a =>
    cases ht : t.visibility with
    | none =>
      rw [hs, ht] at h
      exact absurd h (s.guarded a hs)
    | some b =>
      rw [hs, ht] at h
      exact congrArg some h

/-! ## Statements put together -/

@[simp]
theorem predicate_inContext? (s : Statement) (context : Option Value) :
    (s.inContext? context).predicate = s.predicate := by
  unfold inContext? inContext
  split
  · split <;> rfl
  · rfl

@[simp]
theorem object_inContext? (s : Statement) (context : Option Value) :
    (s.inContext? context).object = s.object := by
  unfold inContext? inContext
  split
  · split <;> rfl
  · rfl

@[simp]
theorem predicate_visibleTo (s : Statement) (visibility : Bytes) :
    (s.visibleTo visibility).predicate = s.predicate := by
  unfold visibleTo
  split <;> rfl

@[simp]
theorem object_visibleTo (s : Statement) (visibility : Bytes) :
    (s.visibleTo visibility).object = s.object := by
  unfold visibleTo
  split <;> rfl

end Statement

namespace Layout

/-- The key leaves out at most the context. -/
theorem mem_fields {layout : Layout} {position : Position} :
    position ∈ layout.fields ↔ position = .context → layout.isContextFirst = true := by
  cases layout <;> cases position <;> decide

theorem fields_ne_nil (layout : Layout) : layout.fields ≠ [] :=
  List.cons_ne_nil _ _

end Layout

namespace RowFormat

variable {format : RowFormat} {layout : Layout} {s : Statement} {field : Position → Bytes}

/-! ## Writing -/

/-- The row of a statement with given fields. -/
def rowOf (format : RowFormat) (layout : Layout) (s : Statement) (field : Position → Bytes) : Row :=
  ⟨format.key (layout.fields.map field), if layout.isContextFirst then [] else field .context,
    s.visibility.getD [], s.timestamp⟩

theorem applies_iff : applies layout s = true ↔ (layout.isContextFirst = true → s.context ≠ none) := by
  unfold applies
  cases s.context <;> cases layout.isContextFirst <;> simp

/-- The first layout takes every statement. -/
theorem applies_spo (s : Statement) : applies .spo s = true :=
  applies_iff.mpr nofun

/-- A layout that takes a statement has a value for every field of its key. -/
theorem exists_value?_of_applies (takes : applies layout s = true) {position : Position}
    (mem : position ∈ layout.fields) : ∃ v, s.value? position = some v := by
  by_cases context : position = .context
  · subst context
    exact Option.ne_none_iff_exists'.mp (applies_iff.mp takes (Layout.mem_fields.mp mem rfl))
  · exact s.value?_isSome context

theorem field_of_value? {position : Position} {v : Value} (hv : s.value? position = some v) :
    format.field layout s position = format.codec.encodeField position v := by
  unfold field
  cases position with
  | subject => cases hv; rfl
  | predicate => cases hv; rfl
  | object => cases hv; rfl
  | context =>
    have named : s.context = some v := hv
    rw [named]
    rfl

/-- A field of a key is the encoding of the value at its position. -/
theorem field_eq_ok {position : Position} {f : Bytes} :
    format.field layout s position = .ok f ↔
      ∃ v, s.value? position = some v ∧ format.codec.encodeField position v = .ok f := by
  unfold field
  cases position with
  | subject => simp [Statement.value?]
  | predicate => simp [Statement.value?]
  | object => simp [Statement.value?]
  | context => cases h : s.context <;> simp [Statement.value?, h]

theorem family_of_encodes (h : s.Encodes format.codec field) :
    format.family layout s = .ok (if layout.isContextFirst then [] else field .context) := by
  unfold family
  cases first : layout.isContextFirst with
  | true => rfl
  | false =>
    cases context : s.context with
    | none => exact congrArg Except.ok (h.of_default context).symm
    | some v => exact h.context context

/-- A layout that takes a statement has the fields of its key. -/
theorem field_of_encodes (h : s.Encodes format.codec field) (takes : applies layout s = true)
    {position : Position} (mem : position ∈ layout.fields) :
    format.field layout s position = .ok (field position) := by
  obtain ⟨v, hv⟩ := exists_value?_of_applies takes mem
  rw [field_of_value? hv, h.of_value? hv]

theorem write_of_encodes (h : s.Encodes format.codec field) (takes : applies layout s = true) :
    format.write layout s = .ok (format.rowOf layout s field) := by
  rw [write, mapM_ok fun _ => field_of_encodes h takes, ok_bind, family_of_encodes h]
  rfl

/-- A layout takes what it writes. -/
theorem applies_of_write {row : Row} (h : format.write layout s = .ok row) :
    applies layout s = true := by
  rw [applies_iff]
  intro first
  obtain ⟨fields, keyed, _⟩ := bind_eq_ok.mp h
  have mem : .context ∈ layout.fields := Layout.mem_fields.mpr fun _ => first
  obtain ⟨f, hf⟩ := exists_ok_of_mapM keyed mem
  obtain ⟨v, named, _⟩ := field_eq_ok.mp hf
  exact Option.ne_none_iff_exists'.mpr ⟨v, named⟩

/-- What a layout writes has fields. -/
theorem encodes_of_write {row : Row} (h : format.write layout s = .ok row) :
    ∃ field, s.Encodes format.codec field := by
  obtain ⟨fields, keyed, h⟩ := bind_eq_ok.mp h
  obtain ⟨context, grouped, _⟩ := bind_eq_ok.mp h
  apply Statement.exists_encodes
  intro position v hv
  by_cases mem : position ∈ layout.fields
  · obtain ⟨f, hf⟩ := exists_ok_of_mapM keyed mem
    obtain ⟨w, hw, encoded⟩ := field_eq_ok.mp hf
    rw [hv] at hw
    exact ⟨f, Option.some.inj hw ▸ encoded⟩
  · rw [Layout.mem_fields, Classical.not_imp, Bool.not_eq_true] at mem
    obtain ⟨rfl, standard⟩ := mem
    have named : s.context = some v := hv
    unfold family at grouped
    simp only [standard, named] at grouped
    exact ⟨context, grouped⟩

/-- What a layout that takes a statement fails to write is the encoding of one of its values. -/
theorem exists_value_of_write_error {e : Error} (takes : applies layout s = true)
    (failed : format.write layout s = .error e) :
    ∃ position v, s.value? position = some v ∧ format.codec.encodeField position v = .error e := by
  rcases bind_eq_error.mp failed with keyed | ⟨_, _, failed⟩
  · obtain ⟨position, mem, failed⟩ := exists_error_of_mapM keyed
    obtain ⟨v, hv⟩ := exists_value?_of_applies takes mem
    refine ⟨position, v, hv, ?_⟩
    rwa [field_of_value? hv] at failed
  · rcases bind_eq_error.mp failed with grouped | ⟨_, _, never⟩
    · unfold family at grouped
      split at grouped
      · next v _ named => exact ⟨.context, v, named, grouped⟩
      · cases grouped
    · cases never

/-- Hashes have no part in the failures of writing. -/
theorem write_eq_error_iff {c : Codec} {hashed hashed' : Bool} {e : Error} :
    (⟨c, hashed⟩ : RowFormat).write layout s = .error e ↔
      (⟨c, hashed'⟩ : RowFormat).write layout s = .error e := by
  have fields : layout.fields.mapM ((⟨c, hashed⟩ : RowFormat).field layout s)
      = layout.fields.mapM ((⟨c, hashed'⟩ : RowFormat).field layout s) := rfl
  have family : (⟨c, hashed⟩ : RowFormat).family layout s
      = (⟨c, hashed'⟩ : RowFormat).family layout s := rfl
  unfold write
  rw [fields, family]
  simp only [bind_eq_error, reduceCtorEq, and_false, exists_const, or_false]

/-- What is written is the row of some fields. -/
theorem eq_rowOf_of_write {row : Row} (written : format.write layout s = .ok row) :
    ∃ field, s.Encodes format.codec field ∧ applies layout s = true
      ∧ row = format.rowOf layout s field := by
  obtain ⟨field, encodes⟩ := encodes_of_write written
  have takes := applies_of_write written
  rw [write_of_encodes encodes takes] at written
  exact ⟨field, encodes, takes, (Except.ok.inj written).symm⟩

/-- What is written in a layout is the row of the fields that any other layout writes. -/
theorem eq_rowOf {row : Row} (encodes : s.Encodes format.codec field)
    (written : format.write layout s = .ok row) : row = format.rowOf layout s field := by
  rw [write_of_encodes encodes (applies_of_write written)] at written
  exact (Except.ok.inj written).symm

/-- The rows of a statement in all layouts, or in none. -/
theorem writeAll_eq_ok {layouts : List Layout} {rows : List (Layout × Row)}
    (standard : .spo ∈ layouts) :
    format.writeAll layouts s = .ok rows ↔
      ∃ field, s.Encodes format.codec field ∧ rows = (layouts.filter fun layout =>
        applies layout s).map fun layout => (layout, format.rowOf layout s field) := by
  have each {field : Position → Bytes} (encodes : s.Encodes format.codec field) :
      format.writeAll layouts s = .ok ((layouts.filter fun layout => applies layout s).map
        fun layout => (layout, format.rowOf layout s field)) := by
    apply mapM_ok
    intro layout mem
    rw [write_of_encodes encodes (List.mem_filter.mp mem).2, map_ok]
  constructor
  · intro h
    obtain ⟨row, h'⟩ := exists_ok_of_mapM h (List.mem_filter.mpr ⟨standard, applies_spo s⟩)
    obtain ⟨_, written, _⟩ := map_eq_ok.mp h'
    obtain ⟨field, encodes⟩ := encodes_of_write written
    rw [each encodes] at h
    exact ⟨field, encodes, (Except.ok.inj h).symm⟩
  · rintro ⟨field, encodes, rfl⟩
    exact each encodes

/-! ## Reading -/

/-- The fields of a key, behind their hash if keys are hashed. -/
def keyFields (format : RowFormat) (fields : List Bytes) : List Bytes :=
  if format.hashedKeys then Key.anchorHash (fields.headD []) :: fields else fields

theorem key_eq (fields : List Bytes) : format.key fields = Key.join (format.keyFields fields) := by
  unfold key keyFields
  split <;> rfl

theorem isField_keyFields {fields : List Bytes} (h : ∀ f ∈ fields, Key.IsField f) :
    ∀ f ∈ format.keyFields fields, Key.IsField f := by
  unfold keyFields
  split
  · intro f hf
    rcases List.mem_cons.mp hf with rfl | hf
    · exact Key.isField_anchorHash _
    · exact h f hf
  · exact h

theorem length_keyFields {fields fields' : List Bytes} (h : fields.length = fields'.length) :
    (format.keyFields fields).length = (format.keyFields fields').length := by
  unfold keyFields
  split
  · exact congrArg Nat.succ h
  · exact h

theorem keyFields_ne_nil {fields : List Bytes} (h : fields ≠ []) :
    format.keyFields fields ≠ [] := by
  unfold keyFields
  split
  · exact List.cons_ne_nil _ _
  · exact h

theorem keyFields_inj {fields fields' : List Bytes} :
    format.keyFields fields = format.keyFields fields' ↔ fields = fields' := by
  refine ⟨fun h => ?_, fun h => by rw [h]⟩
  unfold keyFields at h
  split at h
  · exact (List.cons.inj h).2
  · exact h

/-- The hash is that of the first field, whatever comes after it. -/
theorem keyFields_append {front : List Bytes} (h : front ≠ [] ∨ format.hashedKeys = false)
    (back : List Bytes) : format.keyFields (front ++ back) = format.keyFields front ++ back := by
  unfold keyFields
  rcases h with ne | plain
  · obtain ⟨f, rest, rfl⟩ := List.exists_cons_of_ne_nil ne
    split <;> rfl
  · simp [plain]

theorem unhash?_key {f : Bytes} (fields : List Bytes) (h : Key.IsField f)
    (hashed : format.hashedKeys = true) :
    unhash? (format.key (f :: fields)) = some (Key.join (f :: fields)) := by
  rw [key_eq, keyFields, if_pos hashed, Key.join_cons (List.cons_ne_nil _ _), unhash?,
    Key.splitFirst?_append (Key.isField_anchorHash _)]
  simp only [Key.splitFirst?_join h, List.headD_cons, if_true]

/-- The key of fields tells the fields. -/
theorem key_injective {fields fields' : List Bytes} (h : ∀ f ∈ fields, Key.IsField f)
    (h' : ∀ f ∈ fields', Key.IsField f) (ne : fields ≠ []) (length : fields.length = fields'.length)
    (e : format.key fields = format.key fields') : fields = fields' := by
  have ne' : fields' ≠ [] := by
    rintro rfl
    exact ne (List.eq_nil_of_length_eq_zero length)
  have join : Key.join fields = Key.join fields' := by
    obtain ⟨f, rest, rfl⟩ := List.exists_cons_of_ne_nil ne
    obtain ⟨g, rest', rfl⟩ := List.exists_cons_of_ne_nil ne'
    cases hashed : format.hashedKeys with
    | false => simpa [key, hashed] using e
    | true =>
      have left := unhash?_key rest (h f List.mem_cons_self) hashed
      rw [e, unhash?_key _ (h' g List.mem_cons_self) hashed] at left
      exact (Option.some.inj left).symm
  have left := Key.split?_join h ne
  rw [join, length, Key.split?_join h' ne'] at left
  exact (Option.some.inj left).symm

/-- The cell of a layout tells every field of the statement, and its visibility. -/
theorem cellKey_eq_iff {t : Statement} {field' : Position → Bytes}
    (h : s.Encodes Codec.standard field) (h' : t.Encodes Codec.standard field') :
    (format.rowOf layout s field).cellKey = (format.rowOf layout t field').cellKey ↔
      field = field' ∧ s.visibility = t.visibility := by
  constructor
  · intro e
    obtain ⟨key, family, visibility⟩ := CellKey.mk.inj e
    refine ⟨?_, Statement.visibility_eq_iff.mp visibility⟩
    have isField {field : Position → Bytes} {u : Statement}
        (h : u.Encodes Codec.standard field) : ∀ f ∈ layout.fields.map field, Key.IsField f := by
      intro f hf
      obtain ⟨position, _, rfl⟩ := List.mem_map.mp hf
      exact h.isField position
    have fields := key_injective (isField h) (isField h') (by simp [layout.fields_ne_nil])
      (by simp) key
    funext position
    by_cases mem : position ∈ layout.fields
    · exact List.map_inj_left.mp fields position mem
    · rw [Layout.mem_fields, Classical.not_imp, Bool.not_eq_true] at mem
      obtain ⟨rfl, standard⟩ := mem
      simpa [rowOf, standard] using family
  · rintro ⟨rfl, visibility⟩
    unfold rowOf Row.cellKey
    rw [visibility]

theorem readFields_eq {value : Position → Value} {positions : List Position}
    (h : ∀ position ∈ positions,
      format.codec.decodeField position (field position) = .ok (value position)) :
    format.readFields positions (positions.map field)
      = .ok (positions.map fun position => (position, value position)) := by
  induction positions with
  | nil => rfl
  | cons position positions ih =>
    have first := h position List.mem_cons_self
    have rest := ih fun position mem => h position (List.mem_cons_of_mem _ mem)
    simp only [List.map_cons, readFields, first, rest, ok_bind]

theorem lookup_map {value : Position → Value} {positions : List Position} {position : Position}
    (mem : position ∈ positions) :
    (positions.map fun position => (position, value position)).lookup position
      = some (value position) := by
  induction positions with
  | nil => cases mem
  | cons first positions ih =>
    rw [List.map_cons, List.lookup_cons]
    by_cases same : position = first
    · subst same
      simp
    · rw [beq_false_of_ne same]
      exact ih ((List.mem_cons.mp mem).resolve_left same)

/-- The statement that is put together from what a row holds. -/
theorem assemble (s : Statement) (object : Value) :
    { ((Statement.triple s.subject s.predicate object).inContext? s.context).visibleTo
      (s.visibility.getD []) with timestamp := s.timestamp } = { s with object := object } := by
  obtain ⟨subject, predicate, _, context, visibility, timestamp, named, guarded⟩ := s
  cases context with
  | none =>
    cases visibility with
    | none => simp [Statement.inContext?, Statement.triple, Statement.visibleTo]
    | some bytes =>
      have ne := guarded bytes rfl
      simp [Statement.inContext?, Statement.triple, Statement.visibleTo, ne]
  | some v =>
    have ne := named v rfl
    cases visibility with
    | none => simp [Statement.inContext?, Statement.inContext, Statement.triple, Statement.visibleTo,
        ne]
    | some bytes =>
      have ne' := guarded bytes rfl
      simp [Statement.inContext?, Statement.inContext, Statement.triple, Statement.visibleTo, ne, ne']

theorem readContext_eq (h : s.Encodes Codec.standard field) :
    readContext Codec.standard (field .context) = .ok s.context := by
  unfold readContext
  cases hv : s.context with
  | none => rw [h.context_eq_nil_iff.mpr hv, if_pos rfl]
  | some v =>
    have ne : field .context ≠ [] := fun empty => by
      rw [h.context_eq_nil_iff.mp empty] at hv
      cases hv
    rw [if_neg ne, Codec.decodeField_of_outside (by decide)
      (h.context hv), map_ok]

/-- The values that rows of a statement hold, its object in canonical form. Where there is no
value, none is held. -/
def held (s : Statement) (object : Value) : Position → Value
  | .object => object
  | position => (s.value? position).getD object

/-- Outside the object the fields of a key read back as the values of the statement. -/
theorem decodeField_of_mem (h : s.Encodes Codec.standard field) (takes : applies layout s = true)
    (object : Value) {position : Position} (mem : position ∈ layout.fields)
    (outside : position ≠ .object) :
    Codec.standard.decodeField position (field position) = .ok (held s object position) := by
  have value : ∃ v, s.value? position = some v := by
    by_cases context : position = .context
    · subst context
      exact Option.ne_none_iff_exists'.mp (applies_iff.mp takes (Layout.mem_fields.mp mem rfl))
    · exact s.value?_isSome context
  obtain ⟨v, hv⟩ := value
  rw [Codec.decodeField_of_outside outside (h.of_value? hv)]
  cases position with
  | object => exact absurd rfl outside
  | _ => simp only [held, hv, Option.getD_some]

theorem decodeField_field (h : s.Encodes Codec.standard field) (takes : applies layout s = true)
    {object : Value} (canonical : Codec.standard.decodeObject (field .object) = .ok object)
    {position : Position} (mem : position ∈ layout.fields) :
    Codec.standard.decodeField position (field position) = .ok (held s object position) := by
  by_cases isObject : position = .object
  · subst isObject
    exact canonical
  · exact decodeField_of_mem h takes object mem isObject

/-- The part of a key behind its hash, if it has one, splits into the fields. -/
theorem split_key (format : RowFormat) (layout : Layout) (h : s.Encodes Codec.standard field) :
    ∃ body, (format.hashedKeys = true → unhash? (format.key (layout.fields.map field)) = some body)
      ∧ (format.hashedKeys = false → format.key (layout.fields.map field) = body)
      ∧ Key.split? layout.fields.length body = some (layout.fields.map field) := by
  have isField : ∀ f ∈ layout.fields.map field, Key.IsField f := by
    intro f hf
    obtain ⟨position, _, rfl⟩ := List.mem_map.mp hf
    exact h.isField position
  have split := Key.split?_join isField (by simp [layout.fields_ne_nil])
  rw [List.length_map] at split
  exact ⟨_, unhash?_key _ (isField _ List.mem_cons_self),
    fun plain => if_neg (Bool.eq_false_iff.mp plain), split⟩

section Bodies

variable {row : Row} {body : Bytes} {fields : List Bytes}

/-- A row holds what its fields are read as, and its graph. -/
theorem read_of_readFields (behind : format.hashedKeys = true → unhash? row.key = some body)
    (whole : format.hashedKeys = false → row.key = body)
    (split : Key.split? layout.fields.length body = some fields) {value : Position → Value}
    (values : format.readFields layout.fields fields
      = .ok (layout.fields.map fun position => (position, value position)))
    {context : Option Value}
    (graph : (if layout.isContextFirst = true then .ok (some (value .context))
      else readContext format.codec row.family) = .ok context) :
    format.read layout row
      = .ok { ((Statement.triple (value .subject) (value .predicate) (value .object)).inContext?
        context).visibleTo row.visibility with timestamp := row.timestamp } := by
  have found (position : Position) (mem : position ∈ layout.fields) :
      (layout.fields.map fun position => (position, value position)).lookup position
        = some (value position) := lookup_map mem
  have subject := found .subject (Layout.mem_fields.mpr fun e => absurd e (by decide))
  have predicate := found .predicate (Layout.mem_fields.mpr fun e => absurd e (by decide))
  have object := found .object (Layout.mem_fields.mpr fun e => absurd e (by decide))
  have graph : (if layout.isContextFirst = true then
        .ok ((layout.fields.map fun position => (position, value position)).lookup .context)
      else readContext format.codec row.family) = .ok context := by
    rw [← graph]
    cases first : layout.isContextFirst with
    | true => rw [if_pos rfl, if_pos rfl, found .context (Layout.mem_fields.mpr fun _ => first)]
    | false => rfl
  unfold read
  cases hashed : format.hashedKeys with
  | true =>
    simp only [if_true, behind hashed, ok_bind, split, values, graph, subject, predicate, object]
  | false =>
    simp only [Bool.false_eq_true, if_false, whole hashed, ok_bind, split, values, graph, subject,
      predicate, object]

/-- A row whose fields cannot be read is not read. -/
theorem read_of_readFields_error (behind : format.hashedKeys = true → unhash? row.key = some body)
    (whole : format.hashedKeys = false → row.key = body)
    (split : Key.split? layout.fields.length body = some fields) {e : Error}
    (failed : format.readFields layout.fields fields = .error e) :
    format.read layout row = .error e := by
  unfold read
  cases hashed : format.hashedKeys with
  | true => simp only [if_true, behind hashed, ok_bind, split, failed, Outcome.error_bind]
  | false =>
    simp only [Bool.false_eq_true, if_false, whole hashed, ok_bind, split, failed,
      Outcome.error_bind]

end Bodies

/-- A row reads back as its statement with the object that its field stands for. -/
theorem read_rowOf (codec : format.codec = Codec.standard) (h : s.Encodes Codec.standard field)
    (takes : applies layout s = true) {object : Value}
    (canonical : Codec.standard.decodeObject (field .object) = .ok object) :
    format.read layout (format.rowOf layout s field) = .ok { s with object := object } := by
  obtain ⟨body, behind, whole, split⟩ := split_key format layout h
  have values : format.readFields layout.fields (layout.fields.map field)
      = .ok (layout.fields.map fun position => (position, held s object position)) :=
    readFields_eq fun position mem => by
      rw [codec]
      exact decodeField_field h takes canonical mem
  have graph : (if layout.isContextFirst = true then .ok (some (held s object .context))
      else readContext format.codec (format.rowOf layout s field).family) = .ok s.context := by
    unfold rowOf
    cases first : layout.isContextFirst with
    | true =>
      obtain ⟨v, hv⟩ := Option.ne_none_iff_exists'.mp (applies_iff.mp takes first)
      simp [held, Statement.value?, hv]
    | false =>
      rw [codec]
      exact readContext_eq h
  rw [read_of_readFields behind whole split values graph]
  exact congrArg Except.ok (assemble s object)

/-- If the object is the one field that cannot be read, then its failure is that of the fields. -/
theorem readFields_of_object {e : Error}
    (failed : format.codec.decodeObject (field .object) = .error e) {positions : List Position}
    (others : ∀ position ∈ positions, position ≠ .object →
      ∃ v, format.codec.decodeField position (field position) = .ok v)
    (mem : .object ∈ positions) :
    format.readFields positions (positions.map field) = .error e := by
  induction positions with
  | nil => cases mem
  | cons position positions ih =>
    rw [List.map_cons, readFields]
    by_cases isObject : position = .object
    · subst isObject
      have first : format.codec.decodeField .object (field .object) = .error e := failed
      rw [first, Outcome.error_bind]
    · have rest := ih (fun position mem => others position (List.mem_cons_of_mem _ mem))
        ((List.mem_cons.mp mem).resolve_left fun e => isObject e.symm)
      obtain ⟨v, first⟩ := others position List.mem_cons_self isObject
      rw [first, ok_bind, rest, Outcome.error_bind]

/-- A row whose object cannot be read is not read. -/
theorem read_rowOf_error (codec : format.codec = Codec.standard)
    (h : s.Encodes Codec.standard field) (takes : applies layout s = true) {e : Error}
    (failed : Codec.standard.decodeObject (field .object) = .error e) :
    format.read layout (format.rowOf layout s field) = .error e := by
  obtain ⟨body, behind, whole, split⟩ := split_key format layout h
  refine read_of_readFields_error behind whole split ?_
  rw [← codec] at failed
  refine readFields_of_object failed (fun position mem outside => ?_)
    (Layout.mem_fields.mpr fun e => absurd e (by decide))
  rw [codec]
  exact ⟨_, decodeField_of_mem h takes s.object mem outside⟩

end RowFormat

end TripleIndex
