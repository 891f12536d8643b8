/-
  The store as one map. The calls that succeed bind and delete the keys of their statements in a
  ledger, and every table of the store mirrors that ledger in the order of its layout.

  * `Tracked.mirrored_after`: one call keeps the tables mirrors of the ledger.
  * `Tracked.mirrored_run`: any sequence of calls does.
  * `Tracked.tables_mirror_ledger`: each cell is the row of one entry and each entry has one cell.
-/
import Mathlib
import TripleIndex.Proofs.Row
import TripleIndex.Proofs.Store.Table

namespace TripleIndex

open Outcome (bind_eq_ok)

/-- What tells stored statements apart. Objects count by their encodings. -/
@[ext]
structure StatementKey where
  subject : Value
  predicate : Value
  object : Bytes
  context : Option Value
  visibility : Option Bytes
  named : ∀ v ∈ context, v.data ≠ ""
  guarded : ∀ bytes ∈ visibility, bytes ≠ []

instance : DecidableEq StatementKey :=
  fun _ _ => decidable_of_iff _ StatementKey.ext_iff.symm

/-- The timestamps of stored statements. -/
abbrev Ledger := Finmap fun _ : StatementKey => Option UInt64

namespace Statement

/-- The key of a statement with a given encoding of its object. -/
def keyOf (s : Statement) (object : Bytes) : StatementKey :=
  ⟨s.subject, s.predicate, object, s.context, s.visibility, s.named, s.guarded⟩

/-- The key of a statement whose object encodes. -/
def key? (c : Codec) (s : Statement) : Except Error StatementKey :=
  (c.encodeObject s.object).map s.keyOf

end Statement

/-- A call that changes a store. -/
inductive StoreCall where
  | insert (s : Statement)
  | remove (s : Statement)

namespace StoreCall

/-- The statement of a call. -/
def statement : StoreCall → Statement
  | .insert s => s
  | .remove s => s

/-- What a store becomes by a call, if the call succeeds. -/
def apply (c : Codec) (store : Store) : StoreCall → Except Error Store
  | .insert s => store.insert c s
  | .remove s => (store.remove c s).map Prod.snd

/-- What a call that succeeds does to the ledger. An insertion binds the key of its statement,
whatever was bound to it; a removal deletes the key, whatever is bound to it. -/
def record (c : Codec) (ledger : Ledger) (call : StoreCall) : Ledger :=
  match call.statement.key? c, call with
  | .ok key, .insert s => ledger.insert key s.timestamp
  | .ok key, .remove _ => ledger.erase key
  | .error _, _ => ledger

end StoreCall

/-- A store beside the ledger of its calls. -/
structure Tracked where
  store : Store
  ledger : Ledger

namespace Tracked

/-- The state after a call. A call that fails changes nothing. -/
def after (c : Codec) (t : Tracked) (call : StoreCall) : Tracked :=
  match call.apply c t.store with
  | .ok store => ⟨store, call.record c t.ledger⟩
  | .error _ => t

/-- The state after a sequence of calls on the store without rows. -/
def run (c : Codec) (config : Config) (calls : List StoreCall) : Tracked :=
  calls.foldl (after c) ⟨Store.empty config, ∅⟩

end Tracked

/-! ## Keys and cells -/

section Keys

variable {s t : Statement} {field field' : Position → Bytes}

theorem Statement.Encodes.key?_eq {c : Codec} (h : s.Encodes c field) :
    s.key? c = .ok (s.keyOf (field .object)) := by
  have object : c.encodeObject s.object = .ok (field .object) := h.object
  rw [Statement.key?, object]
  rfl

/-- The key of a statement tells its fields. -/
theorem Statement.Encodes.of_key? {c : Codec} (h : s.Encodes c field)
    (key : t.key? c = .ok (s.keyOf (field .object))) : t.Encodes c field := by
  obtain ⟨object, encoded, e⟩ := Outcome.map_eq_ok.mp key
  obtain ⟨subject, predicate, rfl, context, _⟩ := StatementKey.mk.inj e
  intro position
  cases position with
  | subject =>
    change c.encodeField .subject t.subject = _
    rw [subject]
    exact h .subject
  | predicate =>
    change c.encodeField .predicate t.predicate = _
    rw [predicate]
    exact h .predicate
  | object => exact encoded
  | context =>
    have value : t.value? .context = s.value? .context := context
    rw [value]
    exact h .context

/-- The timestamp is no part of the fields. -/
theorem Statement.Encodes.restamp {c : Codec} (h : s.Encodes c field) (timestamp : Option UInt64) :
    Encodes c { s with timestamp := timestamp } field := by
  intro position
  have value : ({ s with timestamp := timestamp } : Statement).value? position
      = s.value? position := by cases position <;> rfl
  rw [value]
  exact h position

/-- Statements have one key exactly if their fields and visibilities agree. -/
theorem Statement.keyOf_eq_iff (h : s.Encodes Codec.standard field)
    (h' : t.Encodes Codec.standard field') :
    s.keyOf (field .object) = t.keyOf (field' .object) ↔
      field = field' ∧ s.visibility = t.visibility := by
  constructor
  · intro e
    obtain ⟨subject, predicate, object, context, visibility⟩ := StatementKey.mk.inj e
    refine ⟨funext fun position => ?_, visibility⟩
    by_cases isObject : position = .object
    · rw [isObject, object]
    · have values : s.value? position = t.value? position := by
        cases position with
        | subject => exact congrArg some subject
        | predicate => exact congrArg some predicate
        | object => exact absurd rfl isObject
        | context => exact context
      cases hv : s.value? position with
      | none => rw [h.of_none hv, h'.of_none (values ▸ hv)]
      | some v => exact Except.ok.inj ((h.of_value? hv).symm.trans (h'.of_value? (values ▸ hv)))
  · rintro ⟨rfl, visibility⟩
    have subject := h.value?_eq h' .subject (by decide)
    have predicate := h.value?_eq h' .predicate (by decide)
    have context : s.context = t.context := h.value?_eq h' .context (by decide)
    unfold Statement.keyOf
    simp only [Option.some.inj subject, Option.some.inj predicate, context, visibility]

/-- Every layout has one cell for each key. -/
theorem RowFormat.cellKey_eq_iff_key {format : RowFormat} {layout : Layout}
    (h : s.Encodes Codec.standard field) (h' : t.Encodes Codec.standard field') :
    (format.rowOf layout s field).cellKey = (format.rowOf layout t field').cellKey ↔
      s.keyOf (field .object) = t.keyOf (field' .object) := by
  rw [cellKey_eq_iff h h', Statement.keyOf_eq_iff h h']

end Keys

/-- The cell of a statement in one layout. -/
def RowFormat.cellOf (format : RowFormat) (layout : Layout) (s : Statement)
    (field : Position → Bytes) : Cell :=
  ((format.rowOf layout s field).cellKey, s.timestamp)

/-- The cell holds the row. -/
theorem RowFormat.ofCell_cellOf (format : RowFormat) (layout : Layout) (s : Statement)
    (field : Position → Bytes) :
    Row.ofCell (format.cellOf layout s field) = format.rowOf layout s field := rfl

namespace Ledger

/-- The ledger has an entry for a statement with given fields. -/
def Records (ledger : Ledger) (s : Statement) (field : Position → Bytes) : Prop :=
  s.Encodes Codec.standard field ∧ s.timestamp ∈ ledger.lookup (s.keyOf (field .object))

variable {ledger : Ledger} {s t : Statement} {field field' : Position → Bytes}

theorem records_insert {key : StatementKey} {timestamp : Option UInt64} :
    Records (ledger.insert key timestamp) t field' ↔ t.Encodes Codec.standard field' ∧
      (t.keyOf (field' .object) = key ∧ t.timestamp = timestamp
        ∨ t.keyOf (field' .object) ≠ key ∧ Records ledger t field') := by
  unfold Records
  by_cases same : t.keyOf (field' .object) = key
  · rw [same, Finmap.lookup_insert, Option.mem_some_iff]
    tauto
  · rw [Finmap.lookup_insert_of_ne _ same]
    tauto

theorem records_erase {key : StatementKey} :
    Records (ledger.erase key) t field' ↔
      t.keyOf (field' .object) ≠ key ∧ Records ledger t field' := by
  unfold Records
  by_cases same : t.keyOf (field' .object) = key
  · rw [same, Finmap.lookup_erase]
    simp
  · rw [Finmap.lookup_erase_ne same]
    tauto

end Ledger

/-! ## Calls on the store -/

namespace Store

/-- Change the tables of some layouts. -/
def update (store : Store) (layouts : List Layout) (f : Layout → Table → Table) : Store :=
  layouts.foldl (fun store layout => store.setTable layout (f layout (store.table layout))) store

theorem table_update {layouts : List Layout} (nodup : layouts.Nodup) (store : Store)
    (f : Layout → Table → Table) (layout : Layout) :
    (store.update layouts f).table layout
      = if layout ∈ layouts then f layout (store.table layout) else store.table layout := by
  unfold update
  induction layouts generalizing store with
  | nil => rfl
  | cons first layouts ih =>
    obtain ⟨fresh, nodup⟩ := List.nodup_cons.mp nodup
    rw [List.foldl_cons, ih nodup]
    by_cases same : layout = first
    · subst same
      rw [if_neg fresh, if_pos List.mem_cons_self]
      exact if_pos rfl
    · have table : (store.setTable first (f first (store.table first))).table layout
          = store.table layout := if_neg same
      rw [table]
      simp only [List.mem_cons, same, false_or]

theorem config_update (store : Store) (layouts : List Layout) (f : Layout → Table → Table) :
    (store.update layouts f).config = store.config := by
  unfold update
  induction layouts generalizing store with
  | nil => rfl
  | cons first layouts ih => exact ih _

end Store

theorem Config.nodup_layouts (config : Config) : config.layouts.Nodup := by
  unfold Config.layouts
  cases config.contextTables <;> decide

theorem Config.spo_mem_layouts (config : Config) : .spo ∈ config.layouts :=
  List.mem_append_left _ List.mem_cons_self

namespace Store

open RowFormat (applies)

variable {store next : Store} {s : Statement}

/-- The layouts that take up a statement. -/
def takers (store : Store) (s : Statement) : List Layout :=
  store.config.layouts.filter fun layout => applies layout s

theorem nodup_takers (store : Store) (s : Statement) : (store.takers s).Nodup :=
  store.config.nodup_layouts.filter _

theorem mem_takers {layout : Layout} :
    layout ∈ store.takers s ↔ layout ∈ store.config.layouts ∧ applies layout s = true :=
  List.mem_filter

/-- An insertion puts one cell in the table of every layout that takes the statement. -/
theorem insert_eq_ok {c : Codec} : store.insert c s = .ok next ↔
    ∃ field, s.Encodes c field ∧ next =
      store.update (store.takers s) fun layout table =>
        table.insert ((store.format c).rowOf layout s field).cellKey s.timestamp := by
  unfold insert rowsOf
  rw [bind_eq_ok]
  constructor
  · rintro ⟨rows, written, h⟩
    obtain ⟨field, encodes, rfl⟩ := (RowFormat.writeAll_eq_ok store.config.spo_mem_layouts).mp written
    refine ⟨field, encodes, ?_⟩
    rw [← Except.ok.inj h, List.foldl_map]
    rfl
  · rintro ⟨field, encodes, rfl⟩
    refine ⟨_, (RowFormat.writeAll_eq_ok store.config.spo_mem_layouts).mpr ⟨field, encodes, rfl⟩, ?_⟩
    rw [List.foldl_map]
    rfl

/-- A removal takes the cells of a statement out, and tells whether one of them was there. -/
theorem remove_eq_ok {c : Codec} {removed : Bool} : store.remove c s = .ok (removed, next) ↔
    ∃ field, s.Encodes c field
      ∧ removed = ((store.takers s).any fun layout => (store.table layout).contains
        ((store.format c).rowOf layout s field).cellKey)
      ∧ next = store.update (store.takers s) fun layout table =>
        table.erase ((store.format c).rowOf layout s field).cellKey := by
  unfold remove rowsOf
  rw [bind_eq_ok]
  constructor
  · rintro ⟨rows, written, h⟩
    obtain ⟨field, encodes, rfl⟩ := (RowFormat.writeAll_eq_ok store.config.spo_mem_layouts).mp written
    obtain ⟨found, dropped⟩ := Prod.mk.inj (Except.ok.inj h)
    refine ⟨field, encodes, ?_, ?_⟩
    · rw [← found, List.any_map]
      rfl
    · rw [← dropped, List.foldl_map]
      rfl
  · rintro ⟨field, encodes, rfl, rfl⟩
    refine ⟨_, (RowFormat.writeAll_eq_ok store.config.spo_mem_layouts).mpr ⟨field, encodes, rfl⟩, ?_⟩
    rw [List.any_map, List.foldl_map]
    rfl

end Store

/-! ## The invariant -/

namespace Tracked

open RowFormat (applies)

/-- How the store of a configuration writes rows. -/
def format (config : Config) : RowFormat :=
  ⟨Codec.standard, config.hashedKeys⟩

/-- Every table that is kept holds the cells of the ledger's statements, and no other table holds
any. -/
structure Mirrored (config : Config) (t : Tracked) : Prop where
  config_eq : t.store.config = config
  origin : ∀ key ∈ t.ledger, ∃ (s : Statement) (field : Position → Bytes),
    s.Encodes Codec.standard field ∧ s.keyOf (field .object) = key
  cells : ∀ layout ∈ config.layouts, ∀ cell, cell ∈ (t.store.table layout).cells ↔
    ∃ s field, t.ledger.Records s field ∧ applies layout s = true
      ∧ cell = (format config).cellOf layout s field
  rest : ∀ layout ∉ config.layouts, (t.store.table layout).cells = []

variable {config : Config} {t : Tracked}

theorem mirrored_empty (config : Config) : Mirrored config ⟨Store.empty config, ∅⟩ where
  config_eq := rfl
  origin key mem := absurd mem Finmap.notMem_empty
  cells layout _ cell := by
    constructor
    · exact nofun
    · rintro ⟨s, field, ⟨_, bound⟩, _⟩
      cases bound
  rest _ _ := rfl

/-- Whether a layout takes a statement depends on its key alone. -/
theorem applies_congr {layout : Layout} {s u : Statement} {a b : Bytes}
    (h : s.keyOf a = u.keyOf b) : applies layout s = applies layout u := by
  have context : s.context = u.context := congrArg StatementKey.context h
  unfold applies
  rw [context]

theorem Mirrored.format_eq (h : Mirrored config t) :
    t.store.format Codec.standard = format config := by
  unfold Store.format format
  rw [h.config_eq]

theorem Mirrored.mem_takers (h : Mirrored config t) {s : Statement} {layout : Layout} :
    layout ∈ t.store.takers s ↔ layout ∈ config.layouts ∧ applies layout s = true := by
  rw [Store.mem_takers, h.config_eq]

/-- The table of a layout that does not take the statement mirrors the ledger as it did. -/
theorem Mirrored.cells_of_not_applies (h : Mirrored config t) {s : Statement}
    (field : Position → Bytes) {layout : Layout} (kept : layout ∈ config.layouts)
    (leaves : applies layout s ≠ true) {ledger : Ledger}
    (others : ∀ u f, Statement.keyOf u (f .object) ≠ s.keyOf (field .object) →
      (ledger.Records u f ↔ t.ledger.Records u f)) (cell : Cell) :
    cell ∈ (t.store.table layout).cells ↔ ∃ u f, ledger.Records u f ∧ applies layout u = true
      ∧ cell = (format config).cellOf layout u f := by
  rw [h.cells layout kept]
  have other {u : Statement} {f : Position → Bytes} (takes : applies layout u = true) :
      u.keyOf (f .object) ≠ s.keyOf (field .object) :=
    fun e => leaves (applies_congr e ▸ takes)
  constructor
  · rintro ⟨u, f, recorded, takes, rfl⟩
    exact ⟨u, f, (others u f (other takes)).mpr recorded, takes, rfl⟩
  · rintro ⟨u, f, recorded, takes, rfl⟩
    exact ⟨u, f, (others u f (other takes)).mp recorded, takes, rfl⟩

/-- A change of the tables that take a statement keeps them mirrors, if these tables are mirrors of
the new ledger, and it keeps what has another key than the statement. -/
theorem Mirrored.of_update (h : Mirrored config t) {s : Statement} (field : Position → Bytes)
    {f : Layout → Table → Table} {ledger : Ledger}
    (origin : ∀ key ∈ ledger, ∃ (u : Statement) (g : Position → Bytes),
      u.Encodes Codec.standard g ∧ u.keyOf (g .object) = key)
    (others : ∀ u g, Statement.keyOf u (g .object) ≠ s.keyOf (field .object) →
      (ledger.Records u g ↔ t.ledger.Records u g))
    (cells : ∀ layout ∈ config.layouts, applies layout s = true → ∀ cell,
      cell ∈ (f layout (t.store.table layout)).cells ↔ ∃ u g, ledger.Records u g
        ∧ applies layout u = true ∧ cell = (format config).cellOf layout u g) :
    Mirrored config ⟨t.store.update (t.store.takers s) f, ledger⟩ where
  config_eq := (Store.config_update _ _ _).trans h.config_eq
  origin := origin
  cells := by
    intro layout kept cell
    simp only [Store.table_update (Store.nodup_takers _ _), h.mem_takers, kept, true_and]
    split
    · next takes => exact cells layout kept takes cell
    · next leaves => exact h.cells_of_not_applies field kept leaves others cell
  rest := by
    intro layout dropped
    simp only [Store.table_update (Store.nodup_takers _ _), h.mem_takers, dropped, false_and,
      if_false]
    exact h.rest layout dropped

theorem mirrored_insert (h : Mirrored config t) {s : Statement} {next : Store}
    (inserted : t.store.insert Codec.standard s = .ok next) :
    Mirrored config ⟨next, (StoreCall.insert s).record Codec.standard t.ledger⟩ := by
  obtain ⟨field, encodes, rfl⟩ := Store.insert_eq_ok.mp inserted
  have key : (StoreCall.insert s).record Codec.standard t.ledger
      = t.ledger.insert (s.keyOf (field .object)) s.timestamp := by
    simp only [StoreCall.record, StoreCall.statement, encodes.key?_eq]
  rw [key, h.format_eq]
  refine h.of_update field ?_ ?_ ?_
  · intro key mem
    rcases Finmap.mem_insert.mp mem with rfl | mem
    · exact ⟨s, field, encodes, rfl⟩
    · exact h.origin key mem
  · intro u g other
    rw [Ledger.records_insert]
    exact ⟨fun ⟨_, found⟩ => (found.resolve_left fun same => other same.1).2,
      fun recorded => ⟨recorded.1, .inr ⟨other, recorded⟩⟩⟩
  · intro layout kept takes cell
    rw [Table.mem_insert, h.cells layout kept]
    constructor
    · rintro (rfl | ⟨⟨u, g, recorded, takes', rfl⟩, ne⟩)
      · exact ⟨s, field, Ledger.records_insert.mpr ⟨encodes, .inl ⟨rfl, rfl⟩⟩, takes, rfl⟩
      · have other := fun e => ne ((RowFormat.cellKey_eq_iff_key recorded.1 encodes).mpr e)
        exact ⟨u, g, Ledger.records_insert.mpr ⟨recorded.1, .inr ⟨other, recorded⟩⟩, takes', rfl⟩
    · rintro ⟨u, g, recorded, takes', rfl⟩
      obtain ⟨encodes', ⟨same, stamp⟩ | ⟨other, recorded⟩⟩ := Ledger.records_insert.mp recorded
      · exact .inl (Prod.ext ((RowFormat.cellKey_eq_iff_key encodes' encodes).mpr same) stamp)
      · refine .inr ⟨⟨u, g, recorded, takes', rfl⟩, fun e => other ?_⟩
        exact (RowFormat.cellKey_eq_iff_key encodes' encodes).mp e

theorem mirrored_remove (h : Mirrored config t) {s : Statement} {removed : Bool} {next : Store}
    (dropped : t.store.remove Codec.standard s = .ok (removed, next)) :
    Mirrored config ⟨next, (StoreCall.remove s).record Codec.standard t.ledger⟩ := by
  obtain ⟨field, encodes, _, rfl⟩ := Store.remove_eq_ok.mp dropped
  have key : (StoreCall.remove s).record Codec.standard t.ledger
      = t.ledger.erase (s.keyOf (field .object)) := by
    simp only [StoreCall.record, StoreCall.statement, encodes.key?_eq]
  rw [key, h.format_eq]
  refine h.of_update field ?_ ?_ ?_
  · intro key mem
    exact h.origin key (Finmap.mem_erase.mp mem).2
  · intro u g other
    rw [Ledger.records_erase]
    exact and_iff_right other
  · intro layout kept takes cell
    rw [Table.mem_erase, h.cells layout kept]
    constructor
    · rintro ⟨⟨u, g, recorded, takes', rfl⟩, ne⟩
      have other := fun e => ne ((RowFormat.cellKey_eq_iff_key recorded.1 encodes).mpr e)
      exact ⟨u, g, Ledger.records_erase.mpr ⟨other, recorded⟩, takes', rfl⟩
    · rintro ⟨u, g, recorded, takes', rfl⟩
      obtain ⟨other, recorded⟩ := Ledger.records_erase.mp recorded
      refine ⟨⟨u, g, recorded, takes', rfl⟩, fun e => other ?_⟩
      exact (RowFormat.cellKey_eq_iff_key recorded.1 encodes).mp e

/-- A call keeps the tables mirrors of the ledger. -/
theorem mirrored_after (h : Mirrored config t) (call : StoreCall) :
    Mirrored config (t.after Codec.standard call) := by
  unfold after
  split
  · next store applied =>
    cases call with
    | insert s => exact mirrored_insert h applied
    | remove s =>
      obtain ⟨⟨removed, next⟩, dropped, rfl⟩ := Outcome.map_eq_ok.mp applied
      exact mirrored_remove h dropped
  · exact h

theorem mirrored_foldl (h : Mirrored config t) (calls : List StoreCall) :
    Mirrored config (calls.foldl (after Codec.standard) t) := by
  induction calls generalizing t with
  | nil => exact h
  | cons call calls ih => exact ih (mirrored_after h call)

/-- After any sequence of calls the tables mirror the ledger. -/
theorem mirrored_run (config : Config) (calls : List StoreCall) :
    Mirrored config (run Codec.standard config calls) :=
  mirrored_foldl (mirrored_empty config) calls

/-! ## Cells and entries -/

/-- A cell is the row that a layout writes of any statement with the key and the timestamp of an
entry, and there is such a statement. -/
structure Serializes (format : RowFormat) (layout : Layout)
    (entry : (_ : StatementKey) × Option UInt64) (cell : Cell) : Prop where
  stamp : cell.2 = entry.2
  inhabited : ∃ s : Statement, s.key? format.codec = .ok entry.1 ∧ s.timestamp = entry.2
  row : ∀ s : Statement, s.key? format.codec = .ok entry.1 → s.timestamp = entry.2 →
    format.write layout s = .ok (Row.ofCell cell)

/-- The entries that a layout takes. -/
def taken (layout : Layout) (ledger : Ledger) : Multiset ((_ : StatementKey) × Option UInt64) :=
  ledger.entries.filter fun entry => entry.1.context.isSome || !layout.isContextFirst

theorem ofCell_injective {c d : Cell} (h : Row.ofCell c = Row.ofCell d) : c = d := by
  obtain ⟨⟨cr, cf, cv⟩, ct⟩ := c
  obtain ⟨⟨dr, df, dv⟩, dt⟩ := d
  obtain ⟨rfl, rfl, rfl, rfl⟩ := Row.mk.inj h
  rfl

theorem mem_taken {layout : Layout} {ledger : Ledger} {s : Statement} {object : Bytes} :
    ⟨s.keyOf object, s.timestamp⟩ ∈ taken layout ledger ↔
      s.timestamp ∈ ledger.lookup (s.keyOf object) ∧ applies layout s = true := by
  rw [taken, Multiset.mem_filter, ← Finmap.mem_lookup_iff]
  rfl

theorem serializes_cellOf {layout : Layout} {s : Statement} {field : Position → Bytes}
    (encodes : s.Encodes Codec.standard field) (takes : applies layout s = true) :
    Serializes (format config) layout ⟨s.keyOf (field .object), s.timestamp⟩
      ((format config).cellOf layout s field) where
  stamp := rfl
  inhabited := ⟨s, encodes.key?_eq, rfl⟩
  row u key timestamp := by
    have encodes' := encodes.of_key? key
    have same := encodes'.key?_eq.symm.trans key
    have written : (format config).write layout u = .ok ((format config).rowOf layout u field) :=
      RowFormat.write_of_encodes encodes' (applies_congr (Except.ok.inj same) ▸ takes)
    rw [written, RowFormat.ofCell_cellOf]
    have visibility : u.visibility = s.visibility :=
      congrArg StatementKey.visibility (Except.ok.inj same)
    have timestamp : u.timestamp = s.timestamp := timestamp
    unfold RowFormat.rowOf
    rw [visibility, timestamp]

theorem Serializes.cell_unique {layout : Layout} {entry : (_ : StatementKey) × Option UInt64}
    {c d : Cell} (hc : Serializes (format config) layout entry c)
    (hd : Serializes (format config) layout entry d) : c = d := by
  obtain ⟨s, key, timestamp⟩ := hc.inhabited
  exact ofCell_injective (Except.ok.inj
    ((hc.row s key timestamp).symm.trans (hd.row s key timestamp)))

/-- Every entry that a layout takes is that of a recorded statement. -/
theorem Mirrored.exists_records (h : Mirrored config t) {layout : Layout}
    {entry : (_ : StatementKey) × Option UInt64} (mem : entry ∈ taken layout t.ledger) :
    ∃ s field, t.ledger.Records s field ∧ applies layout s = true
      ∧ entry = ⟨s.keyOf (field .object), s.timestamp⟩ := by
  obtain ⟨key, timestamp⟩ := entry
  have bound := Finmap.mem_lookup_iff.mpr (Multiset.mem_filter.mp mem).1
  obtain ⟨u, field, encodes, rfl⟩ := h.origin key (Finmap.mem_of_lookup_eq_some bound)
  exact ⟨{ u with timestamp := timestamp }, field, ⟨encodes.restamp timestamp, bound⟩,
    (Multiset.mem_filter.mp mem).2, rfl⟩

/-- Each cell of a table serializes one entry, and each entry that the layout takes has one cell. -/
theorem Mirrored.rel_cells (h : Mirrored config t) {layout : Layout}
    (kept : layout ∈ config.layouts) :
    Multiset.Rel (Serializes (format config) layout) (taken layout t.ledger)
      (t.store.table layout).cells := by
  have each : ∀ entry ∈ taken layout t.ledger, ∃ cell, cell ∈ (t.store.table layout).cells
      ∧ Serializes (format config) layout entry cell := by
    intro entry mem
    obtain ⟨s, field, recorded, takes, rfl⟩ := h.exists_records mem
    exact ⟨_, (h.cells layout kept _).mpr ⟨s, field, recorded, takes, rfl⟩,
      serializes_cellOf recorded.1 takes⟩
  have : Nonempty Cell := ⟨(⟨[], [], []⟩, none)⟩
  choose! cellOf present serializes using each
  have injective : ∀ e ∈ taken layout t.ledger, ∀ e' ∈ taken layout t.ledger,
      cellOf e = cellOf e' → e = e' := by
    intro e he e' he' same
    obtain ⟨s, field, recorded, takes, rfl⟩ := h.exists_records he
    obtain ⟨s', field', recorded', takes', rfl⟩ := h.exists_records he'
    have cell := (serializes _ he).cell_unique (serializes_cellOf recorded.1 takes)
    have cell' := (serializes _ he').cell_unique (serializes_cellOf recorded'.1 takes')
    rw [cell, cell'] at same
    obtain ⟨key, timestamp⟩ := Prod.mk.inj same
    rw [(RowFormat.cellKey_eq_iff_key recorded.1 recorded'.1).mp key, timestamp]
  have cells : ((t.store.table layout).cells : Multiset Cell)
      = (taken layout t.ledger).map cellOf := by
    refine (Multiset.Nodup.ext (Multiset.coe_nodup.mpr (Table.nodup_cells _))
      (Multiset.Nodup.map_on injective (t.ledger.nodup_entries.filter _))).mpr fun cell => ?_
    rw [Multiset.mem_coe, Multiset.mem_map]
    constructor
    · intro mem
      obtain ⟨s, field, recorded, takes, rfl⟩ := (h.cells layout kept cell).mp mem
      have mem := mem_taken.mpr ⟨recorded.2, takes⟩
      exact ⟨_, mem, (serializes _ mem).cell_unique (serializes_cellOf recorded.1 takes)⟩
    · rintro ⟨entry, mem, rfl⟩
      exact present entry mem
  rw [cells, Multiset.rel_map_right]
  exact Multiset.rel_refl_of_refl_on serializes

/-- A removal reports whether the key of its statement was in the ledger. -/
theorem Mirrored.removed_iff (h : Mirrored config t) {s : Statement} {removed : Bool} {next : Store}
    (dropped : t.store.remove Codec.standard s = .ok (removed, next)) :
    removed = true ↔ ∃ key ∈ t.ledger, s.key? Codec.standard = .ok key := by
  obtain ⟨field, encodes, rfl, _⟩ := Store.remove_eq_ok.mp dropped
  rw [List.any_eq_true, h.format_eq]
  constructor
  · rintro ⟨layout, mem, found⟩
    obtain ⟨timestamp, mem'⟩ := Table.contains_iff.mp found
    obtain ⟨u, f, recorded, _, cell⟩ := (h.cells layout (h.mem_takers.mp mem).1 _).mp mem'
    have same := (RowFormat.cellKey_eq_iff_key encodes recorded.1).mp (Prod.mk.inj cell).1
    exact ⟨_, Finmap.mem_of_lookup_eq_some recorded.2, same ▸ encodes.key?_eq⟩
  · rintro ⟨key, mem, hk⟩
    have same := Except.ok.inj (encodes.key?_eq.symm.trans hk)
    obtain ⟨timestamp, bound⟩ := Finmap.mem_iff.mp (same ▸ mem)
    have takes := RowFormat.applies_spo s
    refine ⟨.spo, h.mem_takers.mpr ⟨config.spo_mem_layouts, takes⟩, Table.contains_iff.mpr ?_⟩
    exact ⟨timestamp, (h.cells .spo config.spo_mem_layouts _).mpr
      ⟨{ s with timestamp := timestamp }, field, ⟨encodes.restamp timestamp, bound⟩, takes, rfl⟩⟩

theorem taken_standard {layout : Layout} (h : layout ∈ Layout.standard) (ledger : Ledger) :
    taken layout ledger = ledger.entries := by
  have first : layout.isContextFirst = false := by
    revert layout
    decide
  simp [taken, first]

theorem taken_contextFirst {layout : Layout} (h : layout ∈ Layout.contextFirst) (ledger : Ledger) :
    taken layout ledger = ledger.entries.filter fun entry => entry.1.context.isSome := by
  have first : layout.isContextFirst = true := by
    revert layout
    decide
  simp [taken, first]

/-- Keys that satisfy a condition are as many as entries whose keys do. -/
theorem card_keys_filter (ledger : Ledger) (p : StatementKey → Bool) :
    (ledger.keys.filter fun key => p key).card
      = (ledger.entries.filter fun entry => p entry.1).card := by
  change (Multiset.filter (fun key => p key) (ledger.entries.map Sigma.fst)).card = _
  rw [Multiset.filter_map, Multiset.card_map]
  rfl

/-- After any sequence of calls every standard table holds exactly one cell for each entry of the
ledger, every table that starts with the context exactly one for each entry that has a context, and
no other table holds a cell; each cell is what its layout writes. So the sizes of the tables agree,
and a removal reports exactly whether its key was in the ledger. -/
theorem tables_mirror_ledger (config : Config) (calls : List StoreCall) :
    let t := run Codec.standard config calls
    (∀ layout ∈ Layout.standard,
      Multiset.Rel (Serializes (format config) layout) t.ledger.entries (t.store.table layout).cells
        ∧ t.store.size layout = t.ledger.keys.card)
    ∧ (∀ layout ∈ Layout.contextFirst,
      if config.contextTables then
        Multiset.Rel (Serializes (format config) layout)
          (t.ledger.entries.filter fun entry => entry.1.context.isSome)
          (t.store.table layout).cells
        ∧ t.store.size layout = (t.ledger.keys.filter fun key => key.context.isSome).card
      else (t.store.table layout).cells = [])
    ∧ ∀ s removed next, t.store.remove Codec.standard s = .ok (removed, next) →
      (removed = true ↔ ∃ key ∈ t.ledger, s.key? Codec.standard = .ok key) := by
  intro t
  have h : Mirrored config t := mirrored_run config calls
  refine ⟨?_, ?_, fun s removed next dropped => h.removed_iff dropped⟩
  · intro layout standard
    have rel := h.rel_cells (List.mem_append_left _ standard)
    rw [taken_standard standard] at rel
    refine ⟨rel, ?_⟩
    change ((t.store.table layout).cells : Multiset Cell).card = (t.ledger.entries.map Sigma.fst).card
    rw [← Multiset.card_eq_card_of_rel rel, Multiset.card_map]
  · intro layout contextFirst
    split
    · next on =>
      have kept : layout ∈ config.layouts := by
        rw [Config.layouts, if_pos on]
        exact List.mem_append_right _ contextFirst
      have rel := h.rel_cells kept
      rw [taken_contextFirst contextFirst] at rel
      refine ⟨rel, ?_⟩
      rw [card_keys_filter, Multiset.card_eq_card_of_rel rel]
      rfl
    · next off =>
      refine h.rest layout ?_
      rw [Config.layouts, if_neg off, List.append_nil]
      revert layout
      decide

end Tracked

end TripleIndex
