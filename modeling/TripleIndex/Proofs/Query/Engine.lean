/-
  Queries. Scanning a layout for a pattern hands out exactly the stored statements that match it,
  with their objects in canonical form, in the order of the layout's cells.

  * `Tracked.readable_run`: what is stored reads back, if moments lie in the years that read back.
  * `yields_scanned`: one layout.
  * `Engine.query_exact`: all layouts that answer, and the query that picks one of them.
-/
import Mathlib
import TripleIndex.Proofs.Cursor
import TripleIndex.Proofs.Planner
import TripleIndex.Query.Engine

namespace TripleIndex

open Cursor (Yields)
open Outcome (map_eq_ok)
open RowFormat (applies)

/-- The statement of an entry with a given object. -/
def StatementKey.statement (key : StatementKey) (object : Value) (timestamp : Option UInt64) :
    Statement :=
  ⟨key.subject, key.predicate, object, key.context, key.visibility, timestamp, key.named,
    key.guarded⟩

namespace Ledger

/-- The stored statements, their objects as they are read from their encodings. -/
def statements (c : Codec) (ledger : Ledger) : Multiset Statement :=
  ledger.entries.filterMap fun entry =>
    (c.decodeObject entry.1.object).toOption.map fun object => entry.1.statement object entry.2

/-- Every object of a ledger reads back as a value of the same encoding. -/
def Readable (ledger : Ledger) : Prop :=
  ∀ key ∈ ledger, ∃ object, Codec.standard.decodeObject key.object = .ok object
    ∧ Codec.standard.encodeObject object = .ok key.object

end Ledger

namespace Tracked

/-- Whether no insertion of a moment outside the years 0 to 9999 of UTC is among the calls. The year is
that of the instant as it is stored, so that a store with the leap second 9999-12-31T23:59:60Z, which
is stored in the year 10000, is outside what is shown of queries and joins under this condition
(`Engine.query_exact`, `Engine.joinSubjects_exact`, `Engine.joinObjects_exact`). -/
def InFourDigitYears (calls : List StoreCall) : Prop :=
  ∀ s, .insert s ∈ calls → s.object.InFourDigitYears

theorem readable_after {t : Tracked} (h : t.ledger.Readable) (call : StoreCall)
    (years : ∀ s, call = .insert s → s.object.InFourDigitYears) :
    (t.after Codec.standard call).ledger.Readable := by
  unfold after
  split
  · cases call with
    | insert s =>
      simp only [StoreCall.record, StoreCall.statement]
      cases hk : s.key? Codec.standard with
      | error e => exact h
      | ok key =>
        intro key' mem
        rcases Finmap.mem_insert.mp mem with rfl | mem
        · obtain ⟨object, encoded, rfl⟩ := map_eq_ok.mp hk
          exact Codec.decodeObject_encodeObject encoded (years s rfl)
        · exact h key' mem
    | remove s =>
      simp only [StoreCall.record, StoreCall.statement]
      cases s.key? Codec.standard with
      | error e => exact h
      | ok key => exact fun key' mem => h key' (Finmap.mem_erase.mp mem).2
  · exact h

/-- After calls with moments in the years that read back, every object reads back. -/
theorem readable_run (config : Config) {calls : List StoreCall} (years : InFourDigitYears calls) :
    (run Codec.standard config calls).ledger.Readable := by
  have start : (∅ : Ledger).Readable := fun key mem => absurd mem Finmap.notMem_empty
  suffices ∀ t : Tracked, t.ledger.Readable →
      (calls.foldl (after Codec.standard) t).ledger.Readable from this _ start
  induction calls with
  | nil => exact fun t h => h
  | cons call calls ih =>
    intro t h
    refine ih (fun s mem => years s (List.mem_cons_of_mem _ mem)) _ (readable_after h call ?_)
    rintro s rfl
    exact years s List.mem_cons_self

end Tracked

/-! ## Stored statements -/

namespace Ledger

variable {ledger : Ledger}

theorem mem_statements {s : Statement} : s ∈ ledger.statements Codec.standard ↔
    ∃ key timestamp object, timestamp ∈ ledger.lookup key
      ∧ Codec.standard.decodeObject key.object = .ok object ∧ key.statement object timestamp = s := by
  unfold statements
  rw [Multiset.mem_filterMap]
  constructor
  · rintro ⟨⟨key, timestamp⟩, mem, h⟩
    obtain ⟨object, decoded, rfl⟩ := Option.map_eq_some_iff.mp h
    refine ⟨key, timestamp, object, Finmap.mem_lookup_iff.mpr mem, ?_, rfl⟩
    revert decoded
    cases Codec.standard.decodeObject key.object <;> simp [Except.toOption]
  · rintro ⟨key, timestamp, object, mem, decoded, rfl⟩
    exact ⟨⟨key, timestamp⟩, Finmap.mem_lookup_iff.mp mem, by simp [decoded, Except.toOption]⟩

/-- Every entry is the one of a stored statement. -/
theorem card_statements (h : ledger.Readable) :
    (ledger.statements Codec.standard).card = ledger.entries.card := by
  unfold statements
  obtain ⟨entries, he⟩ := Quot.exists_rep ledger.entries
  rw [← he]
  apply List.filterMap_length_eq_length.mpr
  intro entry mem
  have mem : entry ∈ ledger.entries := he ▸ mem
  obtain ⟨object, decoded, _⟩ :=
    h entry.1 (Finmap.mem_of_lookup_eq_some (Finmap.mem_lookup_iff.mpr mem))
  simp [decoded, Except.toOption]

/-- Stored statements differ, since their entries do. -/
theorem nodup_statements (h : ledger.Readable) : (ledger.statements Codec.standard).Nodup := by
  unfold statements
  have nodup := ledger.nodup_entries
  have readable : ∀ entry ∈ ledger.entries, ∃ object,
      Codec.standard.decodeObject entry.1.object = .ok object
        ∧ Codec.standard.encodeObject object = .ok entry.1.object := fun entry mem =>
    h entry.1 (Finmap.mem_of_lookup_eq_some (Finmap.mem_lookup_iff.mpr mem))
  obtain ⟨entries, he⟩ := Quot.exists_rep ledger.entries
  rw [← he] at nodup readable ⊢
  refine (List.pairwise_filterMap.mpr (nodup.imp_of_mem ?_) : (List.filterMap _ entries).Nodup)
  rintro ⟨key, timestamp⟩ ⟨key', timestamp'⟩ mem mem' ne s hs s' hs' rfl
  obtain ⟨object, decoded, encoded⟩ := readable _ mem
  obtain ⟨object', decoded', encoded'⟩ := readable _ mem'
  simp only [decoded, decoded', Except.toOption, Option.map_some, Option.some.injEq] at hs hs'
  obtain ⟨subject, predicate, rfl, context, visibility, stamp⟩ :=
    Statement.mk.inj (hs.trans hs'.symm)
  rw [encoded] at encoded'
  obtain ⟨s, p, o, c, v, _, _⟩ := key
  obtain ⟨s', p', o', c', v', _, _⟩ := key'
  obtain rfl := Except.ok.inj encoded'
  simp only at subject predicate context visibility stamp
  subst subject predicate context visibility stamp
  exact ne rfl

/-- A stored statement with its fields: the ledger has its entry, and its object is the one that its
field stands for. -/
def Holds (ledger : Ledger) (s : Statement) (field : Position → Bytes) : Prop :=
  ledger.Records s field ∧ Codec.standard.decodeObject (field .object) = .ok s.object

theorem mem_statements_of_holds {s : Statement} {field : Position → Bytes}
    (h : ledger.Holds s field) : s ∈ ledger.statements Codec.standard :=
  mem_statements.mpr ⟨s.keyOf (field .object), s.timestamp, s.object, h.1.2, h.2, rfl⟩

end Ledger

/-- The fields do not change when an object is replaced by one of the same encoding. -/
theorem Statement.Encodes.withObject {s : Statement} {c : Codec} {field : Position → Bytes}
    (h : s.Encodes c field) {object : Value} (same : c.encodeObject object = .ok (field .object)) :
    Statement.Encodes c { s with object := object } field := by
  intro position
  cases position with
  | subject => exact h .subject
  | predicate => exact h .predicate
  | object => exact same
  | context => exact h .context

namespace Tracked

variable {config : Config} {t : Tracked}

/-- A recorded statement is stored with its object in canonical form. -/
theorem holds_of_records (readable : t.ledger.Readable) {s : Statement} {field : Position → Bytes}
    (h : t.ledger.Records s field) :
    ∃ object, t.ledger.Holds { s with object := object } field := by
  obtain ⟨object, decoded, encoded⟩ := readable _ (Finmap.mem_of_lookup_eq_some h.2)
  exact ⟨object, ⟨h.1.withObject encoded, h.2⟩, decoded⟩

/-- Every stored statement has fields. -/
theorem Mirrored.exists_holds (h : Mirrored config t) (readable : t.ledger.Readable) {s : Statement}
    (mem : s ∈ t.ledger.statements Codec.standard) : ∃ field, t.ledger.Holds s field := by
  obtain ⟨key, timestamp, object, bound, decoded, rfl⟩ := Ledger.mem_statements.mp mem
  obtain ⟨u, field, encodes, rfl⟩ := h.origin key (Finmap.mem_of_lookup_eq_some bound)
  obtain ⟨object', decoded', encoded⟩ := readable _ (Finmap.mem_of_lookup_eq_some bound)
  rw [decoded] at decoded'
  obtain rfl := Except.ok.inj decoded'
  exact ⟨field, ⟨(encodes.restamp timestamp).withObject encoded, bound⟩, decoded⟩

/-- Every cell of a table is that of one stored statement, which is what its row reads as. -/
theorem Mirrored.exists_read (h : Mirrored config t) (readable : t.ledger.Readable)
    {layout : Layout} (kept : layout ∈ config.layouts) {cell : Cell}
    (mem : cell ∈ (t.store.table layout).cells) :
    ∃ s field, t.ledger.Holds s field ∧ applies layout s = true
      ∧ cell = (format config).cellOf layout s field
      ∧ (format config).read layout (Row.ofCell cell) = .ok s := by
  obtain ⟨u, field, recorded, takes, rfl⟩ := (h.cells layout kept cell).mp mem
  obtain ⟨object, holds⟩ := holds_of_records readable recorded
  exact ⟨{ u with object := object }, field, holds, takes, rfl,
    RowFormat.read_rowOf rfl recorded.1 takes holds.2⟩

end Tracked

/-- The row of one statement comes before that of another in a layout. -/
def RowFormat.Precedes (format : RowFormat) (layout : Layout) (s t : Statement) : Prop :=
  ∃ row row', format.write layout s = .ok row ∧ format.write layout t = .ok row'
    ∧ row.cellKey.Before row'.cellKey

theorem RowFormat.not_precedes_self {format : RowFormat} {layout : Layout} (s : Statement) :
    ¬ format.Precedes layout s s := by
  rintro ⟨row, row', h, h', before⟩
  rw [h] at h'
  rw [Except.ok.inj h'] at before
  exact CellKey.not_before_self _ before

/-- Rows that come before others have no greater keys. -/
theorem RowFormat.key_le_of_precedes {format : RowFormat} {layout : Layout} {s u : Statement}
    {field field' : Position → Bytes} (hs : s.Encodes format.codec field)
    (hu : u.Encodes format.codec field') (precedes : format.Precedes layout s u) :
    format.key (layout.fields.map field) ≤ format.key (layout.fields.map field') := by
  obtain ⟨row, row', written, written', before⟩ := precedes
  rw [write_of_encodes hs (applies_of_write written)] at written
  rw [write_of_encodes hu (applies_of_write written')] at written'
  cases written
  cases written'
  rcases before with lt | ⟨same, _⟩
  · exact List.le_of_lt lt
  · change format.key _ = format.key _ at same
    rw [same]
    exact List.le_refl _

/-! ## Scans -/

section Scans

variable {config : Config} {t : Tracked} {layout : Layout} {p : Pattern} {plan : ScanPlan}
  {s : Statement} {field : Position → Bytes}

/-- The cursor of a scan. -/
def scanned (config : Config) (t : Tracked) (layout : Layout) (p : Pattern) (plan : ScanPlan) :
    Statements (Snapshot Row) :=
  ⟨Snapshot.ofList (t.store.rows plan), layout, Tracked.format config,
    if 0 < p.countRanges then some p else none, false⟩

/-- A scan checks every statement, unless the keys alone decide. -/
theorem accepts_scanned (s : Statement) : (scanned config t layout p plan).accepts s =
    if 0 < p.countRanges then p.matches? Codec.standard s else .ok true := by
  unfold scanned Statements.accepts
  by_cases ranges : 0 < p.countRanges
  · simp only [if_pos ranges]
    rfl
  · simp only [if_neg ranges]

/-- The plan and the check together let through exactly the statements that match. -/
theorem asked_and_accepts_iff
    (planned : (⟨layout, config.hashedKeys⟩ : Planner).plan Codec.standard p = .ok plan)
    (named : ∀ context ∈ p.context, context.data ≠ "") (encodes : s.Encodes Codec.standard field) :
    Store.Asked plan ((Tracked.format config).cellOf layout s field)
        ∧ (scanned config t layout p plan).accepts s = .ok true ↔
      p.matches? Codec.standard s = .ok true := by
  have asked := Planner.asked_iff planned named encodes
  obtain ⟨b, found, sound, complete⟩ :=
    Pattern.matches?_of_encodes encodes (Planner.encodable_of_plan planned)
  rw [accepts_scanned, found]
  constructor
  · rintro ⟨row, accepted⟩
    split at accepted
    · exact accepted
    · next plain =>
      obtain ⟨context, accepts⟩ := asked.mp row
      rw [complete (by omega) context accepts]
  · intro isMatch
    refine ⟨asked.mpr (sound (Except.ok.inj isMatch)), ?_⟩
    split
    · exact isMatch
    · rfl

theorem pick_scanned {row : Row} (read : (Tracked.format config).read layout row = .ok s) :
    (scanned config t layout p plan).pick row
      = if (scanned config t layout p plan).accepts s = .ok true then some s else none := by
  have read : (scanned config t layout p plan).format.read (scanned config t layout p plan).layout
      row = .ok s := read
  unfold Statements.pick
  rw [read]

theorem rows_scanned
    (planned : (⟨layout, config.hashedKeys⟩ : Planner).plan Codec.standard p = .ok plan) :
    t.store.rows plan
      = ((t.store.table layout).cells.filter fun cell => Store.Asked plan cell).map Row.ofCell := by
  rw [Store.rows_eq, (Planner.plan_eq_ok planned).1]

variable (mirrored : Tracked.Mirrored config t) (readable : t.ledger.Readable)
  (kept : layout ∈ config.layouts)
  (planned : (⟨layout, config.hashedKeys⟩ : Planner).plan Codec.standard p = .ok plan)
  (named : ∀ context ∈ p.context, context.data ≠ "")

include mirrored readable kept planned in
theorem readable_scanned :
    ∀ row ∈ t.store.rows plan, (scanned config t layout p plan).Readable row := by
  intro row mem
  rw [rows_scanned planned] at mem
  obtain ⟨cell, found, rfl⟩ := List.mem_map.mp mem
  obtain ⟨s, field, holds, _, _, read⟩ :=
    mirrored.exists_read readable kept (List.mem_filter.mp found).1
  obtain ⟨b, found, _⟩ :=
    Pattern.matches?_of_encodes holds.1.1 (Planner.encodable_of_plan planned)
  refine ⟨s, if 0 < p.countRanges then b else true, read, ?_⟩
  rw [accepts_scanned, found]
  split <;> rfl

include mirrored readable kept planned named in
/-- A statement is picked from the rows exactly if it is stored and matches. -/
theorem mem_pick_scanned :
    s ∈ (t.store.rows plan).filterMap (scanned config t layout p plan).pick ↔
      s ∈ t.ledger.statements Codec.standard ∧ p.matches? Codec.standard s = .ok true := by
  rw [rows_scanned planned, List.mem_filterMap]
  constructor
  · rintro ⟨row, mem, picked⟩
    obtain ⟨cell, found, rfl⟩ := List.mem_map.mp mem
    obtain ⟨stored, asked⟩ := List.mem_filter.mp found
    obtain ⟨u, field, holds, _, rfl, read⟩ := mirrored.exists_read readable kept stored
    rw [pick_scanned read] at picked
    split at picked
    · next accepted =>
      obtain rfl := Option.some.inj picked
      exact ⟨Ledger.mem_statements_of_holds holds,
        (asked_and_accepts_iff planned named holds.1.1).mp ⟨of_decide_eq_true asked, accepted⟩⟩
    · cases picked
  · rintro ⟨mem, isMatch⟩
    obtain ⟨field, holds⟩ := mirrored.exists_holds readable mem
    obtain ⟨asked, accepted⟩ := (asked_and_accepts_iff (t := t) planned named holds.1.1).mpr isMatch
    have takes : applies layout s = true := by
      apply RowFormat.applies_iff.mpr
      intro first
      obtain ⟨context, hc⟩ := Planner.exists_context (Planner.plan_eq_ok planned).2.1 first
      have asks := ((Planner.asked_iff planned named holds.1.1).mp asked).1
      rw [asks context hc]
      exact Option.some_ne_none _
    refine ⟨_, List.mem_map_of_mem (List.mem_filter.mpr ⟨(mirrored.cells layout kept _).mpr
      ⟨s, field, holds.1, takes, rfl⟩, decide_eq_true asked⟩), ?_⟩
    have read : (Tracked.format config).read layout
        (Row.ofCell ((Tracked.format config).cellOf layout s field)) = .ok s :=
      RowFormat.read_rowOf rfl holds.1.1 takes holds.2
    rw [pick_scanned read, if_pos accepted]

include mirrored readable kept planned in
/-- Statements are picked in the order of their cells. -/
theorem pairwise_pick_scanned :
    ((t.store.rows plan).filterMap (scanned config t layout p plan).pick).Pairwise
      ((Tracked.format config).Precedes layout) := by
  rw [rows_scanned planned, List.filterMap_map, List.pairwise_filterMap]
  have ascending := (t.store.table layout).ascending.filter fun cell => decide (Store.Asked plan cell)
  apply ascending.imp_of_mem
  intro c d hc hd before s hs u hu
  have written {cell : Cell} (mem : cell ∈ (t.store.table layout).cells) {s : Statement}
      (picked : (scanned config t layout p plan).pick (Row.ofCell cell) = some s) :
      (Tracked.format config).write layout s = .ok (Row.ofCell cell) := by
    obtain ⟨u, field, holds, takes, rfl, read⟩ := mirrored.exists_read readable kept mem
    rw [pick_scanned read] at picked
    split at picked
    · obtain rfl := Option.some.inj picked
      rw [RowFormat.write_of_encodes holds.1.1 takes, RowFormat.ofCell_cellOf]
    · cases picked
  exact ⟨_, _, written (List.mem_filter.mp hc).1 hs, written (List.mem_filter.mp hd).1 hu, before⟩

include mirrored readable kept planned named in
/-- A scan hands out the stored statements that match, in the order of their cells. -/
theorem yields_scanned :
    ∃ items, Yields (scanned config t layout p plan) items
      ∧ (items : Multiset Statement) = (t.ledger.statements Codec.standard).filter
        (fun s => p.matches? Codec.standard s = .ok true)
      ∧ items.Pairwise ((Tracked.format config).Precedes layout) := by
  have ordered := pairwise_pick_scanned mirrored readable kept planned
  refine ⟨_, Statements.yields (Snapshot.yields _) rfl
    (readable_scanned mirrored readable kept planned), ?_, ordered⟩
  have nodup := ordered.imp (S := (· ≠ ·)) fun {a b} before e =>
    RowFormat.not_precedes_self b (e ▸ before)
  refine (Multiset.Nodup.ext (Multiset.coe_nodup.mpr nodup)
    ((Ledger.nodup_statements readable).filter _)).mpr fun s => ?_
  rw [Multiset.mem_coe, mem_pick_scanned mirrored readable kept planned named, Multiset.mem_filter]

end Scans

/-! ## Queries -/

theorem Catalog.planners_ofConfig (config : Config) : (ofConfig config).planners
    = config.layouts.map fun layout => ⟨layout, config.hashedKeys⟩ := by
  obtain ⟨stem, contextTables, hashedKeys⟩ := config
  cases contextTables <;> rfl

theorem Catalog.planner?_ofConfig (config : Config) (layout : Layout) :
    (ofConfig config).planner? layout
      = if layout ∈ config.layouts then some ⟨layout, config.hashedKeys⟩ else none := by
  obtain ⟨stem, contextTables, hashedKeys⟩ := config
  cases contextTables <;> cases layout <;> rfl

namespace Engine

/-- A query that opens reads the scan of its plan. -/
theorem queryIn_eq_ok {ω σ : Type} [Scanner ω σ] {engine : Engine} {store last : ω} {layout : Layout}
    {p : Pattern} {input : Statements σ}
    (opened : engine.queryIn store layout p = (.ok input, last)) :
    ∃ planner plan, engine.catalog.planner? layout = some planner
      ∧ planner.plan engine.codec p = .ok plan ∧ Scanner.scan store plan = (.ok input.rows, last)
      ∧ input = ⟨input.rows, layout, engine.format, if 0 < p.countRanges then some p else none,
        false⟩ := by
  unfold queryIn at opened
  split at opened
  · cases opened
  · next planner registered =>
    split at opened
    · cases opened
    · next plan planned =>
      split at opened
      · cases opened
      · next rows last' scanned =>
        cases opened
        exact ⟨planner, plan, registered, planned, scanned, rfl⟩

variable {config : Config} {t : Tracked} {layout : Layout} {p : Pattern} {plan : ScanPlan}

theorem queryIn_eq (kept : layout ∈ config.layouts)
    (planned : (⟨layout, config.hashedKeys⟩ : Planner).plan Codec.standard p = .ok plan) :
    (ofConfig config Codec.standard).queryIn t.store layout p
      = (.ok (scanned config t layout p plan), t.store) := by
  unfold queryIn
  have planner : (ofConfig config Codec.standard).catalog.planner? layout
      = some ⟨layout, config.hashedKeys⟩ := by
    change (Catalog.ofConfig config).planner? layout = _
    rw [Catalog.planner?_ofConfig, if_pos kept]
  have planned' : (⟨layout, config.hashedKeys⟩ : Planner).plan
      (ofConfig config Codec.standard).codec p = .ok plan := planned
  simp only [planner, planned']
  rfl

/-- If some layout has a plan, then the query runs in a layout that has one. -/
theorem query_eq (kept : layout ∈ config.layouts)
    (planned : (⟨layout, config.hashedKeys⟩ : Planner).plan Codec.standard p = .ok plan) :
    ∃ first ∈ config.layouts, ∃ plan',
      (⟨first, config.hashedKeys⟩ : Planner).plan Codec.standard p = .ok plan'
        ∧ (ofConfig config Codec.standard).query t.store p
          = (ofConfig config Codec.standard).queryIn t.store first p := by
  have answering : ⟨layout, config.hashedKeys⟩
      ∈ (Catalog.ofConfig config).planners.filter fun planner => planner.answers p := by
    rw [Catalog.planners_ofConfig]
    exact List.mem_filter.mpr ⟨List.mem_map_of_mem kept, Planner.answers_of_plan planned⟩
  obtain ⟨planner, rest, found⟩ := List.exists_cons_of_ne_nil (List.ne_nil_of_mem answering)
  have chosen : planner ∈ (Catalog.ofConfig config).planners.filter fun planner =>
      planner.answers p := found ▸ List.mem_cons_self
  obtain ⟨mem, answers⟩ := List.mem_filter.mp chosen
  rw [Catalog.planners_ofConfig] at mem
  obtain ⟨first, kept', rfl⟩ := List.mem_map.mp mem
  obtain ⟨plan', planned'⟩ := Planner.exists_plan answers (Planner.encodable_of_plan planned)
  refine ⟨first, kept', plan', planned', ?_⟩
  unfold query
  have answered : (ofConfig config Codec.standard).catalog.answering p
      = .ok (first, rest.map Planner.layout) := by
    change (Catalog.ofConfig config).answering p = _
    unfold Catalog.answering
    rw [found]
    rfl
  rw [answered]

/-- Whatever was inserted and removed, every layout that has a plan for a pattern, and the query
that picks one of them, hands out exactly the stored statements that match the pattern, their
objects in canonical form, each once; a layout hands them out in the order of its cells. -/
theorem query_exact (config : Config) (calls : List StoreCall)
    (years : Tracked.InFourDigitYears calls) (p : Pattern)
    (named : ∀ context ∈ p.context, context.data ≠ "") (layout : Layout) (planner : Planner)
    (registered : (ofConfig config Codec.standard).catalog.planner? layout = some planner)
    (plan : ScanPlan) (planned : planner.plan Codec.standard p = .ok plan) :
    let t := Tracked.run Codec.standard config calls
    let engine := ofConfig config Codec.standard
    let stored := t.ledger.statements Codec.standard
    stored.Nodup ∧ stored.card = t.ledger.entries.card
      ∧ (∃ cursor items, engine.queryIn t.store layout p = (.ok cursor, t.store)
        ∧ Yields cursor items
        ∧ (items : Multiset Statement) = stored.filter
          (fun s => p.matches? Codec.standard s = .ok true)
        ∧ items.Pairwise (engine.format.Precedes layout))
      ∧ ∃ cursor items, engine.query t.store p = (.ok cursor, t.store)
        ∧ Yields cursor items
        ∧ (items : Multiset Statement) = stored.filter
          (fun s => p.matches? Codec.standard s = .ok true) := by
  intro t engine stored
  have mirrored : t.Mirrored config := Tracked.mirrored_run config calls
  have readable : t.ledger.Readable := Tracked.readable_run config years
  change (Catalog.ofConfig config).planner? layout = some planner at registered
  rw [Catalog.planner?_ofConfig] at registered
  split at registered
  · next kept =>
    obtain rfl := Option.some.inj registered
    refine ⟨Ledger.nodup_statements readable, Ledger.card_statements readable, ?_, ?_⟩
    · obtain ⟨items, yields, same, ordered⟩ :=
        yields_scanned mirrored readable kept planned named
      exact ⟨_, items, queryIn_eq kept planned, yields, same, ordered⟩
    · obtain ⟨first, kept', plan', planned', query⟩ := query_eq (t := t) kept planned
      obtain ⟨items, yields, same, _⟩ := yields_scanned mirrored readable kept' planned' named
      exact ⟨_, items, query.trans (queryIn_eq kept' planned'), yields, same⟩
  · cases registered

/-- A statement about a moment, found by its predicate. -/
theorem query_exact_moment :
    let calls := [StoreCall.insert (.triple (.resource "a") (.resource "p")
      (.literal "2020-01-01T00:00:00Z" Xsd.dateTime))]
    let t := Tracked.run Codec.standard Config.default calls
    let p := Pattern.ofPredicate (.resource "p")
    ∃ cursor items,
      (ofConfig Config.default Codec.standard).queryIn t.store .pos p = (.ok cursor, t.store)
        ∧ Yields cursor items
        ∧ (items : Multiset Statement) = (t.ledger.statements Codec.standard).filter
          (fun s => p.matches? Codec.standard s = .ok true) := by
  intro calls t p
  have years : Tracked.InFourDigitYears calls := by
    intro s mem
    obtain rfl : s = _ := StoreCall.insert.inj (List.mem_singleton.mp mem)
    decide +kernel
  obtain ⟨_, _, ⟨cursor, items, opened, yields, same, _⟩, _⟩ :=
    query_exact Config.default calls years p nofun .pos ⟨.pos, false⟩ rfl
      ⟨.pos, ⟨[0x70, 0x00], [0x70, 0x00, 0xFF]⟩, none⟩ (by decide +kernel)
  exact ⟨cursor, items, opened, yields, same⟩

end Engine

end TripleIndex
