/-
  Scans for values of an inserted statement, with any codec. If a pattern binds the first positions
  of a layout to the statement's own values, the bounds of the scan hold the row of the statement
  unless the field behind the bound ones starts with the ceiling byte. A codec refuses data with a
  delimiter in it, and the ceiling byte as a marker, but not data with the ceiling byte.

  * `Planner.interval_of_own`: the bounds of such a scan.
  * `Store.scan_of_inserted`: when they hold the row, and the scan hands it out.
-/
import Mathlib
import TripleIndex.Proofs.Codec.Registry
import TripleIndex.Proofs.Planner

namespace TripleIndex

open Outcome (bind_eq_ok ok_bind)

namespace Key

open Bytes (append_lt_append_iff lt_append)

/-- The bounds of the leading fields of a key hold the key unless the next field starts with the
ceiling byte. -/
theorem leadingBounds_append_contains {front back : List Bytes} (ne : front ≠ []) :
    (leadingBounds front (decide (back = []))).contains (join (front ++ back)) = true ↔
      ∀ f ∈ back.head?, f.head? ≠ some ceiling := by
  rw [contains_iff]
  by_cases whole : back = []
  · subst whole
    simp only [leadingBounds, decide_true, if_true, List.append_nil, List.head?_nil]
    exact iff_of_true ⟨List.le_refl _, lt_append (List.cons_ne_nil _ _)⟩
      (fun _ none => absurd none (Option.not_mem_none _))
  · simp only [leadingBounds, whole, decide_false, Bool.false_eq_true, if_false]
    rw [join_append_delimiter ne, join_append front whole, append_lt_append_iff,
      join_lt_ceiling_iff]
    exact and_iff_right (List.prefix_append _ _).le

end Key

namespace Planner

variable {c : Codec} {p : Pattern} {s : Statement} {field : Position → Bytes}

/-- The bounds of a scan for a statement's own values are those of its fields. The induction is on
the positions that are left; `wanted` are the fields of those before them. -/
theorem boundsFrom_of_own (format : RowFormat) (encodes : s.Encodes c field)
    {positions : List Position}
    (own : ∀ q ∈ positions, ∃ v, s.value? q = some v ∧ p.term q = .scalar v) (complete : Bool)
    (wanted : List Bytes) :
    boundsFrom c p complete format.hashedKeys (lead format wanted) positions
      = .ok (Key.leadingBounds (lead format (wanted ++ positions.map field)) complete) := by
  induction positions generalizing wanted with
  | nil => rw [List.map_nil, List.append_nil, boundsFrom]
  | cons q positions ih =>
    obtain ⟨v, value, term⟩ := own q List.mem_cons_self
    rw [boundsFrom, term]
    simp only [encodes.of_value? value, ok_bind]
    rw [lead_concat, ih (fun r mem => own r (List.mem_cons_of_mem _ mem)), List.append_assoc,
      List.map_cons, List.singleton_append]

/-- The bounds of a scan for a statement's own values hold its row unless the field behind the bound
ones starts with the ceiling byte. -/
theorem interval_of_own {planner : Planner} {range : KeyInterval} (encodes : s.Encodes c field)
    (own : ∀ q ∈ planner.layout.fields,
      p.term q = .unbound ∨ ∃ v, s.value? q = some v ∧ p.term q = .scalar v)
    (planned : planner.interval c p = .ok range) :
    ∃ count, planner.boundFields p = .ok count ∧
      (range.contains ((⟨c, planner.hashedKeys⟩ : RowFormat).key (planner.layout.fields.map field))
        = true ↔ ∀ q ∈ planner.layout.fields[count]?, (field q).head? ≠ some Key.ceiling) := by
  obtain ⟨front, back, last, count, fields, ne, met, bounds⟩ := interval_eq_ok planned
  have scalars : ∀ q ∈ front, ∃ v, s.value? q = some v ∧ p.term q = .scalar v := by
    intro q mem
    have bound := met.bound q mem
    refine (own q (fields ▸ List.mem_append_left _ mem)).resolve_left fun unbound => ?_
    rw [unbound] at bound
    cases bound
  have wanted := boundsFrom_of_own ⟨c, planner.hashedKeys⟩ encodes scalars
    (decide (back = [])) []
  have filled : front.map field ≠ [] := fun empty => ne (List.map_eq_nil_iff.mp empty)
  refine ⟨front.length, count, ?_⟩
  rw [← Except.ok.inj (wanted.symm.trans bounds), List.nil_append, lead_eq (.inl filled), fields,
    List.map_append, RowFormat.key_eq, RowFormat.keyFields_append (.inl filled),
    show decide (back = []) = decide (back.map field = []) by simp,
    Key.leadingBounds_append_contains (RowFormat.keyFields_ne_nil filled), List.head?_map,
    List.getElem?_append_right (Nat.le_refl _), Nat.sub_self, ← List.head?_eq_getElem?]
  simp

/-- A layout whose plan asks for a statement's own values takes the statement. -/
theorem applies_of_own {planner : Planner} {range : KeyInterval}
    (own : ∀ q ∈ planner.layout.fields,
      p.term q = .unbound ∨ ∃ v, s.value? q = some v ∧ p.term q = .scalar v)
    (planned : planner.interval c p = .ok range) :
    RowFormat.applies planner.layout s = true := by
  rw [RowFormat.applies_iff]
  intro first
  have mem : Position.context ∈ planner.layout.fields := Layout.mem_fields.mpr fun _ => first
  obtain ⟨context, asked⟩ := exists_context planned first
  have term : p.term .context = .scalar context := by simp [Pattern.term, asked]
  rcases own .context mem with unbound | ⟨v, value, _⟩
  · rw [term] at unbound
    cases unbound
  · exact Option.ne_none_iff_exists'.mpr ⟨v, value⟩

end Planner

namespace Store

/-- A plan asks for the column family of a statement if it asks for no other graph. -/
theorem family_of_own {planner : Planner} {c : Codec} {p : Pattern} {plan : ScanPlan} {s : Statement}
    {field : Position → Bytes} (encodes : s.Encodes c field) (scanned : planner.plan c p = .ok plan)
    (asks : ∀ context, p.context = some context → s.context = some context) :
    ∀ family ∈ plan.family,
      (if planner.layout.isContextFirst = true then [] else field .context) = family := by
  obtain ⟨_, _, inKey, familyOf, familyNone⟩ := Planner.plan_eq_ok scanned
  intro family mem
  cases first : planner.layout.isContextFirst with
  | true =>
    rw [inKey first] at mem
    cases mem
  | false =>
    cases asked : p.context with
    | none =>
      rw [familyNone asked] at mem
      cases mem
    | some context =>
      obtain ⟨f, encoded, own⟩ := familyOf first context asked
      rw [own] at mem
      rw [if_neg Bool.false_ne_true, ← Option.mem_some_iff.mp mem]
      exact Except.ok.inj ((encodes.context (asks context asked)).symm.trans encoded)

/-- Once a statement is inserted, a scan that asks for no other graph hands out its row exactly if
the bounds hold it. -/
theorem mem_rows_of_inserted {c : Codec} {store : Store} {s : Statement} {layout : Layout}
    {p : Pattern} {plan : ScanPlan} {field : Position → Bytes} (encodes : s.Encodes c field)
    (kept : layout ∈ store.config.layouts) (takes : RowFormat.applies layout s = true)
    (scanned : (⟨layout, store.config.hashedKeys⟩ : Planner).plan c p = .ok plan)
    (asks : ∀ context, p.context = some context → s.context = some context) :
    let row := (store.format c).rowOf layout s field
    let next := store.update (store.takers s) fun layout table =>
      table.insert ((store.format c).rowOf layout s field).cellKey s.timestamp
    row ∈ next.rows plan ↔ plan.range.contains row.key = true := by
  intro row next
  have same : plan.layout = layout := (Planner.plan_eq_ok scanned).1
  rw [rows_eq, same, table_update (store.nodup_takers s), if_pos (mem_takers.mpr ⟨kept, takes⟩)]
  constructor
  · intro mem
    obtain ⟨cell, asked, isRow⟩ := List.mem_map.mp mem
    rw [← isRow]
    exact (of_decide_eq_true (List.mem_filter.mp asked).2).1
  · intro within
    refine List.mem_map.mpr ⟨(row.cellKey, s.timestamp), List.mem_filter.mpr ⟨?_, ?_⟩, rfl⟩
    · exact Table.mem_insert.mpr (.inl rfl)
    · exact decide_eq_true ⟨within, family_of_own encodes scanned asks⟩

/-- With any codec, an insertion writes the row of the statement to every layout that is kept. A
scan of a layout whose pattern asks for the statement's own values holds that row in its bounds, and
hands it out if it asks for no other graph, exactly if the field behind the bound ones does not start
with the ceiling byte. -/
theorem scan_of_inserted (c : Codec) (store next : Store) (s : Statement) (layout : Layout)
    (p : Pattern) (range : KeyInterval) (inserted : store.insert c s = .ok next)
    (own : ∀ q ∈ layout.fields,
      p.term q = .unbound ∨ ∃ v, s.value? q = some v ∧ p.term q = .scalar v)
    (planned : (⟨layout, store.config.hashedKeys⟩ : Planner).interval c p = .ok range) :
    ∃ row count, (store.format c).write layout s = .ok row
      ∧ (⟨layout, store.config.hashedKeys⟩ : Planner).boundFields p = .ok count
      ∧ (range.contains row.key = true ↔ ∀ q f, layout.fields[count]? = some q →
          (store.format c).field layout s q = .ok f → f.head? ≠ some Key.ceiling)
      ∧ (layout ∈ store.config.layouts → ∀ plan,
          (⟨layout, store.config.hashedKeys⟩ : Planner).plan c p = .ok plan →
          (∀ context, p.context = some context → s.context = some context) →
          (row ∈ next.rows plan ↔ range.contains row.key = true)) := by
  obtain ⟨field, encodes, rfl⟩ := insert_eq_ok.mp inserted
  have takes : RowFormat.applies layout s = true := Planner.applies_of_own own planned
  have written : (store.format c).write layout s = .ok ((store.format c).rowOf layout s field) :=
    RowFormat.write_of_encodes encodes takes
  obtain ⟨count, bound, holds⟩ := Planner.interval_of_own encodes own planned
  refine ⟨_, count, written, bound, holds.trans ?_, fun kept plan scanned asks => ?_⟩
  · constructor
    · intro low q f behind hf
      have mem : q ∈ layout.fields := List.mem_of_getElem? behind
      rw [RowFormat.field_of_encodes encodes takes mem] at hf
      rw [← Except.ok.inj hf]
      exact low q behind
    · intro low q behind
      exact low q _ behind (RowFormat.field_of_encodes encodes takes (List.mem_of_getElem? behind))
  · have interval := (Planner.plan_eq_ok scanned).2.1
    obtain rfl : range = plan.range := Except.ok.inj (planned.symm.trans interval)
    exact mem_rows_of_inserted encodes kept takes scanned asks

/-- A datatype whose texts are stored with the ceiling byte behind them. -/
def ceilingResolver : Resolver :=
  Resolver.styled (some "urn:dt") 0x20 (.ending [Key.ceiling])

/-- The standard codec with that datatype. -/
def ceilingCodec : Codec :=
  ⟨Codec.replace Resolver.standard ceilingResolver, by decide +kernel⟩

theorem extended_ceilingResolver : Codec.extended [ceilingResolver] = .ok ceilingCodec :=
  Codec.extended_eq_ok.mpr rfl

/-- An empty text of a datatype that is stored as the ceiling byte: a codec with that datatype is
built, the statement is inserted, and the scan for its predicate ends before its row. -/
theorem scan_misses_ceiling :
    let s := Statement.triple (.resource "a") (.resource "p") (.literal "" "urn:dt")
    Codec.extended [ceilingResolver] = .ok ceilingCodec ∧ ∃ next row plan,
      (Store.empty Config.default).insert ceilingCodec s = .ok next
        ∧ ((Store.empty Config.default).format ceilingCodec).write .pos s = .ok row
        ∧ (⟨.pos, false⟩ : Planner).plan ceilingCodec (Pattern.ofPredicate (.resource "p")) = .ok plan
        ∧ plan.range.contains row.key = false ∧ next.rows plan = [] := by
  intro s
  let plan : ScanPlan := ⟨.pos, ⟨[0x70, 0x00], [0x70, 0x00, 0xFF]⟩, none⟩
  have scanned : ((Store.empty Config.default).insert ceilingCodec s).map (fun next => next.rows plan)
      = .ok [] := by decide +kernel
  obtain ⟨next, inserted, none⟩ := Outcome.map_eq_ok.mp scanned
  exact ⟨extended_ceilingResolver, next,
    ⟨[0x70, 0x00, 0xFF, 0x01, 0x20, 0x00, 0x61], [], [], .none⟩, plan, inserted, by decide +kernel,
    by decide +kernel, by decide +kernel, none⟩

/-- The same statement, which the scan for its predicate and its object finds. -/
theorem scan_of_inserted_ceiling :
    let s := Statement.triple (.resource "a") (.resource "p") (.literal "" "urn:dt")
    let p := Pattern.ofPredicateObject (.resource "p") (.literal "" "urn:dt")
    ∃ next plan row, (Store.empty Config.default).insert ceilingCodec s = .ok next
      ∧ (⟨.pos, false⟩ : Planner).plan ceilingCodec p = .ok plan
      ∧ ((Store.empty Config.default).format ceilingCodec).write .pos s = .ok row
      ∧ row ∈ next.rows plan := by
  intro s p
  have accepted : ((Store.empty Config.default).insert ceilingCodec s).map (fun _ => ()) = .ok () := by
    decide +kernel
  obtain ⟨next, inserted, -⟩ := Outcome.map_eq_ok.mp accepted
  let range : KeyInterval := ⟨[0x70, 0x00, 0xFF, 0x01, 0x20, 0x00],
    [0x70, 0x00, 0xFF, 0x01, 0x20, 0x00, 0xFF]⟩
  have planned : (⟨.pos, false⟩ : Planner).interval ceilingCodec p = .ok range := by decide +kernel
  have scanned : (⟨.pos, false⟩ : Planner).plan ceilingCodec p = .ok ⟨.pos, range, none⟩ := by
    decide +kernel
  have own : ∀ q ∈ Layout.pos.fields,
      p.term q = .unbound ∨ ∃ v, s.value? q = some v ∧ p.term q = .scalar v := by
    intro q _
    cases q with
    | subject => exact .inl rfl
    | predicate => exact .inr ⟨_, rfl, rfl⟩
    | object => exact .inr ⟨_, rfl, rfl⟩
    | context => exact .inl rfl
  obtain ⟨row, count, written, bound, holds, finds⟩ :=
    scan_of_inserted ceilingCodec (Store.empty Config.default) next s .pos p range inserted own planned
  refine ⟨next, _, row, inserted, scanned, written,
    (finds (by decide) _ scanned nofun).mpr (holds.mpr ?_)⟩
  -- the field behind the bound ones is the subject
  obtain rfl : 2 = count := Except.ok.inj (Eq.trans (by decide +kernel) bound)
  intro q f behind encoded
  obtain rfl : .subject = q := Option.some.inj behind
  have plain : (RowFormat.mk ceilingCodec false).field .pos s .subject = .ok [0x61] := by
    decide +kernel
  rw [Except.ok.inj (encoded.symm.trans plain)]
  decide

end Store

end TripleIndex
