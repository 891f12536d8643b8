/-
  Scans whose statements are not checked against their pattern, since it has no range. The check
  would let all of them through, with two exceptions: a context that is empty asks for the default
  graph in the column family, but no statement is in a graph of that name, and a moment outside the
  years 0 to 9999 is read back in a form that is refused (`Engine.unchecked_matches`).

  * `Codec.encodeObject_of_decodeObject`: which objects that are read back can be encoded again.
  * `asked_of_read`: what is handed out was stored, and its row was asked for.
-/
import Mathlib
import TripleIndex.Proofs.Cursor.Reads
import TripleIndex.Proofs.Query.Engine

namespace TripleIndex

open Outcome (bind_eq_ok map_ok ok_bind error_bind)
open RowFormat (applies)

/-- An object that is read back has its datatype, and its encoding if it is no moment outside the
years 0 to 9999; such a moment is refused. -/
theorem Codec.encodeObject_of_decodeObject {v w : Value} {bytes : Bytes}
    (encoded : standard.encodeObject v = .ok bytes)
    (decoded : standard.decodeObject bytes = .ok w) :
    w.datatype? = v.datatype?
      ∧ (v.InFourDigitYears → standard.encodeObject w = .ok bytes)
      ∧ (¬ v.InFourDigitYears → ∃ e, standard.encodeObject w = .error e) := by
  obtain ⟨r, mem, same, data, write, _, rfl⟩ := encodeObject_eq_ok.mp encoded
  have parts := decoded
  rw [decodeObject_append mem] at parts
  obtain ⟨text, read, value⟩ := Outcome.map_eq_ok.mp parts
  have datatype : w.datatype? = v.datatype? := by
    rw [← value, ← same]
    cases r.datatype <;> rfl
  refine ⟨datatype, fun years => ?_, fun years => ?_⟩
  · obtain ⟨w', decoded', again⟩ := decodeObject_encodeObject encoded years
    rwa [Except.ok.inj (decoded.symm.trans decoded')]
  · have moment : v.datatype? = some Xsd.dateTime := by_contra fun other => years (absurd · other)
    have inside : ¬ v.EndsCalendar := fun ends => by
      obtain ⟨message, missing⟩ := decodeObject_of_ends encoded ends
      rw [decoded] at missing
      cases missing
    obtain rfl := Resolver.eq_dateTime mem (same.trans moment)
    obtain ⟨text', read', refused⟩ := Resolver.dateTime_refuses write
      (fun ends => inside ⟨moment, ends⟩) fun own => years fun _ => own
    obtain rfl := Except.ok.inj (read.symm.trans read')
    rw [← value]
    have resolver : standard.resolverOf (.literal text Xsd.dateTime) = .ok Resolver.dateTime :=
      resolverOf_eq_ok.mpr ⟨mem, rfl⟩
    refine ⟨.invalidValue s!"Cannot parse dateTime: {text}", ?_⟩
    change standard.encodeObject (.literal text Xsd.dateTime) = _
    rw [encodeObject, resolver, ok_bind, encodeData]
    change (Resolver.dateTime.write text >>= _) >>= _ = _
    rw [refused]
    rfl

/-- A term that accepts the encoding of an object matches what is read back, unless that is refused. -/
theorem Term.matches?_of_decodeObject {t : Term} {w : Value} {bytes : Bytes}
    (scalar : t.isRange = false) (accepts : t.Accepts Codec.standard .object bytes)
    (decoded : Codec.standard.decodeObject bytes = .ok w) :
    ((∀ v, t = .scalar v → v.InFourDigitYears) → t.matches? Codec.standard .object w = .ok true)
      ∧ (¬ (∀ v, t = .scalar v → v.InFourDigitYears) →
        ∃ e, t.matches? Codec.standard .object w = .error e) := by
  cases t with
  | unbound => exact ⟨fun _ => rfl, fun wide => absurd (fun v e => by cases e) wide⟩
  | range r => cases scalar
  | scalar v =>
    have encoded : Codec.standard.encodeField .object v = .ok bytes := accepts
    obtain ⟨same, restores, refuses⟩ := Codec.encodeObject_of_decodeObject encoded decoded
    have comparable : v.comparable w = true := decide_eq_true same.symm
    rw [matches?, if_pos comparable, encoded, ok_bind]
    constructor
    · intro years
      have again : Codec.standard.encodeField .object w = .ok bytes := restores (years v rfl)
      rw [again, ok_bind, decide_eq_true rfl]
    · intro wide
      obtain ⟨e, refused⟩ := refuses fun years => wide fun _ own => Term.scalar.inj own ▸ years
      have failed : Codec.standard.encodeField .object w = .error e := refused
      exact ⟨e, by rw [failed, error_bind]⟩

namespace Pattern

variable {p : Pattern} {c : Codec} {s : Statement}

/-- A pattern for another graph than that of the statement does not match. -/
theorem matches?_of_other_context (other : ¬ p.AsksContext s) : p.matches? c s = .ok false := by
  unfold matches?
  refine if_pos ?_
  unfold AsksContext at other
  cases asked : p.context with
  | none => exact absurd (fun context mem => by rw [asked] at mem; cases mem) other
  | some context =>
    refine ⟨rfl, fun same => other fun own mem => ?_⟩
    rw [asked] at mem
    rw [← same, Option.mem_some_iff.mp mem]

/-- If all but the object matches, the object decides. -/
theorem matches?_of_object (context : p.AsksContext s)
    (subject : p.subject.matches? c .subject s.subject = .ok true)
    (predicate : p.predicate.matches? c .predicate s.predicate = .ok true) :
    p.matches? c s = p.object.matches? c .object s.object := by
  have asked : ¬ (p.context.isSome = true ∧ p.context ≠ s.context) := by
    rintro ⟨isSome, other⟩
    obtain ⟨own, e⟩ := Option.isSome_iff_exists.mp isSome
    exact other (e.trans (context own e).symm)
  unfold matches?
  rw [if_neg asked, subject, predicate]
  rfl

end Pattern

section Read

variable {config : Config} {t : Tracked} {layout : Layout} {p : Pattern} {plan : ScanPlan}

/-- A statement that is handed out is a stored one with its object in canonical form, and the plan
asked for its row. -/
theorem asked_of_read (mirrored : t.Mirrored config) (kept : layout ∈ config.layouts)
    (planned : (⟨layout, config.hashedKeys⟩ : Planner).plan Codec.standard p = .ok plan)
    {n : Nat} {s : Statement}
    (found : Cursor.read (scanned config t layout p plan) n = .ok (some s)) :
    ∃ u field, Statement.Encodes Codec.standard u field
      ∧ Store.Asked plan ((Tracked.format config).cellOf layout u field)
      ∧ Codec.standard.decodeObject (field .object) = .ok s.object ∧ s = { u with object := s.object } := by
  obtain ⟨m, row, read, decoded, -⟩ := Statements.read_eq_some rfl found
  have listed : (t.store.rows plan)[m]? = some row :=
    Except.ok.inj ((Snapshot.read_ofList _ m).symm.trans read)
  have mem := List.mem_of_getElem? listed
  rw [rows_scanned planned] at mem
  obtain ⟨cell, stored, rfl⟩ := List.mem_map.mp mem
  obtain ⟨stored, asked⟩ := List.mem_filter.mp stored
  obtain ⟨u, field, recorded, takes, rfl⟩ := (mirrored.cells layout kept cell).mp stored
  have decoded : (Tracked.format config).read layout
      ((Tracked.format config).rowOf layout u field) = .ok s := decoded
  refine ⟨u, field, recorded.1, of_decide_eq_true asked, ?_⟩
  cases object : Codec.standard.decodeObject (field .object) with
  | error e =>
    rw [RowFormat.read_rowOf_error rfl recorded.1 takes object] at decoded
    cases decoded
  | ok w =>
    rw [RowFormat.read_rowOf rfl recorded.1 takes object] at decoded
    rw [← Except.ok.inj decoded]
    exact ⟨rfl, rfl⟩

end Read

namespace Engine

/-- A query over the plain store that opens a layout has a plan for it. -/
theorem exists_plan_of_queryIn {config : Config} {t : Tracked} {layout : Layout} {p : Pattern}
    {cursor : Statements (Snapshot Row)} {last : Store}
    (opened : (ofConfig config Codec.standard).queryIn t.store layout p = (.ok cursor, last)) :
    layout ∈ config.layouts ∧ ∃ plan,
      (⟨layout, config.hashedKeys⟩ : Planner).plan Codec.standard p = .ok plan
        ∧ cursor = scanned config t layout p plan := by
  obtain ⟨planner, plan, registered, planned, scan, shape⟩ := queryIn_eq_ok opened
  have listed : (if layout ∈ config.layouts then some ⟨layout, config.hashedKeys⟩ else none)
      = some planner := (Catalog.planner?_ofConfig config layout).symm.trans registered
  by_cases kept : layout ∈ config.layouts
  · rw [if_pos kept] at listed
    obtain rfl := Option.some.inj listed
    have rows : cursor.rows = Snapshot.ofList (t.store.rows plan) :=
      (Except.ok.inj (congrArg Prod.fst scan)).symm
    rw [rows] at shape
    exact ⟨kept, plan, planned, shape⟩
  · rw [if_neg kept] at listed
    cases listed

/-- A statement that a query without ranges hands out is not checked against the pattern. The check
would succeed, unless the pattern asks for the graph without a name, when it would reject the
statement, or for a moment outside the years 0 to 9999, when it would fail. -/
theorem unchecked_matches (config : Config) (calls : List StoreCall) (p : Pattern)
    (plain : p.countRanges = 0) (layout : Layout) (cursor : Statements (Snapshot Row)) (last : Store)
    (opened : (ofConfig config Codec.standard).queryIn (Tracked.run Codec.standard config calls).store
      layout p = (.ok cursor, last)) (n : Nat) (s : Statement)
    (found : Cursor.read cursor n = .ok (some s)) :
    let named := ∀ context, p.context = some context → context.data ≠ ""
    let years := ∀ v, p.object = .scalar v → v.InFourDigitYears
    (named → years → p.matches? Codec.standard s = .ok true)
      ∧ (¬ named → p.matches? Codec.standard s = .ok false)
      ∧ (named → ¬ years → ∃ e, p.matches? Codec.standard s = .error e) := by
  intro named years
  obtain ⟨kept, plan, planned, rfl⟩ := exists_plan_of_queryIn opened
  obtain ⟨u, field, encodes, asked, decoded, same⟩ :=
    asked_of_read (Tracked.mirrored_run config calls) kept planned found
  have encodable := Planner.encodable_of_plan planned
  have scalar : ∀ t ∈ [p.subject, p.predicate, p.object], ¬ t.isRange = true :=
    List.countP_eq_zero.mp plain
  simp only [List.mem_cons, List.not_mem_nil, or_false, forall_eq_or_imp, forall_eq,
    Bool.not_eq_true] at scalar
  have others (h : named) : p.matches? Codec.standard s
      = p.object.matches? Codec.standard .object s.object
        ∧ p.object.Accepts Codec.standard .object (field .object) := by
    obtain ⟨context, accepts⟩ := (Planner.asked_iff planned h encodes).mp asked
    obtain ⟨_, subject, _, complete⟩ := Term.matches?_eq (encodable .subject) encodes.subject
    obtain ⟨_, predicate, _, complete'⟩ := Term.matches?_eq (encodable .predicate) encodes.predicate
    obtain rfl := complete scalar.1 (accepts .subject (by decide))
    obtain rfl := complete' scalar.2.1 (accepts .predicate (by decide))
    refine ⟨?_, accepts .object (by decide)⟩
    rw [same]
    exact Pattern.matches?_of_object context subject predicate
  refine ⟨fun h years => ?_, fun unnamed => ?_, fun h wide => ?_⟩
  · obtain ⟨decides, accepts⟩ := others h
    rw [decides]
    exact (Term.matches?_of_decodeObject scalar.2.2 accepts decoded).1 years
  · refine Pattern.matches?_of_other_context fun context => unnamed fun name own => ?_
    exact s.named name (context name own)
  · obtain ⟨decides, accepts⟩ := others h
    rw [decides]
    exact (Term.matches?_of_decodeObject scalar.2.2 accepts decoded).2 wide

/-- A number that is stored in one spelling and asked for in another. -/
theorem unchecked_matches_number :
    let t := Tracked.run Codec.standard Config.default
      [.insert (.triple (.resource "a") (.resource "p") (.literal "007" Xsd.integer))]
    let p := Pattern.ofPredicateObject (.resource "p") (.literal "+7" Xsd.integer)
    let s := Statement.triple (.resource "a") (.resource "p") (.literal "7" Xsd.integer)
    ∃ cursor last, (ofConfig Config.default Codec.standard).queryIn t.store .pos p = (.ok cursor, last)
      ∧ Cursor.read cursor 0 = .ok (some s) ∧ p.matches? Codec.standard s = .ok true := by
  intro t p s
  let key : Bytes := [0x70, 0x00, 0x38] ++ List.replicate 14 0x30 ++ [0x37, 0x01, 0x05, 0x00]
  have planned : (⟨.pos, Config.default.hashedKeys⟩ : Planner).plan Codec.standard p
      = .ok ⟨.pos, ⟨key, key ++ [0xFF]⟩, none⟩ := by decide +kernel
  have opened := queryIn_eq (t := t) (by decide) planned
  have found : Cursor.read (scanned Config.default t .pos p ⟨.pos, ⟨key, key ++ [0xFF]⟩, none⟩) 0
      = .ok (some s) := by decide +kernel
  exact ⟨_, _, opened, found, (unchecked_matches Config.default _ p rfl .pos _ _ opened 0 s found).1
    nofun (by rintro _ ⟨⟩; decide +kernel)⟩

/-- A pattern whose context is the empty name: the scan hands out a statement of the default graph,
which the check would reject. -/
theorem unchecked_matches_unnamed :
    let s := Statement.triple (.resource "a") (.resource "p") (.plain "x")
    let t := Tracked.run Codec.standard Config.default [.insert s]
    let p := { Pattern.ofPredicate (.resource "p") with context := some (.resource "") }
    p.countRanges = 0 ∧ ∃ cursor last,
      (ofConfig Config.default Codec.standard).queryIn t.store .pos p = (.ok cursor, last)
        ∧ Cursor.read cursor 0 = .ok (some s) ∧ p.matches? Codec.standard s = .ok false := by
  intro s t p
  let plan : ScanPlan := ⟨.pos, ⟨[0x70, 0x00], [0x70, 0x00, 0xFF]⟩, some []⟩
  have planned : (⟨.pos, Config.default.hashedKeys⟩ : Planner).plan Codec.standard p = .ok plan := by
    decide +kernel
  refine ⟨rfl, _, _, queryIn_eq (t := t) (by decide) planned, ?_, by decide +kernel⟩
  decide +kernel

end Engine

end TripleIndex
