/-
  Scans for one pair of predicate and object, possibly from a first subject on. The predicate, the
  object and the range of subjects are the first positions of one layout, so such a scan has a plan
  and hands out the statements in the order of their subjects.

  * `Ledger.count`: how many stored statements a subject has with the pair.
  * `Engine.exists_yields_pair`: the scan hands out that many statements of each subject from the
    first on, and none of the others.
-/
import Mathlib
import TripleIndex.Proofs.Query.Engine
import TripleIndex.Proofs.Query.Merge
import TripleIndex.Proofs.Range
import TripleIndex.Proofs.RowOrder
import TripleIndex.Query.Join

namespace TripleIndex

open Cursor (Yields)

/-! ## Patterns of pairs -/

namespace Engine

open Outcome (ok_bind)

variable {pair : Value × Value} {earliest : Option Value}

/-- Whether the terms of a pair encode. -/
def Encodable (pair : Value × Value) : Prop :=
  (∃ field, Codec.standard.encodeField .predicate pair.1 = .ok field)
    ∧ ∃ field, Codec.standard.encodeObject pair.2 = .ok field

/-- The first subject is one, and not behind the last. -/
def Bounded (earliest : Option Value) : Prop :=
  ∀ v ∈ earliest, v.IsSubject ∧ v.bytes ≤ Value.topResource.bytes

/-- Whether no subject that counts comes before a value. -/
def Reached (earliest : Option Value) (v : Value) : Prop :=
  ∀ first ∈ earliest, first.bytes ≤ v.bytes

theorem predicate_pairPattern : (pairPattern pair earliest).term .predicate = .scalar pair.1 := by
  cases earliest <;> rfl

theorem object_pairPattern : (pairPattern pair earliest).term .object = .scalar pair.2 := by
  cases earliest <;> rfl

theorem context_pairPattern : (pairPattern pair earliest).context = none := by
  cases earliest <;> rfl

theorem answers_pairPattern (hashed : Bool) (encodable : Encodable pair) (bounded : Bounded earliest) :
    (⟨.pos, hashed⟩ : Planner).answers (pairPattern pair earliest) = true := by
  obtain ⟨predicate, object⟩ := pair
  obtain ⟨⟨_, encoded⟩, _⟩ := encodable
  obtain ⟨resource, _⟩ := Codec.encodeField_standard (by decide) encoded
  change predicate = _ at resource
  rw [resource]
  cases earliest with
  | none => cases hashed <;> rfl
  | some first =>
    obtain ⟨subject, _⟩ := Codec.encodeField_standard (by decide) (bounded first rfl).1
    rw [subject]
    cases hashed <;> rfl

theorem encodable_pairPattern (encodable : Encodable pair) (bounded : Bounded earliest)
    (position : Position) :
    ((pairPattern pair earliest).term position).Encodable Codec.standard position := by
  cases earliest with
  | none =>
    cases position with
    | predicate => exact encodable.1
    | object => exact encodable.2
    | _ => trivial
  | some first =>
    cases position with
    | subject => exact ⟨_, ValueRange.encode_onward (bounded first rfl).1 .subject⟩
    | predicate => exact encodable.1
    | object => exact encodable.2
    | context => trivial

/-- A statement matches if it has the pair and its subject is not before the first. -/
theorem matches?_pairPattern {s : Statement} {field : Position → Bytes}
    (encodes : s.Encodes Codec.standard field) (top : s.subject.bytes ≤ Value.topResource.bytes)
    (encodable : Encodable pair) (bounded : Bounded earliest) :
    (pairPattern pair earliest).matches? Codec.standard s = .ok true ↔
      Reached earliest s.subject ∧ s.predicate = pair.1
        ∧ Codec.standard.encodeObject pair.2 = .ok (field .object) := by
  have isSubject : s.subject.IsSubject := (Value.isSubject_of_encodeField encodes.subject).1
  have atPredicate := encodable_pairPattern encodable bounded .predicate
  have atObject := encodable_pairPattern encodable bounded .object
  obtain ⟨p, onPredicate, sound, complete⟩ := Term.matches?_eq atPredicate encodes.predicate
  obtain ⟨o, onObject, sound', complete'⟩ := Term.matches?_eq atObject encodes.object
  obtain ⟨b, found, reached⟩ : ∃ b, (pairPattern pair earliest).subject.matches? Codec.standard
      .subject s.subject = .ok b ∧ (b = true ↔ Reached earliest s.subject) := by
    cases earliest with
    | none => exact ⟨true, rfl, by simp [Reached]⟩
    | some first =>
      obtain ⟨isFirst, le⟩ := bounded first rfl
      exact ⟨_, ValueRange.contains_onward_of_le isFirst le isSubject top .subject, by simp [Reached]⟩
  obtain ⟨all, matched, decides⟩ := Pattern.matches?_eq_ok found onPredicate onObject
  have asks : (pairPattern pair earliest).AsksContext s := by
    unfold Pattern.AsksContext
    rw [context_pairPattern]
    intro context mem
    cases mem
  rw [predicate_pairPattern] at sound complete
  rw [object_pairPattern] at sound' complete'
  have predicate : p = true ↔ s.predicate = pair.1 := by
    constructor
    · intro h
      exact Codec.eq_of_encodeField (by decide) encodes.predicate (sound h)
    · intro same
      exact complete rfl (same ▸ encodes.predicate)
  have object : o = true ↔ Codec.standard.encodeObject pair.2 = .ok (field .object) :=
    ⟨sound', complete' rfl⟩
  rw [matched, Except.ok.injEq, decides, reached, predicate, object]
  exact and_iff_right asks

end Engine

/-! ## Counts -/

namespace Ledger

/-- The number of stored statements that a subject has with a pair of predicate and object, over
all graphs and visibilities. -/
def count (c : Codec) (ledger : Ledger) (pair : Value × Value) (subject : Value) : Nat :=
  (ledger.keys.filter fun key => key.subject = subject ∧ key.predicate = pair.1
    ∧ c.encodeObject pair.2 = .ok key.object).card

end Ledger

/-- Statements are counted by their keys. -/
theorem Tracked.Mirrored.countP_statements {config : Config} {t : Tracked}
    (h : t.Mirrored config) (readable : t.ledger.Readable) {P : Statement → Prop}
    [DecidablePred P] {Q : StatementKey → Prop} [DecidablePred Q]
    (same : ∀ s field, t.ledger.Holds s field → (P s ↔ Q (s.keyOf (field .object)))) :
    (t.ledger.statements Codec.standard).countP P = (t.ledger.keys.filter Q).card := by
  have each : ∀ entry ∈ t.ledger.entries, ∃ object,
      Codec.standard.decodeObject entry.1.object = .ok object
        ∧ (P (entry.1.statement object entry.2) ↔ Q entry.1) := by
    rintro ⟨key, timestamp⟩ mem
    have bound : timestamp ∈ t.ledger.lookup key := Finmap.mem_lookup_iff.mpr mem
    obtain ⟨object, decoded, encoded⟩ := readable key (Finmap.mem_of_lookup_eq_some bound)
    obtain ⟨field, holds⟩ := h.exists_holds readable
      (Ledger.mem_statements.mpr ⟨key, timestamp, object, bound, decoded, rfl⟩)
    have own : field .object = key.object :=
      Except.ok.inj (holds.1.1.object.symm.trans encoded)
    have back : (key.statement object timestamp).keyOf (field .object) = key := by
      rw [own]
      rfl
    exact ⟨object, decoded, back ▸ same _ field holds⟩
  have keys : (t.ledger.keys.filter Q).card = t.ledger.entries.countP fun entry => Q entry.1 := by
    rw [Multiset.countP_eq_card_filter, ← Multiset.countP_map, Multiset.countP_eq_card_filter]
    rfl
  rw [keys]
  unfold Ledger.statements
  obtain ⟨entries, he⟩ := Quot.exists_rep t.ledger.entries
  rw [← he] at each ⊢
  change List.countP _ (List.filterMap _ entries) = List.countP _ entries
  rw [List.countP_filterMap]
  apply List.countP_congr
  intro entry mem
  obtain ⟨object, decoded, iff⟩ := each entry mem
  simp [decoded, Except.toOption, iff]

/-! ## Scans of pairs -/

/-- Statements of one predicate and one object come in the order of their subjects. -/
theorem RowFormat.le_of_precedes (format : RowFormat) {s u : Statement}
    {field field' : Position → Bytes} (hs : s.Encodes format.codec field)
    (hu : u.Encodes format.codec field') (predicate : field .predicate = field' .predicate)
    (object : field .object = field' .object) (precedes : format.Precedes .pos s u) :
    field .subject ≤ field' .subject := by
  have le := key_le_of_precedes hs hu precedes
  rw [← List.not_lt, key_pos_lt_iff hu hs predicate.symm] at le
  exact List.not_lt.mp fun lt => le (.inr ⟨object.symm, lt⟩)

namespace Engine

variable {config : Config} {t : Tracked} {pair : Value × Value} {earliest : Option Value}

/-- Statements with a pair that are in the order of their rows are sorted by subject. -/
theorem ascending_of_precedes (pair : Value × Value) {items : List Statement}
    (found : ∀ s ∈ items, ∃ field, s.Encodes Codec.standard field ∧ s.predicate = pair.1
      ∧ Codec.standard.encodeObject pair.2 = .ok (field .object))
    (ordered : items.Pairwise ((Tracked.format config).Precedes .pos)) :
    Merge.Ascending .subject Codec.standard items := by
  apply ordered.imp_of_mem
  intro s u hs hu precedes a b ha hb
  obtain ⟨field, encodes, predicate, object⟩ := found s hs
  obtain ⟨field', encodes', predicate', object'⟩ := found u hu
  have samePredicate : field .predicate = field' .predicate := by
    have encoded := encodes.predicate
    rw [predicate, ← predicate'] at encoded
    exact Except.ok.inj (encoded.symm.trans encodes'.predicate)
  have le := RowFormat.le_of_precedes (Tracked.format config) encodes encodes' samePredicate
    (Except.ok.inj (object.symm.trans object')) precedes
  rwa [Except.ok.inj (ha.symm.trans encodes.subject),
    Except.ok.inj (hb.symm.trans encodes'.subject)]

/-- The scan of a pair hands out the stored statements with the pair in the order of their
subjects, from the first subject on. -/
theorem exists_yields_pair (mirrored : t.Mirrored config) (readable : t.ledger.Readable)
    (top : ∀ key ∈ t.ledger, key.subject.bytes ≤ Value.topResource.bytes)
    (encodable : Encodable pair) (bounded : Bounded earliest) :
    ∃ cursor items, (ofConfig config Codec.standard).queryIn t.store .pos (pairPattern pair earliest)
        = (.ok cursor, t.store) ∧ Yields cursor items
      ∧ (∀ s ∈ items, s.subject.IsSubject ∧ s.subject.bytes ≤ Value.topResource.bytes)
      ∧ Merge.Ascending .subject Codec.standard items
      ∧ ∀ v, (Reached earliest v →
          items.countP (·.subject = v) = t.ledger.count Codec.standard pair v)
        ∧ (¬ Reached earliest v → items.countP (·.subject = v) = 0) := by
  have kept : .pos ∈ config.layouts := List.mem_append_left _ (by decide)
  obtain ⟨plan, planned⟩ := Planner.exists_plan
    (answers_pairPattern config.hashedKeys encodable bounded)
    (encodable_pairPattern encodable bounded)
  have named : ∀ context ∈ (pairPattern pair earliest).context, context.data ≠ "" := by
    rw [context_pairPattern]
    intro context mem
    cases mem
  obtain ⟨items, yields, same, ordered⟩ := yields_scanned mirrored readable kept planned named
  have below {s : Statement} {field : Position → Bytes} (holds : t.ledger.Holds s field) :
      s.subject.bytes ≤ Value.topResource.bytes :=
    top (s.keyOf (field .object)) (Finmap.mem_of_lookup_eq_some holds.1.2)
  have found {s : Statement} (mem : s ∈ items) :
      ∃ field, s.Encodes Codec.standard field ∧ s.subject.bytes ≤ Value.topResource.bytes
        ∧ Reached earliest s.subject ∧ s.predicate = pair.1
        ∧ Codec.standard.encodeObject pair.2 = .ok (field .object) := by
    have mem : s ∈ (items : Multiset Statement) := mem
    rw [same, Multiset.mem_filter] at mem
    obtain ⟨field, holds⟩ := mirrored.exists_holds readable mem.1
    exact ⟨field, holds.1.1, below holds,
      (matches?_pairPattern holds.1.1 (below holds) encodable bounded).mp mem.2⟩
  refine ⟨_, items, queryIn_eq kept planned, yields, fun s mem => ?_, ?_, fun v => ⟨fun reached => ?_,
    fun before => ?_⟩⟩
  · obtain ⟨field, encodes, le, _⟩ := found mem
    exact ⟨(Value.isSubject_of_encodeField encodes.subject).1, le⟩
  · refine ascending_of_precedes pair (fun s mem => ?_) ordered
    obtain ⟨field, encodes, _, _, predicate, object⟩ := found mem
    exact ⟨field, encodes, predicate, object⟩
  · have counted := congrArg (Multiset.countP fun s : Statement => s.subject = v) same
    rw [Multiset.coe_countP, Multiset.countP_filter] at counted
    rw [counted]
    apply mirrored.countP_statements readable
    intro s field holds
    rw [matches?_pairPattern holds.1.1 (below holds) encodable bounded]
    constructor
    · rintro ⟨rfl, _, predicate, object⟩
      exact ⟨rfl, predicate, object⟩
    · rintro ⟨rfl, predicate, object⟩
      exact ⟨rfl, reached, predicate, object⟩
  · refine List.countP_eq_zero.mpr fun s mem e => before ?_
    obtain ⟨_, _, _, reached, _⟩ := found mem
    exact of_decide_eq_true e ▸ reached

end Engine

end TripleIndex
