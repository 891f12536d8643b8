/-
  Scans for one predicate, and joins of them on the object. The predicate is the first position of
  one layout and the object the next, so such a scan hands out the statements of the predicate in
  the order of their objects. That order is what a join of scans relies on.

  * `RowFormat.object_le_of_precedes`: rows of one predicate are in the order of their objects.
  * `Engine.exists_yields_predicate`: what one scan hands out.
  * `Engine.joinObjects_exact`: what a join of scans hands out.
-/
import Mathlib
import TripleIndex.Proofs.Query.Join

namespace TripleIndex

open Cursor (Yields)

/-- The number of stored statements with a predicate and an object of a given encoding, over all
subjects, graphs and visibilities. -/
def Ledger.occurrences (ledger : Ledger) (predicate : Value) (object : Bytes) : Nat :=
  (ledger.keys.filter fun key => key.predicate = predicate ∧ key.object = object).card

/-- Statements of one predicate come in the order of the encodings of their objects. -/
theorem RowFormat.object_le_of_precedes {format : RowFormat} {s u : Statement}
    {field field' : Position → Bytes} (hs : s.Encodes format.codec field)
    (hu : u.Encodes format.codec field') (predicate : field .predicate = field' .predicate)
    (precedes : format.Precedes .pos s u) : field .object ≤ field' .object := by
  have le := key_le_of_precedes hs hu precedes
  rw [← List.not_lt, key_pos_lt_iff hu hs predicate.symm] at le
  exact List.not_lt.mp fun lt => le (.inl lt)

namespace Engine

variable {config : Config} {t : Tracked} {predicate : Value} {predicates : List Value}

/-- Whether a value can be a predicate. -/
def IsPredicate (predicate : Value) : Prop :=
  ∃ field, Codec.standard.encodeField .predicate predicate = .ok field

theorem answers_ofPredicate (hashed : Bool) (encodable : IsPredicate predicate) :
    (⟨.pos, hashed⟩ : Planner).answers (Pattern.ofPredicate predicate) = true := by
  obtain ⟨_, encoded⟩ := encodable
  obtain ⟨resource, _⟩ := Codec.encodeField_standard (by decide) encoded
  rw [resource]
  cases hashed <;> rfl

theorem encodable_ofPredicate (encodable : IsPredicate predicate) (position : Position) :
    ((Pattern.ofPredicate predicate).term position).Encodable Codec.standard position := by
  cases position with
  | predicate => exact encodable
  | _ => trivial

/-- A statement matches if it has the predicate. -/
theorem matches?_ofPredicate {s : Statement} {field : Position → Bytes}
    (encodes : s.Encodes Codec.standard field) (encodable : IsPredicate predicate) :
    (Pattern.ofPredicate predicate).matches? Codec.standard s = .ok true ↔
      s.predicate = predicate := by
  obtain ⟨b, found, sound, complete⟩ :=
    Pattern.matches?_of_encodes encodes (encodable_ofPredicate encodable)
  rw [found, Except.ok.injEq]
  constructor
  · intro isMatch
    have accepted := (sound isMatch).2 .predicate (by decide)
    exact Codec.eq_of_encodeField (by decide) encodes.predicate accepted
  · rintro rfl
    refine complete rfl nofun fun position outside => ?_
    cases position with
    | predicate => exact encodes.predicate
    | context => exact absurd rfl outside
    | _ => trivial

/-! ## Scans -/

/-- What a scan hands out for a predicate: its stored statements in the order of their rows, which
is the order of the encodings of their objects. -/
structure Scans (config : Config) (t : Tracked) (predicate : Value) (items : List Statement) :
    Prop where
  stored : (items : Multiset Statement)
    = (t.ledger.statements Codec.standard).filter (·.predicate = predicate)
  ordered : items.Pairwise ((ofConfig config Codec.standard).format.Precedes .pos)
  encodable : ∀ s ∈ items, ∃ key, Codec.standard.encodeObject s.object = .ok key
  ascending : items.Pairwise fun s u => ∀ a b, Codec.standard.encodeObject s.object = .ok a →
    Codec.standard.encodeObject u.object = .ok b → a ≤ b

/-- The scan of a predicate hands out its statements. -/
theorem exists_yields_predicate (mirrored : t.Mirrored config) (readable : t.ledger.Readable)
    (encodable : IsPredicate predicate) :
    ∃ cursor items,
      (ofConfig config Codec.standard).queryIn t.store .pos (Pattern.ofPredicate predicate)
        = (.ok cursor, t.store)
      ∧ Yields cursor items ∧ Scans config t predicate items := by
  have kept : .pos ∈ config.layouts := List.mem_append_left _ (by decide)
  obtain ⟨plan, planned⟩ := Planner.exists_plan (answers_ofPredicate config.hashedKeys encodable)
    (encodable_ofPredicate encodable)
  obtain ⟨items, yields, same, ordered⟩ := yields_scanned mirrored readable kept planned nofun
  have found {s : Statement} (mem : s ∈ items) :
      ∃ field, s.Encodes Codec.standard field ∧ s.predicate = predicate := by
    have mem : s ∈ (items : Multiset Statement) := mem
    rw [same, Multiset.mem_filter] at mem
    obtain ⟨field, holds⟩ := mirrored.exists_holds readable mem.1
    exact ⟨field, holds.1.1, (matches?_ofPredicate holds.1.1 encodable).mp mem.2⟩
  refine ⟨_, items, queryIn_eq kept planned, yields, ?_, ordered, fun s mem => ?_, ?_⟩
  · rw [same]
    refine Multiset.filter_congr fun s mem => ?_
    obtain ⟨field, holds⟩ := mirrored.exists_holds readable mem
    exact matches?_ofPredicate holds.1.1 encodable
  · obtain ⟨field, encodes, _⟩ := found mem
    exact ⟨_, encodes.object⟩
  · refine ordered.imp_of_mem fun {s u} hs hu precedes a b ha hb => ?_
    obtain ⟨field, encodes, own⟩ := found hs
    obtain ⟨field', encodes', own'⟩ := found hu
    have samePredicate : field .predicate = field' .predicate := by
      have encoded := encodes.predicate
      rw [own, ← own'] at encoded
      exact Except.ok.inj (encoded.symm.trans encodes'.predicate)
    have le := RowFormat.object_le_of_precedes encodes encodes' samePredicate precedes
    rwa [Except.ok.inj (ha.symm.trans encodes.object),
      Except.ok.inj (hb.symm.trans encodes'.object)]

/-- A scan has as many statements with an object as are stored. -/
theorem Scans.countP_eq (mirrored : t.Mirrored config) (readable : t.ledger.Readable)
    {items : List Statement} (scans : Scans config t predicate items) (key : Bytes) :
    items.countP (Codec.standard.encodeObject ·.object = .ok key)
      = t.ledger.occurrences predicate key := by
  have counted := congrArg
    (Multiset.countP fun s : Statement => Codec.standard.encodeObject s.object = .ok key)
    scans.stored
  rw [Multiset.coe_countP, Multiset.countP_filter] at counted
  rw [counted]
  apply mirrored.countP_statements readable
  intro s field holds
  rw [holds.1.1.object, Except.ok.injEq]
  exact and_comm

/-- The scans of a join are opened one after the other. -/
theorem exists_openPredicates (mirrored : t.Mirrored config) (readable : t.ledger.Readable)
    (encodable : ∀ predicate ∈ predicates, IsPredicate predicate)
    (opened : List (Statements (Snapshot Row))) :
    ∃ cursors inputs, (ofConfig config Codec.standard).openPredicates opened predicates t.store
        = (⟨.ok (opened ++ cursors), []⟩, t.store)
      ∧ List.Forall₂ Yields cursors inputs
      ∧ List.Forall₂ (Scans config t) predicates inputs := by
  induction predicates generalizing opened with
  | nil => exact ⟨[], [], by rw [openPredicates, List.append_nil], .nil, .nil⟩
  | cons predicate predicates ih =>
    obtain ⟨own, others⟩ := List.forall_mem_cons.mp encodable
    obtain ⟨cursor, items, query, yields, scans⟩ := exists_yields_predicate mirrored readable own
    obtain ⟨cursors, inputs, found, later, all⟩ := ih others (opened ++ [cursor])
    refine ⟨cursor :: cursors, items :: inputs, ?_, .cons yields later, .cons scans all⟩
    rw [openPredicates, query]
    simp only [found, List.append_assoc, List.singleton_append]

/-! ## Joins -/

/-- A join of two or more values opens a scan for each. -/
theorem joinObjects_scalars {ω σ : Type} [Scanner ω σ] [Cursor σ Row Error] (engine : Engine)
    (store : ω) (several : 2 ≤ predicates.length) :
    engine.joinObjects store (predicates.map .scalar)
      = match engine.openPredicates [] predicates store with
        | (⟨.error e, released⟩, store) => (⟨.error e, released⟩, store)
        | (⟨.ok inputs, _⟩, store) => (ObjectJoin.ofInputs engine.codec inputs, store) := by
  have required : (predicates.map Term.scalar).mapM (fun term => term.required "predicate")
      = .ok predicates := Outcome.mapM_map_ok fun _ _ => rfl
  have count : ¬ (predicates.map Term.scalar).length < 2 := by
    rw [List.length_map]
    exact Nat.not_lt.mpr several
  match opened : engine.openPredicates [] predicates store with
  | (⟨.error _, _⟩, _) | (⟨.ok _, _⟩, _) =>
    rw [joinObjects, if_neg count, required]
    simp only [opened]

/-- A join reads the scans that were opened for its predicates. -/
theorem joinObjects_of_openPredicates {ω σ : Type} [Scanner ω σ] [Cursor σ Row Error]
    {engine : Engine} {store store' : ω} {cursors : List (Statements σ)}
    (several : 2 ≤ predicates.length)
    (opened : engine.openPredicates [] predicates store = (⟨.ok cursors, []⟩, store')) :
    engine.joinObjects store (predicates.map .scalar)
      = (ObjectJoin.ofInputs engine.codec cursors, store') := by
  rw [joinObjects_scalars engine store several, opened]

/-- The statements of the scans are counted like those of the ledger. -/
theorem counts_of_scans (mirrored : t.Mirrored config) (readable : t.ledger.Readable)
    {inputs : List (List Statement)} (scans : List.Forall₂ (Scans config t) predicates inputs)
    (key : Bytes) :
    (inputs.map fun items => items.countP (Codec.standard.encodeObject ·.object = .ok key))
      = predicates.map fun predicate => t.ledger.occurrences predicate key := by
  induction scans with
  | nil => rfl
  | cons first _ ih =>
    rw [List.map_cons, List.map_cons, ih, first.countP_eq mirrored readable]

theorem forall_mem_of_scans {inputs : List (List Statement)} {P : List Statement → Prop}
    (scans : List.Forall₂ (Scans config t) predicates inputs)
    (each : ∀ {predicate items}, Scans config t predicate items → P items) :
    ∀ items ∈ inputs, P items := by
  intro items mem
  obtain ⟨predicate, -, own⟩ := exists_mem_of_forall₂ scans mem
  exact each own

/-- Whatever was inserted and removed, the join of two or more predicates opens one scan for each.
A scan hands out the stored statements of its predicate in the order of their rows, which is that
of the encodings of their objects. The join hands out objects in ascending order of encoding; those
with one encoding are the first ones of the first scan, as many as the predicate with the fewest
such statements has. -/
theorem joinObjects_exact (config : Config) (calls : List StoreCall)
    (years : Tracked.InFourDigitYears calls) (predicates : List Value)
    (several : 2 ≤ predicates.length)
    (encodable : ∀ predicate ∈ predicates, ∃ field,
      Codec.standard.encodeField .predicate predicate = .ok field) :
    let t := Tracked.run Codec.standard config calls
    let engine := ofConfig config Codec.standard
    let key := fun s : Statement => Codec.standard.encodeObject s.object
    ∃ cursors inputs join out,
      engine.openPredicates [] predicates t.store = (⟨.ok cursors, []⟩, t.store)
      ∧ List.Forall₂ Yields cursors inputs
      ∧ List.Forall₂ (fun predicate (items : List Statement) =>
          (items : Multiset Statement)
              = (t.ledger.statements Codec.standard).filter (·.predicate = predicate)
            ∧ items.Pairwise (engine.format.Precedes .pos)
            ∧ (∀ s ∈ items, ∃ k, key s = .ok k)
            ∧ items.Pairwise fun s u => ∀ a b, key s = .ok a → key u = .ok b → a ≤ b)
          predicates inputs
      ∧ engine.joinObjects t.store (predicates.map .scalar)
        = (ObjectJoin.ofInputs Codec.standard cursors, t.store)
      ∧ ObjectJoin.ofInputs Codec.standard cursors = ⟨.ok join, []⟩
      ∧ Yields join out
      ∧ (∀ s ∈ out, ∃ k, key s = .ok k)
      ∧ (out.Pairwise fun s u => ∀ a b, key s = .ok a → key u = .ok b → a ≤ b)
      ∧ ∀ k, out.filter (key · = .ok k) <+: (inputs.headD []).filter (key · = .ok k)
        ∧ (predicates.map fun predicate => t.ledger.occurrences predicate k).min?
          = some (out.filter (key · = .ok k)).length := by
  intro t engine key
  have mirrored : t.Mirrored config := Tracked.mirrored_run config calls
  have readable : t.ledger.Readable := Tracked.readable_run config years
  obtain ⟨cursors, inputs, opened, yields, scans⟩ :=
    exists_openPredicates mirrored readable encodable []
  have ascending : ∀ items ∈ inputs, Merge.Ascending .object Codec.standard items :=
    forall_mem_of_scans scans fun each => each.ascending
  have keyed : ∀ items ∈ inputs, ∀ s ∈ items, ∃ k, key s = .ok k :=
    forall_mem_of_scans scans fun each => each.encodable
  have filled : inputs ≠ [] := by
    rintro rfl
    rw [scans.length_eq] at several
    cases several
  have count : ¬ cursors.length < 2 := by
    rw [yields.length_eq, ← scans.length_eq]
    exact Nat.not_lt.mpr several
  obtain ⟨out, merged, sublist, matched⟩ :=
    Merge.exists_yields_ofInputs .object Codec.standard yields filled keyed ascending
  obtain ⟨first, others, rfl⟩ := List.exists_cons_of_ne_nil filled
  refine ⟨cursors, first :: others, ⟨Merge.ofInputs .object Codec.standard cursors⟩, out, opened,
    yields, scans.imp fun predicate items each => ⟨each.stored, each.ordered, each.encodable,
      each.ascending⟩, ?_, ?_, ObjectJoin.yields_of_merge merged,
    fun s mem => keyed first List.mem_cons_self s (sublist.subset mem),
    (ascending first List.mem_cons_self).sublist sublist, fun k => ⟨(matched k).2, ?_⟩⟩
  · exact joinObjects_of_openPredicates several opened
  · rw [ObjectJoin.ofInputs, if_neg count]
  · rw [← counts_of_scans mirrored readable scans, ← List.countP_eq_length_filter]
    exact (matched k).1

/-- Of an object that one predicate has twice and the other once, the first statement. -/
theorem joinObjects_exact_uneven :
    let calls := [StoreCall.insert (.triple (.resource "a") (.resource "p") (.plain "1")),
      .insert (.triple (.resource "b") (.resource "p") (.plain "1")),
      .insert (.triple (.resource "c") (.resource "q") (.plain "1")),
      .insert (.triple (.resource "c") (.resource "q") (.plain "2"))]
    let t := Tracked.run Codec.standard Config.default calls
    ∃ join out, (ofConfig Config.default Codec.standard).joinObjects t.store
        [.scalar (.resource "p"), .scalar (.resource "q")] = (⟨.ok join, []⟩, t.store)
      ∧ Yields join out
      ∧ (out.filter (Codec.standard.encodeObject ·.object = .ok [0x31, 0x01, 0x03])).length = 1
      ∧ (out.filter (Codec.standard.encodeObject ·.object = .ok [0x32, 0x01, 0x03])).length = 0 := by
  intro calls t
  have years : Tracked.InFourDigitYears calls := by
    intro s mem
    simp only [calls, List.mem_cons, StoreCall.insert.injEq, List.not_mem_nil, or_false] at mem
    rcases mem with rfl | rfl | rfl | rfl <;> decide +kernel
  let predicates := [Value.resource "p", Value.resource "q"]
  have encodable : ∀ predicate ∈ predicates, ∃ field,
      Codec.standard.encodeField .predicate predicate = .ok field := by
    intro predicate mem
    simp only [predicates, List.mem_cons, List.not_mem_nil, or_false] at mem
    rcases mem with rfl | rfl
    · exact ⟨[0x70], by decide +kernel⟩
    · exact ⟨[0x71], by decide +kernel⟩
  obtain ⟨cursors, _, join, out, _, _, _, opened, joined, yields, _, _, counts⟩ :=
    joinObjects_exact Config.default calls years predicates (Nat.le_refl 2) encodable
  refine ⟨join, out, by rw [← joined]; exact opened, yields, ?_, ?_⟩
  · refine Option.some.inj ((counts [0x31, 0x01, 0x03]).2.symm.trans ?_)
    decide +kernel
  · refine Option.some.inj ((counts [0x32, 0x01, 0x03]).2.symm.trans ?_)
    decide +kernel

end Engine

end TripleIndex
