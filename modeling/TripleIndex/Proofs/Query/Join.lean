/-
  Joins. What joins hand out, told by how often each key occurs in each of the inputs.

  * `ObjectJoin.ofInputs_exact`: a join of sorted inputs pairs equal objects by position.
  * `Engine.exists_openPairs`: no subject is lost by opening each scan at the first subject of the
    scan before.
  * `Engine.joinSubjects_exact`: a join of pairs hands out the subjects that have every pair.
-/
import Mathlib
import TripleIndex.Proofs.Query.Pair

namespace TripleIndex

open Cursor (Yields)

/-! ## Joins on objects -/

namespace ObjectJoin

variable {σ : Type} [Cursor σ Statement QueryError]

/-- A join hands out what its merge hands out. -/
theorem yields_of_merge {merge : Merge σ} {items : List Statement} (h : Yields merge items) :
    Yields (⟨merge⟩ : ObjectJoin σ) items :=
  Yields.wrap (g := ObjectJoin.mk) (fun _ => rfl) h

/-- The join of two or more inputs that are sorted by the encodings of their objects. It hands out
keys in ascending order, each as often as the input that has it least often, and the statements of
one key are the first ones of the first input. -/
theorem ofInputs_exact (c : Codec) (cursors : List σ) (inputs : List (List Statement))
    (several : 2 ≤ cursors.length) (yields : List.Forall₂ Yields cursors inputs)
    (encodable : ∀ items ∈ inputs, ∀ s ∈ items, ∃ key, c.encodeObject s.object = .ok key)
    (ascending : ∀ items ∈ inputs, items.Pairwise fun s t => ∀ a b,
      c.encodeObject s.object = .ok a → c.encodeObject t.object = .ok b → a ≤ b) :
    ∃ join out, ofInputs c cursors = ⟨.ok join, []⟩ ∧ Yields join out
      ∧ (∀ s ∈ out, ∃ key, c.encodeObject s.object = .ok key)
      ∧ (out.Pairwise fun s t => ∀ a b,
        c.encodeObject s.object = .ok a → c.encodeObject t.object = .ok b → a ≤ b)
      ∧ ∀ key, (inputs.map fun items => items.countP (c.encodeObject ·.object = .ok key)).min?
          = some (out.countP (c.encodeObject ·.object = .ok key))
        ∧ out.filter (c.encodeObject ·.object = .ok key)
          <+: (inputs.headD []).filter (c.encodeObject ·.object = .ok key) := by
  have filled : inputs ≠ [] := by
    rintro rfl
    rw [yields.length_eq] at several
    cases several
  obtain ⟨out, merged, sublist, matched⟩ :=
    Merge.exists_yields_ofInputs .object c yields filled encodable ascending
  obtain ⟨first, others, rfl⟩ := List.exists_cons_of_ne_nil filled
  refine ⟨⟨Merge.ofInputs .object c cursors⟩, out, ?_, yields_of_merge merged,
    fun s mem => encodable first List.mem_cons_self s (sublist.subset mem),
    (ascending first List.mem_cons_self).sublist sublist, matched⟩
  rw [ofInputs, if_neg (Nat.not_lt.mpr several)]

/-- Three statements of one object against two: the first two are handed out. -/
theorem ofInputs_exact_duplicates :
    let named (id text : String) := Statement.triple (.resource id) (.resource "p") (.plain text)
    let inputs := [[named "a" "1", named "b" "2", named "c" "2", named "d" "2"],
      [named "e" "2", named "f" "2", named "g" "3"]]
    let cursors := inputs.map fun items => Scripted.ofItems (items.map some) none false
    ∃ join out, ofInputs Codec.standard cursors = ⟨.ok join, []⟩ ∧ Yields join out
      ∧ out.filter (Codec.standard.encodeObject ·.object
        = Codec.standard.encodeObject (.plain "2")) = [named "b" "2", named "c" "2"] := by
  intro named inputs cursors
  have one : Codec.standard.encodeObject (.plain "1") = .ok [0x31, 0x01, 0x03] := by
    decide +kernel
  have two : Codec.standard.encodeObject (.plain "2") = .ok [0x32, 0x01, 0x03] := by
    decide +kernel
  have three : Codec.standard.encodeObject (.plain "3") = .ok [0x33, 0x01, 0x03] := by
    decide +kernel
  have object (id text : String) : (named id text).object = .plain text := rfl
  have encodable : ∀ items ∈ inputs, ∀ s ∈ items, ∃ key,
      Codec.standard.encodeObject s.object = .ok key := by
    simp [inputs, object, one, two, three]
  have ascending : ∀ items ∈ inputs, items.Pairwise fun s t => ∀ a b,
      Codec.standard.encodeObject s.object = .ok a →
        Codec.standard.encodeObject t.object = .ok b → a ≤ b := by
    simp [inputs, object, one, two, three]
    decide
  obtain ⟨join, out, opened, yields, _, _, matched⟩ :=
    ofInputs_exact Codec.standard cursors inputs (by decide)
      (.cons (Scripted.yields _ _ _ _) (.cons (Scripted.yields _ _ _ _) .nil)) encodable ascending
  refine ⟨join, out, opened, yields, ?_⟩
  rw [two]
  obtain ⟨counts, front⟩ := matched [0x32, 0x01, 0x03]
  rw [List.countP_eq_length_filter] at counts
  rw [List.prefix_iff_eq_take.mp front, ← Option.some.inj counts]
  decide +kernel

end ObjectJoin

/-! ## Joins on subjects -/

namespace SubjectJoin

variable {σ : Type} [Cursor σ Statement QueryError]

/-- A join hands out the subjects of what its merge hands out. -/
theorem yields_of_merge {merge : Merge σ} {items : List Statement} (h : Yields merge items) :
    Yields (⟨merge⟩ : SubjectJoin σ) (items.map Statement.subject) := by
  refine Yields.map (g := SubjectJoin.mk) (fun merge => ?_) h
  change (⟨merge⟩ : SubjectJoin σ).next = (merge.next.1.map _, ⟨merge.next.2⟩)
  unfold next
  split
  · next found => rw [found]; rfl
  · next found => rw [found]; rfl

theorem yields_exhausted (key : MergeKey) (c : Codec) :
    Yields (⟨Merge.exhausted key c⟩ : SubjectJoin σ) [] :=
  .done rfl

/-- Statements have the key of a subject exactly if they have that subject. -/
theorem countP_subject {items : List Statement} (subjects : ∀ s ∈ items, s.subject.IsSubject)
    {v : Value} (h : v.IsSubject) :
    items.countP (MergeKey.of .subject Codec.standard · = .ok v.bytes)
      = items.countP (·.subject = v) := by
  apply List.countP_congr
  intro s mem
  have encoded : MergeKey.of .subject Codec.standard s = .ok s.subject.bytes := subjects s mem
  simp only [encoded, Except.ok.injEq, decide_eq_true_eq]
  exact ⟨(subjects s mem).eq_of_bytes_eq h, fun e => e ▸ rfl⟩

/-- A merge of inputs that are sorted by subject hands out each subject as often as the input with
the fewest statements of it has some. -/
theorem exists_yields_ofInputs {cursors : List σ} {inputs : List (List Statement)}
    (yields : List.Forall₂ Yields cursors inputs) (filled : inputs ≠ [])
    (subjects : ∀ items ∈ inputs, ∀ s ∈ items, s.subject.IsSubject)
    (ascending : ∀ items ∈ inputs, Merge.Ascending .subject Codec.standard items) :
    ∃ out, Yields (⟨Merge.ofInputs .subject Codec.standard cursors⟩ : SubjectJoin σ) out
      ∧ (∀ v ∈ out, v.IsSubject) ∧ out.Pairwise (·.bytes ≤ ·.bytes)
      ∧ ∀ v, (inputs.map fun items => items.countP (·.subject = v)).min? = some (out.count v) := by
  obtain ⟨first, others, rfl⟩ := List.exists_cons_of_ne_nil filled
  obtain ⟨out, merged, sublist, matched⟩ :=
    Merge.exists_yields_ofInputs .subject Codec.standard yields filled
      (fun items mem s h => ⟨_, subjects items mem s h⟩) ascending
  have own : ∀ s ∈ out, s.subject.IsSubject :=
    fun s mem => subjects first List.mem_cons_self s (sublist.subset mem)
  refine ⟨_, yields_of_merge merged, List.forall_mem_map.mpr own, ?_, fun v => ?_⟩
  · refine List.pairwise_map.mpr ?_
    have ordered := (ascending first List.mem_cons_self).sublist sublist
    exact ordered.imp_of_mem fun {s u} hs hu le => le _ _ (own s hs) (own u hu)
  · have counted : (out.map Statement.subject).count v = out.countP (·.subject = v) := by
      rw [List.count, List.countP_map]
      exact List.countP_congr fun s _ => by simp
    rw [counted]
    by_cases h : v.IsSubject
    · rw [← countP_subject own h, ← (matched v.bytes).1]
      congr 1
      exact List.map_congr_left fun items mem => (countP_subject (subjects items mem) h).symm
    · have none {items : List Statement} (mem : ∀ s ∈ items, s.subject.IsSubject) :
          items.countP (·.subject = v) = 0 :=
        List.countP_eq_zero.mpr fun s hs e => h (of_decide_eq_true e ▸ mem s hs)
      rw [none own, List.min?_eq_some_iff]
      exact ⟨List.mem_map.mpr ⟨first, List.mem_cons_self, none (subjects first List.mem_cons_self)⟩,
        fun _ _ => Nat.zero_le _⟩

end SubjectJoin

/-! ## Opening the scans of pairs -/

namespace Engine

variable {config : Config} {t : Tracked} {all : List (Value × Value)}

/-- Whether a subject lacks one of the pairs. -/
def Lacks (ledger : Ledger) (all : List (Value × Value)) (v : Value) : Prop :=
  ∃ pair ∈ all, ledger.count Codec.standard pair v = 0

/-- Whether an input has all the statements that a subject has with a pair, or none because the
subject lacks one of the pairs anyway. -/
def Faithful (ledger : Ledger) (all : List (Value × Value)) (pair : Value × Value)
    (items : List Statement) : Prop :=
  ∀ v, items.countP (·.subject = v) = ledger.count Codec.standard pair v
    ∨ items.countP (·.subject = v) = 0 ∧ Lacks ledger all v

/-- A subject that a faithful input does not have lacks one of the pairs. -/
theorem Faithful.lacks {pair : Value × Value} {items : List Statement}
    (h : Faithful t.ledger all pair items) (mem : pair ∈ all) {v : Value}
    (none : items.countP (·.subject = v) = 0) : Lacks t.ledger all v := by
  rcases h v with same | ⟨_, lacks⟩
  · exact ⟨pair, mem, same.symm.trans none⟩
  · exact lacks

/-- In a sorted input no statement has a subject before the first one. -/
theorem countP_of_before {first : Statement} {items : List Statement}
    (subjects : ∀ s ∈ first :: items, s.subject.IsSubject)
    (ascending : Merge.Ascending .subject Codec.standard (first :: items)) {v : Value}
    (before : ¬ Reached (some first.subject) v) :
    (first :: items).countP (·.subject = v) = 0 := by
  refine List.countP_eq_zero.mpr fun s mem e => before ?_
  obtain rfl : s.subject = v := of_decide_eq_true e
  rintro _ ⟨⟩
  rcases List.mem_cons.mp mem with rfl | later
  · exact List.le_refl _
  · exact List.rel_of_pairwise_cons ascending later _ _ (subjects first List.mem_cons_self)
      (subjects s mem)

/-- Opening each scan at the first subject of the scan before loses nothing: every input that is
opened is faithful, and if one is empty then every subject lacks a pair. The induction is on the
pairs that are left; subjects before the first that counts lack a pair whose scan is open. -/
theorem exists_openPairs (mirrored : t.Mirrored config) (readable : t.ledger.Readable)
    (top : ∀ key ∈ t.ledger, key.subject.bytes ≤ Value.topResource.bytes)
    {pairs : List (Value × Value)} (subset : ∀ pair ∈ pairs, pair ∈ all)
    (encodable : ∀ pair ∈ pairs, Encodable pair) {earliest : Option Value}
    (bounded : Bounded earliest) (passed : ∀ v, ¬ Reached earliest v → Lacks t.ledger all v)
    (opened : List (Peekable (Statements (Snapshot Row)) Statement)) :
    (∃ cursors inputs,
        (ofConfig config Codec.standard).openPairs opened earliest pairs t.store
          = (⟨.ok (some (opened ++ cursors)), []⟩, t.store)
        ∧ List.Forall₂ Yields cursors inputs
        ∧ List.Forall₂ (Faithful t.ledger all) pairs inputs
        ∧ (∀ items ∈ inputs, ∀ s ∈ items, s.subject.IsSubject)
        ∧ ∀ items ∈ inputs, Merge.Ascending .subject Codec.standard items)
      ∨ ∃ released,
        (ofConfig config Codec.standard).openPairs opened earliest pairs t.store
          = (⟨.ok none, released⟩, t.store)
        ∧ ∀ v, Lacks t.ledger all v := by
  induction pairs generalizing earliest opened with
  | nil =>
    exact .inl ⟨[], [], by rw [openPairs, List.append_nil], .nil, .nil, nofun, nofun⟩
  | cons pair pairs ih =>
    obtain ⟨member, members⟩ := List.forall_mem_cons.mp subset
    obtain ⟨own, others⟩ := List.forall_mem_cons.mp encodable
    obtain ⟨cursor, items, query, yields, subjects, ascending, counts⟩ :=
      exists_yields_pair mirrored readable top own bounded
    have faithful : Faithful t.ledger all pair items := by
      intro v
      by_cases reached : Reached earliest v
      · exact .inl ((counts v).1 reached)
      · exact .inr ⟨(counts v).2 reached, passed v reached⟩
    cases items with
    | nil =>
      obtain ⟨input, peeked⟩ := Peekable.peek_of_nil yields
      refine .inr ⟨Cursor.closeAll (opened ++ [input]), ?_, fun v => faithful.lacks member rfl⟩
      rw [openPairs, query]
      simp only [peeked]
    | cons first items =>
      obtain ⟨input, peeked, rest⟩ := Peekable.peek_of_cons yields
      have step : (ofConfig config Codec.standard).openPairs opened earliest (pair :: pairs) t.store
          = (ofConfig config Codec.standard).openPairs (opened ++ [input]) (some first.subject)
            pairs t.store := by
        rw [openPairs, query]
        simp only [peeked]
      rw [step]
      have isSubject := fun s mem => (subjects s mem).1
      have bounded' : Bounded (some first.subject) := by
        rintro _ ⟨⟩
        exact subjects first List.mem_cons_self
      have passed' : ∀ v, ¬ Reached (some first.subject) v → Lacks t.ledger all v := fun v before =>
        faithful.lacks member (countP_of_before isSubject ascending before)
      rcases ih members others bounded' passed' (opened ++ [input]) with
        ⟨cursors, inputs, found, later, faithfuls, subjects', ascending'⟩ | ⟨released, found, lacks⟩
      · refine .inl ⟨input :: cursors, (first :: items) :: inputs, ?_, .cons rest later,
          .cons faithful faithfuls, List.forall_mem_cons.mpr ⟨isSubject, subjects'⟩,
          List.forall_mem_cons.mpr ⟨ascending, ascending'⟩⟩
        rw [found, List.append_assoc, List.singleton_append]
      · exact .inr ⟨released, found, lacks⟩

/-! ## Joins of pairs -/

/-- Without a subject lacking a pair, faithful inputs have all its statements. -/
theorem counts_of_faithful {pairs : List (Value × Value)} {inputs : List (List Statement)}
    (h : List.Forall₂ (Faithful t.ledger all) pairs inputs) {v : Value}
    (full : ¬ Lacks t.ledger all v) :
    (inputs.map fun items => items.countP (·.subject = v))
      = pairs.map fun pair => t.ledger.count Codec.standard pair v := by
  induction h with
  | nil => rfl
  | @cons pair items pairs inputs first _ ih =>
    rw [List.map_cons, List.map_cons, ih, (first v).resolve_right fun h => full h.2]

/-- A pair that a subject lacks has an input without the subject. -/
theorem exists_countP_eq_zero {pairs : List (Value × Value)} {inputs : List (List Statement)}
    (h : List.Forall₂ (Faithful t.ledger all) pairs inputs) {pair : Value × Value}
    (mem : pair ∈ pairs) {v : Value} (zero : t.ledger.count Codec.standard pair v = 0) :
    ∃ items ∈ inputs, items.countP (·.subject = v) = 0 := by
  obtain ⟨items, listed, faithful⟩ := exists_mem_of_forall₂ (List.Forall₂.flip h) mem
  refine ⟨items, listed, ?_⟩
  rcases faithful v with same | ⟨none, _⟩
  · exact same.trans zero
  · exact none

theorem min?_of_lacks {v : Value} (h : Lacks t.ledger all v) :
    (all.map fun pair => t.ledger.count Codec.standard pair v).min? = some 0 := by
  obtain ⟨pair, mem, zero⟩ := h
  exact List.min?_eq_some_iff.mpr ⟨List.mem_map.mpr ⟨pair, mem, zero⟩, fun _ _ => Nat.zero_le _⟩

/-- The least counts of faithful inputs are those of the ledger. -/
theorem min?_of_faithful {inputs : List (List Statement)}
    (h : List.Forall₂ (Faithful t.ledger all) all inputs) (v : Value) :
    (inputs.map fun items => items.countP (·.subject = v)).min?
      = (all.map fun pair => t.ledger.count Codec.standard pair v).min? := by
  by_cases lacks : Lacks t.ledger all v
  · rw [min?_of_lacks lacks]
    obtain ⟨pair, mem, zero⟩ := lacks
    obtain ⟨items, mem', none⟩ := exists_countP_eq_zero h mem zero
    exact List.min?_eq_some_iff.mpr
      ⟨List.mem_map.mpr ⟨items, mem', none⟩, fun _ _ => Nat.zero_le _⟩
  · rw [counts_of_faithful h lacks]

/-- A join of two or more pairs of values opens a scan for each. -/
theorem joinSubjects_scalars {ω σ : Type} [Scanner ω σ] [Cursor σ Row Error] (engine : Engine)
    (store : ω) {pairs : List (Value × Value)} (several : 2 ≤ pairs.length) :
    engine.joinSubjects store (pairs.map fun pair => (.scalar pair.1, .scalar pair.2))
      = match engine.openPairs [] none pairs store with
        | (⟨.error e, released⟩, store) => (⟨.error e, released⟩, store)
        | (⟨.ok none, released⟩, store) =>
          (⟨.ok ⟨Merge.exhausted .subject engine.codec⟩, released⟩, store)
        | (⟨.ok (some inputs), _⟩, store) =>
          (⟨.ok ⟨Merge.ofInputs .subject engine.codec inputs⟩, []⟩, store) := by
  have count : ¬ (pairs.map fun pair => (Term.scalar pair.1, Term.scalar pair.2)).length < 2 := by
    rw [List.length_map]
    exact Nat.not_lt.mpr several
  match opened : engine.openPairs [] none pairs store with
  | (⟨.error _, _⟩, _) | (⟨.ok none, _⟩, _) | (⟨.ok (some _), _⟩, _) =>
    rw [joinSubjects, if_neg count, Outcome.mapM_map_ok]
    · simp only [opened]
    · exact fun _ _ => rfl

/-- A join of pairs hands out each subject as often as the pair of which it has the fewest
statements. -/
theorem exists_joinSubjects (mirrored : t.Mirrored config) (readable : t.ledger.Readable)
    (top : ∀ key ∈ t.ledger, key.subject.bytes ≤ Value.topResource.bytes)
    {pairs : List (Value × Value)} (several : 2 ≤ pairs.length)
    (encodable : ∀ pair ∈ pairs, Encodable pair) :
    ∃ join released subjects,
      (ofConfig config Codec.standard).joinSubjects t.store
          (pairs.map fun pair => (.scalar pair.1, .scalar pair.2))
        = (⟨.ok join, released⟩, t.store)
      ∧ Yields join subjects ∧ (∀ v ∈ subjects, v.IsSubject)
      ∧ subjects.Pairwise (·.bytes ≤ ·.bytes)
      ∧ ∀ v, (pairs.map fun pair => t.ledger.count Codec.standard pair v).min?
        = some (subjects.count v) := by
  have bounded : Bounded none := nofun
  have passed : ∀ v, ¬ Reached none v → Lacks t.ledger pairs v := fun v h => absurd nofun h
  rcases exists_openPairs mirrored readable top (fun _ => id) encodable bounded passed [] with
    ⟨cursors, inputs, opened, yields, faithful, subjects, ascending⟩ | ⟨released, opened, lacks⟩
  · have filled : inputs ≠ [] := by
      rintro rfl
      rw [faithful.length_eq] at several
      cases several
    obtain ⟨out, merged, isSubject, ordered, counts⟩ :=
      SubjectJoin.exists_yields_ofInputs yields filled subjects ascending
    refine ⟨_, [], out, ?_, merged, isSubject, ordered, fun v => ?_⟩
    · rw [joinSubjects_scalars _ _ several, opened]
      rfl
    · rw [← counts, min?_of_faithful faithful]
  · refine ⟨_, released, [], ?_, SubjectJoin.yields_exhausted .subject Codec.standard, nofun, .nil,
      fun v => min?_of_lacks (lacks v)⟩
    rw [joinSubjects_scalars _ _ several, opened]
    rfl

/-- Two ascending lists of subjects that agree on how often each occurs are the same. -/
theorem eq_of_count_eq {vs ws : List Value} (hv : ∀ v ∈ vs, v.IsSubject)
    (hw : ∀ w ∈ ws, w.IsSubject) (ascending : vs.Pairwise (·.bytes ≤ ·.bytes))
    (ascending' : ws.Pairwise (·.bytes ≤ ·.bytes)) (same : ∀ v, vs.count v = ws.count v) :
    vs = ws :=
  List.Perm.eq_of_pairwise
    (fun v w mem mem' le ge => (hv v mem).eq_of_bytes_eq (hw w mem') (List.le_antisymm le ge))
    ascending ascending' (List.perm_iff_count.mpr same)

/-- The least of some numbers does not depend on their order. -/
theorem min?_of_perm {ms ns : List Nat} (perm : ms.Perm ns) : ms.min? = ns.min? := by
  cases h : ns.min? with
  | none =>
    rw [List.min?_eq_none_iff] at h ⊢
    exact (h ▸ perm).eq_nil
  | some m =>
    rw [List.min?_eq_some_iff] at h ⊢
    exact ⟨perm.mem_iff.mpr h.1, fun n mem => h.2 n (perm.mem_iff.mp mem)⟩

/-- The join of two or more pairs of predicate and object hands out, in ascending order, exactly
the subjects that have every pair, each as often as the pair of which it has the fewest statements.
The order of the pairs does not matter, and if no subject has one of them there is no result. -/
theorem joinSubjects_exact (config : Config) (calls : List StoreCall)
    (years : Tracked.InFourDigitYears calls)
    (top : ∀ key ∈ (Tracked.run Codec.standard config calls).ledger,
      key.subject.bytes ≤ Value.topResource.bytes)
    (pairs : List (Value × Value)) (several : 2 ≤ pairs.length)
    (encodable : ∀ pair ∈ pairs, Encodable pair) :
    let t := Tracked.run Codec.standard config calls
    ∃ subjects : List Value,
      (∀ pairs' : List (Value × Value), pairs'.Perm pairs → ∃ join released,
        (ofConfig config Codec.standard).joinSubjects t.store
            (pairs'.map fun pair => (.scalar pair.1, .scalar pair.2))
          = (⟨.ok join, released⟩, t.store)
        ∧ Yields join subjects)
      ∧ subjects.Pairwise (·.bytes ≤ ·.bytes)
      ∧ (∀ v, (pairs.map fun pair => t.ledger.count Codec.standard pair v).min?
        = some (subjects.count v))
      ∧ (∀ v, v ∈ subjects ↔ ∀ pair ∈ pairs, 0 < t.ledger.count Codec.standard pair v)
      ∧ ((∃ pair ∈ pairs, ∀ v, t.ledger.count Codec.standard pair v = 0) → subjects = []) := by
  intro t
  have mirrored : t.Mirrored config := Tracked.mirrored_run config calls
  have readable : t.ledger.Readable := Tracked.readable_run config years
  obtain ⟨_, _, subjects, _, _, isSubject, ascending, counts⟩ :=
    exists_joinSubjects mirrored readable top several encodable
  have present (v : Value) :
      v ∈ subjects ↔ ∀ pair ∈ pairs, 0 < t.ledger.count Codec.standard pair v := by
    obtain ⟨attained, le⟩ := List.min?_eq_some_iff.mp (counts v)
    rw [← List.count_pos_iff]
    constructor
    · intro pos pair mem
      exact Nat.lt_of_lt_of_le pos (le _ (List.mem_map_of_mem mem))
    · intro pos
      obtain ⟨pair, mem, e⟩ := List.mem_map.mp attained
      exact e ▸ pos pair mem
  refine ⟨subjects, fun pairs' perm => ?_, ascending, counts, present, ?_⟩
  · have several' : 2 ≤ pairs'.length := perm.length_eq ▸ several
    have encodable' : ∀ pair ∈ pairs', Encodable pair :=
      fun pair mem => encodable pair (perm.mem_iff.mp mem)
    obtain ⟨join, released, subjects', opened, yields, isSubject', ascending', counts'⟩ :=
      exists_joinSubjects mirrored readable top several' encodable'
    have same (v : Value) : subjects'.count v = subjects.count v :=
      Option.some.inj ((counts' v).symm.trans ((min?_of_perm (perm.map _)).trans (counts v)))
    rw [← eq_of_count_eq isSubject' isSubject ascending' ascending same]
    exact ⟨join, released, opened, yields⟩
  · rintro ⟨pair, mem, zero⟩
    apply List.eq_nil_iff_forall_not_mem.mpr
    intro v found
    exact Nat.ne_of_gt ((present v).mp found pair mem) (zero v)

/-- Of two subjects with one pair, the one that has the other pair too. -/
theorem joinSubjects_exact_two_pairs :
    let calls := [StoreCall.insert (.triple (.resource "a") (.resource "p") (.plain "1")),
      .insert (.triple (.resource "b") (.resource "p") (.plain "1")),
      .insert (.triple (.resource "b") (.resource "q") (.plain "2"))]
    let t := Tracked.run Codec.standard Config.default calls
    ∃ join released subjects,
      (ofConfig Config.default Codec.standard).joinSubjects t.store
          [(.scalar (.resource "p"), .scalar (.plain "1")),
            (.scalar (.resource "q"), .scalar (.plain "2"))]
        = (⟨.ok join, released⟩, t.store)
      ∧ Yields join subjects ∧ .resource "a" ∉ subjects ∧ .resource "b" ∈ subjects := by
  intro calls t
  have years : Tracked.InFourDigitYears calls := by
    intro s mem
    simp only [calls, List.mem_cons, StoreCall.insert.injEq, List.not_mem_nil, or_false] at mem
    rcases mem with rfl | rfl | rfl <;> decide +kernel
  have top : ∀ key ∈ t.ledger.keys, key.subject.bytes ≤ Value.topResource.bytes := by
    decide +kernel
  let pairs := [(Value.resource "p", Value.plain "1"), (.resource "q", .plain "2")]
  have encodable : ∀ pair ∈ pairs, Encodable pair := by
    intro pair mem
    simp only [pairs, List.mem_cons, List.not_mem_nil, or_false] at mem
    rcases mem with rfl | rfl
    · exact ⟨⟨[0x70], by decide +kernel⟩, [0x31, 0x01, 0x03], by decide +kernel⟩
    · exact ⟨⟨[0x71], by decide +kernel⟩, [0x32, 0x01, 0x03], by decide +kernel⟩
  obtain ⟨subjects, opened, _, _, present, _⟩ := joinSubjects_exact Config.default calls years
    (fun key mem => top key (Finmap.mem_keys.mpr mem)) pairs (Nat.le_refl 2) encodable
  obtain ⟨join, released, opened, yields⟩ := opened _ (List.Perm.refl _)
  refine ⟨join, released, subjects, opened, yields, ?_, (present _).mpr ?_⟩
  · rw [present]
    decide +kernel
  · decide +kernel

end Engine

end TripleIndex
