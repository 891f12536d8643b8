/-
  Tables as finite maps from cell keys to timestamps: which cells are there after a cell is put in
  or taken out, and which of them a scan returns (`rows_eq`).
-/
import Mathlib
import TripleIndex.Proofs.Bytes
import TripleIndex.Proofs.Key
import TripleIndex.Store.Basic

namespace TripleIndex

theorem CellKey.not_before_self (a : CellKey) : ¬ a.Before a := by
  rintro (h | ⟨_, h | ⟨_, h⟩⟩) <;> exact List.lt_irrefl _ h

namespace Table

/-! ## Cells -/

theorem ne_of_ascending {c : Cell} {cells : List Cell}
    (h : (c :: cells).Pairwise fun a b => a.1.Before b.1) : ∀ d ∈ cells, d.1 ≠ c.1 := by
  intro d hd e
  have := List.rel_of_pairwise_cons h hd
  rw [e] at this
  exact CellKey.not_before_self _ this

theorem mem_insertCell_iff {cell c : Cell} {cells : List Cell}
    (h : cells.Pairwise fun a b => a.1.Before b.1) :
    c ∈ insertCell cell cells ↔ c = cell ∨ c ∈ cells ∧ c.1 ≠ cell.1 := by
  induction cells with
  | nil => simp [insertCell]
  | cons d cells ih =>
    have later := ne_of_ascending h
    unfold insertCell
    split
    · next before =>
      -- every cell of the list comes after the new one
      have ne : ∀ x ∈ d :: cells, x.1 ≠ cell.1 :=
        ne_of_ascending (h.cons fun x hx => by
          rcases List.mem_cons.mp hx with rfl | hx
          · exact before
          · exact before.trans (List.rel_of_pairwise_cons h hx))
      rw [List.mem_cons]
      exact or_congr_right ⟨fun hc => ⟨hc, ne c hc⟩, And.left⟩
    · split
      · next same =>
        rw [same, List.mem_cons, List.mem_cons]
        refine or_congr_right ⟨fun hc => ⟨.inr hc, later c hc⟩, ?_⟩
        rintro ⟨rfl | hc, ne⟩
        · exact absurd rfl ne
        · exact hc
      · next different =>
        rw [List.mem_cons, List.mem_cons, ih h.of_cons]
        have ne : d.1 ≠ cell.1 := fun e => different e.symm
        constructor
        · rintro (rfl | hc | ⟨hc, hne⟩)
          · exact .inr ⟨.inl rfl, ne⟩
          · exact .inl hc
          · exact .inr ⟨.inr hc, hne⟩
        · rintro (hc | ⟨rfl | hc, hne⟩)
          · exact .inr (.inl hc)
          · exact .inl rfl
          · exact .inr (.inr ⟨hc, hne⟩)

variable {t : Table} {key : CellKey} {c : Cell}

theorem mem_insert {timestamp : Option UInt64} :
    c ∈ (t.insert key timestamp).cells ↔ c = (key, timestamp) ∨ c ∈ t.cells ∧ c.1 ≠ key :=
  mem_insertCell_iff t.ascending

theorem mem_erase : c ∈ (t.erase key).cells ↔ c ∈ t.cells ∧ c.1 ≠ key := by
  obtain ⟨cells, ascending⟩ := t
  change c ∈ cells.eraseP (fun d => d.1 = key) ↔ c ∈ cells ∧ c.1 ≠ key
  induction cells with
  | nil => simp
  | cons d cells ih =>
    have later := ne_of_ascending ascending
    have ih := ih ascending.of_cons
    by_cases same : d.1 = key
    · rw [List.eraseP_cons_of_pos (by simpa using same), List.mem_cons]
      subst same
      refine ⟨fun hc => ⟨.inr hc, later c hc⟩, ?_⟩
      rintro ⟨rfl | hc, ne⟩
      · exact absurd rfl ne
      · exact hc
    · rw [List.eraseP_cons_of_neg (by simpa using same), List.mem_cons, List.mem_cons, ih]
      constructor
      · rintro (rfl | ⟨hc, ne⟩)
        · exact ⟨.inl rfl, same⟩
        · exact ⟨.inr hc, ne⟩
      · rintro ⟨rfl | hc, ne⟩
        · exact .inl rfl
        · exact .inr ⟨hc, ne⟩

theorem contains_iff : t.contains key = true ↔ ∃ timestamp, (key, timestamp) ∈ t.cells := by
  unfold contains
  rw [List.any_eq_true]
  constructor
  · rintro ⟨⟨k, timestamp⟩, mem, same⟩
    have same : k = key := by simpa using same
    exact ⟨timestamp, same ▸ mem⟩
  · rintro ⟨timestamp, mem⟩
    exact ⟨_, mem, by simp⟩

theorem nodup_cells (t : Table) : t.cells.Nodup := by
  apply t.ascending.imp
  intro a b before e
  subst e
  exact CellKey.not_before_self _ before

end Table

/-! ## Scans -/

namespace Table

theorem dropWhile_eq_filter {cells : List Cell} {lower : CellKey}
    (h : cells.Pairwise fun a b => a.1.Before b.1) :
    (cells.dropWhile fun c => c.1.Before lower) = cells.filter fun c => ¬ c.1.Before lower := by
  induction cells with
  | nil => rfl
  | cons c cells ih =>
    by_cases before : c.1.Before lower
    · rw [List.dropWhile_cons_of_pos (by simpa using before), ih h.of_cons,
        List.filter_cons_of_neg (by simpa using before)]
    · rw [List.dropWhile_cons_of_neg (by simpa using before), List.filter_eq_self.mpr]
      intro d hd
      rw [decide_eq_true_iff]
      intro before'
      rcases List.mem_cons.mp hd with rfl | hd
      · exact before before'
      · exact before ((List.rel_of_pairwise_cons h hd).trans before')

theorem takeWhile_eq_filter {cells : List Cell} {upper : CellKey}
    (h : cells.Pairwise fun a b => a.1.Before b.1) :
    (cells.takeWhile fun c => c.1.Before upper) = cells.filter fun c => c.1.Before upper := by
  induction cells with
  | nil => rfl
  | cons c cells ih =>
    by_cases before : c.1.Before upper
    · rw [List.takeWhile_cons_of_pos (by simpa using before), ih h.of_cons,
        List.filter_cons_of_pos (by simpa using before)]
    · rw [List.takeWhile_cons_of_neg (by simpa using before),
        List.filter_cons_of_neg (by simpa using before)]
      refine (List.filter_eq_nil_iff.mpr fun d hd before' => before ?_).symm
      exact (List.rel_of_pairwise_cons h hd).trans (by simpa using before')

/-- A slice holds the cells between its keys, in their order. -/
theorem slice_eq (t : Table) (span : CellSpan) :
    t.slice span
      = t.cells.filter fun c => ¬ c.1.Before span.lower ∧ c.1.Before span.upper := by
  unfold slice
  rw [dropWhile_eq_filter t.ascending, takeWhile_eq_filter (t.ascending.filter _),
    List.filter_filter]
  apply List.filter_congr
  intro c _
  rw [Bool.eq_iff_iff, Bool.and_eq_true, decide_eq_true_iff, decide_eq_true_iff, decide_eq_true_iff]
  exact and_comm

end Table

namespace KeyInterval

variable {r : KeyInterval} {span : CellSpan}

/-- An interval has no cells if its bounds are in the wrong order, or if they are the same. -/
theorem span?_eq_none_iff : r.span? = none ↔ r.stop ≤ r.start := by
  unfold span?
  split
  · next empty => exact iff_of_true rfl (of_decide_eq_true empty)
  · next some => exact iff_of_false nofun fun le => some (decide_eq_true le)

/-- The cells of an interval are those of its rows, with any family and visibility. -/
theorem bounds_of_span? (h : r.span? = some span) :
    span.lower = ⟨r.start, [], []⟩ ∧ span.upper = ⟨r.stop, [], []⟩ := by
  unfold span? at h
  split at h
  · cases h
  · rw [← Option.some.inj h]
    exact ⟨rfl, rfl⟩

theorem contains_eq_false (h : r.stop ≤ r.start) (key : Bytes) : r.contains key = false := by
  rw [Bool.eq_false_iff, ne_eq, Key.contains_iff]
  rintro ⟨ge, lt⟩
  exact List.lt_irrefl _ (List.lt_of_le_of_lt (List.le_trans h ge) lt)

/-- A cell lies in the span of an interval exactly if its row lies in the interval. -/
theorem contains_iff_of_span? (h : r.span? = some span) (key : CellKey) :
    r.contains key.row = true ↔ ¬ key.Before span.lower ∧ key.Before span.upper := by
  obtain ⟨lower, upper⟩ := bounds_of_span? h
  rw [lower, upper, Key.contains_iff, CellKey.before_row_iff, CellKey.before_row_iff, List.not_lt]

end KeyInterval

namespace Store

/-- Whether a plan asks for a cell. -/
def Asked (plan : ScanPlan) (cell : Cell) : Prop :=
  plan.range.contains cell.1.row = true ∧ ∀ family ∈ plan.family, cell.1.family = family

instance (plan : ScanPlan) (cell : Cell) : Decidable (Asked plan cell) :=
  inferInstanceAs (Decidable (_ ∧ _))

/-- A scan returns the cells that its plan asks for, in their order. -/
theorem rows_eq (store : Store) (plan : ScanPlan) :
    store.rows plan
      = ((store.table plan.layout).cells.filter fun c => Asked plan c).map Row.ofCell := by
  unfold rows
  split
  · next empty =>
    refine (congrArg (List.map Row.ofCell) (List.filter_eq_nil_iff.mpr ?_)).symm
    intro c _ asked
    have inside := (of_decide_eq_true asked).1
    rw [KeyInterval.contains_eq_false (KeyInterval.span?_eq_none_iff.mp empty)] at inside
    cases inside
  · next span found =>
    simp only [Table.slice_eq, List.filter_filter]
    congr 1
    apply List.filter_congr
    intro c _
    rw [Bool.eq_iff_iff]
    simp only [Bool.and_eq_true, decide_eq_true_eq, Asked,
      KeyInterval.contains_iff_of_span? found]
    cases plan.family with
    | none =>
      simp only [Option.mem_def, reduceCtorEq, false_implies, implies_true]
      tauto
    | some family =>
      simp only [Option.mem_some_iff, forall_eq', decide_eq_true_eq]
      tauto

end Store

end TripleIndex
