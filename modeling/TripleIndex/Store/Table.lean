/-
  Tables: cells in ascending order of row, column family and visibility, each with a timestamp or
  none. Every table is ordered by construction.
-/
import TripleIndex.Bytes

namespace TripleIndex

/-- What tells the cells of a table apart. -/
structure CellKey where
  row : Bytes
  family : Bytes
  visibility : Bytes
  deriving DecidableEq

namespace CellKey

/-- The order of cells. -/
def Before (a b : CellKey) : Prop :=
  a.row < b.row ∨ a.row = b.row ∧
    (a.family < b.family ∨ a.family = b.family ∧ a.visibility < b.visibility)

instance (a b : CellKey) : Decidable (a.Before b) :=
  inferInstanceAs (Decidable (_ ∨ _))

theorem Before.trans {a b c : CellKey} (h : a.Before b) (h' : b.Before c) : a.Before c := by
  obtain ⟨ar, af, av⟩ := a
  obtain ⟨br, bf, bv⟩ := b
  obtain ⟨cr, cf, cv⟩ := c
  simp only [Before] at h h' ⊢
  rcases h with h | ⟨rfl, h⟩
  · rcases h' with h' | ⟨rfl, _⟩
    · exact .inl (List.lt_trans h h')
    · exact .inl h
  · rcases h' with h' | ⟨rfl, h'⟩
    · exact .inl h'
    · refine .inr ⟨rfl, ?_⟩
      rcases h with h | ⟨rfl, h⟩
      · rcases h' with h' | ⟨rfl, _⟩
        · exact .inl (List.lt_trans h h')
        · exact .inl h
      · rcases h' with h' | ⟨rfl, h'⟩
        · exact .inl h'
        · exact .inr ⟨rfl, List.lt_trans h h'⟩

/-- Of two cells that differ, one comes first. -/
theorem before_of_not_before {a b : CellKey} (h : ¬ a.Before b) (ne : a ≠ b) : b.Before a := by
  obtain ⟨ar, af, av⟩ := a
  obtain ⟨br, bf, bv⟩ := b
  simp only [Before, not_or, not_and] at h ⊢
  rcases Decidable.em (br < ar) with hr | hr
  · exact .inl hr
  · have er : ar = br := List.le_antisymm hr h.1
    subst er
    refine .inr ⟨rfl, ?_⟩
    rcases Decidable.em (bf < af) with hf | hf
    · exact .inl hf
    · have ef : af = bf := List.le_antisymm hf (h.2 rfl).1
      subst ef
      refine .inr ⟨rfl, ?_⟩
      rcases Decidable.em (bv < av) with hv | hv
      · exact hv
      · have ev : av = bv := List.le_antisymm hv ((h.2 rfl).2 rfl)
        subst ev
        exact absurd rfl ne

/-- A cell comes before all cells of a row exactly if its row does. -/
theorem before_row_iff {a : CellKey} {row : Bytes} : a.Before ⟨row, [], []⟩ ↔ a.row < row := by
  have family : ¬ a.family < [] := List.not_lt_nil _
  have visibility : ¬ a.visibility < [] := List.not_lt_nil _
  constructor
  · rintro (h | ⟨_, h | ⟨_, h⟩⟩)
    · exact h
    · exact absurd h family
    · exact absurd h visibility
  · exact .inl

end CellKey

/-- Keys from a lower one up to an upper one. Ordered tables answer only for keys in order. -/
structure CellSpan where
  lower : CellKey
  upper : CellKey
  ordered : ¬ upper.Before lower

/-- A cell: its key and its timestamp. -/
abbrev Cell := CellKey × Option UInt64

/-- Cells in ascending order. -/
structure Table where
  cells : List Cell
  ascending : cells.Pairwise fun a b => a.1.Before b.1

namespace Table

/-- The table without cells. -/
def empty : Table :=
  ⟨[], .nil⟩

/-- Put a cell in its place, over the one with its key. -/
def insertCell (cell : Cell) : List Cell → List Cell
  | [] => [cell]
  | c :: cells =>
    if cell.1.Before c.1 then cell :: c :: cells
    else if cell.1 = c.1 then cell :: cells
    else c :: insertCell cell cells

theorem mem_insertCell {cell c : Cell} {cells : List Cell} (h : c ∈ insertCell cell cells) :
    c = cell ∨ c ∈ cells := by
  induction cells with
  | nil => exact .inl (List.mem_singleton.mp h)
  | cons d cells ih =>
    unfold insertCell at h
    split at h
    · exact List.mem_cons.mp h
    · split at h
      · rcases List.mem_cons.mp h with h | h
        · exact .inl h
        · exact .inr (List.mem_cons_of_mem _ h)
      · rcases List.mem_cons.mp h with h | h
        · exact .inr (h ▸ List.mem_cons_self)
        · rcases ih h with h | h
          · exact .inl h
          · exact .inr (List.mem_cons_of_mem _ h)

theorem pairwise_insertCell (cell : Cell) {cells : List Cell}
    (h : cells.Pairwise fun a b => a.1.Before b.1) :
    (insertCell cell cells).Pairwise fun a b => a.1.Before b.1 := by
  induction h with
  | nil => exact List.pairwise_singleton _ _
  | @cons d cells hd htail ih =>
    unfold insertCell
    split
    · next hb =>
      refine .cons ?_ (.cons hd htail)
      intro x hx
      rcases List.mem_cons.mp hx with rfl | hx
      · exact hb
      · exact hb.trans (hd x hx)
    · next hb =>
      split
      · next he => exact .cons (fun x hx => he ▸ hd x hx) htail
      · next hne =>
        refine .cons ?_ ih
        intro x hx
        rcases mem_insertCell hx with rfl | hx
        · exact CellKey.before_of_not_before hb hne
        · exact hd x hx

/-- The table with a cell put in. -/
def insert (t : Table) (key : CellKey) (timestamp : Option UInt64) : Table :=
  ⟨insertCell (key, timestamp) t.cells, pairwise_insertCell _ t.ascending⟩

/-- The table without the cell of a key. -/
def erase (t : Table) (key : CellKey) : Table :=
  ⟨t.cells.eraseP fun c => c.1 = key, t.ascending.sublist (List.eraseP_sublist ..)⟩

/-- Whether there is a cell of a key. -/
def contains (t : Table) (key : CellKey) : Bool :=
  t.cells.any fun c => c.1 = key

/-- The number of cells. -/
def size (t : Table) : Nat :=
  t.cells.length

/-- The cells from the first one not before the lower key to the last one before the upper key. -/
def slice (t : Table) (span : CellSpan) : List Cell :=
  (t.cells.dropWhile fun c => c.1.Before span.lower).takeWhile fun c => c.1.Before span.upper

end Table

end TripleIndex
