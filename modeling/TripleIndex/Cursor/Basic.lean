/-
  Cursors: sequences that are read one item at a time and have to be closed. A read may fail, and
  may find nothing now and something later, but every cursor has finitely many items left.
-/
namespace TripleIndex

/-- The operations of a cursor with states `σ`, items `ι` and errors `ε`. -/
class Cursor (σ : Type) (ι ε : outParam Type) where
  /-- Read the next item; `none` if there is none. -/
  next : σ → Except ε (Option ι) × σ
  /-- Let go of what the cursor holds. -/
  close : σ → Except ε Unit × σ
  /-- A bound on the items that are left. -/
  remaining : σ → Nat
  /-- No read adds to what is left. -/
  remaining_next_le : ∀ s, remaining (next s).2 ≤ remaining s
  /-- An item read is no longer left. -/
  remaining_next_lt : ∀ s i, (next s).1 = .ok (some i) → remaining (next s).2 < remaining s

namespace Cursor

/-- How reading to the end went. -/
inductive Ending (ε : Type) where
  /-- There was nothing more. -/
  | exhausted
  /-- As many items as wanted were read. -/
  | full
  /-- A read failed. -/
  | failed (error : ε)
  deriving DecidableEq

variable {σ ι ε : Type} [Cursor σ ι ε]

/-- Read up to `limit` items. -/
def drain : Nat → σ → List ι × Ending ε × σ
  | 0, s => ([], .full, s)
  | limit + 1, s =>
    match next s with
    | (.error e, s) => ([], .failed e, s)
    | (.ok none, s) => ([], .exhausted, s)
    | (.ok (some i), s) =>
      let (items, ending, s) := drain limit s
      (i :: items, ending, s)

/-- Close every cursor of a list, whatever closing reports. -/
def closeAll (cursors : List σ) : List σ :=
  cursors.map fun s => (close s).2

end Cursor

/-- A cursor over a snapshot of items, which ends when closed. -/
structure Snapshot (ι : Type) where
  items : List ι
  closed : Bool

namespace Snapshot

variable {ι : Type}

/-- The cursor at the start of its items. -/
def ofList (items : List ι) : Snapshot ι :=
  ⟨items, false⟩

/-- The next item, and the cursor behind it. -/
def next (s : Snapshot ι) : Option ι × Snapshot ι :=
  if s.closed then (none, s)
  else
    match s.items with
    | [] => (none, s)
    | i :: items => (some i, { s with items := items })

/-- The closed cursor. -/
def close (_ : Snapshot ι) : Snapshot ι :=
  ⟨[], true⟩

theorem length_next_le (s : Snapshot ι) : s.next.2.items.length ≤ s.items.length := by
  unfold next
  split
  · exact Nat.le_refl _
  · split
    · exact Nat.le_refl _
    · next h => rw [h]; exact Nat.le_succ _

theorem length_next_lt {s : Snapshot ι} {i : ι} (h : s.next.1 = some i) :
    s.next.2.items.length < s.items.length := by
  unfold next at h ⊢
  split
  · next hc => simp [hc] at h
  · next hc =>
    split
    · next hi => simp [hc, hi] at h
    · next hi => rw [hi]; exact Nat.lt_succ_self _

end Snapshot

end TripleIndex
