/-
  Reads of cursors that may fail, counted from zero. A cursor that stands before its failing read
  is told by what its reads find (`Cursor.Serves`); a cursor that is read until it finds nothing or
  fails, by the items that it hands out before (`Cursor.Delivers`).

  * `Delivers.read_lt`, `Delivers.read_length`, `Delivers.read_gt`: the reads of such a cursor.
  * `Scripted.serves`: scripts with a failing read.
  * `Statements.read_eq_some`: what a cursor of statements hands out.
-/
import Mathlib
import TripleIndex.Proofs.Cursor

namespace TripleIndex

namespace Cursor

variable {σ ι ε : Type} [Cursor σ ι ε]

/-- What the `n`-th read finds. -/
def read (s : σ) : Nat → Except ε (Option ι)
  | 0 => (next s).1
  | n + 1 => read (next s).2 n

theorem read_zero {s t : σ} {x : Except ε (Option ι)} (found : next s = (x, t)) :
    read s 0 = x := by
  rw [read, found]

theorem read_succ {s t : σ} {x : Except ε (Option ι)} (found : next s = (x, t)) (n : Nat) :
    read s (n + 1) = read t n := by
  rw [read, found]

/-- A cursor that finds nothing and stays as it is never finds anything. -/
theorem read_of_rest {s : σ} (rest : next s = (.ok none, s)) (n : Nat) : read s n = .ok none := by
  induction n with
  | zero => exact read_zero rest
  | succ n ih => rw [read_succ rest, ih]

/-- A cursor that reads another one has its reads. -/
theorem read_wrap {τ : Type} [Cursor τ ι ε] {g : σ → τ}
    (step : ∀ s : σ, next (g s) = ((next s).1, g (next s).2)) (s : σ) (n : Nat) :
    read (g s) n = read s n := by
  induction n generalizing s with
  | zero => exact read_zero (step s)
  | succ n ih => rw [read_succ (step s), ih, read]

/-! ## Cursors before a failing read -/

/-- The reads before `failAt` hand out the items, and nothing once there are none left; all reads
from there on fail. Without `failAt` no read fails. -/
structure Serves (s : σ) (items : List ι) (failAt : Option Nat) : Prop where
  served : ∀ n, (∀ k ∈ failAt, n < k) → read s n = .ok items[n]?
  failed : ∀ k ∈ failAt, ∀ n, k ≤ n → ∃ e, read s n = .error e

/-- The items that are handed out before the failing read. -/
def cut (failAt : Option Nat) (items : List ι) : List ι :=
  match failAt with
  | some k => items.take k
  | none => items

theorem cut_prefix (failAt : Option Nat) (items : List ι) : cut failAt items <+: items := by
  cases failAt with
  | none => exact List.prefix_rfl
  | some k => exact List.take_prefix k items

/-- An item is handed out before the failing read exactly if that read is behind it. -/
theorem lt_length_cut {failAt : Option Nat} {items : List ι} {n : Nat} :
    n < (cut failAt items).length ↔ n < items.length ∧ ∀ k ∈ failAt, n < k := by
  cases failAt with
  | none => simp [cut]
  | some k =>
    simp only [cut, List.length_take, Option.mem_some_iff, forall_eq']
    omega

theorem cut_cons {failAt : Option Nat} (later : ∀ k ∈ failAt, 0 < k) (i : ι) (items : List ι) :
    cut failAt (i :: items) = i :: cut (failAt.map Nat.pred) items := by
  cases failAt with
  | none => rfl
  | some k =>
    obtain ⟨k, rfl⟩ := Nat.exists_eq_succ_of_ne_zero (Nat.ne_of_gt (later k rfl))
    exact List.take_succ_cons

variable {s t : σ} {x : Except ε (Option ι)} {items : List ι} {failAt : Option Nat}

/-- The read that fails first. -/
theorem Serves.next_of_zero (h : Serves s items (some 0)) :
    ∃ e t, next s = (.error e, t) := by
  obtain ⟨e, failed⟩ := h.failed 0 rfl 0 (Nat.le_refl 0)
  exact ⟨e, (next s).2, Prod.ext failed rfl⟩

/-- A read before the failing one. -/
theorem Serves.next_of_later (h : Serves s items failAt) (later : ∀ k ∈ failAt, 0 < k) :
    ∃ t, next s = (.ok items.head?, t) ∧ Serves t items.tail (failAt.map Nat.pred)
      ∧ ∀ n, read t n = read s (n + 1) := by
  have found : next s = (.ok items.head?, (next s).2) :=
    Prod.ext ((h.served 0 later).trans (by rw [List.head?_eq_getElem?])) rfl
  refine ⟨_, found, ⟨fun n before => ?_, fun k mem n le => ?_⟩, fun n => rfl⟩
  · rw [List.getElem?_tail]
    refine h.served (n + 1) fun k mem => ?_
    have := before (k - 1) (Option.mem_map_of_mem Nat.pred mem)
    omega
  · obtain ⟨first, own, rfl⟩ := Option.mem_map.mp mem
    have pos := later first own
    exact h.failed first own (n + 1) (by rw [Nat.pred_eq_sub_one] at le; omega)

/-! ## Cursors that are read to their end -/

/-- Reads hand out the items one by one. The next one finds nothing or fails with `ending`, and
from then on there is nothing more. -/
inductive Delivers : σ → List ι → Option ε → Prop
  | done {s t : σ} : next s = (.ok none, t) → (∀ n, read t n = .ok none) → Delivers s [] none
  | failed {s t : σ} {e : ε} : next s = (.error e, t) → (∀ n, read t n = .ok none) →
      Delivers s [] (some e)
  | item {s t : σ} {i : ι} {items : List ι} {ending : Option ε} : next s = (.ok (some i), t) →
      Delivers t items ending → Delivers s (i :: items) ending

variable {ending : Option ε}

theorem Delivers.wrap {τ : Type} [Cursor τ ι ε] {g : σ → τ}
    (step : ∀ s : σ, next (g s) = ((next s).1, g (next s).2)) (h : Delivers s items ending) :
    Delivers (g s) items ending := by
  induction h with
  | @done s t found rest =>
    exact .done (t := g t) (by rw [step, found]) fun n => (read_wrap step t n).trans (rest n)
  | @failed s t e found rest =>
    exact .failed (t := g t) (by rw [step, found]) fun n => (read_wrap step t n).trans (rest n)
  | @item s t i items ending found _ ih => exact .item (t := g t) (by rw [step, found]) ih

theorem Delivers.read_lt (h : Delivers s items ending) {n : Nat} (lt : n < items.length) :
    read s n = .ok items[n]? := by
  induction h generalizing n with
  | done => cases lt
  | failed => cases lt
  | @item s t i items ending found _ ih =>
    cases n with
    | zero => exact read_zero found
    | succ n =>
      rw [read_succ found, ih (Nat.lt_of_succ_lt_succ lt)]
      rfl

theorem Delivers.read_length (h : Delivers s items ending) :
    read s items.length = ending.elim (.ok none) .error := by
  induction h with
  | done found => exact read_zero found
  | failed found => exact read_zero found
  | item found _ ih => rw [List.length_cons, read_succ found, ih]

theorem Delivers.read_gt (h : Delivers s items ending) {n : Nat} (gt : items.length < n) :
    read s n = .ok none := by
  induction h generalizing n with
  | done found rest =>
    obtain ⟨n, rfl⟩ := Nat.exists_eq_succ_of_ne_zero (Nat.ne_of_gt gt)
    rw [read_succ found, rest]
  | failed found rest =>
    obtain ⟨n, rfl⟩ := Nat.exists_eq_succ_of_ne_zero (Nat.ne_of_gt gt)
    rw [read_succ found, rest]
  | item found _ ih =>
    obtain ⟨n, rfl⟩ := Nat.exists_eq_succ_of_ne_zero (Nat.ne_of_gt (Nat.zero_lt_of_lt gt))
    rw [read_succ found, ih (Nat.lt_of_succ_lt_succ gt)]

end Cursor

/-! ## Scripts -/

namespace Scripted

open Cursor (read read_succ read_zero)

variable {ι : Type}

theorem next_of_later (items : List ι) {failAt : Option Nat} (failClose : Bool) {served : Nat}
    (closes : Nat) (later : failAt ≠ some served) :
    Cursor.next (⟨items.map some, failAt, failClose, served, closes⟩ : Scripted ι)
      = (.ok items.head?, ⟨items.tail.map some, failAt, failClose, served + 1, closes⟩) := by
  change (if failAt = some served then _ else _) = _
  rw [if_neg later]
  cases items <;> rfl

theorem read_of_before (items : List ι) {failAt : Option Nat} (failClose : Bool) {served : Nat}
    (closes n : Nat) (before : ∀ k ∈ failAt, served + n < k ∨ k < served) :
    read (⟨items.map some, failAt, failClose, served, closes⟩ : Scripted ι) n = .ok items[n]? := by
  have later : failAt ≠ some served := fun e => by
    have := before served e
    omega
  have step := next_of_later items failClose closes later
  induction n generalizing items served with
  | zero => rw [read_zero step, List.head?_eq_getElem?]
  | succ n ih =>
    rw [read_succ step, ← List.getElem?_tail]
    have before' : ∀ k ∈ failAt, served + 1 + n < k ∨ k < served + 1 := fun k mem => by
      have := before k mem
      omega
    have later' : failAt ≠ some (served + 1) := fun e => by
      have := before _ e
      omega
    exact ih items.tail before' later' (next_of_later items.tail failClose closes later')

/-- A failing read changes nothing, so that all reads behind it fail too. -/
theorem next_of_failed (items : List (Option ι)) (k : Nat) (failClose : Bool) (closes : Nat) :
    Cursor.next (⟨items, some k, failClose, k, closes⟩ : Scripted ι)
      = (.error (.core (.storage "scan failed")), ⟨items, some k, failClose, k, closes⟩) :=
  if_pos rfl

theorem read_of_failed (items : List ι) {k : Nat} (failClose : Bool) {served : Nat}
    (closes n : Nat) (first : served ≤ k) (le : k ≤ served + n) :
    ∃ e, read (⟨items.map some, some k, failClose, served, closes⟩ : Scripted ι) n = .error e := by
  induction n generalizing items served with
  | zero =>
    obtain rfl : k = served := by omega
    exact ⟨_, read_zero (next_of_failed _ k failClose closes)⟩
  | succ n ih =>
    by_cases here : k = served
    · subst here
      rw [read_succ (next_of_failed _ k failClose closes)]
      exact ih items first (Nat.le_add_right k n)
    · have later : some k ≠ some served := fun e => here (Option.some.inj e)
      rw [read_succ (next_of_later items failClose closes later)]
      exact ih items.tail (by omega) (by omega)

/-- A script with a failing read. -/
theorem serves (items : List ι) (failAt : Option Nat) (failClose : Bool) :
    Cursor.Serves (ofItems (items.map some) failAt failClose) items failAt where
  served n before := by
    refine read_of_before items failClose 0 n fun k mem => .inl ?_
    rw [Nat.zero_add]
    exact before k mem
  failed k mem n le := by
    obtain rfl : failAt = some k := mem
    exact read_of_failed items failClose 0 n (Nat.zero_le k) (by rwa [Nat.zero_add])

end Scripted

/-! ## Counting reads -/

/-- A cursor that counts how often it is read. -/
structure Metered (σ : Type) where
  inner : σ
  reads : Nat

namespace Metered

variable {σ ι ε : Type}

/-- A cursor that has not been read. -/
def ofCursor (s : σ) : Metered σ :=
  ⟨s, 0⟩

/-- A read counts whatever comes of it. -/
instance [Cursor σ ι ε] : Cursor (Metered σ) ι ε where
  next s := ((Cursor.next s.inner).1, ⟨(Cursor.next s.inner).2, s.reads + 1⟩)
  close s := ((Cursor.close s.inner).1, { s with inner := (Cursor.close s.inner).2 })
  remaining s := Cursor.remaining s.inner
  remaining_next_le s := Cursor.remaining_next_le s.inner
  remaining_next_lt s := Cursor.remaining_next_lt s.inner

theorem next_eq [Cursor σ ι ε] {s : Metered σ} {x : Except ε (Option ι)} {t : σ}
    (found : Cursor.next s.inner = (x, t)) : Cursor.next s = (x, ⟨t, s.reads + 1⟩) := by
  change ((Cursor.next s.inner).1, (⟨(Cursor.next s.inner).2, s.reads + 1⟩ : Metered σ)) = _
  rw [found]

/-- Of the items of a cursor, the one that was read last. -/
def latest (s : Metered σ) (items : List ι) : Option ι :=
  match s.reads with
  | 0 => none
  | n + 1 => items[n]?

end Metered

/-! ## Reads of statements -/

/-- The reads of a snapshot are its items, and then nothing. -/
theorem Snapshot.read_ofList (rows : List Row) (n : Nat) :
    Cursor.read (Snapshot.ofList rows) n = .ok rows[n]? := by
  induction rows generalizing n with
  | nil => exact Cursor.read_of_rest rfl n
  | cons row rows ih =>
    have found : Cursor.next (Snapshot.ofList (row :: rows)) = (.ok (some row), Snapshot.ofList rows) :=
      rfl
    cases n with
    | zero => exact Cursor.read_zero found
    | succ n => exact (Cursor.read_succ found n).trans (ih n)

namespace Statements

variable {σ : Type} [Cursor σ Row Error]

/-- A read of a statement fails by the read of a row, or by what is made of the row. -/
theorem advance_eq_error {s : Statements σ} {e : QueryError} (failed : s.advance.1 = .error e) :
    ∃ n e', e = .core e' ∧ (Cursor.read s.rows n = .error e' ∨
      ∃ row, Cursor.read s.rows n = .ok (some row) ∧ (s.format.read s.layout row = .error e' ∨
        ∃ statement, s.format.read s.layout row = .ok statement
          ∧ s.accepts statement = .error e')) := by
  fun_induction advance s with
  | case1 s e' rows h =>
    cases failed
    exact ⟨0, e', rfl, .inl (Cursor.read_zero h)⟩
  | case2 s rows h => cases failed
  | case3 s row rows h e' hr =>
    cases failed
    exact ⟨0, e', rfl, .inr ⟨row, Cursor.read_zero h, .inl hr⟩⟩
  | case4 s row rows h statement hr e' ha =>
    cases failed
    exact ⟨0, e', rfl, .inr ⟨row, Cursor.read_zero h, .inr ⟨statement, hr, ha⟩⟩⟩
  | case5 s row rows h statement hr ha => cases failed
  | case6 s row rows h statement hr ha ih =>
    obtain ⟨n, e', core, cause⟩ := ih failed
    refine ⟨n + 1, e', core, ?_⟩
    rw [Cursor.read_succ h]
    exact cause

/-- A statement that is read is that of a row, and is accepted. -/
theorem advance_eq_some {s : Statements σ} {i : Statement} (found : s.advance.1 = .ok (some i)) :
    ∃ n row, Cursor.read s.rows n = .ok (some row) ∧ s.format.read s.layout row = .ok i
      ∧ s.accepts i = .ok true := by
  fun_induction advance s with
  | case1 s e rows h => cases found
  | case2 s rows h => cases found
  | case3 s row rows h e hr => cases found
  | case4 s row rows h statement hr e ha => cases found
  | case5 s row rows h statement hr ha =>
    cases found
    exact ⟨0, row, Cursor.read_zero h, hr, ha⟩
  | case6 s row rows h statement hr ha ih =>
    obtain ⟨n, row', read, decoded, accepted⟩ := ih found
    exact ⟨n + 1, row', (Cursor.read_succ h n).trans read, decoded, accepted⟩

/-- A read of a statement takes some rows and changes nothing else. -/
theorem snd_advance (s : Statements σ) : ∃ k rows, s.advance.2 = { s with rows := rows }
    ∧ ∀ n, Cursor.read rows n = Cursor.read s.rows (n + k) := by
  fun_induction advance s with
  | case1 s e rows h => exact ⟨1, rows, rfl, fun n => (Cursor.read_succ h n).symm⟩
  | case2 s rows h => exact ⟨1, rows, rfl, fun n => (Cursor.read_succ h n).symm⟩
  | case3 s row rows h e hr => exact ⟨1, rows, rfl, fun n => (Cursor.read_succ h n).symm⟩
  | case4 s row rows h statement hr e ha =>
    exact ⟨1, rows, rfl, fun n => (Cursor.read_succ h n).symm⟩
  | case5 s row rows h statement hr ha =>
    exact ⟨1, rows, rfl, fun n => (Cursor.read_succ h n).symm⟩
  | case6 s row rows h statement hr ha ih =>
    obtain ⟨k, rows', same, reads⟩ := ih
    exact ⟨k + 1, rows', same, fun n => (reads n).trans (Cursor.read_succ h (n + k)).symm⟩

/-- Every statement that is handed out is that of a row, and is accepted. -/
theorem read_eq_some {s : Statements σ} (opened : s.closed = false) {n : Nat} {i : Statement}
    (found : Cursor.read s n = .ok (some i)) :
    ∃ m row, Cursor.read s.rows m = .ok (some row) ∧ s.format.read s.layout row = .ok i
      ∧ s.accepts i = .ok true := by
  induction n generalizing s with
  | zero =>
    rw [Cursor.read, next_of_open opened] at found
    exact advance_eq_some found
  | succ n ih =>
    obtain ⟨k, rows, same, reads⟩ := snd_advance s
    rw [Cursor.read, next_of_open opened, same] at found
    obtain ⟨m, row, read, rest⟩ := ih (s := { s with rows := rows }) opened found
    exact ⟨m + k, row, (reads m).symm.trans read, rest⟩

end Statements

end TripleIndex
