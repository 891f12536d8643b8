/-
  Calls that change every table or none. Here a call goes through the tables one after the other: it
  writes a row only when the table of its layout is due, and what it changed before a failure stays
  changed. The row of the first layout holds the encodings of all the values of a statement, in its
  key or in its column family, so that any failure shows there, with all tables still as they were,
  and it is the same one for every choice of layouts and of hashes.

  * `StoreCall.performIn_of_encodes`: a statement that encodes changes all its tables.
  * `StoreCall.perform_of_error`: one that does not changes no table.
  * `StoreCall.perform_insert`, `StoreCall.perform_remove`: taken this way the calls are the store's.
  * `StoreCall.all_or_nothing`: when calls fail, and what they leave.
-/
import Mathlib
import TripleIndex.Proofs.Store.Ledger

namespace TripleIndex

open Outcome (bind_eq_error error_bind map_error)
open RowFormat (applies)

namespace Store

variable {c : Codec} {store : Store} {s : Statement} {e : Error}

/-- Whatever layouts are kept, the first one that a statement goes to starts with its subject. -/
theorem takers_eq_cons (store : Store) (s : Statement) : ∃ rest, store.takers s = .spo :: rest :=
  ⟨_, List.filter_cons_of_pos (RowFormat.applies_spo s)⟩

/-- The rows of a statement fail with the first one, since no other row holds more of it. -/
theorem rowsOf_eq_error :
    store.rowsOf c s = .error e ↔ (store.format c).write .spo s = .error e := by
  obtain ⟨rest, takers⟩ := store.takers_eq_cons s
  have rows : store.rowsOf c s = (store.takers s).mapM fun layout =>
      ((store.format c).write layout s).map fun row => (layout, row) := rfl
  cases written : (store.format c).write .spo s with
  | error e' =>
    rw [rows, takers, List.mapM_cons, written, map_error, error_bind]
    rw [Except.error.injEq, Except.error.injEq]
  | ok row =>
    obtain ⟨field, encodes⟩ := RowFormat.encodes_of_write written
    have all := (RowFormat.writeAll_eq_ok store.config.spo_mem_layouts).mpr ⟨field, encodes, rfl⟩
    refine iff_of_false (fun failed => ?_) nofun
    cases all.symm.trans failed

end Store

namespace StoreCall

variable {c : Codec} {store : Store} {call : StoreCall} {e : Error}

/-- What a call does with its row in the table of one layout. -/
def change (row : Row) (table : Table) : StoreCall → Table
  | .insert _ => table.insert row.cellKey row.timestamp
  | .remove _ => table.erase row.cellKey

/-- A call through some layouts, one after the other, up to the first that cannot take its statement.
It tells whether one of the tables had the cell, and leaves the store as far as it was changed. -/
def performIn (c : Codec) (call : StoreCall) : List Layout → Store → Except Error Bool × Store
  | [], store => (.ok false, store)
  | layout :: layouts, store =>
    match (store.format c).write layout call.statement with
    | .error e => (.error e, store)
    | .ok row =>
      let changed := store.setTable layout (call.change row (store.table layout))
      let later := call.performIn c layouts changed
      (later.1.map fun found => store.hasRow layout row || found, later.2)

/-- A call through all the layouts that take its statement. -/
def perform (c : Codec) (call : StoreCall) (store : Store) : Except Error Bool × Store :=
  call.performIn c (store.takers call.statement) store

/-! ## One table after the other -/

/-- A row that is written changes the table of its layout before the call goes on. -/
theorem performIn_cons {layout : Layout} {layouts : List Layout} {row : Row}
    (written : (store.format c).write layout call.statement = .ok row) :
    let changed := store.setTable layout (call.change row (store.table layout))
    let later := call.performIn c layouts changed
    call.performIn c (layout :: layouts) store
      = (later.1.map fun found => store.hasRow layout row || found, later.2) := by
  rw [performIn, written]

/-- If a statement encodes then each of the layouts that take it is reached and changed. -/
theorem performIn_of_encodes {layouts : List Layout} {field : Position → Bytes}
    (encodes : call.statement.Encodes c field) (nodup : layouts.Nodup)
    (take : ∀ layout ∈ layouts, applies layout call.statement = true) :
    let row (layout : Layout) : Row := (store.format c).rowOf layout call.statement field
    call.performIn c layouts store
      = (.ok (layouts.any fun layout => store.hasRow layout (row layout)),
        store.update layouts fun layout table => call.change (row layout) table) := by
  intro row
  induction layouts generalizing store with
  | nil => rfl
  | cons layout layouts ih =>
    obtain ⟨fresh, nodup⟩ := List.nodup_cons.mp nodup
    obtain ⟨takes, take⟩ := List.forall_mem_cons.mp take
    have written : (store.format c).write layout call.statement = .ok (row layout) :=
      RowFormat.write_of_encodes encodes takes
    let changed := store.setTable layout (call.change (row layout) (store.table layout))
    have later : call.performIn c layouts changed
        = (.ok (layouts.any fun l => changed.hasRow l (row l)),
          changed.update layouts fun l table => call.change (row l) table) := ih nodup take
    -- the change of one table leaves the cells of the others
    have others : (layouts.any fun l => changed.hasRow l (row l))
        = layouts.any fun l => store.hasRow l (row l) := by
      rw [Bool.eq_iff_iff, List.any_eq_true, List.any_eq_true]
      refine exists_congr fun l => and_congr_right fun mem => ?_
      have table : changed.table l = store.table l := if_neg (ne_of_mem_of_not_mem mem fresh)
      rw [Store.hasRow, table, Store.hasRow]
    rw [performIn_cons written, later, others]
    rfl

/-- If the first row cannot be written, the call ends there. -/
theorem perform_of_error (failed : (store.format c).write .spo call.statement = .error e) :
    call.perform c store = (.error e, store) := by
  obtain ⟨rest, takers⟩ := store.takers_eq_cons call.statement
  rw [perform, takers, performIn, failed]

theorem perform_of_encodes {field : Position → Bytes} (encodes : call.statement.Encodes c field) :
    let row (layout : Layout) : Row := (store.format c).rowOf layout call.statement field
    call.perform c store
      = (.ok ((store.takers call.statement).any fun layout => store.hasRow layout (row layout)),
        store.update (store.takers call.statement) fun layout table =>
          call.change (row layout) table) :=
  performIn_of_encodes encodes (store.nodup_takers _) fun _ mem => (Store.mem_takers.mp mem).2

/-- Inserting is going through the tables, as far as all of them can be changed. -/
theorem perform_insert (c : Codec) (store : Store) (s : Statement) :
    let run := (StoreCall.insert s).perform c store
    store.insert c s = run.1.map fun _ => run.2 := by
  intro run
  cases written : (store.format c).write .spo s with
  | error e =>
    have ends : run = (.error e, store) := perform_of_error written
    rw [ends]
    exact bind_eq_error.mpr (.inl (Store.rowsOf_eq_error.mpr written))
  | ok row =>
    obtain ⟨field, encodes⟩ := RowFormat.encodes_of_write written
    have ends : run = _ := perform_of_encodes encodes
    rw [ends]
    exact Store.insert_eq_ok.mpr ⟨field, encodes, rfl⟩

/-- Removing is going through the tables too, and its answer is whether one of them had the cell. -/
theorem perform_remove (c : Codec) (store : Store) (s : Statement) :
    let run := (StoreCall.remove s).perform c store
    store.remove c s = run.1.map fun found => (found, run.2) := by
  intro run
  cases written : (store.format c).write .spo s with
  | error e =>
    have ends : run = (.error e, store) := perform_of_error written
    rw [ends]
    exact bind_eq_error.mpr (.inl (Store.rowsOf_eq_error.mpr written))
  | ok row =>
    obtain ⟨field, encodes⟩ := RowFormat.encodes_of_write written
    have ends : run = _ := perform_of_encodes encodes
    rw [ends]
    exact Store.remove_eq_ok.mpr ⟨field, encodes, rfl, rfl⟩

/-! ## Failures -/

/-- A call fails exactly as the row of the first layout does. -/
theorem perform_eq_error : (call.perform c store).1 = .error e ↔
    (store.format c).write .spo call.statement = .error e := by
  cases written : (store.format c).write .spo call.statement with
  | error e' =>
    rw [perform_of_error written]
    rw [Except.error.injEq, Except.error.injEq]
  | ok row =>
    obtain ⟨field, encodes⟩ := RowFormat.encodes_of_write written
    have ends : call.perform c store = _ := perform_of_encodes encodes
    rw [ends]
    exact iff_of_false nofun nofun

/-- What a call reports is the failure of a value of its statement to encode. -/
theorem exists_value_of_error (failed : (call.perform c store).1 = .error e) :
    ∃ position v, call.statement.value? position = some v ∧ c.encodeField position v = .error e :=
  RowFormat.exists_value_of_write_error (RowFormat.applies_spo _) (perform_eq_error.mp failed)

/-- A call with a value that does not encode fails. -/
theorem exists_error_of_value {position : Position} {v : Value}
    (named : call.statement.value? position = some v) (failed : c.encodeField position v = .error e) :
    ∃ e, (call.perform c store).1 = .error e := by
  cases written : (store.format c).write .spo call.statement with
  | error e' => exact ⟨e', perform_eq_error.mpr written⟩
  | ok row =>
    obtain ⟨field, encodes⟩ := RowFormat.encodes_of_write written
    cases (encodes.of_value? named).symm.trans failed

/-- A call that succeeds has changed the tables of all the layouts that take its statement, and no
others. -/
theorem table_of_perform {found : Bool} (done : (call.perform c store).1 = .ok found)
    (layout : Layout) :
    if layout ∈ store.takers call.statement then
      ∃ row, (store.format c).write layout call.statement = .ok row
        ∧ (call.perform c store).2.table layout = call.change row (store.table layout)
    else (call.perform c store).2.table layout = store.table layout := by
  cases written : (store.format c).write .spo call.statement with
  | error e =>
    rw [perform_of_error written] at done
    cases done
  | ok row =>
    obtain ⟨field, encodes⟩ := RowFormat.encodes_of_write written
    have ends : call.perform c store = _ := perform_of_encodes encodes
    rw [ends, Store.table_update (store.nodup_takers _)]
    split
    · next mem => exact ⟨_, RowFormat.write_of_encodes encodes (Store.mem_takers.mp mem).2, rfl⟩
    · rfl

/-- Calls on a store are all or nothing, for every codec and every store. Taken table by table, with
what was changed before a failure kept, a call has the answer of the call as it is and leaves the same
store. It fails exactly if the subject, the predicate, the object or the context of its statement does
not encode at its position, with the failure of one of them, and the store is then as it was. If not,
the tables of all the layouts that take the statement are changed, and no others. A store with other
layouts or other rows, with hashes or without, fails the call with the same error or takes it too. -/
theorem all_or_nothing (c : Codec) (store : Store) (call : StoreCall) :
    let run := call.perform c store
    (match call with
      | .insert s => store.insert c s = run.1.map fun _ => run.2
      | .remove s => store.remove c s = run.1.map fun found => (found, run.2))
    ∧ ((∃ e, run.1 = .error e) ↔ ∃ position v, call.statement.value? position = some v
        ∧ ∃ e, c.encodeField position v = .error e)
    ∧ (∀ e, run.1 = .error e → run.2 = store
        ∧ ∃ position v, call.statement.value? position = some v
          ∧ c.encodeField position v = .error e)
    ∧ (∀ found, run.1 = .ok found → ∀ layout,
        if layout ∈ store.takers call.statement then
          ∃ row, (store.format c).write layout call.statement = .ok row
            ∧ run.2.table layout = call.change row (store.table layout)
        else run.2.table layout = store.table layout)
    ∧ ∀ (other : Store) e, (call.perform c other).1 = .error e ↔ run.1 = .error e := by
  refine ⟨?_, ⟨?_, ?_⟩, ?_, fun found done => table_of_perform done, ?_⟩
  · cases call with
    | insert s => exact perform_insert c store s
    | remove s => exact perform_remove c store s
  · rintro ⟨e, failed⟩
    obtain ⟨position, v, named, unencoded⟩ := exists_value_of_error failed
    exact ⟨position, v, named, e, unencoded⟩
  · rintro ⟨position, v, named, e, unencoded⟩
    exact exists_error_of_value named unencoded
  · intro e failed
    rw [perform_of_error (perform_eq_error.mp failed)]
    exact ⟨rfl, exists_value_of_error failed⟩
  · intro other e
    rw [perform_eq_error, perform_eq_error]
    exact RowFormat.write_eq_error_iff

/-- A delimiter in the name of a graph, which the first row has in its column family: both calls fail
and leave a store with a row in it as it was. -/
theorem all_or_nothing_delimiter :
    let store := (Store.empty ⟨"", true, true⟩).insertRow .spo ⟨[0x61], [], [], none⟩
    let s := (Statement.triple (.resource "s") (.resource "p") (.resource "o")).inContext
      (.resource "g\x00")
    ∀ call ∈ [insert s, remove s], ∃ e, (call.perform Codec.standard store).1 = .error e
      ∧ (call.perform Codec.standard store).2 = store := by
  intro store s call mem
  have statement : call.statement = s := by
    rcases List.mem_pair.mp mem with rfl | rfl <;> rfl
  have named : s.value? .context = some (.resource "g\x00") := by decide +kernel
  have unencoded : Codec.standard.encodeField .context (.resource "g\x00")
      = .error (.invalidValue "<g\x00> contains the reserved key byte 0x00") := by decide +kernel
  obtain ⟨_, fails, leaves, _⟩ := all_or_nothing Codec.standard store call
  obtain ⟨e, failed⟩ := fails.mpr ⟨.context, _, statement ▸ named, _, unencoded⟩
  exact ⟨e, failed, (leaves e failed).1⟩

end StoreCall

end TripleIndex
