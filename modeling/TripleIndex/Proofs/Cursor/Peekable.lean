/-
  Cursors that show their next item, beside the cursors they read. After any calls the cursor behind
  has made some reads (`reads`), and what these delivered has been handed out or, if it is the last
  item, is held back. A call reads only if nothing is held back, which keeps that so
  (`Follows.call`).

  * `Follows.after`: the items handed out so far and the one held back, after any calls.
  * `after_shown`: once an item is shown, it stays the next one, and nothing is read.
  * `transparent`: looking ahead changes neither the items nor their order.
-/
import Mathlib
import TripleIndex.Proofs.Cursor.Reads

namespace TripleIndex

namespace Cursor

variable {σ ι ε : Type} [Cursor σ ι ε]

/-- The item that a read found, if it found one. -/
def item? (found : Except ε (Option ι)) : Option ι :=
  found.toOption.join

/-- The cursor behind some reads. -/
def skip (n : Nat) (s : σ) : σ :=
  (fun s => (next s).2)^[n] s

/-- The items that the first reads hand out. -/
def delivered (s : σ) (n : Nat) : List ι :=
  (List.range n).filterMap fun k => item? (read s k)

theorem skip_succ (s : σ) (n : Nat) : skip (n + 1) s = (next (skip n s)).2 :=
  Function.iterate_succ_apply' _ n s

theorem read_eq_next_skip (s : σ) (n : Nat) : read s n = (next (skip n s)).1 := by
  induction n generalizing s with
  | zero => rfl
  | succ n ih =>
    rw [read, ih]
    rfl

theorem delivered_succ (s : σ) (n : Nat) :
    delivered s (n + 1) = delivered s n ++ (item? (next (skip n s)).1).toList := by
  have last : [n].filterMap (fun k => item? (read s k)) = (item? (read s n)).toList := by
    simp only [List.filterMap_cons, List.filterMap_nil]
    cases item? (read s n) <;> rfl
  unfold delivered
  rw [List.range_succ, List.filterMap_append, last, read_eq_next_skip]

/-- More reads go on from where fewer of them end. -/
theorem delivered_isPrefix (s : σ) {m n : Nat} (le : m ≤ n) : delivered s m <+: delivered s n := by
  induction n, le using Nat.le_induction with
  | base => exact List.prefix_rfl
  | succ n _ ih =>
    rw [delivered_succ]
    exact ih.trans (List.prefix_append _ _)

end Cursor

open Cursor (item? skip delivered)

/-! ## Calls -/

/-- What can be asked of a cursor that shows its next item. -/
inductive PeekableCall where
  | peek
  | next

namespace PeekableCall

variable {ι : Type}

/-- What a call hands out of what it finds. -/
def hands : PeekableCall → Option ι → Option ι
  | .peek, _ => none
  | .next, found => found

/-- What a call holds back of what it finds. -/
def holds : PeekableCall → Option ι → Option ι
  | .peek, found => found
  | .next, _ => none

/-- An item is handed out or held back. -/
theorem hands_append_holds (call : PeekableCall) (found : Option ι) :
    (call.hands found).toList ++ (call.holds found).toList = found.toList := by
  cases call with
  | peek => rfl
  | next => exact List.append_nil _

@[simp]
theorem hands_none (call : PeekableCall) : call.hands (none : Option ι) = none := by
  cases call <;> rfl

@[simp]
theorem holds_none (call : PeekableCall) : call.holds (none : Option ι) = none := by
  cases call <;> rfl

end PeekableCall

namespace Peekable

variable {σ ι ε : Type} [Cursor σ ι ε] {p : Peekable σ ι} {i : ι}

/-- The answer to a call, and the cursor after it. -/
def call (p : Peekable σ ι) : PeekableCall → Except ε (Option ι) × Peekable σ ι
  | .peek => p.peek
  | .next => p.next

/-- The cursor after a sequence of calls. -/
def after (p : Peekable σ ι) (calls : List PeekableCall) : Peekable σ ι :=
  calls.foldl (fun p call => (p.call call).2) p

/-- The items that a sequence of calls hands out, in their order. Looks hand out none. -/
def taken (p : Peekable σ ι) : List PeekableCall → List ι
  | [] => []
  | call :: calls => (call.hands (item? (p.call call).1)).toList ++ taken (p.call call).2 calls

theorem after_append (p : Peekable σ ι) (calls later : List PeekableCall) :
    p.after (calls ++ later) = (p.after calls).after later :=
  List.foldl_append

/-- While an item is held back, a call finds it and reads nothing. -/
theorem call_of_some (held : p.peeked = some i) (call : PeekableCall) :
    p.call call = (.ok (some i), ⟨p.inner, call.holds (some i)⟩) := by
  obtain ⟨inner, peeked⟩ := p
  obtain rfl : peeked = some i := held
  cases call <;> rfl

/-- While no item is held back, a call finds what the next read does. -/
theorem call_of_none (held : p.peeked = none) (call : PeekableCall) :
    p.call call = ((Cursor.next p.inner).1,
      ⟨(Cursor.next p.inner).2, call.holds (item? (Cursor.next p.inner).1)⟩) := by
  obtain ⟨inner, peeked⟩ := p
  obtain rfl : peeked = none := held
  cases call with
  | peek =>
    rw [call, peek]
    rcases Cursor.next inner with ⟨e | found, last⟩ <;> rfl
  | next => rfl

/-- An item that a look shows is held back. -/
theorem peeked_of_peek (shown : p.peek.1 = .ok (some i)) : p.peek.2.peeked = some i := by
  change (p.call .peek).1 = _ at shown
  change (p.call .peek).2.peeked = _
  cases held : p.peeked with
  | none =>
    rw [call_of_none held] at shown ⊢
    change item? (Cursor.next p.inner).1 = some i
    rw [shown]
    rfl
  | some j =>
    rw [call_of_some held] at shown ⊢
    exact Except.ok.inj shown

/-- A call that fails leaves nothing held back. -/
theorem peeked_of_error {call : PeekableCall} {e : ε} (failed : (p.call call).1 = .error e) :
    (p.call call).2.peeked = none := by
  cases held : p.peeked with
  | none =>
    rw [call_of_none held] at failed ⊢
    change call.holds (item? (Cursor.next p.inner).1) = none
    rw [failed]
    exact call.holds_none
  | some i =>
    rw [call_of_some held] at failed
    cases failed

/-- A look, and some more looks after it. -/
def looks (k : Nat) : List PeekableCall :=
  .peek :: List.replicate k .peek

/-- Looking at an item that is held back changes nothing. -/
theorem after_peeks (held : p.peeked = some i) (k : Nat) :
    p.after (List.replicate k .peek) = p := by
  have still : (p.call .peek).2 = p := by
    rw [call_of_some held]
    obtain ⟨inner, peeked⟩ := p
    exact congrArg (Peekable.mk inner) held.symm
  induction k with
  | zero => rfl
  | succ k ih =>
    change ((p.call .peek).2).after (List.replicate k .peek) = p
    rw [still, ih]

/-- Once an item is shown, it stays the next one however often it is looked at, and to hand it out
takes no read. -/
theorem after_shown (shown : p.peek.1 = .ok (some i)) (k : Nat) :
    let q := p.after (looks k)
    q.peek.1 = .ok (some i) ∧ q.next = (.ok (some i), ⟨p.peek.2.inner, none⟩) := by
  intro q
  have held := peeked_of_peek shown
  have still : q = p.peek.2 := after_peeks held k
  have look := call_of_some held .peek
  have read := call_of_some held .next
  rw [still]
  exact ⟨congrArg Prod.fst look, read⟩

/-! ## Counted reads -/

/-- The cursor without the count of the reads behind it. -/
def bare (p : Peekable (Metered σ) ι) : Peekable σ ι :=
  ⟨p.inner.inner, p.peeked⟩

/-- A new cursor that counts the reads behind it. -/
def metered (s : σ) : Peekable (Metered σ) ι :=
  ofCursor (Metered.ofCursor s)

/-- How often a sequence of calls reads the cursor behind. -/
def reads (s : σ) (calls : List PeekableCall) : Nat :=
  ((metered s : Peekable (Metered σ) ι).after calls).inner.reads

/-- Counting the reads has no part in the answers. -/
theorem call_bare (p : Peekable (Metered σ) ι) (call : PeekableCall) :
    p.bare.call call = ((p.call call).1, (p.call call).2.bare) := by
  cases held : p.peeked with
  | none =>
    rw [call_of_none held, call_of_none (p := p.bare) held]
    rfl
  | some i =>
    rw [call_of_some held, call_of_some (p := p.bare) held]
    rfl

theorem after_bare (p : Peekable (Metered σ) ι) (calls : List PeekableCall) :
    p.bare.after calls = (p.after calls).bare := by
  induction calls generalizing p with
  | nil => rfl
  | cons call calls ih =>
    change ((p.bare.call call).2).after calls = (((p.call call).2).after calls).bare
    rw [call_bare, ih]

theorem taken_bare (p : Peekable (Metered σ) ι) (calls : List PeekableCall) :
    p.bare.taken calls = p.taken calls := by
  induction calls generalizing p with
  | nil => rfl
  | cons call calls ih => rw [taken, taken, call_bare, ih]

/-! ## What is handed out -/

/-- The cursor behind stands where its reads have taken it, and what they delivered was handed out but
for the item that is held back. -/
structure Follows (s : σ) (handed : List ι) (p : Peekable (Metered σ) ι) : Prop where
  inner : p.inner.inner = skip p.inner.reads s
  items : handed ++ p.peeked.toList = delivered s p.inner.reads

theorem follows_metered (s : σ) : Follows s [] (metered s) where
  inner := rfl
  items := rfl

theorem Follows.call {s : σ} {handed : List ι} {p : Peekable (Metered σ) ι} (h : Follows s handed p)
    (call : PeekableCall) :
    Follows s (handed ++ (call.hands (item? (p.call call).1)).toList) (p.call call).2 := by
  cases held : p.peeked with
  | none =>
    rw [call_of_none held]
    have read : (Cursor.next p.inner).1 = (Cursor.next (skip p.inner.reads s)).1 := by
      rw [← h.inner]
      rfl
    have delivers : handed = delivered s p.inner.reads := by
      rw [← h.items, held]
      exact (List.append_nil _).symm
    constructor
    · change (Cursor.next p.inner.inner).2 = skip (p.inner.reads + 1) s
      rw [Cursor.skip_succ, h.inner]
    · change _ = delivered s (p.inner.reads + 1)
      rw [Cursor.delivered_succ, ← delivers, ← read, List.append_assoc,
        PeekableCall.hands_append_holds]
  | some i =>
    rw [call_of_some held]
    refine ⟨h.inner, ?_⟩
    change (handed ++ (call.hands (some i)).toList) ++ (call.holds (some i)).toList = _
    rw [List.append_assoc, PeekableCall.hands_append_holds, ← held, h.items]

theorem Follows.after {s : σ} {handed : List ι} {p : Peekable (Metered σ) ι} (h : Follows s handed p)
    (calls : List PeekableCall) : Follows s (handed ++ p.taken calls) (p.after calls) := by
  induction calls generalizing handed p with
  | nil =>
    rw [taken, List.append_nil]
    exact h
  | cons call calls ih =>
    rw [taken, ← List.append_assoc]
    exact ih (h.call call)

variable (s : σ) (calls : List PeekableCall)

theorem after_ofCursor : (ofCursor s : Peekable σ ι).after calls = ((metered s).after calls).bare :=
  after_bare (metered s) calls

theorem taken_ofCursor : (ofCursor s : Peekable σ ι).taken calls = (metered s).taken calls :=
  taken_bare (metered s) calls

theorem inner_after : ((ofCursor s : Peekable σ ι).after calls).inner = skip (reads s calls) s := by
  rw [after_ofCursor]
  exact ((follows_metered s).after calls).inner

/-- Everything that was read has been handed out, but for the item that is held back. -/
theorem taken_append_peeked :
    (ofCursor s : Peekable σ ι).taken calls ++ ((ofCursor s : Peekable σ ι).after calls).peeked.toList
      = delivered s (reads s calls) := by
  rw [after_ofCursor, taken_ofCursor]
  exact ((follows_metered s).after calls).items

theorem taken_isPrefix : (ofCursor s : Peekable σ ι).taken calls <+: delivered s (reads s calls) :=
  ⟨_, taken_append_peeked s calls⟩

theorem taken_concat (call : PeekableCall) : (ofCursor s : Peekable σ ι).taken (calls ++ [call])
    = (ofCursor s : Peekable σ ι).taken calls ++
      (call.hands (item? (((ofCursor s : Peekable σ ι).after calls).call call).1)).toList := by
  generalize (ofCursor s : Peekable σ ι) = p
  induction calls generalizing p with
  | nil => exact List.append_nil _
  | cons first calls ih =>
    rw [List.cons_append, taken, ih, taken, List.append_assoc]
    rfl

/-- After a call that fails, everything that was read has been handed out. -/
theorem taken_of_error {call : PeekableCall} {e : ε}
    (failed : (((ofCursor s : Peekable σ ι).after calls).call call).1 = .error e) :
    (ofCursor s : Peekable σ ι).taken calls = delivered s (reads s (calls ++ [call])) := by
  have read := taken_append_peeked s (calls ++ [call])
  have held : ((ofCursor s : Peekable σ ι).after (calls ++ [call])).peeked = none := by
    rw [after_append]
    exact peeked_of_error failed
  have none : call.hands (item? (.error e : Except ε (Option ι))) = none := call.hands_none
  rw [held, taken_concat, failed, none] at read
  simpa using read

/-- To hand out an item that was shown takes no read. -/
theorem reads_of_shown {i : ι} (shown : ((ofCursor s : Peekable σ ι).after calls).peek.1 = .ok (some i))
    (k : Nat) : reads s (calls ++ looks k ++ [PeekableCall.next])
      = reads s (calls ++ [PeekableCall.peek]) := by
  let m : Peekable (Metered σ) ι := (metered s).after calls
  have same : m.bare.peek.1 = m.peek.1 := congrArg Prod.fst (call_bare m .peek)
  rw [after_ofCursor] at shown
  obtain ⟨_, handed⟩ := after_shown (same.symm.trans shown) k
  unfold reads
  rw [after_append, after_append, after_append]
  exact congrArg (fun answer => answer.2.inner.reads) handed

/-- Looking ahead is transparent, whatever calls are made and whatever the reads behind them find. The
reads that were made took the cursor behind as far as they do without looking ahead, and what they
delivered was handed out in their order, but for at most one item that is held back. A look that shows
an item leaves it the next one for any number of looks, and handing it out takes no further read.
A call that fails leaves nothing held back, with all that was read handed out. Closing forgets what is
held back: all that is handed out from then on is read from the closed cursor. -/
theorem transparent :
    let start : Peekable σ ι := ofCursor s
    let p := start.after calls
    let taken := start.taken calls
    let n := reads s calls
    (p.inner = skip n s ∧ taken ++ p.peeked.toList = delivered s n)
    ∧ (∀ m, n ≤ m → taken <+: delivered s m)
    ∧ (delivered s n).length ≤ taken.length + 1
    ∧ (∀ i, p.peek.1 = .ok (some i) → ∀ k,
        let shown := calls ++ looks k
        (start.after shown).peek.1 = .ok (some i) ∧ (start.after shown).next.1 = .ok (some i)
          ∧ reads s (shown ++ [PeekableCall.next]) = reads s (calls ++ [PeekableCall.peek]))
    ∧ (∀ call e, (p.call call).1 = .error e →
        (p.call call).2.peeked = none ∧ taken = delivered s (reads s (calls ++ [call])))
    ∧ p.close = ((Cursor.close p.inner).1, ofCursor (Cursor.close p.inner).2)
    ∧ ∀ later, p.close.2.taken later
        <+: delivered (Cursor.close p.inner).2 (reads (Cursor.close p.inner).2 later) := by
  intro start p taken n
  have items : taken ++ p.peeked.toList = delivered s n := taken_append_peeked s calls
  refine ⟨⟨inner_after s calls, items⟩, ?_, ?_, ?_, ?_, rfl, ?_⟩
  · intro m le
    exact (taken_isPrefix s calls).trans (Cursor.delivered_isPrefix s le)
  · rw [← items, List.length_append]
    cases p.peeked <;> simp
  · intro i looked k shown
    obtain ⟨look, handed⟩ := after_shown looked k
    have after : start.after shown = p.after (looks k) := after_append ..
    rw [after]
    exact ⟨look, congrArg Prod.fst handed, reads_of_shown s calls looked k⟩
  · intro call e failed
    exact ⟨peeked_of_error failed, taken_of_error s calls failed⟩
  · intro later
    exact taken_isPrefix (Cursor.close p.inner).2 later

/-- A script that finds nothing once and goes on: looks before it, at it and after it, up to a read
that fails. -/
example :
    let start : Peekable (Scripted Nat) Nat :=
      ofCursor (Scripted.ofItems [some 1, none, some 2] (some 3) false)
    start.taken [.peek, .peek, .next, .peek, .next, .next, .peek] = [1, 2] := rfl

end Peekable

end TripleIndex
