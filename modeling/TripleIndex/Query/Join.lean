/-
  Joins. A predicate join merges scans of predicates on the object; a resource join merges scans
  of pairs of predicate and object on the subject. Opening a join that fails, or that has nothing
  to find, closes every scan opened before; those cursors are handed back beside the outcome.
-/
import TripleIndex.Cursor.Peekable
import TripleIndex.Query.Engine
import TripleIndex.Query.Merge

namespace TripleIndex

/-- What came of opening something over cursors `σ`. -/
structure Opening (α σ : Type) where
  outcome : Except QueryError α
  /-- Cursors that were opened and are closed again. -/
  released : List σ

/-- The statements whose object occurs in every input. -/
structure ObjectJoin (σ : Type) where
  merge : Merge σ

/-- The subjects that occur in every input. -/
structure SubjectJoin (σ : Type) where
  merge : Merge σ

namespace ObjectJoin

variable {σ : Type} [Cursor σ Statement QueryError]

/-- The next match. -/
def next (j : ObjectJoin σ) : Except QueryError (Option Statement) × ObjectJoin σ :=
  let (found, merge) := j.merge.next
  (found, ⟨merge⟩)

/-- Close every input that has not been closed. -/
def close (j : ObjectJoin σ) : Except QueryError Unit × ObjectJoin σ :=
  let (outcome, merge) := j.merge.close
  (outcome, ⟨merge⟩)

instance : Cursor (ObjectJoin σ) Statement QueryError where
  next := next
  close := close
  remaining j := j.merge.load
  remaining_next_le j := Cursor.remaining_next_le j.merge
  remaining_next_lt j := Cursor.remaining_next_lt j.merge

/-- The join of inputs that are each sorted by object. Fewer than two are closed. -/
def ofInputs (c : Codec) (inputs : List σ) : Opening (ObjectJoin σ) σ :=
  let count := inputs.length
  if count < 2 then
    ⟨.error (.invalidArgument s!"merge join needs at least 2 inputs, got {count}"),
      Cursor.closeAll inputs⟩
  else ⟨.ok ⟨Merge.ofInputs .object c inputs⟩, []⟩

end ObjectJoin

namespace SubjectJoin

variable {σ : Type} [Cursor σ Statement QueryError]

/-- The next subject. -/
def next (j : SubjectJoin σ) : Except QueryError (Option Value) × SubjectJoin σ :=
  match j.merge.next with
  | (.error e, merge) => (.error e, ⟨merge⟩)
  | (.ok found, merge) => (.ok (found.map Statement.subject), ⟨merge⟩)

/-- Close every input that has not been closed. -/
def close (j : SubjectJoin σ) : Except QueryError Unit × SubjectJoin σ :=
  let (outcome, merge) := j.merge.close
  (outcome, ⟨merge⟩)

instance : Cursor (SubjectJoin σ) Value QueryError where
  next := next
  close := close
  remaining j := j.merge.load
  remaining_next_le j := by
    have le := Cursor.remaining_next_le j.merge
    change j.merge.next.2.load ≤ _ at le
    unfold next
    split
    · next h => rwa [h] at le
    · next h => rwa [h] at le
  remaining_next_lt j v h := by
    have lt := Cursor.remaining_next_lt j.merge
    change ∀ s, j.merge.next.1 = _ → j.merge.next.2.load < _ at lt
    unfold next at h ⊢
    split at h
    · cases h
    · next found merge hn =>
      rw [hn] at lt
      obtain ⟨s, hs, _⟩ := Option.map_eq_some_iff.mp (Except.ok.inj h)
      exact lt s (congrArg Except.ok hs)

end SubjectJoin

/-- The value of a term that is one. -/
def Term.required (term : Term) (what : String) : Except QueryError Value :=
  match term with
  | .scalar v => .ok v
  | .range r => .error (.invalidArgument s!"{what} must not be a range: {r.display}")
  | .unbound => .error (.invalidArgument s!"{what} must be bound")

namespace Engine

variable {ω σ : Type} [Scanner ω σ] [Cursor σ Row Error]

/-- Open a scan for each predicate. The first that fails closes those opened before. -/
def openPredicates (engine : Engine) (opened : List (Statements σ)) :
    List Value → ω → Opening (List (Statements σ)) (Statements σ) × ω
  | [], store => (⟨.ok opened, []⟩, store)
  | predicate :: predicates, store =>
    match engine.queryIn store .pos (Pattern.ofPredicate predicate) with
    | (.error e, store) => (⟨.error e, Cursor.closeAll opened⟩, store)
    | (.ok input, store) => engine.openPredicates (opened ++ [input]) predicates store

/-- The statements whose object occurs with every one of the predicates. -/
def joinObjects (engine : Engine) (store : ω) (predicates : List Term) :
    Opening (ObjectJoin (Statements σ)) (Statements σ) × ω :=
  let count := predicates.length
  if count < 2 then
    (⟨.error (.invalidArgument s!"merge join needs at least 2 predicates, got {count}"), []⟩, store)
  else
    match predicates.mapM fun term => term.required "predicate" with
    | .error e => (⟨.error e, []⟩, store)
    | .ok predicates =>
      match engine.openPredicates [] predicates store with
      | (⟨.error e, released⟩, store) => (⟨.error e, released⟩, store)
      | (⟨.ok inputs, _⟩, store) => (ObjectJoin.ofInputs engine.codec inputs, store)

/-- The pattern of a pair of predicate and object, from a first subject on if one is given. -/
def pairPattern (pair : Value × Value) (earliest : Option Value) : Pattern :=
  let pattern := Pattern.ofPredicateObject pair.1 pair.2
  match earliest with
  | some subject => { pattern with subject := .range (ValueRange.onward subject) }
  | none => pattern

/-- Open a scan for each pair, from the first subject of the scan before on, since no earlier
subject is in both. The result is `none` if a scan is empty; then, as after a failure, all scans
are closed. -/
def openPairs (engine : Engine) (opened : List (Peekable (Statements σ) Statement))
    (earliest : Option Value) :
    List (Value × Value) → ω →
      Opening (Option (List (Peekable (Statements σ) Statement)))
        (Peekable (Statements σ) Statement) × ω
  | [], store => (⟨.ok (some opened), []⟩, store)
  | pair :: pairs, store =>
    match engine.queryIn store .pos (pairPattern pair earliest) with
    | (.error e, store) => (⟨.error e, Cursor.closeAll opened⟩, store)
    | (.ok statements, store) =>
      match (Peekable.ofCursor statements).peek with
      | (.error e, input) => (⟨.error e, Cursor.closeAll (opened ++ [input])⟩, store)
      | (.ok none, input) => (⟨.ok none, Cursor.closeAll (opened ++ [input])⟩, store)
      | (.ok (some first), input) =>
        engine.openPairs (opened ++ [input]) (some first.subject) pairs store

/-- The subjects that have every one of the pairs of predicate and object. -/
def joinSubjects (engine : Engine) (store : ω) (pairs : List (Term × Term)) :
    Opening (SubjectJoin (Peekable (Statements σ) Statement))
      (Peekable (Statements σ) Statement) × ω :=
  let count := pairs.length
  if count < 2 then
    (⟨.error (.invalidArgument
      s!"merge join needs at least 2 predicate/object pairs, got {count}"), []⟩, store)
  else
    let required : Except QueryError (List (Value × Value)) :=
      pairs.mapM fun (predicate, object) => do
        let predicate ← predicate.required "predicate"
        let object ← object.required "object"
        .ok (predicate, object)
    match required with
    | .error e => (⟨.error e, []⟩, store)
    | .ok pairs =>
      match engine.openPairs [] none pairs store with
      | (⟨.error e, released⟩, store) => (⟨.error e, released⟩, store)
      | (⟨.ok none, released⟩, store) =>
        (⟨.ok ⟨Merge.exhausted .subject engine.codec⟩, released⟩, store)
      | (⟨.ok (some inputs), _⟩, store) =>
        (⟨.ok ⟨Merge.ofInputs .subject engine.codec inputs⟩, []⟩, store)

end Engine

end TripleIndex
