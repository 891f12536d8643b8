/-
  Opening of joins, over any scanner and whatever fails. A join of objects opens its queries one after
  another, up to the first that is refused (`Engine.PredicateSetup`). A join of subjects reads each
  query once before it opens the next one, from the subject that it found onward; it stops at a query
  that is refused, at a read that fails, and at one that finds nothing (`Engine.PairSetup`). Both come
  to one end only (`PredicateSetup.unique`, `PairSetup.unique`). Every cursor that the scanner handed
  out by then is closed once: at the opening if that leads to no join or to an empty one, else with
  the join (`Engine.setup_returns_loans`).

  * `openPredicates_cases`, `openPairs_cases`: how opening the queries ends.
-/
import Mathlib
import TripleIndex.Proofs.Cursor.Reads
import TripleIndex.Proofs.Outcome
import TripleIndex.Proofs.Query.Loan
import TripleIndex.Proofs.Query.Predicate
import TripleIndex.Store.Recorder

namespace TripleIndex

open Cursor (Yields)

namespace Engine

variable {ω σ : Type} [Scanner ω σ] [Cursor σ Row Error]

/-- A query of a join is not opened, with the error of planning or of the scan. What the scanner is
left as is last. -/
inductive Refusal (engine : Engine) (store : ω) (p : Pattern) : QueryError → ω → Prop
  | unregistered : engine.catalog.planner? .pos = none →
      Refusal engine store p (.core (.unsupportedPattern .pos "layout is not registered")) store
  | unplanned {planner : Planner} {e : Error} : engine.catalog.planner? .pos = some planner →
      planner.plan engine.codec p = .error e → Refusal engine store p (.core e) store
  | refused {planner : Planner} {plan : ScanPlan} {e : Error} {last : ω} :
      engine.catalog.planner? .pos = some planner → planner.plan engine.codec p = .ok plan →
      Scanner.scan store plan = (.error e, last) → Refusal engine store p (.core e) last

/-- The statements of a query cannot be read: reading its rows, decoding a row or checking a
statement fails. -/
inductive Unreadable (engine : Engine) (p : Pattern) (input : Statements σ) : QueryError → Prop
  | unread {n : Nat} {e : Error} : Cursor.read input.rows n = .error e →
      Unreadable engine p input (.core e)
  | undecoded {n : Nat} {row : Row} {e : Error} : Cursor.read input.rows n = .ok (some row) →
      engine.format.read .pos row = .error e → Unreadable engine p input (.core e)
  | unchecked {n : Nat} {row : Row} {s : Statement} {e : Error} :
      Cursor.read input.rows n = .ok (some row) → engine.format.read .pos row = .ok s →
      p.matches? engine.codec s = .error e → Unreadable engine p input (.core e)

/-- Queries are opened for predicates in order, each over the scanner as the one before left it. The
first that is refused ends it with its error, and nothing is asked of the scanner after that. -/
inductive PredicateSetup (engine : Engine) : ω → List Value → Except QueryError Unit → ω → Prop
  | all {store : ω} : PredicateSetup engine store [] (.ok ()) store
  | refused {store last : ω} {v : Value} {values : List Value} {e : QueryError} :
      engine.Refusal store (.ofPredicate v) e last →
      PredicateSetup engine store (v :: values) (.error e) last
  | opened {store next last : ω} {v : Value} {values : List Value} {input : Statements σ}
      {outcome : Except QueryError Unit} :
      engine.queryIn store .pos (.ofPredicate v) = (.ok input, next) →
      PredicateSetup engine next values outcome last →
      PredicateSetup engine store (v :: values) outcome last

/-- Queries are opened for pairs in order, each over the scanner as the one before left it, and read
once. If that finds a statement, the next query starts at its subject. If a query is refused or the
read fails, that ends it with the error; if the read finds nothing, that ends it too. Nothing is asked
of the scanner after that. The outcome is whether all queries found something. -/
inductive PairSetup (engine : Engine) :
    Option Value → ω → List (Value × Value) → Except QueryError Bool → ω → Prop
  | all {earliest : Option Value} {store : ω} : PairSetup engine earliest store [] (.ok true) store
  | refused {earliest : Option Value} {store last : ω} {pair : Value × Value}
      {pairs : List (Value × Value)} {e : QueryError} :
      engine.Refusal store (pairPattern pair earliest) e last →
      PairSetup engine earliest store (pair :: pairs) (.error e) last
  | unread {earliest : Option Value} {store last : ω} {pair : Value × Value}
      {pairs : List (Value × Value)} {input : Statements σ} {e : QueryError} :
      engine.queryIn store .pos (pairPattern pair earliest) = (.ok input, last) →
      (Cursor.next input).1 = .error e → engine.Unreadable (pairPattern pair earliest) input e →
      PairSetup engine earliest store (pair :: pairs) (.error e) last
  | empty {earliest : Option Value} {store last : ω} {pair : Value × Value}
      {pairs : List (Value × Value)} {input : Statements σ} :
      engine.queryIn store .pos (pairPattern pair earliest) = (.ok input, last) →
      (Cursor.next input).1 = .ok none →
      PairSetup engine earliest store (pair :: pairs) (.ok false) last
  | found {earliest : Option Value} {store next last : ω} {pair : Value × Value}
      {pairs : List (Value × Value)} {input : Statements σ} {first : Statement}
      {outcome : Except QueryError Bool} :
      engine.queryIn store .pos (pairPattern pair earliest) = (.ok input, next) →
      (Cursor.next input).1 = .ok (some first) →
      PairSetup engine (some first.subject) next pairs outcome last →
      PairSetup engine earliest store (pair :: pairs) outcome last

end Engine

/-! ## Queries that are refused or cannot be read -/

/-- The first look reports what the first read does. -/
theorem Peekable.fst_peek_ofCursor {σ ι ε : Type} [Cursor σ ι ε] (s : σ) :
    (ofCursor s : Peekable σ ι).peek.1 = (Cursor.next s).1 := by
  unfold peek ofCursor
  dsimp only
  split
  · next read => rw [read]
  · next read => rw [read]

namespace Engine

variable {ω σ : Type} [Scanner ω σ] [Cursor σ Row Error] {engine : Engine} {store last : ω}
  {p : Pattern} {e : QueryError}

omit [Cursor σ Row Error] in
/-- A query is refused exactly if it does not open. -/
theorem refusal_iff :
    engine.Refusal store p e last ↔ engine.queryIn store .pos p = (.error e, last) := by
  constructor
  · intro refusal
    unfold queryIn
    cases refusal with
    | unregistered missing => rw [missing]
    | unplanned registered unplanned =>
      rw [registered]
      dsimp only
      rw [unplanned]
    | refused registered planned refused =>
      rw [registered]
      dsimp only
      rw [planned]
      dsimp only
      rw [refused]
  · intro failed
    unfold queryIn at failed
    split at failed
    · next missing =>
      cases failed
      exact .unregistered missing
    · next planner registered =>
      split at failed
      · next e' unplanned =>
        cases failed
        exact .unplanned registered unplanned
      · next plan planned =>
        split at failed
        · next e' last' refused =>
          cases failed
          exact .refused registered planned refused
        · cases failed

/-- A query whose first read fails cannot be read. -/
theorem unreadable_of_next {input : Statements σ}
    (opened : engine.queryIn store .pos p = (.ok input, last))
    (failed : (Cursor.next input).1 = .error e) : engine.Unreadable p input e := by
  obtain ⟨planner, plan, registered, planned, scanned, shape⟩ := queryIn_eq_ok opened
  have isOpen : input.closed = false := by rw [shape]
  have layout : input.layout = .pos := by rw [shape]
  have format : input.format = engine.format := by rw [shape]
  rw [Statements.next_of_open isOpen] at failed
  obtain ⟨n, e', rfl, unread | ⟨row, read, undecoded | ⟨s, decoded, unchecked⟩⟩⟩ :=
    Statements.advance_eq_error failed
  · exact .unread unread
  · rw [layout, format] at undecoded
    exact .undecoded read undecoded
  · rw [layout, format] at decoded
    refine .unchecked read decoded ?_
    rw [shape] at unchecked
    unfold Statements.accepts at unchecked
    split at unchecked
    · next p' residual =>
      split at residual
      · cases residual
        exact unchecked
      · cases residual
    · cases unchecked

/-! ## One end only -/

variable {last' : ω}

omit [Cursor σ Row Error] in
/-- Opening queries for predicates comes to one end only. -/
theorem PredicateSetup.unique {values : List Value} {outcome outcome' : Except QueryError Unit}
    (setup : engine.PredicateSetup store values outcome last)
    (setup' : engine.PredicateSetup store values outcome' last') :
    outcome = outcome' ∧ last = last' := by
  induction setup with
  | all =>
    cases setup'
    exact ⟨rfl, rfl⟩
  | refused refusal =>
    have query := refusal_iff.mp refusal
    cases setup' with
    | refused refusal' =>
      cases query.symm.trans (refusal_iff.mp refusal')
      exact ⟨rfl, rfl⟩
    | opened query' => cases query.symm.trans query'
  | opened query _ ih =>
    cases setup' with
    | refused refusal' => cases query.symm.trans (refusal_iff.mp refusal')
    | opened query' rest =>
      cases query.symm.trans query'
      exact ih rest

/-- Opening queries for pairs comes to one end only. -/
theorem PairSetup.unique {earliest : Option Value} {pairs : List (Value × Value)}
    {outcome outcome' : Except QueryError Bool}
    (setup : engine.PairSetup earliest store pairs outcome last)
    (setup' : engine.PairSetup earliest store pairs outcome' last') :
    outcome = outcome' ∧ last = last' := by
  induction setup with
  | all =>
    cases setup'
    exact ⟨rfl, rfl⟩
  | refused refusal =>
    have query := refusal_iff.mp refusal
    cases setup' with
    | refused refusal' =>
      cases query.symm.trans (refusal_iff.mp refusal')
      exact ⟨rfl, rfl⟩
    | unread query' | empty query' | found query' => cases query.symm.trans query'
  | unread query read =>
    cases setup' with
    | refused refusal' => cases query.symm.trans (refusal_iff.mp refusal')
    | unread query' read' =>
      cases query.symm.trans query'
      cases read.symm.trans read'
      exact ⟨rfl, rfl⟩
    | empty query' read' | found query' read' =>
      cases query.symm.trans query'
      cases read.symm.trans read'
  | empty query read =>
    cases setup' with
    | refused refusal' => cases query.symm.trans (refusal_iff.mp refusal')
    | unread query' read' | found query' read' =>
      cases query.symm.trans query'
      cases read.symm.trans read'
    | empty query' =>
      cases query.symm.trans query'
      exact ⟨rfl, rfl⟩
  | found query read _ ih =>
    cases setup' with
    | refused refusal' => cases query.symm.trans (refusal_iff.mp refusal')
    | unread query' read' | empty query' read' =>
      cases query.symm.trans query'
      cases read.symm.trans read'
    | found query' read' rest =>
      cases query.symm.trans query'
      cases read.symm.trans read'
      exact ih rest

end Engine

/-! ## Loans of queries -/

namespace Engine

variable {ω σ : Type} [Scanner ω σ] [Cursor σ Row Error] {engine : Engine} {w last : Watched ω}
  {p : Pattern}

/-- A query that opens takes out one loan. -/
theorem loan_of_queryIn {input : Statements (Loan σ)}
    (opened : engine.queryIn w .pos p = (.ok input, last)) :
    ∃ n, last.granted = w.granted ++ [n] ∧ Loan.gauge.statements.of input = ((n, 0), false) := by
  obtain ⟨_, plan, _, _, scanned, shape⟩ := queryIn_eq_ok opened
  obtain ⟨granted, fresh⟩ := Watched.scan_eq_ok scanned
  have isOpen : input.closed = false := by rw [shape]
  exact ⟨input.rows.number, granted, Prod.ext (Prod.ext rfl fresh) isOpen⟩

omit [Cursor σ Row Error] in
/-- A query that is refused takes out no loan. -/
theorem granted_of_refusal {e : QueryError} (refusal : engine.Refusal w p e last) :
    last.granted = w.granted := by
  cases refusal with
  | unregistered | unplanned => rfl
  | refused _ _ refused => exact Watched.scan_eq_error refused

/-! ## Queries opened one after another -/

/-- Opening a query for each predicate ends with all of them on loan, or with the error of the first
that fails, and then all are returned. -/
theorem openPredicates_cases {opened : List (Statements (Loan σ))}
    (lent : w.Lends Loan.gauge.statements opened) (predicates : List Value) :
    (∃ inputs last, engine.openPredicates opened predicates w = (⟨.ok inputs, []⟩, last)
      ∧ inputs.length = opened.length + predicates.length
      ∧ engine.PredicateSetup w predicates (.ok ()) last
      ∧ last.Lends Loan.gauge.statements inputs)
    ∨ ∃ e released last, engine.openPredicates opened predicates w = (⟨.error e, released⟩, last)
      ∧ engine.PredicateSetup w predicates (.error e) last
      ∧ last.Returned Loan.gauge.statements released := by
  induction predicates generalizing opened w with
  | nil => exact .inl ⟨opened, w, rfl, rfl, .all, lent⟩
  | cons predicate predicates ih =>
    match query : engine.queryIn w .pos (.ofPredicate predicate) with
    | (.error e, last) =>
      have refusal := refusal_iff.mpr query
      refine .inr ⟨e, _, last, by rw [openPredicates, query], .refused refusal, ?_⟩
      have returned := lent.closeAll fun _ => rfl
      rwa [Watched.Returned, granted_of_refusal refusal]
    | (.ok input, next) =>
      obtain ⟨n, granted, fresh⟩ := loan_of_queryIn query
      have step : engine.openPredicates opened (predicate :: predicates) w
          = engine.openPredicates (opened ++ [input]) predicates next := by
        rw [openPredicates, query]
      rw [step]
      rcases ih (lent.concat granted fresh) with
        ⟨inputs, last, all, count, setup, lent⟩ | ⟨e, released, last, failed, setup, returned⟩
      · refine .inl ⟨inputs, last, all, ?_, .opened query setup, lent⟩
        rw [count, List.length_append, List.length_singleton, List.length_cons]
        omega
      · exact .inr ⟨e, released, last, failed, .opened query setup, returned⟩

/-- Opening a scan for each pair ends with all of them on loan, or with an empty one or the error of
the first that fails, and then all are returned. -/
theorem openPairs_cases {opened : List (Peekable (Statements (Loan σ)) Statement)}
    (lent : w.Lends Loan.gauge.statements.peekable opened) (earliest : Option Value)
    (pairs : List (Value × Value)) :
    (∃ inputs last, engine.openPairs opened earliest pairs w = (⟨.ok (some inputs), []⟩, last)
      ∧ engine.PairSetup earliest w pairs (.ok true) last
      ∧ last.Lends Loan.gauge.statements.peekable inputs)
    ∨ (∃ released last, engine.openPairs opened earliest pairs w = (⟨.ok none, released⟩, last)
      ∧ engine.PairSetup earliest w pairs (.ok false) last
      ∧ last.Returned Loan.gauge.statements.peekable released)
    ∨ ∃ e released last, engine.openPairs opened earliest pairs w = (⟨.error e, released⟩, last)
      ∧ engine.PairSetup earliest w pairs (.error e) last
      ∧ last.Returned Loan.gauge.statements.peekable released := by
  induction pairs generalizing opened earliest w with
  | nil => exact .inl ⟨opened, w, rfl, .all, lent⟩
  | cons pair pairs ih =>
    match query : engine.queryIn w .pos (pairPattern pair earliest) with
    | (.error e, last) =>
      have refusal := refusal_iff.mpr query
      refine .inr (.inr ⟨e, _, last, by rw [openPairs, query], .refused refusal, ?_⟩)
      have returned := lent.closeAll fun _ => rfl
      rwa [Watched.Returned, granted_of_refusal refusal]
    | (.ok statements, next) =>
      obtain ⟨n, granted, fresh⟩ := loan_of_queryIn query
      obtain ⟨outcome, input, look⟩ :
          ∃ outcome input, (Peekable.ofCursor statements).peek = (outcome, input) := ⟨_, _, rfl⟩
      have read : (Cursor.next statements).1 = outcome := by
        rw [← Peekable.fst_peek_ofCursor, look]
      have kept := Gauge.peekable_peek Loan.gauge.statements (Peekable.ofCursor statements)
      rw [look] at kept
      have lent : next.Lends Loan.gauge.statements.peekable (opened ++ [input]) :=
        lent.concat granted (kept.trans fresh)
      cases outcome with
      | error e =>
        refine .inr (.inr ⟨e, _, next, ?_, .unread query read (unreadable_of_next query read),
          lent.closeAll fun _ => rfl⟩)
        rw [openPairs, query]
        simp only [look]
      | ok found =>
        cases found with
        | none =>
          refine .inr (.inl ⟨_, next, ?_, .empty query read, lent.closeAll fun _ => rfl⟩)
          rw [openPairs, query]
          simp only [look]
        | some first =>
          have step : engine.openPairs opened earliest (pair :: pairs) w
              = engine.openPairs (opened ++ [input]) (some first.subject) pairs next := by
            rw [openPairs, query]
            simp only [look]
          rw [step]
          rcases ih lent (some first.subject) with
            ⟨inputs, last, all, setup, lent⟩ | ⟨released, last, none, setup, returned⟩
              | ⟨e, released, last, failed, setup, returned⟩
          · exact .inl ⟨inputs, last, all, .found query read setup, lent⟩
          · exact .inr (.inl ⟨released, last, none, .found query read setup, returned⟩)
          · exact .inr (.inr ⟨e, released, last, failed, .found query read setup, returned⟩)

end Engine

/-! ## Arguments of joins -/

namespace Term

theorem required_eq_ok {term : Term} {what : String} {v : Value}
    (h : term.required what = .ok v) : term = .scalar v := by
  cases term with
  | scalar w =>
    cases h
    rfl
  | range r => cases h
  | unbound => cases h

theorem required_eq_error {term : Term} {what : String} {e : QueryError}
    (h : term.required what = .error e) : ∃ message, e = .invalidArgument message := by
  cases term with
  | scalar v => cases h
  | range r =>
    cases h
    exact ⟨_, rfl⟩
  | unbound =>
    cases h
    exact ⟨_, rfl⟩

end Term

namespace Engine

variable {ω σ : Type} [Scanner ω σ] [Cursor σ Row Error]

/-- Too few terms, or a term that is no value, and nothing is asked of the scanner. -/
theorem joinObjects_rejects (engine : Engine) (store : ω) {terms : List Term}
    (unfit : terms.length < 2 ∨ ∃ term ∈ terms, ∀ v, term ≠ .scalar v) :
    ∃ message, engine.joinObjects store terms
      = (⟨.error (.invalidArgument message), []⟩, store) := by
  unfold joinObjects
  by_cases few : terms.length < 2
  · exact ⟨_, if_pos few⟩
  · obtain ⟨term, mem, noValue⟩ := unfit.resolve_left few
    dsimp only
    rw [if_neg few]
    match required : terms.mapM fun term => term.required "predicate" with
    | .ok values =>
      obtain ⟨v, own⟩ := Outcome.exists_ok_of_mapM required mem
      exact absurd (Term.required_eq_ok own) (noValue v)
    | .error e =>
      obtain ⟨other, -, failed⟩ := Outcome.exists_error_of_mapM required
      obtain ⟨message, rfl⟩ := Term.required_eq_error failed
      exact ⟨message, rfl⟩

/-- Too few pairs, or a pair with a term that is no value, and nothing is asked of the scanner. -/
theorem joinSubjects_rejects (engine : Engine) (store : ω) {pairs : List (Term × Term)}
    (unfit : pairs.length < 2
      ∨ ∃ pair ∈ pairs, (∀ v, pair.1 ≠ .scalar v) ∨ ∀ v, pair.2 ≠ .scalar v) :
    ∃ message, engine.joinSubjects store pairs
      = (⟨.error (.invalidArgument message), []⟩, store) := by
  unfold joinSubjects
  by_cases few : pairs.length < 2
  · exact ⟨_, if_pos few⟩
  · obtain ⟨pair, mem, noValue⟩ := unfit.resolve_left few
    dsimp only
    rw [if_neg few]
    split
    · next e required =>
      obtain ⟨⟨predicate, object⟩, -, failed⟩ := Outcome.exists_error_of_mapM required
      match own : predicate.required "predicate", other : object.required "object" with
      | .error e', _ =>
        rw [own] at failed
        cases failed
        obtain ⟨message, rfl⟩ := Term.required_eq_error own
        exact ⟨message, rfl⟩
      | .ok v, .error e' =>
        rw [own, Outcome.ok_bind, other] at failed
        cases failed
        obtain ⟨message, rfl⟩ := Term.required_eq_error other
        exact ⟨message, rfl⟩
      | .ok v, .ok u =>
        rw [own, Outcome.ok_bind, other] at failed
        cases failed
    · next values required =>
      obtain ⟨value, own⟩ := Outcome.exists_ok_of_mapM required mem
      obtain ⟨v, first, own⟩ := Outcome.bind_eq_ok.mp own
      obtain ⟨u, second, -⟩ := Outcome.bind_eq_ok.mp own
      rcases noValue with noValue | noValue
      · exact absurd (Term.required_eq_ok first) (noValue v)
      · exact absurd (Term.required_eq_ok second) (noValue u)

/-- What opening a join of objects comes to. -/
theorem joinObjects_cases (engine : Engine) (scanner : ω) {values : List Value}
    (several : 2 ≤ values.length) :
    (∃ e released last, engine.joinObjects (Watched.ofScanner scanner) (values.map .scalar)
        = (⟨.error e, released⟩, last)
      ∧ engine.PredicateSetup (Watched.ofScanner scanner) values (.error e) last
      ∧ last.Returned Loan.gauge.statements released)
    ∨ ∃ inputs last, engine.joinObjects (Watched.ofScanner scanner) (values.map .scalar)
        = (⟨.ok ⟨Merge.ofInputs .object engine.codec inputs⟩, []⟩, last)
      ∧ engine.PredicateSetup (Watched.ofScanner scanner) values (.ok ()) last
      ∧ last.Lends Loan.gauge.statements inputs := by
  rcases engine.openPredicates_cases (Watched.lends_ofScanner scanner) values with
    ⟨inputs, last, all, count, setup, lent⟩ | ⟨e, released, last, failed, setup, returned⟩
  · have joins : ¬ inputs.length < 2 := by
      rw [count, List.length_nil, Nat.zero_add]
      exact Nat.not_lt.mpr several
    refine .inr ⟨inputs, last, ?_, setup, lent⟩
    rw [joinObjects_of_openPredicates several all, ObjectJoin.ofInputs, if_neg joins]
  · refine .inl ⟨e, released, last, ?_, setup, returned⟩
    rw [joinObjects_scalars engine _ several, failed]

/-- What opening a join of subjects comes to. -/
theorem joinSubjects_cases (engine : Engine) (scanner : ω) {pairs : List (Value × Value)}
    (several : 2 ≤ pairs.length) :
    let terms := pairs.map fun pair => (Term.scalar pair.1, Term.scalar pair.2)
    (∃ e released last, engine.joinSubjects (Watched.ofScanner scanner) terms
        = (⟨.error e, released⟩, last)
      ∧ engine.PairSetup none (Watched.ofScanner scanner) pairs (.error e) last
      ∧ last.Returned Loan.gauge.statements.peekable released)
    ∨ (∃ released last, engine.joinSubjects (Watched.ofScanner scanner) terms
        = (⟨.ok ⟨Merge.exhausted .subject engine.codec⟩, released⟩, last)
      ∧ engine.PairSetup none (Watched.ofScanner scanner) pairs (.ok false) last
      ∧ last.Returned Loan.gauge.statements.peekable released)
    ∨ ∃ inputs last, engine.joinSubjects (Watched.ofScanner scanner) terms
        = (⟨.ok ⟨Merge.ofInputs .subject engine.codec inputs⟩, []⟩, last)
      ∧ engine.PairSetup none (Watched.ofScanner scanner) pairs (.ok true) last
      ∧ last.Lends Loan.gauge.statements.peekable inputs := by
  intro terms
  rcases engine.openPairs_cases (Watched.lends_ofScanner scanner) none pairs with
    ⟨inputs, last, all, setup, lent⟩ | ⟨released, last, none, setup, returned⟩
      | ⟨e, released, last, failed, setup, returned⟩
  · refine .inr (.inr ⟨inputs, last, ?_, setup, lent⟩)
    rw [joinSubjects_scalars engine _ several, all]
  · refine .inr (.inl ⟨released, last, ?_, setup, returned⟩)
    rw [joinSubjects_scalars engine _ several, none]
  · refine .inl ⟨e, released, last, ?_, setup, returned⟩
    rw [joinSubjects_scalars engine _ several, failed]

/-- Opening a join asks the scanner for one query after another, up to the first that is refused; a
join of subjects also reads each query once before it asks for the next one, and stops where that
fails or finds nothing. If it stops at a refusal or a failure, that error is reported; if at a query
that finds nothing, the join is empty. In both cases every cursor that the scanner handed out is
closed once by then. Else the join reads them all, and they are closed once each by the first call
that closes the join, or when it is let go of. An argument that is not a list of two or more values
asks nothing. -/
theorem setup_returns_loans (engine : Engine) (scanner : ω) :
    let start := Watched.ofScanner scanner
    let plain := (Loan.gauge : Gauge (Loan σ) _).statements
    let ahead := plain.peekable
    (∀ terms : List Term, (terms.length < 2 ∨ ∃ term ∈ terms, ∀ v, term ≠ .scalar v) →
      ∃ message, engine.joinObjects start terms
        = (⟨.error (.invalidArgument message), []⟩, start)) ∧
    (∀ values : List Value, 2 ≤ values.length → ∃ outcome released last,
      engine.joinObjects start (values.map .scalar) = (⟨outcome, released⟩, last) ∧
        match outcome with
        | .error e => engine.PredicateSetup start values (.error e) last
            ∧ last.Returned plain released
        | .ok join => engine.PredicateSetup start values (.ok ()) last
            ∧ released = [] ∧ last.Settles plain fun calls => (join.after calls).merge) ∧
    (∀ pairs : List (Term × Term),
      (pairs.length < 2
        ∨ ∃ pair ∈ pairs, (∀ v, pair.1 ≠ .scalar v) ∨ ∀ v, pair.2 ≠ .scalar v) →
      ∃ message, engine.joinSubjects start pairs
        = (⟨.error (.invalidArgument message), []⟩, start)) ∧
    ∀ pairs : List (Value × Value), 2 ≤ pairs.length → ∃ outcome released last,
      engine.joinSubjects start (pairs.map fun pair => (.scalar pair.1, .scalar pair.2))
          = (⟨outcome, released⟩, last) ∧
        match outcome with
        | .error e => engine.PairSetup none start pairs (.error e) last
            ∧ last.Returned ahead released
        | .ok join =>
          engine.PairSetup none start pairs (.ok false) last ∧ last.Returned ahead released
              ∧ join = ⟨Merge.exhausted .subject engine.codec⟩ ∧ Yields join []
              ∧ (∀ calls, (join.after calls).merge.inputs = [])
            ∨ engine.PairSetup none start pairs (.ok true) last ∧ released = []
              ∧ last.Settles ahead fun calls => (join.after calls).merge := by
  intro start plain ahead
  refine ⟨fun terms => joinObjects_rejects engine start, fun values several => ?_,
    fun pairs => joinSubjects_rejects engine start, fun pairs several => ?_⟩
  · rcases engine.joinObjects_cases scanner several with
      ⟨e, released, last, failed, setup, returned⟩ | ⟨inputs, last, joined, setup, lent⟩
    · exact ⟨_, _, last, failed, setup, returned⟩
    · refine ⟨_, _, last, joined, setup, rfl, ?_⟩
      simp only [ObjectJoin.merge_after]
      exact lent.settles (fun _ => rfl) .object engine.codec
  · rcases engine.joinSubjects_cases scanner several with
      ⟨e, released, last, failed, setup, returned⟩ | ⟨released, last, none, setup, returned⟩
        | ⟨inputs, last, joined, setup, lent⟩
    · exact ⟨_, _, last, failed, setup, returned⟩
    · refine ⟨_, _, last, none, .inl ⟨setup, returned, rfl,
        SubjectJoin.yields_exhausted .subject engine.codec, fun calls => ?_⟩⟩
      rw [SubjectJoin.merge_after]
      exact Merge.inputs_after_exhausted .subject engine.codec calls
    · refine ⟨_, _, last, joined, .inr ⟨setup, rfl, ?_⟩⟩
      simp only [SubjectJoin.merge_after]
      exact lent.settles (fun _ => rfl) .subject engine.codec

/-- A lone predicate; a pair whose object is not given; two predicates of which the second scan is
refused and the first fails to close; two pairs of which nothing is stored for the first; and two
pairs of which the first fails to be read and to close. -/
theorem setup_returns_loans_refused :
    let engine := ofConfig Config.default Codec.standard
    let start := Watched.ofScanner (Recorder.ofStore (Store.empty Config.default)
      [⟨0, false, none, true⟩, ⟨1, true, none, false⟩])
    let failing := Watched.ofScanner (Recorder.ofStore (Store.empty Config.default)
      [⟨0, false, some 0, true⟩])
    let p := Term.scalar (.resource "p")
    let q := Term.scalar (.resource "q")
    let refused := (engine.joinObjects start [p, q]).1
    let empty := (engine.joinSubjects start [(p, q), (q, p)]).1
    let unread := engine.joinSubjects failing [(p, q), (q, p)]
    (∃ message, (engine.joinObjects start [p]).1.outcome = .error (.invalidArgument message)) ∧
      (∃ message, (engine.joinSubjects start [(p, q), (p, .unbound)]).1.outcome
        = .error (.invalidArgument message)) ∧
      refused.outcome = .error (.core (.storage "scan refused")) ∧
      refused.released.map (fun s => s.rows.mark) = [(0, 1)] ∧
      (∃ join, empty.outcome = .ok join ∧ Yields join []) ∧
      empty.released.map (fun s => s.inner.rows.mark) = [(0, 1)] ∧
      unread.1.outcome = .error (.core (.storage "tablet server unavailable")) ∧
      unread.2.requests.length = 1 ∧
      unread.1.released.map (fun s => s.inner.rows.mark) = [(0, 1)] := by
  intro engine start failing p q refused empty unread
  obtain ⟨fewTerms, objects, unboundPairs, subjects⟩ := setup_returns_loans engine start.scanner
  obtain ⟨few, lone⟩ := fewTerms [p] (.inl (by decide))
  obtain ⟨unbound, lacking⟩ := unboundPairs [(p, q), (p, .unbound)]
    (.inr ⟨(p, .unbound), by simp, .inr nofun⟩)
  refine ⟨⟨few, congrArg (fun o => o.1.outcome) lone⟩,
    ⟨unbound, congrArg (fun o => o.1.outcome) lacking⟩, ?_⟩
  have objectsRefused : refused.outcome = .error (.core (.storage "scan refused"))
      ∧ refused.released.map (fun s => s.rows.mark) = [(0, 1)] := by
    obtain ⟨outcome, released, last, opening, ends⟩ :=
      objects [.resource "p", .resource "q"] (Nat.le_refl 2)
    have opened : engine.joinObjects start [p, q] = (⟨outcome, released⟩, last) := opening
    have failed : outcome = .error (.core (.storage "scan refused")) :=
      (congrArg (fun o => o.1.outcome) opened).symm.trans rfl
    have granted : last.granted = [0] := (congrArg (fun o => o.2.granted) opened).symm.trans rfl
    subst failed
    have returned : released.map Loan.gauge.statements.of = [((0, 1), true)] := by
      rw [ends.2, granted]
      rfl
    rw [show refused = ⟨_, released⟩ from congrArg Prod.fst opened]
    exact ⟨rfl, List.map_map.symm.trans (congrArg (List.map Prod.fst) returned)⟩
  have subjectsEmpty : (∃ join, empty.outcome = .ok join ∧ Yields join [])
      ∧ empty.released.map (fun s => s.inner.rows.mark) = [(0, 1)] := by
    obtain ⟨outcome, released, last, opening, ends⟩ :=
      subjects [(.resource "p", .resource "q"), (.resource "q", .resource "p")] (Nat.le_refl 2)
    have opened : engine.joinSubjects start [(p, q), (q, p)] = (⟨outcome, released⟩, last) := opening
    have found : outcome.toBool = true :=
      (congrArg (fun o => o.1.outcome.toBool) opened).symm.trans (by decide +kernel)
    have granted : last.granted = [0] :=
      (congrArg (fun o => o.2.granted) opened).symm.trans (by decide +kernel)
    have count : released.length = 1 :=
      (congrArg (fun o => o.1.released.length) opened).symm.trans (by decide +kernel)
    rw [show empty = ⟨_, released⟩ from congrArg Prod.fst opened]
    cases outcome with
    | error e => cases found
    | ok join =>
      rcases ends with ⟨-, returned, -, yields, -⟩ | ⟨-, bare, -⟩
      · have returned : released.map Loan.gauge.statements.peekable.of = [((0, 1), true)] := by
          rw [returned, granted]
          rfl
        exact ⟨⟨join, rfl, yields⟩, List.map_map.symm.trans (congrArg (List.map Prod.fst) returned)⟩
      · rw [bare] at count
        cases count
  have subjectsUnread : unread.1.outcome = .error (.core (.storage "tablet server unavailable"))
      ∧ unread.1.released.map (fun s => s.inner.rows.mark) = [(0, 1)] := by
    obtain ⟨-, -, -, unreadPairs⟩ := setup_returns_loans engine failing.scanner
    obtain ⟨outcome, released, last, opening, ends⟩ :=
      unreadPairs [(.resource "p", .resource "q"), (.resource "q", .resource "p")] (Nat.le_refl 2)
    have opened : unread = (⟨outcome, released⟩, last) := opening
    have reported : (match outcome with | .error e => some e | .ok _ => none)
        = some (.core (.storage "tablet server unavailable")) :=
      (congrArg (fun o => match o.1.outcome with | .error e => some e | .ok _ => none)
        opened).symm.trans (by decide +kernel)
    have granted : last.granted = [0] :=
      (congrArg (fun o => o.2.granted) opened).symm.trans (by decide +kernel)
    rw [opened]
    cases outcome with
    | ok join => cases reported
    | error e =>
      obtain rfl := Option.some.inj reported
      have returned : released.map Loan.gauge.statements.peekable.of = [((0, 1), true)] := by
        rw [ends.2, granted]
        rfl
      exact ⟨rfl, List.map_map.symm.trans (congrArg (List.map Prod.fst) returned)⟩
  have requests : unread.2.requests.length = 1 := by decide +kernel
  exact ⟨objectsRefused.1, objectsRefused.2, subjectsEmpty.1, subjectsEmpty.2, subjectsUnread.1,
    requests, subjectsUnread.2⟩

end Engine

end TripleIndex
