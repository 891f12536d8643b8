/-
  Planning with hashed keys beside plain planning. A hash in front of every key needs the value of
  the anchor, so a range of anchors is refused. Apart from that the two go through the positions
  alike (`boundFields_hashed`) and encode the same values one after the other
  (`interval_of_scalar`), and they end at the same bounds, one of them behind the hash of the anchor.

  * `KeyInterval.contains_behind`: which keys an interval behind a field holds.
  * `Planner.boundsFrom_behind`: a field in front of those collected stays in front of the bounds.
  * `RowFormat.write_hashed`: the row of a statement with hashed keys and its plain row.
  * `Planner.hashed_simulates`: answers, errors, bounds and the rows within, all together.
-/
import Mathlib
import TripleIndex.Proofs.Planner

namespace TripleIndex

open Outcome (bind_eq_ok ok_bind error_bind map_ok map_error)

/-! ## Hashes -/

/-- What keys take of a hash: 64 bytes, none of them a delimiter. -/
def Key.IsHash (hash : Bytes → Bytes) : Prop :=
  ∀ anchor, (hash anchor).length = 64 ∧ ∀ b ∈ hash anchor, delimiter < b

theorem Key.isHash_anchorHash : IsHash anchorHash := by
  intro anchor
  refine ⟨?_, (isField_anchorHash anchor).delimiter_lt⟩
  rw [anchorHash, Text.Hex.length_encode, Hash.Sha256.length_digest]

/-! ## Intervals behind a field -/

/-- The interval behind a field that stands in front of every key. -/
def KeyInterval.behind (field : Bytes) (r : KeyInterval) : KeyInterval :=
  ⟨field ++ Key.delimiter :: r.start, field ++ Key.delimiter :: r.stop⟩

/-- An interval behind a field holds the keys that start with that field and go on with a key of the
interval. That other fields may be a start of this one, or the other way round, does not count. -/
theorem KeyInterval.contains_behind {r : KeyInterval} {front field key : Bytes}
    (hfront : ∀ b ∈ front, Key.delimiter < b) (hfield : ∀ b ∈ field, Key.delimiter < b) :
    (r.behind front).contains (field ++ Key.delimiter :: key) = true ↔
      front = field ∧ r.contains key = true := by
  have tail (rest : Bytes) := Bytes.isTail_cons Key.delimiter rest
  have next (a b : Bytes) : Key.delimiter :: a < Key.delimiter :: b ↔ a < b :=
    Bytes.append_lt_append_iff [Key.delimiter] a b
  rw [Key.contains_iff, Key.contains_iff, behind, ← List.not_lt, ← List.not_lt,
    Bytes.append_tail_lt_iff hfield hfront (tail _) (tail _),
    Bytes.append_tail_lt_iff hfield hfront (tail _) (tail _), next, next]
  grind

theorem Key.leadingBounds_cons {front : List Bytes} (ne : front ≠ []) (field : Bytes)
    (complete : Bool) :
    Key.leadingBounds (field :: front) complete = (Key.leadingBounds front complete).behind field := by
  unfold Key.leadingBounds KeyInterval.behind
  rw [Key.join_cons ne]
  cases complete <;> simp

theorem Key.spanBounds_cons {front : List Bytes} (ne : front ≠ []) (field : Bytes)
    (range : FieldRange) (back : List Bytes) :
    Key.spanBounds (field :: front) range back = (Key.spanBounds front range back).behind field := by
  unfold Key.spanBounds KeyInterval.behind
  rw [Key.join_cons ne, if_neg ne, if_neg (List.cons_ne_nil _ _)]
  simp

/-! ## Rows -/

/-- With hashed keys a statement is written if it is written without, and its key is then the plain
one behind the hash of its anchor. -/
theorem RowFormat.write_hashed (c : Codec) (layout : Layout) (s : Statement) :
    (∀ e, (⟨c, true⟩ : RowFormat).write layout s = .error e ↔
        (⟨c, false⟩ : RowFormat).write layout s = .error e)
      ∧ ∀ row, (⟨c, false⟩ : RowFormat).write layout s = .ok row → ∃ anchor,
        (⟨c, false⟩ : RowFormat).field layout s layout.anchor = .ok anchor
          ∧ (⟨c, true⟩ : RowFormat).write layout s
            = .ok { row with key := Key.anchorHash anchor ++ Key.delimiter :: row.key } := by
  refine ⟨fun e => write_eq_error_iff, fun row written => ?_⟩
  obtain ⟨fields, keyed, later⟩ := bind_eq_ok.mp written
  obtain ⟨family, grouped, last⟩ := bind_eq_ok.mp later
  cases last
  obtain ⟨anchor, rest, hanchor, _, rfl⟩ :=
    List.forall₂_cons_left_iff.mp (Outcome.mapM_eq_ok.mp keyed)
  refine ⟨anchor, hanchor, ?_⟩
  have keyed : layout.fields.mapM ((⟨c, true⟩ : RowFormat).field layout s) = .ok (anchor :: rest) :=
    keyed
  have grouped : (⟨c, true⟩ : RowFormat).family layout s = .ok family := grouped
  rw [write, keyed, ok_bind, grouped, ok_bind]
  simp [key, Key.join_cons]

namespace Planner

variable {c : Codec} {p : Pattern} {layout : Layout} {position : Position}
  {positions : List Position} {seen next : Progress}

/-! ## Bound positions -/

/-- Behind a bound position, and at any position without a range, hashing makes no difference. -/
theorem advance_hashed (h : seen.bound ≠ 0 ∨ (p.term position).isRange = false) :
    seen.advance true p position = seen.advance false p position := by
  unfold Progress.advance
  rcases h with started | scalar
  · simp [started]
  · simp [scalar]

theorem bound_le_of_advance {hashedKeys : Bool}
    (advanced : seen.advance hashedKeys p position = .ok next) : seen.bound ≤ next.bound := by
  unfold Progress.advance at advanced
  grind

/-- At the anchor only a bound position lets a walk through the layout go on. -/
theorem bound_of_advance_start {hashedKeys : Bool}
    (advanced : Progress.advance hashedKeys p ⟨0, none, none⟩ position = .ok next) :
    next.bound = 1 := by
  unfold Progress.advance at advanced
  grind

theorem foldlM_advance_hashed (started : seen.bound ≠ 0) :
    positions.foldlM (Progress.advance true p) seen
      = positions.foldlM (Progress.advance false p) seen := by
  induction positions generalizing seen with
  | nil => rfl
  | cons position positions ih =>
    rw [List.foldlM_cons, List.foldlM_cons, advance_hashed (.inl started)]
    cases advanced : seen.advance false p position with
    | error refusal => rfl
    | ok next =>
      have le := bound_le_of_advance advanced
      exact ih (by omega)

/-- The anchor is met first. -/
theorem boundFields_eq (planner : Planner) (p : Pattern) : planner.boundFields p
    = (Progress.advance planner.hashedKeys p ⟨0, none, none⟩ planner.layout.anchor >>=
      planner.layout.positions.2.foldlM (Progress.advance planner.hashedKeys p)).map
        Progress.bound := by
  unfold boundFields Layout.fields
  rw [List.foldlM_cons]
  rfl

/-- If the anchor is not a range, hashing makes no difference to which positions are bound. -/
theorem boundFields_hashed (scalar : (p.term layout.anchor).isRange = false) :
    (⟨layout, true⟩ : Planner).boundFields p = (⟨layout, false⟩ : Planner).boundFields p := by
  rw [boundFields_eq, boundFields_eq]
  dsimp only
  rw [advance_hashed (.inr scalar)]
  cases advanced : Progress.advance false p ⟨0, none, none⟩ layout.anchor with
  | error refusal => rfl
  | ok next =>
    have one := bound_of_advance_start advanced
    rw [ok_bind, ok_bind, foldlM_advance_hashed (by omega)]

/-- A range of anchors is refused if keys are hashed. -/
theorem boundFields_hashed_of_range (range : (p.term layout.anchor).isRange = true) :
    ∃ refusal, (⟨layout, true⟩ : Planner).boundFields p = .error refusal := by
  have refused : ∃ refusal,
      Progress.advance true p ⟨0, none, none⟩ layout.anchor = .error refusal := by
    unfold Progress.advance
    cases term : p.term layout.anchor with
    | unbound => simp [term, Term.isRange] at range
    | scalar v => simp [term, Term.isRange] at range
    | range r =>
      simp only [Term.isBound, Term.isRange, if_true]
      split
      · exact ⟨_, rfl⟩
      · exact ⟨_, rfl⟩
  obtain ⟨refusal, refused⟩ := refused
  rw [boundFields_eq]
  dsimp only
  rw [refused]
  exact ⟨refusal, rfl⟩

/-- With hashed keys a layout answers what it answers without, ranges of anchors apart. -/
theorem answers_hashed_iff : (⟨layout, true⟩ : Planner).answers p = true ↔
    (⟨layout, false⟩ : Planner).answers p = true ∧ (p.term layout.anchor).isRange = false := by
  rw [answers_iff, answers_iff]
  cases range : (p.term layout.anchor).isRange with
  | true =>
    obtain ⟨refusal, refused⟩ := boundFields_hashed_of_range range
    simp [refused]
  | false => simp [boundFields_hashed range]

/-! ## Bounds -/

/-- A field in front of the fields that are collected stays in front of the bounds. -/
theorem boundsFrom_behind (c : Codec) (p : Pattern) (complete : Bool) (first : Bytes)
    {front : List Bytes} (ne : front ≠ []) (hashedKeys hashedKeys' : Bool)
    (positions : List Position) :
    boundsFrom c p complete hashedKeys (first :: front) positions
      = (boundsFrom c p complete hashedKeys' front positions).map (KeyInterval.behind first) := by
  induction positions generalizing front with
  | nil => simp only [boundsFrom, Key.leadingBounds_cons ne, map_ok]
  | cons position positions ih =>
    rw [boundsFrom, boundsFrom]
    cases p.term position with
    | unbound => simp only [Key.leadingBounds_cons ne, map_ok]
    | scalar v =>
      dsimp only
      cases encoded : c.encodeField position v with
      | error e => rw [error_bind, error_bind, map_error]
      | ok field =>
        have more : front ++ [field] ≠ [] := List.append_ne_nil_of_left_ne_nil ne [field]
        simpa [ne] using ih more
    | range r =>
      dsimp only
      cases encoded : r.encode c position with
      | error e => rw [error_bind, error_bind, map_error]
      | ok range => simp only [ok_bind, Key.spanBounds_cons ne, map_ok]

/-- What a plan does whose anchor is a value: it encodes the anchor, and goes on behind it. -/
theorem interval_of_scalar {planner : Planner} {n : Nat} (bound : planner.boundFields p = .ok n)
    {v : Value} (scalar : p.term planner.layout.anchor = .scalar v) :
    planner.interval c p = c.encodeField planner.layout.anchor v >>= fun anchor =>
      boundsFrom c p (n = planner.layout.fields.length) planner.hashedKeys
        ((if planner.hashedKeys then [Key.anchorHash anchor] else []) ++ [anchor])
        (planner.layout.positions.2.take (n - 1)) := by
  obtain ⟨front, back, last, fields, length, ne, _⟩ := boundFields_eq_ok bound
  obtain ⟨m, rfl⟩ : ∃ m, n = m + 1 :=
    Nat.exists_eq_succ_of_ne_zero fun zero => ne (List.eq_nil_of_length_eq_zero (length ▸ zero))
  have taken : planner.layout.fields.take (m + 1)
      = planner.layout.anchor :: planner.layout.positions.2.take m := rfl
  unfold interval
  rw [bound]
  simp only [taken, boundsFrom, scalar, List.nil_append, true_and, Nat.add_sub_cancel]

/-- If a layout with hashed keys answers a pattern, the pattern has a value at the anchor. -/
theorem exists_scalar_of_answers (answers : (⟨layout, true⟩ : Planner).answers p = true) :
    ∃ v, p.term layout.anchor = .scalar v := by
  obtain ⟨n, bound⟩ := answers_iff.mp answers
  obtain ⟨front, back, last, fields, _, ne, met⟩ := boundFields_eq_ok bound
  obtain ⟨q, rest, rfl⟩ := List.exists_cons_of_ne_nil ne
  have anchor : layout.anchor = q := (List.cons.inj fields).1
  have isBound := met.bound q List.mem_cons_self
  have scalar := (answers_hashed_iff.mp answers).2
  rw [← anchor] at isBound
  cases term : p.term layout.anchor with
  | unbound => simp [term, Term.isBound] at isBound
  | scalar v => exact ⟨v, rfl⟩
  | range r => simp [term, Term.isRange] at scalar

/-- The plan of a layout with hashed keys is the plain one behind the hash of the anchor, or fails as
it does. -/
theorem interval_hashed (c : Codec) (answers : (⟨layout, true⟩ : Planner).answers p = true) :
    (∀ e, (⟨layout, true⟩ : Planner).interval c p = .error e ↔
        (⟨layout, false⟩ : Planner).interval c p = .error e)
      ∧ ∀ range, (⟨layout, false⟩ : Planner).interval c p = .ok range → ∃ v anchor,
        p.term layout.anchor = .scalar v ∧ c.encodeField layout.anchor v = .ok anchor
          ∧ (⟨layout, true⟩ : Planner).interval c p
            = .ok (range.behind (Key.anchorHash anchor)) := by
  obtain ⟨n, bound⟩ := answers_iff.mp answers
  obtain ⟨v, scalar⟩ := exists_scalar_of_answers answers
  have plain := (boundFields_hashed (answers_hashed_iff.mp answers).2).symm.trans bound
  rw [interval_of_scalar bound scalar, interval_of_scalar plain scalar]
  dsimp only
  cases encoded : c.encodeField layout.anchor v with
  | error e => simp
  | ok anchor =>
    simp only [ok_bind, if_true, List.singleton_append, Bool.false_eq_true, if_false,
      List.nil_append]
    rw [boundsFrom_behind c p _ _ (List.cons_ne_nil anchor []) true false]
    cases boundsFrom c p _ false [anchor] _ with
    | error e => simp
    | ok range =>
      simp only [map_ok, reduceCtorEq, implies_true, true_and, Except.ok.injEq, forall_eq']
      exact ⟨v, anchor, scalar, encoded, rfl⟩

/-! ## Rows within the bounds -/

/-- Behind the hashes of its anchor and of a row's, an interval holds the row exactly if it does so
without, whatever the hash. A row within it has the anchor that it asks for, and so the same hash;
that a row with another anchor may have that hash too changes nothing, since the interval is asked in
any case. -/
theorem contains_hashed_iff {hash : Bytes → Bytes} (isHash : Key.IsHash hash) {range : KeyInterval}
    (planned : (⟨layout, false⟩ : Planner).interval Codec.standard p = .ok range)
    {v : Value} (scalar : p.term layout.anchor = .scalar v) {wanted found : Bytes}
    (encoded : Codec.standard.encodeField layout.anchor v = .ok wanted) {s : Statement} {row : Row}
    (written : (⟨Codec.standard, false⟩ : RowFormat).write layout s = .ok row)
    (own : (⟨Codec.standard, false⟩ : RowFormat).field layout s layout.anchor = .ok found) :
    (range.behind (hash wanted)).contains (hash found ++ Key.delimiter :: row.key) = true ↔
      range.contains row.key = true := by
  rw [KeyInterval.contains_behind (isHash wanted).2 (isHash found).2]
  refine and_iff_right_of_imp fun inside => ?_
  obtain ⟨field, encodes, takes, rfl⟩ := RowFormat.eq_rowOf_of_write written
  have first : layout.anchor ∈ layout.fields := List.mem_cons_self
  have accepts := (interval_contains_iff planned encodes.isField).mp inside layout.anchor first
  rw [RowFormat.field_of_encodes encodes takes first] at own
  rw [scalar, Term.accepts_scalar encoded] at accepts
  rw [accepts, Except.ok.inj own]

/-- Planning with hashed keys follows plain planning. For every codec, the layout answers a pattern
with hashed keys exactly if it does without and the anchor is not a range; the plan then fails with
the errors of the plain one, and otherwise its bounds are the plain ones behind the hash of the
anchor. With the standard codec a statement is written with hashed keys exactly if it is written
without, and the bounds of a plan hold the one row exactly if the plain ones hold the other. They do
so with any hash of 64 bytes without a delimiter, also where two anchors have the same one. -/
theorem hashed_simulates (c : Codec) (layout : Layout) (p : Pattern) :
    let hashed : Planner := ⟨layout, true⟩
    let plain : Planner := ⟨layout, false⟩
    (hashed.answers p = true ↔ plain.answers p = true ∧ (p.term layout.anchor).isRange = false)
      ∧ (hashed.answers p = true →
        (∀ e, hashed.interval c p = .error e ↔ plain.interval c p = .error e)
          ∧ ∀ range, plain.interval c p = .ok range → ∃ v wanted,
            p.term layout.anchor = .scalar v ∧ c.encodeField layout.anchor v = .ok wanted
              ∧ hashed.interval c p = .ok (range.behind (Key.anchorHash wanted)))
      ∧ ∀ s,
        (∀ e, (⟨Codec.standard, true⟩ : RowFormat).write layout s = .error e ↔
            (⟨Codec.standard, false⟩ : RowFormat).write layout s = .error e)
          ∧ ∀ row, (⟨Codec.standard, false⟩ : RowFormat).write layout s = .ok row → ∃ found row',
            (⟨Codec.standard, false⟩ : RowFormat).field layout s layout.anchor = .ok found
              ∧ (⟨Codec.standard, true⟩ : RowFormat).write layout s = .ok row'
              ∧ row'.key = Key.anchorHash found ++ Key.delimiter :: row.key
              ∧ (∀ range range', plain.interval Codec.standard p = .ok range →
                hashed.interval Codec.standard p = .ok range' →
                (range'.contains row'.key = true ↔ range.contains row.key = true))
              ∧ ∀ hash, Key.IsHash hash → ∀ range v wanted,
                plain.interval Codec.standard p = .ok range → p.term layout.anchor = .scalar v →
                Codec.standard.encodeField layout.anchor v = .ok wanted →
                ((range.behind (hash wanted)).contains (hash found ++ Key.delimiter :: row.key) = true
                  ↔ range.contains row.key = true) := by
  intro hashed plain
  refine ⟨answers_hashed_iff, interval_hashed c, fun s => ?_⟩
  obtain ⟨errors, rows⟩ := RowFormat.write_hashed Codec.standard layout s
  refine ⟨errors, fun row written => ?_⟩
  obtain ⟨found, own, written'⟩ := rows row written
  refine ⟨found, _, own, written', rfl, fun range range' planned planned' => ?_,
    fun hash isHash range v wanted planned scalar encoded =>
      contains_hashed_iff isHash planned scalar encoded written own⟩
  have answers : hashed.answers p = true := answers_of_interval planned'
  obtain ⟨v, wanted, scalar, encoded, behind⟩ :=
    (interval_hashed Codec.standard answers).2 range planned
  obtain rfl := Except.ok.inj (behind.symm.trans planned')
  exact contains_hashed_iff Key.isHash_anchorHash planned scalar encoded written own

/-- A range of objects behind a predicate, with the end that is left out in another spelling. The
statement of its first number has its hashed row within the bounds of the hashed plan. -/
theorem hashed_simulates_range :
    let p : Pattern := { Pattern.ofPredicate (.resource "p") with
      object := .range ⟨.literal "1" Xsd.integer, .literal "007" Xsd.integer, true, false⟩ }
    let s := Statement.triple (.resource "a") (.resource "p") (.literal "1" Xsd.integer)
    (⟨.pos, true⟩ : Planner).answers p = true
      ∧ ∃ range row, (⟨.pos, true⟩ : Planner).interval Codec.standard p = .ok range
        ∧ (⟨Codec.standard, true⟩ : RowFormat).write .pos s = .ok row
        ∧ range.contains row.key = true := by
  intro p s
  have answered : (⟨.pos, false⟩ : Planner).answers p = true := by decide +kernel
  let number (digit : UInt8) : Bytes := 0x38 :: List.replicate 14 0x30 ++ [digit, 0x01, 0x05]
  have planned : (⟨.pos, false⟩ : Planner).interval Codec.standard p
      = .ok ⟨[0x70, 0x00] ++ number 0x31, [0x70, 0x00] ++ number 0x37⟩ := by decide +kernel
  have written : (⟨Codec.standard, false⟩ : RowFormat).write .pos s
      = .ok ⟨[0x70, 0x00] ++ number 0x31 ++ [0x00, 0x61], [], [], none⟩ := by decide +kernel
  obtain ⟨answers, plans, rows⟩ := hashed_simulates Codec.standard .pos p
  have answers' := answers.mpr ⟨answered, rfl⟩
  obtain ⟨_, _, _, _, planned'⟩ := (plans answers').2 _ planned
  obtain ⟨_, row, _, written', _, same, _⟩ := (rows s).2 _ written
  exact ⟨answers', _, row, planned', written',
    (same _ _ planned planned').mpr (by decide +kernel)⟩

end Planner

end TripleIndex
