/-
  Plans. A layout answers a pattern if the bound positions are the first of the layout and only the
  last of them is a range (`boundFields_eq_ok`), and the interval of keys then holds exactly the
  keys whose fields the terms accept (`boundsFrom_contains`).

  * `met_advance`: one more position of the layout.
  * `asked_iff`: which rows of a layout a plan asks for.
  * `interval_exact`: which rows of statements lie in the interval.
-/
import Mathlib
import TripleIndex.Planner
import TripleIndex.Proofs.Pattern
import TripleIndex.Proofs.Store.Ledger

namespace TripleIndex.Planner

open Outcome (bind_eq_ok map_eq_ok ok_bind)
open RowFormat (applies)

/-! ## Bound positions -/

/-- What the positions met so far are: the bound ones in front, then the unbound ones. -/
structure Met (hashedKeys : Bool) (p : Pattern) (front back : List Position) (seen : Progress) :
    Prop where
  count : seen.bound = front.length
  bound : ∀ q ∈ front, (p.term q).isBound = true
  unbound : ∀ q ∈ back, (p.term q).isBound = false
  gap : seen.gap = none ↔ back = []
  started : back ≠ [] → front ≠ []
  scalars : ∀ q ∈ front.dropLast, (p.term q).isRange = false
  range : seen.range = none → ∀ q ∈ front, (p.term q).isRange = false
  anchor : hashedKeys = true → ∀ q, front = [q] → (p.term q).isRange = false

variable {hashedKeys : Bool} {p : Pattern} {front back : List Position}

theorem met_nil : Met hashedKeys p [] [] ⟨0, none, none⟩ where
  count := rfl
  bound := nofun
  unbound := nofun
  gap := ⟨fun _ => rfl, fun _ => rfl⟩
  started h := absurd rfl h
  scalars := nofun
  range _ := nofun
  anchor _ _ := nofun

theorem forall_mem_concat {α : Type} {P : α → Prop} {xs : List α} {x : α} (all : ∀ y ∈ xs, P y)
    (last : P x) : ∀ y ∈ xs ++ [x], P y := by
  intro y hy
  rcases List.mem_append.mp hy with hy | hy
  · exact all y hy
  · rw [List.mem_singleton.mp hy]
    exact last

theorem mem_dropLast_append {q position : Position} (h : q ∈ (front ++ [position]).dropLast) :
    q ∈ front := by
  rwa [List.dropLast_concat] at h

section Advance

variable {seen : Progress} {position : Position}

/-- A range goes to the front, if nothing unbound and no other range was met. -/
theorem Met.range_concat (h : Met hashedKeys p front [] seen) (range : seen.range = none)
    (bound : (p.term position).isBound = true) (anchored : ¬ (seen.bound = 0 ∧ hashedKeys = true)) :
    Met hashedKeys p (front ++ [position]) []
      { seen with bound := seen.bound + 1, range := some position } where
  count := by simp [h.count]
  bound := forall_mem_concat h.bound bound
  unbound := nofun
  gap := h.gap
  started ne := absurd rfl ne
  scalars q hq := h.range range q (mem_dropLast_append hq)
  range := nofun
  anchor := by
    intro hashed q single
    have empty : front = [] := by
      cases front with
      | nil => rfl
      | cons a front => simp at single
    exact absurd ⟨by rw [h.count, empty]; rfl, hashed⟩ anchored

/-- A scalar goes to the front, if nothing unbound and no range was met. -/
theorem Met.scalar_concat (h : Met hashedKeys p front [] seen) (range : seen.range = none)
    (bound : (p.term position).isBound = true) (scalar : (p.term position).isRange = false) :
    Met hashedKeys p (front ++ [position]) [] { seen with bound := seen.bound + 1 } where
  count := by simp [h.count]
  bound := forall_mem_concat h.bound bound
  unbound := nofun
  gap := h.gap
  started ne := absurd rfl ne
  scalars q hq := h.range range q (mem_dropLast_append hq)
  range _ := forall_mem_concat (h.range range) scalar
  anchor _ q single :=
    forall_mem_concat (h.range range) scalar q (single ▸ List.mem_singleton_self q)

/-- An unbound position goes to the back, if a bound one was met. -/
theorem Met.unbound_concat (h : Met hashedKeys p front back seen)
    (unbound : (p.term position).isBound = false) (some : seen.bound ≠ 0) :
    Met hashedKeys p front (back ++ [position])
      { seen with gap := seen.gap.or (.some position) } where
  count := h.count
  bound := h.bound
  unbound := forall_mem_concat h.unbound unbound
  gap := by cases seen.gap <;> simp
  started := by
    rintro _ rfl
    exact some h.count
  scalars := h.scalars
  range := h.range
  anchor := h.anchor

/-- One more position keeps the bound ones in front. -/
theorem met_advance {next : Progress} (h : Met hashedKeys p front back seen)
    (advanced : seen.advance hashedKeys p position = .ok next) :
    ∃ front' back', front' ++ back' = front ++ back ++ [position]
      ∧ Met hashedKeys p front' back' next := by
  unfold Progress.advance at advanced
  simp only at advanced
  split at advanced
  · next bound =>
    split at advanced
    · cases advanced
    · split at advanced
      · cases advanced
      · cases advanced
      · next gap range =>
        obtain rfl : back = [] := h.gap.mp gap
        refine ⟨front ++ [position], [], by simp, ?_⟩
        split at advanced
        · split at advanced
          · cases advanced
          · next anchored =>
            rw [← Except.ok.inj advanced]
            exact h.range_concat range bound anchored
        · next scalar =>
          rw [← Except.ok.inj advanced]
          exact h.scalar_concat range bound (Bool.eq_false_iff.mpr scalar)
  · next unbound =>
    split at advanced
    · cases advanced
    · next some =>
      rw [← Except.ok.inj advanced]
      exact ⟨front, back ++ [position], by simp,
        h.unbound_concat (Bool.eq_false_iff.mpr unbound) some⟩

end Advance

theorem met_foldlM {seen last : Progress} {positions : List Position}
    (h : Met hashedKeys p front back seen)
    (met : positions.foldlM (Progress.advance hashedKeys p) seen = .ok last) :
    ∃ front' back', front' ++ back' = front ++ back ++ positions
      ∧ Met hashedKeys p front' back' last := by
  induction positions generalizing front back seen with
  | nil =>
    rw [← Except.ok.inj met]
    exact ⟨front, back, by simp, h⟩
  | cons position positions ih =>
    rw [List.foldlM_cons] at met
    obtain ⟨next, advanced, met⟩ := bind_eq_ok.mp met
    obtain ⟨front', back', e, h'⟩ := met_advance h advanced
    obtain ⟨front'', back'', e', h''⟩ := ih h' met
    exact ⟨front'', back'', by rw [e', e]; simp, h''⟩

/-- A layout that answers a pattern starts with the bound positions, of which only the last may be a
range; a range is not the first if keys are hashed. -/
theorem boundFields_eq_ok {planner : Planner} {n : Nat} (h : planner.boundFields p = .ok n) :
    ∃ front back last, planner.layout.fields = front ++ back ∧ n = front.length ∧ front ≠ []
      ∧ Met planner.hashedKeys p front back last := by
  obtain ⟨last, met, rfl⟩ := map_eq_ok.mp h
  obtain ⟨front, back, e, h⟩ := met_foldlM met_nil met
  rw [List.nil_append, List.nil_append] at e
  refine ⟨front, back, last, e.symm, h.count, ?_, h⟩
  rintro rfl
  have none : back = [] := by_contra fun ne => h.started ne rfl
  rw [none] at e
  exact planner.layout.fields_ne_nil e.symm

theorem answers_iff {planner : Planner} :
    planner.answers p = true ↔ ∃ n, planner.boundFields p = .ok n := by
  unfold answers
  cases planner.boundFields p <;> simp

/-! ## Intervals -/

variable {format : RowFormat}

/-- The fields in front of a key as a plan collects them: none, or behind their hash. -/
def lead (format : RowFormat) (fields : List Bytes) : List Bytes :=
  if fields = [] then [] else format.keyFields fields

theorem lead_eq {fields : List Bytes} (h : fields ≠ [] ∨ format.hashedKeys = false) :
    lead format fields = format.keyFields fields := by
  unfold lead
  split
  · next empty =>
    rw [empty] at h ⊢
    have plain := h.resolve_left (absurd rfl)
    simp [RowFormat.keyFields, plain]
  · rfl

/-- One more field behind the fields collected so far. -/
theorem lead_concat (format : RowFormat) (fields : List Bytes) (field : Bytes) :
    lead format fields
      ++ (if lead format fields = [] ∧ format.hashedKeys = true then [Key.anchorHash field] else [])
      ++ [field] = lead format (fields ++ [field]) := by
  have ne : fields ++ [field] ≠ [] := List.append_ne_nil_of_right_ne_nil fields (by simp)
  rw [lead_eq (.inl ne)]
  by_cases empty : fields = []
  · subst empty
    unfold lead RowFormat.keyFields
    cases format.hashedKeys <;> simp
  · rw [lead_eq (.inl empty), if_neg (fun h => RowFormat.keyFields_ne_nil empty h.1),
      List.append_nil, RowFormat.keyFields_append (.inl empty)]

theorem mem_dropLast_cons {q position : Position} {positions : List Position}
    (h : q ∈ positions.dropLast) : q ∈ (position :: positions).dropLast := by
  cases positions with
  | nil => cases h
  | cons next positions => exact List.mem_cons_of_mem _ h

/-- A range comes last if all positions before the last are no ranges. -/
theorem eq_nil_of_range {position : Position} {positions : List Position} {r : ValueRange}
    (range : p.term position = .range r)
    (scalars : ∀ q ∈ (position :: positions).dropLast, (p.term q).isRange = false) :
    positions = [] := by
  cases positions with
  | nil => rfl
  | cons next positions =>
    have scalar := scalars position List.mem_cons_self
    rw [range] at scalar
    cases scalar

theorem isField_of_encodeField {position : Position} {v : Value} {f : Bytes}
    (h : Codec.standard.encodeField position v = .ok f) : Key.IsField f :=
  fun b hb => ⟨Codec.delimiter_lt h b hb, Codec.lt_ceiling h b hb⟩

theorem isField_keyFields_append {found back : List Bytes} (hfound : ∀ f ∈ found, Key.IsField f)
    (hback : ∀ f ∈ back, Key.IsField f) : ∀ f ∈ format.keyFields found ++ back, Key.IsField f := by
  intro f hf
  rcases List.mem_append.mp hf with hf | hf
  · exact RowFormat.isField_keyFields hfound f hf
  · exact hback f hf

/-- The bounds of the fields collected so far, when no bound position is left. -/
theorem leadingBounds_lead {wanted found back : List Bytes} {complete : Bool} (ne : wanted ≠ [])
    (whole : complete = true ↔ back = []) (hwanted : ∀ f ∈ wanted, Key.IsField f)
    (hfound : ∀ f ∈ found, Key.IsField f) (hback : ∀ f ∈ back, Key.IsField f)
    (length : wanted.length = found.length) :
    (Key.leadingBounds (lead format wanted) complete).contains (format.key (found ++ back)) = true ↔
      wanted = found := by
  have ne' : found ≠ [] := fun empty =>
    ne (List.eq_nil_of_length_eq_zero (by rw [length, empty]; rfl))
  have length' : (format.keyFields wanted).length = (format.keyFields found).length :=
    RowFormat.length_keyFields length
  have short : if complete = true then
      (format.keyFields wanted).length = (format.keyFields found ++ back).length
      else (format.keyFields wanted).length < (format.keyFields found ++ back).length := by
    rw [List.length_append, length']
    split
    · next all => rw [whole.mp all, List.length_nil, Nat.add_zero]
    · next part =>
      have := List.length_pos_of_ne_nil fun empty => part (whole.mpr empty)
      omega
  rw [lead_eq (.inl ne), RowFormat.key_eq, RowFormat.keyFields_append (.inl ne'),
    Key.leadingBounds_contains (RowFormat.isField_keyFields hwanted)
      (isField_keyFields_append hfound hback) (RowFormat.keyFields_ne_nil ne) short]
  constructor
  · intro front
    exact RowFormat.keyFields_inj.mp ((List.prefix_of_prefix_length_le front
      (List.prefix_append _ _) (Nat.le_of_eq length')).eq_of_length length')
  · rintro rfl
    exact List.prefix_append _ _

/-- The bounds of a range behind the fields collected so far. -/
theorem spanBounds_lead {wanted found back : List Bytes} {field : Bytes} {range : FieldRange}
    (plain : wanted ≠ [] ∨ format.hashedKeys = false) (hstart : Key.IsField range.start)
    (hstop : Key.IsField range.stop) (hwanted : ∀ f ∈ wanted, Key.IsField f)
    (hfound : ∀ f ∈ found, Key.IsField f) (hback : ∀ f ∈ field :: back, Key.IsField f)
    (length : wanted.length = found.length) :
    (Key.spanBounds (lead format wanted) range []).contains (format.key (found ++ field :: back))
      = true ↔ wanted = found ∧ range.contains field = true := by
  have plain' : found ≠ [] ∨ format.hashedKeys = false := plain.imp_left fun ne empty =>
    ne (List.eq_nil_of_length_eq_zero (by rw [length, empty]; rfl))
  rw [lead_eq plain, RowFormat.key_eq, RowFormat.keyFields_append plain',
    Key.spanBounds_contains (RowFormat.isField_keyFields hwanted) hstart hstop
      (isField_keyFields_append hfound hback) (RowFormat.length_keyFields length),
    RowFormat.keyFields_inj]

/-- The interval of a plan holds exactly the keys whose fields the terms accept. The induction is on
the bound positions that are left; `wanted` are the fields of the terms before them, and `found`
those of the key. -/
theorem boundsFrom_contains {positions later : List Position} {field : Position → Bytes}
    {wanted found : List Bytes} {complete : Bool} {interval : KeyInterval}
    (h : boundsFrom Codec.standard p complete format.hashedKeys (lead format wanted) positions
      = .ok interval)
    (bound : ∀ q ∈ positions, (p.term q).isBound = true)
    (scalars : ∀ q ∈ positions.dropLast, (p.term q).isRange = false)
    (anchor : wanted ≠ [] ∨ format.hashedKeys = false
      ∨ ∀ q ∈ positions.head?, (p.term q).isRange = false)
    (some : wanted ≠ [] ∨ positions ≠ []) (whole : complete = true ↔ later = [])
    (hwanted : ∀ f ∈ wanted, Key.IsField f) (hfound : ∀ f ∈ found, Key.IsField f)
    (hfield : ∀ q, Key.IsField (field q)) (length : wanted.length = found.length) :
    interval.contains (format.key (found ++ (positions ++ later).map field)) = true ↔
      wanted = found ∧ ∀ q ∈ positions, (p.term q).Accepts Codec.standard q (field q) := by
  have hfields (qs : List Position) : ∀ f ∈ qs.map field, Key.IsField f := by
    intro f hf
    obtain ⟨q, _, rfl⟩ := List.mem_map.mp hf
    exact hfield q
  induction positions generalizing wanted found with
  | nil =>
    rw [← Except.ok.inj h, List.nil_append, leadingBounds_lead (some.resolve_right (absurd rfl))
      (by rw [whole, List.map_eq_nil_iff]) hwanted hfound (hfields later) length]
    exact (and_iff_left nofun).symm
  | cons position positions ih =>
    have first := bound position List.mem_cons_self
    rw [boundsFrom] at h
    cases ht : p.term position with
    | unbound =>
      rw [ht] at first
      cases first
    | scalar v =>
      simp only [ht] at h
      obtain ⟨f, encoded, h⟩ := bind_eq_ok.mp h
      have collected := lead_concat format wanted f
      rw [collected] at h
      have shift : found ++ (position :: positions ++ later).map field
          = (found ++ [field position]) ++ (positions ++ later).map field := by simp
      have rest := ih h (fun q hq => bound q (List.mem_cons_of_mem _ hq))
        (fun q hq => scalars q (mem_dropLast_cons hq)) (.inl (by simp)) (.inl (by simp))
        (forall_mem_concat hwanted (isField_of_encodeField encoded))
        (forall_mem_concat hfound (hfield position)) (by simp [length])
      rw [shift]
      refine rest.trans ?_
      rw [List.forall_mem_cons, ht, Term.accepts_scalar encoded, ← and_assoc]
      refine and_congr_left fun _ => ⟨fun e => ?_, fun ⟨e, e'⟩ => by rw [e, e']⟩
      obtain ⟨e, e'⟩ := List.append_inj e length
      exact ⟨e, List.singleton_inj.mp e'⟩
    | range r =>
      obtain rfl := eq_nil_of_range ht scalars
      have plain : wanted ≠ [] ∨ format.hashedKeys = false := by
        rcases anchor with ne | plain | scalar
        · exact .inl ne
        · exact .inr plain
        · have := scalar position rfl
          rw [ht] at this
          cases this
      simp only [ht] at h
      obtain ⟨range, encoded, h⟩ := bind_eq_ok.mp h
      obtain ⟨_, _, hstart, hstop, _⟩ := ValueRange.encode_eq_ok_iff.mp encoded
      rw [← Except.ok.inj h, List.singleton_append, List.map_cons,
        spanBounds_lead plain (isField_of_encodeField hstart) (isField_of_encodeField hstop) hwanted
          hfound (hfields (position :: later)) length, List.forall_mem_singleton, ht,
        Term.accepts_range encoded]

/-- The values of the terms of a plan encode. -/
theorem encodable_of_boundsFrom {c : Codec} {positions : List Position} {front : List Bytes}
    {complete hashed : Bool} {interval : KeyInterval}
    (h : boundsFrom c p complete hashed front positions = .ok interval)
    (bound : ∀ q ∈ positions, (p.term q).isBound = true)
    (scalars : ∀ q ∈ positions.dropLast, (p.term q).isRange = false) :
    ∀ q ∈ positions, (p.term q).Encodable c q := by
  induction positions generalizing front with
  | nil => nofun
  | cons position positions ih =>
    rw [boundsFrom] at h
    rw [List.forall_mem_cons]
    cases ht : p.term position with
    | unbound =>
      have first := bound position List.mem_cons_self
      rw [ht] at first
      cases first
    | scalar v =>
      simp only [ht] at h
      obtain ⟨f, encoded, h⟩ := bind_eq_ok.mp h
      exact ⟨⟨f, encoded⟩, ih h (fun q hq => bound q (List.mem_cons_of_mem _ hq))
        fun q hq => scalars q (mem_dropLast_cons hq)⟩
    | range r =>
      simp only [ht] at h
      obtain ⟨range, encoded, _⟩ := bind_eq_ok.mp h
      obtain rfl := eq_nil_of_range ht scalars
      exact ⟨⟨range, encoded⟩, List.forall_mem_nil _⟩

/-! ## Plans -/

variable {planner : Planner} {plan : ScanPlan} {s : Statement} {field : Position → Bytes}

/-- What a plan is made of. -/
theorem plan_eq_ok {c : Codec} (h : planner.plan c p = .ok plan) :
    plan.layout = planner.layout ∧ planner.interval c p = .ok plan.range
      ∧ (planner.layout.isContextFirst = true → plan.family = none)
      ∧ (planner.layout.isContextFirst = false → ∀ context, p.context = some context →
        ∃ f, c.encodeField .context context = .ok f ∧ plan.family = some f)
      ∧ (p.context = none → plan.family = none) := by
  obtain ⟨range, hrange, h⟩ := bind_eq_ok.mp h
  obtain ⟨family, hfamily, h⟩ := bind_eq_ok.mp h
  rw [← Except.ok.inj h]
  refine ⟨rfl, hrange, ?_, ?_, ?_⟩
  · intro first
    rw [first] at hfamily
    cases hc : p.context <;> rw [hc] at hfamily <;> exact (Except.ok.inj hfamily).symm
  · intro standard context hc
    rw [standard, hc] at hfamily
    obtain ⟨f, hf, e⟩ := map_eq_ok.mp hfamily
    exact ⟨f, hf, e.symm⟩
  · intro hc
    rw [hc] at hfamily
    exact (Except.ok.inj hfamily).symm

/-- The positions that a plan binds, and those behind them. -/
theorem interval_eq_ok {c : Codec} {range : KeyInterval} (h : planner.interval c p = .ok range) :
    ∃ front back last, planner.boundFields p = .ok front.length
      ∧ planner.layout.fields = front ++ back ∧ front ≠ []
      ∧ Met planner.hashedKeys p front back last
      ∧ boundsFrom c p (decide (back = [])) planner.hashedKeys [] front = .ok range := by
  unfold interval at h
  split at h
  · cases h
  · next n bound =>
    obtain ⟨front, back, last, fields, rfl, ne, met⟩ := boundFields_eq_ok bound
    refine ⟨front, back, last, bound, fields, ne, met, ?_⟩
    simp only [fields, List.take_left] at h
    rw [← h]
    congr 1
    rw [decide_eq_decide, List.length_append]
    constructor
    · rintro rfl
      rfl
    · intro e
      exact List.eq_nil_of_length_eq_zero (by omega)

/-- A layout that starts with the context answers only patterns that ask for one. -/
theorem exists_context {c : Codec} {range : KeyInterval} (h : planner.interval c p = .ok range)
    (first : planner.layout.isContextFirst = true) : ∃ context, p.context = some context := by
  obtain ⟨front, back, last, _, fields, ne, met, _⟩ := interval_eq_ok h
  obtain ⟨q, rest, rfl⟩ := List.exists_cons_of_ne_nil ne
  have anchor : planner.layout.anchor = q := (List.cons.inj fields).1
  have isContext : q = .context := anchor ▸ of_decide_eq_true first
  have bound := met.bound q List.mem_cons_self
  rw [isContext] at bound
  cases hc : p.context with
  | none =>
    simp [Pattern.term, hc, Term.isBound] at bound
  | some context => exact ⟨context, rfl⟩

/-- The terms of a plan encode, those of the key and the context. -/
theorem encodable_of_plan {c : Codec} (h : planner.plan c p = .ok plan) (q : Position) :
    (p.term q).Encodable c q := by
  obtain ⟨_, hrange, _, familyOf, _⟩ := plan_eq_ok h
  obtain ⟨front, back, last, _, fields, ne, met, bounds⟩ := interval_eq_ok hrange
  by_cases mem : q ∈ planner.layout.fields
  · rw [fields] at mem
    rcases List.mem_append.mp mem with mem | mem
    · exact encodable_of_boundsFrom bounds met.bound met.scalars q mem
    · exact Term.encodable_of_not_isBound (met.unbound q mem)
  · rw [Layout.mem_fields, Classical.not_imp, Bool.not_eq_true] at mem
    obtain ⟨rfl, standard⟩ := mem
    cases hc : p.context with
    | none => simp [Pattern.term, hc, Term.Encodable]
    | some context =>
      obtain ⟨f, hf, _⟩ := familyOf standard context hc
      simpa [Pattern.term, hc, Term.Encodable] using ⟨f, hf⟩

theorem exists_boundsFrom {c : Codec} (h : ∀ q, (p.term q).Encodable c q) (complete hashed : Bool)
    (front : List Bytes) (positions : List Position) :
    ∃ range, boundsFrom c p complete hashed front positions = .ok range := by
  induction positions generalizing front with
  | nil => exact ⟨_, rfl⟩
  | cons position positions ih =>
    have encodable := h position
    rw [boundsFrom]
    cases ht : p.term position with
    | unbound => exact ⟨_, rfl⟩
    | scalar v =>
      rw [ht] at encodable
      obtain ⟨f, hf⟩ := encodable
      simp only [hf, ok_bind]
      exact ih _
    | range r =>
      rw [ht] at encodable
      obtain ⟨range, hr⟩ := encodable
      simp only [hr, ok_bind]
      exact ⟨_, rfl⟩

/-- A layout that answers a pattern has a plan for it, if the terms of the pattern encode. -/
theorem exists_plan {c : Codec} (answers : planner.answers p = true)
    (h : ∀ q, (p.term q).Encodable c q) : ∃ plan, planner.plan c p = .ok plan := by
  obtain ⟨n, bound⟩ := answers_iff.mp answers
  obtain ⟨range, hrange⟩ := exists_boundsFrom h (decide (n = planner.layout.fields.length))
    planner.hashedKeys [] (planner.layout.fields.take n)
  have hinterval : planner.interval c p = .ok range := by
    unfold interval
    rw [bound]
    exact hrange
  unfold plan
  rw [hinterval, ok_bind]
  cases hc : p.context with
  | none => exact ⟨_, rfl⟩
  | some context =>
    cases planner.layout.isContextFirst with
    | true => exact ⟨_, rfl⟩
    | false =>
      have encodable := h .context
      simp only [Pattern.term, hc] at encodable
      obtain ⟨f, hf⟩ := encodable
      simp only [hf, Outcome.map_ok, ok_bind]
      exact ⟨_, rfl⟩

/-- A layout with bounds for a pattern answers it. -/
theorem answers_of_interval {c : Codec} {range : KeyInterval}
    (h : planner.interval c p = .ok range) : planner.answers p = true := by
  unfold interval at h
  split at h
  · cases h
  · next n bound => exact answers_iff.mpr ⟨n, bound⟩

/-- A layout with a plan answers the pattern. -/
theorem answers_of_plan {c : Codec} (h : planner.plan c p = .ok plan) :
    planner.answers p = true :=
  answers_of_interval (plan_eq_ok h).2.1

/-- The field of the context is that of a named graph exactly if the statement is in that graph. -/
theorem context_field_iff (encodes : s.Encodes Codec.standard field) {context : Value} {f : Bytes}
    (named : context.data ≠ "") (hf : Codec.standard.encodeField .context context = .ok f) :
    field .context = f ↔ s.context = some context := by
  constructor
  · rintro rfl
    cases hs : s.context with
    | none =>
      obtain ⟨_, text⟩ := Codec.encodeField_standard (by decide) hf
      rw [encodes.context_eq_nil_iff.mpr hs] at text
      exact absurd (Text.Utf8.encode_injective (s := context.data) (t := "") text.symm) named
    | some v =>
      rw [Codec.eq_of_encodeField (by decide) (encodes.context hs) hf]
  · intro hs
    exact Except.ok.inj ((encodes.context hs).symm.trans hf)

/-- An interval holds the key of some fields exactly if the terms accept the fields. -/
theorem interval_contains_iff {range : KeyInterval} (h : planner.interval Codec.standard p = .ok range)
    (isField : ∀ q, Key.IsField (field q)) :
    range.contains ((⟨Codec.standard, planner.hashedKeys⟩ : RowFormat).key
        (planner.layout.fields.map field)) = true ↔
      ∀ q ∈ planner.layout.fields, (p.term q).Accepts Codec.standard q (field q) := by
  obtain ⟨front, back, last, _, fields, ne, met, bounds⟩ := interval_eq_ok h
  have anchor : planner.hashedKeys = false ∨ ∀ q ∈ front.head?, (p.term q).isRange = false := by
    cases hashed : planner.hashedKeys with
    | false => exact .inl rfl
    | true =>
      apply Or.inr
      intro q hq
      obtain ⟨rest, rfl⟩ := List.head?_eq_some_iff.mp hq
      cases rest with
      | nil => exact met.anchor hashed q rfl
      | cons next rest => exact met.scalars q List.mem_cons_self
  have contains : range.contains ((⟨Codec.standard, planner.hashedKeys⟩ : RowFormat).key
        ([] ++ (front ++ back).map field)) = true ↔
      [] = ([] : List Bytes) ∧ ∀ q ∈ front, (p.term q).Accepts Codec.standard q (field q) :=
    boundsFrom_contains bounds met.bound met.scalars (.inr anchor) (.inr ne) decide_eq_true_iff
      nofun nofun isField rfl
  rw [fields]
  refine contains.trans ⟨fun ⟨_, accepts⟩ q mem => ?_, fun accepts => ⟨rfl, fun q mem =>
    accepts q (List.mem_append_left _ mem)⟩⟩
  rcases List.mem_append.mp mem with mem | mem
  · exact accepts q mem
  · exact Term.accepts_of_not_isBound (met.unbound q mem)

/-- The interval of a plan holds the key of some fields exactly if the terms accept the fields. -/
theorem range_contains_iff (h : planner.plan Codec.standard p = .ok plan)
    (isField : ∀ q, Key.IsField (field q)) :
    plan.range.contains ((⟨Codec.standard, planner.hashedKeys⟩ : RowFormat).key
        (planner.layout.fields.map field)) = true ↔
      ∀ q ∈ planner.layout.fields, (p.term q).Accepts Codec.standard q (field q) :=
  interval_contains_iff (plan_eq_ok h).2.1 isField

/-- A key with a context is accepted there exactly if the statement is in the graph asked for. -/
theorem accepts_context_iff (encodes : s.Encodes Codec.standard field) {context : Value}
    (asked : p.context = some context) (named : context.data ≠ "") :
    (p.term .context).Accepts Codec.standard .context (field .context) ↔ p.AsksContext s := by
  have term : p.term .context = .scalar context := by simp [Pattern.term, asked]
  unfold Pattern.AsksContext
  rw [term, asked]
  simp only [Term.Accepts, Option.mem_some_iff, forall_eq']
  constructor
  · intro hf
    exact (context_field_iff encodes named hf).mp rfl
  · intro hs
    exact encodes.context hs

/-- Where the column family holds the context, a plan asks for that of the graph asked for. -/
theorem family_iff (h : planner.plan Codec.standard p = .ok plan)
    (standard : planner.layout.isContextFirst = false)
    (named : ∀ context ∈ p.context, context.data ≠ "") (encodes : s.Encodes Codec.standard field) :
    (∀ family ∈ plan.family, field .context = family) ↔ p.AsksContext s := by
  obtain ⟨_, _, _, familyOf, familyNone⟩ := plan_eq_ok h
  unfold Pattern.AsksContext
  cases hc : p.context with
  | none => simp [familyNone hc]
  | some context =>
    obtain ⟨f, hf, family⟩ := familyOf standard context hc
    rw [family]
    simp only [Option.mem_some_iff, forall_eq']
    exact context_field_iff encodes (named context hc) hf

/-- A plan asks for the row of a statement exactly if the statement is in the graph asked for and
the terms accept its fields. -/
theorem asked_iff (h : planner.plan Codec.standard p = .ok plan)
    (named : ∀ context ∈ p.context, context.data ≠ "") (encodes : s.Encodes Codec.standard field) :
    Store.Asked plan
        ((⟨Codec.standard, planner.hashedKeys⟩ : RowFormat).cellOf planner.layout s field) ↔
      p.AsksContext s
        ∧ ∀ q ≠ .context, (p.term q).Accepts Codec.standard q (field q) := by
  have inKey := range_contains_iff h encodes.isField
  unfold Store.Asked RowFormat.cellOf RowFormat.rowOf Row.cellKey
  simp only [inKey]
  cases first : planner.layout.isContextFirst with
  | true =>
    -- the key holds the context
    obtain ⟨context, hc⟩ := exists_context (plan_eq_ok h).2.1 first
    have all (q : Position) : q ∈ planner.layout.fields := Layout.mem_fields.mpr fun _ => first
    rw [(plan_eq_ok h).2.2.1 first, ← accepts_context_iff encodes hc (named context hc)]
    simp only [all, forall_true_left, Option.mem_def, reduceCtorEq, false_implies, implies_true,
      and_true]
    exact ⟨fun accepts => ⟨accepts .context, fun q _ => accepts q⟩, fun ⟨context, accepts⟩ q =>
      if isContext : q = .context then isContext ▸ context else accepts q isContext⟩
  | false =>
    -- the column family holds the context
    have mem (q : Position) : q ∈ planner.layout.fields ↔ q ≠ .context := by
      rw [Layout.mem_fields, first]
      simp
    simp only [mem, Bool.false_eq_true, if_false, family_iff h first named encodes]
    exact and_comm

/-! ## Rows of statements -/

/-- The interval of a layout for a pattern holds the row of a statement exactly if every field of
the key is the encoding of the scalar that the pattern has there, or lies between the encoded ends
of its range, as bytes and whatever their type. -/
theorem interval_exact (planner : Planner) (p : Pattern) (range : KeyInterval) (s : Statement)
    (row : Row) (planned : planner.interval Codec.standard p = .ok range)
    (written : (⟨Codec.standard, planner.hashedKeys⟩ : RowFormat).write planner.layout s = .ok row) :
    range.contains row.key = true ↔
      ∀ position ∈ planner.layout.fields, ∃ f,
        (⟨Codec.standard, planner.hashedKeys⟩ : RowFormat).field planner.layout s position = .ok f
          ∧ (∀ v, p.term position = .scalar v → Codec.standard.encodeField position v = .ok f)
          ∧ ∀ r, p.term position = .range r → ∃ canonical lower upper,
            r.ordered Codec.standard = .ok canonical
              ∧ Codec.standard.encodeField position canonical.start = .ok lower
              ∧ Codec.standard.encodeField position canonical.stop = .ok upper
              ∧ (if canonical.startInclusive then lower ≤ f else lower < f)
              ∧ (if canonical.stopInclusive then f ≤ upper else f < upper) := by
  obtain ⟨field, encodes⟩ := RowFormat.encodes_of_write written
  have takes := RowFormat.applies_of_write written
  rw [RowFormat.write_of_encodes encodes takes] at written
  rw [← Except.ok.inj written]
  refine (interval_contains_iff planned encodes.isField).trans (forall₂_congr fun q mem => ?_)
  have own := RowFormat.field_of_encodes encodes takes mem
  rw [Term.accepts_iff]
  constructor
  · intro accepts
    exact ⟨field q, own, accepts⟩
  · rintro ⟨f, hf, accepts⟩
    rwa [Except.ok.inj (own.symm.trans hf)]

/-- The last number of a range that leaves out its first one, in another spelling. -/
theorem interval_exact_open_start :
    let p : Pattern := { Pattern.ofPredicate (.resource "p") with
      object := .range ⟨.literal "1" Xsd.integer, .literal "007" Xsd.integer, false, true⟩ }
    ∃ range row, (⟨.pos, false⟩ : Planner).interval Codec.standard p = .ok range
      ∧ (⟨Codec.standard, false⟩ : RowFormat).write .pos
          (.triple (.resource "a") (.resource "p") (.literal "7" Xsd.integer)) = .ok row
      ∧ range.contains row.key = true := by
  intro p
  let range : ValueRange := ⟨.literal "1" Xsd.integer, .literal "007" Xsd.integer, false, true⟩
  let number (digit : UInt8) : Bytes := 0x38 :: List.replicate 14 0x30 ++ [digit, 0x01, 0x05]
  have planned : (⟨.pos, false⟩ : Planner).interval Codec.standard p
      = .ok ⟨[0x70, 0x00] ++ number 0x31 ++ [0x00, 0xFF],
        [0x70, 0x00] ++ number 0x37 ++ [0x00, 0xFF]⟩ := by decide +kernel
  have written : (⟨Codec.standard, false⟩ : RowFormat).write .pos
      (.triple (.resource "a") (.resource "p") (.literal "7" Xsd.integer))
      = .ok ⟨[0x70, 0x00] ++ number 0x37 ++ [0x00, 0x61], [], [], none⟩ := by decide +kernel
  refine ⟨_, _, planned, written, (interval_exact _ p _ _ _ planned written).mpr ?_⟩
  intro position mem
  cases position with
  | subject => exact ⟨[0x61], by decide +kernel, nofun, nofun⟩
  | predicate =>
    refine ⟨[0x70], by decide +kernel, ?_, nofun⟩
    rintro _ ⟨⟩
    decide +kernel
  | object =>
    refine ⟨number 0x37, by decide +kernel, nofun, ?_⟩
    rintro _ ⟨⟩
    exact ⟨range, number 0x31, number 0x37, by decide +kernel, by decide +kernel, by decide +kernel,
      by decide +kernel, by decide +kernel⟩
  | context => exact absurd mem (by decide)

end TripleIndex.Planner
