/-
  Keys of fields. Fields hold neither the delimiter nor the ceiling byte, so a key splits back into
  its fields (`split?_join`) and keys are in the order of their fields (`join_lt_join_iff`).

  * `leadingBounds_contains`: the keys that start with given fields.
  * `spanBounds_contains`: the keys with given fields in front and then a field of a range.
  * `spanBounds_covers`: the same with given fields behind that field, too.
-/
import Mathlib
import TripleIndex.Key
import TripleIndex.Proofs.Bytes
import TripleIndex.Proofs.Text.Hex

namespace TripleIndex.Key

open Bytes (IsTail isTail_nil isTail_cons append_tail_lt_iff append_tail_inj append_lt_append_iff
  append_le_append_iff isPrefix_of_between lt_append)

/-- A byte string without the bytes that bound fields. -/
def IsField (field : Bytes) : Prop :=
  ∀ b ∈ field, delimiter < b ∧ b < ceiling

instance : DecidablePred IsField :=
  fun field => List.decidableBAll (fun b => delimiter < b ∧ b < ceiling) field

theorem IsField.delimiter_lt {field : Bytes} (h : IsField field) : ∀ b ∈ field, delimiter < b :=
  fun b hb => (h b hb).1

theorem isField_nil : IsField [] := nofun

theorem isField_anchorHash (anchor : Bytes) : IsField (anchorHash anchor) := by
  intro b hb
  obtain ⟨low, high⟩ := Text.Hex.mem_encode hb
  exact ⟨UInt8.lt_of_lt_of_le (by decide) low, UInt8.lt_of_le_of_lt high (by decide)⟩

/-! ## Joining -/

theorem join_cons {fields : List Bytes} (ne : fields ≠ []) (field : Bytes) :
    join (field :: fields) = field ++ delimiter :: join fields := by
  cases fields with
  | nil => exact absurd rfl ne
  | cons g fields => rfl

/-- Fields, each with a delimiter behind it. -/
def stem : List Bytes → Bytes
  | [] => []
  | field :: fields => field ++ delimiter :: stem fields

theorem join_append (front : List Bytes) {fields : List Bytes} (ne : fields ≠ []) :
    join (front ++ fields) = stem front ++ join fields := by
  induction front with
  | nil => rfl
  | cons f front ih =>
    rw [List.cons_append, join_cons (List.append_ne_nil_of_right_ne_nil front ne), ih, stem,
      List.append_assoc, List.cons_append]

/-- A key and a delimiter make up the stem of its fields. -/
theorem join_append_delimiter {fields : List Bytes} (ne : fields ≠ []) :
    join fields ++ [delimiter] = stem fields := by
  induction fields with
  | nil => exact absurd rfl ne
  | cons f fields ih =>
    by_cases last : fields = []
    · subst last
      rfl
    · rw [join_cons last, stem, List.append_assoc, List.cons_append, ih last]

theorem stem_isPrefix_iff {front fields : List Bytes} (hfront : ∀ f ∈ front, IsField f)
    (hfields : ∀ f ∈ fields, IsField f) : stem front <+: stem fields ↔ front <+: fields := by
  induction front generalizing fields with
  | nil => simp [stem]
  | cons f front ih =>
    cases fields with
    | nil => simp [stem]
    | cons g fields =>
      have ih := ih (fun x hx => hfront x (List.mem_cons_of_mem _ hx))
        (fun x hx => hfields x (List.mem_cons_of_mem g hx))
      rw [List.cons_prefix_cons, ← ih]
      constructor
      · rintro ⟨rest, h⟩
        rw [stem, stem, List.append_assoc, List.cons_append] at h
        obtain ⟨e, h⟩ := append_tail_inj (hfront f List.mem_cons_self).delimiter_lt
          (hfields g List.mem_cons_self).delimiter_lt (isTail_cons _ _) (isTail_cons _ _) h
        exact ⟨e, rest, (List.cons.inj h).2⟩
      · rintro ⟨rfl, rest, h⟩
        exact ⟨rest, by rw [stem, stem, List.append_assoc, List.cons_append, h]⟩

/-- A key that starts with the stem of some fields has these in front. -/
theorem isPrefix_of_stem {front fields : List Bytes} (hfront : ∀ f ∈ front, IsField f)
    (hfields : ∀ f ∈ fields, IsField f) (ne : fields ≠ []) (h : stem front <+: join fields) :
    front <+: fields := by
  rw [← stem_isPrefix_iff hfront hfields, ← join_append_delimiter ne]
  exact h.trans (List.prefix_append _ _)

/-! ## Order -/

/-- Keys of equally many fields compare as their fields, one after the other: where a field ends, the
delimiter is below whatever the other field goes on with. -/
theorem join_lt_join_iff {fields fields' : List Bytes} (h : ∀ f ∈ fields, ∀ b ∈ f, delimiter < b)
    (h' : ∀ f ∈ fields', ∀ b ∈ f, delimiter < b) (length : fields.length = fields'.length) :
    join fields < join fields' ↔ fields < fields' := by
  induction fields generalizing fields' with
  | nil =>
    have none : fields' = [] := List.eq_nil_of_length_eq_zero length.symm
    rw [none]
    exact iff_of_false (List.lt_irrefl _) (List.lt_irrefl _)
  | cons f fields ih =>
    cases fields' with
    | nil => cases length
    | cons g fields' =>
      have length : fields.length = fields'.length := Nat.succ.inj length
      have ih := ih (fun x hx => h x (List.mem_cons_of_mem _ hx))
        (fun x hx => h' x (List.mem_cons_of_mem _ hx)) length
      rw [List.cons_lt_cons_iff]
      by_cases last : fields = []
      · subst last
        have last' : fields' = [] := List.eq_nil_of_length_eq_zero length.symm
        subst last'
        simp [join]
      · have more : fields' ≠ [] := by
          rintro rfl
          exact last (List.eq_nil_of_length_eq_zero length)
        rw [join_cons last, join_cons more, append_tail_lt_iff (h f List.mem_cons_self)
          (h' g List.mem_cons_self) (isTail_cons _ _) (isTail_cons _ _), List.cons_lt_cons_iff, ih]
        simp

/-- Keys of equally many fields tell the fields. -/
theorem join_eq_join_iff {fields fields' : List Bytes} (h : ∀ f ∈ fields, ∀ b ∈ f, delimiter < b)
    (h' : ∀ f ∈ fields', ∀ b ∈ f, delimiter < b) (length : fields.length = fields'.length) :
    join fields = join fields' ↔ fields = fields' := by
  refine ⟨fun same => ?_, fun same => by rw [same]⟩
  have forward := join_lt_join_iff h h' length
  have backward := join_lt_join_iff h' h length.symm
  rw [same] at forward backward
  have irrefl : ¬ join fields' < join fields' := List.lt_irrefl _
  exact List.le_antisymm (List.not_lt.mp (backward.not.mp irrefl))
    (List.not_lt.mp (forward.not.mp irrefl))

/-! ## Splitting -/

theorem splitFirst?_append {field : Bytes} (h : IsField field) (rest : Bytes) :
    splitFirst? (field ++ delimiter :: rest) = some (field, rest) := by
  induction field with
  | nil => exact if_pos rfl
  | cons b field ih =>
    have ne : b ≠ delimiter := fun e => UInt8.lt_irrefl _ (e ▸ (h b List.mem_cons_self).1)
    rw [List.cons_append, splitFirst?, if_neg ne, ih fun x hx => h x (List.mem_cons_of_mem _ hx)]
    rfl

theorem splitFirst?_eq_none {field : Bytes} (h : IsField field) : splitFirst? field = none := by
  induction field with
  | nil => rfl
  | cons b field ih =>
    have ne : b ≠ delimiter := fun e => UInt8.lt_irrefl _ (e ▸ (h b List.mem_cons_self).1)
    rw [splitFirst?, if_neg ne, ih fun x hx => h x (List.mem_cons_of_mem _ hx)]
    rfl

/-- The first field of a key. -/
theorem splitFirst?_join {field : Bytes} {fields : List Bytes} (h : IsField field) :
    ((splitFirst? (join (field :: fields))).map Prod.fst).getD (join (field :: fields)) = field := by
  by_cases last : fields = []
  · subst last
    change ((splitFirst? field).map Prod.fst).getD field = field
    rw [splitFirst?_eq_none h]
    rfl
  · rw [join_cons last, splitFirst?_append h]
    rfl

/-- A key splits back into its fields. -/
theorem split?_join {fields : List Bytes} (h : ∀ f ∈ fields, IsField f) (ne : fields ≠ []) :
    split? fields.length (join fields) = some fields := by
  induction fields with
  | nil => exact absurd rfl ne
  | cons f fields ih =>
    cases fields with
    | nil => rfl
    | cons g fields =>
      have ih := ih (fun x hx => h x (List.mem_cons_of_mem _ hx)) (List.cons_ne_nil _ _)
      rw [List.length_cons] at ih
      rw [join_cons (List.cons_ne_nil _ _), List.length_cons, List.length_cons, split?,
        splitFirst?_append (h f List.mem_cons_self)]
      simp only [ih, Option.map_some]

/-- A key that is split into fewer fields than it has keeps the rest of them in the last one. -/
theorem split?_join_append {front back : List Bytes} (h : ∀ f ∈ front, IsField f) (ne : back ≠ []) :
    split? (front.length + 1) (join (front ++ back)) = some (front ++ [join back]) := by
  induction front with
  | nil => rfl
  | cons f front ih =>
    have ih := ih fun g mem => h g (List.mem_cons_of_mem _ mem)
    rw [List.cons_append, join_cons (List.append_ne_nil_of_right_ne_nil front ne), List.length_cons,
      split?, splitFirst?_append (h f List.mem_cons_self)]
    simp only [ih, Option.map_some, List.cons_append]

/-- A key is not split into more fields than it has. -/
theorem split?_join_of_lt {fields : List Bytes} (h : ∀ f ∈ fields, IsField f) (ne : fields ≠ [])
    {n : Nat} (more : fields.length < n) : split? n (join fields) = none := by
  induction fields generalizing n with
  | nil => exact absurd rfl ne
  | cons f fields ih =>
    obtain ⟨m, rfl⟩ : ∃ m, n = m + 2 := ⟨n - 2, by simp at more; omega⟩
    by_cases last : fields = []
    · subst last
      rw [join, split?, splitFirst?_eq_none (h f List.mem_cons_self)]
    · have ih := ih (n := m + 1) (fun g mem => h g (List.mem_cons_of_mem _ mem)) last
        (by rw [List.length_cons] at more; omega)
      rw [join_cons last, split?, splitFirst?_append (h f List.mem_cons_self)]
      simp only [ih, Option.map_none]

/-! ## Bounds -/

theorem contains_iff {r : KeyInterval} {key : Bytes} :
    r.contains key = true ↔ r.start ≤ key ∧ key < r.stop :=
  decide_eq_true_iff

theorem isEmpty_iff {r : KeyInterval} : r.isEmpty = true ↔ ¬ r.start < r.stop := by
  rw [List.not_lt]
  exact decide_eq_true_iff

/-- Fields, each with a delimiter in front of it: what a key goes on with behind a field. -/
def trail (fields : List Bytes) : Bytes :=
  fields.flatMap (delimiter :: ·)

theorem trail_cons (field : Bytes) (fields : List Bytes) :
    trail (field :: fields) = delimiter :: (field ++ trail fields) :=
  List.flatMap_cons

theorem trail_append (back rest : List Bytes) : trail (back ++ rest) = trail back ++ trail rest :=
  List.flatMap_append

theorem isTail_trail (fields : List Bytes) : IsTail delimiter (trail fields) := by
  cases fields with
  | nil => exact isTail_nil _
  | cons f fields =>
    rw [trail_cons]
    exact isTail_cons _ _

theorem join_cons_eq (field : Bytes) (fields : List Bytes) :
    join (field :: fields) = field ++ trail fields := by
  induction fields generalizing field with
  | nil => exact (List.append_nil field).symm
  | cons g fields ih => rw [join_cons (List.cons_ne_nil g fields), ih, trail_cons]

theorem join_append_cons (front : List Bytes) (field : Bytes) (back : List Bytes) :
    join (front ++ field :: back) = stem front ++ (field ++ trail back) := by
  rw [join_append front (List.cons_ne_nil _ _), join_cons_eq]

/-- A key comes before the ceiling byte unless its first field starts with it. -/
theorem join_lt_ceiling_iff {fields : List Bytes} :
    join fields < [ceiling] ↔ ∀ f ∈ fields.head?, f.head? ≠ some ceiling := by
  have byte (b : UInt8) (rest : Bytes) : b :: rest < [ceiling] ↔ b ≠ ceiling := by
    have notLt : ¬ rest < [] := List.not_lt_nil _
    have top : b ≤ ceiling := UInt8.le_iff_toNat_le.mpr (Nat.le_of_lt_succ b.toNat_lt)
    rw [List.cons_lt_cons_iff, UInt8.lt_iff_le_and_ne]
    tauto
  have low : delimiter ≠ ceiling := by decide
  cases fields with
  | nil => simp [join]
  | cons f fields =>
    cases fields with
    | nil => cases f <;> simp [join, byte]
    | cons g fields => cases f <;> simp [join, byte, low]

theorem lt_ceiling_of_join {fields : List Bytes} (h : ∀ f ∈ fields, IsField f) :
    join fields < [ceiling] := by
  rw [join_lt_ceiling_iff]
  intro f first starts
  have below := (h f (List.mem_of_mem_head? first) ceiling (List.mem_of_mem_head? starts)).2
  exact UInt8.lt_irrefl _ below

/-- What a key goes on with comes before the delimiter with the ceiling. -/
theorem trail_lt {fields : List Bytes} (h : ∀ f ∈ fields, IsField f) :
    trail fields < [delimiter, ceiling] := by
  cases fields with
  | nil => exact List.nil_lt_cons _ _
  | cons f fields =>
    rw [trail_cons, ← join_cons_eq]
    exact List.cons_lt_cons_iff.mpr (.inr ⟨rfl, lt_ceiling_of_join h⟩)

/-- The bounds of a whole key hold exactly that key, among the keys with as many fields. -/
theorem leadingBounds_true_contains {front fields : List Bytes} (hfront : ∀ f ∈ front, IsField f)
    (hfields : ∀ f ∈ fields, IsField f) (ne : front ≠ []) (length : front.length = fields.length) :
    (leadingBounds front true).contains (join fields) = true ↔ front <+: fields := by
  have ne' : fields ≠ [] := by
    rintro rfl
    exact ne (List.eq_nil_of_length_eq_zero length)
  rw [contains_iff]
  simp only [leadingBounds, if_true]
  constructor
  · rintro ⟨lower, upper⟩
    have lower : join front ++ [] ≤ join fields := by rwa [List.append_nil]
    obtain ⟨rest, key⟩ := isPrefix_of_between lower upper
    rw [← key, append_lt_append_iff] at upper
    -- what follows the key of `front` starts with a delimiter, if there is anything
    have follows : stem front <+: join fields ++ [delimiter] := by
      rw [← key, ← join_append_delimiter ne]
      cases rest with
      | nil => rw [List.append_nil]
      | cons b rest =>
        rcases List.cons_lt_cons_iff.mp upper with lt | ⟨rfl, _⟩
        · exact absurd lt (by rw [UInt8.lt_iff_toNat_lt]; exact Nat.not_lt_zero _)
        · exact ⟨rest ++ [delimiter], by simp⟩
    rwa [join_append_delimiter ne', stem_isPrefix_iff hfront hfields] at follows
  · intro h
    rw [h.eq_of_length length]
    exact ⟨List.le_refl _, lt_append (List.cons_ne_nil _ _)⟩

/-- The bounds of leading fields hold exactly the keys of more fields that start with them. -/
theorem leadingBounds_false_contains {front fields : List Bytes} (hfront : ∀ f ∈ front, IsField f)
    (hfields : ∀ f ∈ fields, IsField f) (ne : front ≠ []) (length : front.length < fields.length) :
    (leadingBounds front false).contains (join fields) = true ↔ front <+: fields := by
  have ne' : fields ≠ [] := List.ne_nil_of_length_pos (Nat.zero_lt_of_lt length)
  rw [contains_iff]
  simp only [leadingBounds, Bool.false_eq_true, if_false]
  rw [join_append_delimiter ne]
  constructor
  · rintro ⟨lower, upper⟩
    refine isPrefix_of_stem hfront hfields ne' (isPrefix_of_between (a := []) ?_ upper)
    rwa [List.append_nil]
  · rintro ⟨rest, rfl⟩
    have more : rest ≠ [] := by
      rintro rfl
      simp at length
    rw [join_append front more]
    have below := lt_ceiling_of_join fun f hf => hfields f (List.mem_append_right _ hf)
    exact ⟨(List.prefix_append _ _).le, (append_lt_append_iff _ _ _).mpr below⟩

/-- The bounds of leading fields hold exactly the keys that start with them. -/
theorem leadingBounds_contains {front fields : List Bytes} (hfront : ∀ f ∈ front, IsField f)
    (hfields : ∀ f ∈ fields, IsField f) (ne : front ≠ []) {complete : Bool}
    (length : if complete then front.length = fields.length else front.length < fields.length) :
    (leadingBounds front complete).contains (join fields) = true ↔ front <+: fields := by
  cases complete with
  | true => exact leadingBounds_true_contains hfront hfields ne length
  | false => exact leadingBounds_false_contains hfront hfields ne length

section Span

variable {field tail more : Bytes} {range : FieldRange}

/-- The first bound of a range, behind the fields in front, against a field and what follows it. An
end that counts may itself be followed by something. -/
theorem start_le_iff (hstart : IsField range.start) (hfield : IsField field)
    (isTail : IsTail delimiter tail) (isTail' : IsTail delimiter more) (le : more ≤ tail)
    (below : tail < [delimiter, ceiling]) (inclusive : Bool) :
    range.start ++ (if inclusive then more else [delimiter, ceiling]) ≤ field ++ tail ↔
      (if inclusive then range.start ≤ field else range.start < field) := by
  have notLt : ¬ tail < more := List.not_lt.mpr le
  rw [← List.not_lt]
  cases inclusive with
  | true =>
    rw [if_pos rfl, if_pos rfl, append_tail_lt_iff hfield.delimiter_lt hstart.delimiter_lt isTail
      isTail', ← List.not_lt]
    tauto
  | false =>
    rw [if_neg Bool.false_ne_true, if_neg Bool.false_ne_true,
      append_tail_lt_iff hfield.delimiter_lt hstart.delimiter_lt isTail (isTail_cons _ _)]
    grind

/-- The last bound of a range, behind the fields in front, against a field and what follows it. An
end that counts is followed by something greater. -/
theorem lt_stop_iff (hstop : IsField range.stop) (hfield : IsField field)
    (isTail : IsTail delimiter tail) (isTail' : IsTail delimiter more) (lt : tail < more)
    (inclusive : Bool) :
    field ++ tail < range.stop ++ (if inclusive then more else []) ↔
      (if inclusive then field ≤ range.stop else field < range.stop) := by
  have notLt : ¬ tail < [] := List.not_lt_nil _
  cases inclusive with
  | true =>
    rw [if_pos rfl, if_pos rfl,
      append_tail_lt_iff hfield.delimiter_lt hstop.delimiter_lt isTail isTail']
    grind
  | false =>
    rw [if_neg Bool.false_ne_true, if_neg Bool.false_ne_true,
      append_tail_lt_iff hfield.delimiter_lt hstop.delimiter_lt isTail (isTail_nil _)]
    tauto

theorem fieldRange_contains_iff : range.contains field = true ↔
    (if range.startInclusive then range.start ≤ field else range.start < field)
      ∧ (if range.stopInclusive then field ≤ range.stop else field < range.stop) := by
  unfold FieldRange.contains
  cases range.startInclusive <;> cases range.stopInclusive <;> simp

theorem spanBounds_eq (front : List Bytes) (range : FieldRange) (back : List Bytes) :
    spanBounds front range back =
      ⟨stem front
          ++ (range.start ++ (if range.startInclusive then trail back else [delimiter, ceiling])),
        stem front
          ++ (range.stop
            ++ (if range.stopInclusive then trail back ++ [delimiter, ceiling] else []))⟩ := by
  have head : (if front = [] then [] else join front ++ [delimiter]) = stem front := by
    split
    · next empty => rw [empty]; rfl
    · next ne => exact join_append_delimiter ne
  have tail : (if back = [] then [] else delimiter :: join back) = trail back := by
    cases back with
    | nil => rfl
    | cons g back => rw [if_neg (List.cons_ne_nil _ _), join_cons_eq, trail_cons]
  simp only [spanBounds, head, tail, List.append_assoc]

/-- Behind the fields in front of it, and before the fields behind it, a field lies in the bounds of
a range if it lies in the range. -/
theorem spanBounds_contains_stem (front back rest : List Bytes)
    (hstart : IsField range.start) (hstop : IsField range.stop)
    (hfields : ∀ f ∈ field :: (back ++ rest), IsField f) :
    (spanBounds front range back).contains (stem front ++ (field ++ trail (back ++ rest))) = true ↔
      range.contains field = true := by
  obtain ⟨hfield, hrest⟩ := List.forall_mem_cons.mp hfields
  have isTail := isTail_trail (back ++ rest)
  -- the key goes on with the fields that stand behind an end that counts
  have starts : trail back ≤ trail (back ++ rest) := by
    rw [trail_append]
    exact (List.prefix_append _ _).le
  have ends : trail (back ++ rest) < trail back ++ [delimiter, ceiling] := by
    rw [trail_append, append_lt_append_iff]
    exact trail_lt fun f mem => hrest f (List.mem_append_right _ mem)
  have closed := (isTail_trail back).append [ceiling]
  have lower := start_le_iff hstart hfield isTail (isTail_trail back) starts (trail_lt hrest)
  have upper := lt_stop_iff hstop hfield isTail closed ends
  rw [contains_iff, spanBounds_eq, fieldRange_contains_iff, append_le_append_iff,
    append_lt_append_iff, lower, upper]

end Span

/-- The bounds of a range hold exactly the keys with the fields in front of it and a field in it. -/
theorem spanBounds_contains {front lead back : List Bytes} {field : Bytes} {range : FieldRange}
    (hfront : ∀ f ∈ front, IsField f) (hstart : IsField range.start) (hstop : IsField range.stop)
    (hfields : ∀ f ∈ lead ++ field :: back, IsField f) (length : front.length = lead.length) :
    (spanBounds front range []).contains (join (lead ++ field :: back)) = true ↔
      front = lead ∧ range.contains field = true := by
  have inRange := spanBounds_contains_stem front [] back hstart hstop
    fun f mem => hfields f (List.mem_append_right _ mem)
  rw [List.nil_append] at inRange
  constructor
  · intro inside
    have between := contains_iff.mp inside
    rw [spanBounds_eq] at between
    have within := isPrefix_of_stem hfront hfields (by simp)
      (isPrefix_of_between between.1 between.2)
    obtain rfl : front = lead :=
      (List.prefix_of_prefix_length_le within (List.prefix_append _ _)
        (Nat.le_of_eq length)).eq_of_length length
    rw [join_append_cons, inRange] at inside
    exact ⟨rfl, inside⟩
  · rintro ⟨rfl, inside⟩
    rwa [join_append_cons, inRange]

/-- With fields `back` wanted behind a range, its bounds hold a key that has these behind a field,
and perhaps more behind them, exactly if the field lies in the range. The fields of `back` stand
behind an end that counts only, and a key that goes on with them is not beyond that end. Any of the
fields may be empty or missing, and one end of the range may go on behind the other. -/
theorem spanBounds_covers (front back rest : List Bytes) (range : FieldRange) (field : Bytes)
    (hstart : IsField range.start) (hstop : IsField range.stop)
    (hfields : ∀ f ∈ field :: (back ++ rest), IsField f) :
    (spanBounds front range back).contains (join (front ++ field :: (back ++ rest))) = true ↔
      range.contains field = true := by
  rw [join_append_cons]
  exact spanBounds_contains_stem front back rest hstart hstop hfields

/-- The end that counts, which goes on behind the end that does not, with an empty field and another
one behind it. -/
theorem spanBounds_covers_extension :
    let range : FieldRange := ⟨[0x61], [0x61, 0x62], false, true⟩
    IsField range.start ∧ IsField range.stop ∧ (∀ f ∈ [[0x61, 0x62], [], [0x78]], IsField f)
      ∧ (spanBounds [[0x70]] range [[]]).contains (join [[0x70], [0x61, 0x62], [], [0x78]])
        = true := by
  intro range
  have hstart : IsField [0x61] := by decide
  have hstop : IsField [0x61, 0x62] := by decide
  have fields : ∀ f ∈ [[0x61, 0x62], [], [0x78]], IsField f := by decide
  have covers := spanBounds_covers [[0x70]] [[]] [[0x78]] range [0x61, 0x62] hstart hstop fields
  exact ⟨hstart, hstop, fields, covers.mpr (by decide)⟩

/-! ## Bounds in order -/

/-- The bounds of leading fields are never empty. -/
theorem leadingBounds_start_lt (fields : List Bytes) (complete : Bool) :
    (leadingBounds fields complete).start < (leadingBounds fields complete).stop := by
  unfold leadingBounds
  cases complete
  · exact lt_append (List.cons_ne_nil ceiling [])
  · exact lt_append (List.cons_ne_nil delimiter [ceiling])

/-- The bounds of a range are in order if its ends are, or if both ends are one that counts. What is
written behind an end that does not count starts with a delimiter, so that it stays below an end that
goes on behind the other one. -/
theorem spanBounds_start_lt_iff {range : FieldRange} (front : List Bytes)
    (hstart : ∀ b ∈ range.start, delimiter < b) (hstop : ∀ b ∈ range.stop, delimiter < b) :
    (spanBounds front range []).start < (spanBounds front range []).stop ↔
      range.start < range.stop
        ∨ range.start = range.stop ∧ range.startInclusive = true ∧ range.stopInclusive = true := by
  have behindStart (inclusive : Bool) :
      IsTail delimiter (if inclusive then [] else [delimiter, ceiling]) := by
    cases inclusive
    · exact isTail_cons _ _
    · exact isTail_nil _
  have behindStop (inclusive : Bool) :
      IsTail delimiter (if inclusive then [delimiter, ceiling] else []) := by
    cases inclusive
    · exact isTail_nil _
    · exact isTail_cons _ _
  have tails (first last : Bool) : (if first then [] else [delimiter, ceiling])
      < (if last then [delimiter, ceiling] else []) ↔ first = true ∧ last = true := by
    cases first <;> cases last <;> decide
  simp only [spanBounds, if_true, List.nil_append, List.append_assoc]
  rw [append_lt_append_iff, append_tail_lt_iff hstart hstop (behindStart _) (behindStop _), tails]

end TripleIndex.Key
