/-
  Joins of streams that fail at some read. A match uses one item of every stream, paired by object
  and position (`ObjectJoin.Uses`). A join hands out the matches of the streams without failures, up
  to the first that uses an item behind a failing read (`ObjectJoin.reads_exact`): reading ahead
  takes no match away, and no match waits for an item behind its own.
-/
import Mathlib
import TripleIndex.Proofs.Query.Follow
import TripleIndex.Proofs.Query.Join

namespace TripleIndex

open Cursor (Yields Serves Delivers read cut cut_prefix lt_length_cut)

/-! ## Positions -/

section Positions

variable {α : Type} {p : α → Bool} {xs : List α} {i j r : Nat}

/-- Past an item that counts there is one more of them. -/
theorem countP_take_lt {x : α} (h : xs[i]? = some x) (counts : p x = true) (lt : i < j) :
    (xs.take i).countP p < (xs.take j).countP p := by
  have step : (xs.take (i + 1)).countP p = (xs.take i).countP p + 1 := by
    rw [List.take_add_one, h, Option.toList_some, List.countP_append, List.countP_singleton,
      if_pos counts]
  have mono : (xs.take (i + 1)).countP p ≤ (xs.take j).countP p :=
    (List.take_sublist_take_left lt).countP_le
  omega

/-- The item with a given number of others before it. -/
theorem exists_of_lt_countP (h : r < xs.countP p) :
    ∃ i, (∃ x ∈ xs[i]?, p x = true) ∧ (xs.take i).countP p = r := by
  induction xs generalizing r with
  | nil => cases h
  | cons x xs ih =>
    by_cases counts : p x = true
    · cases r with
      | zero => exact ⟨0, ⟨x, rfl, counts⟩, rfl⟩
      | succ r =>
        rw [List.countP_cons_of_pos counts] at h
        obtain ⟨i, found, before⟩ := ih (Nat.lt_of_succ_lt_succ h)
        exact ⟨i + 1, found, by rw [List.take_succ_cons, List.countP_cons_of_pos counts, before]⟩
    · rw [List.countP_cons_of_neg counts] at h
      obtain ⟨i, found, before⟩ := ih h
      exact ⟨i + 1, found, by rw [List.take_succ_cons, List.countP_cons_of_neg counts, before]⟩

/-- The front of a list has its items. -/
theorem take_of_prefix {front : List α} (h : front <+: xs) (le : i ≤ front.length) :
    front.take i = xs.take i := by
  rw [List.prefix_iff_eq_take.mp h, List.take_take, Nat.min_eq_left le]

end Positions

/-! ## Matches and the items that they use -/

/-- A stream of statements, and the read from which on it fails, counted from zero. -/
structure Supply where
  items : List Statement
  failAt : Option Nat

namespace Supply

/-- What a stream hands out before it fails. -/
def reached (supply : Supply) : List Statement :=
  cut supply.failAt supply.items

theorem reached_prefix (supply : Supply) : supply.reached <+: supply.items :=
  cut_prefix supply.failAt supply.items

/-- A stream that ends where another one fails. -/
def ended (supply : Supply) : Scripted Statement :=
  Scripted.ofItems (supply.reached.map some) none false

theorem yields_ended (supply : Supply) : Yields supply.ended supply.reached :=
  Scripted.yields _ _ _ _

/-- Whether a failure is the first one of one of some cursors with these streams. -/
def IsFailure {σ : Type} [Cursor σ Statement QueryError] (cursors : List σ) (supplies : List Supply)
    (e : QueryError) : Prop :=
  ∃ cursor supply, (cursor, supply) ∈ cursors.zip supplies
    ∧ ∃ k ∈ supply.failAt, read cursor k = .error e

end Supply

namespace ObjectJoin

/-- The item at position `i` of a stream is the one that match `n` of `out` uses: both have one
object, and as many items with that object stand before the one as matches with it before the
other. -/
def Uses (c : Codec) (out : List Statement) (n : Nat) (items : List Statement) (i : Nat) : Prop :=
  ∃ key, (∃ s ∈ out[n]?, c.encodeObject s.object = .ok key)
    ∧ (∃ s ∈ items[i]?, c.encodeObject s.object = .ok key)
    ∧ (items.take i).countP (c.encodeObject ·.object = .ok key)
      = (out.take n).countP (c.encodeObject ·.object = .ok key)

/-- Every stream hands out the item that match `n` uses before it fails. -/
def InReach (c : Codec) (supplies : List Supply) (out : List Statement) (n : Nat) : Prop :=
  ∀ supply ∈ supplies, ∃ i, Uses c out n supply.items i ∧ ∀ k ∈ supply.failAt, i < k

variable {c : Codec} {out items : List Statement} {n i j : Nat}

/-- A match uses at most one item of a stream. -/
theorem Uses.unique (h : Uses c out n items i) (h' : Uses c out n items j) : i = j := by
  obtain ⟨key, ⟨s, found, hs⟩, ⟨u, foundᵤ, hu⟩, before⟩ := h
  obtain ⟨key', ⟨s', found', hs'⟩, ⟨u', foundᵤ', hu'⟩, before'⟩ := h'
  obtain rfl : s = s' := Option.some.inj (found.symm.trans found')
  obtain rfl : key = key' := Except.ok.inj (hs.symm.trans hs')
  by_contra ne
  rcases Nat.lt_or_gt_of_ne ne with lt | gt
  · have := countP_take_lt (p := (c.encodeObject ·.object = .ok key)) foundᵤ (decide_eq_true hu) lt
    omega
  · have := countP_take_lt (p := (c.encodeObject ·.object = .ok key)) foundᵤ' (decide_eq_true hu') gt
    omega

/-- A match uses an item of a stream exactly if the stream has its object more often than the
matches before it have. -/
theorem exists_uses_iff {s : Statement} {key : Bytes} (found : out[n]? = some s)
    (encoded : c.encodeObject s.object = .ok key) :
    (∃ i, Uses c out n items i) ↔ (out.take n).countP (c.encodeObject ·.object = .ok key)
      < items.countP (c.encodeObject ·.object = .ok key) := by
  constructor
  · rintro ⟨i, key', ⟨s', found', encoded'⟩, ⟨u, mem, counts⟩, before⟩
    obtain rfl : s = s' := Option.some.inj (found.symm.trans found')
    obtain rfl : key = key' := Except.ok.inj (encoded.symm.trans encoded')
    obtain ⟨inside, _⟩ := List.getElem?_eq_some_iff.mp mem
    have lt := countP_take_lt (p := (c.encodeObject ·.object = .ok key)) mem (decide_eq_true counts)
      inside
    rwa [before, List.take_length] at lt
  · intro enough
    obtain ⟨i, ⟨u, mem, counts⟩, before⟩ := exists_of_lt_countP enough
    exact ⟨i, key, ⟨s, found, encoded⟩, ⟨u, mem, of_decide_eq_true counts⟩, before⟩

/-- What a stream hands out before it fails has the items before the failing read. -/
theorem uses_reached_iff {supply : Supply} : Uses c out n supply.reached i ↔
    Uses c out n supply.items i ∧ ∀ k ∈ supply.failAt, i < k := by
  have front := supply.reached_prefix
  have same (inside : i < supply.reached.length) : supply.reached[i]? = supply.items[i]?
      ∧ supply.reached.take i = supply.items.take i := by
    refine ⟨?_, take_of_prefix front (Nat.le_of_lt inside)⟩
    obtain ⟨rest, e⟩ := front
    rw [← e, List.getElem?_append_left inside]
  unfold Uses
  constructor
  · rintro ⟨key, matched, ⟨u, mem, counts⟩, before⟩
    obtain ⟨inside, _⟩ := List.getElem?_eq_some_iff.mp mem
    obtain ⟨own, shared⟩ := same inside
    rw [own] at mem
    rw [shared] at before
    exact ⟨⟨key, matched, ⟨u, mem, counts⟩, before⟩, (lt_length_cut.mp inside).2⟩
  · rintro ⟨⟨key, matched, ⟨u, mem, counts⟩, before⟩, live⟩
    obtain ⟨inside, _⟩ := List.getElem?_eq_some_iff.mp mem
    obtain ⟨own, shared⟩ := same (lt_length_cut.mpr ⟨inside, live⟩)
    rw [← own] at mem
    rw [← shared] at before
    exact ⟨key, matched, ⟨u, mem, counts⟩, before⟩

/-- A match is in reach exactly if every stream hands out its object more often than the matches
before it have it. -/
theorem inReach_iff {supplies : List Supply} {s : Statement} {key : Bytes}
    (found : out[n]? = some s) (encoded : c.encodeObject s.object = .ok key) :
    InReach c supplies out n ↔ ∀ supply ∈ supplies,
      (out.take n).countP (c.encodeObject ·.object = .ok key)
        < supply.reached.countP (c.encodeObject ·.object = .ok key) := by
  refine forall₂_congr fun supply _ => ?_
  rw [← exists_uses_iff found encoded]
  exact exists_congr fun i => uses_reached_iff.symm

/-- The counts of some matches are the least counts of some streams. -/
def Least (c : Codec) (supplies : List Supply) (rest : Supply → List Statement)
    (out : List Statement) : Prop :=
  ∀ key, (∃ supply ∈ supplies, (rest supply).countP (c.encodeObject ·.object = .ok key)
      = out.countP (c.encodeObject ·.object = .ok key))
    ∧ ∀ supply ∈ supplies, out.countP (c.encodeObject ·.object = .ok key)
      ≤ (rest supply).countP (c.encodeObject ·.object = .ok key)

/-- Every match uses one item of every stream. -/
theorem existsUnique_uses {supplies : List Supply} (least : Least c supplies Supply.items out)
    (keyed : ∀ s ∈ out, ∃ key, c.encodeObject s.object = .ok key) (inside : n < out.length)
    {supply : Supply} (mem : supply ∈ supplies) : ∃! i, Uses c out n supply.items i := by
  have found : out[n]? = some out[n] := List.getElem?_eq_getElem inside
  obtain ⟨key, encoded⟩ := keyed out[n] (List.getElem_mem inside)
  have lt := countP_take_lt (p := (c.encodeObject ·.object = .ok key)) found
    (decide_eq_true encoded) inside
  rw [List.take_length] at lt
  obtain ⟨i, uses⟩ := (exists_uses_iff found encoded).mpr
    (Nat.lt_of_lt_of_le lt ((least key).2 supply mem))
  exact ⟨i, uses, fun j uses' => uses'.unique uses⟩

/-- If the front of the matches has the least counts of what is handed out before the streams fail,
then it is the matches in reach. -/
theorem inReach_iff_lt {supplies : List Supply} {handed : List Statement} (front : handed <+: out)
    (least : Least c supplies Supply.reached handed)
    (keyed : ∀ s ∈ out, ∃ key, c.encodeObject s.object = .ok key) (inside : n < out.length) :
    InReach c supplies out n ↔ n < handed.length := by
  have found : out[n]? = some out[n] := List.getElem?_eq_getElem inside
  obtain ⟨key, encoded⟩ := keyed out[n] (List.getElem_mem inside)
  obtain ⟨⟨supply, mem, attained⟩, le⟩ := least key
  rw [inReach_iff found encoded]
  constructor
  · intro reach
    by_contra behind
    have more : handed.countP (c.encodeObject ·.object = .ok key)
        ≤ (out.take n).countP (c.encodeObject ·.object = .ok key) := by
      conv_lhs => rw [List.prefix_iff_eq_take.mp front]
      exact (List.take_sublist_take_left (Nat.not_lt.mp behind)).countP_le
    have := reach supply mem
    omega
  · intro before supply mem
    have own : handed[n]? = some out[n] := by
      obtain ⟨rest, e⟩ := front
      rw [← found, ← e, List.getElem?_append_left before]
    have lt := countP_take_lt (p := (c.encodeObject ·.object = .ok key)) own
      (decide_eq_true encoded) before
    rw [List.take_length, take_of_prefix front (Nat.le_of_lt before)] at lt
    exact Nat.lt_of_lt_of_le lt (le supply mem)

/-! ## Streams and what follows them -/

variable {σ τ : Type} [Cursor σ Statement QueryError] [Cursor τ Statement QueryError]
  {may : QueryError → Prop} {strict : Prop}

/-- Streams that fail follow cursors that hand out as much or more. -/
theorem follows_of_serves (rest : Supply → List Statement)
    (between : ∀ supply, supply.reached <+: rest supply ∧ rest supply <+: supply.items)
    (exact : strict → ∀ supply, rest supply = supply.reached)
    {cursors : List σ} {others : List τ} {supplies : List Supply}
    (serves : List.Forall₂ (fun cursor supply => Serves cursor supply.items supply.failAt) cursors
      supplies)
    (yields : List.Forall₂ (fun other supply => Yields other (rest supply)) others supplies)
    (encodable : ∀ supply ∈ supplies, ∀ s ∈ supply.items, ∃ key, c.encodeObject s.object = .ok key)
    (errors : ∀ cursor supply, (cursor, supply) ∈ cursors.zip supplies → ∀ k ∈ supply.failAt, ∀ e,
      read cursor k = .error e → may e) :
    List.Forall₂ (Cursor.Follows .object c may strict) cursors others := by
  induction serves generalizing others with
  | nil =>
    cases yields
    exact .nil
  | @cons cursor supply cursors supplies first _ ih =>
    cases yields with
    | cons own yields =>
      obtain ⟨keyed, encodable⟩ := List.forall_mem_cons.mp encodable
      refine .cons ?_ (ih yields encodable fun cursor supply mem =>
        errors cursor supply (List.mem_cons_of_mem _ mem))
      exact first.follows own (between supply).1 (between supply).2
        (fun isStrict => exact isStrict supply) keyed
        (errors cursor supply List.mem_cons_self)

/-- What a merge of streams hands out has keys, and has each of them as often as the stream with the
fewest of it. -/
theorem exists_yields_of_supplies {others : List τ} {supplies : List Supply}
    (rest : Supply → List Statement) (within : ∀ supply, rest supply <+: supply.items)
    (yields : List.Forall₂ (fun other supply => Yields other (rest supply)) others supplies)
    (filled : supplies ≠ [])
    (encodable : ∀ supply ∈ supplies, ∀ s ∈ supply.items, ∃ key, c.encodeObject s.object = .ok key)
    (ascending : ∀ supply ∈ supplies, supply.items.Pairwise fun s u => ∀ a b,
      c.encodeObject s.object = .ok a → c.encodeObject u.object = .ok b → a ≤ b) :
    ∃ out heads, Yields (Merge.ofInputs .object c others) out
      ∧ (Merge.ofInputs .object c others).Moving heads
      ∧ (∀ s ∈ out, ∃ key, c.encodeObject s.object = .ok key) ∧ Least c supplies rest out := by
  have yields : List.Forall₂ Yields others (supplies.map rest) :=
    List.forall₂_map_right_iff.mpr yields
  have keyed : ∀ items ∈ supplies.map rest, ∀ s ∈ items, ∃ key, MergeKey.of .object c s = .ok key :=
    List.forall_mem_map.mpr fun supply mem s hs =>
      encodable supply mem s ((within supply).subset hs)
  have sorted : ∀ items ∈ supplies.map rest, Merge.Ascending .object c items :=
    List.forall_mem_map.mpr fun supply mem => (ascending supply mem).sublist (within supply).sublist
  obtain ⟨heads, _, feeds, _⟩ := Merge.exists_feeds yields keyed sorted
  obtain ⟨out, merged, sublist, counts⟩ := Merge.exists_yields_ofInputs .object c yields
    (by simpa using filled) keyed sorted
  obtain ⟨first, supplies, rfl⟩ := List.exists_cons_of_ne_nil filled
  refine ⟨out, heads, merged, Merge.moving_ofInputs feeds, fun s mem =>
    keyed _ List.mem_cons_self s (sublist.subset mem), fun key => ?_⟩
  obtain ⟨attained, le⟩ := List.min?_eq_some_iff.mp (counts key).1
  rw [List.map_map] at attained le
  exact ⟨List.mem_map.mp attained, List.forall_mem_map.mp le⟩

/-- The join of two or more streams that are sorted by the encodings of their objects, each of which
may fail at some read and then on all later ones. Without failures the join hands out `out`. With
them it hands out the longest front of `out` whose matches use only items that are handed out before
the failing reads. Then it fails once, as one of the streams does, or it has handed out all; after
that it finds nothing. -/
theorem reads_exact (c : Codec) (cursors : List σ) (sound : List τ) (supplies : List Supply)
    (several : 2 ≤ supplies.length)
    (serves : List.Forall₂ (fun cursor supply => Serves cursor supply.items supply.failAt) cursors
      supplies)
    (yields : List.Forall₂ (fun cursor supply => Yields cursor supply.items) sound supplies)
    (encodable : ∀ supply ∈ supplies, ∀ s ∈ supply.items, ∃ key, c.encodeObject s.object = .ok key)
    (ascending : ∀ supply ∈ supplies, supply.items.Pairwise fun s u => ∀ a b,
      c.encodeObject s.object = .ok a → c.encodeObject u.object = .ok b → a ≤ b) :
    ∃ join whole out n, ofInputs c cursors = ⟨.ok join, []⟩ ∧ ofInputs c sound = ⟨.ok whole, []⟩
      ∧ Yields whole out
      ∧ (∀ j < out.length, ∀ supply ∈ supplies, ∃! i, Uses c out j supply.items i)
      ∧ n ≤ out.length ∧ (∀ j < out.length, InReach c supplies out j ↔ j < n)
      ∧ (∀ j < n, read join j = .ok out[j]?)
      ∧ (read join n = .ok none ∧ n = out.length
        ∨ ∃ e, read join n = .error e ∧ Supply.IsFailure cursors supplies e)
      ∧ ∀ j, n < j → read join j = .ok none := by
  have filled : supplies ≠ [] := by
    rintro rfl
    cases several
  have count : ¬ cursors.length < 2 := by
    rw [serves.length_eq]
    exact Nat.not_lt.mpr several
  have count' : ¬ sound.length < 2 := by
    rw [yields.length_eq]
    exact Nat.not_lt.mpr several
  -- beside the streams stand ones that end where these fail, and ones that do not fail
  have ended : List.Forall₂ (fun other (supply : Supply) => Yields other supply.reached)
      (supplies.map Supply.ended) supplies :=
    List.forall₂_map_left_iff.mpr (List.forall₂_same.mpr fun supply _ => supply.yields_ended)
  have errors : ∀ cursor supply, (cursor, supply) ∈ cursors.zip supplies → ∀ k ∈ supply.failAt,
      ∀ e, read cursor k = .error e → Supply.IsFailure cursors supplies e :=
    fun cursor supply mem k hk e failed => ⟨cursor, supply, mem, k, hk, failed⟩
  obtain ⟨handed, _, yielded, moving, _, least⟩ :=
    exists_yields_of_supplies Supply.reached Supply.reached_prefix ended filled encodable ascending
  obtain ⟨out, _, merged, _, keyed, least'⟩ :=
    exists_yields_of_supplies Supply.items (fun _ => List.prefix_rfl) yields filled encodable
      ascending
  obtain ⟨ending, delivers, allowed⟩ := Merge.exists_delivers yielded moving
    (Merge.follows_ofInputs (follows_of_serves Supply.reached
      (fun supply => ⟨List.prefix_rfl, supply.reached_prefix⟩) (fun _ _ => rfl) serves ended
      encodable errors))
  obtain ⟨isPrefix, all⟩ := Merge.prefix_of_delivers delivers merged
    (Merge.follows_ofInputs (follows_of_serves Supply.items
      (fun supply => ⟨supply.reached_prefix, List.prefix_rfl⟩) nofun serves yields encodable errors))
  have delivers : Delivers (⟨Merge.ofInputs .object c cursors⟩ : ObjectJoin σ) handed ending :=
    delivers.wrap fun _ => rfl
  refine ⟨⟨Merge.ofInputs .object c cursors⟩, ⟨Merge.ofInputs .object c sound⟩, out, handed.length,
    if_neg count, if_neg count', yields_of_merge merged,
    fun j inside supply mem => existsUnique_uses least' keyed inside mem, isPrefix.length_le,
    fun j inside => inReach_iff_lt isPrefix least keyed inside, fun j before => ?_, ?_,
    fun j behind => delivers.read_gt behind⟩
  · obtain ⟨rest, e⟩ := isPrefix
    rw [delivers.read_lt before, ← e, List.getElem?_append_left before]
  · cases ending with
    | none => exact .inl ⟨delivers.read_length, congrArg List.length (all rfl)⟩
    | some e => exact .inr ⟨e, delivers.read_length, allowed e rfl⟩

/-- A stream that fails behind a match: the match is handed out, then the failure, and nothing
after it. -/
theorem reads_exact_behind_match :
    let named (id text : String) := Statement.triple (.resource id) (.resource "p") (.plain text)
    let supplies : List Supply :=
      [⟨[named "a" "1", named "b" "2"], none⟩, ⟨[named "c" "1", named "d" "2"], some 1⟩]
    let cursors := supplies.map fun supply =>
      Scripted.ofItems (supply.items.map some) supply.failAt false
    ∃ join, ofInputs Codec.standard cursors = ⟨.ok join, []⟩
      ∧ read join 0 = .ok (some (named "a" "1")) ∧ (∃ e, read join 1 = .error e)
      ∧ ∀ j, 1 < j → read join j = .ok none := by
  intro named supplies cursors
  have one : Codec.standard.encodeObject (.plain "1") = .ok [0x31, 0x01, 0x03] := by
    decide +kernel
  have two : Codec.standard.encodeObject (.plain "2") = .ok [0x32, 0x01, 0x03] := by
    decide +kernel
  have object (id text : String) : (named id text).object = .plain text := rfl
  have encodable : ∀ supply ∈ supplies, ∀ s ∈ supply.items, ∃ key,
      Codec.standard.encodeObject s.object = .ok key := by
    simp [supplies, object, one, two]
  have ascending : ∀ supply ∈ supplies, supply.items.Pairwise fun s u => ∀ a b,
      Codec.standard.encodeObject s.object = .ok a →
        Codec.standard.encodeObject u.object = .ok b → a ≤ b := by
    simp [supplies, object, one, two]
    decide
  let sound := supplies.map fun supply => Scripted.ofItems (supply.items.map some) none false
  obtain ⟨join, whole, out, n, opened, opened', yields, _, le, reach, before, ending, later⟩ :=
    reads_exact Codec.standard cursors sound supplies (Nat.le_refl 2)
      (List.forall₂_map_left_iff.mpr (List.forall₂_same.mpr fun supply _ =>
        Scripted.serves supply.items supply.failAt false))
      (List.forall₂_map_left_iff.mpr (List.forall₂_same.mpr fun supply _ =>
        Scripted.yields supply.items false 0 0)) encodable ascending
  obtain rfl : out = [named "a" "1", named "b" "2"] := by
    let merged : ObjectJoin (Scripted Statement) := ⟨Merge.ofInputs .object Codec.standard sound⟩
    obtain rfl : merged = whole := by
      cases opened'
      rfl
    have drained : (Cursor.drain 3 merged).1 = [named "a" "1", named "b" "2"]
        ∧ (Cursor.drain 3 merged).2.1 = .exhausted := by
      decide +kernel
    exact drained.1 ▸ yields.unique (Cursor.yields_of_drain drained.2)
  -- the first match uses the first item of both streams, the second one the item that is not read
  have first : InReach Codec.standard supplies [named "a" "1", named "b" "2"] 0 := by
    have uses (id id' : String) : Uses Codec.standard [named "a" "1", named "b" "2"] 0
        [named id "1", named id' "2"] 0 :=
      ⟨_, ⟨_, rfl, one⟩, ⟨_, rfl, one⟩, rfl⟩
    intro supply mem
    rcases List.mem_pair.mp mem with rfl | rfl
    · exact ⟨0, uses "a" "b", nofun⟩
    · exact ⟨0, uses "c" "d", fun k limit => Option.some.inj limit ▸ Nat.one_pos⟩
  have second : ¬ InReach Codec.standard supplies [named "a" "1", named "b" "2"] 1 := by
    intro reach
    obtain ⟨i, ⟨key, ⟨s, own, encoded⟩, ⟨u, item, encoded'⟩, _⟩, limit⟩ :=
      reach _ (List.mem_cons_of_mem _ List.mem_cons_self)
    obtain rfl : i = 0 := Nat.lt_one_iff.mp (limit 1 rfl)
    obtain rfl := Option.some.inj own
    obtain rfl := Option.some.inj item
    rw [object, two] at encoded
    rw [object, one, ← encoded] at encoded'
    cases encoded'
  obtain rfl : n = 1 := by
    have above := (reach 0 Nat.zero_lt_two).mp first
    have below := (reach 1 Nat.one_lt_two).not.mp second
    omega
  refine ⟨join, opened, before 0 Nat.one_pos, ?_, later⟩
  rcases ending with ⟨_, all⟩ | ⟨e, failed, _⟩
  · cases all
  · exact ⟨e, failed⟩

end ObjectJoin

end TripleIndex
