/-
  Lanes: the inputs of a merge, each with the item that was read last and its key. `align` moves
  lanes up until all keys agree. A pass over the lanes either ends the merge, brings the keys
  together, or reads at least one item, so `align` ends even if the inputs are not sorted.
-/
import TripleIndex.Codec
import TripleIndex.Cursor.Basic
import TripleIndex.Query.Error
import TripleIndex.Statement

namespace TripleIndex

/-- What statements are merged on. -/
inductive MergeKey where
  | object
  | subject
  deriving DecidableEq

/-- The key of a statement. -/
def MergeKey.of (key : MergeKey) (c : Codec) (s : Statement) : Except Error Bytes :=
  match key with
  | .object => c.encodeObject s.object
  | .subject => c.encodeField .subject s.subject

/-- A statement that was read, and its key. -/
structure Head where
  key : Bytes
  statement : Statement
  deriving DecidableEq

/-- One input of a merge. -/
structure Lane (σ : Type) where
  input : σ
  head : Option Head
  /-- Whether the input has not been closed. -/
  isOpen : Bool

namespace Lane

variable {σ : Type}

/-- The lane of an input that has not been read. -/
def ofInput (input : σ) : Lane σ :=
  ⟨input, none, true⟩

/-- Forget what the lane holds. -/
def letGo (lane : Lane σ) : Lane σ :=
  { lane with head := none }

/-- The greater of `target` and the key held. -/
def raise (target : Bytes) (lane : Lane σ) : Bytes :=
  match lane.head with
  | some head => if target < head.key then head.key else target
  | none => target

/-- The greatest key that lanes hold. -/
def greatest? : List (Lane σ) → Option Bytes
  | [] => none
  | lane :: lanes =>
    match greatest? lanes with
    | some best => some (lane.raise best)
    | none => lane.head.map Head.key

/-- Without a greatest key no lane holds anything. -/
theorem head_eq_none_of_greatest? {lanes : List (Lane σ)} (h : greatest? lanes = none) :
    ∀ lane ∈ lanes, lane.head = none := by
  induction lanes with
  | nil => intro lane hl; cases hl
  | cons first lanes ih =>
    intro lane hl
    unfold greatest? at h
    split at h
    · cases h
    · next ht =>
      rcases List.mem_cons.mp hl with rfl | hl
      · exact Option.map_eq_none_iff.mp h
      · exact ih ht lane hl

/-- No lane exceeds the greatest key. -/
theorem not_greatest?_lt {lanes : List (Lane σ)} {best : Bytes} (h : greatest? lanes = some best) :
    ∀ lane ∈ lanes, ∀ head, lane.head = some head → ¬ best < head.key := by
  induction lanes generalizing best with
  | nil => intro lane hl; cases hl
  | cons first lanes ih =>
    intro lane hl head held
    unfold greatest? at h
    split at h
    · next tail ht =>
      cases h
      have step : tail ≤ first.raise tail := by
        unfold raise
        split
        · split
          · next lt => exact List.le_of_lt lt
          · exact List.le_refl _
        · exact List.le_refl _
      rcases List.mem_cons.mp hl with rfl | hl
      · unfold raise
        simp only [held]
        split
        · exact List.lt_irrefl _
        · next nlt => exact nlt
      · exact fun lt => ih ht lane hl head held (List.lt_of_le_of_lt step lt)
    · next ht =>
      rcases List.mem_cons.mp hl with rfl | hl
      · rw [held] at h
        cases h
        exact List.lt_irrefl _
      · rw [head_eq_none_of_greatest? ht lane hl] at held
        cases held

variable [Cursor σ Statement QueryError]

/-- A bound on the items left in a lane, counting the one held. -/
def load (lane : Lane σ) : Nat :=
  Cursor.remaining lane.input + lane.head.toList.length

/-- A bound on the items left in a list of lanes. -/
def totalLoad : List (Lane σ) → Nat
  | [] => 0
  | lane :: lanes => lane.load + totalLoad lanes

/-- Read the next item of a lane; `false` if there is none. -/
def advance (key : MergeKey) (c : Codec) (lane : Lane σ) : Except QueryError Bool × Lane σ :=
  match Cursor.next lane.input with
  | (.error e, input) => (.error e, { lane with input := input })
  | (.ok none, input) => (.ok false, { lane with input := input, head := none })
  | (.ok (some s), input) =>
    match key.of c s with
    | .error e => (.error (.core e), { lane with input := input })
    | .ok k => (.ok true, { lane with input := input, head := some ⟨k, s⟩ })

theorem load_advance_le (key : MergeKey) (c : Codec) (lane : Lane σ) :
    (lane.advance key c).2.load ≤ lane.load := by
  have le := Cursor.remaining_next_le lane.input
  have lt := Cursor.remaining_next_lt lane.input
  unfold advance
  split
  · next h => rw [h] at le; exact Nat.add_le_add_right le _
  · next h => rw [h] at le; exact Nat.le_trans le (Nat.le_add_right ..)
  · next s input h =>
    rw [h] at le lt
    split
    · exact Nat.add_le_add_right le _
    · exact Nat.le_trans (lt s rfl) (Nat.le_add_right ..)

theorem load_advance_lt (key : MergeKey) (c : Codec) (lane : Lane σ)
    (held : lane.head.isSome) (found : (lane.advance key c).1 = .ok true) :
    (lane.advance key c).2.load < lane.load := by
  have lt := Cursor.remaining_next_lt lane.input
  unfold advance at found ⊢
  split at found
  · cases found
  · cases found
  · next s input h =>
    rw [h] at lt
    split at found
    · cases found
    · obtain ⟨head, hh⟩ := Option.isSome_iff_exists.mp held
      simpa [load, hh] using lt s rfl

/-- Read the next item of every lane, up to the first that has none or fails. -/
def advanceAll (key : MergeKey) (c : Codec) :
    List (Lane σ) → Except QueryError Bool × List (Lane σ)
  | [] => (.ok true, [])
  | lane :: lanes =>
    match lane.advance key c with
    | (.ok true, lane) =>
      let (outcome, lanes) := advanceAll key c lanes
      (outcome, lane :: lanes)
    | (outcome, lane) => (outcome, lane :: lanes)

theorem totalLoad_advanceAll_le (key : MergeKey) (c : Codec) (lanes : List (Lane σ)) :
    totalLoad (advanceAll key c lanes).2 ≤ totalLoad lanes := by
  induction lanes with
  | nil => exact Nat.le_refl _
  | cons lane lanes ih =>
    have le := load_advance_le key c lane
    unfold advanceAll
    split
    · next h => rw [h] at le; exact Nat.add_le_add le ih
    · next h => rw [h] at le; exact Nat.add_le_add_right le _

/-- Read on in a lane until its key is no longer below `target`; `false` if it runs out. -/
def catchUp (key : MergeKey) (c : Codec) (target : Bytes) (lane : Lane σ) :
    Except QueryError Bool × Lane σ :=
  match _held : lane.head with
  | none => (.ok true, lane)
  | some head =>
    if head.key < target then
      match _read : lane.advance key c with
      | (.ok true, moved) => catchUp key c target moved
      | (outcome, moved) => (outcome, moved)
    else (.ok true, lane)
termination_by lane.load
decreasing_by
  have lt := load_advance_lt key c lane (by rw [_held]; rfl)
    (by rw [_read])
  rwa [_read] at lt

theorem load_catchUp_le (key : MergeKey) (c : Codec) (target : Bytes) (lane : Lane σ) :
    (lane.catchUp key c target).2.load ≤ lane.load := by
  fun_induction catchUp key c target lane with
  | case1 => exact Nat.le_refl _
  | case2 lane head held below moved read ih =>
    have le := load_advance_le key c lane
    rw [read] at le
    exact Nat.le_trans ih le
  | case3 lane head held below outcome moved _ read =>
    have le := load_advance_le key c lane
    rwa [read] at le
  | case4 => exact Nat.le_refl _

/-- A lane that does not lag behind stays as it is. -/
theorem catchUp_eq_self {key : MergeKey} {c : Codec} {target : Bytes} {lane : Lane σ}
    (level : ∀ head, lane.head = some head → ¬ head.key < target) :
    lane.catchUp key c target = (.ok true, lane) := by
  unfold catchUp
  split
  · rfl
  · next head held => rw [if_neg (level head held)]

/-- A lane that lags behind reads on. -/
theorem catchUp_of_below {key : MergeKey} {c : Codec} {target : Bytes} {lane : Lane σ}
    {head : Head} (held : lane.head = some head) (below : head.key < target) :
    lane.catchUp key c target =
      match lane.advance key c with
      | (.ok true, moved) => moved.catchUp key c target
      | (outcome, moved) => (outcome, moved) := by
  rw [catchUp]
  split
  · next h => rw [h] at held; cases held
  · next head' h =>
    rw [h] at held
    cases held
    rw [if_pos below]
    split <;> next h' => simp [h']

/-- A lane that lags behind and catches up has read something. -/
theorem load_catchUp_lt (key : MergeKey) (c : Codec) {target : Bytes} {lane : Lane σ} {head : Head}
    (held : lane.head = some head) (below : head.key < target)
    (found : (lane.catchUp key c target).1 = .ok true) :
    (lane.catchUp key c target).2.load < lane.load := by
  have lt := load_advance_lt key c lane (by rw [held]; rfl)
  rw [catchUp_of_below held below] at found ⊢
  split at found
  · next moved read =>
    rw [read] at lt
    exact Nat.lt_of_le_of_lt (load_catchUp_le key c target moved) (lt rfl)
  · next outcome moved _ read =>
    rw [read] at lt
    exact lt found

/-- Let every lane catch up with the greatest key met so far, and return that key. It is `none`
if a lane runs out. -/
def sweep (key : MergeKey) (c : Codec) (target : Bytes) :
    List (Lane σ) → Except QueryError (Option Bytes) × List (Lane σ)
  | [] => (.ok (some target), [])
  | lane :: lanes =>
    match lane.catchUp key c target with
    | (.error e, lane) => (.error e, lane :: lanes)
    | (.ok false, lane) => (.ok none, lane :: lanes)
    | (.ok true, lane) =>
      let (outcome, lanes) := sweep key c (lane.raise target) lanes
      (outcome, lane :: lanes)

theorem totalLoad_sweep_le (key : MergeKey) (c : Codec) (target : Bytes) (lanes : List (Lane σ)) :
    totalLoad (sweep key c target lanes).2 ≤ totalLoad lanes := by
  induction lanes generalizing target with
  | nil => exact Nat.le_refl _
  | cons lane lanes ih =>
    have le := load_catchUp_le key c target lane
    unfold sweep
    split
    · next h => rw [h] at le; exact Nat.add_le_add_right le _
    · next h => rw [h] at le; exact Nat.add_le_add_right le _
    · next h => rw [h] at le; exact Nat.add_le_add le (ih _)

/-- A sweep from a key that no lane exceeds, ending at another key, has read something. -/
theorem totalLoad_sweep_lt (key : MergeKey) (c : Codec) {target : Bytes} (reached : Bytes)
    {lanes : List (Lane σ)}
    (top : ∀ lane ∈ lanes, ∀ head, lane.head = some head → ¬ target < head.key)
    (found : (sweep key c target lanes).1 = .ok (some reached)) (ne : reached ≠ target) :
    totalLoad (sweep key c target lanes).2 < totalLoad lanes := by
  induction lanes with
  | nil => cases found; exact absurd rfl ne
  | cons lane lanes ih =>
    rcases Decidable.em (∃ head, lane.head = some head ∧ head.key < target) with lag | level
    · obtain ⟨head, held, below⟩ := lag
      have lt := load_catchUp_lt key c held below
      unfold sweep at found ⊢
      split at found
      · cases found
      · cases found
      · next moved h =>
        rw [h] at lt
        exact Nat.add_lt_add_of_lt_of_le (lt rfl) (totalLoad_sweep_le ..)
    · have stay : lane.catchUp key c target = (.ok true, lane) :=
        catchUp_eq_self fun head held below => level ⟨head, held, below⟩
      have same : lane.raise target = target := by
        unfold raise
        split
        · next head held => exact if_neg (top lane List.mem_cons_self head held)
        · rfl
      unfold sweep at found ⊢
      simp only [stay, same] at found ⊢
      exact Nat.add_lt_add_left (ih (fun l hl => top l (List.mem_cons_of_mem _ hl)) found) _

/-- Bring the keys of all lanes together; `false` if a lane runs out first. -/
def align (key : MergeKey) (c : Codec) (lanes : List (Lane σ)) :
    Except QueryError Bool × List (Lane σ) :=
  match _top : greatest? lanes with
  | none => (.ok false, lanes)
  | some target =>
    match _swept : sweep key c target lanes with
    | (.error e, moved) => (.error e, moved)
    | (.ok none, moved) => (.ok false, moved)
    | (.ok (some reached), moved) =>
      if reached = target then (.ok true, moved) else align key c moved
termination_by totalLoad lanes
decreasing_by
  next ne =>
    have lt := totalLoad_sweep_lt key c reached (not_greatest?_lt _top) (by rw [_swept]) ne
    rwa [_swept] at lt

theorem totalLoad_align_le (key : MergeKey) (c : Codec) (lanes : List (Lane σ)) :
    totalLoad (align key c lanes).2 ≤ totalLoad lanes := by
  fun_induction align key c lanes with
  | case1 => exact Nat.le_refl _
  | case2 lanes target top e moved swept =>
    have le := totalLoad_sweep_le key c target lanes
    rwa [swept] at le
  | case3 lanes target top moved swept =>
    have le := totalLoad_sweep_le key c target lanes
    rwa [swept] at le
  | case4 lanes target moved top swept =>
    have le := totalLoad_sweep_le key c target lanes
    rwa [swept] at le
  | case5 lanes target top reached moved swept ne ih =>
    have le := totalLoad_sweep_le key c target lanes
    rw [swept] at le
    exact Nat.le_trans ih le

/-- Take the statement that the first lane holds. -/
def takeFirst : List (Lane σ) → Option Statement × List (Lane σ)
  | [] => (none, [])
  | lane :: lanes => (lane.head.map Head.statement, { lane with head := none } :: lanes)

theorem totalLoad_takeFirst_le (lanes : List (Lane σ)) :
    totalLoad (takeFirst lanes).2 ≤ totalLoad lanes := by
  cases lanes with
  | nil => exact Nat.le_refl _
  | cons lane lanes => exact Nat.add_le_add_right (Nat.le_add_right ..) _

theorem totalLoad_takeFirst_lt {lanes : List (Lane σ)} {s : Statement}
    (h : (takeFirst lanes).1 = some s) : totalLoad (takeFirst lanes).2 < totalLoad lanes := by
  cases lanes with
  | nil => cases h
  | cons lane lanes =>
    obtain ⟨head, held, _⟩ := Option.map_eq_some_iff.mp h
    refine Nat.add_lt_add_right ?_ _
    simp [load, held]

theorem totalLoad_letGo_le (lanes : List (Lane σ)) :
    totalLoad (lanes.map letGo) ≤ totalLoad lanes := by
  induction lanes with
  | nil => exact Nat.le_refl _
  | cons lane lanes ih => exact Nat.add_le_add (Nat.le_add_right ..) ih

/-- Close the input of a lane unless that was done before. -/
def close (lane : Lane σ) : Except QueryError Unit × Lane σ :=
  if lane.isOpen then
    let (outcome, input) := Cursor.close lane.input
    (outcome, ⟨input, none, false⟩)
  else (.ok (), lane.letGo)

/-- Close every lane, and report the first failure. -/
def closeAll : List (Lane σ) → Except QueryError Unit × List (Lane σ)
  | [] => (.ok (), [])
  | lane :: lanes =>
    let (outcome, lane) := lane.close
    let (later, lanes) := closeAll lanes
    (outcome.bind fun _ => later, lane :: lanes)

end Lane

end TripleIndex
