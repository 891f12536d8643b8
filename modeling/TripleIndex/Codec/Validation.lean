/-
  Which resolvers make a codec. They are checked in order against what was seen of those before, and
  at the end one of them must have been for resources. The check passes exactly the lists that are
  well formed (`validate_eq_ok_iff`).
-/
import TripleIndex.Key
import TripleIndex.Resolver.Basic

namespace TripleIndex.Codec

/-- A byte as messages show it: two hexadecimal digits after `0x`. -/
def byteText (b : UInt8) : String :=
  "0x" ++ Text.Utf8.decodeLossy (Text.Hex.encode [b])

/-- Whether a byte has a meaning of its own in keys. -/
def isReserved (b : UInt8) : Bool :=
  b = Key.delimiter ∨ b = Key.markerDelimiter ∨ b = Key.ceiling

/-- What makes a list of resolvers a codec: free markers, each once; each datatype once; one
resolver for resources. -/
structure WellFormed (rs : List Resolver) : Prop where
  free : ∀ r ∈ rs, isReserved r.marker = false
  markers : (rs.map Resolver.marker).Nodup
  datatypes : (rs.map Resolver.datatype).Nodup
  resource : none ∈ rs.map Resolver.datatype

/-! ## The check -/

/-- What was seen of resolvers: their markers, the datatypes of literals among theirs, and how many
are for resources. -/
structure Seen where
  markers : List UInt8
  datatypes : List String
  resources : Nat

namespace Seen

/-- Before the first resolver. -/
def nothing : Seen :=
  ⟨[], [], 0⟩

/-- One more resolver. Its marker must be free, and its marker and datatype new. -/
def add (seen : Seen) (r : Resolver) : Except Error Seen :=
  if isReserved r.marker then
    .error (.invalidArgument s!"marker {byteText r.marker} collides with a reserved key byte")
  else if r.marker ∈ seen.markers then
    .error (.invalidArgument s!"duplicate marker {byteText r.marker}")
  else
    let markers := seen.markers ++ [r.marker]
    match r.datatype with
    | some datatype =>
      if datatype ∈ seen.datatypes then
        .error (.invalidArgument s!"duplicate resolver for {datatype}")
      else .ok ⟨markers, seen.datatypes ++ [datatype], seen.resources⟩
    | none => .ok ⟨markers, seen.datatypes, seen.resources + 1⟩

end Seen

/-- Check resolvers in order, and at the end that one of them is for resources. -/
def validate (rs : List Resolver) : Except Error Unit :=
  match rs.foldlM Seen.add .nothing with
  | .error e => .error e
  | .ok seen =>
    match seen.resources with
    | 1 => .ok ()
    | 0 => .error (.invalidArgument "no resource resolver registered")
    | _ => .error (.invalidArgument "duplicate resource resolver")

/-! ## What the check passes -/

/-- What the check asks of the resolvers so far: free markers, and nothing seen twice. -/
structure Distinct (rs : List Resolver) : Prop where
  free : ∀ r ∈ rs, isReserved r.marker = false
  markers : (rs.map Resolver.marker).Nodup
  datatypes : (rs.filterMap Resolver.datatype).Nodup

theorem Distinct.of_append {done rs : List Resolver} (h : Distinct (done ++ rs)) :
    Distinct done where
  free r mem := h.free r (List.mem_append_left rs mem)
  markers := (List.nodup_append.mp (List.map_append ▸ h.markers)).1
  datatypes := (List.nodup_append.mp (List.filterMap_append ▸ h.datatypes)).1

theorem nodup_concat {α : Type} {as : List α} {a : α} :
    (as ++ [a]).Nodup ↔ as.Nodup ∧ a ∉ as := by
  rw [List.nodup_append]
  constructor
  · rintro ⟨once, -, apart⟩
    exact ⟨once, fun mem => apart a mem a List.mem_cons_self rfl⟩
  · rintro ⟨once, new⟩
    refine ⟨once, List.nodup_cons.mpr ⟨nofun, .nil⟩, fun b mem c own => ?_⟩
    rintro rfl
    exact new (List.mem_singleton.mp own ▸ mem)

/-- What one more resolver must bring. -/
theorem distinct_concat {done : List Resolver} {r : Resolver} (distinct : Distinct done) :
    Distinct (done ++ [r]) ↔ isReserved r.marker = false ∧ r.marker ∉ done.map Resolver.marker
      ∧ ∀ d, r.datatype = some d → d ∉ done.filterMap Resolver.datatype := by
  have markers : ((done ++ [r]).map Resolver.marker).Nodup
      ↔ r.marker ∉ done.map Resolver.marker := by
    rw [List.map_append, List.map_singleton, nodup_concat, and_iff_right distinct.markers]
  have datatypes : ((done ++ [r]).filterMap Resolver.datatype).Nodup
      ↔ ∀ d, r.datatype = some d → d ∉ done.filterMap Resolver.datatype := by
    rw [List.filterMap_append]
    cases datatype : r.datatype with
    | none => simpa [datatype] using distinct.datatypes
    | some d =>
      rw [List.filterMap_cons_some datatype, List.filterMap_nil, nodup_concat,
        and_iff_right distinct.datatypes]
      exact ⟨fun new d' own => Option.some.inj own ▸ new, fun new => new d rfl⟩
  constructor
  · rintro ⟨free, m, d⟩
    exact ⟨free r (List.mem_append_right done List.mem_cons_self), markers.mp m, datatypes.mp d⟩
  · rintro ⟨free, m, d⟩
    refine ⟨fun r' mem => ?_, markers.mpr m, datatypes.mpr d⟩
    rcases List.mem_append.mp mem with mem | own
    · exact distinct.free r' mem
    · exact List.mem_singleton.mp own ▸ free

namespace Seen

/-- What was seen after some resolvers. -/
def of (done : List Resolver) : Seen :=
  ⟨done.map Resolver.marker, done.filterMap Resolver.datatype,
    done.countP fun r => r.datatype.isNone⟩

/-- One more resolver passes if nothing is seen twice with it. -/
theorem add_eq_ok {done : List Resolver} (distinct : Distinct done) {r : Resolver} {next : Seen} :
    (of done).add r = .ok next ↔ Distinct (done ++ [r]) ∧ of (done ++ [r]) = next := by
  rw [distinct_concat distinct, add]
  split
  · next taken => simp [taken]
  · next free =>
    split
    · next old => exact ⟨nofun, fun h => absurd old h.1.2.1⟩
    · next new =>
      dsimp only
      split
      · next d datatype =>
        have seen : of (done ++ [r]) = ⟨(of done).markers ++ [r.marker],
            (of done).datatypes ++ [d], (of done).resources⟩ := by
          simp [of, datatype]
        split
        · next old => exact ⟨nofun, fun h => absurd old (h.1.2.2 d datatype)⟩
        · next new' =>
          rw [seen, Except.ok.injEq, iff_and_self]
          refine fun _ => ⟨by simpa using free, new, fun d' own => ?_⟩
          exact Option.some.inj (datatype.symm.trans own) ▸ new'
      · next datatype =>
        have seen : of (done ++ [r]) = ⟨(of done).markers ++ [r.marker], (of done).datatypes,
            (of done).resources + 1⟩ := by
          simp [of, datatype]
        rw [seen, Except.ok.injEq, iff_and_self]
        exact fun _ => ⟨by simpa using free, new, fun d own => nomatch datatype.symm.trans own⟩

/-- Resolvers pass one after another if nothing is seen twice. -/
theorem foldlM_add_eq_ok {done rs : List Resolver} (distinct : Distinct done) {last : Seen} :
    rs.foldlM add (of done) = .ok last ↔ Distinct (done ++ rs) ∧ of (done ++ rs) = last := by
  induction rs generalizing done with
  | nil =>
    rw [List.append_nil]
    exact ⟨fun h => ⟨distinct, Except.ok.inj h⟩, fun h => congrArg _ h.2⟩
  | cons r rs ih =>
    rw [← List.singleton_append, ← List.append_assoc, List.singleton_append, List.foldlM_cons]
    cases added : (of done).add r with
    | error e =>
      refine ⟨nofun, fun ⟨all, _⟩ => ?_⟩
      rw [(add_eq_ok distinct).mpr ⟨all.of_append, rfl⟩] at added
      cases added
    | ok next =>
      obtain ⟨distinct', rfl⟩ := (add_eq_ok distinct).mp added
      exact ih distinct'

end Seen

theorem none_mem_datatypes_iff {rs : List Resolver} :
    none ∈ rs.map Resolver.datatype ↔ 0 < rs.countP fun r => r.datatype.isNone := by
  rw [List.countP_pos_iff, List.mem_map]
  simp only [Option.isNone_iff_eq_none]

/-- No datatype occurs twice: none of literals does, and at most one resolver is for resources. -/
theorem nodup_datatypes_iff {rs : List Resolver} :
    (rs.map Resolver.datatype).Nodup ↔ (rs.filterMap Resolver.datatype).Nodup
      ∧ rs.countP (fun r => r.datatype.isNone) ≤ 1 := by
  induction rs with
  | nil => simp
  | cons r rs ih =>
    rw [List.map_cons, List.nodup_cons, ih, List.countP_cons]
    cases datatype : r.datatype with
    | none =>
      rw [List.filterMap_cons_none datatype, none_mem_datatypes_iff, Option.isNone_none, if_pos rfl,
        and_left_comm]
      exact and_congr_right fun _ => by omega
    | some d =>
      rw [List.filterMap_cons_some datatype, List.nodup_cons, List.mem_filterMap, List.mem_map,
        Option.isNone_some, if_neg Bool.false_ne_true, Nat.add_zero, and_assoc]

theorem distinct_nil : Distinct [] where
  free _ mem := absurd mem List.not_mem_nil
  markers := .nil
  datatypes := .nil

theorem wellFormed_iff {rs : List Resolver} :
    WellFormed rs ↔ Distinct rs ∧ rs.countP (fun r => r.datatype.isNone) = 1 := by
  constructor
  · rintro ⟨free, markers, datatypes, resource⟩
    obtain ⟨once, most⟩ := nodup_datatypes_iff.mp datatypes
    have least := none_mem_datatypes_iff.mp resource
    exact ⟨⟨free, markers, once⟩, Nat.le_antisymm most least⟩
  · rintro ⟨⟨free, markers, once⟩, one⟩
    exact ⟨free, markers, nodup_datatypes_iff.mpr ⟨once, Nat.le_of_eq one⟩,
      none_mem_datatypes_iff.mpr (one ▸ Nat.one_pos)⟩

/-- The check passes exactly the lists that are well formed. -/
theorem validate_eq_ok_iff {rs : List Resolver} : validate rs = .ok () ↔ WellFormed rs := by
  have run {last : Seen} : rs.foldlM Seen.add .nothing = .ok last ↔
      Distinct rs ∧ Seen.of rs = last := Seen.foldlM_add_eq_ok distinct_nil
  rw [wellFormed_iff, validate]
  cases checked : rs.foldlM Seen.add .nothing with
  | error e =>
    refine ⟨nofun, fun ⟨distinct, _⟩ => ?_⟩
    rw [run.mpr ⟨distinct, rfl⟩] at checked
    cases checked
  | ok last =>
    obtain ⟨distinct, rfl⟩ := run.mp checked
    rw [and_iff_right distinct]
    change _ ↔ (Seen.of rs).resources = 1
    dsimp only
    split
    · next one => exact iff_of_true rfl one
    · next none => exact iff_of_false nofun (none ▸ Nat.zero_ne_one)
    · next more _ => exact iff_of_false nofun more

instance (rs : List Resolver) : Decidable (WellFormed rs) :=
  decidable_of_iff ((validate rs).toBool = true) <| by
    rw [← validate_eq_ok_iff]
    cases validate rs with
    | error e => exact ⟨nofun, nofun⟩
    | ok => exact ⟨fun _ => rfl, fun _ => rfl⟩

end TripleIndex.Codec
