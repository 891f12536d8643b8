/-
  The codec: resolvers that passed the check, in one table by datatype and one by marker. An object
  is stored as `data ++ [markerDelimiter, marker]`, every other field as the identifier alone. Data
  with a delimiter byte in it is refused, since it would sort a value ahead of its own start.
-/
import TripleIndex.Codec.Validation
import TripleIndex.Resolver.Temporal
import TripleIndex.Value

namespace TripleIndex

/-- Resolvers under which encoding and decoding agree. -/
structure Codec where
  resolvers : List Resolver
  wellFormed : Codec.WellFormed resolvers

namespace Codec

/-- The codec of the standard datatypes. -/
def standard : Codec :=
  ⟨Resolver.standard, by decide +kernel⟩

/-- Add a resolver in place of any for the same datatype. -/
def replace (rs : List Resolver) (r : Resolver) : List Resolver :=
  rs.filter (fun old => old.datatype ≠ r.datatype) ++ [r]

/-- The codec of the given resolvers, if they pass the check. -/
def build (rs : List Resolver) : Except Error Codec :=
  match checked : validate rs with
  | .ok () => .ok ⟨rs, validate_eq_ok_iff.mp checked⟩
  | .error e => .error e

/-- The codec of the standard resolvers with others added or put in their place, in order. -/
def extended (rs : List Resolver) : Except Error Codec :=
  build (rs.foldl replace Resolver.standard)

/-! ## Lookup -/

section Table

variable {κ : Type} [DecidableEq κ]

/-- Put a resolver under its key, in place of any that is there. -/
def put (key : Resolver → κ) (entries : κ → Option Resolver) (r : Resolver) :
    κ → Option Resolver :=
  fun k => if key r = k then some r else entries k

/-- The table of resolvers by key. -/
def table (key : Resolver → κ) (rs : List Resolver) : κ → Option Resolver :=
  rs.foldl (put key) fun _ => none

variable {key : Resolver → κ} {rs : List Resolver} {k : κ}

theorem foldl_put (entries : κ → Option Resolver) :
    rs.foldl (put key) entries k = (rs.filter fun r => key r = k).getLast?.or (entries k) := by
  induction rs generalizing entries with
  | nil => rfl
  | cons r rs ih =>
    rw [List.foldl_cons, ih, put, List.filter_cons]
    by_cases own : key r = k
    · rw [if_pos own, if_pos (by simpa using own), List.getLast?_cons]
      cases (rs.filter fun r => key r = k).getLast? <;> rfl
    · rw [if_neg own, if_neg (by simpa using own)]

/-- A table holds the last resolver of a key. -/
theorem table_eq_getLast? : table key rs k = (rs.filter fun r => key r = k).getLast? := by
  rw [table, foldl_put, Option.or_none]

theorem isSome_table : (table key rs k).isSome = true ↔ k ∈ rs.map key := by
  rw [table_eq_getLast?, List.mem_map]
  simp

end Table

/-- The resolver of a datatype, or of resources. -/
def byDatatype (c : Codec) : Option String → Option Resolver :=
  table Resolver.datatype c.resolvers

/-- The resolver of a marker. -/
def byMarker (c : Codec) : UInt8 → Option Resolver :=
  table Resolver.marker c.resolvers

/-- Whether literals of a datatype can be encoded. -/
def covers (c : Codec) (datatype : String) : Bool :=
  (c.byDatatype (some datatype)).isSome

/-- The codec as diagnostics show it: its datatypes in ascending order. -/
def display (c : Codec) : String :=
  let names := (c.resolvers.filterMap Resolver.datatype).mergeSort fun a b => a ≤ b
  let shown := ", ".intercalate (names.map Text.quote)
  s!"ValueCodec \x7b datatypes: [{shown}] \x7d"

/-- The resolver of resources. -/
def resource (c : Codec) : Resolver :=
  (c.byDatatype none).get (isSome_table.mpr c.wellFormed.resource)

/-- The resolver of a value. -/
def resolverOf (c : Codec) (v : Value) : Except Error Resolver :=
  match v with
  | .resource _ => .ok c.resource
  | .literal _ datatype =>
    match c.byDatatype (some datatype) with
    | some r => .ok r
    | none => .error (.unsupportedType datatype)

/-- The data of a value under a resolver, refused if it holds a delimiter. -/
def encodeData (r : Resolver) (v : Value) : Except Error Bytes := do
  let data ← r.write v.data
  match data.find? fun b => b = Key.delimiter ∨ b = Key.markerDelimiter with
  | some b =>
    .error (.invalidValue s!"{v.display} contains the reserved key byte {byteText b}")
  | none => .ok data

/-- A value with its marker: the encoding of objects, and what object joins compare. -/
def encodeObject (c : Codec) (v : Value) : Except Error Bytes := do
  let r ← c.resolverOf v
  let data ← encodeData r v
  .ok (data ++ [Key.markerDelimiter, r.marker])

/-- A value as the field of a position. All positions but the object take resources only. -/
def encodeField (c : Codec) (position : Position) (v : Value) : Except Error Bytes :=
  if position = .object then c.encodeObject v
  else if v.isResource then encodeData c.resource v
  else .error (.invalidValue s!"{position.name} must be a resource, got {v.display}")

/-- The value of an encoding with a marker. -/
def decodeObject (c : Codec) (bytes : Bytes) : Except Error Value :=
  match bytes.reverse with
  | marker :: delimiter :: data =>
    if delimiter = Key.markerDelimiter then
      match c.byMarker marker with
      | none => .error (.unsupportedType s!"marker {byteText marker}")
      | some r =>
        (r.read data.reverse).map fun s =>
          match r.datatype with
          | none => .resource s
          | some datatype => .literal s datatype
    else .error (missingSuffix bytes)
  | _ => .error (missingSuffix bytes)
where
  /-- The error for bytes that do not end in a marker. -/
  missingSuffix (bytes : Bytes) : Error :=
    .decode s!"missing type suffix in {Text.quote (Text.Utf8.decodeLossy bytes)}"

/-- The value of the field of a position. -/
def decodeField (c : Codec) (position : Position) (bytes : Bytes) : Except Error Value :=
  if position = .object then c.decodeObject bytes
  else (c.resource.read bytes).map .resource

end Codec

end TripleIndex
