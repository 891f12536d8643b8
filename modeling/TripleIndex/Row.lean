/-
  Rows: a statement as the key of one layout, with its graph in the key or else in the column
  family. With hashed keys the key starts with the hash of its first field.
-/
import TripleIndex.Codec
import TripleIndex.Statement

namespace TripleIndex

/-- One row of a table. -/
structure Row where
  key : Bytes
  family : Bytes
  visibility : Bytes
  timestamp : Option UInt64
  deriving DecidableEq

/-- How statements are written as rows. -/
structure RowFormat where
  codec : Codec
  hashedKeys : Bool

namespace RowFormat

/-- The encoded field of a statement at a position of a layout's key. -/
def field (format : RowFormat) (layout : Layout) (s : Statement) (position : Position) :
    Except Error Bytes := do
  let v ←
    (match position with
    | .subject => .ok s.subject
    | .predicate => .ok s.predicate
    | .object => .ok s.object
    | .context =>
      match s.context with
      | some context => .ok context
      | none =>
        .error (.invalidArgument s!"{layout.name} row requires a context: {s.display}"))
  format.codec.encodeField position v

/-- The column family of a statement: its graph, unless the key holds it. -/
def family (format : RowFormat) (layout : Layout) (s : Statement) : Except Error Bytes :=
  match layout.isContextFirst, s.context with
  | false, some context => format.codec.encodeField .context context
  | _, _ => .ok []

/-- The key of encoded fields. -/
def key (format : RowFormat) (fields : List Bytes) : Bytes :=
  if format.hashedKeys then Key.join (Key.anchorHash (fields.headD []) :: fields)
  else Key.join fields

/-- The row of a statement in one layout. -/
def write (format : RowFormat) (layout : Layout) (s : Statement) : Except Error Row := do
  let fields ← layout.fields.mapM (format.field layout s)
  let family ← format.family layout s
  .ok ⟨format.key fields, family, s.visibility.getD [], s.timestamp⟩

/-- Whether a layout takes a statement: the default graph has no row that starts with a graph. -/
def applies (layout : Layout) (s : Statement) : Bool :=
  s.context.isSome || !layout.isContextFirst

/-- The rows of a statement in those of the layouts that take it. -/
def writeAll (format : RowFormat) (layouts : List Layout) (s : Statement) :
    Except Error (List (Layout × Row)) :=
  (layouts.filter fun layout => applies layout s).mapM fun layout =>
    (format.write layout s).map fun row => (layout, row)

/-- The part of a key behind its hash, which has to be that of the first field. -/
def unhash? (key : Bytes) : Option Bytes :=
  match Key.splitFirst? key with
  | none => none
  | some (hash, body) =>
    let anchor := ((Key.splitFirst? body).map Prod.fst).getD body
    if Key.anchorHash anchor = hash then some body else none

/-- The values of encoded fields. -/
def readFields (format : RowFormat) :
    List Position → List Bytes → Except Error (List (Position × Value))
  | position :: positions, field :: fields => do
    let v ← format.codec.decodeField position field
    let vs ← readFields format positions fields
    .ok ((position, v) :: vs)
  | _, _ => .ok []

/-- The graph of a column family; an empty one is the default graph. -/
def readContext (c : Codec) (family : Bytes) : Except Error (Option Value) :=
  if family = [] then .ok none else (c.decodeField .context family).map some

/-- The statement of a row in one layout. -/
def read (format : RowFormat) (layout : Layout) (row : Row) : Except Error Statement := do
  let shown := Text.quote (Text.Utf8.decodeLossy row.key)
  let body ←
    (if format.hashedKeys then
      match unhash? row.key with
      | some body => .ok body
      | none =>
        .error (.decode s!"{layout.name} row does not carry a valid hash prefix: {shown}")
    else .ok row.key)
  let count := layout.fields.length
  let fields ←
    (match Key.split? count body with
    | some fields => .ok fields
    | none => .error (.decode s!"{layout.name} row has fewer than {count} fields: {shown}"))
  let values ← format.readFields layout.fields fields
  let context ←
    (if layout.isContextFirst then .ok (values.lookup .context)
    else readContext format.codec row.family)
  match values.lookup .subject, values.lookup .predicate, values.lookup .object with
  | some subject, some predicate, some object =>
    let s := ((Statement.triple subject predicate object).inContext? context).visibleTo
      row.visibility
    .ok { s with timestamp := row.timestamp }
  | _, _, _ => .error (.decode s!"{layout.name} row is missing a field")

end RowFormat

end TripleIndex
