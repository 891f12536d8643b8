/-
  Statement positions and index layouts. A layout is an order of the positions inside the row
  key. Three layouts cover subject, predicate and object; three more put the context first.
-/
namespace TripleIndex

/-- A field of a statement. -/
inductive Position where
  | subject
  | predicate
  | object
  | context
  deriving DecidableEq

/-- The word for a position. -/
def Position.name : Position → String
  | .subject => "subject"
  | .predicate => "predicate"
  | .object => "object"
  | .context => "context"

/-- An order of positions in the row key, named by their initials. -/
inductive Layout where
  | spo
  | pos
  | osp
  | cspo
  | cpos
  | cosp
  deriving DecidableEq

namespace Layout

/-- Every layout, in rank order. -/
def all : List Layout := [spo, pos, osp, cspo, cpos, cosp]

/-- The layouts that every statement is written to. -/
def standard : List Layout := [spo, pos, osp]

/-- The layouts whose key starts with the context. -/
def contextFirst : List Layout := [cspo, cpos, cosp]

/-- The place of a layout among all. -/
def rank : Layout → Nat
  | spo => 0
  | pos => 1
  | osp => 2
  | cspo => 3
  | cpos => 4
  | cosp => 5

/-- The first position of the key and the ones after it. -/
def positions : Layout → Position × List Position
  | spo => (.subject, [.predicate, .object])
  | pos => (.predicate, [.object, .subject])
  | osp => (.object, [.subject, .predicate])
  | cspo => (.context, [.subject, .predicate, .object])
  | cpos => (.context, [.predicate, .object, .subject])
  | cosp => (.context, [.object, .subject, .predicate])

/-- The positions of the key, in order. -/
def fields (l : Layout) : List Position :=
  l.positions.1 :: l.positions.2

/-- The first position of the key. -/
def anchor (l : Layout) : Position :=
  l.positions.1

/-- Whether the key starts with the context. -/
def isContextFirst (l : Layout) : Bool :=
  l.anchor = .context

/-- The short name of a layout. -/
def name : Layout → String
  | spo => "spo"
  | pos => "pos"
  | osp => "osp"
  | cspo => "cspo"
  | cpos => "cpos"
  | cosp => "cosp"

/-- The layout of a name. Letter case is ignored; outside ASCII no character has one of the
letters of a name as its lower case. -/
def parse? (s : String) : Option Layout :=
  all.find? fun l => l.name.toList = s.toList.map Char.toLower

/-- The message for a text that names no layout. -/
def unknownMessage (s : String) : String :=
  s!"Unknown layout: {s}"

/-- Layouts by rank, equal ones side by side. -/
def sort (ls : List Layout) : List Layout :=
  ls.mergeSort fun l m => l.rank ≤ m.rank

end Layout

end TripleIndex
