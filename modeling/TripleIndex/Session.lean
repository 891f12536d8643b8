/-
  Sessions: a store that records its scans, an engine over it, and open cursors by name. A cursor
  that loses its name is let go of. Scans that no cursor reads any more are kept, so that every
  closing is counted.
-/
import TripleIndex.Session.Command

namespace TripleIndex

/-- A store, an engine over it, and open cursors. -/
structure Session where
  engine : Engine
  recorder : Recorder
  /-- The open cursors, each name once. -/
  handles : List (String × Handle)
  /-- Scans that were opened and that no cursor reads any more. -/
  released : List ScanCursor

namespace Session

/-- The most items that are drained at once. -/
def drainLimit : Nat := 200

/-- The session of an empty store. -/
def start (engineConfig storeConfig : Config) (c : Codec) (faults : List Fault) : Session :=
  ⟨Engine.ofConfig engineConfig c, Recorder.ofStore (Store.empty storeConfig) faults, [], []⟩

/-- The cursor of a name. -/
def handle? (session : Session) (name : String) : Option Handle :=
  session.handles.lookup name

/-- How far the join of a name has come. -/
def joinState? (session : Session) (name : String) : Option MergeState :=
  (session.handle? name).bind Handle.state?

/-- The number of times that scans were closed. -/
def closes (session : Session) : Nat :=
  let scans := session.released ++ session.handles.flatMap fun (_, h) => h.scans
  (scans.map ScanCursor.closes).foldl (· + ·) 0

/-- Put a cursor in the place of the one of its name, which is still in use. -/
def update (session : Session) (name : String) (h : Handle) : Session :=
  { session with
    handles := (name, h) :: session.handles.filter fun (other, _) => other ≠ name }

/-- Let go of the cursor of a name. -/
def drop (session : Session) (name : String) : Session :=
  match session.handle? name with
  | none => session
  | some h =>
    { session with
      handles := session.handles.filter fun (other, _) => other ≠ name
      released := session.released ++ h.release.scans }

/-- Keep a new cursor under a name, letting go of the one that had it. -/
def keep (session : Session) (name : String) (h : Handle) : Session :=
  (session.drop name).update name h

/-- Let go of every cursor. -/
def finish (session : Session) : Session :=
  session.handles.foldl (fun session (name, _) => session.drop name) session

/-- Remember scans that were closed on the way. -/
def release (session : Session) (scans : List ScanCursor) : Session :=
  { session with released := session.released ++ scans }

/-- Change the store. -/
def setStore (session : Session) (store : Store) : Session :=
  { session with recorder := { session.recorder with store := store } }

/-- Insert statements up to the first that fails. -/
def load (session : Session) : List Statement → Reply × Session
  | [] => (.done, session)
  | s :: statements =>
    match session.recorder.store.insert session.engine.codec s with
    | .error e => (.failed (.store e), session)
    | .ok store => (session.setStore store).load statements

/-- Remove a statement. -/
def remove (session : Session) (s : Statement) : Reply × Session :=
  match session.recorder.store.remove session.engine.codec s with
  | .error e => (.failed (.store e), session)
  | .ok (found, store) => (.removed found, session.setStore store)

/-- Open a scan. -/
def scan (session : Session) (plan : ScanPlan) (name : String) : Reply × Session :=
  match session.recorder.scan plan with
  | (.error e, recorder) => (.failed (.store e), { session with recorder := recorder })
  | (.ok cursor, recorder) =>
    (.opened, { session with recorder := recorder }.keep name (.rows cursor))

/-- Keep the statements that a query found. -/
def keepStatements (session : Session) (name : String)
    (found : Except QueryError (Statements ScanCursor) × Recorder) : Reply × Session :=
  let session := { session with recorder := found.2 }
  match found.1 with
  | .error e => (.failed (.query e), session)
  | .ok input => (.openedOn input.layout, session.keep name (.statements input))

/-- Keep a join that was opened, and the scans that were closed on the way. -/
def keepJoin {α σ : Type} (session : Session) (name : String) (wrap : α → Handle)
    (scanOf : σ → ScanCursor) (found : Opening α σ × Recorder) : Reply × Session :=
  let session := { session with recorder := found.2 }.release (found.1.released.map scanOf)
  match found.1.outcome with
  | .error e => (.failed (.query e), session)
  | .ok join => (.opened, session.keep name (wrap join))

/-- Make a cursor of statements peekable. -/
def makePeekable (session : Session) (name : String) : Reply × Session :=
  match (session.handle? name).bind Handle.peekable? with
  | none => (.noSuchHandle, session)
  | some h => (.done, session.update name h)

/-- Read the cursor of a name. -/
def next (session : Session) (name : String) : Reply × Session :=
  match session.handle? name with
  | none => (.noSuchHandle, session)
  | some h =>
    match h.next with
    | (.ok found, h) => (.item found, session.update name h)
    | (.error e, h) => (.failed e, session.update name h)

/-- Read the cursor of a name to its end, or as far as is drained at once. -/
def drain (session : Session) (name : String) : Reply × Session :=
  match session.handle? name with
  | none => (.noSuchHandle, session)
  | some h =>
    let (items, ending, h) := Cursor.drain drainLimit h
    (.drained items ending, session.update name h)

/-- Look at the next item of the peekable cursor of a name. -/
def peek (session : Session) (name : String) : Reply × Session :=
  match (session.handle? name).bind Handle.peek? with
  | none => (.noSuchHandle, session)
  | some (.ok found, h) => (.item (found.map .statement), session.update name h)
  | some (.error e, h) => (.failed (.query e), session.update name h)

/-- Close the cursor of a name. -/
def close (session : Session) (name : String) : Reply × Session :=
  match session.handle? name with
  | none => (.noSuchHandle, session)
  | some h =>
    match h.close with
    | (.ok (), h) => (.done, session.update name h)
    | (.error e, h) => (.failed e, session.update name h)

/-- Run a command. -/
def run (session : Session) : Command → Reply × Session
  | .insert s => session.load [s]
  | .load statements => session.load statements
  | .remove s => session.remove s
  | .insertRow layout row =>
    (.done, session.setStore (session.recorder.store.insertRow layout row))
  | .sizes =>
    let store := session.recorder.store
    (.sizes (Layout.all.map store.size) store.isEmpty, session)
  | .describe =>
    (.description session.engine.config session.recorder.store.config
      session.engine.catalog.layouts, session)
  | .requests => (.requests session.recorder.requests, session)
  | .scan plan name => session.scan plan name
  | .query p name => session.keepStatements name (session.engine.query session.recorder p)
  | .queryIn layout p name =>
    session.keepStatements name (session.engine.queryIn session.recorder layout p)
  | .joinObjects terms name =>
    session.keepJoin name .objectJoin Statements.rows
      (session.engine.joinObjects session.recorder terms)
  | .joinSubjects pairs name =>
    session.keepJoin name .subjectJoin (fun input => input.inner.rows)
      (session.engine.joinSubjects session.recorder pairs)
  | .makePeekable name => session.makePeekable name
  | .next name => session.next name
  | .drain name => session.drain name
  | .peek name => session.peek name
  | .close name => session.close name
  | .drop name => (.dropped (session.handle? name).isSome, session.drop name)

end Session

end TripleIndex
