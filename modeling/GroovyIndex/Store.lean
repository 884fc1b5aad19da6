import GroovyIndex.Error
import GroovyIndex.Snapshot
import GroovyIndex.Source.UriMap

/-!
# Store of documents

The store keeps the latest completed snapshot of every open document. Builds are numbered as they
start. Of several refreshes under way the one that ends last wins, if its parser delivers. A
snapshot is filed under the URI that the parsed document itself carries.
-/

namespace GroovyIndex

/-- The current snapshots, and the number of builds started. -/
structure Store where
  documents : UriMap Snapshot
  generation : Nat

/-- How the parsing for a refresh ends. -/
inductive ParseOutcome where
  | parsed (result : ParsedModule)
  | failed (error : ServiceError)
  /-- The refresh is called off before the parser delivers. -/
  | cancelled

namespace Store

/-- The store without documents. -/
def empty : Store := ⟨.empty, 0⟩

/-- Files a snapshot as the current one of its document. -/
def install (store : Store) (s : Snapshot) : Store :=
  ⟨store.documents.put s.uri s, store.generation⟩

/-- Starts a build: its number, and the store that has counted it. -/
def startBuild (store : Store) : Nat × Store :=
  (store.generation + 1, ⟨store.documents, store.generation + 1⟩)

/-- Indexes a parsed document and makes it current. -/
def update (store : Store) (parsed : ParsedModule) : Snapshot × Store :=
  let (generation, store) := store.startBuild
  let s := Snapshot.ofParsed parsed generation
  (s, store.install s)

/-- Ends a refresh that took the given number. A failed or cancelled one changes nothing. -/
def endRefresh (store : Store) (generation : Nat) :
    ParseOutcome → Except ServiceError (Option Snapshot) × Store
  | .parsed result =>
    let s := Snapshot.ofParsed result generation
    (.ok (some s), store.install s)
  | .failed error => (.error error, store)
  | .cancelled => (.ok none, store)

/-- A refresh without a pause between its start and its end. -/
def refresh (store : Store) (outcome : ParseOutcome) :
    Except ServiceError (Option Snapshot) × Store :=
  let (generation, store) := store.startBuild
  store.endRefresh generation outcome

/-- The current snapshot of a document. -/
def snapshot (store : Store) (uri : Uri) : Except QueryError Snapshot :=
  match store.documents.get? uri with
  | some s => .ok s
  | none => .error (.staleIndex uri.text)

/-- A document has a current snapshot. -/
def isOpen (store : Store) (uri : Uri) : Bool := (store.documents.get? uri).isSome

/-- Drops the snapshot of a document, and tells whether there was one. -/
def close (store : Store) (uri : Uri) : Bool × Store :=
  (store.isOpen uri, ⟨store.documents.erase uri, store.generation⟩)

/-- The open documents. -/
def uris (store : Store) : List Uri := store.documents.uris

/-- The number of open documents. -/
def size (store : Store) : Nat := store.documents.size

end Store

end GroovyIndex
