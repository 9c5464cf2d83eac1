import SpendingTracker.Lib.Heap
import SpendingTracker.Lib.Run
import SpendingTracker.Model.Firestore

/-!
# The app as an event-driven program

The state that the controllers, `TransactionsManager.shared` and Firebase share, and the
handlers and callbacks that change it:

* `Models/TransactionsManager.swift`: the store of transactions and its writes to Firestore;
* `Controllers/LoginViewController.swift`: the auth-state listeners and the loader;
* the effect of `saveButtonClicked` in `Controllers/TransactionDetailTableViewController.swift`.

Handlers run to completion on the main thread.  What interleaves is the order in which
handlers and callbacks run, and the instants at which Firestore evaluates the queries that the
callbacks wait for.  An `Event` is one such occurrence and `App.step` its effect; `none` means
that the event cannot occur, or that the app traps.
-/

namespace SpendingTracker

open Lib

/-- A `getDocuments` query whose callback has not run yet. -/
inductive Query
  /-- All documents of a user; the callback replaces the store. -/
  | getTransactionsForUser (userId : String)
  /-- All documents with a transaction's id; the callback deletes them. -/
  | removeTransactionFromDatabase (transactionId : String)
  /-- All documents with a transaction's id; the callback overwrites their fields with those
  of the captured object. -/
  | updateTransactionInDatabase (transactionId : String) (transaction : Ref)
deriving DecidableEq

/-- The documents a query selects: the argument of `whereField(_:isEqualTo:)`. -/
def Query.select (q : Query) (c : Transactions) : List Doc :=
  match q with
  | getTransactionsForUser userId => c.whereField "user_id" (.string userId)
  | removeTransactionFromDatabase transactionId => c.whereField "id" (.string transactionId)
  | updateTransactionInDatabase transactionId _ => c.whereField "id" (.string transactionId)

/-- An outstanding query.  Firestore evaluates it at some instant between its issue and the
run of its callback. -/
structure Request where
  query : Query
  /-- The documents the query has found, once it has been evaluated. -/
  answer : Option (List Doc)
deriving DecidableEq

/-- How a query ends for its callback. -/
inductive Outcome
  /-- The callback is passed an error. -/
  | failed
  /-- The callback is passed the documents found.  Of the writes it issues for them, those to
  the documents `refused` fail. -/
  | succeeded (refused : List String)
deriving DecidableEq

/-- The values the edit screen writes into a transaction when it is saved. -/
structure Edit where
  transactionType : Option TransactionType
  category : Option Category
  amount : Int64
  date : Date
deriving DecidableEq

/-- The assignments at the start of `saveButtonClicked`. -/
def Transaction.edited (t : Transaction) (e : Edit) : Transaction :=
  { t with
    transactionType := e.transactionType
    category := e.category
    amount := some e.amount
    date := some e.date }

/-- The state shared by the controllers and the callbacks. -/
structure App where
  /-- The `Transaction` objects. -/
  heap : Heap Transaction
  /-- `TransactionsManager.shared.transactions`. -/
  shared : List Ref
  /-- `Auth.auth().currentUser?.uid`. -/
  currentUser : Option String
  /-- The registered auth-state listeners, each with the number of calls it is still to get. -/
  listeners : List ℕ
  /-- The collection `"transactions"`. -/
  collection : Transactions
  /-- The queries whose callbacks have not run yet. -/
  requests : List Request
deriving DecidableEq

namespace App

/-- The app before its first screen appears. -/
def launch (c : Transactions) : App := ⟨⟨[]⟩, [], none, [], c, []⟩

/-- The transaction object behind a reference. -/
def transaction (s : App) (r : Ref) : Transaction := s.heap.read r

/-- Leave a query with Firestore. -/
def issue (s : App) (q : Query) : App := { s with requests := s.requests ++ [⟨q, none⟩] }

/-! ### `TransactionsManager` -/

def getTransactions (s : App) : List Ref := s.shared

def setTransactions (s : App) (transactions : List Ref) : App := { s with shared := transactions }

section Operations

variable [FIRTimestamp]

/-- The documents that come into being when the given transactions are added: a transaction
is paired with the identifier its document is given, or with `none` if its write fails. -/
def newDocuments (userId : String) (added : List (Transaction × Option String)) : List Doc :=
  added.filterMap fun p => p.2.map fun documentID => ⟨documentID, p.1.addDocumentData userId⟩

/-- `addTransactionsToDatabase`: nothing is written unless a user is signed in. -/
def addTransactionsToDatabase (s : App) (added : List (Transaction × Option String)) : App :=
  match s.currentUser with
  | none => s
  | some userId => { s with collection := s.collection.addAll (newDocuments userId added) }

/-- `Array.insert(contentsOf:at:)`, which traps when the position is past the end. -/
def insertAt (transactions new : List Ref) (index : ℕ) : Option (List Ref) :=
  if index ≤ transactions.length then
    some (transactions.take index ++ new ++ transactions.drop index)
  else none

/-- `addTransactions(transactionsToAdd:indexToInsertAfter:)`.  The second component is the
returned array. -/
def addTransactions (s : App) (transactionsToAdd : List Ref) (indexToInsertAfter : Option ℕ)
    (writes : List (Option String)) : Option (App × List Ref) :=
  let transactions : Option (List Ref) :=
    match indexToInsertAfter with
    | some index => insertAt s.shared transactionsToAdd index
    | none => some (s.shared ++ transactionsToAdd)
  -- the store has the entries before their documents are written, and keeps them if a write fails
  transactions.map fun ts =>
    let s' := addTransactionsToDatabase { s with shared := ts }
      ((transactionsToAdd.map s.transaction).zip writes)
    (s', s'.shared)

end Operations

/-- `removeTransactionFromDatabase`. -/
def removeTransactionFromDatabase (s : App) (transactionId : String) : App :=
  s.issue (.removeTransactionFromDatabase transactionId)

/-- `removeTransaction(transactionId:)`.  The second component is the returned array. -/
def removeTransaction [StringEquality] (s : App) (transactionId : Option String) :
    App × Option (List Ref) :=
  match transactionId with
  | none => (s, none)
  | some x =>
      let s' := removeTransactionFromDatabase
        { s with shared := s.shared.filter fun r => ¬ Same (s.transaction r).id (some x) } x
      (s', some s'.shared)

/-- `updateTransactionInDatabase`, which unwraps the transaction's id. -/
def updateTransactionInDatabase (s : App) (r : Ref) : Option App :=
  (s.transaction r).id.map fun x => s.issue (.updateTransactionInDatabase x r)

/-- `updatetransaction`: the first entry of the store with an equal id, if there is one, is
replaced by the given object. -/
def updatetransaction [StringEquality] (s : App) (transaction : Option Ref) : Option App :=
  match transaction with
  | none => some s
  | some r =>
      match s.shared.findIdx? fun x => Same (s.transaction x).id (s.transaction r).id with
      -- only a transaction of the store is updated in the database
      | some i => updateTransactionInDatabase { s with shared := s.shared.set i r } r
      | none => some s

/-! ### Handlers of the screens -/

/-- The end of `addTransactionButtonClicked`, for any list of new `Transaction` objects. -/
def add [FIRTimestamp] (s : App) (added : List (Transaction × Option String)) (index : Option ℕ) :
    Option (App × List Ref) :=
  let ts := added.map Prod.fst
  addTransactions { s with heap := s.heap.create ts } (s.heap.created ts) index
    (added.map Prod.snd)

/-- `saveButtonClicked` once the input has been checked: the object is changed first. -/
def save [StringEquality] (s : App) (r : Ref) (e : Edit) : Option App :=
  updatetransaction { s with heap := s.heap.write r ((s.transaction r).edited e) } (some r)

/-! ### Signing in and out -/

/-- The auth state has changed: each listener is to be called once more. -/
def notifyListeners (s : App) : App := { s with listeners := s.listeners.map (· + 1) }

/-- `viewDidAppear` of the login screen: `checkLoggedIn` registers a listener, which is called
once for the registration.  Nothing ever removes it. -/
def viewDidAppear (s : App) : App := { s with listeners := s.listeners ++ [1] }

/-- `Auth.auth().signIn` has succeeded. -/
def signIn (s : App) (userId : String) : App :=
  -- the auth state changes only with the user, so a second sign-in calls no listener
  if s.currentUser = some userId then s
  else notifyListeners { s with currentUser := some userId }

/-- `signOut` in `logoutButtonClicked`. -/
def signOut (s : App) : App :=
  if s.currentUser = none then s else notifyListeners { s with currentUser := none }

/-- A listener is called with the current user. -/
def callListener (s : App) (i : ℕ) : Option App :=
  match s.listeners[i]? with
  | some (n + 1) =>
      let s' := { s with listeners := s.listeners.set i n }
      match s'.currentUser with
      | some userId => some (s'.issue (.getTransactionsForUser userId))
      -- the listener returns at once when no user is signed in
      | none => some s'
  | _ => none

/-! ### The callbacks of the queries -/

/-- The loader: one new object per document, and all of them become the store. -/
def load [FIRTimestamp] (s : App) (documents : List Doc) : App :=
  let ts := documents.map fun d => decode d.data
  setTransactions { s with heap := s.heap.create ts } (s.heap.created ts)

/-- The session of the user `u` after the documents found by `getTransactionsForUser` have been
loaded. -/
def session [FIRTimestamp] (u : String) (documents : List Doc) (c : Transactions) : App :=
  load ⟨⟨[]⟩, [], some u, [], c, []⟩ documents

/-- The documents of a reply whose writes do not fail. -/
def written (documents : List Doc) (refused : List String) : List String :=
  (documents.map Document.documentID).filter (· ∉ refused)

/-- The callback of a query that has found the given documents. -/
def callback [FIRTimestamp] (s : App) (q : Query) (documents : List Doc) (refused : List String) :
    App :=
  match q with
  | .getTransactionsForUser _ => s.load documents
  | .removeTransactionFromDatabase _ =>
      { s with collection := s.collection.deleteAll (written documents refused) }
  | .updateTransactionInDatabase _ r =>
      -- the object is read now, and not when the query was issued
      { s with
        collection :=
          s.collection.updateAll (written documents refused) (s.transaction r).updateData }

/-- The outstanding query `i` is evaluated; the documents come in any order. -/
def answer (s : App) (i : ℕ) (documents : List Doc) : Option App :=
  match s.requests[i]? with
  | some ⟨q, none⟩ =>
      if documents.Perm (q.select s.collection) then
        some { s with requests := s.requests.set i ⟨q, some documents⟩ }
      else none
  | _ => none

/-- The callback of the outstanding query `i` runs. -/
def deliver [FIRTimestamp] (s : App) (i : ℕ) (outcome : Outcome) : Option App :=
  match s.requests[i]?, outcome with
  -- a callback may be passed an error whether or not its query has been evaluated
  | some _, .failed => some { s with requests := s.requests.eraseIdx i }
  | some ⟨q, some documents⟩, .succeeded refused =>
      some (callback { s with requests := s.requests.eraseIdx i } q documents refused)
  | _, _ => none

/-- A document identifier that occurs in the collection or in an answer on its way. -/
def Knows (s : App) (documentID : String) : Prop :=
  documentID ∈ s.collection.ids ∨
    ∃ q ∈ s.requests, documentID ∈ (q.answer.getD []).map Document.documentID

instance (s : App) (documentID : String) : Decidable (s.Knows documentID) :=
  inferInstanceAs (Decidable (_ ∨ _))

end App

/-! ### The step function -/

/-- What can happen next. -/
inductive Event
  /-- A login screen appears. -/
  | viewDidAppear
  | signIn (userId : String)
  | signOut
  /-- A listener is called. -/
  | callListener (listener : ℕ)
  /-- Firestore evaluates an outstanding query. -/
  | answer (request : ℕ) (documents : List Doc)
  /-- The callback of an outstanding query runs. -/
  | deliver (request : ℕ) (outcome : Outcome)
  /-- Transactions are added; each is paired with the identifier of its document, or with
  `none` if the write fails. -/
  | add (added : List (Transaction × Option String)) (index : Option ℕ)
  /-- An edit of an object is saved. -/
  | save (transaction : Ref) (edit : Edit)
  /-- A transaction is deleted. -/
  | remove (transactionId : Option String)
  /-- Other devices change the collection. -/
  | remote (collection : Transactions)
deriving DecidableEq

/-- The event is caused neither by a button of a screen nor by another device. -/
def Event.Background : Event → Bool
  | .viewDidAppear | .signIn _ | .signOut | .callListener _ | .answer _ _ | .deliver _ _ => true
  | .add _ _ | .save _ _ | .remove _ | .remote _ => false

/-- The effect of an event.  Generated document identifiers are pairwise distinct and new, and
only an existing object can be edited. -/
def App.step [StringEquality] [FIRTimestamp] (s : App) : Event → Option App
  | .viewDidAppear => some s.viewDidAppear
  | .signIn userId => some (s.signIn userId)
  | .signOut => some s.signOut
  | .callListener i => s.callListener i
  | .answer i documents => s.answer i documents
  | .deliver i outcome => s.deliver i outcome
  | .add added index =>
      let new := added.filterMap Prod.snd
      if new.Nodup ∧ ∀ i ∈ new, ¬ s.Knows i then (s.add added index).map Prod.fst else none
  | .save r e => if r < s.heap.size then s.save r e else none
  | .remove transactionId => some (s.removeTransaction transactionId).1
  | .remote c => some { s with collection := c }

end SpendingTracker
