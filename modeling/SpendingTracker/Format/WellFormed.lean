import SpendingTracker.Model.AmountField
import SpendingTracker.Sync.Ids

/-!
# Well-formed transactions

The screens accept only transactions with an id, one of the two types, an amount of at most
six digits and a date.  Being well-formed in this sense survives being stored, edited, updated
in the database and loaded, although a category may get lost on the way.
-/

namespace SpendingTracker

open Lib

/-- What the screens guarantee of a transaction. -/
structure Transaction.WellFormed (t : Transaction) : Prop where
  id : t.id ≠ none
  transactionType : t.transactionType = some .income ∨ t.transactionType = some .expense
  amount : ∃ amount, t.amount = some amount ∧ AmountInRange amount
  date : t.date ≠ none

/-- The document stores a well-formed transaction. -/
def StoresWellFormed [FIRTimestamp] (d : Doc) : Prop :=
  ∃ t : Transaction, t.WellFormed ∧ recordOf d.data = t.record

/-- What the screens guarantee of an edit. -/
structure Edit.WellFormed (e : Edit) : Prop where
  transactionType : e.transactionType = some .income ∨ e.transactionType = some .expense
  amount : AmountInRange e.amount

namespace Transaction.WellFormed

variable {t : Transaction}

lemma edited (h : t.WellFormed) {e : Edit} (he : e.WellFormed) : (t.edited e).WellFormed where
  id := h.id
  transactionType := he.transactionType
  amount := ⟨e.amount, rfl, he.amount⟩
  date := by simp [Transaction.edited]

/-- Loading may lose the category and change the date. -/
lemma reloaded [FIRTimestamp] (h : t.WellFormed) : t.reloaded.WellFormed where
  id := h.id
  transactionType := by rcases h.transactionType with hk | hk <;> simp [Transaction.reloaded, hk]
  amount := h.amount
  date := by simpa [Transaction.reloaded] using h.date

lemma make {id : String} {transactionType : TransactionType} {category : Category}
    {amount : Int64} {date : Date} (hk : transactionType ≠ .none) (ha : AmountInRange amount) :
    (Transaction.make id transactionType category amount date).WellFormed where
  id := by simp [Transaction.make]
  transactionType := by
    cases transactionType with
    | income => exact Or.inl rfl
    | expense => exact Or.inr rfl
    | none => exact absurd rfl hk
  amount := ⟨amount, rfl, ha⟩
  date := by simp [Transaction.make]

end Transaction.WellFormed

namespace StoresWellFormed

variable [FIRTimestamp] {d : Doc}

lemma decode (h : StoresWellFormed d) : (SpendingTracker.decode d.data).WellFormed := by
  obtain ⟨t, ht, hrecord⟩ := h
  rw [decode_eq, hrecord, Transaction.decode_record]
  exact ht.reloaded

/-- An update with the fields of a well-formed transaction, of whatever id. -/
lemma overwrite (h : StoresWellFormed d) {t : Transaction} (ht : t.WellFormed) :
    StoresWellFormed (d.overwrite t.updateData) := by
  obtain ⟨t₀, ht₀, hrecord⟩ := h
  refine ⟨{ t with id := t₀.id }, ⟨ht₀.id, ht.transactionType, ht.amount, ht.date⟩, ?_⟩
  have hid : docId d = storedId t₀ := docId_eq_of_record hrecord
  exact recordOf_overwrite (t := { t with id := t₀.id }) hid

lemma addDocumentData {t : Transaction} (ht : t.WellFormed) (i userId : String) :
    StoresWellFormed ⟨i, t.addDocumentData userId⟩ :=
  ⟨t, ht, Transaction.recordOf_addDocumentData t userId⟩

end StoresWellFormed

namespace App

variable {s s' : App} {e : Event}

/-- The events the screens can cause: well-formed transactions with fresh ids are added,
existing objects are edited in a well-formed way. -/
def WellFormedEvent (s : App) : Event → Prop
  | .add added index => s.FreshIds (.add added index) ∧ ∀ p ∈ added, p.1.WellFormed
  | .save _ edit => edit.WellFormed
  | .remote _ => False
  | _ => True

lemma WellFormedEvent.freshIds (h : s.WellFormedEvent e) : s.FreshIds e := by
  cases e with
  | add added index => exact h.1
  | remote c => exact h
  | _ => trivial

variable [FIRTimestamp]

/-- Every transaction is well-formed, wherever it is kept, and the ids are distinct. -/
structure WellKept (s : App) : Prop where
  objects : ∀ t ∈ s.heap.cells, t.WellFormed
  documents : ∀ d ∈ s.collection.documents, StoresWellFormed d
  answers : ∀ q ∈ s.requests, ∀ documents, q.answer = some documents →
    ∀ d ∈ documents, StoresWellFormed d
  /-- An outstanding update has captured an existing object. -/
  updates : ∀ q ∈ s.requests, ∀ x r, q.query = .updateTransactionInDatabase x r →
    r < s.heap.size
  shared : ∀ r ∈ s.shared, r < s.heap.size
  ids : s.IdsKept fun _ => True

namespace WellKept

lemma transaction (h : s.WellKept) {r : Ref} (hr : r < s.heap.size) :
    (s.transaction r).WellFormed :=
  h.objects _ (Heap.read_mem hr)

/-- The objects stay well-formed. -/
lemma objects_step (h : s.WellKept) (he : s.WellFormedEvent e) (hs : s.step e = some s') :
    ∀ t ∈ s'.heap.cells, t.WellFormed := by
  have hstore := step_store hs
  generalize s'.heap = heap, s'.shared = shared at hstore
  intro t ht
  cases hstore with
  | @fetched _ v documents hf =>
      obtain ⟨i, refused, -, hi⟩ := fetched_eq_some_iff.mp hf
      rcases List.mem_append.mp ht with ht | ht
      · exact h.objects t ht
      · obtain ⟨d, hd, rfl⟩ := List.mem_map.mp ht
        exact (h.answers _ (List.mem_of_getElem? hi) documents rfl d hd).decode
  | @added added index front back hshared =>
      rcases List.mem_append.mp ht with ht | ht
      · exact h.objects t ht
      · obtain ⟨p, hp, rfl⟩ := List.mem_map.mp ht
        exact he.2 p hp
  | @saved r edit _ hr _ =>
      rcases List.mem_or_eq_of_mem_set ht with ht | rfl
      · exact h.objects t ht
      · exact (h.transaction hr).edited he
  | removed => exact h.objects t ht
  | unchanged _ _ => exact h.objects t ht

/-- The documents stay well-formed. -/
lemma documents_step (h : s.WellKept) (he : s.WellFormedEvent e) (hs : s.step e = some s') :
    ∀ d ∈ s'.collection.documents, StoresWellFormed d := by
  intro d hd
  have hcollection := step_collection hs
  generalize s'.collection = c at hcollection hd
  cases hcollection with
  | deleted _ => exact h.documents d (Collection.mem_deleteAll.mp hd).1
  | overwritten hi =>
      obtain ⟨d₀, hd₀, rfl⟩ := Collection.mem_updateAll.mp hd
      split_ifs
      · exact (h.documents d₀ hd₀).overwrite
          (h.transaction (h.updates _ (List.mem_of_getElem? hi) _ _ rfl))
      · exact h.documents d₀ hd₀
  | added hnodup hnew =>
      rw [documents_collectionAfterAdd hnodup hnew, List.mem_append] at hd
      rcases hd with hd | hd
      · exact h.documents d hd
      · cases hu : s.currentUser with
        | none => simp [hu] at hd
        | some u =>
            simp only [hu] at hd
            obtain ⟨t, i, hmem, rfl⟩ := mem_newDocuments.mp hd
            exact .addDocumentData (he.2 _ hmem) i u
  | remote => exact he.elim
  | unchanged => exact h.documents d hd

/-- What the queries find is well-formed. -/
lemma answers_step (h : s.WellKept) (he : s.WellFormedEvent e) (hs : s.step e = some s') :
    ∀ q ∈ s'.requests, ∀ documents, q.answer = some documents →
      ∀ d ∈ documents, StoresWellFormed d := by
  intro q hq documents ha d hd
  rcases step_answers hs hq ha with hold | hperm
  · exact h.answers q hold documents ha d hd
  · exact h.documents_step he hs d (Query.mem_select.mp (hperm.mem_iff.mp hd)).1

/-- Every event of the screens keeps everything well-formed. -/
theorem step (h : s.WellKept) (he : s.WellFormedEvent e) (hs : s.step e = some s') :
    s'.WellKept where
  objects := h.objects_step he hs
  documents := h.documents_step he hs
  answers := h.answers_step he hs
  updates q hq x r hquery := by
    obtain ⟨hsize, -⟩ := (step_store hs).lt_size h.shared
    rcases step_queries hs hq with ⟨q₀, hq₀, heq⟩ | hissues
    · exact (h.updates q₀ hq₀ x r (heq.trans hquery)).trans_le hsize
    · rw [hquery] at hissues
      cases hissues with
      | update hr _ => exact hr.trans_le hsize
  shared := ((step_store hs).lt_size h.shared).2
  ids := h.ids.step he.freshIds (fun _ _ _ => trivial) hs

end WellKept

end App

end SpendingTracker
