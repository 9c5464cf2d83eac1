import Mathlib.Data.Fintype.Basic
import SpendingTracker.Lib.Clients
import SpendingTracker.Sync.Ids

/-!
# Many devices

Any number of devices run the app, with the same user or with different ones, and all of them
write to one collection.  Nothing coordinates them: a device sees the changes of the others only
when one of its queries is evaluated.

What the devices do guarantee to each other is stated by `App.Tolerates`: documents keep their
identity, and new documents are new to everybody.  It is enough for the answers on their way to
stay sound, so that two facts hold of every run of all the devices: no document is ever a
mixture of two versions (`Devices.written_whole`), and a deleted transaction never comes back
(`Devices.deleted_for_good`).
-/

namespace SpendingTracker

open Lib

/-- The collection, as the component that all devices share. -/
def sharedCollection : Component App Transactions where
  get := App.collection
  put c s := { s with collection := c }
  get_put _ _ := rfl

/-- The states of the devices. -/
abbrev Devices (ι : Type*) := ι → App

namespace App

/-- The id `x` occurs on the device, in an answer on its way, or in a document. -/
def Mentions (s : App) (x : String) : Prop :=
  s.Uses x ∨ ∃ q ∈ s.requests, ∃ d ∈ q.answer.getD [], docId d = some (.string x)

instance (s : App) (x : String) : Decidable (s.Mentions x) := inferInstanceAs (Decidable (_ ∨ _))

/-- What a device can rely on when the others change the collection to `c`: a document is a
version of one from before, or it is new and carries a new id. -/
def Tolerates (s : App) (c : Transactions) : Prop :=
  ∀ d ∈ c.documents, (∃ d₀ ∈ s.collection.documents, SameDocument d₀ d) ∨
    ¬ s.Knows d.documentID ∧ ∃ x, docId d = some (.string x) ∧ ¬ s.Mentions x

lemma mentions_of_transaction {s : App} {r : Ref} {x : String}
    (h : (s.transaction r).id = some x) : s.Mentions x := Or.inl (uses_of_transaction h)

lemma mentions_of_query {s : App} {q : Request} {x : String} (hq : q ∈ s.requests)
    (h : q.query.transactionId = some x) : s.Mentions x := Or.inl (Or.inr (Or.inr ⟨q, hq, h⟩))

lemma mentions_of_answer {s : App} {q : Request} {documents : List Doc} {d : Doc} {x : String}
    (hq : q ∈ s.requests) (ha : q.answer = some documents) (hd : d ∈ documents)
    (h : docId d = some (.string x)) : s.Mentions x :=
  Or.inr ⟨q, hq, d, by simpa [ha] using hd, h⟩

/-- The answers on their way stay sound when the others change the collection. -/
lemma AnswersSound.of_tolerates {s : App} {c : Transactions} (h : s.AnswersSound)
    (hc : s.Tolerates c) : AnswersSound { s with collection := c } := by
  intro q hq documents ha
  have hsound := h q hq documents ha
  refine ⟨hsound.nodup, hsound.found, fun d hd d' hd' hid => ?_⟩
  rcases hc d' hd' with ⟨d₀, hd₀, hsame⟩ | ⟨hnew, -⟩
  · exact (hsound.same d hd d₀ hd₀ (hsame.documentID.trans hid)).trans hsame
  -- the identifier of a new document occurs in no answer
  · refine absurd (Or.inr ⟨q, hq, ?_⟩) hnew
    rw [ha, hid]
    exact List.mem_map_of_mem hd

/-! ### What is written -/

section Writes

variable {s s' : App} {e : Event}

/-- No event changes the id of an object. -/
lemma id_step [FIRTimestamp] (h : s.step e = some s') {r : Ref} {x : String}
    (hid : (s.transaction r).id = some x) : (s'.transaction r).id = some x := by
  have hlt : r < s.heap.size := IdsDistinct.lt_size_of_id (by simp [hid])
  have hstore := step_store h
  have hread : s'.transaction r = s'.heap.read r := rfl
  rw [hread]
  generalize s'.heap = heap, s'.shared = shared at hstore
  cases hstore with
  | fetched _ => rw [Heap.read_create_of_lt hlt]; exact hid
  | added _ => rw [Heap.read_create_of_lt hlt]; exact hid
  | saved _ _ => rw [id_read_heapAfterSave]; exact hid
  | removed => exact hid
  | unchanged _ _ => exact hid

/-- An outstanding update has captured an object with the id it asks for. -/
def UpdatesCaptured (s : App) : Prop :=
  ∀ q ∈ s.requests, ∀ x r, q.query = .updateTransactionInDatabase x r →
    (s.transaction r).id = some x

lemma UpdatesCaptured.step [FIRTimestamp] (hs : s.UpdatesCaptured) (h : s.step e = some s') :
    s'.UpdatesCaptured := by
  intro q hq x r hquery
  rcases step_queries h hq with ⟨q₀, hq₀, heq⟩ | hissues
  · exact id_step h (hs q₀ hq₀ x r (heq.trans hquery))
  · rw [hquery] at hissues
    cases hissues with
    | update _ hid => exact id_step h hid

/-- A document after an event is unchanged, or it carries the record of one object. -/
theorem step_records [FIRTimestamp] (hlocal : ∀ c, e ≠ .remote c) (sound : s.AnswersSound)
    (captured : s.UpdatesCaptured) (h : s.step e = some s') {d : Doc}
    (hd : d ∈ s'.collection.documents) : d ∈ s.collection.documents ∨
      ∃ r < s'.heap.size, recordOf d.data = (s'.transaction r).record := by
  have hcollection := step_collection h
  generalize hc : s'.collection = c at hcollection hd
  cases hcollection with
  | deleted _ => exact Or.inl (Collection.mem_deleteAll.mp hd).1
  | @overwritten i x r documents refused hi =>
      obtain ⟨d₀, hd₀, rfl⟩ := Collection.mem_updateAll.mp hd
      split_ifs with hw
      · have hq := List.mem_of_getElem? hi
        have hid : (s.transaction r).id = some x := captured _ hq x r rfl
        have hdoc : docId d₀ = storedId (s.transaction r) :=
          ((sound _ hq documents rfl).matches_of_written hd₀ hw).trans
            (storedId_eq_string_iff.mpr hid).symm
        -- the callback reads the object, but does not change it
        obtain ⟨hheap, -⟩ := step_background rfl (by simp [fetched, hi]) h
        refine Or.inr ⟨r, hheap ▸ IdsDistinct.lt_size_of_id (by simp [hid]), ?_⟩
        rw [recordOf_overwrite hdoc, transaction, transaction, hheap]
      · exact Or.inl hd₀
  | @added added index hnodup hnew =>
      rw [documents_collectionAfterAdd hnodup hnew, List.mem_append] at hd
      rcases hd with hd | hd
      · exact Or.inl hd
      · cases hu : s.currentUser with
        | none => simp [hu] at hd
        | some u =>
            simp only [hu] at hd
            obtain ⟨t, i, hmem, rfl⟩ := mem_newDocuments.mp hd
            obtain ⟨-, front, back, -, -, rfl⟩ := step_add_iff.mp h
            have ht : t ∈ (s.heap.created (added.map Prod.fst)).map
                (s.heap.create (added.map Prod.fst)).read := by
              rw [Heap.map_read_created]
              exact List.mem_map_of_mem hmem
            obtain ⟨r, hr, hread⟩ := List.mem_map.mp ht
            refine Or.inr ⟨r, ?_, ?_⟩
            · simpa using (Heap.mem_created.mp hr).2
            · rw [transaction_mk, hread, Transaction.recordOf_addDocumentData]
  | remote => exact absurd rfl (hlocal c)
  | unchanged => exact Or.inl hd

/-- An outstanding deletion is of a transaction that the device holds, and once it has been
evaluated it reaches every document of this transaction. -/
def RemovalsReach (s : App) : Prop :=
  ∀ q ∈ s.requests, ∀ x, q.query = .removeTransactionFromDatabase x →
    (∃ r, (s.transaction r).id = some x) ∧ ∀ documents, q.answer = some documents →
      ∀ d ∈ s.collection.documents, docId d = some (.string x) →
        d.documentID ∈ documents.map Document.documentID

/-- A document that is tolerated although its id is mentioned is an old one. -/
lemma Tolerates.of_mentions {c : Transactions} (hc : s.Tolerates c) {d : Doc}
    (hd : d ∈ c.documents) {x : String} (hx : docId d = some (.string x)) (hm : s.Mentions x) :
    ∃ d₀ ∈ s.collection.documents, SameDocument d₀ d := by
  rcases hc d hd with hold | ⟨-, y, hy, hun⟩
  · exact hold
  · cases hx.symm.trans hy
    exact absurd hm hun

lemma RemovalsReach.of_tolerates {c : Transactions} (h : s.RemovalsReach) (hc : s.Tolerates c) :
    RemovalsReach { s with collection := c } := by
  intro q hq x hquery
  obtain ⟨hheld, hreach⟩ := h q hq x hquery
  refine ⟨hheld, fun documents ha d hd hx => ?_⟩
  have hm : s.Mentions x := mentions_of_query hq (by rw [hquery]; rfl)
  obtain ⟨d₀, hd₀, hsame⟩ := hc.of_mentions hd hx hm
  rw [← hsame.documentID]
  exact hreach documents ha d₀ hd₀ (hsame.id.trans hx)

lemma RemovalsReach.step [FIRTimestamp] (h : s.RemovalsReach)
    (hheld : ∀ x, e = .remove x → ∃ r < s.heap.size, (s.transaction r).id = x)
    (hc : s.Tolerates s'.collection) (hs : s.step e = some s') : s'.RemovalsReach := by
  intro q hq x hquery
  rcases step_requests hs hq with hq | ⟨hnone, hissues⟩ | ⟨q₀, hq₀, documents, rfl, hperm⟩
  · obtain ⟨⟨r, hr⟩, hreach⟩ := h.of_tolerates hc q hq x hquery
    exact ⟨⟨r, id_step hs hr⟩, hreach⟩
  · rw [hquery] at hissues
    cases hissues with
    | remove =>
        obtain ⟨r, -, hr⟩ := hheld _ rfl
        exact ⟨⟨r, id_step hs hr⟩, by simp [hnone]⟩
  · obtain ⟨⟨r, hr⟩, -⟩ := h q₀ hq₀ x hquery
    refine ⟨⟨r, id_step hs hr⟩, ?_⟩
    rintro _ ⟨⟩ d hd hx
    simp only at hquery
    refine List.mem_map_of_mem (hperm.mem_iff.mpr (Query.mem_select.mpr ⟨hd, ?_⟩))
    rw [hquery]
    exact hx

/-- What holds of the outstanding queries of a device, whatever the others do. -/
structure QueriesKept (s : App) : Prop where
  answers : s.AnswersSound
  updates : s.UpdatesCaptured
  removals : s.RemovalsReach

namespace QueriesKept

lemma of_requests_eq_nil (h : s.requests = []) : s.QueriesKept where
  answers := answersSound_of_requests_eq_nil h
  updates := by simp [UpdatesCaptured, h]
  removals := by simp [RemovalsReach, h]

lemma of_tolerates {c : Transactions} (h : s.QueriesKept) (hc : s.Tolerates c) :
    QueriesKept { s with collection := c } where
  answers := h.answers.of_tolerates hc
  updates := h.updates
  removals := h.removals.of_tolerates hc

lemma step [FIRTimestamp] (h : s.QueriesKept) (hlocal : ∀ c, e ≠ .remote c)
    (hheld : ∀ x, e = .remove x → ∃ r < s.heap.size, (s.transaction r).id = x)
    (hc : s.Tolerates s'.collection) (hs : s.step e = some s') : s'.QueriesKept where
  answers := step_answersSound hlocal h.answers hs
  updates := h.updates.step hs
  removals := h.removals.step hheld hc hs

end QueriesKept

end Writes

end App

namespace Devices

variable {ι : Type*}

/-- What the devices do: a device deletes only transactions that it holds, generated
identifiers are new to all devices, and only the devices change the collection. -/
def Proper (S : Devices ι) : ι × Event → Prop
  | (_, .add added _) => (added.map fun p => p.1.id).Nodup ∧
      (∀ p ∈ added, ∃ x ∈ p.1.id, ∀ k, ¬ (S k).Mentions x) ∧
      ∀ i ∈ added.filterMap Prod.snd, ∀ k, ¬ (S k).Knows i
  | (i, .remove x) => ∃ r < (S i).heap.size, ((S i).transaction r).id = x
  | (_, .remote _) => False
  | _ => True

instance [Fintype ι] (S : Devices ι) : DecidablePred S.Proper
  | (_, .add added _) => inferInstanceAs (Decidable ((added.map fun p => p.1.id).Nodup ∧
      (∀ p ∈ added, ∃ x ∈ p.1.id, ∀ k, ¬ (S k).Mentions x) ∧
      ∀ i ∈ added.filterMap Prod.snd, ∀ k, ¬ (S k).Knows i))
  | (i, .remove x) =>
      inferInstanceAs (Decidable (∃ r < (S i).heap.size, ((S i).transaction r).id = x))
  | (_, .remote _) => inferInstanceAs (Decidable False)
  | (_, .viewDidAppear) | (_, .signIn _) | (_, .signOut) | (_, .callListener _) | (_, .answer _ _)
  | (_, .deliver _ _) | (_, .save _ _) => inferInstanceAs (Decidable True)

/-- All devices find the same collection. -/
def Coherent (S : Devices ι) : Prop := sharedCollection.Coherent S

namespace Proper

variable {S : Devices ι} {i : ι} {e : Event} {s : App}

lemma ne_remote (h : S.Proper (i, e)) (c : Transactions) : e ≠ .remote c := by
  rintro rfl
  exact h

/-- A device deletes what it holds. -/
lemma holds (h : S.Proper (i, e)) (x : Option String) (he : e = .remove x) :
    ∃ r < (S i).heap.size, ((S i).transaction r).id = x := by
  subst he
  exact h

/-- A transaction is added with an id that is new to all devices. -/
lemma not_mentions {added : List (Transaction × Option String)} {index : Option ℕ}
    (h : S.Proper (i, .add added index)) {p : Transaction × Option String} (hp : p ∈ added) :
    ∃ x, p.1.id = some x ∧ ∀ k, ¬ (S k).Mentions x := h.2.1 p hp

lemma freshIds (h : S.Proper (i, e)) : (S i).FreshIds e := by
  cases e with
  | add added index =>
      refine ⟨h.1, fun p hp => ?_⟩
      obtain ⟨x, hx, hun⟩ := h.not_mentions hp
      exact ⟨x, hx, fun huses => hun i (Or.inl huses)⟩
  | remote c => exact h
  | _ => trivial

/-- What one device does is tolerated by all the others. -/
lemma tolerates [FIRTimestamp] (h : S.Proper (i, e)) (hcoh : S.Coherent)
    (hs : (S i).step e = some s) (k : ι) : (S k).Tolerates s.collection := by
  have hsame : (S k).collection = (S i).collection := hcoh k i
  intro d hd
  rcases App.step_documents h.ne_remote hs hd with hold | ⟨added, index, u, rfl, -, hnew, -⟩
  · exact Or.inl (hsame ▸ hold)
  · obtain ⟨t, documentID, hmem, rfl⟩ := App.mem_newDocuments.mp hnew
    obtain ⟨x, hx, hun⟩ := h.not_mentions hmem
    exact Or.inr ⟨h.2.2 documentID (List.mem_filterMap.mpr ⟨_, hmem, rfl⟩) k,
      x, storedId_eq_string_iff.mpr hx, hun k⟩

end Proper

variable [DecidableEq ι] {S T U : Devices ι} {i k : ι} {e : Event} {s : App}
  {es es' : List (ι × Event)}

/-- One event on one device. -/
def step [FIRTimestamp] (S : Devices ι) (e : ι × Event) : Option (Devices ι) :=
  sharedCollection.joint App.step S e

/-- **The environment of a device.**  In a run of any number of devices, each of them runs the
app by itself; what the others do reaches it as changes of the collection, and it tolerates each
of these changes. -/
theorem run_alone [FIRTimestamp] (run : Run step S es T) (proper : EachStep step Proper S es)
    (coherent : S.Coherent) (i : ι) :
    let alone := sharedCollection.view App.step .remote i S es
    Run App.step (S i) alone (T i) ∧
      EachStep App.step (fun s e => ∀ c, e = .remote c → s.Tolerates c) (S i) alone := by
  refine ⟨Component.run_view (fun _ _ => rfl) run i,
    Component.eachStep_view (fun _ _ => rfl) ?_ ?_ run proper coherent⟩
  · exact fun S e hc c he => absurd he (hc.ne_remote c)
  · rintro S j e s hcoh hc hs - c ⟨⟩
    exact hc.tolerates hcoh hs i

@[simp] lemma collection_spread :
    (sharedCollection.spread S i s k).collection = s.collection :=
  Component.get_spread (L := sharedCollection)

/-- The outstanding queries of all devices stay as they should be. -/
theorem queriesKept_of_run [FIRTimestamp] (run : Run step S es T)
    (proper : EachStep step Proper S es) (coherent : S.Coherent) (kept : ∀ k, (S k).QueriesKept) :
    T.Coherent ∧ ∀ k, (T k).QueriesKept :=
  Component.rely_guarantee (P := fun _ => App.QueriesKept) (R := fun _ => App.Tolerates)
    (fun _ _ _ h hc => h.of_tolerates hc)
    (fun _ i _ _ hcoh hS hc hs => (hS i).step hc.ne_remote hc.holds (hc.tolerates hcoh hs i) hs)
    (fun _ _ _ _ hcoh _ hc hs k _ => hc.tolerates hcoh hs k) run proper coherent kept

/-- **No document is a mixture.**  Whatever any number of devices do in any order, a document
found at the end is one from the start, or it carries the type, the category, the amount and
the date that one object had together, on one device at one moment of the run. -/
theorem written_whole [FIRTimestamp] (run : Run step S es T) (proper : EachStep step Proper S es)
    (coherent : S.Coherent) (start : ∀ k, (S k).requests = []) {d : Doc}
    (hd : d ∈ (T k).collection.documents) : d ∈ (S k).collection.documents ∨
      Sometime step (fun U => ∃ i, ∃ r < (U i).heap.size,
        recordOf d.data = ((U i).transaction r).record) S es := by
  refine run.traced_back (I := fun S => S.Coherent ∧ ∀ k, (S k).QueriesKept)
    (Q := fun S => d ∈ (S k).collection.documents) (fun S e S' hS hc hs => ?_) ?_ proper
    ⟨coherent, fun k => .of_requests_eq_nil (start k)⟩ hd
  · exact queriesKept_of_run (.cons hs (.nil S')) ⟨hc, fun _ _ => trivial⟩ hS.1 hS.2
  · rintro S ⟨i, e⟩ S' ⟨hcoh, hS⟩ hc hs hd
    obtain ⟨s, hstep, rfl⟩ := Component.joint_eq_some_iff.mp hs
    have hsame : (S k).collection = (S i).collection := hcoh k i
    rw [collection_spread] at hd
    rcases App.step_records hc.ne_remote (hS i).answers (hS i).updates hstep hd with
      hold | ⟨r, hr, hrecord⟩
    · exact Or.inl (hsame ▸ hold)
    · refine Or.inr ⟨i, r, ?_, ?_⟩ <;> rw [Component.spread_self]
      · exact hr
      · exact hrecord

/-- The transaction `x` has no document any more, although some device still knows of it. -/
def Deleted (x : String) (S : Devices ι) : Prop :=
  (∃ k r, ((S k).transaction r).id = some x) ∧
    ∀ k, ∀ d ∈ (S k).collection.documents, docId d ≠ some (.string x)

/-- What has been deleted stays so. -/
lemma Deleted.step [FIRTimestamp] {x : String} (h : S.Deleted x) (hcoh : S.Coherent)
    (hc : S.Proper (i, e)) (hs : S.step (i, e) = some T) : T.Deleted x := by
  obtain ⟨s, hstep, rfl⟩ := Component.joint_eq_some_iff.mp hs
  obtain ⟨⟨k, r, hr⟩, hgone⟩ := h
  refine ⟨⟨k, r, ?_⟩, fun j d hd hx => ?_⟩
  · by_cases hk : k = i
    · subst hk
      rw [Component.spread_self]
      exact App.id_step hstep hr
    · rw [Component.spread_of_ne hk]
      exact hr
  · rw [collection_spread] at hd
    obtain ⟨d₀, hd₀, hsame⟩ :=
      (hc.tolerates hcoh hstep k).of_mentions hd hx (App.mentions_of_transaction hr)
    exact hgone k d₀ hd₀ (hsame.id.trans hx)

/-- **Deleted for good.**  When on some device the deletion of the transaction `x` has been
carried out, no document with the id `x` exists any more, and none comes into being later:
neither an update that another device has outstanding nor an edit of a copy that another device
still shows brings it back. -/
theorem deleted_for_good [FIRTimestamp] (run : Run step S es T) (proper : EachStep step Proper S es)
    (coherent : S.Coherent) (start : ∀ k, (S k).requests = []) {n : ℕ} {x : String}
    {documents : List Doc}
    (request : (T i).requests[n]? = some ⟨.removeTransactionFromDatabase x, some documents⟩)
    (delivered : T.step (i, .deliver n (.succeeded [])) = some U) {V : Devices ι}
    (later : Run step U es' V) (proper' : EachStep step Proper U es') (k : ι) :
    ∀ d ∈ (V k).collection.documents, docId d ≠ some (.string x) := by
  obtain ⟨hcoh, hkept⟩ :=
    queriesKept_of_run run proper coherent fun k => .of_requests_eq_nil (start k)
  obtain ⟨⟨r, hr⟩, hreach⟩ := (hkept i).removals _ (List.mem_of_getElem? request) x rfl
  obtain ⟨s, hstep, rfl⟩ := Component.joint_eq_some_iff.mp delivered
  have hdeleted : Deleted x (sharedCollection.spread T i s) := by
    refine ⟨⟨i, r, by rw [Component.spread_self]; exact App.id_step hstep hr⟩, fun k d hd hx => ?_⟩
    rw [collection_spread] at hd
    simp only [App.step, App.deliver, request, Option.some.injEq] at hstep
    rw [← hstep] at hd
    obtain ⟨hd, hnot⟩ := Collection.mem_deleteAll.mp hd
    refine hnot (App.mem_written.mpr ⟨?_, by simp⟩)
    exact List.mem_map.mp (hreach documents rfl d hd hx)
  have hend := later.invariant (I := fun S => S.Coherent ∧ S.Deleted x) ?_ proper'
    ⟨Component.coherent_spread, hdeleted⟩
  · exact hend.2.2 k
  · rintro S ⟨j, e⟩ S' ⟨hcoh, hS⟩ hc hs
    refine ⟨?_, hS.step hcoh hc hs⟩
    obtain ⟨s, -, rfl⟩ := Component.joint_eq_some_iff.mp hs
    exact Component.coherent_spread

/-! ### A stale copy -/

/-- The two devices of a user. -/
inductive Device
  | phone
  | tablet
deriving DecidableEq

instance : Fintype Device := ⟨{.phone, .tablet}, fun d => by cases d <;> decide⟩

/-- A document of the user `u`. -/
def sharedDocument : Doc := ⟨"d", (Transaction.make "a" .income .sport 5 0).addDocumentData "u"⟩

/-- The user `u` has signed in on two devices, and both have loaded the document. -/
def twoDevices : Devices Device := fun _ =>
  .session "u" [sharedDocument] (Collection.empty.addDocument "d" sharedDocument.data)

/-- The transaction is deleted on one device and edited on the other, and both queries find the
document. -/
def deletedAndEdited : List (Device × Event) :=
  [(.tablet, .remove (some "a")), (.phone, .save 0 ⟨some .expense, some .kids, 6, 2⟩),
    (.phone, .answer 0 [sharedDocument]), (.tablet, .answer 0 [sharedDocument])]

theorem deletedAndEdited_alone : ∃ T, Run step twoDevices deletedAndEdited T ∧
    Run App.step (twoDevices .phone)
      (sharedCollection.view App.step .remote .phone twoDevices deletedAndEdited) (T .phone) :=
  have run : Run step twoDevices deletedAndEdited _ := exec_eq_some_iff.mp rfl
  ⟨_, run, (run_alone run (by decide) (fun _ _ => rfl) .phone).1⟩

/-- The update is carried out before the deletion. -/
def editedLast : List (Device × Event) := deletedAndEdited ++ [(.phone, .deliver 0 (.succeeded []))]

theorem editedLast_whole : ∃ T, Run step twoDevices editedLast T ∧
    ∃ d ∈ (T .phone).collection.documents, d ∈ (twoDevices .phone).collection.documents ∨
      Sometime step (fun U => ∃ i, ∃ r < (U i).heap.size,
        recordOf d.data = ((U i).transaction r).record) twoDevices editedLast := by
  have run : Run step twoDevices editedLast _ := exec_eq_some_iff.mp rfl
  exact ⟨_, run, _, List.mem_singleton_self _,
    written_whole run (by decide) (fun _ _ => rfl) (fun _ => rfl) (List.mem_singleton_self _)⟩

theorem deletedAndEdited_gone : ∃ T U V, Run step twoDevices deletedAndEdited T ∧
    T.step (.tablet, .deliver 0 (.succeeded [])) = some U ∧
    Run step U [(.phone, .deliver 0 (.succeeded []))] V ∧
    ∀ d ∈ (V .phone).collection.documents, docId d ≠ some (.string "a") := by
  obtain ⟨T, run, request, U, delivered, V, later⟩ : ∃ T, Run step twoDevices deletedAndEdited T ∧
      (T .tablet).requests[0]? = some ⟨.removeTransactionFromDatabase "a", some [sharedDocument]⟩ ∧
      ∃ U, T.step (.tablet, .deliver 0 (.succeeded [])) = some U ∧
      ∃ V, Run step U [(.phone, .deliver 0 (.succeeded []))] V :=
    ⟨_, exec_eq_some_iff.mp rfl, rfl, _, rfl, _, exec_eq_some_iff.mp rfl⟩
  exact ⟨T, U, V, run, delivered, later, deleted_for_good run (by decide) (fun _ _ => rfl)
    (fun _ => rfl) request delivered later (by simp [EachStep, Proper]) .phone⟩

end Devices

end SpendingTracker
