import SpendingTracker.Accounts.Noninterference
import SpendingTracker.Sync.Convergence
import SpendingTracker.Sync.Devices

/-!
# Devices of other users

Updates and deletions select documents by the id of the transaction alone.  What keeps the
documents of a user `u` from being touched by a device of somebody else is only that this device
holds no transaction with an id of theirs: `App.Apart` is the invariant, and it needs that no
document of another user carries such an id either.

With it, three results about any number of devices that work at the same time:

* the devices of others leave the documents of `u` alone (`Devices.userDocuments_of_strangers`);
* the store of `u` on one device and the documents of `u` agree again whenever the device has
  nothing outstanding, whatever the devices of others do (`Devices.agree_among_strangers`);
* a device on which `u` signs in afterwards is shown what the first one has left
  (`Devices.handed_over`).
-/

namespace SpendingTracker

open Lib

/-- No document of the user `u` carries the id `x`. -/
def NotOwn (u : String) (c : Transactions) (x : String) : Prop :=
  ∀ d ∈ userDocuments u c, docId d ≠ some (.string x)

/-- No document of the others carries an id of a document of the user `u`. -/
def IdsApart (u : String) (c : Transactions) : Prop :=
  ∀ d ∈ foreignDocuments u c, ∀ x, docId d = some (.string x) → NotOwn u c x

lemma IdsApart.of_ne {u : String} {c : Transactions}
    (h : ∀ d ∈ foreignDocuments u c, ∀ d' ∈ userDocuments u c, docId d ≠ docId d') :
    IdsApart u c :=
  fun d hd _ hx d' hd' hx' => h d hd d' hd' (hx.trans hx'.symm)

namespace App

variable {u : String} {s s' : App} {e : Event} {c : Transactions}

/-! ### Where ids come from -/

/-- The id of an object after an event is one from before, the id of a document that the event
has loaded, or the id of a transaction that the event has added. -/
lemma step_ids [FIRTimestamp] (h : s.step e = some s') {r : Ref} {x : String}
    (hid : (s'.transaction r).id = some x) : (s.transaction r).id = some x ∨
      (∃ v documents, s.fetched e = some (v, documents) ∧
        ∃ d ∈ documents, docId d = some (.string x)) ∨
      ∃ added index, e = .add added index ∧ ∃ p ∈ added, p.1.id = some x := by
  have created : ∀ ts : List Transaction, ((s.heap.create ts).read r).id = some x →
      (s.transaction r).id = some x ∨ ∃ t ∈ ts, t.id = some x := by
    intro ts hread
    by_cases hlt : r < s.heap.size
    · rw [Heap.read_create_of_lt hlt] at hread
      exact Or.inl hread
    · have hsize : r < s.heap.size + ts.length := by
        by_contra hsize
        rw [Heap.read_of_size_le (by simpa using hsize)] at hread
        cases hread
      exact Or.inr ⟨_, Heap.read_mem_of_mem_created
        (Heap.mem_created.mpr ⟨Nat.le_of_not_lt hlt, hsize⟩), hread⟩
  have hstore := step_store h
  rw [transaction_eq_read] at hid
  generalize s'.heap = heap, s'.shared = shared at hstore hid
  cases hstore with
  | @fetched _ v documents hf =>
      rcases created _ hid with hold | ⟨t, ht, hx⟩
      · exact Or.inl hold
      · obtain ⟨d, hd, rfl⟩ := List.mem_map.mp ht
        exact Or.inr (Or.inl ⟨v, documents, hf, d, hd, id_decode_eq_some_iff.mp hx⟩)
  | @added added index front back _ =>
      rcases created _ hid with hold | ⟨t, ht, hx⟩
      · exact Or.inl hold
      · obtain ⟨p, hp, rfl⟩ := List.mem_map.mp ht
        exact Or.inr (Or.inr ⟨added, index, rfl, p, hp, hx⟩)
  | saved _ _ => exact Or.inl (id_read_heapAfterSave ▸ hid)
  | removed => exact Or.inl hid
  | unchanged _ _ => exact Or.inl hid

/-- Adding transactions with fresh ids keeps the ids of the others apart. -/
lemma idsApart_step [FIRTimestamp] (h : IdsApart u s.collection) (hfresh : s.FreshIds e)
    (hs : s.step e = some s') : IdsApart u s'.collection := by
  have hlocal : ∀ c, e ≠ .remote c := by
    rintro c rfl
    exact hfresh
  have used : ∀ d ∈ s.collection.documents, ∀ x, docId d = some (.string x) → s.Uses x :=
    fun d hd x hx => Or.inr (Or.inl ⟨d, hd, hx⟩)
  intro d hd x hx d' hd' hx'
  obtain ⟨hd, howner⟩ := mem_foreignDocuments.mp hd
  obtain ⟨hd', howner'⟩ := mem_userDocuments.mp hd'
  rcases step_documents hlocal hs hd with ⟨d₀, hd₀, hsame⟩ | ⟨added, index, v, rfl, hv, hnew, -⟩ <;>
    rcases step_documents hlocal hs hd' with
      ⟨d₀', hd₀', hsame'⟩ | ⟨added', index', v', heq, hv', hnew', -⟩
  · exact h d₀ (mem_foreignDocuments.mpr ⟨hd₀, hsame.owner ▸ howner⟩) x (hsame.id.trans hx) d₀'
      (mem_userDocuments.mpr ⟨hd₀', hsame'.owner.trans howner'⟩) (hsame'.id.trans hx')
  · subst heq
    obtain ⟨t, i, hmem, rfl⟩ := mem_newDocuments.mp hnew'
    obtain ⟨y, hy, hun⟩ := hfresh.2 _ hmem
    cases (storedId_eq_string_iff.mp hx').symm.trans hy
    exact hun (used d₀ hd₀ x (hsame.id.trans hx))
  · obtain ⟨t, i, hmem, rfl⟩ := mem_newDocuments.mp hnew
    obtain ⟨y, hy, hun⟩ := hfresh.2 _ hmem
    cases (storedId_eq_string_iff.mp hx).symm.trans hy
    exact hun (used d₀' hd₀' x (hsame'.id.trans hx'))
  -- two new documents belong to the same user
  · obtain ⟨t, i, -, rfl⟩ := mem_newDocuments.mp hnew
    obtain ⟨t', i', -, rfl⟩ := mem_newDocuments.mp hnew'
    cases hv.symm.trans hv'
    exact howner howner'

/-! ### A device that does not know the documents of a user -/

/-- The device neither adds transactions for the user `u` nor loads the documents of `u`. -/
def Foreign (u : String) (s : App) : Event → Prop
  | .add _ _ => s.currentUser ≠ some u
  | e => (s.fetched e).map Prod.fst ≠ some u

instance (u : String) (s : App) : DecidablePred (s.Foreign u)
  | .add _ _ => inferInstanceAs (Decidable (s.currentUser ≠ some u))
  | .viewDidAppear | .signIn _ | .signOut | .callListener _ | .answer _ _ | .deliver _ _
  | .save _ _ | .remove _ | .remote _ =>
      inferInstanceAs (Decidable ((s.fetched _).map Prod.fst ≠ some u))

/-- The device knows no id of a document of the user `u`. -/
structure Apart (u : String) (s : App) : Prop where
  answers : s.AnswersSound
  objects : ∀ r x, (s.transaction r).id = some x → NotOwn u s.collection x
  queries : ∀ q ∈ s.requests, ∀ x, q.query.transactionId = some x → NotOwn u s.collection x
  others : IdsApart u s.collection
  /-- What has been found for somebody else and is still to be loaded carries other ids. -/
  found : ∀ q ∈ s.requests, ∀ v, q.query = .getTransactionsForUser v → v ≠ u →
    ∀ documents, q.answer = some documents → ∀ d ∈ documents, ∀ x,
      docId d = some (.string x) → NotOwn u s.collection x

namespace Foreign

lemma fetched_ne (h : s.Foreign u e) {v : String} {documents : List Doc}
    (hf : s.fetched e = some (v, documents)) : v ≠ u := by
  rintro rfl
  cases e with
  | deliver i outcome => exact h (by rw [hf]; rfl)
  | _ => cases hf

lemma user_ne {added : List (Transaction × Option String)} {index : Option ℕ}
    (h : s.Foreign u (.add added index)) : s.currentUser ≠ some u := h

end Foreign

namespace Apart

lemma launch (h : IdsApart u c) : (launch c).Apart u where
  answers := answersSound_of_requests_eq_nil rfl
  objects r x hid := by
    rw [transaction, Heap.read_of_size_le (Nat.zero_le r)] at hid
    cases hid
  queries := by simp [App.launch]
  others := h
  found := by simp [App.launch]

/-- A callback does not write to the documents of the user. -/
lemma notMem_written (h : s.Apart u) {i : ℕ} {q : Query} {x : String} {documents : List Doc}
    (hi : s.requests[i]? = some ⟨q, some documents⟩) (hx : q.transactionId = some x)
    (refused : List String) {d : Doc} (hd : d ∈ userDocuments u s.collection) :
    d.documentID ∉ written documents refused := by
  intro hw
  have hmem := List.mem_of_getElem? hi
  have hmatch := (h.answers _ hmem documents rfl).matches_of_written
    (mem_userDocuments.mp hd).1 hw
  refine h.queries _ hmem x hx d hd ?_
  cases q with
  | getTransactionsForUser v => cases hx
  | removeTransactionFromDatabase y => cases hx; exact hmatch
  | updateTransactionInDatabase y r => cases hx; exact hmatch

/-- **A stranger's device leaves the documents alone.** -/
theorem userDocuments_step [FIRTimestamp] (h : s.Apart u) (hf : s.Foreign u e)
    (hlocal : ∀ c, e ≠ .remote c) (hs : s.step e = some s') :
    userDocuments u s'.collection = userDocuments u s.collection := by
  have hcollection := step_collection hs
  generalize s'.collection = c at hcollection
  cases hcollection with
  | @deleted i x documents refused hi =>
      rw [(h.answers _ (List.mem_of_getElem? hi) documents rfl).userDocuments_deleteAll]
      refine List.filter_eq_self.mpr fun d hd => decide_eq_true fun hw => ?_
      exact h.notMem_written hi rfl refused hd
        (((h.answers _ (List.mem_of_getElem? hi) documents rfl).mem_written_iff hd).mpr hw)
  | @overwritten i x r documents refused hi =>
      rw [(h.answers _ (List.mem_of_getElem? hi) documents rfl).userDocuments_updateAll]
      refine (List.map_congr_left fun d hd => if_neg fun hw => ?_).trans (List.map_id' _)
      exact h.notMem_written hi rfl refused hd
        (((h.answers _ (List.mem_of_getElem? hi) documents rfl).mem_written_iff hd).mpr hw)
  | @added added index hnodup hnew =>
      rw [userDocuments, Collection.whereField, documents_collectionAfterAdd hnodup hnew,
        List.filter_append]
      refine (congrArg _ (List.filter_eq_nil_iff.mpr fun d hd => ?_)).trans (List.append_nil _)
      cases hu : s.currentUser with
      | none => simp [hu] at hd
      | some v =>
          simp only [hu] at hd
          obtain ⟨t, i, -, rfl⟩ := mem_newDocuments.mp hd
          have hne : v ≠ u := fun heq => hf.user_ne (heq ▸ hu)
          simpa using hne
  | remote => exact absurd rfl (hlocal c)
  | unchanged => rfl

lemma objects_step [FIRTimestamp] (h : s.Apart u) (hf : s.Foreign u e) (hfresh : s.FreshIds e)
    (hs : s.step e = some s') {r : Ref} {x : String} (hid : (s'.transaction r).id = some x) :
    NotOwn u s.collection x := by
  rcases step_ids hs hid with hold | ⟨v, documents, hv, d, hd, hx⟩ | ⟨added, index, rfl, p, hp, hx⟩
  · exact h.objects r x hold
  · obtain ⟨i, refused, -, hi⟩ := fetched_eq_some_iff.mp hv
    exact h.found _ (List.mem_of_getElem? hi) v rfl (hf.fetched_ne hv) documents rfl d hd x hx
  · obtain ⟨y, hy, hun⟩ := hfresh.2 p hp
    cases hx.symm.trans hy
    exact fun d hd hid => hun (Or.inr (Or.inl ⟨d, (mem_userDocuments.mp hd).1, hid⟩))

lemma queries_step [FIRTimestamp] (h : s.Apart u)
    (hheld : ∀ x, e = .remove x → ∃ r < s.heap.size, (s.transaction r).id = x)
    (hs : s.step e = some s') {q : Request} (hq : q ∈ s'.requests) {x : String}
    (hx : q.query.transactionId = some x) : NotOwn u s.collection x := by
  rcases step_queries hs hq with ⟨q₀, hq₀, heq⟩ | hissues
  · exact h.queries q₀ hq₀ x (heq ▸ hx)
  · generalize q.query = query at hissues hx
    cases hissues with
    | fetch _ => cases hx
    | update _ hid =>
        cases hx
        exact h.objects _ _ hid
    | remove =>
        cases hx
        obtain ⟨r, -, hid⟩ := hheld _ rfl
        exact h.objects r _ hid

/-- Every event of the device keeps it apart from the documents of the user. -/
theorem step [FIRTimestamp] (h : s.Apart u) (hf : s.Foreign u e) (hfresh : s.FreshIds e)
    (hheld : ∀ x, e = .remove x → ∃ r < s.heap.size, (s.transaction r).id = x)
    (hs : s.step e = some s') : s'.Apart u := by
  have hlocal : ∀ c, e ≠ .remote c := by
    rintro c rfl
    exact hfresh
  have hsame := h.userDocuments_step hf hlocal hs
  have hnot : ∀ x, NotOwn u s.collection x → NotOwn u s'.collection x := fun x hx d hd =>
    hx d (hsame ▸ hd)
  have hothers := idsApart_step h.others hfresh hs
  refine ⟨step_answersSound hlocal h.answers hs,
    fun r x hid => hnot x (h.objects_step hf hfresh hs hid),
    fun q hq x hx => hnot x (h.queries_step hheld hs hq hx), hothers,
    fun q hq v hv hne documents ha d hd x hx => ?_⟩
  rcases step_answers hs hq ha with hold | hperm
  · exact hnot x (h.found q hold v hv hne documents ha d hd x hx)
  · obtain ⟨hd, hmatch⟩ := Query.mem_select.mp (hperm.mem_iff.mp hd)
    rw [hv] at hmatch
    have howner : docOwner d = some (.string v) := hmatch
    exact hothers d (mem_foreignDocuments.mpr ⟨hd, by simpa [howner] using hne⟩) x hx

/-- What the other devices do keeps the device apart from the documents of the user. -/
lemma of_tolerates (h : s.Apart u) (hc : s.Tolerates c) (hothers : IdsApart u c) :
    Apart u { s with collection := c } := by
  have hnot : ∀ x, s.Mentions x → NotOwn u s.collection x → NotOwn u c x := by
    intro x hm hx d hd hid
    obtain ⟨hd, howner⟩ := mem_userDocuments.mp hd
    obtain ⟨d₀, hd₀, hsame⟩ := hc.of_mentions hd hid hm
    exact hx d₀ (mem_userDocuments.mpr ⟨hd₀, hsame.owner.trans howner⟩) (hsame.id.trans hid)
  refine ⟨h.answers.of_tolerates hc,
    fun r x hid => hnot x (mentions_of_transaction hid) (h.objects r x hid),
    fun q hq x hx => hnot x (mentions_of_query hq hx) (h.queries q hq x hx), hothers,
    fun q hq v hv hne documents ha d hd x hx => ?_⟩
  exact hnot x (mentions_of_answer hq ha hd hx) (h.found q hq v hv hne documents ha d hd x hx)

end Apart

/-! ### The device of the user -/

/-- What the other devices do keeps the store of the user tied to the documents, as long as they
leave these documents alone. -/
lemma Tied.of_tolerates [FIRTimestamp] (h : s.Tied u) (hc : s.Tolerates c)
    (hsame : userDocuments u c = userDocuments u s.collection) :
    Tied u { s with collection := c } where
  user := h.user
  ids := ⟨h.ids.present, h.ids.nodup⟩
  answers := h.answers.of_tolerates hc
  noFetch := h.noFetch
  distinct := hsame.symm ▸ h.distinct
  covered := hsame.symm ▸ h.covered
  updates := h.updates
  removes := h.removes
  tied := hsame.symm ▸ h.tied
  orphan := hsame.symm ▸ h.orphan

/-- Every answer to a fetch for the user `u` holds the documents `documents`. -/
def Found (u : String) (documents : List Doc) (s : App) : Prop :=
  ∀ q ∈ s.requests, q.query = .getTransactionsForUser u → ∀ answer, q.answer = some answer →
    answer.Perm documents

lemma Found.step [FIRTimestamp] {documents : List Doc} (h : s.Found u documents)
    (hs : s.step e = some s')
    (hsame : userDocuments u s'.collection = documents) : s'.Found u documents := by
  intro q hq hquery answer ha
  rcases step_answers hs hq ha with hold | hperm
  · exact h q hold hquery answer ha
  · rw [hquery] at hperm
    exact hsame ▸ hperm

end App

/-! ### All devices together -/

namespace Devices

variable {ι : Type*} {u : String} {S T U V : Devices ι} {i k : ι} {es es' : List (ι × Event)}

/-- What holds of the device on which the user works, and of the others. -/
structure Role [FIRTimestamp] (u : String) (i k : ι) (s : App) : Prop where
  idsApart : IdsApart u s.collection
  tied : k = i → s.Tied u
  apart : k ≠ i → s.Apart u

/-- The store of the user `u` on the device `i` agrees with the documents of `u`, nothing is
outstanding there, and the other devices do not know the documents of `u`. -/
structure AtRest [FIRTimestamp] (u : String) (i : ι) (S : Devices ι) : Prop where
  coherent : S.Coherent
  user : (S i).currentUser = some u
  ids : (S i).IdsDistinct
  agree : (S i).Agree u
  requests : (S i).requests = []
  idsApart : IdsApart u (S i).collection
  others : ∀ k, k ≠ i → (S k).Apart u

namespace AtRest

lemma role [FIRTimestamp] (h : S.AtRest u i) (k : ι) : Role u i k (S k) where
  idsApart := by
    have hsame : (S k).collection = (S i).collection := h.coherent k i
    exact hsame ▸ h.idsApart
  tied hk := hk ▸ .of_agree h.user h.ids h.agree h.requests
  apart := h.others k

end AtRest

variable [DecidableEq ι]

/-- **The documents of a user are left alone.**  As long as no device adds transactions for the
user `u` or loads the documents of `u`, any number of devices of other users leave these
documents exactly as they are. -/
theorem userDocuments_of_strangers [FIRTimestamp] (run : Run step S es T)
    (steps : EachStep step (fun S e => S.Proper e ∧ (S e.1).Foreign u e.2) S es)
    (coherent : S.Coherent) (apart : ∀ k, (S k).Apart u) :
    userDocuments u (T k).collection = userDocuments u (S k).collection := by
  have hend := Component.rely_guarantee
    (P := fun _ s => s.Apart u ∧ userDocuments u s.collection = userDocuments u (S k).collection)
    (R := fun _ s c => s.Tolerates c ∧ IdsApart u c ∧
      userDocuments u c = userDocuments u s.collection)
    (fun _ _ _ h hc => ⟨h.1.of_tolerates hc.1 hc.2.1, hc.2.2.trans h.2⟩) ?_ ?_ run steps coherent
    fun j => ⟨apart j, congrArg _ (coherent j k)⟩
  · exact (hend.2 k).2
  · intro S j e s hcoh hS hc hs
    exact ⟨(hS j).1.step hc.2 hc.1.freshIds hc.1.holds hs,
      ((hS j).1.userDocuments_step hc.2 hc.1.ne_remote hs).trans (hS j).2⟩
  · intro S j e s hcoh hS hc hs k' _
    have hsame : (S k').collection = (S j).collection := hcoh k' j
    exact ⟨hc.1.tolerates hcoh hs k', App.idsApart_step (hS j).1.others hc.1.freshIds hs,
      hsame ▸ (hS j).1.userDocuments_step hc.2 hc.1.ne_remote hs⟩

/-- A document of the user `u`, and one of the user `v`. -/
def documentOf (u : String) : Doc :=
  ⟨u, (Transaction.make u .income .sport 5 0).addDocumentData u⟩

/-- The collection with one document of `u` and one of `v`. -/
def twoOwners : Transactions :=
  (Collection.empty.addDocument "u" (documentOf "u").data).addDocument "v" (documentOf "v").data

lemma idsApart_twoOwners : IdsApart "u" twoOwners := .of_ne (by decide)

/-- The user `v` signs in, is shown the document and deletes it. -/
def strangersEvents : List Event :=
  [.viewDidAppear, .callListener 0, .signIn "v", .callListener 0, .answer 0 [documentOf "v"],
    .deliver 0 (.succeeded []), .remove (some "v"), .answer 0 [documentOf "v"],
    .deliver 0 (.succeeded [])]

theorem strangersEvents_userDocuments : ∃ T : Devices Device,
    Run step (fun _ => App.launch twoOwners) (strangersEvents.map (Prod.mk .tablet)) T ∧
      userDocuments "u" (T .phone).collection = userDocuments "u" twoOwners := by
  have run : Run step (fun _ : Device => App.launch twoOwners)
    (strangersEvents.map (Prod.mk .tablet)) _ := exec_eq_some_iff.mp rfl
  exact ⟨_, run, userDocuments_of_strangers run (by decide) (fun _ _ => rfl)
    fun _ => .launch idsApart_twoOwners⟩

/-- The user `u` works on the device `i`, without faults; the other devices neither add
transactions for `u` nor load the documents of `u`. -/
def WorksOn (u : String) (i : ι) (S : Devices ι) (e : ι × Event) : Prop :=
  S.Proper e ∧ if e.1 = i then (S i).ClientStep e.2 else (S e.1).Foreign u e.2

instance [Fintype ι] (u : String) (i : ι) (S : Devices ι) : DecidablePred (WorksOn u i S) :=
  fun e => inferInstanceAs
    (Decidable (S.Proper e ∧ if e.1 = i then (S i).ClientStep e.2 else (S e.1).Foreign u e.2))

lemma role_of_run [FIRTimestamp] (run : Run step S es T) (steps : EachStep step (WorksOn u i) S es)
    (coherent : S.Coherent) (roles : ∀ k, Role u i k (S k)) :
    T.Coherent ∧ ∀ k, Role u i k (T k) := by
  refine Component.rely_guarantee (P := Role u i)
    (R := fun k s c => s.Tolerates c ∧ IdsApart u c ∧
      (k = i → userDocuments u c = userDocuments u s.collection)) ?_ ?_ ?_ run steps coherent roles
  · intro k s c h hc
    exact ⟨hc.2.1, fun hk => (h.tied hk).of_tolerates hc.1 (hc.2.2 hk),
      fun hk => (h.apart hk).of_tolerates hc.1 hc.2.1⟩
  · intro S j e s hcoh hS hc hs
    obtain ⟨hproper, hc⟩ := hc
    refine ⟨App.idsApart_step (hS j).idsApart hproper.freshIds hs, fun hj => ?_, fun hj => ?_⟩
    · subst hj
      rw [if_pos rfl] at hc
      exact ((hS j).tied rfl).step hc hs
    · rw [if_neg hj] at hc
      exact ((hS j).apart hj).step hc hproper.freshIds hproper.holds hs
  · intro S j e s hcoh hS hc hs k hk
    obtain ⟨hproper, hc⟩ := hc
    refine ⟨hproper.tolerates hcoh hs k,
      App.idsApart_step (hS j).idsApart hproper.freshIds hs, fun hki => ?_⟩
    -- the step is one of another device than that of the user
    have hj : j ≠ i := fun hji => hk (hki.trans hji.symm)
    have hsame : (S k).collection = (S j).collection := hcoh k j
    rw [if_neg hj] at hc
    exact hsame ▸ ((hS j).apart hj).userDocuments_step hc hproper.ne_remote hs

/-- When nothing is outstanding any more, the devices are at rest again. -/
lemma AtRest.of_run [FIRTimestamp] (h : S.AtRest u i) (run : Run step S es T)
    (steps : EachStep step (WorksOn u i) S es) (done : (T i).requests = []) : T.AtRest u i := by
  obtain ⟨hcoh, hroles⟩ := role_of_run run steps h.coherent h.role
  have htied := (hroles i).tied rfl
  exact ⟨hcoh, htied.user, htied.ids, htied.agree done, done, (hroles i).idsApart,
    fun k hk => (hroles k).apart hk⟩

/-- **Agreement among strangers.**  From a state at rest, the user `u` adds, edits and deletes on
one device, without faults there, while any number of devices of other users sign in and out, add,
edit, delete, fetch and fail, in any interleaving.  As soon as the device of `u` has nothing
outstanding, its store and the documents of `u` agree. -/
theorem agree_among_strangers [FIRTimestamp] (run : Run step S es T)
    (steps : EachStep step (WorksOn u i) S es) (start : S.AtRest u i)
    (done : (T i).requests = []) : (T i).Agree u ∧ (T i).IdsDistinct :=
  have h := start.of_run run steps done
  ⟨h.agree, h.ids⟩

/-- The user `u` has loaded the document on the phone; the tablet has been launched. -/
def twoUsers : Devices Device := fun k =>
  if k = .phone then .session "u" [documentOf "u"] twoOwners else .launch twoOwners

lemma atRest_twoUsers : twoUsers.AtRest "u" .phone where
  coherent i j := by
    have hget : ∀ k, sharedCollection.get (twoUsers k) = twoOwners := fun k => by
      unfold twoUsers
      split_ifs <;> rfl
    rw [hget, hget]
  user := rfl
  ids := ⟨by decide, by decide⟩
  agree := .refl _
  requests := rfl
  idsApart := idsApart_twoOwners
  others k hk := by
    rw [twoUsers, if_neg hk]
    exact .launch idsApart_twoOwners

/-- While `u` edits the document, `v` signs in on the other device and deletes hers. -/
def bothWork : List (Device × Event) :=
  (.phone, .save 0 ⟨some .expense, some .kids, 6, 2⟩) :: strangersEvents.map (Prod.mk .tablet) ++
    [(.phone, .answer 0 [documentOf "u"]), (.phone, .deliver 0 (.succeeded []))]

theorem bothWork_agree : ∃ T : Devices Device, Run step twoUsers bothWork T ∧
    (T .phone).Agree "u" ∧ (T .phone).IdsDistinct := by
  have run : Run step twoUsers bothWork _ := exec_eq_some_iff.mp rfl
  exact ⟨_, run, agree_among_strangers run (by decide) atRest_twoUsers rfl⟩

/-- While the user rests, the other devices change nothing of what a new session will load. -/
lemma found_of_run [FIRTimestamp] (h : S.AtRest u i) (run : Run step S es T)
    (steps : EachStep step
      (fun S e => S.Proper e ∧ e.1 ≠ i ∧ (S e.1).Foreign u e.2) S es)
    (found : (S k).Found u (userDocuments u (S i).collection)) :
    (T k).Found u (userDocuments u (S i).collection) := by
  have hend := Component.rely_guarantee
    (P := fun j s => IdsApart u s.collection ∧
      userDocuments u s.collection = userDocuments u (S i).collection ∧
      (j ≠ i → s.Apart u) ∧ (j = k → s.Found u (userDocuments u (S i).collection)))
    (R := fun _ s c => s.Tolerates c ∧ IdsApart u c ∧
      userDocuments u c = userDocuments u (S i).collection)
    (fun _ _ _ h hc => ⟨hc.2.1, hc.2.2, fun hj => (h.2.2.1 hj).of_tolerates hc.1 hc.2.1, h.2.2.2⟩)
    ?_ ?_ run steps h.coherent
    fun j => ⟨(h.role j).idsApart, congrArg _ (h.coherent j i), h.others j, fun hj => hj ▸ found⟩
  · exact (hend.2 k).2.2.2 rfl
  · intro T j e s hcoh hT hc hs
    obtain ⟨hproper, hj, hforeign⟩ := hc
    obtain ⟨hids, hsame, hapart, hfound⟩ := hT j
    have hsame' := ((hapart hj).userDocuments_step hforeign hproper.ne_remote hs).trans hsame
    exact ⟨App.idsApart_step hids hproper.freshIds hs, hsame',
      fun _ => (hapart hj).step hforeign hproper.freshIds hproper.holds hs,
      fun hk => (hfound hk).step hs hsame'⟩
  · intro T j e s hcoh hT hc hs k' _
    obtain ⟨hproper, hj, hforeign⟩ := hc
    obtain ⟨hids, hsame, hapart, -⟩ := hT j
    exact ⟨hproper.tolerates hcoh hs k', App.idsApart_step hids hproper.freshIds hs,
      ((hapart hj).userDocuments_step hforeign hproper.ne_remote hs).trans hsame⟩

/-- What another device loads while the user rests are the documents of the user. -/
lemma loaded_perm [FIRTimestamp] (h : T.AtRest u i) (run : Run step T es U)
    (steps : EachStep step
      (fun S e => S.Proper e ∧ e.1 ≠ i ∧ (S e.1).Foreign u e.2) T es)
    (nofetch : ∀ q ∈ (T k).requests, q.query ≠ .getTransactionsForUser u) {n : ℕ}
    {documents : List Doc} {refused : List String}
    (request : (U k).requests[n]? = some ⟨.getTransactionsForUser u, some documents⟩)
    (delivered : U.step (k, .deliver n (.succeeded refused)) = some V) :
    ((V k).shared.map (V k).transaction).Perm
      ((userDocuments u (T i).collection).map fun d => decode d.data) := by
  have hfound := found_of_run (k := k) h run steps
    (fun q hq hquery => absurd hquery (nofetch q hq))
  have hperm := hfound _ (List.mem_of_getElem? request) rfl documents rfl
  obtain ⟨s, hstep, rfl⟩ := Component.joint_eq_some_iff.mp delivered
  obtain ⟨hheap, hshared⟩ := App.step_fetched
    (App.fetched_eq_some_iff.mpr ⟨n, refused, rfl, request⟩) hstep
  rw [Component.spread_self, hshared, App.transaction_eq_read, hheap, Heap.map_read_created]
  exact hperm.map _

/-- **Handing over.**  From a state at rest, the user `u` works on the device `i` among strangers,
without faults there, until nothing is outstanding, and then leaves it alone.  A fetch for `u`
that another device issues and loads after that, while no device adds for `u` or loads for `u`
anything else, shows the transactions that `u` has left on the device `i`, up to their order and to
what is lost when each of them is stored and loaded: a category without a case in the reader, and
what a timestamp does not keep of a date. -/
theorem handed_over [FIRTimestamp] (run : Run step S es T)
    (steps : EachStep step (WorksOn u i) S es) (start : S.AtRest u i)
    (done : (T i).requests = []) (later : Run step T es' U)
    (steps' : EachStep step
      (fun S e => S.Proper e ∧ e.1 ≠ i ∧ (S e.1).Foreign u e.2) T es')
    (nofetch : ∀ q ∈ (T k).requests, q.query ≠ .getTransactionsForUser u) {n : ℕ}
    {documents : List Doc} {refused : List String}
    (request : (U k).requests[n]? = some ⟨.getTransactionsForUser u, some documents⟩)
    (delivered : U.step (k, .deliver n (.succeeded refused)) = some V) :
    ((V k).shared.map (V k).transaction).Perm
      (((T i).shared.map (T i).transaction).map Transaction.reloaded) := by
  have hrest := start.of_run run steps done
  -- the store is compared with the documents record by record
  have hagree := hrest.agree.map Record.decode
  simp only [List.map_map, Function.comp_def, Transaction.decode_record, ← decode_eq] at hagree
  rw [List.map_map]
  exact (loaded_perm hrest later steps' nofetch request delivered).trans hagree

/-- The user `v` signs out on the other device and `u` signs in there, who is shown the edited
document. -/
def moveOver : List (Device × Event) :=
  [(.tablet, .signOut), (.tablet, .callListener 0), (.tablet, .viewDidAppear),
    (.tablet, .callListener 1), (.tablet, .signIn "u"), (.tablet, .callListener 1),
    (.tablet, .answer 0
      [(documentOf "u").overwrite (Transaction.make "u" .expense .kids 6 2).updateData])]

theorem moveOver_handed_over : ∃ T U V : Devices Device, Run step twoUsers bothWork T ∧
    Run step T moveOver U ∧ U.step (.tablet, .deliver 0 (.succeeded [])) = some V ∧
    ((V .tablet).shared.map (V .tablet).transaction).Perm
      (((T .phone).shared.map (T .phone).transaction).map Transaction.reloaded) := by
  obtain ⟨T, run, steps, done, nofetch, U, later, steps', request, V, delivered⟩ :
      ∃ T : Devices Device, Run step twoUsers bothWork T ∧
        EachStep step (WorksOn "u" .phone) twoUsers bothWork ∧ (T .phone).requests = [] ∧
        (∀ q ∈ (T .tablet).requests, q.query ≠ .getTransactionsForUser "u") ∧
        ∃ U : Devices Device, Run step T moveOver U ∧
          EachStep step (fun S e => S.Proper e ∧ e.1 ≠ .phone ∧ (S e.1).Foreign "u" e.2) T
            moveOver ∧
          (U .tablet).requests[0]? = some ⟨.getTransactionsForUser "u", some
            [(documentOf "u").overwrite (Transaction.make "u" .expense .kids 6 2).updateData]⟩ ∧
          ∃ V, U.step (.tablet, .deliver 0 (.succeeded [])) = some V :=
    ⟨_, exec_eq_some_iff.mp rfl, by decide, rfl, by decide, _, exec_eq_some_iff.mp rfl, by decide,
      rfl, _, rfl⟩
  exact ⟨T, U, V, run, later, delivered,
    handed_over run steps atRest_twoUsers done later steps' nofetch request delivered⟩

end Devices

end SpendingTracker
