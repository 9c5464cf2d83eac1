import SpendingTracker.Format.WellFormed
import SpendingTracker.Model.Screens
import SpendingTracker.Sync.Atomicity

/-!
# What an edit leaves alone

Saving rewrites the four fields of a document that can be edited, from an object that the loader
has made and from variables of the detail screen that have been initialised from it.  A field
that the user has not touched goes the whole way from the document through the loader and the
screen back to the document.  Two fields can get lost on this way: a category that the loader
does not recognise, and a date that the date picker does not show or that is not the same any
more after the two conversions of `FIRTimestamp`.
-/

namespace SpendingTracker

open Lib StringEquality

/-! ### The statement -/

/-- The field of the document that an input is meant for. -/
def Input.field : Input → String
  | selectType _ => "transactionType"
  | selectCategory _ _ => "category"
  | editAmount _ _ _ => "amount"
  | pickDate _ => "date"

/-- The user has not touched the field. -/
def Untouched (inputs : List Input) (k : String) : Prop := ∀ i ∈ inputs, i.field ≠ k

instance (inputs : List Input) : DecidablePred (Untouched inputs) :=
  fun _ => inferInstanceAs (Decidable (∀ _ ∈ _, _))

/-- Between the two collections only the document `d` has changed, and of its fields only those
that the user has touched. -/
def FrameKept (c : Transactions) (d : Doc) (inputs : List Input) (c' : Transactions) : Prop :=
  ∃ d', d'.documentID = d.documentID ∧
    c'.documents = c.documents.map (fun x => if x.documentID = d.documentID then d' else x) ∧
    ∀ k, Untouched inputs k → d'.data.lookup k = d.data.lookup k

/-- The list shows what has been loaded of the user's documents. -/
def Screens.loaded [FIRTimestamp] (u : String) (documents : List Doc) (c : Transactions) :
    Screens :=
  let app := App.session u documents c
  ⟨app, ⟨app.shared, false, app.shared.length⟩, .list⟩

/-- A stored date is the same again after it has been loaded, shown by the date picker of the
detail screen at the instant `now`, and stored. -/
def DateReturns [FIRTimestamp] (showDate : Date → Date → Date) (now date : Date) : Prop :=
  timestampWithDate (showDate now (showDate storyboardMaximumDate (dateValue date))) = date

/-- The user opens the transaction at a row, enters something and saves; the query finds
documents, and its callback runs. -/
def editSession (row : ℕ) (now : Date) (inputs : List Input) (found : List Doc) :
    List ScreenEvent :=
  .openDetail row now :: (inputs.map .input ++
    [.saveButton, .background (.answer 0 found), .background (.deliver 0 (.succeeded []))])

/-- With nothing edited, the frame is the whole collection. -/
lemma frameKept_nil_iff {c c' : Transactions} {d : Doc} (hd : d ∈ c.documents) :
    FrameKept c d [] c' ↔ c'.documents = c.documents := by
  have hself : c.documents.map (fun x => if x.documentID = d.documentID then d else x) =
      c.documents := by
    refine (List.map_congr_left fun x hx => ?_).trans (List.map_id _)
    split_ifs with hid
    · exact c.eq_of_documentID hd hx hid.symm
    · rfl
  constructor
  · rintro ⟨⟨i, data⟩, rfl, hdocs, hfields⟩
    obtain rfl : data = d.data := Finmap.ext_lookup fun k => hfields k (by simp [Untouched])
    exact hdocs.trans hself
  · intro h
    exact ⟨d, rfl, h.trans hself.symm, fun _ _ => rfl⟩

/-! ### The session -/

section Session

variable [FIRTimestamp] {u : String} {documents : List Doc} {c : Transactions} {row : ℕ} {d : Doc}

/-- The object at a row has been made from the document at that position. -/
lemma session_row (h : documents[row]? = some d) :
    (App.session u documents c).shared[row]? = some row ∧
      (App.session u documents c).transaction row = decode d.data := by
  obtain ⟨hlt, rfl⟩ := List.getElem?_eq_some_iff.mp h
  constructor
  · simp [App.session, App.load, App.setTransactions, Heap.created, Heap.size, hlt]
  · simp [App.session, App.load, App.setTransactions, App.transaction, Heap.read, Heap.create, hlt]

/-- Loaded from documents with distinct ids, the store has distinct ids. -/
lemma session_idsDistinct (hnodup : (documents.map docId).Nodup)
    (hpresent : ∀ d ∈ documents, ∃ x, docId d = some (.string x)) :
    (App.session u documents c).IdsDistinct :=
  .of_loaded hnodup hpresent (App.map_id_created ⟨[]⟩ (App.loaded documents))

/-- When the query of a save has been answered and its callback has run, nothing is left
outstanding. -/
lemma App.IdsDistinct.requests_of_run {s t : App} {r : Ref} {e : Edit} {found : List Doc}
    {outcome : Outcome} (h : s.IdsDistinct) (hr : r ∈ s.shared) (hnone : s.requests = [])
    (run : Run App.step s [.save r e, .answer 0 found, .deliver 0 outcome] t) :
    t.requests = [] := by
  cases run with
  | cons hsave run =>
      obtain ⟨x, -, rfl⟩ := h.step_save hr hsave
      cases run with
      | cons hanswer run =>
          obtain ⟨q, -, -, rfl⟩ := App.step_answer_iff.mp hanswer
          cases run with
          | cons hdeliver run =>
              cases run
              obtain ⟨q, a, -, ⟨-, rfl⟩ | ⟨documents, refused, -, -, rfl⟩⟩ :=
                App.step_deliver_iff.mp hdeliver
              · simp [hnone]
              · cases q <;> simp [App.callback, App.load, App.setTransactions, hnone]

end Session

namespace Screens

variable {showDate : Date → Date → Date} {s t : Screens} {inputs : List Input}

/-- What the user enters reaches the detail screen. -/
lemma run_inputs [StringEquality] [FIRTimestamp] {d : DetailScreen} (htop : s.top = .detail d)
    (run : Run (step showDate) s (inputs.map .input) t) :
    t = { s with top := .detail (inputs.foldl DetailScreen.input d) } := by
  induction inputs generalizing s d with
  | nil =>
      cases run
      rw [List.foldl_nil, ← htop]
  | cons i inputs ih =>
      cases run with
      | cons hs run =>
          obtain ⟨-, ⟨a, ha, -⟩ | ⟨d', hd', rfl⟩⟩ := step_input hs
          · cases htop.symm.trans ha
          · cases htop.symm.trans hd'
            exact (ih rfl run).trans rfl

/-- The session of an edit, seen from the app: an edit is saved, and its query is answered. -/
lemma run_editSession [FIRTimestamp] {row : ℕ} {now : Date} {found : List Doc}
    (hnone : s.app.requests = [])
    (run : Run (step showDate) s (editSession row now inputs found) t) :
    ∃ r d e, s.list.transactions[row]? = some r ∧
      DetailScreen.viewDidLoad showDate now (s.app.transaction r) r row = some d ∧
      (inputs.foldl DetailScreen.input d).edit = some e ∧
      Run App.step s.app [.save r e, .answer 0 found, .deliver 0 (.succeeded [])] t.app := by
  cases run with
  | cons hopen run =>
      obtain ⟨-, r, d, hr, hd, rfl⟩ := step_openDetail hopen
      obtain ⟨s₁, run₁, run₂⟩ := run.append_inv
      obtain rfl := run_inputs rfl run₁
      cases run₂ with
      | cons hsave run =>
          cases run with
          | cons hanswer run =>
              obtain ⟨-, app₂, happ₂, rfl⟩ := step_background_iff.mp hanswer
              obtain ⟨d', hd', ⟨-, rfl⟩ | ⟨-, e, app₁, he, happ₁, rfl⟩⟩ := step_saveButton hsave
              -- without an amount nothing is saved, and there is no query to answer
              · obtain ⟨q, hq, -⟩ := App.step_answer_iff.mp happ₂
                simp [hnone] at hq
              · cases hd'
                cases run with
                | cons hdeliver run =>
                    obtain ⟨-, app₃, happ₃, rfl⟩ := step_background_iff.mp hdeliver
                    cases run
                    rw [app_afterBackground] at happ₃ ⊢
                    have hrow : (inputs.foldl DetailScreen.input d).transaction = r := by
                      obtain ⟨date, -, rfl⟩ := DetailScreen.viewDidLoad_eq_some hd
                      exact DetailScreen.transaction_foldl_input _ _
                    rw [hrow] at happ₁
                    exact ⟨r, d, e, hr, hd, he, .cons happ₁ (.cons happ₂ (.cons happ₃ (.nil _)))⟩

end Screens

/-! ### What goes through the screen -/

namespace DetailScreen

variable {inputs : List Input} {d : DetailScreen}

/-- What belongs to a field the user has not touched stays as it is. -/
lemma foldl_input_of_untouched {α : Type} (f : DetailScreen → α) {k : String}
    (hf : ∀ d i, i.field ≠ k → f (input d i) = f d) (h : Untouched inputs k) (d : DetailScreen) :
    f (inputs.foldl input d) = f d := by
  induction inputs generalizing d with
  | nil => rfl
  | cons i inputs ih =>
      rw [List.foldl_cons, ih fun j hj => h j (List.mem_cons_of_mem i hj)]
      exact hf d i (h i List.mem_cons_self)

lemma transactionType_foldl_input (h : Untouched inputs "transactionType") :
    (inputs.foldl input d).transactionType = d.transactionType :=
  foldl_input_of_untouched transactionType
    (fun _ i hi => by cases i <;> first | rfl | exact absurd rfl hi) h d

lemma category_foldl_input (h : Untouched inputs "category") :
    (inputs.foldl input d).category = d.category :=
  foldl_input_of_untouched category
    (fun _ i hi => by cases i <;> first | rfl | exact absurd rfl hi) h d

lemma amountField_foldl_input (h : Untouched inputs "amount") :
    (inputs.foldl input d).amountField = d.amountField :=
  foldl_input_of_untouched amountField
    (fun _ i hi => by cases i <;> first | rfl | exact absurd rfl hi) h d

lemma datePicker_foldl_input (h : Untouched inputs "date") :
    (inputs.foldl input d).datePicker = d.datePicker :=
  foldl_input_of_untouched datePicker
    (fun _ i hi => by cases i <;> first | rfl | exact absurd rfl hi) h d

/-- An edit takes over from the screen what belongs to a field the user has not touched. -/
lemma edit_foldl_input {e : Edit} (he : (inputs.foldl input d).edit = some e) :
    (Untouched inputs "transactionType" → e.transactionType = d.transactionType) ∧
      (Untouched inputs "category" → e.category = d.category) ∧
      (Untouched inputs "amount" → parseInt d.amountField = some e.amount) ∧
      (Untouched inputs "date" → e.date = d.datePicker) := by
  obtain ⟨amount, hamount, rfl⟩ := Option.map_eq_some_iff.mp he
  refine ⟨transactionType_foldl_input, category_foldl_input, fun h => ?_, datePicker_foldl_input⟩
  rw [← amountField_foldl_input h]
  exact hamount

/-- The screen shows the stored type, amount and date of a well-formed transaction and the
category that the loader has recognised. -/
lemma viewDidLoad_reloaded [FIRTimestamp] {showDate : Date → Date → Date} {now date : Date}
    {t : Transaction} (ht : t.WellFormed) (hdate : t.date = some date) {r : Ref} {row : ℕ}
    (h : viewDidLoad showDate now t.reloaded r row = some d) :
    d.transactionType = t.transactionType ∧ d.category = t.reloaded.category ∧
      (∃ amount, t.amount = some amount ∧ parseInt d.amountField = some amount) ∧
      d.datePicker = showDate now
        (showDate storyboardMaximumDate (dateValue (timestampWithDate date))) := by
  obtain ⟨date', hdate', rfl⟩ := viewDidLoad_eq_some h
  rw [Transaction.reloaded, hdate, Option.map_some, Option.some.injEq] at hdate'
  subst hdate'
  obtain ⟨amount, hamount, -⟩ := ht.amount
  refine ⟨?_, rfl, ⟨amount, hamount, ?_⟩, rfl⟩
  · rcases ht.transactionType with hk | hk <;> simp [Transaction.reloaded, hk]
  · simpa [Transaction.reloaded, hamount] using parseInt_amountDescription amount

end DetailScreen

/-! ### The date -/

section DateReturns

variable [FIRTimestamp] {showDate : Date → Date → Date} {now date : Date}

/-- A date returns exactly if the picker may show it and the conversions give it back. -/
lemma dateReturns_iff (shows : ∀ m d, d ≤ m → showDate m d = d)
    (bounded : ∀ m d, m < d → showDate m d ≤ m)
    (truncates : ∀ d, dateValue (timestampWithDate d) ≤ d) :
    DateReturns showDate now date ↔ dateValue date ≤ storyboardMaximumDate ∧
      dateValue date ≤ now ∧ timestampWithDate (dateValue date) = date := by
  have hle : ∀ m d, showDate m d ≤ m ∧ showDate m d ≤ d := by
    intro m d
    rcases le_or_gt d m with hd | hd
    · rw [shows m d hd]
      exact ⟨hd, le_rfl⟩
    · exact ⟨bounded m d hd, (bounded m d hd).trans hd.le⟩
  constructor
  · intro h
    -- what is stored in the end is not later than what has been shown on the way
    obtain ⟨hnow, hfirst⟩ := hle now (showDate storyboardMaximumDate (dateValue date))
    have hback := truncates (showDate now (showDate storyboardMaximumDate (dateValue date)))
    rw [DateReturns] at h
    rw [h] at hback
    have hmax := (hback.trans hfirst).trans (hle storyboardMaximumDate (dateValue date)).1
    rw [shows _ _ hmax, shows _ _ (hback.trans hnow)] at h
    exact ⟨hmax, hback.trans hnow, h⟩
  · rintro ⟨hmax, hnow, h⟩
    rwa [DateReturns, shows _ _ hmax, shows _ _ hnow]

end DateReturns

/-! ### The document -/

section Document

variable {showDate : Date → Date → Date} {u : String} {documents found : List Doc}
  {c : Transactions} {row : ℕ} {now : Date} {inputs : List Input} {d : Doc} {t : Screens}

lemma mem_documents_of_shown (loaded : documents.Perm (userDocuments u c))
    (shown : documents[row]? = some d) : d ∈ c.documents :=
  (mem_userDocuments.mp (loaded.mem_iff.mp (List.mem_of_getElem? shown))).1

section Fields

variable [FIRTimestamp]

lemma StoresWellFormed.exists_docId (h : StoresWellFormed d) :
    ∃ x, docId d = some (.string x) := by
  obtain ⟨t, ht, hrecord⟩ := h
  obtain ⟨x, hx⟩ := Option.ne_none_iff_exists'.mp ht.id
  exact ⟨x, (docId_eq_of_record hrecord).trans (storedId_eq_string_iff.mpr hx)⟩

/-- The app finds a well-formed document by the id it has loaded from it. -/
lemma StoresWellFormed.storedId_decode (h : StoresWellFormed d) :
    storedId (SpendingTracker.decode d.data) = docId d := by
  obtain ⟨x, hx⟩ := h.exists_docId
  rw [hx, storedId_eq_string_iff, App.id_decode_eq_some_iff, hx]

/-- A save whose writes have been made overwrites the document with the id, if there is one
only. -/
lemma documentsAfter_save [StringEquality] {s : App} {r : Ref} {e : Edit} {rest : List Event}
    (hd : d ∈ s.collection.documents) (hid : storedId (s.transaction r) = docId d)
    (own : ∀ x ∈ s.collection.documents, docId x = docId d → x = d) (hr : r ∈ s.shared)
    (hwrote : ∀ x, Wrote rest x) :
    s.documentsAfter (.save r e) rest = s.collection.documents.map fun x =>
      if x.documentID = d.documentID then d.overwrite ((s.transaction r).edited e).updateData
      else x := by
  refine List.map_congr_left fun x hx => ?_
  have hfinds : s.Finds r := ⟨r, hr, same_refl _⟩
  have hsame : docId x = docId d ↔ x.documentID = d.documentID := by
    constructor
    · intro hdoc
      rw [own x hx hdoc]
    · intro hdoc
      rw [s.collection.eq_of_documentID hx hd hdoc]
  simp only [hfinds, hwrote, hid, hsame, true_and, and_true]
  split_ifs with heq
  · rw [s.collection.eq_of_documentID hx hd heq]
  · rfl

/-- The documents after the session of an edit: the one that is shown has been overwritten. -/
lemma documents_editSession (wellFormed : ∀ d ∈ c.documents, StoresWellFormed d)
    (distinct : (c.documents.map docId).Nodup) (loaded : documents.Perm (userDocuments u c))
    (shown : documents[row]? = some d)
    (run : Run (Screens.step showDate) (.loaded u documents c)
      (editSession row now inputs found) t) :
    ∃ screen e, DetailScreen.viewDidLoad showDate now (decode d.data) row row = some screen ∧
      (inputs.foldl DetailScreen.input screen).edit = some e ∧
      t.app.collection.documents = c.documents.map fun x =>
        if x.documentID = d.documentID then d.overwrite ((decode d.data).edited e).updateData
        else x := by
  have hmem : ∀ x ∈ documents, x ∈ c.documents := fun x hx =>
    (mem_userDocuments.mp (loaded.mem_iff.mp hx)).1
  have hd := hmem d (List.mem_of_getElem? shown)
  obtain ⟨hrow, htransaction⟩ := session_row (u := u) (c := c) shown
  have hids : (App.session u documents c).IdsDistinct := by
    refine session_idsDistinct ?_ fun x hx => (wellFormed x (hmem x hx)).exists_docId
    have hnodup : ((userDocuments u c).map docId).Nodup :=
      (List.filter_sublist.map _).nodup distinct
    exact (loaded.map docId).nodup_iff.mpr hnodup
  obtain ⟨r, screen, e, hr, hscreen, he, run'⟩ := Screens.run_editSession rfl run
  obtain rfl : r = row := Option.some.inj (hr.symm.trans hrow)
  change DetailScreen.viewDidLoad showDate now ((App.session u documents c).transaction r) r r =
    some screen at hscreen
  rw [htransaction] at hscreen
  refine ⟨screen, e, hscreen, he, ?_⟩
  have hrun : Run App.step (App.session u documents c)
    [.save r e, .answer 0 found, .deliver 0 (.succeeded [])] t.app := run'
  have hleaves := App.leaves_save rfl hrun (by simp [Event.Settles])
    (hids.requests_of_run (List.mem_of_getElem? hrow) rfl hrun)
  rw [← htransaction]
  refine hleaves.documents.trans (documentsAfter_save hd ?_
    (fun x hx hid => List.inj_on_of_nodup_map distinct hx hd hid) (List.mem_of_getElem? hrow)
    fun x => by simp [Wrote, Event.Writes])
  rw [htransaction, (wellFormed d hd).storedId_decode]

/-- A category is stored as before, after it has been loaded, unless the loader has no case for
it. -/
lemma category_reloaded_eq_iff {t : Transaction} :
    some (Value.asAny .string (t.reloaded.category.map Category.description)) =
      some (Value.asAny .string (t.category.map Category.description)) ↔
    some (Value.asAny .string (t.category.map Category.description)) ≠ some (.string "Other") ∧
      some (Value.asAny .string (t.category.map Category.description)) ≠
        some (.string "None") := by
  simp only [Transaction.reloaded]
  rcases t.category with _ | category
  · decide
  · cases category <;> decide

/-- The frame is kept exactly if the fields overwritten with an untouched value are the same. -/
lemma frameKept_iff_lookup {e : Edit} {c' : Transactions} (hd : d ∈ c.documents)
    (hdocs : c'.documents = c.documents.map fun x =>
      if x.documentID = d.documentID then d.overwrite ((decode d.data).edited e).updateData
      else x) :
    FrameKept c d inputs c' ↔ ∀ k, Untouched inputs k →
      (d.overwrite ((decode d.data).edited e).updateData).data.lookup k = d.data.lookup k := by
  constructor
  · rintro ⟨d', -, hdocs', hfields⟩
    have heq := List.map_inj_left.mp (hdocs'.symm.trans hdocs) d hd
    rw [if_pos rfl, if_pos rfl] at heq
    rw [← heq]
    exact hfields
  · intro h
    exact ⟨d.overwrite _, Document.documentID_overwrite, hdocs, h⟩

/-- The fields that the user has not touched are left as they were exactly when the category, if
it is one of them, has a name that the loader recognises, and the date, if it is one of them,
returns from the date picker. -/
theorem frameKept_iff_dateReturns
    (wellFormed : ∀ d ∈ c.documents, StoresWellFormed d)
    (distinct : (c.documents.map docId).Nodup) (loaded : documents.Perm (userDocuments u c))
    (shown : documents[row]? = some d)
    (run : Run (Screens.step showDate) (.loaded u documents c)
      (editSession row now inputs found) t) :
    FrameKept c d inputs t.app.collection ↔
      (Untouched inputs "category" → d.data.lookup "category" ≠ some (.string "Other") ∧
        d.data.lookup "category" ≠ some (.string "None")) ∧
      (Untouched inputs "date" → ∀ date, d.data.lookup "date" = some (.timestamp date) →
        DateReturns showDate now date) := by
  obtain ⟨screen, e, hscreen, he, hdocs⟩ :=
    documents_editSession wellFormed distinct loaded shown run
  have hd := mem_documents_of_shown loaded shown
  obtain ⟨t₀, ht₀, hrecord⟩ := wellFormed d hd
  obtain ⟨date, hdate⟩ := Option.ne_none_iff_exists'.mp ht₀.date
  have hdecode : decode d.data = t₀.reloaded := by
    rw [decode_eq, hrecord, Transaction.decode_record]
  rw [hdecode] at hscreen
  obtain ⟨hstartType, hstartCategory, ⟨amount, hamount, hstartAmount⟩, hstartDate⟩ :=
    DetailScreen.viewDidLoad_reloaded ht₀ hdate hscreen
  obtain ⟨heditType, heditCategory, heditAmount, heditDate⟩ := DetailScreen.edit_foldl_input he
  rw [frameKept_iff_lookup hd hdocs]
  have hothers : ∀ k, k ∉ ["transactionType", "category", "amount", "date"] →
      (d.overwrite ((decode d.data).edited e).updateData).data.lookup k = d.data.lookup k :=
    fun k hk => Document.lookup_overwrite_of_notMem (by rwa [Transaction.mem_updateData])
  -- only the record of the overwritten document matters from here on
  have hnew := recordOf_overwrite (t := (decode d.data).edited e)
    (wellFormed d hd).storedId_decode.symm
  generalize d.overwrite ((decode d.data).edited e).updateData = d' at hothers hnew ⊢
  have hcategory (hu : Untouched inputs "category") :
      d'.data.lookup "category" = d.data.lookup "category" ↔
        d.data.lookup "category" ≠ some (.string "Other") ∧
          d.data.lookup "category" ≠ some (.string "None") := by
    rw [show d.data.lookup "category" = _ from congrArg Record.category hrecord,
      show d'.data.lookup "category" = _ from congrArg Record.category hnew]
    simp only [Transaction.record, Transaction.edited, heditCategory hu, hstartCategory]
    exact category_reloaded_eq_iff
  have hpicked (hu : Untouched inputs "date") :
      d'.data.lookup "date" = d.data.lookup "date" ↔
        ∀ date, d.data.lookup "date" = some (.timestamp date) → DateReturns showDate now date := by
    rw [show d.data.lookup "date" = _ from congrArg Record.date hrecord,
      show d'.data.lookup "date" = _ from congrArg Record.date hnew]
    simp only [Transaction.record, Transaction.edited, heditDate hu, hstartDate, hdate,
      Value.asAny, Value.ofDate, Option.some.injEq, Value.timestamp.injEq, forall_eq']
    rfl
  constructor
  · intro h
    exact ⟨fun hu => (hcategory hu).mp (h _ hu), fun hu => (hpicked hu).mp (h _ hu)⟩
  · rintro ⟨hc, hp⟩ k hu
    by_cases hk : k ∈ ["transactionType", "category", "amount", "date"]
    · simp only [List.mem_cons, List.not_mem_nil, or_false] at hk
      rcases hk with rfl | rfl | rfl | rfl
      · rw [show d.data.lookup "transactionType" = _ from congrArg Record.transactionType hrecord,
          show d'.data.lookup "transactionType" = _ from congrArg Record.transactionType hnew]
        simp only [Transaction.record, Transaction.edited, heditType hu, hstartType]
      · exact (hcategory hu).mpr (hc hu)
      · have hsame : amount = e.amount :=
          Option.some.inj (hstartAmount.symm.trans (heditAmount hu))
        rw [show d.data.lookup "amount" = _ from congrArg Record.amount hrecord,
          show d'.data.lookup "amount" = _ from congrArg Record.amount hnew]
        simp only [Transaction.record, Transaction.edited, hamount, hsame]
      · exact (hpicked hu).mpr (hp hu)
    · exact hothers k hk

/-- **An edit changes what the user edits, with two exceptions.**  Let the documents be
well-formed with distinct ids, and let the user edit the transaction of the document `d` and
save.  A date picker shows every date up to its maximum and none past it, and a date that has been
stored does not come back later than it was.  Then the fields that the user has not touched are
left in `d` as they were, and so is every other document, exactly when the user has touched the
category or its stored name is one that the loader recognises, and the user has touched the date
or the stored timestamp gives a date that is neither past the maximum in the storyboard nor past
the present and that gives the same timestamp again. -/
theorem frameKept_editSession_iff (shows : ∀ m d, d ≤ m → showDate m d = d)
    (bounded : ∀ m d, m < d → showDate m d ≤ m)
    (truncates : ∀ d, dateValue (timestampWithDate d) ≤ d)
    (wellFormed : ∀ d ∈ c.documents, StoresWellFormed d)
    (distinct : (c.documents.map docId).Nodup) (loaded : documents.Perm (userDocuments u c))
    (shown : documents[row]? = some d)
    (run : Run (Screens.step showDate) (.loaded u documents c)
      (editSession row now inputs found) t) :
    FrameKept c d inputs t.app.collection ↔
      (Untouched inputs "category" → d.data.lookup "category" ≠ some (.string "Other") ∧
        d.data.lookup "category" ≠ some (.string "None")) ∧
      (Untouched inputs "date" → ∀ date, d.data.lookup "date" = some (.timestamp date) →
        dateValue date ≤ storyboardMaximumDate ∧ dateValue date ≤ now ∧
          timestampWithDate (dateValue date) = date) := by
  rw [frameKept_iff_dateReturns wellFormed distinct loaded shown run]
  simp only [dateReturns_iff shows bounded truncates]

end Fields

end Document

/-- A document of the user `u`. -/
def expenseDocument (category : Category) (date : Date) : Doc :=
  ⟨"d", (Transaction.make "a" .expense category 42 date).addDocumentData "u"⟩

/-- The collection with this document only. -/
def oneExpense (category : Category) (date : Date) : Transactions :=
  ⟨[expenseDocument category date], List.nodup_singleton _⟩

/-- Another document of the user `u`. -/
def incomeDocument : Doc := ⟨"e", (Transaction.make "b" .income .kids 100 8).addDocumentData "u"⟩

/-- A document of the user `v`. -/
def strangersDocument : Doc :=
  ⟨"f", (Transaction.make "c" .expense .fuel 5 3).addDocumentData "v"⟩

/-- A collection of three documents. -/
def threeDocuments : Transactions :=
  ⟨[expenseDocument .sport 7, incomeDocument, strangersDocument], by decide⟩

lemma storesWellFormed_threeDocuments : ∀ d ∈ threeDocuments.documents, StoresWellFormed d := by
  intro d hd
  simp only [threeDocuments, List.mem_cons, List.not_mem_nil, or_false] at hd
  rcases hd with rfl | rfl | rfl
  · exact .addDocumentData (.make (by decide) ⟨by decide, by decide⟩) "d" "u"
  · exact .addDocumentData (.make (by decide) ⟨by decide, by decide⟩) "e" "u"
  · exact .addDocumentData (.make (by decide) ⟨by decide, by decide⟩) "f" "v"

theorem frameKept_amount : ∃ t,
    Run (Screens.step min) (.loaded "u" [incomeDocument, expenseDocument .sport 7] threeDocuments)
      (editSession 1 9 [.editAmount 0 1 []] [expenseDocument .sport 7]) t ∧
    t.app.collection ≠ threeDocuments ∧
    FrameKept threeDocuments (expenseDocument .sport 7) [.editAmount 0 1 []] t.app.collection := by
  have run : Run (Screens.step min)
      (.loaded "u" [incomeDocument, expenseDocument .sport 7] threeDocuments)
      (editSession 1 9 [.editAmount 0 1 []] [expenseDocument .sport 7]) _ := exec_eq_some_iff.mp rfl
  have distinct : (threeDocuments.documents.map docId).Nodup := by decide
  refine ⟨_, run, by decide, (frameKept_editSession_iff (fun _ _ => min_eq_right)
    (fun _ _ _ => min_le_left _ _) (fun _ => le_rfl) storesWellFormed_threeDocuments distinct
    (.swap _ _ _) rfl run).mpr ?_⟩
  refine ⟨fun _ => by decide, fun _ date hdate => ?_⟩
  obtain rfl : 7 = date := Value.timestamp.inj (Option.some.inj hdate)
  exact ⟨(by decide : (7 : Date) ≤ storyboardMaximumDate), (by decide : (7 : Date) ≤ 9), rfl⟩

/-- Nothing is edited.  A document in the category `other` loses its category, and one with a date
past the maximum of the storyboard changes its date. -/
theorem not_frameKept_nil :
    (∃ t, Run (Screens.step min)
        (.loaded "u" [expenseDocument .other 7] (oneExpense .other 7))
        (editSession 0 9 [] [expenseDocument .other 7]) t ∧
      ¬ FrameKept (oneExpense .other 7) (expenseDocument .other 7) [] t.app.collection) ∧
    ∃ t, Run (Screens.step min)
        (.loaded "u" [expenseDocument .sport 631105200000001] (oneExpense .sport 631105200000001))
        (editSession 0 700000000000000 [] [expenseDocument .sport 631105200000001]) t ∧
      ¬ FrameKept (oneExpense .sport 631105200000001) (expenseDocument .sport 631105200000001) []
        t.app.collection :=
  ⟨⟨_, exec_eq_some_iff.mp rfl, by
      rw [frameKept_nil_iff List.mem_cons_self]
      decide⟩,
    _, exec_eq_some_iff.mp rfl, by
      rw [frameKept_nil_iff List.mem_cons_self]
      decide⟩

end SpendingTracker
