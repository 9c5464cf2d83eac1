import SpendingTracker.Format.WellFormed
import SpendingTracker.Model.Views

/-!
# Whole lifetimes of the app

The Add screen checks its input; the detail screen checks only the amount and takes the rest
from the transaction it shows.  Starting from an empty collection, this is enough: in every
state of every run, with any number of users who sign in and out, every document and every
transaction of the store is well-formed, ids are distinct, and the totals of the dashboard are
small.
-/

namespace SpendingTracker

open Lib

/-! ### The totals of well-formed transactions -/

lemma amountsOf_nonneg {k : TransactionType} {ts : List Transaction}
    (h : ∀ t ∈ ts, t.WellFormed) : ∀ x ∈ amountsOf k ts, 0 ≤ x.toInt := by
  intro x hx
  obtain ⟨t, ht, heq⟩ := List.mem_filterMap.mp hx
  obtain ⟨amount, hamount, hrange⟩ := (h t ht).amount
  split_ifs at heq
  cases heq.symm.trans hamount
  exact hrange.1

/-- The exact sums of well-formed transactions. -/
lemma exactSum_amountsOf_le {ts : List Transaction} (h : ∀ t ∈ ts, t.WellFormed) :
    exactSum (amountsOf .income ts) + exactSum (amountsOf .expense ts) ≤ 999999 * ts.length := by
  induction ts with
  | nil => simp [amountsOf]
  | cons t ts ih =>
      have hrest := ih fun x hx => h x (List.mem_cons_of_mem t hx)
      obtain ⟨amount, hamount, hrange⟩ := (h t List.mem_cons_self).amount
      have hfirst : exactSum (amountsOf .income [t]) + exactSum (amountsOf .expense [t]) ≤
          999999 := by
        have hle := hrange.2
        rcases (h t List.mem_cons_self).transactionType with hk | hk <;>
          simpa [amountsOf, hk, hamount] using hle
      rw [amountsOf_cons, amountsOf_cons .expense, exactSum_append, exactSum_append,
        List.length_cons]
      push_cast
      omega

/-- The totals of at most `n` well-formed transactions. -/
lemma Dashboard.exists_calculateData {d : Dashboard} {s : App} {n : ℕ}
    (h : ∀ r ∈ d.transactions, (s.transaction r).WellFormed) (hn : d.transactions.length ≤ n)
    (hsmall : 999999 * n < 2 ^ 63) :
    ∃ d', d.calculateData s = some d' ∧ 0 ≤ d'.income.toInt ∧ 0 ≤ d'.expense.toInt ∧
      d'.income.toInt + d'.expense.toInt ≤ 999999 * n := by
  have hall : ∀ t ∈ d.transactions.map s.transaction, t.WellFormed := by
    simpa [List.forall_mem_map] using h
  have hle := exactSum_amountsOf_le hall
  rw [List.length_map] at hle
  have hincome := exactSum_nonneg (amountsOf_nonneg (k := .income) hall)
  have hexpense := exactSum_nonneg (amountsOf_nonneg (k := .expense) hall)
  obtain ⟨i, hi, hi'⟩ := exists_sumTrapping (amountsOf_nonneg (k := .income) hall)
    ⟨by omega, by omega⟩
  obtain ⟨e, he, he'⟩ := exists_sumTrapping (amountsOf_nonneg (k := .expense) hall)
    ⟨by omega, by omega⟩
  have hpresent : ∀ k, AmountsPresent k (d.transactions.map s.transaction) := by
    intro k t ht _
    obtain ⟨amount, hamount, -⟩ := (hall t ht).amount
    simp [hamount]
  -- both sums lie between zero and the total of all amounts
  have hfits : Fits (i.toInt - e.toInt) := by
    rw [hi', he']
    constructor <;> omega
  refine ⟨⟨d.transactions, i, e, Int64.ofInt (i.toInt - e.toInt), d.segment⟩,
    calculateData_eq_some_iff.mpr ⟨⟨hpresent _, hpresent _⟩, hi, he, if_pos hfits, rfl, rfl⟩, ?_⟩
  simp only [hi', he']
  exact ⟨hincome, hexpense, by omega⟩

/-! ### The input of the two screens -/

lemma transactionTypeOfRow_of_lt {row : ℕ} (h : row < 2) :
    transactionTypeOfRow row = .income ∨ transactionTypeOfRow row = .expense := by
  match row, h with
  | 0, _ => exact Or.inl rfl
  | 1, _ => exact Or.inr rfl

lemma AddScreen.amountText_input {a : AddScreen} (h : AmountText a.amountField) (i : Input) :
    AmountText (a.input i).amountField := by
  cases i with
  | editAmount location length replacement => exact h.editText location length replacement
  | _ => exact h

/-- The Add screen makes well-formed transactions only. -/
lemma AddScreen.wellFormed_transaction {a : AddScreen} (h : AmountText a.amountField)
    (hcheck : a.CheckAttributes = true) {uuid : String} {t : Transaction}
    (ht : a.transaction uuid = some t) : t.WellFormed ∧ t.id = some uuid := by
  simp only [CheckAttributes, Bool.and_eq_true, decide_eq_true_eq] at hcheck
  have hne : a.amountField ≠ [] := fun heq => hcheck.2 (by simp [heq])
  obtain ⟨amount, hparse, hrange, -⟩ := h.parseInt hne
  rw [transaction, hparse] at ht
  cases ht
  exact ⟨.make hcheck.1.1 hrange, rfl⟩

/-- What holds of the input of an open detail screen. -/
structure DetailScreen.WellFormed (d : DetailScreen) : Prop where
  transactionType : d.transactionType = some .income ∨ d.transactionType = some .expense
  amountField : AmountText d.amountField

namespace DetailScreen.WellFormed

variable {d : DetailScreen}

/-- The screen starts with the values of the transaction it shows. -/
lemma viewDidLoad {showDate : Date → Date → Date} {now : Date} {t : Transaction} {r : Ref}
    {row : ℕ} (ht : t.WellFormed)
    (h : DetailScreen.viewDidLoad showDate now t r row = some d) : d.WellFormed := by
  obtain ⟨date, -, rfl⟩ := viewDidLoad_eq_some h
  obtain ⟨amount, hamount, hrange⟩ := ht.amount
  exact ⟨ht.transactionType, by simpa [hamount] using amountText_amountDescription hrange⟩

lemma input (h : d.WellFormed) {i : Input} (hi : i.Offered) : (d.input i).WellFormed := by
  cases i with
  | selectType row =>
      refine ⟨?_, h.amountField⟩
      rcases transactionTypeOfRow_of_lt hi with hk | hk <;> simp [DetailScreen.input, hk]
  | selectCategory section_ row => exact ⟨h.transactionType, h.amountField⟩
  | editAmount location length replacement =>
      exact ⟨h.transactionType, h.amountField.editText location length replacement⟩
  | pickDate date => exact ⟨h.transactionType, h.amountField⟩

/-- The detail screen makes well-formed edits only. -/
lemma edit (h : d.WellFormed) (hcheck : d.CheckAttributes = true) {e : Edit}
    (he : d.edit = some e) : e.WellFormed := by
  simp only [CheckAttributes, decide_eq_true_eq] at hcheck
  have hne : d.amountField ≠ [] := fun heq => hcheck (by simp [heq])
  obtain ⟨amount, hparse, hrange, -⟩ := h.amountField.parseInt hne
  rw [DetailScreen.edit, hparse] at he
  cases he
  exact ⟨h.transactionType, hrange⟩

end DetailScreen.WellFormed

/-! ### The invariant of the screens -/

lemma App.wellFormedEvent_of_background {s : App} {e : Event} (h : e.Background = true) :
    s.WellFormedEvent e := by
  cases e with
  | add added index => cases h
  | save r edit => cases h
  | remote c => cases h
  | _ => trivial

namespace Screens

variable {showDate : Date → Date → Date} {s s' : Screens} {e : ScreenEvent}

variable [FIRTimestamp]

/-- Everything is well-formed, and the screens hold acceptable input and existing objects. -/
structure WellKept (s : Screens) : Prop where
  app : s.app.WellKept
  list : ∀ r ∈ s.list.transactions, r < s.app.heap.size
  add : ∀ a, s.top = .add a → AmountText a.amountField
  detail : ∀ d, s.top = .detail d → d.transaction < s.app.heap.size ∧ d.WellFormed

namespace WellKept

/-- The screens go on with another state of the app. -/
lemma withApp (h : s.WellKept) {app : App} {event : Event} (he : s.app.WellFormedEvent event)
    (hs : s.app.step event = some app) : WellKept { s with app := app } := by
  obtain ⟨hsize, -⟩ := (App.step_store hs).lt_size h.app.shared
  exact ⟨h.app.step he hs, fun r hr => (h.list r hr).trans_le hsize, h.add,
    fun d hd => ⟨(h.detail d hd).1.trans_le hsize, (h.detail d hd).2⟩⟩

/-- The user leaves the Add screen or the detail screen; the list may hold the store. -/
lemma leave (h : s.WellKept) {list : ListScreen} {top : Top}
    (hlist : ∀ r ∈ list.transactions, r < s.app.heap.size) (hadd : ∀ a, top ≠ .add a)
    (hdetail : ∀ d, top ≠ .detail d) : WellKept ⟨s.app, list, top⟩ :=
  ⟨h.app, hlist, fun a ha => absurd ha (hadd a), fun d hd => absurd hd (hdetail d)⟩

lemma list_viewWillAppear (h : s.WellKept) :
    ∀ r ∈ s.viewWillAppear.list.transactions, r < s.app.heap.size := by
  intro r hr
  unfold viewWillAppear at hr
  split_ifs at hr
  · exact h.app.shared r hr
  · exact h.list r hr

lemma step_background (h : s.WellKept) {event : Event}
    (hs : s.step showDate (.background event) = some s') : s'.WellKept := by
  obtain ⟨hb, app, happ, rfl⟩ := step_background_iff.mp hs
  have hnext := h.withApp (App.wellFormedEvent_of_background hb) happ
  unfold afterBackground
  split_ifs
  · exact hnext.leave (by simp [ListScreen.init]) (by simp) (by simp)
  · exact hnext.leave (by simp [ListScreen.init]) (by simp) (by simp)
  · exact hnext

lemma step_viewWillAppear (h : s.WellKept) (hs : s.step showDate .viewWillAppear = some s') :
    s'.WellKept := by
  rcases Screens.step_viewWillAppear hs with ⟨-, rfl⟩ | ⟨-, rfl⟩
  · exact h.leave h.list_viewWillAppear (by simp) (by simp)
  · exact ⟨h.app, h.list_viewWillAppear, h.add, h.detail⟩

lemma step_openDetail (h : s.WellKept) {row : ℕ} {now : Date}
    (hs : s.step showDate (.openDetail row now) = some s') : s'.WellKept := by
  obtain ⟨-, r, d, hr, hd, rfl⟩ := Screens.step_openDetail hs
  have hlt := h.list r (List.mem_of_getElem? hr)
  refine ⟨h.app, h.list, by simp, ?_⟩
  rintro d' ⟨⟩
  refine ⟨?_, .viewDidLoad (h.app.transaction hlt) hd⟩
  obtain ⟨date, -, rfl⟩ := DetailScreen.viewDidLoad_eq_some hd
  exact hlt

lemma step_input (h : s.WellKept) {i : Input} (hs : s.step showDate (.input i) = some s') :
    s'.WellKept := by
  obtain ⟨hi, ⟨a, htop, rfl⟩ | ⟨d, htop, rfl⟩⟩ := Screens.step_input hs
  · refine ⟨h.app, h.list, ?_, by simp⟩
    rintro a' ⟨⟩
    exact AddScreen.amountText_input (h.add a htop) i
  · refine ⟨h.app, h.list, by simp, ?_⟩
    rintro d' ⟨⟩
    exact ⟨by simpa using (h.detail d htop).1, (h.detail d htop).2.input hi⟩

lemma step_addButton (h : s.WellKept) {uuid : String} {documentID : Option String}
    (hs : s.step showDate (.addButton uuid documentID) = some s') : s'.WellKept := by
  obtain ⟨a, htop, ⟨-, rfl⟩ | ⟨hcheck, huuid, t, app, ht, happ, rfl⟩⟩ := Screens.step_addButton hs
  · exact h
  · obtain ⟨hwf, hid⟩ := AddScreen.wellFormed_transaction (h.add a htop) hcheck ht
    have hevent : s.app.WellFormedEvent (.add [(t, documentID)] none) :=
      ⟨⟨by simp, by simpa [hid] using huuid⟩, by simpa using hwf⟩
    have hnext := h.withApp hevent happ
    exact hnext.leave hnext.app.shared (by simp) (by simp)

lemma step_saveButton (h : s.WellKept) (hs : s.step showDate .saveButton = some s') :
    s'.WellKept := by
  obtain ⟨d, htop, ⟨-, rfl⟩ | ⟨hcheck, e, app, he, happ, rfl⟩⟩ := Screens.step_saveButton hs
  · exact h
  · have hevent : s.app.WellFormedEvent (.save d.transaction e) :=
      (h.detail d htop).2.edit hcheck he
    have hnext := h.withApp hevent happ
    exact hnext.leave hnext.list (by simp) (by simp)

lemma step_deleteButton (h : s.WellKept) (hs : s.step showDate .deleteButton = some s') :
    s'.WellKept := by
  obtain ⟨d, htop, -, app, happ, rfl⟩ := Screens.step_deleteButton hs
  have hevent : s.app.WellFormedEvent (.remove (s.app.transaction d.transaction).id) := trivial
  have hnext := h.withApp hevent happ
  exact hnext.leave (fun r hr => hnext.list r (List.mem_of_mem_eraseIdx hr)) (by simp) (by simp)

/-- Every event keeps everything well-formed. -/
theorem step (h : s.WellKept) (hs : s.step showDate e = some s') : s'.WellKept := by
  cases e with
  | background event => exact h.step_background hs
  | presentTabs =>
      obtain ⟨-, rfl⟩ := Screens.step_presentTabs hs
      exact h.leave (by simp [ListScreen.init]) (by simp) (by simp)
  | viewDidLoad =>
      obtain ⟨-, rfl⟩ := Screens.step_viewDidLoad hs
      exact h.leave h.app.shared (by simp) (by simp)
  | viewWillAppear => exact h.step_viewWillAppear hs
  | openAdd now =>
      obtain ⟨-, rfl⟩ := Screens.step_openAdd hs
      refine ⟨h.app, h.list, ?_, by simp⟩
      rintro a ⟨⟩
      exact amountText_nil
  | openDetail row now => exact h.step_openDetail hs
  | input i => exact h.step_input hs
  | back =>
      obtain ⟨-, rfl⟩ := Screens.step_back hs
      exact h.leave h.list (by simp) (by simp)
  | addButton uuid documentID => exact h.step_addButton hs
  | saveButton => exact h.step_saveButton hs
  | deleteButton => exact h.step_deleteButton hs

/-- The launch of the app over an empty collection. -/
lemma launch : (Screens.launch (.launch .empty)).WellKept where
  app :=
    { objects := by simp [Screens.launch, App.launch]
      documents := by simp [Screens.launch, App.launch, Collection.empty]
      answers := by simp [Screens.launch, App.launch]
      updates := by simp [Screens.launch, App.launch]
      shared := by simp [Screens.launch, App.launch]
      ids :=
        { present := by simp [Screens.launch, App.launch, Collection.empty]
          distinct := by simp [Screens.launch, App.launch, Collection.empty]
          answers := by simp [Screens.launch, App.launch]
          store := ⟨by simp [Screens.launch, App.launch], by simp [Screens.launch, App.launch]⟩ } }
  list := by simp [Screens.launch, ListScreen.init]
  add := by simp [Screens.launch]
  detail := by simp [Screens.launch]

end WellKept

end Screens

/-! ### What the user can rely on -/

/-- Every document and every transaction of the store is well-formed, no two documents and no
two entries of the store share an id, and the totals of any transactions of the store are
computed without a trap and are small. -/
structure App.AllWellFormed [FIRTimestamp] (s : App) : Prop where
  documents : ∀ d ∈ s.collection.documents, StoresWellFormed d
  documentIds : (s.collection.documents.map docId).Nodup
  store : ∀ r ∈ s.shared, (s.transaction r).WellFormed
  storeIds : (s.shared.map fun r => (s.transaction r).id).Nodup
  totals : ∀ d : Dashboard, d.transactions.Sublist s.shared → 999999 * s.shared.length < 2 ^ 63 →
    ∃ d', d.calculateData s = some d' ∧ 0 ≤ d'.income.toInt ∧ 0 ≤ d'.expense.toInt ∧
      d'.income.toInt + d'.expense.toInt ≤ 999999 * s.shared.length

lemma App.WellKept.allWellFormed [FIRTimestamp] {s : App} (h : s.WellKept) : s.AllWellFormed where
  documents := h.documents
  documentIds :=
    (List.nodup_map_iff_inj_on s.collection.documents_nodup).mpr fun d hd d' hd' hid =>
      h.ids.distinct d hd d' hd' trivial trivial hid
  store r hr := h.transaction (h.shared r hr)
  storeIds := h.ids.store.nodup
  totals _ hd hsmall :=
    Dashboard.exists_calculateData (fun r hr => h.transaction (h.shared r (hd.subset hr)))
      hd.length_le hsmall

/-- A document that is in both collections carries the same id and the same owner in both. -/
def KeepsIdentity (c c' : Transactions) : Prop :=
  ∀ d ∈ c.documents, ∀ d' ∈ c'.documents, d.documentID = d'.documentID →
    docId d = docId d' ∧ docOwner d = docOwner d'

lemma KeepsIdentity.refl (c : Transactions) : KeepsIdentity c c := by
  intro d hd d' hd' heq
  rw [c.eq_of_documentID hd hd' heq]
  exact ⟨rfl, rfl⟩

lemma App.keepsIdentity_step [FIRTimestamp] {s s' : App} {e : Event} (hlocal : ∀ c, e ≠ .remote c)
    (h : s.step e = some s') : KeepsIdentity s.collection s'.collection := by
  intro d hd d' hd' heq
  rcases step_documents hlocal h hd' with ⟨d₀, hd₀, hsame⟩ | ⟨-, -, -, -, -, -, hnew⟩
  · obtain rfl : d = d₀ :=
      s.collection.eq_of_documentID hd hd₀ (heq.trans hsame.documentID.symm)
    exact ⟨hsame.id, hsame.owner⟩
  · exact absurd (Or.inl (heq ▸ List.mem_map_of_mem hd)) hnew

namespace Screens

variable {showDate : Date → Date → Date} {s s' : Screens} {e : ScreenEvent}

/-- No event of the screens changes the id or the owner of a document. -/
lemma keepsIdentity_step [FIRTimestamp] (h : s.step showDate e = some s') :
    KeepsIdentity s.app.collection s'.app.collection := by
  cases e with
  | background event =>
      obtain ⟨hb, app, happ, rfl⟩ := step_background_iff.mp h
      have hcollection : (s.afterBackground event app).app = app := by
        unfold afterBackground
        split_ifs <;> rfl
      rw [hcollection]
      exact App.keepsIdentity_step (fun c hc => by simp [hc, Event.Background] at hb) happ
  | presentTabs => obtain ⟨-, rfl⟩ := step_presentTabs h; exact .refl _
  | viewDidLoad => obtain ⟨-, rfl⟩ := step_viewDidLoad h; exact .refl _
  | viewWillAppear => rcases step_viewWillAppear h with ⟨-, rfl⟩ | ⟨-, rfl⟩ <;> exact .refl _
  | openAdd now => obtain ⟨-, rfl⟩ := step_openAdd h; exact .refl _
  | openDetail row now => obtain ⟨-, r, d, -, -, rfl⟩ := step_openDetail h; exact .refl _
  | input i => obtain ⟨-, ⟨a, -, rfl⟩ | ⟨d, -, rfl⟩⟩ := step_input h <;> exact .refl _
  | back => obtain ⟨-, rfl⟩ := step_back h; exact .refl _
  | addButton uuid documentID =>
      obtain ⟨a, -, ⟨-, rfl⟩ | ⟨-, -, t, app, -, happ, rfl⟩⟩ := step_addButton h
      · exact .refl _
      · exact App.keepsIdentity_step (by simp) happ
  | saveButton =>
      obtain ⟨d, -, ⟨-, rfl⟩ | ⟨-, edit, app, -, happ, rfl⟩⟩ := step_saveButton h
      · exact .refl _
      · exact App.keepsIdentity_step (by simp) happ
  | deleteButton =>
      obtain ⟨d, -, -, app, happ, rfl⟩ := step_deleteButton h
      exact App.keepsIdentity_step (by simp) happ

/-- **Well-formedness over whole lifetimes.**  In every state that the app can reach from its
launch over an empty collection, everything is well-formed; and no step on the way has changed
the id or the owner of a document. -/
theorem allWellFormed_of_run [FIRTimestamp] {es : List ScreenEvent} {t : Screens}
    (run : Run (step showDate) (launch (.launch .empty)) es t) :
    t.app.AllWellFormed ∧
      EachStep (step showDate) (fun s e => ∀ s', s.step showDate e = some s' →
        KeepsIdentity s.app.collection s'.app.collection) (launch (.launch .empty)) es := by
  have h : t.WellKept :=
    run.invariant (C := fun _ _ => True) (fun _ _ _ h _ hs => WellKept.step h hs)
      (.of_forall (fun _ _ => trivial) _ _) .launch
  exact ⟨h.app.allWellFormed, .of_forall (fun _ _ _ hs => keepsIdentity_step hs) _ _⟩

/-- The document of an expense, before it is edited and afterwards. -/
def fuelDocument : Doc := ⟨"d", (Transaction.make "a" .expense .fuel 42 9).addDocumentData "u"⟩

def editedDocument : Doc :=
  fuelDocument.overwrite (Transaction.make "a" .expense .fuel 2 9).updateData

/-- The document of an income. -/
def sportDocument : Doc := ⟨"e", (Transaction.make "b" .income .sport 7 9).addDocumentData "u"⟩

/-- A user adds an expense and an income, edits the expense and deletes the income; another user
signs in and finds nothing; and the first one comes back and finds the expense as edited. -/
def twoUsers : List ScreenEvent :=
  [.background .viewDidAppear, .background (.signIn "u"), .background (.callListener 0),
    .background (.answer 0 []), .background (.deliver 0 (.succeeded [])), .viewDidLoad,
    .viewWillAppear, .openAdd 9, .input (.selectType 1), .input (.selectCategory 0 3),
    .input (.editAmount 0 0 ['4', '2']), .addButton "a" (some "d"), .viewWillAppear, .openAdd 9,
    .input (.selectType 0), .input (.selectCategory 0 6), .input (.editAmount 0 0 ['7']),
    .addButton "b" (some "e"), .viewWillAppear, .openDetail 0 9, .input (.editAmount 0 1 []),
    .saveButton, .viewWillAppear, .background (.answer 0 [fuelDocument]),
    .background (.deliver 0 (.succeeded [])), .openDetail 1 9, .deleteButton, .viewWillAppear,
    .background (.answer 0 [sportDocument]), .background (.deliver 0 (.succeeded [])),
    .background .signOut, .background (.signIn "v"), .background (.callListener 0),
    .background (.answer 0 []), .background (.deliver 0 (.succeeded [])), .viewDidLoad,
    .viewWillAppear, .background .signOut, .background (.signIn "u"), .background (.callListener 0),
    .background (.answer 0 [editedDocument]), .background (.deliver 0 (.succeeded [])),
    .viewDidLoad, .viewWillAppear]

theorem twoUsers_allWellFormed : ∃ t,
    Run (step min) (launch (.launch .empty)) twoUsers t ∧ t.app.shared.length = 1 ∧
    t.app.AllWellFormed := by
  have run : Run (step min) (launch (.launch .empty)) twoUsers _ := exec_eq_some_iff.mp rfl
  exact ⟨_, run, rfl, (allWellFormed_of_run run).1⟩

end Screens

end SpendingTracker
