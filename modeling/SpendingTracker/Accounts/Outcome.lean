import SpendingTracker.Accounts.Strangers
import SpendingTracker.Views.Ledger

/-!
# What a session comes to

A user works on one device while strangers work on others.  The requests of all of them are
evaluated and answered in some order, but what is in the database in the end depends on neither:
it is the ledger that results from the operations of the user.  A device on which the user signs
in later reports the totals of this ledger.
-/

namespace SpendingTracker

open Lib

namespace App

variable {u : String} {s s' : App} {e : Event} {L : Ledger}

/-- What is added goes to the end of the store, with an amount and a date. -/
def Recorded : Event → Prop
  | .add added index => index = none ∧ ∀ p ∈ added, p.1.amount ≠ none ∧ p.1.date ≠ none
  | _ => True

instance : DecidablePred Recorded
  | .add _ _ => inferInstanceAs (Decidable (_ ∧ _))
  | .save _ _ | .remove _ | .remote _ | .viewDidAppear | .signIn _ | .signOut | .callListener _
  | .answer _ _ | .deliver _ _ => inferInstanceAs (Decidable True)

/-- A step of a session without faults is one that a ledger records. -/
lemma Tied.withinSession (h : s.Tied u) (hc : s.ClientStep e) (hr : Recorded e) :
    s.WithinSession e := by
  cases e with
  | add added index => exact ⟨hr.1, ⟨hc.1, fun p hp => (hc.2 p hp).2⟩, hr.2⟩
  | deliver i outcome =>
      refine Option.eq_none_iff_forall_ne_some.mpr fun ⟨v, documents⟩ hf => ?_
      obtain ⟨j, refused, heq, hj⟩ := fetched_eq_some_iff.mp hf
      exact h.noFetch _ (List.mem_of_getElem? hj) v rfl
  | save r edit => rfl
  | remove x => rfl
  | answer i documents => rfl
  | remote c => exact hc.elim
  | viewDidAppear => exact hc.elim
  | signIn v => exact hc.elim
  | signOut => exact hc.elim
  | callListener i => exact hc.elim

/-- The records of a store that represents a ledger. -/
lemma Represents.records (h : s.Represents L) : (s.shared.map fun r => (s.transaction r).record) =
    L.entries.map fun p => (p.2.transaction p.1).record := by
  have hmap := congrArg (List.map Transaction.record) h
  rwa [List.map_map, List.map_map] at hmap

end App

/-! ### The dashboard of a reloaded ledger -/

section Reloaded

variable {s : App} {L : Ledger} {calendar : Calendar} {now : Date} {d d' : Dashboard} {k : Segment}
  {type : TransactionType}

/-- The store holds what the loader makes of the entries of a ledger, in any order. -/
def App.Reloads (s : App) (L : Ledger) : Prop :=
  (s.shared.map s.transaction).Perm (L.entries.map fun p => (p.2.transaction p.1).reloaded)

namespace App.Reloads

/-- Loading loses at most a category, or a type that is not counted. -/
lemma counts (h : s.Reloads L) : s.Counts L := by
  refine .of_perm h fun p => ⟨fun k hk => ?_, rfl, rfl⟩
  obtain ⟨x, transactionType, category, amount, date⟩ := p
  cases transactionType with
  | none => simp [Transaction.reloaded, Entry.transaction]
  | some type =>
      by_cases hnone : type = .none
      · simp [Transaction.reloaded, Entry.transaction, hnone, hk.symm]
      · simp [Transaction.reloaded, Entry.transaction, hnone]

/-- If no amount is negative and the totals fit, a refresh does not trap. -/
lemma exists_updateView (h : s.Reloads L) (hk : d.segment = some k.index)
    (nonneg : ∀ p ∈ L.entries, 0 ≤ p.2.amount.toInt)
    (fits : ∀ type, Fits (L.totalOf type (calendar.shows now k))) :
    ∃ d', d.updateView s calendar now = some d' := by
  have hsum : ∀ type, type ≠ .none → ∃ a,
      sumTrapping 0 (s.shownAmounts calendar now k type) = some a ∧ 0 ≤ a.toInt := by
    intro type htype
    have hperm := h.counts.amounts calendar now k type htype
    have hpos : ∀ x ∈ s.shownAmounts calendar now k type, 0 ≤ x.toInt := by
      intro x hx
      obtain ⟨p, hp, heq⟩ := List.mem_filterMap.mp (hperm.mem_iff.mp hx)
      split_ifs at heq
      cases heq
      exact nonneg p hp
    have hexact : exactSum (s.shownAmounts calendar now k type) =
        L.totalOf type (calendar.shows now k) :=
      (hperm.map Int64.toInt).sum_eq.trans (exactSum_amountsIf L.entries)
    obtain ⟨a, ha, htotal⟩ := exists_sumTrapping hpos (hexact ▸ fits type)
    exact ⟨a, ha, htotal ▸ exactSum_nonneg hpos⟩
  obtain ⟨i, hi, hi₀⟩ := hsum .income (by decide)
  obtain ⟨e, he, he₀⟩ := hsum .expense (by decide)
  refine h.counts.exists_updateView hk
    (fun type htype => (hsum type htype).imp fun _ => And.left) ?_
  -- the difference of two numbers that are not negative
  rw [← h.counts.toInt_sumTrapping (by decide) hi, ← h.counts.toInt_sumTrapping (by decide) he]
  obtain ⟨-, hi'⟩ := fits_toInt i
  obtain ⟨-, he'⟩ := fits_toInt e
  constructor <;> omega

end App.Reloads

end Reloaded

/-! ### All devices together -/

namespace Devices

variable {ι : Type*} [DecidableEq ι] {u : String} {S T U V : Devices ι} {i k : ι}
  {es es' : List (ι × Event)} {L : Ledger}

/-- The operations that the user carries out on the device `i`. -/
def operations (i : ι) (S : Devices ι) (e : ι × Event) : List Operation :=
  if e.1 = i then (S i).operations e.2 else []

/-- The ledger after the operations that the user has carried out on the device `i`. -/
def ledgerAfter (i : ι) (S : Devices ι) (es : List (ι × Event)) (L : Ledger) : Ledger :=
  (observed step (operations i) S es).foldl Ledger.apply L

/-- The user `u` works on the device `i` as a ledger records it, without faults; the other
devices neither add transactions for `u` nor load the documents of `u`. -/
def KeepsLedger (u : String) (i : ι) (S : Devices ι) (e : ι × Event) : Prop :=
  S.WorksOn u i e ∧ (e.1 = i → App.Recorded e.2)

instance [Fintype ι] (u : String) (i : ι) (S : Devices ι) : DecidablePred (KeepsLedger u i S) :=
  fun e => inferInstanceAs (Decidable (S.WorksOn u i e ∧ (e.1 = i → App.Recorded e.2)))

lemma KeepsLedger.worksOn (steps : EachStep step (KeepsLedger u i) S es)
    (run : Run step S es T) : EachStep step (WorksOn u i) S es :=
  run.eachStep (I := fun _ => True) (fun _ _ _ h => h.1) (fun _ _ _ _ _ _ => trivial) steps trivial

/-- **One step.**  The store of the user follows the operations of the user. -/
lemma represents_step {e : ι × Event} (roles : S.Coherent ∧ ∀ k, Role u i k (S k))
    (hL : (S i).Represents L) (hc : S.KeepsLedger u i e) (hs : S.step e = some T) :
    L.AllFresh (S.operations i e) ∧
      (T i).Represents ((S.operations i e).foldl Ledger.apply L) := by
  obtain ⟨j, e⟩ := e
  obtain ⟨s, hstep, rfl⟩ := Component.joint_eq_some_iff.mp hs
  obtain ⟨⟨-, hworks⟩, hrecorded⟩ := hc
  by_cases hj : j = i
  · subst hj
    rw [if_pos rfl] at hworks
    have hsession := ((roles.2 j).tied rfl).withinSession hworks (hrecorded rfl)
    rw [operations, if_pos rfl, Component.spread_self]
    exact hL.step hsession hstep
  -- a step of another device changes the collection at most
  · rw [operations, if_neg hj, Component.spread_of_ne (Ne.symm hj)]
    exact ⟨trivial, hL⟩

/-- The store of the user follows the operations of the user in every run. -/
lemma represents_of_run (start : S.AtRest u i) (hL : (S i).Represents L)
    (run : Run step S es T) (steps : EachStep step (KeepsLedger u i) S es) :
    (T i).Represents (S.ledgerAfter i es L) := by
  refine (run.simulates (R := fun S L => (S.Coherent ∧ ∀ k, Role u i k (S k)) ∧
    (S i).Represents L) (P := Ledger.Fresh) ?_ steps ⟨⟨start.coherent, start.role⟩, hL⟩).2.2
  intro S e T L h hc hs
  obtain ⟨hfresh, hrep⟩ := represents_step h.1 h.2 hc hs
  exact ⟨hfresh, role_of_run (.cons hs (.nil T)) ⟨hc.1, fun _ _ => trivial⟩ h.1.1 h.1.2, hrep⟩

/-- When nothing is outstanding, the documents of the user are the entries of the ledger. -/
lemma records_perm (start : S.AtRest u i) (hL : (S i).Represents L) (run : Run step S es T)
    (steps : EachStep step (KeepsLedger u i) S es) (done : (T i).requests = []) :
    ((userDocuments u (T i).collection).map fun d => recordOf d.data).Perm
      ((S.ledgerAfter i es L).entries.map fun p => (p.2.transaction p.1).record) := by
  have hagree : (T i).Agree u :=
    (start.of_run run (KeepsLedger.worksOn steps run) done).agree
  rwa [App.Agree, (represents_of_run start hL run steps).records] at hagree

/-- **The database is the ledger.**  From a state at rest, the user `u` adds, edits and deletes on
one device, without faults there, while any number of devices of other users do anything.  However
all the requests are interleaved and answered, as soon as the device of `u` has nothing
outstanding, the store holds the ledger that results from the operations of `u`, in order, and the
documents of `u` are exactly its entries. -/
theorem documents_are_ledger (start : S.AtRest u i) (ledger : (S i).Represents L)
    (run : Run step S es T) (steps : EachStep step (KeepsLedger u i) S es)
    (done : (T i).requests = []) :
    (T i).Represents (S.ledgerAfter i es L) ∧
      ((userDocuments u (T i).collection).map fun d => recordOf d.data).Perm
        ((S.ledgerAfter i es L).entries.map fun p => (p.2.transaction p.1).record) :=
  ⟨represents_of_run start ledger run steps, records_perm start ledger run steps done⟩

/-- The ledger of the user `u` with one income. -/
def oneIncome : Ledger := [.add "u" ⟨some .income, some .sport, 5, 0⟩].foldl Ledger.apply ∅

theorem bothWork_documents : ∃ T : Devices Device, Run step twoUsers bothWork T ∧
    (T .phone).Represents (twoUsers.ledgerAfter .phone bothWork oneIncome) ∧
    ((userDocuments "u" (T .phone).collection).map fun d => recordOf d.data).Perm
      ((twoUsers.ledgerAfter .phone bothWork oneIncome).entries.map
        fun p => (p.2.transaction p.1).record) := by
  have run : Run step twoUsers bothWork _ := exec_eq_some_iff.mp rfl
  exact ⟨_, run, documents_are_ledger atRest_twoUsers rfl run (by decide) rfl⟩

/-- **The totals are handed over.**  From a state at rest, the user `u` works on the device `i`
among strangers, without faults there, until nothing is outstanding, and then leaves it alone.
When another device has loaded the transactions of `u` after that, while no device adds for `u` or
loads for `u` anything else, its dashboard reports, on any segment and at any time, the totals
of the ledger that results from the operations on the device `i`.  If no amount is negative and
the totals fit, it does not trap. -/
theorem totals_handed_over (start : S.AtRest u i) (ledger : (S i).Represents L)
    (run : Run step S es T) (steps : EachStep step (KeepsLedger u i) S es)
    (done : (T i).requests = []) (later : Run step T es' U)
    (steps' : EachStep step
      (fun S e => S.Proper e ∧ e.1 ≠ i ∧ (S e.1).Foreign u e.2) T es')
    (nofetch : ∀ q ∈ (T k).requests, q.query ≠ .getTransactionsForUser u) {n : ℕ}
    {documents : List Doc} {refused : List String}
    (request : (U k).requests[n]? = some ⟨.getTransactionsForUser u, some documents⟩)
    (delivered : U.step (k, .deliver n (.succeeded refused)) = some V)
    (calendar : Calendar) (now : Date) (segment : Segment) (d : Dashboard)
    (selected : d.segment = some segment.index) :
    (∀ d', d.updateView (V k) calendar now = some d' →
      d'.Reports (S.ledgerAfter i es L) (calendar.shows now segment)) ∧
    ((∀ p ∈ (S.ledgerAfter i es L).entries, 0 ≤ p.2.amount.toInt) →
      (∀ type, Fits ((S.ledgerAfter i es L).totalOf type (calendar.shows now segment))) →
      ∃ d', d.updateView (V k) calendar now = some d') := by
  have hrest := start.of_run run (KeepsLedger.worksOn steps run) done
  have hloaded := loaded_perm hrest later steps' nofetch request delivered
  have hreloads : (V k).Reloads (S.ledgerAfter i es L) := by
    -- the records of the documents are those of the entries
    have hrecords := (records_perm start ledger run steps done).map Record.decode
    simp only [List.map_map, Function.comp_def, Transaction.decode_record, ← decode_eq]
      at hrecords
    exact hloaded.trans hrecords
  exact ⟨fun _ => hreloads.counts.reports selected, hreloads.exists_updateView selected⟩

theorem moveOver_totals : ∃ T U V : Devices Device, Run step twoUsers bothWork T ∧
    Run step T moveOver U ∧ U.step (.tablet, .deliver 0 (.succeeded [])) = some V ∧
    ∀ d', Dashboard.updateView ⟨[], 0, 0, 0, some 0⟩ (V .tablet) (.gregorian 0) 0 = some d' →
      d'.Reports (twoUsers.ledgerAfter .phone bothWork oneIncome)
        ((Calendar.gregorian 0).shows 0 .allTime) := by
  obtain ⟨T, run, steps, done, nofetch, U, later, steps', request, V, delivered⟩ :
      ∃ T : Devices Device, Run step twoUsers bothWork T ∧
        EachStep step (KeepsLedger "u" .phone) twoUsers bothWork ∧ (T .phone).requests = [] ∧
        (∀ q ∈ (T .tablet).requests, q.query ≠ .getTransactionsForUser "u") ∧
        ∃ U : Devices Device, Run step T moveOver U ∧
          EachStep step (fun S e => S.Proper e ∧ e.1 ≠ .phone ∧ (S e.1).Foreign "u" e.2) T
            moveOver ∧
          (U .tablet).requests[0]? = some ⟨.getTransactionsForUser "u", some
            [(documentOf "u").overwrite (Transaction.make "u" .expense .kids 6 2).updateData]⟩ ∧
          ∃ V, U.step (.tablet, .deliver 0 (.succeeded [])) = some V :=
    ⟨_, exec_eq_some_iff.mp rfl, by decide, rfl, by decide, _, exec_eq_some_iff.mp rfl, by decide,
      rfl, _, rfl⟩
  exact ⟨T, U, V, run, later, delivered,
    (totals_handed_over (L := oneIncome) atRest_twoUsers rfl run steps done later steps' nofetch
      request delivered (.gregorian 0) 0 .allTime ⟨[], 0, 0, 0, some 0⟩ rfl).1⟩

end Devices

end SpendingTracker
