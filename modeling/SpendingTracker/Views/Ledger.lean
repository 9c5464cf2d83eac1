import SpendingTracker.Lib.OrderedMap
import SpendingTracker.Sync.Ids
import SpendingTracker.Views.Periods

/-!
# The store is a ledger

Seen from outside, the store is a ledger: a finite map from ids to entries, in the order in which
the ids have come in.  Adding appends an entry, saving replaces one in its place and deleting
drops one, although the app works with references to shared objects, with first matching
positions and with filters.  The dashboard reports the totals of the ledger.
-/

namespace SpendingTracker

open Lib

/-! ### Ledgers -/

/-- What a ledger says about a transaction. -/
structure Entry where
  transactionType : Option TransactionType
  category : Option Category
  amount : Int64
  date : Date
deriving DecidableEq

/-- The finite map from ids to entries. -/
abbrev Ledger := OrderedMap String Entry

/-- The transaction of an entry. -/
def Entry.transaction (x : String) (e : Entry) : Transaction :=
  ⟨some x, e.transactionType, e.category, some e.amount, some e.date⟩

/-- The amount of an entry as the balance counts it. -/
def Entry.signed (e : Entry) : ℤ :=
  match e.transactionType with
  | some .income => e.amount.toInt
  | some .expense => -e.amount.toInt
  | _ => 0

/-- The amount of an entry, if it has the type `k` and a date that meets a condition. -/
def Entry.amountIf (k : TransactionType) (condition : Date → Bool) (e : Entry) : ℤ :=
  if e.transactionType = some k ∧ condition e.date then e.amount.toInt else 0

/-- The operations on a ledger. -/
inductive Operation
  | add (x : String) (entry : Entry)
  | save (x : String) (entry : Entry)
  | delete (x : String)
deriving DecidableEq

namespace Ledger

/-- The sum of the amounts of a type whose dates meet a condition. -/
def totalOf (k : TransactionType) (condition : Date → Bool) (L : Ledger) : ℤ :=
  OrderedMap.total (Entry.amountIf k condition) L

/-- Income minus expense, over all entries. -/
def balance (L : Ledger) : ℤ := OrderedMap.total Entry.signed L

def apply (L : Ledger) : Operation → Ledger
  | .add x e => OrderedMap.append L x e
  | .save x e => L.replace x e
  | .delete x => L.erase x

/-- What an operation is to change in the balance: the signed amount added, the one deleted, or
the difference between the new and the old one. -/
def change (L : Ledger) : Operation → ℤ
  | .add _ e => e.signed
  | .save x e => (L.lookup x).elim 0 fun old => e.signed - old.signed
  | .delete x => (L.lookup x).elim 0 fun old => -old.signed

/-- What a list of operations is to change in the balance. -/
def changes (L : Ledger) : List Operation → ℤ
  | [] => 0
  | op :: ops => L.change op + changes (L.apply op) ops

/-- The id that an operation adds is not in the ledger. -/
def Fresh (L : Ledger) : Operation → Prop
  | .add x _ => x ∉ L
  | _ => True

/-- Each operation of a list adds a fresh id, if it adds one. -/
def AllFresh (L : Ledger) (ops : List Operation) : Prop := EachApplied apply Fresh L ops

variable {L : Ledger} {op : Operation} {ops ops' : List Operation}

lemma balance_apply (h : L.Fresh op) : (L.apply op).balance = L.balance + L.change op := by
  cases op with
  | add x e => exact OrderedMap.total_append h
  | save x e =>
      rcases Option.eq_none_or_eq_some (L.lookup x) with hx | ⟨old, hx⟩
      · have hsame : L.apply (.save x e) = L :=
          OrderedMap.replace_of_notMem (AList.lookup_eq_none.mp hx)
        rw [hsame, change, hx, Option.elim_none, add_zero]
      · rw [change, hx]
        exact OrderedMap.total_replace hx
  | delete x =>
      rcases Option.eq_none_or_eq_some (L.lookup x) with hx | ⟨old, hx⟩
      · have hsame : L.apply (.delete x) = L :=
          OrderedMap.erase_of_notMem (AList.lookup_eq_none.mp hx)
        rw [hsame, change, hx, Option.elim_none, add_zero]
      · rw [change, hx]
        exact OrderedMap.total_erase hx

/-- The balance changes by the signed amounts of the operations. -/
lemma balance_foldl_apply (h : L.AllFresh ops) :
    (ops.foldl apply L).balance = L.balance + L.changes ops := by
  induction ops generalizing L with
  | nil => simp [changes]
  | cons op ops ih =>
      rw [List.foldl_cons, ih h.2, balance_apply h.1, changes]
      ring

/-- The balance is the difference of the two totals. -/
lemma balance_eq (L : Ledger) :
    L.balance = L.totalOf .income (fun _ => true) - L.totalOf .expense fun _ => true := by
  have key : ∀ entries : List (Sigma fun _ : String => Entry),
      (entries.map fun p => p.2.signed).sum =
        (entries.map fun p => p.2.amountIf .income fun _ => true).sum -
          (entries.map fun p => p.2.amountIf .expense fun _ => true).sum := by
    intro entries
    induction entries with
    | nil => rfl
    | cons p entries ih =>
        rw [List.map_cons, List.map_cons, List.map_cons, List.sum_cons, List.sum_cons,
          List.sum_cons, ih]
        have hp : p.2.signed =
            p.2.amountIf .income (fun _ => true) - p.2.amountIf .expense fun _ => true := by
          unfold Entry.signed Entry.amountIf
          rcases p.2.transactionType with _ | _ | _ | _ <;> simp
        omega
  exact key L.entries

end Ledger

/-! ### The store as a ledger -/

/-- The entry that a transaction makes, under its id. -/
def Transaction.toEntry (t : Transaction) : Option (Sigma fun _ : String => Entry) :=
  match t.id, t.amount, t.date with
  | some x, some amount, some date => some ⟨x, t.transactionType, t.category, amount, date⟩
  | _, _, _ => none

/-- The entry that an edit writes. -/
def Edit.entry (e : Edit) : Entry := ⟨e.transactionType, e.category, e.amount, e.date⟩

namespace App

/-- The store holds the entries of the ledger, in the order of the ledger. -/
def Represents (s : App) (L : Ledger) : Prop :=
  s.shared.map s.transaction = L.entries.map fun p => p.2.transaction p.1

/-- The operations that an event carries out. -/
def operations (s : App) : Event → List Operation
  | .add added _ => (added.filterMap fun p => p.1.toEntry).map fun p => .add p.1 p.2
  | .save r e => (s.transaction r).id.toList.map fun x => .save x e.entry
  | .remove x => x.toList.map .delete
  | _ => []

/-- The operations that the events carry out, one after the other. -/
def operationsOf (s : App) (es : List Event) : List Operation := observed App.step operations s es

lemma operations_save (s : App) (r : Ref) (e : Edit) :
    s.operations (.save r e) = (s.transaction r).id.toList.map fun x => .save x e.entry := rfl

/-- The event is one of a session: what is added at the end has fresh ids, an amount and a date,
and the store is not loaded again. -/
def WithinSession (s : App) (e : Event) : Prop :=
  match e with
  | .add added index => index = none ∧ s.FreshIds (.add added index) ∧
      ∀ p ∈ added, p.1.amount ≠ none ∧ p.1.date ≠ none
  | e => s.fetched e = none

end App

instance (s : App) : DecidablePred s.WithinSession
  | .add added index =>
      have : Decidable (s.FreshIds (.add added index)) :=
        decidable_of_iff ((added.map fun p => p.1.id).Nodup ∧
          ∀ p ∈ added, ∃ x ∈ p.1.id, ¬ s.Uses x) Iff.rfl
      inferInstanceAs (Decidable (_ ∧ _ ∧ _))
  | .save _ _ | .remove _ | .remote _ | .viewDidAppear | .signIn _ | .signOut | .callListener _
  | .answer _ _ | .deliver _ _ => inferInstanceAs (Decidable (_ = _))

lemma Transaction.toEntry_eq_some_iff {t : Transaction} {p : Sigma fun _ : String => Entry} :
    t.toEntry = some p ↔ t = p.2.transaction p.1 := by
  obtain ⟨id, k, c, amount, date⟩ := t
  obtain ⟨x, k', c', amount', date'⟩ := p
  rcases id with _ | id <;> rcases amount with _ | amount <;> rcases date with _ | date <;>
    simp [toEntry, Entry.transaction]

lemma Transaction.toEntry_ne_none {t : Transaction} (hid : t.id ≠ none) (hamount : t.amount ≠ none)
    (hdate : t.date ≠ none) : t.toEntry ≠ none := by
  obtain ⟨x, hx⟩ := Option.ne_none_iff_exists'.mp hid
  obtain ⟨amount, hamount⟩ := Option.ne_none_iff_exists'.mp hamount
  obtain ⟨date, hdate⟩ := Option.ne_none_iff_exists'.mp hdate
  simp [toEntry, hx, hamount, hdate]

/-- Transactions that make entries are the transactions of these entries. -/
lemma map_transaction_filterMap_toEntry {ts : List Transaction} (h : ∀ t ∈ ts, t.toEntry ≠ none) :
    (ts.filterMap Transaction.toEntry).map (fun p => p.2.transaction p.1) = ts := by
  induction ts with
  | nil => rfl
  | cons t ts ih =>
      obtain ⟨ht, hts⟩ := List.forall_mem_cons.mp h
      obtain ⟨p, hp⟩ := Option.ne_none_iff_exists'.mp ht
      rw [List.filterMap_cons_some hp, List.map_cons, ih hts,
        ← Transaction.toEntry_eq_some_iff.mp hp]

/-- The ids of the transactions of entries. -/
lemma map_id_transaction {entries : List (Sigma fun _ : String => Entry)} {ts : List Transaction}
    (h : entries.map (fun p => p.2.transaction p.1) = ts) :
    ts.map Transaction.id = (entries.map Sigma.fst).map some := by
  rw [← h, List.map_map, List.map_map]
  rfl

/-- Additions with fresh ids go to the end. -/
lemma Ledger.foldl_add {entries : List (Sigma fun _ : String => Entry)} {L : Ledger}
    (hnodup : (entries.map Sigma.fst).Nodup) (hfresh : ∀ p ∈ entries, p.1 ∉ L) :
    L.AllFresh (entries.map fun p => .add p.1 p.2) ∧
      ((entries.map fun p => Operation.add p.1 p.2).foldl apply L).entries =
        L.entries ++ entries := by
  induction entries generalizing L with
  | nil => exact ⟨trivial, (List.append_nil _).symm⟩
  | cons p entries ih =>
      rw [List.map_cons, List.nodup_cons] at hnodup
      obtain ⟨hp, hrest⟩ := List.forall_mem_cons.mp hfresh
      have hnext : ∀ q ∈ entries, q.1 ∉ L.apply (.add p.1 p.2) := by
        intro q hq hmem
        rcases AList.mem_union.mp hmem with hmem | hmem
        · exact hrest q hq hmem
        · have heq : q.1 = p.1 := by simpa [AList.mem_keys] using hmem
          exact hnodup.1 (heq ▸ List.mem_map_of_mem hq)
      obtain ⟨hall, hentries⟩ := ih hnodup.2 hnext
      refine ⟨⟨hp, hall⟩, hentries.trans ?_⟩
      rw [show (L.apply (.add p.1 p.2)).entries = L.entries ++ [p] from
        OrderedMap.entries_append hp, List.append_assoc]
      rfl

namespace App

variable {s s' t : App} {L : Ledger} {e : Event} {es : List Event} {x : String}

/-- A store with distinct ids whose entries have amounts and dates is a ledger. -/
lemma IdsDistinct.exists_represents (h : s.IdsDistinct)
    (present : ∀ r ∈ s.shared, (s.transaction r).amount ≠ none ∧ (s.transaction r).date ≠ none) :
    ∃ L, s.Represents L := by
  have hentries : ∀ t ∈ s.shared.map s.transaction, t.toEntry ≠ none := by
    intro t ht
    obtain ⟨r, hr, rfl⟩ := List.mem_map.mp ht
    exact Transaction.toEntry_ne_none (h.present r hr) (present r hr).1 (present r hr).2
  have hmap := map_transaction_filterMap_toEntry hentries
  have hnodup : ((s.shared.map s.transaction).filterMap Transaction.toEntry).NodupKeys := by
    have hids : ((s.shared.map s.transaction).map Transaction.id).Nodup := by
      rw [List.map_map]
      exact h.nodup
    exact List.Nodup.of_map some (map_id_transaction hmap ▸ hids)
  exact ⟨⟨_, hnodup⟩, hmap.symm⟩

/-- The ids of the ledger are the ids of the store. -/
lemma Represents.mem_iff (h : s.Represents L) :
    x ∈ L ↔ ∃ r ∈ s.shared, (s.transaction r).id = some x := by
  have hids := map_id_transaction h.symm
  have hmem : some x ∈ (s.shared.map s.transaction).map Transaction.id ↔ x ∈ L := by
    rw [hids, List.mem_map_of_injective (Option.some_injective _)]
    exact AList.mem_keys.symm
  rw [← hmem, List.map_map, List.mem_map]
  rfl

/-- Behind each reference in the store is the transaction of an entry. -/
lemma Represents.exists_entry (h : s.Represents L) {r : Ref} (hr : r ∈ s.shared) :
    ∃ x e, s.transaction r = Entry.transaction x e := by
  have hmem : s.transaction r ∈ L.entries.map fun p => p.2.transaction p.1 :=
    h ▸ List.mem_map_of_mem hr
  obtain ⟨p, -, hp⟩ := List.mem_map.mp hmem
  exact ⟨p.1, p.2, hp.symm⟩

lemma Represents.lt_size (h : s.Represents L) {r : Ref} (hr : r ∈ s.shared) :
    r < s.heap.size := by
  obtain ⟨x, e, he⟩ := h.exists_entry hr
  exact IdsDistinct.lt_size_of_id (by simp [he, Entry.transaction])

/-! ### One step -/

lemma Represents.step_add {added : List (Transaction × Option String)} (h : s.Represents L)
    (hfresh : s.FreshIds (.add added none))
    (present : ∀ p ∈ added, p.1.amount ≠ none ∧ p.1.date ≠ none)
    (hs : s.step (.add added none) = some s') :
    L.AllFresh (s.operations (.add added none)) ∧
      s'.Represents ((s.operations (.add added none)).foldl Ledger.apply L) := by
  have hentries : ∀ t ∈ added.map Prod.fst, t.toEntry ≠ none := by
    intro t ht
    obtain ⟨p, hp, rfl⟩ := List.mem_map.mp ht
    obtain ⟨y, hy, -⟩ := hfresh.2 p hp
    exact Transaction.toEntry_ne_none (by simp [hy]) (present p hp).1 (present p hp).2
  have hmap := map_transaction_filterMap_toEntry hentries
  rw [List.filterMap_map] at hmap
  obtain ⟨entries, heq⟩ : ∃ entries, entries = added.filterMap fun p => p.1.toEntry := ⟨_, rfl⟩
  have hadded : entries.map (fun p => p.2.transaction p.1) = added.map Prod.fst := heq ▸ hmap
  have hids : (entries.map Sigma.fst).map some = added.map fun p => p.1.id := by
    rw [← map_id_transaction hadded, List.map_map]
    rfl
  have hnew : ∀ p ∈ entries, p.1 ∉ L := by
    intro p hp hmem
    have hid : some p.1 ∈ added.map fun p => p.1.id :=
      hids ▸ List.mem_map_of_mem (List.mem_map_of_mem hp)
    obtain ⟨q, hq, hqid⟩ := List.mem_map.mp hid
    obtain ⟨y, hy, hun⟩ := hfresh.2 q hq
    obtain ⟨r, -, hr⟩ := h.mem_iff.mp hmem
    cases hy.symm.trans hqid
    exact hun (uses_of_transaction hr)
  obtain ⟨hall, hfold⟩ := Ledger.foldl_add (List.Nodup.of_map some (hids ▸ hfresh.1)) hnew
  have hops : s.operations (.add added none) = entries.map fun p => .add p.1 p.2 := heq ▸ rfl
  rw [hops]
  refine ⟨hall, ?_⟩
  rw [Represents, hfold, List.map_append, hadded, ← h]
  -- the old objects are still there, and the new ones are at the end
  have hold : s.shared.map s'.transaction = s.shared.map s.transaction :=
    List.map_congr_left fun r hr => transaction_step_add hs (h.lt_size hr)
  obtain ⟨-, front, back, hshared, hback, rfl⟩ := step_add_iff.mp hs
  obtain rfl : back = [] := hback
  rw [List.append_nil] at hshared
  rw [← hold, hshared]
  simp only [transaction_eq_read, List.map_append, Heap.map_read_created, List.append_nil]

/-- Entries with other ids than the saved object are not changed. -/
lemma map_read_heapAfterSave {r : Ref} {edit : Edit} {zs : List Ref}
    {entries : List (Sigma fun _ : String => Entry)} (hr : r < s.heap.size)
    (hx : (s.transaction r).id = some x)
    (hentries : entries.map (fun p => p.2.transaction p.1) = zs.map s.transaction)
    (hne : ∀ p ∈ entries, p.1 ≠ x) :
    zs.map (s.heapAfterSave r edit).read = entries.map fun p => p.2.transaction p.1 := by
  rw [hentries]
  refine List.map_congr_left fun z hz => ?_
  -- the object itself is not among them
  have hzr : z ≠ r := by
    rintro rfl
    obtain ⟨p, hp, hpz⟩ := List.mem_map.mp (hentries ▸ List.mem_map_of_mem hz)
    exact hne p hp (Option.some.inj ((congrArg Transaction.id hpz).trans hx))
  exact (read_heapAfterSave hr).trans (if_neg hzr)

lemma Represents.step_save {r : Ref} {edit : Edit} (h : s.Represents L)
    (hs : s.step (.save r edit) = some s') :
    s'.Represents ((s.operations (.save r edit)).foldl Ledger.apply L) := by
  obtain ⟨hr, ⟨hno, rfl⟩ | ⟨front, y, back, hshared, hfront, hy, x, hx, rfl⟩⟩ := step_save_iff.mp hs
  -- an object whose id is not in the store
  · have hsame : (s.operations (.save r edit)).foldl Ledger.apply L = L := by
      rw [operations_save]
      cases hid : (s.transaction r).id with
      | none => rfl
      | some x =>
          refine OrderedMap.replace_of_notMem fun hmem => hno ?_
          obtain ⟨z, hz, hzx⟩ := h.mem_iff.mp hmem
          exact ⟨z, hz, hzx.trans hid.symm⟩
    rw [hsame, Represents, ← h]
    refine List.map_congr_left fun z hz => ?_
    have hne : z ≠ r := by
      rintro rfl
      exact hno ⟨z, hz, rfl⟩
    exact (read_heapAfterSave hr).trans (if_neg hne)
  · have hops : s.operations (.save r edit) = [.save x edit.entry] := by
      rw [operations_save, hx]
      rfl
    have hentries : L.entries.map (fun p => p.2.transaction p.1) =
        front.map s.transaction ++ s.transaction y :: back.map s.transaction := by
      rw [← h, hshared, List.map_append, List.map_cons]
    obtain ⟨lf, l, hl, hlf, hrest⟩ := List.map_eq_append_iff.mp hentries
    obtain ⟨p, lb, rfl, hp, hlb⟩ := List.map_eq_cons_iff.mp hrest
    obtain rfl : p.1 = x := Option.some.inj ((congrArg Transaction.id hp).trans (hy.trans hx))
    have hne := OrderedMap.ne_of_entries_eq hl
    have hread : (s.heapAfterSave r edit).read r = edit.entry.transaction p.1 := by
      rw [read_heapAfterSave hr, if_pos rfl]
      simp [Transaction.edited, Entry.transaction, Edit.entry, hx]
    rw [hops, List.foldl_cons, List.foldl_nil, Represents,
      show (L.apply (.save p.1 edit.entry)).entries = lf ++ ⟨p.1, edit.entry⟩ :: lb from
        OrderedMap.entries_replace hl, transaction_eq_read, List.map_append, List.map_append,
      List.map_cons, List.map_cons, map_read_heapAfterSave hr hx hlf hne.1,
      map_read_heapAfterSave hr hx hlb hne.2, hread]

lemma Represents.step_remove (h : s.Represents L) (hs : s.step (.remove (some x)) = some s') :
    s'.Represents (L.apply (.delete x)) := by
  rw [step_remove_some, Option.some.injEq] at hs
  subst hs
  have hfilter : ∀ ts : List Transaction, ∀ rs : List Ref, rs.map s.transaction = ts →
      (rs.filter fun r => (s.transaction r).id ≠ some x).map s.transaction =
        ts.filter fun t => t.id ≠ some x := by
    rintro _ rs rfl
    rw [List.filter_map]
    rfl
  have hdelete : (L.apply (.delete x)).entries = L.entries.filter fun p => p.1 ≠ x :=
    OrderedMap.entries_erase
  rw [Represents, hdelete, transaction_eq_read]
  refine (hfilter _ _ h).trans ?_
  rw [List.filter_map]
  congr 2
  funext p
  simp [Entry.transaction]

/-- **One step.**  An event of a session carries out its operations on the ledger. -/
theorem Represents.step (h : s.Represents L) (hsession : s.WithinSession e)
    (hs : s.step e = some s') :
    L.AllFresh (s.operations e) ∧ s'.Represents ((s.operations e).foldl Ledger.apply L) := by
  cases e with
  | add added index =>
      obtain ⟨rfl, hfresh, present⟩ := hsession
      exact h.step_add hfresh present hs
  | save r edit =>
      refine ⟨?_, h.step_save hs⟩
      rw [operations_save]
      cases (s.transaction r).id with
      | none => trivial
      | some x => exact ⟨trivial, trivial⟩
  | remove x =>
      cases x with
      | none =>
          cases hs
          exact ⟨trivial, h⟩
      | some x => exact ⟨⟨trivial, trivial⟩, h.step_remove hs⟩
  | remote c =>
      cases hs
      exact ⟨trivial, h⟩
  | _ =>
      obtain ⟨hheap, hshared⟩ := step_background rfl hsession hs
      refine ⟨trivial, ?_⟩
      rw [Represents, transaction_eq_read, hheap, hshared]
      exact h

/-- **Runs.**  The events of a session carry out their operations, one after the other. -/
theorem Represents.run (h : s.Represents L) (hsession : EachStep App.step WithinSession s es)
    (run : Run App.step s es t) :
    L.AllFresh (s.operationsOf es) ∧ t.Represents ((s.operationsOf es).foldl Ledger.apply L) :=
  run.simulates (fun _ _ _ _ h hc hs => h.step hc hs) hsession h

end App

/-! ### The dashboard -/

/-- The sums that the dashboard computes of the entries of a period stay in the range of an
`Int`. -/
structure Ledger.SumsFit (L : Ledger) (condition : Date → Bool) : Prop where
  running : ∀ k entries, entries <+: L.entries →
    Fits (entries.map fun p => p.2.amountIf k condition).sum
  difference : Fits (L.totalOf .income condition - L.totalOf .expense condition)

/-- The dashboard shows the totals of the entries of a period. -/
structure Dashboard.Reports (d : Dashboard) (L : Ledger) (condition : Date → Bool) : Prop where
  income : d.income.toInt = L.totalOf .income condition
  expense : d.expense.toInt = L.totalOf .expense condition
  balance : d.balance.toInt = d.income.toInt - d.expense.toInt

section Dashboard

variable {s : App} {L : Ledger} {calendar : Calendar} {now : Date} {d d' : Dashboard} {k : Segment}
  {type : TransactionType} {condition : Date → Bool}

/-- The amounts of a type among some entries, in order. -/
def amountsIf (type : TransactionType) (condition : Date → Bool)
    (entries : List (Sigma fun _ : String => Entry)) : List Int64 :=
  entries.filterMap fun p =>
    if p.2.transactionType = some type ∧ condition p.2.date then some p.2.amount else none

lemma exactSum_amountsIf (entries : List (Sigma fun _ : String => Entry)) :
    exactSum (amountsIf type condition entries) =
      (entries.map fun p => p.2.amountIf type condition).sum := by
  induction entries with
  | nil => rfl
  | cons p entries ih =>
      rw [List.map_cons, List.sum_cons, ← ih, amountsIf, List.filterMap_cons, ← amountsIf,
        Entry.amountIf]
      split_ifs <;> simp

/-- The dashboard counts a transaction as it counts the entry. -/
structure Entry.CountsAs (e : Entry) (t : Transaction) : Prop where
  transactionType : ∀ k, k ≠ .none → (t.transactionType = some k ↔ e.transactionType = some k)
  amount : t.amount = some e.amount
  date : t.date = some e.date

/-- The amounts that the dashboard adds up are those of the entries of the ledger, in some
order. -/
structure App.Counts (s : App) (L : Ledger) : Prop where
  present : ∀ r ∈ s.shared, (s.transaction r).amount ≠ none ∧ (s.transaction r).date ≠ none
  amounts : ∀ calendar now k type, type ≠ .none → (s.shownAmounts calendar now k type).Perm
    (amountsIf type (calendar.shows now k) L.entries)

lemma App.shownAmounts_eq_filter : s.shownAmounts calendar now k type =
    amountsOf type ((s.shared.map s.transaction).filter fun t =>
      t.Dated (calendar.shows now k)) := by
  rw [List.filter_map]
  rfl

/-- The amounts of transactions that count as the entries. -/
lemma amountsOf_filter_map {entries : List (Sigma fun _ : String => Entry)}
    {g : (Sigma fun _ : String => Entry) → Transaction}
    (hg : ∀ p : Sigma fun _ => Entry, p.2.CountsAs (g p)) (htype : type ≠ .none) :
    amountsOf type ((entries.map g).filter fun t => t.Dated condition) =
      amountsIf type condition entries := by
  rw [amountsOf, amountsIf, List.filter_map, List.filterMap_map, List.filterMap_filter]
  congr 1
  funext p
  by_cases hdate : condition p.2.date = true <;>
    simp [Transaction.Dated, (hg p).date, (hg p).amount, (hg p).transactionType type htype, hdate]

namespace App.Counts

/-- A store that holds transactions that count as the entries, in any order. -/
lemma of_perm {g : (Sigma fun _ : String => Entry) → Transaction}
    (h : (s.shared.map s.transaction).Perm (L.entries.map g))
    (hg : ∀ p : Sigma fun _ => Entry, p.2.CountsAs (g p)) : s.Counts L where
  present r hr := by
    obtain ⟨p, -, heq⟩ := List.mem_map.mp (h.mem_iff.mp (List.mem_map_of_mem hr))
    simp [← heq, (hg p).amount, (hg p).date]
  amounts calendar now k type htype := by
    rw [shownAmounts_eq_filter, ← amountsOf_filter_map hg htype]
    exact (h.filter _).filterMap _

/-- A sum that the dashboard computes is a total of the ledger. -/
lemma toInt_sumTrapping (h : s.Counts L) (htype : type ≠ .none) {a : Int64}
    (ha : sumTrapping 0 (s.shownAmounts calendar now k type) = some a) :
    a.toInt = L.totalOf type (calendar.shows now k) := by
  rw [toInt_of_sumTrapping_zero ha]
  exact (((h.amounts calendar now k type htype).map Int64.toInt).sum_eq).trans
    (exactSum_amountsIf L.entries)

/-- A refresh reports the totals of the ledger. -/
lemma reports (h : s.Counts L) (hk : d.segment = some k.index)
    (hd' : d.updateView s calendar now = some d') : d'.Reports L (calendar.shows now k) := by
  obtain ⟨-, hi, he, hb, -⟩ :=
    (Dashboard.updateView_eq_some_iff (fun r hr => (h.present r hr).2) hk).mp hd'
  exact ⟨h.toInt_sumTrapping (by decide) hi, h.toInt_sumTrapping (by decide) he,
    subTrapping_eq_some_iff.mp hb⟩

/-- If the two sums and their difference fit, a refresh does not trap. -/
lemma exists_updateView (h : s.Counts L) (hk : d.segment = some k.index)
    (hsum : ∀ type, type ≠ .none → ∃ a,
      sumTrapping 0 (s.shownAmounts calendar now k type) = some a)
    (hfits : Fits (L.totalOf .income (calendar.shows now k) -
      L.totalOf .expense (calendar.shows now k))) :
    ∃ d', d.updateView s calendar now = some d' := by
  obtain ⟨i, hi⟩ := hsum .income (by decide)
  obtain ⟨e, he⟩ := hsum .expense (by decide)
  rw [← h.toInt_sumTrapping (by decide) hi, ← h.toInt_sumTrapping (by decide) he] at hfits
  refine ⟨⟨s.shown calendar now k, i, e, Int64.ofInt (i.toInt - e.toInt), d.segment⟩,
    (Dashboard.updateView_eq_some_iff (fun r hr => (h.present r hr).2) hk).mpr
      ⟨fun type _ t ht _ => ?_, hi, he, if_pos hfits, rfl, rfl⟩⟩
  obtain ⟨r, hr, rfl⟩ := List.mem_map.mp ht
  exact (h.present r (List.mem_filter.mp hr).1).1

end App.Counts

/-- A store that represents a ledger counts as the ledger does. -/
lemma App.Represents.counts (h : s.Represents L) : s.Counts L :=
  .of_perm (.of_eq h) fun _ => ⟨fun _ _ => Iff.rfl, rfl, rfl⟩

/-- If the sums fit, a refresh does not trap. -/
lemma App.Represents.exists_updateView (h : s.Represents L) (hk : d.segment = some k.index)
    (hfits : L.SumsFit (calendar.shows now k)) : ∃ d', d.updateView s calendar now = some d' := by
  refine h.counts.exists_updateView hk (fun type htype => ?_) hfits.difference
  have hamounts : s.shownAmounts calendar now k type =
      amountsIf type (calendar.shows now k) L.entries := by
    rw [shownAmounts_eq_filter, show s.shared.map s.transaction = _ from h]
    exact amountsOf_filter_map (fun _ => ⟨fun _ _ => Iff.rfl, rfl, rfl⟩) htype
  rw [← Option.ne_none_iff_exists', ne_eq, sumTrapping_zero_eq_none_iff, hamounts]
  rintro ⟨ys, hys, hnot⟩
  obtain ⟨entries, hentries, rfl⟩ := List.prefix_filterMap_iff.mp hys
  exact hnot (exactSum_amountsIf entries ▸ hfits.running type entries hentries)

/-- On the segment "All-time" the balance is that of the ledger. -/
lemma App.Represents.balance_eq (h : s.Represents L) (hk : d.segment = some Segment.allTime.index)
    (hd : d.updateView s calendar now = some d') : d'.balance.toInt = L.balance := by
  obtain ⟨hincome, hexpense, hbalance⟩ := h.counts.reports hk hd
  rw [hbalance, hincome, hexpense, L.balance_eq]
  rfl

end Dashboard

/-- **The store is a ledger, and the dashboard reports it.**  Let a store with distinct ids be
given, all of whose entries have amounts and dates.  It represents a ledger.  After any sequence
of additions with fresh ids, saved edits and deletions, it represents the ledger that results from
the same operations.  Whenever the dashboard is refreshed then, on any segment and at any time, it
shows the totals of the entries of the period; it does not trap if the sums fit.  The balance over
all time differs from the one at the start by the signed amounts of the operations. -/
theorem App.refines_ledger {s t : App} {es : List Event} (ids : s.IdsDistinct)
    (present : ∀ r ∈ s.shared, (s.transaction r).amount ≠ none ∧ (s.transaction r).date ≠ none)
    (session : EachStep App.step App.WithinSession s es) (run : Run App.step s es t) :
    ∃ L L', s.Represents L ∧ L' = (s.operationsOf es).foldl Ledger.apply L ∧ t.Represents L' ∧
      (∀ (calendar : Calendar) (now : Date) (k : Segment) (d : Dashboard),
        d.segment = some k.index →
        (L'.SumsFit (calendar.shows now k) → ∃ d', d.updateView t calendar now = some d') ∧
          ∀ d', d.updateView t calendar now = some d' →
            d'.Reports L' (calendar.shows now k)) ∧
      ∀ (calendar calendar' : Calendar) (now now' : Date) (d₀ d₀' d d' : Dashboard),
        d₀.segment = some Segment.allTime.index → d.segment = some Segment.allTime.index →
        d₀.updateView s calendar now = some d₀' → d.updateView t calendar' now' = some d' →
        d'.balance.toInt = d₀'.balance.toInt + L.changes (s.operationsOf es) := by
  obtain ⟨L, hL⟩ := ids.exists_represents present
  obtain ⟨hfresh, hL'⟩ := hL.run session run
  refine ⟨L, _, hL, rfl, hL',
    fun _ _ _ _ hk => ⟨hL'.exists_updateView hk, fun _ => hL'.counts.reports hk⟩, ?_⟩
  intro calendar calendar' now now' d₀ d₀' d d' hd₀ hd h₀ h
  rw [hL.balance_eq hd₀ h₀, hL'.balance_eq hd h, Ledger.balance_foldl_apply hfresh]

/-! ### A session -/

/-- The user has an income of 5 and an expense of 3. -/
def twoEntries : App where
  heap := ⟨[.make "a" .income .sport 5 0, .make "b" .expense .fuel 3 1]⟩
  shared := [0, 1]
  currentUser := some "u"
  listeners := []
  collection := Collection.empty
  requests := []

/-- An expense is added, the first entry is turned into an expense, and the second is deleted. -/
def threeOperations : List Event :=
  [.add [(.make "c" .expense .kids 2 7, some "d")] none,
    .save 0 ⟨some .expense, some .sport, 4, 9⟩, .remove (some "b")]

/-- The three operations on the ledger of the two entries; today's totals are taken from the
result. -/
theorem threeOperations_represents : ∃ t L L', Run App.step twoEntries threeOperations t ∧
    twoEntries.Represents L ∧
    L' = [.add "c" ⟨some .expense, some .kids, 2, 7⟩, .save "a" ⟨some .expense, some .sport, 4, 9⟩,
      .delete "b"].foldl Ledger.apply L ∧
    t.Represents L' ∧
    ∀ d', Dashboard.updateView ⟨[], 0, 0, 0, some 2⟩ t (.gregorian 0) 0 = some d' →
      d'.Reports L' ((Calendar.gregorian 0).shows 0 .today) := by
  have run : Run App.step twoEntries threeOperations _ := exec_eq_some_iff.mp rfl
  obtain ⟨L, L', hL, hops, hL', hreports, -⟩ :=
    App.refines_ledger ⟨by decide, by decide⟩ (by decide) (by decide) run
  exact ⟨_, L, L', run, hL, hops, hL', (hreports (.gregorian 0) 0 .today _ rfl).2⟩

end SpendingTracker
