import SpendingTracker.Views.Tabs

/-!
# What the screens say

The labels of the list and of the dashboard hold amounts as texts.  A reader who knows the digits
and the minus sign of the locale, and leaves out the spaces, gets the amounts back, and so
different amounts are written differently.

With this, the two tabs are compared as the user sees them.  The list and the dashboard each keep
an array of their own, and the dashboard keeps three totals, which are brought up to date only at
certain moments; but unless a fetch ends once one of them has been loaded, the labels of the
dashboard say at every moment what the rows of the list add up to.
-/

namespace SpendingTracker

open Lib

/-! ### Reading a number -/

lemma mapM_eq_some_of_forall {α β : Type} {f : α → Option β} {g : α → β} {l : List α}
    (h : ∀ a ∈ l, f a = some (g a)) : l.mapM f = some (l.map g) := by
  induction l with
  | nil => rfl
  | cons a l ih =>
      obtain ⟨ha, hl⟩ := List.forall_mem_cons.mp h
      rw [List.mapM_cons, ha, ih hl]
      rfl

section Reading

variable [NumberFormat]

/-- The decimal digit that a character stands for in the user's locale. -/
def readDigit (c : Char) : Option Char :=
  ((List.range 10).find? fun n => NumberFormat.digit n = c).map Nat.digitChar

/-- The number that a sequence of digits with spaces denotes. -/
def readDigits (text : List Char) : Option ℤ :=
  ((text.filter (· ≠ ' ')).mapM readDigit).bind fun digits =>
    (parseDigits digits).map fun n : ℕ => (n : ℤ)

/-- The number that a text denotes, with one of the signs that the app writes or without one. -/
def readSigned : List Char → Option ℤ
  | '+' :: digits => readDigits digits
  | '-' :: digits => (readDigits digits).map fun n => -n
  | digits => readDigits digits

/-- The number that a text with at most one sign denotes.  The sign is that of the locale, or one
that the app writes. -/
def readNumber (text : List Char) : Option ℤ :=
  if NumberFormat.minusSign <+: text then
    (readDigits (text.drop NumberFormat.minusSign.length)).map fun n => -n
  else readSigned text

/-- The amount that a label denotes: a number followed by the currency. -/
def readLabel (text : List Char) : Option ℤ :=
  if currency <:+ text then readNumber (text.take (text.length - currency.length)) else none

lemma readLabel_append_currency (text : List Char) :
    readLabel (text ++ currency) = readNumber text := by
  rw [readLabel, if_pos (List.suffix_append _ _), List.length_append, Nat.add_sub_cancel,
    List.take_left' rfl]

/-! ### Digits -/

omit [NumberFormat] in
lemma digitChar_of_isDigit {c : Char} (h : c.isDigit) :
    c.toNat - '0'.toNat < 10 ∧ (c.toNat - '0'.toNat).digitChar = c := by
  simp only [Char.isDigit, Bool.and_eq_true, decide_eq_true_eq] at h
  obtain ⟨k, hk, hlt⟩ : ∃ k, c.toNat = 48 + k ∧ k < 10 := by
    have hle : '0'.toNat ≤ c.toNat := h.1
    have hge : c.toNat ≤ '9'.toNat := h.2
    refine ⟨c.toNat - 48, ?_, ?_⟩
    · have hzero : '0'.toNat = 48 := rfl
      omega
    · have hnine : '9'.toNat = 57 := rfl
      omega
  have hall : ∀ k < 10, (Char.ofNat (48 + k)).toNat - '0'.toNat < 10 ∧
      ((Char.ofNat (48 + k)).toNat - '0'.toNat).digitChar = Char.ofNat (48 + k) := by decide
  rw [← Char.ofNat_toNat c, hk]
  exact hall k hlt

/-- An ASCII character that is not a digit is not a digit of the locale either. -/
lemma ne_digit {c : Char} (hascii : c.toNat < 128) (hdigit : c.isDigit = false) :
    ∀ n < 10, c ≠ NumberFormat.digit n := by
  rintro n hn rfl
  rcases NumberFormat.digit_ascii n hn with h | h
  · simp [hdigit] at h
  · omega

lemma exists_digit_of_mem_localDigits {n : ℕ} {c : Char} (h : c ∈ localDigits n) :
    ∃ k < 10, c = NumberFormat.digit k := by
  obtain ⟨d, hd, rfl⟩ := List.mem_map.mp h
  exact ⟨_, (digitChar_of_isDigit (isDigit_of_mem_toDigits hd)).1, rfl⟩

lemma space_notMem_localDigits (n : ℕ) : ' ' ∉ localDigits n := by
  intro h
  obtain ⟨k, hk, heq⟩ := exists_digit_of_mem_localDigits h
  exact ne_digit (by decide) (by decide) k hk heq

lemma readDigit_digit {n : ℕ} (h : n < 10) :
    readDigit (NumberFormat.digit n) = some n.digitChar := by
  have hfind : (List.range 10).find? (fun m => NumberFormat.digit m = NumberFormat.digit n) =
      some n := by
    refine List.find?_range_eq_some.mpr ⟨by simp, List.mem_range.mpr h, fun m hm => ?_⟩
    have hne : NumberFormat.digit m ≠ NumberFormat.digit n := fun heq =>
      hm.ne (NumberFormat.digit_injective m (hm.trans h) n h heq)
    simp [hne]
  rw [readDigit, hfind, Option.map_some]

/-- The digits of the locale are read as decimal digits. -/
lemma mapM_readDigit_localDigits (n : ℕ) :
    (localDigits n).mapM readDigit = some (Nat.toDigits 10 n) := by
  have hread : ∀ c ∈ Nat.toDigits 10 n,
      readDigit (NumberFormat.digit (c.toNat - '0'.toNat)) = some (id c) := by
    intro c hc
    obtain ⟨hlt, hchar⟩ := digitChar_of_isDigit (isDigit_of_mem_toDigits hc)
    rw [readDigit_digit hlt, hchar, id]
  rw [localDigits, List.mapM_map]
  exact (mapM_eq_some_of_forall hread).trans (by rw [List.map_id])

/-- The digits are read back. -/
lemma readDigits_groupedDigits (n : ℕ) : readDigits (groupedDigits n) = some (n : ℤ) := by
  rw [readDigits, groupedDigits, filter_grouped (space_notMem_localDigits n),
    mapM_readDigit_localDigits, Option.bind_some,
    parseDigits_of_digits (fun c hc => isDigit_of_mem_toDigits hc) Nat.toDigits_ne_nil,
    Nat.ofDigitChars_ten_toDigits, Option.map_some]

/-- Nothing is read where there is something else than digits and spaces. -/
lemma readDigits_eq_none {text : List Char} {c : Char} (hc : c ∈ text) (hspace : c ≠ ' ')
    (hdigit : ∀ n < 10, c ≠ NumberFormat.digit n) : readDigits text = none := by
  have hread : readDigit c = none := by
    rw [readDigit, Option.map_eq_none_iff, List.find?_eq_none]
    intro n hn
    simpa using (hdigit n (List.mem_range.mp hn)).symm
  rw [readDigits, mapM_eq_none_iff.mpr ⟨c, List.mem_filter.mpr ⟨hc, by simpa using hspace⟩, hread⟩,
    Option.bind_none]

/-! ### Signs -/

lemma minusSign_ne {c d : Char} (hc : c ∈ NumberFormat.minusSign) (hascii : d.toNat < 128)
    (hminus : d ≠ '-') : c ≠ d := by
  rintro rfl
  rcases NumberFormat.minusSign_ascii c hc with h | h
  · exact hminus h
  · omega

/-- The minus sign of the locale does not occur in digits. -/
lemma notMem_groupedDigits {c : Char} (hc : c ∈ NumberFormat.minusSign ∨ c = '+' ∨ c = '-')
    (n : ℕ) : c ∉ groupedDigits n := by
  intro hmem
  rcases mem_grouped hmem with rfl | hdigits
  · rcases hc with hc | hc | hc
    · exact minusSign_ne hc (by decide) (by decide) rfl
    · exact absurd hc (by decide)
    · exact absurd hc (by decide)
  · obtain ⟨k, hk, rfl⟩ := exists_digit_of_mem_localDigits hdigits
    rcases hc with hc | hc | hc
    · exact NumberFormat.minusSign_ne_digit _ hc k hk rfl
    · exact ne_digit (by decide) (by decide) k hk hc.symm
    · exact ne_digit (by decide) (by decide) k hk hc.symm

/-- Digits are not read behind a second sign. -/
lemma readDigits_minusSign {text : List Char} {c : Char} (hc : c ∈ NumberFormat.minusSign)
    (hmem : c ∈ text) : readDigits text = none :=
  readDigits_eq_none hmem (minusSign_ne hc (by decide) (by decide))
    (NumberFormat.minusSign_ne_digit c hc)

lemma exists_mem_minusSign : ∃ c, c ∈ NumberFormat.minusSign :=
  List.exists_mem_of_ne_nil _ NumberFormat.minusSign_ne_nil

lemma readNumber_minusSign_append (digits : List Char) :
    readNumber (NumberFormat.minusSign ++ digits) = (readDigits digits).map fun n => -n := by
  rw [readNumber, if_pos (List.prefix_append _ _), List.drop_left]

/-- A plus sign is never that of the locale. -/
lemma readNumber_plus_cons (digits : List Char) :
    readNumber ('+' :: digits) = readDigits digits := by
  have hpre : ¬ NumberFormat.minusSign <+: '+' :: digits := by
    rintro ⟨rest, hrest⟩
    cases hsign : NumberFormat.minusSign with
    | nil => exact NumberFormat.minusSign_ne_nil hsign
    | cons c sign =>
        rw [hsign, List.cons_append] at hrest
        exact minusSign_ne (hsign ▸ List.mem_cons_self) (by decide) (by decide)
          (List.cons.inj hrest).1
  rw [readNumber, if_neg hpre, readSigned]

/-- A text of digits has no sign. -/
lemma readNumber_groupedDigits (n : ℕ) : readNumber (groupedDigits n) = some (n : ℤ) := by
  have hnot : ∀ c, (c ∈ NumberFormat.minusSign ∨ c = '+' ∨ c = '-') → c ∉ groupedDigits n :=
    fun c hc => notMem_groupedDigits hc n
  have hread := readDigits_groupedDigits n
  generalize groupedDigits n = text at hnot hread
  unfold readNumber
  split_ifs with hpre
  · obtain ⟨c, hc⟩ := exists_mem_minusSign
    exact absurd (hpre.subset hc) (hnot c (Or.inl hc))
  unfold readSigned
  split
  next digits => exact absurd List.mem_cons_self (hnot '+' (Or.inr (Or.inl rfl)))
  next digits => exact absurd List.mem_cons_self (hnot '-' (Or.inr (Or.inr rfl)))
  next => exact hread

/-- The minus sign that the app writes is read like that of the locale. -/
lemma readNumber_minus_groupedDigits (n : ℕ) :
    readNumber ('-' :: groupedDigits n) = some (-(n : ℤ)) := by
  have hread := readDigits_groupedDigits n
  unfold readNumber
  split_ifs with hpre
  · -- behind a hyphen the sign of the locale would go on among the digits
    obtain ⟨rest, hrest⟩ := hpre
    cases hsign : NumberFormat.minusSign with
    | nil => exact absurd hsign NumberFormat.minusSign_ne_nil
    | cons c sign =>
        rw [hsign, List.cons_append] at hrest
        cases sign with
        | nil =>
            rw [List.length_singleton, List.drop_one, List.tail_cons, hread, Option.map_some]
        | cons c' sign =>
            refine absurd ?_ (notMem_groupedDigits (c := c') (Or.inl (by simp [hsign])) n)
            rw [← (List.cons.inj hrest).2, List.cons_append]
            exact List.mem_cons_self
  · rw [readSigned, hread, Option.map_some]

/-- A number with two minus signs is not read. -/
lemma readNumber_minus_minusSign (digits : List Char) :
    readNumber ('-' :: (NumberFormat.minusSign ++ digits)) = none := by
  obtain ⟨c, hc⟩ := exists_mem_minusSign
  unfold readNumber
  split_ifs with hpre
  · -- the last character of the sign is left over
    obtain ⟨sign, last, hsign⟩ : ∃ sign last, NumberFormat.minusSign = sign ++ [last] :=
      ⟨_, _, (List.dropLast_append_getLast NumberFormat.minusSign_ne_nil).symm⟩
    have hlast : last ∈ NumberFormat.minusSign := by simp [hsign]
    rw [readDigits_minusSign hlast, Option.map_none]
    rw [hsign, List.length_append, List.length_singleton, List.drop_succ_cons, List.append_assoc,
      List.drop_left]
    exact List.mem_cons_self
  · rw [readSigned, readDigits_minusSign hc (List.mem_append_left _ hc), Option.map_none]

/-- A text with a letter is not read. -/
lemma readNumber_eq_none {text : List Char} {c : Char} (hc : c ∈ text) (hascii : c.toNat < 128)
    (hdigit : c.isDigit = false) (hspace : c ≠ ' ') (hplus : c ≠ '+') (hminus : c ≠ '-') :
    readNumber text = none := by
  have hnone : ∀ rest : List Char, c ∈ rest → readDigits rest = none := fun rest hrest =>
    readDigits_eq_none hrest hspace (ne_digit hascii hdigit)
  unfold readNumber
  split_ifs with hpre
  · obtain ⟨rest, rfl⟩ := hpre
    rw [List.drop_left, hnone rest, Option.map_none]
    exact (List.mem_append.mp hc).resolve_left fun hsign =>
      minusSign_ne hsign hascii hminus rfl
  unfold readSigned
  split
  next digits => exact hnone digits ((List.mem_cons.mp hc).resolve_left hplus)
  next digits => rw [hnone digits ((List.mem_cons.mp hc).resolve_left hminus), Option.map_none]
  next => exact hnone text hc

/-- A formatted number is read back. -/
theorem readNumber_formattedWithSeparator (n : Int64) :
    readNumber (formattedWithSeparator n) = some n.toInt := by
  rw [formattedWithSeparator]
  split_ifs with hneg
  · rw [readNumber_minusSign_append, readDigits_groupedDigits, Option.map_some]
    congr 1
    omega
  · rw [readNumber_groupedDigits]
    congr 1
    omega

/-- Behind a plus sign, a formatted number is read back if it has no sign of its own. -/
theorem readNumber_plus_formattedWithSeparator (n : Int64) :
    readNumber ('+' :: formattedWithSeparator n) = if 0 ≤ n.toInt then some n.toInt else none := by
  obtain ⟨c, hc⟩ := exists_mem_minusSign
  rw [readNumber_plus_cons, formattedWithSeparator]
  by_cases hneg : n.toInt < 0
  · rw [if_pos hneg, readDigits_minusSign hc (List.mem_append_left _ hc), if_neg (by omega)]
  · rw [if_neg hneg, readDigits_groupedDigits, if_pos (by omega)]
    congr 1
    omega

/-- Behind a minus sign, a formatted number is read back if it has no sign of its own. -/
theorem readNumber_minus_formattedWithSeparator (n : Int64) :
    readNumber ('-' :: formattedWithSeparator n) =
      if 0 ≤ n.toInt then some (-n.toInt) else none := by
  rw [formattedWithSeparator]
  by_cases hneg : n.toInt < 0
  · rw [if_pos hneg, readNumber_minus_minusSign, if_neg (by omega)]
  · rw [if_neg hneg, readNumber_minus_groupedDigits, if_pos (by omega)]
    congr 2
    omega

end Reading

/-! ### The labels -/

/-- The amount of a transaction as the balance counts it. -/
def Transaction.signedAmount (t : Transaction) : ℤ :=
  match t.transactionType, t.amount with
  | some .income, some amount => amount.toInt
  | some .expense, some amount => -amount.toInt
  | _, _ => 0

section Labels

variable [NumberFormat]

/-- The label of a row is read back, unless the amount is missing or has a sign of its own next
to the sign of the type. -/
lemma readLabel_amountLabel {t : Transaction} {c : Cell} (h : cellForRowAt t = some c) :
    readLabel c.amountLabel = t.amount.bind fun amount =>
      if t.transactionType = some .none then some amount.toInt
      else if 0 ≤ amount.toInt then some t.signedAmount
      else none := by
  obtain ⟨k, hk, hc⟩ := Option.bind_eq_some_iff.mp h
  obtain ⟨date, -, rfl⟩ := Option.map_eq_some_iff.mp hc
  rw [Cell.amountLabel, readLabel_append_currency]
  cases hamount : t.amount with
  | none =>
      rw [Option.map_none, Option.getD_none, Option.bind_none]
      exact readNumber_eq_none (c := 'E') (List.mem_append_right _ (by decide)) (by decide)
        (by decide) (by decide) (by decide) (by decide)
  | some amount =>
      rw [Option.map_some, Option.getD_some, Option.bind_some, hk]
      cases k with
      | income =>
          show readNumber ("+".toList ++ formattedWithSeparator amount) = _
          refine (readNumber_plus_formattedWithSeparator amount).trans ?_
          simp [Transaction.signedAmount, hk, hamount]
      | expense =>
          show readNumber ("-".toList ++ formattedWithSeparator amount) = _
          refine (readNumber_minus_formattedWithSeparator amount).trans ?_
          simp [Transaction.signedAmount, hk, hamount]
      | none =>
          refine (readNumber_formattedWithSeparator amount).trans ?_
          rw [if_pos rfl]

namespace Dashboard

lemma readLabel_balanceField (d : Dashboard) :
    readLabel d.labels.balanceField = some d.balance.toInt := by
  rw [labels, readLabel_append_currency]
  by_cases hpos : 0 < d.balance.toInt
  · rw [if_neg (by omega), if_pos hpos]
    refine (readNumber_plus_formattedWithSeparator d.balance).trans ?_
    rw [if_pos (by omega)]
  · have hsign : (if d.balance.toInt < 0 then "" else if 0 < d.balance.toInt then "+" else "") =
        "" := by
      rw [if_neg hpos, ite_self]
    rw [hsign]
    exact readNumber_formattedWithSeparator d.balance

lemma readLabel_incomeField (d : Dashboard) : readLabel d.labels.incomeField =
    if 0 ≤ d.income.toInt then some d.income.toInt else none := by
  rw [labels, readLabel_append_currency]
  exact readNumber_plus_formattedWithSeparator d.income

lemma readLabel_expenseField (d : Dashboard) : readLabel d.labels.expenseField =
    if 0 ≤ d.expense.toInt then some (-d.expense.toInt) else none := by
  rw [labels, readLabel_append_currency]
  exact readNumber_minus_formattedWithSeparator d.expense

/-- The icon and the colour tell the sign of the balance. -/
lemma sign_labels (d : Dashboard) :
    (d.labels.balanceIcon, d.labels.balanceColour) =
      if d.balance.toInt < 0 then (TransactionType.expense.image, .expense)
      else if 0 < d.balance.toInt then (TransactionType.income.image, .income)
      else (TransactionType.none.image, .black) := by
  rw [labels, getBalanceIcon]
  split_ifs <;> rfl

end Dashboard

/-- A separator with `k` digits behind it stands in a formatted number exactly if a group ends
there. -/
lemma exists_separator_formattedWithSeparator_iff (n : Int64) (k : ℕ) :
    (∃ front back, formattedWithSeparator n = front ++ ' ' :: back ∧
      (back.filter (· ≠ ' ')).length = k) ↔
      0 < k ∧ k < (localDigits n.toInt.natAbs).length ∧
        NumberFormat.endsGroup (localDigits n.toInt.natAbs).length k = true := by
  have hsign : ' ' ∉ NumberFormat.minusSign := fun h => minusSign_ne h (by decide) (by decide) rfl
  have hspace := space_notMem_localDigits n.toInt.natAbs
  rw [formattedWithSeparator]
  split_ifs
  · exact (exists_split_append_iff NumberFormat.minusSign hsign).trans (exists_separator_iff hspace)
  · exact exists_separator_iff hspace

/-- **The labels can be read back.**  In every locale, the balance, whatever it is, is read back
from its label, and so are the income, the expense and the amount of every row, exactly if they
have no sign of their own.  The icon and the colour of the balance are those of its sign.  Spaces
stand in a formatted number exactly where its groups of digits end. -/
theorem labels_read_back :
    (∀ d : Dashboard, readLabel d.labels.balanceField = some d.balance.toInt ∧
      (readLabel d.labels.incomeField =
        if 0 ≤ d.income.toInt then some d.income.toInt else none) ∧
      (readLabel d.labels.expenseField =
        if 0 ≤ d.expense.toInt then some (-d.expense.toInt) else none) ∧
      (d.labels.balanceIcon, d.labels.balanceColour) =
        if d.balance.toInt < 0 then (TransactionType.expense.image, .expense)
        else if 0 < d.balance.toInt then (TransactionType.income.image, .income)
        else (TransactionType.none.image, .black)) ∧
    (∀ (t : Transaction) (c : Cell), cellForRowAt t = some c →
      readLabel c.amountLabel = t.amount.bind fun amount =>
        if t.transactionType = some .none then some amount.toInt
        else if 0 ≤ amount.toInt then some t.signedAmount
        else none) ∧
    ∀ (n : Int64) (k : ℕ), (∃ front back, formattedWithSeparator n = front ++ ' ' :: back ∧
      (back.filter (· ≠ ' ')).length = k) ↔
        0 < k ∧ k < (localDigits n.toInt.natAbs).length ∧
          NumberFormat.endsGroup (localDigits n.toInt.natAbs).length k = true :=
  ⟨fun d => ⟨d.readLabel_balanceField, d.readLabel_incomeField, d.readLabel_expenseField,
    d.sign_labels⟩, fun _ _ => readLabel_amountLabel, exists_separator_formattedWithSeparator_iff⟩

end Labels

/-! ### The dashboard while it is on the screen -/

section Refresh

variable {s s' : App} {calendar : Calendar} {now : Date} {d d' : Dashboard} {k : Segment}

/-- A refresh depends on the objects and on the store only. -/
lemma Dashboard.updateView_congr (hheap : s'.heap = s.heap) (hshared : s'.shared = s.shared) :
    d.updateView s' calendar now = d.updateView s calendar now := by
  obtain ⟨heap, shared, user, listeners, c, requests⟩ := s
  obtain ⟨heap', shared', user', listeners', c', requests'⟩ := s'
  cases hheap
  cases hshared
  rfl

/-- A second refresh at the same instant changes nothing. -/
lemma Dashboard.updateView_idem (dates : ∀ r ∈ s.shared, (s.transaction r).date ≠ none)
    (hk : d.segment = some k.index) (h : d.updateView s calendar now = some d') :
    d'.segment = some k.index ∧ d'.updateView s calendar now = some d' := by
  obtain ⟨hpresent, hi, he, hb, hts, hsegment⟩ := (updateView_eq_some_iff dates hk).mp h
  have hk' := hsegment.trans hk
  exact ⟨hk', (updateView_eq_some_iff dates hk').mpr ⟨hpresent, hi, he, hb, hts, rfl⟩⟩

end Refresh

namespace Tabs

variable [NumberFormat] [FIRTimestamp] {showDate : Date → Date → Date} {calendar : Calendar}
  {acceptsRow : ℕ → Bool} {s s' : Tabs} {e : TabsEvent}

/-- What the dashboard shows is what its last refresh would show now. -/
structure Current (s : Tabs) (calendar : Calendar) (r : Report) (k : Segment) : Prop where
  labels : r.labels = r.dashboard.labels
  segment : r.dashboard.segment = some k.index
  updateView : r.dashboard.updateView s.screens.app calendar r.refreshed = some r.dashboard

/-- The dashboard is up to date while it is on the screen. -/
def UpToDate (calendar : Calendar) (s : Tabs) : Prop :=
  s.selected = .report → ∀ r, s.report = some r → ∃ k, s.Current calendar r k

/-- No fetch ends while the dashboard is on the screen. -/
def NoFetchOnReport (s : Tabs) : TabsEvent → Prop
  | .screens (.background event) =>
      s.selected = .report → s.report ≠ none → s.screens.app.fetched event = none
  | _ => True

instance (s : Tabs) : DecidablePred s.NoFetchOnReport
  | .screens (.background event) => inferInstanceAs (Decidable
      (s.selected = .report → s.report ≠ none → s.screens.app.fetched event = none))
  | .screens .presentTabs | .screens .viewDidLoad | .screens .viewWillAppear
  | .screens (.openAdd _) | .screens (.openDetail _ _) | .screens (.input _) | .screens .back
  | .screens (.addButton _ _) | .screens .saveButton | .screens .deleteButton
  | .viewDidAppear _ | .select _ _ | .segmentControlClicked _ _ =>
      inferInstanceAs (Decidable True)

/-- No fetch ends once the list has been loaded, or while the dashboard is on the screen. -/
def NoLateFetch (s : Tabs) (e : TabsEvent) : Prop := s.NoFetchOnList e ∧ s.NoFetchOnReport e

instance (s : Tabs) : DecidablePred s.NoLateFetch := fun _ => inferInstanceAs (Decidable (_ ∧ _))

namespace UpToDate

/-- A refresh leaves the dashboard up to date. -/
lemma of_updateView (h : s.screens.WellKept) {d : Dashboard} {k : Segment} {now : Date}
    (hk : d.segment = some k.index) (hs : s.updateView calendar d now = some s') :
    s'.UpToDate calendar := by
  have hdates : ∀ r ∈ s.screens.app.shared, (s.screens.app.transaction r).date ≠ none :=
    fun r hr => (h.app.transaction (h.app.shared r hr)).date
  obtain ⟨d', hd, rfl⟩ := updateView_eq_some_iff.mp hs
  obtain ⟨hk', hidem⟩ := Dashboard.updateView_idem hdates hk hd
  rintro - r ⟨⟩
  exact ⟨k, rfl, hk', hidem⟩

lemma step_screens (h : s.UpToDate calendar) {e : ScreenEvent}
    (hc : s.NoFetchOnReport (.screens e))
    (hs : s.step showDate calendar acceptsRow (.screens e) = some s') : s'.UpToDate calendar := by
  obtain ⟨hguard, screens, hscreens, rfl⟩ := Tabs.step_screens hs
  unfold afterScreens
  split_ifs with htop
  · rintro - r ⟨⟩
  intro hsel r hr
  obtain ⟨event, app, rfl, hb, happ, rfl⟩ :=
    exists_background hguard (by rw [hsel]; decide) hscreens htop
  obtain ⟨k, hcurrent⟩ := h hsel r hr
  obtain ⟨hheap, hshared⟩ :=
    App.step_background hb (hc hsel (Option.ne_none_iff_exists'.mpr ⟨r, hr⟩)) happ
  exact ⟨k, hcurrent.labels, hcurrent.segment,
    (Dashboard.updateView_congr hheap hshared).trans hcurrent.updateView⟩

theorem step (h : s.UpToDate calendar) (hkept : s.Kept) (hc : s.NoFetchOnReport e)
    (hs : s.step showDate calendar acceptsRow e = some s') : s'.UpToDate calendar := by
  cases e with
  | screens e => exact h.step_screens hc hs
  | viewDidAppear now =>
      obtain ⟨-, -, hview⟩ := step_viewDidAppear hs
      obtain ⟨k, hk⟩ := hkept.exists_segment
      exact .of_updateView hkept.screens hk hview
  | select tab now =>
      obtain ⟨-, rfl | ⟨-, hload⟩ | ⟨-, hview⟩ | ⟨-, rfl⟩⟩ := step_select hs
      · exact h
      · obtain ⟨e, screens, -, -, rfl⟩ := selectTransactions_eq_some hload
        exact fun hsel => absurd hsel (by simp)
      · obtain ⟨k, hk⟩ := hkept.exists_segment
        exact .of_updateView (s := { s with selected := .report }) hkept.screens hk hview
      · exact fun hsel => absurd hsel (by simp)
  | segmentControlClicked segment now =>
      obtain ⟨r, k, -, -, hview⟩ := step_segmentControlClicked hs
      exact .of_updateView hkept.screens rfl hview

end UpToDate

end Tabs

/-! ### The rows add up to the dashboard -/

/-- What is read in the rows of the list whose dates meet a condition. -/
def ListScreen.readRows [NumberFormat] (l : ListScreen) (s : App) (condition : Date → Bool) :
    Option (List ℤ) :=
  (l.render s).bind fun cells =>
    (cells.filter fun c => condition c.date).mapM fun c => readLabel c.amountLabel

/-- The row of a well-formed transaction can be read. -/
lemma Transaction.WellFormed.read_row [NumberFormat] {t : Transaction} (h : t.WellFormed) :
    ∃ c, cellForRowAt t = some c ∧ t.date = some c.date ∧
      readLabel c.amountLabel = some t.signedAmount := by
  obtain ⟨amount, hamount, hrange⟩ := h.amount
  have htype : t.transactionType ≠ none ∧ t.transactionType ≠ some .none := by
    rcases h.transactionType with hk | hk <;> simp [hk]
  have hcell : cellForRowAt t ≠ none := by
    rw [ne_eq, cellForRowAt_eq_none_iff, not_or]
    exact ⟨htype.1, h.date⟩
  obtain ⟨c, hc⟩ := Option.ne_none_iff_exists'.mp hcell
  refine ⟨c, hc, ?_, ?_⟩
  · obtain ⟨k, -, hmap⟩ := Option.bind_eq_some_iff.mp hc
    obtain ⟨date, hdate, rfl⟩ := Option.map_eq_some_iff.mp hmap
    exact hdate
  · rw [readLabel_amountLabel hc, hamount, Option.bind_some, if_neg htype.2, if_pos hrange.1]

/-- The rows of well-formed transactions say the signed amounts. -/
lemma exists_cells [NumberFormat] (condition : Date → Bool) {ts : List Transaction}
    (h : ∀ t ∈ ts, t.WellFormed) : ∃ cells, ts.mapM cellForRowAt = some cells ∧
      (cells.filter fun c => condition c.date).mapM (fun c => readLabel c.amountLabel) =
        some ((ts.filter fun t => t.Dated condition).map Transaction.signedAmount) := by
  induction ts with
  | nil => exact ⟨[], rfl, rfl⟩
  | cons t ts ih =>
      obtain ⟨ht, hts⟩ := List.forall_mem_cons.mp h
      obtain ⟨c, hc, hdate, hread⟩ := ht.read_row
      obtain ⟨cells, hcells, hrest⟩ := ih hts
      refine ⟨c :: cells, by rw [List.mapM_cons, hc, hcells]; rfl, ?_⟩
      have hdated : t.Dated condition = condition c.date := by
        rw [Transaction.Dated, hdate, Option.any_some]
      rw [List.filter_cons, List.filter_cons, hdated]
      split_ifs
      · rw [List.mapM_cons, hread, hrest]
        rfl
      · exact hrest

/-- The rows of a list that shows the store. -/
lemma ListScreen.readRows_eq [NumberFormat] {l : ListScreen} {s : App} {calendar : Calendar}
    {now : Date} {k : Segment} (hsame : l.transactions = s.shared)
    (h : ∀ r ∈ s.shared, (s.transaction r).WellFormed) :
    l.readRows s (calendar.shows now k) = some
      (((s.shown calendar now k).map s.transaction).map Transaction.signedAmount) := by
  obtain ⟨cells, hcells, hread⟩ :=
    exists_cells (calendar.shows now k) (List.forall_mem_map.mpr h)
  have hrender : l.render s = some cells := by
    rw [ListScreen.render, hsame, ← hcells, List.mapM_map]
    rfl
  rw [readRows, hrender, Option.bind_some, hread, List.filter_map]
  rfl

/-- The signed amounts of well-formed transactions: those that are not negative are the income,
and the others are the expense. -/
lemma sum_signedAmount {ts : List Transaction} (h : ∀ t ∈ ts, t.WellFormed) :
    ((ts.map Transaction.signedAmount).filter (0 ≤ ·)).sum = exactSum (amountsOf .income ts) ∧
    ((ts.map Transaction.signedAmount).filter (· < 0)).sum = -exactSum (amountsOf .expense ts) ∧
    (ts.map Transaction.signedAmount).sum =
      exactSum (amountsOf .income ts) - exactSum (amountsOf .expense ts) := by
  induction ts with
  | nil => exact ⟨rfl, rfl, rfl⟩
  | cons t ts ih =>
      obtain ⟨ht, hts⟩ := List.forall_mem_cons.mp h
      obtain ⟨hincome, hexpense, hsum⟩ := ih hts
      obtain ⟨amount, hamount, hrange⟩ := ht.amount
      have hle := hrange.1
      rw [amountsOf_cons, amountsOf_cons .expense, exactSum_append, exactSum_append]
      simp only [List.map_cons, List.filter_cons, List.sum_cons]
      rcases ht.transactionType with hk | hk
      · have hsigned : t.signedAmount = amount.toInt := by
          simp [Transaction.signedAmount, hk, hamount]
        have hfirst : exactSum (amountsOf .income [t]) = amount.toInt ∧
            exactSum (amountsOf .expense [t]) = 0 := by
          simp [amountsOf, hk, hamount]
        rw [hsigned, if_pos (decide_eq_true hle), if_neg (by simpa using hle), List.sum_cons]
        refine ⟨?_, ?_, ?_⟩ <;> omega
      · have hsigned : t.signedAmount = -amount.toInt := by
          simp [Transaction.signedAmount, hk, hamount]
        have hfirst : exactSum (amountsOf .income [t]) = 0 ∧
            exactSum (amountsOf .expense [t]) = amount.toInt := by
          simp [amountsOf, hk, hamount]
        rw [hsigned]
        -- an expense of zero counts with the income, where it adds nothing
        by_cases hzero : amount.toInt = 0
        · rw [if_pos (by simp [hzero]), if_neg (by simp [hzero]), List.sum_cons]
          refine ⟨?_, ?_, ?_⟩ <;> omega
        · rw [if_neg (by simp; omega), if_pos (by simp; omega), List.sum_cons]
          refine ⟨?_, ?_, ?_⟩ <;> omega

namespace Tabs

variable {showDate : Date → Date → Date} {calendar : Calendar} {acceptsRow : ℕ → Bool} {t : Tabs}
  {es : List TabsEvent}

/-- **The rows add up to the dashboard.**  Start the app over an empty collection.  Whatever the
user does in the tabs, as long as no fetch ends once the list has been loaded or while the
dashboard is on the screen, the dashboard on the screen in front of the list says what the rows of
the list say: read the amounts in the rows whose dates belong to the period, as it was at the last
refresh; their sum is read in the label of the balance, the sum of those that are not negative in
the label of the income, and the sum of the others in that of the expense. -/
theorem rows_add_up [NumberFormat] [FIRTimestamp]
    (run : Run (step showDate calendar acceptsRow) (launch (.launch .empty)) es t)
    (quiet : EachStep (step showDate calendar acceptsRow) NoLateFetch (launch (.launch .empty)) es)
    (shown : t.selected = .report) (behind : t.screens.top = .list) :
    ∃ r k rows, t.report = some r ∧ r.dashboard.segment = some (Segment.index k) ∧
      t.screens.list.readRows t.screens.app (calendar.shows r.refreshed k) = some rows ∧
      readLabel r.labels.balanceField = some rows.sum ∧
      readLabel r.labels.incomeField = some (rows.filter (0 ≤ ·)).sum ∧
      readLabel r.labels.expenseField = some (rows.filter (· < 0)).sum := by
  obtain ⟨hkept, hin, hup⟩ : t.Kept ∧ t.screens.InStep ∧ t.UpToDate calendar :=
    run.invariant (I := fun t => t.Kept ∧ t.screens.InStep ∧ t.UpToDate calendar)
      (fun _ _ _ h hc hs =>
        ⟨h.1.step hs, inStep_step h.1 h.2.1 hc.1 hs, h.2.2.step h.1 hc.2 hs⟩) quiet
      ⟨.launch, .launch, fun _ r hr => by cases hr⟩
  obtain ⟨r, hr⟩ := Option.ne_none_iff_exists'.mp (hkept.report shown behind)
  obtain ⟨k, hcurrent⟩ := hup shown r hr
  have happ := hkept.screens.app
  have hwf : ∀ x ∈ t.screens.app.shared, (t.screens.app.transaction x).WellFormed := fun x hx =>
    happ.transaction (happ.shared x hx)
  obtain ⟨-, hi, he, hb, -⟩ := (Dashboard.updateView_eq_some_iff (fun x hx => (hwf x hx).date)
    hcurrent.segment).mp hcurrent.updateView
  have hts : ∀ x ∈ (t.screens.app.shown calendar r.refreshed k).map t.screens.app.transaction,
      x.WellFormed :=
    List.forall_mem_map.mpr fun x hx => hwf x (List.mem_filter.mp hx).1
  obtain ⟨hincome, hexpense, hsum⟩ := sum_signedAmount hts
  have hi' := toInt_of_sumTrapping_zero hi
  have he' := toInt_of_sumTrapping_zero he
  have hi₀ : 0 ≤ exactSum (t.screens.app.shownAmounts calendar r.refreshed k .income) :=
    exactSum_nonneg (amountsOf_nonneg hts)
  have he₀ : 0 ≤ exactSum (t.screens.app.shownAmounts calendar r.refreshed k .expense) :=
    exactSum_nonneg (amountsOf_nonneg hts)
  refine ⟨r, k, _, hr, hcurrent.segment,
    ListScreen.readRows_eq (hin.listSync.list behind) hwf, ?_, ?_, ?_⟩
  all_goals rw [hcurrent.labels]
  · rw [r.dashboard.readLabel_balanceField, subTrapping_eq_some_iff.mp hb, hi', he']
    exact congrArg some hsum.symm
  · rw [r.dashboard.readLabel_incomeField, hi', if_pos hi₀]
    exact congrArg some hincome.symm
  · rw [r.dashboard.readLabel_expenseField, he', if_pos he₀]
    exact congrArg some hexpense.symm

theorem lookAtReport_adds_up : ∃ t,
    Run (step min (.gregorian 0) fun _ => true) (launch (.launch .empty)) lookAtReport t ∧
    ∃ r k rows, t.report = some r ∧ r.dashboard.segment = some (Segment.index k) ∧
      t.screens.list.readRows t.screens.app ((Calendar.gregorian 0).shows r.refreshed k) =
        some rows ∧
      readLabel r.labels.balanceField = some rows.sum ∧
      readLabel r.labels.incomeField = some (rows.filter (0 ≤ ·)).sum ∧
      readLabel r.labels.expenseField = some (rows.filter (· < 0)).sum := by
  have run : Run (step min (.gregorian 0) fun _ => true) (launch (.launch .empty))
      lookAtReport _ := exec_eq_some_iff.mp rfl
  exact ⟨_, run, rows_add_up run (by decide) rfl rfl⟩

end Tabs

end SpendingTracker
