import SpendingTracker.Lib.CivilCalendar
import SpendingTracker.Model.Views

/-!
# The periods of the dashboard

The dashboard finds the transactions of this month and of today by comparing components of
dates.  In a calendar this is the same as asking whether a date lies in an interval, and the
intervals of the three segments are nested.
-/

namespace SpendingTracker

open Lib

/-! ### The segments -/

/-- The segments of the segmented control, as the storyboard has them. -/
inductive Segment
  | allTime
  | thisMonth
  | today
deriving DecidableEq

/-- The position of a segment in the control. -/
def Segment.index : Segment → ℤ
  | allTime => 0
  | thisMonth => 1
  | today => 2

/-- The dates that a segment shows. -/
def Calendar.shows (calendar : Calendar) (now : Date) : Segment → Date → Bool
  | .allTime, _ => true
  | .thisMonth, date => calendar.isInThisMonth now date
  | .today, date => calendar.isDateInToday now date

section Segments

variable {s : App} {calendar : Calendar} {now : Date} {d d' : Dashboard} {k : Segment}

/-- The transactions of the store that a segment shows. -/
def App.shown (s : App) (calendar : Calendar) (now : Date) (k : Segment) : List Ref :=
  s.shared.filter fun r => (s.transaction r).Dated (calendar.shows now k)

lemma App.shown_allTime (dates : ∀ r ∈ s.shared, (s.transaction r).date ≠ none) :
    s.shown calendar now .allTime = s.shared := by
  refine List.filter_eq_self.mpr fun r hr => ?_
  obtain ⟨date, hdate⟩ := Option.ne_none_iff_exists'.mp (dates r hr)
  simp [Transaction.Dated, hdate, Calendar.shows]

/-- With all dates present, `updateTransactions` does not trap. -/
lemma Dashboard.updateTransactions_segment (dates : ∀ r ∈ s.shared, (s.transaction r).date ≠ none)
    (hk : d.segment = some k.index) :
    d.updateTransactions s calendar now =
      some { d with transactions := s.shown calendar now k } := by
  have hfilter : ∀ condition, s.transactionsDated condition =
      some (s.shared.filter fun r => (s.transaction r).Dated condition) := fun condition =>
    App.transactionsDated_eq_some_iff.mpr ⟨dates, rfl⟩
  unfold updateTransactions
  cases k with
  | allTime =>
      simp only [hk, Segment.index, App.shown_allTime dates]
      rfl
  | thisMonth => simp only [hk, Segment.index, App.getThisMonthTransactions, hfilter]; rfl
  | today => simp only [hk, Segment.index, App.getTodayTransactions, hfilter]; rfl

/-- The amounts of a type among the transactions that a segment shows. -/
def App.shownAmounts (s : App) (calendar : Calendar) (now : Date) (k : Segment)
    (type : TransactionType) : List Int64 :=
  amountsOf type ((s.shown calendar now k).map s.transaction)

/-- What a refresh of the dashboard computes from the transactions that the segment shows. -/
lemma Dashboard.updateView_eq_some_iff (dates : ∀ r ∈ s.shared, (s.transaction r).date ≠ none)
    (hk : d.segment = some k.index) :
    d.updateView s calendar now = some d' ↔
      (∀ type, type ≠ .none →
        AmountsPresent type ((s.shown calendar now k).map s.transaction)) ∧
      sumTrapping 0 (s.shownAmounts calendar now k .income) = some d'.income ∧
      sumTrapping 0 (s.shownAmounts calendar now k .expense) = some d'.expense ∧
      subTrapping d'.income d'.expense = some d'.balance ∧
      d'.transactions = s.shown calendar now k ∧ d'.segment = d.segment := by
  rw [updateView, updateTransactions_segment dates hk, Option.bind_some,
    calculateData_eq_some_iff]
  refine and_congr_left fun _ => ⟨?_, fun h => ⟨h _ (by decide), h _ (by decide)⟩⟩
  rintro ⟨hincome, hexpense⟩ type htype
  cases type with
  | income => exact hincome
  | expense => exact hexpense
  | none => exact absurd rfl htype

end Segments

/-! ### The calendar -/

/-- The number of microseconds in a day. -/
def dayLength : ℤ := 86400000000

/-- The local days: 2001-01-01, which begins at the date 0 in UTC, is the day 730485. -/
def localDays (offset : ℤ) : Periods := .ofLength dayLength (by decide) (-offset) 730485

/-- The local months. -/
def localMonths (offset : ℤ) : Periods := gregorianMonths.comp (localDays offset)

/-- `Calendar.current`, if it is the proleptic Gregorian calendar and the time zone is always
`offset` microseconds ahead of UTC.  The component of the year counts within an era. -/
def Calendar.gregorian (offset : ℤ) : Calendar where
  month date := monthOfDay ((localDays offset).index date)
  year date :=
    let year := yearOfDay ((localDays offset).index date)
    if 0 < year then year else 1 - year
  isDateInToday now date := (localDays offset).index date = (localDays offset).index now

/-- The date is in the common era. -/
def CommonEra (offset : ℤ) (date : Date) : Prop := 0 < yearOfDay ((localDays offset).index date)

instance (offset : ℤ) : DecidablePred (CommonEra offset) := fun _ =>
  inferInstanceAs (Decidable (_ < _))

/-- The date lies between the first instant of the period of `now` and the first instant of the
next one. -/
def Lib.Periods.Around (p : Periods) (now date : Date) : Prop :=
  p.start (p.index now) ≤ date ∧ date < p.start (p.index now + 1)

instance (p : Periods) (now : Date) : DecidablePred (p.Around now) := fun _ =>
  inferInstanceAs (Decidable (_ ∧ _))

section Intervals

variable {offset : ℤ} {now date : Date}

/-- Comparing the components is asking for an interval. -/
lemma Calendar.isInThisMonth_gregorian (hnow : CommonEra offset now)
    (hdate : CommonEra offset date) :
    (gregorian offset).isInThisMonth now date = true ↔ (localMonths offset).Around now date := by
  have hindex : (localMonths offset).index date = (localMonths offset).index now ↔ _ :=
    gregorianMonths_index_eq_iff
  have hyear : ∀ date, CommonEra offset date →
      (gregorian offset).year date = yearOfDay ((localDays offset).index date) :=
    fun _ h => if_pos h
  rw [Lib.Periods.Around, ← Periods.index_eq_iff, hindex, isInThisMonth, Bool.and_eq_true,
    decide_eq_true_iff, decide_eq_true_iff, hyear date hdate, hyear now hnow]
  rfl

lemma Calendar.isDateInToday_gregorian :
    (gregorian offset).isDateInToday now date = true ↔ (localDays offset).Around now date := by
  rw [Lib.Periods.Around, ← Periods.index_eq_iff]
  exact decide_eq_true_iff

/-- Today is part of this month. -/
lemma around_localMonths (h : (localDays offset).Around now date) :
    (localMonths offset).Around now date := by
  rw [Lib.Periods.Around, ← Periods.index_eq_iff] at h ⊢
  exact congrArg gregorianMonths.index h

/-- With dates in the common era, the segment "This Month" shows an interval. -/
lemma App.shown_thisMonth {s : App} (clock : CommonEra offset now)
    (dates : ∀ r ∈ s.shared, ∃ date, (s.transaction r).date = some date ∧ CommonEra offset date) :
    s.shown (.gregorian offset) now .thisMonth = s.shared.filter fun r =>
      (s.transaction r).Dated fun date => (localMonths offset).Around now date := by
  refine List.filter_congr fun r hr => ?_
  obtain ⟨date, hdate, hera⟩ := dates r hr
  simp only [Transaction.Dated, hdate, Option.any_some]
  exact Bool.eq_iff_iff.mpr
    ((Calendar.isInThisMonth_gregorian clock hera).trans decide_eq_true_iff.symm)

/-- The segment "Today" shows an interval. -/
lemma App.shown_today (s : App) :
    s.shown (.gregorian offset) now .today = s.shared.filter fun r =>
      (s.transaction r).Dated fun date => (localDays offset).Around now date := by
  refine List.filter_congr fun r _ => congrArg (Option.any · (s.transaction r).date) ?_
  funext date
  exact Bool.eq_iff_iff.mpr (Calendar.isDateInToday_gregorian.trans decide_eq_true_iff.symm)

/-- What is shown for today is shown for this month. -/
lemma App.shown_today_sublist {s : App} (clock : CommonEra offset now)
    (dates : ∀ r ∈ s.shared, ∃ date, (s.transaction r).date = some date ∧ CommonEra offset date) :
    (s.shown (.gregorian offset) now .today).Sublist
      (s.shown (.gregorian offset) now .thisMonth) := by
  rw [App.shown_thisMonth clock dates, App.shown_today]
  refine List.monotone_filter_right _ fun r hr => ?_
  obtain ⟨date, hdate, haround⟩ := (Option.any_eq_true _ _).mp hr
  exact (Option.any_eq_true _ _).mpr ⟨date, hdate,
    decide_eq_true (around_localMonths (of_decide_eq_true haround))⟩

end Intervals

/-! ### Growing totals -/

/-- No transaction of the store has a negative amount. -/
def App.AmountsNonneg (s : App) : Prop :=
  ∀ r ∈ s.shared, ∀ amount, (s.transaction r).amount = some amount → 0 ≤ amount.toInt

section Totals

variable {s : App} {calendar : Calendar} {now : Date} {d d' : Dashboard} {k k' : Segment}
  {type : TransactionType}

lemma App.AmountsNonneg.shownAmounts (h : s.AmountsNonneg) :
    ∀ amount ∈ s.shownAmounts calendar now k type, 0 ≤ amount.toInt := by
  intro amount hamount
  simp only [App.shownAmounts, amountsOf, List.mem_filterMap, List.mem_map] at hamount
  obtain ⟨t, ⟨r, hr, rfl⟩, hif⟩ := hamount
  split_ifs at hif
  exact h r (List.mem_filter.mp hr).1 amount hif

/-- If a segment shows only what another one shows, its totals are not greater; and if the other
one does not trap, it does not. -/
lemma Dashboard.updateView_mono (dates : ∀ r ∈ s.shared, (s.transaction r).date ≠ none)
    (nonneg : s.AmountsNonneg) (h : (s.shown calendar now k').Sublist (s.shown calendar now k))
    (hview : Dashboard.updateView { d with segment := some k.index } s calendar now = some d') :
    ∃ d'', Dashboard.updateView { d with segment := some k'.index } s calendar now = some d'' ∧
      d''.income.toInt ≤ d'.income.toInt ∧ d''.expense.toInt ≤ d'.expense.toInt := by
  obtain ⟨hpresent, hincome, hexpense, -⟩ := (updateView_eq_some_iff dates rfl).mp hview
  -- each of the two sums of the part is not negative, and not greater than that of the whole
  have key : ∀ type a, sumTrapping 0 (s.shownAmounts calendar now k type) = some a →
      ∃ b, sumTrapping 0 (s.shownAmounts calendar now k' type) = some b ∧ 0 ≤ b.toInt ∧
        b.toInt ≤ a.toInt := by
    intro type a ha
    have hsub : (s.shownAmounts calendar now k' type).Sublist
        (s.shownAmounts calendar now k type) := (h.map s.transaction).filterMap _
    have hamounts : ∀ x ∈ s.shownAmounts calendar now k' type, 0 ≤ x.toInt := nonneg.shownAmounts
    have hle := exactSum_le_of_sublist hsub nonneg.shownAmounts
    have hpos := exactSum_nonneg hamounts
    have hsum := toInt_of_sumTrapping_zero ha
    obtain ⟨hlow, hhigh⟩ := fits_toInt a
    obtain ⟨b, hb, hbsum⟩ := exists_sumTrapping hamounts ⟨by omega, by omega⟩
    exact ⟨b, hb, by omega, by omega⟩
  obtain ⟨i, hi, hi₀, hile⟩ := key _ _ hincome
  obtain ⟨e, he, he₀, hele⟩ := key _ _ hexpense
  have hbalance : subTrapping i e = some (Int64.ofInt (i.toInt - e.toInt)) := by
    have hi' := fits_toInt i
    have he' := fits_toInt e
    exact if_pos ⟨by have := he'.2; omega, by have := hi'.2; omega⟩
  refine ⟨⟨s.shown calendar now k', i, e, Int64.ofInt (i.toInt - e.toInt), some k'.index⟩, ?_, hile,
    hele⟩
  refine (updateView_eq_some_iff dates rfl).mpr ⟨fun type htype t ht => ?_, hi, he, hbalance, rfl,
    rfl⟩
  exact hpresent type htype t ((h.map s.transaction).subset ht)

end Totals

/-- **The filters are interval filters.**  Let all transactions of the store have dates, and let
these and the clock be in the common era.  The transactions of this month and of today are those
of the store that are dated in the interval of the current month and of the current day, in the
order of the store; today's are a part of this month's, and these are a part of all.  If no
amount is negative, income and expense do not decrease from "Today" to "This Month" and from there
to "All-time", and a segment traps only if the wider ones do. -/
theorem periods_are_intervals {s : App} {offset : ℤ} {now : Date}
    (dates : ∀ r ∈ s.shared, ∃ date, (s.transaction r).date = some date ∧ CommonEra offset date)
    (clock : CommonEra offset now) :
    ∃ month today, s.getThisMonthTransactions (.gregorian offset) now = some month ∧
      s.getTodayTransactions (.gregorian offset) now = some today ∧
      month = (s.shared.filter fun r =>
        (s.transaction r).Dated fun date => (localMonths offset).Around now date) ∧
      today = (s.shared.filter fun r =>
        (s.transaction r).Dated fun date => (localDays offset).Around now date) ∧
      today.Sublist month ∧ month.Sublist s.getTransactions ∧
      (s.AmountsNonneg → ∀ d d' : Dashboard,
        (Dashboard.updateView { d with segment := some 0 } s (.gregorian offset) now = some d' →
          ∃ d'', Dashboard.updateView { d with segment := some 1 } s (.gregorian offset) now =
              some d'' ∧
            d''.income.toInt ≤ d'.income.toInt ∧ d''.expense.toInt ≤ d'.expense.toInt) ∧
        (Dashboard.updateView { d with segment := some 1 } s (.gregorian offset) now = some d' →
          ∃ d'', Dashboard.updateView { d with segment := some 2 } s (.gregorian offset) now =
              some d'' ∧
            d''.income.toInt ≤ d'.income.toInt ∧ d''.expense.toInt ≤ d'.expense.toInt)) := by
  have hpresent : ∀ r ∈ s.shared, (s.transaction r).date ≠ none := fun r hr => by
    obtain ⟨date, hdate, -⟩ := dates r hr
    simp [hdate]
  have hall : s.shown (.gregorian offset) now .allTime = s.shared := App.shown_allTime hpresent
  have htoday := App.shown_today_sublist clock dates
  have hmonth : (s.shown (.gregorian offset) now .thisMonth).Sublist
      (s.shown (.gregorian offset) now .allTime) := hall.symm ▸ List.filter_sublist
  refine ⟨s.shown (.gregorian offset) now .thisMonth, s.shown (.gregorian offset) now .today,
    App.transactionsDated_eq_some_iff.mpr ⟨hpresent, rfl⟩,
    App.transactionsDated_eq_some_iff.mpr ⟨hpresent, rfl⟩, App.shown_thisMonth clock dates,
    s.shown_today, htoday, List.filter_sublist, fun nonneg d d' => ⟨fun h => ?_, fun h => ?_⟩⟩
  · exact Dashboard.updateView_mono hpresent nonneg hmonth h
  · exact Dashboard.updateView_mono hpresent nonneg htoday h

/-! ### A leap day -/

/-- The store holds a transaction at the first instant of 2020-02-29, in a time zone an hour
ahead of UTC, and one a microsecond before and one a day after. -/
def leapDay : App where
  heap := ⟨[.make "a" .income .sport 5 604623600000000,
    .make "b" .expense .sport 3 604623599999999, .make "c" .income .fuel 2 604710000000000]⟩
  shared := [0, 1, 2]
  currentUser := some "u"
  listeners := []
  collection := Collection.empty
  requests := []

/-- At noon of the leap day, two of them are dated in this month and one is dated today. -/
theorem leapDay_intervals : ∃ month today,
    leapDay.getThisMonthTransactions (.gregorian 3600000000) 604666800000000 = some month ∧
      leapDay.getTodayTransactions (.gregorian 3600000000) 604666800000000 = some today ∧
      month = [0, 1] ∧ today = [0] := by
  obtain ⟨month, today, hmonth, htoday, rfl, rfl, -⟩ :=
    @periods_are_intervals leapDay 3600000000 604666800000000 (by decide) (by decide)
  exact ⟨_, _, hmonth, htoday, by decide, by decide⟩

end SpendingTracker
