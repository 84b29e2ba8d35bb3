import Mathlib.Algebra.BigOperators.Intervals
import Mathlib.Tactic.IntervalCases
import Soyokaze.Helpers.Text

/-!
# HTTP dates

The day a count of days is, by a closed form, and the date that is written of a count of
seconds. The calendar itself is given by its rules: which years are leap years, how long
the months are, and which day follows which.

* `Date.days_next`: the day count of the calendar advances by one from a day to the next;
* `DateCache.march_eq_days`: it is the count of days in years that begin in March;
* `DateCache.civil_march`: and that is the count the closed form undoes;
* `DateCache.date_exact`: what is written is the date of that second.
-/

namespace Soyokaze

/-! ## The calendar -/

/-- Whether a year is a leap year. -/
def isLeap (year : ℕ) : Prop := year % 4 = 0 ∧ (year % 100 ≠ 0 ∨ year % 400 = 0)

instance (year : ℕ) : Decidable (isLeap year) := inferInstanceAs (Decidable (_ ∧ _))

/-- The days of a year. -/
def yearLength (year : ℕ) : ℕ := if isLeap year then 366 else 365

/-- The days of a month, January being the first. -/
def monthLength (year : ℕ) : ℕ → ℕ
  | 2 => if isLeap year then 29 else 28
  | 4 | 6 | 9 | 11 => 30
  | _ => 31

/-- A date of the proleptic Gregorian calendar. -/
@[ext] structure Date where
  year : ℕ
  month : ℕ
  day : ℕ
  deriving DecidableEq

namespace Date

/-- The first day of Unix time. -/
def epoch : Date := ⟨1970, 1, 1⟩

/-- The date is one of the calendar, and not before the first day of Unix time. -/
structure Valid (date : Date) : Prop where
  year : 1970 ≤ date.year
  month : 1 ≤ date.month ∧ date.month ≤ 12
  day : 1 ≤ date.day ∧ date.day ≤ monthLength date.year date.month

/-- The day after. -/
def next (date : Date) : Date :=
  if date.day < monthLength date.year date.month then ⟨date.year, date.month, date.day + 1⟩
  else if date.month < 12 then ⟨date.year, date.month + 1, 1⟩
  else ⟨date.year + 1, 1, 1⟩

/-- The day count of the calendar: the days of the years before, of the months before, and of
    the month. -/
def days (date : Date) : ℕ :=
  ∑ y ∈ Finset.Ico 1970 date.year, yearLength y + ∑ m ∈ Finset.Ico 1 date.month, monthLength date.year m + (date.day - 1)

variable {date : Date}

theorem valid_epoch : epoch.Valid := ⟨Nat.le_refl _, by decide, by decide⟩

theorem one_le_monthLength (year month : ℕ) : 1 ≤ monthLength year month := by
  unfold monthLength
  split <;> try split_ifs
  all_goals decide

theorem Valid.next (h : date.Valid) : date.next.Valid := by
  rw [Date.next]
  split_ifs with hday hmonth
  · exact ⟨h.year, h.month, Nat.le_add_left 1 _, hday⟩
  · exact ⟨h.year, ⟨Nat.le_add_left 1 _, hmonth⟩, Nat.le_refl 1, one_le_monthLength _ _⟩
  · exact ⟨Nat.le_succ_of_le h.year, ⟨Nat.le_refl 1, by simp⟩, Nat.le_refl 1, one_le_monthLength _ _⟩

/-- The months of a year are the year. -/
theorem sum_monthLength (year : ℕ) : ∑ m ∈ Finset.Ico 1 12, monthLength year m + monthLength year 12 = yearLength year := by
  rw [yearLength]
  simp only [Finset.sum_Ico_succ_top, Finset.Ico_self, Finset.sum_empty, monthLength, Nat.reduceLeDiff]
  split_ifs <;> rfl

/-- The day count advances by one from a day to the next. -/
theorem days_next (h : date.Valid) : date.next.days = date.days + 1 := by
  rw [next]
  split_ifs with hday hmonth
  · rw [days, days]
    have := h.day.1
    dsimp only
    omega
  · have hlast : date.day = monthLength date.year date.month := Nat.le_antisymm h.day.2 (Nat.not_lt.1 hday)
    have := h.day.1
    rw [days, days, Finset.sum_Ico_succ_top h.month.1]
    dsimp only
    omega
  · have hlast : date.day = monthLength date.year date.month := Nat.le_antisymm h.day.2 (Nat.not_lt.1 hday)
    have hdec : date.month = 12 := Nat.le_antisymm h.month.2 (Nat.not_lt.1 hmonth)
    have := h.day.1
    have hyear := sum_monthLength date.year
    rw [days, days, Finset.sum_Ico_succ_top h.year, Finset.Ico_self, Finset.sum_empty, hdec]
    rw [hdec] at hlast
    dsimp only
    omega

/-- Every count of days is that of a date. -/
theorem exists_days (n : ℕ) : ∃ date : Date, date.Valid ∧ date.days = n := by
  induction n with
  | zero => exact ⟨epoch, valid_epoch, rfl⟩
  | succ n ih =>
    obtain ⟨date, hvalid, hdays⟩ := ih
    exact ⟨date.next, hvalid.next, by rw [days_next hvalid, hdays]⟩

end Date

namespace DateCache

/-- Weekday names, indexed from Sunday. -/
def DAY_NAMES : List Octets := [lit "Sun", lit "Mon", lit "Tue", lit "Wed", lit "Thu", lit "Fri", lit "Sat"]

/-- Month names, indexed from January. -/
def MONTH_NAMES : List Octets :=
  [lit "Jan", lit "Feb", lit "Mar", lit "Apr", lit "May", lit "Jun", lit "Jul", lit "Aug", lit "Sep", lit "Oct", lit "Nov", lit "Dec"]

/-- The year, month and day for a count of days since the Unix epoch. -/
def civilFromDays (days : ℤ) : ℤ × ℕ × ℕ :=
  let z := days + 719468
  let era := (if 0 ≤ z then z else z - 146096).tdiv 146097
  let doe := z - era * 146097
  let yoe := (doe - doe.tdiv 1460 + doe.tdiv 36524 - doe.tdiv 146096).tdiv 365
  let year := yoe + era * 400
  let doy := doe - (365 * yoe + yoe.tdiv 4 - yoe.tdiv 100)
  let mp := (5 * doy + 2).tdiv 153
  let day := doy - (153 * mp + 2).tdiv 5 + 1
  let month := if mp < 10 then mp + 3 else mp - 9
  (year + if month ≤ 2 then 1 else 0, month.toNat, day.toNat)

/-- The last two decimal digits of a value. -/
def twoDigits (value : ℕ) : Octets := [.ofNat (0x30 + value / 10 % 10), .ofNat (0x30 + value % 10)]

/-- The date of a count of seconds since the Unix epoch, which is always as long. -/
def write (unixSeconds : ℕ) : Octets :=
  let days : ℤ := (unixSeconds / 86400 : ℕ)
  let seconds := unixSeconds % 86400
  let weekday := ((days + 4) % 7).toNat
  let civil := civilFromDays days
  let year := (max 0 (min civil.1 9999)).toNat
  DAY_NAMES.getD weekday [] ++ [0x2c, 0x20] ++ twoDigits civil.2.2 ++ [0x20] ++ MONTH_NAMES.getD (civil.2.1 - 1) [] ++ [0x20] ++
    twoDigits (year / 100) ++ twoDigits year ++ [0x20] ++ twoDigits (seconds / 3600) ++ [0x3a] ++
    twoDigits (seconds % 3600 / 60) ++ [0x3a] ++ twoDigits (seconds % 60) ++ lit " GMT"

/-! ## Years that begin in March -/

/-- The year of a date, where years begin in March. -/
def marchYear (date : Date) : ℕ := if date.month ≤ 2 then date.year - 1 else date.year

/-- The month of a date, March being the one before the first. -/
def marchMonth (date : Date) : ℕ := (date.month + 9) % 12

/-- The days of a year that begins in March which are before a date. -/
def marchDay (date : Date) : ℕ := (153 * marchMonth date + 2) / 5 + (date.day - 1)

/-- The days from March of the year zero on, leap days at the end of the years. -/
def march (date : Date) : ℕ :=
  marchYear date * 365 + marchYear date / 4 + marchYear date / 400 - marchYear date / 100 + marchDay date

variable {date : Date}

/-- The days of the years before one. -/
theorem sum_yearLength {year : ℕ} (h : 1970 ≤ year) : ∑ y ∈ Finset.Ico 1970 year, yearLength y + 719162 =
    (year - 1) * 365 + (year - 1) / 4 + (year - 1) / 400 - (year - 1) / 100 := by
  induction year, h using Nat.le_induction with
  | base => rfl
  | succ year h ih =>
    rw [Finset.sum_Ico_succ_top h, yearLength]
    by_cases hleap : isLeap year
    · rw [if_pos hleap]
      obtain ⟨hfour, hcentury⟩ := hleap
      omega
    · rw [if_neg hleap]
      rw [isLeap] at hleap
      omega

/-- The days of the months before one, counted from January and from March. -/
theorem sum_months (year : ℕ) {month : ℕ} (h : 1 ≤ month ∧ month ≤ 12) :
    if month ≤ 2 then (153 * ((month + 9) % 12) + 2) / 5 = ∑ m ∈ Finset.Ico 1 month, monthLength year m + 306
    else (153 * ((month + 9) % 12) + 2) / 5 + yearLength year = ∑ m ∈ Finset.Ico 1 month, monthLength year m + 306 := by
  obtain ⟨hone, htwelve⟩ := h
  unfold yearLength
  interval_cases month <;> simp [Finset.sum_Ico_succ_top, monthLength] <;> split_ifs <;> rfl

/-- The count of days from March on is the day count of the calendar. -/
theorem march_eq_days (h : date.Valid) : march date = date.days + 719468 := by
  have hyears := sum_yearLength h.year
  have hmonths := sum_months date.year h.month
  have hyear := h.year
  have hday := h.day.1
  rw [march, marchDay, marchYear, marchMonth, Date.days]
  by_cases hmonth : date.month ≤ 2
  · rw [if_pos hmonth] at hmonths ⊢
    omega
  · rw [if_neg hmonth, yearLength] at hmonths
    rw [if_neg hmonth]
    by_cases hleap : isLeap date.year
    · rw [if_pos hleap] at hmonths
      obtain ⟨hfour, hcentury⟩ := hleap
      omega
    · rw [if_neg hleap] at hmonths
      rw [isLeap] at hleap
      omega

/-- The month and the day are those the closed form makes of the day of the year, and the
    last day of February is the last of a leap year. -/
theorem march_month (h : date.Valid) : (5 * marchDay date + 2) / 153 = marchMonth date ∧
    (marchMonth date < 10 ∧ date.month = marchMonth date + 3 ∨
      10 ≤ marchMonth date ∧ marchMonth date < 12 ∧ date.month + 9 = marchMonth date) ∧
    marchDay date ≤ 365 ∧ (marchDay date = 365 → date.month = 2 ∧ isLeap date.year) := by
  obtain ⟨year, month, day⟩ := date
  obtain ⟨-, ⟨hone, htwelve⟩, hday, hlast⟩ := h
  dsimp only at hone htwelve hday hlast
  -- February has its own case, as its length is the year's.
  by_cases hfebruary : month = 2
  · subst hfebruary
    have hshort : day ≤ 29 ∧ (day = 29 → isLeap year) := by
      rw [show monthLength year 2 = if isLeap year then 29 else 28 from rfl] at hlast
      split_ifs at hlast with hleap
      · exact ⟨hlast, fun _ => hleap⟩
      · exact ⟨by omega, fun _ => by omega⟩
    unfold marchDay marchMonth
    dsimp only
    exact ⟨by omega, by omega, by omega, fun h => ⟨rfl, hshort.2 (by omega)⟩⟩
  · have hlong : monthLength year month ≤ 31 ∧ (month = 4 ∨ month = 6 ∨ month = 9 ∨ month = 11 → monthLength year month ≤ 30) := by
      interval_cases month <;> first
        | exact absurd rfl hfebruary
        | exact ⟨Nat.le_refl 31, fun h => absurd h (by decide)⟩
        | exact ⟨Nat.le_succ 30, fun _ => Nat.le_refl 30⟩
    unfold marchDay marchMonth
    dsimp only
    interval_cases month <;> refine ⟨by omega, by omega, by omega, fun h => by omega⟩

/-- The year of an era that a day of it is in, leap days being the last of their years. -/
theorem yoe_eq {a b c doy doe : ℕ} (ha : a ≤ 3) (hb : b ≤ 24) (hc : c ≤ 3) (hdoy : doy ≤ 365)
    (hleap : doy = 365 → c = 3 ∧ (b < 24 ∨ a = 3)) (hdoe : doe = 36524 * a + 1461 * b + 365 * c + doy) :
    (doe - doe / 1460 + doe / 36524 - doe / 146096) / 365 = 100 * a + 4 * b + c := by
  by_cases hlast : doe = 146096
  · -- The last day of the era is the one that the fourth century has more.
    have : a = 3 := by omega
    have : b = 24 := by omega
    have : c = 3 := by omega
    omega
  · have hcentury : doe / 36524 = a := by omega
    have hera : doe / 146096 = 0 := by omega
    obtain ⟨e, he, hfour⟩ : ∃ e ≤ 1, doe / 1460 = 25 * a + b + e := ⟨doe / 1460 - 25 * a - b, by omega, by omega⟩
    have hle : e ≤ doy := by omega
    have hlt : doy - e < 365 := by omega
    rw [hcentury, hera, hfour]
    omega

/-- The closed form gives the date a count of days from March on is that of. -/
theorem civil_march (h : date.Valid) {days : ℕ} (hdays : march date = days + 719468) :
    civilFromDays days = ((date.year : ℤ), date.month, date.day) := by
  obtain ⟨hmp, hmonth, hdoy, hleap⟩ := march_month h
  -- The era of the year, the century of the era, the leap cycle of the century, the year of the cycle.
  obtain ⟨era, a, b, c, ha, hb, hc, hy⟩ : ∃ era a b c, a ≤ 3 ∧ b ≤ 24 ∧ c ≤ 3 ∧ marchYear date = 400 * era + 100 * a + 4 * b + c :=
    ⟨marchYear date / 400, marchYear date % 400 / 100, marchYear date % 100 / 4, marchYear date % 4, by omega⟩
  obtain ⟨doe, hdoe⟩ : ∃ doe, doe = 36524 * a + 1461 * b + 365 * c + marchDay date := ⟨_, rfl⟩
  have hlast : marchDay date = 365 → c = 3 ∧ (b < 24 ∨ a = 3) := by
    intro hend
    obtain ⟨hfebruary, hfour, hcentury⟩ := hleap hend
    have hyear := h.year
    rw [marchYear, if_pos (by omega)] at hy
    omega
  have hz : days + 719468 = 146097 * era + doe := by
    rw [← hdays, march, hy]
    omega
  have hdiv (n k : ℕ) : (n : ℤ).tdiv k = ((n / k : ℕ) : ℤ) := (Int.ofNat_tdiv n k).symm
  have hera : ((146097 * era + doe : ℕ) : ℤ).tdiv 146097 = era := (hdiv _ 146097).trans (by omega)
  have hyoe : ((doe : ℤ) - (doe : ℤ).tdiv 1460 + (doe : ℤ).tdiv 36524 - (doe : ℤ).tdiv 146096).tdiv 365 =
      ((100 * a + 4 * b + c : ℕ) : ℤ) := by
    rw [← yoe_eq ha hb hc hdoy hlast hdoe, show (doe : ℤ).tdiv 1460 = _ from hdiv doe 1460,
      show (doe : ℤ).tdiv 36524 = _ from hdiv doe 36524, show (doe : ℤ).tdiv 146096 = _ from hdiv doe 146096]
    refine Eq.trans (congrArg (Int.tdiv · 365) ?_) (hdiv _ 365)
    omega
  have hyear : (doe : ℤ) - (365 * ((100 * a + 4 * b + c : ℕ) : ℤ) + ((100 * a + 4 * b + c : ℕ) : ℤ).tdiv 4 -
      ((100 * a + 4 * b + c : ℕ) : ℤ).tdiv 100) = (marchDay date : ℤ) := by
    rw [show ((100 * a + 4 * b + c : ℕ) : ℤ).tdiv 4 = _ from hdiv _ 4,
      show ((100 * a + 4 * b + c : ℕ) : ℤ).tdiv 100 = _ from hdiv _ 100]
    omega
  have hmarch : (5 * (marchDay date : ℤ) + 2).tdiv 153 = (marchMonth date : ℤ) := (hdiv _ 153).trans (by rw [hmp])
  have hbefore : (153 * (marchMonth date : ℤ) + 2).tdiv 5 = (((153 * marchMonth date + 2) / 5 : ℕ) : ℤ) := hdiv _ 5
  have hwhole : (days : ℤ) + 719468 = ((146097 * era + doe : ℕ) : ℤ) := by omega
  have hrest : ((146097 * era + doe : ℕ) : ℤ) - era * 146097 = doe := by omega
  have hday := h.day.1
  rw [civilFromDays, hwhole, if_pos (Int.natCast_nonneg _), hera, hrest, hyoe, hyear, hmarch, hbefore]
  have hdays' : (marchDay date : ℤ) - (((153 * marchMonth date + 2) / 5 : ℕ) : ℤ) + 1 = date.day := by
    rw [marchDay]
    omega
  rw [hdays']
  rcases hmonth with ⟨hspring, hname⟩ | ⟨hwinter, -, hname⟩
  · have hfirst : (marchMonth date : ℤ) < 10 := by omega
    have hlate : ¬(marchMonth date : ℤ) + 3 ≤ 2 := by omega
    rw [marchYear, if_neg (by omega)] at hy
    rw [if_pos hfirst, if_neg hlate]
    refine Prod.ext ?_ (Prod.ext ?_ ?_) <;> dsimp only <;> omega
  · have hsecond : ¬(marchMonth date : ℤ) < 10 := by omega
    have hearly : (marchMonth date : ℤ) - 9 ≤ 2 := by omega
    have hyear := h.year
    rw [marchYear, if_pos (by omega)] at hy
    rw [if_neg hsecond, if_pos hearly]
    refine Prod.ext ?_ (Prod.ext ?_ ?_) <;> dsimp only <;> omega

/-- The closed form is the inverse of the day count of the calendar. -/
theorem civil_days (h : date.Valid) : civilFromDays date.days = ((date.year : ℤ), date.month, date.day) :=
  civil_march h (march_eq_days h)

end DateCache

/-! ## Seconds -/

/-- The weekday of a date, counted from Sunday. -/
def Date.weekday (date : Date) : ℕ := (date.days + 4) % 7

/-- A second of a date. -/
@[ext] structure Moment where
  date : Date
  hour : ℕ
  minute : ℕ
  second : ℕ

namespace Moment

/-- The second is one of the calendar. -/
structure Valid (t : Moment) : Prop where
  date : t.date.Valid
  hour : t.hour < 24
  minute : t.minute < 60
  second : t.second < 60

/-- The seconds since the first second of Unix time. -/
def seconds (t : Moment) : ℕ := t.date.days * 86400 + t.hour * 3600 + t.minute * 60 + t.second

/-- A number in so many decimal digits, those it has not zero. -/
def padded : ℕ → ℕ → Octets
  | 0, _ => []
  | width + 1, n => padded width (n / 10) ++ [.ofNat (0x30 + n % 10)]

/-- The date of a second as HTTP writes it. -/
def text (t : Moment) : Octets :=
  DateCache.DAY_NAMES.getD t.date.weekday [] ++ lit ", " ++ padded 2 t.date.day ++ lit " " ++
    DateCache.MONTH_NAMES.getD (t.date.month - 1) [] ++ lit " " ++ padded 4 t.date.year ++ lit " " ++ padded 2 t.hour ++ lit ":" ++
    padded 2 t.minute ++ lit ":" ++ padded 2 t.second ++ lit " GMT"

variable {t : Moment}

theorem days_of_seconds (h : t.Valid) : t.seconds / 86400 = t.date.days ∧ t.seconds % 86400 = t.hour * 3600 + t.minute * 60 + t.second := by
  obtain ⟨-, hhour, hminute, hsecond⟩ := h
  rw [seconds]
  omega

/-- Every count of seconds is that of one second. -/
theorem exists_seconds (n : ℕ) : ∃ t : Moment, t.Valid ∧ t.seconds = n := by
  obtain ⟨date, hvalid, hdays⟩ := Date.exists_days (n / 86400)
  refine ⟨⟨date, n % 86400 / 3600, n % 3600 / 60, n % 60⟩, ⟨hvalid, ?_, ?_, ?_⟩, ?_⟩ <;> simp only [seconds] <;> omega

/-- No date has the day count of another. -/
theorem eq_of_days {date date' : Date} (h : date.Valid) (h' : date'.Valid) (hdays : date.days = date'.days) : date = date' := by
  have hsame := DateCache.civil_days h
  rw [hdays, DateCache.civil_days h'] at hsame
  obtain ⟨hyear, hrest⟩ := Prod.mk.inj hsame
  obtain ⟨hmonth, hday⟩ := Prod.mk.inj hrest
  exact Date.ext (Int.ofNat_inj.1 hyear).symm hmonth.symm hday.symm

theorem eq_of_seconds {t t' : Moment} (h : t.Valid) (h' : t'.Valid) (hseconds : t.seconds = t'.seconds) : t = t' := by
  obtain ⟨hdays, hrest⟩ := days_of_seconds h
  obtain ⟨hdays', hrest'⟩ := days_of_seconds h'
  have hdate : t.date = t'.date := eq_of_days h.date h'.date (by rw [← hdays, ← hdays', hseconds])
  have hhour := h.hour
  have hminute := h.minute
  have hsecond := h.second
  have hhour' := h'.hour
  have hminute' := h'.minute
  have hsecond' := h'.second
  rw [hseconds] at hrest
  exact Moment.ext hdate (by omega) (by omega) (by omega)

/-- The years up to 9999 are over at the start of the year 10000. -/
theorem year_le (h : t.Valid) (hseconds : t.seconds < 253402300800) : t.date.year ≤ 9999 := by
  by_contra hlate
  have hyears := DateCache.sum_yearLength h.date.year
  have hdays : t.date.days < 2932897 := by
    rw [← (days_of_seconds h).1]
    omega
  rw [Date.days] at hdays
  omega

theorem padded_two (n : ℕ) : padded 2 n = DateCache.twoDigits n := rfl

theorem padded_four (n : ℕ) : padded 4 n = DateCache.twoDigits (n / 100) ++ DateCache.twoDigits n := by
  rw [← padded_two, ← padded_two, show 100 = 10 * 10 from rfl, ← Nat.div_div_eq_div_mul]
  rfl

/-- What is written of a second is its date. -/
theorem write_seconds (h : t.Valid) (hyear : t.date.year ≤ 9999) : DateCache.write t.seconds = t.text := by
  obtain ⟨hdays, hrest⟩ := days_of_seconds h
  obtain ⟨hdate, hhour, hminute, hsecond⟩ := h
  have hweekday : (((t.date.days : ℤ) + 4) % 7).toNat = t.date.weekday := by
    rw [Date.weekday]
    omega
  have hclamp : (max 0 (min (t.date.year : ℤ) 9999)).toNat = t.date.year := by omega
  have hhours : (t.hour * 3600 + t.minute * 60 + t.second) / 3600 = t.hour := by omega
  have hminutes : (t.hour * 3600 + t.minute * 60 + t.second) % 3600 / 60 = t.minute := by omega
  have hseconds : (t.hour * 3600 + t.minute * 60 + t.second) % 60 = t.second := by omega
  rw [DateCache.write, hdays, hrest, DateCache.civil_days hdate]
  dsimp only
  rw [hweekday, hclamp, hhours, hminutes, hseconds, text, padded_four]
  simp only [List.append_assoc]
  rfl

theorem length_text (h : t.date.Valid) : t.text.length = 29 := by
  have hday : ∀ n < 7, (DateCache.DAY_NAMES.getD n []).length = 3 := by decide +kernel
  have hmonth : ∀ n < 12, (DateCache.MONTH_NAMES.getD n []).length = 3 := by decide +kernel
  have hpadded (width n : ℕ) : (padded width n).length = width := by
    induction width generalizing n with
    | zero => rfl
    | succ width ih => rw [padded, List.length_append, ih, List.length_singleton]
  have htext : (lit ", ").length = 2 ∧ (lit " ").length = 1 ∧ (lit ":").length = 1 ∧ (lit " GMT").length = 4 := by decide +kernel
  have hmonths := h.month
  have hweekday : t.date.weekday < 7 := Nat.mod_lt _ (by decide)
  simp only [text, List.length_append, hpadded, hday _ hweekday, hmonth _ (by omega : t.date.month - 1 < 12), htext]

end Moment

/-- What is written of a count of seconds up to the end of the year 9999 is the date of that
    second, and of no other: the closed form is the inverse of the day count of the calendar,
    which advances by one from a day to the next as the weekday does, from Thursday on. -/
theorem DateCache.date_exact :
    (∀ n < 253402300800, ∃ t : Moment, t.Valid ∧ t.date.year ≤ 9999 ∧ t.seconds = n ∧ write n = t.text ∧
      (write n).length = 29 ∧ ∀ t' : Moment, t'.Valid → t'.seconds = n → t' = t) ∧
      (∀ date : Date, date.Valid → civilFromDays date.days = ((date.year : ℤ), date.month, date.day)) ∧
      (∀ n : ℕ, ∃ date : Date, date.Valid ∧ date.days = n ∧ civilFromDays n = ((date.year : ℤ), date.month, date.day)) ∧
      (Date.epoch.days = 0 ∧ ∀ date : Date, date.Valid → date.next.Valid ∧ date.next.days = date.days + 1) ∧
      Date.epoch.weekday = 4 ∧ ∀ date : Date, date.Valid → date.next.weekday = (date.weekday + 1) % 7 := by
  refine ⟨fun n hn => ?_, fun date => civil_days, fun n => ?_, ⟨rfl, fun date h => ⟨h.next, Date.days_next h⟩⟩, rfl, fun date h => ?_⟩
  · obtain ⟨t, hvalid, rfl⟩ := Moment.exists_seconds n
    have hyear := Moment.year_le hvalid hn
    have hwrite := Moment.write_seconds hvalid hyear
    exact ⟨t, hvalid, hyear, rfl, hwrite, hwrite ▸ Moment.length_text hvalid.date, fun t' h => Moment.eq_of_seconds h hvalid⟩
  · obtain ⟨date, hvalid, rfl⟩ := Date.exists_days n
    exact ⟨date, hvalid, rfl, civil_days hvalid⟩
  · rw [Date.weekday, Date.weekday, Date.days_next h]
    omega

end Soyokaze
