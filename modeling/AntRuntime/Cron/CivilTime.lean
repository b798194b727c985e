import AntRuntime.Cron.NextEpoch
import Mathlib.Order.Bounds.Defs
import Mathlib.Tactic.IntervalCases

/-!
# Civil times on a clock with a fixed offset

On a clock at a constant distance from universal time the civil times are the minutes in
their order. A loop covers an interval of minutes if it finds the first target there, and
loops one after the other cover what their intervals make up.
-/

namespace AntRuntime.Cron

open Calendar (Date)

/-! ## Civil times -/

/-- A date at midnight. -/
def dateFields (date : Date) : Fields where
  year := date.year
  month := date.month
  day := date.day
  hour := 0
  minute := 0
  weekday := date.weekday

/-- The civil time of a minute, counted from the epoch on the clock of the zone. -/
def civilFields (minute : Int) : Fields :=
  { dateFields (Date.ofDayNumber (minute / 1440)) with
    hour := (minute % 1440 / 60).toNat
    minute := (minute % 60).toNat }

theorem civilFields_midnight (day : Int) :
    civilFields (1440 * day) = dateFields (Date.ofDayNumber day) := by
  have whole : 1440 * day / 1440 = day := by omega
  have noHour : (1440 * day % 1440 / 60).toNat = 0 := by omega
  have noMinute : (1440 * day % 60).toNat = 0 := by omega
  rw [civilFields, whole, noHour, noMinute]
  rfl

theorem civilFields_at
    {hour minute : Nat} (day : Int) (hourBound : hour < 24) (minuteBound : minute < 60) :
    { civilFields (1440 * day) with hour, minute } =
      civilFields (1440 * day + 60 * hour + minute) := by
  have sameDay : (1440 * day + 60 * hour + minute) / 1440 = day := by omega
  have sameHour : ((1440 * day + 60 * hour + minute) % 1440 / 60).toNat = hour := by omega
  have sameMinute : ((1440 * day + 60 * hour + minute) % 60).toNat = minute := by omega
  rw [civilFields_midnight, civilFields, sameDay, sameHour, sameMinute]

theorem isLeapYear_eq (year : Int) : isLeapYear year = decide (Calendar.IsLeap year) := by
  have divides (modulus : Int) : year.tmod modulus = 0 ↔ year % modulus = 0 := by
    rw [← Int.dvd_iff_tmod_eq_zero, ← Int.dvd_iff_emod_eq_zero]
  rw [Bool.eq_iff_iff, decide_eq_true_iff]
  simp [isLeapYear, Calendar.IsLeap, divides]

/-- The table of the source agrees with the calendar. -/
theorem daysInMonth_eq (year : Int) (positive : 1 ≤ month) (bounded : month ≤ 12) :
    daysInMonth year month = Calendar.daysInMonth year month := by
  rw [daysInMonth, isLeapYear_eq, Calendar.daysInMonth]
  by_cases leap : Calendar.IsLeap year <;> simp only [leap] <;> interval_cases month <;> rfl

theorem advanceDay_midnight (day : Int) :
    advanceDay (civilFields (1440 * day)) = civilFields (1440 * (day + 1)) := by
  rw [civilFields_midnight, civilFields_midnight, ← Date.next_ofDayNumber]
  generalize known : Date.ofDayNumber day = date
  have weekday : date.next.weekday = (date.weekday + 1) % 7 := by
    rw [Date.weekday, Date.weekday, Date.dayNumber_next]
    omega
  have month := daysInMonth_eq date.year date.month_pos date.month_le
  simp only [advanceDay, dateFields, month, weekday, Nat.add_one_le_iff]
  simp only [Date.next]
  split_ifs <;> rfl

theorem sameDate_civilFields (first second : Int) :
    sameDate (civilFields first) (civilFields second) = true ↔ first / 1440 = second / 1440 := by
  simp only [sameDate, Bool.and_eq_true, decide_eq_true_eq]
  constructor
  · rintro ⟨⟨year, month⟩, day⟩
    have same := Date.ext year month day
    rw [← Date.dayNumber_ofDayNumber (first / 1440), same, Date.dayNumber_ofDayNumber]
  · intro same
    rw [civilFields, same]
    exact ⟨⟨rfl, rfl⟩, rfl⟩

theorem dateNotAfter_civilFields (first second : Int) :
    dateNotAfter (civilFields first) (civilFields second) = true ↔
      first / 1440 ≤ second / 1440 := by
  have order := Date.dayNumber_le_iff (Date.ofDayNumber (first / 1440))
    (Date.ofDayNumber (second / 1440))
  rw [Date.dayNumber_ofDayNumber, Date.dayNumber_ofDayNumber] at order
  simp only [order, dateNotAfter, Bool.or_eq_true, Bool.and_eq_true, decide_eq_true_eq, or_assoc,
    and_assoc]
  rfl

/-! ## Loops that cover an interval -/

section Coverage

variable {Target : Int → Prop} {instant : Int → Int} {scan : Scan}

/-- A loop has searched the minutes of an interval: it found the first target there, or saw
none, or saw that there is none from the start of the interval on. -/
inductive Covers (Target : Int → Prop) (instant : Int → Int) (low high : Int) : Scan → Prop
  | found
      (minute : Int)
      (low_le : low ≤ minute)
      (lt_high : minute < high)
      (target : Target minute)
      (least : ∀ earlier, low ≤ earlier → earlier < minute → ¬Target earlier) :
      Covers Target instant low high (.found (instant minute))
  | next (absent : ∀ minute, low ≤ minute → minute < high → ¬Target minute) :
      Covers Target instant low high (.next false)
  | stop (absent : ∀ minute, low ≤ minute → ¬Target minute) :
      Covers Target instant low high .stop

/-- A loop may leave out minutes that are no targets. -/
theorem Covers.widen (covers : Covers Target instant low high scan) (lower_le : lower ≤ low)
    (skipped : ∀ minute, lower ≤ minute → minute < low → ¬Target minute) :
    Covers Target instant lower high scan := by
  have absentBelow {minute : Int} (absent : low ≤ minute → ¬Target minute)
      (lower_le : lower ≤ minute) : ¬Target minute :=
    (lt_or_ge minute low).elim (skipped minute lower_le) absent
  cases covers with
  | found minute low_le lt_high target least =>
    exact .found minute (lower_le.trans low_le) lt_high target fun earlier above below =>
      absentBelow (fun low_le => least earlier low_le below) above
  | next absent =>
    exact .next fun minute above below =>
      absentBelow (fun low_le => absent minute low_le below) above
  | stop absent => exact .stop fun minute above => absentBelow (absent minute) above

/-- Loops over adjacent intervals. -/
theorem Covers.andThen {rest : Bool → Scan} (low_le : low ≤ middle) (middle_le : middle ≤ high)
    (first : Covers Target instant low middle scan)
    (second : Covers Target instant middle high (rest false)) :
    Covers Target instant low high (scan.andThen rest) := by
  cases first with
  | found minute low_le lt_middle target least =>
    exact .found minute low_le (lt_of_lt_of_le lt_middle middle_le) target least
  | next absent => exact second.widen low_le absent
  | stop absent => exact .stop absent

/-- A loop over numbers covers the interval that its bodies cover one after the other. -/
theorem sweep_covers {body : Bool → Nat → Scan} {width : Nat} (base : Int) (first count : Nat)
    (bodies : ∀ value, first ≤ value → value < first + count →
      Covers Target instant (base + width * value) (base + width * (value + 1 : Nat))
        (body false value)) :
    Covers Target instant (base + width * first) (base + width * (first + count : Nat))
      (sweep body false (List.range' first count)) := by
  induction count generalizing first with
  | zero => exact .next fun minute above below => absurd (lt_of_le_of_lt above below) (lt_irrefl _)
  | succ count ih =>
    refine Covers.andThen ?_ ?_ (bodies first (le_refl _) (by omega)) ?_
    · have : (width : Int) * first ≤ width * (first + 1 : Nat) := by
        exact_mod_cast Nat.mul_le_mul_left width (by omega)
      omega
    · have : (width : Int) * (first + 1 : Nat) ≤ width * (first + (count + 1) : Nat) := by
        exact_mod_cast Nat.mul_le_mul_left width (by omega)
      omega
    · have rest := ih (first + 1) fun value above below => bodies value (by omega) (by omega)
      rwa [Nat.add_right_comm] at rest

/-- A loop has found the first target, or there is none. -/
inductive Finds (Target : Int → Prop) (instant : Int → Int) : Scan → Prop
  | found (minute : Int) (least : IsLeast {minute | Target minute} minute) :
      Finds Target instant (.found (instant minute))
  | next (absent : ∀ minute, ¬Target minute) : Finds Target instant (.next false)
  | stop (absent : ∀ minute, ¬Target minute) : Finds Target instant .stop

/-- A loop that covers an interval with all the targets finds the first one. -/
theorem Covers.finds (covers : Covers Target instant low high scan)
    (inside : ∀ minute, Target minute → low ≤ minute ∧ minute < high) :
    Finds Target instant scan := by
  cases covers with
  | found minute low_le lt_high target least =>
    refine .found minute ⟨target, fun other isTarget => ?_⟩
    exact not_lt.mp fun earlier => least other (inside other isTarget).1 earlier isTarget
  | next absent =>
    exact .next fun minute target =>
      absent minute (inside minute target).1 (inside minute target).2 target
  | stop absent => exact .stop fun minute target => absent minute (inside minute target).1 target

theorem Finds.ne_failed {scan : Scan} (finds : Finds Target instant scan) : scan ≠ .failed := by
  cases finds <;> nofun

/-- What a search has come to: the first target, or nothing if there is none. -/
inductive Reports (Target : Int → Prop) (instant : Int → Int) : Outcome → Prop
  | found (minute : Int) (least : IsLeast {minute | Target minute} minute) :
      Reports Target instant (.found (instant minute))
  | notFound (absent : ∀ minute, ¬Target minute) : Reports Target instant .notFound

/-- Without the second loop the outcome is that of the first. -/
theorem Finds.choose_none (finds : Finds Target instant scan) :
    Reports Target instant (choose scan.match? none) := by
  cases finds with
  | found minute least => exact .found minute least
  | next absent | stop absent => exact .notFound absent

/-- A second loop over the targets up to a bound finds nothing earlier. -/
theorem Finds.choose {civil direct : Scan}
    (monotone : ∀ earlier later, earlier ≤ later → instant earlier ≤ instant later)
    (first : Finds Target instant civil)
    (second : Finds (fun minute => Target minute ∧ instant minute ≤ bound) instant direct) :
    Reports Target instant (choose civil.match? direct.match?) := by
  cases second with
  | next _ | stop _ => exact first.choose_none
  | found other otherLeast =>
    cases first with
    | next absent | stop absent => exact absurd otherLeast.1.1 (absent other)
    | found minute least =>
      have notLater : instant minute ≤ instant other :=
        monotone minute other (least.2 otherLeast.1.1)
      have same : (if instant other < instant minute then instant other else instant minute) =
          instant minute := if_neg (not_lt.mpr notLater)
      change Reports Target instant (.found (if _ then _ else _))
      rw [same]
      exact .found minute least

end Coverage

/-! ## Zones with a fixed offset -/

/-- An instant that dates reach. -/
def InRange (instant : Int) : Prop :=
  -dateLimit ≤ instant ∧ instant ≤ dateLimit

instance (instant : Int) : Decidable (InRange instant) :=
  inferInstanceAs (Decidable (_ ∧ _))

/-- The zone whose clock is a number of milliseconds ahead of universal time. -/
def Zone.ofMilliseconds (offset : Int) : Zone where
  civil := fun instant =>
    if InRange instant then some (civilFields ((instant + offset) / 60000)) else none
  epoch := fun fields =>
    let day := Calendar.yearStart fields.year + Calendar.daysBefore fields.year fields.month +
      fields.day - 719163
    let instant := (1440 * day + 60 * fields.hour + fields.minute) * 60000 - offset
    if InRange instant then some instant else none
  offset := fun instant => if InRange instant then some (offset * 1000000) else none

/-- A zone whose clock is a fixed number of minutes ahead of universal time and whose
conversions are right. -/
structure FixedOffset where
  zone : Zone
  offset : Int
  civil_eq : ∀ instant, InRange instant →
    zone.civil instant = some (civilFields (instant / 60000 + offset))
  epoch_eq : ∀ minute, InRange ((minute - offset) * 60000) →
    zone.epoch (civilFields minute) = some ((minute - offset) * 60000)
  offset_eq : ∀ instant, InRange instant → zone.offset instant = some (offset * 60000000000)

/-- A truncated instant is on the same side of every full second. -/
theorem truncated_spec (haveTemporal : Bool) (instant : Int) :
    (∀ second, instant < second * 1000 → truncated haveTemporal instant ≤ second * 1000) ∧
      (∀ second, second * 1000 ≤ instant → second * 1000 ≤ truncated haveTemporal instant) ∧
      instant - 1000 < truncated haveTemporal instant ∧
      truncated haveTemporal instant < instant + 1000 := by
  cases haveTemporal with
  | true =>
    simp only [truncated, if_true]
    exact ⟨fun second before => before.le, fun second after => after, by omega, by omega⟩
  | false =>
    have quotient : instant.tdiv 1000 =
        if 0 ≤ instant then instant / 1000 else -(-instant / 1000) := by
      split_ifs with nonneg
      · exact Int.tdiv_eq_ediv_of_nonneg nonneg
      · rw [← Int.tdiv_eq_ediv_of_nonneg (by omega), Int.neg_tdiv, neg_neg]
    simp only [truncated]
    split_ifs <;> exact ⟨fun second before => by omega, fun second after => by omega,
      by omega, by omega⟩

/-- A full second is converted itself. -/
theorem truncated_second (haveTemporal : Bool) (second : Int) :
    truncated haveTemporal (second * 1000) = second * 1000 := by
  cases haveTemporal with
  | true => rfl
  | false =>
    change (second * 1000).tdiv 1000 * 1000 = second * 1000
    rw [Int.mul_tdiv_cancel _ (by decide)]

theorem minuteOf_spec (relative : Int) :
    minuteOf relative * 60000 ≤ relative ∧ relative < (minuteOf relative + 1) * 60000 := by
  rw [minuteOf]
  split_ifs <;> omega

theorem startOfMinute_eq (relative : Int) : startOfMinute relative = minuteOf relative * 60000 := by
  rw [startOfMinute, minuteOf]
  split_ifs <;> omega

namespace FixedOffset

/-- The instant of a minute of the clock. -/
def instantOf (fixed : FixedOffset) (minute : Int) : Int :=
  (minute - fixed.offset) * 60000

/-- The civil time of an instant. -/
def fieldsAt (fixed : FixedOffset) (instant : Int) : Fields :=
  civilFields (instant / 60000 + fixed.offset)

variable (fixed : FixedOffset)

theorem instantOf_mono (earlier later : Int) (le : earlier ≤ later) :
    fixed.instantOf earlier ≤ fixed.instantOf later := by
  simp only [instantOf]
  omega

theorem epoch_civilFields (inRange : InRange (fixed.instantOf minute)) :
    fixed.zone.epoch (civilFields minute) = some (fixed.instantOf minute) :=
  fixed.epoch_eq minute inRange

/-- A minute of the clock comes back from its instant. -/
theorem fieldsFromEpoch_instantOf
    (haveTemporal : Bool) (inRange : InRange (fixed.instantOf minute)) :
    fieldsFromEpoch haveTemporal fixed.zone (fixed.instantOf minute) =
      some (civilFields minute) := by
  have seconds : fixed.instantOf minute = (minute - fixed.offset) * 60 * 1000 := by
    rw [instantOf]
    omega
  have same : truncated haveTemporal (fixed.instantOf minute) = fixed.instantOf minute := by
    rw [seconds, truncated_second]
  have back : fixed.instantOf minute / 60000 + fixed.offset = minute := by omega
  rw [fieldsFromEpoch, same, fixed.civil_eq _ inRange, back]

/-- The zone at a number of minutes from universal time. -/
def ofMinutes (offset : Int) : FixedOffset where
  zone := .ofMilliseconds (offset * 60000)
  offset := offset
  civil_eq := by
    intro instant inRange
    have minute : (instant + offset * 60000) / 60000 = instant / 60000 + offset := by omega
    simp only [Zone.ofMilliseconds, inRange, if_true, minute]
  epoch_eq := by
    intro minute inRange
    have day : Calendar.yearStart (civilFields minute).year +
        Calendar.daysBefore (civilFields minute).year (civilFields minute).month +
        (civilFields minute).day - 719163 = minute / 1440 :=
      Date.dayNumber_ofDayNumber (minute / 1440)
    have hour : ((civilFields minute).hour : Int) = minute % 1440 / 60 :=
      Int.toNat_of_nonneg (by omega)
    have ofHour : ((civilFields minute).minute : Int) = minute % 60 :=
      Int.toNat_of_nonneg (by omega)
    have same : (1440 * (minute / 1440) + 60 * (minute % 1440 / 60) + minute % 60) * 60000 -
        offset * 60000 = (minute - offset) * 60000 := by
      omega
    simp only [Zone.ofMilliseconds, day, hour, ofHour, same]
    exact if_pos inRange
  offset_eq := by
    intro instant inRange
    have nanoseconds : offset * 60000 * 1000000 = offset * 60000000000 := by omega
    simp only [Zone.ofMilliseconds, inRange, if_true, nanoseconds]

end FixedOffset

end AntRuntime.Cron
