import AntRuntime.Cron.CivilTime

/-!
# The next time in a zone with a fixed offset

Each loop of the search covers an interval of minutes: it finds the first one there that
the expression names, or none. Every date that an expression can name comes again within
the horizon of the search, so the search misses nothing.
-/

namespace AntRuntime.Cron

open Bool
open Calendar (Date)

variable {expression : Expression} {hour minute : Nat}

/-! ## The loops of the search -/

/-- A time that the expression names at a minute of a day. -/
theorem cronMatches_civilFields
    (expression : Expression) (day : Int) (hourBound : hour < 24) (minuteBound : minute < 60) :
    cronMatches expression (civilFields (1440 * day + 60 * hour + minute)) =
      (cronDateMatches expression (civilFields (1440 * day)) && hasBit expression.hours hour &&
        hasBit expression.minutes minute) := by
  rw [← civilFields_at day hourBound minuteBound, cronMatches_eq]
  rfl

/-- On the last date of a search, the times after its end. -/
theorem pastEnd_iff (hourBound : hour < 24) (minuteBound : minute < 60)
    (notAfter : day ≤ last / 1440) :
    (sameDate (civilFields (1440 * day + 60 * hour + minute)) (civilFields last) &&
      (decide ((civilFields last).hour < hour) ||
        (decide (hour = (civilFields last).hour) &&
          decide ((civilFields last).minute < minute)))) = true ↔
      last < 1440 * day + 60 * hour + minute := by
  have lastHour : (civilFields last).hour = (last % 1440 / 60).toNat := rfl
  have lastMinute : (civilFields last).minute = (last % 60).toNat := rfl
  rw [and_eq_true, sameDate_civilFields]
  simp only [or_eq_true, and_eq_true, decide_eq_true_eq]
  omega

/-- The data of a search in a zone with a fixed offset: the first and the last minute that
it can find, and where they are. -/
structure Prepared
    (fixed : FixedOffset) (search : Search)
    (startMinute endMinute : Int) : Prop where
  zone_eq : search.zone = fixed.zone
  relativeFields_eq : search.relativeFields = civilFields startMinute
  endFields_eq : search.endFields = civilFields endMinute
  start_le : ∀ minute, search.relative < fixed.instantOf minute → startMinute ≤ minute
  le_end : ∀ minute, fixed.instantOf minute ≤ search.searchEnd → minute ≤ endMinute
  firstDay_inRange : InRange (fixed.instantOf (1440 * (startMinute / 1440)))
  secondDay_inRange : InRange (fixed.instantOf (1440 * (startMinute / 1440 + 1)))
  searchEnd_inRange : InRange search.searchEnd
  end_inRange : InRange (fixed.instantOf endMinute)

/-- A minute that the search is to find. -/
def Search.Target (search : Search) (fixed : FixedOffset) (minute : Int) : Prop :=
  cronMatches search.expression (civilFields minute) = true ∧
    search.relative < fixed.instantOf minute ∧ fixed.instantOf minute ≤ search.searchEnd

/-- What a target says of its date and hour. -/
theorem Search.Target.date_and_hour
    {search : Search} {fixed : FixedOffset} {minute : Int} (target : search.Target fixed minute) :
    cronDateMatches search.expression (dateFields (Date.ofDayNumber (minute / 1440))) = true ∧
      hasBit search.expression.hours (minute % 1440 / 60).toNat = true := by
  have matched := target.1
  rw [cronMatches_eq, and_eq_true, and_eq_true] at matched
  exact matched.1

namespace Prepared

variable
    {fixed : FixedOffset}
    {search : Search}
    {startMinute endMinute day : Int}
    (prepared : Prepared fixed search startMinute endMinute) {directEnd minute : Int}

include prepared

theorem tryMinute_covers
    {hour minute : Nat} (notBefore : startMinute / 1440 ≤ day) (notAfter : day ≤ endMinute / 1440)
    (hourBound : hour < 24) (minuteBound : minute < 60)
    (dateMatches : cronDateMatches search.expression (civilFields (1440 * day)) = true)
    (hourSet : hasBit search.expression.hours hour = true) :
    Covers (search.Target fixed) fixed.instantOf (1440 * day + 60 * hour + minute)
      (1440 * day + 60 * hour + minute + 1)
      (search.tryMinute (civilFields (1440 * day)) hour false minute) := by
  have matched := cronMatches_civilFields search.expression day hourBound minuteBound
  rw [dateMatches, hourSet, Bool.true_and, Bool.true_and] at matched
  have pastEnd := pastEnd_iff hourBound minuteBound notAfter
  have sameDay : (1440 * day + 60 * hour + minute) / 1440 = day := by omega
  rw [Search.tryMinute, civilFields_at day hourBound minuteBound, prepared.zone_eq,
    prepared.endFields_eq]
  generalize 1440 * day + 60 * (hour : Int) + minute = candidate at *
  by_cases minuteSet : hasBit search.expression.minutes minute = true
  · rw [minuteSet] at matched ⊢
    by_cases past : endMinute < candidate
    · rw [if_pos (pastEnd.mpr past)]
      refine .stop fun later above target => ?_
      have := prepared.le_end later target.2.2
      omega
    · have inRange : InRange (fixed.instantOf candidate) := by
        have first := prepared.firstDay_inRange
        have last := prepared.end_inRange
        simp only [InRange, FixedOffset.instantOf] at first last ⊢
        omega
      rw [if_neg (mt pastEnd.mp past)]
      simp only [fixed.epoch_civilFields inRange,
        fixed.fieldsFromEpoch_instantOf search.haveTemporal inRange]
      rw [(sameDate_civilFields candidate candidate).mpr rfl]
      simp only [decide_true, Bool.and_true, Bool.not_true, Bool.false_and, false_eq_true, if_false]
      split_ifs with window
      · refine .found candidate (le_refl _) (by omega) ⟨matched, by simpa using window⟩ ?_
        intro earlier above below
        omega
      · refine .next fun later above below target => window ?_
        obtain rfl : later = candidate := by omega
        simpa using target.2
  · rw [if_pos (by simpa using minuteSet)]
    refine .next fun later above below target => minuteSet ?_
    obtain rfl : later = candidate := by omega
    rw [← matched]
    exact target.1

theorem startHour : search.relativeFields.hour = (startMinute % 1440 / 60).toNat := by
  rw [prepared.relativeFields_eq]
  rfl

/-- The whole hour is covered, from whichever minute the loop starts. -/
theorem scanHour_covers {hour : Nat} {fromRelative : Bool} (notBefore : startMinute / 1440 ≤ day)
    (notAfter : day ≤ endMinute / 1440) (fromStart : fromRelative = true → day = startMinute / 1440)
    (hourBound : hour < 24)
    (dateMatches : cronDateMatches search.expression (civilFields (1440 * day)) = true) :
    Covers (search.Target fixed) fixed.instantOf (1440 * day + (60 : Nat) * hour)
      (1440 * day + (60 : Nat) * (hour + 1 : Nat))
      (search.scanHour (civilFields (1440 * day)) fromRelative false hour) := by
  have startHour := prepared.startHour
  have startMinutes : search.relativeFields.minute = (startMinute % 60).toNat := by
    rw [prepared.relativeFields_eq]
    rfl
  rw [Search.scanHour]
  by_cases hourSet : hasBit search.expression.hours hour = true
  · rw [if_neg (by simpa using hourSet)]
    generalize known : (if fromRelative && decide (hour = search.relativeFields.hour) then
      search.relativeFields.minute else 0) = firstMinute
    have firstMinute_eq : firstMinute = 0 ∨
        firstMinute < 60 ∧ 1440 * day + 60 * hour + firstMinute = startMinute := by
      split_ifs at known with start
      · rw [and_eq_true, decide_eq_true_eq] at start
        have := fromStart start.1
        omega
      · exact .inl known.symm
    have swept := @sweep_covers (search.Target fixed) fixed.instantOf
      (search.tryMinute (civilFields (1440 * day)) hour) 1 (1440 * day + 60 * hour) firstMinute
      (60 - firstMinute) (by
        intro minute above below
        have covered := prepared.tryMinute_covers notBefore notAfter hourBound
          (by omega : minute < 60) dateMatches hourSet
        push_cast
        rwa [one_mul, one_mul, ← add_assoc])
    have wholeHour : 1440 * day + 60 * (hour : Int) +
        (1 : Nat) * (firstMinute + (60 - firstMinute) : Nat) =
        1440 * day + (60 : Nat) * (hour + 1 : Nat) := by omega
    rw [wholeHour] at swept
    refine swept.widen (by omega) fun minute above below target => ?_
    have := prepared.start_le minute target.2.1
    omega
  · rw [if_pos (by simpa using hourSet)]
    refine .next fun minute above below target => hourSet ?_
    rw [show hour = (minute % 1440 / 60).toNat by omega]
    exact target.date_and_hour.2

/-- The conversions on the day of the start succeed. -/
theorem scanFullRelativeDay_isSome (day : Int) :
    ∃ full, search.scanFullRelativeDay (civilFields (1440 * day)) = some full := by
  rw [Search.scanFullRelativeDay]
  split_ifs with relativeDate
  · rw [and_eq_true, prepared.relativeFields_eq, sameDate_civilFields] at relativeDate
    obtain rfl : day = startMinute / 1440 := by omega
    have dayStart := fixed.epoch_civilFields prepared.firstDay_inRange
    have nextDay := fixed.epoch_civilFields prepared.secondDay_inRange
    obtain ⟨dayEnd, dayEnd_eq, endOffset⟩ : ∃ dayEnd,
        search.dayEnd (civilFields (1440 * (startMinute / 1440))) = some dayEnd ∧
          fixed.zone.offset dayEnd = some (fixed.offset * 60000000000) := by
      rw [Search.dayEnd, advanceDay_midnight, prepared.zone_eq, nextDay]
      split_ifs
      · exact ⟨_, rfl, fixed.offset_eq _ prepared.secondDay_inRange⟩
      · exact ⟨_, rfl, fixed.offset_eq _ prepared.searchEnd_inRange⟩
    have startOffset := fixed.offset_eq _ prepared.firstDay_inRange
    rw [dayEnd_eq, prepared.zone_eq, dayStart]
    simp [startOffset, endOffset]
  · exact ⟨false, rfl⟩

/-- The whole day is covered, from whichever hour the loop starts. -/
theorem scanDay_covers (notBefore : startMinute / 1440 ≤ day) (notAfter : day ≤ endMinute / 1440) :
    Covers (search.Target fixed) fixed.instantOf (1440 * day) (1440 * (day + 1))
      (search.scanDay (civilFields (1440 * day))) := by
  obtain ⟨full, succeeded⟩ := prepared.scanFullRelativeDay_isSome day
  simp only [Search.scanDay, succeeded]
  by_cases dateMatches : cronDateMatches search.expression (civilFields (1440 * day)) = true
  · rw [if_pos dateMatches]
    have fromStart : (sameDate (civilFields (1440 * day)) search.relativeFields && !full) = true →
        day = startMinute / 1440 := by
      rw [and_eq_true, prepared.relativeFields_eq, sameDate_civilFields]
      omega
    have startHour := prepared.startHour
    generalize (sameDate (civilFields (1440 * day)) search.relativeFields && !full) = fromRelative
      at fromStart
    generalize known : (if fromRelative = true then search.relativeFields.hour else 0) = firstHour
    have firstHour_eq : firstHour = 0 ∨
        firstHour < 24 ∧ 1440 * day + 60 * firstHour ≤ startMinute := by
      split_ifs at known with start
      · have := fromStart start
        omega
      · exact .inl known.symm
    have swept := @sweep_covers (search.Target fixed) fixed.instantOf
      (search.scanHour (civilFields (1440 * day)) fromRelative) 60 (1440 * day) firstHour
      (24 - firstHour) fun hour above below =>
        prepared.scanHour_covers notBefore notAfter fromStart (by omega : hour < 24) dateMatches
    have wholeDay : 1440 * day + (60 : Nat) * (firstHour + (24 - firstHour) : Nat) =
        1440 * (day + 1) := by omega
    rw [wholeDay] at swept
    refine swept.widen (by omega) fun minute above below target => ?_
    have := prepared.start_le minute target.2.1
    omega
  · rw [if_neg dateMatches]
    refine .next fun minute above below target => dateMatches ?_
    rw [civilFields_midnight, show day = minute / 1440 by omega]
    exact target.date_and_hour.1

/-- The days from one of the search on are covered, with fuel for them. -/
theorem scanDays_covers
    (fuel : Nat) (enough : endMinute / 1440 - day + 1 < fuel) (positive : 0 < fuel)
    (notBefore : startMinute / 1440 ≤ day) :
    Covers (search.Target fixed) fixed.instantOf (1440 * day)
      (max (1440 * day) (1440 * (endMinute / 1440 + 1)))
      (search.scanDays fuel (civilFields (1440 * day))) := by
  induction fuel generalizing day with
  | zero => omega
  | succ fuel ih =>
    have inLoop := dateNotAfter_civilFields (1440 * day) endMinute
    rw [show 1440 * day / 1440 = day by omega] at inLoop
    rw [Search.scanDays, prepared.endFields_eq]
    by_cases notAfter : day ≤ endMinute / 1440
    · rw [if_pos (inLoop.mpr notAfter), advanceDay_midnight]
      refine Covers.andThen (by omega) (by omega) (prepared.scanDay_covers notBefore notAfter) ?_
      have rest := @ih (day + 1) (by omega) (by omega) (by omega)
      rwa [show max (1440 * (day + 1)) (1440 * (endMinute / 1440 + 1)) =
        max (1440 * day) (1440 * (endMinute / 1440 + 1)) by omega] at rest
    · rw [if_neg (mt inLoop.mp notAfter)]
      refine .stop fun minute above target => ?_
      have := prepared.le_end minute target.2.2
      omega

/-- One instant of the second loop: on a clock without changes none is a repetition. -/
theorem tryInstant_covers (after : search.relative < fixed.instantOf minute)
    (notLate : fixed.instantOf minute ≤ directEnd)
    (inSearch : fixed.instantOf minute ≤ search.searchEnd)
    (inRange : InRange (fixed.instantOf minute)) :
    Covers (fun minute => search.Target fixed minute ∧ fixed.instantOf minute ≤ directEnd)
      fixed.instantOf minute (minute + 1) (search.tryInstant (fixed.instantOf minute)) := by
  have converted := fixed.fieldsFromEpoch_instantOf search.haveTemporal inRange
  rw [← prepared.zone_eq] at converted
  have compatible := fixed.epoch_civilFields inRange
  rw [← prepared.zone_eq] at compatible
  simp only [Search.tryInstant, converted, compatible]
  by_cases matched : cronMatches search.expression (civilFields minute) = true
  · have found : Covers
        (fun minute => search.Target fixed minute ∧ fixed.instantOf minute ≤ directEnd)
        fixed.instantOf minute (minute + 1) (.found (fixed.instantOf minute)) := by
      refine .found minute (le_refl _) (by omega) ⟨⟨matched, after, inSearch⟩, notLate⟩ ?_
      intro earlier above below
      omega
    simpa [matched] using found
  · rw [if_pos (by simpa using matched)]
    refine .next fun other above below target => matched ?_
    obtain rfl : other = minute := by omega
    exact target.1.1

/-- The instants from one on are covered, with fuel for them. -/
theorem scanInstants_covers
    (fuel : Nat) (enough : directEnd < fixed.instantOf (minute + fuel - 1)) (positive : 0 < fuel)
    (after : search.relative < fixed.instantOf minute)
    (inRange : -dateLimit ≤ fixed.instantOf minute) :
    Covers (fun minute => search.Target fixed minute ∧ fixed.instantOf minute ≤ directEnd)
      fixed.instantOf minute (minute + fuel)
      (search.scanInstants directEnd fuel (fixed.instantOf minute)) := by
  induction fuel generalizing minute with
  | zero => omega
  | succ fuel ih =>
    have nextInstant : fixed.instantOf minute + 60000 = fixed.instantOf (minute + 1) := by
      simp only [FixedOffset.instantOf]
      omega
    rw [Search.scanInstants, nextInstant]
    split_ifs with inLoop
    · rw [and_eq_true, decide_eq_true_eq, decide_eq_true_eq] at inLoop
      have fuelLeft : 0 < fuel := by
        by_contra empty
        rw [show minute + ((fuel + 1 : Nat) : Int) - 1 = minute by omega] at enough
        omega
      refine Covers.andThen (by omega) (by omega)
        (prepared.tryInstant_covers after inLoop.1 inLoop.2
          ⟨inRange, inLoop.2.trans prepared.searchEnd_inRange.2⟩) ?_
      have rest := @ih (minute + 1)
        (by rwa [show minute + 1 + (fuel : Int) - 1 = minute + (fuel + 1 : Nat) - 1 by omega])
        fuelLeft (by omega) (by omega)
      rwa [show minute + 1 + (fuel : Int) = minute + (fuel + 1 : Nat) by omega] at rest
    · refine .stop fun later above target => inLoop ?_
      obtain ⟨⟨-, -, inSearch⟩, notLate⟩ := target
      have order : fixed.instantOf minute ≤ fixed.instantOf later := by
        simp only [FixedOffset.instantOf]
        omega
      simp only [and_eq_true, decide_eq_true_eq]
      exact ⟨order.trans notLate, order.trans inSearch⟩

/-- The conversions before the second loop succeed. -/
theorem scanAbsolute_isSome (startInRange : InRange (fixed.instantOf startMinute))
    (minuteInRange : InRange (startOfMinute search.relative)) (directInRange : InRange directEnd) :
    ∃ absolute, search.scanAbsolute directEnd = some absolute := by
  rw [Search.scanAbsolute]
  split_ifs
  · rw [prepared.relativeFields_eq, prepared.zone_eq, fixed.epoch_civilFields startInRange]
    simp [fixed.offset_eq _ minuteInRange, fixed.offset_eq _ directInRange]
  · exact ⟨true, rfl⟩

/-- The search finds the first target, or none if there is none. -/
theorem run_reports (startInRange : InRange (fixed.instantOf startMinute))
    (minuteInRange : InRange (startOfMinute search.relative)) (directInRange : InRange directEnd)
    (fewDays : endMinute / 1440 - startMinute / 1440 + 1 < 8 * 366 + 4)
    (first_le : ∀ minute, search.relative < fixed.instantOf minute → firstMinute ≤ minute)
    (after : search.relative < fixed.instantOf firstMinute)
    (firstInRange : -dateLimit ≤ fixed.instantOf firstMinute)
    (fewMinutes : directEnd < fixed.instantOf (firstMinute + (26 * 60 + 2 : Nat) - 1)) :
    Reports (search.Target fixed) fixed.instantOf
      (search.run (fixed.instantOf firstMinute) directEnd) := by
  have midnight : { search.relativeFields with hour := 0, minute := 0 } =
      civilFields (1440 * (startMinute / 1440)) := by
    rw [prepared.relativeFields_eq, civilFields_midnight]
    rfl
  obtain ⟨absolute, scanAbsolute⟩ :=
    prepared.scanAbsolute_isSome startInRange minuteInRange directInRange
  have civil := (prepared.scanDays_covers (8 * 366 + 4) fewDays (by decide) (le_refl _)).finds
    fun minute target => by
      have := prepared.start_le minute target.2.1
      have := prepared.le_end minute target.2.2
      omega
  have direct := (prepared.scanInstants_covers (26 * 60 + 2) fewMinutes (by decide) after
    firstInRange).finds fun minute target => by
      have := first_le minute target.1.2.1
      have := lt_of_le_of_lt target.2 fewMinutes
      simp only [FixedOffset.instantOf] at this
      omega
  simp only [Search.run, midnight, scanAbsolute, if_neg civil.ne_failed]
  cases absolute with
  | false => exact civil.choose_none
  | true =>
    simp only [if_neg direct.ne_failed]
    exact civil.choose fixed.instantOf_mono direct

end Prepared

/-! ## The horizon -/

/-- The rule for dates, spelled out. -/
theorem cronDateMatches_iff (expression : Expression) (fields : Fields) :
    cronDateMatches expression fields = true ↔
      hasBit expression.months fields.month = true ∧
        ((expression.dayWildcard = true ∧ expression.weekdayWildcard = true) ∨
          (expression.dayWildcard = false ∧ hasBit expression.days fields.day = true) ∨
          (expression.weekdayWildcard = false ∧
            hasBit expression.weekdays fields.weekday = true)) := by
  rw [cronDateMatches, dayMatches]
  cases hasBit expression.months fields.month <;> cases expression.dayWildcard <;>
    cases expression.weekdayWildcard <;> simp

/-- A date that matches does so by its day of the month or by its day of the week. -/
theorem cronDateMatches_recurs
    {date : Date} (matched : cronDateMatches expression (dateFields date) = true) :
    (∀ later : Date, later.month = date.month → later.day = date.day →
      cronDateMatches expression (dateFields later) = true) ∨
    (∀ later : Date, later.month = date.month → later.weekday = date.weekday →
      cronDateMatches expression (dateFields later) = true) := by
  simp only [cronDateMatches_iff, dateFields] at matched ⊢
  obtain ⟨monthSet, wildcards | byDay | byWeekday⟩ := matched
  · refine .inl fun later sameMonth _ => ?_
    rw [sameMonth]
    exact ⟨monthSet, .inl wildcards⟩
  · refine .inl fun later sameMonth sameDay => ?_
    rw [sameMonth, sameDay]
    exact ⟨monthSet, .inr (.inl byDay)⟩
  · refine .inr fun later sameMonth sameWeekday => ?_
    rw [sameMonth, sameWeekday]
    exact ⟨monthSet, .inr (.inr byWeekday)⟩

/-- A date that an expression can name comes again within the horizon of the search. -/
theorem exists_day_matches
    {date : Date} (matched : cronDateMatches expression (dateFields date) = true) (start : Int) :
    ∃ day, start ≤ day ∧ day ≤ start + 2922 ∧
      cronDateMatches expression (civilFields (1440 * day)) = true := by
  simp only [civilFields_midnight]
  rcases cronDateMatches_recurs matched with byDay | byWeekday
  · obtain ⟨later, sameMonth, sameDay, after, soon⟩ := date.exists_sameDay start
    refine ⟨later.dayNumber, after, soon, ?_⟩
    rw [Date.ofDayNumber_dayNumber]
    exact byDay later sameMonth sameDay
  · obtain ⟨later, sameMonth, sameWeekday, after, soon⟩ := date.exists_sameWeekday start
    refine ⟨later.dayNumber, after, soon, ?_⟩
    rw [Date.ofDayNumber_dayNumber]
    exact byWeekday later sameMonth sameWeekday

/-! ## The whole search -/

/-- An instant with nine years on either side before the limits of dates. -/
def FarFromLimit (instant : Int) : Prop :=
  InRange (instant - 9 * 366 * 86400000) ∧ InRange (instant + 9 * 366 * 86400000)

section Whole

variable (fixed : FixedOffset) (haveTemporal : Bool) (expression : Expression) (relative : Int)
variable {instant minute : Int}

/-- The minute of the clock at which an instant is converted. -/
def convertedMinute (instant : Int) : Int :=
  truncated haveTemporal instant / 60000 + fixed.offset

/-- The search of an expression from a start. -/
def searchFrom : Search where
  haveTemporal := haveTemporal
  expression := expression
  zone := fixed.zone
  relative := relative
  searchEnd := relative + searchHorizon
  relativeFields := civilFields (convertedMinute fixed haveTemporal relative)
  endFields := civilFields (convertedMinute fixed haveTemporal (relative + searchHorizon))

variable {relative}

theorem fieldsFromEpoch_eq {instant : Int} (inRange : InRange (truncated haveTemporal instant)) :
    fieldsFromEpoch haveTemporal fixed.zone instant =
      some (civilFields (convertedMinute fixed haveTemporal instant)) :=
  fixed.civil_eq _ inRange

/-- The minutes after an instant are not before the one at which it is converted. -/
theorem convertedMinute_le (after : instant < fixed.instantOf minute) :
    convertedMinute fixed haveTemporal instant ≤ minute := by
  obtain ⟨onSide, -⟩ := truncated_spec haveTemporal instant
  rw [FixedOffset.instantOf] at after
  have := onSide ((minute - fixed.offset) * 60) (by omega)
  rw [convertedMinute]
  omega

theorem le_convertedMinute (notAfter : fixed.instantOf minute ≤ instant) :
    minute ≤ convertedMinute fixed haveTemporal instant := by
  obtain ⟨-, onSide, -⟩ := truncated_spec haveTemporal instant
  rw [FixedOffset.instantOf] at notAfter
  have := onSide ((minute - fixed.offset) * 60) (by omega)
  rw [convertedMinute]
  omega

/-- An instant is converted at a minute close to it. -/
theorem instantOf_convertedMinute (instant : Int) :
    instant - 61000 < fixed.instantOf (convertedMinute fixed haveTemporal instant) ∧
      fixed.instantOf (convertedMinute fixed haveTemporal instant) < instant + 1000 := by
  obtain ⟨-, -, low, high⟩ := truncated_spec haveTemporal instant
  rw [FixedOffset.instantOf, convertedMinute]
  omega

theorem searchFrom_prepared (far : FarFromLimit relative) :
    Prepared fixed (searchFrom fixed haveTemporal expression relative)
      (convertedMinute fixed haveTemporal relative)
      (convertedMinute fixed haveTemporal (relative + searchHorizon)) := by
  have atStart := instantOf_convertedMinute fixed haveTemporal relative
  have atEnd := instantOf_convertedMinute fixed haveTemporal (relative + searchHorizon)
  have searchEnd : (searchFrom fixed haveTemporal expression relative).searchEnd =
      relative + searchHorizon := rfl
  refine ⟨rfl, rfl, rfl, fun minute => convertedMinute_le fixed haveTemporal,
    fun minute => le_convertedMinute fixed haveTemporal, ?_, ?_, ?_, ?_⟩
  all_goals
    simp only [FarFromLimit, InRange, FixedOffset.instantOf, searchHorizon] at *
    omega

/-- On a clock with a fixed offset the search starts from converted times. -/
theorem cronNextEpoch_eq_run (far : FarFromLimit relative) :
    cronNextEpoch haveTemporal expression fixed.zone relative =
      (searchFrom fixed haveTemporal expression relative).run
        (fixed.instantOf (minuteOf relative + 1 + fixed.offset))
        (fixed.instantOf (minuteOf relative + 1 + fixed.offset) + directHorizon) := by
  have first : fixed.instantOf (minuteOf relative + 1 + fixed.offset) =
      (minuteOf relative + 1) * 60000 := by
    rw [FixedOffset.instantOf]
    omega
  have minute := minuteOf_spec relative
  have atStart := (truncated_spec haveTemporal relative).2.2
  have atEnd := (truncated_spec haveTemporal (relative + searchHorizon)).2.2
  simp only [FarFromLimit, InRange, dateLimit, searchHorizon] at far atEnd
  have searchEnd : horizonEnd relative searchHorizon = relative + searchHorizon :=
    if_neg (by simp only [dateLimit, searchHorizon]; omega)
  have directEnd : horizonEnd ((minuteOf relative + 1) * 60000) directHorizon =
      (minuteOf relative + 1) * 60000 + directHorizon :=
    if_neg (by simp only [dateLimit, directHorizon]; omega)
  have startFields := @fieldsFromEpoch_eq fixed haveTemporal relative
    (by simp only [InRange, dateLimit]; omega)
  have endFields := @fieldsFromEpoch_eq fixed haveTemporal (relative + searchHorizon)
    (by simp only [InRange, dateLimit, searchHorizon]; omega)
  rw [cronNextEpoch, first]
  simp only [searchEnd, directEnd, startFields, endFields]
  rw [if_neg (by simp only [searchHorizon]; omega)]
  rfl

/-- The search reports the first minute after the start, within its horizon, that the
expression names. -/
theorem cronNextEpoch_reports (far : FarFromLimit relative) :
    Reports ((searchFrom fixed haveTemporal expression relative).Target fixed) fixed.instantOf
      (cronNextEpoch haveTemporal expression fixed.zone relative) := by
  have minute := minuteOf_spec relative
  have startMinute := startOfMinute_eq relative
  have atStart := instantOf_convertedMinute fixed haveTemporal relative
  have atEnd := instantOf_convertedMinute fixed haveTemporal (relative + searchHorizon)
  rw [cronNextEpoch_eq_run fixed haveTemporal expression far]
  refine (searchFrom_prepared fixed haveTemporal expression far).run_reports ?_ ?_ ?_ ?_ ?_ ?_ ?_ ?_
  all_goals
    simp only [FarFromLimit, InRange, dateLimit, FixedOffset.instantOf, searchHorizon,
      directHorizon] at *
  · omega
  · change -8640000000000000 ≤ startOfMinute relative ∧ startOfMinute relative ≤ 8640000000000000
    omega
  · omega
  · omega
  · intro minute after
    change relative < _ at after
    omega
  · change relative < _
    omega
  · omega
  · omega

/-- If some date matches, there is a target within the horizon. -/
theorem exists_target {date : Date}
    (named : (∃ hour < 24, hasBit expression.hours hour = true) ∧
      ∃ minute < 60, hasBit expression.minutes minute = true)
    (matched : cronDateMatches expression (dateFields date) = true) :
    ∃ minute, (searchFrom fixed haveTemporal expression relative).Target fixed minute := by
  obtain ⟨⟨hour, hourBound, hourSet⟩, minute, minuteBound, minuteSet⟩ := named
  -- every minute of the days after that of the start is after the start
  obtain ⟨day, after, soon, dateMatches⟩ :=
    exists_day_matches matched ((relative / 60000 + fixed.offset) / 1440 + 1)
  refine ⟨1440 * day + 60 * hour + minute, ?_, ?_, ?_⟩
  · change cronMatches expression _ = true
    rw [cronMatches_civilFields expression day hourBound minuteBound, dateMatches, hourSet,
      minuteSet]
    rfl
  · change relative < _
    rw [FixedOffset.instantOf]
    omega
  · change _ ≤ relative + searchHorizon
    rw [FixedOffset.instantOf, searchHorizon]
    omega

/-- The first target is the first full minute after the start that the expression names, also
beyond the horizon. -/
theorem isLeast_instantOf
    (least : IsLeast
      {minute | (searchFrom fixed haveTemporal expression relative).Target fixed minute} minute) :
    IsLeast {instant | 60000 ∣ instant ∧ relative < instant ∧
      cronMatches expression (fixed.fieldsAt instant) = true} (fixed.instantOf minute) := by
  have back (minute : Int) : fixed.fieldsAt (fixed.instantOf minute) = civilFields minute := by
    rw [FixedOffset.fieldsAt, FixedOffset.instantOf]
    congr 1
    omega
  obtain ⟨⟨matched, after, inTime⟩, lower⟩ := least
  refine ⟨⟨⟨_, Int.mul_comm _ _⟩, after, ?_⟩, ?_⟩
  · rw [back]
    exact matched
  · rintro instant ⟨⟨quotient, aligned⟩, later, named⟩
    by_cases inHorizon : instant ≤ relative + searchHorizon
    · have same : fixed.instantOf (quotient + fixed.offset) = instant := by
        rw [FixedOffset.instantOf]
        omega
      rw [← same] at later named inHorizon ⊢
      rw [back] at named
      exact fixed.instantOf_mono _ _ (lower ⟨named, later, inHorizon⟩)
    · change _ ≤ relative + searchHorizon at inTime
      omega

end Whole

/-- The next time of an accepted expression, on a clock with a fixed offset and far from the
limits of dates: the least full minute after the start that matches. Nothing is found
exactly if no date matches, and no conversion fails. -/
theorem cronNextEpoch_correct
    {source : List UInt8} {expression : Expression} {relative : Int} (fixed : FixedOffset)
    (haveTemporal : Bool) (accepted : parseExpression source = .ok expression)
    (far : FarFromLimit relative) :
    (∀ instant, cronNextEpoch haveTemporal expression fixed.zone relative = .found instant ↔
      IsLeast {instant | 60000 ∣ instant ∧ relative < instant ∧
        cronMatches expression (fixed.fieldsAt instant) = true} instant) ∧
    (cronNextEpoch haveTemporal expression fixed.zone relative = .notFound ↔
      ∀ date : Date, cronDateMatches expression (dateFields date) = false) ∧
    cronNextEpoch haveTemporal expression fixed.zone relative ≠ .failed := by
  have named := parseExpression_spec accepted
  have reports := cronNextEpoch_reports fixed haveTemporal expression far
  generalize cronNextEpoch haveTemporal expression fixed.zone relative = outcome at reports
  cases reports with
  | found minute least =>
    have first := isLeast_instantOf fixed haveTemporal expression least
    refine ⟨fun instant => ⟨?_, fun isLeast => ?_⟩, ⟨nofun, fun never => ?_⟩, nofun⟩
    · rintro ⟨⟩
      exact first
    · rw [first.unique isLeast]
    · have matched := least.1.date_and_hour.1
      exact absurd (never _) (eq_false_iff.not_left.mpr matched)
  | notFound absent =>
    have never : ∀ date : Date, cronDateMatches expression (dateFields date) = false := by
      intro date
      by_contra matched
      obtain ⟨minute, target⟩ := exists_target fixed haveTemporal expression named
        (eq_true_of_not_eq_false matched)
      exact absent minute target
    refine ⟨fun instant => ⟨nofun, fun isLeast => ?_⟩, iff_of_true rfl never, nofun⟩
    have matched := isLeast.1.2.2
    rw [cronMatches_eq, and_eq_true, and_eq_true] at matched
    have matched := matched.1.1
    change cronDateMatches expression (dateFields (Date.ofDayNumber _)) = true at matched
    rw [never] at matched
    cases matched

/-- Noon on a leap day, on a clock five and a half hours ahead, is found. -/
theorem cronNextEpoch_correct_leapDay :
    parseExpression (Bytes.ofAscii "0 12 29 feb *") =
        .ok ⟨1, 4096, 536870912, 4, 127, false, false, false, true⟩ ∧
      FarFromLimit 1700000000000 ∧
      ∃ instant, cronNextEpoch true ⟨1, 4096, 536870912, 4, 127, false, false, false, true⟩
        (FixedOffset.ofMinutes 330).zone 1700000000000 = .found instant := by
  have accepted : parseExpression (Bytes.ofAscii "0 12 29 feb *") =
      .ok ⟨1, 4096, 536870912, 4, 127, false, false, false, true⟩ := rfl
  have far : FarFromLimit 1700000000000 := ⟨by decide, by decide⟩
  obtain ⟨-, notFound, notFailed⟩ :=
    cronNextEpoch_correct (FixedOffset.ofMinutes 330) true accepted far
  refine ⟨accepted, far, ?_⟩
  generalize cronNextEpoch _ _ _ _ = outcome at notFound notFailed
  cases outcome with
  | failed => exact absurd rfl notFailed
  | notFound =>
    have never := notFound.mp rfl (Date.leapDay 2024 (by decide))
    exact absurd never (by decide)
  | found instant => exact ⟨instant, rfl⟩

/-- On a clock half a minute ahead of universal time, what is found for every minute is the
start of a minute of the clock, which is no full minute of universal time. -/
theorem cronNextEpoch_halfMinute :
    parseExpression (Bytes.ofAscii "* * * * *") =
        .ok ⟨1152921504606846975, 16777215, 4294967294, 8190, 127, true, true, true, true⟩ ∧
      FarFromLimit 20000 ∧
      (∀ haveTemporal,
        cronNextEpoch haveTemporal
            ⟨1152921504606846975, 16777215, 4294967294, 8190, 127, true, true, true, true⟩
            (.ofMilliseconds 30000) 20000 = .found 30000) ∧
      ¬ (60000 : Int) ∣ 30000 := by
  refine ⟨rfl, ⟨by decide, by decide⟩, fun haveTemporal => ?_, by decide⟩
  -- the end of the search is too many days away to be counted
  have last : Date.ofDayNumber 2928 = ⟨1978, 1, 7, by decide, by decide, by decide, by decide⟩ :=
    Date.dayNumber_injective (by rw [Date.dayNumber_ofDayNumber]; decide)
  have start : fieldsFromEpoch haveTemporal (.ofMilliseconds 30000) 20000 =
      some ⟨1970, 1, 1, 0, 0, 4⟩ := by
    cases haveTemporal <;> decide
  have stop : fieldsFromEpoch haveTemporal (.ofMilliseconds 30000)
      (horizonEnd 20000 searchHorizon) = some ⟨1978, 1, 7, 0, 0, 6⟩ := by
    have converted : truncated haveTemporal (horizonEnd 20000 searchHorizon) = 252979220000 := by
      cases haveTemporal <;> decide
    have midnight : (252979220000 + 30000 : Int) / 60000 = 1440 * 2928 := by decide
    simp only [fieldsFromEpoch, converted, Zone.ofMilliseconds, midnight,
      civilFields_midnight, last]
    decide
  rw [cronNextEpoch, start, stop]
  cases haveTemporal <;> decide +kernel

end AntRuntime.Cron
