import AntRuntime.Cron.Expression

/-!
# The next time of a cron expression

The search for the next instant that an expression names. It runs over the civil dates
after the start, over the hours and minutes of each, and converts every candidate to an
instant; then it runs over the instants of the next day or so, which finds the times that
a change of the clock repeats. The conversions between instants and civil times are those
of a zone; what is built without the calendar library loses fractions of a second.
-/

namespace AntRuntime.Cron

/-- A time zone: the civil time of an instant in milliseconds, the instant of a civil time,
and the distance to universal time in nanoseconds. Each conversion may fail. -/
structure Zone where
  civil : Int → Option Fields
  epoch : Fields → Option Int
  offset : Int → Option Int

/-- The instant that is converted in place of another: without the calendar library, one of
full seconds. -/
def truncated (haveTemporal : Bool) (epoch : Int) : Int :=
  if haveTemporal then epoch else epoch.tdiv 1000 * 1000

/-- `cron_fields_from_epoch`, with the calendar library or without. -/
def fieldsFromEpoch (haveTemporal : Bool) (zone : Zone) (epoch : Int) : Option Fields :=
  zone.civil (truncated haveTemporal epoch)

/-- What a loop over candidates has come to. -/
inductive Scan
  | next (sawShiftedMatch : Bool)
  | found (epoch : Int)
  | stop
  | failed
  deriving DecidableEq, Repr

/-- The match of a loop. -/
def Scan.match? : Scan → Option Int
  | .found epoch => some epoch
  | _ => none

/-- A loop that goes on only if its body says so. -/
def Scan.andThen : Scan → (Bool → Scan) → Scan
  | .next sawShiftedMatch, rest => rest sawShiftedMatch
  | .found epoch, _ => .found epoch
  | .stop, _ => .stop
  | .failed, _ => .failed

/-- A loop over numbers. -/
def sweep (body : Bool → Nat → Scan) : Bool → List Nat → Scan
  | sawShiftedMatch, [] => .next sawShiftedMatch
  | sawShiftedMatch, value :: values =>
    (body sawShiftedMatch value).andThen fun sawShiftedMatch =>
      sweep body sawShiftedMatch values

/-- Two civil times of one date. -/
def sameDate (first second : Fields) : Bool :=
  first.year = second.year && first.month = second.month && first.day = second.day

/-- The test of the loop over the dates. -/
def dateNotAfter (first second : Fields) : Bool :=
  first.year < second.year || (first.year = second.year && first.month < second.month) ||
    (first.year = second.year && first.month = second.month && first.day ≤ second.day)

/-- The minute of an instant, rounded down. -/
def minuteOf (relative : Int) : Int :=
  if 0 ≤ relative then relative / 60000 else -((-relative + 59999) / 60000)

/-- The instant at which the minute of another starts. -/
def startOfMinute (relative : Int) : Int :=
  if 0 ≤ relative then relative / 60000 * 60000 else -((-relative + 59999) / 60000 * 60000)

/-- `CRON_DATE_LIMIT_MS`. -/
def dateLimit : Int := 8640000000000000

/-- What `cron_next_epoch` has at hand in its loops. -/
structure Search where
  haveTemporal : Bool
  expression : Expression
  zone : Zone
  relative : Int
  searchEnd : Int
  relativeFields : Fields
  endFields : Fields

namespace Search

variable (search : Search)

/-- One candidate of the loop over the minutes. -/
def tryMinute (fields : Fields) (hour : Nat) (sawShiftedMatch : Bool) (minute : Nat) : Scan :=
  if !hasBit search.expression.minutes minute then .next sawShiftedMatch
  else
    let candidate := { fields with hour, minute }
    if sameDate candidate search.endFields && (search.endFields.hour < hour ||
        (hour = search.endFields.hour && search.endFields.minute < minute))
    then .stop
    else
      match search.zone.epoch candidate with
      | none => .failed
      | some epoch =>
        match fieldsFromEpoch search.haveTemporal search.zone epoch with
        | none => .failed
        | some roundtrip =>
          let shifted := !(sameDate roundtrip candidate &&
            roundtrip.hour = candidate.hour && roundtrip.minute = candidate.minute)
          -- a day takes one of the times that a change of the clock leaves out
          if shifted && sawShiftedMatch then .next sawShiftedMatch
          else if search.relative < epoch && epoch ≤ search.searchEnd then .found epoch
          else .next (sawShiftedMatch || shifted)

/-- The loop over the minutes of an hour. -/
def scanHour (fields : Fields) (fromRelative : Bool) (sawShiftedMatch : Bool) (hour : Nat) : Scan :=
  if !hasBit search.expression.hours hour then .next sawShiftedMatch
  else
    let firstMinute :=
      if fromRelative && hour = search.relativeFields.hour then search.relativeFields.minute
      else 0
    sweep (search.tryMinute fields hour) sawShiftedMatch
      (List.range' firstMinute (60 - firstMinute))

/-- The end of the day of the start: that of the search, if the day is not full. -/
def dayEnd (fields : Fields) : Option Int :=
  if fields.year < search.endFields.year || fields.month < search.endFields.month ||
    fields.day < search.endFields.day
  then search.zone.epoch (advanceDay fields)
  else some search.searchEnd

/-- The day of the start is searched in full if the clock changes on it. -/
def scanFullRelativeDay (fields : Fields) : Option Bool :=
  if search.haveTemporal && sameDate fields search.relativeFields then do
    let dayStart ← search.zone.epoch fields
    let dayEnd ← search.dayEnd fields
    let startOffset ← search.zone.offset dayStart
    let endOffset ← search.zone.offset dayEnd
    some (startOffset != endOffset)
  else some false

/-- The loop over the hours of a day. -/
def scanDay (fields : Fields) : Scan :=
  match search.scanFullRelativeDay fields with
  | none => .failed
  | some full =>
    if cronDateMatches search.expression fields then
      let fromRelative := sameDate fields search.relativeFields && !full
      let firstHour := if fromRelative then search.relativeFields.hour else 0
      sweep (search.scanHour fields fromRelative) false (List.range' firstHour (24 - firstHour))
    else .next false

/-- The loop over the dates, with fuel. -/
def scanDays : Nat → Fields → Scan
  | 0, _ => .failed
  | fuel + 1, fields =>
    if dateNotAfter fields search.endFields then
      (search.scanDay fields).andThen fun _ => scanDays fuel (advanceDay fields)
    else .stop

/-- Whether the instants after the start are searched one by one. -/
def scanAbsolute (directEnd : Int) : Option Bool :=
  if search.haveTemporal then do
    let compatibleRelative ← search.zone.epoch search.relativeFields
    let startOffset ← search.zone.offset (startOfMinute search.relative)
    let endOffset ← search.zone.offset directEnd
    some (compatibleRelative != startOfMinute search.relative || startOffset != endOffset)
  else some true

/-- One candidate of the loop over the instants. -/
def tryInstant (candidate : Int) : Scan :=
  match fieldsFromEpoch search.haveTemporal search.zone candidate with
  | none => .failed
  | some fields =>
    if !cronMatches search.expression fields then .next false
    else if !search.expression.minuteWildcard && !search.expression.hourWildcard then
      match search.zone.epoch fields with
      | none => .failed
      | some compatible => if compatible != candidate then .next false else .found candidate
    else .found candidate

/-- The loop over the instants, with fuel. -/
def scanInstants (directEnd : Int) : Nat → Int → Scan
  | 0, _ => .failed
  | fuel + 1, candidate =>
    if candidate ≤ directEnd && candidate ≤ search.searchEnd then
      (search.tryInstant candidate).andThen fun _ =>
        scanInstants directEnd fuel (candidate + 60000)
    else .stop

end Search

/-- What `cron_next_epoch` reports. -/
inductive Outcome
  | failed
  | notFound
  | found (epoch : Int)
  deriving DecidableEq, Repr

/-- The earlier of the two matches. -/
def choose : Option Int → Option Int → Outcome
  | none, none => .notFound
  | some civilMatch, none => .found civilMatch
  | none, some directMatch => .found directMatch
  | some civilMatch, some directMatch =>
    .found (if directMatch < civilMatch then directMatch else civilMatch)

/-- Twenty-six hours. -/
def directHorizon : Int := 26 * 60 * 60000

/-- Eight years of 366 days. -/
def searchHorizon : Int := 8 * 366 * 24 * 60 * 60000

/-- The last instant of a horizon, which the limit of dates may cut. -/
def horizonEnd (start horizon : Int) : Int :=
  if dateLimit - horizon < start then dateLimit else start + horizon

/-- The two searches of `cron_next_epoch`. The loops run at most for the days and the
minutes of their horizons. -/
def Search.run (search : Search) (firstCandidate directEnd : Int) : Outcome :=
  let civil := search.scanDays (8 * 366 + 4) { search.relativeFields with hour := 0, minute := 0 }
  if civil = .failed then .failed
  else
    match search.scanAbsolute directEnd with
    | none => .failed
    | some false => choose civil.match? none
    | some true =>
      let direct := search.scanInstants directEnd (26 * 60 + 2) firstCandidate
      if direct = .failed then .failed
      else choose civil.match? direct.match?

/-- `cron_next_epoch`. -/
def cronNextEpoch (haveTemporal : Bool) (expression : Expression) (zone : Zone)
    (relative : Int) : Outcome :=
  let firstCandidate := (minuteOf relative + 1) * 60000
  let directEnd := horizonEnd firstCandidate directHorizon
  let searchEnd := horizonEnd relative searchHorizon
  if searchEnd < firstCandidate then .notFound
  else
    match fieldsFromEpoch haveTemporal zone relative, fieldsFromEpoch haveTemporal zone
      searchEnd with
    | some relativeFields, some endFields =>
      Search.run { haveTemporal, expression, zone, relative, searchEnd, relativeFields, endFields }
        firstCandidate directEnd
    | _, _ => .failed

end AntRuntime.Cron
