import CheckedModels.Text.Digits

/-! Dates, and dates with a time of day. -/
namespace CheckedModels.Yaml

/-- The distance from universal time is in minutes. -/
structure Clock where
  hour : Nat
  minute : Nat
  second : Nat
  fraction : List Char
  zone : Option Int
deriving Repr, DecidableEq

/-- Whether month and day have two digits each is kept beside them. -/
structure Moment where
  year : Nat
  month : Nat
  day : Nat
  isPadded : Bool
  clock : Option Clock
deriving Repr, DecidableEq

namespace Moment

/-- A number of one or two digits; `least` is how many it must have. -/
def twoDigits? (least : Nat) (cs : List Char) : Option (List Char × List Char) :=
  let ds := (cs.take 2).takeWhile Char.isDigit
  if least ≤ ds.length then some (ds, cs.drop ds.length) else none

def skipChar? (c : Char) : List Char → Option (List Char)
  | d :: rest => if d == c then some rest else none
  | [] => none

def skipBlanks (cs : List Char) : List Char := cs.dropWhile fun c => c == ' ' || c == '\t'

/-- A letter for universal time, or a signed number of hours and perhaps minutes. -/
def zone? : List Char → Option (Option Int)
  | [] => some none
  | ['Z'] => some (some 0)
  | sign :: rest => do
    if sign != '+' && sign != '-' then none
    else
      let (hours, rest) ← twoDigits? 1 rest
      let minutes ← match rest with
        | [] => some []
        | ':' :: rest => do
          let (minutes, rest) ← twoDigits? 2 rest
          if rest.isEmpty then some minutes else none
        | _ => none
      let size : Int := 60 * Text.digitsValue hours + Text.digitsValue minutes
      return some (if sign == '-' then -size else size)

def clock? (cs : List Char) : Option Clock := do
  let (hour, rest) ← twoDigits? 1 cs
  let (minute, rest) ← twoDigits? 2 (← skipChar? ':' rest)
  let (second, rest) ← twoDigits? 2 (← skipChar? ':' rest)
  let (fraction, rest) := match rest with
    | '.' :: rest => (rest.takeWhile Char.isDigit, rest.dropWhile Char.isDigit)
    | rest => ([], rest)
  let blanks := rest.length - (skipBlanks rest).length
  let zone ← zone? (skipBlanks rest)
  if zone.isNone && 0 < blanks then none
  return ⟨Text.digitsValue hour, Text.digitsValue minute, Text.digitsValue second, fraction, zone⟩

/-- A time of day comes after one letter or some blanks. -/
def clockAfter? : List Char → Option (Option Clock)
  | [] => some none
  | c :: rest =>
    if c == 'T' || c == 't' then (clock? rest).map some
    else if c == ' ' || c == '\t' then (clock? (skipBlanks rest)).map some
    else none

def ofChars? (cs : List Char) : Option Moment := do
  let year := cs.take 4
  if year.length < 4 || !year.all Char.isDigit then none
  let (month, rest) ← twoDigits? 1 (← skipChar? '-' (cs.drop 4))
  let (day, rest) ← twoDigits? 1 (← skipChar? '-' rest)
  return ⟨Text.digitsValue year, Text.digitsValue month, Text.digitsValue day,
    month.length = 2 && day.length = 2, ← clockAfter? rest⟩

/-- Only a padded date is taken for one without being asked. -/
def isPlain (m : Moment) : Bool := m.isPadded || m.clock.isSome

def isLeap (year : Nat) : Bool := year % 4 == 0 && (year % 100 != 0 || year % 400 == 0)

def daysIn (year month : Nat) : Nat :=
  if month == 2 then (if isLeap year then 29 else 28)
  else if month == 4 || month == 6 || month == 9 || month == 11 then 30
  else 31

/-- A span of time is shown as whole days, which may be negative, and seconds. -/
def spanText (minutes : Int) : String :=
  let days := minutes / 1440
  let seconds := 60 * (minutes % 1440)
  let parts := (if days = 0 then [] else [s!"days={days}"]) ++
    (if seconds = 0 then [] else [s!"seconds={seconds}"])
  "datetime.timedelta(" ++ ", ".intercalate parts ++ ")"

/-- What the calendar says against a moment. Zones are less than a day away. -/
def complaint? (m : Moment) : Option String :=
  let zone := (m.clock.bind Clock.zone).getD 0
  let hour := (m.clock.map Clock.hour).getD 0
  let minute := (m.clock.map Clock.minute).getD 0
  let second := (m.clock.map Clock.second).getD 0
  if 1440 ≤ zone || zone ≤ -1440 then
    some ("offset must be a timedelta strictly between -timedelta(hours=24) and " ++
      s!"timedelta(hours=24), not {spanText zone}.")
  else if m.year = 0 then some "year 0 is out of range"
  else if m.month = 0 || 12 < m.month then some "month must be in 1..12"
  else if m.day = 0 || daysIn m.year m.month < m.day then some "day is out of range for month"
  else if 23 < hour then some "hour must be in 0..23"
  else if 59 < minute then some "minute must be in 0..59"
  else if 59 < second then some "second must be in 0..59"
  else none

/-- Fractions are cut after six places. -/
def micros (fraction : List Char) : Nat :=
  Text.digitsValue (fraction.take 6 ++ List.replicate (6 - fraction.length) '0')

def fractionText (micros : Nat) : String := if micros = 0 then "" else "." ++ Text.padded 6 micros

def zoneText : Option Int → String
  | none => ""
  | some minutes =>
    (if minutes < 0 then "-" else "+") ++ Text.padded 2 (minutes.natAbs / 60) ++ ":" ++
      Text.padded 2 (minutes.natAbs % 60)

def text (m : Moment) : String :=
  let date := Text.padded 4 m.year ++ "-" ++ Text.padded 2 m.month ++ "-" ++ Text.padded 2 m.day
  match m.clock with
  | none => date
  | some c =>
    let time := [c.hour, c.minute, c.second].map (Text.padded 2)
    date ++ " " ++ ":".intercalate time ++ fractionText (micros c.fraction) ++ zoneText c.zone

def zoneLiteral (minutes : Int) : String :=
  if minutes = 0 then "datetime.timezone.utc" else s!"datetime.timezone({spanText minutes})"

/-- A moment by its numbers. Seconds that are zero are left out. -/
def literal (m : Moment) : String :=
  let date := [m.year, m.month, m.day]
  match m.clock with
  | none => "datetime.date(" ++ ", ".intercalate (date.map toString) ++ ")"
  | some c =>
    let micros := micros c.fraction
    let fine := if micros ≠ 0 then [c.second, micros] else if c.second ≠ 0 then [c.second] else []
    let zone := c.zone.toList.map fun minutes => "tzinfo=" ++ zoneLiteral minutes
    let numbers := (date ++ [c.hour, c.minute] ++ fine).map toString
    "datetime.datetime(" ++ ", ".intercalate (numbers ++ zone) ++ ")"

def dayNumber (m : Moment) : Nat :=
  let years := m.year - 1
  let months := (List.range (m.month - 1)).foldl (fun days i => days + daysIn m.year (i + 1)) 0
  365 * years + years / 4 - years / 100 + years / 400 + months + m.day

/-- The microsecond of a time of day on a day, by the clock of its zone or by universal time. -/
def instant (m : Moment) (c : Clock) : Int :=
  let minutes := 1440 * m.dayNumber + 60 * c.hour + c.minute - c.zone.getD 0
  (60 * minutes + c.second) * 1000000 + micros c.fraction

/-- Dates are told from times. Times with a zone are the same if they are the same instant. -/
def same (m n : Moment) : Bool :=
  match m.clock, n.clock with
  | none, none => m.dayNumber == n.dayNumber
  | some c, some d => c.zone.isSome == d.zone.isSome && m.instant c == n.instant d
  | _, _ => false

end Moment

end CheckedModels.Yaml
