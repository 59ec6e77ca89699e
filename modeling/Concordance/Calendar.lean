import Concordance.Text.Blank
import Concordance.Number.Shortest

/-! Dates with a time of day. -/
namespace Concordance

/-- Every fourth year is a leap year, of the centuries every fourth. -/
def isLeapYear (year : Int) : Bool :=
  year % 4 == 0 && (year % 100 != 0 || year % 400 == 0)

def daysInMonth (year : Int) (month : Nat) : Nat :=
  if month == 2 then (if isLeapYear year then 29 else 28)
  else if month == 4 || month == 6 || month == 9 || month == 11 then 30
  else 31

/-- The fields name a day of the calendar and a second of that day. -/
def isCivil (year : Int) (month day hour minute second : Nat) : Bool :=
  -262143 ≤ year && year ≤ 262142 && 1 ≤ month && month ≤ 12 &&
  1 ≤ day && day ≤ daysInMonth year month && hour ≤ 23 && minute ≤ 59 && second ≤ 60

/-- A second of a day of the calendar. The sixtieth second is a leap second. -/
structure Moment where
  year : Int
  month : Nat
  day : Nat
  hour : Nat
  minute : Nat
  second : Nat
  civil : isCivil year month day hour minute second = true
deriving DecidableEq

namespace Moment

/-- The moment of the fields when there is one. -/
def ofFields? (year : Int) (month day hour minute second : Nat) : Option Moment :=
  if civil : isCivil year month day hour minute second = true then
    some ⟨year, month, day, hour, minute, second, civil⟩
  else none

instance : Inhabited Moment := ⟨⟨1970, 1, 1, 0, 0, 0, by decide⟩⟩

/-- Earlier moments come first. -/
instance : Ord Moment where
  compare first second :=
    (compare first.year second.year).then <| (compare first.month second.month).then <|
    (compare first.day second.day).then <| (compare first.hour second.hour).then <|
    (compare first.minute second.minute).then (compare first.second second.second)

/-- The digits of a number after as many zeros as fill the width. -/
def padded (width n : Nat) : List Char :=
  let digits := Number.decimalDigits n
  List.replicate (width - digits.length) '0' ++ digits

/-- Four digits. A year outside of four digits bears its sign. -/
def yearText (year : Int) : List Char :=
  if year < 0 then '-' :: padded 4 year.natAbs
  else if 10000 ≤ year then '+' :: padded 4 year.natAbs
  else padded 4 year.natAbs

/-- The moment as text, `YYYY-MM-DD hh:mm:ss`. -/
def text (moment : Moment) : List Char :=
  yearText moment.year ++ '-' :: padded 2 moment.month ++ '-' :: padded 2 moment.day ++
  ' ' :: padded 2 moment.hour ++ ':' :: padded 2 moment.minute ++ ':' :: padded 2 moment.second

def toText (moment : Moment) : String := String.ofList moment.text

/-- A run of at least one digit and at most as many as the limit allows, with what follows it. -/
def readNumber (limit : Nat) (text : List Char) : Option (Nat × List Char) :=
  let digits := (text.take limit).takeWhile Char.isDigit
  if digits.isEmpty then none
  else some (Number.readDigits 0 digits, text.drop digits.length)

/-- A field of two digits after blanks. -/
def readField (text : List Char) : Option (Nat × List Char) := readNumber 2 (Text.trimStart text)

/-- A year after blanks: up to four digits, or a sign and any number of digits. -/
def readYear (text : List Char) : Option (Int × List Char) :=
  match Text.trimStart text with
  | '-' :: rest => (readNumber rest.length rest).map fun (n, rest) => (-(n : Int), rest)
  | '+' :: rest => (readNumber rest.length rest).map fun (n, rest) => ((n : Int), rest)
  | rest => (readNumber 4 rest).map fun (n, rest) => ((n : Int), rest)

/-- The rest of the text after one given character. -/
def skipMark (mark : Char) : List Char → Option (List Char)
  | [] => none
  | c :: rest => if c = mark then some rest else none

/-- The moment that a text spells. -/
def read (text : List Char) : Option Moment := do
  let (year, rest) ← readYear text
  let (month, rest) ← readField (← skipMark '-' rest)
  let (day, rest) ← readField (← skipMark '-' rest)
  let (hour, rest) ← readField rest
  let (minute, rest) ← readField (← skipMark ':' rest)
  let (second, rest) ← readField (← skipMark ':' rest)
  if rest.isEmpty then ofFields? year month day hour minute second else none

def ofText? (text : String) : Option Moment := read text.toList

/-- The moment as text with a `T` between date and time, and with the billionths of a second after a
point: none, three, six or nine digits. -/
def isoText (moment : Moment) (nanos : Nat) : List Char :=
  let fraction :=
    if nanos = 0 then []
    else if nanos % 1000000 = 0 then '.' :: padded 3 (nanos / 1000000)
    else if nanos % 1000 = 0 then '.' :: padded 6 (nanos / 1000)
    else '.' :: padded 9 nanos
  yearText moment.year ++ '-' :: padded 2 moment.month ++ '-' :: padded 2 moment.day ++
  'T' :: padded 2 moment.hour ++ ':' :: padded 2 moment.minute ++ ':' :: padded 2 moment.second ++
  fraction

/-- The billionths of a second after a point, and what follows. Only nine digits count. -/
def readFraction (text : List Char) : Option (Nat × List Char) :=
  match text with
  | '.' :: rest =>
      let digits := (rest.take 9).takeWhile Char.isDigit
      if digits.isEmpty then none
      else some (Number.readDigits 0 digits * Nat.pow 10 (9 - digits.length),
        (rest.drop digits.length).dropWhile Char.isDigit)
  | rest => some (0, rest)

/-- The moment and the billionths of a second that a text with a `T` spells. -/
def readIso (text : List Char) : Option (Moment × Nat) := do
  let (year, rest) ← readYear text
  let (month, rest) ← readField (← skipMark '-' (Text.trimStart rest))
  let (day, rest) ← readField (← skipMark '-' (Text.trimStart rest))
  let (hour, rest) ← readField (← skipMark 'T' (Text.trimStart rest))
  let (minute, rest) ← readField (← skipMark ':' (Text.trimStart rest))
  let (second, rest) ← readField (← skipMark ':' (Text.trimStart rest))
  let (nanos, rest) ← readFraction rest
  let moment ← ofFields? year month day hour minute second
  if (Text.trimStart rest).isEmpty then some (moment, nanos) else none

/-- The date that lies a number of days after the first of March of the year 0. -/
def dateOfDays (days : Int) : Int × Nat × Nat :=
  let era := days / 146097
  let dayOfEra := (days % 146097).toNat
  let yearOfEra :=
    (dayOfEra - dayOfEra / 1460 + dayOfEra / 36524 - dayOfEra / 146096) / 365
  let dayOfYear := dayOfEra - (365 * yearOfEra + yearOfEra / 4 - yearOfEra / 100)
  let shifted := (5 * dayOfYear + 2) / 153
  let day := dayOfYear - (153 * shifted + 2) / 5 + 1
  let month := if shifted < 10 then shifted + 3 else shifted - 9
  (era * 400 + yearOfEra + (if month ≤ 2 then 1 else 0), month, day)

/-- The moment that lies a number of seconds after the start of the year 1970. -/
def ofSeconds (seconds : Int) : Moment :=
  let date := dateOfDays (seconds / 86400 + 719468)
  let time := (seconds % 86400).toNat
  (ofFields? date.1 date.2.1 date.2.2 (time / 3600) (time / 60 % 60) (time % 60)).getD default

end Moment

/-- Local time, by the seconds that it is ahead at a second of the world. -/
structure Zone where
  ahead : Int → Int

namespace Zone

/-- The zone whose time is that of the world. -/
def world : Zone := ⟨fun _ => 0⟩

/-- The local time at a second, counted from the start of the year 1970. -/
def moment (zone : Zone) (second : Int) : Moment := .ofSeconds (second + zone.ahead second)

end Zone
end Concordance
