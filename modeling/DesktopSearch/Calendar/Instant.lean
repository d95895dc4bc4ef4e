import DesktopSearch.Calendar.Date
import DesktopSearch.Text.Blank
import DesktopSearch.Text.Digit

/-!
# Instants

A date with a time of day, to the nanosecond. A leap second is the second before it with a fraction
of one second or more, so that it sorts after that second and before the next one, and it prints as
second 60. Adding seconds leaves a leap second: forwards from the second before it, backwards from the
second after it.

`Instant.text` writes an instant without its fraction, `Instant.exactText` with as many groups of
three decimals as it needs, and `Instant.read?` reads both, and a date alone as its midnight.
-/

namespace DesktopSearch

/-- The nanoseconds of a second. -/
def nanosPerSecond : Nat := 1000000000

/-- The seconds of a day. -/
def secondsPerDay : Nat := 86400

/-- A date and the time on it: whole seconds since midnight and nanoseconds, of which there are more
than a second's worth only in a leap second, at the end of a minute. -/
structure Instant where
  date : Date
  second : Nat
  nano : Nat
  second_lt : second < secondsPerDay
  nano_lt : nano < 2 * nanosPerSecond
  leap : nanosPerSecond ≤ nano → second % 60 = 59
  deriving DecidableEq

namespace Instant

/-- The instant at a time of a day, if there is such a time. -/
def ofParts? (date : Date) (second nano : Nat) : Option Instant :=
  if h : second < secondsPerDay ∧ nano < 2 * nanosPerSecond ∧
      (nanosPerSecond ≤ nano → second % 60 = 59) then
    some ⟨date, second, nano, h.1, h.2.1, h.2.2⟩
  else none

/-- The start of a day. -/
def midnight (date : Date) : Instant :=
  ⟨date, 0, 0, by decide, by decide, by decide⟩

/-- A whole second of a day. -/
def atSecond (date : Date) (second : Nat) : Instant :=
  ⟨date, second % secondsPerDay, 0, Nat.mod_lt _ (by decide), by decide,
    fun h => absurd h (by decide)⟩

/-- The hour of the day. -/
def hour (t : Instant) : Nat := t.second / 3600

/-- The minute of the hour. -/
def minute (t : Instant) : Nat := t.second / 60 % 60

/-- The second of the minute; a leap second counts as the one before it. -/
def secondOfMinute (t : Instant) : Nat := t.second % 60

/-- Whether the instant lies in a leap second. -/
def isLeap (t : Instant) : Bool := decide (nanosPerSecond ≤ t.nano)

/-- The same time on the date `n` months later. -/
def addMonths? (t : Instant) (n : Int) : Option Instant :=
  (t.date.addMonths? n).map fun date => { t with date }

/-- The instant `n` seconds later. -/
def addSeconds? (t : Instant) (n : Int) : Option Instant :=
  if n = 0 then some t
  else
    let start : Int := if t.isLeap && decide (n < 0) then t.second + 1 else t.second
    let total := start + n
    (t.date.addDays? (total / secondsPerDay)).bind fun date =>
      ofParts? date (total % secondsPerDay).toNat (t.nano % nanosPerSecond)

/-! ## Text -/

/-- A number with at least `width` digits. -/
def padded (width n : Nat) : String :=
  let digits := (toString n).toList
  String.ofList (List.replicate (width - digits.length) '0' ++ digits)

/-- A year: four digits, and a sign outside the years 0 to 9999. -/
def yearText (year : Int) : String :=
  if year < 0 then "-" ++ padded 4 year.natAbs
  else if 9999 < year then "+" ++ padded 4 year.natAbs
  else padded 4 year.natAbs

/-- A date, as year, month and day. -/
def dateText (d : Date) : String :=
  yearText d.year ++ "-" ++ padded 2 d.month ++ "-" ++ padded 2 d.day

/-- The instant without its fraction of a second. -/
def text (t : Instant) : String :=
  let second := t.secondOfMinute + (if t.isLeap then 1 else 0)
  dateText t.date ++ "T" ++ padded 2 t.hour ++ ":" ++ padded 2 t.minute ++ ":" ++ padded 2 second

/-- The fraction of a second with three, six or nine decimals, the fewest that are exact. -/
def fractionText (nano : Nat) : String :=
  if nano = 0 then ""
  else if nano % 1000000 = 0 then "." ++ padded 3 (nano / 1000000)
  else if nano % 1000 = 0 then "." ++ padded 6 (nano / 1000)
  else "." ++ padded 9 nano

/-- The instant with its fraction of a second. -/
def exactText (t : Instant) : String :=
  t.text ++ fractionText (t.nano % nanosPerSecond)

/-! ## Reading -/

/-- Up to `most` digits and the text after them, if there is at least one. -/
def readDigits? (most : Nat) (cs : List Char) : Option (Nat × List Char) :=
  let digits := (cs.take most).takeWhile Char.isDigit
  if digits.isEmpty then none else some (Text.digitsValue digits, cs.drop digits.length)

/-- A field of at most `most` digits, after any blanks. -/
def readField? (most : Nat) (cs : List Char) : Option (Nat × List Char) :=
  readDigits? most (cs.dropWhile Text.isBlank)

/-- A year of up to four digits, or a sign and any number of digits, after any blanks. -/
def readYear? (cs : List Char) : Option (Int × List Char) :=
  match cs.dropWhile Text.isBlank with
  | '-' :: rest => (readDigits? rest.length rest).map fun (n, rest) => (-(n : Int), rest)
  | '+' :: rest => (readDigits? rest.length rest).map fun (n, rest) => ((n : Int), rest)
  | rest => (readDigits? 4 rest).map fun (n, rest) => ((n : Int), rest)

/-- The text after a mark that must come first. -/
def readMark? (mark : Char) : List Char → Option (List Char)
  | c :: rest => if c = mark then some rest else none
  | [] => none

/-- A date and the text after it. -/
def readDate? (cs : List Char) : Option (Date × List Char) := do
  let (year, cs) ← readYear? cs
  let cs ← readMark? '-' cs
  let (month, cs) ← readField? 2 cs
  let cs ← readMark? '-' cs
  let (day, cs) ← readField? 2 cs
  let date ← Date.ofYmd? year month day
  pure (date, cs)

/-- The fraction at the end of a time, in nanoseconds: a point with at least one digit, of which nine
count. -/
def readFraction? : List Char → Option Nat
  | [] => some 0
  | '.' :: rest =>
    if rest.isEmpty || !rest.all Char.isDigit then none
    else
      let digits := rest.take 9
      some (Text.digitsValue digits * Nat.pow 10 (9 - digits.length))
  | _ => none

/-- A time on a date, to the end of the text. -/
def readTime? (date : Date) (cs : List Char) : Option Instant := do
  let (hour, cs) ← readField? 2 cs
  let cs ← readMark? ':' cs
  let (minute, cs) ← readField? 2 cs
  let cs ← readMark? ':' cs
  let (second, cs) ← readField? 2 cs
  let nano ← readFraction? cs
  if 23 < hour || 59 < minute || 60 < second then none
  else if second = 60 then ofParts? date (3600 * hour + 60 * minute + 59) (nanosPerSecond + nano)
  else ofParts? date (3600 * hour + 60 * minute + second) nano

/-- The instant that a text names, blanks around it and marks of universal time at its end aside. A
date alone is its midnight. -/
def read? (cs : List Char) : Option Instant := do
  let cs := ((Text.trim cs).reverse.dropWhile (· == 'Z')).reverse
  let (date, rest) ← readDate? cs
  match rest with
  | [] => some (midnight date)
  | 'T' :: rest => readTime? date rest
  | _ => none

end Instant

end DesktopSearch
