import Lox.Document.Scan

/-!
# Days and times of day

The written form of a day, `2001-12-14`, and of a time on a day, `2001-12-14 21:59:43.1 +1:00`, and
which of them there are.
-/

namespace Lox.Document.Yaml

/-- A time of day, and how many minutes its zone is ahead. -/
structure TimeOfDay where
  hour : Nat
  minute : Nat
  second : Nat
  offset : Int
  deriving DecidableEq

/-- A day, or a time on a day. -/
structure Moment where
  year : Nat
  month : Nat
  day : Nat
  time? : Option TimeOfDay
  deriving DecidableEq

namespace Moment

/-! ### Written form -/

/-- A number that is written with so many digits, and what follows it. -/
def number? (least most : Nat) (cs : List Char) : Option (Nat × List Char) :=
  let (ds, rest) := spanDigits cs
  if least ≤ ds.length ∧ ds.length ≤ most then some (natOfDecimal ds, rest) else none

/-- What follows a character at the start of a text. -/
def after? (c : Char) (cs : List Char) : Option (List Char) :=
  match cs with
  | [] => none
  | c' :: rest => if c' = c then some rest else none

/-- The offset of a zone in minutes: none, `Z`, or hours and minutes with a sign. -/
def offset? (cs : List Char) : Option Int :=
  match cs with
  | [] => some 0
  | ['Z'] => some 0
  | c :: rest => do
    if c ≠ '+' ∧ c ≠ '-' then none
    else
      let (hours, rest) ← number? 1 2 rest
      let minutes ← match rest with
        | [] => some 0
        | rest => do
          let (minutes, rest) ← number? 2 2 (← after? ':' rest)
          if rest.isEmpty then some minutes else none
      return signed (c = '-') (hours * 60 + minutes)

/-- The time of day after a day: a `T` or blanks stand before it. -/
def timeOfDay? (cs : List Char) : Option TimeOfDay := do
  let isGap (c : Char) : Bool := c = ' ' || c = '\t'
  let clock ← match cs with
    | c :: rest =>
      if c = 'T' ∨ c = 't' then some rest
      else if isGap c then some (rest.dropWhile isGap)
      else none
    | [] => none
  let (hour, rest) ← number? 1 2 clock
  let (minute, rest) ← number? 2 2 (← after? ':' rest)
  let (second, rest) ← number? 2 2 (← after? ':' rest)
  let rest := match rest with
    | '.' :: fraction => fraction.dropWhile Char.isDigit
    | rest => rest
  let offset ← offset? (rest.dropWhile isGap)
  return ⟨hour, minute, second, offset⟩

/-- Reads a written form. Without a time of day the month and the day have two digits each. -/
def parse? (cs : List Char) : Option Moment := do
  let (year, rest) ← number? 4 4 cs
  let (month, rest) ← number? 1 2 (← after? '-' rest)
  let (day, rest) ← number? 1 2 (← after? '-' rest)
  if rest.isEmpty then
    if cs.length = "2001-12-14".length then return ⟨year, month, day, none⟩ else none
  else return ⟨year, month, day, some (← timeOfDay? rest)⟩

/-! ### The calendar -/

def isLeapYear (year : Nat) : Bool := year % 4 = 0 && (year % 100 ≠ 0 || year % 400 = 0)

def daysInMonth (year month : Nat) : Nat :=
  if month = 2 then (if isLeapYear year then 29 else 28)
  else if [4, 6, 9, 11].contains month then 30
  else 31

/-- The days there are. -/
def checkDay (m : Moment) : Except Fault Unit :=
  if m.year = 0 then .error (.outOfRange .year)
  else if ¬(1 ≤ m.month ∧ m.month ≤ 12) then .error (.outOfRange .month)
  else if ¬(1 ≤ m.day ∧ m.day ≤ daysInMonth m.year m.month) then .error (.outOfRange .day)
  else .ok ()

/-- The times of day there are. -/
def checkTime (t : TimeOfDay) : Except Fault Unit :=
  if 23 < t.hour then .error (.outOfRange .hour)
  else if 59 < t.minute then .error (.outOfRange .minute)
  else if 59 < t.second then .error (.outOfRange .second)
  else .ok ()

/-- Zones are less than a day apart from the middle one. -/
def checkOffset (t : TimeOfDay) : Except Fault Unit :=
  if t.offset.natAbs < 24 * 60 then .ok () else .error (.offsetTooLarge t.offset)

/-- The first thing that is wrong with a moment: its zone, its day, its time. -/
def check (m : Moment) : Except Fault Unit := do
  match m.time? with
  | none => m.checkDay
  | some t =>
    checkOffset t
    m.checkDay
    checkTime t

end Moment

end Lox.Document.Yaml
