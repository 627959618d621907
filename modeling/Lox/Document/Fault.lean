import Lox.Text.Quoted

/-!
# Texts without a document

Why a text cannot be read as a document. Most texts do not have the form of their notation; the
other causes concern single values that have the form of a number, a character or a date.
-/

namespace Lox.Document

/-- The parts of a date and of a time of day, each of which has a range. -/
inductive CalendarField
  | year
  | month
  | day
  | hour
  | minute
  | second
  deriving DecidableEq

namespace CalendarField

/-- What is said of a part that is outside its range. The only year outside is 0. -/
def message : CalendarField → String
  | year => "year 0 is out of range"
  | month => "month must be in 1..12"
  | day => "day is out of range for month"
  | hour => "hour must be in 0..23"
  | minute => "minute must be in 0..59"
  | second => "second must be in 0..59"

end CalendarField

/-- Why there is no document. -/
inductive Fault
  /-- The text does not have the form of its notation. -/
  | malformed
  /-- An integer has more decimal digits than are read. -/
  | tooManyDigits (count : Nat)
  /-- No digits of the base stand where an integer is announced. -/
  | notAnInteger (base : Nat) (digits : String)
  /-- No decimal stands where a number is announced. -/
  | notAReal (text : String)
  /-- An escape names a character by a number that no character has. -/
  | notACodePoint (code : Nat)
  | outOfRange (field : CalendarField)
  /-- A time zone is a day or more away. -/
  | offsetTooLarge (minutes : Int)
  deriving DecidableEq

/-- Integers with more decimal digits than this are neither read nor written. -/
def maxIntegerDigits : Nat := 4300

namespace Fault

/-- The numbers that fit a signed word of 32 bits, in which characters are counted. -/
def fitsWord (code : Nat) : Bool := code < Nat.pow 2 31

/-- Whether the fault is a number beyond what it can be counted in. -/
def isOverflow : Fault → Bool
  | notACodePoint code => !fitsWord code
  | _ => false

/-- A span of time in days and seconds, the seconds not negative. -/
def spanText (minutes : Int) : String :=
  let days := minutes / (24 * 60)
  let seconds := minutes % (24 * 60) * 60
  "datetime.timedelta(days=" ++ toString days
    ++ (if seconds = 0 then "" else ", seconds=" ++ toString seconds) ++ ")"

/-- The wording of a fault; the form of a text is not commented on. -/
def message? : Fault → Option String
  | malformed => none
  | tooManyDigits count =>
    some ("Exceeds the limit (" ++ toString maxIntegerDigits
      ++ " digits) for integer string conversion: value has " ++ toString count
      ++ " digits; use sys.set_int_max_str_digits() to increase the limit")
  | notAnInteger base digits =>
    some ("invalid literal for int() with base " ++ toString base ++ ": " ++ Text.quoted digits)
  | notAReal text => some ("could not convert string to float: " ++ Text.quoted text)
  | notACodePoint code =>
    some (if fitsWord code then "chr() arg not in range(0x110000)"
      else "Python int too large to convert to C int")
  | outOfRange field => some field.message
  | offsetTooLarge minutes =>
    some ("offset must be a timedelta strictly between -timedelta(hours=24) and "
      ++ "timedelta(hours=24), not " ++ spanText minutes ++ ".")

end Fault

end Lox.Document
