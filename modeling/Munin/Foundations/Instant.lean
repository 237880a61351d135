import Mathlib.Data.Int.Notation
import Mathlib.Data.Nat.Notation

/-!
# Instants and their ISO text

A JavaScript `Date` that is not invalid is a number of milliseconds since 1970. Its
`toISOString` is the proleptic Gregorian date and time in UTC; years outside `0000`–`9999` are
written with a sign and six digits.
-/

namespace Foundations

/-- A moment, in milliseconds since the epoch. -/
abbrev Instant := ℤ

namespace Instant

/-- The decimal digits of `n`, at least `width` of them. -/
def padded (width n : ℕ) : List Char :=
  let digits := (toString n).toList
  List.replicate (width - digits.length) '0' ++ digits

/-- Year, month and day of a day number, counting days from the epoch. Years are counted from
March, so that leap days end them. -/
def civil (day : ℤ) : ℤ × ℕ × ℕ :=
  let z := day + 719468
  let era := z / 146097
  let doe := (z % 146097).toNat
  let yoe := (doe - doe / 1460 + doe / 36524 - doe / 146096) / 365
  let doy := doe - (365 * yoe + yoe / 4 - yoe / 100)
  let mp := (5 * doy + 2) / 153
  let d := doy - (153 * mp + 2) / 5 + 1
  let m := if mp < 10 then mp + 3 else mp - 9
  let y := (yoe : ℤ) + era * 400
  (if m ≤ 2 then y + 1 else y, m, d)

/-- The year part of the ISO text. -/
def yearText (y : ℤ) : List Char :=
  if 0 ≤ y ∧ y ≤ 9999 then padded 4 y.toNat
  else (if y < 0 then '-' else '+') :: padded 6 y.natAbs

/-- `date.toISOString()`. -/
def toISOString (t : Instant) : String :=
  let (y, m, d) := civil (t / 86400000)
  let ms := (t % 86400000).toNat
  .ofList (yearText y ++ '-' :: padded 2 m ++ '-' :: padded 2 d ++ 'T' ::
    padded 2 (ms / 3600000) ++ ':' :: padded 2 (ms / 60000 % 60) ++ ':' ::
    padded 2 (ms / 1000 % 60) ++ '.' :: padded 3 (ms % 1000) ++ ['Z'])

example : toISOString 1709210096789 = "2024-02-29T12:34:56.789Z" := by decide

end Instant

end Foundations
