import SnippetRunner.Decimal.Reading
import SnippetRunner.Text.Basic

/-!
# Dates and times

A moment is a date, a time of day, or both; one with both may say how far its clock is ahead of
universal time. A `Date` is a day that its month has, and a `Time` is one that a clock can show,
leap seconds included.

`moment?` reads a moment: `1979-05-27`, `07:32:00`, `1979-05-27T07:32:00.999+01:00`.
-/

namespace SnippetRunner.Toml

open Text Decimal

/-- Whether a year has a day more than others. -/
def isLeap (year : Nat) : Bool := year % 4 = 0 && (year % 100 ≠ 0 || year % 400 = 0)

/-- How many days a month has. -/
def daysIn (year month : Nat) : Nat :=
  if month = 2 then if isLeap year then 29 else 28
  else if [4, 6, 9, 11].contains month then 30
  else 31

/-- A day of a year. -/
structure Date where
  year : Nat
  month : Nat
  day : Nat
  month_mem : 1 ≤ month ∧ month ≤ 12
  day_mem : 1 ≤ day ∧ day ≤ daysIn year month
  deriving DecidableEq, Repr

/-- A time of day. -/
structure Time where
  hour : Nat
  minute : Nat
  second : Nat
  /-- Billionths of a second, a further fraction cut off. -/
  nanosecond : Nat
  hour_lt : hour < 24
  minute_lt : minute < 60
  /-- A minute with a leap second has 61. -/
  second_le : second ≤ 60
  deriving DecidableEq, Repr

/-- A date, a time, or both. -/
inductive Moment
  | date (d : Date)
  | time (t : Time)
  /-- Both, with the minutes by which the clock is ahead of universal time, if that is said. -/
  | both (d : Date) (t : Time) (ahead : Option Int)
  deriving DecidableEq, Repr

/-- The date of the given numbers, if there is one. -/
def Date.ofNumbers? (year month day : Nat) : Option Date :=
  if h : (1 ≤ month ∧ month ≤ 12) ∧ 1 ≤ day ∧ day ≤ daysIn year month then
    some ⟨year, month, day, h.1, h.2⟩
  else none

/-- The time of the given numbers, if there is one. -/
def Time.ofNumbers? (hour minute second nanosecond : Nat) : Option Time :=
  if h : hour < 24 ∧ minute < 60 ∧ second ≤ 60 then
    some ⟨hour, minute, second, nanosecond, h.1, h.2.1, h.2.2⟩
  else none

/-! ## Reading -/

/-- The number that exactly `count` digits spell. -/
def fixedNumber? (count : Nat) (cs : List Char) : Option (Nat × List Char) :=
  let digits := cs.take count
  if digits.length = count && digits.all Char.isDigit then
    some (digitsValue 10 digits, cs.drop count)
  else none

/-- The date that the text starts with. -/
def date? (cs : List Char) : Option (Date × List Char) := do
  let (year, rest) ← fixedNumber? 4 cs
  let (month, rest) ← fixedNumber? 2 (← afterLead? ['-'] rest)
  let (day, rest) ← fixedNumber? 2 (← afterLead? ['-'] rest)
  return (← Date.ofNumbers? year month day, rest)

/-- The hour and the minute that the text starts with. -/
def clock? (cs : List Char) : Option (Nat × Nat × List Char) := do
  let (hour, rest) ← fixedNumber? 2 cs
  let (minute, rest) ← fixedNumber? 2 (← afterLead? [':'] rest)
  return (hour, minute, rest)

/-- The digits of a fraction of a second, if there is one. -/
def secondFraction : List Char → List Char
  | '.' :: rest => rest.takeWhile Char.isDigit
  | _ => []

/-- The time that the text starts with. -/
def time? (cs : List Char) : Option (Time × List Char) := do
  let (hour, minute, rest) ← clock? cs
  let (second, rest) ← fixedNumber? 2 (← afterLead? [':'] rest)
  let fraction := secondFraction rest
  let nanosecond := digitsValue 10 ((fraction ++ List.replicate 9 '0').take 9)
  return (← Time.ofNumbers? hour minute second nanosecond,
    if fraction.isEmpty then rest else rest.drop (fraction.length + 1))

/-- The minutes ahead of universal time that the text starts with. -/
def ahead? : List Char → Option (Int × List Char)
  | c :: rest =>
    if c = 'Z' || c = 'z' then some (0, rest)
    else if c = '+' || c = '-' then do
      let (hour, minute, rest) ← clock? rest
      let minutes : Int := hour * 60 + minute
      if hour < 24 ∧ minute < 60 then return (if c = '-' then -minutes else minutes, rest) else none
    else none
  | [] => none

/-- The time behind a date, with what stands between them. -/
def timeBehindDate? : List Char → Option (Time × List Char)
  | c :: rest => if c = 'T' || c = 't' || c = ' ' then time? rest else none
  | [] => none

/-- The moment that the text starts with. -/
def moment? (cs : List Char) : Option (Moment × List Char) :=
  match date? cs with
  | none => (time? cs).map fun (t, rest) => (.time t, rest)
  | some (d, rest) =>
    match timeBehindDate? rest with
    | none => some (.date d, rest)
    | some (t, rest) =>
      match ahead? rest with
      | none => some (.both d t none, rest)
      | some (minutes, rest) => some (.both d t (some minutes), rest)

end SnippetRunner.Toml
