import Compendium.Time.Calendar

/-! Points in time: a date, a time of day, and an offset from universal time if one is known. -/
namespace Compendium

def second : Nat := 1000000

structure Time where
  year : Nat
  month : Nat
  day : Nat
  hour : Nat
  minute : Nat
  second : Nat
  micro : Nat
  /-- Microseconds that local time is ahead of universal time; none when that is not known. -/
  offset : Option Int
  deriving DecidableEq, Repr, Inhabited

namespace Time

/-- Microseconds since the day before year 1, on the local clock. -/
def localMicros (t : Time) : Nat :=
  (((Calendar.ordinal t.year t.month t.day * 24 + t.hour) * 60 + t.minute) * 60 + t.second) * Compendium.second +
    t.micro

/-- Microseconds since the day before year 1 in universal time; a time without offset is taken as it is. -/
def micros (t : Time) : Int := t.localMicros - t.offset.getD 0

/-- Whether two times can be put in order: both have an offset, or neither has. -/
def comparable (a b : Time) : Bool := a.offset.isSome = b.offset.isSome

/-- The time of a number of microseconds since the beginning of 1970, in universal time. -/
def ofUnixMicros (n : Nat) : Time :=
  let s := n / Compendium.second
  let day := Calendar.ofOrdinal (719163 + s / 86400)
  ⟨day.1, day.2.1, day.2.2, s / 3600 % 24, s / 60 % 60, s % 60, n % Compendium.second, some 0⟩

/-- Dates, times of day and offsets that can be written. -/
def isValid (t : Time) : Bool :=
  Calendar.isDate t.year t.month t.day && t.hour < 24 && t.minute < 60 && t.second < 60 &&
    t.micro < Compendium.second &&
    t.offset.all fun o => -(86400 * Compendium.second : Int) < o && o < 86400 * Compendium.second

end Time

end Compendium
