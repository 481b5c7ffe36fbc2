import ScriptToolchain.Number.Binary
import ScriptToolchain.Number.Fixed

/-!
# Durations

How long something took, as a reader is told: milliseconds below a second,
seconds below a minute, then minutes and seconds. From a second on the time is
a number of the 64-bit format, and each step of the calculation rounds to it.
-/

namespace ScriptToolchain

/-- A span of time; a billion nanoseconds or more count as further seconds. -/
structure Duration where
  seconds : Nat
  nanoseconds : Nat := 0
deriving Repr, DecidableEq

namespace Duration

/-- The number of nanoseconds in a second. -/
def nanosecondsPerSecond : Nat := 1000000000

/-- The duration with less than a second in nanoseconds. -/
def carried (d : Duration) : Duration :=
  { seconds := d.seconds + d.nanoseconds / nanosecondsPerSecond
    nanoseconds := d.nanoseconds % nanosecondsPerSecond }

/-- The number of whole milliseconds. -/
def milliseconds (d : Duration) : Nat :=
  d.seconds * 1000 + d.nanoseconds / 1000000

/-- The number of the 64-bit format nearest to `x`. -/
def nearest (x : Rat) : Rat :=
  (BinaryFormat.binary64.nearest? x).getD x

/-- The time in seconds. -/
def inSeconds (d : Duration) : Rat :=
  let d := d.carried
  nearest (nearest d.seconds + nearest (mkRat d.nanoseconds nanosecondsPerSecond))

/-- Minutes and the seconds that are left over; rounding may leave less than none. -/
def minutesAndSeconds (seconds : Rat) : Int × Rat :=
  let minutes := (nearest (seconds / 60)).floor
  (minutes, nearest (seconds - nearest (minutes * 60)))

/-- The duration for a reader. -/
def text (d : Duration) : String :=
  if d.milliseconds < 1000 then s!"{d.milliseconds} ms"
  else
    let seconds := d.inSeconds
    if seconds < 60 then s!"{(Numeral.fixed 3 seconds).text} s"
    else
      let (minutes, rest) := minutesAndSeconds seconds
      s!"{minutes} min {(Numeral.fixed 1 rest).text} s"

end Duration

end ScriptToolchain
