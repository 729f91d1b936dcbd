import DeviceDescription.DescriptionError

/-! # Leases: how long a description stays valid -/
namespace DeviceDescription

/-- A span of time in whole nanoseconds. -/
structure Duration where
  nanoseconds : Nat
  deriving DecidableEq, Repr

namespace Duration

def ofSecs (secs : Nat) : Duration := ⟨secs * 1000000000⟩

def secs (d : Duration) : Nat := d.nanoseconds / 1000000000

def subsecNanos (d : Duration) : Nat := d.nanoseconds % 1000000000

def maxMillis : Nat := 9223372036854775807

/-- The whole milliseconds, as many as a signed word holds. -/
def millis (d : Duration) : Int64 := .ofNat (min (d.nanoseconds / 1000000) maxMillis)

theorem toInt_millis (d : Duration) : d.millis.toInt = min (d.nanoseconds / 1000000) maxMillis := by
  rw [millis, Int64.toInt_ofNat_of_lt]
  simp only [maxMillis]
  omega

end Duration

/-- A span of time in milliseconds that may be negative. -/
structure SignedSpan where
  millis : Int
  deriving DecidableEq, Repr

/-- The least word has no span, since no word is its negation. -/
def SignedSpan.ofMillis? (ms : Int64) : Option SignedSpan :=
  if ms = Int64.minValue then none else some ⟨ms.toInt⟩

/-- A reading of a clock that never goes back, in nanoseconds. -/
abbrev Instant := Nat

/-- A duration in force since an instant. -/
structure Lease where
  duration : Duration
  created : Instant
  deriving DecidableEq, Repr

namespace Lease

def readMaxAge (text : Text) : Except DescriptionError Duration :=
  match Numeral.read? Numeral.maxWord64 (Text.trim text) with
  | some n => .ok (.ofSecs n)
  | none => .error (.invalidMaxAge text)

def elapsed (l : Lease) (now : Instant) : Duration := ⟨now - l.created⟩

/-- What is left of a lease. It is negative once the lease has run out. -/
def remainingMillis (l : Lease) (now : Instant) : Int64 := l.duration.millis - (l.elapsed now).millis

def remainingTime? (l : Lease) (now : Instant) : Option SignedSpan := SignedSpan.ofMillis? (l.remainingMillis now)

def isExpired (l : Lease) (now : Instant) : Bool := l.remainingMillis now ≤ 0

def reset (_ : Lease) (duration : Duration) (now : Instant) : Lease := ⟨duration, now⟩

/-- A text that is no number of seconds resets nothing. -/
def resetMaxAge (l : Lease) (text : Text) (now : Instant) : Except DescriptionError Lease :=
  (readMaxAge text).map fun duration => l.reset duration now

end Lease
end DeviceDescription
