import DeviceDescription.Proofs.LeaseHistory

/-!
# How exactly the time left is told

A lease and the time that has passed are each cut to whole milliseconds, as many as a word holds. What is left is
their difference, which a word holds in any case. It is less than one millisecond off, unless a span was too long.
Leases from text last whole seconds: they expire on time to the nanosecond.
-/
namespace DeviceDescription

namespace Duration

private theorem toInt_millis_bounds (d : Duration) : 0 ≤ d.millis.toInt ∧ d.millis.toInt ≤ maxMillis := by
  rw [toInt_millis]
  omega

/-- A word of milliseconds is long enough for a span. -/
def FitsMillis (d : Duration) : Prop := d.nanoseconds ≤ maxMillis * 1000000

instance (d : Duration) : Decidable d.FitsMillis := inferInstanceAs (Decidable (_ ≤ _))

theorem FitsMillis.truncates {d : Duration} (h : d.FitsMillis) :
    d.millis.toInt * 1000000 ≤ d.nanoseconds ∧ d.nanoseconds < d.millis.toInt * 1000000 + 1000000 := by
  have hfits : d.nanoseconds / 1000000 ≤ maxMillis := Nat.div_le_of_le_mul (Nat.mul_comm .. ▸ h)
  rw [toInt_millis]
  omega

@[simp] theorem nanoseconds_ofSecs (secs : Nat) : (ofSecs secs).nanoseconds = secs * 1000000000 := rfl

/-- Nothing is cut off from whole seconds, unless they are too many. -/
theorem toInt_millis_ofSecs (secs : Nat) : (ofSecs secs).millis.toInt = min (secs * 1000) maxMillis := by
  have hmillis : (ofSecs secs).nanoseconds / 1000000 = secs * 1000 := by
    rw [nanoseconds_ofSecs]
    omega
  rw [toInt_millis, hmillis, Nat.cast_min, Nat.cast_mul, Nat.cast_ofNat]

end Duration

namespace Lease

theorem exists_ofSecs_of_readMaxAge {text : Text} {d : Duration} (h : readMaxAge text = .ok d) :
    ∃ secs, d = .ofSecs secs := by
  rw [readMaxAge] at h
  split at h
  · exact ⟨_, (Except.ok.inj h).symm⟩
  · cases h

variable (l : Lease) (now : Instant)

/-- The nanoseconds that are left, or that have passed since none was left. -/
def exactlyLeft : Int := l.duration.nanoseconds - (l.elapsed now).nanoseconds

private theorem abs_toInt_remainingMillis_le : |(l.remainingMillis now).toInt| ≤ Duration.maxMillis := by
  have hduration := l.duration.toInt_millis_bounds
  have helapsed := (l.elapsed now).toInt_millis_bounds
  rw [toInt_remainingMillis, abs_le]
  omega

/-- The two errors have the same sign, so they do not add up. -/
theorem abs_remainingMillis_sub_lt (hduration : l.duration.FitsMillis) (helapsed : (l.elapsed now).FitsMillis) :
    |(l.remainingMillis now).toInt * 1000000 - l.exactlyLeft now| < 1000000 := by
  have hd := hduration.truncates
  have he := helapsed.truncates
  rw [toInt_remainingMillis, exactlyLeft, abs_lt]
  omega

theorem isExpired_iff : l.isExpired now = true ↔ l.duration.millis.toInt ≤ (l.elapsed now).millis.toInt := by
  rw [isExpired, decide_eq_true_iff, Int64.le_iff_toInt_le, toInt_remainingMillis, Int64.toInt_zero]
  omega

/-- A lease of too many seconds is not over before a word of milliseconds has passed. -/
theorem isExpired_iff_of_ofSecs {secs : Nat} (hsecs : l.duration = .ofSecs secs)
    (helapsed : (l.elapsed now).nanoseconds < Duration.maxMillis * 1000000) :
    l.isExpired now = true ↔ l.duration.nanoseconds ≤ (l.elapsed now).nanoseconds := by
  have hcut := Duration.FitsMillis.truncates (Nat.le_of_lt helapsed)
  have hbelow : (l.elapsed now).millis.toInt < Duration.maxMillis := by omega
  rw [isExpired_iff, hsecs, Duration.toInt_millis_ofSecs, Duration.nanoseconds_ofSecs]
  omega

/-- Whatever the spans are, their difference in milliseconds is a word, never the least one, and so it can be shown.
If a word of milliseconds is long enough for both, it is less than one millisecond off. A lease whose length was read
from a text is shown as expired exactly if all of it has passed, as long as a word tells what has passed. -/
theorem remainingMillis_bounded_accurate :
    (l.remainingMillis now).toInt = l.duration.millis.toInt - (l.elapsed now).millis.toInt ∧
    -Int64.maxValue.toInt ≤ (l.remainingMillis now).toInt ∧
    (l.remainingMillis now).toInt ≤ Int64.maxValue.toInt ∧
    l.remainingTime? now = some ⟨(l.remainingMillis now).toInt⟩ ∧
    (l.duration.FitsMillis → (l.elapsed now).FitsMillis →
      |(l.remainingMillis now).toInt * 1000000 - l.exactlyLeft now| < 1000000) ∧
    ∀ text, readMaxAge text = .ok l.duration → (l.elapsed now).nanoseconds < Duration.maxMillis * 1000000 →
      (l.isExpired now = true ↔ l.duration.nanoseconds ≤ (l.elapsed now).nanoseconds) := by
  have hword : Int64.maxValue.toInt = Duration.maxMillis := by decide
  have hbounds := abs_le.mp (abs_toInt_remainingMillis_le l now)
  rw [hword]
  refine ⟨toInt_remainingMillis l now, hbounds.1, hbounds.2, remainingTime?_eq l now,
    abs_remainingMillis_sub_lt l now, ?_⟩
  intro text htext helapsed
  obtain ⟨secs, hsecs⟩ := exists_ofSecs_of_readMaxAge htext
  exact isExpired_iff_of_ofSecs l now hsecs helapsed

/-- A short lease is a nanosecond short of being told a millisecond wrong, and the longest one from a text is in force
as long as a word counts its milliseconds. -/
theorem remainingMillis_bounded_accurate_extremes :
    (∃ l : Lease, l.duration.FitsMillis ∧ (l.elapsed 3000000).FitsMillis ∧ l.exactlyLeft 3000000 = -1000001 ∧
      |(l.remainingMillis 3000000).toInt * 1000000 - l.exactlyLeft 3000000| < 1000000) ∧
    ∃ (l : Lease) (now : Instant), readMaxAge " +18446744073709551615 " = .ok l.duration ∧
      (l.elapsed now).nanoseconds + 1 = Duration.maxMillis * 1000000 ∧ l.isExpired now = false := by
  constructor
  · let l : Lease := ⟨⟨1999999⟩, 0⟩
    have hduration : l.duration.FitsMillis := by decide
    have helapsed : (l.elapsed 3000000).FitsMillis := by decide
    obtain ⟨-, -, -, -, haccurate, -⟩ := remainingMillis_bounded_accurate l 3000000
    exact ⟨l, hduration, helapsed, by decide, haccurate hduration helapsed⟩
  · let l : Lease := ⟨.ofSecs 18446744073709551615, 5⟩
    let now : Instant := 5 + (Duration.maxMillis * 1000000 - 1)
    have htext : readMaxAge " +18446744073709551615 " = .ok l.duration := by decide
    have helapsed : (l.elapsed now).nanoseconds + 1 = Duration.maxMillis * 1000000 := by decide
    obtain ⟨-, -, -, -, -, hexpired⟩ := remainingMillis_bounded_accurate l now
    have hiff := hexpired _ htext (Nat.lt_of_succ_le helapsed.le)
    refine ⟨l, now, htext, helapsed, ?_⟩
    rw [← Bool.not_eq_true, hiff]
    decide

end Lease
end DeviceDescription
