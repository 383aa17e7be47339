import Mathlib.Data.Rat.Defs
import Mathlib.Algebra.Order.Ring.Rat
import Signal402.Base.Python

/-!
# The paid-request deadline (`deadline.py`)

Seconds are rational numbers.  Every function takes the reading of the clock it
makes.
-/

namespace Signal402.Deadline

def settleReserveSeconds : ℚ := 10

def verifyCapSeconds : ℚ := 8

def settleCapSeconds : ℚ := 10

def minSliceSeconds : ℚ := 1 / 20

def remaining (deadline now : ℚ) : ℚ := deadline - now

def clampSlice (seconds : ℚ) : ℚ :=
  if seconds ≤ 0 then 0 else if seconds < minSliceSeconds then minSliceSeconds else seconds

/-- Time for verify, leaving a settle reserve when possible. -/
def verifyTimeout (deadline now : ℚ) : ℚ :=
  let left := remaining deadline now
  let usable := left - settleReserveSeconds
  if usable ≤ 0 then clampSlice left else min verifyCapSeconds usable

/-- Probe must finish before this so settle still has reserve. -/
def probeDeadline (deadline : ℚ) : ℚ := deadline - settleReserveSeconds

def settleTimeout (deadline now : ℚ) : ℚ :=
  let left := remaining deadline now
  if left ≤ 0 then minSliceSeconds else min settleCapSeconds left

end Signal402.Deadline
