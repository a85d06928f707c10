import Mathlib.Tactic

/-!
Return codes.

The functions of the runtime and of the HAL library return `0` or a (negated)
error number; the model returns `Except Errno` or an `Option Errno`, `none` being
the return value `0`.
-/

namespace MachinekitHal

/-- The error numbers the modelled functions return. -/
inductive Errno where
  | EAGAIN | ERANGE | EINVAL | ENOENT | EEXIST | EBUSY | ENOMEM | EPERM | E2BIG
  deriving DecidableEq

/-- The number behind the name, where a return value is an `int` of the code. -/
def Errno.code : Errno → ℤ
  | .EPERM => 1
  | .ENOENT => 2
  | .E2BIG => 7
  | .EAGAIN => 11
  | .ENOMEM => 12
  | .EBUSY => 16
  | .EEXIST => 17
  | .EINVAL => 22
  | .ERANGE => 34

lemma Errno.code_pos (e : Errno) : 0 < e.code := by
  cases e <;> decide

end MachinekitHal
