/-!
Limits on what a host lets programs and queries use.
-/

namespace BilingualLogic

structure Limits where
  maxFileSize : Nat := 5 * 1024 * 1024
  maxTermDepth : Nat := 100
  maxListLength : Nat := 1000000
  /-- Steps of one query; without a bound if absent. -/
  maxInferences : Option Nat := none
  /-- Milliseconds for one query; without a bound if absent. -/
  maxQueryTime : Option Nat := none
deriving DecidableEq, Repr, Inhabited

/-- Limits for input that is not trusted. -/
def Limits.untrusted : Limits where
  maxListLength := 100000
  maxInferences := some 1000000
  maxQueryTime := some 1000

end BilingualLogic
