import Mathlib

/-!
# Addresses and time

The types of Rust's standard library that every program of the repository uses:
`Ipv4Addr`, and `Instant` and `Duration`, which count nanoseconds.
-/

namespace PpcaNetwork

/-- An IPv4 address: the source's `[u8; 4]`. -/
structure Ipv4Addr where
  /-- First octet. -/
  a : UInt8
  /-- Second octet. -/
  b : UInt8
  /-- Third octet. -/
  c : UInt8
  /-- Fourth octet. -/
  d : UInt8
  deriving DecidableEq, Repr, Inhabited

/-- A point in time, in nanoseconds. -/
abbrev Instant := Nat

/-- A length of time, in nanoseconds. -/
abbrev Duration := Nat

/-- `Duration::from_secs`. -/
def Duration.fromSecs (n : Nat) : Duration := n * 1000000000

end PpcaNetwork
