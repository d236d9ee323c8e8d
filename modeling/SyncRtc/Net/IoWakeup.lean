import Mathlib.Algebra.Group.Nat.Defs
import Mathlib.Data.Finset.Basic

/-!
# The wake-up of the I/O thread

`IoWakeup.cpp`: any thread names a connection that has something to send or to close; the I/O thread takes the names
in batches. A connection that is named already is not named twice, and the eventfd is written when a name is added
or left over. Every function holds the one lock throughout, so each is one step.
-/

set_option autoImplicit false

namespace SyncRtc.Net

/-- The identity of a connection: `CServer` never uses one twice. -/
abbrev Token := Nat

structure IoWakeup where
  stopping : Bool := false
  /-- `m_pending`. -/
  pending : Finset Token := ∅
  /-- `m_ready`. -/
  ready : List Token := []
  /-- The counter of the eventfd. -/
  count : Nat := 0

namespace IoWakeup

/-- A write at this value of the counter fails with `EAGAIN`. -/
def fullCount : Nat := 2 ^ 64 - 2

/-- `IoWakeup::WakeLocked`. -/
def wakeLocked (w : IoWakeup) : IoWakeup := if w.count = fullCount then w else { w with count := w.count + 1 }

/-- `IoWakeup::Notify`. -/
def notify (w : IoWakeup) (token : Token) : Bool × IoWakeup :=
  if w.stopping then (false, w)
  else if token ∈ w.pending then (true, w)
  else (true, { w with pending := insert token w.pending, ready := w.ready ++ [token] }.wakeLocked)

/-- The loop of `IoWakeup::Take`: at most `n` more names. -/
def takeLoop : Nat → List Token → IoWakeup → List Token × IoWakeup
  | 0, batch, w => (batch, w)
  | n + 1, batch, w =>
    match w.ready with
    | [] => (batch, w)
    | token :: ready => takeLoop n (batch ++ [token]) { w with pending := w.pending.erase token, ready := ready }

/-- `IoWakeup::Take`. -/
def take (w : IoWakeup) : List Token × IoWakeup :=
  let (batch, w) := takeLoop 64 [] { w with count := 0 }
  (batch, if w.ready.isEmpty then w else w.wakeLocked)

/-- `IoWakeup::RequestStop`. -/
def requestStop (w : IoWakeup) : IoWakeup := if w.stopping then w else { w with stopping := true }.wakeLocked

end IoWakeup

end SyncRtc.Net
