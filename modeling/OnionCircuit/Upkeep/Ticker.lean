/-! Ticks at a fixed distance, the first at once. A tick that is seen late by more than
the tolerance moves all later ones, so that ticks never come in a burst. -/

namespace OnionCircuit

/-- A distance of zero between ticks. -/
structure ZeroPeriod where

def ZeroPeriod.message (_ : ZeroPeriod) : String := "`period` must be non-zero."

/-- Times are in milliseconds. -/
structure Ticker where
  period : Nat
  due : Nat
deriving DecidableEq

namespace Ticker

def tolerance : Nat := 5

def start (period now : Nat) : Except ZeroPeriod Ticker := if period = 0 then .error ⟨⟩ else .ok ⟨period, now⟩

def isDue (ticker : Ticker) (now : Nat) : Bool := ticker.due ≤ now

/-- The ticker after the tick that was due is seen. -/
def tick (ticker : Ticker) (now : Nat) : Ticker :=
  if ticker.due + tolerance < now then { ticker with due := now + ticker.period }
  else { ticker with due := ticker.due + ticker.period }

end Ticker
end OnionCircuit
