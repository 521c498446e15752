import OnionCircuit.Upkeep.Signal
import OnionCircuit.Upkeep.Ticker

/-! A background loop between two rounds of its work. It watches its signal and its
ticker, and where both have something to say either may be heard first. -/

namespace OnionCircuit

structure Watch where
  signal : Signal
  ticker : Ticker
deriving DecidableEq

inductive WatchMove
  | stop
  /-- It was told of a change that does not stop it. -/
  | stay (watch : Watch)
  /-- It does one round of its work. -/
  | round (watch : Watch)
deriving DecidableEq

namespace Watch

def onNews (watch : Watch) : Option WatchMove :=
  if watch.signal.hasNews then
    let (signal, stop) := watch.signal.look
    some (if stop then .stop else .stay { watch with signal := signal })
  else none

def onTick (watch : Watch) (now : Nat) : Option WatchMove :=
  if watch.ticker.isDue now then some (.round { watch with ticker := watch.ticker.tick now }) else none

/-- What the loop may do at a time. -/
def moves (watch : Watch) (now : Nat) : List WatchMove := (watch.onTick now).toList ++ watch.onNews.toList

end Watch
end OnionCircuit
