/-! The signal that stops background work. A watcher is told of every change it has not
seen yet, and when nobody is left who could raise the signal. -/

namespace OnionCircuit

structure Signal where
  raised : Bool := false
  /-- Whether it was set since the watcher looked. -/
  unseen : Bool := false
  /-- Whether somebody can still set it. -/
  held : Bool := true
deriving DecidableEq

namespace Signal

def set (signal : Signal) (raised : Bool) : Signal := { signal with raised := raised, unseen := true }

def release (signal : Signal) : Signal := { signal with held := false }

/-- Whether a watcher has something to look at. -/
def hasNews (signal : Signal) : Bool := signal.unseen || !signal.held

/-- The signal after a look, and whether the watcher has to stop. -/
def look (signal : Signal) : Signal × Bool :=
  if signal.unseen then ({ signal with unseen := false }, signal.raised) else (signal, true)

end Signal
end OnionCircuit
