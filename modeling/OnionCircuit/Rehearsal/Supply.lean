/-! Random words for rehearsals: first those that were laid out, then those of a fixed
sequence without repetitions. -/

namespace OnionCircuit

structure Supply where
  laidOut : List UInt32 := []
  /-- How many words of the sequence are used up. -/
  used : Nat := 0

namespace Supply

def sequence (index : Nat) : UInt32 := UInt32.ofNat (index * 2654435761 + 305419896)

/-- The words that come next, at least so many. -/
def next (supply : Supply) (count : Nat) : List UInt32 :=
  supply.laidOut ++ (List.range count).map fun index => sequence (supply.used + index)

def skip (supply : Supply) (count : Nat) : Supply :=
  ⟨supply.laidOut.drop count, supply.used + (count - supply.laidOut.length)⟩

/-- Draws with the words that come next; what is left of them stays for later. -/
def draw? (supply : Supply) (count : Nat) (draw : List UInt32 → Option (α × List UInt32)) : Option (α × Supply) := do
  let words := supply.next count
  let (value, rest) ← draw words
  return (value, supply.skip (words.length - rest.length))

end Supply
end OnionCircuit
