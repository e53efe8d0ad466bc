import Tenure.Balance.Generator

/-!
# A generator of 64-bit words

A counter advances by a fixed odd step, and each word is the counter with its bits
mixed. A word gives a place by its remainder and an exponential draw as the negative
logarithm of a uniform one.
-/

namespace Tenure

open Numeric

/-- A counter whose mixed values are the words drawn. -/
structure SplitMix where
  counter : UInt64

namespace SplitMix

/-- Mixes the bits of a word. -/
def mix (word : UInt64) : UInt64 :=
  let word := (word ^^^ (word >>> 30)) * 0xBF58476D1CE4E5B9
  let word := (word ^^^ (word >>> 27)) * 0x94D049BB133111EB
  word ^^^ (word >>> 31)

/-- The next word. -/
def next (g : SplitMix) : UInt64 × SplitMix :=
  let counter := g.counter + 0x9E3779B97F4A7C15
  (mix counter, ⟨counter⟩)

/-- The negative logarithm of the part of one that the 53 high bits of a word leave. -/
def exponentialOf (word : UInt64) : Binary64 :=
  let uniform := (word >>> 11).toFloat / 9007199254740992.0
  .ofBits (-(Float.log (1.0 - uniform))).toBits.toNat

instance : Generator SplitMix where
  place g last :=
    let (word, g) := g.next
    (Fin.ofNat (last + 1) word.toNat, g)
  exponential g :=
    let (word, g) := g.next
    (exponentialOf word, g)

/-- Generators seeded one after the other from a start. -/
def entropy (start : UInt64) : Entropy SplitMix :=
  { seed := fun k => ⟨mix (mix (start + UInt64.ofNat k))⟩ }

end SplitMix

end Tenure
