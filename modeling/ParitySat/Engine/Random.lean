/-
This file draws random numbers from a stream of 64-bit words that a seed determines.
-/

namespace ParitySat

/-- A generator is the word at each position of the stream of a seed. -/
abbrev Generator := UInt64 → Nat → UInt64

/-- A stream remembers how many words it has given. -/
structure RandomStream where
  seed : UInt64
  drawn : Nat
  deriving DecidableEq, Repr, Inhabited

namespace RandomStream

def ofSeed (seed : UInt64) : RandomStream :=
  ⟨seed, 0⟩

def next (generator : Generator) (stream : RandomStream) : UInt64 × RandomStream :=
  (generator stream.seed stream.drawn, { stream with drawn := stream.drawn + 1 })

/-- The upper 53 bits of a word give a number from zero up to but not including one. -/
def fraction (generator : Generator) (stream : RandomStream) : Float × RandomStream :=
  let drawn := stream.next generator
  ((drawn.1 >>> 11).toFloat / 9007199254740992.0, drawn.2)

/-- The remainder of a word gives an index below the bound. -/
def below (generator : Generator) (bound : Nat) (stream : RandomStream) : Nat × RandomStream :=
  let drawn := stream.next generator
  (drawn.1.toNat % bound, drawn.2)

end RandomStream

/-- The position advances the seed by an odd step, and three shifts mix the sum. -/
def splitMix : Generator := fun seed position =>
  let sum := seed + 0x9E3779B97F4A7C15 * (UInt64.ofNat position + 1)
  let first := (sum ^^^ (sum >>> 30)) * 0xBF58476D1CE4E5B9
  let second := (first ^^^ (first >>> 27)) * 0x94D049BB133111EB
  second ^^^ (second >>> 31)

end ParitySat
