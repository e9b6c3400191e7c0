/-
This file packs a literal into one 32-bit word, the sign in the lowest bit.
-/

import ParitySat.Literal

namespace ParitySat

/-- A packed literal keeps its sign in the lowest bit and its atom above it. -/
structure LiteralWord where
  code : UInt32
  deriving DecidableEq, Repr

namespace LiteralWord

/-- The highest bit of a large atom is lost. -/
def pack (atom : UInt32) (negated : Bool) : LiteralWord :=
  ⟨(atom <<< 1) ||| (if negated then 1 else 0)⟩

def atom (word : LiteralWord) : UInt32 :=
  word.code >>> 1

def negated (word : LiteralWord) : Bool :=
  word.code &&& 1 != 0

def index (word : LiteralWord) : Nat :=
  word.code.toNat

def negate (word : LiteralWord) : LiteralWord :=
  ⟨word.code ^^^ 1⟩

/-- This function negates the literal if the flag is set. -/
def flip (word : LiteralWord) (flag : Bool) : LiteralWord :=
  ⟨word.code ^^^ (if flag then 1 else 0)⟩

def ofLiteral (literal : Literal) : LiteralWord :=
  pack (UInt32.ofNat literal.atom) literal.negated

def toLiteral (word : LiteralWord) : Literal :=
  ⟨word.atom.toNat, word.negated⟩

def external (word : LiteralWord) : Int :=
  word.toLiteral.external

end LiteralWord

end ParitySat
