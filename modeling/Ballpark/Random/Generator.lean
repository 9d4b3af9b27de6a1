import Ballpark.Random.Source
import Ballpark.Scalar.Machine

/-!
# The generator

A random source of machine numbers: a counter with a fixed stride whose values are mixed to 64 bits,
of which 53 make a uniform number. A normal number is the sum of twelve uniform ones less six. Numbers
that are given beforehand are used up first.
-/

namespace Ballpark

/-- The state of the generator. -/
structure Generator where
  counter : UInt64
  /-- uniform numbers to use first -/
  givenUniforms : List Float
  /-- normal numbers to use first -/
  givenNormals : List Float

namespace Generator

/-- The distance between two values of the counter. -/
def stride : UInt64 := 0x9E3779B97F4A7C15

/-- Mixes the bits of a counter. -/
def mix (x : UInt64) : UInt64 :=
  let x := (x ^^^ (x >>> 30)) * 0xBF58476D1CE4E5B9
  let x := (x ^^^ (x >>> 27)) * 0x94D049BB133111EB
  x ^^^ (x >>> 31)

/-- The number from zero up to one that 53 bits make. -/
def fraction (bits : UInt64) : Float :=
  bits.toFloat / 9007199254740992

/-- The next number of the counter. -/
def next (g : Generator) : Float × Generator :=
  let counter := g.counter + stride
  (fraction (mix counter >>> 11), { g with counter })

/-- The total of the next `n` numbers. -/
def nextTotal : Nat → Float → Generator → Float × Generator
  | 0, sum, g => (sum, g)
  | n + 1, sum, g =>
    let (x, g) := g.next
    nextTotal n (sum + x) g

/-- A uniform number. -/
def uniform (g : Generator) : Float × Generator :=
  match g.givenUniforms with
  | x :: rest => (x, { g with givenUniforms := rest })
  | [] => g.next

/-- A normal number. -/
def normal (g : Generator) : Float × Generator :=
  match g.givenNormals with
  | z :: rest => (z, { g with givenNormals := rest })
  | [] =>
    -- the total of twelve uniform numbers has variance one
    let (sum, g) := nextTotal 12 0 g
    (sum - 6, g)

/-- The generator of a seed, which counts modulo the range of the counter. -/
def ofSeed (seed : Int) : Generator :=
  ⟨UInt64.ofNat (seed % 18446744073709551616).toNat, [], []⟩

end Generator

instance : RandomSource Generator Float where
  uniform := Generator.uniform
  normal := Generator.normal
  seeded := Generator.ofSeed

end Ballpark
