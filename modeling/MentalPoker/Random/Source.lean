/-
Sources of randomness. A source is a value: drawing gives a word and the source that follows, so
that whoever holds equal sources draws equal words. Every other draw of the protocol is made of
64-bit words; `below` draws an index without bias.

A draw that is rejected is repeated, up to a limit. What is proved of every source is proved of those
too that come to the limit: of these it is about the draw that counts there, and says nothing about a
loop without a limit, which goes on, and comes to no end if all words are rejected.
-/

namespace MentalPoker

/-- A source of random 64-bit words. Nothing is asked of the words. -/
class RandomSource (γ : Type) where
  nextUInt64 : γ → UInt64 × γ

namespace RandomSource

variable {γ : Type} [RandomSource γ]

/-- The number of different words. -/
def wordCount : Nat := 0x10000000000000000

/-- The number whose words, the lowest first, are the next `count`. -/
def nextWords (count : Nat) (source : γ) : Nat × γ :=
  match count with
  | 0 => (0, source)
  | count + 1 =>
    let (low, source) := nextUInt64 source
    let (high, source) := nextWords count source
    (low.toNat + wordCount * high, source)

/-- Repeats a draw until it is accepted, at most `attempts` more times; the last one counts in any
case. -/
def drawUntil {α : Type} (accept : α → Bool) (draw : γ → α × γ) : (attempts : Nat) → γ → α × γ
  | 0, source => draw source
  | attempts + 1, source =>
    let (a, source) := draw source
    if accept a then (a, source) else drawUntil accept draw attempts source

/-- How often a rejected draw is repeated. A draw is rejected with a probability of at most one
half, so that a thousand rejections in a row do not happen to random words. From a source to whose
words they do happen, the next draw counts, where a loop without a limit goes on. -/
def maxAttempts : Nat := 1000

/-- An index below `bound`, for `0 < bound < 2 ^ 64`. A word `v` stands for the index
`v * bound / 2 ^ 64`. Words are accepted up to a bound on the remainder of that division, so that
each index stands for equally many of them, as long as no draw is made at the limit `maxAttempts`. -/
def below (bound : Nat) (source : γ) : Nat × γ :=
  let zone := bound <<< (63 - bound.log2) - 1
  let (product, source) := drawUntil (fun product => product % wordCount ≤ zone)
    (fun source => let (v, source) := nextUInt64 source; (v.toNat * bound, source))
    maxAttempts source
  (product / wordCount, source)

end RandomSource

end MentalPoker
