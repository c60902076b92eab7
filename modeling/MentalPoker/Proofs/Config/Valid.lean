/-
Valid configurations. A configuration is valid if a deal can be played with it and nobody polls without a pause.
Giving everything the same polling interval touches the pauses alone, and leaves none only where the number of
milliseconds is a multiple of 2⁶⁴: the least milliseconds are one, but 64 bits of a larger number may be zero.
-/
import MentalPoker.Config.Basic
import Mathlib.Algebra.Order.Ring.Nat

namespace MentalPoker

namespace Config

variable {config other : Config}

/-! ## What validity says -/

/-- Apart from its polling intervals nothing is wrong with the configuration. -/
structure Playable (config : Config) : Prop where
  players : 2 ≤ config.minPlayers
  cards : 0 < config.cardsPerPlayer
  deck : config.minPlayers * config.cardsPerPlayer ≤ Deck.fullSize
  room : config.protocolPrefix.utf8ByteSize + longestTag + 1 < config.maxCategoryLength

/-- Nobody polls without a pause. -/
structure Pauses (config : Config) : Prop where
  keyExchange : config.keyExchangeInterval ≠ 0
  shuffle : config.shuffleInterval ≠ 0
  decryption : config.decryptionInterval ≠ 0
  session : config.sessionInterval ≠ 0

theorem pauses_iff : config.Pauses ↔ ¬ (config.keyExchangeInterval = 0 ∨ config.shuffleInterval = 0 ∨
    config.decryptionInterval = 0 ∨ config.sessionInterval = 0) := by
  simp only [not_or]
  exact ⟨fun ⟨k, s, d, t⟩ => ⟨k, s, d, t⟩, fun ⟨k, s, d, t⟩ => ⟨k, s, d, t⟩⟩

/-- The number of cards needed is compared before it can leave the range of a setting. -/
theorem deck_fits_iff : ¬ Deck.fullSize < min (config.cardsPerPlayer * config.minPlayers) maxSetting ↔
    config.minPlayers * config.cardsPerPlayer ≤ Deck.fullSize := by
  have size : Deck.fullSize < maxSetting := by decide
  rw [Nat.mul_comm config.minPlayers]
  omega

theorem valid_iff : config.Valid ↔ config.Playable ∧ config.Pauses := by
  unfold Valid fault?
  dsimp only
  split_ifs with few none many tight zero
  · exact iff_of_false nofun fun h => absurd h.1.players (by omega)
  · exact iff_of_false nofun fun h => absurd h.1.cards (by omega)
  · exact iff_of_false nofun fun h => absurd many (deck_fits_iff.2 h.1.deck)
  · exact iff_of_false nofun fun h => absurd h.1.room (by omega)
  · exact iff_of_false nofun fun h => absurd zero (pauses_iff.1 h.2)
  · exact iff_of_true rfl ⟨⟨by omega, by omega, deck_fits_iff.1 many, by omega⟩, pauses_iff.2 zero⟩

/-- Where a deal can be played, only a missing pause can be wrong. -/
theorem Playable.fault? (playable : config.Playable) (hasty : ¬ config.Pauses) :
    config.fault? = some .zeroInterval := by
  unfold Config.fault?
  dsimp only
  rw [if_neg (by have := playable.players; omega), if_neg (by have := playable.cards; omega),
    if_neg (deck_fits_iff.2 playable.deck), if_neg (by have := playable.room; omega),
    if_pos (not_not.1 (mt pauses_iff.2 hasty))]

/-- There is a byte for the game behind the longest tag. -/
theorem Valid.spare (valid : config.Valid) :
    config.protocolPrefix.utf8ByteSize + longestTag + 1 < config.maxCategoryLength :=
  (valid_iff.1 valid).1.room

theorem Valid.two_le (valid : config.Valid) : 2 ≤ config.minPlayers := (valid_iff.1 valid).1.players

theorem Valid.cards_pos (valid : config.Valid) : 0 < config.cardsPerPlayer := (valid_iff.1 valid).1.cards

/-- One deck is enough for all hands. -/
theorem Valid.cards_fit (valid : config.Valid) : config.minPlayers * config.cardsPerPlayer ≤ Deck.fullSize :=
  (valid_iff.1 valid).1.deck

/-- What is dealt to as many players as are needed, or fewer, is counted by a word. -/
theorem Valid.counted (valid : config.Valid) {players : Nat} (few : players ≤ config.minPlayers) :
    players * config.cardsPerPlayer < UInt64.size :=
  ((Nat.mul_le_mul_right _ few).trans valid.cards_fit).trans_lt (by decide)

theorem validate_of_valid (valid : config.Valid) : config.validate = .ok config := by
  have none : config.fault? = none := valid
  rw [validate, none]

theorem validate_of_fault {fault : ConfigFault} (found : config.fault? = some fault) :
    config.validate = .error (.invalidConfig fault) := by
  rw [validate, found]

/-! ## One interval for everything -/

/-- The other configuration polls at one interval of so many milliseconds, and is the same besides. -/
structure Paced (config other : Config) (milliseconds : Nat) : Prop where
  keyExchange : other.keyExchangeInterval.toNat = milliseconds
  shuffle : other.shuffleInterval.toNat = milliseconds
  decryption : other.decryptionInterval.toNat = milliseconds
  session : other.sessionInterval.toNat = milliseconds
  protocolPrefix : other.protocolPrefix = config.protocolPrefix
  maxCategoryLength : other.maxCategoryLength = config.maxCategoryLength
  minPlayers : other.minPlayers = config.minPlayers
  cardsPerPlayer : other.cardsPerPlayer = config.cardsPerPlayer

theorem withInterval_paced (config : Config) (span : Span) :
    config.Paced (config.withInterval span) (max span.milliseconds 1 % 2 ^ 64) := by
  have narrowed : (UInt64.ofNat (max span.milliseconds 1)).toNat = max span.milliseconds 1 % 2 ^ 64 :=
    UInt64.toNat_ofNat'
  exact ⟨narrowed, narrowed, narrowed, narrowed, rfl, rfl, rfl, rfl⟩

theorem Paced.playable {milliseconds : Nat} (paced : config.Paced other milliseconds) (h : config.Playable) :
    other.Playable := by
  obtain ⟨players, cards, deck, room⟩ := h
  rw [← paced.minPlayers] at players deck
  rw [← paced.cardsPerPlayer] at cards deck
  rw [← paced.protocolPrefix, ← paced.maxCategoryLength] at room
  exact ⟨players, cards, deck, room⟩

theorem Paced.pauses_iff {milliseconds : Nat} (paced : config.Paced other milliseconds) :
    other.Pauses ↔ milliseconds ≠ 0 := by
  have zero (interval : UInt64) (same : interval.toNat = milliseconds) : interval ≠ 0 ↔ milliseconds ≠ 0 := by
    rw [← same, Ne, Ne, ← UInt64.toNat_inj, UInt64.toNat_zero]
  constructor
  · intro pauses
    exact (zero _ paced.keyExchange).1 pauses.keyExchange
  · intro positive
    exact ⟨(zero _ paced.keyExchange).2 positive, (zero _ paced.shuffle).2 positive,
      (zero _ paced.decryption).2 positive, (zero _ paced.session).2 positive⟩

end Config

namespace Span

/-- The milliseconds of the span are 2⁶⁴ or a multiple, of which 64 bits are all zero. -/
def Wraps (span : Span) : Prop := ∃ k, 0 < k ∧ span.milliseconds = k * 2 ^ 64

/-- The least interval is a millisecond, but it is taken before the number is cut to 64 bits. -/
theorem wraps_iff {span : Span} : span.Wraps ↔ max span.milliseconds 1 % 2 ^ 64 = 0 := by
  rw [← Nat.dvd_iff_mod_eq_zero]
  constructor
  · rintro ⟨k, pos, rounds⟩
    exact ⟨k, by omega⟩
  · rintro ⟨k, rounds⟩
    exact ⟨k, by omega, by omega⟩

theorem not_wraps_of_lt {span : Span} (small : span.milliseconds < 2 ^ 64) : ¬ span.Wraps := by
  rintro ⟨k, pos, rounds⟩
  have : 1 * 2 ^ 64 ≤ k * 2 ^ 64 := Nat.mul_le_mul_right _ pos
  omega

/-- Seconds of 64 bits and nanoseconds below a second come to less than a thousand times 2⁶⁴ milliseconds. -/
theorem milliseconds_lt {span : Span} (seconds : span.seconds < 2 ^ 64) (nanoseconds : span.nanoseconds < 10 ^ 9) :
    span.milliseconds < 1000 * 2 ^ 64 := by
  unfold milliseconds
  omega

end Span

/-- A valid configuration with one polling interval for everything has the milliseconds of the span for it, or one
if there are none, as far as 64 bits hold them, and is the same besides. It is valid again unless the milliseconds
are a multiple of 2⁶⁴ above zero, and then it is refused because nothing would pause: never for a span of less
than 2⁶⁴ milliseconds, which is kept as it is, and for 999 numbers of milliseconds among all that seconds of 64
bits can come to. -/
theorem one_interval_as_it_fits {config : Config} (valid : config.Valid) (span : Span) :
    config.Paced (config.withInterval span) (max span.milliseconds 1 % 2 ^ 64) ∧
    ((config.withInterval span).validate = .ok (config.withInterval span) ↔ ¬ span.Wraps) ∧
    ((config.withInterval span).validate = .error (.invalidConfig .zeroInterval) ↔ span.Wraps) ∧
    (span.milliseconds < 2 ^ 64 → config.Paced (config.withInterval span) (max span.milliseconds 1) ∧
      (config.withInterval span).validate = .ok (config.withInterval span)) ∧
    (span.seconds < 2 ^ 64 → span.nanoseconds < 10 ^ 9 →
      (span.Wraps ↔ ∃ k, 0 < k ∧ k < 1000 ∧ span.milliseconds = k * 2 ^ 64)) := by
  have paced := config.withInterval_paced span
  have playable := paced.playable (Config.valid_iff.1 valid).1
  have accepted (fits : ¬ span.Wraps) : (config.withInterval span).validate = .ok (config.withInterval span) :=
    Config.validate_of_valid (Config.valid_iff.2 ⟨playable, paced.pauses_iff.2 (mt Span.wraps_iff.2 fits)⟩)
  have refused (wraps : span.Wraps) :
      (config.withInterval span).validate = .error (.invalidConfig .zeroInterval) := by
    refine Config.validate_of_fault (playable.fault? ?_)
    rw [paced.pauses_iff, not_not]
    exact Span.wraps_iff.1 wraps
  refine ⟨paced, ⟨fun ok wraps => ?_, accepted⟩, ⟨fun error => ?_, refused⟩, fun small => ⟨?_, ?_⟩, ?_⟩
  · cases ok.symm.trans (refused wraps)
  · by_contra fits
    cases error.symm.trans (accepted fits)
  · rwa [Nat.mod_eq_of_lt (by omega)] at paced
  · exact accepted (Span.not_wraps_of_lt small)
  · intro seconds nanoseconds
    constructor
    · rintro ⟨k, pos, rounds⟩
      have bound := Span.milliseconds_lt seconds nanoseconds
      exact ⟨k, pos, by omega, rounds⟩
    · rintro ⟨k, pos, -, rounds⟩
      exact ⟨k, pos, rounds⟩

/-- Less than a millisecond becomes a pause of one, and 2⁶⁴ milliseconds become none at all. -/
theorem one_interval_as_it_fits_wrapped : Config.default.Valid ∧
    Config.default.Paced (Config.default.withInterval ⟨0, 999999⟩) 1 ∧
    (Config.default.withInterval ⟨0, 999999⟩).validate = .ok (Config.default.withInterval ⟨0, 999999⟩) ∧
    Config.default.Paced (Config.default.withInterval ⟨18446744073709551, 616000000⟩) 0 ∧
    (Config.default.withInterval ⟨18446744073709551, 616000000⟩).validate =
      .error (.invalidConfig .zeroInterval) := by
  have valid : Config.default.Valid := rfl
  obtain ⟨-, -, -, short, -⟩ := one_interval_as_it_fits valid ⟨0, 999999⟩
  obtain ⟨long, -, refused, -⟩ := one_interval_as_it_fits valid ⟨18446744073709551, 616000000⟩
  obtain ⟨paced, accepted⟩ := short (by decide)
  exact ⟨valid, paced, accepted, long, refused.2 ⟨1, by decide, by decide⟩⟩

end MentalPoker
