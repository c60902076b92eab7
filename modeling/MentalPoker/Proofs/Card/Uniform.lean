/-
The shuffle is uniform. For each way to put a list of distinct entries in order there is exactly one sequence
of choices that leads to it, and each choice is one of the entries that are left. A choice is drawn from words,
of which equally many stand for each of its values.
-/
import MentalPoker.Proofs.Card.Shuffle
import MentalPoker.Random.Seeded
import Mathlib.Data.List.Permutation
import Mathlib.Data.Set.Card
import Mathlib.Order.Interval.Finset.Nat

namespace MentalPoker

variable {α γ : Type}

/-! ## Drawing an index -/

namespace RandomSource

/-- The index that a word stands for, if the word is accepted. -/
def index? (bound : ℕ) (v : UInt64) : Option ℕ :=
  if v.toNat * bound % wordCount ≤ bound <<< (63 - bound.log2) - 1 then some (v.toNat * bound / wordCount)
  else none

/-- An index is drawn by words up to the first accepted one, after `rejected` others. -/
inductive Draws [RandomSource γ] (bound : ℕ) : (rejected : ℕ) → γ → ℕ → γ → Prop
  | accepted {source rest : γ} {v : UInt64} {i : ℕ} (word : nextUInt64 source = (v, rest))
      (stands : index? bound v = some i) : Draws bound 0 source i rest
  | rejected {source left rest : γ} {v : UInt64} {i k : ℕ} (word : nextUInt64 source = (v, left))
      (none : index? bound v = none) (draws : Draws bound k left i rest) : Draws bound (k + 1) source i rest

theorem index?_eq_some_iff {bound i : ℕ} {v : UInt64} :
    index? bound v = some i ↔
      v.toNat * bound % wordCount ≤ bound <<< (63 - bound.log2) - 1 ∧ v.toNat * bound / wordCount = i := by
  rw [index?, Option.ite_none_right_eq_some, Option.some.injEq]

theorem index?_eq_none_iff {bound : ℕ} {v : UInt64} :
    index? bound v = none ↔ ¬ v.toNat * bound % wordCount ≤ bound <<< (63 - bound.log2) - 1 := by
  rw [index?, ite_eq_right_iff]
  exact forall_congr' fun _ => by simp

/-- Whatever comes after the first accepted word does not matter. -/
theorem below_of_draws [RandomSource γ] {bound k i : ℕ} {source rest : γ} (draws : Draws bound k source i rest)
    (few : k ≤ maxAttempts) : below bound source = (i, rest) := by
  have drawn : ∀ attempts, k ≤ attempts → ∃ product, product / wordCount = i ∧
      drawUntil (fun product => product % wordCount ≤ bound <<< (63 - bound.log2) - 1)
        (fun source : γ => ((nextUInt64 source).1.toNat * bound, (nextUInt64 source).2)) attempts source =
        (product, rest) := by
    clear few
    induction draws with
    | accepted word stands =>
      obtain ⟨low, index⟩ := index?_eq_some_iff.1 stands
      rintro (_ | attempts) -
      · exact ⟨_, index, by simp only [drawUntil, word]⟩
      · exact ⟨_, index, by simp only [drawUntil, word, low, decide_true, if_true]⟩
    | rejected word none _ ih =>
      have high := index?_eq_none_iff.1 none
      rintro (_ | attempts) enough
      · omega
      · obtain ⟨product, index, same⟩ := ih attempts (by omega)
        refine ⟨product, index, ?_⟩
        simp only [drawUntil, word, high, decide_false]
        exact same
  obtain ⟨product, index, same⟩ := drawn maxAttempts few
  rw [below]
  dsimp only
  rw [same, index]

/-- The words of an index are those with a multiple in an interval that begins at the index. -/
theorem index?_eq_some_iff_interval {bound size i : ℕ} {v : UInt64} (zone : bound <<< (63 - bound.log2) = size)
    (pos : 0 < size) (fits : size ≤ wordCount) :
    index? bound v = some i ↔
      i * wordCount ≤ v.toNat * bound ∧ v.toNat * bound < i * wordCount + size := by
  rw [index?_eq_some_iff, zone]
  generalize v.toNat * bound = product
  have split := Nat.div_add_mod' product wordCount
  constructor
  · rintro ⟨low, rfl⟩
    omega
  · rintro ⟨above, below⟩
    have index : product / wordCount = i := by
      refine Nat.div_eq_of_lt_le above ?_
      rw [Nat.succ_mul]
      omega
    rw [index] at split
    exact ⟨by omega, index⟩

/-- The least number with a multiple that is not below another number. -/
theorem div_le_iff {a b v : ℕ} (pos : 0 < b) : (a + (b - 1)) / b ≤ v ↔ a ≤ v * b := by
  rw [← Nat.lt_succ_iff, Nat.div_lt_iff_lt_mul pos, Nat.succ_mul]
  omega

theorem shiftLeft_le_wordCount {bound : ℕ} (pos : 0 < bound) (small : bound < wordCount) :
    bound <<< (63 - bound.log2) ≤ wordCount := by
  have bits : bound.log2 < 64 := (Nat.log2_lt (Nat.ne_of_gt pos)).2 small
  calc bound <<< (63 - bound.log2) = bound * 2 ^ (63 - bound.log2) := Nat.shiftLeft_eq ..
    _ ≤ 2 ^ (bound.log2 + 1) * 2 ^ (63 - bound.log2) := Nat.mul_le_mul_right _ Nat.lt_log2_self.le
    _ = 2 ^ 64 := by rw [← Nat.pow_add, show bound.log2 + 1 + (63 - bound.log2) = 64 by omega]

/-- Equally many words stand for each index. -/
theorem ncard_words {bound i : ℕ} (pos : 0 < bound) (small : bound < wordCount) (inside : i < bound) :
    {v | index? bound v = some i}.ncard = 2 ^ (63 - bound.log2) := by
  have fits := shiftLeft_le_wordCount pos small
  generalize words : 2 ^ (63 - bound.log2) = count
  have zone : bound <<< (63 - bound.log2) = count * bound := by rw [Nat.shiftLeft_eq, words, Nat.mul_comm]
  have positive : 0 < count * bound := Nat.mul_pos (words ▸ Nat.two_pow_pos _) pos
  rw [zone] at fits
  generalize first : (i * wordCount + (bound - 1)) / bound = start
  have last : start + count = (i * wordCount + count * bound + (bound - 1)) / bound := by
    rw [Nat.add_right_comm, Nat.add_mul_div_right _ _ pos, first]
  -- the words are as many numbers in a row
  have row : UInt64.toNat '' {v | index? bound v = some i} = ↑(Finset.Ico start (start + count)) := by
    ext n
    have member : n ∈ Finset.Ico start (start + count) ↔
        i * wordCount ≤ n * bound ∧ n * bound < i * wordCount + count * bound := by
      rw [Finset.mem_Ico, ← Nat.not_le, last, ← first, div_le_iff pos, div_le_iff pos, Nat.not_le]
    rw [Finset.mem_coe, member]
    constructor
    · rintro ⟨v, stands, rfl⟩
      exact (index?_eq_some_iff_interval zone positive fits).1 stands
    · rintro ⟨above, below⟩
      have word : n < wordCount := by
        refine Nat.lt_of_mul_lt_mul_right (a := bound) ?_
        calc n * bound < i * wordCount + wordCount := by omega
          _ = (i + 1) * wordCount := (Nat.succ_mul ..).symm
          _ ≤ bound * wordCount := Nat.mul_le_mul_right _ inside
          _ = wordCount * bound := Nat.mul_comm ..
      have same : (UInt64.ofNat n).toNat = n := UInt64.toNat_ofNat_of_lt word
      refine ⟨UInt64.ofNat n, (index?_eq_some_iff_interval zone positive fits).2 ?_, same⟩
      rw [same]
      exact ⟨above, below⟩
  have injective : Function.Injective UInt64.toNat := fun _ _ => UInt64.toNat_inj.1
  rw [← injective.injOn.ncard_image, row, Set.ncard_coe_finset, Nat.card_Ico, Nat.add_sub_cancel_left]

end RandomSource

/-! ## Sequences of choices -/

namespace Shuffle

/-- The sequences of choices for `n` entries: one of `n` comes first, then one of `n - 1`, and so on. -/
def sequences (n : ℕ) : Set (List ℕ) :=
  {choices | choices.length = n ∧ ∀ k (_ : k < choices.length), choices[k] < n - k}

theorem mem_sequences_iff {choices : List ℕ} {n : ℕ} : choices ∈ sequences n ↔ Fit choices n := by
  induction choices generalizing n with
  | nil => simp [sequences, Fit, eq_comm]
  | cons i choices ih =>
    cases n with
    | zero => simp [sequences, Fit]
    | succ n =>
      rw [Fit, ← ih]
      constructor
      · rintro ⟨length, small⟩
        refine ⟨small 0 (by simp), by simpa using length, fun k inside => ?_⟩
        have := small (k + 1) (by simpa using inside)
        simpa using this
      · rintro ⟨first, length, small⟩
        refine ⟨by simpa using length, fun k inside => ?_⟩
        cases k with
        | zero => exact first
        | succ k => simpa using small k (by simpa using inside)

/-! ## One sequence for each order -/

/-- Different choices put distinct entries in different orders. -/
theorem arrange_injective {choices choices' : List ℕ} {xs : List α} (nodup : xs.Nodup)
    (fit : Fit choices xs.length) (fit' : Fit choices' xs.length)
    (same : arrange choices xs = arrange choices' xs) : choices = choices' := by
  induction choices generalizing xs choices' with
  | nil =>
    cases choices' with
    | nil => rfl
    | cons i choices' =>
      have empty : xs.length = 0 := fit
      exact absurd (fit_cons_iff.1 fit').1 (by omega)
  | cons i choices ih =>
    obtain ⟨inside, rest⟩ := fit_cons_iff.1 fit
    cases choices' with
    | nil =>
      have empty : xs.length = 0 := fit'
      omega
    | cons j choices' =>
      obtain ⟨inside', rest'⟩ := fit_cons_iff.1 fit'
      rw [arrange_cons inside, arrange_cons inside'] at same
      obtain ⟨first, others⟩ := List.cons_eq_cons.1 same
      obtain rfl : i = j := nodup.getElem_inj_iff.1 first
      have distinct : (fillGap xs i).Nodup := (List.nodup_cons.1 ((fillGap_perm inside).nodup_iff.2 nodup)).2
      rw [ih distinct rest rest' others]

/-- Every order of the entries is reached by some choices. -/
theorem exists_choices {ys xs : List α} (perm : ys.Perm xs) :
    ∃ choices, Fit choices xs.length ∧ arrange choices xs = ys := by
  induction ys generalizing xs with
  | nil =>
    obtain rfl := List.nil_perm.1 perm
    exact ⟨[], rfl, rfl⟩
  | cons y ys ih =>
    obtain ⟨i, inside, rfl⟩ := List.getElem_of_mem (perm.mem_iff.1 (List.mem_cons_self ..))
    have left : ys.Perm (fillGap xs i) := (perm.trans (fillGap_perm inside).symm).cons_inv
    obtain ⟨choices, fit, reached⟩ := ih left
    exact ⟨i :: choices, fit_cons_iff.2 ⟨inside, fit⟩, by rw [arrange_cons inside, reached]⟩

/-- The orders of a list's entries. -/
def orders (xs : List α) : Set (List α) := {ys | ys.Perm xs}

/-- The choices and the orders of distinct entries correspond to each other. -/
theorem arrange_bijOn {xs : List α} (nodup : xs.Nodup) :
    Set.BijOn (arrange · xs) (sequences xs.length) (orders xs) := by
  refine ⟨fun choices member => arrange_perm (mem_sequences_iff.1 member), ?_, ?_⟩
  · intro choices member choices' member' same
    exact arrange_injective nodup (mem_sequences_iff.1 member) (mem_sequences_iff.1 member') same
  · intro ys perm
    obtain ⟨choices, fit, reached⟩ := exists_choices perm
    exact ⟨choices, mem_sequences_iff.2 fit, reached⟩

theorem ncard_orders {xs : List α} (nodup : xs.Nodup) : (orders xs).ncard = xs.length.factorial := by
  classical
  have listed : orders xs = ↑xs.permutations.toFinset := by
    ext ys
    simp [orders, List.mem_permutations]
  rw [listed, Set.ncard_coe_finset, List.toFinset_card_of_nodup (List.nodup_permutations xs nodup),
    List.length_permutations]

theorem ncard_sequences (n : ℕ) : (sequences n).ncard = n.factorial := by
  have distinct : (List.range n).Nodup := List.nodup_range
  have bijective := arrange_bijOn distinct
  rw [List.length_range] at bijective
  rw [← bijective.injOn.ncard_image, bijective.image_eq, ncard_orders distinct, List.length_range]

/-! ## The loop -/

/-- The shuffle step by step: as long as entries are left, an index below their number is drawn, the entry
there is the next one, and the last entry fills the gap. -/
inductive Loop [RandomSource γ] : List α → γ → List ℕ → List α → γ → Prop
  | done (source : γ) : Loop [] source [] [] source
  | take {xs ys : List α} {i : ℕ} {choices : List ℕ} {source left rest : γ} (inside : i < xs.length)
      (drew : RandomSource.below xs.length source = (i, left)) (loop : Loop (fillGap xs i) left choices ys rest) :
      Loop xs source (i :: choices) (xs[i] :: ys) rest

/-- What is drawn depends on the number of entries alone. -/
theorem loop_iff [RandomSource γ] {xs ys : List α} {source rest : γ} {choices : List ℕ} :
    Loop xs source choices ys rest ↔ choose xs.length source = (choices, rest) ∧ arrange choices xs = ys := by
  constructor
  · intro loop
    induction loop with
    | done source => exact ⟨rfl, rfl⟩
    | @take xs ys i choices source left rest inside drew _ ih =>
      obtain ⟨drawn, arranged⟩ := ih
      refine ⟨?_, by rw [arrange_cons inside, arranged]⟩
      rw [← length_fillGap inside] at drew ⊢
      rw [choose, drew]
      dsimp only
      rw [drawn]
  · induction length : xs.length generalizing xs ys source choices with
    | zero =>
      obtain rfl := List.length_eq_zero_iff.1 length
      rintro ⟨drawn, rfl⟩
      cases drawn
      exact .done _
    | succ n ih =>
      rintro ⟨drawn, rfl⟩
      have small := RandomSource.below_lt (Nat.succ_pos n) source
      rw [choose] at drawn
      generalize drew : RandomSource.below (n + 1) source = draw at drawn small
      obtain ⟨i, left⟩ := draw
      generalize drewRest : choose n left = others at drawn
      obtain ⟨choices', rest'⟩ := others
      simp only [drewRest, Prod.mk.injEq] at drawn
      obtain ⟨rfl, rfl⟩ := drawn
      have inside : i < xs.length := length ▸ small
      have shorter := length_fillGap inside
      rw [arrange_cons inside]
      exact .take inside (length ▸ drew) (ih (by omega) ⟨drewRest, rfl⟩)

/-- The shuffle is exactly uniform. The sequences of choices for distinct entries correspond one to one to the
orders of these entries, of which there are as many as the factorial says. Whatever the entries and the source,
a deck is shuffled by one such sequence, each choice drawn among the entries that are left, and none is lost or
doubled. And an index is the one of the first word that stands for any, each index having equally many words; that
is so up to the limit `RandomSource.maxAttempts` of words that stand for none, and beyond it nothing is said of
which index is drawn. -/
theorem shuffle_uniform :
    (∀ {α : Type} (xs : List α), xs.Nodup →
      Set.BijOn (arrange · xs) (sequences xs.length) (orders xs) ∧
        (sequences xs.length).ncard = xs.length.factorial ∧ (orders xs).ncard = xs.length.factorial) ∧
    (∀ {α γ : Type} [RandomSource γ] (deck : Deck α) (source : γ),
      ∃ choices ∈ sequences deck.size, ∃ ys rest, deck.shuffle source = (⟨ys⟩, rest) ∧
        Loop deck.entries source choices ys rest ∧ arrange choices deck.entries = ys ∧ ys ∈ orders deck.entries) ∧
    ∀ bound i, 0 < bound → bound < RandomSource.wordCount → i < bound →
      {v | RandomSource.index? bound v = some i}.ncard = 2 ^ (63 - bound.log2) ∧
        ∀ {γ : Type} [RandomSource γ] (k : ℕ) (source rest : γ), k ≤ RandomSource.maxAttempts →
          RandomSource.Draws bound k source i rest → RandomSource.below bound source = (i, rest) := by
  refine ⟨fun xs nodup => ⟨arrange_bijOn nodup, ncard_sequences _, ncard_orders nodup⟩, fun deck source => ?_,
    fun bound i pos small inside => ⟨RandomSource.ncard_words pos small inside,
      fun k source rest few draws => RandomSource.below_of_draws draws few⟩⟩
  have fit := choose_fit deck.size source
  exact ⟨_, mem_sequences_iff.2 fit, _, _, rfl, loop_iff.2 ⟨rfl, rfl⟩, rfl, arrange_perm fit⟩

/-- Three entries have six orders. Of 52 indices each has 2⁵⁸ words, and the first word of a keystream stands for
the index 29. -/
theorem shuffle_uniform_three :
    ['a', 'b', 'c'].Nodup ∧ (orders ['a', 'b', 'c']).ncard = 6 ∧
      {v | RandomSource.index? 52 v = some 29}.ncard = 2 ^ 58 ∧
      ∃ rest : Seeded id, RandomSource.below 52 (⟨[], 0⟩ : Seeded id) = (29, rest) := by
  have distinct : ['a', 'b', 'c'].Nodup := by decide
  obtain ⟨-, -, six⟩ := shuffle_uniform.1 ['a', 'b', 'c'] distinct
  obtain ⟨words, drawn⟩ := shuffle_uniform.2.2 52 29 (by decide) (by decide) (by decide)
  have stands : RandomSource.index? 52 (RandomSource.nextUInt64 (⟨[], 0⟩ : Seeded id)).1 = some 29 := by
    decide +kernel
  exact ⟨distinct, six, words, _, drawn 0 _ _ (Nat.zero_le _) (.accepted rfl stands)⟩

end Shuffle

end MentalPoker
