/-
Who is to do what. Each role is worked out from the seats on its own, and all of them have to fit together:
the steps of the chain lead once around the table, everybody goes on with the deck that was made for them,
and the layer that is removed in the end is one of those that were added.
-/
import MentalPoker.Game.Role
import MentalPoker.Proofs.Game.Circle

namespace MentalPoker

namespace Session

variable {session : Session} {me a b : Address}

/-! ## Steps -/

/-- A step in the chain is the dealer's, with the keys of all, or follows a predecessor's. -/
theorem shuffleStep?_eq_some_iff {published collected : Bool} {previous : Option (Deck Scalar)}
    {step : ShuffleStep} : session.shuffleStep? me published previous collected = some step ↔
      published = false ∧ Circle.next? session.players me = some step.sharedWith ∧ step.sharedWith ≠ me ∧
        ((me = session.dealer ∧ collected = true ∧ step.input = .plain) ∨
          (me ≠ session.dealer ∧ ∃ deck, previous = some deck ∧ step.input = .published deck)) := by
  constructor
  · intro given
    unfold shuffleStep? at given
    split at given
    · cases given
    rename_i unpublished
    obtain ⟨successor, next, given⟩ := Option.bind_eq_some_iff.1 given
    split at given
    · cases given
    rename_i apart
    refine ⟨by simpa using unpublished, ?_⟩
    split at given
    · rename_i deals
      split at given
      · rename_i complete
        cases given
        exact ⟨next, apart, .inl ⟨deals, complete, rfl⟩⟩
      · cases given
    · rename_i follows
      obtain ⟨deck, found, same⟩ := Option.bind_eq_some_iff.1 given
      cases same
      exact ⟨next, apart, .inr ⟨follows, deck, found, rfl⟩⟩
  · obtain ⟨input, successor⟩ := step
    rintro ⟨rfl, next, apart, ⟨rfl, rfl, rfl⟩ | ⟨follows, deck, rfl, rfl⟩⟩
    · simp [shuffleStep?, next, apart]
    · simp [shuffleStep?, next, apart, follows]

/-- A step to decrypt is the decryptor's, once the chain is finished. -/
theorem decryptionStep?_eq_some_iff {published : Bool} {finished : Option (Deck Scalar)} {step : DecryptionStep} :
    session.decryptionStep? me published finished = some step ↔
      published = false ∧ session.decryptor? = some me ∧ Circle.next? session.players me = some step.sharedWith ∧
        step.sharedWith ≠ me ∧ finished = some step.source := by
  constructor
  · intro given
    unfold decryptionStep? at given
    split at given
    · cases given
    rename_i turn
    rw [not_or, not_not] at turn
    obtain ⟨successor, next, given⟩ := Option.bind_eq_some_iff.1 given
    split at given
    · cases given
    rename_i apart
    obtain ⟨deck, found, same⟩ := Option.bind_eq_some_iff.1 given
    cases same
    exact ⟨by simpa using turn.1, turn.2, next, apart, found⟩
  · obtain ⟨source, successor⟩ := step
    rintro ⟨rfl, decrypts, next, apart, rfl⟩
    simp [decryptionStep?, decrypts, next, apart]

/-! ## Layers -/

/-- Under some circumstances `a` is given the step to add a layer that it shares with `b`. -/
def AddsLayerWith (session : Session) (a b : Address) : Prop :=
  ∃ published previous collected step,
    session.shuffleStep? a published previous collected = some step ∧ step.sharedWith = b

/-- Under some circumstances `a` is given the step to remove a layer that it shares with `b`. -/
def RemovesLayerWith (session : Session) (a b : Address) : Prop :=
  ∃ published finished step, session.decryptionStep? a published finished = some step ∧ step.sharedWith = b

/-- A layer is shared with the next one, whatever has been read. -/
theorem addsLayerWith_iff : session.AddsLayerWith a b ↔ Circle.next? session.players a = some b ∧ b ≠ a := by
  constructor
  · rintro ⟨published, previous, collected, step, given, rfl⟩
    obtain ⟨-, next, apart, -⟩ := shuffleStep?_eq_some_iff.1 given
    exact ⟨next, apart⟩
  · rintro ⟨next, apart⟩
    by_cases deals : a = session.dealer
    · exact ⟨false, none, true, ⟨.plain, b⟩,
        shuffleStep?_eq_some_iff.2 ⟨rfl, next, apart, .inl ⟨deals, rfl, rfl⟩⟩, rfl⟩
    · exact ⟨false, some Deck.plain.encode, true, ⟨.published Deck.plain.encode, b⟩,
        shuffleStep?_eq_some_iff.2 ⟨rfl, next, apart, .inr ⟨deals, _, rfl, rfl⟩⟩, rfl⟩

/-- The decryptor removes the layer it has added. -/
theorem removesLayerWith_iff :
    session.RemovesLayerWith a b ↔ session.decryptor? = some a ∧ session.AddsLayerWith a b := by
  rw [addsLayerWith_iff]
  constructor
  · rintro ⟨published, finished, step, given, rfl⟩
    obtain ⟨-, decrypts, next, apart, -⟩ := decryptionStep?_eq_some_iff.1 given
    exact ⟨decrypts, next, apart⟩
  · rintro ⟨decrypts, next, apart⟩
    exact ⟨false, some Deck.plain.encode, ⟨Deck.plain.encode, b⟩,
      decryptionStep?_eq_some_iff.2 ⟨rfl, decrypts, next, apart, rfl⟩, rfl⟩

/-! ## Neighbours in the chain -/

/-- Whoever gets a deck goes on with it, except for the dealer, who opens the chain. -/
theorem chainPredecessor?_of_next (nodup : session.players.Nodup) (next : Circle.next? session.players a = some b) :
    session.chainPredecessor? b = if b = session.dealer then none else some a := by
  rw [chainPredecessor?, (Circle.next?_eq_some_iff nodup).1 next]

theorem finalShuffler?_eq_some_iff (nodup : session.players.Nodup) :
    session.finalShuffler? = some a ↔ Circle.next? session.players a = some session.dealer :=
  (Circle.next?_eq_some_iff nodup).symm

/-- Where the dealer sits and others do, somebody decrypts, and not the dealer. -/
theorem exists_decryptor (nodup : session.players.Nodup) (seated : session.dealer ∈ session.players)
    (two : 2 ≤ session.players.length) :
    ∃ decryptor, session.decryptor? = some decryptor ∧ decryptor ≠ session.dealer := by
  obtain ⟨decryptor, next⟩ := Circle.exists_next?_of_mem seated
  exact ⟨decryptor, next, Circle.ne_of_next? nodup two next⟩

/-- A lone player is given no step. -/
theorem not_addsLayerWith_of_alone (alone : session.players.length = 1) : ¬ session.AddsLayerWith a b := by
  rw [addsLayerWith_iff]
  rintro ⟨next, apart⟩
  exact apart (Circle.eq_of_next?_alone alone next)

/-- The roles at a table fit together. From the dealer on, the steps of the chain lead to every seat once, in the
order of the rotation, and back to the dealer, and nobody is ever given any other; whoever a layer is shared with
goes on with that deck, unless it is the dealer; the last of the rotation finishes the chain; and the second one,
and nobody else, removes a layer, which is the one it has added. A lone player has nothing to do. -/
theorem roles_fit_together (nodup : session.players.Nodup) (seated : session.dealer ∈ session.players) :
    (2 ≤ session.players.length → ∃ order,
      Circle.rotation? session.players session.dealer = some order ∧ order.head? = some session.dealer ∧
      order.Nodup ∧ (∀ a, a ∈ order ↔ a ∈ session.players) ∧
      List.IsChain session.AddsLayerWith (order ++ [session.dealer]) ∧
      (∀ a b, session.AddsLayerWith a b → [a, b] <:+: order ++ [session.dealer] ∧
        (∀ c, session.AddsLayerWith a c → c = b) ∧
        session.chainPredecessor? b = if b = session.dealer then none else some a) ∧
      session.finalShuffler? = order.getLast? ∧
      (∀ a, session.AddsLayerWith a session.dealer ↔ session.finalShuffler? = some a) ∧
      session.decryptor? = order[1]? ∧
      (∀ a, (∃ b, session.RemovesLayerWith a b) ↔ session.decryptor? = some a) ∧
      ∀ a b, session.RemovesLayerWith a b → session.AddsLayerWith a b) ∧
    (session.players.length = 1 → ∀ a b, ¬ session.AddsLayerWith a b ∧ ¬ session.RemovesLayerWith a b) := by
  constructor
  · intro two
    obtain ⟨order, rotation⟩ := Circle.exists_rotation seated
    have adds {a b : Address} : session.AddsLayerWith a b ↔ Circle.next? session.players a = some b :=
      addsLayerWith_iff.trans (and_iff_left_of_imp (Circle.ne_of_next? nodup two))
    refine ⟨order, rotation, ?_, Circle.rotation_nodup nodup rotation,
      fun a => (Circle.rotation_perm rotation).mem_iff, ?_, fun a b given => ?_, ?_, fun a => ?_,
      Circle.next?_dealer nodup rotation two, fun a => ?_, fun a b given => (removesLayerWith_iff.1 given).2⟩
    · rw [List.head?_eq_getElem?, Circle.rotation_head rotation]
    · exact (Circle.isChain_walk nodup rotation).imp fun _ _ => adds.2
    · have next := adds.1 given
      refine ⟨Circle.infix_walk nodup rotation next, fun c other => ?_, chainPredecessor?_of_next nodup next⟩
      exact Option.some.inj ((adds.1 other).symm.trans next)
    · rw [List.getLast?_eq_getElem?, finalShuffler?, Circle.previous?_dealer nodup rotation]
    · rw [adds, finalShuffler?_eq_some_iff nodup]
    · constructor
      · rintro ⟨b, given⟩
        exact (removesLayerWith_iff.1 given).1
      · intro decrypts
        obtain ⟨b, next⟩ := Circle.exists_next?_of_mem (Circle.mem_of_next? decrypts).2
        exact ⟨b, removesLayerWith_iff.2 ⟨decrypts, adds.2 next⟩⟩
  · intro alone a b
    have nothing : ¬ session.AddsLayerWith a b := not_addsLayerWith_of_alone alone
    exact ⟨nothing, fun given => nothing (removesLayerWith_iff.1 given).2⟩

/-- Four at a table, the third of whom deals. -/
def fourSeated : Session :=
  { start ⟨"tx0"⟩ ⟨"alice"⟩ with
    players := [⟨"alice"⟩, ⟨"bob"⟩, ⟨"carol"⟩, ⟨"dave"⟩]
    dealer := ⟨"carol"⟩ }

/-- The chain goes from the dealer to the last seat, and on from the first. -/
theorem roles_fit_together_four : fourSeated.players.Nodup ∧ fourSeated.dealer ∈ fourSeated.players ∧
    2 ≤ fourSeated.players.length ∧
    List.IsChain fourSeated.AddsLayerWith [⟨"carol"⟩, ⟨"dave"⟩, ⟨"alice"⟩, ⟨"bob"⟩, ⟨"carol"⟩] ∧
    fourSeated.finalShuffler? = some ⟨"bob"⟩ ∧ ∃ b, fourSeated.RemovesLayerWith ⟨"dave"⟩ b := by
  have nodup : fourSeated.players.Nodup := by decide +kernel
  have seated : fourSeated.dealer ∈ fourSeated.players := by decide +kernel
  have two : 2 ≤ fourSeated.players.length := by decide
  obtain ⟨order, rotation, -, -, -, chain, -, last, -, second, decrypts, -⟩ :=
    (roles_fit_together nodup seated).1 two
  obtain rfl : [⟨"carol"⟩, ⟨"dave"⟩, ⟨"alice"⟩, ⟨"bob"⟩] = order := by
    have found : Circle.rotation? fourSeated.players fourSeated.dealer =
        some [⟨"carol"⟩, ⟨"dave"⟩, ⟨"alice"⟩, ⟨"bob"⟩] := by decide +kernel
    exact Option.some.inj (found.symm.trans rotation)
  exact ⟨nodup, seated, two, chain, last, (decrypts _).2 second⟩

end Session

end MentalPoker
