/-
Collecting keys. A player at a full table looks for the key of everybody else whose key it does not have, one
after the other, and passes over what cannot be read. If nothing fails, each key depends on what its owner
has filed last, and on nobody else's: so the ring afterwards is told entry by entry, and it is complete when
no other seat is without a key.
-/
import MentalPoker.Proofs.Player.Retry
import MentalPoker.Proofs.Play.Served

namespace MentalPoker

variable {γ : Type}

/-! ## One turn -/

namespace Turn

variable [RandomSource γ] {player : Player γ} {log : Log}

/-- An announcement has left a new pair, and its key is the last transaction, signed by the player. -/
def Announces (player : Player γ) (log : Log) (result : Except DealError Outcome) (next : Player γ) (later : Log) :
    Prop :=
  ∃ outcome keys source signer recipients payload, result = .ok outcome ∧ outcome ≠ .skipped ∧
    next = { player with keys := some keys, source } ∧ player.signer = some signer ∧
    later = log ++ [Log.filing log signer (player.category .publicKey) recipients payload]

/-- An announcement without failures leaves a new pair or none. -/
theorem announceKey_ensures (player : Player γ) (log : Log) (recipients : List Address) :
    (announceKey recipients).Ensures .calm (fun result next later =>
      next.keys = player.keys ∨ Announces player log result next later) player log := by
  rw [announceKey, ensures_bind, ensures_get]
  dsimp only
  split
  case h_2 => exact (ensures_pure ..).2 (.inl rfl)
  rename_i signer signs
  simp only [ensures_bind, ensures_hasPublished, Conditions.calm_others, Conditions.calm_fails, forall_eq',
    false_implies, and_true]
  split
  · exact (ensures_pure ..).2 (.inl rfl)
  rw [ensures_bind]
  refine ensures_draw fun keys source _ => ?_
  cases made : KeyMessage.ofPoint keys.publicKey with
  | error e => simp [made]
  | ok message =>
    simp only [ensures_bind, ensures_ofExcept, made, ensures_publish, ensures_modify, ensures_pure,
      Conditions.calm_others, Conditions.calm_fails, Conditions.calm_loses, forall_eq', false_implies, and_true]
    exact fun id => .inr ⟨.published id, keys, source, signer, recipients, _, rfl, by simp, rfl, signs, rfl⟩

omit [RandomSource γ] in
/-- What a player has filed itself says nothing about the keys of others. -/
theorem announcedKey_append (log : Log) {signer : Signer} (own : signer.address = player.address)
    (recipients : List Address) (payload : Bytes) {other : Address} (apart : other ≠ player.address) :
    announcedKey player (log ++ [Log.filing log signer (player.category .publicKey) recipients payload]) other =
      announcedKey player log other := by
  have last : (log ++ [Log.filing log signer (player.category .publicKey) recipients payload]).payload?
      (player.category .publicKey) other = log.payload? (player.category .publicKey) other :=
    Log.payload?_append_of_ne fun _ same => apart (same.symm.trans own)
  rw [announcedKey, last, announcedKey]

omit [RandomSource γ] in
/-- Collecting leaves the pair as it is. -/
theorem collectMissing_keys (outcome : Outcome) (player : Player γ) (log : Log) :
    ((collectMissing outcome).take Log.answer player log).2.1.keys = player.keys := by
  by_cases goesOn : outcome = .skipped
  · rw [collectMissing, if_pos goesOn, take_pure]
  · obtain ⟨outcome', taken⟩ := collectMissing_take goesOn player log
    rw [taken]
    rfl

/-- Whoever has a pair in the end, or no seat, has collected the keys that were missing. -/
theorem exchangeKeys_take (sees : ¬ player.session.players.length < max player.config.minPlayers 2)
    (own : ∀ signer, player.signer = some signer → signer.address = player.address)
    {result : Except DealError Outcome} {next : Player γ} {later : Log}
    (taken : (exchangeKeys : Turn γ Outcome).take Log.answer player log = (result, next, later))
    (holds : next.keys.isSome = true ∨ player.isSeated = false) :
    ∃ outcome keys source, result = .ok outcome ∧ next = { collected player log with keys, source } := by
  cases asks : player.session.keyRecipients? player.address player.keys.isSome with
  | none =>
    obtain ⟨outcome, collects⟩ := exchangeKeys_of_collects log ⟨sees, asks⟩ (List.nil_append _).symm
    cases taken.symm.trans collects
    exact ⟨outcome, player.keys, player.source, rfl, rfl⟩
  | some recipients =>
    obtain ⟨none, seated, -⟩ := Session.keyRecipients?_eq_some asks
    have held : next.keys.isSome = true := holds.resolve_right fun absent => by
      cases (Player.isSeated_iff.2 seated).symm.trans absent
    have announced := (announceKey_ensures player log recipients).take (Log.meets_calm _ log)
    rw [exchangeKeys, take_bind, take_get] at taken
    dsimp only at taken
    rw [if_neg sees, asks, take_bind] at taken
    generalize (announceKey recipients).take Log.answer player log = run at taken announced
    obtain ⟨result', middle, log'⟩ := run
    rcases announced with unkeyed | ⟨outcome, keys, source, signer, readers, payload, rfl, goesOn, rfl, signs, rfl⟩
    · -- no pair comes from collecting
      have kept : next.keys = middle.keys := by
        cases result' with
        | error e =>
          cases taken
          rfl
        | ok outcome =>
          have rest : (collectMissing outcome).take Log.answer middle log' = (result, next, later) := taken
          have same := collectMissing_keys outcome middle log'
          rwa [rest] at same
      rw [kept, unkeyed, none] at held
      cases held
    · obtain ⟨outcome', took⟩ := collectMissing_take goesOn { player with keys := some keys, source } _
      have rest : (collectMissing outcome).take Log.answer _ _ = (result, next, later) := taken
      cases took.symm.trans rest
      refine ⟨outcome', some keys, source, rfl, ?_⟩
      have same (other : Address) (missing : other ∈ player.session.missingKeys player.address player.ring) :=
        announcedKey_append log (own signer signs) readers payload (Session.mem_players_of_missingKeys missing).2
      have ring := KeyRing.learn_congr player.ring same
      exact congrArg (fun ring => { player with keys := some keys, source, ring }) ring

/-- On a line where nothing fails the turn goes through as on the ledger. -/
theorem exchangeKeys_of_unfailing {line : Line} (calm : (exchangeKeys : Turn γ Outcome).failures player line = []) :
    (exchangeKeys : Turn γ Outcome).take Log.answer player line.transactions =
      ((exchangeKeys.take Line.answer player line).1, (exchangeKeys.take Line.answer player line).2.1,
        (exchangeKeys.take Line.answer player line).2.2.transactions) := by
  have retriable : (exchangeKeys : Turn γ Outcome).Retriable False player line.transactions := exchangeKeys_retriable
  have ends := retriable.breaks.ends
  rw [calm] at ends
  exact ends.of_unfailing

end Turn

/-! ## Runs -/

namespace Player

variable [RandomSource γ] {player next : Player γ}

/-- A player keeps its address and its signer. -/
theorem signer_of_weathers (run : Relation.ReflTransGen Weathers player next) :
    next.address = player.address ∧ next.signer = player.signer := by
  induction run with
  | refl => exact ⟨rfl, rfl⟩
  | tail _ step ih =>
    cases step with
    | endures endures =>
      have same := endures.becomes.same
      exact ⟨same.address.trans ih.1, same.signer.trans ih.2⟩
    | wishes => exact ih

end Player

namespace Rules

variable {rules : Rules} {start player : Player γ}

/-- When nothing fails at a full table, a player that has a pair afterwards, or no seat, has the keys it had, and of
everybody else there the key that can be read in that one's last announcement. Nothing that others have announced,
readable or not, makes a difference to what it has of one. If the player is seated, its ring is complete exactly when no
other seat lacks a key. -/
theorem key_collection_complete [RandomSource γ] (fresh : rules.Fresh start)
    (reached : Relation.ReflTransGen Player.Weathers start player) (full : player.session.isFull = true)
    (two : 2 ≤ player.session.players.length) {line : Line}
    (calm : (Turn.exchangeKeys : Turn γ Outcome).failures player line = [])
    (holds : (Turn.exchangeKeys.take Line.answer player line).2.1.keys.isSome = true ∨ player.isSeated = false) :
    ∃ outcome keys source ring after,
      Turn.exchangeKeys.take Line.answer player line = (.ok outcome, { player with keys, source, ring }, after) ∧
      (∀ a, ring.get? a = (player.ring.get? a).or
        (if a ∈ player.session.players ∧ a ≠ player.address then Turn.announcedKey player line.transactions a
          else none)) ∧
      (∀ other : Line, (Turn.exchangeKeys : Turn γ Outcome).failures player other = [] →
        ((Turn.exchangeKeys.take Line.answer player other).2.1.keys.isSome = true ∨ player.isSeated = false) →
        ∀ a, other.transactions.payload? (player.category .publicKey) a =
            line.transactions.payload? (player.category .publicKey) a →
          (Turn.exchangeKeys.take Line.answer player other).2.1.ring.get? a = ring.get? a) ∧
      (player.isSeated = true → (player.session.keysComplete ring = true ↔
        ∀ a ∈ player.session.players, a ≠ player.address → ∃ key, ring.get? a = some key)) := by
  have coherent := (Player.truthful_of_weathers reached fresh.truthful).1.toCoherent
  obtain ⟨arranged, -⟩ := Player.arranged_of_weathers reached fresh.arranged
  have sees : ¬ player.session.players.length < max player.config.minPlayers 2 := by
    have taken := coherent.isFull_iff.1 full
    omega
  have own (signer : Signer) (signs : player.signer = some signer) : signer.address = player.address := by
    obtain ⟨address, same⟩ := Player.signer_of_weathers reached
    rw [address]
    exact fresh.told.signs signer (same.symm.trans signs)
  -- what a line without failures leaves on the ring of each
  have entries {line : Line} (calm : (Turn.exchangeKeys : Turn γ Outcome).failures player line = [])
      (holds : (Turn.exchangeKeys.take Line.answer player line).2.1.keys.isSome = true ∨ player.isSeated = false)
      (a : Address) : (Turn.exchangeKeys.take Line.answer player line).2.1.ring.get? a = (player.ring.get? a).or
        (if a ∈ player.session.players ∧ a ≠ player.address then Turn.announcedKey player line.transactions a
          else none) := by
    obtain ⟨outcome, keys, source, -, next⟩ :=
      Turn.exchangeKeys_take sees own (Turn.exchangeKeys_of_unfailing calm) holds
    rw [next]
    exact Session.get?_learn_missingKeys _ player.session player.address player.ring a
  obtain ⟨outcome, keys, source, result, next⟩ :=
    Turn.exchangeKeys_take sees own (Turn.exchangeKeys_of_unfailing calm) holds
  have collected := entries calm holds
  have becomes := Move.take_becomes .exchangeKeys Line.answer player line
  rw [Move.turn, Turn.take_map] at becomes
  rw [next] at collected becomes
  refine ⟨outcome, keys, source, _, _, Prod.ext result (Prod.ext next rfl), collected, ?_, fun seated => ?_⟩
  · intro other calm' holds' a same
    rw [entries calm' holds' a, collected a, Turn.announcedKey, same, Turn.announcedKey]
  · have coherent' := becomes.coherent coherent
    have mine := Player.isSeated_iff.1 seated
    have names (a : Address) (known : a ∈ (Turn.collected player line.transactions).ring.names) :
        a ∈ player.session.players ∧ a ≠ player.address := coherent'.names known
    constructor
    · intro complete a theirs apart
      exact KeyRing.exists_key (Session.mem_names_of_keysComplete complete coherent'.once names mine theirs apart)
    · intro all
      refine Session.keysComplete_of_mem arranged.once coherent'.once names mine fun a theirs apart => ?_
      obtain ⟨key, found⟩ := all a theirs apart
      exact List.mem_map_of_mem (KeyRing.mem_of_get? found)

/-- The joiner at the table of three, without a pair and without any key. -/
def atTable : Player (Seeded id) := heed tableTalk .updateSession joiner

/-- Alice has announced a key, and what Carol has filed as hers cannot be read. -/
def halfReadable : Line :=
  ⟨.unhindered [Log.filing [] ⟨⟨"alice"⟩, []⟩ (atTable.category .publicKey) []
      (((KeyMessage.ofPoint (KeyPair.ofSecret 1).publicKey).toOption.map (·.toBytes)).getD []),
    Log.filing [] ⟨⟨"carol"⟩, []⟩ (atTable.category .publicKey) [] []], [], []⟩

/-- Alice's key is collected, and the joiner waits for Carol's. -/
theorem key_collection_complete_unreadable : forThree.Fresh joiner ∧
    Relation.ReflTransGen Player.Weathers joiner atTable ∧ atTable.session.isFull = true ∧
    2 ≤ atTable.session.players.length ∧
    (Turn.exchangeKeys : Turn (Seeded id) Outcome).failures atTable halfReadable = [] ∧
    ((Turn.exchangeKeys.take Line.answer atTable halfReadable).2.1.keys.isSome = true ∨ atTable.isSeated = false) ∧
    ∃ outcome keys source ring after, Turn.exchangeKeys.take Line.answer atTable halfReadable =
        (.ok outcome, { atTable with keys, source, ring }, after) ∧
      (ring.get? ⟨"alice"⟩).isSome = true ∧ ring.get? ⟨"carol"⟩ = none ∧ atTable.session.keysComplete ring ≠ true := by
  have reached : Relation.ReflTransGen Player.Weathers joiner atTable :=
    .single (.endures (endures_heed tableTalk .updateSession joiner))
  have full : atTable.session.isFull = true := by decide +kernel
  have two : 2 ≤ atTable.session.players.length := by decide +kernel
  have calm : (Turn.exchangeKeys : Turn (Seeded id) Outcome).failures atTable halfReadable = [] :=
    List.isEmpty_iff.1 (by decide +kernel)
  have holds : (Turn.exchangeKeys.take Line.answer atTable halfReadable).2.1.keys.isSome = true := by decide +kernel
  obtain ⟨outcome, keys, source, ring, after, taken, entries, -, complete⟩ :=
    key_collection_complete fresh_joiner reached full two calm (.inl holds)
  have carol : ring.get? ⟨"carol"⟩ = none := (entries ⟨"carol"⟩).trans (by decide +kernel)
  refine ⟨fresh_joiner, reached, full, two, calm, .inl holds, outcome, keys, source, ring, after, taken, ?_, carol, ?_⟩
  · rw [entries]
    decide +kernel
  · intro all
    obtain ⟨key, found⟩ := (complete (by decide +kernel)).1 all ⟨"carol"⟩ (by decide +kernel) (by decide +kernel)
    cases carol.symm.trans found

end Rules

end MentalPoker
