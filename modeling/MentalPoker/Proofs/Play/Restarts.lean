/-
Runs with restarts. A new process may take the place of the one that an address has had, which makes no
move from then on. What a process has taken for the finished deck or for its hand then comes from the whole
table: whoever has announced a key has seen all seats, and a process that has come after it sees either the
creator alone, or all of them.
-/
import MentalPoker.Proofs.Play.Hands

namespace MentalPoker

/-- Nobody has arrived for the address of the participant since. -/
def Table.Latest {γ : Type} (table : Table γ) (id : String) : Prop :=
  ∃ front player back, table.participants = front ++ ⟨id, player⟩ :: back ∧
    ∀ p ∈ back, p.player.address ≠ player.address

/-- Of two places in a list, either they are the same, or one comes before the other. -/
theorem places_of_append_cons {α : Type} {front back front' back' : List α} {a b : α}
    (h : front ++ a :: back = front' ++ b :: back') :
    (front' = front ∧ b = a ∧ back' = back) ∨
      (∃ between, front = front' ++ b :: between ∧ back' = between ++ a :: back) ∨
      ∃ between, back = between ++ b :: back' ∧ front' = front ++ a :: between := by
  rcases List.append_eq_append_iff.1 h with ⟨more, rfl, rest⟩ | ⟨more, rfl, rest⟩
  · cases more with
    | nil =>
      cases rest
      exact .inl ⟨List.append_nil front, rfl, rfl⟩
    | cons c more =>
      cases rest
      exact .inr (.inr ⟨more, rfl, rfl⟩)
  · cases more with
    | nil =>
      cases rest
      exact .inl ⟨(List.append_nil front').symm, rfl, rfl⟩
    | cons c more =>
      cases rest
      exact .inr (.inl ⟨more, rfl, rfl⟩)

/-- The latest process of an address has the only participant of its name. -/
theorem Table.Latest.last {γ : Type} {table : Table γ} {id : String} (latest : table.Latest id)
    (named : table.Named) {front back : List (Participant γ)} {player : Player γ}
    (split : table.participants = front ++ ⟨id, player⟩ :: back) : ∀ p ∈ back, p.player.address ≠ player.address := by
  obtain ⟨front', player', back', split', last⟩ := latest
  -- participants at two places would share the name
  have once {before between after : List (Participant γ)} {p q : Player γ}
      (twice : table.participants = before ++ ⟨id, p⟩ :: (between ++ ⟨id, q⟩ :: after)) : False := by
    rw [Table.Named, twice, List.map_append, List.map_cons] at named
    exact (List.nodup_cons.1 (List.nodup_append.1 named).2.1).1 (by simp)
  rcases places_of_append_cons (split.symm.trans split') with ⟨rfl, same, rfl⟩ | ⟨between, rfl, rfl⟩ |
    ⟨between, rfl, rfl⟩
  · cases same
    exact last
  · exact (once split').elim
  · exact (once split).elim

/-- A phase is kept or exchanged. -/
theorem Phase.later_or (a b : Phase) : a.later b = a ∨ a.later b = b := by
  unfold later
  split
  · exact .inr rfl
  · exact .inl rfl

theorem Session.observedPhase_eq_decrypting {session : Session} {progress : Progress} {minPlayers : Nat}
    (h : session.observedPhase progress minPlayers = .decrypting) :
    minPlayers ≤ session.players.length ∧ progress.shuffleFinished = true := by
  unfold observedPhase at h
  split at h
  · cases h
  · rename_i full
    split at h
    · cases h
    split at h
    · exact ⟨Nat.le_of_not_lt full, ‹_›⟩
    · split at h <;> cases h

theorem Session.observedPhase_eq_ready {session : Session} {progress : Progress} {minPlayers : Nat}
    (h : session.observedPhase progress minPlayers = .ready) :
    minPlayers ≤ session.players.length ∧ session.hand ≠ [] := by
  unfold observedPhase at h
  split at h
  · cases h
  · rename_i full
    split at h
    · exact ⟨Nat.le_of_not_lt full, ‹_›⟩
    split at h
    · cases h
    · split at h <;> cases h

namespace Rules

variable {γ : Type} (rules : Rules)

/-! ## Runs -/

section

variable [RandomSource γ]

/-- A step of a run in which every address has one process at a time: a process starts, the latest process
of an address moves on a line in whatever state, or a transaction outside the game is filed. -/
inductive Renews : Table γ → Table γ → Prop
  | arrives {table : Table γ} {id : String} (unused : table.player? id = none) (signer : Signer) (source : γ) :
      Renews table (table.place ⟨id, rules.told (.new rules.config signer rules.game rules.creator source)⟩)
  | moves {table after : Table γ} {id : String} {move : Move} {result : Except DealError Report}
      (latest : table.Latest id) (line : Line) (same : line.transactions = table.log)
      (moved : Table.move? ⟨line, table.participants⟩ id move = some (result, after)) : Renews table after
  | foreign {table after : Table γ} {tx : Transaction} (outside : ∀ step, tx.category ≠ rules.category step)
      (same : after.participants = table.participants) (appended : after.log = table.log ++ [tx]) :
      Renews table after

/-- The states of such runs that start with an untouched ledger. -/
def Renewed (table : Table γ) : Prop :=
  ∃ start, rules.Untouched start ∧ Relation.ReflTransGen rules.Renews start table

variable {rules}

theorem Renews.next {table after : Table γ} (step : rules.Renews table after) : rules.Next table after := by
  cases step with
  | arrives unused signer source => exact .arrives unused (.plays signer source)
  | moves _ line same moved => exact .moves line same moved
  | foreign outside same appended => exact .foreign outside same appended

theorem Renewed.reachable {table : Table γ} (renewed : rules.Renewed table) : rules.Reachable table := by
  obtain ⟨start, untouched, steps⟩ := renewed
  exact ⟨start, untouched, Relation.ReflTransGen.mono (fun _ _ step => step.next) _ _ steps⟩

/-- A process that starts under a name of its own comes behind all others. -/
theorem Renewed.arrives {table : Table γ} (renewed : rules.Renewed table) (newcomer : Participant γ)
    (unused : table.player? newcomer.id = none) {signer : Signer} {source : γ}
    (starts : newcomer.player = rules.told (.new rules.config signer rules.game rules.creator source)) :
    rules.Renewed (table.place newcomer) ∧ (table.place newcomer).players = table.players ++ [newcomer.player] ∧
      (table.place newcomer).log = table.log := by
  obtain ⟨id, player⟩ := newcomer
  obtain rfl : player = _ := starts
  obtain ⟨start, untouched, steps⟩ := renewed
  refine ⟨⟨start, untouched, steps.tail ?_⟩, ?_, rfl⟩
  · exact .arrives unused signer source
  · rw [Table.players, Table.participants_place_unused unused, List.map_append]
    rfl

end

/-! ## What a process has seen -/

/-- Once the key of its address is announced, the process sees the whole table, or has not looked yet. -/
def Looked (log : Log) (player : Player γ) : Prop :=
  player.address ∈ log.senders (rules.category .publicKey) →
    rules.config.minPlayers ≤ player.session.players.length ∨ player.session.players = [rules.creator]

/-- The last phases speak for what the player has seen. -/
structure Phased (player : Player γ) : Prop where
  decrypting : player.session.phase = .decrypting →
    rules.config.minPlayers ≤ player.session.players.length ∧ player.finishedDeck.isSome
  ready : player.session.phase = .ready →
    rules.config.minPlayers ≤ player.session.players.length ∧ player.session.hand ≠ []

section

variable {rules} {log later : Log} {player next : Player γ}

theorem Fresh.looked (fresh : rules.Fresh player) (log : Log) : rules.Looked log player :=
  fun _ => .inr fresh.blank.1

theorem Fresh.phased (fresh : rules.Fresh player) : rules.Phased player := by
  have waits := fresh.waits.1
  refine ⟨fun phase => ?_, fun phase => ?_⟩
  · cases waits.symm.trans phase
  · cases waits.symm.trans phase

/-- Whoever looks at the seats once its key is announced sees the whole table. -/
theorem Looked.act [RandomSource γ] (valid : rules.config.Valid) (knows : rules.Knows log player)
    (ordered : rules.Ordered log) (looked : rules.Looked log player)
    (act : Act .unreliable ⟨player, log⟩ ⟨next, later⟩) : rules.Looked later next := by
  intro keyed
  rw [act.same.address] at keyed
  have more := (knows.sees_more act).length_le
  -- whoever announces a key sees the whole table, so only a key that was there before is left
  rcases knows.sees_act valid act keyed with old | full
  · rcases looked old with full | single
    · exact .inl (full.trans more)
    · cases act with
      | seats =>
        rw [knows.seated]
        exact .inl (ordered.keys _ old).1.ge
      | deals =>
        unfold Session.setHand
        split <;> exact .inr single
      | _ => exact .inr single
  · exact .inl (full.trans more)

/-- A phase is announced when the facts speak for it. -/
theorem Phased.observes (told : rules.Told player) (phased : rules.Phased player) {phase announced : Phase}
    (observed : phase = (player.session.observe player.progress player.config.minPlayers).phase) :
    rules.Phased { player with session := { player.session with phase }, announced } := by
  -- the phase is the one before, or what is observed, and that speaks for itself
  have reached {last : Phase} (is : phase = last) : player.session.phase = last ∨
      player.session.observedPhase player.progress rules.config.minPlayers = last := by
    rw [Session.observe, told.config] at observed
    rcases Phase.later_or player.session.phase
      (player.session.observedPhase player.progress rules.config.minPlayers) with same | same
    · exact .inl ((observed.trans same).symm.trans is)
    · exact .inr ((observed.trans same).symm.trans is)
  refine ⟨fun is => ?_, fun is => ?_⟩
  · rcases reached is with old | spoken
    · exact phased.decrypting old
    · exact Session.observedPhase_eq_decrypting spoken
  · rcases reached is with old | spoken
    · exact phased.ready old
    · exact Session.observedPhase_eq_ready spoken

theorem Phased.act [RandomSource γ] (knows : rules.Knows log player) (phased : rules.Phased player)
    (act : Act .unreliable ⟨player, log⟩ ⟨next, later⟩) : rules.Phased next := by
  cases act with
  | seats =>
    rw [knows.seated]
    have more := knows.view.length_le
    exact ⟨fun is => ⟨(phased.decrypting is).1.trans more, (phased.decrypting is).2⟩,
      fun is => ⟨(phased.ready is).1.trans more, (phased.ready is).2⟩⟩
  | finishes => exact ⟨fun is => ⟨(phased.decrypting is).1, rfl⟩, phased.ready⟩
  | deals =>
    unfold Session.setHand
    split
    · exact phased
    · rename_i fresh
      exact ⟨phased.decrypting, fun is => ⟨(phased.ready is).1, fun none => fresh (.inr none)⟩⟩
  | observes phase announced observed => exact phased.observes knows.told observed
  | _ => exact ⟨phased.decrypting, phased.ready⟩

end

/-! ## Every process -/

/-- What the processes of a run have seen: hands and finished decks come from the whole table, and the latest
process of an address has seen it once its key is announced, or has not looked. -/
structure Current (players : List (Player γ)) (log : Log) : Prop where
  looked : ∀ front p back, players = front ++ p :: back → (∀ q ∈ back, q.address ≠ p.address) → rules.Looked log p
  viewed : ∀ p ∈ players, rules.Viewed log True p
  phased : ∀ p ∈ players, rules.Phased p

section

variable {rules} {log later : Log} {players front back : List (Player γ)} {player next : Player γ}

theorem Current.arrival (current : rules.Current players log) (fresh : rules.Fresh player) :
    rules.Current (players ++ [player]) log := by
  refine ⟨fun front p back split last => ?_, fun p member => ?_, fun p member => ?_⟩
  · rcases places_of_append_cons split with ⟨-, rfl, -⟩ | ⟨between, rfl, rfl⟩ | ⟨between, none, -⟩
    · exact fresh.looked log
    · exact current.looked front p between rfl fun q member => last q (List.mem_append_left _ member)
    · simp at none
  · rcases List.mem_append.1 member with old | new
    · exact current.viewed p old
    · exact List.mem_singleton.1 new ▸ fresh.viewed log True
  · rcases List.mem_append.1 member with old | new
    · exact current.phased p old
    · exact List.mem_singleton.1 new ▸ fresh.phased

theorem Current.foreign (valid : rules.config.Valid) (current : rules.Current players log)
    (ordered : rules.Ordered log) {tx : Transaction} (outside : ∀ step, tx.category ≠ rules.category step) :
    rules.Current players (log ++ [tx]) := by
  refine ⟨fun front p back split last keyed => current.looked front p back split last ?_, fun p member => ?_,
    current.phased⟩
  · rwa [Log.senders_append_of_ne (outside .publicKey)] at keyed
  · exact (current.viewed p member).grows valid ordered id (grows_foreign outside)

/-- What the latest process of an address does takes nothing away. -/
theorem Current.act [RandomSource γ] (valid : rules.config.Valid)
    (last : ∀ q ∈ back, q.address ≠ player.address) (knows : rules.Knows log player) (ordered : rules.Ordered log)
    (current : rules.Current (front ++ player :: back) log) (act : Act .unreliable ⟨player, log⟩ ⟨next, later⟩) :
    rules.Current (front ++ next :: back) later := by
  have grows := knows.told.grows act
  have mine := current.looked front player back rfl last
  -- nobody else announces a key
  have keyed {p : Player γ} (apart : p.address ≠ player.address)
      (member : p.address ∈ later.senders (rules.category .publicKey)) :
      p.address ∈ log.senders (rules.category .publicKey) :=
    (knows.told.keyed_of_act act member).resolve_right apart
  refine ⟨fun front' p back' split last' => ?_, fun p member => ?_, fun p member => ?_⟩
  -- the process that acts, one before it, or one after it
  · rcases places_of_append_cons split with ⟨-, rfl, -⟩ | ⟨between, rfl, rfl⟩ | ⟨between, rfl, rfl⟩
    · exact mine.act valid knows ordered act
    · have apart : p.address ≠ player.address := by
        rw [← act.same.address]
        exact (last' next (by simp)).symm
      refine fun member => current.looked front' p (between ++ player :: back) (by simp) (fun q among => ?_)
        (keyed apart member)
      rcases mem_replaced next among with rfl | ⟨-, behind⟩
      · exact apart.symm
      · exact last' q behind
    · have apart := last p (by simp)
      exact fun member => current.looked (front ++ player :: between) p back' (by simp) last' (keyed apart member)
  · rcases mem_replaced player member with rfl | ⟨-, old⟩
    · have viewed : rules.Viewed log (player.keys.isSome ∨ True) player :=
        (current.viewed player (by simp)).grows valid ordered (fun _ => trivial) (.refl log)
      exact (viewed.act valid knows ordered (fun _ => mine) act).grows valid (ordered.act valid knows act)
        (fun _ => .inr trivial) (.refl later)
    · exact (current.viewed p old).grows valid ordered id grows
  · rcases mem_replaced player member with rfl | ⟨-, old⟩
    · exact (current.phased player (by simp)).act knows act
    · exact current.phased p old

end

/-- The invariant of a run with restarts. -/
structure Tracked (rules : Rules) (players : List (Player γ)) (log : Log) : Prop where
  history : rules.History log
  knows : ∀ p ∈ players, rules.Knows log p
  current : rules.Current players log

theorem Tracked.course [RandomSource γ] {rules : Rules} (valid : rules.config.Valid) {front back : List (Player γ)}
    {scene after : Scene γ} (course : Course .unreliable scene after)
    (last : ∀ q ∈ back, q.address ≠ scene.player.address)
    (tracked : rules.Tracked (front ++ scene.player :: back) scene.log) :
    rules.Tracked (front ++ after.player :: back) after.log := by
  have kept := kept_history_and_knowledge (γ := γ) valid
  induction course with
  | refl => exact tracked
  | @tail middle after before act ih =>
    have apart : ∀ q ∈ back, q.address ≠ middle.player.address := by
      rw [(Course.same before).address]
      exact last
    obtain ⟨history, knows⟩ := kept.act front back _ _ _ _ ⟨ih.history, ih.knows⟩ act
    exact ⟨history, knows, ih.current.act valid apart (ih.knows _ (by simp)) ih.history.ordered act⟩

/-- So it is in every state of such a run. -/
theorem Renewed.tracked [RandomSource γ] {rules : Rules} (valid : rules.config.Valid) {table : Table γ}
    (renewed : rules.Renewed table) : rules.Tracked table.players table.log := by
  have kept := kept_history_and_knowledge (γ := γ) valid
  obtain ⟨start, untouched, steps⟩ := renewed
  induction steps with
  | refl =>
    obtain ⟨⟨history, knows⟩, -⟩ := kept.untouched untouched
    refine ⟨history, knows, ?_⟩
    rw [Table.players, untouched.nobody]
    exact ⟨by simp, by simp, by simp⟩
  | @tail before after steps step ih =>
    obtain ⟨-, named⟩ := kept.reachable (Renewed.reachable ⟨start, untouched, steps⟩)
    obtain ⟨⟨history, knows⟩, -⟩ := kept.next step.next ⟨ih.history, ih.knows⟩ named
    refine ⟨history, knows, ?_⟩
    cases step with
    | arrives unused signer source =>
      rw [Table.players, Table.participants_place_unused unused, List.map_append]
      exact ih.current.arrival (.plays signer source)
    | @moves _ id _ _ latest line same moved =>
      have named' : Table.Named ⟨line, before.participants⟩ := named
      obtain ⟨front, back, player, next, split, split', course⟩ :=
        Table.move?_course named' moved fun player _ => Line.meets _ line
      have last := latest.last named split
      have tracked : rules.Tracked before.players before.log := ⟨ih.history, ih.knows, ih.current⟩
      replace split : before.participants = front ++ ⟨id, player⟩ :: back := split
      rw [Table.players, split, List.map_append, List.map_cons, ← same] at tracked
      rw [Table.players, split', List.map_append, List.map_cons]
      refine (tracked.course valid course fun q member => ?_).current
      obtain ⟨p, behind, rfl⟩ := List.mem_map.1 member
      exact last p behind
    | foreign outside same appended =>
      rw [Table.players, same, appended]
      exact ih.current.foreign valid ih.history.ordered outside

end Rules

end MentalPoker
