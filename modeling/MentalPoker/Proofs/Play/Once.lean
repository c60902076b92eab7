/-
Everything once. Whatever others append in the meantime, whichever requests fail, whichever replies
are lost, and however often its process starts over, a player files at most one transaction for
each step, because it has looked for its own before, and nobody else can have filed that one.
-/
import MentalPoker.Proofs.Play.Knowledge

namespace MentalPoker

/-! ## A line that others use -/

/-- A line, and what others append before each of the next requests is answered. -/
structure Crowd where
  line : Line
  batches : List (List Transaction)

namespace Crowd

def log (crowd : Crowd) : Log := crowd.line.transactions

/-- Lets the others append, and answers. -/
def answer (request : Request) (crowd : Crowd) : request.Answer × Crowd :=
  let transactions := crowd.line.transactions ++ crowd.batches.head?.getD []
  let journal := { crowd.line.journal with transactions }
  let (a, line) := Line.answer request { crowd.line with journal }
  (a, ⟨line, crowd.batches.tail⟩)

end Crowd

namespace Rules

variable {γ : Type} (rules : Rules)

/-- A transaction that is not the player's, or has nothing to do with the game. -/
def Others (a : Address) (tx : Transaction) : Prop := tx.sender = a → ∀ step, tx.category ≠ rules.category step

/-- Others write at any time, requests fail, and replies are lost. -/
def crowded (a : Address) : Conditions where
  others log later := ∃ more, later = log ++ more ∧ ∀ tx ∈ more, rules.Others a tx
  others_trans := by
    rintro log seen later ⟨more, rfl, first⟩ ⟨more', rfl, second⟩
    refine ⟨more ++ more', List.append_assoc log more more', fun tx member => ?_⟩
    exact (List.mem_append.1 member).elim (first tx) (second tx)
  fails := True
  loses _ := True

/-- A process that plays for the address, whoever it would like to deal. -/
def Starts (a : Address) (player : Player γ) : Prop :=
  player.address = a ∧ ∃ dealer, Fresh { rules with dealer } player

/-- What happens to an address: its process moves while others write, it starts over, or the others
write between two moves. -/
inductive Lives [RandomSource γ] (a : Address) : Scene γ → Scene γ → Prop
  | moves {player : Player γ} {log : Log} (move : Move) (crowd : Crowd) (same : crowd.log = log)
      (others : ∀ batch ∈ crowd.batches, ∀ tx ∈ batch, rules.Others a tx) :
      Lives a ⟨player, log⟩
        ⟨(move.turn.take Crowd.answer player crowd).2.1, (move.turn.take Crowd.answer player crowd).2.2.log⟩
  | restarts {player next : Player γ} {log : Log} (starts : rules.Starts a next) :
      Lives a ⟨player, log⟩ ⟨next, log⟩
  | others {player : Player γ} {log more : Log} (others : ∀ tx ∈ more, rules.Others a tx) :
      Lives a ⟨player, log⟩ ⟨player, log ++ more⟩

/-- The process acts for the address, and the address has filed everything at most once. -/
structure Own (a : Address) (scene : Scene γ) : Prop where
  config : scene.player.config = rules.config
  game : scene.player.session.game = rules.game
  creator : scene.player.session.creator = rules.creator
  address : scene.player.address = a
  signs : ∀ signer, scene.player.signer = some signer → signer.address = a
  once : ∀ step, (scene.log.senders (rules.category step)).count a ≤ 1
  stays : a = rules.creator → a ∉ scene.log.senders (rules.category .join)

section

variable {rules} {a : Address} {player next : Player γ} {log later : Log}

/-- What others append is not the address's. -/
theorem count_append_others {more : Log} (others : ∀ tx ∈ more, rules.Others a tx) (step : Step) :
    ((log ++ more).senders (rules.category step)).count a =
      (log.senders (rules.category step)).count a := by
  have none : a ∉ more.senders (rules.category step) := by
    intro member
    obtain ⟨tx, filed, sender⟩ := List.mem_map.1 member
    obtain ⟨inside, category⟩ := List.mem_filter.1 filed
    exact others tx inside sender step (of_decide_eq_true category)
  rw [Log.senders, Log.filed, List.filter_append, List.map_append, List.count_append]
  rw [Log.senders, Log.filed] at none
  rw [List.count_eq_zero.2 none]
  rfl

theorem Own.others {more : Log} (own : rules.Own a ⟨player, log⟩)
    (others : ∀ tx ∈ more, rules.Others a tx) : rules.Own a ⟨player, log ++ more⟩ := by
  refine ⟨own.config, own.game, own.creator, own.address, own.signs, fun step => ?_, fun creates => ?_⟩
  · rw [count_append_others others]
    exact own.once step
  · rw [← List.count_eq_zero, count_append_others others, List.count_eq_zero]
    exact own.stays creates

/-- A player that has found none of its own files its first. -/
theorem Own.files (valid : rules.config.Valid) (own : rules.Own a ⟨player, log⟩) {signer : Signer}
    {step : Step} (signs : player.signer = some signer)
    (unfiled : (Scene.mk player log).Unfiled (rules.crowded a) step)
    (newcomer : step = .join → player.address ≠ player.session.creator) (recipients : List Address)
    (payload : Bytes) : rules.Own a
      ⟨player, log ++ [Log.filing log signer (player.category step) recipients payload]⟩ := by
  have filedIn : player.category step = rules.category step := by
    rw [Player.category, own.config, own.game, Rules.category]
  have sender : signer.address = a := own.signs signer signs
  have address : player.address = a := own.address
  -- nobody else can have filed it since
  have first : (log.senders (rules.category step)).count a = 0 := by
    obtain ⟨seen, ⟨more, rfl, others⟩, none⟩ := unfiled
    replace none : player.address ∉ seen.senders (player.category step) := none
    rw [filedIn, address] at none
    rw [count_append_others others, List.count_eq_zero.2 none]
  refine ⟨own.config, own.game, own.creator, own.address, own.signs, fun other => ?_, fun creates => ?_⟩
  · by_cases same : step = other
    · subst same
      rw [Log.senders_append_of_eq (by exact filedIn), List.count_append, first, Nat.zero_add]
      exact List.count_le_length
    · rw [Log.senders_append_of_ne (fun h => same (valid.category_inj (filedIn.symm.trans h)))]
      exact own.once other
  · rw [Log.senders_append_of_ne]
    · exact own.stays creates
    · intro h
      obtain rfl := valid.category_inj (filedIn.symm.trans h)
      rw [address, own.creator] at newcomer
      exact newcomer rfl creates

theorem Own.act [RandomSource γ] (valid : rules.config.Valid) (own : rules.Own a ⟨player, log⟩)
    (act : Act (rules.crowded a) ⟨player, log⟩ ⟨next, later⟩) : rules.Own a ⟨next, later⟩ := by
  have same := act.same
  have filed : rules.Own a ⟨player, later⟩ := by
    rcases act.files with ⟨more, rfl, others⟩ | rfl | ⟨signer, step, recipients, payload, signs, unfiled, newcomer, rfl⟩
    · exact own.others others
    · exact own
    · exact own.files valid signs unfiled newcomer recipients payload
  exact ⟨same.config.trans own.config, same.game.trans own.game, same.creator.trans own.creator,
    same.address.trans own.address, fun signer signs => own.signs signer (same.signer ▸ signs), filed.once,
    filed.stays⟩

theorem Own.course [RandomSource γ] (valid : rules.config.Valid) {scene after : Scene γ} (own : rules.Own a scene)
    (course : Course (rules.crowded a) scene after) : rules.Own a after := by
  induction course with
  | refl => exact own
  | tail _ act ih => exact ih.act valid act

/-- No run on a line that others use is worse than crowded. -/
theorem Crowd.meets {α : Type} (d : Dialogue α) {crowd : Crowd}
    (others : ∀ batch ∈ crowd.batches, ∀ tx ∈ batch, rules.Others a tx) :
    d.Meets (rules.crowded a) Crowd.answer Crowd.log crowd := by
  refine Dialogue.meets_of_forall
    (I := fun crowd : Crowd => ∀ batch ∈ crowd.batches, ∀ tx ∈ batch, rules.Others a tx) ?_ d others
  intro request crowd others
  refine ⟨fun batch member => others batch (List.mem_of_mem_tail member), _, ⟨_, rfl, ?_⟩,
    Line.answer_exchange request _⟩
  cases batches : crowd.batches with
  | nil => simp
  | cons batch rest => exact others batch (batches ▸ List.mem_cons_self)

theorem Own.start {rules : Rules} (starts : rules.Starts a player)
    (once : ∀ step, (log.senders (rules.category step)).count a ≤ 1)
    (stays : a = rules.creator → a ∉ log.senders (rules.category .join)) :
    rules.Own a ⟨player, log⟩ := by
  obtain ⟨rfl, dealer, fresh⟩ := starts
  have told := fresh.told
  exact ⟨told.config, told.game, told.creator, rfl, told.signs, once, stays⟩

theorem Own.lives [RandomSource γ] (valid : rules.config.Valid) {scene after : Scene γ}
    (own : rules.Own a scene) (step : rules.Lives a scene after) : rules.Own a after := by
  cases step with
  | @moves player log move crowd same others =>
    subst same
    exact own.course valid (Turn.Ensures.take (Crowd.meets _ others) (move.turn_runs player crowd.log))
  | restarts starts => exact .start starts own.once own.stays
  | others others => exact own.others others

end

/-- Whatever befalls an address, it files at most one transaction for each step, and none to join its
own game. -/
theorem files_at_most_once [RandomSource γ] {rules : Rules} (valid : rules.config.Valid) {a : Address}
    {start scene : Scene γ} (starts : rules.Starts a start.player)
    (unfiled : ∀ step, a ∉ start.log.senders (rules.category step))
    (lived : Relation.ReflTransGen (rules.Lives a) start scene) :
    (∀ step, (scene.log.senders (rules.category step)).count a ≤ 1) ∧
      (a = rules.creator → a ∉ scene.log.senders (rules.category .join)) := by
  have own : rules.Own a scene := by
    induction lived with
    | refl =>
      exact .start starts (fun step => by rw [List.count_eq_zero.2 (unfiled step)]; omega)
        fun _ => unfiled .join
    | tail _ step ih => exact ih.lives valid step
  exact ⟨own.once, own.stays⟩

/-- A player that starts over after the reply to its joining was lost, while somebody else joins. -/
theorem files_at_most_once_restarted : ∃ start scene : Scene (Seeded id),
    Relation.ReflTransGen (forThree.Lives ⟨"bob"⟩) start scene ∧
      scene.log.senders (forThree.category .join) = [⟨"carol"⟩, ⟨"bob"⟩] ∧
      ∀ step, (scene.log.senders (forThree.category step)).count ⟨"bob"⟩ ≤ 1 := by
  generalize start : Player.new (γ := Seeded id) forThree.config ⟨⟨"bob"⟩, []⟩ forThree.game
    forThree.creator ⟨[], 0⟩ = bob
  have starts : forThree.Starts ⟨"bob"⟩ bob := start ▸ ⟨rfl, none, .plays _ _⟩
  have others : ∀ batch ∈ [[Log.filing [] ⟨⟨"carol"⟩, []⟩ (forThree.category .join) [forThree.creator] []]],
      ∀ tx ∈ batch, forThree.Others ⟨"bob"⟩ tx := by
    simp [Log.filing, Others]
  obtain ⟨scene, lived, joined⟩ : ∃ scene, Relation.ReflTransGen (forThree.Lives ⟨"bob"⟩) ⟨bob, []⟩ scene ∧
      scene.log.senders (forThree.category .join) = [⟨"carol"⟩, ⟨"bob"⟩] :=
    ⟨_, ((Relation.ReflTransGen.single
        (.moves .join ⟨⟨.empty, [.passes, .losesReply], []⟩, [_]⟩ rfl others)).tail (.restarts starts)).tail
      (.moves .join ⟨⟨⟨_, 0, 0⟩, [], []⟩, []⟩ rfl (by simp)), by subst start; decide +kernel⟩
  exact ⟨_, scene, lived, joined,
    (files_at_most_once forThree_valid starts (fun _ => List.not_mem_nil) lived).1⟩

end Rules

end MentalPoker
