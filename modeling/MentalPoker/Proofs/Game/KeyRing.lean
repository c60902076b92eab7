/-
Key rings: a key that is found was recorded, and a ring with as many keys as there are other players
at a table has the key of every one of them.
-/
import MentalPoker.Game.Role
import Mathlib.Data.List.Perm.Subperm
import Mathlib.Data.List.Nodup

namespace MentalPoker

namespace KeyRing

variable {ring : KeyRing} {player : Address} {key : Point}

/-- The players whose keys are on the ring. -/
def names (ring : KeyRing) : List Address := ring.entries.map (·.1)

theorem mem_of_get? (h : ring.get? player = some key) : (player, key) ∈ ring.entries := by
  obtain ⟨before, after, split, -⟩ := List.lookup_eq_some_iff.1 h
  rw [split]
  simp

theorem contains_iff : ring.contains player = true ↔ player ∈ ring.names := by
  rw [contains, get?, Option.isSome_iff_ne_none, Ne, List.lookup_eq_none_iff, names]
  simp only [List.mem_map, not_forall]
  grind

theorem exists_key (h : player ∈ ring.names) : ∃ key, ring.get? player = some key := by
  rw [← contains_iff, contains] at h
  exact Option.isSome_iff_exists.1 h

/-- Recording keeps what is on the ring and adds the key, unless there is one. -/
theorem names_record (ring : KeyRing) (player : Address) (key : Point) :
    (ring.record player key).2.names =
      if player ∈ ring.names then ring.names else ring.names ++ [player] := by
  rw [record, names, names]
  simp only [contains_iff, names]
  split <;> simp

theorem mem_record {a : Address} {k : Point} (h : (a, k) ∈ (ring.record player key).2.entries) :
    (a, k) ∈ ring.entries ∨ (a, k) = (player, key) := by
  unfold record at h
  split at h
  · exact .inl h
  · rcases List.mem_append.1 h with old | new
    · exact .inl old
    · exact .inr (List.mem_singleton.1 new)

theorem nodup_record (once : ring.names.Nodup) : (ring.record player key).2.names.Nodup := by
  rw [names_record]
  split
  · exact once
  · rename_i new
    exact once.append (List.nodup_singleton player) (List.disjoint_singleton.2 new)

/-- A player without a key has the new one, and everybody else's is as before. -/
theorem get?_record_eq (ring : KeyRing) (player : Address) (key : Point) (a : Address) :
    (ring.record player key).2.get? a = (ring.get? a).or (if a = player then some key else none) := by
  unfold record
  split
  · rename_i known
    by_cases same : a = player
    · obtain ⟨first, found⟩ := Option.isSome_iff_exists.1 (same ▸ known)
      rw [found, Option.some_or]
    · rw [if_neg same, Option.or_none]
  · have added : [(player, key)].lookup a = if a = player then some key else none := by
      by_cases same : a = player
      · simp [same]
      · rw [if_neg same, List.lookup_cons, beq_false_of_ne same, List.lookup_nil]
    rw [get?, List.lookup_append, added, get?]

/-- The first key of a player is kept. -/
theorem get?_record {other : Address} {first : Point} (h : ring.get? other = some first) :
    (ring.record player key).2.get? other = some first := by
  rw [get?_record_eq, h, Option.some_or]

theorem record_of_contains (h : ring.contains player = true) : ring.record player key = (false, ring) :=
  if_pos h

theorem contains_record {other : Address} (h : ring.contains other = true) :
    (ring.record player key).2.contains other = true := by
  rw [contains_iff, names_record]
  rw [contains_iff] at h
  split
  · exact h
  · exact List.mem_append_left _ h

/-! ## Learning keys one after another -/

/-- The ring once the keys of several players have been looked for, in order. -/
def learn (keyOf : Address → Option Point) (ring : KeyRing) (others : List Address) : KeyRing :=
  others.foldl (fun ring other => (keyOf other).elim ring fun key => (ring.record other key).2) ring

section

variable {keyOf : Address → Option Point} {others : List Address} {a : Address}

theorem learn_cons (ring : KeyRing) (other : Address) (others : List Address) :
    learn keyOf ring (other :: others) =
      learn keyOf ((keyOf other).elim ring fun key => (ring.record other key).2) others :=
  rfl

theorem learn_append (ring : KeyRing) (xs ys : List Address) :
    learn keyOf ring (xs ++ ys) = learn keyOf (learn keyOf ring xs) ys :=
  List.foldl_append

/-- Whoever is looked for has the key that is found, unless one was known before. -/
theorem get?_learn (ring : KeyRing) (others : List Address) (a : Address) :
    (learn keyOf ring others).get? a = (ring.get? a).or (if a ∈ others then keyOf a else none) := by
  induction others generalizing ring with
  | nil => rw [if_neg List.not_mem_nil, Option.or_none]; rfl
  | cons other others ih =>
    rw [learn_cons]
    cases found : keyOf other with
    | none =>
      rw [Option.elim_none, ih]
      by_cases same : a = other
      · simp [same, found]
      · simp [same]
    | some key =>
      rw [Option.elim_some, ih, get?_record_eq, Option.or_assoc]
      by_cases same : a = other
      · simp [same, found]
      · simp [same]

/-- Who is on the ring makes no difference when looked for again. -/
theorem learn_cons_of_contains (h : ring.contains a = true) :
    learn keyOf ring (a :: others) = learn keyOf ring others := by
  rw [learn_cons]
  cases keyOf a with
  | none => rfl
  | some key => rw [Option.elim_some, record_of_contains h]

theorem contains_learn (h : ring.contains a = true) : (learn keyOf ring others).contains a = true := by
  obtain ⟨key, known⟩ := Option.isSome_iff_exists.1 h
  rw [contains, get?_learn, known, Option.some_or]
  rfl

/-- Whoever has been looked for is on the ring, or has no key to be found. -/
theorem contains_learn_of_mem (h : a ∈ others) : (learn keyOf ring others).contains a = true ∨ keyOf a = none := by
  rw [contains, get?_learn, if_pos h]
  cases found : keyOf a with
  | none => exact .inr rfl
  | some key => exact .inl (by rw [Option.isSome_or, Option.isSome_some, Bool.or_true])

theorem learn_congr {keyOf' : Address → Option Point} (ring : KeyRing) (same : ∀ a ∈ others, keyOf a = keyOf' a) :
    learn keyOf ring others = learn keyOf' ring others :=
  List.foldl_ext _ _ ring fun ring a member => by rw [same a member]

/-- Looking again for those who have been looked for brings nothing new. -/
theorem learn_of_known (h : ∀ a ∈ others, ring.contains a = true ∨ keyOf a = none) :
    learn keyOf ring others = ring := by
  induction others with
  | nil => rfl
  | cons other others ih =>
    have rest := ih fun a later => h a (List.mem_cons_of_mem _ later)
    rcases h other List.mem_cons_self with known | none
    · rw [learn_cons_of_contains known, rest]
    · rw [learn_cons, none, Option.elim_none, rest]

theorem learn_learn (ring : KeyRing) (others : List Address) :
    learn keyOf (learn keyOf ring others) others = learn keyOf ring others :=
  learn_of_known fun _ member => contains_learn_of_mem member

/-- Those who are on the ring need not be looked for. -/
theorem learn_filter {wanted : Address → Bool} (h : ∀ a ∈ others, wanted a = false → ring.contains a = true) :
    learn keyOf ring (others.filter wanted) = learn keyOf ring others := by
  induction others generalizing ring with
  | nil => rfl
  | cons other others ih =>
    have rest (a : Address) (later : a ∈ others) := h a (List.mem_cons_of_mem _ later)
    by_cases asked : wanted other = true
    · rw [List.filter_cons_of_pos asked, learn_cons, learn_cons]
      cases keyOf other with
      | none => exact ih rest
      | some key => exact ih fun a later unasked => contains_record (rest a later unasked)
    · have known := h other List.mem_cons_self (Bool.eq_false_iff.2 asked)
      rw [List.filter_cons_of_neg asked, learn_cons_of_contains known]
      exact ih rest

end

end KeyRing

/-- The keys a player misses are those of others at the table. -/
theorem Session.mem_players_of_missingKeys {session : Session} {me other : Address} {ring : KeyRing}
    (missing : other ∈ session.missingKeys me ring) : other ∈ session.players ∧ other ≠ me := by
  obtain ⟨seated, wanted⟩ := List.mem_filter.1 missing
  rw [Bool.and_eq_true, decide_eq_true_eq] at wanted
  exact ⟨seated, wanted.1⟩

/-- Looking for the missing keys brings those that are found of everybody else at the table. -/
theorem Session.get?_learn_missingKeys (keyOf : Address → Option Point) (session : Session) (me : Address)
    (ring : KeyRing) (a : Address) : (ring.learn keyOf (session.missingKeys me ring)).get? a =
      (ring.get? a).or (if a ∈ session.players ∧ a ≠ me then keyOf a else none) := by
  rw [KeyRing.get?_learn]
  cases known : ring.get? a with
  | some key => rw [Option.some_or, Option.some_or]
  | none =>
    have missing : a ∈ session.missingKeys me ring ↔ a ∈ session.players ∧ a ≠ me := by
      simp [missingKeys, KeyRing.contains, known]
    simp only [missing]

/-- Whoever breaks off looking for the missing keys finds the rest when looking again. -/
theorem Session.learn_missingKeys (keyOf : Address → Option Point) {session : Session} {me : Address} {ring : KeyRing}
    {done rest : List Address} (split : session.missingKeys me ring = done ++ rest) :
    (ring.learn keyOf done).learn keyOf (session.missingKeys me (ring.learn keyOf done)) =
      ring.learn keyOf (session.missingKeys me ring) := by
  have left : session.missingKeys me (ring.learn keyOf done) =
      (session.missingKeys me ring).filter fun a => !(ring.learn keyOf done).contains a := by
    simp only [missingKeys, List.filter_filter]
    refine List.filter_congr fun a _ => ?_
    by_cases known : ring.contains a = true
    · simp [known, KeyRing.contains_learn known]
    · simp [known, Bool.and_comm]
  have known (a : Address) (_ : a ∈ session.missingKeys me ring)
      (h : (!(ring.learn keyOf done).contains a) = false) : (ring.learn keyOf done).contains a = true := by
    simpa using h
  rw [left, KeyRing.learn_filter known, split, KeyRing.learn_append, KeyRing.learn_learn, KeyRing.learn_append]

/-- The owner of a ring and those whose keys are on it have a seat each. -/
theorem Session.names_subperm {session : Session} {ring : KeyRing} {me : Address} (once : ring.names.Nodup)
    (seated : ∀ a ∈ ring.names, a ∈ session.players ∧ a ≠ me) (mine : me ∈ session.players) :
    (me :: ring.names).Subperm session.players := by
  have mineNew : me ∉ ring.names := fun h => (seated me h).2 rfl
  refine List.subperm_of_subset (List.nodup_cons.2 ⟨mineNew, once⟩) fun a member => ?_
  rcases List.mem_cons.1 member with rfl | member
  · exact mine
  · exact (seated a member).1

/-- A ring that is complete has the key of everybody else at the table. -/
theorem Session.mem_names_of_keysComplete {session : Session} {ring : KeyRing} {me other : Address}
    (complete : session.keysComplete ring = true) (once : ring.names.Nodup)
    (seated : ∀ a ∈ ring.names, a ∈ session.players ∧ a ≠ me) (mine : me ∈ session.players)
    (theirs : other ∈ session.players) (apart : other ≠ me) : other ∈ ring.names := by
  have count : ring.names.length + 1 = session.players.length := by
    simpa [keysComplete, KeyRing.size, KeyRing.names] using complete
  -- the owner and the names are as many as the seats, so they are the seats
  have perm : (me :: ring.names).Perm session.players :=
    (names_subperm once seated mine).perm_of_length_le (by rw [List.length_cons]; omega)
  rcases List.mem_cons.1 (perm.mem_iff.2 theirs) with same | member
  · exact absurd same apart
  · exact member

/-- A ring that is complete stays so while more keys are learned, since there are no more seats. -/
theorem Session.keysComplete_of_subset {session : Session} {ring more : KeyRing} {me : Address}
    (complete : session.keysComplete ring = true) (once : ring.names.Nodup) (subset : ring.names ⊆ more.names)
    (onceMore : more.names.Nodup) (seated : ∀ a ∈ more.names, a ∈ session.players ∧ a ≠ me)
    (mine : me ∈ session.players) : session.keysComplete more = true := by
  have least := (List.subperm_of_subset once subset).length_le
  have most := (names_subperm onceMore seated mine).length_le
  simp only [keysComplete, KeyRing.size, KeyRing.names, beq_iff_eq, List.length_cons, List.length_map] at *
  omega

/-- A ring with the key of everybody else at the table is complete. -/
theorem Session.keysComplete_of_mem {session : Session} {ring : KeyRing} {me : Address}
    (nodup : session.players.Nodup) (once : ring.names.Nodup)
    (seated : ∀ a ∈ ring.names, a ∈ session.players ∧ a ≠ me) (mine : me ∈ session.players)
    (all : ∀ a ∈ session.players, a ≠ me → a ∈ ring.names) : session.keysComplete ring = true := by
  have mineNew : me ∉ ring.names := fun h => (seated me h).2 rfl
  have same : (me :: ring.names).Perm session.players := by
    refine (List.perm_ext_iff_of_nodup (List.nodup_cons.2 ⟨mineNew, once⟩) nodup).2 fun a => ?_
    rw [List.mem_cons]
    constructor
    · rintro (rfl | member)
      · exact mine
      · exact (seated a member).1
    · exact fun member => or_iff_not_imp_left.2 (all a member)
  have count := same.length_eq
  rw [List.length_cons, KeyRing.names, List.length_map] at count
  simp [keysComplete, KeyRing.size, count]

end MentalPoker
