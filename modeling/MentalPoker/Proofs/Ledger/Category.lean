/-
The categories of a game. A category is as much of the start, the tag, a colon and the game as the ledger takes,
cut where a character ends. A valid configuration leaves room for all but the game, so that the cut never reaches
the part in which two steps differ: the categories of a game are four different ones, and those of two games are
told apart by what is left of the games. Room is counted in bytes, and a character takes up to four: so nothing at
all may be left of a game.
-/
import MentalPoker.Proofs.Config.Valid
import Mathlib.Data.String.Basic
import Mathlib.Tactic.Common

namespace MentalPoker

namespace Category

/-! ## The cut -/

/-- Characters that fit are kept, and what follows them is cut to the room they leave. -/
theorem cut_append : ∀ {front : List Char} {size : Nat}, String.utf8Len front ≤ size →
    ∀ rest, cut size (front ++ rest) = front ++ cut (size - String.utf8Len front) rest
  | [], size, _, rest => by simp
  | c :: front, size, fits, rest => by
    rw [String.utf8Len_cons] at fits ⊢
    rw [List.cons_append, cut, if_pos (by omega), cut_append (by omega) rest, List.cons_append,
      Nat.sub_sub, Nat.add_comm c.utf8Size]

theorem cut_begins (size : Nat) (text : List Char) : cut size text <+: text := by
  induction text generalizing size with
  | nil => exact List.prefix_rfl
  | cons c text ih =>
    unfold cut
    split
    · exact List.cons_prefix_cons.2 ⟨rfl, ih _⟩
    · exact List.nil_prefix

theorem utf8Len_cut_le (size : Nat) (text : List Char) : String.utf8Len (cut size text) ≤ size := by
  induction text generalizing size with
  | nil => exact Nat.zero_le size
  | cons c text ih =>
    unfold cut
    split
    · have rest := ih (size - c.utf8Size)
      rw [String.utf8Len_cons]
      omega
    · exact Nat.zero_le size

/-- What begins the text and fits is kept. -/
theorem prefix_cut {size : Nat} {front text : List Char} (begins : front <+: text)
    (fits : String.utf8Len front ≤ size) : front <+: cut size text := by
  obtain ⟨rest, rfl⟩ := begins
  rw [cut_append fits]
  exact List.prefix_append _ _

/-- The longest beginning of a text that ends with a character and takes at most `size` bytes. -/
structure LongestWithin (size : Nat) (text front : String) : Prop where
  begins : ∃ rest, text = front ++ rest
  fits : front.utf8ByteSize ≤ size
  /-- No later place between two characters is within reach. -/
  longest : ∀ place : String.Pos.Raw, place.IsValid text → place.byteIdx ≤ size →
    place.byteIdx ≤ front.utf8ByteSize

theorem longestWithin_cut (size : Nat) (text : String) :
    LongestWithin size text (String.ofList (cut size text.toList)) where
  begins := by
    obtain ⟨rest, split⟩ := cut_begins size text.toList
    exact ⟨String.ofList rest, by rw [← String.ofList_append, split, String.ofList_toList]⟩
  fits := by
    rw [String.utf8ByteSize_ofList]
    exact utf8Len_cut_le size text.toList
  longest place valid within := by
    obtain ⟨front, rest, rfl, rfl⟩ := String.Pos.Raw.isValid_iff_exists_append.1 valid
    have kept : front.toList <+: cut size (front ++ rest).toList := by
      refine prefix_cut ⟨rest.toList, String.toList_append.symm⟩ ?_
      rw [String.utf8Len_toList]
      exact within
    have shorter := String.utf8Len_le_of_prefix kept
    rwa [String.utf8Len_toList, ← String.utf8ByteSize_ofList] at shorter

/-- A beginning that is no shorter is the whole. -/
theorem eq_of_begins {front text : List Char} (begins : front <+: text)
    (most : String.utf8Len text ≤ String.utf8Len front) : front = text := by
  obtain ⟨rest, rfl⟩ := begins
  rw [String.utf8Len_append] at most
  have none : rest = [] := String.utf8Len_eq_zero.1 (by omega)
  rw [none, List.append_nil]

theorem LongestWithin.isPrefix {size : Nat} {text front : String} (h : LongestWithin size text front) :
    front.toList <+: text.toList := by
  obtain ⟨rest, rfl⟩ := h.begins
  exact ⟨rest.toList, String.toList_append.symm⟩

/-- Whatever else ends with a character within reach is no longer. -/
theorem LongestWithin.le {size : Nat} {text front other : String} (h : LongestWithin size text front)
    (h' : LongestWithin size text other) : String.utf8Len other.toList ≤ String.utf8Len front.toList := by
  rw [String.utf8Len_toList, String.utf8Len_toList]
  obtain ⟨rest, split⟩ := h'.begins
  exact h.longest other.rawEndPos (String.Pos.Raw.isValid_iff_exists_append.2 ⟨other, rest, split, rfl⟩) h'.fits

theorem LongestWithin.unique {size : Nat} {text front other : String} (h : LongestWithin size text front)
    (h' : LongestWithin size text other) : front = other := by
  apply String.toList_injective
  rcases List.prefix_or_prefix_of_prefix h.isPrefix h'.isPrefix with shorter | longer
  · exact eq_of_begins shorter (h.le h')
  · exact (eq_of_begins longer (h'.le h)).symm

theorem longestWithin_iff {size : Nat} {text front : String} :
    LongestWithin size text front ↔ front = String.ofList (cut size text.toList) := by
  constructor
  · exact fun h => h.unique (longestWithin_cut size text)
  · rintro rfl
    exact longestWithin_cut size text

/-- The name of a category is what it is made of, cut. -/
theorem ofStep_name (start : String) (step : Step) (game : GameId) (maxLength : Nat) :
    LongestWithin maxLength (start ++ step.tag ++ ":" ++ game.text) (ofStep start step game maxLength).name := by
  have parts : (start ++ step.tag ++ ":" ++ game.text).toList =
      start.toList ++ step.tag.toList ++ ':' :: game.text.toList := by
    simp [String.toList_append]
  rw [longestWithin_iff, parts]
  rfl

end Category

/-- No tag goes on where another one ends. -/
theorem Step.eq_of_tag_append {step other : Step} {rest rest' : List Char}
    (h : step.tag.toList ++ ':' :: rest = other.tag.toList ++ ':' :: rest') : step = other := by
  cases step <;> cases other <;> simp [tag] at h ⊢

namespace Config

theorem tag_le_longestTag (step : Step) : step.tag.utf8ByteSize ≤ longestTag := by
  cases step <;> decide

/-- What every category of a step starts with fits into it. -/
theorem Valid.fits {config : Config} (valid : config.Valid) (step : Step) :
    config.protocolPrefix.utf8ByteSize + step.tag.utf8ByteSize + 1 ≤ config.maxCategoryLength := by
  have spare := valid.spare
  have tag := tag_le_longestTag step
  omega

/-- The bytes that the categories of a step leave for the game. -/
def room (config : Config) (step : Step) : Nat :=
  config.maxCategoryLength - config.protocolPrefix.utf8ByteSize - step.tag.utf8ByteSize - 1

/-- A category starts with the start, the tag and a colon in full, and goes on with as much of the game as there
is room for. -/
theorem category_toList {config : Config} (valid : config.Valid) (step : Step) (game : GameId) :
    (config.category step game).name.toList = config.protocolPrefix.toList ++
      (step.tag.toList ++ ':' :: Category.cut (config.room step) game.text.toList) := by
  have taken : String.utf8Len (config.protocolPrefix.toList ++ step.tag.toList ++ [':']) =
      config.protocolPrefix.utf8ByteSize + step.tag.utf8ByteSize + 1 := by
    have colon : ':'.utf8Size = 1 := rfl
    simp [String.utf8Len_toList, colon, Nat.add_assoc]
  have split : config.protocolPrefix.toList ++ step.tag.toList ++ ':' :: game.text.toList =
      config.protocolPrefix.toList ++ step.tag.toList ++ [':'] ++ game.text.toList := by simp
  rw [category, Category.ofStep, String.toList_ofList, split, Category.cut_append (taken ▸ valid.fits step), taken,
    room, ← Nat.sub_sub, ← Nat.sub_sub]
  simp

/-- Transactions are filed together if they are of the same step, and as much of their games as there is room for
is the same. -/
theorem category_eq_iff {config : Config} (valid : config.Valid) {step other : Step} {game game' : GameId} :
    config.category step game = config.category other game' ↔ step = other ∧
      Category.cut (config.room step) game.text.toList = Category.cut (config.room step) game'.text.toList := by
  have named : config.category step game = config.category other game' ↔
      (config.category step game).name.toList = (config.category other game').name.toList := by
    rw [String.toList_inj, Category.mk.injEq]
  rw [named, category_toList valid, category_toList valid, List.append_cancel_left_eq]
  constructor
  · intro same
    obtain rfl := Step.eq_of_tag_append same
    rw [List.append_cancel_left_eq, List.cons.injEq] at same
    exact ⟨rfl, same.2⟩
  · rintro ⟨rfl, same⟩
    rw [same]

/-- Transactions of different steps are filed apart. -/
theorem Valid.category_inj {config : Config} (valid : config.Valid) {game : GameId}
    {step other : Step} (h : config.category step game = config.category other game) :
    step = other :=
  ((category_eq_iff valid).1 h).1

/-- What is filed for one step is not filed for another. -/
theorem Valid.category_ne {config : Config} (valid : config.Valid) {game : GameId} {step other : Step}
    {category : Category} (filed : category = config.category step game) (apart : step ≠ other) :
    category ≠ config.category other game :=
  fun same => apart (valid.category_inj (filed.symm.trans same))

end Config

/-- Categories separate steps and games. Whatever the start, the game and the limit, a category is the longest
beginning of start, tag, colon and game that ends with a character within the limit. In a valid configuration all
before the game is there in full, and two categories are the same exactly if they are of the same step and the longest
beginnings of their games within the room that is left are the same. -/
theorem categories_separate :
    (∀ start step game maxLength, Category.LongestWithin maxLength (start ++ step.tag ++ ":" ++ game.text)
      (Category.ofStep start step game maxLength).name) ∧
    ∀ config : Config, config.Valid → ∀ step other game game',
      config.protocolPrefix.utf8ByteSize + step.tag.utf8ByteSize + 1 + config.room step = config.maxCategoryLength ∧
      (∃ rest, (config.category step game).name = config.protocolPrefix ++ step.tag ++ ":" ++ rest) ∧
      (config.category step game = config.category other game' ↔ step = other ∧ ∃ front,
        Category.LongestWithin (config.room step) game.text front ∧
        Category.LongestWithin (config.room step) game'.text front) := by
  refine ⟨Category.ofStep_name, fun config valid step other game game' => ⟨?_, ?_, ?_⟩⟩
  · have fits := valid.fits step
    unfold Config.room
    omega
  · refine ⟨String.ofList (Category.cut (config.room step) game.text.toList), String.toList_injective ?_⟩
    rw [Config.category_toList valid]
    simp [String.toList_append]
  · rw [Config.category_eq_iff valid]
    simp only [Category.longestWithin_iff, exists_eq_left, String.ofList_inj]

/-- Games whose names differ in what follows 22 bytes. -/
def longGame (last : String) : GameId := ⟨"ééééééééééé" ++ last⟩

/-- A join leaves no room for the byte in which these two games differ, and a key with its shorter tag does. -/
theorem categories_separate_cut : Config.default.Valid ∧
    Config.default.category .join (longGame "a") = Config.default.category .join (longGame "b") ∧
    Config.default.category .publicKey (longGame "a") ≠ Config.default.category .publicKey (longGame "b") ∧
    ∀ step, Config.default.category step (longGame "a") = Config.default.category .join (longGame "a") →
      step = .join := by
  have valid : Config.default.Valid := rfl
  have separate := categories_separate.2 _ valid
  refine ⟨valid, ?_, ?_, ?_⟩
  · obtain ⟨-, -, together⟩ := separate .join .join (longGame "a") (longGame "b")
    refine together.2 ⟨rfl, "ééééééééééé", ?_, ?_⟩
    · exact Category.longestWithin_iff.2 (by decide +kernel)
    · exact Category.longestWithin_iff.2 (by decide +kernel)
  · obtain ⟨-, -, together⟩ := separate .publicKey .publicKey (longGame "a") (longGame "b")
    intro same
    obtain ⟨-, front, first, second⟩ := together.1 same
    have apart := (Category.longestWithin_iff.1 first).symm.trans (Category.longestWithin_iff.1 second)
    revert apart
    decide +kernel
  · intro step same
    exact ((separate step .join (longGame "a") (longGame "a")).2.2.1 same).1

/-! ## What is left of a game -/

namespace Category

/-- Of a text there is something left exactly if its first character fits. -/
theorem cut_cons_ne_nil_iff {size : Nat} {c : Char} {text : List Char} :
    cut size (c :: text) ≠ [] ↔ c.utf8Size ≤ size := by
  unfold cut
  split
  · rename_i fits
    exact iff_of_true (List.cons_ne_nil _ _) fits
  · rename_i tooLong
    exact iff_of_false (not_not.2 rfl) tooLong

/-- Texts that begin differently are cut to the same only where nothing is left of either. -/
theorem cut_cons_eq_cut_cons_iff {size : Nat} {c d : Char} {text other : List Char} (apart : c ≠ d) :
    cut size (c :: text) = cut size (d :: other) ↔ size < c.utf8Size ∧ size < d.utf8Size := by
  constructor
  · intro same
    by_cases first : c.utf8Size ≤ size
    · -- what is left of the first text begins with its first character, and so would the rest of the other
      have kept := cut_cons_ne_nil_iff.1 (same ▸ cut_cons_ne_nil_iff.2 first)
      unfold cut at same
      rw [if_pos first, if_pos kept, List.cons.injEq] at same
      exact absurd same.1 apart
    · refine ⟨by omega, ?_⟩
      by_contra second
      have kept : cut size (d :: other) ≠ [] := cut_cons_ne_nil_iff.2 (not_lt.1 second)
      exact first (cut_cons_ne_nil_iff.1 (same.symm ▸ kept))
  · rintro ⟨first, second⟩
    unfold cut
    rw [if_neg (by omega), if_neg (by omega)]

end Category

namespace Config

theorem Valid.room_pos {config : Config} (valid : config.Valid) (step : Step) : 1 ≤ config.room step := by
  have spare := valid.spare
  have tag := tag_le_longestTag step
  unfold room
  omega

/-- A category ends with what is left of the game. -/
theorem category_name {config : Config} (valid : config.Valid) (step : Step) (game : GameId) :
    (config.category step game).name = config.protocolPrefix ++ step.tag ++ ":" ++
      String.ofList (Category.cut (config.room step) game.text.toList) := by
  apply String.toList_injective
  rw [category_toList valid]
  simp [String.toList_append]

end Config

/-- A valid configuration leaves a byte or more for the game, and a category keeps as many characters of it as fit:
one at least exactly if the first one does. So games that begin differently share a category exactly if the first
character of neither fits, and something is left of every game if and only if there are four bytes for it. -/
theorem game_kept_as_it_fits {config : Config} (valid : config.Valid) (step : Step) :
    1 ≤ config.room step ∧
    (∀ (game : GameId) (first : Char) (rest : List Char), game.text.toList = first :: rest → ∃ front,
      (config.category step game).name = config.protocolPrefix ++ step.tag ++ ":" ++ front ∧
      Category.LongestWithin (config.room step) game.text front ∧
      (front ≠ "" ↔ first.utf8Size ≤ config.room step)) ∧
    (∀ (other : Step) (game game' : GameId) (first first' : Char) (rest rest' : List Char),
      game.text.toList = first :: rest → game'.text.toList = first' :: rest' → first ≠ first' →
      (config.category step game = config.category other game' ↔
        step = other ∧ config.room step < first.utf8Size ∧ config.room step < first'.utf8Size)) ∧
    ((∀ game : GameId, game.text ≠ "" →
      (config.category step game).name ≠ config.protocolPrefix ++ step.tag ++ ":") ↔ 4 ≤ config.room step) := by
  have kept (game : GameId) {first : Char} {rest : List Char} (named : game.text.toList = first :: rest) :
      String.ofList (Category.cut (config.room step) game.text.toList) ≠ "" ↔
        first.utf8Size ≤ config.room step := by
    rw [named, ← Category.cut_cons_ne_nil_iff, Ne, String.ofList_eq_empty_iff]
  refine ⟨valid.room_pos step, fun game first rest named => ?_, ?_, ?_⟩
  · exact ⟨_, Config.category_name valid step game, Category.longestWithin_cut _ _, kept game named⟩
  · intro other game game' first first' rest rest' named named' apart
    rw [Config.category_eq_iff valid, named, named', Category.cut_cons_eq_cut_cons_iff apart]
  · have bare (game : GameId) : (config.category step game).name ≠ config.protocolPrefix ++ step.tag ++ ":" ↔
        String.ofList (Category.cut (config.room step) game.text.toList) ≠ "" := by
      rw [Config.category_name valid step game, Ne, String.append_eq_left_iff]
    constructor
    · intro all
      exact (kept ⟨"😀"⟩ (show _ = '😀' :: [] by decide)).1 ((bare ⟨"😀"⟩).1 (all ⟨"😀"⟩ (by decide)))
    · intro room game named
      obtain ⟨first, rest, split⟩ := List.exists_cons_of_ne_nil (fun none => named (String.toList_eq_nil_iff.1 none))
      exact (bare game).2 ((kept game split).2 (le_trans (Char.utf8Size_le_four first) room))

/-- A configuration in which joins leave a single byte for the game. -/
def Config.narrow : Config := { Config.default with maxCategoryLength := 9 }

/-- In a valid configuration nothing is left of two games that begin with characters of two bytes, so that who joins
one of them joins the other as well. -/
theorem game_kept_as_it_fits_narrow : Config.narrow.Valid ∧
    (Config.narrow.category .join ⟨"é1"⟩).name = "mp:join:" ∧
    Config.narrow.category .join ⟨"é1"⟩ = Config.narrow.category .join ⟨"ß2"⟩ ∧
    Config.narrow.category .publicKey ⟨"é1"⟩ ≠ Config.narrow.category .publicKey ⟨"ß2"⟩ := by
  have valid : Config.narrow.Valid := rfl
  obtain ⟨-, front, together, -⟩ := game_kept_as_it_fits valid .join
  obtain ⟨-, -, apart, -⟩ := game_kept_as_it_fits valid .publicKey
  have first : "é1".toList = 'é' :: ['1'] := by decide
  have second : "ß2".toList = 'ß' :: ['2'] := by decide
  refine ⟨valid, by decide +kernel, ?_, ?_⟩
  · exact (together .join _ _ _ _ _ _ first second (by decide)).2 (by decide)
  · intro same
    exact absurd ((apart .publicKey _ _ _ _ _ _ first second (by decide)).1 same) (by decide)

end MentalPoker
