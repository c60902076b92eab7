/-
Reading what was written: a document of strings, arrays and objects is read back as it was, whatever
bytes its strings hold. The escapes of the writer are undone one by one, and every value takes at
most as many steps of the reader as it has bytes, so that the fuel of `Json.read?` is enough.
-/
import MentalPoker.Json.Reader
import MentalPoker.Json.Writer
import Mathlib.Tactic.Common

namespace MentalPoker.Json

/-! ## Strings -/

theorem unit?_hexDigit {b : UInt8} (h : b < 0x20) :
    unit? 0x30 0x30 (hexDigit (b / 16)) (hexDigit (b % 16)) = some b.toNat := by
  have all : ∀ n < 0x20, unit? 0x30 0x30 (hexDigit (UInt8.ofNat n / 16))
      (hexDigit (UInt8.ofNat n % 16)) = some n := by decide
  have := all b.toNat h
  rwa [UInt8.ofNat_toNat] at this

/-- A unit below the surrogates stands for itself, whatever follows. -/
theorem content_unit {u : Nat} (h : u < 0xd800) (pieces : List Piece) :
    content (.unit u :: pieces) = utf8 u ++ content pieces := by
  match pieces with
  | [] => simp [content]
  | .byte b :: rest => simp [content]
  | .unit low :: rest =>
    rw [content, if_neg (by omega)]

theorem readPieces_quote (input : Bytes) : readPieces (0x22 :: input) = some ([], input) := by
  rw [readPieces.eq_def]
  rfl

theorem readPieces_simple {e b : UInt8} (he : e ≠ 0x75) (hb : simpleEscape? e = some b)
    (input : Bytes) :
    readPieces (0x5c :: e :: input) =
      (readPieces input).map fun (pieces, rest) => (.byte b :: pieces, rest) := by
  rw [readPieces.eq_def]
  simp only [if_neg (show ¬ (0x5c : UInt8) = 0x22 by decide), if_true, if_neg he, hb]
  cases readPieces input <;> rfl

theorem readPieces_control {b : UInt8} (h : b < 0x20) (input : Bytes) :
    readPieces (0x5c :: 0x75 :: 0x30 :: 0x30 :: hexDigit (b / 16) :: hexDigit (b % 16) :: input) =
      (readPieces input).map fun (pieces, rest) => (.unit b.toNat :: pieces, rest) := by
  rw [readPieces.eq_def]
  simp only [if_neg (show ¬ (0x5c : UInt8) = 0x22 by decide), if_true, unit?_hexDigit h]
  cases readPieces input <;> rfl

theorem readPieces_plain {b : UInt8} (quote : b ≠ 0x22) (escape : b ≠ 0x5c) (h : ¬ b < 0x20)
    (input : Bytes) :
    readPieces (b :: input) =
      (readPieces input).map fun (pieces, rest) => (.byte b :: pieces, rest) := by
  rw [readPieces.eq_def]
  simp only [if_neg quote, if_neg escape, if_neg h]
  cases readPieces input <;> rfl

/-- The escape of a byte is read as a piece that denotes the byte. -/
theorem readPieces_escapeByte (b : UInt8) :
    ∃ piece, (∀ pieces, content (piece :: pieces) = b :: content pieces) ∧
      ∀ input, readPieces (escapeByte b ++ input) =
        (readPieces input).map fun (pieces, rest) => (piece :: pieces, rest) := by
  have simple {e : UInt8} (he : e ≠ 0x75) (hb : simpleEscape? e = some b) :
      ∃ piece, (∀ pieces, content (piece :: pieces) = b :: content pieces) ∧
        ∀ input, readPieces ([0x5c, e] ++ input) =
          (readPieces input).map fun (pieces, rest) => (piece :: pieces, rest) :=
    ⟨.byte b, fun pieces => by rw [content], readPieces_simple he hb⟩
  unfold escapeByte
  split_ifs with quote backslash h08 h0c h0a h0d h09 control
  · exact simple (by decide) (by simp [simpleEscape?, quote])
  · exact simple (by decide) (by simp [simpleEscape?, backslash])
  · exact simple (by decide) (by simp [simpleEscape?, h08])
  · exact simple (by decide) (by simp [simpleEscape?, h0c])
  · exact simple (by decide) (by simp [simpleEscape?, h0a])
  · exact simple (by decide) (by simp [simpleEscape?, h0d])
  · exact simple (by decide) (by simp [simpleEscape?, h09])
  · have small : b.toNat < 0x20 := control
    refine ⟨.unit b.toNat, fun pieces => ?_, readPieces_control control⟩
    rw [content_unit (by omega), utf8, if_pos (by omega), UInt8.ofNat_toNat]
    rfl
  · exact ⟨.byte b, fun pieces => by rw [content], readPieces_plain quote backslash control⟩

/-- The literal of a string denotes the string. -/
theorem readString_escaped (text rest : Bytes) :
    readString (text.flatMap escapeByte ++ 0x22 :: rest) = some (text, rest) := by
  induction text with
  | nil => simp [readString, readPieces_quote, content]
  | cons b text ih =>
    obtain ⟨piece, denotes, reads⟩ := readPieces_escapeByte b
    rw [readString, Option.map_eq_some_iff] at ih
    obtain ⟨⟨pieces, rest'⟩, found, same⟩ := ih
    cases same
    rw [List.flatMap_cons, List.append_assoc, readString, reads, found]
    simp [denotes]

/-! ## Values -/

/-- The value is made of strings, arrays and objects. -/
inductive Textual : Json → Prop
  | string (content : Bytes) : Textual (string content)
  | array (items : List Json) (h : ∀ item ∈ items, Textual item) : Textual (array items)
  | object (members : List (Bytes × Json)) (h : ∀ member ∈ members, Textual member.2) :
      Textual (object members)

/-- The first byte of a value is not a blank, and none that ends an array or an object. -/
def Opens (b : UInt8) : Prop := b = 0x22 ∨ b = 0x5b ∨ b = 0x7b

theorem Textual.opens {value : Json} (h : value.Textual) :
    ∃ b rest, write value = b :: rest ∧ Opens b := by
  cases h with
  | string content => exact ⟨_, _, rfl, .inl rfl⟩
  | array items h => exact ⟨_, _, rfl, .inr (.inl rfl)⟩
  | object members h => exact ⟨_, _, rfl, .inr (.inr rfl)⟩

/-- The reader takes the value back from its bytes, given a step for each of them. -/
def Returns (value : Json) : Prop :=
  ∀ fuel rest, (write value).length ≤ fuel →
    readValue fuel (write value ++ rest) = some (value, rest)

/-! The items and the members follow the reader: one step each, and the rest with the steps left. -/

theorem readItems_writeItems (rest : Bytes) : ∀ (items : List Json), items ≠ [] →
    (∀ item ∈ items, Returns item) → ∀ fuel, (writeItems items).length < fuel →
      readItems fuel (writeItems items ++ 0x5d :: rest) = some (items, rest)
  | [item], _, returns, fuel + 1, h => by
    rw [writeItems] at h ⊢
    rw [readItems, returns item (by simp) fuel _ (by omega)]
    rfl
  | item :: next :: items, _, returns, fuel + 1, h => by
    rw [writeItems] at h ⊢
    simp only [List.length_append, List.length_singleton] at h
    have ih := readItems_writeItems rest (next :: items) (by simp)
      (fun i hi => returns i (by simp [hi])) fuel (by omega)
    rw [readItems, List.append_assoc, List.append_assoc, returns item (by simp) fuel _ (by omega)]
    simp [skipBlanks, ih]

theorem readMembers_writeMembers (rest : Bytes) : ∀ (members : List (Bytes × Json)), members ≠ [] →
    (∀ member ∈ members, Returns member.2) → ∀ fuel, (writeMembers members).length < fuel →
      readMembers fuel (writeMembers members ++ 0x7d :: rest) = some (members, rest)
  | [(key, value)], _, returns, fuel + 1, h => by
    rw [writeMembers] at h ⊢
    simp only [List.length_append, List.length_singleton] at h
    have reads (after) : readValue fuel (write value ++ after) = some (value, after) :=
      returns (key, value) (by simp) fuel after (by dsimp only; omega)
    rw [readMembers]
    simp [writeString, skipBlanks, readString_escaped, reads]
  | (key, value) :: next :: members, _, returns, fuel + 1, h => by
    rw [writeMembers] at h ⊢
    simp only [List.length_append, List.length_singleton] at h
    have reads (after) : readValue fuel (write value ++ after) = some (value, after) :=
      returns (key, value) (by simp) fuel after (by dsimp only; omega)
    have ih := readMembers_writeMembers rest (next :: members) (by simp)
      (fun i hi => returns i (by simp [hi])) fuel (by omega)
    rw [readMembers]
    simp [writeString, skipBlanks, readString_escaped, reads, ih]

/-- The bytes of items start with those of the first. -/
theorem writeItems_opens {item : Json} (h : item.Textual) (items : List Json) :
    ∃ b rest, writeItems (item :: items) = b :: rest ∧ Opens b := by
  obtain ⟨b, rest, same, opens⟩ := h.opens
  cases items with
  | nil => exact ⟨b, rest, by rw [writeItems, same], opens⟩
  | cons next items =>
    exact ⟨b, rest ++ [0x2c] ++ writeItems (next :: items), by rw [writeItems, same]; rfl, opens⟩

theorem writeMembers_opens (member : Bytes × Json) (members : List (Bytes × Json)) :
    ∃ rest, writeMembers (member :: members) = 0x22 :: rest := by
  cases members <;> exact ⟨_, rfl⟩

/-- Whatever a textual value stands in, the reader takes it back. -/
theorem Textual.returns {value : Json} (h : value.Textual) : Returns value := by
  induction h with
  | string content =>
    rintro (_ | fuel) rest h
    · simp [write, writeString] at h
    · rw [write, writeString, readValue]
      simp [skipBlanks, readString_escaped]
  | array items textual ih =>
    rintro (_ | fuel) rest h
    · simp [write] at h
    rw [write] at h ⊢
    simp only [List.length_append, List.length_singleton] at h
    cases items with
    | nil => rfl
    | cons item items =>
      have reads := readItems_writeItems rest (item :: items) (by simp) ih fuel (by omega)
      obtain ⟨b, after, same, opens⟩ := writeItems_opens (textual item (by simp)) items
      rw [same] at reads ⊢
      rw [List.singleton_append, List.cons_append, List.cons_append, List.append_assoc,
        List.singleton_append, readValue]
      rw [List.cons_append] at reads
      rcases opens with rfl | rfl | rfl <;> simp [skipBlanks, reads]
  | object members textual ih =>
    rintro (_ | fuel) rest h
    · simp [write] at h
    rw [write] at h ⊢
    simp only [List.length_append, List.length_singleton] at h
    cases members with
    | nil => rfl
    | cons member members =>
      have reads := readMembers_writeMembers rest (member :: members) (by simp) ih fuel (by omega)
      obtain ⟨after, same⟩ := writeMembers_opens member members
      rw [same] at reads ⊢
      rw [List.singleton_append, List.cons_append, List.cons_append, List.append_assoc,
        List.singleton_append, readValue]
      rw [List.cons_append] at reads
      simp [skipBlanks, reads]

/-- A document of strings, arrays and objects is read back as it was written. -/
theorem read?_write {value : Json} (h : value.Textual) : read? (write value) = some value := by
  have reads := h.returns (2 * (write value).length + 1) [] (by omega)
  rw [List.append_nil] at reads
  rw [read?, reads]
  rfl

end MentalPoker.Json
