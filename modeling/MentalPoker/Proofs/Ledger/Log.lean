/-
What is read off the transactions of a ledger, as functions of their list, and what becomes of each
when a transaction is appended. A category in which every sender has one transaction answers every
question about a sender for good.
-/
import MentalPoker.Ledger.Journal
import MentalPoker.Proofs.Entries
import Mathlib.Data.List.Infix

namespace MentalPoker

/-- The transactions of a ledger, in the order in which they were appended. -/
abbrev Log := List Transaction

namespace Log

/-- The transactions of a category. -/
def filed (category : Category) (log : Log) : List Transaction := log.filter (·.category = category)

/-- The senders in a category, one entry for each transaction. -/
def senders (category : Category) (log : Log) : List Address := (filed category log).map (·.sender)

/-- The payload of the last transaction of a sender in a category. -/
def payload? (category : Category) (sender : Address) (log : Log) : Option Bytes :=
  ((filed category log).reverse.find? (·.sender = sender)).map (·.payload)

/-- Who sent transactions of a category to a recipient, in the order of the first ones. -/
def sendersTo (category : Category) (recipient : Address) (log : Log) : List Address :=
  Journal.distinct (((filed category log).filter (recipient ∈ ·.recipients)).map (·.sender))

/-- The transaction that a publication appends to a ledger. -/
def filing (log : Log) (signer : Signer) (category : Category) (recipients : List Address)
    (payload : Bytes) : Transaction :=
  ⟨Journal.idAt log.length, category, signer.address, recipients, payload, signer.sign payload⟩

/-! ## One transaction more -/

section

variable {log : Log} {tx : Transaction} {category : Category} {a : Address}

theorem filed_append_of_eq (h : tx.category = category) :
    filed category (log ++ [tx]) = filed category log ++ [tx] := by
  simp [filed, h]

theorem filed_append_of_ne (h : tx.category ≠ category) :
    filed category (log ++ [tx]) = filed category log := by
  simp [filed, h]

theorem senders_append_of_eq (h : tx.category = category) :
    senders category (log ++ [tx]) = senders category log ++ [tx.sender] := by
  rw [senders, filed_append_of_eq h, List.map_append]
  rfl

theorem senders_append_of_ne (h : tx.category ≠ category) :
    senders category (log ++ [tx]) = senders category log := by
  rw [senders, filed_append_of_ne h, senders]

theorem payload?_append_of_eq (h : tx.category = category) (own : tx.sender = a) :
    payload? category a (log ++ [tx]) = some tx.payload := by
  simp [payload?, filed_append_of_eq h, own]

theorem payload?_append_of_ne (h : tx.category = category → tx.sender ≠ a) :
    payload? category a (log ++ [tx]) = payload? category a log := by
  by_cases same : tx.category = category
  · simp [payload?, filed_append_of_eq same, h same]
  · rw [payload?, filed_append_of_ne same, payload?]

end

/-! ## Senders and payloads -/

section

variable {log : Log} {category : Category} {a : Address}

theorem payload?_isSome : (payload? category a log).isSome ↔ a ∈ senders category log := by
  simp [payload?, senders]

theorem mem_senders_of_payload? {payload : Bytes} (h : payload? category a log = some payload) :
    a ∈ senders category log := by
  rw [← payload?_isSome, h]
  rfl

/-- A payload that is found is in a transaction of the sender. -/
theorem exists_of_payload? {payload : Bytes} (h : payload? category a log = some payload) :
    ∃ tx ∈ filed category log, tx.sender = a ∧ tx.payload = payload := by
  rw [payload?, Option.map_eq_some_iff] at h
  obtain ⟨tx, found, read⟩ := h
  exact ⟨tx, List.mem_reverse.1 (List.mem_of_find?_eq_some found), by simpa using List.find?_some found, read⟩

theorem senders_subset_append (more : Log) (h : a ∈ senders category log) :
    a ∈ senders category (log ++ more) := by
  simp only [senders, filed, List.filter_append, List.map_append, List.mem_append]
  exact .inl h

theorem filed_prefix_append (category : Category) (log more : Log) :
    filed category log <+: filed category (log ++ more) := by
  rw [filed, filed, List.filter_append]
  exact List.prefix_append _ _

theorem senders_length_le (category : Category) {later : Log} (more : log <+: later) :
    (senders category log).length ≤ (senders category later).length := by
  obtain ⟨rest, rfl⟩ := more
  rw [senders, senders, List.length_map, List.length_map]
  exact (filed_prefix_append category log rest).length_le

theorem senders_ne_nil_of_prefix {later : Log} (more : log <+: later) (some : senders category log ≠ []) :
    senders category later ≠ [] := by
  have := senders_length_le category more
  rw [← List.length_pos_iff] at some ⊢
  omega

/-- Where every sender has one transaction, the last one of a sender is the only one. -/
theorem payload?_of_mem_filed (once : (senders category log).Nodup) {tx : Transaction}
    (h : tx ∈ filed category log) : payload? category tx.sender log = some tx.payload := by
  have once : ((filed category log).reverse.map (·.sender)).Nodup := by
    rw [List.map_reverse, List.nodup_reverse]
    exact once
  rw [payload?, (find?_eq_some_iff_of_nodup once (List.mem_reverse.2 h)).2 rfl]
  rfl

/-- The place of a sender in a category is that of its transaction. -/
theorem filed_of_senders {k : Nat} (once : (senders category log).Nodup)
    (h : (senders category log)[k]? = some a) :
    ∃ tx, (filed category log)[k]? = some tx ∧ tx.sender = a ∧
      payload? category a log = some tx.payload := by
  rw [senders, List.getElem?_map, Option.map_eq_some_iff] at h
  obtain ⟨tx, found, rfl⟩ := h
  exact ⟨tx, found, rfl, payload?_of_mem_filed once (List.mem_of_getElem? found)⟩

end

/-! ## Those who join -/

theorem foldl_new (xs : List Address) : ∀ seen : List Address, ∃ new,
    xs.foldl (fun seen a => if a ∈ seen then seen else seen ++ [a]) seen = seen ++ new := by
  induction xs with
  | nil => exact fun seen => ⟨[], (List.append_nil seen).symm⟩
  | cons x xs ih =>
    intro seen
    rw [List.foldl_cons]
    split
    · exact ih seen
    · obtain ⟨new, h⟩ := ih (seen ++ [x])
      exact ⟨x :: new, by rw [h, List.append_assoc]; rfl⟩

theorem distinct_prefix_append (xs ys : List Address) :
    Journal.distinct xs <+: Journal.distinct (xs ++ ys) := by
  rw [Journal.distinct, Journal.distinct, List.foldl_append]
  obtain ⟨new, h⟩ := foldl_new ys (Journal.distinct xs)
  exact ⟨new, h.symm⟩

theorem nodup_distinct (xs : List Address) : (Journal.distinct xs).Nodup := by
  have each (seen : List Address) (nodup : seen.Nodup) :
      (xs.foldl (fun seen a => if a ∈ seen then seen else seen ++ [a]) seen).Nodup := by
    induction xs generalizing seen with
    | nil => exact nodup
    | cons x xs ih =>
      rw [List.foldl_cons]
      split
      · exact ih seen nodup
      · rename_i new
        exact ih _ (nodup.append (List.nodup_singleton x) (List.disjoint_singleton.2 new))
  exact each [] List.nodup_nil

theorem mem_distinct {a : Address} {xs : List Address} : a ∈ Journal.distinct xs ↔ a ∈ xs := by
  have each (seen : List Address) :
      a ∈ xs.foldl (fun seen a => if a ∈ seen then seen else seen ++ [a]) seen ↔
        a ∈ seen ∨ a ∈ xs := by
    induction xs generalizing seen with
    | nil => simp
    | cons x xs ih =>
      rw [List.foldl_cons, ih]
      split <;> simp only [List.mem_append, List.mem_cons] <;> grind
  rw [Journal.distinct, each]
  simp

/-- Names that differ are all kept. -/
theorem distinct_of_nodup {xs : List Address} (nodup : xs.Nodup) : Journal.distinct xs = xs := by
  have each (seen : List Address) (nodup : (seen ++ xs).Nodup) :
      xs.foldl (fun seen a => if a ∈ seen then seen else seen ++ [a]) seen = seen ++ xs := by
    induction xs generalizing seen with
    | nil => simp
    | cons x xs ih =>
      have new : x ∉ seen := by
        intro old
        exact (List.nodup_append.1 nodup).2.2 x old x (by simp) rfl
      rw [List.foldl_cons, if_neg new, ih (List.Nodup.of_cons ‹_›) _ (by simpa using nodup)]
      simp
  exact each [] nodup

theorem distinct_append_singleton (xs : List Address) (a : Address) :
    Journal.distinct (xs ++ [a]) = if a ∈ xs then Journal.distinct xs else Journal.distinct xs ++ [a] := by
  rw [Journal.distinct, List.foldl_append, ← Journal.distinct]
  simp only [List.foldl_cons, List.foldl_nil, mem_distinct]

/-- Of a name that comes up again the first place is kept. -/
theorem distinct_eq_eraseDups (xs : List Address) : Journal.distinct xs = xs.eraseDups := by
  induction xs using List.reverseRecOn with
  | nil => rfl
  | append_singleton xs a ih =>
    rw [distinct_append_singleton, List.eraseDups_append, ← ih]
    by_cases old : a ∈ xs
    · simp [List.removeAll, old]
    · rw [if_neg old, List.removeAll, List.filter_cons_of_pos (by simpa using old), List.filter_nil]
      rfl

/-- Later transactions leave those who have joined in front. -/
theorem sendersTo_prefix_append (category : Category) (recipient : Address) (log more : Log) :
    sendersTo category recipient log <+: sendersTo category recipient (log ++ more) := by
  simp only [sendersTo, filed, List.filter_append, List.map_append]
  exact distinct_prefix_append _ _

theorem sendersTo_nodup (category : Category) (recipient : Address) (log : Log) :
    (sendersTo category recipient log).Nodup :=
  nodup_distinct _

theorem mem_senders_of_mem_sendersTo {category : Category} {recipient a : Address} {log : Log}
    (h : a ∈ sendersTo category recipient log) : a ∈ senders category log := by
  rw [sendersTo, mem_distinct, List.mem_map] at h
  obtain ⟨tx, found, rfl⟩ := h
  exact List.mem_map.2 ⟨tx, List.mem_of_mem_filter found, rfl⟩

end Log

end MentalPoker
