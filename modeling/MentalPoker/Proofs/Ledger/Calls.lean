/-
A journal over any calls. Whatever it is asked and told, in whatever order, its transactions are the
publications that were not failed, each with what it was called with, numbered from zero on: the list
grows at its end and nowhere else. Two counters stand between the callers and the list, and each is what
it was last told less what has used it up since. Pending failures are used up by requests of every kind,
pending losses of replies by publications that are appended, and neither changes what is found later.
-/
import MentalPoker.Ledger.Dialogue
import MentalPoker.Proofs.Ledger.Log
import MentalPoker.Text.Decimal

namespace MentalPoker

/-! ## Looking things up -/

namespace Log

/-- What the last transaction of a sender in a category holds, if there is one. -/
inductive Latest (log : Log) (category : Category) (sender : Address) : Option Bytes → Prop
  | none (absent : ∀ tx ∈ log, ¬ (tx.category = category ∧ tx.sender = sender)) :
      Latest log category sender none
  | last {before after : Log} {tx : Transaction} (split : log = before ++ tx :: after)
      (filed : tx.category = category ∧ tx.sender = sender)
      (later : ∀ tx ∈ after, ¬ (tx.category = category ∧ tx.sender = sender)) :
      Latest log category sender (some tx.payload)

theorem latest_payload? (category : Category) (sender : Address) (log : Log) :
    Latest log category sender (payload? category sender log) := by
  induction log using List.reverseRecOn with
  | nil => exact .none (by simp)
  | append_singleton log tx ih =>
    by_cases filed : tx.category = category ∧ tx.sender = sender
    · rw [payload?_append_of_eq filed.1 filed.2]
      exact .last rfl filed (by simp)
    · have same : payload? category sender (log ++ [tx]) = payload? category sender log :=
        payload?_append_of_ne fun h own => filed ⟨h, own⟩
      rw [same]
      generalize payload? category sender log = found at ih ⊢
      cases ih with
      | none absent =>
        refine .none fun other member => ?_
        rcases List.mem_append.1 member with old | new
        · exact absent other old
        · exact List.mem_singleton.1 new ▸ filed
      | @last before after last split filed' later =>
        have longer : log ++ [tx] = before ++ last :: (after ++ [tx]) := by simp [split]
        refine .last longer filed' fun other member => ?_
        rcases List.mem_append.1 member with old | new
        · exact later other old
        · exact List.mem_singleton.1 new ▸ filed

end Log

/-- The addresses of a list, each once, in the order of their first places. -/
structure FirstPlaces (addresses firsts : List Address) : Prop where
  once : firsts.Nodup
  all : ∀ a, a ∈ firsts ↔ a ∈ addresses
  order : firsts.Pairwise fun a b => addresses.idxOf a < addresses.idxOf b

theorem firstPlaces_distinct (addresses : List Address) :
    FirstPlaces addresses (Journal.distinct addresses) where
  once := Log.nodup_distinct addresses
  all a := Log.mem_distinct
  order := by
    induction addresses using List.reverseRecOn with
    | nil => exact .nil
    | append_singleton addresses last ih =>
      -- the places of those who have one are not moved by what is appended
      have stays : (Journal.distinct addresses).Pairwise
          fun a b => (addresses ++ [last]).idxOf a < (addresses ++ [last]).idxOf b := by
        refine ih.imp_of_mem fun {a b} first second before => ?_
        rw [Log.mem_distinct] at first second
        rwa [List.idxOf_append_of_mem first, List.idxOf_append_of_mem second]
      rw [Log.distinct_append_singleton]
      split
      · exact stays
      · rename_i new
        refine List.pairwise_append.2 ⟨stays, List.pairwise_singleton _ _, fun a old b added => ?_⟩
        rw [Log.mem_distinct] at old
        obtain rfl := List.mem_singleton.1 added
        rw [List.idxOf_append_of_mem old, List.idxOf_append_of_notMem new]
        have place := List.idxOf_lt_length_of_mem old
        omega

/-! ## Publications -/

/-- What a publication is called with. -/
structure Publication where
  signer : Signer
  category : Category
  recipients : List Address
  payload : Bytes

namespace Publication

/-- The transaction that a publication is at place `i`. -/
def transaction (publication : Publication) (i : Nat) : Transaction :=
  ⟨Journal.idAt i, publication.category, publication.signer.address, publication.recipients, publication.payload,
    publication.signer.sign publication.payload⟩

/-- The transactions that publications are from place `i` on. -/
def numbered : List Publication → Nat → Log
  | [], _ => []
  | publication :: publications, i => publication.transaction i :: numbered publications (i + 1)

theorem numbered_append (first second : List Publication) : ∀ i,
    numbered (first ++ second) i = numbered first i ++ numbered second (i + first.length) := by
  induction first with
  | nil => exact fun _ => rfl
  | cons publication first ih =>
    intro i
    rw [List.cons_append, numbered, numbered, ih, List.cons_append, List.length_cons]
    congr 3
    omega

theorem length_numbered (publications : List Publication) : ∀ i,
    (numbered publications i).length = publications.length := by
  induction publications with
  | nil => exact fun _ => rfl
  | cons publication publications ih =>
    intro i
    rw [numbered, List.length_cons, ih, List.length_cons]

/-- At every place there is what was called with, and the reference tells the place. -/
theorem getElem?_numbered (publications : List Publication) : ∀ i k : Nat,
    (numbered publications i)[k]? = publications[k]?.map (transaction · (i + k)) := by
  induction publications with
  | nil => exact fun _ _ => by simp [numbered]
  | cons publication publications ih =>
    intro i k
    cases k with
    | zero => rfl
    | succ k =>
      rw [numbered, List.getElem?_cons_succ, List.getElem?_cons_succ, ih, Nat.add_right_comm, Nat.add_assoc]

end Publication

theorem Journal.idAt_injective {i j : Nat} (same : idAt i = idAt j) : i = j := by
  have texts : "tx" ++ Decimal.write i = "tx" ++ Decimal.write j := congrArg TransactionId.text same
  rw [String.append_right_inj] at texts
  have read := congrArg Decimal.read? texts
  rw [Decimal.read?_write, Decimal.read?_write] at read
  exact Option.some.inj read

/-! ## Calls -/

/-- What is done to a journal: somebody asks it, or it is told to fail or to lose replies. -/
inductive Call where
  | request (request : Request)
  | failNext (calls : Nat)
  | dropReplies (publications : Nat)

/-- The publication that a call is. -/
def Call.publication? : Call → Option Publication
  | request (.publish signer category recipients payload) => some ⟨signer, category, recipients, payload⟩
  | _ => none

def Call.isRequest : Call → Bool
  | request _ => true
  | _ => false

namespace Journal

/-- The journal after a call. -/
def called (journal : Journal) : Call → Journal
  | .request request => (journal.answer request).2
  | .failNext calls => journal.failNext calls
  | .dropReplies publications => journal.dropReplies publications

/-- The journal after several calls, in order. -/
def after (journal : Journal) (calls : List Call) : Journal := calls.foldl called journal

/-- The publications among the calls that are not failed. -/
def appended (journal : Journal) : List Call → List Publication
  | [] => []
  | call :: calls =>
    (if journal.failures = 0 then call.publication?.toList else []) ++ (journal.called call).appended calls

theorem after_append (journal : Journal) (calls more : List Call) :
    journal.after (calls ++ more) = (journal.after calls).after more :=
  List.foldl_append

/-! ## One call -/

section

variable {journal : Journal}

/-- The answer to a call that is failed. -/
def injected : LedgerError := .unavailable "injected failure"

theorem replyLost_ne_injected (id : TransactionId) : LedgerError.replyLost id ≠ injected := by
  intro same
  have texts : s!"reply for {id.text} lost" = "injected failure" := by
    injection same
  have letters := congrArg (fun text => text.toList.head?) texts
  simp [toString, String.toList_append] at letters

/-- While failures are pending a call uses up one of them, and that is all it does. -/
theorem answer_of_pending (pending : 0 < journal.failures) (request : Request) :
    journal.answer request = (.error injected, { journal with failures := journal.failures - 1 }) := by
  obtain ⟨transactions, failures, lostReplies⟩ := journal
  obtain ⟨left, rfl⟩ := Nat.exists_eq_add_of_lt pending
  rw [Nat.zero_add]
  cases request <;> rfl

/-- A publication that is not failed is appended, and its reply is lost while losses are pending. -/
theorem publish_of_free (free : journal.failures = 0) (signer : Signer) (category : Category) (recipients : List Address)
    (payload : Bytes) : journal.publish signer category recipients payload =
      (if journal.lostReplies = 0 then .ok (idAt journal.transactions.length)
        else .error (.replyLost (idAt journal.transactions.length)),
      { journal with
        transactions := journal.transactions ++
          [Publication.transaction ⟨signer, category, recipients, payload⟩ journal.transactions.length]
        lostReplies := journal.lostReplies - 1 }) := by
  obtain ⟨transactions, failures, lostReplies⟩ := journal
  obtain rfl : failures = 0 := free
  cases lostReplies <;> rfl

theorem latestBySender_of_free (free : journal.failures = 0) (category : Category) (sender : Address) :
    journal.latestBySender category sender = (.ok (journal.latestPayload? category sender), journal) := by
  unfold latestBySender guarded
  rw [free]

theorem sendersToRecipient_of_free (free : journal.failures = 0) (category : Category) (recipient : Address) :
    journal.sendersToRecipient category recipient = (.ok (journal.sendersTo category recipient), journal) := by
  unfold sendersToRecipient guarded
  rw [free]

theorem answer_eq_injected_iff (journal : Journal) (request : Request) :
    (journal.answer request).1 = .error injected ↔ 0 < journal.failures := by
  constructor
  · intro failed
    by_contra none
    have free : journal.failures = 0 := by omega
    cases request with
    | publish signer category recipients payload =>
      change (journal.publish signer category recipients payload).1 = _ at failed
      rw [publish_of_free free] at failed
      dsimp only at failed
      split at failed
      · cases failed
      · exact replyLost_ne_injected _ (Except.error.inj failed)
    | latestBySender category sender =>
      change (journal.latestBySender category sender).1 = _ at failed
      rw [latestBySender_of_free free] at failed
      cases failed
    | sendersTo category recipient =>
      change (journal.sendersToRecipient category recipient).1 = _ at failed
      rw [sendersToRecipient_of_free free] at failed
      cases failed
  · intro pending
    rw [answer_of_pending pending]

/-- A request that is not failed appends the publication it is, which uses up a pending loss. -/
theorem answer_of_free (free : journal.failures = 0) (request : Request) : (journal.answer request).2 =
    { journal with
      transactions := journal.transactions ++
        Publication.numbered (Call.request request).publication?.toList journal.transactions.length
      lostReplies := journal.lostReplies - (Call.request request).publication?.toList.length } := by
  cases request with
  | publish signer category recipients payload =>
    show (journal.publish signer category recipients payload).2 = _
    rw [publish_of_free free]
    rfl
  | latestBySender category sender =>
    show (journal.latestBySender category sender).2 = _
    rw [latestBySender_of_free free]
    simp [Call.publication?, Publication.numbered]
  | sendersTo category recipient =>
    show (journal.sendersToRecipient category recipient).2 = _
    rw [sendersToRecipient_of_free free]
    simp [Call.publication?, Publication.numbered]

/-- A call appends the publication it is, unless it is failed, and nothing else. -/
theorem transactions_called (journal : Journal) (call : Call) : (journal.called call).transactions =
    journal.transactions ++ Publication.numbered
      (if journal.failures = 0 then call.publication?.toList else []) journal.transactions.length := by
  cases call with
  | failNext => simp [called, failNext, Call.publication?, Publication.numbered]
  | dropReplies => simp [called, dropReplies, Call.publication?, Publication.numbered]
  | request request =>
    show (journal.answer request).2.transactions = _
    by_cases free : journal.failures = 0
    · rw [if_pos free, answer_of_free free]
    · rw [if_neg free, answer_of_pending (Nat.pos_of_ne_zero free)]
      exact (List.append_nil _).symm

/-- Until it is told otherwise, a journal fails one call fewer after each request. -/
theorem failures_called (journal : Journal) {call : Call} (untold : ∀ n, call ≠ .failNext n) :
    (journal.called call).failures = journal.failures - if call.isRequest then 1 else 0 := by
  cases call with
  | failNext n => exact absurd rfl (untold n)
  | dropReplies => rfl
  | request request =>
    show (journal.answer request).2.failures = journal.failures - 1
    by_cases free : journal.failures = 0
    · rw [answer_of_free free, free]
    · rw [answer_of_pending (Nat.pos_of_ne_zero free)]

/-- Until it is told otherwise, a journal loses one reply fewer after each publication that is appended. -/
theorem lostReplies_called (journal : Journal) {call : Call} (untold : ∀ n, call ≠ .dropReplies n) :
    (journal.called call).lostReplies = journal.lostReplies -
      (if journal.failures = 0 then call.publication?.toList else []).length := by
  cases call with
  | failNext => simp [called, failNext, Call.publication?]
  | dropReplies n => exact absurd rfl (untold n)
  | request request =>
    show (journal.answer request).2.lostReplies = _
    by_cases free : journal.failures = 0
    · rw [if_pos free, answer_of_free free]
    · rw [if_neg free, answer_of_pending (Nat.pos_of_ne_zero free)]
      rfl

end

/-! ## Many calls -/

/-- The transactions are the publications that were not failed, numbered in the order of the calls. -/
theorem transactions_after (calls : List Call) : ∀ journal : Journal, (journal.after calls).transactions =
    journal.transactions ++ Publication.numbered (journal.appended calls) journal.transactions.length := by
  induction calls with
  | nil => exact fun journal => (List.append_nil _).symm
  | cons call calls ih =>
    intro journal
    have first := journal.transactions_called call
    calc ((journal.called call).after calls).transactions
        = (journal.called call).transactions ++
            Publication.numbered ((journal.called call).appended calls) (journal.called call).transactions.length := ih _
      _ = _ := by
        rw [appended, Publication.numbered_append, first, List.length_append, Publication.length_numbered,
          List.append_assoc]

/-- Pending failures are used up by the requests that are made since the journal was told. -/
theorem failures_after (calls : List Call) : ∀ journal : Journal, (∀ n, .failNext n ∉ calls) →
    (journal.after calls).failures = journal.failures - calls.countP Call.isRequest := by
  induction calls with
  | nil => exact fun _ _ => rfl
  | cons call calls ih =>
    intro journal untold
    have first := journal.failures_called fun n same => untold n (same ▸ List.mem_cons_self)
    calc ((journal.called call).after calls).failures
        = (journal.called call).failures - calls.countP Call.isRequest :=
          ih _ fun n member => untold n (List.mem_cons_of_mem _ member)
      _ = journal.failures - (call :: calls).countP Call.isRequest := by
        rw [first, List.countP_cons, Nat.sub_sub, Nat.add_comm]

/-- Pending losses are used up by the publications that are appended since the journal was told. -/
theorem lostReplies_after (calls : List Call) : ∀ journal : Journal, (∀ n, .dropReplies n ∉ calls) →
    (journal.after calls).lostReplies = journal.lostReplies - (journal.appended calls).length := by
  induction calls with
  | nil => exact fun _ _ => rfl
  | cons call calls ih =>
    intro journal untold
    have first := journal.lostReplies_called fun n same => untold n (same ▸ List.mem_cons_self)
    calc ((journal.called call).after calls).lostReplies
        = (journal.called call).lostReplies - ((journal.called call).appended calls).length :=
          ih _ fun n member => untold n (List.mem_cons_of_mem _ member)
      _ = journal.lostReplies - (journal.appended (call :: calls)).length := by
        rw [first, appended, List.length_append, Nat.sub_sub]

theorem transactions_prefix_after (journal : Journal) (calls : List Call) :
    journal.transactions <+: (journal.after calls).transactions := by
  rw [transactions_after]
  exact List.prefix_append _ _

/-- Whoever has been found first is found first later. -/
theorem sendersTo_prefix_after (journal : Journal) (calls : List Call) (category : Category) (recipient : Address) :
    journal.sendersTo category recipient <+: (journal.after calls).sendersTo category recipient := by
  obtain ⟨rest, grown⟩ := journal.transactions_prefix_after calls
  have more := Log.sendersTo_prefix_append category recipient journal.transactions rest
  rwa [grown] at more

/-- What a journal makes of the calls that are made next. -/
structure Serves (journal : Journal) : Prop where
  /-- Told how many calls to fail, it has as many failures pending, and nothing else changes. -/
  told_fail : ∀ calls, journal.called (.failNext calls) = { journal with failures := calls }
  /-- Told how many replies to lose, it has as many losses pending, and nothing else changes. -/
  told_lose : ∀ publications,
    journal.called (.dropReplies publications) = { journal with lostReplies := publications }
  /-- Exactly while failures are pending a call is failed. -/
  fails_iff : ∀ request, (journal.answer request).1 = .error injected ↔ 0 < journal.failures
  /-- It then uses up one of them, and nothing else changes. -/
  fails : 0 < journal.failures → ∀ request,
    (journal.answer request).2 = { journal with failures := journal.failures - 1 }
  /-- A publication is appended once, whether or not its reply is lost. -/
  appends : journal.failures = 0 → ∀ signer category recipients payload,
    journal.publish signer category recipients payload =
      (if journal.lostReplies = 0 then .ok (idAt journal.transactions.length)
        else .error (.replyLost (idAt journal.transactions.length)),
      { journal with
        transactions := journal.transactions ++
          [Publication.transaction ⟨signer, category, recipients, payload⟩ journal.transactions.length]
        lostReplies := journal.lostReplies - 1 })
  /-- The last transaction of the sender is found. -/
  finds : journal.failures = 0 → ∀ category sender, ∃ found,
    journal.latestBySender category sender = (.ok found, journal) ∧
      Log.Latest journal.transactions category sender found
  /-- Everybody is listed who has sent a transaction to the recipient, in the order of the first ones. -/
  lists : journal.failures = 0 → ∀ category recipient, ∃ listed,
    journal.sendersToRecipient category recipient = (.ok listed, journal) ∧
      FirstPlaces ((journal.transactions.filter fun tx => tx.category = category ∧ recipient ∈ tx.recipients).map
        (·.sender)) listed

theorem serves (journal : Journal) : journal.Serves where
  told_fail _ := rfl
  told_lose _ := rfl
  fails_iff := journal.answer_eq_injected_iff
  fails pending request := by rw [answer_of_pending pending]
  appends := publish_of_free
  finds free category sender :=
    ⟨_, latestBySender_of_free free category sender, Log.latest_payload? category sender journal.transactions⟩
  lists free category recipient := by
    refine ⟨_, sendersToRecipient_of_free free category recipient, ?_⟩
    have firsts := firstPlaces_distinct
      (((journal.inCategory category).filter (recipient ∈ ·.recipients)).map (·.sender))
    rw [inCategory, List.filter_filter] at firsts
    simpa [sendersTo, inCategory, List.filter_filter, Bool.and_comm] using firsts

end Journal

/-- Whatever a new journal has been asked and told, its transactions are the publications that were not failed, in
order, each with what it was called with and with the reference of its place, which nothing else has. The next call
appends one transaction or none and is answered as the pending failures and losses and the transactions tell, and
who is listed at one time is listed first and in the same order at every later time. What is pending is what it was
last told: the failures less the requests made since, the losses less the publications appended since. -/
theorem keeps_append_only_log (calls : List Call) :
    (Journal.empty.after calls).transactions = Publication.numbered (Journal.empty.appended calls) 0 ∧
    (∀ i tx, (Journal.empty.after calls).transactions[i]? = some tx → tx.id = Journal.idAt i) ∧
    ((Journal.empty.after calls).transactions.map (·.id)).Nodup ∧
    (∀ call, ∃ new, new.length ≤ 1 ∧ (Journal.empty.after (calls ++ [call])).transactions =
      (Journal.empty.after calls).transactions ++ new) ∧
    (Journal.empty.after calls).Serves ∧
    (∀ more category recipient listed later,
      ((Journal.empty.after calls).sendersToRecipient category recipient).1 = .ok listed →
      ((Journal.empty.after (calls ++ more)).sendersToRecipient category recipient).1 = .ok later →
      listed <+: later) ∧
    ((∀ n, .failNext n ∉ calls) → (Journal.empty.after calls).failures = 0) ∧
    (∀ n since, (∀ m, .failNext m ∉ since) → (Journal.empty.after (calls ++ .failNext n :: since)).failures =
      n - since.countP Call.isRequest) ∧
    ((∀ n, .dropReplies n ∉ calls) → (Journal.empty.after calls).lostReplies = 0) ∧
    ∀ n since, (∀ m, .dropReplies m ∉ since) →
      (Journal.empty.after (calls ++ .dropReplies n :: since)).lostReplies =
        n - ((Journal.empty.after (calls ++ [.dropReplies n])).appended since).length := by
  have log : (Journal.empty.after calls).transactions = Publication.numbered (Journal.empty.appended calls) 0 :=
    Journal.transactions_after calls .empty
  have named (i : Nat) (tx : Transaction) (found : (Journal.empty.after calls).transactions[i]? = some tx) :
      tx.id = Journal.idAt i := by
    rw [log, Publication.getElem?_numbered, Option.map_eq_some_iff] at found
    obtain ⟨publication, -, rfl⟩ := found
    rw [Nat.zero_add]
    rfl
  have listed_eq {journal : Journal} {category recipient listed}
      (answered : (journal.sendersToRecipient category recipient).1 = .ok listed) :
      listed = journal.sendersTo category recipient := by
    by_cases free : journal.failures = 0
    · rw [Journal.sendersToRecipient_of_free free] at answered
      exact (Except.ok.inj answered).symm
    · have failed := (Journal.answer_eq_injected_iff journal (.sendersTo category recipient)).2 (by omega)
      cases failed.symm.trans answered
  refine ⟨log, named, ?_, fun call => ?_, Journal.serves _, fun more category recipient listed later now then_ => ?_,
    fun untold => ?_, fun n since untold => ?_, fun untold => ?_, fun n since untold => ?_⟩
  · rw [List.nodup_iff_getElem?_ne_getElem?]
    intro i j before bound same
    rw [List.length_map] at bound
    rw [List.getElem?_map, List.getElem?_map, List.getElem?_eq_getElem (by omega), List.getElem?_eq_getElem bound,
      Option.map_some, Option.map_some, Option.some.injEq, named i _ (List.getElem?_eq_getElem _),
      named j _ (List.getElem?_eq_getElem _)] at same
    exact before.ne (Journal.idAt_injective same)
  · rw [Journal.after_append]
    refine ⟨_, ?_, Journal.transactions_called _ call⟩
    rw [Publication.length_numbered]
    split
    · cases call.publication? <;> simp
    · simp
  · rw [listed_eq now, listed_eq then_, Journal.after_append]
    exact Journal.sendersTo_prefix_after _ more category recipient
  · rw [Journal.failures_after calls _ untold]
    exact Nat.zero_sub _
  · rw [Journal.after_append]
    exact Journal.failures_after since (Journal.failNext _ n) untold
  · rw [Journal.lostReplies_after calls _ untold]
    exact Nat.zero_sub _
  · rw [List.append_cons, Journal.after_append, Journal.lostReplies_after since _ untold, Journal.after_append]
    rfl

/-- Of three publications the first is failed, and the reply to the second is lost. -/
theorem keeps_append_only_log_flaky :
    let publication (payload : Bytes) : Publication := ⟨⟨⟨"bob"⟩, []⟩, ⟨"join:tx0"⟩, [⟨"alice"⟩], payload⟩
    let publish (payload : Bytes) : Call := .request (.publish ⟨⟨"bob"⟩, []⟩ ⟨"join:tx0"⟩ [⟨"alice"⟩] payload)
    let read : Call := .request (.sendersTo ⟨"join:tx0"⟩ ⟨"alice"⟩)
    let told : List Call := [.failNext 3, .failNext 2, publish [1], .dropReplies 1]
    let served : List Call := [read, publish [2], publish [3]]
    (Journal.empty.after told).failures = 1 ∧
    (Journal.empty.after (told ++ served.take 1)).lostReplies = 1 ∧
    (Journal.empty.after (told ++ served)).transactions =
      [(publication [2]).transaction 0, (publication [3]).transaction 1] ∧
    (Journal.empty.after (told ++ served)).failures = 0 ∧ (Journal.empty.after (told ++ served)).lostReplies = 0 := by
  intro publication publish read told served
  obtain ⟨log, -⟩ := keeps_append_only_log (told ++ served)
  obtain ⟨-, -, -, -, -, -, -, failing, -⟩ := keeps_append_only_log [.failNext 3]
  obtain ⟨-, -, -, -, -, -, -, -, -, losing⟩ := keeps_append_only_log (told.take 3)
  refine ⟨failing 2 [publish [1], .dropReplies 1] (by simp [publish]), ?_, log, ?_, ?_⟩
  · exact losing 1 [read] (by simp [read])
  · exact failing 2 ([publish [1], .dropReplies 1] ++ served) (by simp [publish, served, read])
  · exact losing 1 served (by simp [served, read, publish])

end MentalPoker
