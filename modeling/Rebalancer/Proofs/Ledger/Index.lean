import Std.Data.HashMap
import Std.Data.HashMap.Lemmas
import Rebalancer.Proofs.Ledger.Operations

set_option autoImplicit false

/-! # The ledger as a table and a queue

To find a payment without a search, a ledger is kept in two parts: a table of what is known of each
payment by its hash, and a queue of the hashes in the order of issue (`Index`). Every operation has
to change both. They stay in step, and give back what the list of entries gives back
(`Index.Shows.perform`). With what holds of the list along any operations, this is the law of the
ledger (`Ledger.lawful`).
-/

namespace Rebalancer

open Ledger

/-- What the table knows of a payment. -/
structure Index.Row where
  state : PaymentState
  route : Route

/-- What is remembered in two parts. -/
structure Index where
  capacity : Nat
  table : Std.HashMap String Index.Row
  queue : List String

namespace Index

/-- Two empty parts. -/
def new (capacity : Nat) : Index := ⟨max capacity 1, ∅, []⟩

/-- Takes hashes from the front of the queue, and their rows from the table, until the queue is
within the capacity. -/
def trim (capacity : Nat) (table : Std.HashMap String Row) : List String → Index
  | [] => ⟨capacity, table, []⟩
  | hash :: queue =>
    if capacity < (hash :: queue).length then trim capacity (table.erase hash) queue
    else ⟨capacity, table, hash :: queue⟩

/-- Adds a pending payment unless it is in the table. -/
def issue (ix : Index) (hash : String) (route : Route) : Index :=
  if ix.table.contains hash then ix
  else trim ix.capacity (ix.table.insert hash ⟨.pending, route⟩) (ix.queue ++ [hash])

/-- Sets the state in the row of a payment that is still open. -/
def resolve (ix : Index) (hash : String) (state : PaymentState) : Index :=
  match ix.table[hash]? with
  | some row =>
    if row.state.isOpen then { ix with table := ix.table.insert hash { row with state := state } }
    else ix
  | none => ix

/-- Takes over the news that a payment failed. Gives its route if it was still open. -/
def acceptFailure (ix : Index) (hash : String) : Option Route × Index :=
  match ix.table[hash]? with
  | some row =>
    if row.state.isOpen then
      (some row.route, { ix with table := ix.table.insert hash { row with state := .failed } })
    else (none, ix)
  | none => (none, ix)

/-- The hashes of the queue whose row says that the payment timed out. -/
def timedOut (ix : Index) : List String :=
  ix.queue.filter fun hash => (ix.table[hash]?.map (·.state)) == some .timedOut

/-- Carries out an operation. -/
def perform (ix : Index) : Op → Answer × Index
  | .issue hash route => (.nothing, ix.issue hash route)
  | .resolve hash state => (.nothing, ix.resolve hash state)
  | .acceptFailure hash => (ix.acceptFailure hash).map .accepted id
  | .timedOut => (.listed ix.timedOut, ix)

/-- The two parts after some operations. -/
def after (ix : Index) (ops : List Op) : Index := ops.foldl (fun ix op => (ix.perform op).2) ix

end Index

/-- The row of an entry. -/
def LedgerEntry.row (e : LedgerEntry) : Index.Row := ⟨e.state, e.route⟩

namespace Index

variable {ix : Index} {l : Ledger} {table : Std.HashMap String Row} {entries : List LedgerEntry}
  {hash : String} {state : PaymentState} {e : LedgerEntry} {op : Op}

/-- The table has the rows of the entries and no others. -/
def Tabulates (table : Std.HashMap String Row) (entries : List LedgerEntry) : Prop :=
  ∀ hash, table[hash]? = (entries.find? (·.hash == hash)).map (·.row)

/-- The two parts show what the ledger remembers. -/
structure Shows (ix : Index) (l : Ledger) : Prop where
  capacity : ix.capacity = l.capacity
  queue : ix.queue = l.hashes
  table : Tabulates ix.table l.entries

theorem shows_new (capacity : Nat) : (new capacity).Shows (Ledger.new capacity) :=
  ⟨rfl, rfl, fun _ => Std.HashMap.getElem?_empty⟩

theorem Shows.getElem?_table (h : ix.Shows l) (hash : String) :
    ix.table[hash]? = (l.entry? hash).map (·.row) := h.table hash

theorem Shows.mem_table_iff (h : ix.Shows l) : hash ∈ ix.table ↔ hash ∈ ix.queue := by
  rw [Std.HashMap.mem_iff_isSome_getElem?, h.getElem?_table, Option.isSome_map, isSome_entry?_iff,
    h.queue]

/-! ## Changes of the table -/

theorem find?_hash_eq_none (h : hash ∉ entries.map (·.hash)) :
    entries.find? (·.hash == hash) = none :=
  List.find?_eq_none.mpr fun _ he heq => h (eq_of_beq heq ▸ List.mem_map_of_mem he)

theorem Tabulates.append (h : Tabulates table entries) (hnew : e.hash ∉ entries.map (·.hash)) :
    Tabulates (table.insert e.hash e.row) (entries ++ [e]) := by
  intro hash
  rw [Std.HashMap.getElem?_insert, List.find?_append, List.find?_singleton]
  by_cases heq : e.hash = hash
  · subst heq
    rw [if_pos (beq_self_eq_true _), if_pos (beq_self_eq_true _), find?_hash_eq_none hnew]
    rfl
  · rw [if_neg (mt beq_iff_eq.mp heq), if_neg (mt beq_iff_eq.mp heq), Option.or_none]
    exact h hash

theorem Tabulates.erase (h : Tabulates table (e :: entries))
    (honly : e.hash ∉ entries.map (·.hash)) : Tabulates (table.erase e.hash) entries := by
  intro hash
  rw [Std.HashMap.getElem?_erase]
  by_cases heq : e.hash = hash
  · subst heq
    rw [if_pos (beq_self_eq_true _), find?_hash_eq_none honly]
    rfl
  · rw [if_neg (mt beq_iff_eq.mp heq), h hash, List.find?_cons, beq_eq_false_iff_ne.mpr heq]

/-! ## The operations on both parts -/

/-- Trimming keeps the two parts in step. -/
theorem shows_trim {capacity : Nat} (h : Tabulates table entries)
    (nodup : (entries.map (·.hash)).Nodup) :
    (trim capacity table (entries.map (·.hash))).Shows ⟨capacity, entries.rtake capacity⟩ := by
  induction entries generalizing table with
  | nil =>
      rw [List.rtake_nil]
      exact ⟨rfl, rfl, h⟩
  | cons e entries ih =>
      obtain ⟨honly, hrest⟩ := List.nodup_cons.mp nodup
      rw [List.map_cons, trim, List.length_cons, List.length_map]
      by_cases hlong : capacity < entries.length + 1
      · rw [if_pos hlong, rtake_cons_of_le (Nat.le_of_lt_succ hlong)]
        exact ih (h.erase honly) hrest
      · rw [if_neg hlong, rtake_of_length_le (Nat.not_lt.mp hlong)]
        exact ⟨rfl, rfl, h⟩

theorem Shows.issue (h : ix.Shows l) (ordered : l.Ordered) (hash : String) (route : Route) :
    (ix.issue hash route).Shows (l.issue hash route) := by
  have hcontains : ix.table.contains hash = true ↔ hash ∈ l.hashes := by
    rw [← h.queue]
    exact h.mem_table_iff
  unfold Index.issue Ledger.issue
  by_cases hmem : hash ∈ l.hashes
  · rw [if_pos (hcontains.mpr hmem), if_pos (isSome_entry?_iff.mpr hmem)]
    exact h
  · rw [if_neg (mt hcontains.mp hmem), if_neg (mt isSome_entry?_iff.mp hmem)]
    -- Both parts get the new entry, and then are trimmed together.
    let e : LedgerEntry := ⟨hash, .pending, route⟩
    have hqueue : ix.queue ++ [hash] = (l.entries ++ [e]).map (·.hash) := by
      rw [h.queue, List.map_append]
      rfl
    have hnodup : ((l.entries ++ [e]).map (·.hash)).Nodup := by
      rw [← hqueue, h.queue]
      exact ordered.nodup.append (List.nodup_singleton hash) (List.disjoint_singleton.mpr hmem)
    rw [hqueue, h.capacity]
    exact shows_trim (Tabulates.append (e := e) h.table hmem) hnodup

theorem getElem?_table_resolve_self (ix : Index) (hash : String) (state : PaymentState) :
    (ix.resolve hash state).table[hash]? =
      ix.table[hash]?.map fun row =>
        if row.state.isOpen then { row with state := state } else row := by
  unfold resolve
  split
  · rename_i row hrow
    rw [hrow]
    split
    · rename_i hopen
      rw [Std.HashMap.getElem?_insert_self, Option.map_some, if_pos hopen]
    · rename_i hclosed
      rw [hrow, Option.map_some, if_neg hclosed]
  · rename_i hrow
    rw [hrow]
    rfl

theorem getElem?_table_resolve_of_ne (ix : Index) (state : PaymentState) {hash hash' : String}
    (h : hash' ≠ hash) : (ix.resolve hash state).table[hash']? = ix.table[hash']? := by
  unfold resolve
  split
  · split
    · rw [Std.HashMap.getElem?_insert, if_neg (mt beq_iff_eq.mp h.symm)]
    · rfl
  · rfl

theorem resolve_frame (ix : Index) (hash : String) (state : PaymentState) :
    (ix.resolve hash state).capacity = ix.capacity ∧ (ix.resolve hash state).queue = ix.queue := by
  unfold resolve
  split
  · split
    · exact ⟨rfl, rfl⟩
    · exact ⟨rfl, rfl⟩
  · exact ⟨rfl, rfl⟩

/-- News of a payment in its row and in its entry. -/
theorem Shows.resolve (h : ix.Shows l) (hash : String) (state : PaymentState) :
    (ix.resolve hash state).Shows (l.resolve hash state) := by
  obtain ⟨hcapacity, hqueue⟩ := resolve_frame ix hash state
  refine ⟨hcapacity.trans h.capacity, ?_, fun hash' => ?_⟩
  · rw [hqueue, hashes_resolve, h.queue]
  show (ix.resolve hash state).table[hash']? =
    (Ledger.entry? (l.resolve hash state) hash').map (·.row)
  rw [entry?_resolve, Option.map_map]
  by_cases heq : hash' = hash
  · subst heq
    rw [getElem?_table_resolve_self, h.getElem?_table, Option.map_map]
    refine Option.map_congr fun e he => ?_
    obtain ⟨-, rfl⟩ := mem_of_entry?_eq_some he
    by_cases hopen : e.state.isOpen = true
    · simp [LedgerEntry.row, LedgerEntry.settle_of_open hopen, hopen]
    · rw [Bool.not_eq_true] at hopen
      simp [LedgerEntry.row, LedgerEntry.settle_of_closed hopen, hopen]
  · rw [getElem?_table_resolve_of_ne ix state heq, h.getElem?_table]
    refine Option.map_congr fun e he => ?_
    obtain ⟨-, rfl⟩ := mem_of_entry?_eq_some he
    exact congrArg LedgerEntry.row (LedgerEntry.settle_of_ne heq).symm

theorem snd_acceptFailure (ix : Index) (hash : String) :
    (ix.acceptFailure hash).2 = ix.resolve hash .failed := by
  unfold acceptFailure resolve
  split
  · split
    · rfl
    · rfl
  · rfl

theorem Shows.fst_acceptFailure (h : ix.Shows l) (hash : String) :
    (ix.acceptFailure hash).1 = (l.acceptFailure hash).map (·.1) := by
  unfold Index.acceptFailure Ledger.acceptFailure
  rw [h.getElem?_table]
  cases l.entry? hash with
  | none => rfl
  | some e =>
      show (if e.state.isOpen then _ else _ : Option Route × Index).1 = _
      by_cases hopen : e.state.isOpen = true
      · simp only [hopen]
        rfl
      · simp only [hopen]
        rfl

theorem Shows.timedOut (h : ix.Shows l) (ordered : l.Ordered) : ix.timedOut = l.timedOut := by
  rw [ordered.timedOut_eq, Index.timedOut, h.queue]
  refine List.filter_congr fun hash _ => ?_
  rw [h.getElem?_table, Option.map_map, beq_eq_decide]
  rfl

/-- An operation gives back the same, and the two parts go on showing what is remembered. -/
theorem Shows.perform (h : ix.Shows l) (ordered : l.Ordered) (op : Op) :
    (ix.perform op).1 = (l.perform op).1 ∧ (ix.perform op).2.Shows (l.perform op).2 := by
  cases op with
  | issue hash route => exact ⟨rfl, h.issue ordered hash route⟩
  | resolve hash state => exact ⟨rfl, h.resolve hash state⟩
  | acceptFailure hash =>
      refine ⟨congrArg Answer.accepted (h.fst_acceptFailure hash), ?_⟩
      show (ix.acceptFailure hash).2.Shows (l.heed hash)
      rw [snd_acceptFailure, ordered.heed_eq_resolve]
      exact h.resolve hash .failed
  | timedOut => exact ⟨congrArg Answer.listed (h.timedOut ordered), h⟩

theorem Shows.after (h : ix.Shows l) (ordered : l.Ordered) (ops : List Op) :
    (ix.after ops).Shows (l.after ops) := by
  induction ops generalizing ix l with
  | nil => exact h
  | cons op ops ih => exact ih (h.perform ordered op).2 (ordered.perform op)

end Index

namespace Ledger

/-! ## The law of the ledger -/

/-- A ledger that starts empty, after some operations. -/
def run (capacity : Nat) (ops : List Op) : Ledger := (new capacity).after ops

/-- The same in two parts. -/
def runIndex (capacity : Nat) (ops : List Op) : Index := (Index.new capacity).after ops

/-- Table and queue are in step, and show what the list of entries shows. -/
structure InStep (capacity : Nat) (ops : List Op) : Prop where
  keys : ∀ hash, hash ∈ (runIndex capacity ops).table ↔ hash ∈ (runIndex capacity ops).queue
  nodup : (runIndex capacity ops).queue.Nodup
  bounded : (runIndex capacity ops).queue.length ≤ max capacity 1
  queue : (runIndex capacity ops).queue = (run capacity ops).hashes
  rows : ∀ hash, (runIndex capacity ops).table[hash]? =
    (Ledger.entry? (run capacity ops) hash).map (·.row)
  answers : ∀ op, ((runIndex capacity ops).perform op).1 = ((run capacity ops).perform op).1

/-- Which hashes a ledger remembers: those that entered last. A hash enters when it is issued and
not remembered, and then the oldest one is forgotten if there is no room. Nothing else is forgotten.
-/
structure Forgetful (capacity : Nat) (ops : List Op) : Prop where
  latest : (run capacity ops).hashes = ((new capacity).entered ops).rtake (max capacity 1)
  enters : ∀ hash route, hash ∉ (run capacity ops).hashes →
    ((run capacity ops).issue hash route).hashes =
      (if (run capacity ops).hashes.length < max capacity 1 then (run capacity ops).hashes
        else (run capacity ops).hashes.tail) ++ [hash]
  keeps : ∀ op, (∀ hash route, op = .issue hash route → hash ∈ (run capacity ops).hashes) →
    ((run capacity ops).perform op).2.hashes = (run capacity ops).hashes

/-- What a ledger tells of payments. An entry that succeeded or failed does not change while it is
remembered. A failure is accepted only for a payment that is pending or timed out, with the route
with which its hash entered, and only once while it is remembered. -/
structure Truthful (capacity : Nat) (ops : List Op) : Prop where
  final : ∀ hash e later, entry? (run capacity ops) hash = some e →
    e.state = .succeeded ∨ e.state = .failed → (run capacity ops).Remembers hash later →
    entry? (run capacity (ops ++ later)) hash = some e
  accepts : ∀ hash, (run capacity ops).acceptFailure hash ≠ none ↔
    (run capacity ops).state? hash = some .pending ∨ (run capacity ops).state? hash = some .timedOut
  route : ∀ hash route l', (run capacity ops).acceptFailure hash = some (route, l') →
    (new capacity).EnteredBy ops hash route
  once : ∀ hash later, (run capacity ops).acceptFailure hash ≠ none →
    (run capacity (ops ++ [.acceptFailure hash])).Remembers hash later →
    (run capacity (ops ++ .acceptFailure hash :: later)).acceptFailure hash = none
  timedOut : (run capacity ops).timedOut =
    (run capacity ops).hashes.filter fun hash => (run capacity ops).state? hash = some .timedOut

variable (capacity : Nat) (ops : List Op)

theorem ordered_run : (run capacity ops).Ordered := (ordered_new capacity).after ops

theorem capacity_run : (run capacity ops).capacity = max capacity 1 := capacity_after _ ops

theorem inStep : InStep capacity ops := by
  have hordered := ordered_run capacity ops
  have hshows : (runIndex capacity ops).Shows (run capacity ops) :=
    (Index.shows_new capacity).after (ordered_new capacity) ops
  refine ⟨fun _ => hshows.mem_table_iff, ?_, ?_, hshows.queue, hshows.getElem?_table,
    fun op => (hshows.perform hordered op).1⟩
  · rw [hshows.queue]
    exact hordered.nodup
  · rw [hshows.queue, ← capacity_run capacity ops]
    exact hordered.bounded

theorem forgetful : Forgetful capacity ops := by
  have hordered := ordered_run capacity ops
  have hcapacity := capacity_run capacity ops
  refine ⟨(ordered_new capacity).hashes_after ops, fun hash route hnew => ?_,
    fun _ => hordered.hashes_perform_of_known⟩
  rw [← hcapacity]
  exact hordered.hashes_issue (hcapacity ▸ capacity_new_pos capacity) hnew route

theorem truthful : Truthful capacity ops := by
  have hordered := ordered_run capacity ops
  refine ⟨fun hash e later he hended stays => ?_, fun _ => acceptFailure_ne_none_iff,
    fun hash route l' haccept => ?_, fun hash later haccept stays => ?_, hordered.timedOut_eq⟩
  · rw [run, after_append]
    exact hordered.entry?_after_of_closed he (PaymentState.isOpen_eq_false_iff.mpr hended) stays
  · obtain ⟨e, hentry, -, rfl, -⟩ := acceptFailure_eq_some_iff.mp haccept
    obtain ⟨he, rfl⟩ := mem_of_entry?_eq_some hentry
    exact (ordered_new capacity).enteredBy_of_mem_after rfl he
  · rw [run, after_append] at stays ⊢
    exact hordered.acceptFailure_after_eq_none haccept stays

/-- The law of the ledger, for any operations on it. -/
theorem lawful : InStep capacity ops ∧ Forgetful capacity ops ∧ Truthful capacity ops :=
  ⟨inStep capacity ops, forgetful capacity ops, truthful capacity ops⟩

-- A hash that was forgotten enters again, as the newest.
example (r : Route) :
    (run 2 [.issue "a" r, .issue "b" r, .issue "c" r, .issue "a" r]).hashes = ["c", "a"] := rfl

end Ledger

end Rebalancer
