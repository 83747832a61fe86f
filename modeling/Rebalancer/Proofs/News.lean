import Rebalancer.Engine
import Rebalancer.Proofs.Ledger
import Rebalancer.Proofs.Payment

set_option autoImplicit false

/-! # News of payments

The ledger changes when a request makes a payment, when someone tells that a payment failed, and
when the node answers how a payment ended that was given up (`News`). The ledger and the books
follow from what was heard (`Hears`). With some news a payment comes to be remembered as succeeded
(`Marks`). If it was made just then, it is booked once. If the node tells of it later, it is not
booked at all (`Marks.timesBooked_eq`).
-/

namespace Rebalancer

/-- What the engine hears of payments. -/
inductive News
  /-- A payment of a request was made and ended. -/
  | paid (p : Payment)
  /-- Someone tells that a payment failed. -/
  | told (hash : String)
  /-- The node answers how a payment ended that was given up. -/
  | asked (hash : String) (answer : Reply PaymentOutcome)

/-- The calls by which the engine hears news. -/
def News.exchanges (timeout : UInt64) : News → Exchanges
  | paid p => p.exchanges timeout
  | told _ => []
  | asked hash answer => [(Query.waitPay hash Engine.lateWait).answered answer]

/-- The payment that was made. -/
def News.payment? : News → Option Payment
  | paid p => some p
  | told _ | asked .. => none

/-- The payments that were made. -/
def paymentsIn (news : List News) : List Payment := news.filterMap News.payment?

/-- How often a payment with this hash was booked. -/
def timesBooked (news : List News) (hash : String) : Nat :=
  ((settledOf (paymentsIn news)).map (·.hash)).count hash

theorem paymentsIn_cons (n : News) (news : List News) :
    paymentsIn (n :: news) = n.payment?.toList ++ paymentsIn news := by
  cases n with
  | paid p => rfl
  | told hash => rfl
  | asked hash answer => rfl

theorem paymentsIn_append (first second : List News) :
    paymentsIn (first ++ second) = paymentsIn first ++ paymentsIn second := List.filterMap_append

theorem paymentsIn_map_paid (payments : List Payment) :
    paymentsIn (payments.map .paid) = payments := by
  rw [paymentsIn, List.filterMap_map]
  exact List.filterMap_some

namespace Ledger

/-- The ledger after some news. -/
def hear (l : Ledger) : News → Ledger
  | .paid p => l.note p.entry
  | .told hash | .asked hash (.ok (.failed _)) => l.heed hash
  | .asked hash (.ok (.complete ..)) => l.resolve hash .succeeded
  | .asked _ (.ok .timedOut) | .asked _ (.error _) => l

def hearAll (l : Ledger) (news : List News) : Ledger := news.foldl hear l

/-- A payment with this hash is remembered as succeeded. -/
def Succeeded (l : Ledger) (hash : String) : Prop :=
  ∃ e ∈ l.entries, e.hash = hash ∧ e.state = .succeeded

/-- With this news a payment with this hash comes to be remembered as succeeded. -/
def Marks (l : Ledger) (n : News) (hash : String) : Prop :=
  ¬ l.Succeeded hash ∧ (l.hear n).Succeeded hash

variable {l : Ledger} {n : News} {news first second : List News} {hash : String}
  {hashes : List String} {state : PaymentState} {e : LedgerEntry} {p : Payment}

theorem hearAll_append (l : Ledger) (first second : List News) :
    l.hearAll (first ++ second) = (l.hearAll first).hearAll second := List.foldl_append

/-- An entry is that of the payment that was made, or it was there and did not fall back from
success. -/
theorem mem_entries_hear (unknown : ∀ p ∈ n.payment?, l.state? p.hash = none)
    (h : e ∈ (l.hear n).entries) :
    (∃ e₀ ∈ l.entries, e₀.hash = e.hash ∧ (e₀.state = .succeeded → e.state = .succeeded)) ∨
      ∃ p ∈ n.payment?, e = p.entry := by
  have resolved : ∀ {hash : String} {state : PaymentState},
      e ∈ (l.resolve hash state).entries →
      ∃ e₀ ∈ l.entries, e₀.hash = e.hash ∧ (e₀.state = .succeeded → e.state = .succeeded) := by
    intro hash state h
    rcases mem_entries_resolve h with hold | ⟨e₀, he, -, hopen, rfl⟩
    · exact ⟨e, hold, rfl, id⟩
    · refine ⟨e₀, he, rfl, fun hstate => ?_⟩
      rw [hstate] at hopen
      cases hopen
  have heeded : ∀ {hash : String}, e ∈ (l.heed hash).entries →
      ∃ e₀ ∈ l.entries, e₀.hash = e.hash ∧ (e₀.state = .succeeded → e.state = .succeeded) := by
    intro hash h
    rcases l.heed_eq hash with heq | heq
    · rw [heq] at h
      exact ⟨e, h, rfl, id⟩
    · rw [heq] at h
      exact resolved h
  match n, unknown, h with
  | .paid p, unknown, h =>
      rcases mem_entries_note (unknown p rfl) h with hold | rfl
      · exact Or.inl ⟨e, hold, rfl, id⟩
      · exact Or.inr ⟨p, rfl, rfl⟩
  | .told hash, _, h => exact Or.inl (heeded h)
  | .asked hash (.ok (.failed failure)), _, h => exact Or.inl (heeded h)
  | .asked hash (.ok (.complete delivered sent)), _, h => exact Or.inl (resolved h)
  | .asked hash (.ok .timedOut), _, h => exact Or.inl ⟨e, h, rfl, id⟩
  | .asked hash (.error err), _, h => exact Or.inl ⟨e, h, rfl, id⟩

theorem Fresh.unknown (h : l.Fresh (n.payment?.toList.map (·.hash) ++ hashes)) :
    ∀ p ∈ n.payment?, l.state? p.hash = none := fun p hp =>
  h.2 p.hash (List.mem_append_left _ (List.mem_map_of_mem (Option.mem_toList.mpr hp)))

theorem Fresh.hear (h : l.Fresh (n.payment?.toList.map (·.hash) ++ hashes)) :
    (l.hear n).Fresh hashes := by
  refine ⟨h.1.of_append_right, fun hash hmem => state?_eq_none_iff.mpr fun e he heq => ?_⟩
  rcases mem_entries_hear h.unknown he with ⟨e₀, he₀, hsame, -⟩ | ⟨p, hp, rfl⟩
  · exact state?_eq_none_iff.mp (h.2 hash (List.mem_append_right _ hmem)) e₀ he₀ (hsame.trans heq)
  · have hp : p.hash ∈ n.payment?.toList.map (·.hash) :=
      List.mem_map_of_mem (Option.mem_toList.mpr hp)
    have hsame : p.hash = hash := heq
    exact List.disjoint_of_nodup_append h.1 hp (hsame ▸ hmem)

theorem Fresh.hearAll (h : l.Fresh ((paymentsIn news).map (·.hash) ++ hashes)) :
    (l.hearAll news).Fresh hashes := by
  induction news generalizing l with
  | nil => exact h
  | cons n rest ih =>
      rw [paymentsIn_cons, List.map_append, List.append_assoc] at h
      exact ih h.hear

/-- An entry was there before, or it is that of a payment that was made. It did not fall back from
success. -/
theorem mem_entries_hearAll (fresh : l.Fresh ((paymentsIn news).map (·.hash)))
    (h : e ∈ (l.hearAll news).entries) :
    (∃ e₀ ∈ l.entries, e₀.hash = e.hash ∧ (e₀.state = .succeeded → e.state = .succeeded)) ∨
      ∃ p ∈ paymentsIn news, p.hash = e.hash ∧ (p.state = .succeeded → e.state = .succeeded) := by
  induction news generalizing l with
  | nil => exact Or.inl ⟨e, h, rfl, id⟩
  | cons n rest ih =>
      rw [paymentsIn_cons, List.map_append] at fresh
      rw [paymentsIn_cons]
      rcases ih fresh.hear h with ⟨e₁, he₁, hhash, hstate⟩ | ⟨p, hp, hhash, hstate⟩
      · rcases mem_entries_hear fresh.unknown he₁ with ⟨e₀, he₀, hhash', hstate'⟩ | ⟨p, hp, rfl⟩
        · exact Or.inl ⟨e₀, he₀, hhash'.trans hhash, fun h => hstate (hstate' h)⟩
        · exact Or.inr ⟨p, List.mem_append_left _ (Option.mem_toList.mpr hp), hhash, hstate⟩
      · exact Or.inr ⟨p, List.mem_append_right _ hp, hhash, hstate⟩

theorem capacity_hear (l : Ledger) (n : News) : (l.hear n).capacity = l.capacity := by
  have heeded : ∀ hash, (l.heed hash).capacity = l.capacity := by
    intro hash
    rcases l.heed_eq hash with heq | heq
    · rw [heq]
    · rw [heq]
      rfl
  match n with
  | .paid p => exact capacity_note l p.entry
  | .told hash => exact heeded hash
  | .asked hash (.ok (.failed failure)) => exact heeded hash
  | .asked hash (.ok (.complete delivered sent)) => rfl
  | .asked hash (.ok .timedOut) => rfl
  | .asked hash (.error err) => rfl

theorem capacity_hearAll (l : Ledger) (news : List News) :
    (l.hearAll news).capacity = l.capacity := by
  induction news generalizing l with
  | nil => rfl
  | cons n rest ih => exact (ih (l.hear n)).trans (capacity_hear l n)

/-! ## Payments of a request -/

variable {payments : List Payment}

theorem mem_entries_hearAll_paid (fresh : l.Fresh (payments.map (·.hash)))
    (h : e ∈ (l.hearAll (payments.map .paid)).entries) :
    e ∈ l.entries ∨ ∃ p ∈ payments, e = p.entry := by
  induction payments generalizing l with
  | nil => exact Or.inl h
  | cons p rest ih =>
      have hrest : (l.hear (.paid p)).Fresh (rest.map (·.hash)) := Fresh.hear fresh
      rcases ih hrest h with hmem | ⟨q, hq, rfl⟩
      · exact (mem_entries_note (fresh.2 p.hash List.mem_cons_self) hmem).imp_right
          fun heq => ⟨p, List.mem_cons_self, heq⟩
      · exact Or.inr ⟨q, List.mem_cons_of_mem p hq, rfl⟩

/-- A payment that is remembered has its own end. -/
theorem state_eq_of_paid (fresh : l.Fresh (payments.map (·.hash))) (hp : p ∈ payments)
    (h : (l.hearAll (payments.map .paid)).state? p.hash = some state) : state = p.state := by
  obtain ⟨e, hmem, hhash, rfl⟩ := exists_entry_of_state? h
  rcases mem_entries_hearAll_paid fresh hmem with hold | ⟨q, hq, rfl⟩
  · have hunknown := fresh.2 p.hash (List.mem_map_of_mem hp)
    exact absurd hhash (state?_eq_none_iff.mp hunknown e hold)
  · obtain rfl := List.inj_on_of_nodup_map fresh.1 hq hp hhash
    rfl

/-- The newest payment is remembered. -/
theorem state?_hearAll_paid (room : 0 < l.capacity)
    (fresh : l.Fresh ((payments ++ [p]).map (·.hash))) :
    (l.hearAll ((payments ++ [p]).map .paid)).state? p.hash = some p.state := by
  have hunknown : (l.hearAll (payments.map .paid)).state? p.entry.hash = none := by
    refine (Fresh.hearAll ?_).2 _ (List.mem_singleton_self _)
    rw [paymentsIn_map_paid]
    rw [List.map_append] at fresh
    exact fresh
  have hself : p.entry ∈ (l.hearAll ((payments ++ [p]).map .paid)).entries := by
    rw [List.map_append, hearAll_append]
    exact mem_entries_note_self hunknown (capacity_hearAll l _ ▸ room)
  cases hstate : (l.hearAll ((payments ++ [p]).map .paid)).state? p.hash with
  | none => exact absurd rfl (state?_eq_none_iff.mp hstate p.entry hself)
  | some state =>
      rw [state_eq_of_paid fresh (List.mem_append_right _ (List.mem_singleton_self p)) hstate]

/-! ## Payments that succeed -/

/-- A payment comes to be remembered as succeeded when it was made and ended so, or when the node
answers that an open one did. -/
theorem Marks.cases (unknown : ∀ p ∈ n.payment?, l.state? p.hash = none) (h : l.Marks n hash) :
    (∃ p, n = .paid p ∧ p.hash = hash ∧ p.state = .succeeded) ∨
      ∃ delivered sent, n = .asked hash (.ok (.complete delivered sent)) ∧
        ∃ e ∈ l.entries, e.hash = hash ∧ e.state ≠ .succeeded := by
  obtain ⟨hnot, e, he, hhash, hstate⟩ := h
  have new : e ∉ l.entries := fun hold => hnot ⟨e, hold, hhash, hstate⟩
  have heeded : ∀ {hash : String}, e ∉ (l.heed hash).entries := by
    intro hash h
    rcases l.heed_eq hash with heq | heq
    · exact new (heq ▸ h)
    · rw [heq] at h
      rcases mem_entries_resolve h with hold | ⟨e₀, -, -, -, rfl⟩
      · exact new hold
      · cases hstate
  match n, unknown, he with
  | .paid p, unknown, he =>
      rcases mem_entries_note (unknown p rfl) he with hold | rfl
      · exact absurd hold new
      · exact Or.inl ⟨p, rfl, hhash, hstate⟩
  | .told hash', _, he => exact absurd he heeded
  | .asked hash' (.ok (.failed failure)), _, he => exact absurd he heeded
  | .asked hash' (.ok (.complete delivered sent)), _, he =>
      rcases mem_entries_resolve he with hold | ⟨e₀, he₀, hhash', hopen, rfl⟩
      · exact absurd hold new
      · obtain rfl : hash' = hash := hhash'.symm.trans hhash
        refine Or.inr ⟨delivered, sent, rfl, e₀, he₀, hhash', fun hsucceeded => ?_⟩
        rw [hsucceeded] at hopen
        cases hopen
  | .asked hash' (.ok .timedOut), _, he => exact absurd he new
  | .asked hash' (.error err), _, he => exact absurd he new

/-- Of the payments that come to be remembered as succeeded, those that a request made are booked
once, and those that the node tells of later are not booked. -/
theorem Marks.timesBooked_eq (fresh : l.Fresh ((paymentsIn news).map (·.hash)))
    (split : news = first ++ n :: second) (h : (l.hearAll first).Marks n hash) :
    (∃ p, n = .paid p ∧ p.hash = hash ∧ timesBooked news hash = 1) ∨
      ∃ delivered sent, n = .asked hash (.ok (.complete delivered sent)) ∧
        timesBooked news hash = 0 := by
  have hparts : paymentsIn news = paymentsIn first ++ (n.payment?.toList ++ paymentsIn second) := by
    rw [split, paymentsIn_append, paymentsIn_cons]
  have hfresh := fresh
  rw [hparts, List.map_append, List.map_append] at hfresh
  rcases h.cases hfresh.hearAll.unknown with ⟨p, rfl, rfl, hstate⟩ |
    ⟨delivered, sent, rfl, e, he, hhash, hopen⟩
  · refine Or.inl ⟨p, rfl, rfl, ?_⟩
    have hmem : p ∈ settledOf (paymentsIn news) := by
      rw [mem_settledOf, hparts]
      exact ⟨List.mem_append_right _ (List.mem_append_left _ (List.mem_singleton_self p)), hstate⟩
    exact List.count_eq_one_of_mem (fresh.1.sublist (List.filter_sublist.map _))
      (List.mem_map_of_mem hmem)
  · refine Or.inr ⟨delivered, sent, rfl, List.count_eq_zero.mpr fun hmem => ?_⟩
    -- A payment that was booked could not be open: it is new, and it never falls back from success.
    obtain ⟨p, hp, rfl⟩ := List.mem_map.mp hmem
    obtain ⟨hp, hstate⟩ := mem_settledOf.mp hp
    have hfirst : l.Fresh ((paymentsIn first).map (·.hash)) :=
      hfresh.sublist (List.sublist_append_left _ _)
    rcases mem_entries_hearAll hfirst he with ⟨e₀, he₀, hsame, -⟩ | ⟨q, hq, hsame, hkept⟩
    · exact state?_eq_none_iff.mp (fresh.2 p.hash (List.mem_map_of_mem hp)) e₀ he₀
        (hsame.trans hhash)
    · have hq' : q ∈ paymentsIn news := by
        rw [hparts]
        exact List.mem_append_left _ hq
      obtain rfl := List.inj_on_of_nodup_map fresh.1 hq' hp (hsame.trans hhash)
      exact hopen (hkept hstate)

/-- A payment that settled comes to be remembered as succeeded when it was made. -/
theorem marks_paid (room : 0 < l.capacity) (fresh : l.Fresh [p.hash])
    (hstate : p.state = .succeeded) : l.Marks (.paid p) p.hash := by
  have unknown : l.state? p.entry.hash = none := fresh.2 _ (List.mem_singleton_self _)
  constructor
  · rintro ⟨e, he, hhash, -⟩
    exact state?_eq_none_iff.mp unknown e he hhash
  · exact ⟨p.entry, mem_entries_note_self unknown room, rfl, hstate⟩

/-- How the successes that the ledger remembers agree with the payments that were booked. -/
structure BooksSuccesses (l : Ledger) (news : List News) : Prop where
  once_or_late : ∀ first n second hash, news = first ++ n :: second →
    (l.hearAll first).Marks n hash →
      (∃ p, n = .paid p ∧ p.hash = hash ∧ timesBooked news hash = 1) ∨
        ∃ delivered sent, n = .asked hash (.ok (.complete delivered sent)) ∧
          timesBooked news hash = 0
  marked : 0 < l.capacity → ∀ first p second, news = first ++ .paid p :: second →
    p.state = .succeeded → (l.hearAll first).Marks (.paid p) p.hash
  /-- Every success is booked once just if the node tells of none of them late. -/
  once_iff : (∀ first n second hash, news = first ++ n :: second →
      (l.hearAll first).Marks n hash → timesBooked news hash = 1) ↔
    ∀ first hash answer second, news = first ++ .asked hash answer :: second →
      ¬ (l.hearAll first).Marks (.asked hash answer) hash

theorem Fresh.booksSuccesses (fresh : l.Fresh ((paymentsIn news).map (·.hash))) :
    l.BooksSuccesses news := by
  have hmarks := fun first n second hash (split : news = first ++ n :: second)
      (hmark : (l.hearAll first).Marks n hash) => hmark.timesBooked_eq fresh split
  refine ⟨hmarks, ?_, ?_, ?_⟩
  · rintro room first p second rfl hstate
    rw [paymentsIn_append, paymentsIn_cons, List.map_append, List.map_append] at fresh
    have hp : (l.hearAll first).Fresh [p.hash] :=
      fresh.hearAll.sublist (List.sublist_append_left _ _)
    refine marks_paid ?_ hp hstate
    rw [capacity_hearAll]
    exact room
  · intro honce first hash answer second split hmark
    have hone := honce first _ second hash split hmark
    rcases hmarks first _ second hash split hmark with ⟨p, heq, -⟩ | ⟨_, _, -, hnone⟩
    · cases heq
    · rw [hone] at hnone
      cases hnone
  · intro hlate first n second hash split hmark
    rcases hmarks first n second hash split hmark with ⟨p, -, -, hone⟩ | ⟨_, _, rfl, -⟩
    · exact hone
    · exact absurd hmark (hlate first hash _ second split)

end Ledger

/-! ## What was heard -/

/-- The news were heard with the calls of `record` for payments, and they changed the ledger and the
books. -/
structure Hears (timeout : UInt64) (b : Books) (record : Exchanges) (news : List News)
    (b' : Books) : Prop where
  calls : paymentCalls record = news.flatMap (·.exchanges timeout)
  ledger : b'.ledger = b.ledger.hearAll news
  booked : b.Booked (settledOf (paymentsIn news)) b'
  routed : ∀ p ∈ paymentsIn news, p.route.hops ≠ []

namespace Hears

variable {timeout : UInt64} {b b' b'' : Books} {first second : Exchanges} {news more : List News}

theorem of_quiet (quiet : paymentCalls first = []) (ledger : b'.ledger = b.ledger)
    (aside : b.Aside b') : Hears timeout b first [] b' := ⟨quiet, ledger, .nil aside, nofun⟩

theorem single {p : Payment} (calls : paymentCalls first = p.exchanges timeout)
    (ledger : b'.ledger = b.ledger.note p.entry) (booked : b.Booked (settledOf [p]) b')
    (routed : p.route.hops ≠ []) : Hears timeout b first [.paid p] b' := by
  refine ⟨calls.trans (List.append_nil _).symm, ledger, booked, fun q hq => ?_⟩
  obtain rfl : q = p := List.mem_singleton.mp hq
  exact routed

theorem append (h : Hears timeout b first news b') (h' : Hears timeout b' second more b'') :
    Hears timeout b (first ++ second) (news ++ more) b'' := by
  constructor
  · rw [paymentCalls, List.filter_append, List.flatMap_append, ← h.calls, ← h'.calls]
    rfl
  · rw [h'.ledger, h.ledger, Ledger.hearAll_append]
  · rw [paymentsIn_append, settledOf, List.filter_append]
    exact h.booked.append h'.booked
  · rw [paymentsIn_append]
    exact fun p hp => (List.mem_append.mp hp).elim (h.routed p) (h'.routed p)

theorem aside (h : Hears timeout b first news b') (ledger : b''.ledger = b'.ledger)
    (aside : b'.Aside b'') : Hears timeout b first news b'' := by
  refine ⟨h.calls, ledger.trans h.ledger, ?_, h.routed⟩
  rw [← List.append_nil (settledOf _)]
  exact h.booked.append (.nil aside)

theorem append_quiet (h : Hears timeout b first news b') (quiet : paymentCalls second = []) :
    Hears timeout b (first ++ second) news b' := by
  rw [← List.append_nil news]
  exact h.append (.of_quiet quiet rfl (.refl b'))

theorem hashesIn_eq (h : Hears timeout b first news b') :
    hashesIn first = (paymentsIn news).map (·.hash) := by
  rw [← hashesIn_paymentCalls, h.calls]
  clear h
  induction news with
  | nil => rfl
  | cons n rest ih =>
      rw [List.flatMap_cons, hashesIn, List.filterMap_append, paymentsIn_cons, List.map_append,
        ← ih]
      congr 1
      cases n with
      | paid p => exact p.hashesIn_exchanges timeout
      | told hash => rfl
      | asked hash answer => rfl

theorem exchanges_subset (h : Hears timeout b first news b') {p : Payment}
    (hp : p ∈ paymentsIn news) : p.exchanges timeout ⊆ first := by
  obtain ⟨n, hn, hpaid⟩ := List.mem_filterMap.mp hp
  match n, hpaid with
  | .paid _, rfl =>
      intro x hx
      have hx : x ∈ news.flatMap (·.exchanges timeout) := List.mem_flatMap.mpr ⟨_, hn, hx⟩
      rw [← h.calls] at hx
      exact (List.mem_filter.mp hx).1

end Hears

end Rebalancer
