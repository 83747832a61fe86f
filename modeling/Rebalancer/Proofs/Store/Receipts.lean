import Mathlib.Algebra.BigOperators.Ring.Finset
import Mathlib.Algebra.Order.BigOperators.Group.List
import Rebalancer.Proofs.Store.Costs

set_option autoImplicit false

/-! # What the costs tell of past payments

A payment that settled leaves a receipt in the cost table: a booking on the channel it left by and
one on the channel it came back by. The table keeps one row for all bookings of a channel, a day and
a side, in whatever order the days come. As long as the totals fit a signed word, each row holds
just what its bookings come to (`Tallies`). A question for the costs adds up rows, so it gives what
the receipts come to that it asks for.
-/

namespace Rebalancer

open Std Finset

/-- A payment that settled. -/
structure Receipt where
  route : Route
  fee : Msat
  now : Time

/-- What is added to a row. -/
structure Booking where
  key : CostKey
  fee : Nat
  amount : Nat

/-- What some bookings come to. -/
def sumOf (part : Booking → Nat) (bookings : List Booking) : Nat := (bookings.map part).sum

/-- What the bookings on a row come to. -/
def bookedOn (part : Booking → Nat) (bookings : List Booking) (key : CostKey) : Nat :=
  sumOf part (bookings.filter (·.key = key))

section Sums

variable {part : Booking → Nat} {first second : List Booking} {b : Booking} {key : CostKey}

theorem sumOf_append : sumOf part (first ++ second) = sumOf part first + sumOf part second := by
  rw [sumOf, List.map_append, List.sum_append]
  rfl

theorem bookedOn_append :
    bookedOn part (first ++ second) key = bookedOn part first key + bookedOn part second key := by
  rw [bookedOn, List.filter_append, sumOf_append]
  rfl

theorem bookedOn_singleton_self : bookedOn part [b] b.key = part b := by
  simp [bookedOn, sumOf]

theorem bookedOn_singleton_of_ne (h : b.key ≠ key) : bookedOn part [b] key = 0 := by
  simp [bookedOn, sumOf, h]

/-- Over keys among which are those of all bookings, the rows come to what the bookings come to. -/
theorem sum_bookedOn (part : Booking → Nat) (p : CostKey → Bool) {bookings : List Booking}
    {keys : Finset CostKey} (h : ∀ b ∈ bookings, b.key ∈ keys) :
    ∑ key ∈ keys, (if p key then bookedOn part bookings key else 0) =
      sumOf part (bookings.filter (p ·.key)) := by
  induction bookings with
  | nil => simp [bookedOn, sumOf]
  | cons b rest ih =>
      have hrest := ih fun b' hb' => h b' (List.mem_cons_of_mem b hb')
      have hsplit : ∀ key ∈ keys, (if p key then bookedOn part (b :: rest) key else 0) =
          (if b.key = key then (if p key then part b else 0) else 0) +
            if p key then bookedOn part rest key else 0 := by
        intro key _
        rw [← List.singleton_append, bookedOn_append]
        by_cases heq : b.key = key
        · subst heq
          rw [bookedOn_singleton_self, if_pos rfl]
          split_ifs <;> omega
        · rw [bookedOn_singleton_of_ne heq, if_neg heq]
          split_ifs <;> omega
      rw [Finset.sum_congr rfl hsplit, Finset.sum_add_distrib, Finset.sum_ite_eq,
        if_pos (h b List.mem_cons_self), hrest, ← List.singleton_append, List.filter_append,
        sumOf_append]
      congr 1
      by_cases hp : p b.key = true
      · simp [hp, sumOf]
      · simp [hp, sumOf]

end Sums

/-- A signed word can hold what the bookings on a row come to. -/
def FitsOn (bookings : List Booking) (key : CostKey) : Prop :=
  (bookedOn (·.fee) bookings key : Int) ≤ maxSigned ∧
    (bookedOn (·.amount) bookings key : Int) ≤ maxSigned

section FitsOn

variable {first second : List Booking} {b : Booking} {key : CostKey}

theorem FitsOn.left (h : FitsOn (first ++ second) key) : FitsOn first key := by
  obtain ⟨hfee, hamount⟩ := h
  rw [bookedOn_append] at hfee hamount
  constructor <;> omega

theorem FitsOn.last (h : FitsOn (first ++ [b]) b.key) :
    (b.fee : Int) ≤ maxSigned ∧ (b.amount : Int) ≤ maxSigned := by
  obtain ⟨hfee, hamount⟩ := h
  rw [bookedOn_append, bookedOn_singleton_self] at hfee hamount
  constructor <;> omega

end FitsOn

/-! ## Rows and bookings -/

/-- Whether a row is on this side, and of a channel and a day that are looked for. -/
def CostKey.isOn (key : CostKey) (side : CostSide) (wanted : String → Time → Bool) : Bool :=
  wanted key.channel key.day && key.side == side

namespace Costs

/-- Each row holds what is booked on it. -/
def Tallies (table : Costs) (bookings : List Booking) : Prop :=
  ∀ key, table.Holds key (bookedOn (·.fee) bookings key) (bookedOn (·.amount) bookings key)

/-- A column holds in each row what the bookings on it come to. -/
def Shows (table : Costs) (column : CostRow → Cell) (part : Booking → Nat)
    (bookings : List Booking) : Prop :=
  ∀ key, match table[key]? with
    | none => bookedOn part bookings key = 0
    | some row => column row = .exact (bookedOn part bookings key)

variable {table : Costs} {bookings : List Booking} {b : Booking} {column : CostRow → Cell}
  {part : Booking → Nat}

theorem tallies_empty : Tallies ∅ [] := by
  intro key
  unfold Holds
  rw [TreeMap.getElem?_emptyc]
  exact ⟨rfl, rfl⟩

theorem Tallies.book (h : table.Tallies bookings) (peer : String)
    (fits : FitsOn (bookings ++ [b]) b.key) :
    (table.book b.key peer b.fee b.amount).Tallies (bookings ++ [b]) := by
  intro key
  rw [bookedOn_append, bookedOn_append]
  by_cases heq : b.key = key
  · subst heq
    obtain ⟨hfee, hamount⟩ := fits
    rw [bookedOn_append, bookedOn_singleton_self] at hfee hamount
    rw [bookedOn_singleton_self, bookedOn_singleton_self]
    have hmin : minSigned ≤ 0 := by decide
    exact (h b.key).book peer (by omega) (by omega)
  · rw [bookedOn_singleton_of_ne heq, bookedOn_singleton_of_ne heq]
    unfold Holds
    rw [getElem?_book_of_ne table (Ne.symm heq)]
    exact h key

theorem Tallies.shows_fee (h : table.Tallies bookings) : table.Shows (·.fee) (·.fee) bookings := by
  intro key
  have hkey := h key
  unfold Holds at hkey
  split
  · rename_i hrow
    rw [hrow] at hkey
    exact Int.ofNat_eq_zero.mp hkey.1
  · rename_i row hrow
    rw [hrow] at hkey
    exact hkey.1

theorem Tallies.shows_amount (h : table.Tallies bookings) :
    table.Shows (·.amount) (·.amount) bookings := by
  intro key
  have hkey := h key
  unfold Holds at hkey
  split
  · rename_i hrow
    rw [hrow] at hkey
    exact Int.ofNat_eq_zero.mp hkey.2
  · rename_i row hrow
    rw [hrow] at hkey
    exact hkey.2

/-- The rows that `p` looks for come to what the bookings on such rows come to. -/
theorem Shows.total_eq (h : table.Shows column part bookings) (p : CostKey → Bool) :
    total (fun key row => if p key then (column row).integer?.getD 0 else 0) table =
      (sumOf part (bookings.filter (p ·.key)) : Int) := by
  let keys : Finset CostKey := (table.keys ++ bookings.map (·.key)).toFinset
  have hrows : ∀ key ∈ table, key ∈ keys := by
    intro key hkey
    simp [keys, TreeMap.mem_keys, hkey]
  have hbooked : ∀ b ∈ bookings, b.key ∈ keys := by
    intro b hb
    simp only [keys, List.mem_toFinset, List.mem_append]
    exact Or.inr (List.mem_map_of_mem hb)
  rw [total_eq_sum _ hrows, ← sum_bookedOn part p hbooked, Nat.cast_sum]
  refine Finset.sum_congr rfl fun key _ => ?_
  have hkey := h key
  unfold weightAt
  split at hkey
  · rename_i hrow
    rw [hrow, hkey]
    simp
  · rename_i row hrow
    rw [hrow]
    show (if p key then (column row).integer?.getD 0 else 0) = _
    rw [hkey]
    split_ifs <;> rfl

end Costs

/-- A column of integers adds up to their sum if that fits a signed word. -/
theorem Cell.sum?_exact (counts : List Nat) (fits : (counts.sum : Int) ≤ maxSigned) :
    Cell.sum? (counts.map fun n : Nat => .exact n) = some (counts.sum : Int) := by
  have hmin : minSigned ≤ 0 := by decide
  -- Every partial sum fits because nothing is taken away later.
  have hpartial : ∀ (counts : List Nat) (n : Nat), ((n + counts.sum : Nat) : Int) ≤ maxSigned →
      (counts.map fun n : Nat => Cell.exact n).foldlM
        (fun total c => c.integer?.bind fun n => fitSigned? (total + n)) (n : Int) =
          some ((n + counts.sum : Nat) : Int) := by
    intro counts
    induction counts with
    | nil => exact fun n _ => rfl
    | cons m rest ih =>
        intro n hfits
        rw [List.sum_cons, ← Nat.add_assoc] at hfits ⊢
        have hstep : fitSigned? ((n : Int) + m) = some ((n + m : Nat) : Int) :=
          fitSigned?_eq_some_iff.mpr ⟨rfl, by omega, by omega⟩
        rw [List.map_cons, List.foldlM_cons]
        show (fitSigned? ((n : Int) + m)).bind _ = _
        rw [hstep]
        exact ih (n + m) hfits
  have hall := hpartial counts 0 (by rwa [Nat.zero_add])
  rw [Nat.zero_add] at hall
  exact hall

namespace Costs

variable {table : Costs} {bookings : List Booking} {column : CostRow → Cell} {part : Booking → Nat}

/-- A question for a column gives what is booked on the rows it asks for. -/
theorem Shows.sum?_rowsSince (h : table.Shows column part bookings) (channel : String) (day : Time)
    (side : CostSide) {n : Nat} (booked : sumOf part (bookings.filter
      (·.key.isOn side fun channel' day' => channel' == channel && day ≤ day')) = n)
    (fits : (n : Int) ≤ maxSigned) :
    Cell.sum? ((table.rowsSince channel day side).map column) = some (n : Int) := by
  let p (key : CostKey) : Bool :=
    key.isOn side fun channel' day' => channel' == channel && day ≤ day'
  let counts := (table.toList.filter (p ·.1)).map fun e => bookedOn part bookings e.1
  have hexact : ∀ e ∈ table.toList, column e.2 = .exact (bookedOn part bookings e.1) := by
    intro e he
    have hkey := h e.1
    rw [TreeMap.mem_toList_iff_getElem?_eq_some.mp he] at hkey
    exact hkey
  have hcells : (table.rowsSince channel day side).map column =
      counts.map fun n : Nat => .exact n := by
    show ((table.toList.filter (p ·.1)).map (·.2)).map column = _
    rw [List.map_map, List.map_map]
    exact List.map_congr_left fun e he => hexact e (List.mem_filter.mp he).1
  have hsum : (counts.sum : Int) = sumOf part (bookings.filter (p ·.key)) := by
    rw [← h.total_eq p]
    calc (counts.sum : Int)
        = ((table.toList.filter (p ·.1)).map fun e => (bookedOn part bookings e.1 : Int)).sum := by
          rw [Nat.cast_list_sum, List.map_map]
          rfl
      _ = (table.toList.map fun e =>
            if p e.1 then (bookedOn part bookings e.1 : Int) else 0).sum := by
          rw [List.sum_map_ite]
          simp
      _ = total (fun key row => if p key then (column row).integer?.getD 0 else 0) table := by
          refine congrArg List.sum (List.map_congr_left fun e he => ?_)
          show _ = if p e.1 then (column e.2).integer?.getD 0 else 0
          rw [hexact e he]
          rfl
  have hcounts : counts.sum = n := (Int.ofNat_inj.mp hsum).trans booked
  rw [hcells, Cell.sum?_exact, hcounts]
  rw [hcounts]
  exact fits

end Costs

/-! ## Receipts -/

/-- The number of the day in which `t` lies. -/
def dayOf (t : Time) : Int := t / daySeconds

theorem dayStart_eq (t : Time) : dayStart t = daySeconds * dayOf t :=
  sub_eq_iff_eq_add.mpr (Int.mul_ediv_add_emod t daySeconds).symm

theorem dayStart_le_dayStart_iff {t t' : Time} : dayStart t ≤ dayStart t' ↔ dayOf t ≤ dayOf t' := by
  rw [dayStart_eq, dayStart_eq]
  exact Int.mul_le_mul_left (by decide)

theorem Route.exists_ends {r : Route} (h : r.hops ≠ []) :
    ∃ exit entry, r.exit? = some exit ∧ r.entry? = some entry := by
  refine ⟨(r.hops.head h).half.scid, (r.hops.getLast h).half.scid, ?_, ?_⟩
  · rw [exit?, List.head?_eq_some_head h]
    rfl
  · rw [ entry?, List.getLast?_eq_some_getLast h]
    rfl

namespace Receipt

/-- What some payments moved. -/
def moved (receipts : List Receipt) : Nat := (receipts.map (·.route.amount.toNat)).sum

/-- What some payments cost. -/
def paid (receipts : List Receipt) : Nat := (receipts.map (·.fee.toNat)).sum

/-- The channel on which a side of the payment is booked. -/
def channel? (r : Receipt) : CostSide → Option String
  | .incoming => r.route.entry?
  | .outgoing => r.route.exit?

/-- The fee that is booked on a side. -/
def charge (r : Receipt) : CostSide → Nat
  | .incoming => r.fee.toNat
  | .outgoing => 0

/-- What is booked for a payment; nothing for a route without hops. -/
def bookings (r : Receipt) : List Booking :=
  match r.route.exit?, r.route.entry? with
  | some exit, some entry =>
    [⟨⟨exit, dayStart r.now, .outgoing⟩, r.charge .outgoing, r.route.amount.toNat⟩,
      ⟨⟨entry, dayStart r.now, .incoming⟩, r.charge .incoming, r.route.amount.toNat⟩]
  | _, _ => []

variable {r : Receipt} {receipts : List Receipt}

theorem bookings_of_hopless (h : r.route.hops = []) : r.bookings = [] := by
  unfold bookings Route.exit?
  rw [h]
  rfl

/-- A side of a payment is booked if its route has hops. -/
theorem filter_bookings (r : Receipt) (side : CostSide) (wanted : String → Time → Bool) :
    r.bookings.filter (·.key.isOn side wanted) =
      ((r.channel? side).filter (wanted · (dayStart r.now))).toList.map fun channel =>
        ⟨⟨channel, dayStart r.now, side⟩, r.charge side, r.route.amount.toNat⟩ := by
  by_cases hhops : r.route.hops = []
  · cases side <;> simp [bookings, channel?, Route.exit?, Route.entry?, hhops]
  · obtain ⟨exit, entry, hexit, hentry⟩ := Route.exists_ends hhops
    cases side with
    | incoming =>
        simp only [bookings, channel?, hexit, hentry, CostKey.isOn, Option.filter_some]
        by_cases hwanted : wanted entry (dayStart r.now) = true <;> simp [hwanted]
    | outgoing =>
        simp only [bookings, channel?, hexit, hentry, CostKey.isOn, Option.filter_some]
        by_cases hwanted : wanted exit (dayStart r.now) = true <;> simp [hwanted]

/-- What is booked on a side comes from the payments whose channel on it is looked for. -/
theorem sumOf_bookings {part : Booking → Nat} {side : CostSide} {f : Receipt → Nat}
    (hf : ∀ (r : Receipt) (channel : String),
      part ⟨⟨channel, dayStart r.now, side⟩, r.charge side, r.route.amount.toNat⟩ = f r)
    (receipts : List Receipt) (wanted : String → Time → Bool) :
    sumOf part ((receipts.flatMap bookings).filter (·.key.isOn side wanted)) =
      ((receipts.filter fun r => (r.channel? side).any (wanted · (dayStart r.now))).map f).sum := by
  induction receipts with
  | nil => rfl
  | cons r rest ih =>
      rw [List.flatMap_cons, List.filter_append, sumOf_append, ih, filter_bookings]
      cases hchannel : r.channel? side with
      | none => simp [hchannel, sumOf]
      | some channel =>
          by_cases hwanted : wanted channel (dayStart r.now) = true
          · simp [hchannel, hwanted, Option.filter_some, sumOf, hf]
          · simp [hchannel, hwanted, Option.filter_some, sumOf]

theorem fees_bookings (receipts : List Receipt) (side : CostSide) (wanted : String → Time → Bool) :
    sumOf (·.fee) ((receipts.flatMap bookings).filter (·.key.isOn side wanted)) =
      ((receipts.filter fun r => (r.channel? side).any (wanted · (dayStart r.now))).map
        (·.charge side)).sum :=
  sumOf_bookings (fun _ _ => rfl) receipts wanted

theorem amounts_bookings (receipts : List Receipt) (side : CostSide)
    (wanted : String → Time → Bool) :
    sumOf (·.amount) ((receipts.flatMap bookings).filter (·.key.isOn side wanted)) =
      moved (receipts.filter fun r => (r.channel? side).any (wanted · (dayStart r.now))) :=
  sumOf_bookings (fun _ _ => rfl) receipts wanted

/-- A signed word can hold what moves over each channel on each side, and what it costs. -/
structure Fit (receipts : List Receipt) : Prop where
  left : ∀ channel, (moved (receipts.filter (·.route.exit? = some channel)) : Int) ≤ maxSigned
  arrived : ∀ channel,
    (moved (receipts.filter fun r => r.route.entry? = some channel) : Int) ≤ maxSigned
  paid : ∀ channel,
    (paid (receipts.filter fun r => r.route.entry? = some channel) : Int) ≤ maxSigned

theorem Fit.sublist {past : List Receipt} (h : Fit receipts) (sub : past.Sublist receipts) :
    Fit past := by
  have hle : ∀ (p : Receipt → Bool) (f : Receipt → Nat),
      ((past.filter p).map f).sum ≤ ((receipts.filter p).map f).sum := fun p f =>
    ((sub.filter p).map f).sum_le_sum fun _ _ => Nat.zero_le _
  constructor
  · intro channel
    exact (Int.ofNat_le.mpr (hle _ _)).trans (h.left channel)
  · intro channel
    exact (Int.ofNat_le.mpr (hle _ _)).trans (h.arrived channel)
  · intro channel
    exact (Int.ofNat_le.mpr (hle _ _)).trans (h.paid channel)

/-- What fits altogether fits for each channel. -/
theorem fit_of_le (hmoved : (moved receipts : Int) ≤ maxSigned)
    (hpaid : (paid receipts : Int) ≤ maxSigned) : Fit receipts := by
  have hle : ∀ (p : Receipt → Bool) (f : Receipt → Nat),
      ((receipts.filter p).map f).sum ≤ (receipts.map f).sum := fun p f =>
    (List.filter_sublist.map f).sum_le_sum fun _ _ => Nat.zero_le _
  constructor
  · intro channel
    exact (Int.ofNat_le.mpr (hle _ _)).trans hmoved
  · intro channel
    exact (Int.ofNat_le.mpr (hle _ _)).trans hmoved
  · intro channel
    exact (Int.ofNat_le.mpr (hle _ _)).trans hpaid

/-- What fits for each channel fits for each row. -/
theorem Fit.fitsOn (h : Fit receipts) (key : CostKey) :
    FitsOn (receipts.flatMap bookings) key := by
  let wanted (channel : String) (_ : Time) : Bool := channel == key.channel
  have hle : ∀ part : Booking → Nat, bookedOn part (receipts.flatMap bookings) key ≤
      sumOf part ((receipts.flatMap bookings).filter (·.key.isOn key.side wanted)) := by
    intro part
    refine (List.Sublist.map part (List.monotone_filter_right _ fun b hb => ?_)).sum_le_sum
      fun _ _ => Nat.zero_le _
    rw [of_decide_eq_true hb]
    simp [CostKey.isOn, wanted]
  have hwanted : (fun r : Receipt => (r.channel? key.side).any (wanted · (dayStart r.now))) =
      fun r => decide (r.channel? key.side = some key.channel) := by
    funext r
    cases r.channel? key.side with
    | none => rfl
    | some channel => simp [wanted, beq_eq_decide]
  have hfee := hle (·.fee)
  have hamount := hle (·.amount)
  rw [fees_bookings, hwanted] at hfee
  rw [amounts_bookings, hwanted] at hamount
  have harrived := h.arrived key.channel
  have hleft := h.left key.channel
  have hpaid := h.paid key.channel
  have hmax : 0 ≤ maxSigned := by decide
  cases hside : key.side with
  | incoming =>
      rw [hside] at hfee hamount
      exact ⟨(Int.ofNat_le.mpr hfee).trans hpaid, (Int.ofNat_le.mpr hamount).trans harrived⟩
  | outgoing =>
      rw [hside] at hfee hamount
      have hzero : bookedOn (·.fee) (receipts.flatMap bookings) key = 0 := by
        simpa [charge] using hfee
      rw [FitsOn, hzero]
      exact ⟨hmax, (Int.ofNat_le.mpr hamount).trans hleft⟩

end Receipt

namespace Costs

variable {table : Costs} {receipts : List Receipt}

/-- Books all payments one after the other. -/
def recordAll (table : Costs) (receipts : List Receipt) : Option Costs :=
  receipts.foldlM (fun table r => table.record r.route r.fee r.now) table

/-- All amounts of the day that begins at `day` on one side. -/
def amountOnDay (table : Costs) (day : Time) (side : CostSide) : Int :=
  total (fun key row =>
    if key.isOn side fun _ day' => day' == day then row.amount.integer?.getD 0 else 0) table

/-- What is so of the table when these payments are booked. -/
structure Accounts (table : Costs) (receipts : List Receipt) : Prop where
  /-- A question for the costs of a channel since `t` gives those of the payments that left by it or
  arrived by it on the day of `t` or later. -/
  since : ∀ (channel : String) (t start : Time), dayStart? t = some start →
    table.since? channel start = some
      { fee := Receipt.paid (receipts.filter fun r =>
          r.route.entry? = some channel ∧ dayOf t ≤ dayOf r.now)
        amountIn := Receipt.moved (receipts.filter fun r =>
          r.route.entry? = some channel ∧ dayOf t ≤ dayOf r.now)
        amountOut := Receipt.moved (receipts.filter fun r =>
          r.route.exit? = some channel ∧ dayOf t ≤ dayOf r.now) }
  daily : ∀ (day : Time) (side : CostSide), table.amountOnDay day side =
    Receipt.moved (receipts.filter fun r => r.route.hops ≠ [] ∧ dayStart r.now = day)
  balanced : ∀ day : Time, table.amountOnDay day .incoming = table.amountOnDay day .outgoing

theorem record_of_hopless {r : Receipt} (h : r.route.hops = []) :
    table.record r.route r.fee r.now = some table := by
  rw [Costs.record, h]
  rfl

/-- A payment adds both its bookings to the table. -/
theorem Tallies.record {bookings : List Booking} {r : Receipt} (h : table.Tallies bookings)
    (hops : r.route.hops ≠ []) (day : (dayStart? r.now).isSome = true)
    (fit : ∀ key, FitsOn (bookings ++ r.bookings) key) :
    ∃ table', table.record r.route r.fee r.now = some table' ∧
      table'.Tallies (bookings ++ r.bookings) := by
  obtain ⟨first, hfirst⟩ : ∃ first, r.route.hops.head? = some first :=
    ⟨_, List.head?_eq_some_head hops⟩
  obtain ⟨last, hlast⟩ : ∃ last, r.route.hops.getLast? = some last :=
    ⟨_, List.getLast?_eq_some_getLast hops⟩
  obtain ⟨start, hstart⟩ := Option.isSome_iff_exists.mp day
  obtain ⟨rfl, -, -⟩ := fitSigned?_eq_some_iff.mp hstart
  let out : Booking := ⟨⟨first.half.scid, dayStart r.now, .outgoing⟩, 0, r.route.amount.toNat⟩
  let back : Booking :=
    ⟨⟨last.half.scid, dayStart r.now, .incoming⟩, r.fee.toNat, r.route.amount.toNat⟩
  have hbookings : r.bookings = [out] ++ [back] := by
    unfold Receipt.bookings Route.exit? Route.entry?
    rw [hfirst, hlast]
    rfl
  rw [hbookings, ← List.append_assoc] at fit ⊢
  have hback := (h.book (b := out) first.destination (fit out.key).left).book last.source
    (fit back.key)
  have hfee : signedOfWord r.fee = back.fee := signedOfWord_of_le (fit back.key).last.1
  have hamount : signedOfWord r.route.amount = back.amount :=
    signedOfWord_of_le (fit back.key).last.2
  refine ⟨_, ?_, hback⟩
  rw [Costs.record, hfirst, hlast]
  simp only [hstart, hamount, hfee]
  rfl

theorem exists_recordAll
    (days : ∀ r ∈ receipts, r.route.hops ≠ [] → (dayStart? r.now).isSome = true)
    (fit : Receipt.Fit receipts) :
    ∃ table, recordAll ∅ receipts = some table ∧
      table.Tallies (receipts.flatMap Receipt.bookings) := by
  induction receipts using List.reverseRecOn with
  | nil => exact ⟨∅, rfl, tallies_empty⟩
  | append_singleton past r ih =>
      obtain ⟨table, hpast, htallies⟩ := ih (fun r hr => days r (List.mem_append_left _ hr))
        (fit.sublist (List.sublist_append_left past [r]))
      rw [List.flatMap_append, List.flatMap_singleton]
      have hstep : recordAll ∅ (past ++ [r]) = table.record r.route r.fee r.now := by
        rw [recordAll, List.foldlM_append]
        show (recordAll ∅ past).bind _ = _
        rw [hpast]
        simp
      rw [hstep]
      by_cases hhops : r.route.hops = []
      · rw [Receipt.bookings_of_hopless hhops, List.append_nil, record_of_hopless hhops]
        exact ⟨table, rfl, htallies⟩
      · have hday := days r (List.mem_append_right _ (List.mem_singleton_self r)) hhops
        refine htallies.record hhops hday fun key => ?_
        have hkey := fit.fitsOn key
        rwa [List.flatMap_append, List.flatMap_singleton] at hkey

/-- The payments that are looked for on a side since the day of `t`. -/
theorem filter_since (receipts : List Receipt) (channel : String) (t : Time) (side : CostSide) :
    (receipts.filter fun r => (r.channel? side).any fun channel' =>
        channel' == channel && dayStart t ≤ dayStart r.now) =
      receipts.filter fun r => r.channel? side = some channel ∧ dayOf t ≤ dayOf r.now := by
  refine List.filter_congr fun r _ => ?_
  cases r.channel? side with
  | none => simp
  | some channel' => simp [beq_eq_decide, dayStart_le_dayStart_iff]

theorem Tallies.since?_eq (h : table.Tallies (receipts.flatMap Receipt.bookings))
    (fit : Receipt.Fit receipts) (channel : String) (t : Time) :
    table.since? channel (dayStart t) = some
      { fee := Receipt.paid (receipts.filter fun r =>
          r.route.entry? = some channel ∧ dayOf t ≤ dayOf r.now)
        amountIn := Receipt.moved (receipts.filter fun r =>
          r.route.entry? = some channel ∧ dayOf t ≤ dayOf r.now)
        amountOut := Receipt.moved (receipts.filter fun r =>
          r.route.exit? = some channel ∧ dayOf t ≤ dayOf r.now) } := by
  have hrecent : ∀ (p : Receipt → Prop) [DecidablePred p] (f : Receipt → Nat),
      ((receipts.filter fun r => p r ∧ dayOf t ≤ dayOf r.now).map f).sum ≤
        ((receipts.filter fun r => p r).map f).sum := by
    intro p _ f
    refine (List.Sublist.map f (List.monotone_filter_right _ fun r hr => ?_)).sum_le_sum
      fun _ _ => Nat.zero_le _
    simp only [decide_eq_true_eq] at hr ⊢
    exact hr.1
  have hfeeIn := h.shows_fee.sum?_rowsSince channel (dayStart t) .incoming
    ((Receipt.fees_bookings receipts .incoming _).trans
      (congrArg Receipt.paid (filter_since receipts channel t .incoming)))
    ((Int.ofNat_le.mpr (hrecent _ _)).trans (fit.paid channel))
  have hfeeOut := h.shows_fee.sum?_rowsSince channel (dayStart t) .outgoing (n := 0)
    (by simp [Receipt.fees_bookings, Receipt.charge]) (by decide)
  have hamountIn := h.shows_amount.sum?_rowsSince channel (dayStart t) .incoming
    ((Receipt.amounts_bookings receipts .incoming _).trans
      (congrArg Receipt.moved (filter_since receipts channel t .incoming)))
    ((Int.ofNat_le.mpr (hrecent _ _)).trans (fit.arrived channel))
  have hamountOut := h.shows_amount.sum?_rowsSince channel (dayStart t) .outgoing
    ((Receipt.amounts_bookings receipts .outgoing _).trans
      (congrArg Receipt.moved (filter_since receipts channel t .outgoing)))
    ((Int.ofNat_le.mpr (hrecent _ _)).trans (fit.left channel))
  unfold since?
  dsimp only
  rw [hfeeIn, hfeeOut, hamountIn, hamountOut]
  simp only [Option.bind_eq_bind, Option.bind_some, Nat.cast_zero, Int.add_zero]
  rfl

/-- A side of a payment is booked on the day that begins at `day` if the payment is of that day and
its route has hops. -/
theorem Tallies.amountOnDay_eq (h : table.Tallies (receipts.flatMap Receipt.bookings)) (day : Time)
    (side : CostSide) : table.amountOnDay day side =
      Receipt.moved (receipts.filter fun r => r.route.hops ≠ [] ∧ dayStart r.now = day) := by
  refine (h.shows_amount.total_eq _).trans (congrArg Nat.cast ?_)
  refine (Receipt.amounts_bookings receipts side _).trans (congrArg Receipt.moved ?_)
  refine List.filter_congr fun r _ => ?_
  by_cases hhops : r.route.hops = []
  · cases side <;> simp [Receipt.channel?, Route.exit?, Route.entry?, hhops]
  · obtain ⟨exit, entry, hexit, hentry⟩ := Route.exists_ends hhops
    cases side <;> simp [Receipt.channel?, hexit, hentry, hhops, beq_eq_decide]

theorem Tallies.accounts (h : table.Tallies (receipts.flatMap Receipt.bookings))
    (fit : Receipt.Fit receipts) : table.Accounts receipts where
  since channel t start hstart := by
    obtain ⟨rfl, -, -⟩ := fitSigned?_eq_some_iff.mp hstart
    exact h.since?_eq fit channel t
  daily := h.amountOnDay_eq
  balanced day := (h.amountOnDay_eq day .incoming).trans (h.amountOnDay_eq day .outgoing).symm

/-- Routes without hops count for nothing. -/
theorem recordAll_filter_hops (table : Costs) (receipts : List Receipt) :
    table.recordAll (receipts.filter (·.route.hops ≠ [])) = table.recordAll receipts := by
  induction receipts generalizing table with
  | nil => rfl
  | cons r rest ih =>
      by_cases hhops : r.route.hops = []
      · rw [List.filter_cons_of_neg (by simp [hhops]), ih]
        show _ = (table.record r.route r.fee r.now).bind (recordAll · rest)
        rw [record_of_hopless hhops]
        rfl
      · rw [List.filter_cons_of_pos (by simp [hhops])]
        show (table.record r.route r.fee r.now).bind (recordAll · _) =
          (table.record r.route r.fee r.now).bind (recordAll · rest)
        exact congrArg _ (funext fun table' => ih table')

/-- Whatever payments are booked on an empty table, in whatever order, the costs that it tells are
theirs. -/
theorem accounts_recordAll (receipts : List Receipt)
    (days : ∀ r ∈ receipts, r.route.hops ≠ [] → (dayStart? r.now).isSome = true)
    (fit : Receipt.Fit receipts) :
    ∃ table, recordAll ∅ receipts = some table ∧ table.Accounts receipts ∧
      recordAll ∅ (receipts.filter (·.route.hops ≠ [])) = some table := by
  obtain ⟨table, hrecord, htallies⟩ := exists_recordAll days fit
  refine ⟨table, hrecord, htallies.accounts fit, ?_⟩
  rw [recordAll_filter_hops]
  exact hrecord

end Costs

/-! ## Four payments -/

/-- A payment that leaves by one channel with `b` and comes back by another. -/
def Receipt.over (exit entry : String) (amount fee : Msat) (now : Time) : Receipt where
  route := ⟨[⟨⟨exit, 0⟩, "a", "b", amount, 24⟩, ⟨⟨entry, 1⟩, "b", "a", amount, 18⟩], amount⟩
  fee := fee
  now := now

/-- Payments on three days, of which the last is booked first. The channel `1x1` is on either side,
and for one of them on both. -/
def receiptsOver : List Receipt :=
  [.over "1x1" "1x1" 70 1 86405, .over "1x1" "2x1" 1000 3 100, .over "2x1" "1x1" 500 2 (-1),
    ⟨⟨[], 5000⟩, 5, 50⟩]

namespace Costs

theorem accounts_receiptsOver :
    (∀ r ∈ receiptsOver, r.route.hops ≠ [] → (dayStart? r.now).isSome = true) ∧
      Receipt.Fit receiptsOver ∧
      ∃ table, recordAll ∅ receiptsOver = some table ∧ table.Accounts receiptsOver ∧
        recordAll ∅ (receiptsOver.filter (·.route.hops ≠ [])) = some table ∧
        table.since? "1x1" 0 = some ⟨1, 70, 1070⟩ ∧
        table.since? "1x1" (-86400) = some ⟨3, 570, 1070⟩ := by
  have days : ∀ r ∈ receiptsOver, r.route.hops ≠ [] → (dayStart? r.now).isSome = true := by
    decide
  have fit : Receipt.Fit receiptsOver := Receipt.fit_of_le (by decide) (by decide)
  obtain ⟨table, hrecord, haccounts, hhops⟩ := accounts_recordAll receiptsOver days fit
  refine ⟨days, fit, table, hrecord, haccounts, hhops, ?_, ?_⟩
  · rw [haccounts.since "1x1" 100 0 (by decide)]
    decide
  · rw [haccounts.since "1x1" (-1) (-86400) (by decide)]
    decide

end Costs

end Rebalancer
