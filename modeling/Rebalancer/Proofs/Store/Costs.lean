import Mathlib.Tactic.SplitIfs
import Rebalancer.Proofs.Tables
import Rebalancer.Store.Costs

set_option autoImplicit false

/-! # What the cost table adds up to

A payment adds to two rows of its day (`getElem?_record`). As long as every row is an integer and
has room for what is booked on it (`HasRoom`), a booking adds just its amount and its fee to the
totals of the table.
-/

namespace Rebalancer

open Std

instance : LawfulEqCmp CostKey.compare where
  eq_of_compare := by
    rintro ⟨channel, day, side⟩ ⟨channel', day', side'⟩ h
    obtain ⟨hchannel, hrest⟩ := compareLex_eq_eq.mp h
    obtain ⟨hday, hside⟩ := compareLex_eq_eq.mp hrest
    obtain rfl : channel = channel' := LawfulEqCmp.eq_of_compare hchannel
    obtain rfl : day = day' := LawfulEqCmp.eq_of_compare hday
    have hrank : side.rank = side'.rank := LawfulEqCmp.eq_of_compare hside
    cases side <;> cases side' <;> first | rfl | cases hrank

theorem signedOfWord_of_le {w : UInt64} (h : (w.toNat : Int) ≤ maxSigned) :
    signedOfWord w = w.toNat := by
  have hlt : 2 * w.toBitVec.toNat < 2 ^ 64 := by
    have hw : w.toBitVec.toNat = w.toNat := rfl
    simp only [maxSigned] at h
    omega
  exact BitVec.toInt_eq_toNat_of_lt hlt

namespace Costs

/-- The row of `key` holds these integers; a row that is missing holds nothing. -/
def Holds (table : Costs) (key : CostKey) (fee amount : Int) : Prop :=
  match table[key]? with
  | none => fee = 0 ∧ amount = 0
  | some row => row.fee = .exact fee ∧ row.amount = .exact amount

/-- Each row holds integers, and a signed word can hold what they come to when as much is added as
is planned for the channel and the side of the row. -/
def HasRoom (table : Costs) (fees amounts : String → CostSide → Nat) : Prop :=
  ∀ key : CostKey, ∃ fee amount : Int, table.Holds key fee amount ∧
    minSigned ≤ fee ∧ fee + fees key.channel key.side ≤ maxSigned ∧
    minSigned ≤ amount ∧ amount + amounts key.channel key.side ≤ maxSigned

/-- All amounts of the table on one side. -/
def amountOn (table : Costs) (side : CostSide) : Int :=
  total (fun key row => if key.side = side then row.amount.integer?.getD 0 else 0) table

/-- All fees of the table. -/
def feesPaid (table : Costs) : Int := total (fun _ row => row.fee.integer?.getD 0) table

variable {table : Costs} {key : CostKey} {fee amount fee' amount' : Int}

/-- A row after a booking. A row that is missing is opened, with the peer of the booking. -/
def rowAfter (peer : String) (fee amount : Int) : Option CostRow → CostRow
  | none => ⟨peer, .exact fee, .exact amount⟩
  | some row => { row with fee := row.fee.add fee, amount := row.amount.add amount }

theorem getElem?_book (table : Costs) (key : CostKey) (peer : String) (fee amount : Int)
    (key' : CostKey) :
    (table.book key peer fee amount)[key']? =
      if key' = key then some (rowAfter peer fee amount table[key']?) else table[key']? := by
  have hbook : table.book key peer fee amount =
      table.insert key (rowAfter peer fee amount table[key]?) := by
    unfold book
    cases table[key]? <;> rfl
  rw [hbook]
  by_cases heq : key' = key
  · subst heq
    rw [TreeMap.getElem?_insert_self, if_pos rfl]
  · rw [TreeMap.getElem?_insert, if_neg fun h => heq (LawfulEqCmp.eq_of_compare h).symm,
      if_neg heq]

theorem getElem?_book_of_ne (table : Costs) {key key' : CostKey} (h : key' ≠ key) (peer : String)
    (fee amount : Int) : (table.book key peer fee amount)[key']? = table[key']? := by
  rw [getElem?_book, if_neg h]

/-- A payment changes two rows of its day: that of its exit, which the amount leaves by, and that of
its entry, which the amount comes in by and which the fee is charged to. -/
theorem getElem?_record {route : Route} {first last : Hop} {fee : Msat} {now : Time}
    {table' : Costs} (h : table.record route fee now = some table')
    (hfirst : route.hops.head? = some first) (hlast : route.hops.getLast? = some last) :
    ∃ day, dayStart? now = some day ∧ ∀ key : CostKey, table'[key]? =
      if key = ⟨first.half.scid, day, .outgoing⟩ then
        some (rowAfter first.destination 0 (signedOfWord route.amount) table[key]?)
      else if key = ⟨last.half.scid, day, .incoming⟩ then
        some (rowAfter last.source (signedOfWord fee) (signedOfWord route.amount) table[key]?)
      else table[key]? := by
  unfold Costs.record at h
  rw [hfirst, hlast] at h
  obtain ⟨day, hday, heq⟩ := Option.bind_eq_some_iff.mp h
  cases heq
  refine ⟨day, hday, fun key => ?_⟩
  rw [getElem?_book, getElem?_book]
  by_cases hexit : key = ⟨first.half.scid, day, .outgoing⟩
  · subst hexit
    -- The two rows differ in their side, even if the channel is the same.
    rw [if_neg (by simp), if_pos rfl, if_pos rfl]
  · rw [if_neg hexit, if_neg hexit]

theorem fitsSigned_iff {n : Int} : fitsSigned n = true ↔ minSigned ≤ n ∧ n ≤ maxSigned := by
  simp [fitsSigned]

theorem Holds.book (h : table.Holds key fee amount) (peer : String)
    (hfee : minSigned ≤ fee + fee' ∧ fee + fee' ≤ maxSigned)
    (hamount : minSigned ≤ amount + amount' ∧ amount + amount' ≤ maxSigned) :
    (table.book key peer fee' amount').Holds key (fee + fee') (amount + amount') := by
  unfold Holds at h ⊢
  rw [getElem?_book, if_pos rfl]
  cases hrow : table[key]? with
  | none =>
      rw [hrow] at h
      obtain ⟨rfl, rfl⟩ := h
      simp only [rowAfter, Int.zero_add, and_self]
  | some row =>
      rw [hrow] at h
      obtain ⟨hf, ha⟩ := h
      -- Both sums fit a signed word, so the row goes on to hold integers.
      simp only [rowAfter, hf, ha, Cell.add, if_pos (fitsSigned_iff.mpr hfee),
        if_pos (fitsSigned_iff.mpr hamount), and_self]

/-- What a row weighs that holds these integers, or is missing and so holds nothing. -/
theorem Holds.weightAt_eq (h : table.Holds key fee amount) {weight : CostKey → CostRow → Int}
    {n : Int} (missing : fee = 0 → amount = 0 → n = 0)
    (present : ∀ row : CostRow, row.fee = .exact fee → row.amount = .exact amount →
      weight key row = n) : weightAt weight table key = n := by
  unfold Holds at h
  unfold weightAt
  cases hrow : table[key]? with
  | none =>
      rw [hrow] at h
      exact (missing h.1 h.2).symm
  | some row =>
      rw [hrow] at h
      exact present row h.1 h.2

theorem Holds.weightAt_fee (h : table.Holds key fee amount) :
    weightAt (fun _ row => row.fee.integer?.getD 0) table key = fee := by
  refine h.weightAt_eq (fun hfee _ => hfee) fun row hfee _ => ?_
  rw [hfee]
  rfl

theorem Holds.weightAt_amount (h : table.Holds key fee amount) (side : CostSide) :
    weightAt (fun key row => if key.side = side then row.amount.integer?.getD 0 else 0) table key =
      if key.side = side then amount else 0 := by
  refine h.weightAt_eq (fun _ hamount => by simp [hamount]) fun row _ hamount => ?_
  rw [hamount]
  rfl

/-- A booking adds its fee to all fees, and its amount to all amounts on its side. -/
theorem Holds.totals_book (h : table.Holds key fee amount) (peer : String)
    (hfee : minSigned ≤ fee + fee' ∧ fee + fee' ≤ maxSigned)
    (hamount : minSigned ≤ amount + amount' ∧ amount + amount' ≤ maxSigned) (side : CostSide) :
    (table.book key peer fee' amount').feesPaid = table.feesPaid + fee' ∧
      (table.book key peer fee' amount').amountOn side =
        table.amountOn side + if key.side = side then amount' else 0 := by
  have hnew := h.book peer hfee hamount
  have hother : ∀ key', key' ≠ key → (table.book key peer fee' amount')[key']? = table[key']? :=
    fun key' hkey => getElem?_book_of_ne table hkey peer fee' amount'
  have hfees := total_add_weightAt (fun _ row => row.fee.integer?.getD 0) key hother
  have hamounts := total_add_weightAt
    (fun key row => if key.side = side then row.amount.integer?.getD 0 else 0) key hother
  rw [h.weightAt_fee, hnew.weightAt_fee] at hfees
  rw [h.weightAt_amount, hnew.weightAt_amount] at hamounts
  constructor
  · unfold feesPaid
    omega
  · unfold amountOn
    split_ifs at hamounts ⊢
    · omega
    · omega

/-- A booking that was planned for leaves room for the rest of the plan. -/
theorem HasRoom.book {fees amounts fees' amounts' : String → CostSide → Nat}
    (h : table.HasRoom fees amounts) (key : CostKey) (peer : String) {fee amount : Nat}
    (hfees : ∀ channel side, fees' channel side +
      (if channel = key.channel ∧ side = key.side then fee else 0) ≤ fees channel side)
    (hamounts : ∀ channel side, amounts' channel side +
      (if channel = key.channel ∧ side = key.side then amount else 0) ≤ amounts channel side)
    (side : CostSide) :
    (table.book key peer fee amount).HasRoom fees' amounts' ∧
      (table.book key peer fee amount).feesPaid = table.feesPaid + fee ∧
      (table.book key peer fee amount).amountOn side =
        table.amountOn side + if key.side = side then (amount : Int) else 0 := by
  obtain ⟨fee₀, amount₀, hholds, hf, hf', ha, ha'⟩ := h key
  have hfee := hfees key.channel key.side
  have hamount := hamounts key.channel key.side
  rw [if_pos ⟨rfl, rfl⟩] at hfee hamount
  have hfeeFits : minSigned ≤ fee₀ + fee ∧ fee₀ + fee ≤ maxSigned := by omega
  have hamountFits : minSigned ≤ amount₀ + amount ∧ amount₀ + amount ≤ maxSigned := by omega
  -- The booked row uses up part of its room; any other row and its room stay.
  refine ⟨fun key' => ?_, hholds.totals_book peer hfeeFits hamountFits side⟩
  by_cases hkey : key' = key
  · subst hkey
    exact ⟨_, _, hholds.book peer hfeeFits hamountFits, hfeeFits.1, by omega, hamountFits.1,
      by omega⟩
  · obtain ⟨fee₁, amount₁, hholds₁, hf₁, hf₁', ha₁, ha₁'⟩ := h key'
    have hfee₁ := hfees key'.channel key'.side
    have hamount₁ := hamounts key'.channel key'.side
    refine ⟨fee₁, amount₁, ?_, hf₁, by omega, ha₁, by omega⟩
    unfold Holds
    rw [getElem?_book_of_ne table hkey]
    exact hholds₁

/-- An empty table has room for what a signed word can hold. -/
theorem hasRoom_empty {fees amounts : String → CostSide → Nat}
    (fees_fit : ∀ channel side, (fees channel side : Int) ≤ maxSigned)
    (amounts_fit : ∀ channel side, (amounts channel side : Int) ≤ maxSigned) :
    HasRoom ∅ fees amounts := by
  intro key
  have hholds : Holds ∅ key 0 0 := by
    unfold Holds
    rw [TreeMap.getElem?_emptyc]
    exact ⟨rfl, rfl⟩
  have hf := fees_fit key.channel key.side
  have ha := amounts_fit key.channel key.side
  exact ⟨0, 0, hholds, by decide, by omega, by decide, by omega⟩

/-- What one payment adds to the amounts of a channel on one side. -/
def amountOver (exit entry : String) (amount : Nat) (channel : String) : CostSide → Nat
  | .outgoing => if exit = channel then amount else 0
  | .incoming => if entry = channel then amount else 0

/-- What one payment adds to the fees of a channel on one side. -/
def feeOver (entry : String) (fee : Nat) (channel : String) : CostSide → Nat
  | .outgoing => 0
  | .incoming => if entry = channel then fee else 0

theorem amountOver_le (exit entry : String) (amount : Nat) (channel : String) (side : CostSide) :
    amountOver exit entry amount channel side ≤ amount := by
  unfold amountOver
  grind

theorem feeOver_le (entry : String) (fee : Nat) (channel : String) (side : CostSide) :
    feeOver entry fee channel side ≤ fee := by
  unfold feeOver
  grind

/-- A payment that was planned for adds its amount on both sides, and its fee once. -/
theorem HasRoom.record {fees amounts fees' amounts' : String → CostSide → Nat}
    (h : table.HasRoom fees amounts) {route : Route} {exit entry : String} {fee : Msat} {now : Time}
    {table' : Costs} (hrecord : table.record route fee now = some table')
    (hexit : route.exit? = some exit) (hentry : route.entry? = some entry)
    (hfees : ∀ channel side,
      fees' channel side + feeOver entry fee.toNat channel side ≤ fees channel side)
    (hamounts : ∀ channel side, amounts' channel side +
      amountOver exit entry route.amount.toNat channel side ≤ amounts channel side)
    (fee_fits : (fee.toNat : Int) ≤ maxSigned)
    (amount_fits : (route.amount.toNat : Int) ≤ maxSigned) (side : CostSide) :
    table'.HasRoom fees' amounts' ∧ table'.feesPaid = table.feesPaid + fee.toNat ∧
      table'.amountOn side = table.amountOn side + route.amount.toNat := by
  obtain ⟨first, hfirst, rfl⟩ := Option.map_eq_some_iff.mp hexit
  obtain ⟨last, hlast, rfl⟩ := Option.map_eq_some_iff.mp hentry
  unfold Costs.record at hrecord
  rw [hfirst, hlast] at hrecord
  obtain ⟨day, -, heq⟩ := Option.bind_eq_some_iff.mp hrecord
  cases heq
  rw [signedOfWord_of_le fee_fits, signedOfWord_of_le amount_fits]
  -- Between the two bookings the plan is what comes in and what is planned besides.
  have hout := @HasRoom.book table fees amounts fees
    (fun channel side => amounts' channel side + if channel = last.half.scid ∧ side = .incoming
      then route.amount.toNat else 0)
    h ⟨first.half.scid, day, .outgoing⟩ first.destination 0 route.amount.toNat
    (fun channel side => by simp) (fun channel side => ?_)
  · obtain ⟨hroom, -, -⟩ := hout side
    have hin := @HasRoom.book _ _ _ fees' amounts' hroom ⟨last.half.scid, day, .incoming⟩
      last.source fee.toNat route.amount.toNat (fun channel side => ?_) (fun channel side => le_rfl)
    · obtain ⟨-, hfees₁, hamounts₁⟩ := hout side
      obtain ⟨hroom₂, hfees₂, hamounts₂⟩ := hin side
      refine ⟨hroom₂, hfees₂.trans ?_, hamounts₂.trans ?_⟩
      · rw [hfees₁]
        simp
      · rw [hamounts₁]
        cases side <;> simp
    · have := hfees channel side
      cases side <;> simp only [feeOver] at this ⊢ <;> grind
  · have := hamounts channel side
    cases side <;> simp only [amountOver] at this ⊢ <;> grind

end Costs

end Rebalancer
