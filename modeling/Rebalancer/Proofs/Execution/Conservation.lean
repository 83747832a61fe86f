import Mathlib.Algebra.BigOperators.Ring.Finset
import Rebalancer.Proofs.Execution.Effects
import Rebalancer.Proofs.Graph.Transfers
import Rebalancer.Proofs.Store.Costs
import Rebalancer.Proofs.Summary

set_option autoImplicit false

/-! # The books agree

What a request moves is written down three times: in the records of the own channels, in the cost
table and in the summary. Each chunk that settles moves its amount between two records that have
room for it and adds one row on each side (`ChunkOutcome.transfers`), and any other chunk changes
none of them, so the three agree at the end (`BooksAgree`).
-/

namespace Rebalancer

open Finset

/-! ## What attempts have moved -/

/-- The channel that an attempt used on one side. -/
def Attempt.channel? (a : Attempt) : CostSide → Option String
  | .outgoing => a.exit
  | .incoming => a.entry

/-- What the attempts moved over a channel on one side. -/
def movedOver (attempts : List Attempt) (channel : String) (side : CostSide) : Nat :=
  tally (·.amount) (·.channel? side == some channel) attempts

/-- What the attempts paid in fees for a channel on one side: the fee is charged to the entry. -/
def feesOver (attempts : List Attempt) (channel : String) : CostSide → Nat
  | .outgoing => 0
  | .incoming => tally (·.fee) (·.entry == some channel) attempts

/-- The channels over which the attempts moved something, on one side. -/
def channelsOf (attempts : List Attempt) (side : CostSide) : Finset String :=
  ((attempts.filter (·.success)).filterMap (·.channel? side)).toFinset

theorem movedOver_cons (a : Attempt) (rest : List Attempt) (channel : String) (side : CostSide) :
    movedOver (a :: rest) channel side =
      (if a.success = true ∧ a.channel? side = some channel then a.amount.toNat else 0) +
        movedOver rest channel side := by
  simp [movedOver, tally]

/-- Over all channels of a set that has those of the attempts, they moved what they moved. -/
theorem sum_movedOver {attempts : List Attempt} {side : CostSide} {s : Finset String}
    (h : ∀ a ∈ attempts, a.success = true → ∃ channel ∈ s, a.channel? side = some channel) :
    ∑ channel ∈ s, movedOver attempts channel side = movedBy attempts := by
  induction attempts with
  | nil => simp [movedOver, movedBy, tally]
  | cons a rest ih =>
      have hrest := ih fun a ha => h a (by simp [ha])
      simp only [movedOver_cons, Finset.sum_add_distrib, hrest]
      -- The first attempt counts for its own channel and for no other one of `s`.
      by_cases hs : a.success = true
      · obtain ⟨channel, hmem, hchannel⟩ := h a (by simp) hs
        simp [movedBy, tally, hs, hchannel, hmem]
      · simp [movedBy, tally, hs]

/-- Over one channel no more was moved than in all. -/
theorem movedOver_le (attempts : List Attempt) (channel : String) (side : CostSide) :
    movedOver attempts channel side ≤ movedBy attempts := tally_le _ _ _

/-- Over one channel no more was paid in fees than in all. -/
theorem feesOver_le (attempts : List Attempt) (channel : String) (side : CostSide) :
    feesOver attempts channel side ≤ feesBy attempts := by
  cases side with
  | outgoing => exact Nat.zero_le _
  | incoming => exact tally_le _ _ _

theorem mem_channelsOf {attempts : List Attempt} {side : CostSide} {channel : String} :
    channel ∈ channelsOf attempts side ↔
      ∃ a ∈ attempts, a.success = true ∧ a.channel? side = some channel := by
  simp [channelsOf, and_assoc]

theorem movedOver_eq_zero {attempts : List Attempt} {side : CostSide} {channel : String}
    (h : ∀ a ∈ attempts, a.success = true → a.channel? side ≠ some channel) :
    movedOver attempts channel side = 0 :=
  tally_eq_zero fun a ha hs => beq_eq_false_iff_ne.mpr (h a ha hs)

/-! ## One chunk -/

/-- An attempt that moved its amount from `exit` to `entry`, on the graph and in the costs. -/
structure Books.Transfers (r : Request) (b b' : Books) (attempt : Attempt) (exit entry : String) :
    Prop where
  success : attempt.success = true
  exit_eq : attempt.exit = some exit
  entry_eq : attempt.entry = some entry
  pinned_exit : ∀ scid ∈ r.target.exit?, scid = exit
  pinned_entry : ∀ scid ∈ r.target.entry?, scid = entry
  moves : b.graph.Moves b'.graph exit entry attempt.amount
  costs : ∃ (route : Route) (now : Time), route.amount = attempt.amount ∧
    route.exit? = some exit ∧ route.entry? = some entry ∧
    b.store.costs.record route attempt.fee now = some b'.store.costs

/-- An attempt that moved nothing, neither on the graph nor in the costs. -/
structure Books.Stays (b b' : Books) (attempt : Attempt) : Prop where
  success : attempt.success = false
  selfId : b'.graph.selfId = b.graph.selfId
  own : b'.graph.own = b.graph.own
  costs : b'.store.costs = b.store.costs

section Sums

variable {r : Request} {b b' : Books} {attempt : Attempt} {exit entry : String}
  (rest : List Attempt)

theorem Books.Transfers.movedOver_cons (h : b.Transfers r b' attempt exit entry)
    (channel : String) (side : CostSide) :
    movedOver (attempt :: rest) channel side =
      movedOver rest channel side +
        Costs.amountOver exit entry attempt.amount.toNat channel side := by
  rw [Rebalancer.movedOver_cons, Nat.add_comm]
  cases side with
  | incoming => simp [Attempt.channel?, Costs.amountOver, h.success, h.entry_eq]
  | outgoing => simp [Attempt.channel?, Costs.amountOver, h.success, h.exit_eq]

theorem Books.Transfers.feesOver_cons (h : b.Transfers r b' attempt exit entry)
    (channel : String) (side : CostSide) :
    feesOver (attempt :: rest) channel side =
      feesOver rest channel side + Costs.feeOver entry attempt.fee.toNat channel side := by
  cases side with
  | incoming => simp [feesOver, tally, Costs.feeOver, h.success, h.entry_eq, Nat.add_comm]
  | outgoing => rfl

theorem Books.Transfers.movedBy_cons (h : b.Transfers r b' attempt exit entry) :
    movedBy (attempt :: rest) = attempt.amount.toNat + movedBy rest :=
  tally_cons_of_success h.success rfl

theorem Books.Transfers.feesBy_cons (h : b.Transfers r b' attempt exit entry) :
    feesBy (attempt :: rest) = attempt.fee.toNat + feesBy rest :=
  tally_cons_of_success h.success rfl

theorem Books.Stays.sums_cons (h : b.Stays b' attempt) :
    movedOver (attempt :: rest) = movedOver rest ∧ feesOver (attempt :: rest) = feesOver rest ∧
      movedBy (attempt :: rest) = movedBy rest ∧ feesBy (attempt :: rest) = feesBy rest := by
  refine ⟨?_, ?_, tally_cons_of_failure h.success, tally_cons_of_failure h.success⟩
  · funext channel side
    exact tally_cons_of_failure h.success
  · funext channel side
    cases side with
    | outgoing => rfl
    | incoming =>
        rw [feesOver, feesOver]
        exact tally_cons_of_failure h.success

end Sums

theorem Graph.Moves.congr {g₀ g g' : Graph} {exit entry : String} {amount : Msat}
    (h : g.Moves g' exit entry amount) (hs : g.selfId = g₀.selfId) (hown : g.own = g₀.own) :
    g₀.Moves g' exit entry amount where
  selfId := h.selfId.trans hs
  ne := h.ne
  out := hown ▸ h.out
  back := hown ▸ h.back
  other := hown ▸ h.other

namespace Execution

variable {timeout : UInt64} {r : Request} {index : Nat} {amount : Msat} {b b' : Books}
  {attempt : Attempt}

theorem ChunkOutcome.transfers (h : ChunkOutcome r index amount b attempt b')
    (hb : b.graph.Reachable) (hself : b.graph.NoSelfPeer) :
    (∃ exit entry, b.Transfers r b' attempt exit entry) ∨ b.Stays b' attempt := by
  cases h with
  | @moved b₁ _ route fee tries day now before found cheap settles =>
      -- The route was found on a graph that had learned, but whose records were those of `b`.
      have hreach := before.graph.reachable hb
      have hself₁ : b₁.graph.NoSelfPeer := by
        intro scid c hc
        rw [before.graph.own] at hc
        rw [before.graph.selfId]
        exact hself scid c hc
      obtain ⟨exit, entry, out, back, path, hround, rfl, hexit, hentry⟩ :=
        exists_isRound_of_lookup hreach.keyed found
      have hmoves := hround.moves hreach.keyed hreach.synced hself₁ day
      have hout := hround.exit? hreach.keyed
      have hback := hround.entry? hreach.keyed
      refine Or.inl ⟨exit, entry, rfl, hout, hback, hexit, hentry, ?_, ?_⟩
      · rw [settles.graph]
        exact hmoves.congr before.graph.selfId before.graph.own
      · obtain ⟨costs, hcosts, hstore⟩ := Option.map_eq_some_iff.mp settles.store
        refine ⟨_, day, rfl, hout, hback, ?_⟩
        rw [← before.store, ← hstore]
        exact hcosts
  | failed unmoved =>
      exact Or.inr ⟨rfl, unmoved.graph.selfId, unmoved.graph.own, by rw [unmoved.store]⟩

theorem ChunkOutcome.noSelfPeer (h : ChunkOutcome r index amount b attempt b')
    (hb : b.graph.Reachable) (hself : b.graph.NoSelfPeer) : b'.graph.NoSelfPeer := by
  rcases h.transfers hb hself with ⟨exit, entry, ht⟩ | hs
  · exact ht.moves.noSelfPeer hself
  · intro scid c hc
    rw [hs.own] at hc
    rw [hs.selfId]
    exact hself scid c hc

theorem ChunkOutcome.backed (h : ChunkOutcome r index amount b attempt b')
    (hb : b.graph.Reachable) (hself : b.graph.NoSelfPeer) (hbacked : b.graph.Backed) :
    b'.graph.Backed := by
  rcases h.transfers hb hself with ⟨exit, entry, ht⟩ | hs
  · exact ht.moves.backed hbacked
  · intro scid c hc
    rw [hs.own] at hc
    exact hbacked scid c hc

end Execution

/-! ## All chunks -/

/-- How the records of `g` and `g'` differ by what the attempts moved. -/
structure Graph.Accounts (r : Request) (g g' : Graph) (attempts : List Attempt) : Prop where
  ends : ∀ a ∈ attempts, a.success = true → ∃ exit entry, a.exit = some exit ∧
    a.entry = some entry ∧ exit ≠ entry ∧ (∀ scid ∈ r.target.exit?, scid = exit) ∧
    (∀ scid ∈ r.target.entry?, scid = entry) ∧ exit ∈ g.own ∧ entry ∈ g.own
  toUs : ∀ scid, g'.toUsAt scid =
    g.toUsAt scid - movedOver attempts scid .outgoing + movedOver attempts scid .incoming
  capacity : ∀ scid, g'.capacityAt? scid = g.capacityAt? scid
  backed : g'.Backed

namespace Graph

variable {r : Request} {g g₁ g' : Graph} {attempt : Attempt} {rest : List Attempt}

theorem mem_own_iff {scid : String} : scid ∈ g.own ↔ (g.capacityAt? scid).isSome = true := by
  rw [capacityAt?, Option.isSome_map, Std.TreeMap.mem_iff_isSome_getElem?]

theorem Accounts.nil (h : g.Backed) : Accounts r g g [] where
  ends := by simp
  toUs := by simp [movedOver, tally]
  capacity := fun _ => rfl
  backed := h

theorem toUsAt_congr_own (h : g₁.own = g.own) (scid : String) : g₁.toUsAt scid = g.toUsAt scid :=
  toUsAt_congr (by rw [h])

theorem Accounts.cons_stays (hs : attempt.success = false) (hown : g₁.own = g.own)
    (h : Accounts r g₁ g' rest) : Accounts r g g' (attempt :: rest) := by
  have hno : ∀ side scid, movedOver (attempt :: rest) scid side = movedOver rest scid side := by
    intro side scid
    rw [movedOver_cons, if_neg (by simp [hs]), Nat.zero_add]
  constructor
  · intro a ha hsuccess
    rcases List.mem_cons.mp ha with rfl | ha
    · rw [hs] at hsuccess
      cases hsuccess
    · obtain ⟨exit, entry, hexit, hentry, hne, hp, hp', hm, hm'⟩ := h.ends a ha hsuccess
      exact ⟨exit, entry, hexit, hentry, hne, hp, hp', hown ▸ hm, hown ▸ hm'⟩
  · intro scid
    rw [hno, hno, h.toUs, toUsAt_congr_own hown]
  · intro scid
    rw [h.capacity, capacityAt?, capacityAt?, hown]
  · exact h.backed

theorem Accounts.cons_moves {exit entry : String} (hs : attempt.success = true)
    (hexit : attempt.exit = some exit) (hentry : attempt.entry = some entry)
    (hp : ∀ scid ∈ r.target.exit?, scid = exit) (hp' : ∀ scid ∈ r.target.entry?, scid = entry)
    (hm : Moves g g₁ exit entry attempt.amount) (hb : g.Backed) (h : Accounts r g₁ g' rest) :
    Accounts r g g' (attempt :: rest) := by
  obtain ⟨c, hc, -⟩ := hm.out
  obtain ⟨d, hd, -⟩ := hm.back
  -- A payment opens no channel, since what can be sent or received is kept for each.
  have hown : ∀ scid, scid ∈ g₁.own → scid ∈ g.own := by
    intro scid hmem
    rw [mem_own_iff, hm.capacityAt? hb] at hmem
    exact mem_own_iff.mpr hmem
  have hout : ∀ scid, attempt.success = true ∧ attempt.channel? .outgoing = some scid ↔
      exit = scid := by
    intro scid
    simp [hs, Attempt.channel?, hexit]
  have hback : ∀ scid, attempt.success = true ∧ attempt.channel? .incoming = some scid ↔
      entry = scid := by
    intro scid
    simp [hs, Attempt.channel?, hentry]
  constructor
  · intro a ha hsuccess
    rcases List.mem_cons.mp ha with rfl | ha
    · refine ⟨exit, entry, hexit, hentry, hm.ne, hp, hp', ?_, ?_⟩
      · rw [Std.TreeMap.mem_iff_isSome_getElem?, hc]
        rfl
      · rw [Std.TreeMap.mem_iff_isSome_getElem?, hd]
        rfl
    · obtain ⟨x, y, hx, hy, hne, hq, hq', hmx, hmy⟩ := h.ends a ha hsuccess
      exact ⟨x, y, hx, hy, hne, hq, hq', hown x hmx, hown y hmy⟩
  · intro scid
    calc g'.toUsAt scid
        = g₁.toUsAt scid - movedOver rest scid .outgoing + movedOver rest scid .incoming :=
          h.toUs scid
      _ = g.toUsAt scid - (if exit = scid then (attempt.amount.toNat : Int) else 0) +
            (if entry = scid then (attempt.amount.toNat : Int) else 0) -
            movedOver rest scid .outgoing + movedOver rest scid .incoming := by
          rw [hm.toUsAt hb]
      _ = g.toUsAt scid - movedOver (attempt :: rest) scid .outgoing +
            movedOver (attempt :: rest) scid .incoming := by
          rw [movedOver_cons, movedOver_cons]
          simp only [hout, hback]
          split_ifs <;> push_cast <;> ring
  · intro scid
    exact (h.capacity scid).trans (hm.capacityAt? hb scid)
  · exact h.backed

end Graph

namespace Execution

variable {timeout : UInt64} {r : Request} {index : Nat} {chunks : List Msat} {b b' : Books}
  {attempts : List Attempt} {record : Exchanges}

theorem ChunksRun.accounts (h : ChunksRun timeout r index chunks b record (some (attempts, b')))
    (hb : b.graph.Reachable) (hself : b.graph.NoSelfPeer) (hbacked : b.graph.Backed) :
    b.graph.Accounts r b'.graph attempts := by
  -- The three conditions on the graph hold after each chunk, so the rest can account from there.
  induction h using ChunksRun.ended_induction with
  | nil => exact .nil hbacked
  | cons chunk kept next ih =>
      have hgraph := graph_recordAttempt kept
      have hrest := ih (hgraph ▸ chunk.outcome.reachable hb)
        (hgraph ▸ chunk.outcome.noSelfPeer hb hself)
        (hgraph ▸ chunk.outcome.backed hb hself hbacked)
      rw [hgraph] at hrest
      rcases chunk.outcome.transfers hb hself with ⟨exit, entry, ht⟩ | hs
      · exact .cons_moves ht.success ht.exit_eq ht.entry_eq ht.pinned_exit ht.pinned_entry ht.moves
          hbacked hrest
      · exact .cons_stays hs.success hs.own hrest

/-- As long as there is room in the cost table, it grows by what the attempts moved and paid. -/
theorem ChunksRun.costs (h : ChunksRun timeout r index chunks b record (some (attempts, b')))
    (hb : b.graph.Reachable) (hself : b.graph.NoSelfPeer)
    (room : b.store.costs.HasRoom (feesOver attempts) (movedOver attempts))
    (moved_fits : (movedBy attempts : Int) ≤ maxSigned)
    (fee_fits : (feesBy attempts : Int) ≤ maxSigned) (side : CostSide) :
    b'.store.costs.feesPaid = b.store.costs.feesPaid + feesBy attempts ∧
      b'.store.costs.amountOn side = b.store.costs.amountOn side + movedBy attempts := by
  induction h using ChunksRun.ended_induction with
  | nil => simp [feesBy, movedBy, tally]
  | @cons _ _ _ _ _ b₂ _ _ _ _ rest chunk kept next ih =>
      have hgraph := graph_recordAttempt kept
      have hcosts := costs_recordAttempt kept
      have hreach : b₂.graph.Reachable := hgraph ▸ chunk.outcome.reachable hb
      have hself₂ : b₂.graph.NoSelfPeer := hgraph ▸ chunk.outcome.noSelfPeer hb hself
      -- A chunk that moved uses the room that was planned for it; any other one uses none.
      rcases chunk.outcome.transfers hb hself with ⟨exit, entry, ht⟩ | hs
      · have hmovedBy := ht.movedBy_cons rest
        have hfeesBy := ht.feesBy_cons rest
        obtain ⟨route, now, hamount, hexit, hentry, hrecord⟩ := ht.costs
        obtain ⟨hroom, hfees, hamounts⟩ := room.record hrecord hexit hentry
          (fun channel side => (ht.feesOver_cons rest channel side).ge)
          (fun channel side => by rw [hamount, ht.movedOver_cons]) (by omega)
          (by rw [hamount]; omega) side
        have hrest := ih hreach hself₂ (hcosts ▸ hroom) (by omega) (by omega)
        rw [hcosts, hfees, hamounts, hamount] at hrest
        rw [hmovedBy, hfeesBy]
        push_cast
        omega
      · obtain ⟨hmovedOver, hfeesOver, hmovedBy, hfeesBy⟩ := hs.sums_cons rest
        rw [hmovedBy] at moved_fits ⊢
        rw [hfeesBy] at fee_fits ⊢
        rw [hmovedOver, hfeesOver, ← hs.costs, ← hcosts] at room
        have hrest := ih hreach hself₂ room moved_fits fee_fits
        rw [hcosts, hs.costs] at hrest
        exact hrest

end Execution

/-! ## The three books -/

/-- What the summary says was moved has left the exits and come in over the entries, and stands in
the cost table on both sides, as does the fee. No balance is lost, and the records stay as the node
could have reported them. -/
structure BooksAgree (b b' : Books) (summary : Summary) : Prop where
  left : ∑ scid ∈ channelsOf summary.attempts .outgoing,
    (b.graph.toUsAt scid - b'.graph.toUsAt scid) = summary.moved.toNat
  arrived : ∑ scid ∈ channelsOf summary.attempts .incoming,
    (b'.graph.toUsAt scid - b.graph.toUsAt scid) = summary.moved.toNat
  costs : ∀ side,
    b'.store.costs.amountOn side = b.store.costs.amountOn side + summary.moved.toNat
  fees : b'.store.costs.feesPaid = b.store.costs.feesPaid + summary.fee.toNat
  balance : b'.graph.balance = b.graph.balance
  capacity : ∀ scid, b'.graph.capacityAt? scid = b.graph.capacityAt? scid
  backed : b'.graph.Backed

namespace Graph

variable {r : Request} {g g' : Graph} {attempts : List Attempt}

/-- No channel is the exit of one chunk and the entry of another, since each request pins one. -/
theorem Accounts.channel?_ne (h : Accounts r g g' attempts) {a a' : Attempt} (ha : a ∈ attempts)
    (ha' : a' ∈ attempts) (hs : a.success = true) (hs' : a'.success = true) {channel : String}
    (hexit : a.exit = some channel) : a'.entry ≠ some channel := by
  intro hentry
  obtain ⟨x, y, hx, hy, hne, hp, hp', -⟩ := h.ends a ha hs
  obtain ⟨x', y', hx', hy', hne', hq, hq', -⟩ := h.ends a' ha' hs'
  obtain rfl : x = channel := Option.some.inj (hx.symm.trans hexit)
  obtain rfl : y' = x := Option.some.inj (hy'.symm.trans hentry)
  -- The pinned end is the same for both attempts, and neither uses one channel for both ends.
  cases ht : r.target with
  | circular exit entry =>
      rw [ht] at hp hq
      exact hne' ((hq exit rfl).symm.trans (hp exit rfl))
  | pull entry =>
      rw [ht] at hp' hq'
      exact hne ((hq' entry rfl).symm.trans (hp' entry rfl))
  | push exit =>
      rw [ht] at hp hq
      exact hne' ((hq exit rfl).symm.trans (hp exit rfl))

theorem Accounts.left (h : Accounts r g g' attempts) :
    ∑ scid ∈ channelsOf attempts .outgoing, (g.toUsAt scid - g'.toUsAt scid) =
      movedBy attempts := by
  have hsum := @sum_movedOver attempts .outgoing (channelsOf attempts .outgoing) fun a ha hs => by
    obtain ⟨exit, entry, hexit, -⟩ := h.ends a ha hs
    exact ⟨exit, mem_channelsOf.mpr ⟨a, ha, hs, hexit⟩, hexit⟩
  rw [← hsum, Nat.cast_sum]
  refine Finset.sum_congr rfl fun scid hscid => ?_
  obtain ⟨a, ha, hs, hexit⟩ := mem_channelsOf.mp hscid
  have hzero : movedOver attempts scid .incoming = 0 :=
    movedOver_eq_zero fun a' ha' hs' => h.channel?_ne ha ha' hs hs' hexit
  -- No exit is an entry as well, so its balance has changed by what left over it.
  calc g.toUsAt scid - g'.toUsAt scid
      = g.toUsAt scid - (g.toUsAt scid - movedOver attempts scid .outgoing +
          movedOver attempts scid .incoming) := by rw [h.toUs]
    _ = movedOver attempts scid .outgoing := by
        rw [hzero]
        push_cast
        ring

theorem Accounts.arrived (h : Accounts r g g' attempts) :
    ∑ scid ∈ channelsOf attempts .incoming, (g'.toUsAt scid - g.toUsAt scid) =
      movedBy attempts := by
  have hsum := @sum_movedOver attempts .incoming (channelsOf attempts .incoming) fun a ha hs => by
    obtain ⟨exit, entry, -, hentry, -⟩ := h.ends a ha hs
    exact ⟨entry, mem_channelsOf.mpr ⟨a, ha, hs, hentry⟩, hentry⟩
  rw [← hsum, Nat.cast_sum]
  refine Finset.sum_congr rfl fun scid hscid => ?_
  obtain ⟨a, ha, hs, hentry⟩ := mem_channelsOf.mp hscid
  have hzero : movedOver attempts scid .outgoing = 0 :=
    movedOver_eq_zero fun a' ha' hs' hexit => h.channel?_ne ha' ha hs' hs hexit hentry
  calc g'.toUsAt scid - g.toUsAt scid
      = g.toUsAt scid - movedOver attempts scid .outgoing +
          movedOver attempts scid .incoming - g.toUsAt scid := by rw [h.toUs]
    _ = movedOver attempts scid .incoming := by
        rw [hzero]
        push_cast
        ring

theorem Accounts.balance (h : Accounts r g g' attempts) : g'.balance = g.balance := by
  have hmem : ∀ scid ∈ g.own, scid ∈ g.own.keys.toFinset := fun scid hs =>
    List.mem_toFinset.mpr (Std.TreeMap.mem_keys.mpr hs)
  have hmem' : ∀ scid ∈ g'.own, scid ∈ g.own.keys.toFinset := fun scid hs => by
    rw [mem_own_iff, h.capacity] at hs
    exact hmem scid (mem_own_iff.mpr hs)
  have hout := @sum_movedOver attempts .outgoing g.own.keys.toFinset fun a ha hs => by
    obtain ⟨exit, entry, hexit, -, -, -, -, hown, -⟩ := h.ends a ha hs
    exact ⟨exit, hmem exit hown, hexit⟩
  have hback := @sum_movedOver attempts .incoming g.own.keys.toFinset fun a ha hs => by
    obtain ⟨exit, entry, -, hentry, -, -, -, -, hown⟩ := h.ends a ha hs
    exact ⟨entry, hmem entry hown, hentry⟩
  rw [Graph.balance, Graph.balance, total_eq_sum _ hmem, total_eq_sum _ hmem']
  calc ∑ scid ∈ g.own.keys.toFinset, g'.toUsAt scid
      = ∑ scid ∈ g.own.keys.toFinset, (g.toUsAt scid -
          (movedOver attempts scid .outgoing : Int) + movedOver attempts scid .incoming) :=
        Finset.sum_congr rfl fun scid _ => h.toUs scid
    _ = ∑ scid ∈ g.own.keys.toFinset, g.toUsAt scid - movedBy attempts + movedBy attempts := by
        rw [Finset.sum_add_distrib, Finset.sum_sub_distrib, ← Nat.cast_sum, ← Nat.cast_sum, hout,
          hback]
    _ = ∑ scid ∈ g.own.keys.toFinset, g.toUsAt scid := by ring

end Graph

namespace Execution

/-- However the node replies, the graph, the cost table and the summary agree after a request, if
the cost table has room, the records are such as the node reports and no channel leads back to the
local node. -/
theorem books_agree_after_execute {timeout : UInt64} {r : Request} {b b' : Books}
    {record : Exchanges} {summary : Summary} (hb : b.graph.Reachable)
    (hself : b.graph.NoSelfPeer) (hbacked : b.graph.Backed)
    (h : (execute timeout r b).Runs record (some (summary, b')))
    (room : b.store.costs.HasRoom (feesOver summary.attempts) (movedOver summary.attempts))
    (moved_fits : (summary.moved.toNat : Int) ≤ maxSigned)
    (fee_fits : (summary.fee.toNat : Int) ≤ maxSigned) :
    BooksAgree b b' summary := by
  generalize hr : some (summary, b') = result at h
  cases runs_execute_iff.mp h with
  | broken start chunks => cases hr
  | @finished start stop record attempts b₁ chunks =>
      obtain ⟨summary', hsummary, heq⟩ := Option.map_eq_some_iff.mp hr.symm
      cases heq
      obtain ⟨rfl, hmoved, hfee, -⟩ := Summary.eq_of_ofAttempts? hsummary
      have haccounts := chunks.accounts hb hself hbacked
      have hcosts := chunks.costs hb hself room (hmoved ▸ moved_fits) (hfee ▸ fee_fits)
      constructor
      · rw [hmoved]
        exact haccounts.left
      · rw [hmoved]
        exact haccounts.arrived
      · intro side
        rw [hmoved]
        exact (hcosts side).2
      · rw [hfee]
        exact (hcosts .incoming).1
      · exact haccounts.balance
      · exact haccounts.capacity
      · exact haccounts.backed

/-- An empty cost table has room for what a signed word can hold. -/
theorem hasRoom_empty {attempts : List Attempt} (moved_fits : (movedBy attempts : Int) ≤ maxSigned)
    (fee_fits : (feesBy attempts : Int) ≤ maxSigned) :
    Costs.HasRoom ∅ (feesOver attempts) (movedOver attempts) := by
  refine Costs.hasRoom_empty (fun channel side => ?_) (fun channel side => ?_)
  · have := feesOver_le attempts channel side
    omega
  · have := movedOver_le attempts channel side
    omega

theorem books_agree_after_moveOver :
    Graph.twoChannels.Reachable ∧ Graph.twoChannels.NoSelfPeer ∧ Graph.twoChannels.Backed ∧
      ∃ b', (execute 60 (moveOver 1) (.ofGraph Graph.twoChannels)).Runs
          (paidAtOnce 60 (moveOver 1) routeOver ⟨"h", "s"⟩ 1001 0 5) (some (summaryOver, b')) ∧
        Costs.HasRoom ∅ (feesOver summaryOver.attempts) (movedOver summaryOver.attempts) ∧
        (summaryOver.moved.toNat : Int) ≤ maxSigned ∧ (summaryOver.fee.toNat : Int) ≤ maxSigned ∧
        BooksAgree (.ofGraph Graph.twoChannels) b' summaryOver := by
  obtain ⟨b', hrun, -⟩ := runs_moveOver
  have hself : Graph.twoChannels.NoSelfPeer := by decide +kernel
  have hbacked : Graph.twoChannels.Backed := by decide +kernel
  have hmoved : (summaryOver.moved.toNat : Int) ≤ maxSigned := by decide
  have hfee : (summaryOver.fee.toNat : Int) ≤ maxSigned := by decide
  have room := @hasRoom_empty summaryOver.attempts hmoved hfee
  exact ⟨Graph.reachable_twoChannels, hself, hbacked, b', hrun, room, hmoved, hfee,
    books_agree_after_execute Graph.reachable_twoChannels hself hbacked hrun room hmoved hfee⟩

/-- The half of the channel `9x9` that the gossip lists between two other nodes. -/
def foreignHalf : Announcement where
  source := "c"
  destination := "b"
  scid := "9x9"
  capacity := 1000000
  active := true
  baseFee := 1
  rate := 0
  delay := 0
  htlcMin := 0
  htlcMax := none

/-- A graph in which the node then reports `9x9` as a channel of the local node with itself. -/
def loopGraph : Graph :=
  ((Graph.empty "a").applyGossip [foreignHalf] [] 0 18000).applyOwn
    [Graph.channelWith "c" "1x1" 1000000 0, Graph.channelWith "a" "9x9" 1000000 0] 0

/-- The request to move a chunk from `1x1` to `9x9`. -/
def moveIntoLoop : Request := { moveOver 1 with target := .circular "1x1" "9x9" }

/-- The half of `1x1` by which `loopGraph` can send. -/
def halfToC : Half := { Graph.halfToB with destination := "c" }

/-- The half of `9x9`, for which both ends of the record stand. -/
def loopHalf : Half where
  id := ⟨"9x9", 1⟩
  source := "c"
  destination := "b"
  capacity := 1000000
  baseFee := 1
  rate := 0
  delay := 0
  htlcMin := 0
  htlcMax := 1000000
  active := true
  liquidity := 1000000
  liquidityAt := 0

theorem ring_loopGraph :
    loopGraph.ring "1x1" "9x9" 1000 2 = .ok (.build [halfToC, loopHalf] 1000) :=
  Graph.ring_of_same_peer (by decide) (by decide +kernel) (by decide +kernel) rfl (by decide)
    (by decide) (by decide) (by decide) 2

/-- The summary of `moveIntoLoop` when its chunk is paid at once. -/
def summaryOfLoop : Summary :=
  { summaryOver with
    attempts := [.succeeded moveIntoLoop 0 (.build [halfToC, loopHalf] 1000) 1 1 0] }

/-- A channel of the local node with itself would have one half for both directions, so its
balances would not bound what is moved into it. -/
theorem books_disagree_after_moveIntoLoop :
    moveIntoLoop.flaw? = none ∧ loopGraph.Reachable ∧ loopGraph.Backed ∧
      ∃ b', (execute 60 moveIntoLoop (.ofGraph loopGraph)).Runs
          (paidAtOnce 60 moveIntoLoop (.build [halfToC, loopHalf] 1000) ⟨"h", "s"⟩ 1001 0 5)
          (some (summaryOfLoop, b')) ∧
        Costs.HasRoom ∅ (feesOver summaryOfLoop.attempts) (movedOver summaryOfLoop.attempts) ∧
        (summaryOfLoop.moved.toNat : Int) ≤ maxSigned ∧
        (summaryOfLoop.fee.toNat : Int) ≤ maxSigned ∧
        b'.graph.capacityAt? "9x9" = some 1001000 ∧ loopGraph.capacityAt? "9x9" = some 1000000 ∧
        ¬ b'.graph.Backed ∧ ¬ BooksAgree (.ofGraph loopGraph) b' summaryOfLoop := by
  obtain ⟨b', hrun, hgraph⟩ := @runs_paidAtOnce 60 moveIntoLoop 1000 (.ofGraph loopGraph)
    (.build [halfToC, loopHalf] 1000) ⟨"h", "s"⟩ 1001 0 0 5 _ summaryOfLoop rfl ring_loopGraph
    (by decide) rfl rfl rfl
  have hmoved : (summaryOfLoop.moved.toNat : Int) ≤ maxSigned := by decide
  have hfee : (summaryOfLoop.fee.toNat : Int) ≤ maxSigned := by decide
  have hreach : loopGraph.Reachable :=
    ⟨"a", [.gossip [foreignHalf] [] 0 18000, .own [Graph.channelWith "c" "1x1" 1000000 0,
      Graph.channelWith "a" "9x9" 1000000 0] 0], rfl⟩
  -- `9x9` could receive nothing, yet the chunk has come in over it.
  have hbroken : ¬ b'.graph.Backed := by
    rw [hgraph]
    decide +kernel
  refine ⟨by decide +kernel, hreach, by decide +kernel, b', hrun, hasRoom_empty hmoved hfee,
    hmoved, hfee, ?_, by decide +kernel, hbroken, fun hagree => hbroken hagree.backed⟩
  rw [hgraph]
  decide +kernel

end Execution

end Rebalancer
