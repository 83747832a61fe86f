import Rebalancer.Proofs.Execution.Attempts
import Rebalancer.Proofs.Execution.Trials

set_option autoImplicit false

/-! # What a retry asks for

A try that fails for a reason that another route may avoid blames a half of its route, unless the
failure tells of no channel or comes from the end of the route (`Blames`). The estimate of the half
is then lower than what it was asked to deliver, and nothing else happens to the graph before the
next try at the chunk. A route runs only over halves whose estimate covers their hop, so the next
one avoids the half or asks it for less (`retry_asks_less`).
-/

namespace Rebalancer

/-! ## The hop that is blamed -/

/-- The failure blames the hop: the erring channel is its channel, and the erring direction its
direction, if one is told. The erring node is not the one where the route ends. Of several hops over
the channel in unknown direction, the first is blamed. -/
structure Blames (f : PaymentFailure) (route : Route) (hop : Hop) : Prop where
  mem : hop ∈ route.hops
  channel : f.erringChannel = some hop.half.scid
  direction : ∀ d, f.erringDirection = some d → d = hop.half.direction
  inner : f.erringNode = none ∨ f.erringNode ≠ route.hops.getLast?.map (·.destination)
  first : f.erringDirection = none →
    route.hops.find? (fun h => h.half.scid == hop.half.scid) = some hop

/-- If no other hop is over the same half, the hop that is blamed is the one that is looked up. -/
theorem Blames.erringHop? {f : PaymentFailure} {route : Route} {hop : Hop} (h : Blames f route hop)
    (only : ∀ hop' ∈ route.hops, hop'.half = hop.half → hop' = hop) :
    Books.erringHop? route f = some hop := by
  have hinner : (f.erringNode.isSome &&
      f.erringNode == route.hops.getLast?.map (·.destination)) = false := by
    rcases h.inner with hnone | hne
    · rw [hnone]
      rfl
    · rw [beq_false_of_ne hne, Bool.and_false]
  unfold Books.erringHop?
  simp only [h.channel, hinner, Bool.false_eq_true, if_false]
  cases hd : f.erringDirection with
  | none =>
      simp only [Option.getD_none, beq_self_eq_true, Bool.and_true]
      exact h.first hd
  | some d =>
      have hdirection := h.direction d hd
      simp only [Option.getD_some]
      -- The hop itself is over the half, so one is found, and there is only the one.
      cases hfound : route.hops.find? (fun k => k.half.scid == hop.half.scid &&
          d == k.half.direction) with
      | none =>
          have hno := List.find?_eq_none.mp hfound hop h.mem
          rw [hdirection] at hno
          simp at hno
      | some hop' =>
          have hsame := List.find?_some hfound
          simp only [Bool.and_eq_true, beq_iff_eq] at hsame
          obtain ⟨hscid, hd'⟩ := hsame
          have hhalf : hop'.half = hop.half := by
            cases hk : hop'.half
            cases hk' : hop.half
            rw [hk, hk'] at hscid
            rw [hk] at hd'
            rw [hk'] at hdirection
            rw [HalfId.mk.injEq]
            exact ⟨hscid, hd'.symm.trans hdirection⟩
          rw [only hop' (List.mem_of_find?_eq_some hfound) hhalf]

/-! ## Routes over halves of others -/

theorem Route.mem_hopsOver_iff {amount : Msat} {halves : List Half} {hop : Hop} :
    hop ∈ hopsOver amount halves ↔
      ∃ before h after, halves = before ++ h :: after ∧ hop = hopOver amount h after := by
  induction halves with
  | nil => simp [hopsOver]
  | cons k rest ih =>
      rw [hopsOver_cons, List.mem_cons, ih]
      constructor
      · rintro (rfl | ⟨before, h, after, rfl, rfl⟩)
        · exact ⟨[], k, rest, rfl, rfl⟩
        · exact ⟨k :: before, h, after, rfl, rfl⟩
      · rintro ⟨before, h, after, heq, rfl⟩
        cases before with
        | nil =>
            cases heq
            exact Or.inl rfl
        | cons k' before =>
            cases heq
            exact Or.inr ⟨before, h, after, rfl, rfl⟩

namespace Graph

variable {g : Graph} {exit entry : String} {amount : Msat} {maxHops : Nat} {out back : Half}
  {path : List Half}

/-- A round passes a half of no own channel once. -/
theorem IsRound.hop_unique (hg : g.Keyed) (h : g.IsRound exit entry amount maxHops out back path)
    {hop hop' : Hop} (hhop : hop ∈ (Route.build (out :: (path ++ [back])) amount).hops)
    (hhop' : hop' ∈ (Route.build (out :: (path ++ [back])) amount).hops)
    (same : hop'.half = hop.half) (other : g.isOwn hop.half.scid = false) : hop' = hop := by
  obtain ⟨before, k, after, heq, rfl⟩ := Route.mem_hopsOver_iff.mp hhop
  obtain ⟨before', k', after', heq', rfl⟩ := Route.mem_hopsOver_iff.mp hhop'
  have known := h.known hg
  have hk : g.halves[k.id]? = some k := known k (by rw [heq]; simp)
  have hk' : g.halves[k'.id]? = some k' := known k' (by rw [heq']; simp)
  obtain rfl : k' = k := by
    have hid : k'.id = k.id := same
    rw [hid, hk] at hk'
    exact (Option.some.inj hk').symm
  -- Both ends are halves of own channels, and no half is twice on the path between them.
  have ends : ∀ {scid : String} {c : OwnChannel}, g.own[scid]? = some c → k'.id.scid ≠ scid := by
    intro scid c hc hscid
    have hown : g.isOwn k'.id.scid = true := by
      rw [isOwn, Std.TreeMap.contains_eq_isSome_getElem?, hscid, hc]
      rfl
    exact Bool.false_ne_true (other.symm.trans hown)
  obtain ⟨c, hc, hout, -⟩ := exists_own_of_outHalf? hg h.out_eq
  obtain ⟨c', hc', hback, -⟩ := exists_own_of_inHalf? hg h.back_eq
  have hnotOut : out ≠ k' := fun he => ends hc (by rw [← he, hout]; rfl)
  have hnotBack : back ≠ k' := fun he => ends hc' (by rw [← he, hback]; rfl)
  have hnodup : path.Nodup := (List.nodup_cons.mp h.isPath.simple).2.of_map _
  have hcount : (out :: (path ++ [back])).count k' ≤ 1 := by
    rw [List.count_cons_of_ne hnotOut, List.count_append, List.count_singleton,
      if_neg (by simpa using hnotBack), Nat.add_zero]
    exact List.nodup_iff_count_le_one.mp hnodup k'
  rw [heq, List.count_append, List.count_cons_self] at hcount
  have hbefore : k' ∉ before := List.count_eq_zero.mp (by omega)
  have hafter : k' ∉ after := List.count_eq_zero.mp (by omega)
  obtain ⟨-, -, hsame⟩ :=
    (List.append_cons_inj_of_notMem hbefore hafter).mp (heq.symm.trans heq')
  rw [hsame]

end Graph

namespace Execution

variable {timeout : UInt64} {r : Request} {index : Nat} {amount : Msat} {b b' : Books}
  {route : Route} {label hash : String} {record : Exchanges} {tries : Nat} {last : Option Route}

theorem amount_le_of_mem_hops (found : lookup b.order b.graph r amount = .ok route) {hop : Hop}
    (hhop : hop ∈ route.hops) : amount ≤ hop.amount := by
  obtain ⟨_, _, hring, -⟩ := exists_ring_of_lookup found
  obtain ⟨-, out, back, path, -, -, -, -, -, -, rfl⟩ := Graph.ring_eq_ok_iff.mp hring
  obtain ⟨before, h, after, -, rfl⟩ := Route.mem_hopsOver_iff.mp hhop
  exact le_amountInto amount after

/-- After a failure was learned, no route asks the half for as much as it refused. -/
theorem lt_of_learned {order : OwnOrder} {g g' : Graph} {id : HalfId} {refused : Msat} {now : Time}
    (hg : g.Keyed) (learned : g.applyFailure id refused now = some g') (pos : refused ≠ 0)
    (found : lookup order g' r amount = .ok route) {hop : Hop} (hhop : hop ∈ route.hops)
    (same : hop.half = id) : hop.amount < refused := by
  have hg' : g'.Keyed := ((Graph.Learned.refl g).step learned).keyed hg
  obtain ⟨exit, entry, out, back, path, hround, rfl, -⟩ := exists_isRound_of_lookup hg' found
  obtain ⟨k, hk, hhalf, -, -, hcarry⟩ := Route.canCarry_of_mem_hopsOver hround.carries hhop
  obtain ⟨-, k', -, hhalves⟩ := Graph.getElem?_applyFailure learned
  have hestimate : k.liquidity = Graph.refusedEstimate refused k'.capacity := by
    have hknown := hround.known hg' k hk
    rw [← hhalf, same, hhalves, if_pos rfl] at hknown
    cases hknown
    rfl
  have hle := Graph.le_liquidity_of_canCarry hcarry
  have hpos : 0 < refused.toNat := Nat.pos_of_ne_zero fun h => pos (UInt64.toNat_inj.mp h)
  rw [UInt64.lt_iff_toNat_lt]
  calc hop.amount.toNat ≤ k.liquidity.toNat := UInt64.le_iff_toNat_le.mp hle
    _ ≤ refused.toNat - Graph.failureMargin.toNat := by
        rw [hestimate, Graph.refusedEstimate, toNat_min_word, toNat_subClamped]
        exact Nat.min_le_left _ _
    _ < refused.toNat := Nat.sub_lt hpos (by decide)

/-! ## A try that is told to fail -/

/-- What the node tells of a payment ends the wait for it. -/
theorem AwaitRun.eq_of_told {result : Option (TryResult × Books)} {f : PaymentFailure}
    {hash' : String} {timeout' : UInt64}
    (h : AwaitRun timeout b route label hash record result)
    (told : (Query.waitPay hash' timeout').answered (.ok (.failed f)) ∈ record) :
    result = some (.error (.failed f), b.resolve hash .failed) := by
  cases h with
  | completed delivered sent now => simp at told
  | failed failure =>
      simp only [List.mem_singleton, Sigma.mk.injEq, Query.waitPay.injEq] at told
      obtain ⟨⟨rfl, rfl⟩, hanswer⟩ := told
      cases hanswer
      rfl
  | foundPaid answer reason now stop =>
      simp at told
      obtain ⟨⟨rfl, rfl⟩, hanswer⟩ := told
      cases hanswer
      cases stop
  | givenUp answer reason removal stop unpaid =>
      simp at told
      obtain ⟨⟨rfl, rfl⟩, hanswer⟩ := told
      cases hanswer
      cases stop

theorem PayRun.exists_of_told {result : Option (TryResult × Books)} {f : PaymentFailure}
    {hash' : String} {timeout' : UInt64} (h : PayRun timeout b route label record result)
    (told : (Query.waitPay hash' timeout').answered (.ok (.failed f)) ∈ record) :
    ∃ b', result = some (.error (.failed f), b') ∧ b'.graph = b.graph := by
  cases h with
  | noInvoice e => simp at told
  | notSent invoice e => simp at told
  | sent invoice wait =>
      simp at told
      exact ⟨_, wait.eq_of_told told, rfl⟩

/-- A try whose payment is reported to have failed gives its route up or hands it on, and the graph
learns from the failure. -/
theorem TryRun.exists_of_told {result : Option (Attempt × Option Route × Books)}
    {f : PaymentFailure} {hash' : String} {timeout' : UInt64}
    (h : TryRun timeout r index amount tries last b record result)
    (told : (Query.waitPay hash' timeout').answered (.ok (.failed f)) ∈ record)
    (found : lookup b.order b.graph r amount = .ok route) :
    ∃ (attempt : Attempt) (b' : Books) (now : Time), b'.graph = b.graph ∧
      result = some (attempt, if f.isTemporary then some route else none,
        b'.learn route f now) := by
  -- The clock is asked after the payment, so the report is among what is exchanged for that.
  have paying : ∀ {record : Exchanges} {now : Time},
      (Query.waitPay hash' timeout').answered (.ok (.failed f)) ∈
        record ++ [Query.clock.answered now] →
      (Query.waitPay hash' timeout').answered (.ok (.failed f)) ∈ record := by
    intro record now hmem
    simpa using hmem
  cases h with
  | noRoute failure now found' =>
      rw [found] at found'
      cases found'
  | tooDear route' now found' dear => simp at told
  | broken route' found' cheap paid =>
      obtain ⟨b', hresult, -⟩ := paid.exists_of_told told
      cases hresult
  | moved route' found' cheap paid now =>
      obtain ⟨b', hresult, -⟩ := paid.exists_of_told (paying told)
      cases hresult
  | @failed route' found' cheap _ failure b₁ paid now =>
      obtain ⟨b', hresult, hgraph⟩ := paid.exists_of_told (paying told)
      cases hresult
      obtain rfl : route' = route := Except.ok.inj (found'.symm.trans found)
      exact ⟨_, b₁, now, hgraph, rfl⟩

theorem graph_learn {b : Books} {f : PaymentFailure} {hop : Hop} {g : Graph} {now : Time}
    (blamed : Books.erringHop? route f = some hop)
    (learned : b.graph.applyFailure hop.half hop.amount now = some g) :
    (b.learn route f now).graph = g := by
  unfold Books.learn
  rw [blamed]
  simp only [learned]

end Execution

/-! ## One try and the next -/

/-- The node reported this failure of the payment that the try made. -/
def Trial.IsTold (t : Trial) (f : PaymentFailure) : Prop :=
  ∃ hash timeout, (Query.waitPay hash timeout).answered (.ok (.failed f)) ∈ t.record

/-- The failure of the try blames a half of no own channel, and another try may help. -/
structure Trial.Refused (r : Request) (t : Trial) (route : Route) (hop : Hop) : Prop where
  found : Execution.lookup t.before.order t.before.graph r t.amount = .ok route
  failure : ∃ f, t.IsTold f ∧ f.isTemporary = true ∧ Blames f route hop
  other : t.before.graph.isOwn hop.half.scid = false

namespace Execution

variable {timeout : UInt64} {r : Request} {b : Books} {record : Exchanges}

/-- The next try at the chunk starts from a graph that has learned from the failure. -/
theorem exists_learned_of_refused {t next : Trial} {route : Route} {hop : Hop}
    (hg : t.before.graph.Keyed) (made : t.IsMade timeout r) (follows : t.Follows r next)
    (same : next.index = t.index) (refused : t.Refused r route hop) :
    ∃ now, t.before.graph.applyFailure hop.half hop.amount now = some next.before.graph := by
  obtain ⟨f, ⟨hash, timeout', told⟩, temporary, blames⟩ := refused.failure
  obtain ⟨exit, entry, out, back, path, hround, hroute, -⟩ :=
    exists_isRound_of_lookup hg refused.found
  have hblamed : Books.erringHop? route f = some hop := by
    refine blames.erringHop? fun hop' hhop' hhalf => ?_
    have hmem := blames.mem
    rw [hroute] at hhop' hmem
    exact hround.hop_unique hg hmem hhop' hhalf refused.other
  obtain ⟨k, hk⟩ : ∃ k : Half, t.before.graph.halves[hop.half]? = some k := by
    have hmem := blames.mem
    rw [hroute] at hmem
    obtain ⟨k, hk, hhalf, -⟩ := Route.canCarry_of_mem_hopsOver hround.carries hmem
    exact ⟨k, hhalf ▸ hround.known hg k hk⟩
  obtain ⟨attempt, b', now, hgraph, hresult⟩ :=
    (runs_tryChunk_iff.mp made.runs).exists_of_told told refused.found
  obtain ⟨g', hlearned⟩ := Graph.exists_applyFailure refused.other hk hop.amount now
  have hnext : (b'.learn route f now).graph = g' :=
    graph_learn hblamed (by rw [hgraph]; exact hlearned)
  cases follows with
  | again failed more here =>
      rw [hresult] at failed
      simp only [Option.some.injEq, Prod.mk.injEq] at failed
      obtain ⟨-, -, hbooks⟩ := failed
      refine ⟨now, ?_⟩
      rw [here.before, ← hbooks, hnext]
      exact hlearned
  | onward ended kept here =>
      have hindex := here.index
      omega

/-- However the node replies, a run is made of tries, and right after one that a half of others has
refused, no route for the same chunk asks the half for as much. -/
theorem retry_asks_less {result : Option (Summary × Books)} (accepted : r.flaw? = none)
    (reachable : b.graph.Reachable) (h : (execute timeout r b).Runs record result) :
    (∃ trials, MadeOf timeout r b record trials) ∧
      ∀ trials, MadeOf timeout r b record trials →
        ∀ t next, [t, next] <:+: trials → next.index = t.index →
          ∀ route hop, t.Refused r route hop →
            ∀ route', lookup next.before.order next.before.graph r next.amount = .ok route' →
              ∀ hop' ∈ route'.hops, hop'.half = hop.half → hop'.amount < hop.amount := by
  refine ⟨exists_madeOf accepted h, ?_⟩
  rintro trials ⟨start, middle, stop, -, -, hturn⟩
  intro t next hinfix same route hop refused route' found hop' hhop' hhalf
  have ht : t ∈ trials := hinfix.subset (by simp)
  have hkeyed := hturn.keyed reachable.keyed t ht
  have hpair := List.IsChain.infix hturn.chain hinfix
  have hfollows : t.Follows r next := List.isChain_pair.mp hpair
  obtain ⟨now, hlearned⟩ :=
    exists_learned_of_refused hkeyed (hturn.made t ht) hfollows same refused
  have hpos : hop.amount ≠ 0 := by
    obtain ⟨f, -, -, blames⟩ := refused.failure
    have hsplit := (Request.bounds_of_accepted accepted).2.1
    have hchunk := (Request.bounds_of_mem_chunks hsplit
      (List.mem_of_getElem? (hturn.made t ht).chunk)).1
    have hle := UInt64.le_iff_toNat_le.mp (amount_le_of_mem_hops refused.found blames.mem)
    intro hzero
    rw [hzero, UInt64.toNat_zero] at hle
    omega
  exact lt_of_learned hkeyed hlearned hpos found hhop' hhalf

end Execution

/-! ## Two channels between the peers -/

/-- How the gossip lists the half from `b` to `c` of a channel. -/
def listingAcross (scid : String) (baseFee : Msat) : Announcement where
  source := "b"
  destination := "c"
  scid := scid
  capacity := 10000000
  active := true
  baseFee := baseFee
  rate := 0
  delay := 0
  htlcMin := 0
  htlcMax := none

/-- A local node with a full channel to `b` and an empty one from `c`, and two channels between `b`
and `c`. -/
def Graph.across : Graph :=
  ((empty "a").applyOwn
    [channelWith "b" "1x1" 10000000 0, channelWith "c" "2x1" 0 10000000] 0).applyGossip
    [listingAcross "3x1" 1, listingAcross "4x1" 2] [] 0 100

theorem Graph.reachable_across : across.Reachable :=
  ⟨"a", [.own [channelWith "b" "1x1" 10000000 0, channelWith "c" "2x1" 0 10000000] 0,
    .gossip [listingAcross "3x1" 1, listingAcross "4x1" 2] [] 0 100], rfl⟩

/-- The request to move one chunk from the full to the empty channel in two attempts. -/
def moveAcross : Request :=
  { moveOver 2 with amount := 2000000, split := 2000000, maxHops := 3 }

/-- The exit. -/
def exitAcross : Half :=
  { Graph.halfToB with capacity := 10000000, htlcMax := 10000000, liquidity := 10000000 }

/-- The entry. -/
def entryAcross : Half :=
  { exitAcross with id := ⟨"2x1", 1⟩, source := "c", destination := "a", baseFee := 1 }

/-- The half of the channel `scid` between the peers. -/
def halfAcross (scid : String) (baseFee : Msat) : Half :=
  .ofAnnouncement (listingAcross scid baseFee) 0

/-- The route over this half. -/
def routeAcross (scid : String) (baseFee : Msat) : Route :=
  .build [exitAcross, halfAcross scid baseFee, entryAcross] 2000000

/-- The failure that blames the cheaper of the two channels. -/
def refusalAcross : PaymentFailure where
  code := 204
  message := "temporary_channel_failure"
  erringChannel := some "3x1"
  erringDirection := some 0

/-- What is exchanged when the first try is refused and the second one gets no invoice. -/
def refusedAcross : Exchanges :=
  [(Query.createInvoice 2000000 (invoiceLabel moveAcross 0 1) invoiceDescription).answered
      (.ok ⟨"h", "s"⟩),
    (Query.sendPay (routeAcross "3x1" 1).paymentHops "h" "s").answered (.ok ()),
    (Query.waitPay "h" 60).answered (.ok (.failed refusalAcross)), Query.clock.answered 0]

/-- What is exchanged when the second try gets no invoice. -/
def abandonedAcross : Exchanges :=
  [(Query.createInvoice 2000000 (invoiceLabel moveAcross 0 2) invoiceDescription).answered
      (.error (.lost "Invoice: ")), Query.clock.answered 0]

/-- The books after the first try. -/
def learnedAcross : Books :=
  ((Execution.issued (.ofGraph .across) "h" (routeAcross "3x1" 1)).resolve "h" .failed).learn
    (routeAcross "3x1" 1) refusalAcross 0

namespace Execution

theorem lookup_of_across {order : OwnOrder} {g : Graph} {scid : String} {baseFee : Msat}
    (hexit : g.outHalf? "1x1" = some exitAcross) (hentry : g.inHalf? "2x1" = some entryAcross)
    (hpath : g.findPath "b" "c" 2000001 1 = some [halfAcross scid baseFee])
    (hfirst : exitAcross.canCarry
      (amountInto 2000000 [halfAcross scid baseFee, entryAcross]) = true) :
    lookup order g moveAcross 2000000 = .ok (routeAcross scid baseFee) := by
  show g.ring "1x1" "2x1" 2000000 3 = _
  exact Graph.ring_eq_ok_iff.mpr ⟨by decide, exitAcross, entryAcross, [halfAcross scid baseFee],
    hexit, hentry, by decide, by decide, hpath, hfirst, rfl⟩

/-- The first route is the cheapest, the second avoids the half that has refused. -/
theorem lookup_across {order : OwnOrder} :
    lookup order Graph.across moveAcross 2000000 = .ok (routeAcross "3x1" 1) ∧
      lookup order learnedAcross.graph moveAcross 2000000 = .ok (routeAcross "4x1" 2) := by
  have hpath : Graph.across.findPath "b" "c" 2000001 1 = some [halfAcross "3x1" 1] ∧
      learnedAcross.graph.findPath "b" "c" 2000001 1 = some [halfAcross "4x1" 2] := by
    unfold Graph.findPath
    rw [Search.run_eq_runListed, Search.run_eq_runListed]
    constructor
    · decide +kernel
    · decide +kernel
  constructor
  · exact lookup_of_across (by decide +kernel) (by decide +kernel) hpath.1 (by decide)
  · exact lookup_of_across (by decide +kernel) (by decide +kernel) hpath.2 (by decide)

/-- The try that is refused. -/
def refusedTrial : Trial where
  index := 0
  amount := 2000000
  tries := 1
  last := none
  before := .ofGraph .across
  record := refusedAcross
  result := some (.failed moveAcross 0 2000000 (some (routeAcross "3x1" 1)) 1
    (.payment refusalAcross.reason) 0, some (routeAcross "3x1" 1), learnedAcross)

/-- The try that follows. -/
def nextTrial : Trial where
  index := 0
  amount := 2000000
  tries := 2
  last := some (routeAcross "3x1" 1)
  before := learnedAcross
  record := abandonedAcross
  result := some (.failed moveAcross 0 2000000 (some (routeAcross "4x1" 2)) 2
    (.payment "Invoice: ") 0, some (routeAcross "4x1" 2), learnedAcross)

theorem tryRun_refusedTrial :
    TryRun 60 moveAcross 0 2000000 1 none (.ofGraph .across) refusedAcross
      refusedTrial.result :=
  .failed (routeAcross "3x1" 1) lookup_across.1 (by decide)
    (.sent ⟨"h", "s"⟩ (.failed refusalAcross)) 0

theorem tryRun_nextTrial :
    TryRun 60 moveAcross 0 2000000 2 (some (routeAcross "3x1" 1)) learnedAcross abandonedAcross
      nextTrial.result :=
  .failed (routeAcross "4x1" 2) lookup_across.2 (by decide) (.noInvoice (.lost "Invoice: ")) 0

theorem refused_refusedTrial :
    refusedTrial.Refused moveAcross (routeAcross "3x1" 1)
      (hopOver 2000000 (halfAcross "3x1" 1) [entryAcross]) where
  found := lookup_across.1
  failure := by
    refine ⟨refusalAcross, ⟨"h", 60, ?_⟩, by decide, ?_⟩
    · simp [refusedTrial, refusedAcross]
    · refine ⟨?_, rfl, ?_, Or.inl rfl, nofun⟩
      · simp [routeAcross, Route.build, Route.hopsOver_cons]
      · intro d hd
        cases hd
        rfl
  other := by decide +kernel

theorem madeOf_across :
    MadeOf 60 moveAcross (.ofGraph .across)
      (Query.stopwatch.answered 0 ::
        (refusedAcross ++ abandonedAcross ++ [Query.stopwatch.answered 5]))
      [refusedTrial, nextTrial] := by
  have made : refusedTrial.IsMade 60 moveAcross :=
    ⟨rfl, runs_tryChunk_iff.mpr tryRun_refusedTrial⟩
  have made' : nextTrial.IsMade 60 moveAcross := ⟨rfl, runs_tryChunk_iff.mpr tryRun_nextTrial⟩
  have follows : refusedTrial.Follows moveAcross nextTrial :=
    .again rfl (by decide) ⟨rfl, rfl, rfl, rfl⟩
  exact ⟨0, _, _, rfl, Or.inr ⟨5, rfl⟩, by simp [refusedTrial, Trial.StartsAt.mk],
    by simp [made, made'], List.isChain_pair.mpr follows, rfl⟩

theorem exists_runs_across :
    ∃ result, (execute 60 moveAcross (.ofGraph .across)).Runs
      (Query.stopwatch.answered 0 ::
        (refusedAcross ++ abandonedAcross ++ [Query.stopwatch.answered 5])) result := by
  have htries : TriesRun 60 moveAcross 0 2000000 (0 + 1) 1 none (.ofGraph .across) _ _ :=
    .again tryRun_refusedTrial (.stopped tryRun_nextTrial (Or.inl rfl))
  have hkept : learnedAcross.history.cutoff? 0 = some 0 := by
    rw [show learnedAcross.history = (Books.ofGraph .across).history from
      (Books.unmoved_learn _ _ _ _).history]
    rfl
  obtain ⟨b', hrecord⟩ := @exists_recordAttempt learnedAcross
    (.failed moveAcross 0 2000000 (some (routeAcross "4x1" 2)) 2 (.payment "Invoice: ") 0) 0 hkept
  have hchunks : ChunksRun 60 moveAcross 0 moveAcross.chunks (.ofGraph .across) _ _ :=
    .cons htries hrecord .nil
  rw [List.append_nil] at hchunks
  exact ⟨_, runs_execute_iff.mpr (.finished 0 5 hchunks)⟩

/-- The second try goes over the other channel between the peers. -/
theorem retry_asks_less_across :
    moveAcross.flaw? = none ∧ Graph.across.Reachable ∧
      ∃ record result, (execute 60 moveAcross (.ofGraph .across)).Runs record result ∧
        MadeOf 60 moveAcross (.ofGraph .across) record [refusedTrial, nextTrial] ∧
        lookup nextTrial.before.order nextTrial.before.graph moveAcross 2000000 =
          .ok (routeAcross "4x1" 2) ∧
        ∀ hop ∈ (routeAcross "4x1" 2).hops, hop.half = ⟨"3x1", 0⟩ → hop.amount < 2000001 := by
  have accepted : moveAcross.flaw? = none := by decide +kernel
  obtain ⟨result, hrun⟩ := exists_runs_across
  have hless := (retry_asks_less accepted Graph.reachable_across hrun).2 _ madeOf_across
    refusedTrial nextTrial List.infix_rfl rfl _ _ refused_refusedTrial _ lookup_across.2
  exact ⟨accepted, Graph.reachable_across, _, result, hrun, madeOf_across, lookup_across.2, hless⟩

end Execution

end Rebalancer
