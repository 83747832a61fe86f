import Mathlib.Algebra.Order.Floor.Div
import Rebalancer.Proofs.Execution.Attempts
import Rebalancer.Proofs.Execution.Refusals

set_option autoImplicit false

/-! # The fee ceiling and what is reported of it

A route is held against the ceiling in exact numbers, but if it is too dear its rate is reported in
one word: rounded up, and cut to 64 bits. So the report tells the truth as long as the rate fits a
word, which it does for every amount of a thousand satoshi or more, and beyond that it may name any
rate, the ceiling and lower ones included (`gate_agrees_with_report_iff`).
-/

namespace Rebalancer

namespace Route

variable {route : Route} {ceiling : Ppm}

/-- The rate that the fee is of the amount, rounded up, in exact numbers. -/
def exactRate (r : Route) : Nat := r.fee.toNat * 1000000 ⌈/⌉ r.amount.toNat

/-- The rate that is reported for the route is within the ceiling just if the route is. -/
def Agrees (r : Route) (ceiling : Ppm) : Prop :=
  r.within ceiling = true ↔ rateCeil r.fee r.amount ≤ ceiling

instance (r : Route) (ceiling : Ppm) : Decidable (r.Agrees ceiling) :=
  inferInstanceAs (Decidable (_ ↔ _))

theorem toNat_amount_pos (h : route.amount ≠ 0) : 0 < route.amount.toNat :=
  Nat.pos_of_ne_zero fun hzero => h (UInt64.toNat_inj.mp hzero)

/-- The gate compares the exact rate. -/
theorem within_iff_exactRate_le (h : route.amount ≠ 0) :
    route.within ceiling = true ↔ route.exactRate ≤ ceiling.toNat := by
  rw [within_iff, exactRate, ceilDiv_le_iff_le_mul (toNat_amount_pos h),
    Nat.mul_comm ceiling.toNat]

/-- The report has the low bits of the exact rate. -/
theorem toNat_rateCeil (h : route.amount ≠ 0) :
    (rateCeil route.fee route.amount).toNat = route.exactRate % (maxWord + 1) := by
  have hpos := toNat_amount_pos h
  rw [rateCeil, if_neg h, toNat_lowWord, exactRate, Nat.ceilDiv_eq_add_pred_div,
    Nat.add_sub_assoc hpos]

/-- From a thousand satoshi on the exact rate fits a word. -/
theorem exactRate_le_maxWord (h : 1000000 ≤ route.amount) : route.exactRate ≤ maxWord := by
  have hamount : 1000000 ≤ route.amount.toNat := UInt64.le_iff_toNat_le.mp h
  rw [exactRate, ceilDiv_le_iff_le_mul (by omega)]
  calc route.fee.toNat * 1000000
      ≤ maxWord * route.amount.toNat := Nat.mul_le_mul (toNat_le_maxWord _) hamount
    _ = route.amount.toNat * maxWord := Nat.mul_comm _ _

/-- A route within the ceiling is never reported as above it. -/
theorem rateCeil_le_of_within (h : route.amount ≠ 0) (hw : route.within ceiling = true) :
    rateCeil route.fee route.amount ≤ ceiling := by
  rw [UInt64.le_iff_toNat_le, toNat_rateCeil h]
  exact (Nat.mod_le _ _).trans ((within_iff_exactRate_le h).mp hw)

/-- Gate and report agree if the exact rate fits a word, and otherwise if what is left of it in a
word happens to be above the ceiling. -/
theorem agrees_iff (h : route.amount ≠ 0) :
    route.Agrees ceiling ↔
      route.exactRate ≤ maxWord ∨ ceiling.toNat < route.exactRate % (maxWord + 1) := by
  have hceiling := toNat_le_maxWord ceiling
  rw [Agrees, within_iff_exactRate_le h, UInt64.le_iff_toNat_le, toNat_rateCeil h]
  by_cases hfits : route.exactRate ≤ maxWord
  · rw [Nat.mod_eq_of_lt (Nat.lt_succ_of_le hfits)]
    exact iff_of_true Iff.rfl (Or.inl hfits)
  · -- Beyond a word the exact rate is above every ceiling.
    have hdear : ¬ route.exactRate ≤ ceiling.toNat := by omega
    rw [iff_false_left hdear, or_iff_right hfits, Nat.not_le]

theorem agrees_iff_lt_rateCeil (h : route.within ceiling = false) :
    route.Agrees ceiling ↔ ceiling < rateCeil route.fee route.amount := by
  rw [Agrees, h, iff_false_left Bool.false_ne_true, UInt64.not_le]

end Route

/-! ## Attempts that were given up as too dear -/

theorem Failure.kind_eq_feeExceeded_iff {f : Failure} :
    f.kind = "fee_exceeded" ↔ ∃ rate ceiling, f = .feeExceeded rate ceiling := by
  cases f with
  | feeExceeded rate ceiling => exact iff_of_true rfl ⟨rate, ceiling, rfl⟩
  | noRoute gap => simp [kind]
  | inactive scid => simp [kind]
  | payment reason => simp [kind]
  | refresh reason => simp [kind]
  | invalid x => simp [kind]

/-- Whether an attempt was given up because no route was cheap enough. -/
def Attempt.IsTooDear (a : Attempt) : Prop := a.error.map (·.kind) = some "fee_exceeded"

/-- The attempt `a` was given up because of `route`, and reports the rate of its fee. -/
structure Attempt.Blames (a : Attempt) (ceiling : Ppm) (route : Route) : Prop where
  amount : route.amount = a.amount
  halves : route.halfIds = a.route
  dear : route.within ceiling = false
  error : a.error = some (Failure.feeExceeded (rateCeil route.fee route.amount) ceiling).record

namespace Graph

variable {g : Graph} {exit entry : String} {amount : Msat} {maxHops : Nat} {rate ceiling : Ppm}

theorem exitHalf_ne_feeExceeded : g.exitHalf exit ≠ .error (.feeExceeded rate ceiling) := by
  intro h
  obtain ⟨x, -, hf⟩ := exitHalf_eq_error_iff.mp h
  cases hf

theorem entryHalf_ne_feeExceeded : g.entryHalf entry ≠ .error (.feeExceeded rate ceiling) := by
  intro h
  obtain ⟨x, -, hf⟩ := entryHalf_eq_error_iff.mp h
  cases hf

theorem checkEnds_ne_feeExceeded {out back : Half} :
    checkEnds exit entry out back amount ≠ .error (.feeExceeded rate ceiling) := by
  unfold checkEnds
  split
  · exact nofun
  · split
    · exact nofun
    · split
      · exact nofun
      · split
        · exact nofun
        · exact nofun

theorem ring_ne_feeExceeded :
    g.ring exit entry amount maxHops ≠ .error (.feeExceeded rate ceiling) := by
  intro h
  unfold ring at h
  rcases except_check_eq_error_iff.mp h with ⟨-, h⟩ | ⟨-, h⟩
  · cases h
  rcases except_bind_eq_error_iff.mp h with h | ⟨out, -, h⟩
  · exact exitHalf_ne_feeExceeded h
  rcases except_bind_eq_error_iff.mp h with h | ⟨back, -, h⟩
  · exact entryHalf_ne_feeExceeded h
  rcases except_bind_eq_error_iff.mp h with h | ⟨_, -, h⟩
  · exact checkEnds_ne_feeExceeded h
  split at h
  · cases h
  · dsimp only at h
    split at h
    · cases h
    · cases h

theorem exitsAmong_ne_feeExceeded {records : List (String × OwnChannel)} {f : ExitFilter} :
    g.exitsAmong records entry amount maxHops f ≠ .error (.feeExceeded rate ceiling) := by
  intro h
  unfold exitsAmong at h
  rcases except_bind_eq_error_iff.mp h with h | ⟨back, -, h⟩
  · exact entryHalf_ne_feeExceeded h
  rcases except_check_eq_error_iff.mp h with ⟨-, h⟩ | ⟨-, h⟩
  · cases h
  rcases except_check_eq_error_iff.mp h with ⟨-, h⟩ | ⟨-, h⟩
  · cases h
  · cases h

theorem entriesAmong_ne_feeExceeded {records : List (String × OwnChannel)} {f : EntryFilter} :
    g.entriesAmong records exit amount maxHops f ≠ .error (.feeExceeded rate ceiling) := by
  intro h
  unfold entriesAmong at h
  rcases except_bind_eq_error_iff.mp h with h | ⟨out, -, h⟩
  · exact exitHalf_ne_feeExceeded h
  rcases except_check_eq_error_iff.mp h with ⟨-, h⟩ | ⟨-, h⟩
  · cases h
  rcases except_check_eq_error_iff.mp h with ⟨-, h⟩ | ⟨-, h⟩
  · cases h
  · cases h

end Graph

namespace Execution

variable {timeout : UInt64} {r : Request} {index tries more : Nat} {amount : Msat} {b b' : Books}
  {last : Option Route} {record : Exchanges} {attempt : Attempt} {attempts : List Attempt}

theorem lookup_ne_feeExceeded {order : OwnOrder} {g : Graph} {rate ceiling : Ppm} :
    lookup order g r amount ≠ .error (.feeExceeded rate ceiling) := by
  intro h
  unfold lookup at h
  split at h
  · exact Graph.ring_ne_feeExceeded h
  · rcases except_bind_eq_error_iff.mp h with h | ⟨candidates, -, h⟩
    · exact Graph.exitsAmong_ne_feeExceeded h
    · cases candidates with
      | nil => cases h
      | cons c rest => cases h
  · rcases except_bind_eq_error_iff.mp h with h | ⟨candidates, -, h⟩
    · exact Graph.entriesAmong_ne_feeExceeded h
    · cases candidates with
      | nil => cases h
      | cons c rest => cases h

/-- A try that is given up as too dear blames the route that was found for it. -/
theorem TryRun.exists_blames {again : Option Route}
    (h : TryRun timeout r index amount tries last b record (some (attempt, again, b')))
    (dear : attempt.IsTooDear) : ∃ route, attempt.Blames r.maxRate route := by
  cases h with
  | noRoute failure now found =>
      -- The search does not look at the ceiling, so it does not fail because of it.
      obtain ⟨rate, ceiling, rfl⟩ := Failure.kind_eq_feeExceeded_iff.mp (Option.some.inj dear)
      exact absurd found lookup_ne_feeExceeded
  | tooDear route now found gate =>
      exact ⟨route, (getLast?_of_lookup found).1, rfl, gate, rfl⟩
  | moved route found cheap paid now => cases dear
  | @failed route found cheap _ failure _ paid now =>
      have hkind : (Failure.payment failure.reason).kind = "fee_exceeded" := Option.some.inj dear
      obtain ⟨_, _, hpayment⟩ := Failure.kind_eq_feeExceeded_iff.mp hkind
      cases hpayment

theorem TriesRun.exists_blames
    (h : TriesRun timeout r index amount more tries last b record (some (attempt, b')))
    (dear : attempt.IsTooDear) : ∃ route, attempt.Blames r.maxRate route := by
  induction h using TriesRun.ended_induction with
  | stopped step final => exact step.exists_blames dear
  | again step next ih => exact ih dear

theorem ChunksRun.exists_blames {chunks : List Msat}
    (h : ChunksRun timeout r index chunks b record (some (attempts, b'))) :
    ∀ a ∈ attempts, a.IsTooDear → ∃ route, a.Blames r.maxRate route := by
  induction h using ChunksRun.ended_induction with
  | nil => exact nofun
  | cons chunk kept next ih =>
      intro a ha
      rcases List.mem_cons.mp ha with rfl | ha
      · exact chunk.exists_blames
      · exact ih a ha

/-- However the node replies, what an attempt was given up for is a route above the ceiling, and
what the attempt reports is above the ceiling just if gate and report agree on this route. -/
theorem exists_blames_of_runs {summary : Summary} (accepted : r.flaw? = none)
    (h : (execute timeout r b).Runs record (some (summary, b'))) {a : Attempt}
    (ha : a ∈ summary.attempts) (dear : a.IsTooDear) :
    ∃ route, a.Blames r.maxRate route ∧ route.amount ≠ 0 ∧ r.maxRate.toNat < route.exactRate ∧
      (r.maxRate < rateCeil route.fee route.amount ↔ route.Agrees r.maxRate) := by
  obtain ⟨_, _, middle, attempts, -, chunks, hsummary⟩ := exists_chunks_of_runs h
  rw [(Summary.eq_of_ofAttempts? hsummary).1] at ha
  obtain ⟨route, hblames⟩ := chunks.exists_blames a ha dear
  -- The amount of an attempt is that of its chunk, of which none is empty.
  obtain ⟨-, hsplit, -, hattempts, -⟩ := Request.bounds_of_accepted accepted
  have hchunk : a.amount ∈ r.chunks :=
    (chunks.attempts_match hattempts).1 ▸ List.mem_map_of_mem ha
  have hamount : route.amount ≠ 0 := by
    intro hzero
    have hpos := (Request.bounds_of_mem_chunks hsplit hchunk).1
    rw [← hblames.amount, hzero] at hpos
    exact absurd hpos (by decide)
  have hrate : r.maxRate.toNat < route.exactRate := by
    rw [← Nat.not_le, ← Route.within_iff_exactRate_le hamount, hblames.dear]
    exact Bool.false_ne_true
  exact ⟨route, hblames, hamount, hrate, (Route.agrees_iff_lt_rateCeil hblames.dear).symm⟩

/-- For every route that moves something the gate and the report agree just if the exact rate fits a
word, or what is left of it in a word is above the ceiling; they do from a thousand satoshi on. In
every run of an accepted request, an attempt that was given up as too dear reports the rate of a
route above the ceiling, and what it reports is above the ceiling just if the two agree. -/
theorem gate_agrees_with_report_iff {route : Route} (positive : route.amount ≠ 0) (ceiling : Ppm) :
    (route.Agrees ceiling ↔
        route.exactRate ≤ maxWord ∨ ceiling.toNat < route.exactRate % (maxWord + 1)) ∧
      (1000000 ≤ route.amount → route.Agrees ceiling) ∧
      (route.within ceiling = true → rateCeil route.fee route.amount ≤ ceiling) ∧
      ∀ (timeout : UInt64) (r : Request) (b b' : Books) (record : Exchanges) (summary : Summary),
        r.flaw? = none → (execute timeout r b).Runs record (some (summary, b')) →
          ∀ a ∈ summary.attempts, a.IsTooDear → ∃ blamed, a.Blames r.maxRate blamed ∧
            blamed.amount ≠ 0 ∧ r.maxRate.toNat < blamed.exactRate ∧
            (r.maxRate < rateCeil blamed.fee blamed.amount ↔ blamed.Agrees r.maxRate) := by
  refine ⟨Route.agrees_iff positive, fun hlarge => ?_, Route.rateCeil_le_of_within positive,
    fun _ _ _ _ _ _ accepted hrun _ ha dear => exists_blames_of_runs accepted hrun ha dear⟩
  exact (Route.agrees_iff positive).mpr (Or.inl (Route.exactRate_le_maxWord hlarge))

/-! ## One chunk that is too dear -/

/-- What is exchanged when the only chunk of a request is given up at once. -/
def givenUp : Exchanges :=
  [Query.stopwatch.answered 0, Query.clock.answered 0, Query.stopwatch.answered 5]

/-- The attempt at a chunk for which there is nothing but `route`, which is too dear. -/
def tooDear (r : Request) (route : Route) : Attempt :=
  .failed r 0 route.amount (some route) 1 (.feeExceeded (rateCeil route.fee route.amount) r.maxRate)
    0

theorem exists_runs_givenUp {g : Graph} {route : Route} (hchunk : r.chunks = [route.amount])
    (found : lookup .byId g r route.amount = .ok route) (dear : route.within r.maxRate = false) :
    ∃ summary b', (execute 60 r (.ofGraph g)).Runs givenUp (some (summary, b')) ∧
      summary.attempts = [tooDear r route] := by
  obtain ⟨b', hrecord⟩ := @exists_recordAttempt (.ofGraph g) (tooDear r route) 0 rfl
  have htry : TryRun 60 r 0 route.amount 1 none (.ofGraph g) [Query.clock.answered 0]
      (some (tooDear r route, none, .ofGraph g)) := .tooDear route 0 found dear
  have hchunks := ChunksRun.cons (.stopped htry (Or.inr rfl)) hrecord .nil
  rw [List.append_nil, ← hchunk] at hchunks
  have hrun := runs_execute_iff.mpr (ExecuteRun.finished 0 5 hchunks)
  obtain ⟨summary, hsummary⟩ :
      ∃ summary, Summary.ofAttempts? r [tooDear r route] (subClamped 5 0) = some summary :=
    ⟨_, rfl⟩
  rw [hsummary, Option.map_some] at hrun
  exact ⟨summary, b', hrun, (Summary.eq_of_ofAttempts? hsummary).1⟩

/-- The request of `moveOver`, for whose route the ceiling is just too low. -/
def moveCheaper : Request := { moveOver 1 with maxRate := 999 }

theorem gate_agrees_with_report_iff_cheaper :
    moveCheaper.flaw? = none ∧ routeOver.within 999 = false ∧
      rateCeil routeOver.fee routeOver.amount = 1000 ∧ routeOver.Agrees 999 ∧
      ∃ summary b', (execute 60 moveCheaper (.ofGraph Graph.twoChannels)).Runs givenUp
          (some (summary, b')) ∧
        summary.attempts = [tooDear moveCheaper routeOver] ∧
        ∃ route, (tooDear moveCheaper routeOver).Blames 999 route ∧ 999 < route.exactRate := by
  have accepted : moveCheaper.flaw? = none := by decide +kernel
  have dear : routeOver.within moveCheaper.maxRate = false := by decide
  obtain ⟨summary, b', hrun, hattempts⟩ :=
    @exists_runs_givenUp moveCheaper Graph.twoChannels routeOver (by decide +kernel)
      Graph.ring_twoChannels dear
  obtain ⟨hagrees, -, -, hblamed⟩ :=
    @gate_agrees_with_report_iff routeOver (by decide) moveCheaper.maxRate
  obtain ⟨route, hblames, -, hrate, -⟩ := hblamed _ _ _ _ _ _ accepted hrun
    (tooDear moveCheaper routeOver) (by rw [hattempts]; exact List.mem_singleton_self _) rfl
  exact ⟨accepted, dear, by decide +kernel, hagrees.mpr (Or.inl (by decide +kernel)), summary, b',
    hrun, hattempts, route, hblames, hrate⟩

/-- The two channels of `Graph.twoChannels`, much larger and with a peer who charges much more for
each payment. -/
def dearChannels : Graph :=
  (Graph.empty "a").applyOwn [Graph.channelWith "b" "1x1" 20000000000000000 0,
    { Graph.channelWith "b" "2x1" 0 20000000000000000 with
      policies := some { remote := some {
        htlcMax := 20000000000000000, baseFee := 18446744073709552 } } }] 0

/-- The route over them. -/
def dearRoute : Route :=
  .build [{ Graph.halfToB with
      capacity := 20000000000000000, htlcMax := 20000000000000000,
      liquidity := 20000000000000000 },
    { Graph.halfFromB with
      capacity := 20000000000000000, htlcMax := 20000000000000000,
      liquidity := 20000000000000000, baseFee := 18446744073709552 }] 1000

theorem ring_dearChannels : dearChannels.ring "1x1" "2x1" 1000 2 = .ok dearRoute :=
  Graph.ring_of_same_peer (by decide) (by decide +kernel) (by decide +kernel) rfl (by decide)
    (by decide) (by decide) (by decide) 2

/-- The rate of the fee is 384 more than 2 ^ 64, so it is these 384 that are reported, and the chunk
is given up as above the ceiling of 1000 with a rate that is below it. -/
theorem report_below_ceiling :
    (moveOver 1).flaw? = none ∧
      dearRoute.amount ≠ 0 ∧ dearRoute.exactRate = 18446744073709552000 ∧
      dearRoute.within 1000 = false ∧ rateCeil dearRoute.fee dearRoute.amount = 384 ∧
      ¬ dearRoute.Agrees 1000 ∧
      ∃ summary b' a, (execute 60 (moveOver 1) (.ofGraph dearChannels)).Runs givenUp
          (some (summary, b')) ∧
        summary.attempts = [a] ∧
        a.error = some ⟨"fee_exceeded",
          "route too expensive: cheapest route found was 384 ppm, but maxppm is 1000"⟩ := by
  have dear : dearRoute.within (moveOver 1).maxRate = false := by decide
  obtain ⟨summary, b', hrun, hattempts⟩ :=
    @exists_runs_givenUp (moveOver 1) dearChannels dearRoute (by decide +kernel) ring_dearChannels
      dear
  exact ⟨by decide +kernel, by decide, by decide +kernel, dear, by decide +kernel,
    by decide +kernel, summary, b', _, hrun, hattempts, by decide +kernel⟩

end Execution

end Rebalancer
