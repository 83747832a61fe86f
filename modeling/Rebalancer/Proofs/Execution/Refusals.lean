import Rebalancer.Proofs.Execution.Payments
import Rebalancer.Proofs.Execution.Submissions

set_option autoImplicit false

/-! # Requests that no channel can serve

A lookup refuses a request whose pinned ends are not usable, and it is the channels of the graph
alone that decide on this (`lookup_eq_invalid_iff`): neither the amount nor an estimate does. A run
adds no channel and drops none (`SameChannels`), so either every lookup of a run refuses, or none.
If every one does, each chunk comes to an attempt with this refusal and no payment is asked for
(`ChunksRun.refused`).
-/

namespace Rebalancer

theorem Failure.kind_eq_invalid_iff {f : Failure} :
    f.kind = "invalid_request" ↔ ∃ x, f = .invalid x := by
  cases f with
  | invalid x => exact iff_of_true rfl ⟨x, rfl⟩
  | noRoute gap => simp [kind]
  | feeExceeded rate ceiling => simp [kind]
  | inactive scid => simp [kind]
  | payment reason => simp [kind]
  | refresh reason => simp [kind]

/-- Whether an attempt was recorded as one at an invalid request. -/
def Attempt.IsInvalid (a : Attempt) : Prop := a.error.map (·.kind) = some "invalid_request"

/-- Whether a row tells of an attempt at an invalid request. -/
def AttemptRow.IsInvalid (row : AttemptRow) : Prop := row.errorKind = some "invalid_request"

/-- With a check in front there is a failure if the check fails or what follows does. -/
theorem except_check_eq_error_iff {ε α : Type} {p : Prop} [Decidable p] {e e' : ε}
    {x : Except ε α} :
    (if p then (do (throw e : Except ε PUnit); x) else x) = .error e' ↔
      (p ∧ e = e') ∨ (¬ p ∧ x = .error e') := by
  by_cases hp : p
  · rw [if_pos hp]
    constructor
    · intro h
      exact Or.inl ⟨hp, Except.error.inj h⟩
    · rintro (⟨-, rfl⟩ | ⟨hn, -⟩)
      · rfl
      · exact absurd hp hn
  · rw [if_neg hp]
    simp [hp]

namespace Graph

variable {g g' : Graph} {scid exit entry : String} {amount : Msat} {maxHops : Nat} {x : Refusal}

/-! ## Which requests are refused -/

/-- Why `scid` cannot serve as exit, whatever the amount. -/
def exitRefusal? (g : Graph) (scid : String) : Option Refusal :=
  if g.isOwn scid = false then some (.notOwn scid)
  else if g.outHalf? scid = none then some (.noOutgoingHalf scid)
  else none

/-- Why `scid` cannot serve as entry, whatever the amount. -/
def entryRefusal? (g : Graph) (scid : String) : Option Refusal :=
  if g.isOwn scid = false then some (.notOwn scid)
  else if g.inHalf? scid = none then some (.noIncomingHalf scid)
  else none

/-- Why the pinned ends cannot be served, whatever the amount. -/
def refusal? (g : Graph) : Target → Option Refusal
  | .circular exit entry =>
    if exit = entry then some .sameChannel else (g.exitRefusal? exit).or (g.entryRefusal? entry)
  | .pull entry .. => g.entryRefusal? entry
  | .push exit .. => g.exitRefusal? exit

theorem exitHalf_eq_error_iff {f : Failure} :
    g.exitHalf scid = .error f ↔ ∃ x, g.exitRefusal? scid = some x ∧ f = .invalid x := by
  unfold exitHalf exitRefusal?
  cases g.isOwn scid with
  | false => simp [eq_comm]
  | true =>
      cases g.outHalf? scid with
      | none => simp [eq_comm]
      | some h => simp

theorem entryHalf_eq_error_iff {f : Failure} :
    g.entryHalf scid = .error f ↔ ∃ x, g.entryRefusal? scid = some x ∧ f = .invalid x := by
  unfold entryHalf entryRefusal?
  cases g.isOwn scid with
  | false => simp [eq_comm]
  | true =>
      cases g.inHalf? scid with
      | none => simp [eq_comm]
      | some h => simp

theorem exitRefusal?_eq_none {h : Half} (hh : g.exitHalf scid = .ok h) :
    g.exitRefusal? scid = none := by
  cases hx : g.exitRefusal? scid with
  | none => rfl
  | some x => cases hh.symm.trans (exitHalf_eq_error_iff.mpr ⟨x, hx, rfl⟩)

theorem entryRefusal?_eq_none {h : Half} (hh : g.entryHalf scid = .ok h) :
    g.entryRefusal? scid = none := by
  cases hx : g.entryRefusal? scid with
  | none => rfl
  | some x => cases hh.symm.trans (entryHalf_eq_error_iff.mpr ⟨x, hx, rfl⟩)

/-- What the ends can carry is a matter of routes, not of the request. -/
theorem checkEnds_ne_invalid {out back : Half} :
    checkEnds exit entry out back amount ≠ .error (.invalid x) := by
  unfold checkEnds
  split
  · exact nofun
  · split
    · exact nofun
    · split
      · exact nofun
      · split
        · exact nofun
        · exact nofun

theorem ring_eq_invalid_iff :
    g.ring exit entry amount maxHops = .error (.invalid x) ↔
      g.refusal? (.circular exit entry) = some x := by
  unfold ring
  simp only [refusal?]
  rw [except_check_eq_error_iff, beq_iff_eq]
  by_cases hsame : exit = entry
  · rw [if_pos hsame]
    simp [hsame]
  · rw [if_neg hsame]
    simp only [hsame, false_and, not_false_eq_true, true_and, false_or]
    cases hexit : g.exitHalf exit with
    | error f =>
        obtain ⟨y, hy, rfl⟩ := exitHalf_eq_error_iff.mp hexit
        rw [hy]
        simp [bind, Except.bind]
    | ok out =>
        rw [exitRefusal?_eq_none hexit, Option.none_or]
        cases hentry : g.entryHalf entry with
        | error f =>
            obtain ⟨y, hy, rfl⟩ := entryHalf_eq_error_iff.mp hentry
            rw [hy]
            simp [bind, Except.bind]
        | ok back =>
            rw [entryRefusal?_eq_none hentry]
            -- From here on a failure is that of a check or of the search.
            refine iff_of_false (fun h => ?_) nofun
            rcases except_bind_eq_error_iff.mp h with h | ⟨_, _, h⟩
            · cases h
            · rcases except_bind_eq_error_iff.mp h with h | ⟨_, _, h⟩
              · cases h
              · rcases except_bind_eq_error_iff.mp h with h | ⟨_, _, h⟩
                · exact checkEnds_ne_invalid h
                · split at h
                  · cases h
                  · split at h
                    · cases h
                    · cases h

theorem exitsAmong_eq_invalid_iff {records : List (String × OwnChannel)} {f : ExitFilter} :
    g.exitsAmong records entry amount maxHops f = .error (.invalid x) ↔
      g.entryRefusal? entry = some x := by
  unfold exitsAmong
  cases hentry : g.entryHalf entry with
  | error f =>
      obtain ⟨y, hy, rfl⟩ := entryHalf_eq_error_iff.mp hentry
      rw [hy]
      simp [bind, Except.bind]
  | ok back =>
      rw [entryRefusal?_eq_none hentry]
      simp [except_bind_eq_error_iff, except_check_eq_error_iff, pure, Except.pure]

theorem entriesAmong_eq_invalid_iff {records : List (String × OwnChannel)} {f : EntryFilter} :
    g.entriesAmong records exit amount maxHops f = .error (.invalid x) ↔
      g.exitRefusal? exit = some x := by
  unfold entriesAmong
  cases hexit : g.exitHalf exit with
  | error f =>
      obtain ⟨y, hy, rfl⟩ := exitHalf_eq_error_iff.mp hexit
      rw [hy]
      simp [bind, Except.bind]
  | ok out =>
      rw [exitRefusal?_eq_none hexit]
      simp [except_bind_eq_error_iff, except_check_eq_error_iff, pure, Except.pure]

/-! ## What a run leaves of the channels -/

/-- The graphs know the same halves, and own the same channels with the same peers. -/
structure SameChannels (g g' : Graph) : Prop where
  selfId : g'.selfId = g.selfId
  peers : ∀ scid : String, g'.own[scid]?.map (·.peer) = g.own[scid]?.map (·.peer)
  halves : ∀ id : HalfId, g'.halves[id]?.isSome = g.halves[id]?.isSome

theorem SameChannels.refl (g : Graph) : SameChannels g g := ⟨rfl, fun _ => rfl, fun _ => rfl⟩

theorem SameChannels.trans {g'' : Graph} (h : SameChannels g g') (h' : SameChannels g' g'') :
    SameChannels g g'' :=
  ⟨h'.selfId.trans h.selfId, fun scid => (h'.peers scid).trans (h.peers scid),
    fun id => (h'.halves id).trans (h.halves id)⟩

theorem SameChannels.isOwn (h : SameChannels g g') (scid : String) :
    g'.isOwn scid = g.isOwn scid := by
  have hpeers := congrArg Option.isSome (h.peers scid)
  rw [Option.isSome_map, Option.isSome_map] at hpeers
  rw [Graph.isOwn, Graph.isOwn, Std.TreeMap.contains_eq_isSome_getElem?,
    Std.TreeMap.contains_eq_isSome_getElem?, hpeers]

/-- A half of an own channel is known in both graphs or in neither. -/
theorem SameChannels.isSome_half (h : SameChannels g g') (scid : String)
    {f f' : OwnChannel → HalfId} (hf : ∀ c c' : OwnChannel, c'.peer = c.peer → f' c' = f c) :
    (g'.own[scid]?.bind fun c => g'.halves[f' c]?).isSome =
      (g.own[scid]?.bind fun c => g.halves[f c]?).isSome := by
  have hpeers := h.peers scid
  cases hc : g.own[scid]? with
  | none =>
      rw [hc, Option.map_none, Option.map_eq_none_iff] at hpeers
      rw [hpeers]
      rfl
  | some c =>
      rw [hc, Option.map_some] at hpeers
      obtain ⟨c', hc', hpeer⟩ := Option.map_eq_some_iff.mp hpeers
      rw [hc', Option.bind_some, Option.bind_some, hf c c' hpeer, h.halves]

theorem SameChannels.isSome_outHalf? (h : SameChannels g g') (scid : String) :
    (g'.outHalf? scid).isSome = (g.outHalf? scid).isSome :=
  h.isSome_half scid fun c c' hpeer => by rw [outId_congr h.selfId, outId, outId, hpeer]

theorem SameChannels.isSome_inHalf? (h : SameChannels g g') (scid : String) :
    (g'.inHalf? scid).isSome = (g.inHalf? scid).isSome :=
  h.isSome_half scid fun c c' hpeer => by rw [inId_congr h.selfId, inId, inId, hpeer]

/-- The same channels refuse the same requests. -/
theorem SameChannels.refusal? (h : SameChannels g g') (target : Target) :
    g'.refusal? target = g.refusal? target := by
  have none_iff : ∀ {α : Type} {o o' : Option α}, o'.isSome = o.isSome →
      (o' = none ↔ o = none) := by
    intro α o o' ho
    rw [← Option.isSome_eq_false_iff.trans Option.isNone_iff_eq_none, ho,
      Option.isSome_eq_false_iff, Option.isNone_iff_eq_none]
  have hexit : ∀ scid, g'.exitRefusal? scid = g.exitRefusal? scid := fun scid => by
    simp only [exitRefusal?, h.isOwn, none_iff (h.isSome_outHalf? scid)]
  have hentry : ∀ scid, g'.entryRefusal? scid = g.entryRefusal? scid := fun scid => by
    simp only [entryRefusal?, h.isOwn, none_iff (h.isSome_inHalf? scid)]
  cases target with
  | circular exit entry => simp only [Graph.refusal?, hexit, hentry]
  | pull entry => exact hentry entry
  | push exit => exact hexit exit

theorem sameChannels_modifyOwn (g : Graph) (scid : Option String) {f : OwnChannel → OwnChannel}
    (hf : ∀ c, (f c).peer = c.peer) : g.SameChannels (g.modifyOwn scid f) := by
  refine ⟨selfId_modifyOwn g scid f, map_own_modifyOwn g scid hf, fun id => ?_⟩
  rw [halves_modifyOwn]

theorem sameChannels_syncOwn (g : Graph) (now : Time) : SameChannels g (g.syncOwn now) := by
  refine ⟨rfl, fun _ => rfl, fun id => ?_⟩
  show (g.halves.map (g.ownState now))[id]?.isSome = _
  rw [Std.TreeMap.getElem?_map, Option.isSome_map]

theorem sameChannels_applyPayment (g : Graph) (route : Route) (amount : Msat) (now : Time) :
    SameChannels g (g.applyPayment route amount now) := by
  have hexit := sameChannels_modifyOwn g route.exit? (f := (debited · amount)) fun _ => rfl
  have hentry := sameChannels_modifyOwn (g.modifyOwn route.exit? (debited · amount)) route.entry?
    (f := (credited · amount)) fun _ => rfl
  exact (hexit.trans hentry).trans (sameChannels_syncOwn _ now)

theorem sameChannels_applyFailure {id : HalfId} {now : Time}
    (h : g.applyFailure id amount now = some g') : SameChannels g g' := by
  obtain ⟨hown, hself⟩ := own_applyFailure h
  refine ⟨hself, fun scid => by rw [hown], fun id' => ?_⟩
  have hknown := map_halves_applyFailure (f := fun _ => ()) (fun _ _ => rfl) h id'
  rw [← Option.isSome_map (f := fun _ => ()), hknown, Option.isSome_map]

theorem Learned.sameChannels (h : Learned g g') : SameChannels g g' := by
  induction h with
  | refl => exact .refl _
  | step _ failure ih => exact ih.trans (sameChannels_applyFailure failure)

end Graph

namespace Execution

variable {timeout : UInt64} {r : Request} {index tries more : Nat} {amount : Msat} {b b' : Books}
  {last : Option Route} {record : Exchanges} {attempt : Attempt} {x : Refusal}

/-- A lookup refuses the request just if the graph cannot serve its ends, whatever the amount. -/
theorem lookup_eq_invalid_iff {order : OwnOrder} {g : Graph} :
    lookup order g r amount = .error (.invalid x) ↔ g.refusal? r.target = some x := by
  unfold lookup
  cases r.target with
  | circular exit entry => exact Graph.ring_eq_invalid_iff
  | pull entry rate list percent floor =>
      refine except_bind_eq_error_iff.trans (Iff.trans (or_iff_left ?_)
        Graph.exitsAmong_eq_invalid_iff)
      -- With candidates there is a first one, and without there is no route.
      rintro ⟨candidates, -, h⟩
      cases candidates with
      | nil => cases h
      | cons c rest => cases h
  | push exit rate list percent ceiling =>
      refine except_bind_eq_error_iff.trans (Iff.trans (or_iff_left ?_)
        Graph.entriesAmong_eq_invalid_iff)
      rintro ⟨candidates, -, h⟩
      cases candidates with
      | nil => cases h
      | cons c rest => cases h

theorem ChunkOutcome.sameChannels (h : ChunkOutcome r index amount b attempt b') :
    b.graph.SameChannels b'.graph := by
  cases h with
  | moved before found cheap settles =>
      rw [settles.graph]
      exact before.graph.sameChannels.trans (Graph.sameChannels_applyPayment _ _ _ _)
  | failed unmoved => exact unmoved.graph.sameChannels

/-! ## Runs in which every lookup refuses -/

theorem TryRun.refused (hx : b.graph.refusal? r.target = some x)
    {result : Option (Attempt × Option Route × Books)}
    (h : TryRun timeout r index amount tries last b record result) :
    ∃ now, record = [Query.clock.answered now] ∧
      result = some (.failed r index amount last tries (.invalid x) now, none, b) := by
  have hlookup : lookup b.order b.graph r amount = .error (.invalid x) :=
    lookup_eq_invalid_iff.mpr hx
  cases h with
  | noRoute failure now found =>
      cases found.symm.trans hlookup
      exact ⟨now, rfl, rfl⟩
  | tooDear route now found dear => cases found.symm.trans hlookup
  | broken route found cheap paid => cases found.symm.trans hlookup
  | moved route found cheap paid now => cases found.symm.trans hlookup
  | failed route found cheap paid now => cases found.symm.trans hlookup

theorem TriesRun.refused (hx : b.graph.refusal? r.target = some x)
    {result : Option (Attempt × Books)}
    (h : TriesRun timeout r index amount more tries last b record result) :
    ∃ now, record = [Query.clock.answered now] ∧
      result = some (.failed r index amount last tries (.invalid x) now, b) := by
  cases h with
  | broken step =>
      obtain ⟨now, -, heq⟩ := step.refused hx
      cases heq
  | stopped step final =>
      obtain ⟨now, rfl, heq⟩ := step.refused hx
      cases heq
      exact ⟨now, rfl, rfl⟩
  | again step next =>
      obtain ⟨now, -, heq⟩ := step.refused hx
      cases heq

/-- If the request is refused, no payment is asked for and each chunk comes to an attempt that was
not made. -/
theorem ChunksRun.refused {chunks : List Msat} (hx : b.graph.refusal? r.target = some x)
    {result : Option (List Attempt × Books)}
    (h : ChunksRun timeout r index chunks b record result) :
    callsIn record = [] ∧ ∀ attempts b', result = some (attempts, b') →
      attempts.length = chunks.length ∧
        ∀ a ∈ attempts, a.error = some (Failure.invalid x).record := by
  induction h with
  | nil =>
      refine ⟨rfl, fun attempts b' heq => ?_⟩
      cases heq
      exact ⟨rfl, nofun⟩
  | broken chunk =>
      obtain ⟨now, -, heq⟩ := chunk.refused hx
      cases heq
  | unrecorded chunk lost =>
      obtain ⟨now, rfl, -⟩ := chunk.refused hx
      exact ⟨rfl, nofun⟩
  | @cons index amount rest b₀ b₁ b₂ first second attempt result chunk kept next ih =>
      obtain ⟨now, rfl, heq⟩ := chunk.refused hx
      cases heq
      -- The books are still those of the start, but for the attempt in the history.
      obtain ⟨hcalls, hrest⟩ := ih (by rw [graph_recordAttempt kept]; exact hx)
      refine ⟨by rw [callsIn_append, hcalls]; rfl, fun attempts b' heq => ?_⟩
      obtain ⟨⟨others, b₃⟩, hothers, heq⟩ := Option.map_eq_some_iff.mp heq
      cases heq
      obtain ⟨hlength, herror⟩ := hrest others b' hothers
      refine ⟨congrArg (· + 1) hlength, fun a ha => ?_⟩
      rcases List.mem_cons.mp ha with rfl | ha
      · rfl
      · exact herror a ha

/-! ## Runs in which no lookup refuses -/

theorem TryRun.not_invalid (hx : b.graph.refusal? r.target = none) {again : Option Route}
    (h : TryRun timeout r index amount tries last b record (some (attempt, again, b'))) :
    ¬ attempt.IsInvalid := by
  intro hkind
  have recorded : ∀ {f : Failure}, some f.record.kind = some "invalid_request" →
      ∃ x, f = .invalid x := fun h => Failure.kind_eq_invalid_iff.mp (Option.some.inj h)
  cases h with
  | noRoute failure now found =>
      obtain ⟨x, rfl⟩ := recorded hkind
      cases hx.symm.trans (lookup_eq_invalid_iff.mp found)
  | tooDear route now found dear =>
      obtain ⟨x, hf⟩ := recorded hkind
      cases hf
  | moved route found cheap paid now => cases hkind
  | failed route found cheap paid now =>
      obtain ⟨x, hf⟩ := recorded hkind
      cases hf

theorem TriesRun.not_invalid (hx : b.graph.refusal? r.target = none)
    (h : TriesRun timeout r index amount more tries last b record (some (attempt, b'))) :
    ¬ attempt.IsInvalid := by
  induction h using TriesRun.ended_induction with
  | stopped step final => exact step.not_invalid hx
  | again step next ih =>
      exact ih ((step.unmoved.graph.sameChannels.refusal? r.target).trans hx)

theorem ChunksRun.not_invalid {chunks : List Msat} {attempts : List Attempt}
    (hx : b.graph.refusal? r.target = none)
    (h : ChunksRun timeout r index chunks b record (some (attempts, b'))) :
    ∀ a ∈ attempts, ¬ a.IsInvalid := by
  induction h using ChunksRun.ended_induction with
  | nil => exact nofun
  | @cons _ _ _ _ _ b₂ _ _ _ _ _ chunk kept next ih =>
      have hgraph : b₂.graph.refusal? r.target = none := by
        rw [graph_recordAttempt kept, chunk.outcome.sameChannels.refusal?, hx]
      intro a ha
      rcases List.mem_cons.mp ha with rfl | ha
      · exact chunk.not_invalid hx
      · exact ih hgraph a ha

/-! ## What is kept on disk -/

theorem ChunkOutcome.rows (h : ChunkOutcome r index amount b attempt b') :
    b'.store.attempts = b.store.attempts := by
  cases h with
  | @moved b₁ b' route fee tries day now before found cheap settles =>
      obtain ⟨costs, -, heq⟩ := Option.map_eq_some_iff.mp settles.store
      have hbefore : b₁.store.attempts = b.store.attempts := by rw [before.store]
      rw [← heq]
      exact hbefore
  | failed unmoved => exact congrArg Store.attempts unmoved.store

/-- Recording an attempt writes no other row. -/
theorem rows_recordAttempt (h : b.recordAttempt attempt = some b') {row : AttemptRow}
    (hrow : row ∈ b'.store.attempts) : row ∈ b.store.attempts ∨ row = .ofAttempt attempt := by
  obtain ⟨⟨history, store⟩, hrecord, rfl⟩ := Option.map_eq_some_iff.mp h
  obtain ⟨cutoff, -, heq⟩ := Option.bind_eq_some_iff.mp hrecord
  cases heq
  have hput : row ∈ b.store.attempts.put (.ofAttempt attempt) :=
    (List.mem_filter.mp (List.mem_filter.mp hrow).1).1
  rcases List.mem_append.mp hput with hold | hnew
  · exact Or.inl (List.mem_filter.mp hold).1
  · exact Or.inr (List.mem_singleton.mp hnew)

/-- Every row that was not there before is that of one of the attempts. -/
theorem ChunksRun.rows {chunks : List Msat} {attempts : List Attempt}
    (h : ChunksRun timeout r index chunks b record (some (attempts, b'))) {row : AttemptRow}
    (hrow : row ∈ b'.store.attempts) :
    row ∈ b.store.attempts ∨ ∃ a ∈ attempts, row = .ofAttempt a := by
  induction h using ChunksRun.ended_induction with
  | nil => exact Or.inl hrow
  | cons chunk kept next ih =>
      rcases ih hrow with hold | ⟨a, ha, rfl⟩
      · rcases rows_recordAttempt kept hold with hold | rfl
        · rw [chunk.outcome.rows] at hold
          exact Or.inl hold
        · exact Or.inr ⟨_, List.mem_cons_self, rfl⟩
      · exact Or.inr ⟨a, List.mem_cons_of_mem _ ha, rfl⟩

/-! ## A whole request -/

theorem runs_execute_refused (hx : b.graph.refusal? r.target = some x)
    {result : Option (Summary × Books)} (h : (execute timeout r b).Runs record result) :
    callsIn record = [] ∧ ∀ summary b', result = some (summary, b') →
      summary.attempts.length = r.chunks.length ∧
        ∀ a ∈ summary.attempts, a.error = some (Failure.invalid x).record := by
  cases runs_execute_iff.mp h with
  | broken start chunks => exact ⟨(chunks.refused hx).1, nofun⟩
  | @finished start stop record attempts b₁ chunks =>
      obtain ⟨hcalls, hattempts⟩ := chunks.refused hx
      refine ⟨(callsIn_append record _).trans (by rw [hcalls]; rfl), fun summary b' heq => ?_⟩
      obtain ⟨summary', hsummary, heq⟩ := Option.map_eq_some_iff.mp heq
      cases heq
      rw [(Summary.eq_of_ofAttempts? hsummary).1]
      exact hattempts attempts b₁ rfl

/-- If the request is not refused, it leaves no attempt at an invalid request: not in the summary,
not in memory and not on disk. -/
theorem runs_execute_not_invalid (hx : b.graph.refusal? r.target = none) {summary : Summary}
    (h : (execute timeout r b).Runs record (some (summary, b'))) :
    (∀ a ∈ summary.attempts, ¬ a.IsInvalid) ∧
      (∀ a ∈ b'.history.recent, a ∈ b.history.recent ∨ ¬ a.IsInvalid) ∧
      ∀ row ∈ b'.store.attempts, row ∈ b.store.attempts ∨ ¬ row.IsInvalid := by
  obtain ⟨_, _, middle, attempts, -, chunks, hsummary⟩ := exists_chunks_of_runs h
  have hvalid := chunks.not_invalid hx
  refine ⟨(Summary.eq_of_ofAttempts? hsummary).1 ▸ hvalid, fun a ha => ?_, fun row hrow => ?_⟩
  · exact (chunks.recent ha).imp_right (hvalid a)
  · refine (chunks.rows hrow).imp_right ?_
    rintro ⟨a, ha, rfl⟩
    exact hvalid a ha

end Execution

end Rebalancer
