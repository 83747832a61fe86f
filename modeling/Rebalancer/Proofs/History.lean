import Rebalancer.History
import Rebalancer.Proofs.Store.Attempts

set_option autoImplicit false

/-! # The history in memory and on disk

In memory the history keeps the attempts since the last deletion, as many as the capacity allows.
The table keeps as many, by time and row, but drops those past retention whenever an attempt is
recorded. So the table may lack attempts that are in memory, but only such as are past retention by
then, and no time to come brings them back (`Mirrors`). When the history is taken up again from the
table, it is the one in memory without the attempts past retention (`reopened_mirrors`). A time
whose cutoff does not fit a signed word breaks this off.
-/

namespace Rebalancer

/-- What is done to a history. -/
inductive HistoryEvent
  | record (a : Attempt)
  | delete

/-- The attempts that are recorded, in order. -/
def recorded (events : List HistoryEvent) : List Attempt :=
  events.filterMap fun
    | .record a => some a
    | .delete => none

/-- The attempts since the last deletion after an event. -/
def sinceAfter (since : List Attempt) : HistoryEvent → List Attempt
  | .record a => since ++ [a]
  | .delete => []

/-- The attempts since the last deletion, in order. -/
def sinceDeletion (events : List HistoryEvent) : List Attempt := events.foldl sinceAfter []

theorem sublist_foldl_sinceAfter (events : List HistoryEvent) (since : List Attempt) :
    (events.foldl sinceAfter since).Sublist (since ++ recorded events) := by
  induction events generalizing since with
  | nil => exact List.sublist_append_left since []
  | cons event rest ih =>
      cases event with
      | record a =>
          have hrest := ih (since ++ [a])
          rw [List.append_assoc] at hrest
          exact hrest
      | delete => exact (ih []).trans (List.sublist_append_right since _)

/-- Attempts in the order of time, no two with one identifier, over channels whose ids have no
comma. -/
structure Orderly (attempts : List Attempt) : Prop where
  in_time : attempts.Pairwise fun a b => a.createdAt ≤ b.createdAt
  distinct : (attempts.map (·.id)).Nodup
  comma_free : ∀ a ∈ attempts, CommaFree a.route

theorem Orderly.sublist {attempts attempts' : List Attempt} (h : Orderly attempts)
    (hs : attempts'.Sublist attempts) : Orderly attempts' :=
  ⟨h.in_time.sublist hs, h.distinct.sublist (hs.map _), fun a ha => h.comma_free a (hs.subset ha)⟩

/-! ## Cutoffs -/

/-- The attempts not before the cutoff. -/
def notBefore (cutoff : Time) (attempts : List Attempt) : List Attempt :=
  attempts.filter (cutoff ≤ ·.createdAt)

section Cutoff

variable {cutoff cutoff' : Time} {attempts : List Attempt} {capacity : Nat}

/-- The later of two cutoffs counts. -/
theorem notBefore_notBefore (h : cutoff ≤ cutoff') (attempts : List Attempt) :
    notBefore cutoff' (notBefore cutoff attempts) = notBefore cutoff' attempts := by
  unfold notBefore
  rw [List.filter_filter]
  refine List.filter_congr fun a _ => ?_
  rw [Bool.and_eq_left_iff_imp, decide_eq_true_eq, decide_eq_true_eq]
  exact fun hle => Int.le_trans h hle

/-- In the order of time it is the same to drop what is too old and what is too much. -/
theorem rtake_notBefore (h : attempts.Pairwise fun a b => a.createdAt ≤ b.createdAt)
    (capacity : Nat) (cutoff : Time) :
    (notBefore cutoff attempts).rtake capacity = notBefore cutoff (attempts.rtake capacity) := by
  refine rtake_filter (h.imp fun hle hp => ?_) capacity
  rw [decide_eq_true_eq] at hp ⊢
  exact Int.le_trans hp hle

/-- The table with these attempts. -/
def rowsOf (attempts : List Attempt) : AttemptRows := attempts.map AttemptRow.ofAttempt

theorem Orderly.ordered (h : Orderly attempts) : (rowsOf attempts).Ordered := by
  constructor
  · exact List.pairwise_map.mpr h.in_time
  · rw [rowsOf, List.map_map]
    exact h.distinct

theorem put_rowsOf {a : Attempt} (h : Orderly (attempts ++ [a])) :
    (rowsOf attempts).put (.ofAttempt a) = rowsOf (attempts ++ [a]) := by
  have hdistinct := h.distinct
  rw [List.map_append, List.nodup_append] at hdistinct
  rw [AttemptRows.put_of_new, rowsOf, rowsOf, List.map_append]
  · rfl
  · intro row hrow
    obtain ⟨b, hb, rfl⟩ := List.mem_map.mp hrow
    exact hdistinct.2.2 b.id (List.mem_map_of_mem hb) a.id List.mem_cons_self

theorem prune_rowsOf (h : Orderly attempts) (capacity : Nat) (cutoff : Time) :
    (rowsOf attempts).prune capacity cutoff =
      rowsOf ((notBefore cutoff attempts).rtake capacity) := by
  rw [AttemptRows.prune_eq h.ordered, rowsOf, List.filter_map, rtake_map]
  rfl

theorem newest_rowsOf (h : Orderly attempts) (hlength : attempts.length ≤ capacity) :
    ((rowsOf attempts).newest capacity).map AttemptRow.attempt = attempts := by
  rw [AttemptRows.newest_eq h.ordered, rowsOf, rtake_map, rtake_of_length_le hlength, List.map_map]
  calc attempts.map (AttemptRow.attempt ∘ AttemptRow.ofAttempt)
      = attempts.map id :=
        List.map_congr_left fun a ha => AttemptRow.attempt_ofAttempt (h.comma_free a ha)
    _ = attempts := List.map_id attempts

end Cutoff

namespace History

variable {h h' : History} {s s' : Store} {a : Attempt} {since : List Attempt}

/-! ## Memory and table -/

/-- `since` are the attempts since the last deletion. The history has the newest of them, and so has
the table as far as they are not before any cutoff that may come. -/
structure Mirrors (since : List Attempt) (h : History) (s : Store) : Prop where
  recent : h.recent = since.rtake h.capacity
  rows : ∃ kept, s.attempts = rowsOf kept ∧ kept.Sublist since ∧
    ∀ cutoff, (∀ b ∈ since, b.createdAt - h.retention ≤ cutoff) →
      notBefore cutoff kept = notBefore cutoff h.recent

theorem mirrors_nil (hrecent : h.recent = []) (hrows : s.attempts = []) : Mirrors [] h s := by
  constructor
  · rw [hrecent]
    simp
  · exact ⟨[], hrows, List.nil_sublist _, fun _ _ => by rw [hrecent]⟩

theorem record_eq_some (fits : fitsSigned (a.createdAt - h.retention) = true) :
    h.record s a = some ({ h with recent := (h.recent ++ [a]).rtake h.capacity },
      s.recordAttempt a h.capacity (a.createdAt - h.retention)) := by
  have hcutoff : h.cutoff? a.createdAt = some (a.createdAt - h.retention) := if_pos fits
  rw [record, hcutoff]
  rfl

theorem start_eq_some {capacity : Nat} {days : UInt64} {now : Time}
    (fits : fitsSigned (now - retentionOf days) = true) (pos : 1 ≤ capacity) :
    start s capacity days now =
      some (⟨capacity, retentionOf days,
          ((s.attempts.prune capacity (now - retentionOf days)).newest capacity).map
            AttemptRow.attempt⟩,
        { s with attempts := s.attempts.prune capacity (now - retentionOf days) }) := by
  have hcutoff : fitSigned? (now - retentionOf days) = some (now - retentionOf days) := if_pos fits
  rw [start, Nat.max_eq_left pos, hcutoff]
  rfl

theorem start_of_empty {capacity : Nat} {days : UInt64} {now : Time} (fresh : s.attempts = [])
    (pos : 1 ≤ capacity) (fits : fitsSigned (now - retentionOf days) = true) :
    start s capacity days now =
      some (⟨capacity, retentionOf days, []⟩, { s with attempts := [] }) := by
  have hempty : Orderly [] := ⟨.nil, .nil, nofun⟩
  have hpruned : s.attempts.prune capacity (now - retentionOf days) = rowsOf [] := by
    rw [fresh]
    exact (prune_rowsOf hempty capacity _).trans (by simp [notBefore])
  rw [start_eq_some fits pos, hpruned, newest_rowsOf hempty (Nat.zero_le capacity)]
  rfl

/-- A further attempt. -/
theorem Mirrors.record (hm : Mirrors since h s) (orderly : Orderly (since ++ [a]))
    (fits : fitsSigned (a.createdAt - h.retention) = true) :
    ∃ h' s', h.record s a = some (h', s') ∧ h'.capacity = h.capacity ∧
      h'.retention = h.retention ∧ Mirrors (since ++ [a]) h' s' := by
  obtain ⟨kept, hrows, hsub, hkept⟩ := hm.rows
  set cutoff := a.createdAt - h.retention with hcutoff
  have hsub' : (kept ++ [a]).Sublist (since ++ [a]) := hsub.append_right [a]
  have hnewest : ((h.recent ++ [a]).rtake h.capacity) = (since ++ [a]).rtake h.capacity := by
    rw [hm.recent, rtake_rtake_append]
  -- No attempt before this one is later, so its cutoff is one that may come.
  have hcome : ∀ b ∈ since, b.createdAt - h.retention ≤ cutoff := by
    intro b hb
    have hle : b.createdAt ≤ a.createdAt :=
      (List.pairwise_append.mp orderly.in_time).2.2 b hb a List.mem_cons_self
    exact Int.sub_le_sub_right hle _
  have hsame : notBefore cutoff (kept ++ [a]) = notBefore cutoff (h.recent ++ [a]) := by
    unfold notBefore at hkept ⊢
    rw [List.filter_append, List.filter_append, hkept cutoff hcome]
  have hsorted : (h.recent ++ [a]).Pairwise fun b c => b.createdAt ≤ c.createdAt := by
    rw [hm.recent]
    exact orderly.in_time.sublist ((rtake_suffix since h.capacity).sublist.append_right [a])
  have hpruned : (notBefore cutoff (kept ++ [a])).rtake h.capacity =
      notBefore cutoff ((since ++ [a]).rtake h.capacity) := by
    rw [hsame, rtake_notBefore hsorted, hnewest]
  refine ⟨_, _, record_eq_some fits, rfl, rfl, hnewest, ?_⟩
  refine ⟨notBefore cutoff ((since ++ [a]).rtake h.capacity), ?_, ?_, ?_⟩
  · show (s.attempts.put (.ofAttempt a)).prune h.capacity cutoff = _
    rw [hrows, put_rowsOf (orderly.sublist hsub'), prune_rowsOf (orderly.sublist hsub'), hpruned]
  · exact List.filter_sublist.trans (rtake_suffix _ _).sublist
  · intro cutoff' hcutoff'
    have hle : cutoff ≤ cutoff' := hcutoff' a (by simp)
    rw [notBefore_notBefore hle]
    exact congrArg (notBefore cutoff') hnewest.symm

/-- Taking the history up again. -/
theorem Mirrors.start (hm : Mirrors since h s) (orderly : Orderly since) (pos : 1 ≤ h.capacity)
    {days : UInt64} {now : Time} (hdays : h.retention = retentionOf days)
    (later : ∀ b ∈ since, b.createdAt ≤ now)
    (fits : fitsSigned (now - retentionOf days) = true) :
    ∃ h' s', start s h.capacity days now = some (h', s') ∧
      h'.recent = notBefore (now - retentionOf days) h.recent := by
  obtain ⟨kept, hrows, hsub, hkept⟩ := hm.rows
  rw [hdays] at hkept
  have hcome : ∀ b ∈ since, b.createdAt - retentionOf days ≤ now - retentionOf days :=
    fun b hb => Int.sub_le_sub_right (later b hb) _
  have hlength : (notBefore (now - retentionOf days) h.recent).length ≤ h.capacity := by
    have hrecent : h.recent.length ≤ h.capacity := by
      rw [hm.recent]
      exact length_rtake_le since h.capacity
    exact Nat.le_trans (List.length_filter_le _ _) hrecent
  have hpruned : s.attempts.prune h.capacity (now - retentionOf days) =
      rowsOf (notBefore (now - retentionOf days) h.recent) := by
    rw [hrows, prune_rowsOf (orderly.sublist hsub), hkept _ hcome, rtake_of_length_le hlength]
  have horderly : Orderly (notBefore (now - retentionOf days) h.recent) := by
    rw [hm.recent]
    exact orderly.sublist (List.filter_sublist.trans (rtake_suffix _ _).sublist)
  refine ⟨_, _, start_eq_some fits pos, ?_⟩
  show ((s.attempts.prune h.capacity _).newest h.capacity).map AttemptRow.attempt = _
  rw [hpruned, newest_rowsOf horderly hlength]

/-! ## Runs -/

/-- The history and the store after an event, unless retention reaches back before all times. -/
def after? (kept : History × Store) : HistoryEvent → Option (History × Store)
  | .record a => kept.1.record kept.2 a
  | .delete => some (kept.1.delete kept.2).2

/-- The history and the store after events, one after the other. -/
def afterAll? (kept : History × Store) (events : List HistoryEvent) : Option (History × Store) :=
  events.foldlM after? kept

/-- Whatever is recorded and deleted, the history has the newest attempts since the last deletion,
and the table mirrors it. -/
theorem Mirrors.afterAll {past : List Attempt} {events : List HistoryEvent}
    (hm : Mirrors since h s) (hsince : since.Sublist past)
    (orderly : Orderly (past ++ recorded events))
    (fits : ∀ a ∈ recorded events, fitsSigned (a.createdAt - h.retention) = true) :
    ∃ h' s', afterAll? (h, s) events = some (h', s') ∧ h'.capacity = h.capacity ∧
      h'.retention = h.retention ∧ Mirrors (events.foldl sinceAfter since) h' s' := by
  induction events generalizing h s since past with
  | nil => exact ⟨h, s, rfl, rfl, rfl, hm⟩
  | cons event rest ih =>
      cases event with
      | record a =>
          have hrest : Orderly ((past ++ [a]) ++ recorded rest) := by
            rw [List.append_assoc]
            exact orderly
          have hsince' : (since ++ [a]).Sublist (past ++ [a]) := hsince.append_right [a]
          have hnow : Orderly (since ++ [a]) :=
            (hrest.sublist (List.sublist_append_left _ _)).sublist hsince'
          obtain ⟨h₁, s₁, hrecord, hcapacity, hretention, hm₁⟩ :=
            hm.record hnow (fits a List.mem_cons_self)
          obtain ⟨h₂, s₂, hruns, hcapacity', hretention', hm₂⟩ := ih hm₁ hsince' hrest
            fun b hb => by rw [hretention]; exact fits b (List.mem_cons_of_mem a hb)
          refine ⟨h₂, s₂, ?_, hcapacity'.trans hcapacity, hretention'.trans hretention, hm₂⟩
          show (h.record s a >>= fun kept => afterAll? kept rest) = _
          rw [hrecord]
          exact hruns
      | delete =>
          have hm₁ : Mirrors [] { h with recent := [] } { s with attempts := [], costs := ∅ } :=
            mirrors_nil rfl rfl
          exact ih hm₁ (List.nil_sublist past) orderly fits

/-- From an empty table on, the history has just the newest attempts since the last deletion. Taken
up again from the table at any time that is not before an attempt, it is the same history without
the attempts past retention. -/
theorem reopened_mirrors {capacity : Nat} {days : UInt64} {first now : Time}
    {events : List HistoryEvent} (fresh : s.attempts = []) (pos : 1 ≤ capacity)
    (orderly : Orderly (recorded events)) (later : ∀ a ∈ recorded events, a.createdAt ≤ now)
    (fits : ∀ t ∈ first :: now :: (recorded events).map (·.createdAt),
      fitsSigned (t - retentionOf days) = true) :
    ∃ h' s', (start s capacity days first).bind (afterAll? · events) = some (h', s') ∧
      h'.recent = (sinceDeletion events).rtake capacity ∧
      ∃ h'' s'', start s' capacity days now = some (h'', s'') ∧
        h''.recent = h'.recent.filter (now - retentionOf days ≤ ·.createdAt) := by
  have hm₀ : Mirrors [] ⟨capacity, retentionOf days, []⟩ { s with attempts := [] } :=
    mirrors_nil rfl rfl
  obtain ⟨h', s', hruns, hcapacity, hretention, hm⟩ :=
    hm₀.afterAll (List.Sublist.refl []) orderly fun a ha => fits a.createdAt
      (List.mem_cons_of_mem _ (List.mem_cons_of_mem _ (List.mem_map_of_mem ha)))
  have hcapacity' : h'.capacity = capacity := hcapacity
  have hsub : (sinceDeletion events).Sublist (recorded events) := sublist_foldl_sinceAfter events []
  obtain ⟨h'', s'', hreopened, hrecent⟩ := hm.start (orderly.sublist hsub)
    (by rw [hcapacity']; exact pos) hretention (fun a ha => later a (hsub.subset ha))
    (fits now (by simp))
  rw [hcapacity'] at hreopened
  refine ⟨h', s', ?_, ?_, h'', s'', hreopened, hrecent⟩
  · rw [start_of_empty fresh pos (fits first (by simp))]
    exact hruns
  · rw [← hcapacity']
    exact hm.recent

/-- A failed attempt at this time. -/
def attemptAt (id : String) (time : Time) : Attempt where
  id := id
  requestId := "r"
  mode := .pull
  amount := 1000
  exit := some "1x1"
  entry := some "2x1"
  route := [⟨"1x1", 0⟩, ⟨"2x1", 1⟩]
  fee := 0
  tries := 2
  success := false
  error := some ⟨"payment_failed", "payment failed: WIRE_FEE_INSUFFICIENT"⟩
  createdAt := time

/-- Four attempts on two days, the first of which is deleted. -/
def twoDays : List HistoryEvent :=
  [.record (attemptAt "r-0" 0), .delete, .record (attemptAt "r-1" 0),
    .record (attemptAt "r-2" 50000), .record (attemptAt "r-3" 90000)]

/-- Of the three attempts that are left, two are kept in memory, and on the third day one of them is
past retention. -/
theorem reopened_mirrors_twoDays :
    ∃ h' s', (start {} 2 1 0).bind (afterAll? · twoDays) = some (h', s') ∧
      h'.recent = [attemptAt "r-2" 50000, attemptAt "r-3" 90000] ∧
      ∃ h'' s'', start s' 2 1 140000 = some (h'', s'') ∧
        h''.recent = [attemptAt "r-3" 90000] := by
  have orderly : Orderly (recorded twoDays) := ⟨by decide, by decide, by decide +kernel⟩
  obtain ⟨h', s', hruns, hrecent, h'', s'', hreopened, hrecent'⟩ :=
    @reopened_mirrors {} 2 1 0 140000 twoDays rfl (by decide) orderly (by decide)
      (by decide +kernel)
  refine ⟨h', s', hruns, hrecent, h'', s'', hreopened, ?_⟩
  rw [hrecent', hrecent]
  decide +kernel

/-- An attempt from before 1970, when all attempts are kept for as long as there are times: its
cutoff is before all times. -/
theorem record_breaks_off :
    0 ≤ retentionOf 0x7FFFFFFFFFFFFFFF ∧ Orderly (recorded [.record (attemptAt "r-0" (-2))]) ∧
      (∀ a ∈ recorded [.record (attemptAt "r-0" (-2))], a.createdAt ≤ 0) ∧
      (start {} 1 0x7FFFFFFFFFFFFFFF 0).isSome = true ∧
      (start {} 1 0x7FFFFFFFFFFFFFFF 0).bind
        (afterAll? · [.record (attemptAt "r-0" (-2))]) = none := by
  have orderly : Orderly (recorded [.record (attemptAt "r-0" (-2))]) :=
    ⟨by decide, by decide, by decide +kernel⟩
  have hstart := @start_of_empty {} 1 0x7FFFFFFFFFFFFFFF 0 rfl (by decide) (by decide +kernel)
  refine ⟨by decide +kernel, orderly, by decide, ?_, ?_⟩
  · rw [hstart]
    rfl
  · rw [hstart]
    decide +kernel

end History

end Rebalancer
