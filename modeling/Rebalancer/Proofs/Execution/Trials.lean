import Mathlib.Data.List.Chain
import Rebalancer.Proofs.Execution.Bounds

set_option autoImplicit false

/-! # The tries of a run

A run of a request is made of tries, one right after the other (`InTurn`). Each starts from the
books that the one before has left: either as another try at the same chunk, over the route that was
taken to fail, or at the next chunk, after the attempt was recorded (`Trial.Follows`).
-/

namespace Rebalancer

/-- One try at a chunk: its number among the tries at the chunk, the route of the one before, the
books it starts from, what is exchanged and what comes of it. -/
structure Trial where
  index : Nat
  amount : Msat
  tries : Nat
  last : Option Route
  before : Books
  record : Exchanges
  result : Option (Attempt × Option Route × Books)

namespace Trial

/-- The try is one at a chunk of `r`. -/
structure IsMade (timeout : UInt64) (r : Request) (t : Trial) : Prop where
  chunk : r.chunks[t.index]? = some t.amount
  runs : (Execution.tryChunk timeout r t.index t.amount t.tries t.last t.before).Runs t.record
    t.result

/-- The try is number `tries` at chunk `index`, after one over `last`, and starts from `b`. -/
structure StartsAt (t : Trial) (index tries : Nat) (last : Option Route) (b : Books) : Prop where
  index : t.index = index
  tries : t.tries = tries
  last : t.last = last
  before : t.before = b

/-- The try is the last one at its chunk and gives this attempt. -/
def EndsWith (r : Request) (t : Trial) (attempt : Attempt) (b : Books) : Prop :=
  ∃ again, t.result = some (attempt, again, b) ∧ (t.tries = r.attempts ∨ again = none)

/-- What follows a try is another one at the same chunk, or the first one at the next chunk. -/
inductive Follows (r : Request) (t next : Trial) : Prop
  | again {attempt : Attempt} {route : Route} {b : Books}
      (failed : t.result = some (attempt, some route, b)) (more : t.tries < r.attempts)
      (here : next.StartsAt t.index (t.tries + 1) (some route) b)
  | onward {attempt : Attempt} {b b' : Books} (ended : t.EndsWith r attempt b)
      (kept : b.recordAttempt attempt = some b')
      (here : next.StartsAt (t.index + 1) 1 none b')

end Trial

namespace Execution

/-- Tries at the chunks of `r`, one after the other from chunk `index` and its try number `tries`
on. -/
structure InTurn (timeout : UInt64) (r : Request) (index tries : Nat) (last : Option Route)
    (b : Books) (record : Exchanges) (trials : List Trial) : Prop where
  head : ∀ t ∈ trials.head?, t.StartsAt index tries last b
  made : ∀ t ∈ trials, t.IsMade timeout r
  chain : trials.IsChain (Trial.Follows r)
  record_eq : record = trials.flatMap Trial.record

variable {timeout : UInt64} {r : Request} {index tries more : Nat} {amount : Msat}
  {last : Option Route} {b b' : Books} {record : Exchanges} {trials : List Trial}

theorem InTurn.singleton {t : Trial} (h : t.IsMade timeout r) :
    InTurn timeout r t.index t.tries t.last t.before t.record [t] where
  head := by
    intro t' ht'
    cases ht'
    exact ⟨rfl, rfl, rfl, rfl⟩
  made := by simpa using h
  chain := .singleton t
  record_eq := (List.append_nil t.record).symm

/-- One list of tries goes on with another if the first of these follows the last of those. -/
theorem InTurn.append {index' tries' : Nat} {last' : Option Route} {record' : Exchanges}
    {trials' : List Trial} (h : InTurn timeout r index tries last b record trials)
    (h' : InTurn timeout r index' tries' last' b' record' trials') (ne : trials ≠ [])
    (joint : ∀ t ∈ trials.getLast?, ∀ next, next.StartsAt index' tries' last' b' →
      t.Follows r next) :
    InTurn timeout r index tries last b (record ++ record') (trials ++ trials') where
  head := by
    rw [List.head?_append_of_ne_nil _ ne]
    exact h.head
  made := List.forall_mem_append.mpr ⟨h.made, h'.made⟩
  chain := h.chain.append h'.chain fun t ht next hnext => joint t ht next (h'.head next hnext)
  record_eq := by rw [h.record_eq, h'.record_eq, List.flatMap_append]

/-- The tries at one chunk. -/
theorem TriesRun.exists_trials {result : Option (Attempt × Books)}
    (h : TriesRun timeout r index amount more tries last b record result)
    (chunk : r.chunks[index]? = some amount) (bound : tries + more = r.attempts) :
    ∃ trials, trials ≠ [] ∧ InTurn timeout r index tries last b record trials ∧
      ∀ attempt b', result = some (attempt, b') →
        ∀ t ∈ trials.getLast?, t.index = index ∧ t.EndsWith r attempt b' := by
  induction h with
  | @broken more tries last b record step =>
      let t : Trial := ⟨index, amount, tries, last, b, record, none⟩
      have made : t.IsMade timeout r := ⟨chunk, runs_tryChunk_iff.mpr step⟩
      exact ⟨[t], List.cons_ne_nil _ _, .singleton made, by simp⟩
  | @stopped more tries last b b' record attempt again step final =>
      let t : Trial := ⟨index, amount, tries, last, b, record, some (attempt, again, b')⟩
      have made : t.IsMade timeout r := ⟨chunk, runs_tryChunk_iff.mpr step⟩
      refine ⟨[t], List.cons_ne_nil _ _, .singleton made, ?_⟩
      intro attempt' b'' heq t' ht'
      cases heq
      cases ht'
      have hfinal : tries = r.attempts ∨ again = none := final.imp_left fun hmore => by omega
      exact ⟨rfl, again, rfl, hfinal⟩
  | @again more tries last b b' first rest attempt route result step next ih =>
      let t : Trial := ⟨index, amount, tries, last, b, first, some (attempt, some route, b')⟩
      have made : t.IsMade timeout r := ⟨chunk, runs_tryChunk_iff.mpr step⟩
      obtain ⟨trials, hne, hturn, hlast⟩ := ih (by omega)
      have joined : InTurn timeout r index tries last b (first ++ rest) ([t] ++ trials) := by
        refine (InTurn.singleton made).append hturn (List.cons_ne_nil _ _) ?_
        intro t' ht' next hnext
        cases ht'
        have hmore : tries < r.attempts := by omega
        exact .again rfl hmore hnext
      refine ⟨[t] ++ trials, by simp, joined, ?_⟩
      intro attempt' b'' heq t' ht'
      rw [List.getLast?_append_of_ne_nil _ hne] at ht'
      exact hlast attempt' b'' heq t' ht'

/-- The tries at all chunks. -/
theorem ChunksRun.exists_trials {chunks : List Msat} {result : Option (List Attempt × Books)}
    (h : ChunksRun timeout r index chunks b record result) (attempts : r.attempts ≠ 0)
    (rest : r.chunks.drop index = chunks) :
    ∃ trials, InTurn timeout r index 1 none b record trials := by
  have bound : 1 + (r.attempts - 1) = r.attempts := by omega
  -- The chunk with which the run goes on is the one with this number.
  have numbered : ∀ {index amount chunks}, r.chunks.drop index = amount :: chunks →
      r.chunks[index]? = some amount ∧ r.chunks.drop (index + 1) = chunks := by
    intro index amount chunks hdrop
    have hget : (r.chunks.drop index)[0]? = some amount := by rw [hdrop]; rfl
    rw [List.getElem?_drop, Nat.add_zero] at hget
    have htail : (r.chunks.drop index).tail = chunks := by rw [hdrop]; rfl
    rw [List.tail_drop] at htail
    exact ⟨hget, htail⟩
  induction h with
  | nil => exact ⟨[], by simp, by simp, .nil, rfl⟩
  | broken chunk =>
      obtain ⟨trials, -, hturn, -⟩ := chunk.exists_trials (numbered rest).1 bound
      exact ⟨trials, hturn⟩
  | unrecorded chunk lost =>
      obtain ⟨trials, -, hturn, -⟩ := chunk.exists_trials (numbered rest).1 bound
      exact ⟨trials, hturn⟩
  | cons chunk kept next ih =>
      obtain ⟨hamount, hnext⟩ := numbered rest
      obtain ⟨trials, hne, hturn, hlast⟩ := chunk.exists_trials hamount bound
      obtain ⟨trials', hturn'⟩ := ih hnext
      refine ⟨trials ++ trials', hturn.append hturn' hne ?_⟩
      intro t ht next hnext
      obtain ⟨hindex, hends⟩ := hlast _ _ rfl t ht
      exact .onward hends kept (hindex ▸ hnext)

/-- A run of a request is made of these tries, between two looks at the stopwatch. -/
def MadeOf (timeout : UInt64) (r : Request) (b : Books) (record : Exchanges)
    (trials : List Trial) : Prop :=
  ∃ (start : UInt64) (middle stop : Exchanges),
    record = Query.stopwatch.answered start :: (middle ++ stop) ∧
    (stop = [] ∨ ∃ now, stop = [Query.stopwatch.answered now]) ∧
    InTurn timeout r 0 1 none b middle trials

theorem exists_madeOf {result : Option (Summary × Books)} (accepted : r.flaw? = none)
    (h : (execute timeout r b).Runs record result) :
    ∃ trials, MadeOf timeout r b record trials := by
  have attempts := (Request.bounds_of_accepted accepted).2.2.2.1
  cases runs_execute_iff.mp h with
  | @broken start middle chunks =>
      obtain ⟨trials, hturn⟩ := chunks.exists_trials attempts List.drop_zero
      exact ⟨trials, start, middle, [], by rw [List.append_nil], Or.inl rfl, hturn⟩
  | @finished start stop middle attempts' b' chunks =>
      obtain ⟨trials, hturn⟩ := chunks.exists_trials attempts List.drop_zero
      exact ⟨trials, start, middle, _, rfl, Or.inr ⟨stop, rfl⟩, hturn⟩

/-- What holds of the first try and is handed on from each to the next holds of all. -/
theorem InTurn.forall_mem (h : InTurn timeout r index tries last b record trials)
    {p : Books → Prop} (first : p b)
    (step : ∀ t next : Trial, t.IsMade timeout r → t.Follows r next → p t.before → p next.before) :
    ∀ t ∈ trials, p t.before := by
  have linked : trials.IsChain fun t next => t.IsMade timeout r ∧ t.Follows r next :=
    h.chain.imp_of_mem_imp fun t next ht _ hnext => ⟨h.made t ht, hnext⟩
  refine linked.induction (fun t => p t.before) trials (fun t next hstep => ?_) fun hne => ?_
  · exact step t next hstep.1 hstep.2
  · rw [(h.head _ (List.head?_eq_some_head hne)).before]
    exact first

/-- Every try starts from a graph in order. -/
theorem InTurn.keyed (h : InTurn timeout r index tries last b record trials)
    (hb : b.graph.Keyed) : ∀ t ∈ trials, t.before.graph.Keyed := by
  refine h.forall_mem (p := fun b => b.graph.Keyed) hb fun t next made follows hkeyed => ?_
  have left : ∀ {attempt again b'}, t.result = some (attempt, again, b') → b'.graph.Keyed := by
    intro attempt again b' hresult
    have step := runs_tryChunk_iff.mp made.runs
    rw [hresult] at step
    exact step.outcome.keyed hkeyed
  cases follows with
  | again failed more here =>
      rw [here.before]
      exact left failed
  | onward ended kept here =>
      obtain ⟨again, hresult, -⟩ := ended
      rw [here.before, graph_recordAttempt kept]
      exact left hresult

end Execution

end Rebalancer
