import Rebalancer.Dialogue

set_option autoImplicit false

/-! # Runs of a dialogue

A run is one way a dialogue can go: what was asked, what was answered, and what came of it. A
dialogue has a run for every way of answering (`runs_transcript`), so a statement about every
sequence of answers is a statement about every run. A run of two dialogues in a row is a run of the
first followed by one of the second, unless the first breaks off (`runs_bind`).
-/

namespace Rebalancer.Dialogue

variable {I : Interface} {α β : Type}

/-- `d.Runs record result`: with the exchanges of `record` the dialogue ends with `result`, which
is `none` if it breaks off. -/
def Runs : Dialogue I α → Record I → Option α → Prop
  | done a, record, result => record = [] ∧ result = some a
  | halt, record, result => record = [] ∧ result = none
  | ask q next, record, result =>
    ∃ answer rest, record = ⟨q, answer⟩ :: rest ∧ (next answer).Runs rest result

@[simp] theorem runs_done {a : α} {record : Record I} {result : Option α} :
    (done a : Dialogue I α).Runs record result ↔ record = [] ∧ result = some a := Iff.rfl

@[simp] theorem runs_halt {record : Record I} {result : Option α} :
    (halt : Dialogue I α).Runs record result ↔ record = [] ∧ result = none := Iff.rfl

@[simp] theorem runs_ask {q : I.Question} {next : I.Answer q → Dialogue I α} {record : Record I}
    {result : Option α} :
    (ask q next).Runs record result ↔
      ∃ answer rest, record = ⟨q, answer⟩ :: rest ∧ (next answer).Runs rest result := Iff.rfl

@[simp] theorem runs_ofOption {o : Option α} {record : Record I} {result : Option α} :
    (ofOption o : Dialogue I α).Runs record result ↔ record = [] ∧ result = o := by
  cases o with
  | none => exact Iff.rfl
  | some a => exact Iff.rfl

/-- A run of `d` and then `f` is a run of `d` to its end and a run of `f` from there on, or a run
in which `d` breaks off. -/
theorem runs_bind {d : Dialogue I α} {f : α → Dialogue I β} {record : Record I}
    {result : Option β} :
    (d >>= f).Runs record result ↔
      (∃ first a second, record = first ++ second ∧ d.Runs first (some a) ∧
        (f a).Runs second result) ∨
      (d.Runs record none ∧ result = none) := by
  induction d generalizing record with
  | done a =>
    simp only [bind_done, runs_done, reduceCtorEq, and_false, false_and, or_false]
    constructor
    · intro hf
      exact ⟨[], a, record, rfl, ⟨rfl, rfl⟩, hf⟩
    · rintro ⟨_, _, second, rfl, ⟨rfl, ha⟩, hf⟩
      cases ha
      exact hf
  | halt => simp
  | ask q next ih =>
    simp only [bind_ask, runs_ask, ih]
    constructor
    · rintro ⟨answer, rest, rfl, ⟨first, a, second, rfl, hd, hf⟩ | ⟨hd, hr⟩⟩
      · exact Or.inl ⟨⟨q, answer⟩ :: first, a, second, rfl, ⟨answer, first, rfl, hd⟩, hf⟩
      · exact Or.inr ⟨⟨answer, rest, rfl, hd⟩, hr⟩
    · rintro (⟨_, a, second, rfl, ⟨answer, first, rfl, hd⟩, hf⟩ | ⟨⟨answer, rest, rfl, hd⟩, hr⟩)
      · exact ⟨answer, first ++ second, rfl, Or.inl ⟨first, a, second, rfl, hd, hf⟩⟩
      · exact ⟨answer, rest, rfl, Or.inr ⟨hd, hr⟩⟩

/-- To make something of what a dialogue ends with asks nothing more. -/
theorem runs_map {d : Dialogue I α} {f : α → β} {record : Record I} {result : Option β} :
    (d >>= fun a => pure (f a)).Runs record result ↔
      ∃ run, d.Runs record run ∧ run.map f = result := by
  rw [runs_bind]
  constructor
  · rintro (⟨first, a, second, rfl, hd, rfl, rfl⟩ | ⟨hd, rfl⟩)
    · rw [List.append_nil]
      exact ⟨some a, hd, rfl⟩
    · exact ⟨none, hd, rfl⟩
  · rintro ⟨run, hd, rfl⟩
    cases run with
    | none => exact Or.inr ⟨hd, rfl⟩
    | some a => exact Or.inl ⟨record, a, [], (List.append_nil record).symm, hd, rfl, rfl⟩

theorem runs_map_some {d : Dialogue I α} {f : α → β} {record : Record I} {b : β} :
    (d >>= fun a => pure (f a)).Runs record (some b) ↔
      ∃ a, d.Runs record (some a) ∧ f a = b := by
  rw [runs_map]
  constructor
  · rintro ⟨run, hd, hrun⟩
    obtain ⟨a, rfl, ha⟩ := Option.map_eq_some_iff.mp hrun
    exact ⟨a, hd, ha⟩
  · rintro ⟨a, hd, rfl⟩
    exact ⟨some a, hd, rfl⟩

/-- The run in which each question is answered by `answer`. -/
def transcript (answer : (q : I.Question) → I.Answer q) : Dialogue I α → Record I × Option α
  | done a => ([], some a)
  | halt => ([], none)
  | ask q next =>
    let (record, result) := (next (answer q)).transcript answer
    (⟨q, answer q⟩ :: record, result)

theorem runs_transcript (answer : (q : I.Question) → I.Answer q) (d : Dialogue I α) :
    d.Runs (d.transcript answer).1 (d.transcript answer).2 := by
  induction d with
  | done a => exact ⟨rfl, rfl⟩
  | halt => exact ⟨rfl, rfl⟩
  | ask q next ih => exact ⟨answer q, _, rfl, ih (answer q)⟩

end Rebalancer.Dialogue
