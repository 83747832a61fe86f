set_option autoImplicit false

/-! # Dialogues

A computation that asks questions of the world outside and goes on with the answers. Because the
questions are data, a statement about all answers is a statement about all continuations, and the
same computation runs against a real node, another dialogue or a script. A dialogue may break off
without a result; then nothing that follows it is carried out.
-/

namespace Rebalancer

/-- The questions that can be asked, with the type of the answer to each. -/
structure Interface where
  Question : Type
  Answer : Question → Type

/-- A computation of an `α` that asks questions of `I` on the way. -/
inductive Dialogue (I : Interface) (α : Type) : Type
  | done (a : α)
  /-- The end without a result. -/
  | halt
  | ask (q : I.Question) (next : I.Answer q → Dialogue I α)

namespace Dialogue

variable {I : Interface} {α β : Type}

/-- Questions with their answers, in the order in which they were asked. -/
abbrev Record (I : Interface) : Type := List ((q : I.Question) × I.Answer q)

/-- Asks one question. -/
def question (q : I.Question) : Dialogue I (I.Answer q) := ask q done

/-- The value, if there is one; otherwise the dialogue breaks off. -/
def ofOption : Option α → Dialogue I α
  | some a => done a
  | none => halt

/-- Goes on with the result. -/
def bind : Dialogue I α → (α → Dialogue I β) → Dialogue I β
  | done a, f => f a
  | halt, _ => halt
  | ask q next, f => ask q fun r => (next r).bind f

instance : Monad (Dialogue I) where
  pure := done
  bind := bind

/-- Runs a dialogue, with `answer` giving the answers. There is no result if it breaks off. -/
def run {m : Type → Type} [Monad m] (answer : (q : I.Question) → m (I.Answer q)) :
    Dialogue I α → m (Option α)
  | done a => pure (some a)
  | halt => pure none
  | ask q next => do (next (← answer q)).run answer

@[simp] theorem pure_eq (a : α) : (pure a : Dialogue I α) = done a := rfl

@[simp] theorem bind_done (a : α) (f : α → Dialogue I β) : (done a >>= f) = f a := rfl

@[simp] theorem bind_halt (f : α → Dialogue I β) : (halt >>= f) = halt := rfl

@[simp] theorem bind_ask (q : I.Question) (next : I.Answer q → Dialogue I α)
    (f : α → Dialogue I β) : (ask q next >>= f) = ask q fun r => next r >>= f := rfl

@[simp] theorem bind_question (q : I.Question) (f : I.Answer q → Dialogue I β) :
    (question q >>= f) = ask q f := rfl

@[simp] theorem ofOption_some (a : α) : (ofOption (some a) : Dialogue I α) = done a := rfl

@[simp] theorem ofOption_none : (ofOption none : Dialogue I α) = halt := rfl

end Dialogue

end Rebalancer
