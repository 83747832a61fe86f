import Rebalancer.Proofs.Rejections

set_option autoImplicit false

/-! # Defaults that serve every command

The settings are checked when they are read, and every request is checked when it is made. Of what
a request is checked for, the settings are checked for a chunk that is not empty, for the hops of a
ring and for the two percentages. How an amount compares with a chunk, and how many attempts there
are, is left to the request, because a command may give the one and leave the other to the defaults.
So a command that gives nothing but its ends is accepted just if the default amount reaches the
default chunk and there is an attempt by default (`plain_accepted_iff`). That does not depend on the
command, so the defaults serve all such commands or none.
-/

namespace Rebalancer

/-! ## Plain commands -/

/-- A rebalance that names its ends and leaves every other parameter to the defaults. -/
inductive PlainCommand
  | circular (exit entry : String)
  | pull (entry : String)
  | push (exit : String)
deriving DecidableEq, Repr

namespace PlainCommand

/-- The request that the command makes, if there is nothing wrong with it. -/
def request (d : Defaults) (seed : UInt64) : PlainCommand → Except Failure Request
  | circular exit entry => ({ exit, entry } : CircularParams).request d seed
  | pull entry => ({ entry } : PullParams).request d seed
  | push exit => ({ exit } : PushParams).request d seed

/-- No end is blank, and two ends are different. -/
def NamesEnds : PlainCommand → Prop
  | circular exit entry => Text.trim exit ≠ "" ∧ Text.trim entry ≠ "" ∧ exit ≠ entry
  | pull entry => Text.trim entry ≠ ""
  | push exit => Text.trim exit ≠ ""

instance : DecidablePred NamesEnds
  | circular _ _ => inferInstanceAs (Decidable (_ ∧ _ ∧ _))
  | pull _ => inferInstanceAs (Decidable (_ ≠ _))
  | push _ => inferInstanceAs (Decidable (_ ≠ _))

/-- The target of the request. -/
def target (d : Defaults) : PlainCommand → Target
  | circular exit entry => .circular exit entry
  | pull entry => .pull entry d.maxOutRate none d.depletePercent (satoshi d.depleteAmount)
  | push exit => .push exit d.minOutRate none d.fillPercent (satoshi d.fillAmount)

theorem request_eq (c : PlainCommand) (d : Defaults) (seed : UInt64) :
    c.request d seed = ({} : ChunkParams).request (c.target d) d seed := by
  cases c with
  | circular exit entry => rfl
  | pull entry => rfl
  | push exit => rfl

end PlainCommand

/-! ## Satoshi -/

@[simp] theorem toNat_satoshi (n : UInt64) : (satoshi n).toNat = min (n.toNat * 1000) maxWord :=
  toNat_clampWord _

theorem satoshi_eq_zero_iff {n : UInt64} : satoshi n = 0 ↔ n = 0 := by
  have hmax : 0 < maxWord := by decide
  rw [← UInt64.toNat_inj, ← UInt64.toNat_inj, toNat_satoshi, UInt64.toNat_zero]
  omega

/-! ## The two checks -/

/-- Nothing is found by checks in a row just if nothing is found by the first and by the others. -/
theorem ite_some_eq_none_iff {α : Type} {p : Prop} [Decidable p] {a : α} {rest : Option α} :
    (if p then some a else rest) = none ↔ ¬ p ∧ rest = none := by
  by_cases hp : p
  · simp [hp]
  · simp [hp]

/-- What both the settings and a request that the defaults make are checked for. -/
structure Defaults.Checked (d : Defaults) : Prop where
  split : d.splitAmount ≠ 0
  hops : minHops ≤ d.maxHops
  deplete : d.depletePercent ≤ 100
  fill : d.fillPercent ≤ 100

/-- What a request is refused for that checked defaults make: only the request is checked for it. -/
def Defaults.refusal? (d : Defaults) : Option Refusal :=
  if d.amount = 0 then some .zeroAmount
  else if satoshi d.amount < satoshi d.splitAmount then some .amountBelowSplit
  else if d.attempts = 0 then some .noAttempts
  else none

variable {s : Settings} {d : Defaults} {c : PlainCommand} {seed : UInt64}
  {exists_ : String → Bool}

theorem Settings.checked_of_accepted (h : s.flaw? exists_ = none) : s.defaults.Checked := by
  simp only [flaw?, ite_some_eq_none_iff] at h
  obtain ⟨-, -, -, -, -, hsplit, hhops, hdeplete, hfill, -⟩ := h
  exact ⟨hsplit, Nat.le_of_not_lt hhops, UInt64.not_lt.mp hdeplete, UInt64.not_lt.mp hfill⟩

theorem Defaults.Checked.refusal?_eq_none_iff (checked : d.Checked) :
    d.refusal? = none ↔ d.attempts ≠ 0 ∧ satoshi d.splitAmount ≤ satoshi d.amount := by
  simp only [refusal?, ite_some_eq_none_iff, UInt64.not_lt]
  constructor
  · rintro ⟨-, hle, hattempts, -⟩
    exact ⟨hattempts, hle⟩
  · rintro ⟨hattempts, hle⟩
    refine ⟨fun hzero => checked.split ?_, hle, hattempts, trivial⟩
    -- A chunk that does not exceed an empty amount is empty.
    rw [hzero, satoshi_eq_zero_iff.mpr rfl, UInt64.le_zero_iff] at hle
    exact satoshi_eq_zero_iff.mp hle

theorem PlainCommand.targetFlaw?_target (checked : d.Checked) (named : c.NamesEnds) :
    Request.targetFlaw? (c.target d) = none := by
  cases c with
  | circular exit entry =>
      obtain ⟨hexit, hentry, hne⟩ := named
      rw [target, Request.targetFlaw?, if_neg hexit, if_neg hentry, if_neg hne]
  | pull entry =>
      rw [target, Request.targetFlaw?, if_neg named, if_neg (UInt64.not_lt.mpr checked.deplete)]
  | push exit =>
      rw [target, Request.targetFlaw?, if_neg named, if_neg (UInt64.not_lt.mpr checked.fill)]

/-- What is wrong with the request of a command that names its ends lies in the defaults. -/
theorem PlainCommand.flaw?_made (checked : d.Checked) (named : c.NamesEnds)
    (seed : UInt64) :
    (({} : ChunkParams).made (c.target d) d seed).flaw? = d.refusal? := by
  have hsplit : satoshi d.splitAmount ≠ 0 := fun h => checked.split (satoshi_eq_zero_iff.mp h)
  have hhops : ¬ d.maxHops < minHops := Nat.not_lt.mpr checked.hops
  show (if satoshi d.amount = 0 then _ else if satoshi d.splitAmount = 0 then _ else
    if satoshi d.amount < satoshi d.splitAmount then _ else if d.attempts = 0 then _ else
    if d.maxHops < minHops then _ else Request.targetFlaw? (c.target d)) = _
  rw [if_neg hsplit, if_neg hhops, targetFlaw?_target checked named]
  simp only [satoshi_eq_zero_iff]
  rfl

/-- So the request is made or refused whatever the command. -/
theorem PlainCommand.request_of_checked (checked : d.Checked) (named : c.NamesEnds)
    (seed : UInt64) :
    c.request d seed = match d.refusal? with
      | none => .ok (({} : ChunkParams).made (c.target d) d seed)
      | some x => .error (.invalid x) := by
  rw [request_eq, ← flaw?_made checked named seed]
  rfl

/-- If the settings are accepted, a command that names its ends and leaves all else to the defaults
is accepted just if there is an attempt by default and the default amount reaches the default chunk,
both in millisatoshi. Otherwise it is refused for what the defaults are refused for. -/
theorem plain_accepted_iff (accepted : s.flaw? exists_ = none) (named : c.NamesEnds) :
    ((∃ r, c.request s.defaults seed = .ok r) ↔
        s.defaults.attempts ≠ 0 ∧ satoshi s.defaults.splitAmount ≤ satoshi s.defaults.amount) ∧
      ∀ failure, c.request s.defaults seed = .error failure ↔
        ∃ x, s.defaults.refusal? = some x ∧ failure = .invalid x := by
  have checked := Settings.checked_of_accepted accepted
  rw [← checked.refusal?_eq_none_iff, PlainCommand.request_of_checked checked named]
  cases s.defaults.refusal? with
  | none => simp
  | some x => simp [eq_comm]

/-! ## Settings that serve no command, and some -/

/-- Settings with these defaults and a certificate. -/
def settingsWith (d : Defaults) : Settings where
  server := ⟨"https://node", "rune", "cert"⟩
  defaults := d

/-- Defaults whose amount is far below the chunk, while both are beyond a word in millisatoshi. -/
def vastDefaults : Defaults := { amount := 0x4189374BC6A7F0, splitAmount := 0xFFFFFFFFFFFFFFFF }

/-- They serve a push all the same. -/
theorem plain_accepted_iff_saturated :
    (settingsWith vastDefaults).flaw? (· == "cert") = none ∧
      (PlainCommand.push " 1x1/").NamesEnds ∧
      ∃ r, (PlainCommand.push " 1x1/").request vastDefaults 7 = .ok r := by
  have accepted : (settingsWith vastDefaults).flaw? (· == "cert") = none := by decide +kernel
  have named : (PlainCommand.push " 1x1/").NamesEnds := by decide +kernel
  exact ⟨accepted, named, (plain_accepted_iff accepted named).1.mpr ⟨by decide, by decide⟩⟩

/-- Defaults that the settings are accepted with, but no plain command: no attempt, or a chunk above
the amount. -/
theorem plain_refused_by_default :
    ((settingsWith { attempts := 0 }).flaw? fun _ => true) = none ∧
      ((settingsWith { amount := 1, splitAmount := 2 }).flaw? fun _ => true) = none ∧
      ∀ c ∈ [PlainCommand.circular "101x1x0" "103x1x0", .pull "103x1x0", .push "101x1x0"],
        c.NamesEnds ∧
        c.request { attempts := 0 } 1 = .error (.invalid .noAttempts) ∧
        c.request { amount := 1, splitAmount := 2 } 1 = .error (.invalid .amountBelowSplit) := by
  decide +kernel

end Rebalancer
