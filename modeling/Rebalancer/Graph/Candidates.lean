import Rebalancer.Graph.Ring

set_option autoImplicit false

/-! # Candidates for the open end of a ring

A pull pins the entry and looks for exits, a push pins the exit and looks for entries. The
candidates come cheapest first, and of equals first the one whose record is met first. The records
of the own channels may be gone through in any order.
-/

namespace Rebalancer

/-- A channel that can serve as the open end, with what we charge for forwarding the amount over
it and the route that results. -/
structure Candidate where
  scid : String
  rate : Ppm
  route : Route
deriving DecidableEq, Repr

/-- Which channels may serve as exit: those of the list, or else those whose rate is low enough;
and how far an exit may be emptied. -/
structure ExitFilter where
  maxRate : Ppm
  only : Option (List String)
  depletePercent : UInt64
  depleteAmount : Msat
deriving DecidableEq, Repr

/-- Which channels may serve as entry: those of the list, or else those whose rate is high enough;
and how far an entry may be filled. -/
structure EntryFilter where
  minRate : Ppm
  only : Option (List String)
  fillPercent : UInt64
  fillAmount : Msat
deriving DecidableEq, Repr

/-- Whether a list, if there is one, has the channel. -/
def listed (only : Option (List String)) (scid : String) : Bool :=
  match only with
  | none => true
  | some scids => scids.contains scid

/-- The balance that must stay in an exit. -/
def ExitFilter.floor (f : ExitFilter) (c : OwnChannel) : Msat :=
  min f.depleteAmount (percentOf c.total f.depletePercent)

/-- The balance that an entry must not pass. -/
def EntryFilter.ceiling (f : EntryFilter) (c : OwnChannel) : Msat :=
  min f.fillAmount (percentOf c.total f.fillPercent)

/-- Whether the balance of an exit allows `amount` to leave. -/
def ExitFilter.affords (f : ExitFilter) (c : OwnChannel) (amount : Msat) : Bool :=
  amount ≤ c.toUs && f.floor c ≤ c.toUs - amount

/-- Whether the balance of an entry allows `amount` to come in. -/
def EntryFilter.affords (f : EntryFilter) (c : OwnChannel) (amount : Msat) : Bool :=
  addClamped c.toUs amount ≤ f.ceiling c

/-- An order in which the records of the own channels are gone through. -/
structure OwnOrder where
  records : Graph → List (String × OwnChannel)
  perm : ∀ g, (records g).Perm g.own.toList

/-- The order of the channel ids. -/
def OwnOrder.byId : OwnOrder := ⟨fun g => g.own.toList, fun _ => .refl _⟩

namespace Graph

/-- The rate we charge for forwarding `amount` over an own half. -/
def channelRate (h : Half) (amount : Msat) : Ppm := rateOf (h.fee amount) amount

/-- The channel as exit of a ring that comes back by `entry`. -/
def exitCandidate (g : Graph) (entry : String) (amount : Msat) (maxHops : Nat) (f : ExitFilter)
    (scid : String) (c : OwnChannel) : Option Candidate :=
  if scid == entry || !listed f.only scid then none
  else match g.outHalf? scid with
    | none => none
    | some h =>
      let rate := channelRate h amount
      if !h.active || (f.only.isNone && f.maxRate < rate) || !f.affords c amount then none
      else (g.ring scid entry amount maxHops).toOption.map (⟨scid, rate, ·⟩)

/-- The channel as entry of a ring that leaves by `exit`. -/
def entryCandidate (g : Graph) (exit : String) (amount : Msat) (maxHops : Nat) (f : EntryFilter)
    (scid : String) (c : OwnChannel) : Option Candidate :=
  if scid == exit || !listed f.only scid then none
  else match g.outHalf? scid, g.inHalf? scid with
    | some h, some back =>
      let rate := channelRate h amount
      if !back.active || (f.only.isNone && rate < f.minRate) || !f.affords c amount then none
      else (g.ring exit scid amount maxHops).toOption.map (⟨scid, rate, ·⟩)
    | _, _ => none

/-- The order of candidates: by fee, then by our rate, then by length. -/
def candidateLe (a b : Candidate) : Bool :=
  (compare a.route.fee b.route.fee).then ((compare a.rate b.rate).then
    (compare a.route.hops.length b.route.hops.length)) != .gt

/-- All exits for a ring into `entry`, cheapest first, where `records` are those of the own
channels. -/
def exitsAmong (g : Graph) (records : List (String × OwnChannel)) (entry : String) (amount : Msat)
    (maxHops : Nat) (f : ExitFilter) : Except Failure (List Candidate) := do
  let back ← g.entryHalf entry
  if !back.active then throw (.inactive entry)
  let found := records.filterMap fun e => g.exitCandidate entry amount maxHops f e.1 e.2
  if found.isEmpty then throw (.noRoute (.noExit amount entry))
  return found.mergeSort candidateLe

/-- All entries for a ring out of `exit`, cheapest first, where `records` are those of the own
channels. -/
def entriesAmong (g : Graph) (records : List (String × OwnChannel)) (exit : String) (amount : Msat)
    (maxHops : Nat) (f : EntryFilter) : Except Failure (List Candidate) := do
  let out ← g.exitHalf exit
  if !out.active then throw (.inactive exit)
  let found := records.filterMap fun e => g.entryCandidate exit amount maxHops f e.1 e.2
  if found.isEmpty then throw (.noRoute (.noEntry amount exit))
  return found.mergeSort candidateLe

/-- All exits for a ring into `entry`, cheapest first and otherwise by channel id. -/
def pullCandidates (g : Graph) (entry : String) (amount : Msat) (maxHops : Nat)
    (f : ExitFilter) : Except Failure (List Candidate) :=
  g.exitsAmong g.own.toList entry amount maxHops f

/-- All entries for a ring out of `exit`, cheapest first and otherwise by channel id. -/
def pushCandidates (g : Graph) (exit : String) (amount : Msat) (maxHops : Nat)
    (f : EntryFilter) : Except Failure (List Candidate) :=
  g.entriesAmong g.own.toList exit amount maxHops f

end Graph

end Rebalancer
