import Mathlib.Data.Prod.Lex
import Rebalancer.Proofs.Graph.Candidates
import Rebalancer.Proofs.Graph.OwnHalves

set_option autoImplicit false

/-! # Which candidates are found, and in which order

The channels that can serve as the open end of a ring are told without the search: by their halves,
our rate on them, the bound on their balance and the ring through them (`IsExit`, `IsEntry`). A
search finds each of them once, the cheapest first, in whatever order it goes through the records of
the own channels (`Reachable.ranks_candidates`). Since all routes deliver one amount, the first
candidate keeps to every fee rate that any candidate keeps to.
-/

namespace Rebalancer

open Std

/-! ## The order of candidates -/

/-- What candidates are compared by: the fee of the route, then our rate, then the number of hops.
-/
def Candidate.rank (c : Candidate) : ℕ ×ₗ ℕ ×ₗ ℕ :=
  toLex (c.route.fee.toNat, toLex (c.rate.toNat, c.route.hops.length))

theorem compare_word_eq (a b : UInt64) : compare a b = compare a.toNat b.toNat := by
  simp only [compare, compareOfLessAndEq, UInt64.lt_iff_toNat_lt, ← UInt64.toNat_inj]

theorem then_ne_gt_iff {a b : ℕ} {o : Ordering} :
    (compare a b).then o ≠ .gt ↔ a < b ∨ a = b ∧ o ≠ .gt := by
  rcases Nat.lt_trichotomy a b with hlt | rfl | hgt
  · rw [Nat.compare_eq_lt.mpr hlt]
    simp [hlt]
  · rw [Nat.compare_eq_eq.mpr rfl]
    simp
  · rw [Nat.compare_eq_gt.mpr hgt]
    simp [hgt.ne', hgt.le]

theorem Candidate.fee_le_of_rank_le {a b : Candidate} (h : a.rank ≤ b.rank) :
    a.route.fee.toNat ≤ b.route.fee.toNat := by
  rw [rank, rank, Prod.Lex.toLex_le_toLex] at h
  rcases h with hlt | ⟨heq, -⟩
  · exact hlt.le
  · exact heq.le

/-- Of two routes that deliver one amount, the cheaper one keeps to every rate that the other keeps
to. -/
theorem Route.within_of_fee_le {r r' : Route} {ceiling : Ppm} (hamount : r.amount = r'.amount)
    (hfee : r.fee.toNat ≤ r'.fee.toNat) (h : r'.within ceiling = true) :
    r.within ceiling = true := by
  simp only [within, decide_eq_true_eq] at h ⊢
  rw [hamount]
  exact (Nat.mul_le_mul_right _ hfee).trans h

namespace Graph

theorem candidateLe_iff {a b : Candidate} : candidateLe a b = true ↔ a.rank ≤ b.rank := by
  unfold candidateLe Candidate.rank
  rw [compare_word_eq, compare_word_eq, Prod.Lex.toLex_le_toLex, Prod.Lex.toLex_le_toLex,
    bne_iff_ne, then_ne_gt_iff, then_ne_gt_iff, Nat.compare_ne_gt]

theorem pairwise_rank_mergeSort (l : List Candidate) :
    (l.mergeSort candidateLe).Pairwise fun a b => a.rank ≤ b.rank := by
  have htrans : ∀ a b c, candidateLe a b = true → candidateLe b c = true →
      candidateLe a c = true := by
    intro a b c hab hbc
    rw [candidateLe_iff] at hab hbc ⊢
    exact hab.trans hbc
  have htotal : ∀ a b, (candidateLe a b || candidateLe b a) = true := by
    intro a b
    rw [Bool.or_eq_true, candidateLe_iff, candidateLe_iff]
    exact le_total a.rank b.rank
  exact (List.pairwise_mergeSort htrans htotal l).imp fun h => candidateLe_iff.mp h

/-! ## What a search has to answer -/

/-- The answer of a search that has to find the candidates that fit: each of them once and the
cheapest first, or the failure `nothing` if there is none. -/
structure Ranks (Fits : Candidate → Prop) (nothing : Failure)
    (answer : Except Failure (List Candidate)) : Prop where
  error_iff : ∀ failure, answer = .error failure ↔ failure = nothing ∧ ∀ c, ¬ Fits c
  mem_iff : ∀ l, answer = .ok l → ∀ c, c ∈ l ↔ Fits c
  once : ∀ l, answer = .ok l → (l.map (·.scid)).Nodup
  sorted : ∀ l, answer = .ok l → l.Pairwise fun a b => a.rank ≤ b.rank
  first_within : ∀ l, answer = .ok l → ∀ ceiling, (∃ c ∈ l, c.route.within ceiling = true) →
    ∃ first, l.head? = some first ∧ first.route.within ceiling = true

/-- The answer of a search that has found these candidates. -/
def ranked (nothing : Failure) (found : List Candidate) : Except Failure (List Candidate) :=
  if found.isEmpty then .error nothing else .ok (found.mergeSort candidateLe)

section Answers

variable {Fits : Candidate → Prop} {nothing : Failure} {found : List Candidate}

theorem ranked_eq_ok_iff {l : List Candidate} :
    ranked nothing found = .ok l ↔ found ≠ [] ∧ l = found.mergeSort candidateLe := by
  unfold ranked
  cases found with
  | nil => simp
  | cons c rest => simp [eq_comm]

theorem ranked_eq_error_iff {failure : Failure} :
    ranked nothing found = .error failure ↔ found = [] ∧ failure = nothing := by
  unfold ranked
  cases found with
  | nil => simp [eq_comm]
  | cons c rest => simp

theorem ranks_ranked {amount : Msat} (hmem : ∀ c, c ∈ found ↔ Fits c)
    (honce : found.Pairwise fun a b => a.scid ≠ b.scid)
    (hamount : ∀ c, Fits c → c.route.amount = amount) :
    Ranks Fits nothing (ranked nothing found) := by
  have hsorted : ∀ {l}, ranked nothing found = .ok l → ∀ c, c ∈ l ↔ Fits c := by
    intro l hl c
    obtain ⟨-, rfl⟩ := ranked_eq_ok_iff.mp hl
    rw [List.mem_mergeSort]
    exact hmem c
  refine ⟨fun failure => ?_, fun l hl => hsorted hl, fun l hl => ?_, fun l hl => ?_,
    fun l hl ceiling => ?_⟩
  · rw [ranked_eq_error_iff, and_comm, List.eq_nil_iff_forall_not_mem]
    simp only [hmem]
  · obtain ⟨-, rfl⟩ := ranked_eq_ok_iff.mp hl
    have hperm := List.mergeSort_perm found candidateLe
    rw [List.Nodup, List.pairwise_map]
    exact (hperm.pairwise_iff fun h => Ne.symm h).mpr honce
  · obtain ⟨-, rfl⟩ := ranked_eq_ok_iff.mp hl
    exact pairwise_rank_mergeSort found
  · rintro ⟨c, hc, hwithin⟩
    have hrank := (ranked_eq_ok_iff.mp hl).2 ▸ pairwise_rank_mergeSort found
    cases l with
    | nil => cases hc
    | cons first rest =>
        refine ⟨first, rfl, ?_⟩
        rcases List.mem_cons.mp hc with rfl | hrest
        · exact hwithin
        · have hle : first.rank ≤ c.rank := (List.pairwise_cons.mp hrank).1 c hrest
          have hfirst := hamount first ((hsorted hl first).mp List.mem_cons_self)
          have hlater := hamount c ((hsorted hl c).mp hc)
          exact Route.within_of_fee_le (hfirst.trans hlater.symm) (Candidate.fee_le_of_rank_le hle)
            hwithin

end Answers

/-! ## Which channels can serve -/

/-- What we charge for forwarding `amount` over an own channel; nothing if its half is not known. -/
def chargeOn (g : Graph) (scid : String) (amount : Msat) : Ppm :=
  (g.outHalf? scid).elim 0 (channelRate · amount)

/-- The candidate is an own channel that can serve as exit of a ring into `entry`, with our rate on
it and the ring through it. -/
structure IsExit (g : Graph) (entry : String) (amount : Msat) (maxHops : Nat) (f : ExitFilter)
    (c : Candidate) : Prop where
  ne : c.scid ≠ entry
  listed : ∀ scids, f.only = some scids → c.scid ∈ scids
  active : ∃ out, g.outHalf? c.scid = some out ∧ out.active = true
  rate_eq : c.rate = g.chargeOn c.scid amount
  rate_le : f.only = none → c.rate ≤ f.maxRate
  keeps_floor : ∃ own, g.own[c.scid]? = some own ∧
    (f.floor own).toNat + amount.toNat ≤ own.toUs.toNat
  ring : g.ring c.scid entry amount maxHops = .ok c.route

/-- The candidate is an own channel that can serve as entry of a ring out of `exit`, with our rate
on it and the ring through it. -/
structure IsEntry (g : Graph) (exit : String) (amount : Msat) (maxHops : Nat) (f : EntryFilter)
    (c : Candidate) : Prop where
  ne : c.scid ≠ exit
  listed : ∀ scids, f.only = some scids → c.scid ∈ scids
  active : ∃ back, g.inHalf? c.scid = some back ∧ back.active = true
  rate_eq : c.rate = g.chargeOn c.scid amount
  rate_ge : f.only = none → f.minRate ≤ c.rate
  keeps_ceiling : ∃ own, g.own[c.scid]? = some own ∧
    min (own.toUs.toNat + amount.toNat) maxWord ≤ (f.ceiling own).toNat
  ring : g.ring exit c.scid amount maxHops = .ok c.route

section Records

variable {g : Graph} {entry exit scid : String} {amount : Msat} {maxHops : Nat} {c : Candidate}

theorem listed_iff {only : Option (List String)} :
    listed only scid = true ↔ ∀ scids, only = some scids → scid ∈ scids := by
  cases only with
  | none => simp [listed]
  | some scids => simp [listed]

theorem chargeOn_of_some {out : Half} (h : g.outHalf? scid = some out) :
    g.chargeOn scid amount = channelRate out amount := by
  rw [chargeOn, h]
  rfl

/-- Where the half of a channel to the local node is known, the half away from it is known too. -/
theorem Reachable.exists_outHalf? (hg : g.Reachable) {back : Half}
    (hback : g.inHalf? scid = some back) : ∃ out, g.outHalf? scid = some out := by
  obtain ⟨own, hown, hhalf⟩ := Option.bind_eq_some_iff.mp hback
  by_cases hp : own.peer = g.selfId
  · -- Both halves of a channel of the local node with itself have one name.
    have hid : g.outId scid own = g.inId scid own := by rw [outId, inId, hp]
    exact ⟨back, by rw [outHalf?, hown, Option.bind_some, hid, hhalf]⟩
  · obtain ⟨out, -, hout, -⟩ := hg.exists_mirrors hown hp
    exact ⟨out, hout⟩

/-- What the search takes for an exit is one, and the reverse. -/
theorem exitCandidate_iff {f : ExitFilter} :
    (∃ own, g.own[scid]? = some own ∧ g.exitCandidate entry amount maxHops f scid own = some c) ↔
      c.scid = scid ∧ g.IsExit entry amount maxHops f c := by
  constructor
  · rintro ⟨own, hown, h⟩
    obtain ⟨hne, hlisted, out, route, hout, hactive, hrate, hafford, hring, rfl⟩ :=
      exitCandidate_eq_some_iff.mp h
    exact ⟨rfl, hne, listed_iff.mp hlisted, ⟨out, hout, hactive⟩, (chargeOn_of_some hout).symm,
      hrate, ⟨own, hown, ExitFilter.affords_iff.mp hafford⟩, hring⟩
  · rintro ⟨rfl, hne, hlisted, ⟨out, hout, hactive⟩, hrate, hle, ⟨own, hown, hfloor⟩, hring⟩
    rw [chargeOn_of_some hout] at hrate
    refine ⟨own, hown, exitCandidate_eq_some_iff.mpr ⟨hne, listed_iff.mpr hlisted, out, c.route,
      hout, hactive, fun honly => hrate ▸ hle honly, ExitFilter.affords_iff.mpr hfloor, hring, ?_⟩⟩
    rw [← hrate]

/-- What the search takes for an entry is one, and the reverse. -/
theorem Reachable.entryCandidate_iff (hg : g.Reachable) {f : EntryFilter} :
    (∃ own, g.own[scid]? = some own ∧ g.entryCandidate exit amount maxHops f scid own = some c) ↔
      c.scid = scid ∧ g.IsEntry exit amount maxHops f c := by
  constructor
  · rintro ⟨own, hown, h⟩
    obtain ⟨hne, hlisted, out, back, route, hout, hback, hactive, hrate, hafford, hring, rfl⟩ :=
      entryCandidate_eq_some_iff.mp h
    exact ⟨rfl, hne, listed_iff.mp hlisted, ⟨back, hback, hactive⟩, (chargeOn_of_some hout).symm,
      hrate, ⟨own, hown, EntryFilter.affords_iff.mp hafford⟩, hring⟩
  · rintro ⟨rfl, hne, hlisted, ⟨back, hback, hactive⟩, hrate, hge, ⟨own, hown, hceiling⟩, hring⟩
    obtain ⟨out, hout⟩ := hg.exists_outHalf? hback
    rw [chargeOn_of_some hout] at hrate
    refine ⟨own, hown, entryCandidate_eq_some_iff.mpr ⟨hne, listed_iff.mpr hlisted, out, back,
      c.route, hout, hback, hactive, fun honly => hrate ▸ hge honly,
      EntryFilter.affords_iff.mpr hceiling, hring, ?_⟩⟩
    rw [← hrate]

/-! ## The records in any order -/

variable {records : List (String × OwnChannel)}

theorem exitsAmong_eq_ranked {f : ExitFilter} {back : Half} (hback : g.inHalf? entry = some back)
    (hactive : back.active = true) :
    g.exitsAmong records entry amount maxHops f = ranked (.noRoute (.noExit amount entry))
      (records.filterMap fun e => g.exitCandidate entry amount maxHops f e.1 e.2) := by
  unfold exitsAmong
  rw [entryHalf_eq_ok_iff.mpr hback]
  show (if (!back.active) = true then _ else _) = _
  rw [hactive]
  rfl

theorem entriesAmong_eq_ranked {f : EntryFilter} {out : Half} (hout : g.outHalf? exit = some out)
    (hactive : out.active = true) :
    g.entriesAmong records exit amount maxHops f = ranked (.noRoute (.noEntry amount exit))
      (records.filterMap fun e => g.entryCandidate exit amount maxHops f e.1 e.2) := by
  unfold entriesAmong
  rw [exitHalf_eq_ok_iff.mpr hout]
  show (if (!out.active) = true then _ else _) = _
  rw [hactive]
  rfl

/-- A search by `pick` through the records, in any order, finds what `pick` takes for a candidate,
and takes no channel twice. -/
theorem ranks_filterMap {Fits : Candidate → Prop} {nothing : Failure}
    {pick : String → OwnChannel → Option Candidate} (hrecords : records.Perm g.own.toList)
    (hpick : ∀ scid c, (∃ own, g.own[scid]? = some own ∧ pick scid own = some c) ↔
      c.scid = scid ∧ Fits c)
    (hamount : ∀ c, Fits c → c.route.amount = amount) :
    Ranks Fits nothing (ranked nothing (records.filterMap fun e => pick e.1 e.2)) := by
  have hfrom : ∀ {e : String × OwnChannel} {c : Candidate}, e ∈ records → pick e.1 e.2 = some c →
      c.scid = e.1 ∧ Fits c := fun he hc =>
    (hpick _ _).mp ⟨_, (mem_records_iff hrecords).mp he, hc⟩
  refine ranks_ranked (fun c => ?_) ?_ hamount
  · rw [List.mem_filterMap]
    constructor
    · rintro ⟨e, he, hc⟩
      exact (hfrom he hc).2
    · intro hc
      obtain ⟨own, hown, hfound⟩ := (hpick c.scid c).mpr ⟨rfl, hc⟩
      exact ⟨(c.scid, own), (mem_records_iff hrecords).mpr hown, hfound⟩
  · have hkeys : records.Pairwise fun e e' => e.1 ≠ e'.1 := by
      refine (hrecords.pairwise_iff fun h => Ne.symm h).mpr ?_
      refine TreeMap.distinct_keys_toList.imp fun hne heq => hne ?_
      rw [heq]
      exact ReflCmp.compare_self
    rw [List.pairwise_filterMap]
    refine hkeys.imp_of_mem fun he he' hne c hc c' hc' => ?_
    rw [(hfrom he hc).1, (hfrom he' hc').1]
    exact hne

theorem amount_of_ring {route : Route} (h : g.ring exit entry amount maxHops = .ok route) :
    route.amount = amount := by
  obtain ⟨-, out, back, path, -, -, -, -, -, -, rfl⟩ := ring_eq_ok_iff.mp h
  rfl

/-- With an entry that is known and active, the search for exits finds just the channels that can
serve as exit, each once and the cheapest first, in whatever order it goes through the records; and
with such an exit, the search for entries just those that can serve as entry. -/
theorem Reachable.ranks_candidates (hg : g.Reachable) (amount : Msat) (maxHops : Nat)
    (hrecords : records.Perm g.own.toList) :
    (∀ (entry : String) (f : ExitFilter),
      (∃ back, g.inHalf? entry = some back ∧ back.active = true) →
        Ranks (g.IsExit entry amount maxHops f) (.noRoute (.noExit amount entry))
            (g.pullCandidates entry amount maxHops f) ∧
          Ranks (g.IsExit entry amount maxHops f) (.noRoute (.noExit amount entry))
            (g.exitsAmong records entry amount maxHops f)) ∧
      ∀ (exit : String) (f : EntryFilter),
        (∃ out, g.outHalf? exit = some out ∧ out.active = true) →
          Ranks (g.IsEntry exit amount maxHops f) (.noRoute (.noEntry amount exit))
              (g.pushCandidates exit amount maxHops f) ∧
            Ranks (g.IsEntry exit amount maxHops f) (.noRoute (.noEntry amount exit))
              (g.entriesAmong records exit amount maxHops f) := by
  constructor
  · rintro entry f ⟨back, hback, hactive⟩
    have hranks : ∀ {l : List (String × OwnChannel)}, l.Perm g.own.toList →
        Ranks (g.IsExit entry amount maxHops f) (.noRoute (.noExit amount entry))
          (g.exitsAmong l entry amount maxHops f) := by
      intro l hl
      rw [exitsAmong_eq_ranked hback hactive]
      exact ranks_filterMap hl (fun scid c => exitCandidate_iff) fun c hc => amount_of_ring hc.ring
    exact ⟨hranks (.refl _), hranks hrecords⟩
  · rintro exit f ⟨out, hout, hactive⟩
    have hranks : ∀ {l : List (String × OwnChannel)}, l.Perm g.own.toList →
        Ranks (g.IsEntry exit amount maxHops f) (.noRoute (.noEntry amount exit))
          (g.entriesAmong l exit amount maxHops f) := by
      intro l hl
      rw [entriesAmong_eq_ranked hout hactive]
      exact ranks_filterMap hl (fun scid c => hg.entryCandidate_iff) fun c hc =>
        amount_of_ring hc.ring
    exact ⟨hranks (.refl _), hranks hrecords⟩

end Records

/-! ## Two channels -/

/-- The records of the two channels, gone through from the last to the first. A pull into the empty
channel finds the full one, and a push out of the full channel the empty one. -/
theorem ranks_candidates_twoChannels :
    twoChannels.Reachable ∧ twoChannels.own.toList.reverse.Perm twoChannels.own.toList ∧
      (∃ back, twoChannels.inHalf? "2x1" = some back ∧ back.active = true) ∧
      (∃ out, twoChannels.outHalf? "1x1" = some out ∧ out.active = true) ∧
      twoChannels.exitsAmong twoChannels.own.toList.reverse "2x1" 1000 2
          ⟨1000, none, 20, 1000000000⟩ =
        .ok [⟨"1x1", 0, .build [halfToB, halfFromB] 1000⟩] ∧
      twoChannels.entriesAmong twoChannels.own.toList.reverse "1x1" 1000 2
          ⟨0, some ["2x1"], 80, 1000000000⟩ =
        .ok [⟨"2x1", 0, .build [halfToB, halfFromB] 1000⟩] ∧
      Ranks (twoChannels.IsExit "2x1" 1000 2 ⟨1000, none, 20, 1000000000⟩)
        (.noRoute (.noExit 1000 "2x1"))
        (twoChannels.exitsAmong twoChannels.own.toList.reverse "2x1" 1000 2
          ⟨1000, none, 20, 1000000000⟩) ∧
      Ranks (twoChannels.IsEntry "1x1" 1000 2 ⟨0, some ["2x1"], 80, 1000000000⟩)
        (.noRoute (.noEntry 1000 "1x1"))
        (twoChannels.entriesAmong twoChannels.own.toList.reverse "1x1" 1000 2
          ⟨0, some ["2x1"], 80, 1000000000⟩) := by
  have hback : twoChannels.inHalf? "2x1" = some halfFromB := by decide +kernel
  have hout : twoChannels.outHalf? "1x1" = some halfToB := by decide +kernel
  have hperm := List.reverse_perm twoChannels.own.toList
  obtain ⟨hpull, hpush⟩ := reachable_twoChannels.ranks_candidates 1000 2 hperm
  exact ⟨reachable_twoChannels, hperm, ⟨halfFromB, hback, rfl⟩, ⟨halfToB, hout, rfl⟩,
    exitsAmong_twoChannels hperm rfl (by decide), entriesAmong_twoChannels hperm rfl (by decide),
    (hpull "2x1" _ ⟨halfFromB, hback, rfl⟩).2, (hpush "1x1" _ ⟨halfToB, hout, rfl⟩).2⟩

end Graph

end Rebalancer
