import Rebalancer.Graph.Candidates
import Rebalancer.Proofs.Graph.Rings

set_option autoImplicit false

/-! # Candidates and their rings

Every candidate for the open end of a ring comes with the ring that is found when this channel is
pinned as well, and its record allows the amount to leave or to come in. The bounds on the records
are told in exact numbers.
-/

namespace Rebalancer

/-! ## Shares in exact numbers -/

theorem toNat_percentOf_le (total percent : UInt64) :
    (percentOf total percent).toNat ≤ total.toNat * percent.toNat / 100 := by
  rw [percentOf, toNat_lowWord]
  exact Nat.mod_le _ _

/-- A share of at most the whole is not cut. -/
theorem toNat_percentOf {total percent : UInt64} (h : percent ≤ 100) :
    (percentOf total percent).toNat = total.toNat * percent.toNat / 100 := by
  have hpercent : percent.toNat ≤ 100 := UInt64.le_iff_toNat_le.mp h
  have hword := toNat_le_maxWord total
  have hshare : total.toNat * percent.toNat / 100 ≤ total.toNat := by
    calc total.toNat * percent.toNat / 100 ≤ total.toNat * 100 / 100 :=
          Nat.div_le_div_right (Nat.mul_le_mul_left _ hpercent)
      _ = total.toNat := Nat.mul_div_cancel _ (by decide)
  rw [percentOf, toNat_lowWord]
  exact Nat.mod_eq_of_lt (by omega)

/-- An exit affords an amount if its floor stays in it. -/
theorem ExitFilter.affords_iff {f : ExitFilter} {c : OwnChannel} {amount : Msat} :
    f.affords c amount = true ↔ (f.floor c).toNat + amount.toNat ≤ c.toUs.toNat := by
  simp only [affords, Bool.and_eq_true, decide_eq_true_eq]
  constructor
  · rintro ⟨hamount, hfloor⟩
    rw [UInt64.le_iff_toNat_le, UInt64.toNat_sub_of_le _ _ hamount] at hfloor
    rw [UInt64.le_iff_toNat_le] at hamount
    omega
  · intro h
    have hamount : amount ≤ c.toUs := UInt64.le_iff_toNat_le.mpr (by omega)
    refine ⟨hamount, ?_⟩
    rw [UInt64.le_iff_toNat_le, UInt64.toNat_sub_of_le _ _ hamount]
    omega

/-- An entry affords an amount if that does not take it over its ceiling. -/
theorem EntryFilter.affords_iff {f : EntryFilter} {c : OwnChannel} {amount : Msat} :
    f.affords c amount = true ↔
      min (c.toUs.toNat + amount.toNat) maxWord ≤ (f.ceiling c).toNat := by
  rw [affords, decide_eq_true_eq, UInt64.le_iff_toNat_le, toNat_addClamped]

namespace Graph

/-! ## Candidates -/

variable {g : Graph} {records : List (String × OwnChannel)} {exit entry : String} {amount : Msat}
  {maxHops : Nat}

/-- What has to be so for a channel to serve as exit, and which candidate it is then. -/
theorem exitCandidate_eq_some_iff {f : ExitFilter} {scid : String} {c : OwnChannel}
    {found : Candidate} :
    g.exitCandidate entry amount maxHops f scid c = some found ↔
      scid ≠ entry ∧ listed f.only scid = true ∧ ∃ out route, g.outHalf? scid = some out ∧
        out.active = true ∧ (f.only = none → channelRate out amount ≤ f.maxRate) ∧
        f.affords c amount = true ∧ g.ring scid entry amount maxHops = .ok route ∧
        found = ⟨scid, channelRate out amount, route⟩ := by
  unfold exitCandidate
  constructor
  · intro h
    split at h
    · cases h
    · rename_i hpinned
      simp only [Bool.or_eq_true, beq_iff_eq, Bool.not_eq_true', not_or, Bool.not_eq_false]
        at hpinned
      obtain ⟨hne, hlisted⟩ := hpinned
      split at h
      · cases h
      · rename_i out hout
        dsimp only at h
        split at h
        · cases h
        · rename_i hpassed
          simp only [Bool.or_eq_true, Bool.and_eq_true, Option.isNone_iff_eq_none,
            decide_eq_true_eq, Bool.not_eq_true', not_or, not_and, Bool.not_eq_false,
            UInt64.not_lt] at hpassed
          obtain ⟨⟨hactive, hrate⟩, hafford⟩ := hpassed
          obtain ⟨route, hroute, rfl⟩ := Option.map_eq_some_iff.mp h
          exact ⟨hne, hlisted, out, route, hout, hactive, hrate, hafford,
            except_toOption_eq_some_iff.mp hroute, rfl⟩
  · rintro ⟨hne, hlisted, out, route, hout, hactive, hrate, hafford, hring, rfl⟩
    have hcheap : (f.only.isNone && decide (f.maxRate < channelRate out amount)) = false := by
      cases honly : f.only with
      | none => simpa [honly] using hrate honly
      | some scids => rfl
    have hfound : (g.ring scid entry amount maxHops).toOption = some route :=
      except_toOption_eq_some_iff.mpr hring
    simp [hne, hlisted, hout, hactive, hcheap, hafford, hfound]

/-- What has to be so for a channel to serve as entry, and which candidate it is then. -/
theorem entryCandidate_eq_some_iff {f : EntryFilter} {scid : String} {c : OwnChannel}
    {found : Candidate} :
    g.entryCandidate exit amount maxHops f scid c = some found ↔
      scid ≠ exit ∧ listed f.only scid = true ∧ ∃ out back route, g.outHalf? scid = some out ∧
        g.inHalf? scid = some back ∧ back.active = true ∧
        (f.only = none → f.minRate ≤ channelRate out amount) ∧ f.affords c amount = true ∧
        g.ring exit scid amount maxHops = .ok route ∧
        found = ⟨scid, channelRate out amount, route⟩ := by
  unfold entryCandidate
  constructor
  · intro h
    split at h
    · cases h
    · rename_i hpinned
      simp only [Bool.or_eq_true, beq_iff_eq, Bool.not_eq_true', not_or, Bool.not_eq_false]
        at hpinned
      obtain ⟨hne, hlisted⟩ := hpinned
      split at h
      · rename_i out back hout hback
        dsimp only at h
        split at h
        · cases h
        · rename_i hpassed
          simp only [Bool.or_eq_true, Bool.and_eq_true, Option.isNone_iff_eq_none,
            decide_eq_true_eq, Bool.not_eq_true', not_or, not_and, Bool.not_eq_false,
            UInt64.not_lt] at hpassed
          obtain ⟨⟨hactive, hrate⟩, hafford⟩ := hpassed
          obtain ⟨route, hroute, rfl⟩ := Option.map_eq_some_iff.mp h
          exact ⟨hne, hlisted, out, back, route, hout, hback, hactive, hrate, hafford,
            except_toOption_eq_some_iff.mp hroute, rfl⟩
      · cases h
  · rintro ⟨hne, hlisted, out, back, route, hout, hback, hactive, hrate, hafford, hring, rfl⟩
    have hdear : (f.only.isNone && decide (channelRate out amount < f.minRate)) = false := by
      cases honly : f.only with
      | none => simpa [honly] using hrate honly
      | some scids => rfl
    have hfound : (g.ring exit scid amount maxHops).toOption = some route :=
      except_toOption_eq_some_iff.mpr hring
    simp [hne, hlisted, hout, hback, hactive, hdear, hafford, hfound]

theorem exitsAmong_eq_ok_iff {f : ExitFilter} {candidates : List Candidate} :
    g.exitsAmong records entry amount maxHops f = .ok candidates ↔
      (∃ back, g.inHalf? entry = some back ∧ back.active = true) ∧ ∃ found,
        found = records.filterMap (fun e => g.exitCandidate entry amount maxHops f e.1 e.2) ∧
        found ≠ [] ∧ candidates = found.mergeSort candidateLe := by
  unfold exitsAmong
  simp only [except_bind_eq_ok_iff, entryHalf_eq_ok_iff, except_check_eq_ok_iff,
    Bool.not_eq_true', Bool.not_eq_false, List.isEmpty_iff]
  constructor
  · rintro ⟨back, hback, hactive, hfound, heq⟩
    exact ⟨⟨back, hback, hactive⟩, _, rfl, hfound, (Except.ok.inj heq).symm⟩
  · rintro ⟨⟨back, hback, hactive⟩, _, rfl, hfound, rfl⟩
    exact ⟨back, hback, hactive, hfound, rfl⟩

theorem entriesAmong_eq_ok_iff {f : EntryFilter} {candidates : List Candidate} :
    g.entriesAmong records exit amount maxHops f = .ok candidates ↔
      (∃ out, g.outHalf? exit = some out ∧ out.active = true) ∧ ∃ found,
        found = records.filterMap (fun e => g.entryCandidate exit amount maxHops f e.1 e.2) ∧
        found ≠ [] ∧ candidates = found.mergeSort candidateLe := by
  unfold entriesAmong
  simp only [except_bind_eq_ok_iff, exitHalf_eq_ok_iff, except_check_eq_ok_iff,
    Bool.not_eq_true', Bool.not_eq_false, List.isEmpty_iff]
  constructor
  · rintro ⟨out, hout, hactive, hfound, heq⟩
    exact ⟨⟨out, hout, hactive⟩, _, rfl, hfound, (Except.ok.inj heq).symm⟩
  · rintro ⟨⟨out, hout, hactive⟩, _, rfl, hfound, rfl⟩
    exact ⟨out, hout, hactive, hfound, rfl⟩

/-- In whatever order the records are gone through, they are those of the own channels. -/
theorem mem_records_iff (hrecords : records.Perm g.own.toList) {scid : String} {c : OwnChannel} :
    (scid, c) ∈ records ↔ g.own[scid]? = some c :=
  hrecords.mem_iff.trans Std.TreeMap.mem_toList_iff_getElem?_eq_some

/-- Every exit that is found is an own channel whose record allows the amount to leave, and comes
with its ring. -/
theorem exists_own_of_mem_exitsAmong {f : ExitFilter} {candidates : List Candidate}
    (hrecords : records.Perm g.own.toList)
    (h : g.exitsAmong records entry amount maxHops f = .ok candidates) {found : Candidate}
    (hc : found ∈ candidates) :
    ∃ c, g.own[found.scid]? = some c ∧ f.affords c amount = true ∧
      g.ring found.scid entry amount maxHops = .ok found.route := by
  obtain ⟨-, all, rfl, -, rfl⟩ := exitsAmong_eq_ok_iff.mp h
  obtain ⟨⟨scid, c⟩, hmem, he⟩ := List.mem_filterMap.mp (List.mem_mergeSort.mp hc)
  obtain ⟨-, -, out, route, -, -, -, hafford, hring, rfl⟩ := exitCandidate_eq_some_iff.mp he
  exact ⟨c, (mem_records_iff hrecords).mp hmem, hafford, hring⟩

/-- Every entry that is found is an own channel whose record allows the amount to come in, and comes
with its ring. -/
theorem exists_own_of_mem_entriesAmong {f : EntryFilter} {candidates : List Candidate}
    (hrecords : records.Perm g.own.toList)
    (h : g.entriesAmong records exit amount maxHops f = .ok candidates) {found : Candidate}
    (hc : found ∈ candidates) :
    ∃ c, g.own[found.scid]? = some c ∧ f.affords c amount = true ∧
      g.ring exit found.scid amount maxHops = .ok found.route := by
  obtain ⟨-, all, rfl, -, rfl⟩ := entriesAmong_eq_ok_iff.mp h
  obtain ⟨⟨scid, c⟩, hmem, he⟩ := List.mem_filterMap.mp (List.mem_mergeSort.mp hc)
  obtain ⟨-, -, out, back, route, -, -, -, -, hafford, hring, rfl⟩ :=
    entryCandidate_eq_some_iff.mp he
  exact ⟨c, (mem_records_iff hrecords).mp hmem, hafford, hring⟩

/-! ## Two channels -/

theorem own_twoChannels : twoChannels.own.toList =
    [("1x1", channelWith "b" "1x1" 1000000 0), ("2x1", channelWith "b" "2x1" 0 1000000)] := by
  decide +kernel

/-- What a search takes of the two records is the same in either order if it takes only one. -/
theorem filterMap_twoChannels {pick : String × OwnChannel → Option Candidate} {c : Candidate}
    (hrecords : records.Perm twoChannels.own.toList)
    (hpick : [("1x1", channelWith "b" "1x1" 1000000 0),
      ("2x1", channelWith "b" "2x1" 0 1000000)].filterMap pick = [c]) :
    records.filterMap pick = [c] := by
  rw [← own_twoChannels] at hpick
  exact List.perm_singleton.mp (hpick ▸ hrecords.filterMap pick)

/-- A pull into the empty channel finds the full one, if that may be emptied so far. -/
theorem exitsAmong_twoChannels {f : ExitFilter} (hrecords : records.Perm twoChannels.own.toList)
    (honly : f.only = none)
    (hafford : f.affords (channelWith "b" "1x1" 1000000 0) 1000 = true) :
    twoChannels.exitsAmong records "2x1" 1000 2 f =
      .ok [⟨"1x1", 0, .build [halfToB, halfFromB] 1000⟩] := by
  have hout : twoChannels.outHalf? "1x1" = some halfToB := by decide +kernel
  have hback : twoChannels.inHalf? "2x1" = some halfFromB := by decide +kernel
  have hexit : twoChannels.exitCandidate "2x1" 1000 2 f "1x1" (channelWith "b" "1x1" 1000000 0) =
      some ⟨"1x1", 0, .build [halfToB, halfFromB] 1000⟩ := by
    refine exitCandidate_eq_some_iff.mpr ⟨by decide, by rw [honly]; rfl, halfToB, _, hout, rfl,
      fun _ => ?_, hafford, ring_twoChannels, rfl⟩
    exact UInt64.le_iff_toNat_le.mpr (Nat.zero_le _)
  -- The other channel is the entry itself.
  have hself : twoChannels.exitCandidate "2x1" 1000 2 f "2x1"
      (channelWith "b" "2x1" 0 1000000) = none := rfl
  have hfound : records.filterMap (fun e => twoChannels.exitCandidate "2x1" 1000 2 f e.1 e.2) =
      [⟨"1x1", 0, .build [halfToB, halfFromB] 1000⟩] :=
    filterMap_twoChannels hrecords (by
      simp only [List.filterMap_cons, hexit, hself, List.filterMap_nil])
  refine exitsAmong_eq_ok_iff.mpr ⟨⟨halfFromB, hback, rfl⟩, _, rfl, ?_⟩
  rw [hfound, List.mergeSort_singleton]
  exact ⟨List.cons_ne_nil _ _, rfl⟩

/-- A push out of the full channel finds the empty one, if that may be filled so far. -/
theorem entriesAmong_twoChannels {f : EntryFilter} (hrecords : records.Perm twoChannels.own.toList)
    (honly : f.only = some ["2x1"])
    (hafford : f.affords (channelWith "b" "2x1" 0 1000000) 1000 = true) :
    twoChannels.entriesAmong records "1x1" 1000 2 f =
      .ok [⟨"2x1", 0, .build [halfToB, halfFromB] 1000⟩] := by
  have hout : twoChannels.outHalf? "1x1" = some halfToB := by decide +kernel
  have hback : twoChannels.inHalf? "2x1" = some halfFromB := by decide +kernel
  have hcharge : twoChannels.outHalf? "2x1" =
      some { halfToB with id := ⟨"2x1", 0⟩, liquidity := 0 } := by decide +kernel
  have hentry : twoChannels.entryCandidate "1x1" 1000 2 f "2x1"
      (channelWith "b" "2x1" 0 1000000) = some ⟨"2x1", 0, .build [halfToB, halfFromB] 1000⟩ := by
    refine entryCandidate_eq_some_iff.mpr ⟨by decide, by rw [honly]; rfl, _, halfFromB, _, hcharge,
      hback, rfl, fun hnone => ?_, hafford, ring_twoChannels, rfl⟩
    rw [honly] at hnone
    cases hnone
  have hself : twoChannels.entryCandidate "1x1" 1000 2 f "1x1"
      (channelWith "b" "1x1" 1000000 0) = none := rfl
  have hfound : records.filterMap (fun e => twoChannels.entryCandidate "1x1" 1000 2 f e.1 e.2) =
      [⟨"2x1", 0, .build [halfToB, halfFromB] 1000⟩] :=
    filterMap_twoChannels hrecords (by
      simp only [List.filterMap_cons, hentry, hself, List.filterMap_nil])
  refine entriesAmong_eq_ok_iff.mpr ⟨⟨halfToB, hout, rfl⟩, _, rfl, ?_⟩
  rw [hfound, List.mergeSort_singleton]
  exact ⟨List.cons_ne_nil _ _, rfl⟩

end Graph

end Rebalancer
