import Rebalancer.Proofs.Graph.Estimates

set_option autoImplicit false

/-! # The course of an estimate

Whatever happens to a graph, restarts included, an estimate that a failure taught is kept with its
time until the gossip lists the half again when the reset interval has passed
(`estimate_kept_until_due`). What happens is a list of events (`Course`), each of which keeps the
estimates of the halves it has nothing to do with. Ages are computed in signed words, without going
below zero, so whether an estimate is due can be told only within these (`Tells`).
-/

namespace Rebalancer

open Std

/-! ## Events -/

/-- What can happen to a graph. -/
inductive Event
  | gossip (gossip : List Announcement) (nodes : List NodeAnnouncement) (now : Time)
  | own (channels : List OwnChannel) (now : Time)
  | payment (route : Route) (amount : Msat) (now : Time)
  | failure (id : HalfId) (amount : Msat) (now : Time)
  /-- A failure from which there is nothing to learn. -/
  | idle (id : HalfId) (amount : Msat) (now : Time)
  | load (read : Snapshot)
  /-- The graph is saved, and the snapshot is read into an empty graph. -/
  | restart (read : Snapshot)

namespace Event

/-- The event neither makes the channel of `id` an own one nor teaches anything of the half. -/
def Spares (id : HalfId) : Event → Prop
  | own channels _ => ∀ c ∈ channels, c.scid ≠ some id.scid
  | failure id' _ _ => id ≠ id' ∧ id ≠ id'.opposite
  | gossip .. | payment .. | idle .. | load _ | restart _ => True

/-- What the event lists for a half. -/
def listings (id : HalfId) : Event → List Announcement
  | gossip announced _ _ => Graph.listingsOf announced id
  | own .. | payment .. | failure .. | idle .. | load _ | restart _ => []

/-- The event is a gossip refresh at `now` that lists the half. -/
def Lists (id : HalfId) (now : Time) : Event → Prop
  | gossip announced _ time => time = now ∧ id ∈ announced.map Announcement.id
  | own .. | payment .. | failure .. | idle .. | load _ | restart _ => False

end Event

namespace Graph

/-- `g'` is `g` after an event, where `reset` is the reset interval of the gossip. -/
inductive Happens (reset : UInt64) : Graph → Event → Graph → Prop
  | gossip (g : Graph) (gossip : List Announcement) (nodes : List NodeAnnouncement) (now : Time) :
      Happens reset g (.gossip gossip nodes now) (g.applyGossip gossip nodes now reset)
  | own (g : Graph) (channels : List OwnChannel) (now : Time) :
      Happens reset g (.own channels now) (g.applyOwn channels now)
  | payment (g : Graph) (route : Route) (amount : Msat) (now : Time) :
      Happens reset g (.payment route amount now) (g.applyPayment route amount now)
  | failure {g g' : Graph} {id : HalfId} {amount : Msat} {now : Time}
      (learned : g.applyFailure id amount now = some g') :
      Happens reset g (.failure id amount now) g'
  | idle {g : Graph} {id : HalfId} {amount : Msat} {now : Time}
      (nothing : g.applyFailure id amount now = none) : Happens reset g (.idle id amount now) g
  | load (g : Graph) (read : Snapshot) (valid : ∀ r ∈ read.halves, r.valid = true) :
      Happens reset g (.load read) (read.load g)
  | restart (g : Graph) (s : Store) {read : Snapshot} (gives : (s.save g).snapshot.Gives read) :
      Happens reset g (.restart read) (read.load (.empty g.selfId))

/-- Events lead from one graph to another. -/
inductive Course (reset : UInt64) : Graph → List Event → Graph → Prop
  | nil (g : Graph) : Course reset g [] g
  | cons {g g' g'' : Graph} {e : Event} {rest : List Event} (first : Happens reset g e g')
      (next : Course reset g' rest g'') : Course reset g (e :: rest) g''

/-! ## Order -/

/-- What every event keeps, and a restart relies on. -/
structure InOrder (g : Graph) : Prop where
  keyed : g.Keyed
  known : g.Known
  storable : g.Storable

theorem inOrder_empty (selfId : String) : (empty selfId).InOrder := by
  refine ⟨keyed_empty selfId, known_empty selfId, fun id h hh => ?_⟩
  simp [empty] at hh

theorem direction_le_of_directed {h : Half} (hd : h.Directed) : h.id.direction ≤ 1 := by
  rw [hd, directionOf]
  split <;> decide

/-- The table goes on to admit all halves if it admits those that are added. -/
theorem Evolves.storable {Fit : Graph → Half → Prop} {g g' : Graph} (h : Evolves Fit g g')
    (fit : ∀ g h, Fit g h → h.id.direction ≤ 1) (hg : g.Storable) : g'.Storable := by
  induction h with
  | refl g => exact hg
  | trans _ _ ih ih' => exact ih' (ih hg)
  | reshape halves _ =>
      intro id k hk
      obtain ⟨k', hk', -⟩ := halves.exists_before hk
      exact hg id k' hk'
  | name g id nickname =>
      intro k h hh
      rw [halves_nameNode] at hh
      exact hg k h hh
  | connect g => exact hg
  | @insert g h hfit =>
      intro id k hk
      rw [getElem?_insertHalf] at hk
      split at hk
      · rename_i hid
        rw [← hid]
        exact fit g h hfit
      · exact hg id k hk

theorem InOrder.evolves {g g' : Graph} (hg : g.InOrder) (h : Evolves Fresh g g') : g'.InOrder :=
  ⟨h.fits_of_fresh.preserves.keyed hg.keyed, h.known hg.known,
    h.storable (fun _ _ hf => direction_le_of_directed hf.directed) hg.storable⟩

theorem InOrder.applyOwn {g : Graph} (hg : g.InOrder) (channels : List OwnChannel) (now : Time) :
    (g.applyOwn channels now).InOrder := by
  have hsteps := evolves_applyOwn g channels now
  refine ⟨hsteps.preserves.keyed hg.keyed, hsteps.known hg.known, ?_⟩
  have hadded : ((g.withOwn channels).addMissing now).Storable := by
    intro id k hk
    rcases mem_or_known_of_insertAll hk with ⟨hmem, hid⟩ | hold
    · obtain ⟨-, scid, c, -, hown⟩ := exists_own_of_mem_missingOwn hmem
      rw [← hid]
      exact direction_le_of_directed (directed_of_mem_ownHalves hown)
    · exact hg.storable id k hold
  have hsynced : Evolves Fresh ((g.withOwn channels).addMissing now) (g.applyOwn channels now) := by
    rw [applyOwn_eq]
    exact .trans (evolves_syncOwn _ now) (.connect _)
  exact hsynced.storable (fun _ _ hf => direction_le_of_directed hf.directed) hadded

theorem InOrder.load {g : Graph} (hg : g.InOrder) {read : Snapshot}
    (valid : ∀ r ∈ read.halves, r.valid = true) : (read.load g).InOrder := by
  have hadmits : ∀ h ∈ read.halves.map HalfRow.half, h.id.direction ≤ 1 := by
    intro h hh
    obtain ⟨r, hr, rfl⟩ := List.mem_map.mp hh
    exact of_decide_eq_true (valid r hr)
  have hsteps : Evolves (fun g h => g.Fits h ∧ h.id.direction ≤ 1) g (read.load g) :=
    evolves_restore (fun _ h hh hu => ⟨fits_of_unknown hu, hadmits h hh⟩) g read.nodes
  have hfits : Evolves Fits g (read.load g) := hsteps.mono fun _ _ hf => hf.1
  exact ⟨hfits.preserves.keyed hg.keyed, hsteps.known hg.known,
    hsteps.storable (fun _ _ hf => hf.2) hg.storable⟩

theorem InOrder.alike_restart {g : Graph} (hg : g.InOrder) {s : Store} {read : Snapshot}
    (gives : (s.save g).snapshot.Gives read) : Alike g (read.load (.empty g.selfId)) :=
  alike_load hg.keyed hg.known hg.storable gives

theorem InOrder.restart {g : Graph} (hg : g.InOrder) {s : Store} {read : Snapshot}
    (gives : (s.save g).snapshot.Gives read) : (read.load (.empty g.selfId)).InOrder := by
  have halike := hg.alike_restart gives
  have hsteps : Evolves Fits (.empty g.selfId) (read.load (.empty g.selfId)) :=
    evolves_restore (fun _ _ _ hu => fits_of_unknown hu) _ read.nodes
  refine ⟨hsteps.preserves.keyed (keyed_empty _), hsteps.known (known_empty _), ?_⟩
  intro id k hk
  rw [halike.halves] at hk
  exact hg.storable id k hk

theorem Happens.inOrder {reset : UInt64} {g g' : Graph} {e : Event} (h : Happens reset g e g')
    (hg : g.InOrder) : g'.InOrder := by
  cases h with
  | gossip gossip nodes now => exact hg.evolves (evolves_applyGossip g gossip nodes now reset)
  | own channels now => exact hg.applyOwn channels now
  | payment route amount now => exact hg.evolves (evolves_applyPayment g route amount now)
  | failure learned => exact hg.evolves (evolves_applyFailure learned)
  | idle => exact hg
  | load read valid => exact hg.load valid
  | restart s gives => exact hg.restart gives

theorem Course.inOrder {reset : UInt64} {g g' : Graph} {events : List Event}
    (h : Course reset g events g') (hg : g.InOrder) : g'.InOrder := by
  induction h with
  | nil => exact hg
  | cons first _ ih => exact ih (first.inOrder hg)

/-! ## Estimates that are due -/

/-- The reset interval has passed since `learnedAt`. -/
def Due (learnedAt : Time) (reset : UInt64) (now : Time) : Prop :=
  learnedAt + (reset.toNat : Int) ≤ now

instance (learnedAt : Time) (reset : UInt64) (now : Time) : Decidable (Due learnedAt reset now) :=
  inferInstanceAs (Decidable (learnedAt + (reset.toNat : Int) ≤ now))

/-- The age of an estimate tells whether it is due: interval or age is within the signed words, and
where every age is enough, the estimate is not one of the future. -/
structure Tells (learnedAt : Time) (reset : UInt64) (now : Time) : Prop where
  within : (reset.toNat : Int) ≤ maxSigned ∨ now - learnedAt ≤ maxSigned
  past : reset = 0 → learnedAt ≤ now

/-- A bound within the signed words is not lost by clamping to them. -/
theorem le_toNat_clampSigned_iff {n : Nat} {d : Int}
    (within : (n : Int) ≤ maxSigned ∨ d ≤ maxSigned) (past : n = 0 → 0 ≤ d) :
    n ≤ (clampSigned d).toNat ↔ (n : Int) ≤ d := by
  unfold clampSigned
  simp only [maxSigned, minSigned] at within ⊢
  by_cases hzero : n = 0
  · have hpast := past hzero
    omega
  · constructor
    · intro hle
      omega
    · intro hle
      omega

theorem le_estimateAge_iff {h : Half} {reset : UInt64} {now : Time}
    (tells : Tells h.liquidityAt reset now) :
    reset.toNat ≤ estimateAge h now ↔ Due h.liquidityAt reset now := by
  have hpast : reset.toNat = 0 → 0 ≤ now - h.liquidityAt :=
    fun hzero => Int.sub_nonneg_of_le (tells.past (UInt64.toNat_inj.mp hzero))
  have hage : reset.toNat ≤ estimateAge h now ↔ (reset.toNat : Int) ≤ now - h.liquidityAt :=
    le_toNat_clampSigned_iff tells.within hpast
  rw [hage, Due]
  constructor
  · exact fun hle => Int.add_le_of_le_sub_left hle
  · exact fun hle => Int.le_sub_left_of_add_le hle

/-! ## What an event leaves of an estimate -/

/-- The half `id`, of no own channel, has this estimate of the time `learnedAt`. -/
structure Estimated (g : Graph) (id : HalfId) (estimate : Msat) (learnedAt : Time) : Prop where
  other : g.isOwn id.scid = false
  half : ∃ h : Half, g.halves[id]? = some h ∧ h.liquidity = estimate ∧ h.liquidityAt = learnedAt

instance (g : Graph) (id : HalfId) (estimate : Msat) (learnedAt : Time) :
    Decidable (g.Estimated id estimate learnedAt) :=
  decidable_of_iff
    (g.isOwn id.scid = false ∧
      ∃ h ∈ g.halves[id]?, h.liquidity = estimate ∧ h.liquidityAt = learnedAt)
    ⟨fun h => ⟨h.1, h.2⟩, fun h => ⟨h.other, h.half⟩⟩

variable {g g' : Graph} {id : HalfId} {estimate : Msat} {learnedAt now : Time} {reset : UInt64}

/-- An event that does not touch the half and the own channels. -/
theorem Estimated.congr (h : g.Estimated id estimate learnedAt)
    (hother : g'.isOwn id.scid = false)
    (hhalf : ∀ k : Half, g.halves[id]? = some k → g'.halves[id]? = some k) :
    g'.Estimated id estimate learnedAt := by
  obtain ⟨k, hk, hl⟩ := h.half
  exact ⟨hother, k, hhalf k hk, hl⟩

/-- A gossip refresh clamps the estimate to what it lists, as long as that is not due. -/
theorem Estimated.applyGossip (h : g.Estimated id estimate learnedAt)
    (gossip : List Announcement) (nodes : List NodeAnnouncement)
    (early : id ∈ gossip.map Announcement.id → ¬ Due learnedAt reset now)
    (tells : id ∈ gossip.map Announcement.id → Tells learnedAt reset now) :
    (g.applyGossip gossip nodes now reset).Estimated id
      (((listingsOf gossip id).map (·.capacity)).foldl min estimate) learnedAt := by
  obtain ⟨k, hk, hliquidity, hlearned⟩ := h.half
  have hheard := liquidity_foldl_announced (listingsOf gossip id) k
  refine ⟨?_, _, getElem?_applyGossip h.other hk gossip nodes now reset, ?_⟩
  · rw [isOwn, own_applyGossip]
    exact h.other
  -- A half that is not listed is inactive from now on, a listed one is not old enough.
  rw [← hliquidity, ← hlearned]
  by_cases hlisted : id ∈ gossip.map Announcement.id
  · have hyoung : ¬ reset.toNat ≤ estimateAge (heard gossip id k) now := by
      have hage : (heard gossip id k).liquidityAt = learnedAt := hheard.2.trans hlearned
      rw [le_estimateAge_iff (hage ▸ tells hlisted), hage]
      exact early hlisted
    have hin : (gossip.map Announcement.id).contains id = true := List.contains_iff_mem.mpr hlisted
    unfold aged
    rw [hin, if_neg (by simp), if_neg hyoung]
    exact hheard
  · have hout : (gossip.map Announcement.id).contains id = false := by
      rw [← Bool.not_eq_true, List.contains_iff_mem]
      exact hlisted
    unfold aged
    rw [hout, if_pos (by rfl)]
    exact hheard

/-- An event that spares the half leaves its estimate, clamped to what it lists for the half. -/
theorem Happens.estimated {e : Event} (h : Happens reset g e g') (hg : g.InOrder)
    (before : g.Estimated id estimate learnedAt) (spares : e.Spares id)
    (early : ∀ now, e.Lists id now → ¬ Due learnedAt reset now)
    (tells : ∀ now, e.Lists id now → Tells learnedAt reset now) :
    g'.Estimated id (((e.listings id).map (·.capacity)).foldl min estimate) learnedAt := by
  cases h with
  | gossip gossip nodes now =>
      exact before.applyGossip gossip nodes (fun hl => early now ⟨rfl, hl⟩)
        fun hl => tells now ⟨rfl, hl⟩
  | own channels now =>
      have hother : (g.withOwn channels).isOwn id.scid = false := isOwn_withOwn spares
      refine before.congr ?_ fun k hk => getElem?_applyOwn hother hk now
      rw [applyOwn_eq]
      show ((g.withOwn channels).addMissing now).isOwn id.scid = false
      rw [isOwn, own_addMissing]
      exact hother
  | payment route amount now =>
      refine before.congr ?_ fun k hk => ?_
      · rw [isOwn_applyPayment]
        exact before.other
      · rw [getElem?_applyPayment before.other, hk]
  | failure learned =>
      obtain ⟨-, k', -, hhalves⟩ := getElem?_applyFailure learned
      refine before.congr ?_ fun k hk => ?_
      · rw [isOwn, (own_applyFailure learned).1]
        exact before.other
      · rw [hhalves, if_neg spares.1, if_neg spares.2, hk]
  | idle => exact before
  | load read valid =>
      refine before.congr ?_ fun k hk => getElem?_load hk read
      rw [isOwn, own_load]
      exact before.other
  | restart s gives =>
      refine before.congr ?_ fun k hk => ?_
      · rw [isOwn, own_load]
        exact TreeMap.contains_emptyc
      · rw [(hg.alike_restart gives).halves, hk]

/-- A run of events that spare the half leaves its estimate, clamped to what they list for it. -/
theorem Course.estimated {events : List Event} (h : Course reset g events g') (hg : g.InOrder)
    (before : g.Estimated id estimate learnedAt) (spared : ∀ e ∈ events, e.Spares id)
    (early : ∀ e ∈ events, ∀ now, e.Lists id now → ¬ Due learnedAt reset now)
    (tells : ∀ e ∈ events, ∀ now, e.Lists id now → Tells learnedAt reset now) :
    g'.Estimated id (((events.flatMap (·.listings id)).map (·.capacity)).foldl min estimate)
      learnedAt := by
  induction h generalizing estimate with
  | nil => exact before
  | @cons _ _ _ e rest first next ih =>
      have hfirst := first.estimated hg before (spared e (by simp)) (early e (by simp))
        (tells e (by simp))
      have hrest := ih (first.inOrder hg) hfirst (fun e he => spared e (by simp [he]))
        (fun e he => early e (by simp [he])) fun e he => tells e (by simp [he])
      rw [List.flatMap_cons, List.map_append, List.foldl_append]
      exact hrest

/-- A gossip refresh that lists a half whose estimate is due sets it to half of the capacity. -/
theorem Estimated.applyGossip_of_due (h : g.Estimated id estimate learnedAt)
    {gossip : List Announcement} {a : Announcement} (nodes : List NodeAnnouncement)
    (listed : (listingsOf gossip id).getLast? = some a) (due : Due learnedAt reset now)
    (tells : Tells learnedAt reset now) :
    (g.applyGossip gossip nodes now reset).Estimated id (a.capacity / 2) now := by
  obtain ⟨k, hk, -, hlearned⟩ := h.half
  have hage : (heard gossip id k).liquidityAt = learnedAt :=
    (liquidity_foldl_announced (listingsOf gossip id) k).2.trans hlearned
  have hold : reset.toNat ≤ estimateAge (heard gossip id k) now := by
    rw [le_estimateAge_iff (hage ▸ tells), hage]
    exact due
  have hin : (gossip.map Announcement.id).contains id = true := by
    rw [List.contains_iff_mem]
    by_contra hout
    rw [listingsOf_eq_nil_iff.mpr hout] at listed
    cases listed
  refine ⟨?_, _, getElem?_applyGossip h.other hk gossip nodes now reset, ?_⟩
  · rw [isOwn, own_applyGossip]
    exact h.other
  · unfold aged
    rw [hin, if_neg (by simp), if_pos hold]
    have hcapacity : (heard gossip id k).capacity = a.capacity := capacity_foldl_announced listed k
    exact ⟨congrArg (· / 2) hcapacity, rfl⟩

/-! ## From failure to reset -/

/-- Whatever happens to a graph after a failure was learned, restarts included: as long as the
channel does not become an own one, nothing more is learned of the half and no gossip refresh lists
it when it is due, the estimate stays with its time, clamped to the capacities that are listed. The
next refresh that lists it when it is due sets it to half of the capacity. -/
theorem estimate_kept_until_due {selfId : String} {before events : List Event} {g₀ g₁ : Graph}
    {blamed : HalfId} {amount : Msat} {h₁ : Half}
    (reached : Course reset (.empty selfId) before g₀)
    (learned : g₀.applyFailure blamed amount learnedAt = some g₁)
    (set : id = blamed ∨ id = blamed.opposite) (known : g₁.halves[id]? = some h₁)
    (course : Course reset g₁ events g) (spared : ∀ e ∈ events, e.Spares id)
    (early : ∀ e ∈ events, ∀ now, e.Lists id now → ¬ Due learnedAt reset now)
    (tells : ∀ e ∈ events, ∀ now, e.Lists id now → Tells learnedAt reset now) :
    g.Estimated id (((events.flatMap (·.listings id)).map (·.capacity)).foldl min h₁.liquidity)
        learnedAt ∧
      ∀ (gossip : List Announcement) (nodes : List NodeAnnouncement) (now : Time)
        (a : Announcement), (listingsOf gossip id).getLast? = some a → Due learnedAt reset now →
        Tells learnedAt reset now →
        (g.applyGossip gossip nodes now reset).Estimated id (a.capacity / 2) now := by
  have horder : g₁.InOrder :=
    (reached.inOrder (inOrder_empty selfId)).evolves (evolves_applyFailure learned)
  have hother : g₁.isOwn id.scid = false := by
    have hscid : id.scid = blamed.scid := by
      rcases set with rfl | rfl
      · rfl
      · rfl
    rw [isOwn, (own_applyFailure learned).1, hscid]
    exact (getElem?_applyFailure learned).1
  have hstart : g₁.Estimated id h₁.liquidity learnedAt :=
    ⟨hother, h₁, known, rfl, liquidityAt_of_applyFailure learned set known⟩
  have hend := course.estimated horder hstart spared early tells
  exact ⟨hend, fun gossip nodes now a listed due tells =>
    hend.applyGossip_of_due nodes listed due tells⟩

/-! ## One half of others -/

/-- The half from `b` to `c`. -/
def halfToC : HalfId := ⟨"1x1", 0⟩

/-- How the gossip lists this half. -/
def listingToC (capacity : Msat) : Announcement where
  source := "b"
  destination := "c"
  scid := "1x1"
  capacity := capacity
  active := true
  baseFee := 1
  rate := 0
  delay := 0
  htlcMin := 0
  htlcMax := none

/-- A graph that has just heard of the half. -/
def heardOfC (now : Time) (reset : UInt64) : Graph :=
  (empty "a").applyGossip [listingToC 4000000] [] now reset

theorem course_heardOfC (now : Time) (reset : UInt64) :
    Course reset (.empty "a") [.gossip [listingToC 4000000] [] now] (heardOfC now reset) :=
  .cons (.gossip _ _ _ _) (.nil _)

/-- After the failure the half is listed with less capacity, saved and read back, and left out of
the gossip when the interval of 100 seconds has passed. It is reset when it is listed again. -/
theorem estimate_kept_until_due_restarted :
    Course 100 (.empty "a") [.gossip [listingToC 4000000] [] 5] (heardOfC 5 100) ∧
      ∃ (g₁ g : Graph) (h₁ : Half) (read : Snapshot),
        (heardOfC 5 100).applyFailure halfToC 1500000 10 = some g₁ ∧
          g₁.halves[halfToC]? = some h₁ ∧ h₁.liquidity = 500000 ∧
          Course 100 g₁ [.gossip [listingToC 400000] [] 50, .restart read, .gossip [] [] 120] g ∧
          g.Estimated halfToC 400000 10 ∧
          (g.applyGossip [listingToC 300000] [] 130 100).Estimated halfToC 150000 130 := by
  have hlearned : ∃ g₁ ∈ (heardOfC 5 100).applyFailure halfToC 1500000 10,
      ∃ h₁ ∈ g₁.halves[halfToC]?, h₁.liquidity = 500000 := by
    decide +kernel
  obtain ⟨g₁, hg₁, h₁, hh₁, hliquidity⟩ := hlearned
  let g₂ := g₁.applyGossip [listingToC 400000] [] 50 100
  let read := (({} : Store).save g₂).snapshot
  have hgives : (({} : Store).save g₂).snapshot.Gives read := ⟨.refl _, .refl _⟩
  have hcourse : Course 100 g₁ [.gossip [listingToC 400000] [] 50, .restart read,
      .gossip [] [] 120] ((read.load (.empty g₂.selfId)).applyGossip [] [] 120 100) :=
    .cons (.gossip _ _ _ _) (.cons (.restart g₂ {} hgives) (.cons (.gossip _ _ _ _) (.nil _)))
  -- Of the three events only the first lists the half, at the age of 40 seconds.
  have hkept := estimate_kept_until_due (course_heardOfC 5 100) hg₁ (Or.inl rfl) hh₁ hcourse
    (by simp [Event.Spares])
    (by simp [Event.Lists, Due])
    (by
      simp only [List.forall_mem_cons, Event.Lists, List.map_nil, List.not_mem_nil, and_false,
        false_implies, implies_true, and_true]
      exact fun now _ => ⟨Or.inl (by decide), nofun⟩)
  rw [hliquidity] at hkept
  exact ⟨course_heardOfC 5 100, g₁, _, h₁, read, hg₁, hh₁, hliquidity, hcourse, hkept.1,
    hkept.2 [listingToC 300000] [] 130 (listingToC 300000) rfl (by decide)
      ⟨Or.inl (by decide), nofun⟩⟩

/-- Where every age is enough, an estimate is reset by a listing before its time. Over the longest
times and the longest interval, it is not reset when the interval has passed. -/
theorem misjudged_ages :
    (¬ Due 10 0 7 ∧ ∃ g₁ ∈ (heardOfC 5 0).applyFailure halfToC 1500000 10,
      g₁.Estimated halfToC 500000 10 ∧
        (g₁.applyGossip [listingToC 4000000] [] 7 0).Estimated halfToC 2000000 7) ∧
    (Due minSigned 0xFFFFFFFFFFFFFFFF maxSigned ∧
      ∃ g₁ ∈ (heardOfC minSigned 0xFFFFFFFFFFFFFFFF).applyFailure halfToC 1500000 minSigned,
        g₁.Estimated halfToC 500000 minSigned ∧
          (g₁.applyGossip [listingToC 4000000] [] maxSigned 0xFFFFFFFFFFFFFFFF).Estimated halfToC
            500000 minSigned) := by
  refine ⟨⟨by decide, ?_⟩, by decide, ?_⟩
  · decide +kernel
  · decide +kernel

end Graph

end Rebalancer
