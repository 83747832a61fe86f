import Mathlib.Data.List.Flatten
import Mathlib.Data.List.Nodup
import Rebalancer.Proofs.Execution.Submissions

set_option autoImplicit false

/-! # Invoices and their labels

Each try asks for an invoice of its own, and the node knows the invoice by its label alone. The
label is made of the identifier of the request, the number of the chunk and that of the try. No
request comes back to a try that it has left, so all its labels differ, even if others change the
books meanwhile (`SharedRun.exists_invoices`). Those of different requests differ because their
identifiers are of one length. An invoice is deleted only right after the wait for its payment told
nothing (`EndsInVain`). So however the node replies, what is deleted is the invoice of the try that
is given up, and no other try has asked for one with that label (`deletes_own_invoice`).
-/

namespace Rebalancer

/-! ## Identifiers -/

namespace Text

/-- A digit is read back. -/
theorem hexValue?_hexDigit : ∀ d < 16, hexValue? (hexDigit d) = some d := by decide

theorem length_hexDigits (n width : Nat) : (hexDigits n width).length = width := by
  induction width generalizing n with
  | zero => rfl
  | succ width ih => simp [hexDigits, ih]

theorem isSome_hexValue?_of_mem_hexDigits {n width : Nat} {c : Char}
    (h : c ∈ hexDigits n width) : (hexValue? c).isSome := by
  induction width generalizing n with
  | zero => simp [hexDigits] at h
  | succ width ih =>
      rcases List.mem_append.mp h with h | h
      · exact ih h
      · rw [List.mem_singleton.mp h, hexValue?_hexDigit _ (Nat.mod_lt _ (by decide))]
        rfl

/-- Numbers that fit are told apart by their digits. -/
theorem hexDigits_inj {n n' width : Nat} (hn : n < 16 ^ width) (hn' : n' < 16 ^ width) :
    hexDigits n width = hexDigits n' width ↔ n = n' := by
  refine ⟨fun h => ?_, fun h => by rw [h]⟩
  induction width generalizing n n' with
  | zero => omega
  | succ width ih =>
      obtain ⟨hrest, hlast⟩ := List.append_inj' h rfl
      have hquot := ih (by omega) (by omega) hrest
      have hdigit := congrArg hexValue? (List.singleton_inj.mp hlast)
      rw [hexValue?_hexDigit _ (Nat.mod_lt _ (by decide)),
        hexValue?_hexDigit _ (Nat.mod_lt _ (by decide))] at hdigit
      have hmod := Option.some.inj hdigit
      omega

end Text

/-- A text of sixteen hexadecimal digits, in either case. -/
structure Request.IsId (id : String) : Prop where
  length : id.length = 16
  digits : ∀ c ∈ id.toList, (Text.hexValue? c).isSome

theorem Request.isId_idOf (seed : UInt64) : IsId (idOf seed) where
  length := by rw [idOf, String.length_ofList, Text.length_hexDigits]
  digits c hc := by
    rw [idOf, String.toList_ofList] at hc
    exact Text.isSome_hexValue?_of_mem_hexDigits hc

/-- Different random words make different identifiers. -/
theorem Request.idOf_inj {seed seed' : UInt64} : idOf seed = idOf seed' ↔ seed = seed' := by
  rw [idOf, idOf, String.ofList_inj, Text.hexDigits_inj seed.toNat_lt seed'.toNat_lt,
    UInt64.toNat_inj]

/-! ## Labels -/

variable {r r' : Request} {index index' tries tries' : Nat}

/-- Identifiers of one length do not run into the numbers behind them. -/
theorem id_eq_of_invoiceLabel_eq (length : r.id.length = r'.id.length)
    (h : invoiceLabel r index tries = invoiceLabel r' index' tries') : r.id = r'.id := by
  simp only [invoiceLabel, toString, String.append_assoc, String.append_right_inj] at h
  have hlist := congrArg String.toList h
  simp only [String.toList_append] at hlist
  have hlength : r.id.toList.length = r'.id.toList.length := by
    rw [String.length_toList, String.length_toList, length]
  exact String.toList_injective (List.append_inj_left hlist hlength)

/-- The place of a try in a run of a request: the number of the chunk, and the number of the try
among those at the chunk. -/
structure TryPlace where
  chunk : Nat
  tries : Nat

/-- The label of the invoice that the try asks for. -/
def TryPlace.label (r : Request) (p : TryPlace) : String := invoiceLabel r p.chunk p.tries

theorem TryPlace.label_injective (r : Request) : Function.Injective (TryPlace.label r) := by
  rintro ⟨chunk, tries⟩ ⟨chunk', tries'⟩ h
  obtain ⟨rfl, rfl⟩ := invoiceLabel_inj.mp h
  rfl

/-- Places that are counted further than others differ from them. -/
theorem nodup_append_of_counted {places places' : List TryPlace} {count : TryPlace → Nat} {n : Nat}
    (h : places.Nodup) (h' : places'.Nodup) (here : ∀ p ∈ places, count p = n)
    (later : ∀ p ∈ places', n < count p) : (places ++ places').Nodup := by
  refine h.append h' fun p hp hp' => ?_
  have hlt := later p hp'
  rw [here p hp] at hlt
  exact Nat.lt_irrefl n hlt

/-- The label of the invoice that an exchange asks for, if it does, whether or not it gets one. -/
def Query.askedLabel? :
    (q : Query.interface.Question) × Query.interface.Answer q → Option String
  | ⟨.createInvoice _ label _, _⟩ => some label
  | ⟨.sendPay .., _⟩ | ⟨.waitPay .., _⟩ | ⟨.deleteInvoice _, _⟩ | ⟨.info, _⟩ | ⟨.gossip, _⟩
  | ⟨.nodes, _⟩ | ⟨.channels, _⟩ | ⟨.clock, _⟩ | ⟨.random, _⟩ | ⟨.stopwatch, _⟩ => none

/-- The labels of the invoices that a record asks for, in order. -/
def labelsIn (record : Exchanges) : List String := record.filterMap Query.askedLabel?

theorem labelsIn_append (first second : Exchanges) :
    labelsIn (first ++ second) = labelsIn first ++ labelsIn second := List.filterMap_append

/-! ## Deletions -/

variable {timeout : UInt64} {label hash : String} {record : Exchanges}

/-- What was exchanged ends with a try that made an invoice with this label and a payment of it, and
that waited for the payment in vain. -/
def EndsInVain (timeout : UInt64) (label : String) (before : Exchanges) : Prop :=
  ∃ (earlier : Exchanges) (route : Route) (invoice : Invoice) (answer : Reply PaymentOutcome)
    (reason : String),
    before = earlier ++
      [(Query.createInvoice route.amount label invoiceDescription).answered (.ok invoice),
        (Query.sendPay route.paymentHops invoice.hash invoice.secret).answered (.ok ()),
        (Query.waitPay invoice.hash timeout).answered answer] ∧
      Execution.stopReason? timeout invoice.hash answer = some reason

theorem EndsInVain.append_left {before : Exchanges} (h : EndsInVain timeout label before)
    (first : Exchanges) : EndsInVain timeout label (first ++ before) := by
  obtain ⟨earlier, route, invoice, answer, reason, rfl, stop⟩ := h
  exact ⟨first ++ earlier, route, invoice, answer, reason, (List.append_assoc ..).symm, stop⟩

theorem EndsInVain.mem_labelsIn {before : Exchanges} (h : EndsInVain timeout label before) :
    label ∈ labelsIn before := by
  obtain ⟨earlier, route, invoice, answer, reason, rfl, -⟩ := h
  rw [labelsIn_append]
  exact List.mem_append_right _ (List.mem_singleton_self label)

/-- Whatever invoice the record deletes, the try with that label has just been in vain. -/
def DeletesInVain (timeout : UInt64) (record : Exchanges) : Prop :=
  ∀ (i : Nat) (label : String) (removal : Reply InvoiceRemoval),
    record[i]? = some ((Query.deleteInvoice label).answered removal) →
      EndsInVain timeout label (record.take i)

theorem DeletesInVain.append {first second : Exchanges} (h : DeletesInVain timeout first)
    (h' : DeletesInVain timeout second) : DeletesInVain timeout (first ++ second) := by
  intro i label removal hi
  by_cases hlt : i < first.length
  · rw [List.getElem?_append_left hlt] at hi
    rw [List.take_append_of_le_length hlt.le]
    exact h i label removal hi
  · have hle : first.length ≤ i := Nat.le_of_not_lt hlt
    rw [List.getElem?_append_right hle] at hi
    rw [List.take_append, List.take_of_length_le hle]
    exact (h' _ label removal hi).append_left first

/-- A record of one exchange deletes nothing, unless that is what it is. -/
theorem deletesInVain_singleton {e : (q : Query.interface.Question) × Query.interface.Answer q}
    (other : ∀ label removal, e ≠ (Query.deleteInvoice label).answered removal) :
    DeletesInVain timeout [e] := by
  intro i label removal hi
  exact absurd (List.mem_singleton.mp (List.mem_of_getElem? hi)).symm (other label removal)

namespace Execution

variable {b : Books} {route : Route} {amount : Msat} {last : Option Route} {more : Nat}

theorem AwaitRun.labelsIn_eq {result : Option (TryResult × Books)}
    (h : AwaitRun timeout b route label hash record result) : labelsIn record = [] := by
  cases h with
  | completed delivered sent now => rfl
  | failed failure => rfl
  | foundPaid answer reason now stop => rfl
  | givenUp answer reason removal stop unpaid => rfl

/-- A wait deletes at most the invoice that it is told, and that after it was in vain. -/
theorem AwaitRun.deletes {result : Option (TryResult × Books)}
    (h : AwaitRun timeout b route label hash record result) {i : Nat} {label' : String}
    {removal : Reply InvoiceRemoval}
    (hi : record[i]? = some ((Query.deleteInvoice label').answered removal)) :
    label' = label ∧ ∃ answer reason,
      record.take i = [(Query.waitPay hash timeout).answered answer] ∧
        stopReason? timeout hash answer = some reason := by
  cases h with
  | completed delivered sent now =>
      match i, hi with
      | 0, hi => cases hi
      | 1, hi => cases hi
  | failed failure =>
      match i, hi with
      | 0, hi => cases hi
  | foundPaid answer reason now stop =>
      match i, hi with
      | 0, hi => cases hi
      | 1, hi =>
          cases hi
          exact ⟨rfl, answer, reason, rfl, stop⟩
      | 2, hi => cases hi
  | givenUp answer reason removal' stop unpaid =>
      match i, hi with
      | 0, hi => cases hi
      | 1, hi =>
          cases hi
          exact ⟨rfl, answer, reason, rfl, stop⟩

theorem PayRun.labelsIn_eq {result : Option (TryResult × Books)}
    (h : PayRun timeout b route label record result) : labelsIn record = [label] := by
  cases h with
  | noInvoice e => rfl
  | notSent invoice e => rfl
  | sent invoice wait => exact congrArg (label :: ·) wait.labelsIn_eq

theorem PayRun.deletesInVain {result : Option (TryResult × Books)}
    (h : PayRun timeout b route label record result) : DeletesInVain timeout record := by
  cases h with
  | noInvoice e => exact deletesInVain_singleton nofun
  | notSent invoice e =>
      intro i label' removal hi
      match i, hi with
      | 0, hi => cases hi
      | 1, hi => cases hi
  | sent invoice wait =>
      intro i label' removal hi
      match i, hi with
      | 0, hi => cases hi
      | 1, hi => cases hi
      | i + 2, hi =>
          obtain ⟨rfl, answer, reason, htake, stop⟩ := wait.deletes hi
          refine ⟨[], route, invoice, answer, reason, ?_, stop⟩
          rw [List.take_succ_cons, List.take_succ_cons, htake]
          rfl

/-- The record asks for one invoice at each of these places, and deletes none but in vain. -/
structure Invoices (timeout : UInt64) (r : Request) (record : Exchanges) (places : List TryPlace) :
    Prop where
  asked : labelsIn record = places.map (TryPlace.label r)
  deleted : DeletesInVain timeout record

theorem Invoices.append {first second : Exchanges} {places places' : List TryPlace}
    (h : Invoices timeout r first places) (h' : Invoices timeout r second places') :
    Invoices timeout r (first ++ second) (places ++ places') where
  asked := by rw [labelsIn_append, h.asked, h'.asked, List.map_append]
  deleted := h.deleted.append h'.deleted

theorem invoices_clock (now : Time) : Invoices timeout r [Query.clock.answered now] [] :=
  ⟨rfl, deletesInVain_singleton nofun⟩

theorem invoices_stopwatch (now : UInt64) :
    Invoices timeout r [Query.stopwatch.answered now] [] :=
  ⟨rfl, deletesInVain_singleton nofun⟩

theorem PayRun.invoices {result : Option (TryResult × Books)}
    (h : PayRun timeout b route (invoiceLabel r index tries) record result) :
    Invoices timeout r record [⟨index, tries⟩] := ⟨h.labelsIn_eq, h.deletesInVain⟩

/-- A try asks for one invoice, if there is a route for it. -/
theorem TryRun.exists_invoices {result : Option (Attempt × Option Route × Books)}
    (h : TryRun timeout r index amount tries last b record result) :
    ∃ places, Invoices timeout r record places ∧ places.Nodup ∧
      ∀ p ∈ places, p.chunk = index ∧ p.tries = tries := by
  have here : ∀ p ∈ [(⟨index, tries⟩ : TryPlace)], p.chunk = index ∧ p.tries = tries := by simp
  cases h with
  | noRoute failure now found => exact ⟨[], invoices_clock now, .nil, nofun⟩
  | tooDear route now found dear => exact ⟨[], invoices_clock now, .nil, nofun⟩
  | broken route found cheap paid => exact ⟨_, paid.invoices, List.nodup_singleton _, here⟩
  | moved route found cheap paid now =>
      exact ⟨_, paid.invoices.append (invoices_clock now), List.nodup_singleton _, here⟩
  | failed route found cheap paid now =>
      exact ⟨_, paid.invoices.append (invoices_clock now), List.nodup_singleton _, here⟩

/-! ## Requests that share the books -/

/-- How the tries at a chunk can go while others change the books, of which at most `more` follow
the first. A try looks at the books only to find its route, and finds them as they are by then. -/
inductive SharedTries (timeout : UInt64) (r : Request) (index : Nat) (amount : Msat) :
    Nat → Nat → Option Route → Exchanges → Prop
  | last {more tries : Nat} {last : Option Route} {b : Books} {record : Exchanges}
      {result : Option (Attempt × Option Route × Books)}
      (step : (tryChunk timeout r index amount tries last b).Runs record result) :
      SharedTries timeout r index amount more tries last record
  | again {more tries : Nat} {last : Option Route} {b b' : Books} {first rest : Exchanges}
      {attempt : Attempt} {route : Route}
      (step : (tryChunk timeout r index amount tries last b).Runs first
        (some (attempt, some route, b')))
      (next : SharedTries timeout r index amount more (tries + 1) (some route) rest) :
      SharedTries timeout r index amount (more + 1) tries last (first ++ rest)

/-- How the chunks can go, the first of them with number `index`, up to the end or to a chunk that
breaks off. -/
inductive SharedChunks (timeout : UInt64) (r : Request) : Nat → List Msat → Exchanges → Prop
  | done {index : Nat} {chunks : List Msat} : SharedChunks timeout r index chunks []
  | chunk {index : Nat} {amount : Msat} {rest : List Msat} {first second : Exchanges}
      (tries : SharedTries timeout r index amount (r.attempts - 1) 1 none first)
      (next : SharedChunks timeout r (index + 1) rest second) :
      SharedChunks timeout r index (amount :: rest) (first ++ second)

/-- How the carrying out of a request can go, between two looks at the stopwatch. -/
inductive SharedRun (timeout : UInt64) (r : Request) : Exchanges → Prop
  | broken (start : UInt64) {record : Exchanges}
      (chunks : SharedChunks timeout r 0 r.chunks record) :
      SharedRun timeout r (Query.stopwatch.answered start :: record)
  | finished (start stop : UInt64) {record : Exchanges}
      (chunks : SharedChunks timeout r 0 r.chunks record) :
      SharedRun timeout r
        (Query.stopwatch.answered start :: (record ++ [Query.stopwatch.answered stop]))

theorem TriesRun.shared {result : Option (Attempt × Books)}
    (h : TriesRun timeout r index amount more tries last b record result) :
    SharedTries timeout r index amount more tries last record := by
  induction h with
  | broken step => exact .last (runs_tryChunk_iff.mpr step)
  | stopped step final => exact .last (runs_tryChunk_iff.mpr step)
  | again step next ih => exact .again (runs_tryChunk_iff.mpr step) ih

theorem ChunksRun.shared {chunks : List Msat} {result : Option (List Attempt × Books)}
    (h : ChunksRun timeout r index chunks b record result) :
    SharedChunks timeout r index chunks record := by
  -- A chunk after which nothing comes any more.
  have final : ∀ {index : Nat} {amount : Msat} {rest : List Msat} {record : Exchanges},
      SharedTries timeout r index amount (r.attempts - 1) 1 none record →
      SharedChunks timeout r index (amount :: rest) record := fun tries => by
    simpa using SharedChunks.chunk tries .done
  induction h with
  | nil => exact .done
  | broken chunk => exact final chunk.shared
  | unrecorded chunk lost => exact final chunk.shared
  | cons chunk kept next ih => exact .chunk chunk.shared ih

/-- A request that has the books to itself is a case of it. -/
theorem sharedRun_of_runs {result : Option (Summary × Books)}
    (h : (execute timeout r b).Runs record result) : SharedRun timeout r record := by
  cases runs_execute_iff.mp h with
  | broken start chunks => exact .broken start chunks.shared
  | finished start stop chunks => exact .finished start stop chunks.shared

/-- The tries at a chunk are counted upwards. -/
theorem SharedTries.exists_invoices
    (h : SharedTries timeout r index amount more tries last record) :
    ∃ places, Invoices timeout r record places ∧ places.Nodup ∧
      ∀ p ∈ places, p.chunk = index ∧ tries ≤ p.tries := by
  induction h with
  | last step =>
      obtain ⟨places, hinvoices, hnodup, hat⟩ := (runs_tryChunk_iff.mp step).exists_invoices
      exact ⟨places, hinvoices, hnodup, fun p hp => ⟨(hat p hp).1, (hat p hp).2.ge⟩⟩
  | again step next ih =>
      obtain ⟨places, hinvoices, hnodup, hat⟩ := (runs_tryChunk_iff.mp step).exists_invoices
      obtain ⟨places', hinvoices', hnodup', hfrom⟩ := ih
      have hall : (places ++ places').Nodup := nodup_append_of_counted hnodup hnodup'
        (fun p hp => (hat p hp).2) fun p hp => (hfrom p hp).2
      refine ⟨places ++ places', hinvoices.append hinvoices', hall, fun p hp => ?_⟩
      rcases List.mem_append.mp hp with hp | hp
      · exact ⟨(hat p hp).1, (hat p hp).2.ge⟩
      · exact ⟨(hfrom p hp).1, Nat.le_of_succ_le (hfrom p hp).2⟩

/-- So are the chunks. -/
theorem SharedChunks.exists_invoices {chunks : List Msat}
    (h : SharedChunks timeout r index chunks record) :
    ∃ places, Invoices timeout r record places ∧ places.Nodup ∧
      ∀ p ∈ places, index ≤ p.chunk := by
  induction h with
  | done => exact ⟨[], ⟨rfl, by simp [DeletesInVain]⟩, .nil, nofun⟩
  | chunk tries next ih =>
      obtain ⟨places, hinvoices, hnodup, hat⟩ := tries.exists_invoices
      obtain ⟨places', hinvoices', hnodup', hfrom⟩ := ih
      have hall : (places ++ places').Nodup := nodup_append_of_counted hnodup hnodup'
        (fun p hp => (hat p hp).1) fun p hp => hfrom p hp
      refine ⟨places ++ places', hinvoices.append hinvoices', hall, fun p hp => ?_⟩
      rcases List.mem_append.mp hp with hp | hp
      · exact (hat p hp).1.ge
      · exact Nat.le_of_succ_le (hfrom p hp)

/-- However the node replies, a request asks for at most one invoice at each place. -/
theorem SharedRun.exists_invoices (h : SharedRun timeout r record) :
    ∃ places, Invoices timeout r record places ∧ places.Nodup := by
  cases h with
  | broken start chunks =>
      obtain ⟨places, hinvoices, hnodup, -⟩ := chunks.exists_invoices
      exact ⟨places, (invoices_stopwatch start).append hinvoices, hnodup⟩
  | finished start stop chunks =>
      obtain ⟨places, hinvoices, hnodup, -⟩ := chunks.exists_invoices
      have hrun := (invoices_stopwatch start).append (hinvoices.append (invoices_stopwatch stop))
      rw [List.nil_append, List.append_nil] at hrun
      exact ⟨places, hrun, hnodup⟩

end Execution

/-! ## Requests in any number -/

/-- A request that was carried out, alone or along with others, and what was exchanged for it. -/
structure RequestRun where
  timeout : UInt64
  request : Request
  record : Exchanges
  runs : Execution.SharedRun timeout request record

/-- The labels of the invoices that some requests ask for. -/
def labelsOf (runs : List RequestRun) : List String := runs.flatMap fun x => labelsIn x.record

theorem RequestRun.nodup_labelsIn (x : RequestRun) : (labelsIn x.record).Nodup := by
  obtain ⟨places, hinvoices, hnodup⟩ := x.runs.exists_invoices
  rw [hinvoices.asked]
  exact hnodup.map (TryPlace.label_injective x.request)

/-- A label tells the request, as long as identifiers are of one length. -/
theorem RequestRun.disjoint_labelsIn {x y : RequestRun}
    (length : x.request.id.length = y.request.id.length) (ne : x.request.id ≠ y.request.id) :
    (labelsIn x.record).Disjoint (labelsIn y.record) := by
  intro label hx hy
  obtain ⟨places, hinvoices, -⟩ := x.runs.exists_invoices
  obtain ⟨places', hinvoices', -⟩ := y.runs.exists_invoices
  rw [hinvoices.asked] at hx
  rw [hinvoices'.asked] at hy
  obtain ⟨p, -, hp⟩ := List.mem_map.mp hx
  obtain ⟨p', -, hp'⟩ := List.mem_map.mp hy
  exact ne (id_eq_of_invoiceLabel_eq length (hp.trans hp'.symm))

/-- All labels differ. -/
theorem nodup_labelsOf {runs : List RequestRun} (ids : ∀ x ∈ runs, Request.IsId x.request.id)
    (distinct : (runs.map (·.request.id)).Nodup) : (labelsOf runs).Nodup := by
  refine List.nodup_flatMap.mpr ⟨fun x _ => x.nodup_labelsIn, ?_⟩
  refine (List.pairwise_map.mp distinct).imp_of_mem fun hx hy ne => ?_
  exact RequestRun.disjoint_labelsIn ((ids _ hx).length.trans (ids _ hy).length.symm) ne

/-- However the node replies to requests with different identifiers, all invoices that they ask for
have different labels. An invoice is deleted only when the try that asked for it has just waited for
its payment in vain, and no other try of any of the requests has asked for an invoice with that
label. -/
theorem deletes_own_invoice (runs : List RequestRun)
    (ids : ∀ x ∈ runs, Request.IsId x.request.id)
    (distinct : (runs.map (·.request.id)).Nodup) :
    (labelsOf runs).Nodup ∧
      ∀ x ∈ runs, ∀ (i : Nat) (label : String) (removal : Reply InvoiceRemoval),
        x.record[i]? = some ((Query.deleteInvoice label).answered removal) →
          EndsInVain x.timeout label (x.record.take i) ∧ (labelsOf runs).count label = 1 := by
  have hnodup := nodup_labelsOf ids distinct
  refine ⟨hnodup, fun x hx i label removal hi => ?_⟩
  obtain ⟨places, hinvoices, -⟩ := x.runs.exists_invoices
  have hvain := hinvoices.deleted i label removal hi
  have hasked : label ∈ labelsIn x.record :=
    (List.take_sublist i x.record).filterMap _ |>.subset hvain.mem_labelsIn
  exact ⟨hvain, List.count_eq_one_of_mem hnodup (List.mem_flatMap.mpr ⟨x, hx, hasked⟩)⟩

/-- A chunk to be moved over `b` in one try, under the identifier that this word makes. -/
def moveAs (seed : UInt64) : Request := { moveOver 1 with id := Request.idOf seed }

/-- What is exchanged when its payment is given up and its invoice is deleted. -/
def gaveUp (seed : UInt64) : Exchanges :=
  [Query.stopwatch.answered 0,
    (Query.createInvoice 1000 (invoiceLabel (moveAs seed) 0 1) invoiceDescription).answered
      (.ok ⟨"h", "s"⟩),
    (Query.sendPay routeOver.paymentHops "h" "s").answered (.ok ()),
    (Query.waitPay "h" 60).answered (.ok .timedOut),
    (Query.deleteInvoice (invoiceLabel (moveAs seed) 0 1)).answered (.ok .deleted),
    Query.clock.answered 0, Query.stopwatch.answered 5]

theorem chunks_moveAs (seed : UInt64) : (moveAs seed).chunks = [1000] := by
  simp [Request.chunks, moveAs, moveOver]

theorem Execution.lookup_moveAs {order : OwnOrder} (seed : UInt64) :
    lookup order Graph.twoChannels (moveAs seed) 1000 = .ok routeOver := Graph.ring_twoChannels

theorem Execution.runs_gaveUp (seed : UInt64) :
    ∃ result, (execute 60 (moveAs seed) (.ofGraph Graph.twoChannels)).Runs (gaveUp seed)
      result := by
  let b := (issued (.ofGraph Graph.twoChannels) "h" routeOver).resolve "h" .timedOut
  have hcheap : routeOver.within (moveAs seed).maxRate = true := by
    rw [show (moveAs seed).maxRate = 1000 from rfl]
    decide
  have hwait : AwaitRun 60 (issued (.ofGraph Graph.twoChannels) "h" routeOver) routeOver
      (invoiceLabel (moveAs seed) 0 1) "h" _ _ :=
    .givenUp (.ok .timedOut) _ (.ok .deleted) rfl nofun
  have hchunk : TriesRun 60 (moveAs seed) 0 1000 0 1 none (.ofGraph Graph.twoChannels) _ _ :=
    .stopped (.failed routeOver (lookup_moveAs seed) hcheap (.sent ⟨"h", "s"⟩ hwait) 0)
      (Or.inl rfl)
  obtain ⟨b', hrecord⟩ := @exists_recordAttempt b (.failed (moveAs seed) 0 1000 (some routeOver) 1
    (.payment _) 0) 0 rfl
  have hchunks : ChunksRun 60 (moveAs seed) 0 [1000] (.ofGraph Graph.twoChannels) _ _ :=
    .cons hchunk hrecord .nil
  rw [← chunks_moveAs seed] at hchunks
  exact ⟨_, runs_execute_iff.mpr (.finished 0 5 hchunks)⟩

/-- Two requests to move such a chunk. -/
theorem deletes_own_invoice_moveAs :
    ∃ first second : RequestRun, first.record = gaveUp 1 ∧ second.record = gaveUp 2 ∧
      (∀ x ∈ [first, second], Request.IsId x.request.id) ∧
      ([first, second].map (·.request.id)).Nodup ∧ (labelsOf [first, second]).Nodup ∧
      EndsInVain 60 (invoiceLabel (moveAs 2) 0 1) ((gaveUp 2).take 4) ∧
      (labelsOf [first, second]).count (invoiceLabel (moveAs 2) 0 1) = 1 := by
  obtain ⟨result, hfirst⟩ := Execution.runs_gaveUp 1
  obtain ⟨result', hsecond⟩ := Execution.runs_gaveUp 2
  let first : RequestRun := ⟨60, moveAs 1, gaveUp 1, Execution.sharedRun_of_runs hfirst⟩
  let second : RequestRun := ⟨60, moveAs 2, gaveUp 2, Execution.sharedRun_of_runs hsecond⟩
  have ids : ∀ x ∈ [first, second], Request.IsId x.request.id := by
    intro x hx
    rcases List.mem_pair.mp hx with rfl | rfl
    · exact Request.isId_idOf 1
    · exact Request.isId_idOf 2
  have distinct : ([first, second].map (·.request.id)).Nodup := by
    have hne : Request.idOf 1 ≠ Request.idOf 2 := Request.idOf_inj.not.mpr (by decide)
    exact List.nodup_cons.mpr ⟨fun h => hne (List.mem_singleton.mp h), List.nodup_singleton _⟩
  obtain ⟨hnodup, hdeleted⟩ := deletes_own_invoice [first, second] ids distinct
  obtain ⟨hvain, hcount⟩ := hdeleted second (by simp) 4 _ (.ok .deleted) rfl
  exact ⟨first, second, rfl, rfl, ids, distinct, hnodup, hvain, hcount⟩

end Rebalancer
