import Rebalancer.Proofs.Store.Costs
import Rebalancer.Store.Document

set_option autoImplicit false

/-! # The store reads back

The document of a store lists the rows of each table, and a list reads back if each of its items
does. Only the table of costs is made anew from its rows: it gives the same answers as the one that
was written (`Store.ofJson?_toJson`), so it is also written in the same way again
(`Store.map_toJson_ofJson?_toJson`).
-/

namespace Rebalancer

open Json

/-- A list of which each item reads back. -/
theorem Json.list?_ofList {α : Type} {encode : α → Json} {decode : Json → Option α}
    (h : ∀ a, decode (encode a) = some a) (items : List α) :
    list? decode (ofList encode items) = some items := by
  show (items.map encode).mapM decode = some items
  induction items with
  | nil => rfl
  | cons a rest ih =>
      rw [List.map_cons, List.mapM_cons, h, ih]
      rfl

namespace Store

/-- What is written of a store reads back, with a table of costs that gives the same answers. -/
theorem ofJson?_toJson (s : Store) :
    ∃ costs : Costs, costs.Equiv s.costs ∧ ofJson? s.toJson = some { s with costs := costs } := by
  have hattempts : (s.toJson.get? "attempts").bind (list? AttemptRow.ofJson?) = some s.attempts :=
    list?_ofList AttemptRow.ofJson?_toJson s.attempts
  have hcosts : (s.toJson.get? "costs").bind (list? costOfJson?) = some s.costs.toList :=
    list?_ofList costOfJson?_costToJson s.costs.toList
  have hhalves : (s.toJson.get? "halves").bind (list? HalfRow.ofJson?) = some s.snapshot.halves :=
    list?_ofList HalfRow.ofJson?_toJson s.snapshot.halves
  have hnodes : (s.toJson.get? "nodes").bind (list? nodeOfJson?) = some s.snapshot.nodes :=
    @list?_ofList _ _ nodeOfJson? (fun _ => rfl) s.snapshot.nodes
  refine ⟨.ofList s.costs.toList _, equiv_ofList_toList s.costs, ?_⟩
  unfold ofJson?
  rw [hattempts, hcosts, hhalves, hnodes]
  rfl

/-- A store that was read back is written in the same way again. -/
theorem map_toJson_ofJson?_toJson (s : Store) : (ofJson? s.toJson).map toJson = some s.toJson := by
  obtain ⟨costs, hequiv, hread⟩ := s.ofJson?_toJson
  rw [hread, Option.map_some]
  unfold toJson
  rw [hequiv.toList_eq]

end Store

end Rebalancer
