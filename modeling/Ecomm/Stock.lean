import Ecomm.CreateRuns
import Mathlib.Data.Finmap

/-! No oversell and no lost decrement, whatever the interleaving of the calls. -/

namespace Ecomm

open Concurrent Sql

/-- In every state that concurrent `create` calls reach, no stock is negative
and what left the stock of a product is what its order items say. -/
theorem stock_conserved {s : AppState} (hs : s.Quiet)
    (hstock : ∀ p, 0 ≤ stock s.store.tables p) (calls : List CreateCall)
    {es : List (Nat × AppChoice)} {c : Config app CreateResult}
    (h : (creation s calls).run es = some c) (p : Uuid) :
    0 ≤ stock c.shared.store.tables p ∧
      stock c.shared.store.tables p + sold c.shared.store.tables p =
        stock s.store.tables p + sold s.store.tables p := by
  obtain ⟨γ, hinv, _⟩ := creation_run hs h
  have hsales := hinv.rest
  constructor
  · unfold stock
    cases hr : (c.shared.store.tables .products).lookup p with
    | none => exact le_refl 0
    | some r => exact hsales.nonneg hstock p r hr
  · rw [hsales.sold p, ← hsales.stock p]
    ring

/-- A shop with one customer and one pen, of which `n` are in stock. -/
def penShop (n : Int) : Database
  | .users => AList.singleton 1 { email := "ann@example.com", createdAt := 0, updatedAt := 0 }
  | .products => AList.singleton 2
    { name := "Pen", sku := "PEN", description := none, price := 3, stock := n, isActive := true
      createdAt := 0, updatedAt := 0 }
  | .orders => ∅
  | .orderItems => ∅
  | .processedMessages => ∅

def penOrder (key : Option String) (quantity : Int) : CreateCall where
  dto := { userId := uuidOut 1, idempotencyKey := none
           items := [{ productId := uuidOut 2, quantity, priceSnapshot := 3 }] }
  idempotencyKey := key

theorem penShop_distinct (n : Int) : Distinct (penShop n) := by
  apply Distinct.of_entries
  intro t e he e' he' _
  cases t <;> simp_all [penShop, AList.singleton]

theorem penShop_stock {n : Int} (hn : 0 ≤ n) (p : Uuid) : 0 ≤ stock (penShop n) p := by
  unfold stock
  cases hr : (penShop n .products).lookup p with
  | none => exact le_refl 0
  | some r =>
    have hmem := AList.mem_lookup_iff.mp hr
    simp only [penShop, AList.singleton, List.mem_singleton] at hmem
    obtain ⟨_, rfl⟩ := Sigma.mk.inj hmem
    exact hn

def tick (id : Uuid) : AppChoice := ⟨⟨false, id, 5⟩, .accepted, id, 5⟩

/-- Two calls insert their orders, and the first one takes the only pen. -/
def penRace : List (Nat × AppChoice) :=
  [(0, tick 10), (1, tick 20), (0, tick 10), (1, tick 20), (0, tick 10), (1, tick 20)] ++
    List.replicate 7 (0, tick 11) ++ List.replicate 2 (1, tick 21)

theorem stock_conserved_penRace :
    ∃ c, (creation (serving (penShop 1)) [penOrder none 1, penOrder none 1]).run penRace = some c ∧
      ∀ p, 0 ≤ stock c.shared.store.tables p ∧
        stock c.shared.store.tables p + sold c.shared.store.tables p =
          stock (penShop 1) p + sold (penShop 1) p := by
  have h : ((creation (serving (penShop 1)) [penOrder none 1, penOrder none 1]).run
      penRace).isSome = true := by decide +kernel
  exact ⟨_, (Option.some_get h).symm, stock_conserved (serving_quiet (penShop_distinct 1))
    (penShop_stock (by decide)) _ (Option.some_get h).symm⟩

end Ecomm
