import Ecomm.Awaited
import Ecomm.Lib.Constant

/-! The owner of an order never changes: what the operations on orders write to
`user_id`, and what they learn about it. -/

namespace Ecomm

open Concurrent Sql

/-- `plain` as long as the thread has started no transaction; `known` lists
orders that it has read with their owners. -/
structure Owners where
  plain : Bool
  known : List (Uuid × Uuid)

namespace Owners

/-- An order is written with the owner that it has, or with the one that was read. -/
def Keeps (g : Owners) : AppOp → Prop
  | .sql (.stmt (.insert .orders (some id) row)) => ∀ now, (id, (row now).userId) ∈ g.known
  | .sql (.stmt (.update .orders id set)) =>
    ∀ now r, (set now r).userId = r.userId ∨ (id, (set now r).userId) ∈ g.known
  | _ => True

def Learns (g : Owners) : (o : AppOp) → Except Thrown o.Ans → Owners → Prop
  | .sql .startTransaction, _, g' => g' = { g with plain := false }
  | .sql (.stmt (.select .orders cond)), .ok rows, g' =>
    let orders : List (Uuid × Order) := rows
    g' = { g with known := g.known ++ orders.map (fun e => (e.1, e.2.userId)) } ∧
      ∀ e ∈ orders, cond e.1 e.2 = true
  | _, _, g' => g' = g

theorem Learns.known {g g' : Owners} {o : AppOp} {r : Except Thrown o.Ans} (h : Learns g o r g') :
    ∀ e ∈ g.known, e ∈ g'.known := by
  intro e he
  unfold Learns at h
  split at h
  · rwa [h]
  · rw [h.1]
    exact List.mem_append_left _ he
  · rwa [h]

end Owners

def owners : Protocol AppOp AppOp.Ans Thrown Owners where
  allowed := Owners.Keeps
  next := Owners.Learns

/-- Operations that keep the owner of order `id` once it is known to be `user`. -/
def KeepsOwner (id user : Uuid) (o : AppOp) : Prop :=
  ∀ g : Owners, (id, user) ∈ g.known → g.Keeps o

section Calls

variable {α : Type} {g : Owners}

theorem owners_awaits {p : App α} {id user : Uuid} (hp : p.Awaits (KeepsOwner id user))
    (hg : (id, user) ∈ g.known) : p.wp owners (fun _ _ => True) (fun _ _ => True) g := by
  have hkept := hp.wp (P := owners) (I := fun g => (id, user) ∈ g.known) ?_ hg
  · exact Prog.wp_mono hkept (fun _ _ _ => trivial) (fun _ _ _ => trivial)
  · intro g o hg ho
    exact ⟨ho g hg, fun r g' hn => hn.known _ hg⟩

theorem owners_keeps {p : App α} {A : AppOp → Prop} (hp : p.Awaits A)
    (hA : ∀ (g : Owners) o, A o → g.Keeps o) : p.wp owners (fun _ _ => True) (fun _ _ => True) g :=
  hp.wp (I := fun _ => True) (fun g o _ ho => ⟨hA g o ho, fun _ _ _ => trivial⟩) trivial

theorem keeps_createOp (g : Owners) (o : AppOp) (ho : CreateOp o) : g.Keeps o := by
  unfold Owners.Keeps
  split
  · rcases ho with ho | ho
    · cases ho
    · cases ho
  · cases ho
  · trivial

theorem userId_saveColumns (entity reread : Order) (now : Nat) (r : Order) :
    (saveColumns .orders entity reread now r).userId = r.userId ∨
      (saveColumns .orders entity reread now r).userId = entity.userId := by
  simp only [saveColumns, column]
  split
  · exact .inl rfl
  · exact .inr rfl

theorem keepsOwner_insert {id : Uuid} {entity : Order} :
    KeepsOwner id entity.userId (.sql (.stmt (.insert .orders (some id) (fun _ => entity)))) :=
  fun _ hg _ => hg

theorem keepsOwner_update {id : Uuid} {entity reread : Order} :
    KeepsOwner id entity.userId
      (.sql (.stmt (.update .orders id (saveColumns .orders entity reread)))) := by
  intro g hg now r
  rcases userId_saveColumns entity reread now r with h | h
  · exact .inl h
  · rw [h]
    exact .inr hg

theorem keepsOwner_managerSave (id : Uuid) (entity : Order) :
    (managerSave .orders id entity).Awaits (KeepsOwner id entity.userId) :=
  awaits_managerSave (fun _ _ _ => trivial) keepsOwner_insert (fun _ => keepsOwner_update)

theorem keepsOwner_repositorySave (id : Uuid) (entity : Order) :
    (repositorySave .orders id entity).Awaits (KeepsOwner id entity.userId) :=
  awaits_repositorySave (fun _ _ => trivial) (fun _ _ => trivial) (fun _ _ => trivial)
    (fun _ _ _ => trivial) keepsOwner_insert (fun _ => keepsOwner_update)

theorem owners_find_order {cond : Uuid → Order → Bool}
    {Q : Option (Uuid × Order) → Owners → Prop} {E : Thrown → Owners → Prop}
    (hnone : Q none g)
    (hsome : ∀ id (r : Order) g', cond id r = true → (id, r.userId) ∈ g'.known →
      g'.plain = g.plain → Q (some (id, r)) g')
    (herr : ∀ e, E e g) : (findOne .orders cond).wp owners Q E g := by
  refine (Prog.wp_bind _ _ _ _ _).mpr ((Prog.wp_await _ _ _ _).mpr ⟨trivial, ?_, ?_⟩)
  · rintro rows g' ⟨rfl, hrows⟩
    cases rows with
    | nil => simpa using hnone
    | cons e rows => exact hsome e.1 e.2 _ (hrows e List.mem_cons_self) (by simp) rfl
  · intro e g' hn
    have hg : g' = g := hn
    subst hg
    exact herr e

theorem owners_findOrderById {id : String}
    {Q : Option (Uuid × Order) → Owners → Prop} {E : Thrown → Owners → Prop}
    (hnone : Q none g)
    (hsome : ∀ o (r : Order) g', uuidIn id = some o → (o, r.userId) ∈ g'.known →
      g'.plain = g.plain → Q (some (o, r)) g')
    (herr : ∀ e, E e g) : (findOneById .orders id).wp owners Q E g := by
  unfold findOneById
  split
  · next o ho =>
    refine owners_find_order hnone ?_ herr
    intro j r g' hj hk hp
    obtain rfl : j = o := by simpa using hj
    exact hsome j r g' ho hk hp
  · refine (Prog.wp_bind _ _ _ _ _).mpr ((Prog.wp_await _ _ _ _).mpr ⟨trivial, ?_, ?_⟩)
    · intro a
      exact nomatch (show Empty from a)
    · intro e g' hn
      have hg : g' = g := hn
      subst hg
      exact herr e

end Calls

section Services

variable {g : Owners}

theorem owners_create (dto : CreateOrderDto) (key : Option String) :
    (create dto key).wp owners (fun _ _ => True) (fun _ _ => True) g :=
  owners_keeps (create_awaits dto key) keeps_createOp

theorem owners_deleteOrder (id : String) :
    (deleteOrder id).wp owners (fun _ _ => True) (fun _ _ => True) g := by
  refine owners_keeps (A := fun o => ∀ g : Owners, g.Keeps o) ?_ (fun g o ho => ho g)
  refine Prog.Awaits.bind (awaits_delete (fun _ _ => trivial) (fun _ _ => trivial) _) ?_
  intro affected
  split <;> trivial

theorem owners_updateOrder (id : String) (updates : UpdateOrderDto) :
    (updateOrder id updates).wp owners (fun _ _ => True) (fun _ _ => True) g := by
  refine (Prog.wp_bind _ _ _ _ _).mpr (owners_findOrderById trivial ?_ (fun _ => trivial))
  intro o order g' _ hknown _
  refine owners_awaits ?_ hknown
  refine (keepsOwner_repositorySave o (updates.assign order)).bind ?_
  intro saved
  split
  · refine Prog.Awaits.bind (Prog.awaits_await (fun _ _ => trivial)) ?_
    intro ts
    exact Prog.Awaits.bind (Prog.awaits_await (fun _ _ => trivial)) (fun _ => trivial)
  · trivial

theorem owners_insertMarker (messageId orderId : Option Json) :
    (insertMarker messageId orderId).wp owners (fun _ _ => True) (fun _ _ => True) g := by
  refine owners_keeps (A := fun o => ∀ g : Owners, g.Keeps o) ?_ (fun g o ho => ho g)
  exact awaits_insertMarker (fun _ _ _ => trivial) (fun _ _ => trivial) messageId orderId

theorem owners_processInTransaction (message : Json.Fields) :
    (processInTransaction message).wp owners (fun _ _ => True) (fun _ _ => True) g := by
  refine (Prog.wp_bind _ _ _ _ _).mpr (Prog.wp_mono (Q := fun _ _ => True)
    ((Prog.wp_tryCatch _ _ _ _ _).mpr ?_) ?_ (fun _ _ h => h))
  · refine (Prog.wp_bind _ _ _ _ _).mpr (Prog.wp_mono (owners_insertMarker _ _) ?_ ?_)
    · exact fun _ _ _ => trivial
    · intro e g' _
      split <;> trivial
  · intro marker g' _
    cases marker with
    | none => trivial
    | some orderId =>
      refine (Prog.wp_bind _ _ _ _ _).mpr (owners_find_order trivial ?_ (fun _ => trivial))
      intro id order g₁ _ hknown _
      refine owners_awaits ?_ hknown
      dsimp only
      split
      · trivial
      · refine Prog.Awaits.bind (Prog.awaits_await (fun _ _ => trivial)) ?_
        intro now
        exact (keepsOwner_managerSave id
          { order with status := .processed, processedAt := some now }).bind (fun _ => trivial)

theorem owners_processOrderMessage (message : Json.Fields) :
    (processOrderMessage message).wp owners (fun _ _ => True) (fun _ _ => True) g := by
  have hend : ∀ {α : Type} (p : App α) (g' : Owners), p.Awaits (fun o => ∀ g : Owners, g.Keeps o) →
      p.wp owners (fun _ _ => True) (fun _ _ => True) g' :=
    fun p g' hp => owners_keeps hp (fun g o ho => ho g)
  have hfailed : ∀ (e : Thrown) (g' : Owners), Prog.wp owners (do
      try rollbackTransaction catch _ => pure ()
      throw e : App Processing) (fun _ _ => True) (fun _ _ => True) g' := by
    intro e g'
    refine hend _ g' (Prog.Awaits.bind ?_ (fun _ => trivial))
    exact Prog.Awaits.tryCatch (Prog.awaits_await (fun _ => trivial)) (fun _ => trivial)
  refine (Prog.wp_bind _ _ _ _ _).mpr (Prog.wp_mono (Q := fun _ _ => True)
    ((Prog.wp_tryCatch _ _ _ _ _).mpr ?_) ?_ (fun _ _ h => h))
  · refine (Prog.wp_bind _ _ _ _ _).mpr ((Prog.wp_await _ _ _ _).mpr ⟨trivial, ?_, ?_⟩)
    · intro _ g₁ _
      refine (Prog.wp_bind _ _ _ _ _).mpr (Prog.wp_mono (owners_processInTransaction message) ?_
        (fun e g' _ => hfailed e g'))
      intro outcome g₂ _
      refine (Prog.wp_bind _ _ _ _ _).mpr ((Prog.wp_await _ _ _ _).mpr ⟨trivial, ?_, ?_⟩)
      · exact fun _ _ _ => trivial
      · exact fun e g' _ => hfailed e g'
    · exact fun e g' _ => hfailed e g'
  · intro outcome g' _
    cases outcome with
    | deduplicated | unchanged => trivial
    | statusChanged id order =>
      refine hend _ g' (Prog.Awaits.bind (Prog.awaits_await (fun _ => trivial)) ?_)
      intro ts
      exact Prog.Awaits.bind (Prog.awaits_await (fun _ => trivial)) (fun _ => trivial)

/-- Who may subscribe to an order: staff, and the owner of the order. -/
theorem owners_canSubscribeToOrder (orderId : String) (user : AuthUser) :
    (canSubscribeToOrder orderId user).wp owners
      (fun _ g' => g'.plain = g.plain ∧ (isStaff user.roles = true ∨
        ∃ o u, uuidIn orderId = some o ∧ (o, u) ∈ g'.known ∧ uuidOut u = user.sub))
      (fun _ _ => True) g := by
  refine (Prog.wp_bind _ _ _ _ _).mpr (owners_findOrderById trivial ?_ (fun _ => trivial))
  intro o order g' ho hknown hplain
  dsimp only
  unfold assertCanAccessOrder
  by_cases hstaff : isStaff user.roles
  · rw [if_pos hstaff]
    exact ⟨hplain, .inl hstaff⟩
  · rw [if_neg hstaff]
    by_cases hsub : uuidOut order.userId = user.sub
    · rw [if_neg (by simpa using hsub)]
      exact ⟨hplain, .inr ⟨o, order.userId, ho, hknown, hsub⟩⟩
    · rw [if_pos hsub]
      trivial

end Services

end Ecomm
