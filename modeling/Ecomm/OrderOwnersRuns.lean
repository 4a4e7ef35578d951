import Ecomm.OrderOwners
import Ecomm.OrdersGateway

/-! The owners of orders over any interleaving: one owner for every row that an
order ever had. -/

namespace Ecomm

open Concurrent Sql

/-- `own` gives every order its owner. The ids on record are all used up, and
what the threads know is true; a thread that has no transaction knows about
committed orders only. -/
structure OrdersKept (T : Database) (own : Uuid → Option Uuid) (s : Store schema)
    (used : List Uuid) (ω : Nat → Owners) : Prop where
  constant : s.Constant (S := schema) .orders Order.userId own
  recorded : s.Recorded T
  initial : ∀ id r, (T .orders).lookup id = some r → own id = some (Order.userId r)
  used : ∀ id u, own id = some u → id ∈ used
  known : ∀ i, ∀ e ∈ (ω i).known, own e.1 = some e.2
  plain : ∀ i, (ω i).plain = true → s.tx i = none ∧
    ∀ e ∈ (ω i).known, ∃ r, s.Ever T (Table.orders : schema.Table) e.1 r

def ownersAfter (own : Uuid → Option Uuid) (c : Choice schema) :
    Sql.Op schema → (Uuid → Option Uuid)
  | .stmt (.insert .orders none row) =>
    Function.update own c.id (some (Order.userId (row c.now)))
  | _ => own

namespace OrdersKept

variable {T : Database} {own : Uuid → Option Uuid} {s s' : Store schema} {used : List Uuid}
  {ω : Nat → Owners} {i : Nat} {c : Choice schema}

theorem ownersAfter_mono (h : OrdersKept T own s used ω) {q : Sql.Op schema}
    (hnew : ∀ t row, q = .stmt (.insert t none row) → c.id ∉ used) :
    ∀ id u, own id = some u → ownersAfter own c q id = some u := by
  intro id u hu
  unfold ownersAfter
  split
  · next row =>
    have hid : id ≠ c.id := by
      rintro rfl
      exact hnew _ row rfl (h.used _ _ hu)
    rwa [Function.update_of_ne hid]
  · exact hu

theorem op_constant (h : OrdersKept T own s used ω) {q : Sql.Op schema}
    (ho : (ω i).Keeps (.sql q)) :
    q.Constant (S := schema) .orders Order.userId own (ownersAfter own c q) c := by
  cases q with
  | startTransaction | commitTransaction | rollbackTransaction => trivial
  | stmt q =>
    cases q with
    | select | selectForUpdate | delete | malformed => trivial
    | insert t id row =>
      rintro rfl
      cases id with
      | none => exact Function.update_self _ _ _
      | some id => exact h.known i _ (ho c.now)
    | update t id set =>
      rintro rfl r hr
      rcases ho c.now r with hkept | hknown
      · exact hr.trans (congrArg some hkept.symm)
      · exact h.known i _ hknown

theorem ownersAfter_used (h : OrdersKept T own s used ω) {q : Sql.Op schema} {more : List Uuid}
    (hmore : ∀ t row, q = .stmt (.insert t none row) → c.id ∈ more) :
    ∀ id u, ownersAfter own c q id = some u → id ∈ more ++ used := by
  intro id u hu
  unfold ownersAfter at hu
  split at hu
  · next row =>
    by_cases hid : id = c.id
    · rw [hid]
      exact List.mem_append_left _ (hmore _ row rfl)
    · rw [Function.update_of_ne hid] at hu
      exact List.mem_append_right _ (h.used id u hu)
  · exact List.mem_append_right _ (h.used id u hu)

theorem learns (h : OrdersKept T own s used ω) {q : Sql.Op schema} {a : Except SqlError q.Ans}
    (he : s.exec i c q = some (a, s')) :
    ∃ w, (ω i).Learns (.sql q) (a.mapError .sql) w ∧ (∀ e ∈ w.known, own e.1 = some e.2) ∧
      (w.plain = true → s'.tx i = none ∧
        ∀ e ∈ w.known, ∃ r, s'.Ever T (Table.orders : schema.Table) e.1 r) := by
  have hlog := Store.exec_log_subset he
  have hsame : q ≠ .startTransaction → (∀ e ∈ (ω i).known, own e.1 = some e.2) ∧
      ((ω i).plain = true → s'.tx i = none ∧
        ∀ e ∈ (ω i).known, ∃ r, s'.Ever T (Table.orders : schema.Table) e.1 r) := by
    intro hq
    refine ⟨h.known i, ?_⟩
    intro hp
    obtain ⟨htx, hk⟩ := h.plain i hp
    refine ⟨Store.exec_tx_none he htx hq, ?_⟩
    intro e hmem
    obtain ⟨r, hr⟩ := hk e hmem
    exact ⟨r, hr.mono hlog⟩
  cases q with
  | startTransaction =>
    refine ⟨{ ω i with plain := false }, rfl, h.known i, ?_⟩
    intro hp
    cases hp
  | commitTransaction => exact ⟨ω i, rfl, hsame (by simp)⟩
  | rollbackTransaction => exact ⟨ω i, rfl, hsame (by simp)⟩
  | stmt q =>
    have hkept := hsame (by simp)
    cases q with
    | selectForUpdate | insert | update | delete | malformed => exact ⟨ω i, rfl, hkept⟩
    | select t cond =>
      cases t with
      | users | products | orderItems | processedMessages => exact ⟨ω i, rfl, hkept⟩
      | orders =>
        cases a with
        | error e => exact ⟨ω i, rfl, hkept⟩
        | ok rows =>
          have hview := fun e => Store.exec_select (e := e) he
          refine ⟨{ ω i with known := (ω i).known ++
            (show List (Uuid × Order) from rows).map (fun e => (e.1, e.2.userId)) }, ⟨rfl, ?_⟩, ?_, ?_⟩
          · exact fun e hmem => ((hview e).mp hmem).2
          · intro e hmem
            rcases List.mem_append.mp hmem with hmem | hmem
            · exact hkept.1 e hmem
            · obtain ⟨e, hrow, rfl⟩ := List.mem_map.mp hmem
              exact h.constant.select he e hrow
          · intro hp
            obtain ⟨htx, hk⟩ := hkept.2 hp
            refine ⟨htx, ?_⟩
            intro e hmem
            rcases List.mem_append.mp hmem with hmem | hmem
            · exact hk e hmem
            · obtain ⟨e, hrow, rfl⟩ := List.mem_map.mp hmem
              have hlook := ((hview e).mp hrow).1
              rw [Store.view_none (h.plain i hp).1] at hlook
              exact ⟨e.2, (h.recorded _ _ _ hlook).mono hlog⟩

theorem exec_sql (h : OrdersKept T own s used ω) {q : Sql.Op schema} {a : Except SqlError q.Ans}
    {more : List Uuid} (he : s.exec i c q = some (a, s')) (ho : (ω i).Keeps (.sql q))
    (hnew : ∀ t row, q = .stmt (.insert t none row) → c.id ∉ used ∧ c.id ∈ more) :
    ∃ own' w, (∀ id u, own id = some u → own' id = some u) ∧
      (ω i).Learns (.sql q) (a.mapError .sql) w ∧
      OrdersKept T own' s' (more ++ used) (Function.update ω i w) := by
  have hmono := h.ownersAfter_mono (c := c) (fun t row hq => (hnew t row hq).1)
  have hlog := Store.exec_log_subset he
  obtain ⟨w, hlearns, hknown, hplain⟩ := h.learns he
  refine ⟨ownersAfter own c q, w, hmono, hlearns, ?_, h.recorded.exec he, ?_, ?_, ?_, ?_⟩
  · refine h.constant.exec hmono ?_ he (h.op_constant ho)
    intro T t id ws hws
    obtain rfl := Option.some.inj hws
    exact cascade_none T t id
  · exact fun id r hr => hmono _ _ (h.initial id r hr)
  · exact h.ownersAfter_used (fun t row hq => (hnew t row hq).2)
  · intro j e hmem
    by_cases hj : j = i
    · subst hj
      rw [Function.update_self] at hmem
      exact hmono _ _ (hknown e hmem)
    · rw [Function.update_of_ne hj] at hmem
      exact hmono _ _ (h.known j e hmem)
  · intro j hp
    by_cases hj : j = i
    · subst hj
      rw [Function.update_self] at hp ⊢
      exact hplain hp
    · rw [Function.update_of_ne hj] at hp ⊢
      obtain ⟨htx, hk⟩ := h.plain j hp
      refine ⟨(Store.exec_tx_other he hj).trans htx, ?_⟩
      intro e hmem
      obtain ⟨r, hr⟩ := hk e hmem
      exact ⟨r, hr.mono hlog⟩

/-- One operation of the server; an id that it generates was not used before. -/
theorem exec {a a' : AppState} {ch : AppChoice} (h : OrdersKept T own a.store used ω) {o : AppOp}
    {r : Except Thrown o.Ans} (he : a.exec i ch o = some (r, a')) (ho : (ω i).Keeps o)
    (hnew : ∀ id, RealtimeState.generated ch o = some id → id ∉ used) :
    ∃ own' w, (∀ id u, own id = some u → own' id = some u) ∧ (ω i).Learns o r w ∧
      OrdersKept T own' a'.store ((RealtimeState.generated ch o).toList ++ used)
        (Function.update ω i w) := by
  cases o with
  | sql q =>
    obtain ⟨b, store, hq, rfl, rfl⟩ := AppState.exec_sql he
    refine h.exec_sql hq ho ?_
    rintro t row rfl
    exact ⟨hnew ch.sql.id rfl, by simp [RealtimeState.generated]⟩
  | channelReady | randomUUID | dateNow | settle _ | publishStatusChanged _ | sendToQueue _ =>
    have hstore := AppState.exec_store he (by simp)
    refine ⟨own, ω i, fun _ _ hu => hu, rfl, ?_⟩
    rw [Function.update_eq_self, hstore]
    exact h

end OrdersKept

end Ecomm
