import Ecomm.EditRules
import Ecomm.Lib.Gone
import Ecomm.Redelivery

/-! Updates and deletions of the same rows, in any interleaving: a row that was
deleted stays deleted unless an update saves it again. -/

namespace Ecomm

open Concurrent Sql ProductsService

inductive RowJob where
  | updateOrder (id : String) (updates : UpdateOrderDto)
  | deleteOrder (id : String)
  | updateProduct (id : String) (updates : UpdateProductDto)
  | deleteProduct (id : String)

def RowJob.program : RowJob → App Unit
  | .updateOrder id updates => do
    let _ ← Ecomm.updateOrder id updates
    pure ()
  | .deleteOrder id => Ecomm.deleteOrder id
  | .updateProduct id updates => do
    let _ ← ProductsService.updateProduct id updates
    pure ()
  | .deleteProduct id => ProductsService.deleteProduct id

def administering (s : AppState) (jobs : List RowJob) : Config app Unit :=
  ⟨s, fun i => (jobs[i]?).map RowJob.program⟩

/-- An update watches whether its row is there. -/
def RowJob.target : RowJob → Option (Target Unit)
  | .updateOrder id _ => some ⟨.orders, uuidIn id, fun _ _ => ()⟩
  | .updateProduct id _ => some ⟨.products, uuidIn id, fun _ _ => ()⟩
  | .deleteOrder _ | .deleteProduct _ => none

def rowTargets (jobs : List RowJob) (i : Nat) : Option (Target Unit) :=
  (jobs[i]?).bind RowJob.target

/-- What a deleting call knows: its row, and whether it has deleted it. -/
structure Removal where
  table : Table
  id : Option Uuid
  done : Bool

def RowJob.deletes : RowJob → Option (Table × String)
  | .deleteOrder id => some (.orders, id)
  | .deleteProduct id => some (.products, id)
  | .updateOrder _ _ | .updateProduct _ _ => none

def Removal.begin (row : Option (Table × String)) : Removal :=
  ⟨row.elim .orders (·.1), row.bind (fun e => uuidIn e.2), false⟩

def removeAllowed (y : Removal) (g : Session schema) : AppOp → Prop
  | .sql (.stmt (.delete t u)) => g.tx = none ∧ t = y.table ∧ y.id = some u
  | .sql (.stmt (.malformed _)) => True
  | _ => False

def removeNext (y : Removal) : (o : AppOp) → Except Thrown o.Ans → Removal → Prop
  | .sql (.stmt (.delete _ _)), .ok n, y' =>
    y' = ⟨y.table, y.id, y.done || decide ((show Nat from n) ≠ 0)⟩
  | _, _, y' => y' = y

def removeRules : Rules Removal := ⟨removeAllowed, fun y _ o r _ y' => removeNext y o r y'⟩

theorem wp_deleteRow {t : Table} {id : String} :
    (delete t id).wp removeRules.protocol
      (fun n g' => n ≠ 0 → g'.2 = ⟨t, uuidIn id, true⟩) (fun _ _ => True)
      (.closed, ⟨t, uuidIn id, false⟩) := by
  unfold delete
  split
  · next u hu =>
    refine Rules.wp_sql rfl ⟨rfl, rfl, hu⟩ ?_ (fun _ _ _ _ _ => trivial)
    rintro n g' y' hn rfl hne
    simp [hne]
  · exact Rules.wp_reject ⟨trivial, fun r g' y' h => by cases r <;> exact h⟩ (fun _ => trivial)

def Vanished (s : AppState) (γ : Nat → Session schema × (Edit Unit ⊕ Removal)) : Prop :=
  ∀ i y u, (γ i).2 = .inr y → y.done = true → y.id = some u → s.store.Gone y.table u

theorem gone_exec {t : Table} {u : Uuid} {s s' : AppState} {i : Nat} {ch : AppChoice} {o : AppOp}
    {r : Except Thrown o.Ans} (h : s.store.Gone t u) (he : s.exec i ch o = some (r, s'))
    (ho : ∀ v j row, o ≠ .sql (.stmt (.insert v j row))) : s'.store.Gone t u := by
  cases o with
  | sql q =>
    obtain ⟨a, store, hexec, _, rfl⟩ := AppState.exec_sql he
    exact h.exec hexec (fun v j row heq => ho v j row (congrArg AppOp.sql heq))
  | channelReady | randomUUID | dateNow | settle _ | publishStatusChanged _ | sendToQueue _ =>
    rw [AppState.exec_store he (by simp)]
    exact h

theorem Vanished.update {s s' : AppState} {γ : Nat → Session schema × (Edit Unit ⊕ Removal)}
    (h : Vanished s γ) {i : Nat} {g' : Session schema} {z : Edit Unit ⊕ Removal}
    (hgone : ∀ t u, s.store.Gone t u → s'.store.Gone t u)
    (hz : ∀ y u, z = .inr y → y.done = true → y.id = some u → s'.store.Gone y.table u) :
    Vanished s' (Function.update γ i (g', z)) := by
  intro j y u hy hdone hid
  by_cases hj : j = i
  · subst hj
    rw [Function.update_self] at hy
    exact hz y u hy hdone hid
  · rw [Function.update_of_ne hj] at hy
    exact hgone _ _ (h j y u hy hdone hid)

theorem administering_sound (targets : Nat → Option (Target Unit)) :
    (editRules.either removeRules).protocol.Sound (recording app) (Rereads targets)
      (Editing targets Vanished) := by
  refine edits_sound ?_ ?_
  · intro s s' γ i ch o r g' x x' hinv hx ha he _ _
    refine hinv.rest.update (fun t u hgone => gone_exec hgone he ?_) (by simp)
    rintro v j row rfl
    exact ha
  · intro s s' γ i ch o r g' y hinv hy ha he _ _ _
    have hgone : ∀ t u, s.store.Gone t u → s'.store.Gone t u := by
      refine fun t u hgone => gone_exec hgone he ?_
      rintro v j row rfl
      exact ha
    have hquiet : Vanished s' (Function.update γ i (g', .inr y)) := by
      refine hinv.rest.update hgone ?_
      intro z u hz hdone hid
      obtain rfl := Sum.inr.inj hz
      exact hgone _ _ (hinv.rest i _ u hy hdone hid)
    cases o with
    | channelReady | sendToQueue | settle | publishStatusChanged | randomUUID | dateNow =>
      exact ha.elim
    | sql q =>
      cases q with
      | startTransaction | commitTransaction | rollbackTransaction => exact ha.elim
      | stmt q =>
        cases q with
        | select | selectForUpdate | insert | update => exact ha.elim
        | malformed e => cases r <;> exact ⟨y, rfl, hquiet⟩
        | delete t u =>
          cases r with
          | error e => exact ⟨y, rfl, hquiet⟩
          | ok n =>
            obtain ⟨htx, rfl, hu⟩ := ha
            refine ⟨_, rfl, hinv.rest.update hgone ?_⟩
            intro z v hz hdone hid
            obtain rfl := Sum.inr.inj hz
            obtain rfl := Option.some.inj (hu.symm.trans hid)
            by_cases hn : (show Nat from n) = 0
            · have hbefore : y.done = true := by simpa [hn] using hdone
              exact hgone _ _ (hinv.rest i y _ hy hbefore hu)
            · obtain ⟨b, store, hexec, hr, rfl⟩ := AppState.exec_sql he
              cases b with
              | error e => cases hr
              | ok b =>
                cases hr
                exact hinv.coherent.gone ((hinv.session i).tx.trans htx) hexec hn

def Removed (jobs : List RowJob) (i : Nat) (_ : Unit)
    (g : Session schema × (Edit Unit ⊕ Removal)) : Prop :=
  ∀ t id, (jobs[i]?).bind RowJob.deletes = some (t, id) → g.2 = .inr ⟨t, uuidIn id, true⟩

theorem wp_deleteRow_removed {t : Table} {id : String} {e : Thrown} :
    (do let affected ← delete t id; if affected = 0 then throw e else pure () : App Unit).wp
      (editRules (V := Unit) |>.either removeRules).protocol
      (fun _ g => g.2 = .inr ⟨t, uuidIn id, true⟩) (fun _ _ => True)
      (.closed, .inr ⟨t, uuidIn id, false⟩) := by
  refine (Prog.wp_bind _ _ _ _ _).mpr
    (Prog.wp_mono (Rules.wp_inr editRules wp_deleteRow) ?_ (fun _ _ _ => trivial))
  rintro n g ⟨y, hy, hdone⟩
  by_cases hn : n = 0
  · simp [hn]
  · simp only [hn, if_false]
    exact hy.trans (congrArg Sum.inr (hdone hn))

theorem administering_begin {s : AppState} (hs : s.Quiet) (jobs : List RowJob) :
    Follows (editRules.either removeRules).protocol (Editing (rowTargets jobs) Vanished)
      (Removed jobs) (fun _ _ _ => True) (administering s jobs).recorded
      (fun i => (.closed, (rowTargets jobs i).elim
        (.inr (Removal.begin ((jobs[i]?).bind RowJob.deletes))) (fun a => .inl (.begin a)))) where
  inv := by
    refine ⟨hs.coherent, hs.session, Edits.begin _ (fun _ => rfl), ?_⟩
    intro i y u hy hdone _
    cases ha : rowTargets jobs i with
    | some a =>
      simp only [ha] at hy
      cases hy
    | none =>
      simp only [ha] at hy
      obtain rfl := Sum.inr.inj hy
      cases hdone
  thread i p hp := by
    obtain ⟨job, hjob, rfl⟩ := Option.map_eq_some_iff.mp hp
    have hupdates : job.deletes = none → ∀ g, Removed jobs i () g := by
      intro hnone g t id hdeletes
      rw [hjob, Option.bind_some, hnone] at hdeletes
      cases hdeletes
    have hdeletes : ∀ t id, job.deletes = some (t, id) →
        ∀ g : Session schema × (Edit Unit ⊕ Removal), g.2 = .inr ⟨t, uuidIn id, true⟩ →
        Removed jobs i () g := by
      intro t id hrow g hg t' id' hrow'
      rw [hjob, Option.bind_some, hrow] at hrow'
      obtain ⟨rfl, rfl⟩ := Prod.mk.inj (Option.some.inj hrow')
      exact hg
    have htarget : rowTargets jobs i = job.target := by rw [rowTargets, hjob, Option.bind_some]
    cases job with
    | updateOrder id updates =>
      have hwp := Rules.wp_inl removeRules
        (edit_updateOrder (V := Unit) (f := fun _ _ => ()) id updates (fun _ _ _ _ _ => rfl)
          (fun _ => rfl))
      simp only [htarget, RowJob.target, Option.elim_some]
      exact (Prog.wp_bind _ _ _ _ _).mpr
        (Prog.wp_mono hwp (fun _ g _ => hupdates rfl g) (fun _ _ _ => trivial))
    | updateProduct id updates =>
      have hwp := Rules.wp_inl removeRules
        (edit_updateProduct (V := Unit) (f := fun _ _ => ()) id updates (fun _ _ _ _ _ => rfl)
          (fun _ => rfl))
      simp only [htarget, RowJob.target, Option.elim_some]
      exact (Prog.wp_bind _ _ _ _ _).mpr
        (Prog.wp_mono hwp (fun _ g _ => hupdates rfl g) (fun _ _ _ => trivial))
    | deleteOrder id | deleteProduct id =>
      simp only [htarget, hjob]
      exact Prog.wp_mono wp_deleteRow_removed (fun _ g hg => hdeletes _ _ rfl g hg)
        (fun _ _ _ => trivial)

/-- Whatever the interleaving, once a deletion has returned no later state has a
row with its id, if every update finds its row at its second read when it found
it at its first. -/
theorem deleted_stays_deleted {s : AppState} (hs : s.Quiet) (jobs : List RowJob)
    {es fs : List (Nat × AppChoice)} {c d : Config (recording app) Unit}
    (hrereads : (administering s jobs).recorded.Meets (Rereads (rowTargets jobs)) (es ++ fs))
    (h : (administering s jobs).recorded.run es = some c) {i : Nat}
    (hreturned : c.thread i = some (.ret ())) (hlater : c.run fs = some d) :
    (∀ id u, jobs[i]? = some (.deleteOrder id) → uuidIn id = some u →
      (d.shared.1.store.tables .orders).lookup u = none) ∧
    ∀ id u, jobs[i]? = some (.deleteProduct id) → uuidIn id = some u →
      (d.shared.1.store.tables .products).lookup u = none := by
  obtain ⟨hbefore, hafter⟩ := hrereads.append h
  have hsound := administering_sound (rowTargets jobs)
  obtain ⟨γ, hγ, _⟩ := hsound.run (administering_begin hs jobs) hbefore h
  obtain ⟨γ', hγ', _⟩ := hsound.run hγ hafter hlater
  have hstill : d.thread i = some (.ret ()) := Config.run_returned hlater hreturned
  have hremoved : Removed jobs i () (γ' i) := hγ'.thread i _ hstill
  constructor
  · intro id u hjob hu
    have hmine := hremoved .orders id (by rw [hjob]; rfl)
    exact (hγ'.inv.rest.2 i _ u hmine rfl hu).committed
  · intro id u hjob hu
    have hmine := hremoved .products id (by rw [hjob]; rfl)
    exact (hγ'.inv.rest.2 i _ u hmine rfl hu).committed

/-- Order 7 is paid by one clerk and deleted by another. -/
def payAndDelete : List RowJob :=
  [.updateOrder (uuidOut 7) ⟨some .paid, none⟩, .deleteOrder (uuidOut 7)]

/-- The order is deleted between the second read of the update and its write. -/
theorem deleted_stays_deleted_between :
    ∃ c d, (administering (serving (penOrdered .pending)) payAndDelete).recorded.run
        [(0, tick 4), (0, tick 4), (1, tick 4)] = some c ∧
      c.run (List.replicate 5 (0, tick 4)) = some d ∧
      (d.shared.1.store.tables .orders).lookup 7 = none := by
  have hrereads : (administering (serving (penOrdered .pending)) payAndDelete).recorded.Meets
      (Rereads (rowTargets payAndDelete))
      ([(0, tick 4), (0, tick 4), (1, tick 4)] ++ List.replicate 5 (0, tick 4)) := by
    decide +kernel
  have hrun : ((administering (serving (penOrdered .pending)) payAndDelete).recorded.run
      [(0, tick 4), (0, tick 4), (1, tick 4)]).map (fun c => (c.returned 1,
        (c.run (List.replicate 5 (0, tick 4))).isSome)) = some (true, true) := by decide +kernel
  obtain ⟨c, hc, heq⟩ := Option.map_eq_some_iff.mp hrun
  obtain ⟨hreturned, hsome⟩ := Prod.mk.inj heq
  obtain ⟨d, hd⟩ := Option.isSome_iff_exists.mp hsome
  exact ⟨c, d, hc, hd, (deleted_stays_deleted (serving_quiet (penOrdered_distinct _)) payAndDelete
    hrereads hc (Config.thread_of_returned hreturned) hd).1 _ 7 rfl (uuidIn_uuidOut 7)⟩

/-- The order is deleted between the two reads of the update, which inserts it again. -/
theorem deleted_stays_deleted_saved :
    ¬ ∀ (s : AppState), s.Quiet → ∀ jobs es c, (administering s jobs).run es = some c →
      ∀ i, c.thread i = some (.ret ()) → ∀ fs d, c.run fs = some d →
      ∀ id u, jobs[i]? = some (.deleteOrder id) → uuidIn id = some u →
      (d.shared.store.tables .orders).lookup u = none := by
  intro h
  have hrun : ((administering (serving (penOrdered .pending)) payAndDelete).run
      [(0, tick 4), (1, tick 4)]).map (fun c => (c.returned 1,
        (c.run (List.replicate 4 (0, tick 4))).map
          (fun d => ((d.shared.store.tables .orders).lookup 7).isSome))) =
      some (true, some true) := by decide +kernel
  obtain ⟨c, hc, heq⟩ := Option.map_eq_some_iff.mp hrun
  obtain ⟨hreturned, hthere⟩ := Prod.mk.inj heq
  obtain ⟨d, hd, hsome⟩ := Option.map_eq_some_iff.mp hthere
  have hnone := h _ (serving_quiet (penOrdered_distinct _)) payAndDelete _ c hc 1
    (Config.thread_of_returned hreturned) _ d hd _ 7 rfl (uuidIn_uuidOut 7)
  rw [hnone] at hsome
  cases hsome

end Ecomm
