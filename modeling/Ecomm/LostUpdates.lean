import Ecomm.EditRules
import Ecomm.FinalStatus

/-! `updateOrder` among workers and other updates of the same orders: the
columns that an update omits. -/

namespace Ecomm

open Concurrent Sql

def UpdateOrderDto.omitted (updates : UpdateOrderDto) :
    (t : Table) → t.Row → Option (Option OrderStatus × Option (Option String) × Option Nat)
  | .orders, r => some (if updates.status.isNone then some r.status else none,
      if updates.idempotencyKey.isNone then some r.idempotencyKey else none, r.processedAt)
  | _, _ => none

def OrderJob.target : OrderJob →
    Option (Target (Option (Option OrderStatus × Option (Option String) × Option Nat)))
  | .update id updates => some ⟨.orders, uuidIn id, updates.omitted⟩
  | .process _ => none

def jobTargets (jobs : List OrderJob) (i : Nat) :
    Option (Target (Option (Option OrderStatus × Option (Option String) × Option Nat))) :=
  (jobs[i]?).bind OrderJob.target

/-- What the updates omit is in the order after as it was before. -/
structure KeepsOmitted (updates : UpdateOrderDto) (before after : Option Order) : Prop where
  status : updates.status = none → after.map (·.status) = before.map (·.status)
  idempotencyKey : updates.idempotencyKey = none →
    after.map (·.idempotencyKey) = before.map (·.idempotencyKey)
  processedAt : after.map (·.processedAt) = before.map (·.processedAt)

theorem keepsOmitted_of_eq {updates : UpdateOrderDto} {before after : Option Order}
    (h : after.map (updates.omitted .orders) = before.map (updates.omitted .orders)) :
    KeepsOmitted updates before after := by
  cases before with
  | none =>
    cases after with
    | none => exact ⟨fun _ => rfl, fun _ => rfl, rfl⟩
    | some r => cases h
  | some r =>
    cases after with
    | none => cases h
    | some r' =>
      simp only [Option.map_some, Option.some.injEq, UpdateOrderDto.omitted, Prod.mk.injEq] at h
      obtain ⟨hstatus, hkey, hprocessed⟩ := h
      constructor
      · intro hnone
        simpa [hnone] using hstatus
      · intro hnone
        simpa [hnone] using hkey
      · simp [hprocessed]

theorem omitted_respected (id : Option Uuid) (updates : UpdateOrderDto) :
    (⟨.orders, id, updates.omitted⟩ : Target _).Respected := by
  intro e o now r h
  simp only [UpdateOrderDto.omitted, Option.some.injEq, Prod.mk.injEq] at h ⊢
  obtain ⟨hstatus, hkey, hprocessed⟩ := h
  refine ⟨?_, ?_, by simp [saveColumns, column, hprocessed]⟩
  · cases hs : updates.status with
    | none =>
      simp only [hs, Option.isNone_none, if_true, Option.some.injEq] at hstatus
      simp [saveColumns, column, hstatus]
    | some v => rfl
  · cases hk : updates.idempotencyKey with
    | none =>
      simp only [hk, Option.isNone_none, if_true, Option.some.injEq] at hkey
      simp [saveColumns, column, hkey]
    | some v => rfl

theorem omitted_assign (updates : UpdateOrderDto) (o : Order) :
    updates.omitted .orders (updates.assign o) = updates.omitted .orders o := by
  unfold UpdateOrderDto.omitted UpdateOrderDto.assign
  cases updates.status <;> cases updates.idempotencyKey <;> rfl

/-- The worker knows nothing about markers and promises no order. -/
def workerOf : Option OrderJob → Attempt
  | some (.process message) => .begin message false false
  | _ => .begin [] false false

def LooseWorkers {V : Type} (_ : AppState) (γ : Nat → Session schema × (Edit V ⊕ Attempt)) : Prop :=
  ∀ i y, (γ i).2 = .inr y → y.late = false ∧ y.strict = false

theorem LooseWorkers.update {V : Type} {s s' : AppState}
    {γ : Nat → Session schema × (Edit V ⊕ Attempt)} (h : LooseWorkers s γ) {i : Nat}
    {g' : Session schema} {z : Edit V ⊕ Attempt}
    (hz : ∀ y, z = .inr y → y.late = false ∧ y.strict = false) :
    LooseWorkers s' (Function.update γ i (g', z)) := by
  intro j y hy
  by_cases hj : j = i
  · subst hj
    rw [Function.update_self] at hy
    exact hz y hy
  · rw [Function.update_of_ne hj] at hy
    exact h j y hy

theorem updating_sound {V : Type} (targets : Nat → Option (Target V)) :
    (editRules.either processRules).protocol.Sound (recording app) (Rereads targets)
      (Editing targets LooseWorkers) := by
  refine edits_sound ?_ ?_
  · intro s s' γ i ch o r g' x x' hinv _ _ _ _ _
    exact hinv.rest.update (by simp)
  · intro s s' γ i ch o r g' y hinv hy ha he hchange hlearns hown
    obtain ⟨hlate, hstrict⟩ := hinv.rest i y hy
    have hwrites : ∀ q, o = .sql (.stmt q) → q.reads = true ∨ (γ i).1.tx ≠ none := by
      rintro q rfl
      exact processAllowed_writes ha
    have hloose : ∀ {P : Prop}, y.strict = true → P := by
      intro P htrue
      rw [hstrict] at htrue
      cases htrue
    obtain ⟨y', hnext, hlearned⟩ := process_learns (hinv.session i) hown ha he (hchange hwrites)
      hlearns (fun htrue => by rw [hlate] at htrue; cases htrue) hloose hloose
    refine ⟨y', hnext, hinv.rest.update ?_⟩
    intro z hz
    obtain rfl := Sum.inr.inj hz
    exact ⟨hlearned.late.trans hlate, hlearned.strict.trans hstrict⟩

theorem updating_begin {s : AppState} (hs : s.Quiet) (jobs : List OrderJob) :
    Follows (editRules.either processRules).protocol (Editing (jobTargets jobs) LooseWorkers)
      (fun _ _ _ => True) (fun _ _ _ => True) (handling s jobs).recorded
      (fun i => (.closed, (jobTargets jobs i).elim (.inr (workerOf jobs[i]?))
        (fun a => .inl (.begin a)))) where
  inv := by
    refine ⟨hs.coherent, hs.session, Edits.begin _ (fun _ => rfl), ?_⟩
    intro i y hy
    cases ha : jobTargets jobs i with
    | some a =>
      simp only [ha] at hy
      cases hy
    | none =>
      simp only [ha] at hy
      obtain rfl := Sum.inr.inj hy
      cases hj : jobs[i]? with
      | none => exact ⟨rfl, rfl⟩
      | some job => cases job <;> exact ⟨rfl, rfl⟩
  thread i p hp := by
    obtain ⟨job, hjob, rfl⟩ := Option.map_eq_some_iff.mp hp
    cases job with
    | process message =>
      have hnone : jobTargets jobs i = none := by rw [jobTargets, hjob]; rfl
      have hwp := Rules.wp_inr (editRules (V := Option (Option OrderStatus ×
        Option (Option String) × Option Nat))) (wp_processOrderMessage message false false)
      simp only [hnone, hjob]
      exact (Prog.wp_bind _ _ _ _ _).mpr
        (Prog.wp_mono hwp (fun _ _ _ => trivial) (fun _ _ _ => trivial))
    | update id updates =>
      have hsome : jobTargets jobs i = some ⟨.orders, uuidIn id, updates.omitted⟩ := by
        rw [jobTargets, hjob]
        rfl
      have hwp := Rules.wp_inl processRules
        (edit_updateOrder id updates (omitted_respected _ updates) (omitted_assign updates))
      simp only [hsome]
      exact (Prog.wp_bind _ _ _ _ _).mpr
        (Prog.wp_mono hwp (fun _ _ _ => trivial) (fun _ _ _ => trivial))

/-- Whatever the interleaving, no step of an update changes what it omits, if
every update finds these columns at its second read as at its first. -/
theorem update_keeps_omitted {s : AppState} (hs : s.Quiet) (jobs : List OrderJob)
    {es : List (Nat × AppChoice)} {i : Nat} {ch : AppChoice}
    {c c' : Config (recording app) JobResult}
    (hrereads : (handling s jobs).recorded.Meets (Rereads (jobTargets jobs)) es)
    (h : (handling s jobs).recorded.run es = some c) (hstep : c.step i ch = some c')
    {id : String} {updates : UpdateOrderDto} (hjob : jobs[i]? = some (.update id updates))
    (o : Uuid) :
    KeepsOmitted updates ((c.shared.1.store.tables .orders).lookup o)
      ((c'.shared.1.store.tables .orders).lookup o) := by
  obtain ⟨γ, hγ, _⟩ := (updating_sound (jobTargets jobs)).run (updating_begin hs jobs)
    hrereads h
  have hsome : jobTargets jobs i = some ⟨.orders, uuidIn id, updates.omitted⟩ := by
    rw [jobTargets, hjob]
    rfl
  exact keepsOmitted_of_eq ((edits_leave hγ hsome hstep).column .orders o)

/-- Order 7 gets a key while a message about it is handled. -/
def keyAndMessage : List OrderJob :=
  [.update (uuidOut 7) ⟨none, some (some "k")⟩, .process (orderMessage 3)]

/-- The update starts when the worker is done. -/
def updateAfter : List (Nat × AppChoice) :=
  List.replicate 9 (1, moment 6) ++ List.replicate 4 (0, moment 7)

theorem update_keeps_omitted_after :
    ∃ c c', (handling (serving (penOrdered .pending)) keyAndMessage).recorded.run updateAfter =
        some c ∧ c.step 0 (moment 7) = some c' ∧
      KeepsOmitted ⟨none, some (some "k")⟩ ((c.shared.1.store.tables .orders).lookup 7)
        ((c'.shared.1.store.tables .orders).lookup 7) := by
  have hrereads : (handling (serving (penOrdered .pending)) keyAndMessage).recorded.Meets
      (Rereads (jobTargets keyAndMessage)) updateAfter := by decide +kernel
  have hrun : ((handling (serving (penOrdered .pending)) keyAndMessage).recorded.run
      updateAfter).isSome = true := by decide +kernel
  have hlast : (((handling (serving (penOrdered .pending)) keyAndMessage).recorded.run
      updateAfter).bind (fun c => c.step 0 (moment 7))).isSome = true := by decide +kernel
  obtain ⟨c', hc'⟩ := Option.isSome_iff_exists.mp hlast
  obtain ⟨c, hc, hstep⟩ := Option.bind_eq_some_iff.mp hc'
  exact ⟨c, c', hc, hstep, update_keeps_omitted (serving_quiet (penOrdered_distinct _))
    keyAndMessage hrereads hc hstep rfl 7⟩

/-- The update loads the order, the worker processes it, and the update saves
what it loaded. -/
def updateAround : List (Nat × AppChoice) :=
  [(0, moment 5)] ++ List.replicate 9 (1, moment 6) ++ List.replicate 3 (0, moment 7)

theorem update_keeps_omitted_around :
    ¬ ∀ (s : AppState), s.Quiet → ∀ (jobs : List OrderJob) es c,
      (handling s jobs).run es = some c → ∀ i ch c', c.step i ch = some c' →
      ∀ id updates, jobs[i]? = some (.update id updates) → ∀ o : Uuid,
      KeepsOmitted updates ((c.shared.store.tables .orders).lookup o)
        ((c'.shared.store.tables .orders).lookup o) := by
  intro h
  have hrun : ((handling (serving (penOrdered .pending)) keyAndMessage).run updateAround).bind
      (fun c => (c.step 0 (moment 7)).map (fun c' => (statusOf c.shared 7, statusOf c'.shared 7))) =
      some (some (.processed, some 6), some (.pending, none)) := by decide +kernel
  obtain ⟨c, hc, hlast⟩ := Option.bind_eq_some_iff.mp hrun
  obtain ⟨c', hstep, heq⟩ := Option.map_eq_some_iff.mp hlast
  obtain ⟨hbefore, hafter⟩ := Prod.mk.inj heq
  obtain ⟨r, hr, hprocessed⟩ := Option.map_eq_some_iff.mp hbefore
  obtain ⟨r', hr', hpending⟩ := Option.map_eq_some_iff.mp hafter
  have hkept := (h _ (serving_quiet (penOrdered_distinct _)) keyAndMessage _ c hc 0 _ c' hstep _ _
    rfl 7).status rfl
  rw [hr, hr', Option.map_some, Option.map_some, (Prod.mk.inj hprocessed).1,
    (Prod.mk.inj hpending).1] at hkept
  cases hkept

end Ecomm
