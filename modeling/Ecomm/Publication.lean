import Ecomm.PlacementRules
import Ecomm.Sequential
import Ecomm.Stock

/-! What a call of `create` that throws leaves behind, and whether an order that
it answers with was announced to the workers. -/

namespace Ecomm

open Concurrent Sql

section Call

variable {dto : CreateOrderDto} {idempotencyKey : Option String} {s s' : AppState}
  {past events : List (Event app)} {i : Nat} {chs : List AppChoice}
  {r : Except Thrown CreateResult}

theorem Resting.session {T : Database} (h : Resting T s) (i : Nat) :
    Session.closed.Matches s.store i :=
  .closed (h.tx i) (fun _ _ => h.coherent.owner_none (h.tx i) _)

theorem placing_create {T : Database} (hs : Resting T s) (hpast : ∀ e ∈ past, Sends e)
    (h : (create dto idempotencyKey).eval (recording app) i (s, past) chs =
      some (r, (s', events))) :
    ∃ γ, Placing (effectiveKey dto idempotencyKey) s.store.tables s.published s.channelReady i
        (s', events) γ ∧
      Prog.Outcome (fun a g => g.2.Returned (effectiveKey dto idempotencyKey) a)
        (fun _ g => g.2.Thrown) r (γ i) := by
  have hinv : Rules.Inv (fun t δ => Placing (effectiveKey dto idempotencyKey) s.store.tables
      s.published s.channelReady i (t, past) δ) s (fun _ => (.closed, .begin)) := by
    refine ⟨hs.coherent, hs.session, ?_⟩
    constructor
    · exact fun _ => rfl
    · intro o row hdone
      cases hdone
    · intro e he
      cases he
    · simp [Placement.begin]
    · rfl
    · exact False.elim
    · exact ⟨fun _ => hpast, fun _ => trivial⟩
  have hsound := placements_sound (effectiveKey dto idempotencyKey) s.store.tables s.published
    s.channelReady i
  obtain ⟨g, hend, hout⟩ := hsound.eval (fun _ => rfl) hinv (place_create dto idempotencyKey) h
  refine ⟨_, hend.rest, ?_⟩
  rwa [Function.update_self]

theorem sends_of_ok {T : Database} (hs : Resting T s) (hpast : ∀ e ∈ past, Sends e)
    {a : CreateResult} (h : (create dto idempotencyKey).eval (recording app) i (s, past) chs =
      some (.ok a, (s', events))) : ∀ e ∈ events, Sends e := by
  obtain ⟨γ, hplacing, hout⟩ := placing_create hs hpast h
  have hreturned : (γ i).2.Returned (effectiveKey dto idempotencyKey) a := hout
  exact hplacing.met.mp hreturned.met

end Call

theorem AppState.Quiet.resting {s : AppState} (hs : s.Quiet) : Resting s.store.tables s :=
  ⟨hs.coherent, hs.tx, fun _ _ hr => hr⟩

/-- The tables that a shop keeps its orders and its stock in are the same. -/
def SameShop (T T' : Database) : Prop :=
  T' .orders = T .orders ∧ T' .orderItems = T .orderItems ∧ T' .products = T .products

/-- A call that throws leaves nothing behind, unless it is the announcement of
the committed order that throws. -/
theorem create_leaves_nothing {s : AppState} (hs : s.Quiet) (dto : CreateOrderDto)
    (idempotencyKey : Option String) {i : Nat} {chs : List AppChoice}
    {r : Except Thrown CreateResult} {s' : AppState} {events : List (Event app)}
    (h : (create dto idempotencyKey).eval (recording app) i (s, []) chs =
      some (r, (s', events))) :
    ((∃ e, r = .error e) → SameShop s.store.tables s'.store.tables) ↔ ∀ e ∈ events, Sends e := by
  obtain ⟨γ, hplacing, hout⟩ := placing_create hs.resting (by simp) h
  cases r with
  | ok a => exact ⟨fun _ => sends_of_ok hs.resting (by simp) h, fun _ ⟨e, he⟩ => by cases he⟩
  | error e =>
    have hthrown : (γ i).2.Thrown := hout
    rcases hthrown with hopen | ⟨hdone, hmet⟩
    · have hsame := hplacing.unchanged hopen.1
      refine ⟨fun _ => hplacing.met.mp hopen.2, fun _ _ => ?_⟩
      rw [hsame]
      exact ⟨rfl, rfl, rfl⟩
    · have hfails : ¬ ∀ e ∈ events, Sends e := fun hall => hmet (hplacing.met.mpr hall)
      obtain ⟨⟨o, row⟩, hcommitted⟩ := Option.ne_none_iff_exists'.mp hdone
      obtain ⟨hnew, _, horders, _⟩ := hplacing.committed o row hcommitted
      refine ⟨fun hkept => ?_, fun hall => absurd hall hfails⟩
      have hsame := (hkept ⟨e, rfl⟩).1
      have hthere := horders o
      rw [if_pos rfl, hsame, hnew] at hthere
      cases hthere

theorem create_leaves_nothing_soldOut :
    ∃ r s' events, (create (penOrder none 9).dto none).eval (recording app) 0
      (serving (penShop 5), []) (List.replicate 5 (tick 3)) = some (r, (s', events)) ∧
    (((∃ e, r = .error e) → SameShop (penShop 5) s'.store.tables) ↔ ∀ e ∈ events, Sends e) := by
  have h : ((create (penOrder none 9).dto none).eval (recording app) 0 (serving (penShop 5), [])
      (List.replicate 5 (tick 3))).isSome = true := by decide +kernel
  obtain ⟨⟨r, s', events⟩, hrun⟩ := Option.isSome_iff_exists.mp h
  exact ⟨r, s', events, hrun,
    create_leaves_nothing (serving_quiet (penShop_distinct 5)) _ _ hrun⟩

/-- A step on which the channel turns out to be closed. -/
def cut (id : Uuid) : AppChoice := { tick id with send := .closed }

/-- The order is committed when the announcement throws. -/
theorem create_leaves_nothing_cut :
    ¬ ∀ (s : AppState), s.Quiet → ∀ dto key i chs e s',
      (create dto key).eval app i s chs = some (.error e, s') →
      SameShop s.store.tables s'.store.tables := by
  intro h
  have hrun : ((create (penOrder none 1).dto none).eval app 0 (serving (penShop 5))
      (List.replicate 13 (cut 3))).map (fun d => (match d.1 with
        | .ok _ => none
        | .error e => some e, (d.2.store.tables .orders).entries.length)) =
      some (some .channelClosed, 1) := by decide +kernel
  obtain ⟨⟨r, s'⟩, hs', heq⟩ := Option.map_eq_some_iff.mp hrun
  obtain ⟨hr, hlength⟩ := Prod.mk.inj heq
  cases r with
  | ok a => cases hr
  | error e =>
    have hsame := h _ (serving_quiet (penShop_distinct 5)) _ _ _ _ _ _ hs'
    rw [hsame.1] at hlength
    cases hlength

/-- No step of the record loses an order: what it announces reaches the broker. -/
def Reaches (events : List (Event app)) : Prop := ∀ e ∈ events, Sends e ∧ ¬ Drops e

/-- Between two calls, every order with the key has been handed to the workers. -/
structure Served (key : String) (s : AppState) : Prop where
  resting : Resting s.store.tables s
  ready : s.channelReady = true
  handed : ∀ o (row : Order), (s.store.tables .orders).lookup o = some row →
    row.idempotencyKey = some key → ∃ e ∈ s.published, OrderCreated o e.2

section Served

variable {key : String} {call : CreateCall} {s s' : AppState} {past events : List (Event app)}
  {i : Nat} {chs : List AppChoice} {r : Except Thrown CreateResult}

theorem Served.create (hs : Served key s) (hkey : call.key = some key)
    (h : call.program.eval (recording app) i (s, past) chs = some (r, (s', events)))
    (hreaches : Reaches events) :
    Served key s' ∧ ∀ a, r = .ok a → ∃ e ∈ s'.published, OrderCreated a.order.id e.2 := by
  obtain ⟨more, hmore⟩ := Prog.eval_past h
  have hpast : ∀ e ∈ past, Sends e := by
    intro e he
    exact (hreaches e (hmore ▸ List.mem_append_left _ he)).1
  have hmet : ∀ e ∈ events, Sends e := fun e he => (hreaches e he).1
  obtain ⟨γ, hplacing, hout⟩ := placing_create hs.resting hpast h
  have heff : effectiveKey call.dto call.idempotencyKey = some key := hkey
  rw [heff] at hplacing hout
  have hrest : Resting s'.store.tables s' :=
    ((tidy_create _ _).resting hs.resting (Prog.eval_of_recording h)).begin
  have hready : s'.channelReady = true := hplacing.channel.trans hs.ready
  have hgrows : ∀ e ∈ s.published, e ∈ s'.published := by
    intro e he
    have hpublished : s'.published = _ := hplacing.published
    rw [hpublished]
    exact List.mem_append_left _ he
  have hkept : (γ i).2.done = none → ∀ o (row : Order),
      (s'.store.tables .orders).lookup o = some row → row.idempotencyKey = some key →
      ∃ e ∈ s'.published, OrderCreated o e.2 := by
    intro hnone o row hrow hk
    have hsame : s'.store.tables = s.store.tables := hplacing.unchanged hnone
    rw [hsame] at hrow
    obtain ⟨e, he, hcreated⟩ := hs.handed o row hrow hk
    exact ⟨e, hgrows e he, hcreated⟩
  cases r with
  | error e =>
    have hthrown : (γ i).2.Thrown := hout
    refine ⟨⟨hrest, hready, ?_⟩, fun a ha => by cases ha⟩
    rcases hthrown with hopen | ⟨_, hfailed⟩
    · exact hkept hopen.1
    · exact absurd (hplacing.met.mpr hmet) hfailed
  | ok a =>
    have hreturned : (γ i).2.Returned (some key) a := hout
    cases hdup : a.wasDuplicate with
    | true =>
      obtain ⟨hnone, hobserved, k, hk, hrowkey⟩ := hreturned.duplicate hdup
      have hkeep := hkept hnone
      refine ⟨⟨hrest, hready, hkeep⟩, fun b hb => ?_⟩
      obtain rfl := Except.ok.inj hb
      have hkk : key = k := by
        have hsome := (Option.filter_eq_some_iff.mp hk).1
        exact Option.some.inj hsome
      exact hkeep _ _ (hplacing.observed _ hobserved) (hkk ▸ hrowkey)
    | false =>
      obtain ⟨⟨row, hdone⟩, hhanded⟩ := hreturned.created hdup
      obtain ⟨_, _, horders, _⟩ := hplacing.committed _ row hdone
      have hnow : ∃ e ∈ s'.published, OrderCreated a.order.id e.2 := by
        rcases hhanded with hskipped | ⟨m, hm, hcreated⟩
        · rcases hplacing.skipped hskipped with hoff | ⟨e, he, hdrops⟩
          · rw [hs.ready] at hoff
            cases hoff
          · exact absurd hdrops (hreaches e he).2
        · have hpublished : s'.published = _ := hplacing.published
          refine ⟨(i, m), ?_, hcreated⟩
          rw [hpublished]
          exact List.mem_append_right _ (List.mem_map_of_mem hm)
      refine ⟨⟨hrest, hready, ?_⟩, fun b hb => by cases hb; exact hnow⟩
      intro o row' hrow' hk
      have hview : (s'.store.tables .orders).lookup o = _ := horders o
      by_cases ho : o = a.order.id
      · rw [ho]
        exact hnow
      · rw [hview, if_neg ho] at hrow'
        obtain ⟨e, he, hcreated⟩ := hs.handed o row' hrow' hk
        exact ⟨e, hgrows e he, hcreated⟩

end Served

/-- As soon as one of the calls with a key returns an order, the order has been
announced, if no announcement throws. -/
theorem acknowledged_announced {key : String} {s : AppState} (hs : s.Quiet)
    (hready : s.channelReady = true)
    (hfresh : ∀ o (row : Order), (s.store.tables .orders).lookup o = some row →
      row.idempotencyKey ≠ some key)
    {calls : List (Episode (recording app) CreateCall)} {call : CreateCall}
    (hkeys : ∀ e ∈ calls, e.call.key = some key) (hkey : call.key = some key)
    {t : AppState × List (Event app)}
    (h : Episode.runAll CreateCall.program (s, []) calls = some t) {i : Nat}
    {chs : List AppChoice} {a : CreateResult} {s' : AppState} {events : List (Event app)}
    (hcall : call.program.eval (recording app) i t chs = some (.ok a, (s', events)))
    (henqueued : ∀ e ∈ events, ¬ Drops e) (hsends : ∀ e ∈ events, Sends e) :
    ∃ e ∈ s'.published, OrderCreated a.order.id e.2 := by
  have hreaches : Reaches events := fun e he => ⟨hsends e he, henqueued e he⟩
  have hserved : Reaches t.2 → Served key t.1 := by
    refine Episode.runAll_induction (C := fun _ c => c.key = some key)
      (I := fun (u : AppState × List (Event app)) => Reaches u.2 → Served key u.1) ?_ ?_
      (Episode.meet_of_forall ?_ _) h
    · intro u u' j c cs r hserved hc he hu
      obtain ⟨more, hmore⟩ := Prog.eval_past he
      have hbefore : Reaches u.2 := fun e he => hu e (hmore ▸ List.mem_append_left _ he)
      exact ((hserved hbefore).create hc he hu).1
    · intro _
      exact ⟨hs.resting, hready, fun o row hrow hk => absurd hk (hfresh o row hrow)⟩
    · exact fun e he _ => hkeys e he
  obtain ⟨more, hmore⟩ := Prog.eval_past hcall
  have hbefore : Reaches t.2 := fun e he => hreaches e (hmore ▸ List.mem_append_left _ he)
  exact ((hserved hbefore).create hkey hcall hreaches).2 a rfl

/-- Whether a call returned, and if so, whether it found a duplicate. -/
def duplicateOf {σ : Type} (d : Except Thrown CreateResult × σ) : Option Bool :=
  match d.1 with
  | .ok a => some a.wasDuplicate
  | .error _ => none

def pen : CreateCall := penOrder (some "k") 1

def buyPen (chs : List AppChoice) :
    Option (Except Thrown CreateResult × AppState × List (Event app)) :=
  pen.program.eval (recording app) 0 (serving (penShop 5), []) chs

def buyPenAgain (chs : List AppChoice) :
    Option (Except Thrown CreateResult × AppState × List (Event app)) :=
  (buyPen chs).bind (fun d => pen.program.eval (recording app) 1 d.2 (List.replicate 2 (tick 4)))

def firstCall (chs : List AppChoice) : List (Episode (recording app) CreateCall) :=
  [⟨0, pen, chs⟩]

theorem firstCall_run {chs : List AppChoice} {r : Except Thrown CreateResult}
    {t : AppState × List (Event app)} (h : buyPen chs = some (r, t)) :
    Episode.runAll CreateCall.program (serving (penShop 5), []) (firstCall chs) = some t := by
  have heval : pen.program.eval (recording app) 0 (serving (penShop 5), []) chs = some (r, t) := h
  simp only [Episode.runAll, firstCall, heval]

theorem firstCall_key (chs : List AppChoice) : ∀ e ∈ firstCall chs, e.call.key = some "k" := by
  simp [firstCall, pen, penOrder, CreateCall.key, effectiveKey]

theorem penShop_fresh (n : Int) (key : Option String) (o : Uuid) (row : Order)
    (hrow : (penShop n .orders).lookup o = some row) : row.idempotencyKey ≠ key := by
  cases hrow

theorem acknowledged_announced_again :
    ∃ t a s' events,
      Episode.runAll CreateCall.program (serving (penShop 5), [])
        (firstCall (List.replicate 14 (tick 3))) = some t ∧
      pen.program.eval (recording app) 1 t (List.replicate 2 (tick 4)) =
        some (.ok a, (s', events)) ∧
      ∃ e ∈ s'.published, OrderCreated a.order.id e.2 := by
  have hok : (buyPen (List.replicate 14 (tick 3))).map duplicateOf = some (some false) := by
    decide +kernel
  have hagain : (buyPenAgain (List.replicate 14 (tick 3))).map
      (fun d => (duplicateOf d, d.2.2.all (fun e => e.choice.send = .accepted))) =
      some (some true, true) := by decide +kernel
  obtain ⟨⟨r, s', events⟩, hboth, heq⟩ := Option.map_eq_some_iff.mp hagain
  obtain ⟨⟨r₀, t⟩, hfirst, hsecond⟩ := Option.bind_eq_some_iff.mp hboth
  obtain ⟨hdup, haccepted⟩ := Prod.mk.inj heq
  rw [hfirst] at hok
  cases r₀ with
  | error e => cases hok
  | ok b =>
    cases r with
    | error e => cases hdup
    | ok a =>
      have hrun := firstCall_run hfirst
      have hquiet := serving_quiet (penShop_distinct 5)
      have hrest := (tidy_create _ _).resting hquiet.resting (Prog.eval_of_recording hfirst)
      have hsends : ∀ e ∈ events, Sends e :=
        sends_of_ok hrest (sends_of_ok hquiet.resting (by simp) hfirst) hsecond
      have henqueued : ∀ e ∈ events, ¬ Drops e := by
        intro e he hdrops
        have hsend : e.choice.send = .accepted := by simpa using List.all_eq_true.mp haccepted e he
        rw [hdrops.1] at hsend
        cases hsend
      refine ⟨t, a, s', events, hrun, hsecond, ?_⟩
      exact acknowledged_announced hquiet rfl (fun o row hrow => penShop_fresh 5 _ o row hrow)
        (firstCall_key _) rfl hrun hsecond henqueued hsends

/-- The announcement of the first call throws, and the second call returns the
order, which nobody will process. -/
theorem acknowledged_announced_cut :
    ¬ ∀ (key : String), key ≠ "" → ∀ (s : AppState), s.Quiet → s.channelReady = true →
      (∀ o (row : Order), (s.store.tables .orders).lookup o = some row →
        row.idempotencyKey ≠ some key) →
      ∀ (calls : List (Episode (recording app) CreateCall)) (call : CreateCall),
      (∀ e ∈ calls, e.call.key = some key) → call.key = some key → ∀ t,
      Episode.runAll CreateCall.program (s, []) calls = some t → ∀ i chs a s' events,
      call.program.eval (recording app) i t chs = some (.ok a, (s', events)) →
      (∀ e ∈ events, ¬ Drops e) → ∃ e ∈ s'.published, OrderCreated a.order.id e.2 := by
  intro h
  have hagain : (buyPenAgain (List.replicate 14 (cut 3))).map
      (fun d => (duplicateOf d, d.2.2.all (fun e => e.choice.send ≠ .refused),
        d.2.1.published.length)) = some (some true, true, 0) := by decide +kernel
  obtain ⟨⟨r, s', events⟩, hboth, heq⟩ := Option.map_eq_some_iff.mp hagain
  obtain ⟨⟨r₀, t⟩, hfirst, hsecond⟩ := Option.bind_eq_some_iff.mp hboth
  obtain ⟨hdup, heq⟩ := Prod.mk.inj heq
  obtain ⟨hsent, hlength⟩ := Prod.mk.inj heq
  cases r with
  | error e => cases hdup
  | ok a =>
    have henqueued : ∀ e ∈ events, ¬ Drops e := by
      intro e he hdrops
      have hsend : e.choice.send ≠ .refused := by simpa using List.all_eq_true.mp hsent e he
      exact hsend hdrops.1
    obtain ⟨e, he, _⟩ := h "k" (by decide) _ (serving_quiet (penShop_distinct 5)) rfl
      (fun o row hrow => penShop_fresh 5 _ o row hrow) _ pen (firstCall_key _) rfl t
      (firstCall_run hfirst) _ _ a s' events hsecond henqueued
    rw [List.length_eq_zero_iff.mp hlength] at he
    cases he

end Ecomm
