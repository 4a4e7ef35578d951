import Ecomm.OrdersEventsRuns

/-! The event stream as its subscriber sees it: orders do not disturb each other,
every event is accounted for, and which status of an order comes last. -/

namespace Ecomm

open Rx

namespace OrdersEventsService

/-- The stream `s₁` is what `s` would be if only the events of one order came in. -/
structure Isolated (orderId : String) (s s₁ : OrdersEventsService) : Prop where
  group : s₁.group orderId = s.group orderId
  emissions : s₁.emissions = s.emissionsOf orderId
  clock : s₁.clock ≤ s.clock

namespace Isolated

variable {orderId : String} {s s' s₁ : OrdersEventsService} {events : List Event}

theorem step_self (h : Isolated orderId s s₁) (hs : Streamed s events) {tick : Tick}
    (ho : tick.orderId = orderId) (hstep : s.step tick = some s') :
    ∃ s₁', s₁.step tick = some s₁' ∧ Isolated orderId s' s₁' := by
  subst ho
  obtain ⟨g, sent, hm⟩ := step_moved hstep
  have hreact : (s₁.group tick.orderId).react tick = some (g, sent) := by
    rw [h.group]
    exact hm.react
  obtain ⟨s₁', hstep₁⟩ := step_of_react (h.clock.trans hm.time) (by rw [hreact]; rfl)
  obtain ⟨g₁, sent₁, hm₁⟩ := step_moved hstep₁
  obtain ⟨rfl, rfl⟩ := Prod.mk.inj (Option.some.inj (hm₁.react.symm.trans hreact))
  refine ⟨s₁', hstep₁, ?_, ?_, ?_⟩
  · simp [OrdersEventsService.group, hm.groups, hm₁.groups]
  · rw [hm₁.emissions, h.emissions, hs.emissionsOf_self hm]
  · rw [hm₁.clock, hm.clock]

theorem step_other (h : Isolated orderId s s₁) (hs : Streamed s events) {tick : Tick}
    (ho : tick.orderId ≠ orderId) (hstep : s.step tick = some s') : Isolated orderId s' s₁ := by
  obtain ⟨g, sent, hm⟩ := step_moved hstep
  have hgroup : s'.group orderId = s.group orderId := by
    simp [OrdersEventsService.group, hm.groups, AList.lookup_insert_ne (Ne.symm ho)]
  refine ⟨h.group.trans hgroup.symm, ?_, ?_⟩
  · rw [h.emissions, hs.emissionsOf_other hm ho]
  · rw [hm.clock]
    exact h.clock.trans hm.time

theorem run (h : Isolated orderId s s₁) (hs : Streamed s events) {ticks : List Tick}
    (hrun : s.run ticks = some s') :
    ∃ s₁', s₁.run (ticks.filter (fun tick => tick.orderId = orderId)) = some s₁' ∧
      Isolated orderId s' s₁' := by
  induction ticks generalizing s s₁ events with
  | nil =>
    obtain rfl := Option.some.inj hrun
    exact ⟨s₁, rfl, h⟩
  | cons tick ticks ih =>
    obtain ⟨d, hstep, hrest⟩ := Option.bind_eq_some_iff.mp hrun
    have hd := hs.step hstep
    by_cases ho : tick.orderId = orderId
    · obtain ⟨d₁, hstep₁, h₁⟩ := h.step_self hs ho hstep
      obtain ⟨s₁', hrun₁, hh⟩ := ih h₁ hd hrest
      refine ⟨s₁', ?_, hh⟩
      rw [List.filter_cons_of_pos (by simpa using ho), OrdersEventsService.run, hstep₁,
        Option.bind_some, hrun₁]
    · rw [List.filter_cons_of_neg (by simpa using ho)]
      exact ih (h.step_other hs ho hstep) hd hrest

end Isolated

theorem streamed {ticks : List Tick} {s : OrdersEventsService} (h : start.run ticks = some s) :
    Streamed s (published ticks) := by
  simpa using Streamed.start.run h

/-- Orders do not disturb each other, what is sent of an order is a subsequence
of what was published about it with a window between any two, and every event is
dropped as a duplicate, sent, replaced or held, and only one of these. -/
theorem isolated_and_accounted {ticks : List Tick} {s : OrdersEventsService}
    (h : start.run ticks = some s) :
    (∀ orderId, ∃ s₁, start.run (ticks.filter (fun tick => tick.orderId = orderId)) = some s₁ ∧
      s₁.emissions = s.emissionsOf orderId) ∧
    (∀ orderId, ((s.emissionsOf orderId).map Prod.snd).Sublist (publishedOf orderId ticks) ∧
      (s.emissionsOf orderId).Pairwise (fun a b => a.1 + 300 ≤ b.1)) ∧
    s.metrics.received = (published ticks).length ∧
    s.metrics.dedupDropped =
      (suppressed Event.orderId sameVersion [] (published ticks)).length ∧
    s.metrics.emitted = s.emissions.length ∧
    (s.metrics.received - s.metrics.dedupDropped - s.metrics.emitted : ℤ) =
      s.conflated.length + s.held.length ∧
    (published ticks).Perm (suppressed Event.orderId sameVersion [] (published ticks) ++
      s.emissions.map Prod.snd ++ s.conflated ++ s.held) := by
  have hs := streamed h
  refine ⟨?_, ?_, hs.received, hs.dedupDropped, hs.emitted, ?_, hs.parts⟩
  · intro orderId
    have hstart : Isolated orderId start start := ⟨rfl, rfl, le_refl _⟩
    obtain ⟨s₁, hrun, hh⟩ := hstart.run Streamed.start h
    exact ⟨s₁, hrun, hh.emissions⟩
  · intro orderId
    have hpipe := hs.pipeline orderId
    have hsent : ((s.emissionsOf orderId).map Prod.snd).Sublist
        (distinctUntilChanged sameVersion (publishedOf orderId ticks)) :=
      (List.sublist_append_left _ _).trans hpipe.sublist
    exact ⟨hsent.trans (distinctFrom_sublist _ none), hpipe.spaced⟩
  · have hbalance := hs.parts.length_eq
    have hreceived := hs.received
    have hdropped := hs.dedupDropped
    have hemitted := hs.emitted
    simp only [List.length_append, List.length_map] at hbalance
    omega

/-- The status of order `o` changes three times within a window, that of `p` once. -/
def burst : List Tick :=
  [.publish 0 ⟨"o", .pending, .finite 1, .finite 0⟩, .publish 100 ⟨"o", .paid, .finite 2, .finite 100⟩,
    .publish 150 ⟨"p", .paid, .finite 2, .finite 150⟩,
    .publish 200 ⟨"o", .cancelled, .finite 3, .finite 200⟩, .windowEnds 300 "o",
    .windowEnds 450 "p", .windowEnds 600 "o"]

theorem isolated_and_accounted_burst :
    ∃ s, start.run burst = some s ∧
      (∃ s₁, start.run (burst.filter (fun tick => tick.orderId = "p")) = some s₁ ∧
        s₁.emissions = s.emissionsOf "p") ∧
      ((s.emissionsOf "o").map Prod.snd).Sublist (publishedOf "o" burst) ∧
      s.metrics.received = 4 ∧
      (s.metrics.received - s.metrics.dedupDropped - s.metrics.emitted : ℤ) =
        s.conflated.length + s.held.length ∧
      (published burst).Perm (suppressed Event.orderId sameVersion [] (published burst) ++
        s.emissions.map Prod.snd ++ s.conflated ++ s.held) := by
  have hrun : (start.run burst).isSome = true := by decide +kernel
  obtain ⟨s, hs⟩ := Option.isSome_iff_exists.mp hrun
  obtain ⟨hisolated, hsent, hreceived, _, _, hbalance, hparts⟩ := isolated_and_accounted hs
  exact ⟨s, hs, hisolated "p", (hsent "o").1, hreceived, hbalance, hparts⟩

def Silent (s : OrdersEventsService) : Prop := ∀ e ∈ s.groups.entries, e.2.throttle.window = none

theorem Silent.window {s : OrdersEventsService} (h : s.Silent) (orderId : String) :
    (s.group orderId).throttle.window = none := by
  cases hg : s.groups.lookup orderId with
  | none => simp [group, hg, Group.empty, Throttle.idle]
  | some g =>
    have hmem := h _ (AList.mem_lookup_iff.mp hg)
    simpa [group, hg] using hmem

/-- Once the stream is silent, the last status sent is the last one published
exactly when the first event with the last version has that status. -/
theorem last_status {ticks : List Tick} {s : OrdersEventsService}
    (h : start.run ticks = some s) (hsilent : s.Silent) (orderId : String) :
    (s.emissionsOf orderId).getLast?.map (fun e => e.2.status) =
        (publishedOf orderId ticks).getLast?.map (fun event => event.status) ↔
      (blockHead sameVersion (publishedOf orderId ticks)).map (fun event => event.status) =
        (publishedOf orderId ticks).getLast?.map (fun event => event.status) := by
  have hpipe := (streamed h).pipeline orderId
  have hheld := (hpipe.idle (hsilent.window orderId)).1
  have hlast := hpipe.last
  rw [hheld, Option.toList_none, List.append_nil, List.getLast?_map] at hlast
  have hstatus : (s.emissionsOf orderId).getLast?.map (fun e => e.2.status) =
      (blockHead sameVersion (publishedOf orderId ticks)).map (fun event => event.status) := by
    rw [publishedOf, ← hlast, Option.map_map]
    rfl
  rw [hstatus]

theorem last_status_burst :
    ∃ s, start.run burst = some s ∧ s.Silent ∧
      (s.emissionsOf "o").getLast?.map (fun e => e.2.status) = some .cancelled := by
  have hrun : ((start.run burst).map (fun s =>
      s.groups.entries.all (fun e => e.2.throttle.window = none))) = some true := by decide +kernel
  obtain ⟨s, hs, hall⟩ := Option.map_eq_some_iff.mp hrun
  have hsilent : s.Silent := by
    intro e he
    simpa using List.all_eq_true.mp hall e he
  have hpublished : (blockHead sameVersion (publishedOf "o" burst)).map
      (fun event => event.status) = some .cancelled := by decide +kernel
  have hlast : (publishedOf "o" burst).getLast?.map (fun event => event.status) =
      some .cancelled := by decide +kernel
  refine ⟨s, hs, hsilent, ?_⟩
  rw [(last_status hs hsilent "o").mpr (hpublished.trans hlast.symm), hlast]

/-- Versions are whole milliseconds, and do not decrease. -/
def InOrder (events : List Event) : Prop :=
  events.Pairwise (fun a b => ∃ x y : ℤ, a.version = .finite x ∧ b.version = .finite y ∧ x ≤ y)

def tie : List Tick :=
  [.publish 5 ⟨"o", .paid, .finite 5, .finite 5⟩, .publish 5 ⟨"o", .cancelled, .finite 5, .finite 5⟩,
    .windowEnds 305 "o"]

theorem last_status_tie :
    ¬ ∀ ticks s, start.run ticks = some s → (∀ orderId, InOrder (publishedOf orderId ticks)) →
      s.Silent → ∀ orderId, (s.emissionsOf orderId).getLast?.map (fun e => e.2.status) =
        (publishedOf orderId ticks).getLast?.map (fun event => event.status) := by
  intro h
  have hrun : ((start.run tie).map (fun s =>
      (s.groups.entries.all (fun e => e.2.throttle.window = none),
        (s.emissionsOf "o").getLast?.map (fun e => e.2.status)))) = some (true, some .paid) := by
    decide +kernel
  obtain ⟨s, hs, hall⟩ := Option.map_eq_some_iff.mp hrun
  obtain ⟨hall, hpaid⟩ := Prod.mk.inj hall
  have hsilent : s.Silent := by
    intro e he
    simpa using List.all_eq_true.mp hall e he
  have horder : ∀ orderId, InOrder (publishedOf orderId tie) := by
    intro orderId
    have hpair : InOrder (published tie) := by
      refine List.pairwise_pair.mpr ⟨5, 5, rfl, rfl, le_refl 5⟩
    exact List.Pairwise.sublist List.filter_sublist hpair
  have hlast : (publishedOf "o" tie).getLast?.map (fun event => event.status) =
      some .cancelled := by decide +kernel
  have heq := h tie s hs horder hsilent "o"
  rw [hpaid, hlast] at heq
  cases heq

end OrdersEventsService

end Ecomm
