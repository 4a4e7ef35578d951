import Ecomm.OrdersEvents
import Mathlib.Data.List.AList

/-! What the event stream has sent, dropped and held back at any time, order by
order. -/

namespace Ecomm

open Rx

namespace OrdersEventsService

/-- The pipeline of an order after `events`, having sent `sent` by the time `clock`. -/
structure Pipeline (g : Group) (events : List Event) (sent : List (Nat × Event))
    (clock : Nat) : Prop where
  previous : g.previous = blockHead sameVersion events
  lastVersion : ∀ version, g.lastVersion.any (fun v => v.strictEquals version) =
    g.previous.any (fun event => event.version.strictEquals version)
  sublist : (sent.map Prod.snd ++ g.throttle.held.toList).Sublist
    (distinctUntilChanged sameVersion events)
  last : (sent.map Prod.snd ++ g.throttle.held.toList).getLast? = blockHead sameVersion events
  spaced : sent.Pairwise (fun a b => a.1 + window ≤ b.1)
  busy : ∀ due, g.throttle.window = some due → ∀ e ∈ sent, e.1 + window ≤ due
  idle : g.throttle.window = none → g.throttle.held = none ∧ ∀ e ∈ sent, e.1 + window ≤ clock

namespace Pipeline

variable {g : Group} {events : List Event} {sent : List (Nat × Event)} {clock t : Nat}

theorem empty (clock : Nat) : Pipeline .empty [] [] clock := by
  constructor <;> simp [Group.empty, Throttle.idle, blockHead, distinctUntilChanged, distinctFrom]

theorem later (h : Pipeline g events sent clock) (ht : clock ≤ t) : Pipeline g events sent t := by
  refine { h with idle := ?_ }
  intro hw
  obtain ⟨hheld, hsent⟩ := h.idle hw
  exact ⟨hheld, fun e he => (hsent e he).trans ht⟩

theorem counted (h : Pipeline g events sent clock) (event : Event) :
    g.lastVersion.any (fun v => v.strictEquals event.version) =
      !passes sameVersion (blockHead sameVersion events) event := by
  rw [h.lastVersion, h.previous, passes, Bool.not_not]
  rfl

theorem dropped (h : Pipeline g events sent clock) {event : Event}
    (hp : passes sameVersion g.previous event = false) :
    Pipeline { g with lastVersion := some event.version } (events ++ [event]) sent clock := by
  have hhead : blockHead sameVersion (events ++ [event]) = blockHead sameVersion events := by
    rw [blockHead_append, ← h.previous, hp]
    simp
  have hpass : distinctUntilChanged sameVersion (events ++ [event]) =
      distinctUntilChanged sameVersion events := by
    rw [distinctUntilChanged_append, ← h.previous, hp]
    simp
  refine { h with previous := ?_, lastVersion := ?_, sublist := ?_, last := ?_ }
  · rw [hhead]
    exact h.previous
  · intro version
    cases hprev : g.previous with
    | none => simp [passes, hprev] at hp
    | some event' =>
      have hsame : event'.version.strictEquals event.version = true := by
        simpa [passes, hprev, sameVersion] using hp
      simp [JsNumber.strictEquals_left hsame]
  · rw [hpass]
    exact h.sublist
  · rw [hhead]
    exact h.last

theorem passed (h : Pipeline g events sent clock) (ht : clock ≤ t) {event : Event}
    (hp : passes sameVersion g.previous event = true) :
    Pipeline ⟨some event.version, some event, (g.throttle.next window t event).1⟩
      (events ++ [event])
      (sent ++ ((g.throttle.next window t event).2.map (fun e => (t, e))).toList) t := by
  have hhead : blockHead sameVersion (events ++ [event]) = some event := by
    rw [blockHead_append, ← h.previous, hp, if_pos rfl]
  have hpass : distinctUntilChanged sameVersion (events ++ [event]) =
      distinctUntilChanged sameVersion events ++ [event] := by
    rw [distinctUntilChanged_append, ← h.previous, hp, if_pos rfl]
  have hsub : (sent.map Prod.snd).Sublist (distinctUntilChanged sameVersion events) :=
    (List.sublist_append_left _ _).trans h.sublist
  have hsub' : (sent.map Prod.snd ++ [event]).Sublist
      (distinctUntilChanged sameVersion events ++ [event]) := hsub.append_right [event]
  cases hw : g.throttle.window with
  | some due =>
    constructor
    case previous => rw [hhead]
    case lastVersion =>
      intro version
      rfl
    case sublist =>
      rw [hpass]
      simpa [Throttle.next, hw] using hsub'
    case last =>
      rw [hhead]
      simp [Throttle.next, hw]
    case spaced => simpa [Throttle.next, hw] using h.spaced
    case busy =>
      intro due' hdue e he
      have hdue : due = due' := by simpa [Throttle.next, hw] using hdue
      subst hdue
      exact h.busy due hw e (by simpa [Throttle.next, hw] using he)
    case idle =>
      intro hidle
      simp [Throttle.next, hw] at hidle
  | none =>
    obtain ⟨_, hsent⟩ := h.idle hw
    constructor
    case previous => rw [hhead]
    case lastVersion =>
      intro version
      rfl
    case sublist =>
      rw [hpass]
      simpa [Throttle.next, hw] using hsub'
    case last =>
      rw [hhead]
      simp [Throttle.next, hw]
    case spaced =>
      have hspaced : ∀ e ∈ sent, e.1 + window ≤ t := fun e he => (hsent e he).trans ht
      simpa [Throttle.next, hw, List.pairwise_append] using ⟨h.spaced, fun a b => hspaced (a, b)⟩
    case busy =>
      intro due hdue e he
      have hdue : t + window = due := by simpa [Throttle.next, hw] using hdue
      have he : e ∈ sent ∨ e = (t, event) := by simpa [Throttle.next, hw] using he
      rcases he with he | rfl
      · have hle := hsent e he
        omega
      · exact hdue.le
    case idle =>
      intro hidle
      simp [Throttle.next, hw] at hidle

theorem windowEnds (h : Pipeline g events sent clock) {due : Nat}
    (hw : g.throttle.window = some due) (hdue : due ≤ t) :
    Pipeline { g with throttle := (g.throttle.windowEnds window t).1 } events
      (sent ++ ((g.throttle.windowEnds window t).2.map (fun e => (t, e))).toList) t := by
  have hbefore : ∀ e ∈ sent, e.1 + window ≤ t := fun e he => (h.busy due hw e he).trans hdue
  cases hheld : g.throttle.held with
  | none =>
    refine { h with sublist := ?_, last := ?_, spaced := ?_, busy := ?_, idle := ?_ }
    · simpa [Throttle.windowEnds, Throttle.idle, hheld] using h.sublist
    · simpa [Throttle.windowEnds, Throttle.idle, hheld] using h.last
    · simpa [Throttle.windowEnds, hheld] using h.spaced
    · intro due' hdue'
      simp [Throttle.windowEnds, Throttle.idle, hheld] at hdue'
    · intro _
      refine ⟨by simp [Throttle.windowEnds, Throttle.idle, hheld], ?_⟩
      intro e he
      exact hbefore e (by simpa [Throttle.windowEnds, hheld] using he)
  | some event =>
    refine { h with sublist := ?_, last := ?_, spaced := ?_, busy := ?_, idle := ?_ }
    · simpa [Throttle.windowEnds, hheld] using h.sublist
    · simpa [Throttle.windowEnds, hheld] using h.last
    · simpa [Throttle.windowEnds, hheld, List.pairwise_append] using
        ⟨h.spaced, fun a b => hbefore (a, b)⟩
    · intro due' hdue' e he
      have hdue' : t + window = due' := by simpa [Throttle.windowEnds, hheld] using hdue'
      have he : e ∈ sent ∨ e = (t, event) := by simpa [Throttle.windowEnds, hheld] using he
      rcases he with he | rfl
      · have hle := hbefore e he
        omega
      · exact hdue'.le
    · intro hidle
      simp [Throttle.windowEnds, hheld] at hidle

end Pipeline

@[simp] theorem emit_groups (s : OrdersEventsService) (t : Nat) (o : Option Event) :
    (s.emit t o).groups = s.groups := by
  cases o <;> rfl

@[simp] theorem emit_clock (s : OrdersEventsService) (t : Nat) (o : Option Event) :
    (s.emit t o).clock = s.clock := by
  cases o <;> rfl

@[simp] theorem emit_conflated (s : OrdersEventsService) (t : Nat) (o : Option Event) :
    (s.emit t o).conflated = s.conflated := by
  cases o <;> rfl

@[simp] theorem emit_emissions (s : OrdersEventsService) (t : Nat) (o : Option Event) :
    (s.emit t o).emissions = s.emissions ++ (o.map (fun e => (t, e))).toList := by
  cases o <;> simp [emit]

@[simp] theorem emit_metrics (s : OrdersEventsService) (t : Nat) (o : Option Event) :
    (s.emit t o).metrics =
      { s.metrics with emitted := s.metrics.emitted + o.toList.length } := by
  cases o <;> rfl

def Group.react (g : Group) : Tick → Option (Group × Option Event)
  | .publish t event =>
    if passes sameVersion g.previous event then
      some (⟨some event.version, some event, (g.throttle.next window t event).1⟩,
        (g.throttle.next window t event).2)
    else some ({ g with lastVersion := some event.version }, none)
  | .windowEnds t _ =>
    if g.throttle.window.any (fun due => due ≤ t) then
      some ({ g with throttle := (g.throttle.windowEnds window t).1 },
        (g.throttle.windowEnds window t).2)
    else none

def Group.replaced (g : Group) : Tick → List Event
  | .publish _ event => if passes sameVersion g.previous event then g.throttle.held.toList else []
  | .windowEnds _ _ => []

/-- What `distinctUntilChanged` does not let through. -/
def Group.suppressed (g : Group) : Tick → List Event
  | .publish _ event => if passes sameVersion g.previous event then [] else [event]
  | .windowEnds _ _ => []

def Group.counts (g : Group) : Tick → Nat
  | .publish _ event =>
    if g.lastVersion.any (fun v => v.strictEquals event.version) then 1 else 0
  | .windowEnds _ _ => 0

/-- A tick moves the pipeline of its order, and touches no other. -/
structure Moved (s s' : OrdersEventsService) (tick : Tick) (g : Group) (sent : Option Event) :
    Prop where
  react : (s.group tick.orderId).react tick = some (g, sent)
  time : s.clock ≤ tick.time
  clock : s'.clock = tick.time
  groups : s'.groups = s.groups.insert tick.orderId g
  emissions : s'.emissions = s.emissions ++ (sent.map (fun e => (tick.time, e))).toList
  received : s'.metrics.received = s.metrics.received + tick.published.toList.length
  dedupDropped : s'.metrics.dedupDropped =
    s.metrics.dedupDropped + (s.group tick.orderId).counts tick
  emitted : s'.metrics.emitted = s.metrics.emitted + sent.toList.length
  conflated : s'.conflated = s.conflated ++ (s.group tick.orderId).replaced tick

theorem countVersion_received (metrics : OrderEventsMetrics) (g : Group) (event : Event) :
    (countVersion metrics g event).received = metrics.received := by
  unfold countVersion
  split <;> rfl

theorem countVersion_emitted (metrics : OrderEventsMetrics) (g : Group) (event : Event) :
    (countVersion metrics g event).emitted = metrics.emitted := by
  unfold countVersion
  split <;> rfl

theorem countVersion_dedupDropped (metrics : OrderEventsMetrics) (g : Group) (event : Event)
    (t : Nat) : (countVersion metrics g event).dedupDropped =
      metrics.dedupDropped + g.counts (.publish t event) := by
  simp only [countVersion, Group.counts]
  split <;> rfl

theorem step_moved {s s' : OrdersEventsService} {tick : Tick} (h : s.step tick = some s') :
    ∃ g sent, Moved s s' tick g sent := by
  have ht : s.clock ≤ tick.time := by
    by_contra hlt
    simp [step, hlt] at h
  cases tick with
  | publish t event =>
    simp only [step, ht, if_true, Option.some.injEq] at h
    subst h
    by_cases hp : passes sameVersion (s.group event.orderId).previous event = true
    · have hnext : s.publishStatusChanged t event = emit { s with
          metrics := countVersion { s.metrics with received := s.metrics.received + 1 }
            (s.group event.orderId) event
          clock := t
          groups := s.groups.insert event.orderId ⟨some event.version, some event,
            ((s.group event.orderId).throttle.next window t event).1⟩
          conflated := s.conflated ++ (s.group event.orderId).throttle.held.toList } t
          ((s.group event.orderId).throttle.next window t event).2 := by
        simp only [publishStatusChanged, next]
        exact if_pos hp
      rw [hnext]
      refine ⟨⟨some event.version, some event,
        ((s.group event.orderId).throttle.next window t event).1⟩,
        ((s.group event.orderId).throttle.next window t event).2, ?_⟩
      constructor <;>
        simp [Tick.orderId, Tick.time, Tick.published, Group.react, Group.replaced, hp,
          countVersion_received, countVersion_emitted, countVersion_dedupDropped _ _ _ t]
      exact ht
    · have hnext : s.publishStatusChanged t event = { s with
          metrics := countVersion { s.metrics with received := s.metrics.received + 1 }
            (s.group event.orderId) event
          clock := t
          groups := s.groups.insert event.orderId
            { s.group event.orderId with lastVersion := some event.version } } := by
        simp only [publishStatusChanged, next]
        exact if_neg hp
      rw [hnext]
      refine ⟨{ s.group event.orderId with lastVersion := some event.version }, none, ?_⟩
      constructor <;>
        simp [Tick.orderId, Tick.time, Tick.published, Group.react, Group.replaced, hp,
          countVersion_received, countVersion_emitted, countVersion_dedupDropped _ _ _ t]
      exact ht
  | windowEnds t orderId =>
    simp only [step, ht, if_true] at h
    by_cases hw : (s.group orderId).throttle.window.any (fun due => due ≤ t) = true
    · simp only [OrdersEventsService.windowEnds, hw, if_true, Option.some.injEq] at h
      subst h
      refine ⟨{ s.group orderId with
        throttle := ((s.group orderId).throttle.windowEnds window t).1 },
        ((s.group orderId).throttle.windowEnds window t).2, ?_⟩
      constructor <;>
        simp [Tick.orderId, Tick.time, Tick.published, Group.react, Group.replaced, Group.counts, hw]
      exact ht
    · simp [OrdersEventsService.windowEnds, hw] at h

theorem step_of_react {s : OrdersEventsService} {tick : Tick} (ht : s.clock ≤ tick.time)
    (h : ((s.group tick.orderId).react tick).isSome) : ∃ s', s.step tick = some s' := by
  cases tick with
  | publish t event => exact ⟨s.publishStatusChanged t event, by simp [step, ht]⟩
  | windowEnds t orderId =>
    have hw : (s.group orderId).throttle.window.any (fun due => due ≤ t) = true := by
      by_contra hw
      simp [Group.react, Tick.orderId, hw] at h
    exact ⟨_, by simp only [step, ht, if_true, OrdersEventsService.windowEnds, hw]; rfl⟩

theorem Pipeline.react {g g' : Group} {events : List Event} {sent : List (Nat × Event)}
    {clock : Nat} (h : Pipeline g events sent clock) {tick : Tick} (ht : clock ≤ tick.time)
    {now : Option Event} (hr : g.react tick = some (g', now)) :
    Pipeline g' (events ++ tick.published.toList)
      (sent ++ (now.map (fun e => (tick.time, e))).toList) tick.time := by
  cases tick with
  | publish t event =>
    by_cases hp : passes sameVersion g.previous event = true
    · simp only [Group.react, hp, if_true, Option.some.injEq, Prod.mk.injEq] at hr
      obtain ⟨rfl, rfl⟩ := hr
      exact h.passed ht hp
    · have hdrop := (h.dropped (by simpa using hp)).later ht
      simp only [Group.react, hp] at hr
      obtain ⟨rfl, rfl⟩ := Prod.mk.inj (Option.some.inj hr)
      simpa [Tick.published] using hdrop
  | windowEnds t orderId =>
    by_cases hw : g.throttle.window.any (fun due => due ≤ t) = true
    · simp only [Group.react, hw, if_true, Option.some.injEq, Prod.mk.injEq] at hr
      obtain ⟨rfl, rfl⟩ := hr
      obtain ⟨due, hdue, hle⟩ := (Option.any_eq_true _ _).mp hw
      simpa [Tick.published, Tick.time] using h.windowEnds hdue (by simpa using hle)
    · simp [Group.react, hw] at hr

theorem perm_filterMap_insert {κ α β : Type} [DecidableEq κ] (m : AList (fun _ : κ => α))
    (f : α → Option β) (k : κ) (a : α) :
    ((m.insert k a).entries.filterMap (fun e => f e.2) ++ ((m.lookup k).bind f).toList).Perm
      (m.entries.filterMap (fun e => f e.2) ++ (f a).toList) := by
  have hcons : ∀ (l : List (Sigma fun _ : κ => α)) (a : α),
      List.filterMap (fun e => f e.2) (⟨k, a⟩ :: l) =
        (f a).toList ++ List.filterMap (fun e => f e.2) l := by
    intro l a
    cases hf : f a <;> simp [hf]
  by_cases hk : k ∈ m
  · obtain ⟨b, l₁, l₂, _, hm, herase⟩ := List.exists_of_kerase (AList.mem_keys.mp hk)
    have hlook : m.lookup k = some b := by
      rw [AList.mem_lookup_iff.mpr]
      rw [hm]
      simp
    rw [AList.entries_insert, hcons, herase, hm, hlook, Option.bind_some, List.filterMap_append,
      List.filterMap_append, hcons]
    classical
    rw [List.perm_iff_count]
    intro c
    simp only [List.count_append]
    omega
  · have hlook : m.lookup k = none := AList.lookup_eq_none.mpr hk
    rw [AList.entries_insert_of_notMem hk, hcons, hlook]
    simpa using List.perm_append_comm

theorem Moved.held {s s' : OrdersEventsService} {tick : Tick} {g : Group} {sent : Option Event}
    (h : Moved s s' tick g sent) :
    (s'.held ++ (s.group tick.orderId).throttle.held.toList).Perm
      (s.held ++ g.throttle.held.toList) := by
  have hheld := perm_filterMap_insert s.groups (fun g => g.throttle.held) tick.orderId g
  rw [OrdersEventsService.held, h.groups, OrdersEventsService.held, group]
  cases hlook : s.groups.lookup tick.orderId with
  | none => simpa [hlook, Group.empty, Throttle.idle] using hheld
  | some g₀ => simpa [hlook] using hheld

/-- Every event that comes in is dropped, sent, replaced or held. -/
theorem react_parts {g g' : Group} {tick : Tick} {sent : Option Event}
    (hr : g.react tick = some (g', sent))
    (hidle : g.throttle.window = none → g.throttle.held = none) :
    (tick.published.toList ++ g.throttle.held.toList).Perm
      (g.suppressed tick ++ sent.toList ++ g.replaced tick ++ g'.throttle.held.toList) := by
  cases tick with
  | publish t event =>
    by_cases hp : passes sameVersion g.previous event = true
    · simp only [Group.react, hp, if_true, Option.some.injEq, Prod.mk.injEq] at hr
      obtain ⟨rfl, rfl⟩ := hr
      cases hw : g.throttle.window with
      | none =>
        simp [Tick.published, Group.suppressed, Group.replaced, hp, Throttle.next, hw, hidle hw]
      | some due =>
        simpa [Tick.published, Group.suppressed, Group.replaced, hp, Throttle.next, hw] using
          (List.perm_append_singleton event g.throttle.held.toList).symm
    · simp only [Group.react, hp] at hr
      obtain ⟨rfl, rfl⟩ := Prod.mk.inj (Option.some.inj hr)
      simp [Tick.published, Group.suppressed, Group.replaced, hp]
  | windowEnds t orderId =>
    by_cases hw : g.throttle.window.any (fun due => due ≤ t) = true
    · simp only [Group.react, hw, if_true, Option.some.injEq, Prod.mk.injEq] at hr
      obtain ⟨rfl, rfl⟩ := hr
      cases hheld : g.throttle.held <;>
        simp [Tick.published, Group.suppressed, Group.replaced, Throttle.windowEnds, Throttle.idle,
          hheld]
    · simp [Group.react, hw] at hr

/-- The state after the calls that published `events`. -/
structure Streamed (s : OrdersEventsService) (events : List Event) : Prop where
  pipeline : ∀ orderId, Pipeline (s.group orderId)
    (events.filter (fun event => event.orderId = orderId)) (s.emissionsOf orderId) s.clock
  received : s.metrics.received = events.length
  dedupDropped : s.metrics.dedupDropped =
    (suppressed Event.orderId sameVersion [] events).length
  emitted : s.metrics.emitted = s.emissions.length
  parts : events.Perm (suppressed Event.orderId sameVersion [] events ++
    s.emissions.map Prod.snd ++ s.conflated ++ s.held)

namespace Streamed

variable {s s' : OrdersEventsService} {events : List Event} {tick : Tick}

theorem start : Streamed start [] := by
  constructor <;> try rfl
  intro orderId
  simpa [OrdersEventsService.start, group, emissionsOf] using Pipeline.empty 0

theorem sent_orderId (h : Streamed s events) {g : Group} {sent : Option Event}
    (hm : Moved s s' tick g sent) : ∀ e ∈ sent, e.orderId = tick.orderId := by
  intro e he
  obtain rfl := Option.mem_def.mp he
  have hpipe := (h.pipeline tick.orderId).react hm.time hm.react
  have hmem : e ∈ distinctUntilChanged sameVersion
      (events.filter (fun event => event.orderId = tick.orderId) ++ tick.published.toList) := by
    apply hpipe.sublist.subset
    simp
  have hin := (distinctFrom_sublist _ none).subset hmem
  rcases List.mem_append.mp hin with hin | hin
  · simpa using (List.mem_filter.mp hin).2
  · cases tick with
    | publish t event =>
      obtain rfl : e = event := by simpa [Tick.published] using hin
      rfl
    | windowEnds t orderId => simp [Tick.published] at hin

theorem emissionsOf_self (h : Streamed s events) {g : Group} {sent : Option Event}
    (hm : Moved s s' tick g sent) : s'.emissionsOf tick.orderId =
      s.emissionsOf tick.orderId ++ (sent.map (fun e => (tick.time, e))).toList := by
  have horder := h.sent_orderId hm
  rw [emissionsOf, hm.emissions, List.filter_append]
  cases sent with
  | none => simp [emissionsOf]
  | some e => simp [emissionsOf, horder e rfl]

theorem emissionsOf_other (h : Streamed s events) {g : Group} {sent : Option Event}
    (hm : Moved s s' tick g sent) {orderId : String} (ho : tick.orderId ≠ orderId) :
    s'.emissionsOf orderId = s.emissionsOf orderId := by
  have horder := h.sent_orderId hm
  rw [emissionsOf, hm.emissions, List.filter_append]
  cases sent with
  | none => simp [emissionsOf]
  | some e =>
    have hne : e.orderId ≠ orderId := by rwa [horder e rfl]
    simp [emissionsOf, hne]

theorem suppressed_tick (h : Streamed s events) (tick : Tick) :
    suppressed Event.orderId sameVersion [] (events ++ tick.published.toList) =
      suppressed Event.orderId sameVersion [] events ++
        (s.group tick.orderId).suppressed tick := by
  cases tick with
  | publish t event =>
    rw [Tick.published, Option.toList_some, suppressed_append, List.nil_append, Group.suppressed,
      (h.pipeline _).previous, Tick.orderId]
  | windowEnds t orderId => simp [Tick.published, Group.suppressed]

theorem counts_eq (h : Streamed s events) (tick : Tick) :
    (s.group tick.orderId).counts tick = ((s.group tick.orderId).suppressed tick).length := by
  have hpipe := h.pipeline tick.orderId
  cases tick with
  | publish t event =>
    rw [Group.counts, hpipe.counted, Group.suppressed, hpipe.previous]
    by_cases hp : passes sameVersion (blockHead sameVersion (events.filter
        (fun e => e.orderId = (Tick.publish t event).orderId))) event = true
    · simp [hp]
    · simp [hp]
  | windowEnds t orderId => rfl

theorem step (h : Streamed s events) (hs : s.step tick = some s') :
    Streamed s' (events ++ tick.published.toList) := by
  obtain ⟨g, sent, hm⟩ := step_moved hs
  have hpipe := h.pipeline tick.orderId
  have hpublished : ∀ event ∈ tick.published, event.orderId = tick.orderId := by
    cases tick <;> simp [Tick.published, Tick.orderId]
  constructor
  case pipeline =>
    intro orderId
    by_cases ho : tick.orderId = orderId
    · subst ho
      have hg : s'.group tick.orderId = g := by simp [group, hm.groups]
      have hfilter : (events ++ tick.published.toList).filter
          (fun event => event.orderId = tick.orderId) =
            events.filter (fun event => event.orderId = tick.orderId) ++
              tick.published.toList := by
        cases hp : tick.published with
        | none => simp
        | some event => simp [hpublished event hp]
      rw [hg, hfilter, h.emissionsOf_self hm, hm.clock]
      exact hpipe.react hm.time hm.react
    · have hg : s'.group orderId = s.group orderId := by
        simp [group, hm.groups, AList.lookup_insert_ne (Ne.symm ho)]
      have hfilter : (events ++ tick.published.toList).filter
          (fun event => event.orderId = orderId) =
            events.filter (fun event => event.orderId = orderId) := by
        cases hp : tick.published with
        | none => simp
        | some event =>
          have hne : event.orderId ≠ orderId := by rwa [hpublished event hp]
          simp [hne]
      rw [hg, hfilter, h.emissionsOf_other hm ho, hm.clock]
      exact (h.pipeline orderId).later hm.time
  case received => rw [hm.received, h.received, List.length_append]
  case dedupDropped =>
    rw [hm.dedupDropped, h.dedupDropped, h.counts_eq, h.suppressed_tick, List.length_append]
  case emitted =>
    rw [hm.emitted, h.emitted, hm.emissions, List.length_append]
    cases sent <;> rfl
  case parts =>
    have hreact := react_parts hm.react (fun hw => (hpipe.idle hw).1)
    have hheld := hm.held
    have hsent : (s'.emissions.map Prod.snd) = s.emissions.map Prod.snd ++ sent.toList := by
      rw [hm.emissions]
      cases sent <;> simp
    rw [h.suppressed_tick, hsent, hm.conflated]
    classical
    rw [List.perm_iff_count]
    intro event
    have hbefore := h.parts.count_eq event
    have hreact := hreact.count_eq event
    have hheld := hheld.count_eq event
    simp only [List.count_append] at hbefore hreact hheld ⊢
    omega

theorem run {ticks : List Tick} (h : Streamed s events) (hs : s.run ticks = some s') :
    Streamed s' (events ++ published ticks) := by
  induction ticks generalizing s events with
  | nil =>
    obtain rfl := Option.some.inj hs
    simpa [published] using h
  | cons tick ticks ih =>
    obtain ⟨s₁, hstep, hrest⟩ := Option.bind_eq_some_iff.mp hs
    have hh := ih (h.step hstep) hrest
    cases hp : tick.published <;> simpa [published, hp] using hh

end Streamed

end OrdersEventsService

end Ecomm
