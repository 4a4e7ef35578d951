import Ecomm.Redelivery

/-! Messages with different ids about one order. The guard of
`processOrderMessage` reads the order without a lock, so what it saw can be out
of date when the order is saved. -/

namespace Ecomm

open Concurrent Sql

def processing (s : AppState) (messages : List Json.Fields) :
    Config app ProcessOrderMessageResult :=
  ⟨s, fun i => (messages[i]?).map processOrderMessage⟩

def orderOf (messages : List Json.Fields) (i : Nat) : Option Uuid := (messages[i]?).bind orderRef

def committedStatus (messages : List Json.Fields) (s : AppState) (i : Nat) : Option OrderStatus :=
  (orderOf messages i).bind (fun o => ((s.store.tables .orders).lookup o).map (·.status))

/-- The step of thread `i` is not the step of a call that is past its guard
while the committed order is processed. -/
def GuardHolds (messages : List Json.Fields) (s : AppState) (i : Nat) : Prop :=
  i ∈ s.clockReads → (s.store.tx i).isSome = true →
    committedStatus messages s i ≠ some .processed

instance (messages : List Json.Fields) (s : AppState) (i : Nat) :
    Decidable (GuardHolds messages s i) :=
  inferInstanceAs (Decidable (i ∈ s.clockReads → (s.store.tx i).isSome = true →
    committedStatus messages s i ≠ some .processed))

def Apart (e e' : Commit schema) : Prop :=
  ∀ o, writesRow o e.writes = true → writesRow o e'.writes = false

instance : Std.Symm Apart where
  symm e e' h o ho := by
    by_contra hw
    cases (h o (by simpa using hw)).symm.trans ho

/-- What the calls keep: an order that one of them has written is processed,
and it is written once. -/
structure Finals (messages : List Json.Fields) (s : AppState)
    (γ : Nat → Session schema × Attempt) : Prop where
  strict : ∀ j, (γ j).2.strict = true
  late : ∀ j, (γ j).2.late = false
  order : ∀ j, orderRef (γ j).2.message = orderOf messages j
  dated : ∀ j, (γ j).2.dated = true → j ∈ s.clockReads
  read : ∀ j, (γ j).2.read ≠ none → Concerns s.store.tables (γ j).2 (· ≠ none)
  entry : ∀ e ∈ s.store.log, ∀ o, writesRow o e.writes = true →
    ∃ r, (s.store.tables .orders).lookup o = some r ∧ r.status = .processed
  once : s.store.log.Pairwise Apart
  wrote : ∀ j, (γ j).2.wrote = true → ∃ e ∈ s.store.log, e.thread = j ∧
    ∀ o, orderRef (γ j).2.message = some o → writesRow o e.writes = true
  announced : ∀ e ∈ s.events, (γ e.1).2.announced = true ∧ (γ e.1).2.wrote = true ∧
    orderRef (γ e.1).2.message = some e.2.orderId
  eventsOnce : (s.events.map (·.1)).Nodup

section

variable {messages : List Json.Fields} {s s' : AppState} {γ : Nat → Session schema × Attempt}
  {m o : Uuid} {g : Session schema} {i : Nat}

/-- The commit of a strict call leaves the orders as they are, or it turns its
own order from not processed to processed. -/
theorem Marked.orders {store : Store schema} (h : Marked true m o g) (hm : g.Matches store i)
    (o' : Uuid) :
    (writesRow o' g.writes = false ∧
      (store.tables.replay g.writes .orders).lookup o' = (store.tables .orders).lookup o') ∨
    (writesRow o' g.writes = true ∧ o' = o ∧
      (∃ r, (store.tables .orders).lookup o' = some r ∧ r.status ≠ .processed) ∧
      ∃ r, (store.tables.replay g.writes .orders).lookup o' = some r ∧ r.status = .processed) := by
  cases hw : writesRow o' g.writes with
  | false =>
    refine .inl ⟨rfl, Tables.lookup_replay_other (S := schema) (t := Table.orders) _ ?_⟩
    intro w hmem hat
    have := List.any_eq_false.mp hw w hmem
    simp [hat] at this
  | true =>
    obtain ⟨w, hmem, hat⟩ := List.any_eq_true.mp hw
    obtain ⟨ht, rfl⟩ : w.at .orders o' := of_decide_eq_true hat
    have ho : w.id = o := by
      rcases h.writes w hmem with ⟨hp, _⟩ | ⟨_, hid⟩
      · rw [hp] at ht
        cases ht
      · exact hid
    have hany : writesOrder g.writes = true :=
      List.any_eq_true.mpr ⟨w, hmem, decide_eq_true ht⟩
    obtain ⟨b, r, hbase, hseen, hrow⟩ := h.order hany
    obtain ⟨hstatus, r₀, rfl, hbefore⟩ := hrow rfl
    refine .inr ⟨rfl, ho, ⟨r₀, ?_, hbefore⟩, r, ?_, hstatus⟩
    · rw [ho, hm.base _ _ _ hbase]
    · rw [ho, ← Store.view_some (hm.tx.trans h.isOpen), hm.view_lookup, hseen]
      rfl

theorem Finals.step {a' : Attempt} {g' : Session schema} {ws : Option (List (Write schema))}
    (h : Finals messages s γ) (hl : Learned s s' i (γ i).2 a')
    (hlog : s'.store.log = s.store.log ++ (ws.map (Commit.mk i)).toList)
    (hclock : s.clockReads ⊆ s'.clockReads)
    (horders : ∀ o', (writesRow o' (ws.getD []) = false ∧
        (s'.store.tables .orders).lookup o' = (s.store.tables .orders).lookup o') ∨
      (writesRow o' (ws.getD []) = true ∧
        (∃ r, (s.store.tables .orders).lookup o' = some r ∧ r.status ≠ .processed) ∧
        ∃ r, (s'.store.tables .orders).lookup o' = some r ∧ r.status = .processed))
    (hevent : ∀ e, s'.events = s.events ++ [(i, e)] →
      orderRef (γ i).2.message = some e.orderId) :
    Finals messages s' (Function.update γ i (g', a')) := by
  have hself : (Function.update γ i (g', a') i).2 = a' := by rw [Function.update_self]
  have hother : ∀ j, j ≠ i → Function.update γ i (g', a') j = γ j :=
    fun j hj => Function.update_of_ne hj _ _
  have hmem : ∀ e ∈ s'.store.log, e ∈ s.store.log ∨ ∃ w, ws = some w ∧ e = ⟨i, w⟩ := by
    intro e he
    rw [hlog] at he
    refine (List.mem_append.mp he).imp_right ?_
    intro he
    obtain ⟨w, hw, rfl⟩ := Option.map_eq_some_iff.mp (Option.mem_toList.mp he)
    exact ⟨w, hw, rfl⟩
  have hold : ∀ e ∈ s.store.log, e ∈ s'.store.log := by
    intro e he
    rw [hlog]
    exact List.mem_append_left _ he
  have hexists : ∀ o', (s.store.tables .orders).lookup o' ≠ none →
      (s'.store.tables .orders).lookup o' ≠ none := by
    intro o' ho'
    rcases horders o' with ⟨_, hsame⟩ | ⟨_, _, r, hr, _⟩
    · rwa [hsame]
    · simp [hr]
  constructor
  case strict =>
    intro j
    by_cases hj : j = i
    · subst hj
      rw [hself]
      exact hl.strict.trans (h.strict j)
    · rw [hother j hj]
      exact h.strict j
  case late =>
    intro j
    by_cases hj : j = i
    · subst hj
      rw [hself]
      exact hl.late.trans (h.late j)
    · rw [hother j hj]
      exact h.late j
  case order =>
    intro j
    by_cases hj : j = i
    · subst hj
      rw [hself, hl.message]
      exact h.order j
    · rw [hother j hj]
      exact h.order j
  case dated =>
    intro j hd
    by_cases hj : j = i
    · subst hj
      rw [hself] at hd
      rcases hl.dated hd with hd | hd
      · exact hclock (h.dated j hd)
      · exact hd
    · rw [hother j hj] at hd
      exact hclock (h.dated j hd)
  case read =>
    intro j hr o' ho'
    by_cases hj : j = i
    · subst hj
      rw [hself] at hr ho'
      rw [hl.message] at ho'
      rcases hl.read with hsame | hnew
      · rw [hsame] at hr
        exact hexists o' (h.read j hr o' ho')
      · obtain ⟨r, hr⟩ := Option.ne_none_iff_exists'.mp hr
        simp [hnew r hr o' ho']
    · rw [hother j hj] at hr ho'
      exact hexists o' (h.read j hr o' ho')
  case entry =>
    intro e he o' ho'
    rcases hmem e he with he | ⟨w, rfl, rfl⟩
    · obtain ⟨r, hr, hstatus⟩ := h.entry e he o' ho'
      rcases horders o' with ⟨_, hsame⟩ | ⟨_, _, hafter⟩
      · exact ⟨r, hsame.trans hr, hstatus⟩
      · exact hafter
    · rcases horders o' with ⟨hnot, _⟩ | ⟨_, _, hafter⟩
      · cases hnot.symm.trans ho'
      · exact hafter
  case once =>
    rw [hlog]
    cases ws with
    | none => simpa using h.once
    | some w =>
      refine List.pairwise_append.mpr ⟨h.once, by simp, ?_⟩
      intro e he e' he' o' ho'
      obtain rfl : e' = ⟨i, w⟩ := by simpa using he'
      obtain ⟨r, hr, hstatus⟩ := h.entry e he o' ho'
      rcases horders o' with ⟨hnot, _⟩ | ⟨_, ⟨r', hr', hbefore⟩, _⟩
      · exact hnot
      · obtain rfl := Option.some.inj (hr.symm.trans hr')
        exact absurd hstatus hbefore
  case wrote =>
    intro j hw
    by_cases hj : j = i
    · subst hj
      rw [hself] at hw ⊢
      rw [hl.message]
      rcases hl.written hw with hw | hnew
      · obtain ⟨e, he, hrest⟩ := h.wrote j hw
        exact ⟨e, hold e he, hrest⟩
      · exact hnew
    · rw [hother j hj] at hw ⊢
      obtain ⟨e, he, hrest⟩ := h.wrote j hw
      exact ⟨e, hold e he, hrest⟩
  case announced =>
    intro e he
    have hkeep : e ∈ s.events → (Function.update γ i (g', a') e.1).2.announced = true ∧
        (Function.update γ i (g', a') e.1).2.wrote = true ∧
        orderRef (Function.update γ i (g', a') e.1).2.message = some e.2.orderId := by
      intro he
      obtain ⟨hann, hwrote, href⟩ := h.announced e he
      by_cases hei : e.1 = i
      · rw [hei] at hann hwrote href ⊢
        rw [hself]
        exact ⟨hl.announced hann, hl.wrote hwrote, hl.message ▸ href⟩
      · rw [hother _ hei]
        exact ⟨hann, hwrote, href⟩
    rcases hl.event with hev | ⟨ev, hev, _, hann, _, hwrote⟩
    · exact hkeep (hev ▸ he)
    · rw [hev] at he
      rcases List.mem_append.mp he with he | he
      · exact hkeep he
      · obtain rfl := List.mem_singleton.mp he
        rw [hself]
        exact ⟨hann, hl.wrote (hwrote (h.strict i)), hl.message ▸ hevent ev hev⟩
  case eventsOnce =>
    rcases hl.event with hev | ⟨ev, hev, hann, _⟩
    · rw [hev]
      exact h.eventsOnce
    · rw [hev, List.map_append]
      refine List.nodup_append.mpr ⟨h.eventsOnce, by simp, ?_⟩
      rintro j hj k hk rfl
      obtain rfl : j = i := by simpa using hk
      obtain ⟨e, he, rfl⟩ := List.mem_map.mp hj
      rw [(h.announced e he).1] at hann
      cases hann

end

theorem processRules_sound (messages : List Json.Fields) :
    processRules.protocol.Sound app (GuardHolds messages) (Rules.Inv (Finals messages)) := by
  refine Rules.sound processAllowed_writes ?_
  intro s s' γ i ch o r g' hinv hC ha he hchange hlearns hown
  have h := hinv.rest
  have hm := hinv.session i
  have hguard : (γ i).2.strict = true → (γ i).2.dated = true → (γ i).1.tx ≠ none →
      Concerns s.store.tables (γ i).2 (fun b => ∀ r, b = some r → r.status ≠ .processed) := by
    intro _ hd htx o' ho' r hr
    have hopen : (s.store.tx i).isSome = true := by
      rw [hm.tx]
      exact Option.isSome_iff_ne_none.mpr htx
    have hstatus := hC (h.dated i hd) hopen
    rw [committedStatus, ← h.order i, ho', Option.bind_some, hr] at hstatus
    exact fun hp => hstatus (congrArg some hp)
  obtain ⟨a', hnext, hlearned⟩ := process_learns hm hown ha he hchange hlearns
    (fun hl => by simp [h.late i] at hl) hguard (fun _ hr => h.read i hr)
  refine ⟨a', hnext, h.step hlearned hchange.log (AppState.exec_clockReads he).1 ?_ ?_⟩
  · intro o'
    rw [hchange.tables]
    cases hws : commits (γ i).1 o r with
    | none => exact .inl ⟨rfl, rfl⟩
    | some ws =>
      obtain ⟨_, _, _, rfl, m, o, _, _, hmarked⟩ := process_commits ha hnext hws
      rw [h.strict i] at hmarked
      exact (hmarked.orders hm o').imp_right (fun ⟨hw, _, hrest⟩ => ⟨hw, hrest⟩)
  · intro e hev
    rcases AppState.exec_events he with hsame | ⟨e', rfl, hev'⟩
    · simp [hsame] at hev
    · obtain rfl : e = e' := by simpa [hev'] using hev.symm
      exact ha.2.2.2

theorem Finals.begin {s : AppState} (hs : s.Quiet) (messages : List Json.Fields) :
    Finals messages s
      (fun i => (.closed, .begin ((messages[i]?).getD []) false true)) where
  strict _ := rfl
  late _ := rfl
  order j := by
    unfold orderOf
    cases messages[j]? <;> rfl
  dated j hd := by cases hd
  read j hr := absurd rfl hr
  entry e he := by simp [hs.log] at he
  once := by simp [hs.log]
  wrote j hw := by cases hw
  announced e he := by simp [hs.events] at he
  eventsOnce := by simp [hs.events]

theorem processing_run {s : AppState} (hs : s.Quiet) {messages : List Json.Fields}
    {es : List (Nat × AppChoice)} {c : Config app ProcessOrderMessageResult}
    (hC : (processing s messages).Meets (GuardHolds messages) es)
    (h : (processing s messages).run es = some c) :
    ∃ γ, Follows processRules.protocol (Rules.Inv (Finals messages))
      (fun i a g => ∀ message, messages[i]? = some message → Settled message false true a g)
      (fun _ _ _ => True) c γ := by
  have hbegin : ∀ i p, (processing s messages).thread i = some p → p.wp processRules.protocol
      (fun a g => ∀ message, messages[i]? = some message → Settled message false true a g)
      (fun _ _ => True) (.closed, .begin ((messages[i]?).getD []) false true) := by
    intro i p hp
    obtain ⟨message, hmessage, rfl⟩ := Option.map_eq_some_iff.mp hp
    rw [hmessage]
    refine Prog.wp_mono (wp_processOrderMessage message false true) ?_ (fun _ _ h => h)
    intro a g hsettled message' hmessage'
    obtain rfl := Option.some.inj hmessage'
    exact hsettled
  obtain ⟨γ, hγ, _⟩ := (processRules_sound messages).run
    ⟨⟨hs.coherent, hs.session, .begin hs messages⟩, hbegin⟩ hC h
  exact ⟨γ, hγ⟩

structure ProcessedOnce (messages : List Json.Fields) (o : Uuid)
    (c : Config app ProcessOrderMessageResult) : Prop where
  processed : ∀ i j a b, orderOf messages i = some o → orderOf messages j = some o →
    c.thread i = some (.ret a) → c.thread j = some (.ret b) →
    a.outcome = .processed → b.outcome = .processed → i = j
  written : (c.shared.store.log.filter (fun e => writesRow o e.writes)).length ≤ 1
  announced : (c.shared.events.filter (fun e => e.2.orderId = o)).length ≤ 1

/-- When no call goes on past its guard after another one has committed, an
order is processed once whatever the messages are. -/
theorem processed_once {s : AppState} (hs : s.Quiet) (messages : List Json.Fields)
    {es : List (Nat × AppChoice)} {c : Config app ProcessOrderMessageResult}
    (hC : (processing s messages).Meets (GuardHolds messages) es)
    (h : (processing s messages).run es = some c) (o : Uuid) : ProcessedOnce messages o c := by
  obtain ⟨γ, hγ⟩ := processing_run hs hC h
  have hF := hγ.inv.rest
  have hsame : ∀ i j, (γ i).2.wrote = true → (γ j).2.wrote = true →
      orderRef (γ i).2.message = some o → orderRef (γ j).2.message = some o → i = j := by
    intro i j hi hj hoi hoj
    obtain ⟨e, he, rfl, hwe⟩ := hF.wrote i hi
    obtain ⟨e', he', rfl, hwe'⟩ := hF.wrote j hj
    by_contra hne
    have hpair := hF.once.forall he he' (fun heq => hne (congrArg Commit.thread heq))
    cases (hpair o (hwe o hoi)).symm.trans (hwe' o hoj)
  constructor
  · intro i j a b hi hj ha hb hpa hpb
    have hwrote : ∀ k a, orderOf messages k = some o → c.thread k = some (.ret a) →
        a.outcome = .processed → (γ k).2.wrote = true := by
      intro k a hk hret hp
      obtain ⟨message, hmessage, _⟩ := Option.bind_eq_some_iff.mp hk
      exact (hγ.thread k _ hret message hmessage).wrote hp rfl
    exact hsame i j (hwrote i a hi ha hpa) (hwrote j b hj hb hpb) ((hF.order i).trans hi)
      ((hF.order j).trans hj)
  · exact length_filter_le_one (hF.once.imp (fun hpair => hpair o))
  · refine length_filter_le_one_of_nodup hF.eventsOnce ?_
    intro e he e' he' hoe hoe'
    obtain ⟨_, hwe, hre⟩ := hF.announced e he
    obtain ⟨_, hwe', hre'⟩ := hF.announced e' he'
    exact hsame _ _ hwe hwe' (hre.trans (by simpa using hoe)) (hre'.trans (by simpa using hoe'))

def moment (now : Nat) : AppChoice := ⟨⟨false, 0, now⟩, .accepted, 0, now⟩

/-- The second message is handled after the first one. -/
def inTurn : List (Nat × AppChoice) :=
  List.replicate 9 (0, moment 5) ++ List.replicate 4 (1, moment 6)

theorem processed_once_inTurn :
    (processing (serving (penOrdered .pending)) [orderMessage 3, orderMessage 4]).Meets
        (GuardHolds [orderMessage 3, orderMessage 4]) inTurn ∧
      ∃ c, (processing (serving (penOrdered .pending)) [orderMessage 3, orderMessage 4]).run
          inTurn = some c ∧ ProcessedOnce [orderMessage 3, orderMessage 4] 7 c := by
  have hC : (processing (serving (penOrdered .pending)) [orderMessage 3, orderMessage 4]).Meets
      (GuardHolds [orderMessage 3, orderMessage 4]) inTurn := by decide +kernel
  have h : ((processing (serving (penOrdered .pending)) [orderMessage 3, orderMessage 4]).run
      inTurn).isSome = true := by decide +kernel
  exact ⟨hC, _, (Option.some_get h).symm, processed_once (serving_quiet (penOrdered_distinct _)) _
    hC (Option.some_get h).symm 7⟩

def outcomeOf (c : Config app ProcessOrderMessageResult) (i : Nat) : Option ProcessOutcome :=
  match c.thread i with
  | some (.ret a) => some a.outcome
  | _ => none

/-- The first message has read the order when the second one processes it. -/
def staleGuard : List (Nat × AppChoice) :=
  List.replicate 4 (0, moment 5) ++ List.replicate 9 (1, moment 6) ++
    List.replicate 5 (0, moment 7)

theorem processed_twice :
    ∃ c, (processing (serving (penOrdered .pending)) [orderMessage 3, orderMessage 4]).run
        staleGuard = some c ∧
      (outcomeOf c 0 = some .processed ∧ outcomeOf c 1 = some .processed ∧
        (c.shared.store.log.filter (fun e => writesRow 7 e.writes)).length = 2 ∧
        (c.shared.events.filter (fun e => e.2.orderId = 7)).length = 2) ∧
      ¬ ProcessedOnce [orderMessage 3, orderMessage 4] 7 c := by
  have h : ((processing (serving (penOrdered .pending)) [orderMessage 3, orderMessage 4]).run
      staleGuard).map (fun c => (outcomeOf c 0, outcomeOf c 1,
        (c.shared.store.log.filter (fun e => writesRow 7 e.writes)).length,
        (c.shared.events.filter (fun e => e.2.orderId = 7)).length)) =
      some (some .processed, some .processed, 2, 2) := by decide +kernel
  obtain ⟨c, hc, hsummary⟩ := Option.map_eq_some_iff.mp h
  simp only [Prod.mk.injEq] at hsummary
  refine ⟨c, hc, hsummary, ?_⟩
  intro hone
  have := hone.written
  omega

end Ecomm
