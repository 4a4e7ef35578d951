import Ecomm.Handling
import Ecomm.Lib.Unhindered
import Ecomm.Retry
import Ecomm.Stock

/-! Redelivery is harmless: of the transactions that carry a message at most
one commits, and calls that come after it are deduplicated. -/

namespace Ecomm

open Concurrent Sql

def OrderJob.begin (late : Bool) : OrderJob → Option Attempt
  | process message => some (.begin message late false)
  | update _ _ => none

def JobAnswered (jobs : List OrderJob) (i : Nat) (a : JobResult)
    (g : Session schema × Option Attempt) : Prop :=
  ∀ message, jobs[i]? = some (.process message) → ∃ result x, a = .processed result ∧
    g.2 = some x ∧ Settled message x.late false result (g.1, x)

theorem wp_job {jobs : List OrderJob} {i : Nat} {job : OrderJob} (h : jobs[i]? = some job)
    (late : Bool) :
    job.program.wp jobRules.protocol (JobAnswered jobs i) (fun _ _ => True)
      (.closed, job.begin late) := by
  cases job with
  | process message =>
    refine Prog.wp_mono (wp_process message late false) ?_ (fun _ _ h => h)
    rintro a ⟨g, y⟩ ⟨result, x, rfl, rfl, hs⟩ message' hm
    obtain rfl : message = message' := by simpa using h.symm.trans hm
    refine ⟨result, x, rfl, rfl, ?_⟩
    have hl : x.late = late := hs.sameLate
    rwa [hl]
  | update id updates =>
    refine Prog.wp_mono (wp_update id updates) ?_ (fun _ _ h => h)
    intro a g _ message hm
    rw [h] at hm
    cases hm

theorem Markers.begin {s : AppState} (hs : s.Quiet) (jobs : List OrderJob) :
    Markers jobs (fun _ => false) s.store.tables s
      (fun i => (.closed, (jobs[i]?).bind (OrderJob.begin false))) where
  ofJob j := by
    cases hj : jobs[j]? with
    | none => simp [OfJob, hj]
    | some job =>
      cases job with
      | process message => exact ⟨hj, rfl, rfl⟩
      | update id updates => simp [OfJob, OrderJob.begin, hj]
  entry c hc := by simp [hs.log] at hc
  alone := by simp [hs.log]
  origin m hm := .inl hm
  initial m hm := ⟨hm, by simp [hs.log]⟩
  mark j x m hx _ hor := by
    obtain ⟨job, _, hjob⟩ := Option.bind_eq_some_iff.mp hx
    cases job with
    | process message =>
      obtain rfl := Option.some.inj hjob
      simp [Attempt.begin] at hor
    | update id updates => cases hjob
  entryMark c hc := by simp [hs.log] at hc
  eventMark e he := by simp [hs.events] at he
  held j m b hb := by cases hb

theorem handling_run {s : AppState} (hs : s.Quiet) {jobs : List OrderJob}
    {es : List (Nat × AppChoice)} {c : Config app JobResult}
    (h : (handling s jobs).run es = some c) :
    ∃ γ, Follows jobRules.protocol (Rules.Inv (Markers jobs (fun _ => false) s.store.tables))
        (JobAnswered jobs) (fun _ _ _ => True) c γ ∧
      ∀ i, (∀ e ∈ es, e.1 ≠ i) → γ i = (.closed, (jobs[i]?).bind (OrderJob.begin false)) := by
  refine (jobRules_sound jobs (fun _ => false) s.store.tables).run
    ⟨⟨hs.coherent, hs.session, .begin hs jobs⟩, ?_⟩ (Config.meets_always _ _) h
  intro i p hp
  obtain ⟨job, hjob, rfl⟩ := Option.map_eq_some_iff.mp hp
  rw [hjob]
  exact wp_job hjob false

theorem Markers.late {jobs : List OrderJob} {T₀ : Database} {s : AppState}
    {γ : Nat → Session schema × Option Attempt} (h : Markers jobs (fun _ => false) T₀ s γ) {i : Nat}
    {message : Json.Fields} {m : Uuid} (hi : γ i = (.closed, some (.begin message false false)))
    (hid : markerId message = some m) (hm : marked s.store.tables m) :
    Markers jobs (fun j => j = i) T₀ s
        (Function.update γ i (.closed, some (.begin message true false))) ∧
      (∀ c ∈ s.store.log, c.thread ≠ i) ∧ ∀ e ∈ s.events, e.1 ≠ i := by
  have hlog : ∀ c ∈ s.store.log, c.thread ≠ i := by
    rintro c hc rfl
    have := (h.entryMark c hc (.begin message false false) (by rw [hi])).1
    cases this
  have hevents : ∀ e ∈ s.events, e.1 ≠ i := by
    rintro e he rfl
    have := (h.eventMark e he (.begin message false false) (by rw [hi])).1
    cases this
  have hother : ∀ j, j ≠ i →
      Function.update γ i (.closed, some (.begin message true false)) j = γ j :=
    fun j hj => Function.update_of_ne hj _ _
  refine ⟨?_, hlog, hevents⟩
  constructor
  case ofJob =>
    intro j
    by_cases hj : j = i
    · subst hj
      have := h.ofJob j
      rw [hi] at this
      rw [Function.update_self]
      exact ⟨this.1, by simp [Attempt.begin], rfl⟩
    · rw [hother j hj]
      have := h.ofJob j
      cases hx : (γ j).2 with
      | none => rwa [hx] at this
      | some x =>
        rw [hx] at this
        exact ⟨this.1, by simpa [hj] using this.2.1, this.2.2⟩
  case entry => exact h.entry
  case alone => exact h.alone
  case origin => exact h.origin
  case initial => exact h.initial
  case mark =>
    intro j x m' hx hid' hor
    by_cases hj : j = i
    · subst hj
      rw [Function.update_self] at hx
      obtain rfl := Option.some.inj hx
      obtain rfl : m' = m := Option.some.inj (hid'.symm.trans hid)
      exact hm
    · rw [hother j hj] at hx
      exact h.mark j x m' hx hid' hor
  case entryMark =>
    intro c hc x hx
    rw [hother _ (hlog c hc)] at hx
    exact h.entryMark c hc x hx
  case eventMark =>
    intro e he x hx
    rw [hother _ (hevents e he)] at hx
    exact h.eventMark e he x hx
  case held =>
    intro j m' b hb
    by_cases hj : j = i
    · subst hj
      rw [Function.update_self] at hb
      cases hb
    · rw [hother j hj] at hb
      exact h.held j m' b hb

/-- What a call that came too late has done: nothing. -/
structure Harmless (i : Nat) (c : Config app JobResult) : Prop where
  answer : ∀ a, c.thread i = some (.ret a) → ∃ orderId, a = .processed ⟨.deduplicated, orderId⟩
  writes : ∀ e ∈ c.shared.store.log, e.thread ≠ i
  events : ∀ e ∈ c.shared.events, e.1 ≠ i

/-- From a state with its marker row committed, call `i` is late. -/
theorem late_run {s : AppState} (hs : s.Quiet) {jobs : List OrderJob}
    {es es' : List (Nat × AppChoice)} {c c' : Config app JobResult}
    (h : (handling s jobs).run es = some c) {i : Nat} {message : Json.Fields} {m : Uuid}
    (hjob : jobs[i]? = some (.process message)) (hid : markerId message = some m)
    (hm : marked c.shared.store.tables m) (hidle : ∀ e ∈ es, e.1 ≠ i)
    (h' : c.run es' = some c') :
    ∃ γ x, Follows jobRules.protocol (Rules.Inv (Markers jobs (fun j => j = i) s.store.tables))
        (JobAnswered jobs) (fun _ _ _ => True) c' γ ∧
      (γ i).2 = some x ∧ x.message = message ∧ x.late = true := by
  obtain ⟨γ, hγ, hinit⟩ := handling_run hs h
  have hi : γ i = (.closed, some (.begin message false false)) := by
    rw [hinit i hidle, hjob]
    rfl
  obtain ⟨hlate, _, _⟩ := hγ.inv.rest.late hi hid hm
  have hthread : c.thread i = some (OrderJob.process message).program := by
    rw [Config.run_idle h hidle]
    simp [handling, hjob]
  have hfollows : Follows jobRules.protocol
      (Rules.Inv (Markers jobs (fun j => j = i) s.store.tables)) (JobAnswered jobs)
      (fun _ _ _ => True) c (Function.update γ i (.closed, some (.begin message true false))) := by
    refine ⟨⟨hγ.inv.coherent, ?_, hlate⟩, ?_⟩
    · intro j
      by_cases hj : j = i
      · subst hj
        have := hγ.inv.session j
        rw [hi] at this
        rwa [Function.update_self]
      · rw [Function.update_of_ne hj]
        exact hγ.inv.session j
    · intro j p hp
      by_cases hj : j = i
      · subst hj
        obtain rfl := Option.some.inj (hthread.symm.trans hp)
        rw [Function.update_self]
        exact wp_job hjob true
      · rw [Function.update_of_ne hj]
        exact hγ.thread j p hp
  obtain ⟨γ', hγ', _⟩ := (jobRules_sound jobs _ _).run hfollows (Config.meets_always _ _) h'
  have hof := hγ'.inv.rest.ofJob i
  cases hx : (γ' i).2 with
  | none =>
    rw [hx] at hof
    exact absurd hjob (hof message)
  | some x =>
    rw [hx] at hof
    have hmessage : OrderJob.process message = .process x.message :=
      Option.some.inj (hjob.symm.trans hof.1)
    exact ⟨γ', x, hγ', hx, (OrderJob.process.inj hmessage).symm, by simpa using hof.2.1⟩

theorem harmless_run {s : AppState} (hs : s.Quiet) {jobs : List OrderJob}
    {es es' : List (Nat × AppChoice)} {c c' : Config app JobResult}
    (h : (handling s jobs).run es = some c) {i : Nat} {message : Json.Fields} {m : Uuid}
    (hjob : jobs[i]? = some (.process message)) (hid : markerId message = some m)
    (hm : marked c.shared.store.tables m) (hidle : ∀ e ∈ es, e.1 ≠ i)
    (h' : c.run es' = some c') : Harmless i c' := by
  obtain ⟨γ, x, hγ, hx, _, hlate⟩ := late_run hs h hjob hid hm hidle h'
  have hJ := hγ.inv.rest
  constructor
  · intro a ha
    obtain ⟨result, x', rfl, hx', hs'⟩ := hγ.thread i _ ha message hjob
    obtain rfl : x = x' := Option.some.inj (hx.symm.trans hx')
    obtain ⟨outcome, orderId⟩ := result
    obtain rfl : outcome = .deduplicated := hs'.duplicate hlate
    exact ⟨orderId, rfl⟩
  · rintro e he rfl
    rw [(hJ.entryMark e he x hx).2] at hlate
    cases hlate
  · rintro e he rfl
    rw [(hJ.eventMark e he x hx).2] at hlate
    cases hlate

/-- The marker row of `m` is committed, and no transaction holds it. -/
def Taken (m : Uuid) (s : AppState) : Prop :=
  marked s.store.tables m ∧ s.store.owner (.row Table.processedMessages m) = none

theorem Markers.taken {jobs : List OrderJob} {late : Nat → Bool} {T₀ : Database} {s : AppState}
    {γ : Nat → Session schema × Option Attempt} (h : Rules.Inv (Markers jobs late T₀) s γ)
    {m : Uuid} (hm : marked s.store.tables m) : Taken m s := by
  refine ⟨hm, ?_⟩
  cases hown : s.store.owner (.row Table.processedMessages m) with
  | none => rfl
  | some j =>
    -- A thread that holds the row has found that there is none.
    obtain ⟨b, hb⟩ := Option.ne_none_iff_exists'.mp ((h.session j).locked _ m hown)
    have hrow := (h.session j).base _ m b hb
    rw [h.rest.held j m b hb] at hrow
    have hnone : ((s.store.tables .processedMessages).lookup m).isSome = true := hm
    rw [hrow] at hnone
    cases hnone

theorem exec_sql_eq {s : AppState} {i : Nat} {c : AppChoice} {o : Sql.Op schema}
    {r : Except SqlError o.Ans} {store : Store schema}
    (he : s.store.exec i c.sql o = some (r, store)) :
    app.exec s i c (.sql o) = some (r.mapError .sql, { s with store }) := by
  cases r <;> simp [AppState.exec, he, Except.mapError]

theorem keyLocks_marker (r : Option ProcessedMessage) :
    keyLocks (S := schema) Table.processedMessages r = [] := by
  cases r <;> rfl

/-- The insert is refused, and nothing has to be waited for. -/
theorem Taken.exec_insert {s : AppState} {m : Uuid} (h : Taken m s) {i : Nat}
    {c : Sql.Choice schema} (hc : c.fault = false) (htx : s.store.tx i = some ⟨[], false⟩)
    (row : Nat → ProcessedMessage) :
    s.store.exec i c (.stmt (.insert Table.processedMessages (some m) row)) =
      some (.error .uniqueViolation, s.store.abort i) := by
  have hview : s.store.view i = s.store.tables := Store.view_some htx
  have hrow : ((s.store.view i Table.processedMessages).lookup m).isSome = true := by
    rw [hview]
    exact h.1
  have hfree : (Write.locks (s.store.view i) (⟨Table.processedMessages, m, some (row c.now)⟩ :
      Write schema)).all (s.store.free i) = true := by
    refine List.all_eq_true.mpr ?_
    intro l hl
    have hsole : l = .row Table.processedMessages m := by
      rw [Write.locks, keyLocks_marker, keyLocks_marker] at hl
      simpa using hl
    rw [hsole, Store.free, h.2]
    rfl
  have haborted : s.store.isAborted i = false := by simp [Store.isAborted, htx]
  simp only [Store.exec, hc, haborted, Stmt.plan, Option.getD_some]
  rw [if_pos hrow]
  simp only [Option.isNone_some, Bool.false_eq_true, if_false]
  rw [if_pos hfree]

/-- A call of its own transaction, refused insert and commit. -/
theorem unhindered_duplicate {message : Json.Fields} {m o : Uuid} (hid : markerId message = some m)
    (ho : orderRef message = some o) (i : Nat) :
    (OrderJob.process message).program.Unhindered app NoFault (Taken m) (fun s => s.store.tx i) i
      (· = .ok (.processed ⟨.deduplicated, message.lookup "orderId"⟩)) 3 none := by
  simp only [OrderJob.program, processOrderMessage, processInTransaction, insertMarker,
    markerId_eq hid, orderRef_eq ho]
  intro s hs htx c hc
  have hstart : s.store.exec i c.sql .startTransaction = some (.ok (), s.store.start i) := by
    simp only [Store.exec]
    rw [if_neg (by simpa [NoFault] using hc)]
  refine ⟨_, _, exec_sql_eq hstart, ?_⟩
  intro s₁ hs₁ htx₁ c₁ hc₁
  have htx₁ : s₁.store.tx i = some ⟨[], false⟩ := htx₁.trans (by simp [Store.start])
  refine ⟨_, _, exec_sql_eq (hs₁.exec_insert hc₁ htx₁ _), ?_⟩
  intro s₂ hs₂ htx₂ c₂ hc₂
  have htx₂ : s₂.store.tx i = some ⟨[], true⟩ := htx₂.trans (Store.abort_tx_self htx₁)
  exact ⟨_, _, exec_sql_eq (Store.exec_commit_aborted htx₂ hc₂), rfl⟩

/-- A late call with well-formed ids is not held up by the transactions of others. -/
theorem returns_run {s : AppState} (hs : s.Quiet) {jobs : List OrderJob}
    {es es' : List (Nat × AppChoice)} {c c' : Config app JobResult}
    (h : (handling s jobs).run es = some c) {i : Nat} {message : Json.Fields} {m o : Uuid}
    (hjob : jobs[i]? = some (.process message)) (hid : markerId message = some m)
    (ho : orderRef message = some o) (hm : marked c.shared.store.tables m)
    (hidle : ∀ e ∈ es, e.1 ≠ i) (h' : c.run es' = some c')
    (hfault : ∀ e ∈ es', e.1 = i → NoFault e.2) :
    c'.thread i = some (.ret (.processed ⟨.deduplicated, message.lookup "orderId"⟩)) ∨
      es'.countP (fun e => e.1 = i) < 3 ∧ ∀ ch, NoFault ch → (c'.step i ch).isSome = true := by
  have htaken : ∀ es' d, c.run es' = some d → Taken m d.shared := by
    intro es' d hd
    obtain ⟨γ, x, hγ, hx, rfl, hlate⟩ := late_run hs h hjob hid hm hidle hd
    exact Markers.taken hγ.inv (hγ.inv.rest.mark i x m hx hid (.inr hlate))
  have hthread : c.thread i = some (OrderJob.process message).program := by
    rw [Config.run_idle h hidle]
    simp [handling, hjob]
  have htx : c.shared.store.tx i = none :=
    (run_tx_other h (fun e he => (hidle e he).symm)).trans (hs.tx i)
  have hprogram := unhindered_duplicate hid ho i
  obtain ⟨p, left, hp, hleft, hcount⟩ := Config.run_unhindered
    (fun hj he => AppState.exec_tx_other he hj.symm)
    (fun before _ d _ hd => htaken before d hd) hfault hthread (htx ▸ hprogram) h'
  have hcount : es'.countP (fun e => e.1 = i) + left = 3 := hcount
  rcases hleft.ends hp (htaken es' c' h') with (⟨a, ha, hret⟩ | ⟨e, _, hraise⟩) | ⟨hpos, hstep⟩
  · obtain rfl := Except.ok.inj hret
    exact .inl ha
  · cases hraise
  · exact .inr ⟨by omega, hstep⟩

/-- What holds for a message id `m` in a state that `processOrderMessage` and
`updateOrder` calls reach from tables `T₀` by the steps `es`. -/
structure RedeliveryHarmless (jobs : List OrderJob) (T₀ : Database) (es : List (Nat × AppChoice))
    (m : Uuid) (c : Config app JobResult) : Prop where
  once : (c.shared.store.log.filter (fun e => carries jobs m e.thread)).length ≤ 1
  never : marked T₀ m → ∀ e ∈ c.shared.store.log, carries jobs m e.thread = false
  row : marked c.shared.store.tables m ↔
    marked T₀ m ∨ ∃ e ∈ c.shared.store.log, carries jobs m e.thread = true
  returned : ∀ i a, carries jobs m i = true → c.thread i = some (.ret a) →
    marked c.shared.store.tables m
  retry : (∀ j, c.shared.store.tx j = none) → ¬ marked c.shared.store.tables m →
    ∀ i message o r, markerId message = some m → orderRef message = some o →
      (c.shared.store.tables .orders).lookup o = some r →
      allow c.shared.store.tables .orders o r = .ok () → r.status ≠ .processed →
      (processOrderMessage message).Finishes app NoFault i
        (fun a s => a = .ok ⟨.processed, some (.str (uuidOut o))⟩ ∧ Handled m o r s.store.tables)
        c.shared
  later : marked c.shared.store.tables m → ∀ i, carries jobs m i = true → (∀ e ∈ es, e.1 ≠ i) →
    ∀ es' c', c.run es' = some c' → Harmless i c'
  returns : marked c.shared.store.tables m → ∀ i message o, jobs[i]? = some (.process message) →
    markerId message = some m → orderRef message = some o → (∀ e ∈ es, e.1 ≠ i) →
    ∀ es' c', c.run es' = some c' → (∀ e ∈ es', e.1 = i → NoFault e.2) →
      c'.thread i = some (.ret (.processed ⟨.deduplicated, message.lookup "orderId"⟩)) ∨
        es'.countP (fun e => e.1 = i) < 3 ∧ ∀ ch, NoFault ch → (c'.step i ch).isSome = true
  again : (∀ j, c.shared.store.tx j = none) → marked c.shared.store.tables m →
    ∀ i message o, markerId message = some m → orderRef message = some o →
      (processOrderMessage message).Finishes app NoFault i
        (fun a s => a = .ok ⟨.deduplicated, message.lookup "orderId"⟩ ∧
          s.store.tables = c.shared.store.tables ∧ s.events = c.shared.events) c.shared

theorem carries_iff {jobs : List OrderJob} {m : Uuid} {i : Nat} : carries jobs m i = true ↔
    ∃ message, jobs[i]? = some (.process message) ∧ markerId message = some m := by
  unfold carries
  split
  · next message hj => simp [hj]
  · next hj =>
    constructor
    · intro h
      cases h
    · rintro ⟨message, hm, _⟩
      exact absurd hm (hj message)

/-- However often a message is delivered, and whatever its attempts and the
updates of orders are interleaved with, it takes effect at most once. -/
theorem redelivery_harmless {s : AppState} (hs : s.Quiet) (jobs : List OrderJob)
    {es : List (Nat × AppChoice)} {c : Config app JobResult}
    (h : (handling s jobs).run es = some c) (m : Uuid) :
    RedeliveryHarmless jobs s.store.tables es m c := by
  obtain ⟨γ, hγ, _⟩ := handling_run hs h
  have hJ := hγ.inv.rest
  constructor
  case once => exact length_filter_le_one (hJ.alone.imp (fun hmark => hmark m))
  case never => exact fun hm => (hJ.initial m hm).2
  case row =>
    constructor
    · exact hJ.origin m
    · rintro (hm | ⟨e, he, hm⟩)
      · exact (hJ.initial m hm).1
      · exact hJ.entry e he m hm
  case returned =>
    intro i a hi ha
    obtain ⟨message, hjob, hid⟩ := carries_iff.mp hi
    obtain ⟨result, x, rfl, hx, hsettled⟩ := hγ.thread i _ ha message hjob
    exact hJ.mark i x m hx (hsettled.sameMessage.symm ▸ hid) (.inl hsettled.mark)
  case retry =>
    intro htx hnew i message o r hid ho hrow hallow hstatus
    exact retry_finishes hγ.inv.coherent htx hid ho hnew hrow hallow hstatus
  case later =>
    intro hm i hi hidle es' c' h'
    obtain ⟨message, hjob, hid⟩ := carries_iff.mp hi
    exact harmless_run hs h hjob hid hm hidle h'
  case returns =>
    intro hm i message o hjob hid ho hidle es' c' h' hfault
    exact returns_run hs h hjob hid ho hm hidle h' hfault
  case again =>
    intro htx hm i message o hid ho
    exact duplicate_finishes hγ.inv.coherent htx hid ho hm

/-- The shop with order 7, which nobody has processed. -/
def penOrdered (status : OrderStatus) : Database
  | .orders => AList.singleton 7
    { userId := 1, status, idempotencyKey := none, createdAt := 0, updatedAt := 0
      processedAt := none }
  | t => penShop 5 t

def orderMessage (m : Uuid) : Json.Fields :=
  [("messageId", .str (uuidOut m)), ("orderId", .str (uuidOut 7))]

theorem penOrdered_distinct (status : OrderStatus) : Distinct (penOrdered status) := by
  apply Distinct.of_entries
  intro t e he e' he' _
  cases t <;> simp_all [penOrdered, penShop, AList.singleton]

/-- The first delivery is processed while the second one waits for its marker. -/
def redeliveryRace : List (Nat × AppChoice) :=
  [(0, tick 0), (1, tick 0)] ++ List.replicate 8 (0, tick 0) ++ List.replicate 2 (1, tick 0)

theorem redelivery_harmless_race :
    ∃ c, (handling (serving (penOrdered .pending))
        [.process (orderMessage 3), .process (orderMessage 3)]).run redeliveryRace = some c ∧
      RedeliveryHarmless [.process (orderMessage 3), .process (orderMessage 3)]
        (penOrdered .pending) redeliveryRace 3 c := by
  have h : ((handling (serving (penOrdered .pending))
      [.process (orderMessage 3), .process (orderMessage 3)]).run redeliveryRace).isSome =
        true := by
    decide +kernel
  exact ⟨_, (Option.some_get h).symm, redelivery_harmless (serving_quiet (penOrdered_distinct _)) _
    (Option.some_get h).symm 3⟩

/-- It carries the marker of the other messages, and no order's id. -/
def strangeOrderMessage (m : Uuid) : Json.Fields :=
  [("messageId", .str (uuidOut m)), ("orderId", .str "x")]

def thrownBy (c : Config app JobResult) (i : Nat) : Option Thrown :=
  match c.thread i with
  | some (.raise e) => some e
  | _ => none

/-- The text of `orderId` is refused before the marker row is looked at. -/
theorem later_call_fails :
    ¬ ∀ (jobs : List OrderJob) (s : AppState) (es es' : List (Nat × AppChoice))
        (c c' : Config app JobResult) (m : Uuid) (i : Nat), s.Quiet →
      (handling s jobs).run es = some c → marked c.shared.store.tables m →
        carries jobs m i = true → (∀ e ∈ es, e.1 ≠ i) → c.run es' = some c' →
          (∀ e ∈ es', NoFault e.2) → thrownBy c' i = none := by
  intro hclaim
  have h : ((handling (serving (penOrdered .pending))
      [.process (orderMessage 3), .process (strangeOrderMessage 3)]).run
        (List.replicate 8 (0, tick 0))).bind (fun c =>
          (c.run (List.replicate 3 (1, tick 0))).map (fun c' =>
            (((c.shared.store.tables .processedMessages).lookup 3).isSome, thrownBy c' 1))) =
      some (true, some (.sql .invalidText)) := by
    decide +kernel
  obtain ⟨c, hc, hrest⟩ := Option.bind_eq_some_iff.mp h
  obtain ⟨c', hc', hsummary⟩ := Option.map_eq_some_iff.mp hrest
  obtain ⟨hm, hthrown⟩ := Prod.mk.inj hsummary
  have hnone := hclaim [.process (orderMessage 3), .process (strangeOrderMessage 3)] _ _ _ c c' 3 1
    (serving_quiet (penOrdered_distinct _)) hc hm (by decide +kernel) ?_ hc' ?_
  · rw [hthrown] at hnone
    cases hnone
  · intro e he
    obtain rfl := List.eq_of_mem_replicate he
    decide
  · intro e he
    obtain rfl := List.eq_of_mem_replicate he
    rfl

end Ecomm
