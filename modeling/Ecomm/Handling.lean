import Ecomm.ProcessSteps

/-! Runs of any number of `processOrderMessage` and `updateOrder` calls: what
every step keeps about the marker rows of the messages. -/

namespace Ecomm

open Concurrent Sql

inductive OrderJob where
  | process (message : Json.Fields)
  | update (id : String) (updates : UpdateOrderDto)

inductive JobResult where
  | processed (result : ProcessOrderMessageResult)
  | updated (id : Uuid) (order : Order)

def OrderJob.program : OrderJob → App JobResult
  | process message => do
    let result ← processOrderMessage message
    pure (.processed result)
  | update id updates => do
    let saved ← updateOrder id updates
    pure (.updated saved.1 saved.2)

def handling (s : AppState) (jobs : List OrderJob) : Config app JobResult :=
  ⟨s, fun i => (jobs[i]?).map OrderJob.program⟩

/-! `updateOrder` writes orders and nothing else. -/

def updateAllowed (g : Session schema) : AppOp → Prop
  | .sql .startTransaction | .sql .rollbackTransaction => True
  | .sql .commitTransaction => ∀ w ∈ g.writes, w.table = .orders
  | .sql (.stmt (.select _ _)) | .sql (.stmt (.malformed _)) => True
  | .sql (.stmt (.insert .orders _ _)) | .sql (.stmt (.update .orders _ _)) => g.tx ≠ none
  | .dateNow | .publishStatusChanged _ => True
  | _ => False

def updateRules : Rules Unit := ⟨fun _ => updateAllowed, fun _ _ _ _ _ _ => True⟩

theorem updateRules_silent {g : Session schema} {o : AppOp} (h : updateAllowed g o) :
    updateRules.Silent () g o :=
  ⟨h, fun _ _ _ _ => rfl⟩

theorem wp_writeOrder {id : Uuid} {entity : Order} {found : Option (Uuid × Order)} :
    (do let result ← writeEntity .orders id entity found; commitTransaction; pure result :
      App Order).wp updateRules.protocol (fun _ _ => True) (fun _ _ => True) (.opened, ()) := by
  have hopen : (Session.opened : Session schema).tx ≠ none := by simp [Session.opened]
  have hcommit : ∀ (g : Session schema) (a : Order), (∀ w ∈ g.writes, w.table = .orders) →
      (do commitTransaction; pure a : App Order).wp updateRules.protocol (fun _ _ => True)
        (fun _ _ => True) (g, ()) := by
    intro g a hg
    refine (Prog.wp_bind _ _ _ _ _).mpr ?_
    exact Rules.wp_sql trivial hg (fun _ _ _ _ _ => trivial) (fun _ _ _ _ _ => trivial)
  refine (Prog.wp_bind _ _ _ _ _).mpr ?_
  cases found with
  | none =>
    refine (Prog.wp_bind _ _ _ _ _).mpr ?_
    refine Rules.wp_insert (updateRules_silent hopen) ?_ (fun _ => trivial)
    intro j _ _ _
    exact hcommit _ _ (by rw [Session.put_writes rfl]; simp [Session.opened, Session.writes])
  | some e =>
    refine (Prog.wp_bind _ _ _ _ _).mpr ?_
    refine Rules.wp_stmt trivial (updateRules_silent hopen) ?_ (fun _ => trivial)
    intro a g' hn
    cases hn with
    | updateMissing => exact hcommit _ _ (by simp [Session.opened, Session.writes])
    | update =>
      exact hcommit _ _ (by rw [Session.put_writes rfl]; simp [Session.opened, Session.writes])

theorem wp_updateOrder (id : String) (updates : UpdateOrderDto) :
    (updateOrder id updates).wp updateRules.protocol (fun _ _ => True) (fun _ _ => True)
      (.closed, ()) := by
  have hread : ∀ cond : Uuid → Order → Bool,
      updateRules.Silent () .closed (.sql (.stmt (.select .orders cond))) :=
    fun _ => updateRules_silent trivial
  refine (Prog.wp_bind _ _ _ _ _).mpr ?_
  refine Rules.wp_findOneById hread (fun _ => updateRules_silent trivial) ?_ (fun _ => trivial)
  intro rows u _ _
  cases rows.head? with
  | none => trivial
  | some row =>
    have hpublish : ∀ (saved : Order) (g : Session schema),
        (if updates.status.any (· ≠ row.2.status) then do
            let ts ← await .dateNow
            await (.publishStatusChanged ⟨row.1, saved.status, saved.updatedAt, ts⟩)
            pure (row.1, saved)
          else pure (row.1, saved) : App (Uuid × Order)).wp updateRules.protocol
          (fun _ _ => True) (fun _ _ => True) (g, ()) := by
      intro saved g
      split
      · refine (Prog.wp_bind _ _ _ _ _).mpr ?_
        refine Rules.wp_other (by simp) trivial ?_ (fun _ _ _ => trivial)
        intro ts _ _
        refine (Prog.wp_bind _ _ _ _ _).mpr ?_
        exact Rules.wp_other (by simp) trivial (fun _ _ _ => trivial) (fun _ _ _ => trivial)
      · trivial
    refine (Prog.wp_bind _ _ _ _ _).mpr ((Prog.wp_bind _ _ _ _ _).mpr ?_)
    refine Rules.wp_findOne (hread _) ?_ (fun _ => trivial)
    intro again _
    split
    · exact hpublish _ _
    · refine Prog.wp_mono (Rules.wp_transaction (Q := fun _ _ => True) rfl trivial
        (fun _ _ => trivial) (fun _ _ => wp_writeOrder)) ?_ (fun _ _ h => h)
      rintro saved ⟨g, _⟩ _
      exact hpublish saved g

theorem updateAllowed_writes {g : Session schema} {q : Stmt schema}
    (h : updateAllowed g (.sql (.stmt q))) : q.reads = true ∨ g.tx ≠ none := by
  cases q with
  | select t cond => exact .inl rfl
  | malformed e => exact .inl rfl
  | selectForUpdate t id | delete t id => exact h.elim
  | insert t id row =>
    cases t with
    | orders => exact .inr h
    | _ => exact h.elim
  | update t id set =>
    cases t with
    | orders => exact .inr h
    | _ => exact h.elim

/-- `none` is a thread that runs `updateOrder`. -/
def jobRules : Rules (Option Attempt) where
  allowed x g o := x.elim (updateAllowed g o) (fun a => processAllowed a g o)
  next x g o r g' x' := x.elim (x' = none) (fun a => ∃ a', x' = some a' ∧ processNext a g o r g' a')

theorem wp_process (message : Json.Fields) (late strict : Bool) :
    (OrderJob.process message).program.wp jobRules.protocol
      (fun a g => ∃ result x, a = .processed result ∧ g.2 = some x ∧
        Settled message late strict result (g.1, x))
      (fun _ _ => True) (.closed, some (.begin message late strict)) := by
  refine (Prog.wp_bind _ _ _ _ _).mpr ?_
  refine Prog.wp_mono (Rules.wp_lift (fun x y => y = some x) ?_ rfl
    (wp_processOrderMessage message late strict)) ?_ (fun _ _ _ => trivial)
  · rintro x _ g o rfl ha
    refine ⟨ha, ?_⟩
    rintro r g' y' ⟨a', rfl, hn⟩
    exact ⟨a', hn, rfl⟩
  · rintro result ⟨g, _⟩ ⟨x, rfl, h⟩
    exact ⟨result, x, rfl, rfl, h⟩

theorem wp_update (id : String) (updates : UpdateOrderDto) :
    (OrderJob.update id updates).program.wp jobRules.protocol (fun _ _ => True)
      (fun _ _ => True) (.closed, none) := by
  refine (Prog.wp_bind _ _ _ _ _).mpr ?_
  refine Prog.wp_mono (Rules.wp_lift (fun _ y => y = none) ?_ rfl (wp_updateOrder id updates)) ?_
    (fun _ _ _ => trivial)
  · rintro x _ g o rfl ha
    exact ⟨ha, fun r g' y' hn => ⟨(), trivial, hn⟩⟩
  · rintro saved g _
    trivial

def carries (jobs : List OrderJob) (m : Uuid) (i : Nat) : Bool :=
  match jobs[i]? with
  | some (.process message) => markerId message = some m
  | _ => false

/-- The ghost state of a thread belongs to its job. -/
def OfJob (jobs : List OrderJob) (late : Nat → Bool) (strict : Bool) (i : Nat) :
    Option Attempt → Prop
  | some x => jobs[i]? = some (.process x.message) ∧ x.late = late i ∧ x.strict = strict
  | none => ∀ message, jobs[i]? ≠ some (.process message)

/-- The marker rows are those of the commits that carry them, one each. -/
structure Markers (jobs : List OrderJob) (late : Nat → Bool) (T₀ : Database) (s : AppState)
    (γ : Nat → Session schema × Option Attempt) : Prop where
  ofJob : ∀ j, OfJob jobs late false j (γ j).2
  entry : ∀ c ∈ s.store.log, ∀ m, carries jobs m c.thread = true → marked s.store.tables m
  alone : s.store.log.Pairwise (fun c c' => ∀ m, carries jobs m c.thread = true →
    carries jobs m c'.thread = false)
  origin : ∀ m, marked s.store.tables m →
    marked T₀ m ∨ ∃ c ∈ s.store.log, carries jobs m c.thread = true
  initial : ∀ m, marked T₀ m → marked s.store.tables m ∧
    ∀ c ∈ s.store.log, carries jobs m c.thread = false
  mark : ∀ j x m, (γ j).2 = some x → markerId x.message = some m →
    x.mark = true ∨ x.late = true → marked s.store.tables m
  entryMark : ∀ c ∈ s.store.log, ∀ x, (γ c.thread).2 = some x → x.mark = true ∧ x.late = false
  eventMark : ∀ e ∈ s.events, ∀ x, (γ e.1).2 = some x → x.announced = true ∧ x.late = false
  held : ∀ j m b, (γ j).1.base .processedMessages m = some b → b = none

theorem carries_eq {jobs : List OrderJob} {late : Nat → Bool} {strict : Bool} {i : Nat}
    {x : Attempt} (h : OfJob jobs late strict i (some x)) (m : Uuid) :
    carries jobs m i = true ↔ markerId x.message = some m := by
  simp [carries, h.1]

theorem carries_none {jobs : List OrderJob} {late : Nat → Bool} {strict : Bool} {i : Nat}
    (h : OfJob jobs late strict i none) (m : Uuid) : carries jobs m i = false := by
  unfold carries
  split
  · next message hj => exact absurd hj (h message)
  · rfl

/-- What a thread remembers only grows. -/
def Evolves (x x' : Option Attempt) : Prop :=
  ∀ a', x' = some a' → ∃ a, x = some a ∧ a'.message = a.message ∧ a'.late = a.late ∧
    a'.strict = a.strict ∧ (a.mark = true → a'.mark = true) ∧
    (a.announced = true → a'.announced = true)

theorem Markers.step {jobs : List OrderJob} {late : Nat → Bool} {T₀ : Database} {s s' : AppState}
    {γ : Nat → Session schema × Option Attempt} {i : Nat} {g' : Session schema}
    {x' : Option Attempt} {ws : Option (List (Write schema))} (h : Markers jobs late T₀ s γ)
    (hofJob : OfJob jobs late false i x') (hevolves : Evolves (γ i).2 x')
    (hl : s'.store.log = s.store.log ++ (ws.map (Commit.mk i)).toList)
    (hmarks : ∀ m, marked s'.store.tables m ↔
      marked s.store.tables m ∨ (ws.isSome ∧ carries jobs m i = true))
    (hfresh : ws.isSome → ∀ m, carries jobs m i = true → ¬ marked s.store.tables m)
    (hcommit : ws.isSome → ∀ a, x' = some a → a.mark = true ∧ a.late = false)
    (hmark : ∀ a m, x' = some a → markerId a.message = some m → a.mark = true ∨ a.late = true →
      marked s'.store.tables m)
    (hev : ∀ e ∈ s'.events, e ∈ s.events ∨
      (e.1 = i ∧ ∀ a, x' = some a → a.announced = true ∧ a.late = false))
    (hheld : ∀ m b, g'.base .processedMessages m = some b →
      (γ i).1.base .processedMessages m = some b ∨ b = none) :
    Markers jobs late T₀ s' (Function.update γ i (g', x')) := by
  have hself : (Function.update γ i (g', x') i).2 = x' := by rw [Function.update_self]
  have hother : ∀ j, j ≠ i → Function.update γ i (g', x') j = γ j :=
    fun j hj => Function.update_of_ne hj _ _
  have hlog : ∀ c ∈ s'.store.log, c ∈ s.store.log ∨ (ws.isSome ∧ c.thread = i) := by
    intro c hc
    rw [hl] at hc
    cases ws with
    | none => exact .inl (by simpa using hc)
    | some ws =>
      rcases List.mem_append.mp hc with hc | hc
      · exact .inl hc
      · obtain rfl : c = ⟨i, ws⟩ := by simpa using hc
        exact .inr ⟨rfl, rfl⟩
  constructor
  case ofJob =>
    intro j
    by_cases hj : j = i
    · subst hj
      rwa [hself]
    · rw [hother j hj]
      exact h.ofJob j
  case entry =>
    intro c hc m hm
    rcases hlog c hc with hc | ⟨hws, hci⟩
    · exact (hmarks m).mpr (.inl (h.entry c hc m hm))
    · exact (hmarks m).mpr (.inr ⟨hws, hci ▸ hm⟩)
  case alone =>
    rw [hl]
    cases ws with
    | none => simpa using h.alone
    | some ws =>
      refine List.pairwise_append.mpr ⟨h.alone, by simp, ?_⟩
      intro c hc c' hc' m hm
      obtain rfl : c' = ⟨i, ws⟩ := by simpa using hc'
      by_contra hm'
      exact hfresh rfl m (by simpa using hm') (h.entry c hc m hm)
  case origin =>
    intro m hm
    rcases (hmarks m).mp hm with hm | ⟨hws, hm⟩
    · rcases h.origin m hm with hinit | ⟨c, hc, hcm⟩
      · exact .inl hinit
      · exact .inr ⟨c, by rw [hl]; exact List.mem_append_left _ hc, hcm⟩
    · obtain ⟨ws, rfl⟩ := Option.isSome_iff_exists.mp hws
      exact .inr ⟨⟨i, ws⟩, by simp [hl], hm⟩
  case initial =>
    intro m hm
    obtain ⟨hnow, hnever⟩ := h.initial m hm
    refine ⟨(hmarks m).mpr (.inl hnow), ?_⟩
    intro c hc
    rcases hlog c hc with hc | ⟨hws, hci⟩
    · exact hnever c hc
    · by_contra hcm
      exact hfresh hws m (by simpa [hci] using hcm) hnow
  case mark =>
    intro j x m hj hid hx
    by_cases hji : j = i
    · subst hji
      rw [hself] at hj
      exact hmark x m hj hid hx
    · rw [hother j hji] at hj
      exact (hmarks m).mpr (.inl (h.mark j x m hj hid hx))
  case entryMark =>
    intro c hc x hx
    by_cases hci : c.thread = i
    · rw [hci, hself] at hx
      rcases hlog c hc with hc | ⟨hws, _⟩
      · obtain ⟨a, ha, _, hlate, _, hmono, _⟩ := hevolves x hx
        obtain ⟨hm, hl⟩ := h.entryMark c hc a (hci ▸ ha)
        exact ⟨hmono hm, hlate.trans hl⟩
      · exact hcommit hws x hx
    · rw [hother _ hci] at hx
      exact h.entryMark c ((hlog c hc).resolve_right (fun hh => hci hh.2)) x hx
  case eventMark =>
    intro e he x hx
    by_cases hei : e.1 = i
    · rw [hei, hself] at hx
      rcases hev e he with he | ⟨_, hnew⟩
      · obtain ⟨a, ha, _, hlate, _, _, hmono⟩ := hevolves x hx
        obtain ⟨hm, hl⟩ := h.eventMark e he a (hei ▸ ha)
        exact ⟨hmono hm, hlate.trans hl⟩
      · exact hnew x hx
    · rw [hother _ hei] at hx
      exact h.eventMark e ((hev e he).resolve_right (fun hh => hei hh.1)) x hx
  case held =>
    intro j m b hb
    by_cases hj : j = i
    · subst hj
      rw [Function.update_self] at hb
      exact (hheld m b hb).elim (h.held j m b) id
    · rw [hother j hj] at hb
      exact h.held j m b hb

theorem jobRules_held {x : Option Attempt} {g g' : Session schema} {o : AppOp}
    {r : Except Thrown o.Ans} (ha : jobRules.allowed x g o) (hlearns : Learns g o r g') (m : Uuid)
    (b : Option ProcessedMessage) (hb : g'.base .processedMessages m = some b) :
    g.base .processedMessages m = some b ∨ b = none := by
  cases o with
  | sql q =>
    have hlock : ∀ j, q ≠ .stmt (.selectForUpdate .processedMessages j) := by
      rintro j rfl
      cases x <;> exact ha
    have hupdate : ∀ j set, q ≠ .stmt (.update .processedMessages j set) := by
      rintro j set rfl
      cases x <;> exact ha
    cases r with
    | ok a => exact Session.Next.inserted hlearns hlock hupdate hb
    | error e =>
      cases e with
      | sql e => exact Session.Next.inserted hlearns hlock hupdate hb
      | _ => exact hlearns.elim
  | _ =>
    obtain rfl : g' = g := hlearns
    exact .inl hb

theorem OfJob.learned {jobs : List OrderJob} {late : Nat → Bool} {strict : Bool} {i : Nat}
    {a a' : Attempt} (h : OfJob jobs late strict i (some a)) (hm : a'.message = a.message)
    (hl : a'.late = a.late) (hs : a'.strict = a.strict) : OfJob jobs late strict i (some a') :=
  ⟨hm ▸ h.1, hl.trans h.2.1, hs.trans h.2.2⟩

theorem marked_replay {T : Database} {ws : List (Write schema)} {m : Uuid}
    (h : ∀ w ∈ ws, ¬ w.at .processedMessages m) : marked (T.replay ws) m ↔ marked T m := by
  rw [marked, marked, Tables.lookup_replay_other _ h]

theorem Marked.marks {strict : Bool} {m o : Uuid} {g : Session schema} {s : Store schema} {i : Nat}
    (h : Marked strict m o g) (hm : g.Matches s i) (m' : Uuid) :
    marked (s.tables.replay g.writes) m' ↔ marked s.tables m' ∨ m' = m := by
  by_cases hmm : m' = m
  · subst hmm
    obtain ⟨row, hseen⟩ := h.marker
    have hrow : marked (s.tables.replay g.writes) m' := by
      rw [marked, ← Store.view_some (hm.tx.trans h.isOpen), hm.view_lookup, hseen]
      rfl
    simp [hrow]
  · have hother : ∀ w ∈ g.writes, ¬ w.at .processedMessages m' := by
      rintro w hw ⟨ht, hid⟩
      rcases h.writes w hw with ⟨_, hw⟩ | ⟨hw, _⟩
      · exact hmm (hid.symm.trans hw)
      · rw [ht] at hw
        cases hw
    rw [marked_replay hother]
    simp [hmm]

theorem Marked.new {strict : Bool} {m o : Uuid} {g : Session schema} {s : Store schema} {i : Nat}
    (h : Marked strict m o g) (hm : g.Matches s i) : ¬ marked s.tables m := by
  rw [marked, hm.base _ _ _ h.isNew]
  simp

theorem jobRules_sound (jobs : List OrderJob) (late : Nat → Bool) (T₀ : Database) :
    jobRules.protocol.Sound app Always (Rules.Inv (Markers jobs late T₀)) := by
  refine Rules.sound ?_ ?_
  · rintro (_ | a) g q ha
    · exact updateAllowed_writes ha
    · exact processAllowed_writes ha
  · intro s s' γ i ch o r g' hinv _ ha he hchange hlearns hown
    have h := hinv.rest
    have hm := hinv.session i
    have hofJob := h.ofJob i
    cases hx : (γ i).2 with
    | none =>
      rw [hx] at ha hofJob
      refine ⟨none, rfl, ?_⟩
      refine h.step hofJob (fun _ hn => by cases hn) hchange.log ?_ ?_ (fun _ _ hn => by cases hn)
        (fun _ _ hn => by cases hn) ?_ ?_
      · intro m
        simp only [carries_none hofJob, Bool.false_eq_true, and_false, or_false]
        rw [hchange.tables]
        apply marked_replay
        intro w hw hat
        cases hws : commits (γ i).1 o r with
        | none => simp [hws] at hw
        | some ws =>
          obtain ⟨rfl, htx⟩ := commits_eq_some hws
          have hwrites : (γ i).1.writes = ws := Session.writes_open htx
          rw [hws, Option.getD_some, ← hwrites] at hw
          have horders : w.table = .orders := ha w hw
          cases horders.symm.trans hat.1
      · intro _ m hcarries
        rw [carries_none hofJob] at hcarries
        cases hcarries
      · intro e hmem
        rcases AppState.exec_events he with hev | ⟨ev, _, hev⟩
        · exact .inl (hev ▸ hmem)
        · rw [hev] at hmem
          refine (List.mem_append.mp hmem).imp_right ?_
          intro hmem
          obtain rfl := List.mem_singleton.mp hmem
          exact ⟨rfl, fun _ hn => by cases hn⟩
      · exact jobRules_held (x := none) ha hlearns
    | some a =>
      rw [hx] at ha hofJob
      have hstrict : a.strict = false := hofJob.2.2
      obtain ⟨a', hnext, hlearned⟩ := process_learns hm hown ha he hchange hlearns
        (fun hl m hid => h.mark i a m hx hid (.inr hl)) (by simp [hstrict]) (by simp [hstrict])
      refine ⟨some a', ⟨a', rfl, hnext⟩, ?_⟩
      have hcarries : ∀ m, carries jobs m i = true ↔ markerId a.message = some m :=
        fun m => carries_eq hofJob m
      refine h.step (hofJob.learned hlearned.message hlearned.late hlearned.strict) ?_ hchange.log
        ?_ ?_ ?_ ?_ ?_ ?_
      · rintro _ ⟨rfl⟩
        exact ⟨a, hx, hlearned.message, hlearned.late, hlearned.strict, hlearned.mark,
          hlearned.announced⟩
      · intro m
        rw [hchange.tables, hcarries]
        cases hws : commits (γ i).1 o r with
        | none => simp
        | some ws =>
          obtain ⟨_, _, _, rfl, m', o', hid, _, hmarked⟩ := process_commits ha hnext hws
          simp [hmarked.marks hm, hid, eq_comm]
      · intro hsome m hcm
        obtain ⟨ws, hws⟩ := Option.isSome_iff_exists.mp hsome
        obtain ⟨_, _, _, _, m', o', hid, _, hmarked⟩ := process_commits ha hnext hws
        obtain rfl : m' = m := Option.some.inj (hid.symm.trans ((hcarries m).mp hcm))
        exact hmarked.new hm
      · rintro hsome _ ⟨rfl⟩
        obtain ⟨ws, hws⟩ := Option.isSome_iff_exists.mp hsome
        obtain ⟨hl, hmark, _⟩ := process_commits ha hnext hws
        exact ⟨hmark, hlearned.late.trans hl⟩
      · rintro _ m ⟨rfl⟩ hid hor
        rw [hlearned.message] at hid
        have hkeep : marked s.store.tables m → marked s'.store.tables m := by
          intro hmark
          rw [hchange.tables]
          cases hws : commits (γ i).1 o r with
          | none => simpa using hmark
          | some ws =>
            obtain ⟨_, _, _, rfl, m', o', _, _, hmarked⟩ := process_commits ha hnext hws
            exact (hmarked.marks hm m).mpr (.inl hmark)
        rcases hor with hmark | hl
        · rcases hlearned.marked hmark with hold | hnew
          · exact hkeep (h.mark i a m hx hid (.inl hold))
          · exact hnew m hid
        · exact hkeep (h.mark i a m hx hid (.inr (hlearned.late ▸ hl)))
      · intro e hmem
        rcases hlearned.event with hev | ⟨ev, hev, _, hann, hl, _⟩
        · exact .inl (hev ▸ hmem)
        · rw [hev] at hmem
          refine (List.mem_append.mp hmem).imp_right ?_
          intro hmem
          obtain rfl := List.mem_singleton.mp hmem
          refine ⟨rfl, ?_⟩
          rintro _ ⟨rfl⟩
          exact ⟨hann, hlearned.late.trans hl⟩
      · exact jobRules_held (x := some a) ha hlearns

end Ecomm
