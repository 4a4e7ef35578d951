import Ecomm.BrokerRules
import Ecomm.PipelineRules
import Ecomm.Stock

/-! From `create` to the workers: an order is processed exactly when a marker
names it, and an announced order is processed or its message is still to be found. -/

namespace Ecomm

open Concurrent Sql

/-- `order.created` for order `o` was handed to the broker, with `messageId` `u`. -/
def HandedOver (s : AppState) (u o : Uuid) : Prop := ∃ e ∈ s.published, Announces e.2 u o

/-- A message that names this came from outside, or announced an order. -/
def Sent (A : Content → Prop) (s : AppState) (n : Option Uuid × Option Uuid) : Prop :=
  (∃ body, A body ∧ body.names = n) ∨ ∃ u o, HandedOver s u o ∧ n = (some u, some o)

/-- The processed orders are those that a marker names. -/
def Agrees (T : Database) : Prop :=
  ∀ o, IsProcessed T o ↔
    ∃ m row, (T .processedMessages).lookup m = some row ∧ row.orderId = o

structure Clerk.Knows (A : Content → Prop) (s : AppState) (x : Clerk) : Prop where
  sent : Sent A s x.names
  found : x.found = true → ∀ o, x.names.2 = some o →
    ((s.store.tables .orders).lookup o).isSome = true
  known : x.known = true → ∀ o, x.names.2 = some o → IsProcessed s.store.tables o

/-- What every operation keeps, from the database `T₀` on. -/
structure Books (A : Content → Prop) (T₀ : Database) (s : AppState)
    (γ : Nat → Session schema × (Unit ⊕ Clerk)) : Prop where
  agrees : Agrees s.store.tables
  queued : ∀ q, ∀ body ∈ s.queue q, Sent A s body.names
  unacked : ∀ i body, s.unacked i = some body → Sent A s body.names
  clerk : ∀ i x, (γ i).2 = .inr x → x.Knows A s
  markers : ∀ m row, (s.store.tables .processedMessages).lookup m = some row →
    (T₀ .processedMessages).lookup m = some row ∨ Sent A s (some m, some row.orderId)

/-! What a commit does to the tables. -/

/-- New markers name what `N` allows, and nothing that was reached is undone. -/
structure Progress (N : Option Uuid × Option Uuid → Prop) (T T' : Database) : Prop where
  agrees : Agrees T'
  processed : ∀ o, IsProcessed T o → IsProcessed T' o
  placed : ∀ o, ((T .orders).lookup o).isSome = true → ((T' .orders).lookup o).isSome = true
  markers : ∀ m row, (T' .processedMessages).lookup m = some row →
    (T .processedMessages).lookup m = some row ∨ N (some m, some row.orderId)

theorem Progress.refl {N : Option Uuid × Option Uuid → Prop} {T : Database} (h : Agrees T) :
    Progress N T T :=
  ⟨h, fun _ ho => ho, fun _ ho => ho, fun _ _ hm => .inl hm⟩

section Commits

variable {T : Database} {m o : Uuid} {g : Session schema}

theorem Entered.lookup_order (h : Entered m o g) (T : Database) (o' : Uuid) :
    (T.replay g.writes .orders).lookup o' = (T .orders).lookup o' ∨
      o' = o ∧ IsProcessed (T.replay g.writes) o' := by
  by_cases hw : ∃ w ∈ g.writes, w.at Table.orders o'
  · right
    obtain ⟨row, hmem, hlook⟩ := Tables.lookup_replay_written (S := schema) hw
    rcases h.writes _ hmem with ⟨row', he, _⟩ | ⟨row', he, hstatus⟩
    · cases he
    · cases he
      exact ⟨rfl, row', hlook T, hstatus⟩
  · exact .inl (Tables.lookup_replay_other (S := schema) T (fun w hm hat => hw ⟨w, hm, hat⟩))

theorem Entered.lookup_marker (h : Entered m o g) (T : Database) :
    ∃ row, (T.replay g.writes .processedMessages).lookup m = some row ∧ row.orderId = o := by
  obtain ⟨row, hrow⟩ := h.marker
  obtain ⟨row', hmem, hlook⟩ := Tables.lookup_replay_written (S := schema) ⟨_, hrow, rfl, rfl⟩
  rcases h.writes _ hmem with ⟨row'', he, hid⟩ | ⟨row'', he, _⟩
  · cases he
    exact ⟨row'', hlook T, hid⟩
  · cases he

theorem Entered.lookup_marker_other (h : Entered m o g) (T : Database) {m' : Uuid} (hm : m' ≠ m) :
    (T.replay g.writes .processedMessages).lookup m' = (T .processedMessages).lookup m' := by
  refine Tables.lookup_replay_other (S := schema) T ?_
  intro w hw hat
  rcases h.writes w hw with ⟨row, rfl, _⟩ | ⟨row, rfl, _⟩
  · exact hm hat.2.symm
  · cases hat.1

/-- The commit of a worker enters a marker that is new, of an order that is
processed from then on. -/
theorem Entered.progress (h : Entered m o g) (hT : Agrees T)
    (hnew : (T .processedMessages).lookup m = none)
    (hdone : IsProcessed T o ∨ ∃ row : Order, ⟨.orders, o, some row⟩ ∈ g.writes)
    {N : Option Uuid × Option Uuid → Prop} (hN : N (some m, some o)) :
    Progress N T (T.replay g.writes) := by
  have hprocessed : ∀ o', IsProcessed T o' → IsProcessed (T.replay g.writes) o' := by
    rintro o' ⟨row, hrow, hstatus⟩
    rcases h.lookup_order T o' with hsame | ⟨_, hp⟩
    · exact ⟨row, hsame.trans hrow, hstatus⟩
    · exact hp
  have horder : IsProcessed (T.replay g.writes) o := by
    rcases hdone with hp | ⟨row, hrow⟩
    · exact hprocessed o hp
    · obtain ⟨row', hmem, hlook⟩ := Tables.lookup_replay_written (S := schema) ⟨_, hrow, rfl, rfl⟩
      rcases h.writes _ hmem with ⟨_, he, _⟩ | ⟨row'', he, hstatus⟩
      · cases he
      · cases he
        exact ⟨row'', hlook T, hstatus⟩
  obtain ⟨entry, hentry, hid⟩ := h.lookup_marker T
  refine ⟨?_, hprocessed, ?_, ?_⟩
  · intro o'
    constructor
    · intro hp
      rcases h.lookup_order T o' with hsame | ⟨rfl, _⟩
      · obtain ⟨row, hrow, hstatus⟩ := hp
        obtain ⟨m', row', hm', ho'⟩ := (hT o').mp ⟨row, hsame ▸ hrow, hstatus⟩
        have hne : m' ≠ m := by
          rintro rfl
          rw [hnew] at hm'
          cases hm'
        exact ⟨m', row', (h.lookup_marker_other T hne).trans hm', ho'⟩
      · exact ⟨m, entry, hentry, hid⟩
    · rintro ⟨m', row', hm', rfl⟩
      by_cases hne : m' = m
      · subst hne
        obtain rfl := Option.some.inj (hentry.symm.trans hm')
        rwa [hid]
      · rw [h.lookup_marker_other T hne] at hm'
        exact hprocessed _ ((hT _).mpr ⟨m', row', hm', rfl⟩)
  · intro o' ho'
    rcases h.lookup_order T o' with hsame | ⟨_, row, hrow, _⟩
    · rwa [hsame]
    · rw [hrow]
      rfl
  · intro m' row hrow
    by_cases hne : m' = m
    · subst hne
      obtain rfl := Option.some.inj (hentry.symm.trans hrow)
      rw [hid]
      exact .inr hN
    · exact .inl ((h.lookup_marker_other T hne).symm.trans hrow)

/-- The commit of a caller adds an order that is pending. -/
theorem drafts_progress (hT : Agrees T) (hnew : (T .orders).lookup o = none)
    {ws : List (Write schema)} (hws : ∀ w ∈ ws, Draft w ∧ (w.table = .orders → w.id = o))
    {N : Option Uuid × Option Uuid → Prop} : Progress N T (T.replay ws) := by
  have hmarkers : T.replay ws .processedMessages = T .processedMessages :=
    Tables.replay_other_table (S := schema) T (fun w hw => (hws w hw).1.1)
  have horders : ∀ o', (T.replay ws .orders).lookup o' = (T .orders).lookup o' ∨ o' = o ∧
      ∃ row, (T.replay ws .orders).lookup o' = some row ∧ row.status = .pending := by
    intro o'
    by_cases hw : ∃ w ∈ ws, w.at Table.orders o'
    · right
      obtain ⟨row, hmem, hlook⟩ := Tables.lookup_replay_written (S := schema) hw
      obtain ⟨⟨_, hdraft⟩, hid⟩ := hws _ hmem
      obtain ⟨id, row', he, hstatus⟩ := hdraft rfl
      cases he
      exact ⟨hid rfl, row', hlook T, hstatus⟩
    · exact .inl (Tables.lookup_replay_other (S := schema) T (fun w hm hat => hw ⟨w, hm, hat⟩))
  have hprocessed : ∀ o', IsProcessed (T.replay ws) o' ↔ IsProcessed T o' := by
    intro o'
    rcases horders o' with hsame | ⟨rfl, row, hrow, hstatus⟩
    · rw [IsProcessed, IsProcessed, hsame]
    · constructor
      · rintro ⟨row', hrow', hp⟩
        obtain rfl := Option.some.inj (hrow.symm.trans hrow')
        rw [hstatus] at hp
        cases hp
      · rintro ⟨row', hrow', _⟩
        rw [hnew] at hrow'
        cases hrow'
  refine ⟨?_, fun o' => (hprocessed o').mpr, ?_, ?_⟩
  · intro o'
    rw [hprocessed, hmarkers]
    exact hT o'
  · intro o' ho'
    rcases horders o' with hsame | ⟨_, row, hrow, _⟩
    · rwa [hsame]
    · rw [hrow]
      rfl
  · intro m' row hrow
    rw [hmarkers] at hrow
    exact .inl hrow

end Commits

/-! What an operation does to the messages. -/

structure Carries (s s' : AppState) (i : Nat) (o : AppOp) : Prop where
  published : ∀ e ∈ s.published, e ∈ s'.published
  queue : ∀ q, ∀ body ∈ s'.queue q, body ∈ s.queue q ∨ s.unacked i = some body ∨
    ∃ m, o = .sendToQueue m ∧ (i, m) ∈ s'.published ∧ body = .json m.payload.stringified
  unacked : ∀ j body, s'.unacked j = some body → s.unacked j = some body

theorem carries_settle (s : AppState) (i : Nat) (how : Settlement) :
    Carries s (s.settle i how) i (.settle how) := by
  refine ⟨by simp, ?_, ?_⟩
  · intro q body hb
    unfold AppState.settle at hb
    dsimp only at hb
    split at hb
    · exact .inl hb
    · next b hun =>
      split at hb
      · by_cases hq : q = AppState.processQueue
        · subst hq
          have hmem : body ∈ s.queue AppState.processQueue ∨ body = b := by
            simpa [AppState.enqueue] using hb
          refine hmem.imp_right (fun he => .inl ?_)
          rw [he]
          exact hun
        · exact .inl (by simpa [AppState.enqueue, hq] using hb)
      · exact .inl hb
  · intro j body hb
    by_cases hj : j = i
    · subst hj
      rw [AppState.settle_unacked_self] at hb
      cases hb
    · rwa [AppState.settle_unacked_other s hj] at hb

theorem exec_carries {s s' : AppState} {i : Nat} {ch : AppChoice} {o : AppOp}
    {r : Except Thrown o.Ans} (h : s.exec i ch o = some (r, s')) : Carries s s' i o := by
  have hsame : ∀ t : AppState, t.published = s.published → t.queue = s.queue →
      t.unacked = s.unacked → Carries s t i o := by
    intro t hp hq hu
    refine ⟨?_, ?_, ?_⟩
    · rw [hp]
      exact fun _ he => he
    · rw [hq]
      exact fun _ _ hb => .inl hb
    · rw [hu]
      exact fun _ _ hb => hb
  cases o with
  | sql q =>
    obtain ⟨_, _, _, _, rfl⟩ := AppState.exec_sql h
    exact hsame _ rfl rfl rfl
  | sendToQueue m =>
    have hhand : Carries s (s.handOver i m) i (.sendToQueue m) := by
      have hmem : (i, m) ∈ (s.handOver i m).published := by simp [AppState.handOver]
      refine ⟨fun e he => by simp [AppState.handOver, he], ?_, fun _ _ hb => hb⟩
      intro q body hb
      by_cases hq : q = m.queue
      · subst hq
        have hb : body ∈ s.queue m.queue ∨ body = .json m.payload.stringified := by
          simpa [AppState.handOver, AppState.enqueue] using hb
        exact hb.imp_right (fun he => .inr ⟨m, rfl, hmem, he⟩)
      · exact .inl (by simpa [AppState.handOver, AppState.enqueue, hq] using hb)
    rcases AppState.exec_sendToQueue h with ⟨_, rfl⟩ | ⟨_, rfl⟩ | ⟨_, rfl⟩
    · exact hhand
    · exact hhand
    · exact hsame _ rfl rfl rfl
  | settle how =>
    obtain ⟨rfl, rfl⟩ := Prod.mk.inj (Option.some.inj h)
    exact carries_settle s i how
  | channelReady | publishStatusChanged | randomUUID | dateNow =>
    obtain ⟨rfl, rfl⟩ := Prod.mk.inj (Option.some.inj h)
    exact hsame _ rfl rfl rfl

/-! What every operation keeps. -/

section Step

variable {A : Content → Prop} {T₀ : Database} {s s' : AppState}
  {γ : Nat → Session schema × (Unit ⊕ Clerk)} {i : Nat} {o : AppOp}

theorem Sent.mono {n : Option Uuid × Option Uuid} (h : Sent A s n)
    (hp : ∀ e ∈ s.published, e ∈ s'.published) : Sent A s' n := by
  refine h.imp_right ?_
  rintro ⟨u, o, ⟨e, he, hannounces⟩, hn⟩
  exact ⟨u, o, ⟨e, hp e he, hannounces⟩, hn⟩

theorem Clerk.Knows.mono {x : Clerk} (h : x.Knows A s)
    (hT : Progress (Sent A s') s.store.tables s'.store.tables)
    (hp : ∀ e ∈ s.published, e ∈ s'.published) : x.Knows A s' where
  sent := h.sent.mono hp
  found hf o ho := hT.placed o (h.found hf o ho)
  known hk o ho := hT.processed o (h.known hk o ho)

theorem Books.step (h : Books A T₀ s γ) (hT : Progress (Sent A s') s.store.tables s'.store.tables)
    (hc : Carries s s' i o) (hsend : ∀ m, o = .sendToQueue m →
      (i, m) ∈ s'.published → Sent A s' (Content.json m.payload.stringified).names)
    {g : Session schema × (Unit ⊕ Clerk)} (hg : ∀ x, g.2 = .inr x → x.Knows A s') :
    Books A T₀ s' (Function.update γ i g) where
  agrees := hT.agrees
  queued q body hb := by
    rcases hc.queue q body hb with hb | hun | ⟨m, hm, hmem, rfl⟩
    · exact (h.queued q body hb).mono hc.published
    · exact (h.unacked i body hun).mono hc.published
    · exact hsend m hm hmem
  unacked j body hun := (h.unacked j body (hc.unacked j body hun)).mono hc.published
  clerk j x hx := by
    by_cases hj : j = i
    · subst hj
      rw [Function.update_self] at hx
      exact hg x hx
    · rw [Function.update_of_ne hj] at hx
      exact (h.clerk j x hx).mono hT hc.published
  markers m row hrow := by
    rcases hT.markers m row hrow with hold | hnew
    · exact (h.markers m row hold).imp_right (fun hs => hs.mono hc.published)
    · exact .inr hnew

def orderRules : Rules (Unit ⊕ Clerk) := customerRules.either clerkRules

theorem orderRules_writes {z : Unit ⊕ Clerk} {g : Session schema} {q : Stmt schema}
    (h : orderRules.allowed z g (.sql (.stmt q))) : q.reads = true ∨ g.tx ≠ none := by
  rcases z with u | x
  · exact h
  · have h : clerkAllowed x g (.sql (.stmt q)) := h
    cases q with
    | select t cond => exact .inl rfl
    | selectForUpdate t id => exact .inl rfl
    | malformed e => exact .inl rfl
    | delete t id => exact h.elim
    | insert t id row =>
      cases t with
      | processedMessages =>
        right
        rw [h.1]
        simp
      | orders => exact .inr h.1
      | _ => exact h.elim
    | update t id set =>
      cases t with
      | orders => exact .inr h.1
      | _ => exact h.elim

variable {g g' : Session schema} {ch : AppChoice} {r : Except Thrown o.Ans}

/-- What a worker learns from an answer. -/
theorem clerk_learns {x : Clerk} (hx : x.Knows A s) (hm : g.Matches s.store i)
    (hown : g'.Matches s'.store i) (ha : clerkAllowed x g o) (he : s.exec i ch o = some (r, s'))
    (hchange : Rules.Change s s' i (commits g o r))
    (hT : Progress (Sent A s') s.store.tables s'.store.tables)
    (hc : Carries s s' i o) : ∃ x', clerkNext x o r g' x' ∧ x'.Knows A s' := by
  have hsame : x.Knows A s' := hx.mono hT hc.published
  cases o with
  | sql q =>
    cases q with
    | startTransaction | commitTransaction | rollbackTransaction =>
      exact ⟨x, by cases r <;> rfl, hsame⟩
    | stmt q =>
      have ht : s'.store.tables = s.store.tables := by
        have hnone : commits g (.sql (.stmt q)) r = none := by cases r <;> rfl
        simpa [hnone] using hchange.tables
      cases q with
      | insert t id row => exact ⟨x, by cases t <;> cases r <;> rfl, hsame⟩
      | selectForUpdate t id | delete t id => exact ha.elim
      | malformed e => exact ⟨x, by cases r <;> rfl, hsame⟩
      | select t cond =>
        cases t with
        | orders =>
          obtain ⟨o, ho, hcond, hbase⟩ := ha
          cases r with
          | error e => exact ⟨x, rfl, hsame⟩
          | ok rows =>
            obtain ⟨hrows, _⟩ := select_committed hm hbase hcond he
            refine ⟨_, rfl, hsame.sent, ?_, ?_⟩
            · intro hf o' ho'
              obtain rfl : o' = o := Option.some.inj (ho'.symm.trans ho)
              rcases (Bool.or_eq_true _ _).mp hf with hf | hf
              · exact hsame.found hf o' ho
              · obtain ⟨e, hmem⟩ := List.exists_mem_of_ne_nil rows (by
                  rintro rfl
                  cases hf)
                rw [ht, (hrows e hmem).2]
                rfl
            · intro hk o' ho'
              obtain rfl : o' = o := Option.some.inj (ho'.symm.trans ho)
              rcases (Bool.or_eq_true _ _).mp hk with hk | hk
              · exact hsame.known hk o' ho
              · obtain ⟨e, hmem, hstatus⟩ := List.any_eq_true.mp hk
                refine ⟨e.2, ?_, of_decide_eq_true hstatus⟩
                rw [ht]
                exact (hrows e hmem).2
        | _ => exact ha.elim
      | update t id set =>
        cases t with
        | orders =>
          obtain ⟨_, ho, hbase, _⟩ := ha
          cases r with
          | error e => exact ⟨x, rfl, hsame⟩
          | ok row =>
            refine ⟨x, ⟨rfl, ?_, ?_⟩, hsame⟩
            · rintro hf rfl
              obtain ⟨b, store, hexec, hr, _⟩ := AppState.exec_sql he
              cases b with
              | error e => cases hr
              | ok b =>
                cases hr
                have hsome := hx.found hf id ho
                have hnone := Store.exec_update_missing hexec
                rw [hm.unwritten hbase] at hnone
                rw [hnone] at hsome
                cases hsome
            · intro hk old hold
              obtain ⟨row', hrow', hstatus⟩ := hsame.known hk id ho
              have hlook := hown.base .orders id _ hold
              obtain rfl := Option.some.inj (hlook.symm.trans hrow')
              exact hstatus
        | _ => exact ha.elim
  | _ => exact ⟨x, by cases r <;> rfl, hsame⟩

theorem customer_progress {N : Option Uuid × Option Uuid → Prop} (hagrees : Agrees s.store.tables)
    (hm : g.Matches s.store i) (ha : customerAllowed g o)
    (hchange : Rules.Change s s' i (commits g o r)) :
    Progress N s.store.tables s'.store.tables := by
  rw [hchange.tables]
  cases hws : commits g o r with
  | none => exact .refl hagrees
  | some ws =>
    obtain ⟨rfl, htx⟩ := commits_eq_some hws
    obtain ⟨o, hbase, hdraft⟩ := ha
    rw [Session.writes_open htx] at hdraft
    exact drafts_progress hagrees (hm.base _ _ _ hbase) hdraft

theorem clerk_progress {x : Clerk} {N : Option Uuid × Option Uuid → Prop}
    (hagrees : Agrees s.store.tables) (hx : x.Knows A s) (hN : N x.names)
    (hm : g.Matches s.store i) (ha : clerkAllowed x g o)
    (hchange : Rules.Change s s' i (commits g o r)) :
    Progress N s.store.tables s'.store.tables := by
  rw [hchange.tables]
  cases hws : commits g o r with
  | none => exact .refl hagrees
  | some ws =>
    obtain ⟨rfl, htx⟩ := commits_eq_some hws
    rcases ha with haborted | ⟨m, o, hnames, hentered, hdone⟩
    · rw [htx] at haborted
      cases haborted
    · have hwrites : g.writes = ws := Session.writes_open htx
      rw [Option.getD_some, ← hwrites]
      refine hentered.progress hagrees (hm.base _ _ _ hentered.isNew) ?_ (hnames ▸ hN)
      exact hdone.imp_left (fun hk => hx.known hk o (by rw [hnames]))

theorem orderRules_sound (A : Content → Prop) (T₀ : Database) :
    orderRules.protocol.Sound app Always (Rules.Inv (Books A T₀)) := by
  refine Rules.sound orderRules_writes ?_
  intro s s' γ i ch o r g' hinv _ ha he hchange _ hown
  have h := hinv.rest
  have hm := hinv.session i
  have hc := exec_carries he
  cases hz : (γ i).2 with
  | inl u =>
    rw [hz] at ha
    have hT : Progress (Sent A s') s.store.tables s'.store.tables :=
      customer_progress h.agrees hm ha hchange
    refine ⟨.inl (), ⟨(), rfl, trivial⟩, h.step hT hc ?_ (by simp)⟩
    rintro m rfl hmem
    obtain ⟨u, o, hannounces⟩ := ha
    exact .inr ⟨u, o, ⟨_, hmem, hannounces⟩, hannounces.names⟩
  | inr x =>
    rw [hz] at ha
    have hx := h.clerk i x hz
    have hT : Progress (Sent A s') s.store.tables s'.store.tables :=
      clerk_progress h.agrees hx (hx.sent.mono hc.published) hm ha hchange
    obtain ⟨x', hn, hx'⟩ := clerk_learns hx hm hown ha he hchange hT hc
    refine ⟨.inr x', ⟨x', rfl, hn⟩, h.step hT hc ?_ ?_⟩
    · rintro m rfl _
      have ha : clerkAllowed x (γ i).1 (.sendToQueue m) := ha
      rw [ha.2]
      exact hx.sent.mono hc.published
    · rintro _ ⟨⟩
      exact hx'

end Step

/-! The whole system. -/

section System

variable {A : Content → Prop} {T₀ : Database} {config : WorkerConfig} {describe : Thrown → String}

/-- Messages that have been sent move, and the tables stay. -/
theorem Books.moved {s s' : AppState} {γ γ' : Nat → Session schema × (Unit ⊕ Clerk)}
    (h : Books A T₀ s γ) (htables : s'.store.tables = s.store.tables)
    (hpub : s'.published = s.published) (hqueue : ∀ q, ∀ body ∈ s'.queue q, Sent A s body.names)
    (hun : ∀ i body, s'.unacked i = some body → Sent A s body.names)
    (hclerk : ∀ i x, (γ' i).2 = .inr x → x.Knows A s) : Books A T₀ s' γ' := by
  have hsent : ∀ n, Sent A s n → Sent A s' n := by
    intro n hn
    refine hn.mono ?_
    rw [hpub]
    exact fun _ he => he
  refine ⟨?_, ?_, ?_, ?_, ?_⟩
  · rw [htables]
    exact h.agrees
  · exact fun q body hb => hsent _ (hqueue q body hb)
  · exact fun i body hb => hsent _ (hun i body hb)
  · intro i x hx
    have hknows := hclerk i x hx
    refine ⟨hsent _ hknows.sent, ?_, ?_⟩
    · rw [htables]
      exact hknows.found
    · rw [htables]
      exact hknows.known
  · intro m row hrow
    rw [htables] at hrow
    exact (h.markers m row hrow).imp_right (hsent _)

theorem mem_enqueue {s : AppState} {q : String} {b body : Content}
    (h : b ∈ (s.enqueue AppState.processQueue body).queue q) : b ∈ s.queue q ∨ b = body := by
  by_cases hq : q = AppState.processQueue
  · subst hq
    simpa [AppState.enqueue] using h
  · exact .inl (by simpa [AppState.enqueue, hq] using h)

theorem mem_takeFrom {s : AppState} {p q : String} {k : Nat} {b : Content}
    (h : b ∈ (s.takeFrom p k).queue q) : b ∈ s.queue q := by
  by_cases hq : q = p
  · subst hq
    have h : b ∈ (s.queue q).eraseIdx k := by simpa [AppState.takeFrom] using h
    exact List.mem_of_mem_eraseIdx h
  · simpa [AppState.takeFrom, hq] using h

theorem orderRules_serves : orderRules.Serves (Books A T₀) (.inl ())
    (fun body => .inr (.begin body)) A config describe where
  sound := orderRules_sound A T₀
  worker body := by
    exact Prog.wp_mono (Rules.wp_inr customerRules (wp_clerk_onMessage body)) (fun _ _ _ => trivial)
      (fun _ _ _ => trivial)
  arrive {s γ body} hA h := by
    refine h.moved rfl rfl ?_ h.unacked h.clerk
    intro q b hb
    rcases mem_enqueue hb with hb | rfl
    · exact h.queued q b hb
    · exact .inl ⟨b, hA, rfl⟩
  deliver {s γ i k body} h _ hk := by
    have hsent : Sent A s body.names := h.queued _ body (List.mem_of_getElem? hk)
    refine h.moved rfl rfl (fun q b hb => h.queued q b (mem_takeFrom hb)) ?_ ?_
    · intro j b hb
      by_cases hj : j = i
      · subst hj
        obtain rfl : body = b := by simpa [AppState.deliver] using hb
        exact hsent
      · exact h.unacked j b (by simpa [AppState.deliver, Function.update_of_ne hj] using hb)
    · intro j x hx
      by_cases hj : j = i
      · subst hj
        obtain rfl : Clerk.begin body = x := by simpa using hx
        exact ⟨hsent, by simp [Clerk.begin], by simp [Clerk.begin]⟩
      · rw [Function.update_of_ne hj] at hx
        exact h.clerk j x hx
  crash {s γ i} h := by
    refine h.moved (by simp) (by simp) ?_ ?_ ?_
    · intro q b hb
      rcases AppState.mem_crash_queue hb with hb | hun
      · exact h.queued q b hb
      · exact h.unacked i b hun
    · exact fun j b hb => h.unacked j b (AppState.crash_unacked_of_some hb)
    · intro j x hx
      by_cases hj : j = i
      · subst hj
        simp at hx
      · rw [Function.update_of_ne hj] at hx
        exact h.clerk j x hx
  expire {s γ k body} h hk := by
    refine h.moved rfl rfl ?_ h.unacked h.clerk
    intro q b hb
    rcases mem_enqueue hb with hb | rfl
    · exact h.queued q b (mem_takeFrom hb)
    · exact h.queued _ b (List.mem_of_getElem? hk)

theorem pipeline_starts {s : AppState} (hs : s.Quiet) (hun : ∀ i, s.unacked i = none)
    (hagrees : Agrees s.store.tables) (hqueue : ∀ q, ∀ body ∈ s.queue q, A body)
    (calls : List CreateCall) :
    Rules.Staffed orderRules (Books A s.store.tables) (.inl ()) (consuming s (calls.map .create))
      (fun _ => (.closed, .inl ())) := by
  refine ⟨⟨⟨hs.coherent, hs.session, ?_⟩, ?_⟩, fun _ _ => rfl⟩
  · refine ⟨hagrees, ?_, ?_, ?_, fun m row hrow => .inl hrow⟩
    · intro q body hb
      exact .inl ⟨body, hqueue q body hb, rfl⟩
    · intro i body hb
      have hb : s.unacked i = some body := hb
      rw [hun i] at hb
      cases hb
    · intro i x hx
      cases hx
  · intro i p hp
    obtain ⟨operation, hoperation, rfl⟩ := Option.map_eq_some_iff.mp hp
    rw [List.getElem?_map] at hoperation
    obtain ⟨call, _, rfl⟩ := Option.map_eq_some_iff.mp hoperation
    refine (Prog.wp_bind _ _ _ _ _).mpr ((Prog.wp_bind _ _ _ _ _).mpr ?_)
    exact Prog.wp_mono (Rules.wp_inl clerkRules (wp_customer call)) (fun _ _ _ => trivial)
      (fun _ _ _ => trivial)

theorem pipeline_books {s : AppState} (hs : s.Quiet) (hun : ∀ i, s.unacked i = none)
    (hagrees : Agrees s.store.tables) (hqueue : ∀ q, ∀ body ∈ s.queue q, A body)
    (calls : List CreateCall) {es : List BrokerEvent} (hes : ∀ body, .arrive body ∈ es → A body)
    {c : Config app Unit}
    (h : brokerRun config describe (consuming s (calls.map .create)) es = some c) :
    ∃ γ, Books A s.store.tables c.shared γ := by
  obtain ⟨γ, hγ⟩ := (pipeline_starts hs hun hagrees hqueue calls).run orderRules_serves hes h
  exact ⟨γ, hγ.follows.inv.rest⟩

/-- Whatever messages arrive, and whatever becomes of the workers, an order is
processed if and only if a committed marker names it. -/
theorem processed_iff_marked (config : WorkerConfig) (describe : Thrown → String) {s : AppState}
    (hs : s.Quiet) (hun : ∀ i, s.unacked i = none) (hagrees : Agrees s.store.tables)
    (calls : List CreateCall) {es : List BrokerEvent} {c : Config app Unit}
    (h : brokerRun config describe (consuming s (calls.map .create)) es = some c) :
    Agrees c.shared.store.tables := by
  obtain ⟨γ, hbooks⟩ := pipeline_books (A := fun _ => True) hs hun hagrees (fun _ _ _ => trivial)
    calls (fun _ _ => trivial) h
  exact hbooks.agrees

theorem agrees_penShop (n : Int) : Agrees (penShop n) := by
  intro o
  constructor
  · rintro ⟨row, hrow, _⟩
    cases hrow
  · rintro ⟨m, row, hrow, _⟩
    cases hrow

/-- A pen is ordered, and a worker handles the message. -/
def penSold : List BrokerEvent :=
  List.replicate 13 (.step 0 (tick 10)) ++ [.deliver 1 0] ++ List.replicate 10 (.step 1 (tick 11))

theorem penSold_isSome : (brokerRun defaults (fun _ => "") (consuming (serving (penShop 5))
    ([penOrder none 1].map .create)) penSold).isSome = true := by decide +kernel

theorem processed_iff_marked_penSold : ∃ c, brokerRun defaults (fun _ => "")
    (consuming (serving (penShop 5)) ([penOrder none 1].map .create)) penSold = some c ∧
    Agrees c.shared.store.tables :=
  ⟨_, (Option.some_get penSold_isSome).symm, processed_iff_marked defaults (fun _ => "")
    (serving_quiet (penShop_distinct 5)) (fun _ => rfl) (agrees_penShop 5) [penOrder none 1]
    (Option.some_get penSold_isSome).symm⟩

/-- The message is on one of the queues, or with a worker. -/
def Waiting (s : AppState) (u o : Uuid) : Prop :=
  (∃ q ∈ [AppState.processQueue, AppState.retryQueue, AppState.dlqQueue],
      ∃ body ∈ s.queue q, body.names = (some u, some o)) ∨
    ∃ i body, s.unacked i = some body ∧ body.names = (some u, some o)

theorem exec_handed {s s' : AppState} {i : Nat} {ch : AppChoice} {o : AppOp}
    {r : Except Thrown o.Ans} (h : s.exec i ch o = some (r, s')) {e : Nat × Published}
    (he : e ∈ s'.published) :
    e ∈ s.published ∨ .json e.2.payload.stringified ∈ s'.queue e.2.queue := by
  by_cases ho : ∃ m, o = .sendToQueue m
  · obtain ⟨m, rfl⟩ := ho
    have hhand : e ∈ (s.handOver i m).published →
        e ∈ s.published ∨ .json e.2.payload.stringified ∈ (s.handOver i m).queue e.2.queue := by
      intro he
      rcases List.mem_append.mp he with he | he
      · exact .inl he
      · obtain rfl := List.mem_singleton.mp he
        exact .inr (by simp [AppState.handOver, AppState.enqueue])
    rcases AppState.exec_sendToQueue h with ⟨_, rfl⟩ | ⟨_, rfl⟩ | ⟨_, rfl⟩
    · exact hhand he
    · exact hhand he
    · exact .inl he
  · rw [AppState.exec_published h (fun m hm => ho ⟨m, hm⟩)] at he
    exact .inl he

theorem brokerStep_handed {c c' : Config app Unit} {b : BrokerEvent}
    (h : brokerStep config describe c b = some c') {e : Nat × Published}
    (he : e ∈ c'.shared.published) :
    e ∈ c.shared.published ∨ .json e.2.payload.stringified ∈ c'.shared.queue e.2.queue := by
  cases b with
  | arrive body =>
    obtain rfl := Option.some.inj h
    exact .inl he
  | deliver i k =>
    simp only [brokerStep] at h
    split at h
    · obtain rfl := Option.some.inj h
      exact .inl he
    · cases h
  | step i choice =>
    obtain ⟨o, k, r, s', _, hexec, rfl⟩ := Config.step_cases h
    exact exec_handed hexec he
  | crash i =>
    simp only [brokerStep] at h
    split at h
    · obtain rfl := Option.some.inj h
      exact .inl (by simpa using he)
    · cases h
  | expire k =>
    simp only [brokerStep] at h
    split at h
    · obtain rfl := Option.some.inj h
      exact .inl he
    · cases h

/-- What was handed over in a run was on its queue at some moment of the run. -/
theorem brokerRun_handed {c c' : Config app Unit} {es : List BrokerEvent}
    (h : brokerRun config describe c es = some c') {e : Nat × Published}
    (he : e ∈ c'.shared.published) : e ∈ c.shared.published ∨ ∃ first rest d,
      brokerRun config describe c first = some d ∧ brokerRun config describe d rest = some c' ∧
        .json e.2.payload.stringified ∈ d.shared.queue e.2.queue := by
  induction es generalizing c with
  | nil =>
    obtain rfl := Option.some.inj h
    exact .inl he
  | cons b es ih =>
    obtain ⟨d, hd, hrest⟩ := Option.bind_eq_some_iff.mp h
    rcases ih hrest with hmem | ⟨first, rest, d', hfirst, hrest', hqueued⟩
    · rcases brokerStep_handed hd hmem with hold | hqueued
      · exact .inl hold
      · exact .inr ⟨[b], es, d, by simp [brokerRun, hd], hrest, hqueued⟩
    · exact .inr ⟨b :: first, rest, d', by simp [brokerRun, hd, hfirst], hrest', hqueued⟩

theorem announced_kept {s : AppState} (hs : s.Quiet) (hun : ∀ i, s.unacked i = none)
    (hagrees : Agrees s.store.tables) (hempty : ∀ q, s.queue q = []) (calls : List CreateCall)
    {es : List BrokerEvent} (hes : ∀ body, .arrive body ∉ es) {c : Config app Unit}
    (h : brokerRun config describe (consuming s (calls.map .create)) es = some c)
    (hids : ∀ u o o', HandedOver c.shared u o → HandedOver c.shared u o' → o = o')
    (hnew : ∀ u o, HandedOver c.shared u o → ¬ marked s.store.tables u) {u o : Uuid}
    (hu : HandedOver c.shared u o) :
    IsProcessed c.shared.store.tables o ∨ Waiting c.shared u o := by
  obtain ⟨γ, hbooks⟩ := pipeline_books (A := fun _ => False) hs hun hagrees
    (fun q body hb => by simp [hempty] at hb) calls (fun body hb => hes body hb) h
  have hannounced : ∀ n, Sent (fun _ => False) c.shared n →
      ∃ u o, HandedOver c.shared u o ∧ n = (some u, some o) := by
    intro n hn
    exact hn.resolve_left (fun ⟨_, hfalse, _⟩ => hfalse)
  obtain ⟨e, he, hannounces⟩ := id hu
  have hid : hasId (uuidOut u) (.json e.2.payload.stringified) :=
    Json.get_stringified_str hannounces.messageId
  have hold : e ∉ (consuming s (calls.map .create)).shared.published := by
    intro he
    have he : e ∈ s.published := he
    rw [hs.published] at he
    cases he
  obtain ⟨first, rest, d, hfirst, hrest, hqueued⟩ := (brokerRun_handed h he).resolve_left hold
  rw [hannounces.queue] at hqueued
  obtain ⟨δ, hδ⟩ := (Watched.start hs hun (calls.map .create)).run hfirst
  obtain ⟨δ', hδ'⟩ := (hδ.guard ⟨_, hqueued, hid⟩).run hrest
  have hnames : ∀ body, hasId (uuidOut u) body → Sent (fun _ => False) c.shared body.names →
      body.names = (some u, some o) := by
    intro body hbody hsent
    obtain ⟨u', o', hu', hn⟩ := hannounced _ hsent
    have hmarker : body.names.1 = some u := by
      rw [← uuidIn_uuidOut u]
      exact markerOf_hasId hbody
    rw [hn] at hmarker
    obtain rfl : u' = u := Option.some.inj hmarker
    rw [hn, hids u' o o' hu hu']
  rcases (hδ'.follows.inv.2 _ rfl).inSystem hδ'.follows.inv.1 with
    ⟨q, hq, body, hb, hbody⟩ | ⟨i, body, hb, hbody⟩ | ⟨m, hm, hmarked⟩
  · exact .inr (.inl ⟨q, hq, body, hb, hnames body hbody (hbooks.queued q body hb)⟩)
  · exact .inr (.inr ⟨i, body, hb, hnames body hbody (hbooks.unacked i body hb)⟩)
  · left
    obtain rfl : m = u := by
      rw [uuidIn_uuidOut] at hm
      exact (Option.some.inj hm).symm
    obtain ⟨row, hrow⟩ := Option.isSome_iff_exists.mp hmarked
    rcases hbooks.markers m row hrow with hbefore | hsent
    · exact absurd (Option.isSome_iff_exists.mpr ⟨row, hbefore⟩) (hnew m o hu)
    · obtain ⟨u', o', hu', hn⟩ := hannounced _ hsent
      simp only [Prod.mk.injEq, Option.some.injEq] at hn
      obtain ⟨rfl, rfl⟩ := hn
      rw [hids m o row.orderId hu hu']
      exact (hbooks.agrees _).mpr ⟨m, row, hrow, rfl⟩

/-- When the ids of the announcements are fresh, an announced order is processed
or its message is waiting, and every order that was processed was announced. -/
theorem announced_processed (config : WorkerConfig) (describe : Thrown → String) {s : AppState}
    (hs : s.Quiet) (hun : ∀ i, s.unacked i = none) (hagrees : Agrees s.store.tables)
    (hempty : ∀ q, s.queue q = []) (calls : List CreateCall) {es : List BrokerEvent}
    (hes : ∀ body, .arrive body ∉ es) {c : Config app Unit}
    (h : brokerRun config describe (consuming s (calls.map .create)) es = some c)
    (hids : ∀ u o o', HandedOver c.shared u o → HandedOver c.shared u o' → o = o')
    (hnew : ∀ u o, HandedOver c.shared u o → ¬ marked s.store.tables u) :
    (∀ u o, HandedOver c.shared u o →
      IsProcessed c.shared.store.tables o ∨ Waiting c.shared u o) ∧
    ∀ o, IsProcessed c.shared.store.tables o →
      IsProcessed s.store.tables o ∨ ∃ u, HandedOver c.shared u o := by
  constructor
  · intro u o hu
    exact announced_kept hs hun hagrees hempty calls hes h hids hnew hu
  · intro o ho
    obtain ⟨γ, hbooks⟩ := pipeline_books (A := fun _ => False) hs hun hagrees
      (fun q body hb => by simp [hempty] at hb) calls (fun body hb => hes body hb) h
    obtain ⟨m, row, hrow, rfl⟩ := (hbooks.agrees o).mp ho
    rcases hbooks.markers m row hrow with hbefore | hsent
    · exact .inl ((hagrees _).mpr ⟨m, row, hbefore, rfl⟩)
    · obtain ⟨u, o, hu, hn⟩ := hsent.resolve_left (fun ⟨_, hfalse, _⟩ => hfalse)
      simp only [Prod.mk.injEq, Option.some.injEq] at hn
      obtain ⟨rfl, rfl⟩ := hn
      exact .inr ⟨m, hu⟩

end System

theorem uuidOut_injective {u v : Uuid} (h : uuidOut u = uuidOut v) : u = v := by
  have hin := congrArg uuidIn h
  rw [uuidIn_uuidOut, uuidIn_uuidOut] at hin
  exact Option.some.inj hin

def stringField (key : String) (payload : Json) : Option String :=
  match payload.get key with
  | some (.str s) => some s
  | _ => none

/-- The fields of a message that make it an announcement. -/
def Published.announcement (m : Published) : String × Option String × Option String :=
  (m.queue, stringField "messageId" m.payload, stringField "orderId" m.payload)

theorem stringField_eq {key : String} {payload : Json} {s : String} :
    stringField key payload = some s ↔ payload.get key = some (.str s) := by
  unfold stringField
  split
  · next t ht => simp [ht]
  · next hno =>
    constructor
    · intro h
      cases h
    · intro h
      exact absurd h (hno s)

theorem announces_iff {m : Published} {u o : Uuid} : Announces m u o ↔
    m.announcement = (AppState.processQueue, some (uuidOut u), some (uuidOut o)) := by
  simp only [Published.announcement, Prod.mk.injEq, stringField_eq]
  exact ⟨fun h => ⟨h.queue, h.messageId, h.orderId⟩, fun ⟨hq, hm, ho⟩ => ⟨hq, hm, ho⟩⟩

theorem handedOver_single {s : AppState} {u o : Uuid}
    (h : s.published.map (fun e => e.2.announcement) =
      [(AppState.processQueue, some (uuidOut u), some (uuidOut o))]) {u' o' : Uuid} :
    HandedOver s u' o' ↔ u' = u ∧ o' = o := by
  obtain ⟨e, he, hfields⟩ := List.map_eq_singleton_iff.mp h
  constructor
  · rintro ⟨e', he', hannounces⟩
    rw [he] at he'
    obtain rfl := List.mem_singleton.mp he'
    have hboth := hfields.symm.trans (announces_iff.mp hannounces)
    simp only [Prod.mk.injEq, Option.some.injEq] at hboth
    exact ⟨(uuidOut_injective hboth.2.1).symm, (uuidOut_injective hboth.2.2).symm⟩
  · rintro ⟨rfl, rfl⟩
    refine ⟨e, ?_, announces_iff.mpr hfields⟩
    rw [he]
    exact List.mem_singleton_self e

theorem announced_processed_penSold : ∃ c, brokerRun defaults (fun _ => "")
    (consuming (serving (penShop 5)) ([penOrder none 1].map .create)) penSold = some c ∧
    HandedOver c.shared 10 10 ∧
    (IsProcessed c.shared.store.tables 10 ∨ Waiting c.shared 10 10) ∧
    ∀ o, IsProcessed c.shared.store.tables o →
      IsProcessed (penShop 5) o ∨ ∃ u, HandedOver c.shared u o := by
  have hrun : (brokerRun defaults (fun _ => "") (consuming (serving (penShop 5))
      ([penOrder none 1].map .create)) penSold).map
        (fun c => c.shared.published.map (fun e => e.2.announcement)) =
      some [(AppState.processQueue, some (uuidOut 10), some (uuidOut 10))] := by decide +kernel
  obtain ⟨c, hc, hpublished⟩ := Option.map_eq_some_iff.mp hrun
  have hannounced : HandedOver c.shared 10 10 := (handedOver_single hpublished).mpr ⟨rfl, rfl⟩
  have hmain := announced_processed defaults (fun _ => "") (serving_quiet (penShop_distinct 5))
    (fun _ => rfl) (agrees_penShop 5) (fun _ => rfl) [penOrder none 1]
    (fun body => by simp [penSold]) hc
    (fun u o o' h h' => ((handedOver_single hpublished).mp h).2.trans
      ((handedOver_single hpublished).mp h').2.symm)
    (fun u o _ hmarked => by cases hmarked)
  exact ⟨c, hc, hannounced, hmain.1 10 10 hannounced, hmain.2⟩

end Ecomm
