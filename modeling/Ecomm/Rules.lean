import Ecomm.Lib.Growing
import Ecomm.Lib.Recording
import Ecomm.Lib.Session
import Ecomm.TypeOrm

/-! Rules for the calls of a thread that knows its session. A family of rules
adds what the thread remembers besides and what it may do with it. -/

namespace Ecomm

open Concurrent Sql

theorem AppState.Quiet.coherent {s : AppState} (hs : s.Quiet) : s.store.Coherent :=
  .quiet hs.tx hs.owner hs.unique

theorem AppState.Quiet.session {s : AppState} (hs : s.Quiet) (i : Nat) :
    Session.closed.Matches s.store i :=
  .closed (hs.tx i) (by simp [hs.owner])

theorem AppState.exec_tx_other {s s' : AppState} {i j : Nat} {c : AppChoice} {o : AppOp}
    {r : Except Thrown o.Ans} (h : s.exec i c o = some (r, s')) (hj : j ≠ i) :
    s'.store.tx j = s.store.tx j := by
  cases o with
  | sql q =>
    obtain ⟨a, store, hexec, _, rfl⟩ := AppState.exec_sql h
    exact Store.exec_tx_other hexec hj
  | channelReady | randomUUID | dateNow | settle _ | publishStatusChanged _ | sendToQueue _ =>
    rw [AppState.exec_store h (by simp)]

theorem run_tx_other {α : Type} {c c' : Config app α} {es : List (Nat × AppChoice)} {j : Nat}
    (h : c.run es = some c') (hj : ∀ e ∈ es, j ≠ e.1) :
    c'.shared.store.tx j = c.shared.store.tx j := by
  induction es generalizing c with
  | nil =>
    obtain rfl := Option.some.inj h
    rfl
  | cons e es ih =>
    obtain ⟨d, hd, hrest⟩ := Config.run_cons h
    rw [ih hrest (fun f hf => hj f (List.mem_cons_of_mem _ hf))]
    obtain ⟨o, k, r, s, _, he, rfl⟩ := Config.step_cases hd
    exact AppState.exec_tx_other he (hj e List.mem_cons_self)

variable {X : Type}

/-- `next x g o r g' x'` says that a thread which knew `x` and `g` may know
`x'` and `g'` after answer `r`. -/
structure Rules (X : Type) where
  allowed : X → Session schema → AppOp → Prop
  next : X → Session schema → (o : AppOp) → Except Thrown o.Ans → Session schema → X → Prop

/-- How an operation and its answer change the session of the thread. -/
def Learns (g : Session schema) : (o : AppOp) → Except Thrown o.Ans → Session schema → Prop
  | .sql o, .ok a, g' => g.Next o (.ok a) g'
  | .sql o, .error (.sql e), g' => g.Next o (.error e) g'
  | .sql _, .error _, _ => False
  | _, _, g' => g' = g

def commits (g : Session schema) : (o : AppOp) → Except Thrown o.Ans → Option (List (Write schema))
  | .sql o, .ok a => g.commits o (.ok a)
  | _, _ => none

theorem commits_open {g : Session schema} {ws : List (Write schema)} (h : g.tx = some ⟨ws, false⟩)
    (u : (AppOp.sql .commitTransaction).Ans) :
    commits g (.sql .commitTransaction) (.ok u) = some ws := by
  have hcommits : commits g (.sql .commitTransaction) (.ok u) =
    (g.tx.filter (fun x => !x.aborted)).map (·.writes) := rfl
  rw [hcommits, h]
  rfl

theorem commits_eq_some {g : Session schema} {o : AppOp} {r : Except Thrown o.Ans}
    {ws : List (Write schema)} (h : commits g o r = some ws) :
    o = .sql .commitTransaction ∧ g.tx = some ⟨ws, false⟩ := by
  cases o with
  | sql o =>
    cases r with
    | ok a =>
      obtain ⟨rfl, htx⟩ := Session.commits_eq_some h
      exact ⟨rfl, htx⟩
    | error e => cases h
  | _ => cases h

namespace Rules

def protocol (R : Rules X) : Protocol AppOp AppOp.Ans Thrown (Session schema × X) where
  allowed g o := (∀ q, o = .sql q → g.1.Allowed q) ∧ R.allowed g.2 g.1 o
  next g o r g' := Learns g.1 o r g'.1 ∧ R.next g.2 g.1 o r g'.1 g'.2

structure Inv (J : AppState → (Nat → Session schema × X) → Prop) (s : AppState)
    (γ : Nat → Session schema × X) : Prop where
  coherent : s.store.Coherent
  session : ∀ j, (γ j).1.Matches s.store j
  rest : J s γ

/-- A step changes the tables by what the thread commits and by nothing else. -/
structure Change (s s' : AppState) (i : Nat) (ws : Option (List (Write schema))) : Prop where
  tables : s'.store.tables = s.store.tables.replay (ws.getD [])
  log : s'.store.log = s.store.log ++ (ws.map (Commit.mk i)).toList

theorem step_any {R : Rules X} {J : AppState → (Nat → Session schema × X) → Prop}
    {s s' : AppState} {γ : Nat → Session schema × X} {i : Nat} {ch : AppChoice} {o : AppOp}
    {r : Except Thrown o.Ans} (hinv : Inv J s γ) (ha : R.protocol.allowed (γ i) o)
    (he : s.exec i ch o = some (r, s')) :
    ∃ g', Learns (γ i).1 o r g' ∧
      ((∀ q, o = .sql (.stmt q) → q.reads = true ∨ (γ i).1.tx ≠ none) →
        Change s s' i (commits (γ i).1 o r)) ∧ s'.store.Coherent ∧
      g'.Matches s'.store i ∧ ∀ j, j ≠ i → (γ j).1.Matches s'.store j := by
  have hquiet : s'.store = s.store → (∀ g', Learns (γ i).1 o r g' ↔ g' = (γ i).1) →
      commits (γ i).1 o r = none → ∃ g', Learns (γ i).1 o r g' ∧
      ((∀ q, o = .sql (.stmt q) → q.reads = true ∨ (γ i).1.tx ≠ none) →
        Change s s' i (commits (γ i).1 o r)) ∧ s'.store.Coherent ∧
      g'.Matches s'.store i ∧ ∀ j, j ≠ i → (γ j).1.Matches s'.store j := by
    intro hstore hlearns hcommits
    refine ⟨(γ i).1, (hlearns _).mpr rfl, ?_, ?_, ?_, ?_⟩
    · intro _
      rw [hcommits]
      exact ⟨by simp [hstore], by simp [hstore]⟩
    · rw [hstore]
      exact hinv.coherent
    · rw [hstore]
      exact hinv.session i
    · intro j _
      rw [hstore]
      exact hinv.session j
  cases o with
  | sql q =>
    obtain ⟨a, store, hq, rfl, rfl⟩ := AppState.exec_sql he
    obtain ⟨g', hnext, hc, hown, hothers⟩ :=
      Session.sound hinv.coherent hinv.session (ha.1 q rfl) hq
    have hchange : (∀ q', q = .stmt q' → q'.reads = true ∨ (γ i).1.tx ≠ none) → _ :=
      fun hwrites => (hinv.session i).step_tables hwrites hq
    cases a with
    | ok a =>
      refine ⟨g', hnext, fun hwrites => ?_, hc, hown, hothers⟩
      obtain ⟨ht, hl⟩ := hchange (fun q' hq' => hwrites q' (congrArg AppOp.sql hq'))
      exact ⟨ht, hl⟩
    | error e =>
      refine ⟨g', hnext, fun hwrites => ?_, hc, hown, hothers⟩
      obtain ⟨ht, hl⟩ := hchange (fun q' hq' => hwrites q' (congrArg AppOp.sql hq'))
      have hnone : (γ i).1.commits q (.error e) = none := by
        cases q <;> rfl
      rw [hnone] at ht hl
      exact ⟨ht, hl⟩
  | channelReady | randomUUID | dateNow | settle _ | publishStatusChanged _ | sendToQueue _ =>
    cases r <;> exact hquiet (AppState.exec_store he (by simp)) (fun _ => Iff.rfl) rfl

theorem step_session {R : Rules X} {J : AppState → (Nat → Session schema × X) → Prop}
    (hwrites : ∀ {x g q}, R.allowed x g (.sql (.stmt q)) → q.reads = true ∨ g.tx ≠ none)
    {s s' : AppState} {γ : Nat → Session schema × X} {i : Nat} {ch : AppChoice} {o : AppOp}
    {r : Except Thrown o.Ans} (hinv : Inv J s γ) (ha : R.protocol.allowed (γ i) o)
    (he : s.exec i ch o = some (r, s')) :
    ∃ g', Learns (γ i).1 o r g' ∧ Change s s' i (commits (γ i).1 o r) ∧ s'.store.Coherent ∧
      g'.Matches s'.store i ∧ ∀ j, j ≠ i → (γ j).1.Matches s'.store j := by
  obtain ⟨g', hlearns, hchange, hrest⟩ := step_any hinv ha he
  refine ⟨g', hlearns, hchange ?_, hrest⟩
  rintro q rfl
  exact hwrites ha.2

theorem sound {R : Rules X} {C : AppState → Nat → Prop}
    {J : AppState → (Nat → Session schema × X) → Prop}
    (hwrites : ∀ {x g q}, R.allowed x g (.sql (.stmt q)) → q.reads = true ∨ g.tx ≠ none)
    (hstep : ∀ {s s' : AppState} {γ : Nat → Session schema × X} {i : Nat} {ch : AppChoice}
      {o : AppOp} {r : Except Thrown o.Ans} {g' : Session schema}, Inv J s γ → C s i →
      R.allowed (γ i).2 (γ i).1 o → s.exec i ch o = some (r, s') →
      Change s s' i (commits (γ i).1 o r) → Learns (γ i).1 o r g' → g'.Matches s'.store i →
      ∃ x', R.next (γ i).2 (γ i).1 o r g' x' ∧ J s' (Function.update γ i (g', x'))) :
    R.protocol.Sound app C (Inv J) where
  exec {s γ i ch o r s'} hinv hC ha he := by
    obtain ⟨g', hlearns, hchange, hc, hown, hothers⟩ := step_session hwrites hinv ha he
    obtain ⟨x', hx', hJ⟩ := hstep hinv hC ha.2 he hchange hlearns hown
    refine ⟨(g', x'), ⟨hlearns, hx'⟩, hc, ?_, hJ⟩
    intro j
    by_cases hj : j = i
    · subst hj
      simpa only [Function.update_self] using hown
    · simpa only [Function.update_of_ne hj] using hothers j hj

/-- The same when `J` also reads the record of the steps, and threads may write
outside transactions. -/
theorem sound_recording_any {R : Rules X} {C : AppState × List (Event app) → Nat → Prop}
    {J : AppState × List (Event app) → (Nat → Session schema × X) → Prop}
    (hstep : ∀ {s s' : AppState} {past : List (Event app)} {γ : Nat → Session schema × X} {i : Nat}
      {ch : AppChoice} {o : AppOp} {r : Except Thrown o.Ans} {g' : Session schema},
      Inv (fun s γ => J (s, past) γ) s γ → C (s, past) i → R.allowed (γ i).2 (γ i).1 o →
      s.exec i ch o = some (r, s') →
      ((∀ q, o = .sql (.stmt q) → q.reads = true ∨ (γ i).1.tx ≠ none) →
        Change s s' i (commits (γ i).1 o r)) →
      Learns (γ i).1 o r g' → g'.Matches s'.store i → ∃ x', R.next (γ i).2 (γ i).1 o r g' x' ∧
        J (s', past ++ [⟨i, s, ch, o⟩]) (Function.update γ i (g', x'))) :
    R.protocol.Sound (recording app) C (fun s γ => Inv (fun t δ => J (t, s.2) δ) s.1 γ) where
  exec {s γ i ch o r s'} hinv hC ha he := by
    obtain ⟨hexec, hpast⟩ := exec_recording he
    obtain ⟨g', hlearns, hchange, hc, hown, hothers⟩ := step_any hinv ha hexec
    obtain ⟨x', hx', hJ⟩ := hstep hinv hC ha.2 hexec hchange hlearns hown
    refine ⟨(g', x'), ⟨hlearns, hx'⟩, hc, ?_, ?_⟩
    · intro j
      by_cases hj : j = i
      · subst hj
        simpa only [Function.update_self] using hown
      · simpa only [Function.update_of_ne hj] using hothers j hj
    · rw [hpast]
      exact hJ

theorem sound_recording {R : Rules X} {C : AppState × List (Event app) → Nat → Prop}
    {J : AppState × List (Event app) → (Nat → Session schema × X) → Prop}
    (hwrites : ∀ {x g q}, R.allowed x g (.sql (.stmt q)) → q.reads = true ∨ g.tx ≠ none)
    (hstep : ∀ {s s' : AppState} {past : List (Event app)} {γ : Nat → Session schema × X} {i : Nat}
      {ch : AppChoice} {o : AppOp} {r : Except Thrown o.Ans} {g' : Session schema},
      Inv (fun s γ => J (s, past) γ) s γ → C (s, past) i → R.allowed (γ i).2 (γ i).1 o →
      s.exec i ch o = some (r, s') → Change s s' i (commits (γ i).1 o r) →
      Learns (γ i).1 o r g' → g'.Matches s'.store i → ∃ x', R.next (γ i).2 (γ i).1 o r g' x' ∧
        J (s', past ++ [⟨i, s, ch, o⟩]) (Function.update γ i (g', x'))) :
    R.protocol.Sound (recording app) C (fun s γ => Inv (fun t δ => J (t, s.2) δ) s.1 γ) := by
  refine sound_recording_any ?_
  intro s s' past γ i ch o r g' hinv hC ha he hchange
  refine hstep hinv hC ha he (hchange ?_)
  rintro q rfl
  exact hwrites ha

/-- Some threads keep to the one family of rules, the others to the other. -/
def either {Y : Type} (R : Rules X) (R' : Rules Y) : Rules (X ⊕ Y) where
  allowed z g o := z.elim (fun x => R.allowed x g o) (fun y => R'.allowed y g o)
  next z g o r g' z' := match z with
    | .inl x => ∃ x', z' = .inl x' ∧ R.next x g o r g' x'
    | .inr y => ∃ y', z' = .inr y' ∧ R'.next y g o r g' y'

theorem wp_lift {Y α : Type} {R : Rules X} {R' : Rules Y} (f : X → Y → Prop)
    (hsim : ∀ x y g o, f x y → R.allowed x g o → R'.allowed y g o ∧
      ∀ r g' y', R'.next y g o r g' y' → ∃ x', R.next x g o r g' x' ∧ f x' y')
    {p : App α} {Q : α → Session schema × X → Prop} {E : Thrown → Session schema × X → Prop}
    {g : Session schema} {x : X} {y : Y} (hf : f x y) (h : p.wp R.protocol Q E (g, x)) :
    p.wp R'.protocol (fun a g' => ∃ x, f x g'.2 ∧ Q a (g'.1, x))
      (fun e g' => ∃ x, f x g'.2 ∧ E e (g'.1, x)) (g, y) := by
  refine Prog.wp_mono (Prog.wp_simulation (R := fun g g' => g.1 = g'.1 ∧ f g.2 g'.2) ?_
    ⟨rfl, hf⟩ h) ?_ ?_
  · rintro ⟨g, x⟩ ⟨_, y⟩ o ⟨rfl, hf⟩ ⟨hg, hx⟩
    obtain ⟨ha, hn⟩ := hsim x y g o hf hx
    refine ⟨⟨hg, ha⟩, ?_⟩
    rintro r ⟨g', y'⟩ ⟨hl, hy⟩
    obtain ⟨x', hx', hf'⟩ := hn r g' y' hy
    exact ⟨(g', x'), ⟨hl, hx'⟩, rfl, hf'⟩
  · rintro a ⟨g', y'⟩ ⟨⟨_, x'⟩, ⟨rfl, hf'⟩, hq⟩
    exact ⟨x', hf', hq⟩
  · rintro e ⟨g', y'⟩ ⟨⟨_, x'⟩, ⟨rfl, hf'⟩, he⟩
    exact ⟨x', hf', he⟩

section Either

variable {Y α : Type} {p : App α} {g : Session schema}

theorem wp_inl {R : Rules X} (R' : Rules Y) {Q : α → Session schema × X → Prop}
    {E : Thrown → Session schema × X → Prop} {x : X} (h : p.wp R.protocol Q E (g, x)) :
    p.wp (R.either R').protocol (fun a g' => ∃ x', g'.2 = .inl x' ∧ Q a (g'.1, x'))
      (fun e g' => ∃ x', g'.2 = .inl x' ∧ E e (g'.1, x')) (g, .inl x) := by
  refine Prog.wp_mono (wp_lift (fun x z => z = .inl x) ?_ rfl h) ?_ ?_
  · rintro x z g o rfl ha
    exact ⟨ha, fun r g' z' ⟨x', hz, hn⟩ => ⟨x', hn, hz⟩⟩
  · exact fun a g' ⟨x', hz, hq⟩ => ⟨x', hz, hq⟩
  · exact fun e g' ⟨x', hz, he⟩ => ⟨x', hz, he⟩

theorem wp_inr (R : Rules X) {R' : Rules Y} {Q : α → Session schema × Y → Prop}
    {E : Thrown → Session schema × Y → Prop} {y : Y} (h : p.wp R'.protocol Q E (g, y)) :
    p.wp (R.either R').protocol (fun a g' => ∃ y', g'.2 = .inr y' ∧ Q a (g'.1, y'))
      (fun e g' => ∃ y', g'.2 = .inr y' ∧ E e (g'.1, y')) (g, .inr y) := by
  refine Prog.wp_mono (wp_lift (fun y z => z = .inr y) ?_ rfl h) ?_ ?_
  · rintro y z g o rfl ha
    exact ⟨ha, fun r g' z' ⟨y', hz, hn⟩ => ⟨y', hn, hz⟩⟩
  · exact fun a g' ⟨y', hz, hq⟩ => ⟨y', hz, hq⟩
  · exact fun e g' ⟨y', hz, he⟩ => ⟨y', hz, he⟩

end Either

/-! The rules of the repository calls, where the family remembers nothing new. -/

section Calls

variable {R : Rules X} {x : X} {g : Session schema}

def Silent (R : Rules X) (x : X) (g : Session schema) (o : AppOp) : Prop :=
  R.allowed x g o ∧ ∀ r g' x', R.next x g o r g' x' → x' = x

theorem wp_sql {o : Sql.Op schema} {Q : o.Ans → Session schema × X → Prop}
    {E : Thrown → Session schema × X → Prop} (hg : g.Allowed o) (hR : R.allowed x g (.sql o))
    (hok : ∀ a g' x', g.Next o (.ok a) g' → R.next x g (.sql o) (.ok a) g' x' → Q a (g', x'))
    (herr : ∀ e g' x', g.Next o (.error e) g' →
      R.next x g (.sql o) (.error (.sql e)) g' x' → E (.sql e) (g', x')) :
    (sql o).wp R.protocol Q E (g, x) := by
  refine (Prog.wp_await _ _ _ _).mpr ⟨⟨?_, hR⟩, ?_, ?_⟩
  · intro q hq
    cases hq
    exact hg
  · rintro a ⟨g', x'⟩ ⟨hl, hx⟩
    exact hok a g' x' hl hx
  · rintro e ⟨g', x'⟩ ⟨hl, hx⟩
    cases e with
    | sql e => exact herr e g' x' hl hx
    | _ => cases hl

theorem wp_other {o : AppOp} {Q : o.Ans → Session schema × X → Prop}
    {E : Thrown → Session schema × X → Prop} (ho : ∀ q, o ≠ .sql q) (hR : R.allowed x g o)
    (hok : ∀ a x', R.next x g o (.ok a) g x' → Q a (g, x'))
    (herr : ∀ e x', R.next x g o (.error e) g x' → E e (g, x')) :
    (await o).wp R.protocol Q E (g, x) := by
  have hlearns : ∀ r g', Learns g o r g' → g' = g := by
    intro r g' hl
    cases o with
    | sql q => exact absurd rfl (ho q)
    | _ => exact hl
  refine (Prog.wp_await _ _ _ _).mpr ⟨⟨fun q hq => absurd hq (ho q), hR⟩, ?_, ?_⟩
  · rintro a ⟨g', x'⟩ ⟨hl, hx⟩
    obtain rfl : g' = g := hlearns _ _ hl
    exact hok a x' hx
  · rintro e ⟨g', x'⟩ ⟨hl, hx⟩
    obtain rfl : g' = g := hlearns _ _ hl
    exact herr e x' hx

theorem wp_stmt {q : Stmt schema} {Q : q.Ans → Session schema × X → Prop}
    {E : Thrown → Session schema × X → Prop} (hg : g.Allowed (.stmt q))
    (hs : R.Silent x g (.sql (.stmt q)))
    (hok : ∀ a g', g.Next (.stmt q) (.ok a) g' → Q a (g', x))
    (herr : ∀ e, E (.sql e) (g.failed, x)) :
    (sql (.stmt q)).wp R.protocol Q E (g, x) := by
  refine wp_sql hg hs.1 ?_ ?_
  · intro a g' x' hn hx
    obtain rfl := hs.2 _ _ _ hx
    exact hok a g' hn
  · intro e g' x' hn hx
    obtain rfl := hs.2 _ _ _ hx
    cases hn with
    | failed => exact herr e

theorem wp_find {t : Table} {cond : Uuid → t.Row → Bool}
    {Q : List (Uuid × t.Row) → Session schema × X → Prop} {E : Thrown → Session schema × X → Prop}
    (hs : R.Silent x g (.sql (.stmt (.select t cond))))
    (hok : ∀ rows, g.Answers t cond rows → Q rows (g, x))
    (herr : ∀ e, E (.sql e) (g.failed, x)) : (find t cond).wp R.protocol Q E (g, x) := by
  refine wp_stmt trivial hs ?_ herr
  intro rows g' hn
  cases hn with
  | select _ _ _ h => exact hok rows h

theorem wp_findOne {t : Table} {cond : Uuid → t.Row → Bool}
    {Q : Option (Uuid × t.Row) → Session schema × X → Prop} {E : Thrown → Session schema × X → Prop}
    (hs : R.Silent x g (.sql (.stmt (.select t cond))))
    (hok : ∀ rows, g.Answers t cond rows → Q rows.head? (g, x))
    (herr : ∀ e, E (.sql e) (g.failed, x)) : (findOne t cond).wp R.protocol Q E (g, x) := by
  refine (Prog.wp_bind _ _ _ _ _).mpr (wp_find hs ?_ herr)
  intro rows h
  exact hok rows h

theorem wp_reject {α : Type} {e : SqlError} {Q : α → Session schema × X → Prop}
    {E : Thrown → Session schema × X → Prop} (hs : R.Silent x g (.sql (.stmt (.malformed e))))
    (herr : ∀ e, E (.sql e) (g.failed, x)) : (reject e : App α).wp R.protocol Q E (g, x) := by
  refine (Prog.wp_bind _ _ _ _ _).mpr (wp_stmt trivial hs ?_ herr)
  intro a
  exact nomatch (show Empty from a)

theorem wp_findOneById {t : Table} {id : String}
    {Q : Option (Uuid × t.Row) → Session schema × X → Prop} {E : Thrown → Session schema × X → Prop}
    (hs : ∀ cond, R.Silent x g (.sql (.stmt (.select t cond))))
    (hm : ∀ e, R.Silent x g (.sql (.stmt (.malformed e))))
    (hok : ∀ rows u, uuidIn id = some u → g.Answers t (fun j _ => j = u) rows →
      Q rows.head? (g, x))
    (herr : ∀ e, E (.sql e) (g.failed, x)) : (findOneById t id).wp R.protocol Q E (g, x) := by
  unfold findOneById
  split
  · next u hu => exact wp_findOne (hs _) (fun rows h => hok rows u hu h) herr
  · exact wp_reject (hm _) herr

theorem wp_findOneForUpdate {t : Table} {id : String}
    {Q : Option (Uuid × t.Row) → Session schema × X → Prop} {E : Thrown → Session schema × X → Prop}
    (hs : ∀ u, R.Silent x g (.sql (.stmt (.selectForUpdate t u))))
    (hm : ∀ e, R.Silent x g (.sql (.stmt (.malformed e))))
    (hmissing : Q none (g, x))
    (hok : ∀ u r, uuidIn id = some u → (∀ b, g.seen t u = some b → b = some r) →
      Q (some (u, r)) (g.lock t u r, x))
    (herr : ∀ e, E (.sql e) (g.failed, x)) :
    (findOneForUpdate t id).wp R.protocol Q E (g, x) := by
  unfold findOneForUpdate
  split
  · next u hu =>
    refine (Prog.wp_bind _ _ _ _ _).mpr (wp_stmt trivial (hs u) ?_ herr)
    intro a g' hn
    cases hn with
    | lockMissing => exact hmissing
    | lock _ _ r h => exact hok u r hu h
  · exact wp_reject (hm _) herr

theorem wp_insert {t : Table} {id : Option Uuid} {row : Nat → t.Row}
    {Q : Uuid × t.Row → Session schema × X → Prop} {E : Thrown → Session schema × X → Prop}
    (hs : R.Silent x g (.sql (.stmt (.insert t id row))))
    (hok : ∀ j now, (∀ k, id = some k → j = k) → (∀ b, g.seen t j = some b → b = none) →
      Q (j, row now) (g.put t j none (row now), x))
    (herr : ∀ e, E (.sql e) (g.failed, x)) : (insert t id row).wp R.protocol Q E (g, x) := by
  refine wp_stmt trivial hs ?_ herr
  intro a g' hn
  cases hn with
  | insert _ _ _ j now hj h => exact hok j now hj h

theorem answers_seen {t : Table} {id : Uuid} {r : t.Row} {rows : List (Uuid × t.Row)}
    (hseen : g.seen t id = some (some r))
    (h : g.Answers t (fun j _ => j = id) rows) : rows.head? = some (id, r) := by
  have hmem := h.all id r hseen (by simp)
  cases rows with
  | nil => cases hmem
  | cons e rows =>
    have hid : e.1 = id := by simpa using h.meets e List.mem_cons_self
    obtain ⟨j, q⟩ := e
    obtain rfl : j = id := hid
    obtain rfl := Option.some.inj (h.seen _ List.mem_cons_self _ hseen)
    rfl

theorem wp_managerSave_seen {t : Table} {id : Uuid} {entity reread : t.Row}
    {Q : t.Row → Session schema × X → Prop} {E : Thrown → Session schema × X → Prop}
    (hseen : g.seen t id = some (some reread))
    (hs : ∀ cond, R.Silent x g (.sql (.stmt (.select t cond))))
    (hu : ∀ set, R.Silent x g (.sql (.stmt (.update t id set))))
    (hsame : reread = entity → Q entity (g, x))
    (hok : ∀ now, reread ≠ entity →
      Q (returning t entity (saveColumns t entity reread now reread))
        (g.put t id (some reread) (saveColumns t entity reread now reread), x))
    (herr : ∀ e, E (.sql e) (g.failed, x)) :
    (managerSave t id entity).wp R.protocol Q E (g, x) := by
  refine (Prog.wp_bind _ _ _ _ _).mpr (wp_findOne (hs _) ?_ herr)
  intro rows h
  rw [answers_seen hseen h]
  by_cases he : reread = entity
  · simpa [he] using hsame he
  · simp only [Option.map_some, Option.some.injEq, he, if_false]
    refine (Prog.wp_bind _ _ _ _ _).mpr (wp_stmt trivial (hu _) ?_ herr)
    intro a g' hn
    cases hn with
    | updateMissing _ _ _ hmissing => cases hmissing _ hseen
    | update _ _ _ now old hold =>
      obtain rfl := Option.some.inj (hold _ hseen)
      exact hok now he

theorem wp_transaction {α : Type} {body : App α} {Q : α → Session schema × X → Prop}
    (hg : g.tx = none) (hstart : R.allowed x g (.sql .startTransaction))
    (hrollback : ∀ x g, R.allowed x g (.sql .rollbackTransaction))
    (hbody : ∀ x', R.next x g (.sql .startTransaction) (.ok ()) .opened x' →
      (do let result ← body; commitTransaction; pure result : App α).wp R.protocol Q
        (fun _ _ => True) (.opened, x')) :
    (transaction body).wp R.protocol Q (fun _ _ => True) (g, x) := by
  have hcatch : ∀ (error : Thrown) (g' : Session schema × X),
      Prog.wp R.protocol (do
        try rollbackTransaction catch _ => pure ()
        throw error : App α) Q (fun _ _ => True) g' := by
    rintro error ⟨g', x'⟩
    refine (Prog.wp_bind _ _ _ _ _).mpr ((Prog.wp_tryCatch _ _ _ _ _).mpr ?_)
    exact wp_sql trivial (hrollback x' g') (fun _ _ _ _ _ => trivial) (fun _ _ _ _ _ => trivial)
  refine (Prog.wp_tryCatch _ _ _ _ _).mpr ((Prog.wp_bind _ _ _ _ _).mpr ?_)
  refine wp_sql hg hstart ?_ (fun _ _ _ _ _ => hcatch _ _)
  intro a g' x' hn hx
  cases hn with
  | start => exact Prog.wp_mono (hbody x' hx) (fun _ _ h => h) (fun e g' _ => hcatch e g')

end Calls

end Rules

end Ecomm
