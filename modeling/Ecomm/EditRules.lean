import Ecomm.ProductsService
import Ecomm.Rules

/-! Calls that load a row, change the entity and save it. They write what they
loaded wherever it differs from the row as `save` re-reads it. -/

namespace Ecomm

open Concurrent Sql

variable {V : Type}

/-- The row that a call edits, and the columns that it is to leave alone. -/
structure Target (V : Type) where
  table : Table
  id : Option Uuid
  col : (t : Table) → t.Row → V

def Target.value (a : Target V) (T : Database) : Option V :=
  a.id.bind (fun u => ((T a.table).lookup u).map (a.col a.table))

/-- `save` writes no column that the entity did not change. -/
def Target.Respected (a : Target V) : Prop :=
  ∀ (e o : a.table.Row) now r, a.col a.table e = a.col a.table o →
    a.col a.table (saveColumns a.table e o now r) = a.col a.table r

def stepsOf (past : List (Event app)) (i : Nat) : List (Event app) :=
  past.filter (fun e => e.thread = i)

/-- A thread that takes its second step finds the columns as at its first. -/
def Rereads (targets : Nat → Option (Target V)) (s : AppState × List (Event app)) (i : Nat) :
    Prop :=
  ∀ a, targets i = some a → ∀ e, stepsOf s.2 i = [e] →
    a.value s.1.store.tables = a.value e.state.store.tables

instance [DecidableEq V] (targets : Nat → Option (Target V)) (s : AppState × List (Event app))
    (i : Nat) : Decidable (Rereads targets s i) :=
  decidable_of_iff (∀ a ∈ targets i, ∀ e ∈ stepsOf s.2 i, (stepsOf s.2 i).length = 1 →
    a.value s.1.store.tables = a.value e.state.store.tables) <| by
  constructor
  · intro h a ha e he
    exact h a ha e (by simp [he]) (by simp [he])
  · intro h a ha e he hone
    obtain ⟨d, hd⟩ := List.length_eq_one_iff.mp hone
    rw [hd] at he
    obtain rfl := List.mem_singleton.mp he
    exact h a ha e hd

instance {α : Type} [DecidableEq V] (targets : Nat → Option (Target V))
    (c : Config (recording app) α) (es : List (Nat × AppChoice)) :
    Decidable (c.Meets (Rereads targets) es) :=
  have : ∀ (s : (recording app).State) i, Decidable (Rereads targets s i) :=
    fun s i => inferInstanceAs (Decidable (Rereads targets (s : AppState × List (Event app)) i))
  Config.decidableMeets c es

/-- What an editing call knows: how often it has awaited, and what it loaded. -/
structure Edit (V : Type) where
  target : Target V
  steps : Nat
  seen : Option V

def Edit.begin (a : Target V) : Edit V := ⟨a, 0, none⟩

structure Edited (a : Target V) (g : Session schema) : Prop where
  isOpen : g.tx = some ⟨g.writes, false⟩
  writes : g.writes = [] ∨ ∃ u old new, g.writes = [⟨a.table, u, some new⟩] ∧
    g.base a.table u = some (some old) ∧ a.col a.table new = a.col a.table old

def editAllowed (x : Edit V) (g : Session schema) : AppOp → Prop
  | .sql .startTransaction | .sql .rollbackTransaction => True
  | .sql .commitTransaction => Edited x.target g
  | .sql (.stmt (.select t cond)) => g.tx = none ∧ t = x.target.table ∧
    ∃ u, x.target.id = some u ∧ ∀ j r, cond j r = true ↔ j = u
  | .sql (.stmt (.update _ _ _)) => g.tx ≠ none
  | .sql (.stmt (.malformed _)) => True
  | .dateNow | .publishStatusChanged _ => True
  | _ => False

def editNext (x : Edit V) : (o : AppOp) → Except Thrown o.Ans → Edit V → Prop
  | .sql (.stmt (.select t _)), .ok rows, x' =>
    let found := (show List (Uuid × t.Row) from rows).head?.map (fun e => x.target.col t e.2)
    x' = ⟨x.target, x.steps + 1, if x.steps = 0 then found else x.seen⟩ ∧
      (x.steps = 1 → ∀ v, x.seen = some v → found = some v)
  | _, _, x' => x' = { x with steps := x.steps + 1 }

def editRules : Rules (Edit V) := ⟨editAllowed, fun x _ o r _ x' => editNext x o r x'⟩

theorem editAllowed_writes {x : Edit V} {g : Session schema} {q : Stmt schema}
    (h : editAllowed x g (.sql (.stmt q))) : q.reads = true ∨ g.tx ≠ none := by
  cases q with
  | select | malformed => exact .inl rfl
  | update t id set => exact .inr h
  | selectForUpdate | insert | delete => exact h.elim

theorem editNext_steps {x x' : Edit V} {o : AppOp} {r : Except Thrown o.Ans}
    (h : editNext x o r x') : x'.target = x.target ∧ x'.steps = x.steps + 1 := by
  unfold editNext at h
  split at h
  · obtain ⟨rfl, _⟩ := h
    exact ⟨rfl, rfl⟩
  · rw [h]
    exact ⟨rfl, rfl⟩

section Frame

variable {a : Target V} {g : Session schema} {s s' : AppState} {i : Nat}

theorem Edited.column (h : Edited a g) (hm : g.Matches s.store i) (t : Table) (id : Uuid) :
    ((s.store.tables.replay g.writes t).lookup id).map (a.col t) =
      ((s.store.tables t).lookup id).map (a.col t) := by
  rcases h.writes with hnil | ⟨u, old, new, hws, hbase, hcol⟩
  · rw [hnil]
    rfl
  · rw [hws, Tables.replay_single]
    by_cases hat : (⟨a.table, u, some new⟩ : Write schema).at t id
    · obtain ⟨rfl, rfl⟩ := hat
      have hold : (s.store.tables a.table).lookup u = some old := hm.base _ _ _ hbase
      rw [Tables.lookup_write_self, hold, Option.map_some, Option.map_some, hcol]
    · rw [Tables.lookup_write_other _ hat]

theorem Edited.other (h : Edited a g) {t : Table} (ht : t ≠ a.table) :
    s.store.tables.replay g.writes t = s.store.tables t := by
  refine Tables.replay_other_table _ ?_
  intro w hw
  rcases h.writes with hnil | ⟨u, old, new, hws, _⟩
  · rw [hnil] at hw
    cases hw
  · rw [hws] at hw
    obtain rfl := List.mem_singleton.mp hw
    exact ht.symm

/-- A step that leaves the columns of `a` alone, and all other tables. -/
structure LeavesAlone (a : Target V) (s s' : AppState) : Prop where
  column : ∀ t id, ((s'.store.tables t).lookup id).map (a.col t) =
    ((s.store.tables t).lookup id).map (a.col t)
  other : ∀ t, t ≠ a.table → s'.store.tables t = s.store.tables t

theorem edit_leaves {x : Edit V} {o : AppOp} {r : Except Thrown o.Ans}
    (ha : editAllowed x g o) (hm : g.Matches s.store i)
    (hchange : Rules.Change s s' i (commits g o r)) : LeavesAlone x.target s s' := by
  have htables : s'.store.tables = s.store.tables.replay ((commits g o r).getD []) := hchange.tables
  cases hws : commits g o r with
  | none =>
    have hsame : s'.store.tables = s.store.tables := by simpa [hws] using htables
    exact ⟨fun t id => by rw [hsame], fun t _ => by rw [hsame]⟩
  | some ws =>
    obtain ⟨rfl, htx⟩ := commits_eq_some hws
    have hedited : Edited x.target g := ha
    have heq : ws = g.writes := by simp [Session.writes, htx]
    have hreplay : s'.store.tables = s.store.tables.replay g.writes := by
      simpa [hws, heq] using htables
    constructor
    · rw [hreplay]
      exact hedited.column hm
    · rw [hreplay]
      exact fun t ht => hedited.other ht

end Frame

theorem stepsOf_append {past : List (Event app)} {e : Event app} {i : Nat} :
    stepsOf (past ++ [e]) i = stepsOf past i ++ if e.thread = i then [e] else [] := by
  by_cases h : e.thread = i <;> simp [stepsOf, h]

structure Edits {Y : Type} (targets : Nat → Option (Target V)) (past : List (Event app))
    (γ : Nat → Session schema × (Edit V ⊕ Y)) : Prop where
  target : ∀ i, targets i = (γ i).2.elim (fun x => some x.target) (fun _ => none)
  steps : ∀ i x, (γ i).2 = .inl x → (stepsOf past i).length = x.steps
  fresh : ∀ i x, (γ i).2 = .inl x → x.steps = 0 → x.seen = none
  seen : ∀ i x v, (γ i).2 = .inl x → x.seen = some v → ∀ e, stepsOf past i = [e] →
    x.target.value e.state.store.tables = some v

section Edits

variable {Y : Type} {targets : Nat → Option (Target V)} {past : List (Event app)}
  {γ : Nat → Session schema × (Edit V ⊕ Y)} {i : Nat} {s s' : AppState} {ch : AppChoice}
  {o : AppOp} {r : Except Thrown o.Ans} {g' : Session schema}

theorem Edits.other (h : Edits targets past γ) {y y' : Y} (hy : (γ i).2 = .inr y) :
    Edits targets (past ++ [⟨i, s, ch, o⟩]) (Function.update γ i (g', .inr y')) := by
  constructor
  · intro j
    by_cases hj : j = i
    · subst hj
      rw [h.target, hy, Function.update_self]
      rfl
    · rw [Function.update_of_ne hj]
      exact h.target j
  · intro j x hx
    by_cases hj : j = i
    · subst hj
      rw [Function.update_self] at hx
      cases hx
    · rw [Function.update_of_ne hj] at hx
      rw [stepsOf_append, if_neg (Ne.symm hj), List.append_nil]
      exact h.steps j x hx
  · intro j x hx
    by_cases hj : j = i
    · subst hj
      rw [Function.update_self] at hx
      cases hx
    · rw [Function.update_of_ne hj] at hx
      exact h.fresh j x hx
  · intro j x v hx hv e he
    by_cases hj : j = i
    · subst hj
      rw [Function.update_self] at hx
      cases hx
    · rw [Function.update_of_ne hj] at hx
      rw [stepsOf_append, if_neg (Ne.symm hj), List.append_nil] at he
      exact h.seen j x v hx hv e he

theorem found_eq_value {a : Target V} {cond : Uuid → a.table.Row → Bool} {u : Uuid}
    (hid : a.id = some u) (hcond : ∀ j r, cond j r = true ↔ j = u) {rows : List (Uuid × a.table.Row)}
    {store : Store schema} (htx : s.store.tx i = none)
    (he : s.store.exec i ch.sql (.stmt (.select a.table cond)) = some (.ok rows, store)) :
    rows.head?.map (fun e => a.col a.table e.2) = a.value s.store.tables := by
  have hrows : ∀ e, e ∈ rows ↔ (s.store.tables a.table).lookup e.1 = some e.2 ∧ e.1 = u := by
    intro e
    rw [Store.exec_select he e, Store.view_none htx, hcond]
  have hvalue : a.value s.store.tables =
      ((s.store.tables a.table).lookup u).map (a.col a.table) := by
    rw [Target.value, hid, Option.bind_some]
  rw [hvalue]
  cases rows with
  | nil =>
    cases hr : (s.store.tables a.table).lookup u with
    | none => rfl
    | some r => exact absurd ((hrows (u, r)).mpr ⟨hr, rfl⟩) List.not_mem_nil
  | cons e rows =>
    obtain ⟨hr, hu⟩ := (hrows e).mp List.mem_cons_self
    rw [← hu, hr]
    rfl

theorem Edits.edit (h : Edits targets past γ) {x : Edit V} (hx : (γ i).2 = .inl x)
    (hm : (γ i).1.Matches s.store i) (hC : Rereads targets (s, past) i)
    (ha : editAllowed x (γ i).1 o) (he : s.exec i ch o = some (r, s')) :
    ∃ x', editNext x o r x' ∧
      Edits targets (past ++ [⟨i, s, ch, o⟩]) (Function.update γ i (g', .inl x')) := by
  have hlength := h.steps i x hx
  have htarget : targets i = some x.target := by rw [h.target, hx]; rfl
  have hnext : ∀ x' : Edit V, x'.target = x.target → x'.steps = x.steps + 1 →
      (x.steps = 0 → ∀ v, x'.seen = some v → x.target.value s.store.tables = some v) →
      Edits targets (past ++ [⟨i, s, ch, o⟩]) (Function.update γ i (g', .inl x')) := by
    intro x' ht hs hseen
    constructor
    · intro j
      by_cases hj : j = i
      · subst hj
        rw [Function.update_self, htarget, ← ht]
        rfl
      · rw [Function.update_of_ne hj]
        exact h.target j
    · intro j y hy
      by_cases hj : j = i
      · subst hj
        rw [Function.update_self] at hy
        obtain rfl := Sum.inl.inj hy
        rw [stepsOf_append, if_pos rfl, List.length_append, hlength, hs]
        rfl
      · rw [Function.update_of_ne hj] at hy
        rw [stepsOf_append, if_neg (Ne.symm hj), List.append_nil]
        exact h.steps j y hy
    · intro j y hy hzero
      by_cases hj : j = i
      · subst hj
        rw [Function.update_self] at hy
        obtain rfl := Sum.inl.inj hy
        rw [hs] at hzero
        cases hzero
      · rw [Function.update_of_ne hj] at hy
        exact h.fresh j y hy hzero
    · intro j y v hy hv e hevent
      by_cases hj : j = i
      · subst hj
        rw [Function.update_self] at hy
        obtain rfl := Sum.inl.inj hy
        rw [stepsOf_append, if_pos rfl] at hevent
        have hnil : stepsOf past j = [] := by
          have hlen := congrArg List.length hevent
          simp only [List.length_append, List.length_singleton] at hlen
          exact List.length_eq_zero_iff.mp (by omega)
        rw [hnil, List.nil_append] at hevent
        obtain rfl := List.singleton_inj.mp hevent
        rw [hnil] at hlength
        rw [ht]
        exact hseen hlength.symm v hv
      · rw [Function.update_of_ne hj] at hy
        rw [stepsOf_append, if_neg (Ne.symm hj), List.append_nil] at hevent
        exact h.seen j y v hy hv e hevent
  have hquiet : Edits targets (past ++ [⟨i, s, ch, o⟩])
      (Function.update γ i (g', .inl { x with steps := x.steps + 1 })) := by
    refine hnext _ rfl rfl ?_
    intro hzero v hv
    have hnone := h.fresh i x hx hzero
    rw [hnone] at hv
    cases hv
  cases o with
  | sql q =>
    cases q with
    | startTransaction | commitTransaction | rollbackTransaction =>
      cases r <;> exact ⟨_, rfl, hquiet⟩
    | stmt q =>
      cases q with
      | select t cond =>
        cases r with
        | error e => exact ⟨_, rfl, hquiet⟩
        | ok rows =>
          obtain ⟨htx, rfl, u, hid, hcond⟩ := ha
          obtain ⟨b, store, hexec, hr, _⟩ := AppState.exec_sql he
          cases b with
          | error e => cases hr
          | ok b =>
            cases hr
            have hfound := found_eq_value hid hcond (hm.tx.trans htx) hexec
            refine ⟨_, ⟨rfl, ?_⟩, hnext _ rfl rfl ?_⟩
            · intro hone v hv
              obtain ⟨e, hevent⟩ := List.length_eq_one_iff.mp (hlength.trans hone)
              have hfirst := h.seen i x v hx hv e hevent
              have hsame := hC x.target htarget e hevent
              exact hfound.trans (hsame.trans hfirst)
            · intro hzero v hv
              rw [if_pos hzero] at hv
              exact hfound.symm.trans hv
      | selectForUpdate | insert | update | delete | malformed =>
        cases r <;> exact ⟨_, rfl, hquiet⟩
  | channelReady | sendToQueue | settle | publishStatusChanged | randomUUID | dateNow =>
    cases r <;> exact ⟨_, rfl, hquiet⟩

abbrev Editing (targets : Nat → Option (Target V))
    (K : AppState → (Nat → Session schema × (Edit V ⊕ Y)) → Prop)
    (s : AppState × List (Event app)) (γ : Nat → Session schema × (Edit V ⊕ Y)) : Prop :=
  Rules.Inv (fun t δ => Edits targets s.2 δ ∧ K t δ) s.1 γ

theorem edits_sound {R' : Rules Y} {K : AppState → (Nat → Session schema × (Edit V ⊕ Y)) → Prop}
    (hedit : ∀ {s s' : AppState} {γ : Nat → Session schema × (Edit V ⊕ Y)} {i : Nat}
      {ch : AppChoice} {o : AppOp} {r : Except Thrown o.Ans} {g' : Session schema} {x x' : Edit V},
      Rules.Inv K s γ → (γ i).2 = .inl x → editAllowed x (γ i).1 o →
      s.exec i ch o = some (r, s') → LeavesAlone x.target s s' → x'.target = x.target →
      K s' (Function.update γ i (g', .inl x')))
    (hother : ∀ {s s' : AppState} {γ : Nat → Session schema × (Edit V ⊕ Y)} {i : Nat}
      {ch : AppChoice} {o : AppOp} {r : Except Thrown o.Ans} {g' : Session schema} {y : Y},
      Rules.Inv K s γ → (γ i).2 = .inr y → R'.allowed y (γ i).1 o →
      s.exec i ch o = some (r, s') →
      ((∀ q, o = .sql (.stmt q) → q.reads = true ∨ (γ i).1.tx ≠ none) →
        Rules.Change s s' i (commits (γ i).1 o r)) →
      Learns (γ i).1 o r g' → g'.Matches s'.store i →
      ∃ y', R'.next y (γ i).1 o r g' y' ∧ K s' (Function.update γ i (g', .inr y'))) :
    (editRules.either R').protocol.Sound (recording app) (Rereads targets)
      (Editing targets K) := by
  refine Rules.sound_recording_any (J := fun u δ => Edits targets u.2 δ ∧ K u.1 δ) ?_
  intro s s' past γ i ch o r g' hinv hC ha he hchange hlearns hown
  have hK : Rules.Inv K s γ := ⟨hinv.coherent, hinv.session, hinv.rest.2⟩
  cases hz : (γ i).2 with
  | inl x =>
    have hx : editAllowed x (γ i).1 o := by
      rw [hz] at ha
      exact ha
    have hwrites : ∀ q, o = .sql (.stmt q) → q.reads = true ∨ (γ i).1.tx ≠ none := by
      rintro q rfl
      exact editAllowed_writes hx
    have hleaves := edit_leaves hx (hinv.session i) (hchange hwrites)
    obtain ⟨x', hnext, hedits⟩ := hinv.rest.1.edit hz (hinv.session i) hC hx he
    exact ⟨.inl x', ⟨x', rfl, hnext⟩, hedits,
      hedit hK hz hx he hleaves (editNext_steps hnext).1⟩
  | inr y =>
    have hy : R'.allowed y (γ i).1 o := by
      rw [hz] at ha
      exact ha
    obtain ⟨y', hnext, hKeeps⟩ := hother hK hz hy he hchange hlearns hown
    exact ⟨.inr y', ⟨y', rfl, hnext⟩, hinv.rest.1.other hz, hKeeps⟩

end Edits

theorem Edits.begin {Y : Type} {targets : Nat → Option (Target V)}
    {γ : Nat → Session schema × (Edit V ⊕ Y)} (other : Nat → Y)
    (h : ∀ i, (γ i).2 = (targets i).elim (.inr (other i)) (fun a => .inl (.begin a))) :
    Edits targets [] γ := by
  have hbegin : ∀ i x, (γ i).2 = .inl x → ∃ a, x = .begin a := by
    intro i x hx
    rw [h] at hx
    cases ha : targets i with
    | none =>
      rw [ha] at hx
      cases hx
    | some a =>
      rw [ha] at hx
      exact ⟨a, (Sum.inl.inj hx).symm⟩
  constructor
  · intro i
    rw [h]
    cases targets i <;> rfl
  · intro i x hx
    obtain ⟨a, rfl⟩ := hbegin i x hx
    rfl
  · intro i x hx _
    obtain ⟨a, rfl⟩ := hbegin i x hx
    rfl
  · intro i x v _ _ e he
    cases he

theorem edits_leave {Y α : Type} {targets : Nat → Option (Target V)} {R' : Rules Y}
    {K : AppState → (Nat → Session schema × (Edit V ⊕ Y)) → Prop}
    {Q : Nat → α → Session schema × (Edit V ⊕ Y) → Prop}
    {E : Nat → Thrown → Session schema × (Edit V ⊕ Y) → Prop} {c c' : Config (recording app) α}
    {γ : Nat → Session schema × (Edit V ⊕ Y)}
    (hc : Follows (editRules.either R').protocol (Editing targets K) Q E c γ)
    {i : Nat} {a : Target V} (ha : targets i = some a) {ch : AppChoice}
    (hstep : c.step i ch = some c') : LeavesAlone a c.shared.1 c'.shared.1 := by
  obtain ⟨o, k, r, s', hthread, he, rfl⟩ := Config.step_cases hstep
  obtain ⟨hallowed, _⟩ := hc.thread i _ hthread
  obtain ⟨hexec, _⟩ := exec_recording he
  obtain ⟨_, _, hchange, _⟩ := Rules.step_any hc.inv hallowed hexec
  have htarget := hc.inv.rest.1.target i
  rw [ha] at htarget
  cases hz : (γ i).2 with
  | inr y =>
    rw [hz] at htarget
    cases htarget
  | inl x =>
    rw [hz] at htarget
    obtain rfl := Option.some.inj htarget
    have hx : editAllowed x (γ i).1 o := by
      have hmine := hallowed.2
      rw [hz] at hmine
      exact hmine
    refine edit_leaves hx (hc.inv.session i) (hchange ?_)
    rintro q rfl
    exact editAllowed_writes hx

section Calls

variable {a : Target V} {u : Uuid}

theorem edit_commit {α : Type} {x : Edit V} {g : Session schema} {result : α}
    (h : Edited x.target g) :
    (do commitTransaction; pure result : App α).wp editRules.protocol (fun _ _ => True)
      (fun _ _ => True) (g, x) := by
  refine (Prog.wp_bind _ _ _ _ _).mpr ?_
  exact Rules.wp_sql trivial h (fun _ _ _ _ _ => trivial) (fun _ _ _ _ _ => trivial)

/-- A `save` that finds the columns as they were loaded keeps them. -/
theorem edit_save (entity : a.table.Row) (hkeeps : a.Respected) (hid : a.id = some u) :
    (repositorySave a.table u entity).wp editRules.protocol (fun _ _ => True) (fun _ _ => True)
      (.closed, ⟨a, 1, some (a.col a.table entity)⟩) := by
  refine (Prog.wp_bind _ _ _ _ _).mpr ((Prog.wp_bind _ _ _ _ _).mpr ?_)
  refine Rules.wp_sql trivial ⟨rfl, rfl, u, hid, by simp⟩ ?_ (fun _ _ _ _ _ => trivial)
  rintro rows g' x' hn ⟨rfl, hfound⟩
  cases hn with
  | select _ _ _ hanswers =>
    have hsame := hfound rfl _ rfl
    cases rows with
    | nil => cases hsame
    | cons e rows =>
      have hcol : a.col a.table e.2 = a.col a.table entity := Option.some.inj hsame
      change (if (some e).map (·.2) = some entity then pure entity else
        transaction (writeEntity a.table u entity (some e)) : App a.table.Row).wp _ _ _ _
      split
      · trivial
      · have hclosed : (Session.closed : Session schema).tx = none := rfl
        refine Rules.wp_transaction (R := editRules) hclosed trivial (fun _ _ => trivial) ?_
        rintro x' rfl
        refine (Prog.wp_bind _ _ _ _ _).mpr ((Prog.wp_bind _ _ _ _ _).mpr ?_)
        refine Rules.wp_sql trivial (by simp [editRules, editAllowed, Session.opened]) ?_
          (fun _ _ _ _ _ => trivial)
        rintro row g'' x'' hn rfl
        cases hn with
        | updateMissing => exact edit_commit ⟨rfl, .inl rfl⟩
        | update _ _ _ now old _ =>
          have htx : (Session.opened : Session schema).tx = some ⟨[], false⟩ := rfl
          refine edit_commit ⟨?_, .inr ⟨u, old, _, Session.put_writes htx, ?_,
            hkeeps entity e.2 now old hcol.symm⟩⟩
          · rw [Session.put_tx htx, Session.put_writes htx]
            rfl
          · rw [Session.put_base_self htx]
            rfl

theorem edit_find (id : String) (hid : a.id = uuidIn id) :
    (findOneById a.table id).wp editRules.protocol
      (fun found g' => ∀ e, found = some e →
        a.id = some e.1 ∧ g' = (.closed, ⟨a, 1, some (a.col a.table e.2)⟩))
      (fun _ _ => True) (.closed, .begin a) := by
  unfold findOneById
  split
  · next u hu =>
    refine (Prog.wp_bind _ _ _ _ _).mpr ?_
    refine Rules.wp_sql trivial ⟨rfl, rfl, u, hid.trans hu, by simp⟩ ?_ (fun _ _ _ _ _ => trivial)
    rintro rows g' x' hn ⟨rfl, _⟩
    cases hn with
    | select _ _ _ hanswers =>
      intro e he
      have hu' : e.1 = u := by simpa using hanswers.meets e (List.mem_of_head? he)
      have hrows : (show List (Uuid × a.table.Row) from rows).head? = some e := he
      refine ⟨by rw [hid, hu, hu'], ?_⟩
      rw [hrows]
      rfl
  · refine (Prog.wp_bind _ _ _ _ _).mpr ?_
    refine Rules.wp_sql trivial trivial ?_ (fun _ _ _ _ _ => trivial)
    intro answer
    exact nomatch (show Empty from answer)

theorem edit_updateProduct (id : String) (updates : ProductsService.UpdateProductDto)
    {f : (t : Table) → t.Row → V} (hkeeps : (⟨.products, uuidIn id, f⟩ : Target V).Respected)
    (hmerge : ∀ p, f .products (updates.merge p) = f .products p) :
    (ProductsService.updateProduct id updates).wp editRules.protocol (fun _ _ => True)
      (fun _ _ => True) (.closed, .begin ⟨.products, uuidIn id, f⟩) := by
  let a : Target V := ⟨.products, uuidIn id, f⟩
  have hfind := edit_find (a := a) id rfl
  refine (Prog.wp_bind _ _ _ _ _).mpr (Prog.wp_mono hfind ?_ (fun _ _ _ => trivial))
  intro found g' hfound
  cases found with
  | none => trivial
  | some e =>
    obtain ⟨hid, rfl⟩ := hfound e rfl
    have hsave := edit_save (a := a) (updates.merge e.2) hkeeps hid
    rw [show a.col a.table (updates.merge e.2) = a.col a.table e.2 from hmerge e.2] at hsave
    refine (Prog.wp_bind _ _ _ _ _).mpr (Prog.wp_mono hsave ?_ (fun _ _ _ => trivial))
    exact fun _ _ _ => trivial

theorem edit_updateOrder (id : String) (updates : UpdateOrderDto) {f : (t : Table) → t.Row → V}
    (hkeeps : (⟨.orders, uuidIn id, f⟩ : Target V).Respected)
    (hassign : ∀ o, f .orders (updates.assign o) = f .orders o) :
    (updateOrder id updates).wp editRules.protocol (fun _ _ => True) (fun _ _ => True)
      (.closed, .begin ⟨.orders, uuidIn id, f⟩) := by
  let a : Target V := ⟨.orders, uuidIn id, f⟩
  have hfind := edit_find (a := a) id rfl
  refine (Prog.wp_bind _ _ _ _ _).mpr (Prog.wp_mono hfind ?_ (fun _ _ _ => trivial))
  intro found g' hfound
  cases found with
  | none => trivial
  | some e =>
    obtain ⟨hid, rfl⟩ := hfound e rfl
    have hsave := edit_save (a := a) (updates.assign e.2) hkeeps hid
    rw [show a.col a.table (updates.assign e.2) = a.col a.table e.2 from hassign e.2] at hsave
    refine (Prog.wp_bind _ _ _ _ _).mpr (Prog.wp_mono hsave ?_ (fun _ _ _ => trivial))
    intro savedOrder g' _
    split
    · refine (Prog.wp_bind _ _ _ _ _).mpr (Rules.wp_other (by simp) trivial ?_
        (fun _ _ _ => trivial))
      intro ts x' _
      refine (Prog.wp_bind _ _ _ _ _).mpr (Rules.wp_other (by simp) trivial ?_
        (fun _ _ _ => trivial))
      exact fun _ _ _ => trivial
    · trivial

end Calls

end Ecomm
