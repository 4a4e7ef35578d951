import Ecomm.Lib.Solo

/-! Threads that delete nothing: in every run of theirs a committed row stays. -/

namespace Sql

variable {S : Schema}

/-- Every row of `T` is a row of `T'`, perhaps changed. -/
def Tables.Within (T T' : Tables S) : Prop :=
  ∀ t id, ((T t).lookup id).isSome = true → ((T' t).lookup id).isSome = true

namespace Store

def Growing (s : Store S) : Prop :=
  ∀ i x, s.tx i = some x → ∀ w ∈ x.writes, w.row.isSome = true

variable {s s' : Store S} {i j : Nat} {c : Choice S}

theorem exec_tx_other {o : Op S} {r : Except SqlError o.Ans} (he : s.exec i c o = some (r, s'))
    (hj : j ≠ i) : s'.tx j = s.tx j := by
  cases exec_step he with
  | startFault | commitNone | aborted => rfl
  | start => exact start_tx_other s hj
  | commitFault | commitAborted | rollbackFault | rollback => exact close_tx_other s hj
  | commit => rw [close_tx_other _ hj, publish_tx]
  | fault | refused => exact abort_tx_other s hj
  | done => exact perform_tx_other s hj _ _

theorem Growing.replace (h : s.Growing) (hother : ∀ j, j ≠ i → s'.tx j = s.tx j)
    (hown : ∀ x, s'.tx i = some x → ∀ w ∈ x.writes, w.row.isSome = true) : s'.Growing := by
  intro j x hx
  by_cases hj : j = i
  · subst hj
    exact hown x hx
  · exact h j x (hother j hj ▸ hx)

theorem Growing.close (h : s.Growing) (i : Nat) : (s.close i).Growing :=
  h.replace (fun _ hj => close_tx_other s hj) (by simp)

theorem Growing.abort (h : s.Growing) (i : Nat) : (s.abort i).Growing := by
  cases hx : s.tx i with
  | none => rwa [abort_none hx]
  | some x =>
    refine h.replace (fun _ hj => abort_tx_other s hj) ?_
    intro y hy
    rw [abort_tx_self hx] at hy
    obtain rfl := Option.some.inj hy
    simp

theorem Growing.exec (h : s.Growing) {o : Op S} {r : Except SqlError o.Ans}
    (he : s.exec i c o = some (r, s')) (ho : ∀ t id, o ≠ .stmt (.delete t id)) :
    s'.Growing ∧ s.tables.Within s'.tables := by
  have hsame : s.tables.Within s.tables := fun _ _ hr => hr
  cases exec_step he with
  | startFault | commitNone | aborted => exact ⟨h, hsame⟩
  | start =>
    refine ⟨h.replace (fun _ hj => start_tx_other s hj) ?_, hsame⟩
    intro x hx
    rw [start_tx_self] at hx
    obtain rfl := Option.some.inj hx
    simp
  | commitFault | commitAborted | rollbackFault | rollback => exact ⟨h.close i, hsame⟩
  | commit x htx ha =>
    refine ⟨h.replace (fun _ hj => by rw [close_tx_other _ hj, publish_tx]) (by simp), ?_⟩
    exact fun t id hr => Tables.isSome_replay (h i x htx) hr
  | fault | refused =>
    refine ⟨h.abort i, ?_⟩
    rw [abort_tables]
    exact hsame
  | done q ls a ws ha hq hl =>
    have hws := hq.rows (fun t id heq => ho t id (congrArg Op.stmt heq))
    cases hx : s.tx i with
    | none =>
      refine ⟨h.replace (fun _ hj => perform_tx_other s hj _ _) (by simp [perform_tx_none hx]), ?_⟩
      rw [perform_tables_none hx]
      exact fun t id hr => Tables.isSome_replay hws hr
    | some x =>
      refine ⟨h.replace (fun _ hj => perform_tx_other s hj _ _) ?_, ?_⟩
      · intro y hy
        rw [perform_tx_some hx] at hy
        obtain rfl := Option.some.inj hy
        intro w hw
        exact (List.mem_append.mp hw).elim (h i x hx w) (hws w)
      · rw [perform_tables_some hx]
        exact hsame

theorem exec_fault {o : Op S} {r : Except SqlError o.Ans} (he : s.exec i c o = some (r, s'))
    (hfault : c.fault = true) (htx : o = .commitTransaction → s.tx i ≠ none) :
    ∃ e, r = .error e := by
  cases o with
  | startTransaction | rollbackTransaction | stmt q =>
    simp only [exec, hfault, if_true] at he
    obtain ⟨rfl, _⟩ := Prod.mk.inj (Option.some.inj he)
    exact ⟨_, rfl⟩
  | commitTransaction =>
    obtain ⟨x, hx⟩ := Option.ne_none_iff_exists'.mp (htx rfl)
    simp only [exec, hx, hfault, if_true] at he
    obtain ⟨rfl, _⟩ := Prod.mk.inj (Option.some.inj he)
    exact ⟨_, rfl⟩

theorem exec_stmt_ok {q : Stmt S} {a : q.Ans} {x : Tx S}
    (he : s.exec i c (.stmt q) = some (.ok a, s')) (hx : s.tx i = some x) :
    ∃ ws, s'.tx i = some { x with writes := x.writes ++ ws } := by
  cases exec_step he with
  | done q ls a ws => exact ⟨ws, perform_tx_some hx _ _⟩

theorem exec_insert_tx {t : S.Table} {id : Option S.Id} {row : Nat → S.Row t} {a : S.Id × S.Row t}
    {x : Tx S} (he : s.exec i c (.stmt (.insert t id row)) = some (.ok a, s'))
    (hx : s.tx i = some x) :
    s'.tx i = some { x with writes := x.writes ++ [⟨t, a.1, some a.2⟩] } := by
  cases exec_step he with
  | done q ls a ws ha hq =>
    cases hq with
    | insert => exact perform_tx_some hx _ _

theorem exec_commit_ok {u : Unit} {x : Tx S}
    (he : s.exec i c .commitTransaction = some (.ok u, s')) (hx : s.tx i = some x)
    (ha : x.aborted = false) : s'.tables = s.tables.replay x.writes := by
  cases exec_step he with
  | commitNone htx =>
    rw [hx] at htx
    cases htx
  | commitAborted y htx hy =>
    obtain rfl := Option.some.inj (hx.symm.trans htx)
    rw [ha] at hy
    cases hy
  | commit y htx hy =>
    obtain rfl := Option.some.inj (hx.symm.trans htx)
    rfl

end Store

end Sql
