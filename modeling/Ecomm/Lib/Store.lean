import Ecomm.Lib.Interleaving
import Ecomm.Lib.Tables

/-! A store with transactions under READ COMMITTED. A transaction reads the
committed rows and its own writes; rows it wrote or locked, and unique keys it
inserted, stay locked until it ends. -/

namespace Sql

/-- What a transaction can lock: a row, or an entry of a unique index. -/
inductive Resource (S : Schema) where
  | row (t : S.Table) (id : S.Id)
  | key (k : S.Key)
  deriving DecidableEq

inductive Stmt (S : Schema) where
  | select (t : S.Table) (cond : S.Id → S.Row t → Bool)
  | selectForUpdate (t : S.Table) (id : S.Id)
  | insert (t : S.Table) (id : Option S.Id) (row : Nat → S.Row t)
  | update (t : S.Table) (id : S.Id) (set : Nat → S.Row t → S.Row t)
  | delete (t : S.Table) (id : S.Id)
  /-- A statement whose parameters the server refuses. -/
  | malformed (e : SqlError)

namespace Stmt

variable {S : Schema}

def Ans : Stmt S → Type
  | select t _ => List (S.Id × S.Row t)
  | selectForUpdate t _ => Option (S.Row t)
  | insert t _ _ => S.Id × S.Row t
  | update t _ _ => Option (S.Row t)
  | delete _ _ => Nat
  | malformed _ => Empty

def reads : Stmt S → Bool
  | select _ _ | selectForUpdate _ _ | malformed _ => true
  | insert _ _ _ | update _ _ _ | delete _ _ => false

end Stmt

inductive Op (S : Schema) where
  | startTransaction
  | commitTransaction
  | rollbackTransaction
  | stmt (q : Stmt S)

def Op.Ans {S : Schema} : Op S → Type
  | stmt q => q.Ans
  | _ => Unit

/-- What the server brings to a step: a failure that is not about the rows,
the next generated id, and its clock. -/
structure Choice (S : Schema) where
  fault : Bool
  id : S.Id
  now : Nat

/-- A statement evaluated on the rows its transaction sees: the resources it
has to own first, and then its answer and its writes. -/
structure Plan (S : Schema) (A : Type) where
  locks : List (Resource S)
  result : Except SqlError (A × List (Write S))

variable {S : Schema}

def keyTaken (T : Tables S) (t : S.Table) (id : S.Id) (r : S.Row t) : Bool :=
  (T t).entries.any (fun e => e.1 ≠ id && (S.keys t e.2).any (fun k => k ∈ S.keys t r))

def refsExist (T : Tables S) (t : S.Table) (r : S.Row t) : Bool :=
  (S.refs t r).all (fun f => ((T f.1).lookup f.2).isSome)

/-- The constraints on a row that is about to be written. -/
def allow (T : Tables S) (t : S.Table) (id : S.Id) (r : S.Row t) : Except SqlError Unit :=
  match S.check t r with
  | some e => .error e
  | none =>
    if keyTaken T t id r then .error .uniqueViolation
    else if refsExist T t r then .ok ()
    else .error .foreignKeyViolation

def keyLocks (t : S.Table) (r : Option (S.Row t)) : List (Resource S) :=
  (r.elim [] (S.keys t)).map .key

def Write.locks (T : Tables S) (w : Write S) : List (Resource S) :=
  .row w.table w.id :: (keyLocks w.table ((T w.table).lookup w.id) ++ keyLocks w.table w.row)

/-- The writes that deleting a row comes to, the row itself last. -/
def deletion (T : Tables S) (t : S.Table) (id : S.Id) : Option (List (Write S)) :=
  (S.onDelete T t id).map
    (fun more => more.map (fun w => (⟨w.1, w.2.1, w.2.2⟩ : Write S)) ++ [⟨t, id, none⟩])

/-- `none` is a choice the server cannot make: a generated id is not in use. -/
def Stmt.plan (T : Tables S) (c : Choice S) : (q : Stmt S) → Option (Plan S q.Ans)
  | select t cond =>
    some ⟨[], .ok (((T t).entries.filter (fun e => cond e.1 e.2)).map (fun e => (e.1, e.2)), [])⟩
  | selectForUpdate t id =>
    match (T t).lookup id with
    | none => some ⟨[], .ok (none, [])⟩
    | some r => some ⟨[.row t id], .ok (some r, [])⟩
  | insert t id? row =>
    let w : Write S := ⟨t, id?.getD c.id, some (row c.now)⟩
    if ((T t).lookup w.id).isSome then
      if id?.isNone then none else some ⟨w.locks T, .error .uniqueViolation⟩
    else
      some ⟨w.locks T, (allow T t w.id (row c.now)).map (fun _ => ((w.id, row c.now), [w]))⟩
  | update t id set =>
    match (T t).lookup id with
    | none => some ⟨[], .ok (none, [])⟩
    | some old =>
      let w : Write S := ⟨t, id, some (set c.now old)⟩
      some ⟨w.locks T, (allow T t id (set c.now old)).map (fun _ => (some (set c.now old), [w]))⟩
  | delete t id =>
    match (T t).lookup id with
    | none => some ⟨[], .ok ((0 : Nat), [])⟩
    | some _ =>
      match deletion T t id with
      | none => some ⟨[.row t id], .error .foreignKeyViolation⟩
      | some ws => some ⟨ws.flatMap (·.locks T), .ok ((1 : Nat), ws)⟩
  | malformed e => some ⟨[], .error e⟩

structure Tx (S : Schema) where
  writes : List (Write S)
  aborted : Bool

structure Commit (S : Schema) where
  thread : Nat
  writes : List (Write S)

/-- `log` lists the committed write sets in the order of the commits. -/
structure Store (S : Schema) where
  tables : Tables S
  tx : Nat → Option (Tx S)
  owner : Resource S → Option Nat
  log : List (Commit S)

namespace Store

def view (s : Store S) (i : Nat) : Tables S :=
  match s.tx i with
  | some x => s.tables.replay x.writes
  | none => s.tables

def released (s : Store S) (i : Nat) : Resource S → Option Nat :=
  fun l => if s.owner l = some i then none else s.owner l

def start (s : Store S) (i : Nat) : Store S :=
  { s with tx := Function.update s.tx i (some ⟨[], false⟩) }

/-- After an error the transaction has lost its writes and its locks, and it
refuses every statement until it is ended. -/
def abort (s : Store S) (i : Nat) : Store S :=
  match s.tx i with
  | some _ => { s with tx := Function.update s.tx i (some ⟨[], true⟩), owner := s.released i }
  | none => s

def close (s : Store S) (i : Nat) : Store S :=
  { s with tx := Function.update s.tx i none, owner := s.released i }

def publish (s : Store S) (i : Nat) (ws : List (Write S)) : Store S :=
  { s with tables := s.tables.replay ws, log := s.log ++ [⟨i, ws⟩] }

def free (s : Store S) (i : Nat) (l : Resource S) : Bool :=
  s.owner l = none || s.owner l = some i

/-- Outside a transaction a statement is a transaction of its own and keeps no lock. -/
def perform (s : Store S) (i : Nat) (locks : List (Resource S)) (ws : List (Write S)) : Store S :=
  match s.tx i with
  | some x =>
    { s with
      tx := Function.update s.tx i (some { x with writes := x.writes ++ ws })
      owner := fun l => if l ∈ locks then some i else s.owner l }
  | none => if ws.isEmpty then s else s.publish i ws

def isAborted (s : Store S) (i : Nat) : Bool := (s.tx i).any (·.aborted)

def exec (s : Store S) (i : Nat) (c : Choice S) :
    (o : Op S) → Option (Except SqlError o.Ans × Store S)
  | .startTransaction => if c.fault then some (.error .failed, s) else some (.ok (), s.start i)
  | .commitTransaction =>
    match s.tx i with
    | none => some (.ok (), s)
    | some x =>
      if c.fault then some (.error .failed, s.close i)
      else if x.aborted then some (.ok (), s.close i)
      else some (.ok (), (s.publish i x.writes).close i)
  | .rollbackTransaction =>
    if c.fault then some (.error .failed, s.close i) else some (.ok (), s.close i)
  | .stmt q =>
    if c.fault then some (.error .failed, s.abort i)
    else if s.isAborted i then some (.error .inFailedTransaction, s)
    else
      match q.plan (s.view i) c with
      | none => none
      | some p =>
        if p.locks.all (s.free i) then
          match p.result with
          | .error e => some (.error e, s.abort i)
          | .ok (a, ws) => some (.ok a, s.perform i p.locks ws)
        else none

end Store

end Sql
