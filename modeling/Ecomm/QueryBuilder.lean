import Ecomm.App
import Ecomm.Lib.Context
import Ecomm.Lib.Paging

/-! `SelectQueryBuilder` of TypeORM, for queries on one entity whose rows do not
change. The server may resolve ties of ORDER BY anew in each query. -/

namespace Ecomm

open Concurrent Paging

class Entity (Row : Type) where
  id : Row → Uuid
  createdAt : Row → Nat

/-- A query ordered by `createdAt`, the newest first. `joined` says whether a
relation is joined and selected. -/
structure SelectQueryBuilder (Row : Type) where
  joined : Bool
  conditions : List (Row → Bool)
  toTake : Option Int
  toSkip : Option Int

/-- The fields of the input; what is given may be `null`. -/
structure OrdersPaginationInput where
  limit : Option (Option Int)
  offset : Option (Option Int)

/-- A count that is zero is no count. -/
def given (n : Option Int) : Option Int := n.filter (fun n => decide (n ≠ 0))

namespace SelectQueryBuilder

variable {Row : Type}

def andWhere (qb : SelectQueryBuilder Row) (condition : Row → Bool) : SelectQueryBuilder Row :=
  { qb with conditions := qb.conditions ++ [condition] }

def take (qb : SelectQueryBuilder Row) (n : Option Int) : SelectQueryBuilder Row :=
  { qb with toTake := n }

def skip (qb : SelectQueryBuilder Row) (n : Option Int) : SelectQueryBuilder Row :=
  { qb with toSkip := n }

/-- `take` and `skip` with what is not `undefined`. -/
def paginate (qb : SelectQueryBuilder Row) (pagination : Option OrdersPaginationInput) :
    SelectQueryBuilder Row :=
  let qb := (pagination.bind (·.limit)).elim qb qb.take
  (pagination.bind (·.offset)).elim qb qb.skip

def selected (qb : SelectQueryBuilder Row) (rows : List Row) : List Row :=
  rows.filter (fun row => qb.conditions.all (fun condition => condition row))

def window (qb : SelectQueryBuilder Row) (order : List Row) : List Row :=
  let rest := order.drop ((given qb.toSkip).getD 0).toNat
  match given qb.toTake with
  | none => rest
  | some n => rest.take n.toNat

theorem given_nonzero {n : Int} (h : n ≠ 0) : given (some n) = some n := by
  rw [given, Option.filter_some_pos]
  exact decide_eq_true h

theorem toNat_given (offset : Nat) : ((given (some (offset : Int))).getD 0).toNat = offset := by
  by_cases hzero : (offset : Int) = 0
  · obtain rfl := Int.natCast_eq_zero.mp hzero
    rfl
  · rw [given_nonzero hzero]
    rfl

theorem window_page {qb : SelectQueryBuilder Row} {n offset : Nat} (hn : 1 ≤ n)
    (htake : qb.toTake = some (n : Int)) (hskip : qb.toSkip = some (offset : Int))
    (order : List Row) : qb.window order = page n offset order := by
  have hgiven := given_nonzero (n := n) (by omega)
  simp only [window, htake, hskip, hgiven, toNat_given, Int.toNat_natCast, page]

/-- With a joined relation a page is first selected as a page of distinct ids. -/
def pagesIds (qb : SelectQueryBuilder Row) : Bool :=
  qb.joined && ((given qb.toTake).isSome || (given qb.toSkip).isSome)

theorem window_unpaged {qb : SelectQueryBuilder Row} (hjoined : qb.joined = true)
    (h : ¬ qb.pagesIds = true) (order : List Row) : qb.window order = order := by
  simp only [pagesIds, hjoined, Bool.true_and, Bool.or_eq_true, not_or, Bool.not_eq_true,
    Option.isSome_eq_false_iff, Option.isNone_iff_eq_none] at h
  obtain ⟨htake, hskip⟩ := h
  simp only [window, htake, hskip]
  rfl

variable [Entity Row]

/-- The newest first, and by the id where `createdAt` is the same. -/
def byIds (rows : List Row) : List Row :=
  rows.insertionSort (fun a b => Entity.createdAt b < Entity.createdAt a ∨
    Entity.createdAt b = Entity.createdAt a ∧ Entity.id a ≤ Entity.id b)

theorem byIds_perm (rows : List Row) : (byIds rows).Perm rows := List.perm_insertionSort _ rows

theorem descending_byIds (rows : List Row) : Descending Entity.createdAt (byIds rows) := by
  have : Std.Total (fun a b : Row => Entity.createdAt b < Entity.createdAt a ∨
      Entity.createdAt b = Entity.createdAt a ∧ Entity.id a ≤ Entity.id b) := by
    refine ⟨fun a b => ?_⟩
    rcases lt_trichotomy (Entity.createdAt b) (Entity.createdAt a) with hlt | heq | hgt
    · exact .inl (.inl hlt)
    · rcases BitVec.le_total (Entity.id a) (Entity.id b) with hid | hid
      · exact .inl (.inr ⟨heq, hid⟩)
      · exact .inr (.inr ⟨heq.symm, hid⟩)
    · exact .inr (.inl hgt)
  have : IsTrans Row (fun a b => Entity.createdAt b < Entity.createdAt a ∨
      Entity.createdAt b = Entity.createdAt a ∧ Entity.id a ≤ Entity.id b) := by
    refine ⟨fun a b c hab hbc => ?_⟩
    rcases hab with hab | ⟨hab, hid⟩ <;> rcases hbc with hbc | ⟨hbc, hid'⟩
    · exact .inl (hbc.trans hab)
    · exact .inl (hbc ▸ hab)
    · exact .inl (hab ▸ hbc)
    · exact .inr ⟨hbc.trans hab, BitVec.le_trans hid hid'⟩
  refine List.Pairwise.imp ?_ (List.pairwise_insertionSort _ rows)
  intro a b hab
  rcases hab with hlt | ⟨heq, _⟩
  · exact hlt.le
  · exact heq.le

/-- The rows of the last query, which the server sorts. -/
def sorted (qb : SelectQueryBuilder Row) (rows : List Row) : List Row :=
  if qb.pagesIds then qb.window (byIds (qb.selected rows)) else qb.selected rows

def Sorts (qb : SelectQueryBuilder Row) (rows order : List Row) : Prop :=
  order.Perm (qb.sorted rows) ∧ Descending Entity.createdAt order

instance [DecidableEq Row] (qb : SelectQueryBuilder Row) (rows order : List Row) :
    Decidable (qb.Sorts rows order) := inferInstanceAs (Decidable (_ ∧ _))

def result (qb : SelectQueryBuilder Row) (order : List Row) : List Row :=
  if qb.pagesIds then order else qb.window order

end SelectQueryBuilder

inductive QueryOp (Row : Type) where
  | getMany (qb : SelectQueryBuilder Row)
  | getCount (qb : SelectQueryBuilder Row)

@[reducible] def QueryOp.Ans {Row : Type} : QueryOp Row → Type
  | getMany _ => List Row
  | getCount _ => Nat

/-- What the server brings to a query: an order of the rows, or an error. -/
structure QueryChoice (Row : Type) where
  order : List Row
  fault : Option Thrown

abbrev Queries (Row : Type) := Prog (QueryOp Row) QueryOp.Ans Thrown

variable {Row : Type}

def queried (o : QueryOp Row) : Queries Row o.Ans := Prog.await o

section Server

variable [Entity Row] [DecidableEq Row]

/-- LIMIT and OFFSET must not be negative. -/
def runQuery (rows : List Row) (_ : Nat) (c : QueryChoice Row) :
    (o : QueryOp Row) → Option (Except Thrown o.Ans × List Row)
  | .getMany qb =>
    match c.fault with
    | some e => some (.error e, rows)
    | none =>
      if qb.toTake.any (· < 0) || qb.toSkip.any (· < 0) then some (.error (.sql .failed), rows)
      else if qb.Sorts rows c.order then some (.ok (qb.result c.order), rows)
      else none
  | .getCount qb =>
    match c.fault with
    | some e => some (.error e, rows)
    | none => some (.ok (qb.selected rows).length, rows)

/-- A server on which the queried rows do not change. -/
abbrev querying (Row : Type) [Entity Row] [DecidableEq Row] :
    Machine (QueryOp Row) QueryOp.Ans Thrown where
  State := List Row
  Choice := QueryChoice Row
  exec := runQuery

def Answers (rows : List Row) : QueryOp Row → QueryChoice Row → Prop
  | .getMany qb, c => c.fault = none ∧ qb.Sorts rows c.order
  | .getCount _, c => c.fault = none

omit [DecidableEq Row] in
theorem exists_answer (rows : List Row) (o : QueryOp Row) : ∃ c, Answers rows o c := by
  cases o with
  | getCount qb => exact ⟨⟨[], none⟩, rfl⟩
  | getMany qb =>
    exact ⟨⟨descend Entity.createdAt (qb.sorted rows), none⟩, rfl, descend_perm _ _,
      descending_descend _ _⟩

variable {rows : List Row} {i : Nat} {E : Thrown → List Row → Prop}

theorem wp_getCount {qb : SelectQueryBuilder Row} {Q : Nat → List Row → Prop}
    (hQ : Q (qb.selected rows).length rows) :
    (queried (.getCount qb)).wp (Prog.unblocked (querying Row) Answers i) Q E rows := by
  apply Prog.wp_unblocked
  intro c hc
  have hfault : c.fault = none := hc
  refine ⟨.ok (qb.selected rows).length, rows, ?_, hQ⟩
  simp only [runQuery, hfault]

theorem wp_getMany {qb : SelectQueryBuilder Row} (htake : ∀ n ∈ qb.toTake, 0 ≤ n)
    (hskip : ∀ n ∈ qb.toSkip, 0 ≤ n) {Q : List Row → List Row → Prop} :
    (queried (.getMany qb)).wp (Prog.unblocked (querying Row) Answers i) Q E rows ↔
      ∀ order, qb.Sorts rows order → Q (qb.result order) rows := by
  have hsigns : (qb.toTake.any (· < 0) || qb.toSkip.any (· < 0)) = false := by
    simp only [Bool.or_eq_false_iff, Option.any_eq_false, decide_eq_false_iff_not,
      not_lt]
    exact ⟨htake, hskip⟩
  have hexec : ∀ order, qb.Sorts rows order →
      (querying Row).exec rows i ⟨order, none⟩ (.getMany qb) = some (.ok (qb.result order), rows) := by
    intro order horder
    simp only [runQuery, hsigns, Bool.false_eq_true, if_false, horder, if_true]
  constructor
  · intro h order horder
    exact ((Prog.wp_await _ _ _ _).mp h).2.1 _ _ ⟨_, ⟨rfl, horder⟩, hexec order horder⟩
  · intro h
    apply Prog.wp_unblocked
    intro c hc
    obtain ⟨hfault, horder⟩ := hc
    obtain ⟨order, fault⟩ := c
    obtain rfl : fault = none := hfault
    exact ⟨.ok (qb.result order), rows, hexec order horder, h order horder⟩

end Server

end Ecomm
