import Mathlib.Logic.Function.Basic

/-! Requests with idempotency keys. The first request of a kind with a key is
performed, and its answer is replayed to every later one. -/

namespace Idempotent

variable {Kind Key Op Ans σ : Type} [DecidableEq Kind] [DecidableEq Key]

structure Request (Kind Key Op : Type) where
  kind : Kind
  key : Option Key
  op : Op

structure Server (Kind Key Ans σ : Type) where
  core : σ
  replies : Kind → Key → Option Ans

namespace Server

def remember (s : Server Kind Key Ans σ) (kind : Kind) (k : Key) (a : Ans) :
    Server Kind Key Ans σ :=
  { s with replies := Function.update s.replies kind (Function.update (s.replies kind) k (some a)) }

theorem remember_self (s : Server Kind Key Ans σ) (kind : Kind) (k : Key) (a : Ans) :
    (s.remember kind k a).replies kind k = some a := by
  simp [remember]

theorem remember_other (s : Server Kind Key Ans σ) {kind kind' : Kind} {k k' : Key} (a : Ans)
    (h : ¬ (kind' = kind ∧ k' = k)) :
    (s.remember kind k a).replies kind' k' = s.replies kind' k' := by
  by_cases hkind : kind' = kind
  · subst hkind
    have hk : k' ≠ k := fun he => h ⟨rfl, he⟩
    simp [remember, hk]
  · simp [remember, hkind]

def serve (perform : Op → σ → Ans × σ) (s : Server Kind Key Ans σ) (r : Request Kind Key Op) :
    Ans × Server Kind Key Ans σ :=
  match r.key with
  | none => ((perform r.op s.core).1, { s with core := (perform r.op s.core).2 })
  | some k =>
    match s.replies r.kind k with
    | some a => (a, s)
    | none =>
      ((perform r.op s.core).1,
        { s with core := (perform r.op s.core).2 }.remember r.kind k (perform r.op s.core).1)

def record (s : Server Kind Key Ans σ) (kind : Kind) (key : Option Key) (a : Ans) :
    Server Kind Key Ans σ :=
  key.elim s (fun k => s.remember kind k a)

theorem serve_cached {perform : Op → σ → Ans × σ} {s : Server Kind Key Ans σ}
    {r : Request Kind Key Op} {a : Ans} (h : r.key.bind (s.replies r.kind) = some a) :
    s.serve perform r = (a, s) := by
  obtain ⟨k, hk, ha⟩ := Option.bind_eq_some_iff.mp h
  simp [serve, hk, ha]

theorem serve_performed {perform : Op → σ → Ans × σ} {s : Server Kind Key Ans σ}
    {r : Request Kind Key Op} (h : r.key.bind (s.replies r.kind) = none) :
    s.serve perform r = ((perform r.op s.core).1,
      { s with core := (perform r.op s.core).2 }.record r.kind r.key (perform r.op s.core).1) := by
  cases hk : r.key with
  | none => simp [serve, hk, record]
  | some k =>
    have hnone : s.replies r.kind k = none := by simpa [hk] using h
    simp [serve, hk, hnone, record]

def serveAll (perform : Op → σ → Ans × σ) :
    Server Kind Key Ans σ → List (Request Kind Key Op) →
      List (Request Kind Key Op × Ans) × Server Kind Key Ans σ
  | s, [] => ([], s)
  | s, r :: rs =>
    ((r, (s.serve perform r).1) :: (serveAll perform (s.serve perform r).2 rs).1,
      (serveAll perform (s.serve perform r).2 rs).2)

end Server

def repeats (seen : List (Request Kind Key Op)) (r : Request Kind Key Op) : Bool :=
  r.key.isSome && seen.any (fun r' => r'.kind = r.kind && r'.key = r.key)

def firstUses {β : Type} (f : β → Request Kind Key Op) : List (Request Kind Key Op) → List β → List β
  | _, [] => []
  | seen, b :: bs =>
    if repeats seen (f b) then firstUses f seen bs else b :: firstUses f (f b :: seen) bs

theorem repeats_cons {seen : List (Request Kind Key Op)} {r r' : Request Kind Key Op} {k : Key}
    (hk : r.key = some k) :
    repeats (r' :: seen) r = true ↔ (r'.kind = r.kind ∧ r'.key = some k) ∨ repeats seen r = true := by
  simp [repeats, hk]

variable {perform : Op → σ → Ans × σ}

/-- The server holds replies for the keys that have been used, and for no others. -/
def Known (s : Server Kind Key Ans σ) (seen : List (Request Kind Key Op)) : Prop :=
  ∀ r : Request Kind Key Op, ∀ k, r.key = some k →
    ((s.replies r.kind k).isSome = true ↔ repeats seen r = true)

theorem Known.repeated {s : Server Kind Key Ans σ} {seen : List (Request Kind Key Op)}
    (h : Known s seen) {r : Request Kind Key Op} (hr : repeats seen r = true) :
    (s.serve perform r).2 = s := by
  cases hk : r.key with
  | none => simp [repeats, hk] at hr
  | some k =>
    obtain ⟨a, ha⟩ := Option.isSome_iff_exists.mp ((h r k hk).mpr hr)
    simp [Server.serve, hk, ha]

/-- A request that does not repeat a key is performed. -/
theorem Known.unanswered {s : Server Kind Key Ans σ} {seen : List (Request Kind Key Op)}
    (h : Known s seen) {r : Request Kind Key Op} (hr : repeats seen r = false) :
    r.key.bind (s.replies r.kind) = none := by
  cases hk : r.key with
  | none => rfl
  | some k =>
    cases hrep : s.replies r.kind k with
    | none => exact hrep
    | some a =>
      have hseen := (h r k hk).mp (by simp [hrep])
      rw [hr] at hseen
      cases hseen

theorem Known.fresh {s : Server Kind Key Ans σ} {seen : List (Request Kind Key Op)}
    (h : Known s seen) {r : Request Kind Key Op} (hr : repeats seen r = false) :
    Known (s.serve perform r).2 (r :: seen) := by
  intro r' k' hk'
  rw [repeats_cons hk']
  cases hk : r.key with
  | none => simp [Server.serve, hk, h r' k' hk']
  | some k =>
    have hnone : s.replies r.kind k = none := by simpa [hk] using h.unanswered hr
    simp only [Server.serve, hk, hnone, Option.some.injEq]
    by_cases hat : r'.kind = r.kind ∧ k' = k
    · obtain ⟨hkind, rfl⟩ := hat
      simp [hkind, Server.remember_self]
    · rw [Server.remember_other _ _ hat, h r' k' hk']
      have hne : ¬ (r.kind = r'.kind ∧ k = k') := fun he => hat ⟨he.1.symm, he.2.symm⟩
      simp [hne]

theorem repeats_iff {seen : List (Request Kind Key Op)} {r : Request Kind Key Op} :
    repeats seen r = true ↔
      r.key ≠ none ∧ ∃ r' ∈ seen, r'.kind = r.kind ∧ r'.key = r.key := by
  simp [repeats, Option.isSome_iff_ne_none]

theorem Known.congr {s : Server Kind Key Ans σ} {seen seen' : List (Request Kind Key Op)}
    (h : Known s seen) (hseen : ∀ r : Request Kind Key Op, repeats seen r = repeats seen' r) :
    Known s seen' := by
  intro r k hk
  rw [h r k hk, hseen]

theorem Known.serve {s : Server Kind Key Ans σ} {seen : List (Request Kind Key Op)}
    (h : Known s seen) (r : Request Kind Key Op) : Known (s.serve perform r).2 (r :: seen) := by
  cases hr : repeats seen r with
  | false => exact h.fresh hr
  | true =>
    rw [h.repeated hr]
    refine h.congr ?_
    intro r'
    obtain ⟨_, r₀, hr₀, hkind₀, hkey₀⟩ := repeats_iff.mp hr
    rw [Bool.eq_iff_iff, repeats_iff, repeats_iff]
    refine and_congr_right (fun _ => ⟨?_, ?_⟩)
    · exact fun ⟨r'', hr'', hsame⟩ => ⟨r'', List.mem_cons_of_mem _ hr'', hsame⟩
    · rintro ⟨r'', hr'', hkind, hkey⟩
      rcases List.mem_cons.mp hr'' with rfl | hr''
      · exact ⟨r₀, hr₀, hkind₀.trans hkind, hkey₀.trans hkey⟩
      · exact ⟨r'', hr'', hkind, hkey⟩

/-- Whatever has been served, the server holds replies for just those keys. -/
theorem Known.serveAll {s : Server Kind Key Ans σ} {seen : List (Request Kind Key Op)}
    (h : Known s seen) (rs : List (Request Kind Key Op)) :
    Known (s.serveAll perform rs).2 (rs.reverse ++ seen) := by
  induction rs generalizing s seen with
  | nil => exact h
  | cons r rs ih =>
    rw [List.reverse_cons, List.append_assoc]
    exact ih (h.serve r)

/-- Requests that repeat a key change nothing and leave the other answers as
they are. -/
theorem serveAll_firstUses {s : Server Kind Key Ans σ} {seen : List (Request Kind Key Op)}
    (h : Known s seen) (rs : List (Request Kind Key Op)) :
    s.serveAll perform (firstUses id seen rs) =
      (firstUses Prod.fst seen (s.serveAll perform rs).1, (s.serveAll perform rs).2) := by
  induction rs generalizing s seen with
  | nil => rfl
  | cons r rs ih =>
    cases hr : repeats seen r with
    | true =>
      simp only [firstUses, Server.serveAll, id, hr, if_true]
      rw [h.repeated hr]
      exact ih h
    | false =>
      simp only [firstUses, Server.serveAll, id, hr, Bool.false_eq_true, if_false]
      rw [ih (h.fresh hr)]

theorem serve_replies {s : Server Kind Key Ans σ} {r : Request Kind Key Op} {kind : Kind} {k : Key}
    {a : Ans} (h : s.replies kind k = some a) :
    (s.serve perform r).2.replies kind k = some a := by
  cases hk : r.key with
  | none => simpa [Server.serve, hk] using h
  | some k' =>
    cases hrep : s.replies r.kind k' with
    | some b => simpa [Server.serve, hk, hrep] using h
    | none =>
      have hne : ¬ (kind = r.kind ∧ k = k') := by
        rintro ⟨rfl, rfl⟩
        rw [h] at hrep
        cases hrep
      simp only [Server.serve, hk, hrep]
      rw [Server.remember_other _ _ hne]
      exact h

theorem serveAll_replies {s : Server Kind Key Ans σ} (rs : List (Request Kind Key Op))
    {kind : Kind} {k : Key} {a : Ans} (h : s.replies kind k = some a) :
    (s.serveAll perform rs).2.replies kind k = some a := by
  induction rs generalizing s with
  | nil => exact h
  | cons r rs ih => exact ih (serve_replies h)

theorem serve_recorded {s : Server Kind Key Ans σ} {r : Request Kind Key Op} {k : Key}
    (hk : r.key = some k) :
    (s.serve perform r).2.replies r.kind k = some (s.serve perform r).1 := by
  cases hrep : s.replies r.kind k with
  | some b => simp [Server.serve, hk, hrep]
  | none =>
    simp only [Server.serve, hk, hrep]
    exact Server.remember_self _ _ _ _

/-- Every answer to a request with a key is the reply that the server holds in
the end. -/
theorem answer_recorded {s : Server Kind Key Ans σ} {rs : List (Request Kind Key Op)}
    {e : Request Kind Key Op × Ans} (he : e ∈ (s.serveAll perform rs).1) {k : Key}
    (hk : e.1.key = some k) :
    (s.serveAll perform rs).2.replies e.1.kind k = some e.2 := by
  induction rs generalizing s with
  | nil => cases he
  | cons r rs ih =>
    rcases List.mem_cons.mp he with rfl | he
    · exact serveAll_replies rs (serve_recorded hk)
    · exact ih he

/-- Requests of one kind with one key get one answer. -/
theorem same_answer {s : Server Kind Key Ans σ} {rs : List (Request Kind Key Op)}
    {e e' : Request Kind Key Op × Ans} (he : e ∈ (s.serveAll perform rs).1)
    (he' : e' ∈ (s.serveAll perform rs).1) (hkind : e.1.kind = e'.1.kind) {k : Key}
    (hk : e.1.key = some k) (hk' : e'.1.key = some k) : e.2 = e'.2 := by
  have h := answer_recorded he hk
  rw [hkind, answer_recorded he' hk'] at h
  exact (Option.some.inj h).symm

theorem firstUses_map {β γ : Type} (f : γ → Request Kind Key Op) (g : β → γ)
    (seen : List (Request Kind Key Op)) (bs : List β) :
    firstUses f seen (bs.map g) = (firstUses (fun b => f (g b)) seen bs).map g := by
  induction bs generalizing seen with
  | nil => rfl
  | cons b bs ih =>
    simp only [List.map_cons, firstUses]
    split
    · exact ih seen
    · simp only [List.map_cons, ih]

/-- The first request of the same kind with the same key, or the request
itself. -/
def original (before : List (Request Kind Key Op)) (r : Request Kind Key Op) :
    Request Kind Key Op :=
  (before.find? (fun r' => r.key.isSome && (r'.kind = r.kind && r'.key = r.key))).getD r

/-! A property of performed requests holds of replayed ones for the request that
was performed. -/

section Vouched

variable {Inv : σ → Prop} {P : σ → Op → Ans → Prop}

/-- Each reply has the property for the first request with its key. -/
def Vouched (P : σ → Op → Ans → Prop) (s : Server Kind Key Ans σ)
    (before : List (Request Kind Key Op)) : Prop :=
  ∀ r : Request Kind Key Op, ∀ k, r.key = some k →
    match before.find? (fun r' => r.key.isSome && (r'.kind = r.kind && r'.key = r.key)) with
    | none => s.replies r.kind k = none
    | some r₀ => ∃ a, s.replies r.kind k = some a ∧ P s.core r₀.op a

theorem Vouched.nil {s : Server Kind Key Ans σ} (h : ∀ kind k, s.replies kind k = none) :
    Vouched P s [] := fun r k _ => h r.kind k

variable (hinv : ∀ op c, Inv c → Inv (perform op c).2)
  (hnew : ∀ op c, Inv c → P (perform op c).2 op (perform op c).1)
  (hold : ∀ op op' a c, Inv c → P c op' a → P (perform op c).2 op' a)

theorem serve_core (s : Server Kind Key Ans σ) (r : Request Kind Key Op) :
    (s.serve perform r).2.core = s.core ∨
      (s.serve perform r).2.core = (perform r.op s.core).2 := by
  cases hr : r.key.bind (s.replies r.kind) with
  | some a => exact .inl (by rw [Server.serve_cached hr])
  | none =>
    refine .inr ?_
    rw [Server.serve_performed hr]
    cases r.key <;> rfl

include hinv in
theorem serve_inv {s : Server Kind Key Ans σ} (h : Inv s.core) (r : Request Kind Key Op) :
    Inv (s.serve perform r).2.core := by
  rcases serve_core s r with he | he <;> rw [he]
  · exact h
  · exact hinv _ _ h

include hold in
theorem serve_stable {s : Server Kind Key Ans σ} (h : Inv s.core) (r : Request Kind Key Op)
    {op : Op} {a : Ans} (hP : P s.core op a) : P (s.serve perform r).2.core op a := by
  rcases serve_core s r with he | he <;> rw [he]
  · exact hP
  · exact hold _ _ _ _ h hP

include hnew in
theorem Vouched.answer {s : Server Kind Key Ans σ} {before : List (Request Kind Key Op)}
    (hv : Vouched P s before) (h : Inv s.core) (r : Request Kind Key Op) :
    P (s.serve perform r).2.core (original before r).op (s.serve perform r).1 := by
  cases hk : r.key with
  | none =>
    have hself : original before r = r := by
      have hmiss : before.find? (fun _ => false) = none := List.find?_eq_none.mpr (by simp)
      simp [original, hk, hmiss]
    rw [hself, Server.serve_performed (by simp [hk])]
    simpa [Server.record, hk] using hnew r.op s.core h
  | some k =>
    have hrep := hv r k hk
    unfold original
    split at hrep
    · next hf =>
      rw [hf, Option.getD_none, Server.serve_performed (by simp [hk, hrep])]
      simpa [Server.record, hk, Server.remember] using hnew r.op s.core h
    · next r₀ hf =>
      obtain ⟨a, ha, hP⟩ := hrep
      rw [hf, Option.getD_some, Server.serve_cached (a := a) (by simp [hk, ha])]
      exact hP

include hnew hold in
theorem Vouched.serve {s : Server Kind Key Ans σ} {before : List (Request Kind Key Op)}
    (hv : Vouched P s before) (h : Inv s.core) (r : Request Kind Key Op) :
    Vouched P (s.serve perform r).2 (before ++ [r]) := by
  intro r' k hk
  have hrep := hv r' k hk
  rw [List.find?_append]
  split at hrep
  · next hf =>
    rw [hf, Option.none_or]
    by_cases hsame : r.kind = r'.kind ∧ r.key = some k
    · obtain ⟨hkind, hkey⟩ := hsame
      have hnone : r.key.bind (s.replies r.kind) = none := by simp [hkey, hkind, hrep]
      simp only [List.find?_cons, hk, hkind, hkey, Option.isSome_some, decide_true, Bool.and_self]
      refine ⟨_, hkind ▸ serve_recorded hkey, ?_⟩
      rw [Server.serve_performed hnone]
      simpa [Server.record, hkey, Server.remember] using hnew r.op s.core h
    · have hmiss : (r.kind = r'.kind && r.key = r'.key) = false := by
        simpa [hk] using hsame
      simp only [List.find?_cons, hmiss, Bool.and_false, List.find?_nil]
      cases hr : r.key.bind (s.replies r.kind) with
      | some a => rwa [Server.serve_cached hr]
      | none =>
        rw [Server.serve_performed hr]
        cases hkey : r.key with
        | none => simpa [Server.record] using hrep
        | some k₁ =>
          rw [Server.record, Option.elim_some, Server.remember_other]
          · exact hrep
          · rintro ⟨hkind, rfl⟩
            exact hsame ⟨hkind.symm, hkey⟩
  · next r₀ hf =>
    obtain ⟨a, ha, hP⟩ := hrep
    rw [hf, Option.some_or]
    exact ⟨a, serve_replies ha, serve_stable hold h r hP⟩

include hinv hnew hold in
theorem serveAll_vouched {s : Server Kind Key Ans σ} {before : List (Request Kind Key Op)}
    (hv : Vouched P s before) (h : Inv s.core) (rs : List (Request Kind Key Op)) :
    Vouched P (s.serveAll perform rs).2 (before ++ rs) ∧ Inv (s.serveAll perform rs).2.core := by
  induction rs generalizing s before with
  | nil => simpa [Server.serveAll] using ⟨hv, h⟩
  | cons r rs ih =>
    have := ih (hv.serve hnew hold h r) (serve_inv hinv h r)
    simpa [Server.serveAll] using this

end Vouched

end Idempotent
