import Ecomm.Deliveries

/-! What callers, workers and the broker keep together, for threads that keep to
a protocol: the steps of the broker, and the start and loss of a worker. -/

namespace Ecomm

open Concurrent Sql

namespace AppState

@[simp] theorem crash_store (s : AppState) (i : Nat) : (s.crash i).store = s.store.close i := by
  unfold crash
  dsimp only
  split <;> rfl

@[simp] theorem crash_published (s : AppState) (i : Nat) : (s.crash i).published = s.published := by
  unfold crash
  dsimp only
  split <;> rfl

/-- A message of a queue was there before the loss of a worker, or it is the
message of its delivery. -/
theorem mem_crash_queue {s : AppState} {i : Nat} {q : String} {body : Content}
    (h : body ∈ (s.crash i).queue q) : body ∈ s.queue q ∨ s.unacked i = some body := by
  unfold crash at h
  dsimp only at h
  split at h
  · exact .inl h
  · next b hb =>
    by_cases hq : q = processQueue
    · subst hq
      have hmem : body ∈ s.queue processQueue ∨ body = b := by simpa [enqueue] using h
      rw [hb]
      exact hmem.imp_right (fun he => congrArg some he.symm)
    · exact .inl (by simpa [enqueue, hq] using h)

theorem crash_unacked_of_some {s : AppState} {i j : Nat} {body : Content}
    (h : (s.crash i).unacked j = some body) : s.unacked j = some body := by
  unfold crash at h
  dsimp only at h
  split at h
  · exact h
  · by_cases hj : j = i
    · subst hj
      simp at h
    · simpa [Function.update_of_ne hj] using h

end AppState

section Crew

variable {G : Type}

/-- What a system of workers needs of a protocol and of its invariant. A thread
is `idle` before its delivery and ends with `Q`, also when it is lost, and `A`
are the messages that may arrive from outside. -/
structure Crew (P : Protocol AppOp AppOp.Ans Thrown G) (I : AppState → (Nat → G) → Prop)
    (Q idle : G → Prop) (A : Content → Prop) (config : WorkerConfig)
    (describe : Thrown → String) : Prop where
  sound : P.Sound app Always I
  arrive : ∀ {s γ body}, A body → I s γ → I (s.enqueue AppState.processQueue body) γ
  deliver : ∀ {s γ i k body}, I s γ → idle (γ i) →
    (s.queue AppState.processQueue)[k]? = some body →
    ∃ g, I (s.deliver i k body) (Function.update γ i g) ∧
      (onMessage config describe processOrderMessage body).wp P (fun _ => Q) (fun _ => Q) g
  crash : ∀ {s γ i}, I s γ → ∃ g, Q g ∧ I (s.crash i) (Function.update γ i g)
  expire : ∀ {s γ k body}, I s γ → (s.queue AppState.retryQueue)[k]? = some body →
    I ((s.takeFrom AppState.retryQueue k).enqueue AppState.processQueue body) γ

/-- Every thread keeps to the protocol, and those that do not run are idle. -/
structure Manned (P : Protocol AppOp AppOp.Ans Thrown G) (I : AppState → (Nat → G) → Prop)
    (Q idle : G → Prop) (c : Config app Unit) (γ : Nat → G) : Prop where
  follows : Follows P I (fun _ _ => Q) (fun _ _ => Q) c γ
  idle : ∀ i, c.thread i = none → idle (γ i)

variable {P : Protocol AppOp AppOp.Ans Thrown G} {I : AppState → (Nat → G) → Prop}
  {Q idle : G → Prop} {A : Content → Prop} {config : WorkerConfig} {describe : Thrown → String}
  {c c' : Config app Unit} {γ : Nat → G}

/-- Thread `i` goes on as `p`, and the others are where they were. -/
theorem Manned.replace (h : Manned P I Q idle c γ) {s' : AppState} {i : Nat} {p : App Unit} {g : G}
    (hinv : I s' (Function.update γ i g)) (hp : p.wp P (fun _ => Q) (fun _ => Q) g) :
    Manned P I Q idle ⟨s', Function.update c.thread i (some p)⟩ (Function.update γ i g) := by
  refine ⟨⟨hinv, ?_⟩, ?_⟩
  · intro j q hq
    by_cases hj : j = i
    · subst hj
      simp only [Function.update_self, Option.some.injEq] at hq ⊢
      exact hq ▸ hp
    · simp only [Function.update_of_ne hj] at hq ⊢
      exact h.follows.thread j q hq
  · intro j hj
    by_cases hji : j = i
    · subst hji
      simp at hj
    · simp only [Function.update_of_ne hji] at hj ⊢
      exact h.idle j hj

theorem Manned.step (hC : Crew P I Q idle A config describe) (h : Manned P I Q idle c γ) {i : Nat}
    {ch : AppChoice} (hs : c.step i ch = some c') : ∃ γ', Manned P I Q idle c' γ' := by
  obtain ⟨o, k, r, s', ht, he, rfl⟩ := Config.step_cases hs
  have hwp := h.follows.thread i _ ht
  obtain ⟨g, hn, hinv⟩ := hC.sound.exec h.follows.inv trivial hwp.1 he
  exact ⟨_, h.replace hinv (hwp.2 r g hn)⟩

theorem Manned.broker (hC : Crew P I Q idle A config describe) (h : Manned P I Q idle c γ)
    {e : BrokerEvent} (he : ∀ body, e = .arrive body → A body)
    (hs : brokerStep config describe c e = some c') : ∃ γ', Manned P I Q idle c' γ' := by
  have hinv := h.follows.inv
  cases e with
  | arrive body =>
    obtain rfl := Option.some.inj hs
    exact ⟨γ, ⟨hC.arrive (he body rfl) hinv, h.follows.thread⟩, h.idle⟩
  | deliver i k =>
    simp only [brokerStep] at hs
    split at hs
    · next body hi hk =>
      obtain rfl := Option.some.inj hs
      obtain ⟨g, hg, hp⟩ := hC.deliver hinv (h.idle i hi) hk
      exact ⟨_, h.replace hg hp⟩
    · cases hs
  | step i choice => exact h.step hC hs
  | crash i =>
    simp only [brokerStep] at hs
    split at hs
    · obtain rfl := Option.some.inj hs
      obtain ⟨g, hQ, hg⟩ := hC.crash hinv
      exact ⟨_, h.replace hg hQ⟩
    · cases hs
  | expire k =>
    simp only [brokerStep] at hs
    split at hs
    · next body hk =>
      obtain rfl := Option.some.inj hs
      exact ⟨γ, ⟨hC.expire hinv hk, h.follows.thread⟩, h.idle⟩
    · cases hs

/-- The rule for a run of the whole system. -/
theorem Manned.run (hC : Crew P I Q idle A config describe) (h : Manned P I Q idle c γ)
    {es : List BrokerEvent} (hes : ∀ body, .arrive body ∈ es → A body)
    (hr : brokerRun config describe c es = some c') : ∃ γ', Manned P I Q idle c' γ' := by
  induction es generalizing c γ with
  | nil =>
    obtain rfl := Option.some.inj hr
    exact ⟨γ, h⟩
  | cons e es ih =>
    obtain ⟨d, hd, hrest⟩ := Option.bind_eq_some_iff.mp hr
    obtain ⟨γ', hγ'⟩ := h.broker hC (fun body he => hes body (he ▸ List.mem_cons_self)) hd
    exact ih hγ' (fun body hb => hes body (List.mem_cons_of_mem _ hb)) hrest

/-- A thread that does not run is idle, or has ended with `Q`. -/
theorem Manned.ended (h : Manned P I Q idle c γ) {i : Nat}
    (hi : ∀ o k, c.thread i ≠ some (.op o k)) : idle (γ i) ∨ Q (γ i) := by
  cases hthread : c.thread i with
  | none => exact .inl (h.idle i hthread)
  | some p =>
    have hwp := h.follows.thread i p hthread
    cases p with
    | ret a => exact .inr hwp
    | raise e => exact .inr hwp
    | op o k => exact absurd hthread (hi o k)

end Crew

namespace Rules

variable {X : Type}

/-- What a system of workers needs of the rules and of the invariant `J`. A
thread is `idle` before its delivery and after its loss, and `A` are the messages
that may arrive from outside. -/
structure Serves (R : Rules X) (J : AppState → (Nat → Session schema × X) → Prop)
    (idle : X) (start : Content → X) (A : Content → Prop) (config : WorkerConfig)
    (describe : Thrown → String) : Prop where
  sound : R.protocol.Sound app Always (Inv J)
  worker : ∀ body, (onMessage config describe processOrderMessage body).wp R.protocol
    (fun _ _ => True) (fun _ _ => True) (.closed, start body)
  arrive : ∀ {s γ body}, A body → J s γ → J (s.enqueue AppState.processQueue body) γ
  deliver : ∀ {s γ i k body}, J s γ → γ i = (.closed, idle) →
    (s.queue AppState.processQueue)[k]? = some body →
    J (s.deliver i k body) (Function.update γ i (.closed, start body))
  crash : ∀ {s γ i}, J s γ → J (s.crash i) (Function.update γ i (.closed, idle))
  expire : ∀ {s γ k body}, J s γ → (s.queue AppState.retryQueue)[k]? = some body →
    J ((s.takeFrom AppState.retryQueue k).enqueue AppState.processQueue body) γ

/-- Every thread keeps to the rules, and those that do not run are idle. -/
structure Staffed (R : Rules X) (J : AppState → (Nat → Session schema × X) → Prop) (idle : X)
    (c : Config app Unit) (γ : Nat → Session schema × X) : Prop where
  follows : Follows R.protocol (Inv J) (fun _ _ _ => True) (fun _ _ _ => True) c γ
  idle : ∀ i, c.thread i = none → γ i = (.closed, idle)

section

variable {R : Rules X} {J : AppState → (Nat → Session schema × X) → Prop} {idle : X}
  {start : Content → X} {A : Content → Prop} {config : WorkerConfig} {describe : Thrown → String}
  {c c' : Config app Unit} {γ : Nat → Session schema × X}

theorem Inv.withStore {s s' : AppState} (h : Inv J s γ) (hstore : s'.store = s.store)
    (hJ : J s' γ) : Inv J s' γ := by
  refine ⟨?_, ?_, hJ⟩
  · rw [hstore]
    exact h.coherent
  · intro j
    rw [hstore]
    exact h.session j

theorem Serves.crew (hS : Serves R J idle start A config describe) :
    Crew R.protocol (Inv J) (fun _ => True) (fun g => g = (.closed, idle)) A config describe where
  sound := hS.sound
  arrive hA h := h.withStore rfl (hS.arrive hA h.rest)
  deliver {s γ i k body} h hidle hk := by
    refine ⟨(.closed, start body), ⟨h.coherent, ?_, hS.deliver h.rest hidle hk⟩, hS.worker body⟩
    intro j
    by_cases hj : j = i
    · subst hj
      have hsession := h.session j
      rw [hidle] at hsession
      rw [Function.update_self]
      exact hsession
    · rw [Function.update_of_ne hj]
      exact h.session j
  crash {s γ i} h := by
    refine ⟨(.closed, idle), trivial, ?_, ?_, hS.crash h.rest⟩
    · rw [AppState.crash_store]
      exact h.coherent.close i
    · intro j
      rw [AppState.crash_store]
      by_cases hj : j = i
      · subst hj
        rw [Function.update_self]
        exact .close _ _
      · rw [Function.update_of_ne hj]
        -- to the others it looks like a rollback
        have hrollback : s.store.exec i ⟨true, 0, 0⟩ .rollbackTransaction =
          some (.error .failed, s.store.close i) := rfl
        exact (h.session j).frame (h.coherent.frame hj hrollback)
  expire h hk := h.withStore rfl (hS.expire h.rest hk)

theorem Staffed.run (hS : Serves R J idle start A config describe) (h : Staffed R J idle c γ)
    {es : List BrokerEvent} (hes : ∀ body, .arrive body ∈ es → A body)
    (hr : brokerRun config describe c es = some c') : ∃ γ', Staffed R J idle c' γ' := by
  obtain ⟨γ', hγ'⟩ := Manned.run hS.crew ⟨h.follows, h.idle⟩ hes hr
  exact ⟨γ', hγ'.follows, hγ'.idle⟩

end

end Rules

end Ecomm
