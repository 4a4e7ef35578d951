import Ecomm.Accounts

/-! What a token says goes back to the sign-up of the account, and to the edits
aimed at it. -/

namespace Ecomm

open Concurrent Sql UsersService AuthService

section Calls

variable {T : Database} {kit : Kit} {calls : List ApiCall} {g : Desk} {i : Nat} {α : Type}

theorem Desk.Learns.grows {g g' : Desk} {o : AppOp} {r : Except Thrown o.Ans}
    (h : g.Learns T calls o r g') : g'.index = g.index ∧ ∀ e ∈ g.known, e ∈ g'.known := by
  unfold Desk.Learns at h
  split at h
  · subst h
    exact ⟨rfl, fun e he => he⟩
  · split at h
    · subst h
      exact ⟨rfl, fun e he => he⟩
    · obtain ⟨rfl, _⟩ := h
      exact ⟨rfl, fun e he => List.mem_append_left _ he⟩
  · obtain ⟨rfl, _⟩ := h
    exact ⟨rfl, fun e he => he⟩
  · subst h
    exact ⟨rfl, fun e he => he⟩

/-- Operations that call `i` may await once it has read `known`. -/
def Routine (T : Database) (kit : Kit) (calls : List ApiCall) (i : Nat)
    (known : List (Uuid × User)) (o : AppOp) : Prop :=
  ∀ g : Desk, g.index = i → (∀ e ∈ known, e ∈ g.known) → g.Allowed T kit calls o

theorem desks_awaits {p : App α} (known : List (Uuid × User))
    (hp : p.Awaits (Routine T kit calls i known)) (hi : g.index = i)
    (hknown : ∀ e ∈ known, e ∈ g.known) :
    p.wp (desks T kit calls) (fun _ _ => True) (fun _ _ => True) g := by
  have hkept := hp.wp (P := desks T kit calls)
    (I := fun g => g.index = i ∧ ∀ e ∈ known, e ∈ g.known) ?_ ⟨hi, hknown⟩
  · exact Prog.wp_mono hkept (fun _ _ _ => trivial) (fun _ _ _ => trivial)
  · rintro g o ⟨hg, hk⟩ ho
    refine ⟨ho g hg hk, ?_⟩
    intro r g' hn
    obtain ⟨hindex, hmore⟩ := Desk.Learns.grows hn
    exact ⟨hindex.trans hg, fun e he => hmore e (hk e he)⟩

theorem wp_findUser {cond : Uuid → User → Bool} {Q : Option (Uuid × User) → Desk → Prop}
    {E : Thrown → Desk → Prop} (hg : g.isOpen = false)
    (hok : ∀ users, Listed T calls cond g.known users →
      Q users.head? { g with known := g.known ++ users })
    (herr : ∀ error, E (.sql error) g) : (findOne .users cond).wp (desks T kit calls) Q E g := by
  refine (Prog.wp_bind _ _ _ _ _).mpr ((Prog.wp_await _ _ _ _).mpr ⟨trivial, ?_, ?_⟩)
  · intro rows g' hn
    have hn : g.Learns T calls (.sql (.stmt (.select .users cond))) (.ok rows) g' := hn
    simp only [Desk.Learns] at hn
    rw [if_neg (by simp [hg])] at hn
    obtain ⟨rfl, hlisted⟩ := hn
    exact hok rows hlisted
  · rintro e g' ⟨rfl, error, rfl⟩
    exact herr error

theorem wp_signUp {call : CreateUser} (hcall : calls[i]? = some (.signUp call)) :
    (ApiCall.program kit i (.signUp call)).wp (desks T kit calls) (fun _ _ => True)
      (fun _ _ => True) ⟨i, false, []⟩ := by
  refine desks_awaits [] ?_ rfl (fun _ he => he)
  refine Prog.Awaits.bind ?_ (fun _ => trivial)
  refine (awaits_findOne (fun _ _ _ => trivial)).bind ?_
  intro existingUser
  cases existingUser with
  | some user => trivial
  | none =>
    refine awaits_transaction (fun _ _ _ => trivial) (fun _ _ _ => trivial)
      (fun _ _ _ => trivial) (Prog.awaits_await ?_)
    rintro g rfl _ now
    exact ⟨call, now, hcall, rfl⟩

theorem routine_job (job : OrderJob) : job.program.Awaits (Routine T kit calls i []) := by
  have hinsert : ∀ t id row, t = .orders ∨ t = .processedMessages →
      Routine T kit calls i [] (.sql (.stmt (.insert t id row))) := by
    rintro t id row (rfl | rfl) _ _ _ <;> trivial
  cases job with
  | process message =>
    refine Prog.Awaits.bind ?_ (fun _ => trivial)
    apply awaits_processOrderMessage _ _ _ _ _ hinsert
    all_goals intros; exact fun _ _ _ => trivial
  | update id updates =>
    refine Prog.Awaits.bind ?_ (fun _ => trivial)
    apply awaits_updateOrder _ _ _ _ _ hinsert
    all_goals intros; exact fun _ _ _ => trivial

theorem wp_serve (operation : Operation) :
    (ApiCall.program kit i (.serve operation)).wp (desks T kit calls) (fun _ _ => True)
      (fun _ _ => True) ⟨i, false, []⟩ := by
  refine desks_awaits [] ?_ rfl (fun _ he => he)
  refine Prog.Awaits.bind ?_ (fun _ => trivial)
  cases operation with
  | create call =>
    refine Prog.Awaits.bind ?_ (fun _ => trivial)
    apply awaits_create
    all_goals intros; exact fun _ _ _ => trivial
  | order job => exact (routine_job job).bind (fun _ => trivial)

/-- The row that was found is there when `save` reads it again, so `save` updates it. -/
theorem wp_saveUser {path : String} {updates : UpdateUser} {id : Uuid} {user : User}
    (hcall : calls[i]? = some (.updateUser path updates)) (haimed : Aimed calls i updates id)
    (hi : g.index = i) (hg : g.isOpen = false) (hknown : (id, user) ∈ g.known) :
    (saveUser kit.arraysByValue id updates (updates.merge user)).wp (desks T kit calls)
      (fun _ _ => True) (fun _ _ => True) g := by
  refine (Prog.wp_bind _ _ _ _ _).mpr (wp_findUser hg ?_ (fun _ => trivial))
  intro users husers
  obtain ⟨r, hr⟩ := husers.stays (id, user) hknown
  cases hfound : users.head? with
  | none =>
    rw [List.head?_eq_none_iff.mp hfound] at hr
    cases hr (decide_eq_true rfl)
  | some e =>
    refine desks_awaits [(id, user)] ?_ hi ?_
    · dsimp only
      split
      · trivial
      · refine awaits_transaction (fun _ _ _ => trivial) (fun _ _ _ => trivial)
          (fun _ _ _ => trivial) ?_
        refine Prog.Awaits.bind (Prog.awaits_await ?_) (fun _ => trivial)
        intro g hi hknown
        have hmem := hknown _ (List.mem_singleton_self _)
        refine ⟨⟨_, hmem, rfl⟩, ?_, ?_⟩
        · rintro r ⟨call, now, hother, _⟩
          rw [hi, hcall] at hother
          cases hother
        · intro L hL now r hr
          exact Sourced.set _ haimed (hL _ hmem) hr now
    · intro e he
      obtain rfl := List.mem_singleton.mp he
      exact List.mem_append_left _ hknown

theorem wp_updateUser {path : String} {updates : UpdateUser}
    (hcall : calls[i]? = some (.updateUser path updates)) :
    (ApiCall.program kit i (.updateUser path updates)).wp (desks T kit calls) (fun _ _ => True)
      (fun _ _ => True) ⟨i, false, []⟩ := by
  refine (Prog.wp_bind _ _ _ _ _).mpr (Prog.wp_mono (Q := fun _ _ => True) ?_ (fun _ _ h => h)
    (fun _ _ h => h))
  refine (Prog.wp_bind _ _ _ _ _).mpr ?_
  cases htarget : updates.target path with
  | none =>
    have hreject : findOneById .users (updates.id.getD path) = reject .invalidText := by
      simp only [findOneById]
      rw [show uuidIn (updates.id.getD path) = none from htarget]
    rw [hreject]
    refine (Prog.wp_bind _ _ _ _ _).mpr ((Prog.wp_await _ _ _ _).mpr ⟨trivial, ?_, ?_⟩)
    · exact fun a => nomatch (show Empty from a)
    · exact fun _ _ _ => trivial
  | some id =>
    have hfind : findOneById .users (updates.id.getD path) =
        findOne .users (fun j _ => j = id) := by
      simp only [findOneById]
      rw [show uuidIn (updates.id.getD path) = some id from htarget]
    rw [hfind]
    refine wp_findUser rfl ?_ (fun _ => trivial)
    intro users husers
    cases hfound : users.head? with
    | none => trivial
    | some e =>
      obtain ⟨userId, user⟩ := e
      have hmem := List.mem_of_mem_head? hfound
      obtain rfl : userId = id := by simpa using husers.meets _ hmem
      refine (Prog.wp_bind _ _ _ _ _).mpr (Prog.wp_mono (Q := fun _ _ => True)
        (E := fun _ _ => True) ?_ (fun _ _ _ => trivial) (fun _ _ h => h))
      exact wp_saveUser hcall ⟨path, hcall, htarget⟩ rfl rfl hmem

/-- Login `i` has answered `a` for a user that it has read. -/
def Desk.Vouches (kit : Kit) (email password : String) (a : Option String) (g : Desk) : Prop :=
  ∃ e ∈ g.known, ∃ accessToken, a = some accessToken ∧
    kit.sign g.index (payloadOf e.1 e.2) = .ok accessToken ∧ e.2.email = email ∧
    Unlocks kit password e.2

/-- Edits are aimed at the users of `T` with the email that the password unlocks. -/
def Touched (T : Database) (kit : Kit) (calls : List ApiCall) (email password : String) : Prop :=
  ∀ id r₀, (T .users).lookup id = some r₀ → r₀.email = email → Unlocks kit password r₀ →
    ∃ j updates, Aimed calls j updates id

/-- A login reads the users once, and what it answers is about the row with the
email among them. -/
theorem wp_login (email password : String) :
    (ApiCall.program kit i (.login email password)).wp (desks T kit calls)
      (fun a g => g.Vouches kit email password a)
      (fun e _ => ∀ message, e = .unauthorized message → Touched T kit calls email password)
      ⟨i, false, []⟩ := by
  refine (Prog.wp_bind _ _ _ _ _).mpr ((Prog.wp_bind _ _ _ _ _).mpr (wp_findUser rfl ?_ ?_))
  swap
  · intro error message he
    cases he
  intro users husers
  have hopen : ∀ id r₀, (T .users).lookup id = some r₀ → r₀.email = email →
      Unlocks kit password r₀ → (∀ j updates, ¬ Aimed calls j updates id) →
      ∃ e, users.head? = some e ∧ Unlocks kit password e.2 := by
    intro id r₀ hr₀ hemail hunlocks hnone
    obtain ⟨r, hsame, hhash, hr⟩ := husers.initial id r₀ hr₀ hnone
    have hmem : (id, r) ∈ users := hr (decide_eq_true (hsame.trans hemail))
    cases hfound : users.head? with
    | none =>
      rw [List.head?_eq_none_iff.mp hfound] at hmem
      cases hmem
    | some e =>
      have he := List.mem_of_mem_head? hfound
      have hemail' : e.2.email = email := by simpa using husers.meets e he
      obtain rfl := husers.apart e he _ hmem (hemail'.trans (hsame.trans hemail).symm)
      refine ⟨_, rfl, ?_⟩
      unfold Unlocks
      rwa [hhash]
  have hrefused : (∀ e, users.head? = some e → ¬ Unlocks kit password e.2) →
      Touched T kit calls email password := by
    intro hlocked id r₀ hr₀ hemail hunlocks
    by_contra hnone
    push Not at hnone
    obtain ⟨e, he, hunlocked⟩ := hopen id r₀ hr₀ hemail hunlocks hnone
    exact hlocked e he hunlocked
  cases hfound : users.head? with
  | none =>
    intro message _
    apply hrefused
    intro e he
    cases hfound.symm.trans he
  | some e =>
    obtain ⟨id, user⟩ := e
    have hmem := List.mem_of_mem_head? hfound
    have hemail : user.email = email := by simpa using husers.meets _ hmem
    dsimp only
    cases hhash : truthy user.passwordHash with
    | none =>
      intro message _
      apply hrefused
      rintro e he ⟨passwordHash, hsome, _⟩
      obtain rfl := Option.some.inj (hfound.symm.trans he)
      cases hhash.symm.trans hsome
    | some passwordHash =>
      dsimp only
      by_cases hcompare : kit.compare password passwordHash = true
      · rw [if_neg (not_not_intro hcompare)]
        cases hsign : kit.sign i (payloadOf id user) with
        | error message =>
          intro message' he
          cases he
        | ok accessToken =>
          exact ⟨(id, user), hmem, accessToken, rfl, hsign, hemail, passwordHash, hhash, hcompare⟩
      · rw [if_pos hcompare]
        intro message _
        apply hrefused
        rintro e he ⟨passwordHash', hsome, hunlocks⟩
        obtain rfl := Option.some.inj (hfound.symm.trans he)
        obtain rfl := Option.some.inj (hhash.symm.trans hsome)
        exact hcompare hunlocks

end Calls

/-- Whatever calls are mixed with it, a token is for a row that was committed,
with the email and a password of the login, and the email, the hash, the roles and
the scopes of that row are each of the account before the run, or of its one sign-up,
or of an edit aimed at it; and the password of an account that was there and that no
edit is aimed at is not refused. Edits of the dates and of the avatar are not covered. -/
theorem login_vouched {kit : Kit} {s : AppState} (hs : s.Quiet) {calls : List ApiCall}
    {es : List (Nat × AppChoice)} {c : Config app (Option String)}
    (hrun : (answering kit s calls).run es = some c) :
    (∀ i email password, calls[i]? = some (.login email password) →
      (∀ a, c.thread i = some (.ret a) → ∃ id user accessToken, a = some accessToken ∧
        kit.sign i (payloadOf id user) = .ok accessToken ∧ user.email = email ∧
        Unlocks kit password user ∧
        c.shared.store.Ever s.store.tables (Table.users : schema.Table) id user ∧
        Sourced s.store.tables kit calls c.shared.store.log id user) ∧
      ∀ message, c.thread i = some (.raise (.unauthorized message)) →
        Touched s.store.tables kit calls email password) ∧
    ∀ i j id, (userOrigins s.store.tables kit calls).Added c.shared.store.log i id →
      (userOrigins s.store.tables kit calls).Added c.shared.store.log j id →
      i = j ∧ (s.store.tables .users).lookup id = none := by
  have hstart : Desks s.store.tables kit calls s (fun i => ⟨i, false, []⟩) := by
    refine ⟨hs.coherent, ?_, fun _ _ _ hr => .inl hr, ?_, fun _ => rfl, fun i _ => hs.tx i, ?_⟩
    · intro i x hx
      rw [hs.tx i] at hx
      cases hx
    · refine ⟨fun id r hr => .initial hr, ?_, fun _ h => h, ?_, ?_⟩
      · intro i x hx
        rw [hs.tx i] at hx
        cases hx
      · rintro i id ⟨e, he, _⟩
        rw [hs.log] at he
        cases he
      · rintro i j id ⟨e, he, _⟩
        rw [hs.log] at he
        cases he
    · intro i e he
      cases he
  have hfollows : Follows (desks s.store.tables kit calls) (Desks s.store.tables kit calls)
      (fun i a g => ∀ email password, calls[i]? = some (.login email password) →
        g.Vouches kit email password a)
      (fun i e _ => ∀ email password, calls[i]? = some (.login email password) →
        ∀ message, e = .unauthorized message → Touched s.store.tables kit calls email password)
      (answering kit s calls) (fun i => ⟨i, false, []⟩) := by
    refine ⟨hstart, ?_⟩
    intro i p hp
    obtain ⟨call, hcall, rfl⟩ := Option.map_eq_some_iff.mp hp
    have hother : (∀ email password, call ≠ .login email password) →
        ∀ email password, calls[i]? ≠ some (.login email password) := by
      intro hne email password hlogin
      exact hne email password (Option.some.inj (hcall.symm.trans hlogin))
    cases call with
    | signUp call =>
      have hne := hother (by simp)
      exact Prog.wp_mono (wp_signUp hcall) (fun _ _ _ email password h => absurd h (hne _ _))
        (fun _ _ _ email password h => absurd h (hne _ _))
    | updateUser path updates =>
      have hne := hother (by simp)
      exact Prog.wp_mono (wp_updateUser hcall) (fun _ _ _ email password h => absurd h (hne _ _))
        (fun _ _ _ email password h => absurd h (hne _ _))
    | serve operation =>
      have hne := hother (by simp)
      exact Prog.wp_mono (wp_serve operation) (fun _ _ _ email password h => absurd h (hne _ _))
        (fun _ _ _ email password h => absurd h (hne _ _))
    | login email password =>
      refine Prog.wp_mono (wp_login email password) ?_ ?_
      · intro a g ha email' password' hlogin
        obtain ⟨rfl, rfl⟩ := ApiCall.login.inj (Option.some.inj (hcall.symm.trans hlogin))
        exact ha
      · intro e g he email' password' hlogin
        obtain ⟨rfl, rfl⟩ := ApiCall.login.inj (Option.some.inj (hcall.symm.trans hlogin))
        exact he
  obtain ⟨γ, hend, _⟩ := (desks_sound s.store.tables kit calls).run hfollows
    (Config.meets_always _ _) hrun
  refine ⟨?_, ?_⟩
  · intro i email password hlogin
    refine ⟨?_, ?_⟩
    · intro a ha
      obtain ⟨e, he, accessToken, haccess, hsign, hemail, hunlocks⟩ :=
        hend.thread i _ ha email password hlogin
      obtain ⟨hever, _, hsourced⟩ := hend.inv.known i e he
      rw [hend.inv.index i] at hsign
      exact ⟨e.1, e.2, accessToken, haccess, hsign, hemail, hunlocks, hever, hsourced⟩
    · intro message hraise
      exact hend.thread i _ hraise email password hlogin message rfl
  · intro i j id hi hj
    exact ⟨hend.inv.traced.once i j id hi hj, (hend.inv.traced.added i id hi).2⟩

def plainKit : Kit where
  hash _ password := "#" ++ password
  compare password passwordHash := passwordHash == "#" ++ password
  sign _ user := .ok (String.join (user.sub :: user.roles))
  arraysByValue := false

/-- Eve signs up, Ann is made an admin, and Eve logs in twice. -/
def eveCalls : List ApiCall :=
  [.signUp ⟨"eve@example.com", some "pen", none, none⟩,
    .updateUser (uuidOut 1) ⟨none, none, none, some ["admin"], none⟩,
    .login "eve@example.com" "pen", .login "eve@example.com" "ink"]

def eveRun : List (Nat × AppChoice) :=
  [(0, tick 10), (1, tick 0), (1, tick 0), (0, tick 10), (1, tick 0), (0, tick 10), (1, tick 0),
    (0, tick 10), (1, tick 0), (2, tick 0), (3, tick 0)]

def answerOf (c : Config app (Option String)) (i : Nat) : Option (Option String ⊕ Thrown) :=
  match c.thread i with
  | some (.ret a) => some (.inl a)
  | some (.raise e) => some (.inr e)
  | _ => none

theorem answerOf_ret {c : Config app (Option String)} {i : Nat} {a : Option String}
    (h : answerOf c i = some (.inl a)) : c.thread i = some (.ret a) := by
  unfold answerOf at h
  split at h
  · next ht =>
    obtain rfl := Sum.inl.inj (Option.some.inj h)
    exact ht
  · cases h
  · cases h

theorem login_vouched_eve :
    ∃ c, (answering plainKit (serving (penShop 1)) eveCalls).run eveRun = some c ∧
      answerOf c 3 = some (.inr (.unauthorized "Invalid credentials")) ∧
      c.thread 2 = some (.ret (some (uuidOut 10))) ∧
      ∃ id user, plainKit.sign 2 (payloadOf id user) = .ok (uuidOut 10) ∧
        user.email = "eve@example.com" ∧ Unlocks plainKit "pen" user ∧
        Sourced (penShop 1) plainKit eveCalls c.shared.store.log id user := by
  have hrun : ((answering plainKit (serving (penShop 1)) eveCalls).run eveRun).map
      (fun c => (answerOf c 2, answerOf c 3)) =
        some (some (.inl (some (uuidOut 10))),
          some (.inr (.unauthorized "Invalid credentials"))) := by decide +kernel
  obtain ⟨c, hc, hanswers⟩ := Option.map_eq_some_iff.mp hrun
  have hret := answerOf_ret (Prod.mk.inj hanswers).1
  obtain ⟨hvouched, _⟩ := login_vouched (serving_quiet (penShop_distinct 1)) hc
  obtain ⟨id, user, accessToken, htoken, hsign, hemail, hunlocks, _, hsourced⟩ :=
    (hvouched 2 "eve@example.com" "pen" rfl).1 _ hret
  obtain rfl := Option.some.inj htoken
  exact ⟨c, hc, (Prod.mk.inj hanswers).2, hret, id, user, hsign, hemail, hunlocks, hsourced⟩

end Ecomm
