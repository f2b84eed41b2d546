import Sentinel.Identity.Agreement

/-! Callbacks that overlap.

A browser with several tabs can have several requests under way, and an answer may overtake
another, or never arrive. Here a callback is sent, served and answered in steps of its own.
It sends the cookies of the moment it is sent, and these go when the answer to an accepted
callback arrives: the service remembers no states. So one state can be accepted twice, if
Microsoft redeems a code each time, but only of callbacks that overlap: neither was sent
after the answer to the other had arrived (`agreement_overlapping`). -/
namespace Sentinel.Identity.SignIn.Overlap
open Library CookieJar Transition

/-- A callback a browser sent. -/
structure Call where
  browser : Nat
  time : Nat
  request : CallbackRequest
  /-- The login the browser had pending, and the accepted callbacks whose answers had arrived. -/
  login : Option Attempt
  earlier : List Nat

inductive Progress where
  | sent
  | rejected
  | accepted (x : Acceptance)

/-- An answer on its way. -/
inductive Answer where
  | login (state verifier : String) (tenant : Option Uuid)
  | callback (n : Nat) (x : Acceptance)
  | logout

def Answer.headers (d : Deployment) : Answer → List (SetCookie String String)
  | .login state verifier tenant => loginHeaders state verifier tenant
  | .callback _ x => callbackHeaders d x.token
  | .logout => logoutHeaders d

structure State where
  now : Nat
  jars : Nat → Jar String String
  grants : List Grant
  store : Store
  calls : List Call
  progress : Nat → Progress
  /-- The answers on their way, each with its browser. -/
  answers : List (Nat × Answer)
  /-- The states drawn, each with the browser it was drawn for. -/
  drawn : List (String × Nat)
  /-- The login a browser last had the answer of, if it has had none of an accepted callback
  since. It is for the properties alone, as are the accepted callbacks whose answers have
  arrived. -/
  pending : Nat → Option Attempt
  answered : List Nat

def initial (now : Nat) : State :=
  ⟨now, fun _ => CookieJar.empty, [], .empty, [], fun _ => .sent, [], [], fun _ => none, []⟩

inductive Action where
  | wait (duration : Nat)
  | consent (g : Grant)
  | login (browser : Nat) (secrets : Secrets) (tenant : Option Uuid)
  /-- A browser follows a callback URL. -/
  | send (browser : Nat) (code state : String)
  /-- The service takes the callback, exchanges its code and runs its transaction. -/
  | serve (n : Nat) (host : Host)
  | logout (browser : Nat)
  /-- An answer arrives. -/
  | receive (i : Nat)
  | other (a : Identity.Action)

/-- What the browser knows of an answer that arrives. -/
def State.note (s : State) (browser : Nat) : Answer → State
  | .login state verifier tenant =>
    {s with pending := Function.update s.pending browser (some ⟨s.now, state, verifier, tenant⟩)}
  | .callback n _ => {s with pending := Function.update s.pending browser none, answered := n :: s.answered}
  | .logout => s

def State.receive (d : Deployment) (s : State) (i browser : Nat) (answer : Answer) : State :=
  State.note {s with
    jars := Function.update s.jars browser ((s.jars browser).receive s.now (answer.headers d))
    answers := s.answers.eraseIdx i} browser answer

/-- The secrets of a login are new. -/
def step (d : Deployment) (a : Action) (s : State) : Option State :=
  match a with
  | .wait duration => some {s with now := s.now + duration}
  | .consent g => some {s with grants := g :: s.grants}
  | .login browser secrets tenant =>
    if tokenUrlsafe secrets.state ∈ s.drawn.map Prod.fst then none
    else match login d secrets tenant with
      | .error _ => some s
      | .ok _ => some {s with
          answers := s.answers ++
            [(browser, .login (tokenUrlsafe secrets.state) (tokenUrlsafe secrets.verifier) tenant)]
          drawn := s.drawn ++ [(tokenUrlsafe secrets.state, browser)]}
  | .send browser code state => some {s with
      calls := s.calls ++
        [⟨browser, s.now, callbackRequest (s.jars browser) s.now code state, s.pending browser, s.answered⟩]}
  | .serve n host => s.calls[n]?.bind fun c =>
    match s.progress n with
    | .sent =>
      match signIn (d.world s.now s.grants) host c.request s.store with
      | (.error _, store) => some {s with
          store := store
          progress := Function.update s.progress n .rejected}
      | (.ok (principal, identity, token), store) =>
        let x : Acceptance := ⟨c.time, c.request.code, c.request.state, principal, identity, token⟩
        some {s with
          store := store
          progress := Function.update s.progress n (.accepted x)
          answers := s.answers ++ [(c.browser, .callback n x)]}
    | _ => none
  | .logout browser => some {s with answers := s.answers ++ [(browser, .logout)]}
  | .receive i => s.answers[i]?.map fun e => s.receive d i e.1 e.2
  | .other a => (Identity.step a s.store).map fun store => {s with store := store}

/-! ### What is on its way -/

/-- The login has begun in no browser. -/
def Unused (s : State) (state : String) : Prop :=
  (∀ b, ∀ a ∈ s.pending b, a.state ≠ state) ∧ ∀ c ∈ s.calls, ∀ a ∈ c.login, a.state ≠ state

/-- The state an answer brings. -/
def Answer.state? : Answer → Option String
  | .login state _ _ => some state
  | _ => none

/-- The answer is to a request of its browser. -/
def Coming (s : State) (e : Nat × Answer) : Prop :=
  match e.2 with
  | .login state _ _ => (state, e.1) ∈ s.drawn ∧ Unused s state
  | .callback n _ => ∃ c, s.calls[n]? = some c ∧ c.browser = e.1
  | .logout => True

/-- The callback sent the cookies of a login of its browser, one it had no answer to a callback
for. -/
structure Sent (d : Deployment) (calls : List Call) (drawn : List (String × Nat)) (c : Call) : Prop where
  cookies : ∃ jar x, Holds d jar c.login x ∧
    c.request = callbackRequest jar c.time c.request.code c.request.state
  login : ∀ a ∈ c.login, (a.state, c.browser) ∈ drawn
  earlier : ∀ n ∈ c.earlier, ∃ c₀, calls[n]? = some c₀ ∧ ∀ a₀ ∈ c₀.login, ∀ a ∈ c.login, a.state ≠ a₀.state

/-- The acceptance is of the callback. -/
structure Call.Accepts (c : Call) (x : Acceptance) : Prop where
  time : x.time = c.time
  code : x.code = c.request.code
  state : x.state = c.request.state

structure Inv (d : Deployment) (s : State) : Prop where
  held : ∀ b, ∃ x, Holds d (s.jars b) (s.pending b) x
  drawn : Table.Unique Prod.fst s.drawn
  pending : ∀ b, ∀ a ∈ s.pending b, (a.state, b) ∈ s.drawn
  sent : ∀ c ∈ s.calls, Sent d s.calls s.drawn c
  coming : ∀ e ∈ s.answers, Coming s e
  comingOnce : (s.answers.filterMap fun e => e.2.state?).Nodup
  /-- The login of what was answered is pending nowhere. -/
  answered : ∀ n ∈ s.answered, ∃ c, s.calls[n]? = some c ∧ ∀ a ∈ c.login, ∀ b, ∀ a' ∈ s.pending b, a'.state ≠ a.state
  accepted : ∀ n x, s.progress n = .accepted x →
    ∃ c, s.calls[n]? = some c ∧ c.Accepts x ∧ ∃ a ∈ c.login, Answers d s.grants x a

section Inv
variable {d : Deployment} {s s' : State} {b : Nat}

theorem inv_initial (d : Deployment) (now : Nat) : Inv d (initial now) where
  held := fun _ => ⟨none, rfl, rfl, rfl, rfl⟩
  drawn := Table.unique_nil
  pending := by simp [initial]
  sent := by simp [initial]
  coming := by simp [initial]
  comingOnce := by simp [initial]
  answered := by simp [initial]
  accepted := by simp [initial]

theorem Sent.mono {calls calls' : List Call} {drawn drawn' : List (String × Nat)} {c : Call}
    (h : Sent d calls drawn c) (hdrawn : drawn ⊆ drawn')
    (hcalls : ∀ (n : Nat) c, calls[n]? = some c → calls'[n]? = some c) : Sent d calls' drawn' c where
  cookies := h.cookies
  login := fun a ha => hdrawn (h.login a ha)
  earlier := by
    intro n hn
    obtain ⟨c₀, hc₀, hne⟩ := h.earlier n hn
    exact ⟨c₀, hcalls n c₀ hc₀, hne⟩

theorem Coming.mono {e : Nat × Answer} (h : Coming s e) (hdrawn : s.drawn ⊆ s'.drawn)
    (hcalls : ∀ (n : Nat) c, s.calls[n]? = some c → s'.calls[n]? = some c)
    (hunused : ∀ state, e.2.state? = some state → Unused s state → Unused s' state) : Coming s' e := by
  obtain ⟨b, answer⟩ := e
  cases answer with
  | login state verifier tenant => exact ⟨hdrawn h.1, hunused state rfl h.2⟩
  | callback n x =>
    obtain ⟨c, hc, hbrowser⟩ := h
    exact ⟨c, hcalls n c hc, hbrowser⟩
  | logout => trivial

/-- A state that is coming was drawn. -/
theorem Inv.drawn_of_coming (h : Inv d s) {state : String} (hstate : state ∈ s.answers.filterMap fun e => e.2.state?) :
    state ∈ s.drawn.map Prod.fst := by
  obtain ⟨⟨b, answer⟩, he, hstate⟩ := List.mem_filterMap.mp hstate
  cases answer with
  | login state' verifier tenant =>
    obtain rfl : state' = state := Option.some.inj hstate
    exact List.mem_map.mpr ⟨_, (h.coming _ he).1, rfl⟩
  | callback n x => cases hstate
  | logout => cases hstate

/-- A state was drawn for one browser. -/
theorem Inv.owner (h : Inv d s) {state : String} {c : Nat} (hb : (state, b) ∈ s.drawn) (hc : (state, c) ∈ s.drawn) :
    b = c :=
  congrArg Prod.snd (h.drawn.eq hb hc rfl)

/-- The clock, the tables and what was consented to are not in it. -/
theorem Inv.elsewhere (h : Inv d s) (now : Nat) (store : Store) {grants : List Grant} (hgrants : s.grants ⊆ grants) :
    Inv d {s with now := now, store := store, grants := grants} where
  held := h.held
  drawn := h.drawn
  pending := h.pending
  sent := h.sent
  coming := h.coming
  comingOnce := h.comingOnce
  answered := h.answered
  accepted := by
    intro n x hx
    obtain ⟨c, hc, haccepts, a, ha, hanswers⟩ := h.accepted n x hx
    exact ⟨c, hc, haccepts, a, ha, hanswers.mono hgrants⟩

/-- An answer that brings no state is on its way. -/
theorem Inv.answer (h : Inv d s) {e : Nat × Answer} (hcoming : Coming s e) (hstate : e.2.state? = none) :
    Inv d {s with answers := s.answers ++ [e]} where
  held := h.held
  drawn := h.drawn
  pending := h.pending
  sent := h.sent
  coming := by
    intro e' he'
    rcases List.mem_append.mp he' with he' | he'
    · exact h.coming e' he'
    · obtain rfl := List.mem_singleton.mp he'
      exact hcoming
  comingOnce := by simpa [List.filterMap_append, hstate] using h.comingOnce
  answered := h.answered
  accepted := h.accepted

theorem Inv.login (h : Inv d s) (b : Nat) {state verifier : String} (tenant : Option Uuid)
    (hnew : state ∉ s.drawn.map Prod.fst) :
    Inv d {s with
      answers := s.answers ++ [(b, .login state verifier tenant)]
      drawn := s.drawn ++ [(state, b)]} := by
  have hfresh : ∀ a : Attempt, ∀ b', (a.state, b') ∈ s.drawn → a.state ≠ state := by
    rintro a b' hmem rfl
    exact hnew (List.mem_map.mpr ⟨_, hmem, rfl⟩)
  refine ⟨h.held, Table.unique_snoc.mpr ⟨hnew, h.drawn⟩, fun c a ha => List.mem_append_left _ (h.pending c a ha), ?_,
    ?_, ?_, h.answered, h.accepted⟩
  · exact fun c hc => (h.sent c hc).mono (List.subset_append_left _ _) fun _ _ hc => hc
  · intro e he
    rcases List.mem_append.mp he with he | he
    · exact (h.coming e he).mono (List.subset_append_left _ _) (fun _ _ hc => hc) fun _ _ hunused => hunused
    · obtain rfl := List.mem_singleton.mp he
      refine ⟨List.mem_append_right _ (List.mem_singleton_self _), ?_, ?_⟩
      · exact fun c a ha => hfresh a c (h.pending c a ha)
      · exact fun c hc a ha => hfresh a c.browser ((h.sent c hc).login a ha)
  · rw [List.filterMap_append]
    refine List.nodup_append.mpr ⟨h.comingOnce, List.nodup_singleton _, ?_⟩
    rintro state' hmem _ hmem' rfl
    obtain rfl : state' = state := by simpa [Answer.state?] using hmem'
    exact hnew (h.drawn_of_coming hmem)

theorem Inv.send (h : Inv d s) (b : Nat) (code state : String) :
    Inv d {s with calls := s.calls ++
      [⟨b, s.now, callbackRequest (s.jars b) s.now code state, s.pending b, s.answered⟩]} := by
  have hcalls : ∀ c' : Call, ∀ (n : Nat) c, s.calls[n]? = some c → (s.calls ++ [c'])[n]? = some c := by
    intro c' n c hc
    rw [List.getElem?_append_left (List.getElem?_eq_some_iff.mp hc).1]
    exact hc
  refine ⟨h.held, h.drawn, h.pending, ?_, ?_, h.comingOnce, ?_, ?_⟩
  · intro c hc
    rcases List.mem_append.mp hc with hc | hc
    · exact (h.sent c hc).mono (List.Subset.refl _) (hcalls _)
    · obtain rfl := List.mem_singleton.mp hc
      obtain ⟨x, hx⟩ := h.held b
      refine ⟨⟨s.jars b, x, hx, rfl⟩, h.pending b, fun n hn => ?_⟩
      obtain ⟨c₀, hc₀, hne⟩ := h.answered n hn
      exact ⟨c₀, hcalls _ n c₀ hc₀, fun a₀ ha₀ a ha => hne a₀ ha₀ b a ha⟩
  · intro e he
    refine (h.coming e he).mono (List.Subset.refl _) (hcalls _) fun state' _ hunused => ⟨hunused.1, fun c hc => ?_⟩
    rcases List.mem_append.mp hc with hc | hc
    · exact hunused.2 c hc
    · obtain rfl := List.mem_singleton.mp hc
      exact hunused.1 b
  · intro n hn
    obtain ⟨c, hc, hne⟩ := h.answered n hn
    exact ⟨c, hcalls _ n c hc, hne⟩
  · intro n x hx
    obtain ⟨c, hc, hanswers⟩ := h.accepted n x hx
    exact ⟨c, hcalls _ n c hc, hanswers⟩

/-- A callback is through. -/
theorem Inv.serve (h : Inv d s) {n : Nat} {c : Call} (hc : s.calls[n]? = some c) {progress : Progress}
    (haccepted : ∀ x, progress = .accepted x → c.Accepts x ∧ ∃ a ∈ c.login, Answers d s.grants x a) (store : Store) :
    Inv d {s with store := store, progress := Function.update s.progress n progress} where
  held := h.held
  drawn := h.drawn
  pending := h.pending
  sent := h.sent
  coming := h.coming
  comingOnce := h.comingOnce
  answered := h.answered
  accepted := by
    intro m x hx
    change Function.update s.progress n progress m = .accepted x at hx
    by_cases hmn : m = n
    · subst hmn
      rw [Function.update_self] at hx
      exact ⟨c, hc, haccepted x hx⟩
    · rw [Function.update_of_ne hmn] at hx
      exact h.accepted m x hx

/-- An answer has left. -/
theorem Inv.erase (h : Inv d s) (i : Nat) : Inv d {s with answers := s.answers.eraseIdx i} where
  held := h.held
  drawn := h.drawn
  pending := h.pending
  sent := h.sent
  coming := fun e he => h.coming e (List.mem_of_mem_eraseIdx he)
  comingOnce := ((List.eraseIdx_sublist _ _).filterMap _).nodup h.comingOnce
  answered := h.answered
  accepted := h.accepted

/-- The state it brings comes only once. -/
theorem Inv.once (h : Inv d s) {i : Nat} {e : Nat × Answer} (he : s.answers[i]? = some e) {state : String}
    (hstate : e.2.state? = some state) : ∀ e' ∈ s.answers.eraseIdx i, e'.2.state? ≠ some state := by
  obtain ⟨hi, hget⟩ := List.getElem?_eq_some_iff.mp he
  have hperm := (List.getElem_cons_eraseIdx_perm hi).filterMap fun e => e.2.state?
  have hnodup := hperm.nodup_iff.mpr h.comingOnce
  rw [hget, List.filterMap_cons, hstate] at hnodup
  rw [List.nodup_cons] at hnodup
  exact fun e' he' hsame => hnodup.1 (List.mem_filterMap.mpr ⟨e', he', hsame⟩)

/-- A browser's jar and what it has pending change together. -/
theorem held_update {jars : Nat → Jar String String} {pending : Nat → Option Attempt}
    (h : ∀ b, ∃ x, Holds d (jars b) (pending b) x) {jar : Jar String String} {a : Option Attempt}
    (hb : ∃ x, Holds d jar a x) (c : Nat) :
    ∃ x, Holds d (Function.update jars b jar c) (Function.update pending b a c) x := by
  by_cases hcb : c = b
  · subst hcb
    rw [Function.update_self, Function.update_self]
    exact hb
  · rw [Function.update_of_ne hcb, Function.update_of_ne hcb]
    exact h c

/-- The answer to a login arrives. -/
theorem Inv.began (h : Inv d s) {state verifier : String} {tenant : Option Uuid} (hdrawn : (state, b) ∈ s.drawn)
    (hunused : Unused s state) (honce : ∀ e ∈ s.answers, e.2.state? ≠ some state) :
    Inv d {s with
      jars := Function.update s.jars b ((s.jars b).receive s.now (loginHeaders state verifier tenant))
      pending := Function.update s.pending b (some ⟨s.now, state, verifier, tenant⟩)} := by
  -- What is pending afterwards was, or is this login.
  have hcases : ∀ c, ∀ a ∈ Function.update s.pending b (some ⟨s.now, state, verifier, tenant⟩) c,
      a ∈ s.pending c ∨ c = b ∧ a.state = state := by
    intro c a ha
    by_cases hcb : c = b
    · subst hcb
      rw [Function.update_self] at ha
      obtain rfl := Option.some.inj ha
      exact .inr ⟨rfl, rfl⟩
    · rw [Function.update_of_ne hcb] at ha
      exact .inl ha
  refine ⟨held_update h.held ?_, h.drawn, ?_, h.sent, ?_, h.comingOnce, ?_, h.accepted⟩
  · obtain ⟨x, hx⟩ := h.held b
    exact ⟨x, hx.login s.now state verifier tenant⟩
  · intro c a ha
    rcases hcases c a ha with ha | ⟨rfl, hstate⟩
    · exact h.pending c a ha
    · rw [hstate]
      exact hdrawn
  · intro e he
    refine (h.coming e he).mono (List.Subset.refl _) (fun _ _ hc => hc) fun state' hstate' hunused' => ⟨?_, hunused'.2⟩
    intro c a ha
    rcases hcases c a ha with ha | ⟨-, hstate⟩
    · exact hunused'.1 c a ha
    · rintro rfl
      exact honce e he (hstate'.trans (congrArg some hstate))
  · intro n hn
    obtain ⟨c, hc, hne⟩ := h.answered n hn
    refine ⟨c, hc, fun a ha b' a' ha' => ?_⟩
    rcases hcases b' a' ha' with ha' | ⟨-, hstate⟩
    · exact hne a ha b' a' ha'
    · rw [hstate]
      exact (hunused.2 c (List.mem_of_getElem? hc) a ha).symm

/-- The answer to an accepted callback arrives. -/
theorem Inv.ended (h : Inv d s) {n : Nat} {c : Call} (hc : s.calls[n]? = some c) (hbrowser : c.browser = b)
    (x : Acceptance) :
    Inv d {s with
      jars := Function.update s.jars b ((s.jars b).receive s.now (callbackHeaders d x.token))
      pending := Function.update s.pending b none
      answered := n :: s.answered} := by
  -- What is pending afterwards was, and in another browser.
  have hcases : ∀ c, ∀ a ∈ Function.update s.pending b none c, c ≠ b ∧ a ∈ s.pending c := by
    intro c a ha
    by_cases hcb : c = b
    · subst hcb
      rw [Function.update_self] at ha
      cases ha
    · rw [Function.update_of_ne hcb] at ha
      exact ⟨hcb, ha⟩
  refine ⟨held_update h.held ?_, h.drawn, fun c a ha => h.pending c a (hcases c a ha).2, h.sent, ?_, h.comingOnce, ?_,
    h.accepted⟩
  · exact ⟨_, holds_callback d (s.jars b) {x with time := s.now}⟩
  · intro e he
    refine (h.coming e he).mono (List.Subset.refl _) (fun _ _ hc => hc) fun state _ hunused => ⟨?_, hunused.2⟩
    exact fun c a ha => hunused.1 c a (hcases c a ha).2
  · intro m hm
    rcases List.mem_cons.mp hm with rfl | hm
    · refine ⟨c, hc, fun a ha b' a' ha' heq => ?_⟩
      obtain ⟨hne, hpending⟩ := hcases b' a' ha'
      have hdrawn : (a.state, b) ∈ s.drawn := hbrowser ▸ (h.sent c (List.mem_of_getElem? hc)).login a ha
      exact hne (h.owner (heq ▸ h.pending b' a' hpending) hdrawn)
    · obtain ⟨c', hc', hne⟩ := h.answered m hm
      exact ⟨c', hc', fun a ha b' a' ha' => hne a ha b' a' (hcases b' a' ha').2⟩

/-- The answer to a logout arrives. -/
theorem Inv.loggedOut (h : Inv d s) :
    Inv d {s with jars := Function.update s.jars b ((s.jars b).receive s.now (logoutHeaders d))} where
  held := by
    intro c
    obtain ⟨x, hx⟩ := h.held b
    have hheld := held_update (b := b) h.held ⟨none, hx.logout s.now⟩ c
    rwa [Function.update_eq_self] at hheld
  drawn := h.drawn
  pending := h.pending
  sent := h.sent
  coming := h.coming
  comingOnce := h.comingOnce
  answered := h.answered
  accepted := h.accepted

theorem Inv.receive (h : Inv d s) {i : Nat} {answer : Answer} (he : s.answers[i]? = some (b, answer)) :
    Inv d (s.receive d i b answer) := by
  have herased := h.erase i
  have hcoming := h.coming _ (List.mem_of_getElem? he)
  cases answer with
  | login state verifier tenant => exact herased.began hcoming.1 hcoming.2 (h.once he rfl)
  | callback n x =>
    obtain ⟨c, hc, hbrowser⟩ := hcoming
    exact herased.ended hc hbrowser x
  | logout => exact herased.loggedOut

theorem inv_step {a : Action} (h : Inv d s) (hstep : step d a s = some s') : Inv d s' := by
  cases a with
  | wait duration =>
    cases hstep
    exact h.elsewhere (s.now + duration) s.store (List.Subset.refl _)
  | consent g =>
    cases hstep
    exact h.elsewhere s.now s.store (List.subset_cons_self _ _)
  | login b secrets tenant =>
    simp only [step] at hstep
    split_ifs at hstep with hnew
    split at hstep
    · cases hstep
      exact h
    · cases hstep
      exact h.login b tenant hnew
  | send b code state =>
    cases hstep
    exact h.send b code state
  | serve n host =>
    obtain ⟨c, hc, hturn⟩ := Option.bind_eq_some_iff.mp hstep
    split at hturn
    · split at hturn
      · cases hturn
        exact h.serve hc (fun x hx => by cases hx) _
      · rename_i p identity token store hsign
        cases hturn
        obtain ⟨jar, x, hjar, hrequest⟩ := (h.sent c (List.mem_of_getElem? hc)).cookies
        rw [hrequest] at hsign
        obtain ⟨attempt, hattempt, hanswers⟩ := answers_of_signIn hjar hsign
        refine (h.serve hc ?_ store).answer ⟨c, hc, rfl⟩ rfl
        rintro y ⟨⟩
        exact ⟨⟨rfl, rfl, rfl⟩, attempt, hattempt, hanswers⟩
    · cases hturn
  | logout b =>
    cases hstep
    exact h.answer trivial rfl
  | receive i =>
    obtain ⟨⟨b, answer⟩, he, rfl⟩ := Option.map_eq_some_iff.mp hstep
    exact h.receive he
  | other a =>
    obtain ⟨store, -, rfl⟩ := Option.map_eq_some_iff.mp hstep
    exact h.elsewhere s.now store (List.Subset.refl _)

end Inv

/-! ### Agreement -/

/-- Each accepted callback answers the login its browser had pending when it sent it, and of two
with one state, which are of one browser, neither was sent after the answer to the other had
arrived. -/
structure Agreement (d : Deployment) (s : State) : Prop where
  answers : ∀ n x, s.progress n = .accepted x →
    ∃ c, s.calls[n]? = some c ∧ c.Accepts x ∧ ∃ a ∈ c.login, Answers d s.grants x a
  overlapping : ∀ m n x y c c', s.progress m = .accepted x → s.progress n = .accepted y → s.calls[m]? = some c →
    s.calls[n]? = some c' → c.request.state = c'.request.state → c.browser = c'.browser ∧ m ∉ c'.earlier

/-- **Only callbacks that overlap share a state**, whoever writes the callback URLs, and however
requests and answers overtake each other. -/
theorem agreement_overlapping (d : Deployment) (now : Nat) (actions : List Action) :
    Always (step d) (Agreement d) actions (initial now) := by
  refine (Always.of_invariant actions (inv_initial d now) fun _ _ _ => inv_step).mono fun s h => ⟨h.accepted, ?_⟩
  intro m n x y c c' hx hy hc hc' hstate
  obtain ⟨c₁, hc₁, haccepts, a, ha, hanswers⟩ := h.accepted m x hx
  obtain ⟨c₂, hc₂, haccepts', a', ha', hanswers'⟩ := h.accepted n y hy
  obtain rfl := Option.some.inj (hc.symm.trans hc₁)
  obtain rfl := Option.some.inj (hc'.symm.trans hc₂)
  have hsent := h.sent c (List.mem_of_getElem? hc)
  have hsent' := h.sent c' (List.mem_of_getElem? hc')
  have hsame : a'.state = a.state := calc
    a'.state = c'.request.state := hanswers'.state.symm.trans haccepts'.state
    _ = c.request.state := hstate.symm
    _ = a.state := haccepts.state.symm.trans hanswers.state
  refine ⟨h.owner (hsent.login a ha) (hsame ▸ hsent'.login a' ha'), fun hearlier => ?_⟩
  obtain ⟨c₀, hc₀, hne⟩ := hsent'.earlier m hearlier
  obtain rfl := Option.some.inj (hc.symm.trans hc₀)
  exact hne a ha a' ha' hsame

/-- Two codes for one login, each followed before the other is answered. -/
def sampleOverlap : List Action :=
  let tokens : Json.Object := ⟨[("id_token", .str "id"), ("access_token", .str "access"),
    ("refresh_token", .str "refresh")], sampleTokens_wellFormed⟩
  [.other (.bootstrap sampleHost samplePermissionIds (sampleSettings none none)),
   .login 0 ⟨[0], [1]⟩ none, .receive 0,
   .consent ⟨"first", pkceChallenge (tokenUrlsafe [1]), tokens⟩,
   .consent ⟨"second", pkceChallenge (tokenUrlsafe [1]), tokens⟩,
   .send 0 "first" (tokenUrlsafe [0]), .send 0 "second" (tokenUrlsafe [0]),
   .serve 0 sampleHost, .receive 0, .serve 1 laterHost]

def Progress.isAccepted : Progress → Bool
  | .accepted _ => true
  | _ => false

/-- Both are accepted. -/
example : (run (step sampleDeployment) sampleOverlap (initial 0)).any (fun s =>
    (s.progress 0).isAccepted && (s.progress 1).isAccepted) = true := by decide +kernel

end Sentinel.Identity.SignIn.Overlap
