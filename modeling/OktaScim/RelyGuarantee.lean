import OktaScim.Interleavings

/-!
Rely and guarantee for interleaved programs. What a client guarantees is read
off the calls that its program can make: they keep an invariant of the state.
What a program relies on is that invariant, at each of its own calls. What a
program establishes is not lost as long as the others guarantee it. Steps may
be restricted to some of the clients and to outside choices that suit the state.
-/
namespace OktaScim.RelyGuarantee

open Programs Interleavings

section Calls

variable {C : Type} {R : C → Type} {ε α β σ τ : Type}

/-- Every call that the program can make is permitted. -/
def Makes (P : C → Prop) : Prog R ε α → Prop
  | .pure _ => True
  | .throw _ => True
  | .call c k => P c ∧ ∀ r, Makes P (k r)

theorem Makes.mono {P P' : C → Prop} (hP : ∀ c, P c → P' c) {p : Prog R ε α} (h : Makes P p) :
    Makes P' p := by
  induction p with
  | pure a => trivial
  | throw e => trivial
  | call c k ih => exact ⟨hP c h.1, fun r => ih r (h.2 r)⟩

theorem makes_any (p : Prog R ε α) : Makes (fun _ => True) p := by
  induction p with
  | pure a => trivial
  | throw e => trivial
  | call c k ih => exact ⟨trivial, ih⟩

/-- Permitted calls keep the invariant, for the outside choices that are admitted. -/
def Guarantees (exec : Exec R ε σ τ) (admits : τ → σ → Prop) (P : C → Prop) (I : σ → Prop) :
    Prop :=
  ∀ t c s r s', admits t s → P c → I s → exec t c s = .ok (r, s') → I s'

/-- The call keeps the invariant, for the outside choices that are admitted. -/
def Keeps (exec : Exec R ε σ τ) (admits : τ → σ → Prop) (I : σ → Prop) (c : C) : Prop :=
  ∀ t s r s', admits t s → I s → exec t c s = .ok (r, s') → I s'

theorem guarantees_keeps (exec : Exec R ε σ τ) (admits : τ → σ → Prop) (I : σ → Prop) :
    Guarantees exec admits (Keeps exec admits I) I :=
  fun t _ s r s' ht hc hs h => hc t s r s' ht hs h

/-- Called only between states of the invariant, the program can only end as `Q` says. -/
def Relies (exec : Exec R ε σ τ) (I : σ → Prop) (Q : Except ε α → Prop) : Prog R ε α → Prop
  | .pure a => Q (.ok a)
  | .throw e => Q (.error e)
  | .call c k =>
    (∀ t s r s', I s → I s' → exec t c s = .ok (r, s') → Relies exec I Q (k r)) ∧
      ∀ t s e, I s → exec t c s = .error e → Q (.error e)

/-- However the program ends well, one of its calls has established `I`. -/
def Establishes (exec : Exec R ε σ τ) (I : σ → Prop) : Prog R ε α → Prop
  | .pure _ => False
  | .throw _ => True
  | .call c k => ∀ t s r s', exec t c s = .ok (r, s') → I s' ∨ Establishes exec I (k r)

variable {exec : Exec R ε σ τ} {admits : τ → σ → Prop} {P : C → Prop} {I : σ → Prop}
  {Q : Except ε α → Prop}

theorem next_establishes {t : τ} {c : C} {k : R c → Prog R ε α} {s : σ}
    (h : Establishes exec I (.call c k)) :
    I (next exec t c k s).2 ∨ Establishes exec I (next exec t c k s).1 := by
  unfold next
  split
  · rename_i r s' hc
    exact h t s r s' hc
  · exact Or.inr trivial

theorem next_makes {t : τ} {c : C} {k : R c → Prog R ε α} {s : σ} (h : Makes P (.call c k)) :
    Makes P (next exec t c k s).1 := by
  unfold next
  split
  · exact h.2 _
  · trivial

theorem next_guarantees (hG : Guarantees exec admits P I) {t : τ} {c : C} {s : σ}
    (k : R c → Prog R ε α) (ht : admits t s) (hc : P c) (hs : I s) : I (next exec t c k s).2 := by
  unfold next
  split
  · rename_i r s' h
    exact hG t c s r s' ht hc hs h
  · exact hs

theorem next_relies {t : τ} {c : C} {k : R c → Prog R ε α} {s : σ} (hs : I s)
    (hs' : I (next exec t c k s).2) (h : Relies exec I Q (.call c k)) :
    Relies exec I Q (next exec t c k s).1 := by
  unfold next at hs' ⊢
  split at hs'
  · rename_i r s' hc
    exact h.1 t s r s' hs hs' hc
  · rename_i e hc
    exact h.2 t s e hs hc

theorem result_of_relies {p : Prog R ε α} {r : Except ε α} (h : Relies exec I Q p)
    (hr : p.result = some r) : Q r := by
  cases p with
  | pure a =>
    cases hr
    exact h
  | throw e =>
    cases hr
    exact h
  | call c k => cases hr

end Calls

section Runs

variable {ι C : Type} {R : C → Type} {ε α σ τ : Type} [DecidableEq ι]

/-- Steps of the clients that act, with outside choices that are admitted. -/
def StepsOf (acts : ι → Prop) (admits : τ → σ → Prop) (cfg : Config ι R ε α σ) :
    Event ι τ → Prop
  | .start i => acts i
  | .call i t => acts i ∧ admits t cfg.store

variable {exec : Exec R ε σ τ} {prog : ι → Prog R ε α} {acts : ι → Prop} {admits : τ → σ → Prop}
  {P : C → Prop} {I : σ → Prop} {init cfg : Config ι R ε α σ}

/-- What holds of a client's program and the store when the program starts, and
is kept by its own calls and by those of the others. -/
theorem reaches_thread {allowed : Config ι R ε α σ → Event ι τ → Prop} {i : ι}
    {T : σ → Prog R ε α → Prop} (h : Reaches exec prog allowed init cfg)
    (hprog : ∀ s, T s (prog i)) (hinit : ∀ p, init.threads i = some p → T init.store p)
    (hself : ∀ mid t c k, Reaches exec prog allowed init mid → allowed mid (.call i t) →
      mid.threads i = some (.call c k) → T mid.store (.call c k) →
      T (next exec t c k mid.store).2 (next exec t c k mid.store).1)
    (hother : ∀ mid j t c k p, Reaches exec prog allowed init mid → allowed mid (.call j t) →
      mid.threads j = some (.call c k) → T mid.store p → T (next exec t c k mid.store).2 p)
    {p : Prog R ε α} (hp : cfg.threads i = some p) : T cfg.store p := by
  induction h generalizing p with
  | refl => exact hinit p hp
  | @tail mid cfg' e hreach hallow hstep ih =>
    cases e with
    | start j =>
      obtain ⟨hj, rfl⟩ := step_start_cases exec prog hstep
      have hmoves := moves_startConfig prog hj
      by_cases hij : i = j
      · subst hij
        rw [hmoves.self] at hp
        cases hp
        exact hprog mid.store
      · rw [hmoves.other i hij] at hp
        exact ih hp
    | call j t =>
      obtain ⟨c, k, hj, rfl⟩ := step_call_cases exec prog hstep
      have hmoves := moves_callConfig exec t hj
      by_cases hij : i = j
      · subst hij
        rw [hmoves.self] at hp
        cases hp
        exact hself mid t c k hreach hallow hj (ih hj)
      · rw [hmoves.other i hij] at hp
        exact hother mid j t c k p hreach hallow hj (ih hp)

/-- Whatever the steps, a client makes no other calls than its program can. -/
theorem reaches_makes {allowed : Config ι R ε α σ → Event ι τ → Prop} {i : ι}
    (h : Reaches exec prog allowed init cfg) (hprog : Makes P (prog i))
    (hinit : ∀ p, init.threads i = some p → Makes P p) {p : Prog R ε α}
    (hp : cfg.threads i = some p) : Makes P p :=
  reaches_thread (T := fun _ => Makes P) h (fun _ => hprog) hinit
    (fun _ _ _ _ _ _ _ hmakes => next_makes hmakes) (fun _ _ _ _ _ _ _ _ _ hmakes => hmakes) hp

/-- The invariant holds as long as only clients act that guarantee it. -/
theorem reaches_guarantees (hprog : ∀ i, acts i → Makes P (prog i))
    (hinit : ∀ i p, acts i → init.threads i = some p → Makes P p)
    (hG : Guarantees exec admits P I) (hI : I init.store)
    (h : Reaches exec prog (StepsOf acts admits) init cfg) : I cfg.store := by
  induction h with
  | refl => exact hI
  | @tail mid cfg' e hreach hallow hstep ih =>
    cases e with
    | start j =>
      obtain ⟨_, rfl⟩ := step_start_cases exec prog hstep
      exact ih
    | call j t =>
      obtain ⟨hact, ht⟩ := hallow
      obtain ⟨c, k, hj, rfl⟩ := step_call_cases exec prog hstep
      have hmakes := reaches_makes hreach (hprog j hact) (fun p => hinit j p hact) hj
      exact next_guarantees hG k ht hmakes.1 ih

/-- A client that is sent in the meantime ends as its program relies on. -/
theorem reaches_relies (hprog : ∀ i, acts i → Makes P (prog i))
    (hinit : ∀ i p, acts i → init.threads i = some p → Makes P p)
    (hG : Guarantees exec admits P I) (hI : I init.store) {i : ι} {Q : Except ε α → Prop}
    (hrelies : Relies exec I Q (prog i)) (hi : init.threads i = none)
    (h : Reaches exec prog (StepsOf acts admits) init cfg) {r : Except ε α}
    (hr : cfg.answered i = some r) : Q r := by
  obtain ⟨p, hp, hresult⟩ := Option.bind_eq_some_iff.mp hr
  have hthread : Relies exec I Q p := by
    refine reaches_thread (T := fun _ => Relies exec I Q) h (fun _ => hrelies) ?_ ?_ ?_ hp
    · intro p hp
      rw [hi] at hp
      contradiction
    · rintro mid t c k hreach ⟨hact, ht⟩ hcall hmid
      have hI' := reaches_guarantees hprog hinit hG hI hreach
      have hmakes := reaches_makes hreach (hprog i hact) (fun p => hinit i p hact) hcall
      exact next_relies hI' (next_guarantees hG k ht hmakes.1 hI') hmid
    · exact fun _ _ _ _ _ _ _ _ _ hmid => hmid
  exact result_of_relies hthread hresult

/-- What a client that is sent in the meantime has to establish holds when it
has ended well. -/
theorem reaches_establishes (hprog : ∀ i, acts i → Makes P (prog i))
    (hinit : ∀ i p, acts i → init.threads i = some p → Makes P p)
    (hG : Guarantees exec admits P I) {i : ι} (hi : init.threads i = none)
    (hestablishes : Establishes exec I (prog i))
    (h : Reaches exec prog (StepsOf acts admits) init cfg) {a : α}
    (ha : cfg.answered i = some (.ok a)) : I cfg.store := by
  have hkeeps : ∀ mid j t c k, Reaches exec prog (StepsOf acts admits) init mid →
      StepsOf acts admits mid (.call j t) → mid.threads j = some (.call c k) → I mid.store →
      I (next exec t c k mid.store).2 := by
    rintro mid j t c k hreach ⟨hact, ht⟩ hcall hmid
    have hmakes := reaches_makes hreach (hprog j hact) (fun p => hinit j p hact) hcall
    exact next_guarantees hG k ht hmakes.1 hmid
  obtain ⟨p, hp, hresult⟩ := Option.bind_eq_some_iff.mp ha
  have hthread : I cfg.store ∨ Establishes exec I p := by
    refine reaches_thread (T := fun s p => I s ∨ Establishes exec I p) h
      (fun _ => Or.inr hestablishes) ?_ ?_ ?_ hp
    · intro p hp
      rw [hi] at hp
      contradiction
    · rintro mid t c k hreach hallow hcall (hmid | hdue)
      · exact Or.inl (hkeeps mid i t c k hreach hallow hcall hmid)
      · exact next_establishes hdue
    · exact fun mid j t c k p hreach hallow hcall hmid =>
        hmid.imp_left (hkeeps mid j t c k hreach hallow hcall)
  rcases hthread with hholds | hdue
  · exact hholds
  · cases p with
    | pure b => exact hdue.elim
    | throw e => cases hresult
    | call c k => cases hresult

end Runs

end OktaScim.RelyGuarantee
