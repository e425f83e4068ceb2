import OktaScim.Linearization

/-!
Programs that check in one call, act in a later one, and may read back at the
end. The check commits the program to what it has found, or the act will again
do by itself whatever the whole program would do at that moment, check
included. A closing read confirms the act as long as nobody changes what it
reads. Programs of this kind are linearizable.
-/
namespace OktaScim.CheckThenAct

open Programs Interleavings Linearization

variable {ι C : Type} {R : C → Type} {ε α σ τ O : Type}
variable (exec : Exec R ε σ τ) (obs : Except ε α → O) (I : σ → Prop)
variable (ready : Prog R ε α → σ → Prop) (closing : Prog R ε α → Prop)

/-- The next call of `p`, made in `s`, ends it with the observation `o` and
changes nothing. -/
def EndsWith (s : σ) (o : O) (p : Prog R ε α) : Prop :=
  ∃ c k, p = .call c k ∧ ∀ t, (next exec t c k s).2 = s ∧
    ∃ r, (next exec t c k s).1.result = some r ∧ o = obs r

/-- The program has ended with the observation `o`, or will end with it in any state. -/
def Settled (o : O) (p : Prog R ε α) : Prop :=
  (∃ r, p.result = some r ∧ o = obs r) ∨ ∀ s, EndsWith exec obs s o p

/-- The program is settled, or is a closing read that would end with `o` at present. -/
def Confirms (s : σ) (o : O) (p : Prog R ε α) : Prop :=
  Settled exec obs o p ∨ (closing p ∧ EndsWith exec obs s o p)

/-- The next call of `p` has the effect of all of `whole` run alone at that
moment, and what is left of `p` confirms its observation. -/
def ActsAs (whole p : Prog R ε α) : Prop :=
  ∃ c k, p = .call c k ∧ ∀ t s, I s → ready p s → ∃ ticks,
    (run exec ticks whole s).2 = (next exec t c k s).2 ∧
      Confirms exec obs closing (next exec t c k s).2 (obs (run exec ticks whole s).1)
        (next exec t c k s).1

/-- The check leaves the state alone and either leads to a part that acts as
the whole program or settles what the whole program is at that moment. -/
def Checks (whole : Prog R ε α) (c : C) (k : R c → Prog R ε α) : Prop :=
  ∀ t s, I s → (next exec t c k s).2 = s ∧
    (ActsAs exec obs I ready closing whole (next exec t c k s).1 ∨
      ∃ ticks, (run exec ticks whole s).2 = s ∧
        Settled exec obs (obs (run exec ticks whole s).1) (next exec t c k s).1)

/-- The program has ended, or acts at once, or checks first. -/
def ChecksThenActs (p : Prog R ε α) : Prop :=
  (∃ r, p.result = some r) ∨ ActsAs exec obs I ready closing p p ∨
    ∃ c k, p = .call c k ∧ Checks exec obs I ready closing p c k

variable {exec obs I ready closing}

theorem settled_of_ended {p : Prog R ε α} {r : Except ε α} (h : p.result = some r) :
    Settled exec obs (obs r) p := Or.inl ⟨r, h, rfl⟩

theorem EndsWith.call {s : σ} {o : O} {t : τ} {c : C} {k : R c → Prog R ε α}
    (h : EndsWith exec obs s o (.call c k)) :
    (next exec t c k s).2 = s ∧ Settled exec obs o (next exec t c k s).1 := by
  obtain ⟨c', k', hcall, hall⟩ := h
  cases hcall
  obtain ⟨hstore, r, hr, ho⟩ := hall t
  exact ⟨hstore, Or.inl ⟨r, hr, ho⟩⟩

theorem EndsWith.unended {s : σ} {o : O} {p : Prog R ε α} (h : EndsWith exec obs s o p) :
    p.result = none := by
  obtain ⟨c, k, rfl, _⟩ := h
  rfl

theorem Confirms.call {s : σ} {o : O} {t : τ} {c : C} {k : R c → Prog R ε α}
    (h : Confirms exec obs closing s o (.call c k)) :
    (next exec t c k s).2 = s ∧ Confirms exec obs closing s o (next exec t c k s).1 := by
  have hends : EndsWith exec obs s o (.call c k) := by
    rcases h with (⟨r, hr, _⟩ | hall) | ⟨_, hends⟩
    · contradiction
    · exact hall s
    · exact hends
  exact ⟨hends.call.1, Or.inl hends.call.2⟩

theorem Confirms.result {s : σ} {o : O} {p : Prog R ε α} {r : Except ε α}
    (h : Confirms exec obs closing s o p) (hr : p.result = some r) : o = obs r := by
  rcases h with (⟨r', hr', ho⟩ | hall) | ⟨_, hends⟩
  · rw [hr'] at hr
    rw [ho, Option.some.inj hr]
  · rw [(hall s).unended] at hr
    contradiction
  · rw [hends.unended] at hr
    contradiction

theorem ActsAs.unended {whole p : Prog R ε α} (h : ActsAs exec obs I ready closing whole p) :
    p.result = none := by
  obtain ⟨c, k, rfl, _⟩ := h
  rfl

theorem ActsAs.call {whole : Prog R ε α} {t : τ} {s : σ} {c : C} {k : R c → Prog R ε α}
    (h : ActsAs exec obs I ready closing whole (.call c k)) (hs : I s)
    (hready : ready (.call c k) s) :
    ∃ ticks, (run exec ticks whole s).2 = (next exec t c k s).2 ∧
      Confirms exec obs closing (next exec t c k s).2 (obs (run exec ticks whole s).1)
        (next exec t c k s).1 := by
  obtain ⟨c', k', hcall, hall⟩ := h
  cases hcall
  exact hall t s hs hready

theorem Checks.call {whole : Prog R ε α} {t : τ} {s : σ} {c : C} {k : R c → Prog R ε α}
    (h : Checks exec obs I ready closing whole c k) (hs : I s) :
    ((next exec t c k s).2 = s ∧
        ActsAs exec obs I ready closing whole (next exec t c k s).1) ∨
      ∃ ticks, (run exec ticks whole s).2 = (next exec t c k s).2 ∧
        Confirms exec obs closing (next exec t c k s).2 (obs (run exec ticks whole s).1)
          (next exec t c k s).1 := by
  obtain ⟨hstore, hacts | ⟨ticks, hrun, hsettled⟩⟩ := h t s hs
  · exact Or.inl ⟨hstore, hacts⟩
  · exact Or.inr ⟨ticks, hrun.trans hstore.symm, Or.inl hsettled⟩

/-- A program that has ended settles what it is. -/
theorem settled_of_result {p : Prog R ε α} {r : Except ε α} (h : p.result = some r)
    (ticks : ℕ → τ) (s : σ) :
    (run exec ticks p s).2 = s ∧ Settled exec obs (obs (run exec ticks p s).1) p := by
  cases p with
  | pure a => exact ⟨rfl, settled_of_ended rfl⟩
  | throw e => exact ⟨rfl, settled_of_ended rfl⟩
  | call c k => contradiction

/-- A program with one call left, run alone, ends as that call ends it. -/
theorem run_one_call {c : C} {k : R c → Prog R ε α} (hk : ∀ x, (k x).result ≠ none) (t : τ)
    (s : σ) : ∃ r, (next exec t c k s).1.result = some r ∧
      run exec (fun _ => t) (.call c k) s = (r, (next exec t c k s).2) := by
  rw [run_call]
  cases hnext : (next exec t c k s).1 with
  | pure a => exact ⟨.ok a, rfl, rfl⟩
  | throw e => exact ⟨.error e, rfl, rfl⟩
  | call c' k' =>
    cases hc : exec t c s with
    | ok xs =>
      obtain ⟨x, s'⟩ := xs
      rw [next_ok exec k hc] at hnext
      have hended := hk x
      have hcall : k x = .call c' k' := hnext
      rw [hcall] at hended
      contradiction
    | error e =>
      rw [next_error exec k hc] at hnext
      contradiction

/-- A program of one call acts at once. -/
theorem actsAs_of_one_call {c : C} {k : R c → Prog R ε α} (hk : ∀ x, (k x).result ≠ none) :
    ActsAs exec obs I ready closing (.call c k) (.call c k) := by
  refine ⟨c, k, rfl, fun t s _ _ => ⟨fun _ => t, ?_⟩⟩
  obtain ⟨r, hr, hrun⟩ := @run_one_call _ _ _ _ _ _ exec c k hk t s
  rw [hrun]
  exact ⟨rfl, Or.inl (settled_of_ended hr)⟩

section Guards

variable {g : C} {kg : R g → Prog R ε α}

/-- A check that throws where the act behind it would do the same as the throw. -/
theorem checksThenActs_of_act {p : Prog R ε α}
    (hacts : ActsAs exec obs I ready closing (.call g kg) p)
    (h : ∀ t s, I s → ∃ r, exec t g s = .ok (r, s) ∧ ((∃ e, kg r = .throw e) ∨ kg r = p)) :
    ChecksThenActs exec obs I ready closing (.call g kg) := by
  refine Or.inr (Or.inr ⟨g, kg, rfl, fun t s hs => ?_⟩)
  obtain ⟨r, hr, ⟨e, hthrow⟩ | hact⟩ := h t s hs
  · rw [next_ok exec kg hr, hthrow]
    refine ⟨rfl, Or.inr ⟨fun _ => t, ?_⟩⟩
    rw [run_call_ok exec kg hr, hthrow]
    exact ⟨rfl, settled_of_ended rfl⟩
  · rw [next_ok exec kg hr, hact]
    exact ⟨rfl, Or.inl hacts⟩

/-- A check that throws only where the one call behind it would fail with the
same observation. -/
theorem checksThenActs_of_guard {c : C} {k : R c → Prog R ε α} (hk : ∀ x, (k x).result ≠ none)
    (h : ∀ t s, I s → ∃ r, exec t g s = .ok (r, s) ∧
      ((∃ e e', kg r = .throw e ∧ next exec t c k s = (.throw e', s) ∧
        obs (.error e) = obs (.error e')) ∨ kg r = .call c k)) :
    ChecksThenActs exec obs I ready closing (.call g kg) := by
  have hacts : ActsAs exec obs I ready closing (.call g kg) (.call c k) := by
    refine ⟨c, k, rfl, fun t s hs _ => ⟨fun _ => t, ?_⟩⟩
    obtain ⟨r, hr, ⟨e, e', hthrow, he', hobs⟩ | htail⟩ := h t s hs
    · rw [he', run_call_ok exec kg hr, hthrow, run_throw, hobs]
      exact ⟨rfl, Or.inl (settled_of_ended rfl)⟩
    · obtain ⟨x, hx, hrun⟩ := @run_one_call _ _ _ _ _ _ exec c k hk t s
      rw [run_call_ok exec kg hr, htail, hrun]
      exact ⟨rfl, Or.inl (settled_of_ended hx)⟩
  refine checksThenActs_of_act hacts fun t s hs => ?_
  obtain ⟨r, hr, ⟨e, _, hthrow, _⟩ | htail⟩ := h t s hs
  · exact ⟨r, hr, Or.inl ⟨e, hthrow⟩⟩
  · exact ⟨r, hr, Or.inr htail⟩

/-- A check behind which the program fails in any case. -/
theorem checksThenActs_of_doomed
    (h : ∀ t s, I s → ∃ r, exec t g s = .ok (r, s) ∧
      ((∃ e, kg r = .throw e) ∨
        ∃ c k e, kg r = .call c k ∧ ∀ t' s', exec t' c s' = .error e)) :
    ChecksThenActs exec obs I ready closing (.call g kg) := by
  refine Or.inr (Or.inr ⟨g, kg, rfl, fun t s hs => ?_⟩)
  obtain ⟨r, hr, ⟨e, hthrow⟩ | ⟨c, k, e, htail, hfails⟩⟩ := h t s hs
  · rw [next_ok exec kg hr, hthrow]
    refine ⟨rfl, Or.inr ⟨fun _ => t, ?_⟩⟩
    rw [run_call_ok exec kg hr, hthrow]
    exact ⟨rfl, settled_of_ended rfl⟩
  · rw [next_ok exec kg hr, htail]
    refine ⟨rfl, Or.inr ⟨fun _ => t, ?_⟩⟩
    rw [run_call_ok exec kg hr, htail, run_call_error exec k (hfails t s)]
    refine ⟨rfl, Or.inr fun s' => ⟨c, k, rfl, fun t' => ?_⟩⟩
    rw [next_error exec k (hfails t' s')]
    exact ⟨rfl, _, rfl, rfl⟩

end Guards

section CommitPoints

variable {prog : ι → Prog R ε α} {allowed : Config ι R ε α σ → Event ι τ → Prop}
variable {ready : ι → Prog R ε α → σ → Prop} {closing : ι → Prog R ε α → Prop}

/-- The commit points of programs that check and then act: a check that settles
the program, or its act. -/
def commitPoints [Nonempty τ]
    (h : ∀ i, ChecksThenActs exec obs I (ready i) (closing i) (prog i))
    (hready : ∀ cfg i t p, allowed cfg (.call i t) → cfg.threads i = some p →
      ready i p cfg.store)
    (hstable : ∀ cfg j t c k, I cfg.store → allowed cfg (.call j t) →
      cfg.threads j = some (.call c k) → ∀ i p o, i ≠ j → cfg.threads i = some p →
      closing i p → EndsWith exec obs cfg.store o p →
      EndsWith exec obs (next exec t c k cfg.store).2 o p) :
    CommitPoints exec prog obs I allowed where
  Pending i _ p :=
    (∃ c k, p = .call c k ∧ Checks exec obs I (ready i) (closing i) (prog i) c k) ∨
      ActsAs exec obs I (ready i) (closing i) (prog i) p
  Committed i s o p := Confirms exec obs (closing i) s o p
  start i s _ := by
    rcases h i with ⟨r, hr⟩ | hacts | ⟨c, k, hcall, hchecks⟩
    · have hticks : Nonempty (ℕ → τ) := inferInstance
      obtain ⟨ticks⟩ := hticks
      obtain ⟨hstore, hsettled⟩ := @settled_of_result _ _ _ _ _ _ _ exec obs _ _ hr ticks s
      exact Or.inr ⟨ticks, hstore, Or.inl hsettled⟩
    · exact Or.inl (Or.inr hacts)
    · exact Or.inl (Or.inl ⟨c, k, hcall, hchecks⟩)
  pending_call cfg i t c k hI hallow hcall hpend := by
    rcases hpend with ⟨c', k', hcall', hchecks⟩ | hacts
    · cases hcall'
      rcases hchecks.call hI with ⟨hstore, hacts⟩ | hcommit
      · exact Or.inl ⟨hstore, Or.inr hacts⟩
      · exact Or.inr hcommit
    · exact Or.inr (hacts.call hI (hready cfg i t _ hallow hcall))
  committed_call i s t c k o _ hcom := hcom.call
  pending_unended i s p hpend := by
    rcases hpend with ⟨c, k, rfl, _⟩ | hacts
    · rfl
    · exact hacts.unended
  committed_result i s o p r hcom hr := hcom.result hr
  stable cfg j t c k hI hallow hcall i p hij hp := by
    refine ⟨id, fun o hcom => ?_⟩
    rcases hcom with hsettled | ⟨hclosing, hends⟩
    · exact Or.inl hsettled
    · exact Or.inr ⟨hclosing, hstable cfg j t c k hI hallow hcall i p o hij hp hclosing hends⟩

end CommitPoints

end OktaScim.CheckThenAct
