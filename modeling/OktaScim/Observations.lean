import OktaScim.CheckThenAct

/-!
Programs that check and then act, seen by another observer. If the second one
cannot tell results apart that are the same to the first, among those that the
programs can end with, then they check and act for it as well. What is assumed
of the state may grow with the observer.
-/
namespace OktaScim.Observations

open Programs Linearization CheckThenAct

variable {C : Type} {R : C → Type} {ε α σ τ O O' : Type}

/-- A result with a value in `P`, if it has a value. -/
def Within (P : α → Prop) (r : Except ε α) : Prop := ∀ a, r = .ok a → P a

/-- What is the same to `obs` is the same to `obs'`, for values in `P`. -/
def Coarser (P : α → Prop) (obs : Except ε α → O) (obs' : Except ε α → O') : Prop :=
  ∀ r r', Within P r → Within P r' → obs r = obs r' → obs' r = obs' r'

section Results

variable {exec : Exec R ε σ τ} {P : α → Prop}

theorem within_run {p : Prog R ε α} (hp : Returns P p) (ticks : ℕ → τ) (s : σ) :
    Within P (run exec ticks p s).1 := by
  intro a ha
  exact run_returns exec p hp ticks s (run exec ticks p s).2 a (Prod.ext ha rfl)

theorem within_result {p : Prog R ε α} (hp : Returns P p) {r : Except ε α}
    (h : p.result = some r) : Within P r := by
  cases p with
  | pure a =>
    obtain rfl := Option.some.inj h
    intro b hb
    rw [← Except.ok.inj hb]
    exact hp
  | throw e =>
    obtain rfl := Option.some.inj h
    intro b hb
    contradiction
  | call c k => contradiction

theorem returns_next {c : C} {k : R c → Prog R ε α} (hp : Returns P (.call c k)) (t : τ) (s : σ) :
    Returns P (next exec t c k s).1 := by
  cases h : exec t c s with
  | ok rs =>
    rw [next_ok exec k h]
    exact hp rs.1
  | error e =>
    rw [next_error exec k h]
    trivial

end Results

section Transfer

variable {exec : Exec R ε σ τ} {obs : Except ε α → O} {obs' : Except ε α → O'} {P : α → Prop}
variable {I I' : σ → Prop} {ready ready' : Prog R ε α → σ → Prop}
variable {closing closing' : Prog R ε α → Prop}

theorem endsWith_transfer (hobs : Coarser P obs obs') {p : Prog R ε α} (hp : Returns P p)
    {r₀ : Except ε α} (hr₀ : Within P r₀) {s : σ} (h : EndsWith exec obs s (obs r₀) p) :
    EndsWith exec obs' s (obs' r₀) p := by
  obtain ⟨c, k, rfl, hall⟩ := h
  refine ⟨c, k, rfl, fun t => ?_⟩
  obtain ⟨hstore, r, hr, ho⟩ := hall t
  exact ⟨hstore, r, hr, hobs r₀ r hr₀ (within_result (returns_next hp t s) hr) ho⟩

theorem settled_transfer (hobs : Coarser P obs obs') {p : Prog R ε α} (hp : Returns P p)
    {r₀ : Except ε α} (hr₀ : Within P r₀) (h : Settled exec obs (obs r₀) p) :
    Settled exec obs' (obs' r₀) p := by
  rcases h with ⟨r, hr, ho⟩ | hall
  · exact Or.inl ⟨r, hr, hobs r₀ r hr₀ (within_result hp hr) ho⟩
  · exact Or.inr fun s => endsWith_transfer hobs hp hr₀ (hall s)

theorem confirms_transfer (hobs : Coarser P obs obs') (hclosing : ∀ p, closing p → closing' p)
    {p : Prog R ε α} (hp : Returns P p) {r₀ : Except ε α} (hr₀ : Within P r₀) {s : σ}
    (h : Confirms exec obs closing s (obs r₀) p) : Confirms exec obs' closing' s (obs' r₀) p := by
  rcases h with hsettled | ⟨hclose, hends⟩
  · exact Or.inl (settled_transfer hobs hp hr₀ hsettled)
  · exact Or.inr ⟨hclosing p hclose, endsWith_transfer hobs hp hr₀ hends⟩

theorem actsAs_transfer (hobs : Coarser P obs obs') (hI : ∀ s, I' s → I s)
    (hready : ∀ p s, ready' p s → ready p s) (hclosing : ∀ p, closing p → closing' p)
    {whole p : Prog R ε α} (hwhole : Returns P whole) (hp : Returns P p)
    (h : ActsAs exec obs I ready closing whole p) :
    ActsAs exec obs' I' ready' closing' whole p := by
  obtain ⟨c, k, rfl, hall⟩ := h
  refine ⟨c, k, rfl, fun t s hs hr => ?_⟩
  obtain ⟨ticks, hstore, hconfirms⟩ := hall t s (hI s hs) (hready _ s hr)
  exact ⟨ticks, hstore, confirms_transfer hobs hclosing (returns_next hp t s)
    (within_run hwhole ticks s) hconfirms⟩

/-- A program that checks and then acts does so for a coarser observer. -/
theorem checksThenActs_transfer (hobs : Coarser P obs obs') (hI : ∀ s, I' s → I s)
    (hready : ∀ p s, ready' p s → ready p s) (hclosing : ∀ p, closing p → closing' p)
    {p : Prog R ε α} (hp : Returns P p) (h : ChecksThenActs exec obs I ready closing p) :
    ChecksThenActs exec obs' I' ready' closing' p := by
  rcases h with hended | hacts | ⟨c, k, rfl, hchecks⟩
  · exact Or.inl hended
  · exact Or.inr (Or.inl (actsAs_transfer hobs hI hready hclosing hp hp hacts))
  · refine Or.inr (Or.inr ⟨c, k, rfl, fun t s hs => ?_⟩)
    obtain ⟨hstore, hacts | ⟨ticks, hrun, hsettled⟩⟩ := hchecks t s (hI s hs)
    · exact ⟨hstore, Or.inl
        (actsAs_transfer hobs hI hready hclosing hp (returns_next hp t s) hacts)⟩
    · exact ⟨hstore, Or.inr ⟨ticks, hrun,
        settled_transfer hobs (returns_next hp t s) (within_run hp ticks s) hsettled⟩⟩

end Transfer

end OktaScim.Observations
