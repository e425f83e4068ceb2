import OktaScim.Interleavings
import Mathlib.Data.List.Nodup

/-!
Linearizability by commit points. Each program is classified, at every moment
of its life, as pending or as committed to an observation. If a pending call
either leaves the state alone or has exactly the effect of the whole program
run alone at that moment, if committed programs only confirm what they are
committed to, and if other clients do not disturb the classification, then
every run is equivalent to running the programs one after the other, in the
order of their commit points, and this order respects real time.
-/
namespace OktaScim.Linearization

open Programs Interleavings

variable {ι C : Type} {R : C → Type} {ε α σ τ O : Type}
variable (exec : Exec R ε σ τ) (prog : ι → Prog R ε α)

/-- The programs of an order run one after the other, each with its own
outside choices, and what each of them ended with. -/
def runOrder : List (ι × (ℕ → τ)) → σ → List (ι × Except ε α) × σ
  | [], s => ([], s)
  | (i, ticks) :: rest, s =>
    ((i, (run exec ticks (prog i) s).1) :: (runOrder rest (run exec ticks (prog i) s).2).1,
      (runOrder rest (run exec ticks (prog i) s).2).2)

theorem runOrder_append (left right : List (ι × (ℕ → τ))) (s : σ) :
    runOrder exec prog (left ++ right) s =
      ((runOrder exec prog left s).1 ++ (runOrder exec prog right (runOrder exec prog left s).2).1,
        (runOrder exec prog right (runOrder exec prog left s).2).2) := by
  induction left generalizing s with
  | nil => rfl
  | cons entry rest ih =>
    obtain ⟨i, ticks⟩ := entry
    simp only [List.cons_append, runOrder, ih]

theorem runOrder_fst (order : List (ι × (ℕ → τ))) (s : σ) :
    (runOrder exec prog order s).1.map Prod.fst = order.map Prod.fst := by
  induction order generalizing s with
  | nil => rfl
  | cons entry rest ih =>
    obtain ⟨i, ticks⟩ := entry
    simp only [runOrder, List.map_cons, ih]

theorem mem_order_of_mem_results {order : List (ι × (ℕ → τ))} {s : σ} {i : ι}
    {r : Except ε α} (h : (i, r) ∈ (runOrder exec prog order s).1) :
    i ∈ order.map Prod.fst := by
  rw [← runOrder_fst exec prog order s]
  exact List.mem_map_of_mem (f := Prod.fst) h

/-- A result in an order is the program's own, run alone in some state on the way. -/
theorem mem_runOrder {I : σ → Prop} (hkeep : Keeps exec I) {order : List (ι × (ℕ → τ))}
    {s : σ} (hs : I s) {i : ι} {r : Except ε α} (h : (i, r) ∈ (runOrder exec prog order s).1) :
    ∃ ticks s' t, I s' ∧ run exec ticks (prog i) s' = (r, t) := by
  induction order generalizing s with
  | nil => simp [runOrder] at h
  | cons entry rest ih =>
    obtain ⟨j, ticks⟩ := entry
    simp only [runOrder, List.mem_cons, Prod.mk.injEq] at h
    rcases h with ⟨rfl, rfl⟩ | h
    · exact ⟨ticks, s, _, hs, rfl⟩
    · exact ih (run_keeps exec hkeep (prog j) ticks s hs) h

/-- The order explains a configuration: run one after the other from `s`, the
programs reach its state and give every client the observation it was given,
and a program that ended before another was sent comes first. -/
structure Linearizes (obs : Except ε α → O) (s : σ) (cfg : Config ι R ε α σ)
    (order : List (ι × (ℕ → τ))) : Prop where
  nodup : (order.map Prod.fst).Nodup
  sent : ∀ i ∈ order.map Prod.fst, cfg.threads i ≠ none
  store : (runOrder exec prog order s).2 = cfg.store
  answers : ∀ i r, cfg.answered i = some r →
    ∃ r', (i, r') ∈ (runOrder exec prog order s).1 ∧ obs r' = obs r
  realTime : ∀ i j, cfg.precedes i j = true → j ∈ order.map Prod.fst →
    List.Sublist [i, j] (order.map Prod.fst)

/-- Once every program sent has ended, the order holds exactly these programs. -/
theorem Linearizes.mem_iff_of_quiescent {obs : Except ε α → O} {s : σ}
    {cfg : Config ι R ε α σ} {order : List (ι × (ℕ → τ))}
    (h : Linearizes exec prog obs s cfg order) (hq : cfg.Quiescent) (i : ι) :
    i ∈ order.map Prod.fst ↔ cfg.threads i ≠ none := by
  constructor
  · exact h.sent i
  · intro hi
    obtain ⟨p, hp⟩ := Option.ne_none_iff_exists'.mp hi
    obtain ⟨r, hr⟩ := Option.ne_none_iff_exists'.mp (hq i p hp)
    have hans : cfg.answered i = some r := by
      simp only [Config.answered, hp, Option.bind_some, hr]
    obtain ⟨r', hmem, _⟩ := h.answers i r hans
    exact mem_order_of_mem_results exec prog hmem

/-- A classification of the programs' remaining parts by commit points, for
the runs of `allowed` events over states that satisfy `I`. -/
structure CommitPoints (obs : Except ε α → O) (I : σ → Prop)
    (allowed : Config ι R ε α σ → Event ι τ → Prop) where
  Pending : ι → σ → Prog R ε α → Prop
  Committed : ι → σ → O → Prog R ε α → Prop
  start : ∀ i s, I s → Pending i s (prog i) ∨
    ∃ ticks, (run exec ticks (prog i) s).2 = s ∧
      Committed i s (obs (run exec ticks (prog i) s).1) (prog i)
  pending_call : ∀ cfg i t c k, I cfg.store → allowed cfg (.call i t) →
    cfg.threads i = some (.call c k) → Pending i cfg.store (.call c k) →
    ((next exec t c k cfg.store).2 = cfg.store ∧
      Pending i cfg.store (next exec t c k cfg.store).1) ∨
    ∃ ticks, (run exec ticks (prog i) cfg.store).2 = (next exec t c k cfg.store).2 ∧
      Committed i (next exec t c k cfg.store).2 (obs (run exec ticks (prog i) cfg.store).1)
        (next exec t c k cfg.store).1
  committed_call : ∀ i s t c k o, I s → Committed i s o (.call c k) →
    (next exec t c k s).2 = s ∧ Committed i s o (next exec t c k s).1
  pending_unended : ∀ i s p, Pending i s p → p.result = none
  committed_result : ∀ i s o p r, Committed i s o p → p.result = some r → o = obs r
  stable : ∀ cfg j t c k, I cfg.store → allowed cfg (.call j t) →
    cfg.threads j = some (.call c k) → ∀ i p, i ≠ j → cfg.threads i = some p →
    (Pending i cfg.store p → Pending i (next exec t c k cfg.store).2 p) ∧
    ∀ o, Committed i cfg.store o p → Committed i (next exec t c k cfg.store).2 o p

namespace CommitPoints

variable {exec prog}
variable {obs : Except ε α → O} {I : σ → Prop}
  {allowed : Config ι R ε α σ → Event ι τ → Prop}

/-- The invariant that relates a configuration to the order built so far. -/
structure Tracks (P : CommitPoints exec prog obs I allowed) (s : σ)
    (cfg : Config ι R ε α σ) (order : List (ι × (ℕ → τ))) : Prop where
  nodup : (order.map Prod.fst).Nodup
  sent : ∀ i ∈ order.map Prod.fst, cfg.threads i ≠ none
  store : (runOrder exec prog order s).2 = cfg.store
  phase : ∀ i p, cfg.threads i = some p →
    (i ∉ order.map Prod.fst ∧ P.Pending i cfg.store p) ∨
    ∃ r, (i, r) ∈ (runOrder exec prog order s).1 ∧ P.Committed i cfg.store (obs r) p
  earlier : ∀ i j, cfg.precedes i j = true → (cfg.answered i).isSome = true
  realTime : ∀ i j, cfg.precedes i j = true → j ∈ order.map Prod.fst →
    List.Sublist [i, j] (order.map Prod.fst)

variable {P : CommitPoints exec prog obs I allowed} {s : σ} {cfg : Config ι R ε α σ}
  {order : List (ι × (ℕ → τ))}

theorem Tracks.answers (h : P.Tracks s cfg order) (i : ι) (r : Except ε α)
    (hans : cfg.answered i = some r) :
    ∃ r', (i, r') ∈ (runOrder exec prog order s).1 ∧ obs r' = obs r := by
  obtain ⟨p, hp, hr⟩ := Option.bind_eq_some_iff.mp hans
  rcases h.phase i p hp with ⟨_, hpend⟩ | ⟨r', hmem, hcom⟩
  · rw [P.pending_unended i _ p hpend] at hr
    contradiction
  · exact ⟨r', hmem, P.committed_result i _ _ p r hcom hr⟩

theorem Tracks.mem_of_answered (h : P.Tracks s cfg order) (i : ι)
    (hans : (cfg.answered i).isSome = true) : i ∈ order.map Prod.fst := by
  obtain ⟨r, hr⟩ := Option.isSome_iff_exists.mp hans
  obtain ⟨r', hmem, _⟩ := h.answers i r hr
  exact mem_order_of_mem_results exec prog hmem

theorem Tracks.linearizes (h : P.Tracks s cfg order) :
    Linearizes exec prog obs s cfg order :=
  ⟨h.nodup, h.sent, h.store, h.answers, h.realTime⟩

theorem tracks_initial (P : CommitPoints exec prog obs I allowed) (s : σ) :
    P.Tracks s (Config.initial s) [] where
  nodup := List.nodup_nil
  sent := by simp
  store := rfl
  phase := by simp [Config.initial]
  earlier := by simp [Config.initial]
  realTime := by simp

/-- Appending a program to the order puts it after every program in it. -/
theorem sublist_append_last {l : List ι} {i j : ι} (h : i ∈ l) :
    List.Sublist [i, j] (l ++ [j]) :=
  List.Sublist.append (List.singleton_sublist.mpr h) (List.Sublist.refl [j])

theorem Tracks.earlier_of_moves (h : P.Tracks s cfg order) {cfg' : Config ι R ε α σ} {i : ι}
    {p : Prog R ε α} (hm : Moves cfg cfg' i p) {a b : ι} (hab : cfg'.precedes a b = true) :
    (cfg.answered a).isSome = true ∧ (cfg'.answered a).isSome = true := by
  have hold : (cfg.answered a).isSome = true := by
    rcases hm.precedes a b hab with ⟨_, hans⟩ | hprec
    · exact hans
    · exact h.earlier a b hprec
  have hai : a ≠ i := by
    intro heq
    rw [heq, hm.unanswered] at hold
    contradiction
  rw [hm.answered hai]
  exact ⟨hold, hold⟩

/-- A move after which client `i` is classified as before leaves the order alone. -/
theorem Tracks.stay (h : P.Tracks s cfg order) {cfg' : Config ι R ε α σ} {i : ι}
    {p : Prog R ε α} (hm : Moves cfg cfg' i p) (hstore : cfg'.store = cfg.store)
    (hself : (i ∉ order.map Prod.fst ∧ P.Pending i cfg.store p) ∨
      ∃ r, (i, r) ∈ (runOrder exec prog order s).1 ∧ P.Committed i cfg.store (obs r) p)
    (hpast : ∀ a, i ∈ order.map Prod.fst → cfg'.precedes a i = true → cfg.precedes a i = true) :
    P.Tracks s cfg' order := by
  refine ⟨h.nodup, ?_, h.store.trans hstore.symm, ?_,
    fun a b hab => (h.earlier_of_moves hm hab).2, ?_⟩
  · intro j hj
    by_cases hji : j = i
    · rw [hji, hm.self]
      simp
    · rw [hm.other j hji]
      exact h.sent j hj
  · intro j q hq
    rw [hstore]
    by_cases hji : j = i
    · subst hji
      cases Option.some.inj (hm.self.symm.trans hq)
      exact hself
    · exact h.phase j q ((hm.other j hji).symm.trans hq)
  · intro a b hab hb
    rcases hm.precedes a b hab with ⟨rfl, _⟩ | hprec
    · exact h.realTime a b (hpast a hb hab) hb
    · exact h.realTime a b hprec hb

/-- A move that commits client `i` puts it at the end of the order. -/
theorem Tracks.commit (h : P.Tracks s cfg order) {cfg' : Config ι R ε α σ} {i : ι}
    {p : Prog R ε α} (hm : Moves cfg cfg' i p) (hfresh : i ∉ order.map Prod.fst)
    (ticks : ℕ → τ) (hstore : (run exec ticks (prog i) cfg.store).2 = cfg'.store)
    (hcom : P.Committed i cfg'.store (obs (run exec ticks (prog i) cfg.store).1) p)
    (hstable : ∀ j q, j ≠ i → cfg.threads j = some q →
      (P.Pending j cfg.store q → P.Pending j cfg'.store q) ∧
      ∀ o, P.Committed j cfg.store o q → P.Committed j cfg'.store o q) :
    P.Tracks s cfg' (order ++ [(i, ticks)]) := by
  have hmap : (order ++ [(i, ticks)]).map Prod.fst = order.map Prod.fst ++ [i] := by simp
  refine ⟨?_, ?_, ?_, ?_, fun a b hab => (h.earlier_of_moves hm hab).2, ?_⟩
  · rw [hmap]
    exact List.nodup_append_comm.mp (List.nodup_cons.mpr ⟨hfresh, h.nodup⟩)
  · intro j hj
    by_cases hji : j = i
    · rw [hji, hm.self]
      simp
    · rw [hm.other j hji]
      exact h.sent j (by simpa [hmap, hji] using hj)
  · simpa only [runOrder_append, h.store, runOrder] using hstore
  · intro j q hq
    by_cases hji : j = i
    · subst hji
      cases Option.some.inj (hm.self.symm.trans hq)
      exact Or.inr ⟨_, by simp [runOrder_append, runOrder, h.store], hcom⟩
    · have hq' := (hm.other j hji).symm.trans hq
      rcases h.phase j q hq' with ⟨hnot, hpend⟩ | ⟨r, hmem, hcom'⟩
      · exact Or.inl ⟨by simpa [hmap, hji] using hnot, (hstable j q hji hq').1 hpend⟩
      · exact Or.inr ⟨r, by simp [runOrder_append, hmem], (hstable j q hji hq').2 _ hcom'⟩
  · intro a b hab hb
    rw [hmap] at hb ⊢
    have hans := (h.earlier_of_moves hm hab).1
    by_cases hbi : b = i
    · subst hbi
      exact sublist_append_last (h.mem_of_answered a hans)
    · have hb' : b ∈ order.map Prod.fst := by simpa [hbi] using hb
      rcases hm.precedes a b hab with ⟨heq, _⟩ | hprec
      · exact absurd heq hbi
      · exact (h.realTime a b hprec hb').trans (List.sublist_append_left _ _)

variable [DecidableEq ι]

theorem Tracks.start (h : P.Tracks s cfg order) (hI : I cfg.store) {i : ι}
    (hnone : cfg.threads i = none) :
    ∃ order', P.Tracks s (startConfig prog cfg i) order' := by
  have hfresh : i ∉ order.map Prod.fst := fun hmem => h.sent i hmem hnone
  have hm := moves_startConfig prog hnone
  rcases P.start i cfg.store hI with hpend | ⟨ticks, hstore, hcom⟩
  · exact ⟨order, h.stay hm rfl (Or.inl ⟨hfresh, hpend⟩) (fun _ hi _ => absurd hi hfresh)⟩
  · exact ⟨order ++ [(i, ticks)], h.commit hm hfresh ticks hstore hcom
      (fun _ _ _ _ => ⟨id, fun _ => id⟩)⟩

theorem Tracks.call (h : P.Tracks s cfg order) (hI : I cfg.store) {i : ι} {t : τ} {c : C}
    {k : R c → Prog R ε α} (hallow : allowed cfg (.call i t))
    (hcall : cfg.threads i = some (.call c k)) :
    ∃ order', P.Tracks s (callConfig exec cfg i t c k) order' := by
  have hm := moves_callConfig exec t hcall
  rcases h.phase i _ hcall with ⟨hfresh, hpend⟩ | ⟨r, hmem, hcom⟩
  · rcases P.pending_call cfg i t c k hI hallow hcall hpend with
      ⟨hstore, hpend'⟩ | ⟨ticks, hstore, hcom⟩
    · exact ⟨order, h.stay hm hstore (Or.inl ⟨hfresh, hpend'⟩) (fun _ _ hprec => hprec)⟩
    · exact ⟨order ++ [(i, ticks)], h.commit hm hfresh ticks hstore hcom
        (fun j q hj hq => P.stable cfg i t c k hI hallow hcall j q hj hq)⟩
  · obtain ⟨hstore, hcom'⟩ := P.committed_call i cfg.store t c k (obs r) hI hcom
    exact ⟨order, h.stay hm hstore (Or.inr ⟨r, hmem, hcom'⟩) (fun _ _ hprec => hprec)⟩

/-- Every configuration that allowed events reach is explained by an order. -/
theorem linearizable (P : CommitPoints exec prog obs I allowed) (hkeep : Keeps exec I)
    (s : σ) (hs : I s) {cfg : Config ι R ε α σ}
    (h : Reaches exec prog allowed (Config.initial s) cfg) :
    ∃ order, Linearizes exec prog obs s cfg order := by
  have aux : I cfg.store ∧ ∃ order, P.Tracks s cfg order := by
    induction h with
    | refl => exact ⟨hs, [], tracks_initial P s⟩
    | @tail cfg cfg' e _ hallow hstep ih =>
      obtain ⟨hI, order, htracks⟩ := ih
      cases e with
      | start i =>
        obtain ⟨hnone, rfl⟩ := step_start_cases exec prog hstep
        exact ⟨hI, htracks.start hI hnone⟩
      | call i t =>
        obtain ⟨c, k, hcall, rfl⟩ := step_call_cases exec prog hstep
        exact ⟨next_keeps exec hkeep t c k cfg.store hI, htracks.call hI hallow hcall⟩
  obtain ⟨_, order, htracks⟩ := aux
  exact ⟨order, htracks.linearizes⟩

end CommitPoints

end OktaScim.Linearization
