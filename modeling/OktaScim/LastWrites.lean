import Mathlib.Data.List.Basic

/-!
Runs of partial steps over a list, in which some steps send something to a
place. What the place holds after a run is what is made of the last thing sent
to it, and the run goes through exactly when each step does. States, steps and
places are arbitrary.
-/
namespace OktaScim.LastWrites

variable {σ ω μ ν : Type}

section Writes

variable (sent : ω → Option μ)

/-- What is sent last. -/
def lastWrite (ops : List ω) : Option μ := (ops.filterMap sent).getLast?

@[simp] theorem lastWrite_nil : lastWrite sent [] = none := rfl

theorem lastWrite_append (ops₁ ops₂ : List ω) :
    lastWrite sent (ops₁ ++ ops₂) = (lastWrite sent ops₂).or (lastWrite sent ops₁) := by
  rw [lastWrite, List.filterMap_append, List.getLast?_append]
  rfl

theorem lastWrite_cons (o : ω) (ops : List ω) :
    lastWrite sent (o :: ops) = (lastWrite sent ops).or (sent o) := by
  have hone : lastWrite sent [o] = sent o := by
    cases h : sent o <;> simp [lastWrite, h]
  rw [← List.singleton_append, lastWrite_append, hone]

variable {sent}

theorem mem_of_lastWrite {ops : List ω} {v : μ} (h : lastWrite sent ops = some v) :
    ∃ o ∈ ops, sent o = some v :=
  List.mem_filterMap.mp (List.mem_of_getLast? h)

theorem lastWrite_eq_none_iff {ops : List ω} :
    lastWrite sent ops = none ↔ ∀ o ∈ ops, sent o = none := by
  rw [lastWrite, List.getLast?_eq_none_iff, List.filterMap_eq_nil_iff]

/-- The last thing sent, with what comes before it and what comes after. -/
theorem lastWrite_eq_some_iff {ops : List ω} {v : μ} :
    lastWrite sent ops = some v ↔
      ∃ before o after, ops = before ++ o :: after ∧ sent o = some v ∧
        ∀ p ∈ after, sent p = none := by
  constructor
  · intro h
    induction ops with
    | nil => contradiction
    | cons o ops ih =>
      rw [lastWrite_cons] at h
      cases hrest : lastWrite sent ops with
      | none =>
        rw [hrest] at h
        exact ⟨[], o, ops, rfl, h, lastWrite_eq_none_iff.mp hrest⟩
      | some w =>
        rw [hrest] at h
        obtain ⟨before, p, after, rfl, hsent, hafter⟩ := ih (hrest.trans h)
        exact ⟨o :: before, p, after, rfl, hsent, hafter⟩
  · rintro ⟨before, o, after, rfl, hsent, hafter⟩
    rw [lastWrite_append, lastWrite_cons, lastWrite_eq_none_iff.mpr hafter, hsent]
    rfl

theorem lastWrite_map (make : μ → ν) (ops : List ω) :
    lastWrite (fun o => (sent o).map make) ops = (lastWrite sent ops).map make := by
  rw [lastWrite, lastWrite, ← List.getLast?_map, List.map_filterMap]

/-- What is skipped sends nothing. -/
theorem lastWrite_filter (keeps : ω → Bool) (ops : List ω) :
    lastWrite sent (ops.filter keeps) =
      lastWrite (fun o => if keeps o then sent o else none) ops := by
  rw [lastWrite, lastWrite, List.filterMap_filter]

/-- A fold in which every step writes what it sends, or nothing. -/
theorem foldl_lastWrite (sent : ω → Option μ) (ops : List ω) (old : μ) :
    ops.foldl (fun v o => (sent o).getD v) old = (lastWrite sent ops).getD old := by
  induction ops generalizing old with
  | nil => rfl
  | cons o ops ih =>
    rw [List.foldl_cons, ih, lastWrite_cons]
    cases lastWrite sent ops <;> rfl

end Writes

section Runs

variable {step : σ → ω → Option σ}

/-- The induction is on the steps; each hands the place on to the rest. -/
theorem foldlM_view (view : σ → ν) (sent : ω → Option μ) (made : μ → ν)
    (hstep : ∀ s o s', step s o = some s' → view s' = ((sent o).map made).getD (view s))
    {ops : List ω} {s s' : σ} (h : ops.foldlM step s = some s') :
    view s' = ((lastWrite sent ops).map made).getD (view s) := by
  induction ops generalizing s with
  | nil =>
    cases h
    rfl
  | cons o ops ih =>
    obtain ⟨mid, hmid, hrest⟩ := Option.bind_eq_some_iff.mp h
    rw [ih hrest, hstep s o mid hmid, lastWrite_cons]
    cases lastWrite sent ops <;> rfl

theorem foldlM_isSome {ok : ω → Prop} (hstep : ∀ s o, (step s o).isSome = true ↔ ok o)
    (ops : List ω) (s : σ) : (ops.foldlM step s).isSome = true ↔ ∀ o ∈ ops, ok o := by
  induction ops generalizing s with
  | nil => simp
  | cons o ops ih =>
    have hfirst := hstep s o
    rw [List.foldlM_cons, List.forall_mem_cons]
    cases hmid : step s o with
    | none =>
      rw [hmid] at hfirst
      simp only [Option.isSome_none, Bool.false_eq_true, false_iff] at hfirst
      simp [hfirst]
    | some mid =>
      rw [hmid] at hfirst
      have hok : ok o := hfirst.mp rfl
      simp only [Option.bind_eq_bind, Option.bind_some, ih mid, hok, true_and]

/-- A recursion over a list with gaps, at which it fails, is a run. -/
theorem eq_foldlM_of_cons (run : σ → List (Option ω) → Option σ) (hnil : ∀ s, run s [] = some s)
    (hgap : ∀ s ops, run s (none :: ops) = none)
    (hcons : ∀ s o ops, run s (some o :: ops) = (step s o).bind fun s' => run s' ops) (s : σ)
    (ops : List (Option ω)) : run s ops = ops.foldlM (fun s o => o.bind (step s)) s := by
  induction ops generalizing s with
  | nil => exact hnil s
  | cons o ops ih =>
    cases o with
    | none => exact hgap s ops
    | some o =>
      rw [hcons, List.foldlM_cons]
      exact congrArg _ (funext ih)

end Runs

end OktaScim.LastWrites
