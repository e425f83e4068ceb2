import Mathlib.Data.List.Basic
import Mathlib.Logic.Function.Basic

/-!
Any number of copies of one machine, each with inputs of its own, that share
nothing but the process they run in. In whatever order the inputs come, every
copy does what it would do alone with its own inputs, until some copy puts out
what ends the process.
-/
namespace OktaScim.IndependentMachines

section Machines

variable {σ α β : Type}

/-- The state behind a list of inputs, and everything that is put out. -/
def runOne (step : σ → α → σ × List β) : List α → σ → σ × List β
  | [], s => (s, [])
  | a :: as, s => ((runOne step as (step s a).1).1, (step s a).2 ++ (runOne step as (step s a).1).2)

variable {step : σ → α → σ × List β}

theorem runOne_append (as bs : List α) (s : σ) :
    runOne step (as ++ bs) s =
      ((runOne step bs (runOne step as s).1).1,
        (runOne step as s).2 ++ (runOne step bs (runOne step as s).1).2) := by
  induction as generalizing s with
  | nil => rfl
  | cons a as ih => simp only [List.cons_append, runOne, ih, List.append_assoc]

theorem runOne_cons {s s' : σ} {a : α} {out : List β} (h : step s a = (s', out)) (as : List α) :
    runOne step (a :: as) s = ((runOne step as s').1, out ++ (runOne step as s').2) := by
  rw [runOne, h]

end Machines

section Copies

variable {ι σ α β γ : Type} [DecidableEq ι]

/-- What belongs to the copy `i`. -/
def own (i : ι) (xs : List (ι × γ)) : List γ :=
  xs.filterMap fun x => if x.1 = i then some x.2 else none

theorem own_append (i : ι) (xs ys : List (ι × γ)) : own i (xs ++ ys) = own i xs ++ own i ys := by
  unfold own
  rw [List.filterMap_append]

theorem own_cons_same (i : ι) (x : γ) (xs : List (ι × γ)) :
    own i ((i, x) :: xs) = x :: own i xs := by
  simp [own]

theorem own_cons_other {i j : ι} (h : j ≠ i) (x : γ) (xs : List (ι × γ)) :
    own i ((j, x) :: xs) = own i xs := by
  simp [own, h]

theorem own_tagged_same (i : ι) (xs : List γ) : own i (xs.map fun x => (i, x)) = xs := by
  induction xs with
  | nil => rfl
  | cons x xs ih => rw [List.map_cons, own_cons_same, ih]

theorem own_tagged_other {i j : ι} (h : j ≠ i) (xs : List γ) :
    own i (xs.map fun x => (j, x)) = [] := by
  induction xs with
  | nil => rfl
  | cons x xs ih => rw [List.map_cons, own_cons_other h, ih]

def runAll (step : σ → α → σ × List β) :
    List (ι × α) → (ι → σ) → (ι → σ) × List (ι × β)
  | [], s => (s, [])
  | (i, a) :: as, s =>
    let first := step (s i) a
    let rest := runAll step as (Function.update s i first.1)
    (rest.1, (first.2.map fun b => (i, b)) ++ rest.2)

/-- The induction is on the inputs of all copies, from any states. -/
theorem runAll_own (step : σ → α → σ × List β) (i : ι) (inputs : List (ι × α)) (s : ι → σ) :
    (runAll step inputs s).1 i = (runOne step (own i inputs) (s i)).1 ∧
      own i (runAll step inputs s).2 = (runOne step (own i inputs) (s i)).2 := by
  induction inputs generalizing s with
  | nil => exact ⟨rfl, rfl⟩
  | cons input inputs ih =>
    obtain ⟨j, a⟩ := input
    obtain ⟨hstate, houtput⟩ := ih (Function.update s j (step (s j) a).1)
    by_cases hij : j = i
    · subst hij
      rw [Function.update_self] at hstate houtput
      rw [own_cons_same, runOne, runAll]
      exact ⟨hstate, by rw [own_append, own_tagged_same, houtput]⟩
    · rw [Function.update_of_ne (Ne.symm hij)] at hstate houtput
      rw [own_cons_other hij, runAll]
      exact ⟨hstate, by rw [own_append, own_tagged_other hij, List.nil_append, houtput]⟩

end Copies

section Ends

variable {ι σ α β : Type} [DecidableEq ι] (step : σ → α → σ × List β) (fatal : β → Bool)

/-- After a fatal output no copy does anything. -/
def runUntil : List (ι × α) → (ι → σ) → (ι → σ) × List (ι × β)
  | [], s => (s, [])
  | (i, a) :: as, s =>
    let first := step (s i) a
    let out := first.2.map fun b => (i, b)
    if first.2.any fatal then (Function.update s i first.1, out)
    else
      let rest := runUntil as (Function.update s i first.1)
      (rest.1, out ++ rest.2)

variable {step fatal} {inputs : List (ι × α)} {s : ι → σ}

theorem runUntil_eq_runAll (h : ∀ x ∈ (runUntil step fatal inputs s).2, fatal x.2 = false) :
    runUntil step fatal inputs s = runAll step inputs s := by
  induction inputs generalizing s with
  | nil => rfl
  | cons input inputs ih =>
    obtain ⟨i, a⟩ := input
    have hfirst : (step (s i) a).2.any fatal = false := by
      by_contra hfatal
      rw [Bool.not_eq_false] at hfatal
      obtain ⟨b, hb, hfb⟩ := List.any_eq_true.mp hfatal
      rw [runUntil, if_pos hfatal] at h
      have hnot := h (i, b) (List.mem_map_of_mem hb)
      rw [hfb] at hnot
      contradiction
    rw [runUntil, if_neg (by rw [hfirst]; exact Bool.false_ne_true)] at h ⊢
    have hrest := ih fun x hx => h x (List.mem_append_right _ hx)
    rw [runAll, hrest]

/-- The process ends with the outputs of the step that put out the fatal one. -/
theorem exists_fatal_step {x : ι × β} (hx : x ∈ (runUntil step fatal inputs s).2)
    (hfatal : fatal x.2 = true) :
    ∃ before a after, inputs = before ++ (x.1, a) :: after ∧
      x.2 ∈ (step ((runAll step before s).1 x.1) a).2 ∧
      (runUntil step fatal inputs s).2 = (runAll step before s).2 ++
        (step ((runAll step before s).1 x.1) a).2.map fun b => (x.1, b) := by
  induction inputs generalizing s with
  | nil => cases hx
  | cons input inputs ih =>
    obtain ⟨i, a⟩ := input
    rw [runUntil] at hx ⊢
    by_cases hfirst : (step (s i) a).2.any fatal = true
    · rw [if_pos hfirst] at hx ⊢
      obtain ⟨b, hb, rfl⟩ := List.mem_map.mp hx
      exact ⟨[], a, inputs, rfl, hb, rfl⟩
    · rw [if_neg hfirst] at hx ⊢
      have hlater : x ∈ (runUntil step fatal inputs (Function.update s i (step (s i) a).1)).2 := by
        rcases List.mem_append.mp hx with hout | hrest
        · obtain ⟨b, hb, rfl⟩ := List.mem_map.mp hout
          exact absurd (List.any_eq_true.mpr ⟨b, hb, hfatal⟩) hfirst
        · exact hrest
      obtain ⟨before, a', after, rfl, hmem, hout⟩ := ih hlater
      refine ⟨(i, a) :: before, a', after, rfl, hmem, ?_⟩
      rw [runAll, List.append_assoc]
      exact congrArg _ hout

end Ends

end OktaScim.IndependentMachines
