import Mathlib.Logic.Function.Basic
import Mathlib.Data.Nat.Notation

/-!
Programs over an atomic object. A program is a tree of calls; every call is
answered in one indivisible step by an executor that owns the state, and an
error ends the program where it occurs. Nothing in this module is about one
particular object: the executor, its state and its outside choices (`τ`, such
as clocks and fresh names) are parameters.
-/
namespace OktaScim.Programs

/-- A program whose calls `c` are answered by an `R c`. -/
inductive Prog {C : Type} (R : C → Type) (ε α : Type) : Type
  | pure (a : α)
  | throw (e : ε)
  | call (c : C) (k : R c → Prog R ε α)

namespace Prog

variable {C : Type} {R : C → Type} {ε α β : Type}

def bind : Prog R ε α → (α → Prog R ε β) → Prog R ε β
  | .pure a, f => f a
  | .throw e, _ => .throw e
  | .call c k, f => .call c (fun r => bind (k r) f)

instance : Monad (Prog R ε) where
  pure := .pure
  bind := bind

/-- The program that makes one call and returns its answer. -/
def perform (c : C) : Prog R ε (R c) := .call c .pure

@[simp] theorem pure_bind' (a : α) (f : α → Prog R ε β) :
    (Prog.pure a : Prog R ε α) >>= f = f a := rfl

@[simp] theorem throw_bind (e : ε) (f : α → Prog R ε β) :
    (Prog.throw e : Prog R ε α) >>= f = .throw e := rfl

@[simp] theorem call_bind (c : C) (k : R c → Prog R ε α) (f : α → Prog R ε β) :
    (Prog.call c k : Prog R ε α) >>= f = .call c (fun r => k r >>= f) := rfl

@[simp] theorem perform_bind (c : C) (f : R c → Prog R ε β) :
    (perform c : Prog R ε (R c)) >>= f = .call c f := rfl

/-- What a program that has ended ended with. -/
def result : Prog R ε α → Option (Except ε α)
  | .pure a => some (.ok a)
  | .throw e => some (.error e)
  | .call _ _ => none

@[simp] theorem result_pure (a : α) : (Prog.pure a : Prog R ε α).result = some (.ok a) := rfl

@[simp] theorem result_throw (e : ε) : (Prog.throw e : Prog R ε α).result = some (.error e) := rfl

@[simp] theorem result_call (c : C) (k : R c → Prog R ε α) :
    (Prog.call c k : Prog R ε α).result = none := rfl

end Prog

/-- How an object answers a call: with an error and no effect, or with a
reply and its next state. -/
abbrev Exec {C : Type} (R : C → Type) (ε σ τ : Type) := τ → (c : C) → σ → Except ε (R c × σ)

section Sequential
variable {C : Type} {R : C → Type} {ε α β σ τ : Type} (exec : Exec R ε σ τ)

/-- One call of a program that is waiting for it. -/
def next (t : τ) (c : C) (k : R c → Prog R ε α) (s : σ) : Prog R ε α × σ :=
  match exec t c s with
  | .ok (r, s') => (k r, s')
  | .error e => (.throw e, s)

theorem next_ok {t : τ} {c : C} {s s' : σ} {r : R c} (k : R c → Prog R ε α)
    (h : exec t c s = .ok (r, s')) : next exec t c k s = (k r, s') := by
  simp only [next, h]

theorem next_error {t : τ} {c : C} {s : σ} {e : ε} (k : R c → Prog R ε α)
    (h : exec t c s = .error e) : next exec t c k s = (.throw e, s) := by
  simp only [next, h]

/-- The program run alone; its n-th call uses the n-th outside choice. -/
def run (ticks : ℕ → τ) : Prog R ε α → σ → Except ε α × σ
  | .pure a, s => (.ok a, s)
  | .throw e, s => (.error e, s)
  | .call c k, s =>
    match exec (ticks 0) c s with
    | .ok (r, s') => run (fun n => ticks (n + 1)) (k r) s'
    | .error e => (.error e, s)

@[simp] theorem run_pure (ticks : ℕ → τ) (a : α) (s : σ) :
    run exec ticks (.pure a : Prog R ε α) s = (.ok a, s) := rfl

@[simp] theorem run_throw (ticks : ℕ → τ) (e : ε) (s : σ) :
    run exec ticks (.throw e : Prog R ε α) s = (.error e, s) := rfl

theorem run_call (ticks : ℕ → τ) (c : C) (k : R c → Prog R ε α) (s : σ) :
    run exec ticks (.call c k) s =
      run exec (fun n => ticks (n + 1)) (next exec (ticks 0) c k s).1
        (next exec (ticks 0) c k s).2 := by
  simp only [run, next]
  split <;> rfl

theorem run_call_ok {ticks : ℕ → τ} {c : C} {s s' : σ} {r : R c} (k : R c → Prog R ε α)
    (h : exec (ticks 0) c s = .ok (r, s')) :
    run exec ticks (.call c k) s = run exec (fun n => ticks (n + 1)) (k r) s' := by
  rw [run_call, next_ok exec k h]

theorem run_call_error {ticks : ℕ → τ} {c : C} {s : σ} {e : ε} (k : R c → Prog R ε α)
    (h : exec (ticks 0) c s = .error e) :
    run exec ticks (.call c k) s = (.error e, s) := by
  rw [run_call, next_error exec k h, run_throw]

/-- Every value that the program can return satisfies `P`. -/
def Returns (P : α → Prop) : Prog R ε α → Prop
  | .pure a => P a
  | .throw _ => True
  | .call _ k => ∀ r, Returns P (k r)

theorem run_returns {P : α → Prop} (p : Prog R ε α) (hp : Returns P p) :
    ∀ (ticks : ℕ → τ) (s s' : σ) (a : α), run exec ticks p s = (.ok a, s') → P a := by
  induction p with
  | pure a =>
    intro ticks s s' b h
    cases h
    exact hp
  | throw e =>
    intro ticks s s' b h
    cases h
  | call c k ih =>
    intro ticks s s' b h
    cases hc : exec (ticks 0) c s with
    | ok rs =>
      obtain ⟨r, mid⟩ := rs
      rw [run_call_ok exec k hc] at h
      exact ih r (hp r) _ mid s' b h
    | error e =>
      rw [run_call_error exec k hc] at h
      cases h

theorem run_call_pure_ok {ticks : ℕ → τ} {c : C} {f : R c → α} {s s' : σ} {a : α}
    (h : run exec ticks (.call c fun r => (.pure (f r) : Prog R ε α)) s = (.ok a, s')) :
    ∃ r, exec (ticks 0) c s = .ok (r, s') ∧ a = f r := by
  cases hc : exec (ticks 0) c s with
  | ok rs =>
    obtain ⟨r, mid⟩ := rs
    rw [run_call_ok exec _ hc] at h
    cases h
    exact ⟨r, rfl, rfl⟩
  | error e =>
    rw [run_call_error exec _ hc] at h
    cases h

/-- A program of one call that fails has no effect. -/
theorem run_call_pure_error {ticks : ℕ → τ} {c : C} {f : R c → α} {s s' : σ} {e : ε}
    (h : run exec ticks (.call c fun r => .pure (f r)) s = (.error e, s')) : s' = s := by
  cases hc : exec (ticks 0) c s with
  | ok rs =>
    rw [run_call_ok exec _ hc] at h
    cases h
  | error e' =>
    rw [run_call_error exec _ hc] at h
    cases h
    rfl

/-- A property of the state that every answered call keeps. -/
def Keeps (I : σ → Prop) : Prop :=
  ∀ t c s r s', I s → exec t c s = .ok (r, s') → I s'

theorem next_keeps {I : σ → Prop} (hkeep : Keeps exec I) (t : τ) (c : C)
    (k : R c → Prog R ε α) (s : σ) (hs : I s) : I (next exec t c k s).2 := by
  unfold next
  split
  · rename_i r s' h
    exact hkeep t c s r s' hs h
  · exact hs

theorem run_keeps {I : σ → Prop} (hkeep : Keeps exec I) (p : Prog R ε α) :
    ∀ (ticks : ℕ → τ) (s : σ), I s → I (run exec ticks p s).2 := by
  induction p with
  | pure a => exact fun _ _ hs => hs
  | throw e => exact fun _ _ hs => hs
  | call c k ih =>
    intro ticks s hs
    have hnext := next_keeps exec hkeep (ticks 0) c k s hs
    cases h : exec (ticks 0) c s with
    | ok rs =>
      obtain ⟨r, s'⟩ := rs
      rw [run_call_ok exec k h]
      rw [next_ok exec k h] at hnext
      exact ih r _ s' hnext
    | error e =>
      rw [run_call_error exec k h]
      exact hs

end Sequential

end OktaScim.Programs
