import OktaScim.Programs

/-!
Two runs of programs on states that differ in what they hide. `hide` takes the
hidden part out of a state, and a call is matched by a call on the state
without it, whose reply is the reply of the first one as an observer sees it.
Programs that only use what is seen of their replies give the same answers
from states that look alike, and leave states that look alike.
-/
namespace OktaScim.TwoRuns

open Programs

variable {C : Type} {R : C → Type} {ε α σ τ : Type} (exec : Exec R ε σ τ) (hide : σ → σ)

/-- The call `c₀` on the visible part of a state does what `c` does on the
state, as far as `seen` shows its reply. -/
def Hides (c c₀ : C) (seen : R c → R c₀) : Prop :=
  ∀ t s, exec t c₀ (hide s) = (exec t c s).map (Prod.map seen hide)

/-- The programs make calls that hide to the same ones, and go on alike from
replies that look alike. -/
inductive Twins : Prog R ε α → Prog R ε α → Prop
  | pure (a : α) : Twins (.pure a) (.pure a)
  | throw (e : ε) : Twins (.throw e) (.throw e)
  | call {c c' c₀ : C} {seen : R c → R c₀} {seen' : R c' → R c₀} {k : R c → Prog R ε α}
      {k' : R c' → Prog R ε α} (h : Hides exec hide c c₀ seen) (h' : Hides exec hide c' c₀ seen')
      (hk : ∀ r r', seen r = seen' r' → Twins (k r) (k' r')) : Twins (.call c k) (.call c' k')

variable {exec hide}

/-- Calls that hide to the same one are answered alike. -/
theorem exec_alike {c c' c₀ : C} {seen : R c → R c₀} {seen' : R c' → R c₀}
    (h : Hides exec hide c c₀ seen) (h' : Hides exec hide c' c₀ seen') (t : τ) {s s' : σ}
    (hs : hide s = hide s') :
    (exec t c s).map (Prod.map seen hide) = (exec t c' s').map (Prod.map seen' hide) := by
  rw [← h t s, ← h' t s', hs]

/-- By induction on the pair of programs, with the states alike at every step. -/
theorem run_twins {p p' : Prog R ε α} (h : Twins exec hide p p') (ticks : ℕ → τ) {s s' : σ}
    (hs : hide s = hide s') :
    (run exec ticks p s).1 = (run exec ticks p' s').1 ∧
      hide (run exec ticks p s).2 = hide (run exec ticks p' s').2 := by
  induction h generalizing ticks s s' with
  | pure a => exact ⟨rfl, hs⟩
  | throw e => exact ⟨rfl, hs⟩
  | @call c c' c₀ seen seen' k k' hc hc' _ ih =>
    have halike := exec_alike hc hc' (ticks 0) hs
    cases hleft : exec (ticks 0) c s with
    | error e =>
      cases hright : exec (ticks 0) c' s' with
      | error e' =>
        rw [hleft, hright] at halike
        injection halike with he
        rw [run_call_error exec k hleft, run_call_error exec k' hright, he]
        exact ⟨rfl, hs⟩
      | ok r' =>
        rw [hleft, hright] at halike
        contradiction
    | ok r =>
      cases hright : exec (ticks 0) c' s' with
      | error e' =>
        rw [hleft, hright] at halike
        contradiction
      | ok r' =>
        rw [hleft, hright] at halike
        obtain ⟨r, u⟩ := r
        obtain ⟨r', u'⟩ := r'
        injection halike with hpair
        have hreply : seen r = seen' r' := congrArg Prod.fst hpair
        have hstate : hide u = hide u' := congrArg Prod.snd hpair
        rw [run_call_ok exec k hleft, run_call_ok exec k' hright]
        exact ih r r' hreply _ hstate

/-- A call whose answer is made of what is seen of the reply. -/
theorem Twins.answer {c c' c₀ : C} {seen : R c → R c₀} {seen' : R c' → R c₀}
    (h : Hides exec hide c c₀ seen) (h' : Hides exec hide c' c₀ seen') {f : R c → α}
    {f' : R c' → α} (f₀ : R c₀ → α) (hf : ∀ r, f r = f₀ (seen r))
    (hf' : ∀ r, f' r = f₀ (seen' r)) :
    Twins exec hide (.call c fun r => .pure (f r)) (.call c' fun r => .pure (f' r)) := by
  refine .call h h' fun r r' hr => ?_
  rw [hf r, hf' r', hr]
  exact .pure _

end OktaScim.TwoRuns
