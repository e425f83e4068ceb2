import Mathlib.Data.List.Forall2

/-!
Objects that serve requests one after the other. Two objects whose states are
related, and stay so while their results agree, agree over whole sessions. A
request may be served from any state that an invariant admits.
-/
namespace OktaScim.Simulations

variable {ρ ρ' σ σ' β β' : Type}

/-- The results of a session and the state behind it. -/
def runAll (serve : ρ → σ → β × σ) : List ρ → σ → List β × σ
  | [], s => ([], s)
  | r :: rs, s =>
    ((serve r s).1 :: (runAll serve rs (serve r s).2).1, (runAll serve rs (serve r s).2).2)

/-- Requests that are served alike: their results agree, and the states behind
them are related as those before. -/
def Alike (serve : ρ → σ → β × σ) (serve' : ρ' → σ' → β' × σ') (related : σ → σ' → Prop)
    (agree : β → β' → Prop) (r : ρ) (r' : ρ') : Prop :=
  ∀ s s', related s s' →
    agree (serve r s).1 (serve' r' s').1 ∧ related (serve r s).2 (serve' r' s').2

/-- By induction on the sessions, with the states related at every request. -/
theorem runAll_alike {serve : ρ → σ → β × σ} {serve' : ρ' → σ' → β' × σ'}
    {related : σ → σ' → Prop} {agree : β → β' → Prop} {rs : List ρ} {rs' : List ρ'}
    (h : List.Forall₂ (Alike serve serve' related agree) rs rs') {s : σ} {s' : σ'}
    (hs : related s s') :
    List.Forall₂ agree (runAll serve rs s).1 (runAll serve' rs' s').1 ∧
      related (runAll serve rs s).2 (runAll serve' rs' s').2 := by
  induction h generalizing s s' with
  | nil => exact ⟨.nil, hs⟩
  | @cons r r' rs rs' hr _ ih =>
    obtain ⟨hagree, hrelated⟩ := hr s s' hs
    obtain ⟨hagree', hrelated'⟩ := ih hrelated
    exact ⟨.cons hagree hagree', hrelated'⟩

end OktaScim.Simulations
