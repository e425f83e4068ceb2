import Mathlib.Init

/-!
Views that are rendered again only when the signature of their data has changed.
If data of one signature look the same, a view looks like the data that were
received last, whatever was received before and in whatever order.
-/
namespace OktaScim.ChangeDetection

section Views

structure View (κ ν : Type) : Type where
  signature : Option κ
  content : ν

variable {κ ν δ l : Type} [DecidableEq κ]

namespace View

def receive (signature : δ → κ) (render : δ → ν → ν) (d : δ) (v : View κ ν) : View κ ν :=
  if v.signature = some (signature d) then v else ⟨some (signature d), render d v.content⟩

/-- What is received next is rendered in any case. -/
def forget (change : ν → ν) (v : View κ ν) : View κ ν := ⟨none, change v.content⟩

/-- The view after `last` was received last, where all data are `known`. -/
structure Shows (signature : δ → κ) (displays : ν → δ → Prop) (look : δ → l) (known : δ → Prop)
    (last : Option δ) (v : View κ ν) : Prop where
  signed : ∀ k, v.signature = some k → ∃ d, last = some d ∧ known d ∧ signature d = k
  shown : ∀ d, last = some d → ∃ e, known e ∧ displays v.content e ∧ look e = look d

variable {signature : δ → κ} {displays : ν → δ → Prop} {look : δ → l} {known known' : δ → Prop}
  {last : Option δ} {v : View κ ν}

omit [DecidableEq κ] in
theorem Shows.mono (h : v.Shows signature displays look known last)
    (hknown : ∀ d, known d → known' d) : v.Shows signature displays look known' last where
  signed k hk := by
    obtain ⟨d, hlast, hd, hkey⟩ := h.signed k hk
    exact ⟨d, hlast, hknown d hd, hkey⟩
  shown d hd := by
    obtain ⟨e, he, hdisplays, hlook⟩ := h.shown d hd
    exact ⟨e, hknown e he, hdisplays, hlook⟩

theorem Shows.receive {render : δ → ν → ν} (hrender : ∀ d content, displays (render d content) d)
    (hlook : ∀ d e, known d → known e → signature d = signature e → look d = look e)
    (h : v.Shows signature displays look known last) {d : δ} (hd : known d) :
    (v.receive signature render d).Shows signature displays look known (some d) := by
  unfold View.receive
  by_cases hsame : v.signature = some (signature d)
  · rw [if_pos hsame]
    refine ⟨fun k hk => ⟨d, rfl, hd, Option.some.inj (hsame.symm.trans hk)⟩, fun d' hd' => ?_⟩
    obtain rfl := Option.some.inj hd'
    -- what was received last has the same signature and is still shown
    obtain ⟨before, hlast, hbefore, hkey⟩ := h.signed _ hsame
    obtain ⟨e, he, hdisplays, heq⟩ := h.shown before hlast
    exact ⟨e, he, hdisplays, heq.trans (hlook before d hbefore hd hkey)⟩
  · rw [if_neg hsame]
    refine ⟨fun k hk => ⟨d, rfl, hd, Option.some.inj hk⟩, fun d' hd' => ?_⟩
    obtain rfl := Option.some.inj hd'
    exact ⟨d, hd, hrender d _, rfl⟩

omit [DecidableEq κ] in
theorem Shows.forget {change : ν → ν} (hchange : ∀ content d, displays content d →
      displays (change content) d) (h : v.Shows signature displays look known last) :
    (v.forget change).Shows signature displays look known last where
  signed k hk := by contradiction
  shown d hd := by
    obtain ⟨e, he, hdisplays, hlook⟩ := h.shown d hd
    exact ⟨e, he, hchange _ e hdisplays, hlook⟩

end View

end Views

/-- What the signatures of lists determine, item by item. -/
theorem map_eq_of_map_eq {α β γ : Type} {f : α → β} {g : α → γ} {xs ys : List α}
    (h : xs.map f = ys.map f) (hitems : ∀ x ∈ xs, ∀ y ∈ ys, f x = f y → g x = g y) :
    xs.map g = ys.map g := by
  induction xs generalizing ys with
  | nil => rw [List.map_eq_nil_iff.mp h.symm]
  | cons x xs ih =>
    cases ys with
    | nil => contradiction
    | cons y ys =>
      obtain ⟨hfirst, hrest⟩ := List.cons.inj h
      rw [List.map_cons, List.map_cons,
        hitems x (List.mem_cons_self ..) y (List.mem_cons_self ..) hfirst,
        ih hrest fun x' hx y' hy =>
          hitems x' (List.mem_cons_of_mem x hx) y' (List.mem_cons_of_mem y hy)]

end OktaScim.ChangeDetection
