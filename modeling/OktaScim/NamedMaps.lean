import Mathlib.Logic.Function.Basic
import Mathlib.Data.Set.Basic

/-!
Maps from keys to values of which no two share a name. What makes a map one of
these is part of it: an operation that would break it is not defined, or has to
show that it does not.
-/
namespace OktaScim.NamedMaps

/-- The entries under their keys. -/
@[ext] structure NamedMap {κ ν α : Type} (key : α → κ) (name : α → ν) : Type where
  get : κ → Option α
  keyed : ∀ k a, get k = some a → key a = k
  named : ∀ k l a b, get k = some a → get l = some b → name a = name b → k = l

namespace NamedMap

variable {κ ν α : Type} {key : α → κ} {name : α → ν}

def empty : NamedMap key name where
  get _ := none
  keyed k a h := by contradiction
  named k l a b h := by contradiction

/-- Some entry has the name. -/
def Holds (m : NamedMap key name) (n : ν) : Prop := ∃ k a, m.get k = some a ∧ name a = n

/-- An entry under another key has the name. -/
def HoldsBeside (m : NamedMap key name) (k : κ) (n : ν) : Prop :=
  ∃ l a, l ≠ k ∧ m.get l = some a ∧ name a = n

variable [DecidableEq κ]

/-- The entry `a` is put under its key, new or in place of the one there. -/
def put (m : NamedMap key name) (a : α) (h : ¬m.HoldsBeside (key a) (name a)) :
    NamedMap key name where
  get := Function.update m.get (key a) (some a)
  keyed k b hb := by
    by_cases hk : k = key a
    · subst hk
      rw [Function.update_self] at hb
      exact congrArg key (Option.some.inj hb).symm
    · rw [Function.update_of_ne hk] at hb
      exact m.keyed k b hb
  named k l b c hb hc hbc := by
    by_cases hk : k = key a
    · by_cases hl : l = key a
      · exact hk.trans hl.symm
      · subst hk
        rw [Function.update_self] at hb
        rw [Function.update_of_ne hl] at hc
        rw [← Option.some.inj hb] at hbc
        exact absurd ⟨l, c, hl, hc, hbc.symm⟩ h
    · rw [Function.update_of_ne hk] at hb
      by_cases hl : l = key a
      · subst hl
        rw [Function.update_self] at hc
        rw [← Option.some.inj hc] at hbc
        exact absurd ⟨k, b, hk, hb, hbc⟩ h
      · rw [Function.update_of_ne hl] at hc
        exact m.named k l b c hb hc hbc

def drop (m : NamedMap key name) (k : κ) : NamedMap key name where
  get := Function.update m.get k none
  keyed l a ha := by
    by_cases hl : l = k
    · simp [hl] at ha
    · rw [Function.update_of_ne hl] at ha
      exact m.keyed l a ha
  named i j a b ha hb hab := by
    by_cases hi : i = k
    · simp [hi] at ha
    · by_cases hj : j = k
      · simp [hj] at hb
      · rw [Function.update_of_ne hi] at ha
        rw [Function.update_of_ne hj] at hb
        exact m.named i j a b ha hb hab

omit [DecidableEq κ] in
/-- Every entry is changed in what is neither its key nor its name. -/
def map (m : NamedMap key name) (f : α → α) (hkey : ∀ a, key (f a) = key a)
    (hname : ∀ a, name (f a) = name a) : NamedMap key name where
  get k := (m.get k).map f
  keyed k a ha := by
    obtain ⟨b, hb, rfl⟩ := Option.map_eq_some_iff.mp ha
    rw [hkey]
    exact m.keyed k b hb
  named k l a b ha hb hab := by
    obtain ⟨x, hx, rfl⟩ := Option.map_eq_some_iff.mp ha
    obtain ⟨y, hy, rfl⟩ := Option.map_eq_some_iff.mp hb
    rw [hname, hname] at hab
    exact m.named k l x y hx hy hab

theorem get_put (m : NamedMap key name) (a : α) (h : ¬m.HoldsBeside (key a) (name a)) (k : κ) :
    (m.put a h).get k = if k = key a then some a else m.get k := by
  by_cases hk : k = key a
  · simp [put, hk]
  · simp [put, hk]

theorem get_drop (m : NamedMap key name) (k l : κ) :
    (m.drop k).get l = if l = k then none else m.get l := by
  by_cases hl : l = k
  · simp [drop, hl]
  · simp [drop, hl]

omit [DecidableEq κ] in
@[simp] theorem get_map (m : NamedMap key name) (f : α → α) (hkey : ∀ a, key (f a) = key a)
    (hname : ∀ a, name (f a) = name a) (k : κ) :
    (m.map f hkey hname).get k = (m.get k).map f := rfl

end NamedMap

end OktaScim.NamedMaps
