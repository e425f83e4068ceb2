import Mathlib.Algebra.Ring.Nat
import Mathlib.Data.List.Basic
import Mathlib.Data.Nat.Notation
import Mathlib.Order.Basic

/-!
Numbers written with a fixed number of decimal digits, and records of them with
separators between. The texts of two records compare as their numbers do.
-/
namespace OktaScim.FixedWidths

section Lists

variable {α : Type} [LT α] {a b c d : List α}

theorem append_lt_append_left (h : c < d) (a : List α) : a ++ c < a ++ d := by
  induction a with
  | nil => exact h
  | cons x a ih => exact List.cons_lt_cons_iff.mpr (Or.inr ⟨rfl, ih⟩)

/-- Texts of one length are ordered at their first difference. -/
theorem append_lt_append_right (h : a < b) (hlength : a.length = b.length) (c d : List α) :
    a ++ c < b ++ d := by
  induction a generalizing b with
  | nil =>
    cases b with
    | nil => exact absurd h (List.not_lt_nil _)
    | cons y b => cases hlength
  | cons x a ih =>
    cases b with
    | nil => cases hlength
    | cons y b =>
      rcases List.cons_lt_cons_iff.mp h with hlt | ⟨rfl, hrest⟩
      · exact List.cons_lt_cons_iff.mpr (Or.inl hlt)
      · exact List.cons_lt_cons_iff.mpr (Or.inr ⟨rfl, ih hrest (by simpa using hlength)⟩)

end Lists

section Digits

/-- The last `w` decimal digits. -/
def fixed : ℕ → ℕ → List Char
  | 0, _ => []
  | w + 1, n => fixed w (n / 10) ++ [(n % 10).digitChar]

theorem length_fixed (w n : ℕ) : (fixed w n).length = w := by
  induction w generalizing n with
  | zero => rfl
  | succ w ih => simp [fixed, ih]

theorem fixed_zero (w : ℕ) : fixed w 0 = List.replicate w '0' := by
  induction w with
  | zero => rfl
  | succ w ih =>
    rw [fixed, Nat.zero_div, ih, List.replicate_succ']
    rfl

theorem digitChar_lt {i j : ℕ} (hij : i < j) (hj : j < 10) : i.digitChar < j.digitChar := by
  have hall : ∀ j < 10, ∀ i < j, i.digitChar < j.digitChar := by decide
  exact hall j hj i hij

theorem fixed_lt {w n n' : ℕ} (h : n < n') (hn : n' < 10 ^ w) : fixed w n < fixed w n' := by
  induction w generalizing n n' with
  | zero =>
    rw [Nat.pow_zero] at hn
    omega
  | succ w ih =>
    have hbound : n' / 10 < 10 ^ w := by
      rw [Nat.pow_succ] at hn
      omega
    by_cases hlast : n / 10 = n' / 10
    · rw [fixed, fixed, hlast]
      apply append_lt_append_left
      exact List.cons_lt_cons_iff.mpr (Or.inl (digitChar_lt (by omega) (by omega)))
    · apply append_lt_append_right (ih (by omega) hbound)
      rw [length_fixed, length_fixed]

/-- A decimal numeral that is filled up with zeros. -/
theorem replicate_toDigits {w n : ℕ} (hw : 0 < w) (hn : n < 10 ^ w) :
    List.replicate (w - (Nat.toDigits 10 n).length) '0' ++ Nat.toDigits 10 n = fixed w n := by
  induction w generalizing n with
  | zero => omega
  | succ w ih =>
    rw [Nat.toDigits_eq_if (by decide)]
    by_cases hsmall : n < 10
    · rw [if_pos hsmall]
      have hmod : n % 10 = n := Nat.mod_eq_of_lt hsmall
      have hdiv : n / 10 = 0 := Nat.div_eq_of_lt hsmall
      rw [fixed, hdiv, hmod, fixed_zero]
      rfl
    · rw [if_neg hsmall]
      have hbound : n / 10 < 10 ^ w := by
        rw [Nat.pow_succ] at hn
        omega
      have hpos : 0 < w := by
        rcases Nat.eq_zero_or_pos w with rfl | hpos
        · rw [Nat.pow_zero] at hbound
          omega
        · exact hpos
      rw [List.length_append, List.length_singleton, Nat.add_sub_add_right, ← List.append_assoc,
        ih hpos hbound]
      rfl

end Digits

section Records

/-- Numbers of given widths, each with a separator behind it. -/
def spelled : List (ℕ × Char) → List ℕ → List Char
  | (w, separator) :: shape, n :: values => fixed w n ++ separator :: spelled shape values
  | _, _ => []

/-- Every number fits into its width. -/
def Fits : List (ℕ × Char) → List ℕ → Prop
  | [], [] => True
  | (w, _) :: shape, n :: values => n < 10 ^ w ∧ Fits shape values
  | _, _ => False

theorem spelled_lt {shape : List (ℕ × Char)} {values values' : List ℕ} (hfits : Fits shape values)
    (hfits' : Fits shape values') (h : values < values') :
    spelled shape values < spelled shape values' := by
  induction shape generalizing values values' with
  | nil =>
    cases values with
    | nil =>
      cases values' with
      | nil => exact absurd h (List.not_lt_nil _)
      | cons n' values' => exact hfits'.elim
    | cons n values => exact hfits.elim
  | cons field shape ih =>
    obtain ⟨w, separator⟩ := field
    cases values with
    | nil => exact hfits.elim
    | cons n values =>
      cases values' with
      | nil => exact hfits'.elim
      | cons n' values' =>
        rcases List.cons_lt_cons_iff.mp h with hlt | ⟨rfl, hrest⟩
        · apply append_lt_append_right (fixed_lt hlt hfits'.1)
          rw [length_fixed, length_fixed]
        · apply append_lt_append_left
          exact List.cons_lt_cons_iff.mpr (Or.inr ⟨rfl, ih hfits.2 hfits'.2 hrest⟩)

end Records

end OktaScim.FixedWidths
