import Mathlib.Data.List.Infix
import Mathlib.Data.Nat.Notation

/-!
The operations on JavaScript strings that look at positions or parts of them.
A position counts UTF-16 units; half of a surrogate pair, which is no character
of its own, is shown as U+FFFD.
-/
namespace OktaScim.JsStrings

def startsWith (s t : String) : Bool := t.toList.isPrefixOf s.toList

def includes (s t : String) : Bool := decide (t.toList.IsInfix s.toList)

/-- The units of a character. -/
def utf16 (c : Char) : List ℕ :=
  if c.toNat < 0x10000 then [c.toNat]
  else [0xd800 + (c.toNat - 0x10000) / 0x400, 0xdc00 + (c.toNat - 0x10000) % 0x400]

def units (s : String) : List ℕ := s.toList.flatMap utf16

def ofUnits : List ℕ → List Char
  | [] => []
  | [u] => [if 0xd800 ≤ u ∧ u < 0xe000 then '\ufffd' else Char.ofNat u]
  | u :: v :: us =>
    if 0xd800 ≤ u ∧ u < 0xdc00 ∧ 0xdc00 ≤ v ∧ v < 0xe000 then
      Char.ofNat (0x10000 + (u - 0xd800) * 0x400 + (v - 0xdc00)) :: ofUnits us
    else (if 0xd800 ≤ u ∧ u < 0xe000 then '\ufffd' else Char.ofNat u) :: ofUnits (v :: us)

/-- `s.length` -/
def length (s : String) : ℕ := (units s).length

/-- `s.slice(0, n)` -/
def sliceFront (s : String) (n : ℕ) : String := String.ofList (ofUnits ((units s).take n))

/-- `s.slice(-n)` -/
def sliceBack (s : String) (n : ℕ) : String :=
  String.ofList (ofUnits ((units s).drop ((units s).length - n)))

example : sliceFront "a𝄞b" 3 = "a𝄞" ∧ sliceBack "a𝄞b" 2 = "\ufffdb" := by decide

theorem utf16_lt {c : Char} {u : ℕ} (h : u ∈ utf16 c) : u < 0x10000 := by
  have hc : c.toNat < 0x110000 := by
    rcases c.valid with hv | hv
    · simp only [Char.toNat, UInt32.toNat] at *
      omega
    · exact hv.2
  unfold utf16 at h
  split at h
  · rw [List.mem_singleton.mp h]
    omega
  · simp only [List.mem_cons, List.not_mem_nil, or_false] at h
    omega

theorem toNat_ofNat_of_valid {n : ℕ} (h : n.isValidChar) : (Char.ofNat n).toNat = n := by
  rw [Char.ofNat, dif_pos h]
  rfl

theorem length_append (s t : String) : length (s ++ t) = length s + length t := by
  rw [length, units, String.toList_append, List.flatMap_append, List.length_append]
  rfl

/-- A unit alone stays one. -/
theorem utf16_single {u : ℕ} (hu : u < 0x10000) :
    (utf16 (if 0xd800 ≤ u ∧ u < 0xe000 then '\ufffd' else Char.ofNat u)).length = 1 := by
  split
  · rfl
  · rename_i hhalf
    have hvalid : u.isValidChar := by
      unfold Nat.isValidChar
      omega
    unfold utf16
    rw [toNat_ofNat_of_valid hvalid, if_pos hu]
    rfl

theorem utf16_pair {u v : ℕ} (hu : 0xd800 ≤ u ∧ u < 0xdc00) (hv : 0xdc00 ≤ v ∧ v < 0xe000) :
    (utf16 (Char.ofNat (0x10000 + (u - 0xd800) * 0x400 + (v - 0xdc00)))).length = 2 := by
  have hvalid : (0x10000 + (u - 0xd800) * 0x400 + (v - 0xdc00)).isValidChar := by
    unfold Nat.isValidChar
    omega
  unfold utf16
  rw [toNat_ofNat_of_valid hvalid, if_neg (by omega)]
  rfl

theorem length_ofUnits (us : List ℕ) (h : ∀ u ∈ us, u < 0x10000) :
    ((ofUnits us).flatMap utf16).length = us.length := by
  induction us using ofUnits.induct with
  | case1 => rfl
  | case2 u =>
    rw [ofUnits, List.flatMap_singleton]
    exact utf16_single (h u List.mem_cons_self)
  | case3 u v us hpair ih =>
    obtain ⟨hu, hu', hv⟩ := hpair
    rw [ofUnits, if_pos ⟨hu, hu', hv⟩, List.flatMap_cons, List.length_append,
      utf16_pair ⟨hu, hu'⟩ hv,
      ih fun w hw => h w (List.mem_cons_of_mem _ (List.mem_cons_of_mem _ hw))]
    simp only [List.length_cons]
    omega
  | case4 u v us hpair ih =>
    rw [ofUnits, if_neg hpair, List.flatMap_cons, List.length_append,
      utf16_single (h u List.mem_cons_self), ih fun w hw => h w (List.mem_cons_of_mem _ hw)]
    simp only [List.length_cons]
    omega

theorem length_sliceFront {s : String} {n : ℕ} (h : n ≤ length s) :
    length (sliceFront s n) = n := by
  have hunits : ∀ u ∈ (units s).take n, u < 0x10000 := by
    intro u hu
    obtain ⟨c, -, hc⟩ := List.mem_flatMap.mp (List.mem_of_mem_take hu)
    exact utf16_lt hc
  rw [length, units, sliceFront, String.toList_ofList, length_ofUnits _ hunits, List.length_take]
  exact Nat.min_eq_left h

end OktaScim.JsStrings
