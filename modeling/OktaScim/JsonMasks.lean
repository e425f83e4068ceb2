import OktaScim.JsValues

/-!
JSON values compared up to the values of some keys: the mask of a value has
these replaced, and two values that differ there alone have the same mask.
-/
namespace OktaScim.JsonMasks

open JsValues

section Masks

variable (hidden : String → Bool)

mutual

/-- The value with every value of a hidden key replaced, at any depth. -/
def mask : Json → Json
  | .arr items => .arr (maskItems items)
  | .obj fields => .obj (maskFields fields)
  | v => v

def maskItems : List Json → List Json
  | [] => []
  | v :: items => mask v :: maskItems items

def maskFields : List (String × Json) → List (String × Json)
  | [] => []
  | (k, v) :: fields => (k, if hidden k then .null else mask v) :: maskFields fields

end

variable {hidden} {v w : Json}

theorem mask_eq_arr {items : List Json} (h : mask hidden w = .arr items) :
    ∃ items', w = .arr items' ∧ maskItems hidden items' = items := by
  cases w with
  | arr items' => exact ⟨items', rfl, Json.arr.inj h⟩
  | _ => contradiction

theorem mask_eq_obj {fields : List (String × Json)} (h : mask hidden w = .obj fields) :
    ∃ fields', w = .obj fields' ∧ maskFields hidden fields' = fields := by
  cases w with
  | obj fields' => exact ⟨fields', rfl, Json.obj.inj h⟩
  | _ => contradiction

/-- A value that is no array and no object is its own mask and that of no other value. -/
theorem eq_of_mask_eq_leaf (h : mask hidden w = v) (harr : ∀ items, v ≠ .arr items)
    (hobj : ∀ fields, v ≠ .obj fields) : w = v := by
  cases w with
  | arr items => exact absurd h.symm (harr _)
  | obj fields => exact absurd h.symm (hobj _)
  | _ => exact h

theorem maskItems_eq_map (items : List Json) :
    maskItems hidden items = items.map (mask hidden) := by
  induction items with
  | nil => rfl
  | cons v items ih => rw [maskItems, ih, List.map_cons]

theorem maskFields_keys (fields : List (String × Json)) :
    (maskFields hidden fields).map Prod.fst = fields.map Prod.fst := by
  induction fields with
  | nil => rfl
  | cons f fields ih => rw [maskFields, List.map_cons, List.map_cons, ih]

/-- What stands under a key that is not hidden. -/
theorem get_mask {k : String} (hk : hidden k = false) (v : Json) :
    (mask hidden v).get k = (v.get k).map (mask hidden) := by
  cases v with
  | obj fields =>
    simp only [mask, Json.get]
    induction fields with
    | nil => rfl
    | cons f fields ih =>
      obtain ⟨l, u⟩ := f
      rw [maskFields, List.find?_cons, List.find?_cons]
      by_cases hl : l = k
      · simp [hl, hk]
      · simp only [decide_eq_false hl]
        exact ih
  | _ => rfl

end Masks

section Modifications

/-- The first value of a key replaced. -/
def modifyFields (k : String) (f : Json → Json) : List (String × Json) → List (String × Json)
  | [] => []
  | (l, v) :: fields => if l = k then (l, f v) :: fields else (l, v) :: modifyFields k f fields

def modify (k : String) (f : Json → Json) : Json → Json
  | .obj fields => .obj (modifyFields k f fields)
  | v => v

/-- `f` on each item of an array. -/
def mapItems (f : Json → Json) : Json → Json
  | .arr items => .arr (items.map f)
  | v => v

theorem modifyFields_keys (k : String) (f : Json → Json) (fields : List (String × Json)) :
    (modifyFields k f fields).map Prod.fst = fields.map Prod.fst := by
  induction fields with
  | nil => rfl
  | cons p fields ih =>
    rw [modifyFields]
    split
    · rfl
    · rw [List.map_cons, List.map_cons, ih]

theorem get_modify (k : String) (f : Json → Json) (v : Json) :
    (modify k f v).get k = (v.get k).map f := by
  cases v with
  | obj fields =>
    simp only [modify, Json.get]
    induction fields with
    | nil => rfl
    | cons p fields ih =>
      rw [modifyFields]
      split
      · rename_i hp
        simp [hp]
      · rename_i hp
        rw [List.find?_cons_of_neg (by simpa using hp), List.find?_cons_of_neg (by simpa using hp)]
        exact ih
  | _ => rfl

theorem get_modify_other {k l : String} (hl : l ≠ k) (f : Json → Json) (v : Json) :
    (modify k f v).get l = v.get l := by
  cases v with
  | obj fields =>
    simp only [modify, Json.get]
    induction fields with
    | nil => rfl
    | cons p fields ih =>
      rw [modifyFields]
      split
      · rename_i hp
        rw [List.find?_cons_of_neg (by simpa [hp] using hl.symm),
          List.find?_cons_of_neg (by simpa [hp] using hl.symm)]
      · rw [List.find?_cons, List.find?_cons]
        cases decide (p.1 = l) with
        | true => rfl
        | false => exact ih
  | _ => rfl

end Modifications

end OktaScim.JsonMasks
