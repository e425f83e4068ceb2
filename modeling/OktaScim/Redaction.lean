import OktaScim.JsonMasks
import Mathlib.Data.List.Forall2

/-!
Redaction of JSON values by the names of their keys, and when two values are
the same after it, for equality and for any other relation that compares values
part by part.
-/
namespace OktaScim.Redaction

open JsValues JsonMasks

section Redacted

-- what is put for the value of a key; without it the value is redacted in turn
variable (rule : String → Option (Json → Json))

mutual

def redactBy : Json → Json
  | .arr items => .arr (redactItems items)
  | .obj fields => .obj (redactFields fields)
  | v => v

def redactItems : List Json → List Json
  | [] => []
  | v :: items => redactBy v :: redactItems items

/-- An assignment to `out.__proto__` makes no property. -/
def redactFields : List (String × Json) → List (String × Json)
  | [] => []
  | (k, v) :: fields =>
    if k = "__proto__" then redactFields fields
    else
      (k, match rule k with
        | some f => f v
        | none => redactBy v) :: redactFields fields

end

/-- The fields that redaction keeps. -/
def kept (fields : List (String × Json)) : List (String × Json) :=
  fields.filter fun f => f.1 ≠ "__proto__"

def redactField (f : String × Json) : String × Json :=
  (f.1, match rule f.1 with
    | some g => g f.2
    | none => redactBy rule f.2)

theorem redactFields_eq (fields : List (String × Json)) :
    redactFields rule fields = (kept fields).map (redactField rule) := by
  induction fields with
  | nil => rfl
  | cons f fields ih =>
    obtain ⟨k, v⟩ := f
    rw [redactFields, ih]
    by_cases hk : k = "__proto__"
    · simp [hk, kept]
    · simp [hk, kept, redactField]

theorem kept_kept (fields : List (String × Json)) : kept (kept fields) = kept fields := by
  simp [kept]

theorem kept_of_cons {fields rest : List (String × Json)} {f : String × Json}
    (h : kept fields = f :: rest) : kept rest = rest := by
  have hrest : ∀ g ∈ rest, decide (g.1 ≠ "__proto__") = true := by
    intro g hg
    have hmem : g ∈ kept fields := by
      rw [h]
      exact List.mem_cons_of_mem f hg
    exact (List.mem_filter.mp hmem).2
  exact List.filter_eq_self.mpr hrest

end Redacted

section Alike

variable (rule : String → Option (Json → Json)) (R : Json → Json → Prop)

mutual

/-- Related in all that redaction shows of them. -/
def Alike : Json → Json → Prop
  | .arr vs, w => ∃ ws, w = .arr ws ∧ AlikeItems vs ws
  | .obj vs, w => ∃ ws, w = .obj ws ∧ AlikeFields vs ws
  | .null, w => R .null w
  | .bool b, w => R (.bool b) w
  | .num n, w => R (.num n) w
  | .str s, w => R (.str s) w

def AlikeItems : List Json → List Json → Prop
  | [], ws => ws = []
  | v :: vs, ws => ∃ w rest, ws = w :: rest ∧ Alike v w ∧ AlikeItems vs rest

def AlikeFields : List (String × Json) → List (String × Json) → Prop
  | [], ws => kept ws = []
  | (k, v) :: vs, ws =>
    if k = "__proto__" then AlikeFields vs ws
    else ∃ w rest, kept ws = (k, w) :: rest ∧
      (match rule k with
        | some f => R (f v) (f w)
        | none => Alike v w) ∧ AlikeFields vs rest

end

/-- A relation that compares arrays item by item and objects field by field. -/
structure Structural : Prop where
  arr : ∀ vs w, R (.arr vs) w ↔ ∃ ws, w = .arr ws ∧ List.Forall₂ R vs ws
  obj : ∀ vs w, R (.obj vs) w ↔
    ∃ ws, w = .obj ws ∧ List.Forall₂ (fun f g => f.1 = g.1 ∧ R f.2 g.2) vs ws
  to_arr : ∀ v ws, R v (.arr ws) → ∃ vs, v = .arr vs
  to_obj : ∀ v ws, R v (.obj ws) → ∃ vs, v = .obj vs

variable {rule R}

/-- A value that is no array and no object is related to the same values before
and after redaction. -/
theorem Structural.leaf (hR : Structural R) {v : Json} (harr : ∀ vs, v ≠ .arr vs)
    (hobj : ∀ vs, v ≠ .obj vs) (w : Json) : R v (redactBy rule w) ↔ R v w := by
  cases w with
  | arr ws =>
    constructor
    · intro h
      obtain ⟨vs, hv⟩ := hR.to_arr v _ h
      exact absurd hv (harr vs)
    · intro h
      obtain ⟨vs, hv⟩ := hR.to_arr v _ h
      exact absurd hv (harr vs)
  | obj ws =>
    constructor
    · intro h
      obtain ⟨vs, hv⟩ := hR.to_obj v _ h
      exact absurd hv (hobj vs)
    · intro h
      obtain ⟨vs, hv⟩ := hR.to_obj v _ h
      exact absurd hv (hobj vs)
  | _ => exact Iff.rfl

mutual

theorem redactBy_iff (hR : Structural R) :
    ∀ v w : Json, R (redactBy rule v) (redactBy rule w) ↔ Alike rule R v w
  | .null, w => hR.leaf (v := .null) nofun nofun w
  | .bool b, w => hR.leaf (v := .bool b) nofun nofun w
  | .num n, w => hR.leaf (v := .num n) nofun nofun w
  | .str s, w => hR.leaf (v := .str s) nofun nofun w
  | .arr vs, w => by
    rw [redactBy, hR.arr]
    constructor
    · rintro ⟨ws', hw, hsame⟩
      cases w with
      | arr ws =>
        obtain rfl := Json.arr.inj hw
        exact ⟨ws, rfl, (redactItems_iff hR vs ws).mp hsame⟩
      | _ => contradiction
    · rintro ⟨ws, rfl, halike⟩
      exact ⟨_, rfl, (redactItems_iff hR vs ws).mpr halike⟩
  | .obj vs, w => by
    rw [redactBy, hR.obj]
    constructor
    · rintro ⟨ws', hw, hsame⟩
      cases w with
      | obj ws =>
        obtain rfl := Json.obj.inj hw
        exact ⟨ws, rfl, (redactFields_iff hR vs ws).mp hsame⟩
      | _ => contradiction
    · rintro ⟨ws, rfl, halike⟩
      exact ⟨_, rfl, (redactFields_iff hR vs ws).mpr halike⟩

theorem redactItems_iff (hR : Structural R) : ∀ vs ws : List Json,
    List.Forall₂ R (redactItems rule vs) (redactItems rule ws) ↔ AlikeItems rule R vs ws
  | [], [] => ⟨fun _ => rfl, fun _ => .nil⟩
  | [], w :: ws => ⟨nofun, nofun⟩
  | v :: vs, [] => by
    constructor
    · intro hnil
      cases hnil
    · rintro ⟨w, rest, hnil, -⟩
      contradiction
  | v :: vs, w :: ws => by
    rw [redactItems, redactItems, List.forall₂_cons, redactBy_iff hR v w, redactItems_iff hR vs ws]
    constructor
    · exact fun halike => ⟨w, ws, rfl, halike⟩
    · rintro ⟨w', rest, hcons, halike⟩
      obtain ⟨rfl, rfl⟩ := List.cons.inj hcons
      exact halike

theorem redactFields_iff (hR : Structural R) : ∀ vs ws : List (String × Json),
    List.Forall₂ (fun f g => f.1 = g.1 ∧ R f.2 g.2) (redactFields rule vs) (redactFields rule ws) ↔
      AlikeFields rule R vs ws
  | [], ws => by
    rw [redactFields_eq rule ws, redactFields, List.forall₂_nil_left_iff]
    exact List.map_eq_nil_iff
  | (k, v) :: vs, ws => by
    rw [redactFields, AlikeFields]
    split
    · exact redactFields_iff hR vs ws
    · rw [redactFields_eq rule ws]
      have hvalue : ∀ w, R (redactField rule (k, v)).2 (redactField rule (k, w)).2 ↔
          match rule k with
          | some f => R (f v) (f w)
          | none => Alike rule R v w := by
        intro w
        simp only [redactField]
        cases rule k with
        | some f => exact Iff.rfl
        | none => exact redactBy_iff hR v w
      have hrest : ∀ {g rest}, kept ws = g :: rest →
          ((kept rest).map (redactField rule) = rest.map (redactField rule)) := by
        intro g rest hkept
        rw [kept_of_cons hkept]
      constructor
      · intro hsame
        obtain ⟨g', rest', ⟨hk, hv⟩, hsame, hcons⟩ := List.forall₂_cons_left_iff.mp hsame
        obtain ⟨⟨l, w⟩, rest, hkept, rfl, rfl⟩ := List.map_eq_cons_iff.mp hcons
        obtain rfl : k = l := hk
        refine ⟨w, rest, hkept, (hvalue w).mp hv, (redactFields_iff hR vs rest).mp ?_⟩
        rwa [redactFields_eq rule rest, hrest hkept]
      · rintro ⟨w, rest, hkept, hv, halike⟩
        have hsame := (redactFields_iff hR vs rest).mpr halike
        rw [redactFields_eq rule rest, hrest hkept] at hsame
        rw [hkept, List.map_cons]
        exact .cons ⟨rfl, (hvalue w).mpr hv⟩ hsame

end

/-- Fields are alike one by one, whatever the dropped ones hold. -/
theorem alikeFields_cons_iff (k : String) (v w : Json) (vs ws : List (String × Json)) :
    AlikeFields rule R ((k, v) :: vs) ((k, w) :: ws) ↔
      (k = "__proto__" ∨
        match rule k with
        | some f => R (f v) (f w)
        | none => Alike rule R v w) ∧ AlikeFields rule R vs ws := by
  have hkept : ∀ vs ws, AlikeFields rule R vs (kept ws) ↔ AlikeFields rule R vs ws := by
    intro vs ws
    induction vs with
    | nil => rw [AlikeFields, AlikeFields, kept_kept]
    | cons f vs ih =>
      obtain ⟨l, u⟩ := f
      rw [AlikeFields, AlikeFields, kept_kept, ih]
  rw [AlikeFields]
  by_cases hk : k = "__proto__"
  · have hdrop : kept ((k, w) :: ws) = kept ws := by simp [kept, hk]
    rw [if_pos hk, ← hkept, hdrop, hkept]
    exact ⟨fun halike => ⟨.inl hk, halike⟩, fun halike => halike.2⟩
  · have hcons : kept ((k, w) :: ws) = (k, w) :: kept ws := by simp [kept, hk]
    rw [if_neg hk, hcons]
    constructor
    · rintro ⟨w', rest, heq, hv, hrest⟩
      obtain ⟨hf, rfl⟩ := List.cons.inj heq
      obtain ⟨-, rfl⟩ := Prod.mk.inj hf
      exact ⟨.inr hv, (hkept vs ws).mp hrest⟩
    · rintro ⟨hv, hrest⟩
      exact ⟨w, kept ws, rfl, hv.resolve_left hk, (hkept vs ws).mpr hrest⟩

end Alike

section Masked

variable (rule : String → Option (Json → Json)) (Q : String → Json → Json → Prop)

mutual

/-- `Q` holds of the two values of every key with a rule that redaction reaches. -/
def RuledAgree : Json → Json → Prop
  | .arr vs, .arr ws => RuledItems vs ws
  | .obj vs, .obj ws => RuledFields vs ws
  | _, _ => True

def RuledItems : List Json → List Json → Prop
  | v :: vs, w :: ws => RuledAgree v w ∧ RuledItems vs ws
  | _, _ => True

def RuledFields : List (String × Json) → List (String × Json) → Prop
  | (k, v) :: vs, (_, w) :: ws =>
    (k = "__proto__" ∨ if (rule k).isSome then Q k v w else RuledAgree v w) ∧ RuledFields vs ws
  | _, _ => True

end

/-- Every hidden key has a rule, and of two values that differ under hidden keys
alone the rules show the same when `Q` holds. -/
structure MaskedRules (R : Json → Json → Prop) (hidden : String → Bool) : Prop where
  refl : ∀ v, R v v
  ruled : ∀ k, hidden k = true → (rule k).isSome = true
  shown_iff : ∀ k f, rule k = some f → ∀ x y,
    hidden k = true ∨ mask hidden x = mask hidden y → (R (f x) (f y) ↔ Q k x y)

variable {rule Q} {R : Json → Json → Prop} {hidden : String → Bool}

mutual

theorem ruledAgree_of_forall (h : ∀ k x y, Q k x y) : ∀ v w : Json, RuledAgree rule Q v w
  | .arr vs, .arr ws => ruledItems_of_forall h vs ws
  | .obj vs, .obj ws => ruledFields_of_forall h vs ws
  | .arr _, .obj _ => trivial
  | .obj _, .arr _ => trivial
  | .arr _, .null | .arr _, .bool _ | .arr _, .num _ | .arr _, .str _ => trivial
  | .obj _, .null | .obj _, .bool _ | .obj _, .num _ | .obj _, .str _ => trivial
  | .null, _ | .bool _, _ | .num _, _ | .str _, _ => trivial

theorem ruledItems_of_forall (h : ∀ k x y, Q k x y) : ∀ vs ws : List Json,
    RuledItems rule Q vs ws
  | [], _ => trivial
  | _ :: _, [] => trivial
  | v :: vs, w :: ws => ⟨ruledAgree_of_forall h v w, ruledItems_of_forall h vs ws⟩

theorem ruledFields_of_forall (h : ∀ k x y, Q k x y) : ∀ vs ws : List (String × Json),
    RuledFields rule Q vs ws
  | [], _ => trivial
  | _ :: _, [] => trivial
  | (k, v) :: vs, (_, w) :: ws => by
    refine ⟨.inr ?_, ruledFields_of_forall h vs ws⟩
    split
    · exact h k v w
    · exact ruledAgree_of_forall h v w

end

mutual

/-- Values that differ under hidden keys alone are alike when `Q` holds wherever
redaction applies a rule. -/
theorem alike_iff_of_mask (hM : MaskedRules rule Q R hidden) :
    ∀ v w : Json, mask hidden v = mask hidden w → (Alike rule R v w ↔ RuledAgree rule Q v w)
  | .null, w, h => by
    rw [eq_of_mask_eq_leaf h.symm nofun nofun]
    exact ⟨fun _ => trivial, fun _ => hM.refl _⟩
  | .bool b, w, h => by
    rw [eq_of_mask_eq_leaf h.symm nofun nofun]
    exact ⟨fun _ => trivial, fun _ => hM.refl _⟩
  | .num n, w, h => by
    rw [eq_of_mask_eq_leaf h.symm nofun nofun]
    exact ⟨fun _ => trivial, fun _ => hM.refl _⟩
  | .str s, w, h => by
    rw [eq_of_mask_eq_leaf h.symm nofun nofun]
    exact ⟨fun _ => trivial, fun _ => hM.refl _⟩
  | .arr vs, w, h => by
    obtain ⟨ws, rfl, hws⟩ := mask_eq_arr h.symm
    rw [Alike, RuledAgree, ← alikeItems_iff_of_mask hM vs ws hws.symm]
    constructor
    · rintro ⟨ws', hw, halike⟩
      rwa [Json.arr.inj hw]
    · exact fun halike => ⟨ws, rfl, halike⟩
  | .obj vs, w, h => by
    obtain ⟨ws, rfl, hws⟩ := mask_eq_obj h.symm
    rw [Alike, RuledAgree, ← alikeFields_iff_of_mask hM vs ws hws.symm]
    constructor
    · rintro ⟨ws', hw, halike⟩
      rwa [Json.obj.inj hw]
    · exact fun halike => ⟨ws, rfl, halike⟩

theorem alikeItems_iff_of_mask (hM : MaskedRules rule Q R hidden) :
    ∀ vs ws : List Json, maskItems hidden vs = maskItems hidden ws →
      (AlikeItems rule R vs ws ↔ RuledItems rule Q vs ws)
  | [], [], _ => ⟨fun _ => trivial, fun _ => rfl⟩
  | [], _ :: _, h => nomatch h
  | _ :: _, [], h => nomatch h
  | v :: vs, w :: ws, h => by
    obtain ⟨hv, hrest⟩ := List.cons.inj h
    rw [AlikeItems, RuledItems, ← alike_iff_of_mask hM v w hv,
      ← alikeItems_iff_of_mask hM vs ws hrest]
    constructor
    · rintro ⟨w', rest, hcons, halike⟩
      obtain ⟨rfl, rfl⟩ := List.cons.inj hcons
      exact halike
    · exact fun halike => ⟨w, ws, rfl, halike⟩

theorem alikeFields_iff_of_mask (hM : MaskedRules rule Q R hidden) :
    ∀ vs ws : List (String × Json), maskFields hidden vs = maskFields hidden ws →
      (AlikeFields rule R vs ws ↔ RuledFields rule Q vs ws)
  | [], [], _ => ⟨fun _ => trivial, fun _ => rfl⟩
  | [], _ :: _, h => nomatch h
  | _ :: _, [], h => nomatch h
  | (k, v) :: vs, (l, w) :: ws, h => by
    obtain ⟨hf, hrest⟩ := List.cons.inj h
    obtain ⟨rfl, hvalue⟩ := Prod.mk.inj hf
    have hmask : hidden k = true ∨ mask hidden v = mask hidden w := by
      cases hk : hidden k with
      | true => exact .inl rfl
      | false => exact .inr (by simpa [hk] using hvalue)
    rw [alikeFields_cons_iff, RuledFields, alikeFields_iff_of_mask hM vs ws hrest]
    cases hk : rule k with
    | some f =>
      rw [if_pos (by rfl)]
      exact and_congr_left' (or_congr_right (hM.shown_iff k f hk v w hmask))
    | none =>
      have hshown : mask hidden v = mask hidden w := by
        refine hmask.resolve_left fun hhid => ?_
        have hsome := hM.ruled k hhid
        rw [hk] at hsome
        contradiction
      rw [if_neg (by simp)]
      exact and_congr_left' (or_congr_right (alike_iff_of_mask hM v w hshown))

end

end Masked

section Equality

theorem forall₂_fields_eq_iff (vs ws : List (String × Json)) :
    List.Forall₂ (fun f g => f.1 = g.1 ∧ f.2 = g.2) vs ws ↔ vs = ws := by
  have hpair : (fun f g : String × Json => f.1 = g.1 ∧ f.2 = g.2) = Eq := by
    funext f g
    exact propext Prod.ext_iff.symm
  rw [hpair, List.forall₂_eq_eq_eq]

theorem structural_eq : Structural (Eq (α := Json)) where
  arr vs w := by
    rw [List.forall₂_eq_eq_eq]
    exact ⟨fun h => ⟨vs, h.symm, rfl⟩, fun ⟨_, hw, h⟩ => by rw [hw, h]⟩
  obj vs w := by
    simp only [forall₂_fields_eq_iff]
    exact ⟨fun h => ⟨vs, h.symm, rfl⟩, fun ⟨_, hw, h⟩ => by rw [hw, h]⟩
  to_arr v ws h := ⟨ws, h⟩
  to_obj v ws h := ⟨ws, h⟩

end Equality

end OktaScim.Redaction
