import OktaScim.JsValues

/-!
Schemas that advertise the attributes of resources, and the JSON objects that
conform to them: every field is an attribute of the schema, with a value of the
advertised type, or one of the attributes common to all resources.
-/
namespace OktaScim.AttributeSchemas

open JsValues

inductive AttributeType : Type
  | string
  | boolean
  | complex
deriving DecidableEq

structure SubAttribute : Type where
  name : String
  type : AttributeType

/-- A property that the schema leaves out is `none`. -/
structure Attribute : Type where
  name : String
  type : AttributeType
  multiValued : Option Bool
  required : Option Bool
  uniqueness : Option String
  subAttributes : List SubAttribute

/-- Values of the types that have no parts. -/
def AttributeType.holds : AttributeType → Json → Prop
  | .string, .str _ => True
  | .boolean, .bool _ => True
  | _, _ => False

/-- An object with distinct fields, each a part of the complex attribute. -/
def HoldsParts (parts : List SubAttribute) (v : Json) : Prop :=
  ∃ fields, v = .obj fields ∧ (fields.map Prod.fst).Nodup ∧
    ∀ f ∈ fields, ∃ part ∈ parts, part.name = f.1 ∧ part.type.holds f.2

/-- A single value of the attribute. -/
def Attribute.HoldsOne (a : Attribute) (v : Json) : Prop :=
  match a.type with
  | .complex => HoldsParts a.subAttributes v
  | type => type.holds v

/-- A multi-valued attribute holds an array of single values. -/
def Attribute.Holds (a : Attribute) (v : Json) : Prop :=
  if a.multiValued = some true then ∃ items, v = .arr items ∧ ∀ item ∈ items, a.HoldsOne item
  else a.HoldsOne v

/-- The field is a common attribute or one that is advertised. -/
def Admitted (attributes : List Attribute) (common : List String) (f : String × Json) : Prop :=
  f.1 ∈ common ∨ ∃ a ∈ attributes, a.name = f.1 ∧ a.Holds f.2

structure Conforms (attributes : List Attribute) (common : List String)
    (fields : List (String × Json)) : Prop where
  distinct : (fields.map Prod.fst).Nodup
  required : ∀ a ∈ attributes, a.required = some true → a.name ∈ fields.map Prod.fst
  admitted : ∀ f ∈ fields, Admitted attributes common f

variable {attributes : List Attribute} {common : List String}

theorem admitted_common {name : String} (h : name ∈ common) (v : Json) :
    Admitted attributes common (name, v) := Or.inl h

theorem holds_one {a : Attribute} (hmany : a.multiValued ≠ some true) {v : Json}
    (h : a.HoldsOne v) : a.Holds v := by
  unfold Attribute.Holds
  rw [if_neg hmany]
  exact h

theorem holds_many {a : Attribute} (hmany : a.multiValued = some true) {items : List Json}
    (h : ∀ item ∈ items, a.HoldsOne item) : a.Holds (.arr items) := by
  unfold Attribute.Holds
  rw [if_pos hmany]
  exact ⟨items, rfl, h⟩

end OktaScim.AttributeSchemas
