import OktaScim.EdgeProxy
import OktaScim.JsonMasks

/-!
Secrets in the events of the proxy. A body is read as a form or as JSON by its
content type alone, in lower case; what neither can read is shown as it is, and
a token key that holds an object hides nothing of it.
-/
namespace OktaScim.EventSecrecy

open JsStrings JsValues JsonMasks Redaction EdgeProxy

section Bodies

def isSecret (k : String) : Bool := SECRET_KEYS.contains (toLowerCase k)

def isForm (contentType : Option String) : Bool :=
  includes (contentType.getD "") "x-www-form-urlencoded"

def params (b : HttpBody) : Json := .obj (b.form.foldl setParam [])

/-- What a body is taken for that is not read as a form. -/
def bestEffort (b : HttpBody) : Json :=
  b.json.getD (.str (if length b.text > 600 then sliceFront b.text 600 ++ "…" else b.text))

def SameEntry {α : Type} (e e' : String × α) : Prop :=
  e.1 = e'.1 ∧ (isSecret e.1 = true ∨ e.2 = e'.2)

/-- Two form encodings that differ in secrets alone. -/
def SameForms (b₁ b₂ : HttpBody) : Prop := List.Forall₂ SameEntry b₁.form b₂.form

/-- Two JSON texts of values that differ in secrets alone. -/
structure SameJson (b₁ b₂ : HttpBody) : Prop where
  values : ∃ v w, b₁.json = some v ∧ b₂.json = some w ∧ mask isSecret v = mask isSecret w
  texts : b₁.text ≠ "" ∧ b₂.text ≠ ""

/-- Shown the same by redaction. -/
abbrev SameShown : Json → Json → Prop := Alike redactRule Eq

/-- Texts that are the same as far as they are shown. -/
def SameStart (s t : String) : Prop :=
  s = t ∨ (600 < length s ∧ 600 < length t ∧ sliceFront s 600 = sliceFront t 600)

/-- Bodies that are shown the same when they are not read as forms. -/
def TakenAlike (b₁ b₂ : HttpBody) : Prop :=
  match b₁.json, b₂.json with
  | some v, some w => SameShown v w
  | none, none => SameStart b₁.text b₂.text
  | some v, none => v = bestEffort b₂
  | none, some w => w = bestEffort b₁

/-- Every token that redaction reaches is the same in both. -/
abbrev TokensAgree : Json → Json → Prop :=
  RuledAgree redactRule fun k x y => isSecret k = true ∨ x = y

/-- The payloads of two bodies are equal, and so are the events of requests and
of responses that differ in nothing else. -/
structure Hides (contentType : Option String) (b₁ b₂ : HttpBody) : Prop where
  payload : parseBody contentType b₁ = parseBody contentType b₂
  request : ∀ now (r : HttpRequest),
    requestEvent now { r with contentType, body := b₁ } =
      requestEvent now { r with contentType, body := b₂ }
  response : ∀ now r (res : HttpResponse),
    responseEvent now r { res with contentType, body := b₁ } =
      responseEvent now r { res with contentType, body := b₂ }

end Bodies

section Secrecy

variable {contentType : Option String} {b₁ b₂ : HttpBody}

theorem hides_iff :
    Hides contentType b₁ b₂ ↔ parseBody contentType b₁ = parseBody contentType b₂ := by
  constructor
  · exact fun h => h.payload
  · intro h
    refine ⟨h, fun now r => ?_, fun now r res => ?_⟩
    · simp only [requestEvent, pickHeaders, h]
    · simp only [responseEvent, h]

theorem parseBody_eq (contentType : Option String) (b : HttpBody) :
    parseBody contentType b =
      if b.text = "" then none
      else some (redact (if isForm contentType then params b else bestEffort b)) := by
  unfold parseBody isForm
  split
  · rfl
  split
  · rfl
  unfold bestEffort
  cases b.json with
  | none => rfl
  | some v => rfl

theorem redact_eq_iff (v w : Json) : redact v = redact w ↔ SameShown v w :=
  redactBy_iff structural_eq v w

/-- A string is shown as no other value is. -/
theorem sameShown_str_iff (v : Json) (t : String) : SameShown v (.str t) ↔ v = .str t := by
  rw [← redact_eq_iff]
  cases v with
  | arr items => exact ⟨fun h => by contradiction, fun h => by contradiction⟩
  | obj fields => exact ⟨fun h => by contradiction, fun h => by contradiction⟩
  | _ => exact Iff.rfl

/-- A text that is cut is longer than one that is not. -/
theorem shown_text_eq_iff (s t : String) :
    (if length s > 600 then sliceFront s 600 ++ "…" else s) =
      (if length t > 600 then sliceFront t 600 ++ "…" else t) ↔ SameStart s t := by
  have hcut : ∀ {s : String}, 600 < length s → length (sliceFront s 600 ++ "…") = 601 := by
    intro s hs
    have hfront := length_sliceFront (Nat.le_of_lt hs)
    have hdots : length "…" = 1 := rfl
    rw [length_append, hfront, hdots]
  unfold SameStart
  by_cases hs : 600 < length s
  · rw [if_pos hs]
    by_cases ht : 600 < length t
    · rw [if_pos ht, String.append_left_inj]
      constructor
      · exact fun h => .inr ⟨hs, ht, h⟩
      · rintro (rfl | ⟨-, -, h⟩)
        · rfl
        · exact h
    · rw [if_neg ht]
      constructor
      · rintro rfl
        exact absurd (hcut hs) (by omega)
      · rintro (rfl | ⟨-, ht', -⟩)
        · exact absurd hs ht
        · exact absurd ht' ht
  · rw [if_neg hs]
    by_cases ht : 600 < length t
    · rw [if_pos ht]
      constructor
      · rintro rfl
        exact absurd (hcut ht) (by omega)
      · rintro (rfl | ⟨hs', -⟩)
        · exact absurd ht hs
        · exact absurd hs' hs
    · rw [if_neg ht]
      exact ⟨.inl, fun h => h.resolve_right fun h' => hs h'.1⟩

theorem sameShown_bestEffort_iff :
    SameShown (bestEffort b₁) (bestEffort b₂) ↔ TakenAlike b₁ b₂ := by
  unfold TakenAlike
  cases h₁ : b₁.json with
  | some v =>
    cases h₂ : b₂.json with
    | some w => rw [bestEffort, bestEffort, h₁, h₂]; rfl
    | none =>
      have hv : bestEffort b₁ = v := by rw [bestEffort, h₁]; rfl
      obtain ⟨t, ht⟩ : ∃ t, bestEffort b₂ = .str t := ⟨_, by rw [bestEffort, h₂]; rfl⟩
      rw [hv, ht]
      exact sameShown_str_iff v t
  | none =>
    cases h₂ : b₂.json with
    | some w =>
      have hw : bestEffort b₂ = w := by rw [bestEffort, h₂]; rfl
      obtain ⟨t, ht⟩ : ∃ t, bestEffort b₁ = .str t := ⟨_, by rw [bestEffort, h₁]; rfl⟩
      rw [hw, ht, ← redact_eq_iff, eq_comm, redact_eq_iff]
      exact sameShown_str_iff w t
    | none =>
      rw [bestEffort, bestEffort, h₁, h₂, Option.getD_none, Option.getD_none, sameShown_str_iff,
        Json.str.injEq]
      exact shown_text_eq_iff b₁.text b₂.text

/-- A shortened string is as telling as the string when nothing of it is masked,
and other values are not shortened. -/
theorem shortToken_eq_iff {x y : Json} (h : mask isSecret x = mask isSecret y) :
    shortToken x = shortToken y ↔ x = y := by
  have hstr : ∀ {s v}, mask isSecret v = .str s → v = .str s :=
    fun hv => eq_of_mask_eq_leaf hv (fun _ h => by contradiction) fun _ h => by contradiction
  have hself : ∀ v, (∀ s, v ≠ .str s) → shortToken v = v := by
    intro v hv
    cases v with
    | str s => exact absurd rfl (hv s)
    | _ => rfl
  by_cases hx : ∃ s, x = .str s
  · obtain ⟨s, rfl⟩ := hx
    rw [hstr h.symm]
    exact ⟨fun _ => rfl, fun _ => rfl⟩
  · have hy : ∀ t, y ≠ .str t := by
      rintro t rfl
      exact hx ⟨t, hstr h⟩
    rw [hself x fun s hs => hx ⟨s, hs⟩, hself y hy]

theorem maskedRules_shown :
    MaskedRules redactRule (fun k x y => isSecret k = true ∨ x = y) Eq isSecret where
  refl _ := rfl
  ruled k hk := by
    have hsecret : SECRET_KEYS.contains (toLowerCase k) = true := hk
    rw [redactRule, if_pos hsecret]
    rfl
  shown_iff k f hf x y hmask := by
    unfold redactRule at hf
    split at hf
    · rename_i hsecret
      obtain rfl := Option.some_inj.mp hf
      exact ⟨fun _ => .inl hsecret, fun _ => rfl⟩
    · rename_i hsecret
      split at hf
      · obtain rfl := Option.some_inj.mp hf
        rw [shortToken_eq_iff (hmask.resolve_left hsecret)]
        exact ⟨.inr, fun h => h.resolve_left hsecret⟩
      · contradiction

theorem setParam_same {ps qs : List (String × Json)} {e e' : String × String}
    (h : List.Forall₂ SameEntry ps qs) (he : SameEntry e e') :
    List.Forall₂ SameEntry (setParam ps e) (setParam qs e') := by
  obtain ⟨hkey, hvalue⟩ := he
  have hany : ps.any (fun p => p.1 = e.1) = qs.any (fun q => q.1 = e'.1) := by
    induction h with
    | nil => rfl
    | cons hpq _ ih => rw [List.any_cons, List.any_cons, ih, hpq.1, hkey]
  have hset : isSecret e.1 = true ∨ Json.str e.2 = Json.str e'.2 := hvalue.imp_right (congrArg _)
  unfold setParam
  rw [hany, ← hkey]
  split
  · exact h
  split
  · rw [List.forall₂_map_left_iff, List.forall₂_map_right_iff]
    refine h.imp fun p q hpq => ?_
    rw [← hpq.1]
    split
    · rename_i hp
      exact ⟨rfl, hp ▸ hset⟩
    · exact hpq
  · exact List.rel_append h (.cons ⟨rfl, hset⟩ .nil)

theorem foldl_setParam_same {ps qs : List (String × Json)} {form form' : List (String × String)}
    (h : List.Forall₂ SameEntry ps qs) (hform : List.Forall₂ SameEntry form form') :
    List.Forall₂ SameEntry (form.foldl setParam ps) (form'.foldl setParam qs) := by
  induction hform generalizing ps qs with
  | nil => exact h
  | cons he _ ih => exact ih (setParam_same h he)

/-- Forms that differ in secrets alone are shown the same. -/
theorem sameShown_params (h : SameForms b₁ b₂) : SameShown (params b₁) (params b₂) := by
  have hparams := foldl_setParam_same List.Forall₂.nil h
  refine ⟨_, rfl, ?_⟩
  revert hparams
  generalize b₁.form.foldl setParam [] = ps
  generalize b₂.form.foldl setParam [] = qs
  intro hparams
  induction hparams with
  | nil => rfl
  | @cons p q ps qs hpq _ ih =>
    obtain ⟨k, v⟩ := p
    obtain ⟨l, w⟩ := q
    obtain ⟨hkey, hvalue⟩ := hpq
    obtain rfl : k = l := hkey
    refine (alikeFields_cons_iff k v w ps qs).mpr ⟨.inr ?_, ih⟩
    obtain hsecret | rfl := hvalue
    · have hrule : redactRule k = some fun _ => .str "***" := if_pos hsecret
      rw [hrule]
    · cases redactRule k with
      | some f => rfl
      | none => exact (redact_eq_iff v v).mp rfl

/-- Which parser reads the bodies decides what is hidden. A form is hidden when it
is read as one, JSON when it is read as such and holds no secret in a token. -/
theorem secrets_hidden_iff (contentType : Option String) (b₁ b₂ : HttpBody) :
    (SameForms b₁ b₂ → (Hides contentType b₁ b₂ ↔ (b₁.text = "" ↔ b₂.text = "") ∧
      (b₁.text = "" ∨ isForm contentType = true ∨ TakenAlike b₁ b₂))) ∧
    (SameJson b₁ b₂ → (Hides contentType b₁ b₂ ↔
      if isForm contentType then SameShown (params b₁) (params b₂)
      else TokensAgree (bestEffort b₁) (bestEffort b₂))) := by
  have hshown : b₁.text ≠ "" → b₂.text ≠ "" → (Hides contentType b₁ b₂ ↔
      if isForm contentType then SameShown (params b₁) (params b₂)
      else SameShown (bestEffort b₁) (bestEffort b₂)) := by
    intro h₁ h₂
    rw [hides_iff, parseBody_eq, parseBody_eq, if_neg h₁, if_neg h₂, Option.some_inj, redact_eq_iff]
    cases isForm contentType with
    | true => exact Iff.rfl
    | false => exact Iff.rfl
  constructor
  · intro hforms
    by_cases h₁ : b₁.text = ""
    · by_cases h₂ : b₂.text = ""
      · simp [hides_iff, parseBody_eq, h₁, h₂]
      · simp [hides_iff, parseBody_eq, h₁, h₂]
    · by_cases h₂ : b₂.text = ""
      · simp [hides_iff, parseBody_eq, h₁, h₂]
      · rw [hshown h₁ h₂]
        cases isForm contentType with
        | true => simp [h₁, h₂, sameShown_params hforms]
        | false => simp [h₁, h₂, sameShown_bestEffort_iff]
  · rintro ⟨⟨v, w, hv, hw, hmask⟩, h₁, h₂⟩
    rw [hshown h₁ h₂]
    have htokens : SameShown (bestEffort b₁) (bestEffort b₂) ↔
        TokensAgree (bestEffort b₁) (bestEffort b₂) := by
      rw [bestEffort, bestEffort, hv, hw]
      exact alike_iff_of_mask maskedRules_shown v w hmask
    rw [htokens]

def tokenRequest (secret : String) : HttpBody where
  text := "grant_type=client_credentials&client_secret=" ++ secret
  json := none
  form := [("grant_type", "client_credentials"), ("client_secret", secret)]
  parsed := none

def postedUser (password : String) : HttpBody where
  text := "\x7b\"userName\":\"ann\",\"password\":\"" ++ password ++ "\"\x7d"
  json := some (.obj [("userName", .str "ann"), ("password", .str password)])
  form := []
  parsed := some (.obj [("userName", .str "ann"), ("password", .str password)])

theorem secrets_hidden_iff_sample :
    Hides (some "application/x-www-form-urlencoded; charset=utf-8") (tokenRequest "s3cret")
        (tokenRequest "other") ∧
      Hides (some "application/scim+json") (postedUser "Spring-24") (postedUser "Autumn-25") := by
  constructor
  · refine ((secrets_hidden_iff _ _ _).1 ?_).mpr ⟨by decide, .inr (.inl (by decide))⟩
    exact .cons ⟨rfl, .inr rfl⟩ (.cons ⟨rfl, .inl (by decide)⟩ .nil)
  · have hform : ¬isForm (some "application/scim+json") = true := by decide
    have hsecret : isSecret "password" = true := by decide
    have hname : isSecret "userName" = false := by decide
    have hrule : (redactRule "userName").isSome = false := by decide
    have hmask : ∀ password, mask isSecret (.obj [("userName", .str "ann"),
        ("password", .str password)]) = .obj [("userName", .str "ann"), ("password", .null)] := by
      intro password
      simp [mask, maskFields, hsecret, hname]
    have hsame : SameJson (postedUser "Spring-24") (postedUser "Autumn-25") :=
      ⟨⟨_, _, rfl, rfl, (hmask _).trans (hmask _).symm⟩, by decide, by decide⟩
    refine ((secrets_hidden_iff _ _ _).2 hsame).mpr ?_
    rw [if_neg hform]
    refine ⟨.inr ?_, .inr ?_, trivial⟩
    · rw [hrule]
      exact trivial
    · split
      · exact .inl hsecret
      · exact trivial

/-- A form of a content type in other letters is shown as it is. -/
theorem form_type_letters :
    SameForms (tokenRequest "s3cret") (tokenRequest "other") ∧
      ¬Hides (some "application/X-WWW-Form-Urlencoded") (tokenRequest "s3cret")
        (tokenRequest "other") := by
  refine ⟨.cons ⟨rfl, .inr rfl⟩ (.cons ⟨rfl, .inl (by decide)⟩ .nil), fun h => ?_⟩
  have hfirst : parseBody (some "application/X-WWW-Form-Urlencoded") (tokenRequest "s3cret") =
      some (.str (tokenRequest "s3cret").text) := rfl
  have hsecond : parseBody (some "application/X-WWW-Form-Urlencoded") (tokenRequest "other") =
      some (.str (tokenRequest "other").text) := rfl
  have hpayload := h.payload
  rw [hfirst, hsecond, Option.some_inj, Json.str.injEq] at hpayload
  exact absurd hpayload (by decide)

end Secrecy

end OktaScim.EventSecrecy
