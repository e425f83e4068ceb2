import OktaScim.JsonMasks
import OktaScim.LoggingInterceptor

/-!
Passwords in the line that is logged for a request. A password can be the value
of a key of its own, which is redacted, or that of a PATCH operation with the
path "password", which is not.
-/
namespace OktaScim.LogSecrecy

open JsValues JsonText JsonMasks Redaction LoggingInterceptor

section Bodies

def isPassword (k : String) : Bool := toLowerCase k = "password"

def pathIsPassword (operation : Json) : Bool :=
  match operation.get "path" with
  | some (.str path) => path = "password"
  | _ => false

/-- An operation without the password that it sends. -/
def hideOperation (operation : Json) : Json :=
  if pathIsPassword operation then modify "value" (fun _ => .null) operation else operation

def hideOperations : Json → Json := modify "Operations" (mapItems hideOperation)

/-- A body without passwords. -/
def withoutPasswords (method : String) (body : Json) : Json :=
  mask isPassword (if method = "PATCH" then hideOperations body else body)

/-- The values that operations with the path "password" send are alike. -/
def OperationsAlike (b₁ b₂ : Json) : Prop :=
  ∀ ops₁ ops₂, b₁.get "Operations" = some (.arr ops₁) → b₂.get "Operations" = some (.arr ops₂) →
    ∀ o ∈ ops₁.zip ops₂, pathIsPassword o.1 = true →
      ∀ v w, o.1.get "value" = some v → o.2.get "value" = some w → LoggedAlike v w

end Bodies

section Masked

theorem isRedacted_of_isPassword {k : String} (h : isPassword k = true) : isRedacted k = true := by
  simp only [isPassword, decide_eq_true_eq] at h
  rw [isRedacted, h]
  decide

theorem maskedRules_logged :
    MaskedRules redactRule (fun _ _ _ => True) SameText isPassword where
  refl v := (stringify_eq_iff v v).mp rfl
  ruled k hk := by
    rw [redactRule, if_pos (isRedacted_of_isPassword hk)]
    rfl
  shown_iff k f hf x y _ := by
    unfold redactRule at hf
    split at hf
    · obtain rfl := Option.some_inj.mp hf
      exact ⟨fun _ => trivial, fun _ => rfl⟩
    · contradiction

/-- Bodies that differ under keys named password alone are logged alike. -/
theorem alike_of_mask {v w : Json} (h : mask isPassword v = mask isPassword w) :
    LoggedAlike v w :=
  (alike_iff_of_mask maskedRules_logged v w h).mpr (ruledAgree_of_forall (fun _ _ _ => trivial) v w)

theorem alikeFields_of_mask {vs ws : List (String × Json)}
    (h : maskFields isPassword vs = maskFields isPassword ws) :
    AlikeFields redactRule SameText vs ws :=
  (alikeFields_iff_of_mask maskedRules_logged vs ws h).mpr
    (ruledFields_of_forall (fun _ _ _ => trivial) vs ws)

/-- What is logged of the field that a mask modifies is what differs. -/
theorem alikeFields_modify_iff {k : String} (hshown : isRedacted k = false)
    (hk : k ≠ "__proto__") (f : Json → Json)
    (vs ws : List (String × Json))
    (h : maskFields isPassword (modifyFields k f vs) =
      maskFields isPassword (modifyFields k f ws)) :
    AlikeFields redactRule SameText vs ws ↔
      ∀ v w, (Json.obj vs).get k = some v → (Json.obj ws).get k = some w → LoggedAlike v w := by
  have hkeys := congrArg (List.map Prod.fst) h
  rw [maskFields_keys, maskFields_keys, modifyFields_keys, modifyFields_keys] at hkeys
  induction vs generalizing ws with
  | nil =>
    obtain rfl := List.map_eq_nil_iff.mp hkeys.symm
    exact ⟨fun _ _ _ hv => by contradiction, fun _ => rfl⟩
  | cons p vs ih =>
    obtain ⟨l, v⟩ := p
    cases ws with
    | nil => contradiction
    | cons q ws =>
      obtain ⟨l', w⟩ := q
      obtain ⟨rfl, htail⟩ := List.cons.inj hkeys
      rw [alikeFields_cons_iff]
      by_cases hl : l = k
      · subst hl
        rw [modifyFields, modifyFields, if_pos rfl, if_pos rfl] at h
        have hrest := alikeFields_of_mask (List.cons.inj h).2
        have hrule : redactRule l = none := if_neg (by simp [hshown])
        simp [Json.get, hk, hrule, hrest]
      · rw [modifyFields, modifyFields, if_neg hl, if_neg hl] at h
        obtain ⟨hf, hrest⟩ := List.cons.inj h
        have hhead := ((alikeFields_cons_iff l v w [] []).mp
          (alikeFields_of_mask (congrArg (fun f => [f]) hf))).1
        have hget : ∀ (u : Json) (fields : List (String × Json)),
            (Json.obj ((l, u) :: fields)).get k = (Json.obj fields).get k := by
          intro u fields
          simp [Json.get, hl]
        rw [hget, hget]
        exact ⟨fun halike => (ih ws hrest htail).mp halike.2,
          fun halike => ⟨hhead, (ih ws hrest htail).mpr halike⟩⟩

theorem alike_modify_iff {k : String} (hshown : isRedacted k = false)
    (hk : k ≠ "__proto__") (f : Json → Json) (v w : Json)
    (h : mask isPassword (modify k f v) = mask isPassword (modify k f w)) :
    LoggedAlike v w ↔ ∀ x y, v.get k = some x → w.get k = some y → LoggedAlike x y := by
  have hleaf : (∀ fields, v ≠ .obj fields) →
      (LoggedAlike v w ↔ ∀ x y, v.get k = some x → w.get k = some y → LoggedAlike x y) := by
    intro hobj
    have hv : modify k f v = v := by
      cases v with
      | obj fields => exact absurd rfl (hobj fields)
      | _ => rfl
    have hw : modify k f w = w := by
      cases w with
      | obj fields =>
        obtain ⟨vs, hvs, -⟩ := mask_eq_obj h
        exact absurd (hv.symm.trans hvs) (hobj vs)
      | _ => rfl
    have hget : v.get k = none := by
      cases v with
      | obj fields => exact absurd rfl (hobj fields)
      | _ => rfl
    rw [hv, hw] at h
    rw [hget]
    exact ⟨fun _ x y hx => by contradiction, fun _ => alike_of_mask h⟩
  cases v with
  | obj vs =>
    obtain ⟨ws', hmod, hws⟩ := mask_eq_obj h.symm
    cases w with
    | obj ws =>
      obtain rfl := Json.obj.inj hmod
      have hfields := alikeFields_modify_iff hshown hk f vs ws hws.symm
      rw [← hfields]
      constructor
      · rintro ⟨ws', hw, halike⟩
        rwa [Json.obj.inj hw]
      · exact fun halike => ⟨ws, rfl, halike⟩
    | _ => contradiction
  | _ => exact hleaf fun _ hobj => by contradiction

/-- Two operations without their passwords are those of the same path, and what
they send is alike unless it is a password. -/
theorem alike_operation_iff {o o' : Json}
    (h : mask isPassword (hideOperation o) = mask isPassword (hideOperation o')) :
    LoggedAlike o o' ↔ (pathIsPassword o = true →
      ∀ v w, o.get "value" = some v → o'.get "value" = some w → LoggedAlike v w) := by
  have hpath : ∀ o, pathIsPassword (mask isPassword (hideOperation o)) = pathIsPassword o := by
    intro o
    have hget : (mask isPassword (hideOperation o)).get "path" =
        (o.get "path").map (mask isPassword) := by
      rw [get_mask (by decide), hideOperation]
      split
      · rw [get_modify_other (by decide)]
      · rfl
    unfold pathIsPassword
    rw [hget]
    cases o.get "path" with
    | none => rfl
    | some v =>
      cases v with
      | _ => rfl
  have hsame : pathIsPassword o = pathIsPassword o' := by rw [← hpath o, h, hpath]
  cases hp : pathIsPassword o with
  | true =>
    rw [hp] at hsame
    rw [hideOperation, if_pos hp, hideOperation, if_pos hsame.symm] at h
    rw [alike_modify_iff (by decide) (by decide) _ o o' h]
    exact ⟨fun halike _ => halike, fun halike => halike rfl⟩
  | false =>
    rw [hp] at hsame
    rw [hideOperation, if_neg (by simp [hp]), hideOperation, if_neg (by simp [← hsame])] at h
    exact ⟨fun _ hnot => by contradiction, fun _ => alike_of_mask h⟩

theorem alike_operations_iff (ops₁ ops₂ : List Json)
    (h : (ops₁.map hideOperation).map (mask isPassword) =
      (ops₂.map hideOperation).map (mask isPassword)) :
    AlikeItems redactRule SameText ops₁ ops₂ ↔ ∀ o ∈ ops₁.zip ops₂, pathIsPassword o.1 = true →
      ∀ v w, o.1.get "value" = some v → o.2.get "value" = some w → LoggedAlike v w := by
  induction ops₁ generalizing ops₂ with
  | nil =>
    cases ops₂ with
    | nil => exact ⟨fun _ o ho => absurd ho (by simp), fun _ => rfl⟩
    | cons o' ops₂ => contradiction
  | cons o ops₁ ih =>
    cases ops₂ with
    | nil => contradiction
    | cons o' ops₂ =>
      obtain ⟨hhead, hrest⟩ := List.cons.inj h
      rw [List.zip_cons_cons, List.forall_mem_cons, ← alike_operation_iff hhead, ← ih ops₂ hrest]
      constructor
      · rintro ⟨w, rest, hcons, halike⟩
        obtain ⟨rfl, rfl⟩ := List.cons.inj hcons
        exact halike
      · exact fun halike => ⟨o', ops₂, rfl, halike⟩

theorem alike_hideOperations_iff {b₁ b₂ : Json}
    (h : mask isPassword (hideOperations b₁) = mask isPassword (hideOperations b₂)) :
    LoggedAlike b₁ b₂ ↔ OperationsAlike b₁ b₂ := by
  rw [alike_modify_iff (by decide) (by decide) _ b₁ b₂ h]
  have hget := congrArg (fun v => v.get "Operations") h
  simp only [hideOperations] at hget
  rw [get_mask (by decide), get_mask (by decide), get_modify, get_modify] at hget
  constructor
  · intro halike ops₁ ops₂ h₁ h₂
    have harr := halike _ _ h₁ h₂
    rw [h₁, h₂] at hget
    have hitems := Json.arr.inj (Option.some_inj.mp hget)
    rw [maskItems_eq_map, maskItems_eq_map] at hitems
    obtain ⟨ops, hops, hsame⟩ := harr
    rw [Json.arr.inj hops] at hitems ⊢
    exact (alike_operations_iff ops₁ ops hitems).mp hsame
  · intro hops x y hx hy
    rw [hx, hy] at hget
    have hmask := Option.some_inj.mp hget
    cases x with
    | arr ops₁ =>
      obtain ⟨items, hmod, hitems⟩ := mask_eq_arr hmask.symm
      cases y with
      | arr ops₂ =>
        obtain rfl := Json.arr.inj hmod
        rw [maskItems_eq_map, maskItems_eq_map] at hitems
        exact ⟨ops₂, rfl, (alike_operations_iff ops₁ ops₂ hitems.symm).mpr (hops _ _ hx hy)⟩
      | _ => contradiction
    | _ =>
      cases y with
      | arr ops₂ => contradiction
      | _ => exact alike_of_mask hmask

end Masked

section Lines

theorem coalesce_cases (a : Option Json) :
    (∀ b, coalesce a b = a) ∨ ∀ b, coalesce a b = b := by
  rcases a with _ | v
  · exact .inr fun _ => rfl
  · cases v with
    | null => exact .inr fun _ => rfl
    | _ => exact .inl fun _ => rfl

/-- A client that the guard lets in has a text. -/
theorem client_of_activated {jwtVerify : JwtGuard.JwtVerify} {g : JwtGuard.JwtAuthGuard}
    {req : JwtGuard.Request} (h : (JwtGuard.canActivate jwtVerify g req).1 = .activated)
    (method originalUrl : String) :
    (jsString (actor
      { method, originalUrl
        auth := (JwtGuard.canActivate jwtVerify g req).2.auth
        oauthClientId := (JwtGuard.canActivate jwtVerify g req).2.oauthClientId })).isSome =
      true := by
  by_cases hacc : ∃ v, JwtGuard.Accepts jwtVerify g req v
  · obtain ⟨v, hv⟩ := hacc
    rw [JwtGuard.canActivate_accepted hv] at h ⊢
    split at h
    · contradiction
    split at h
    · contradiction
    rename_i hlog hscope
    have htexts := (JwtGuard.loggable_iff.mp (Bool.eq_true_of_not_eq_false hlog)).texts
    have hclient := htexts (coalesce (v.payload.get "azp")
      (coalesce (v.payload.get "client_id") (some (.str "—")))) (by simp [JwtGuard.shownClaims])
    have hsub := htexts (v.payload.get "sub") (by simp [JwtGuard.shownClaims])
    rw [if_neg hlog, if_neg hscope]
    simp only [actor, Option.bind_some]
    -- whichever claim is the client was shown in the line about the token
    obtain hazp | hazp := coalesce_cases (v.payload.get "azp")
    · rw [hazp] at hclient
      rwa [hazp, hazp]
    rw [hazp] at hclient
    rw [hazp, hazp]
    obtain hid | hid := coalesce_cases (v.payload.get "client_id")
    · rw [hid] at hclient
      rwa [hid, hid]
    rw [hid]
    obtain hs | hs := coalesce_cases (v.payload.get "sub")
    · rwa [hs]
    · rw [hs]
      rfl
  · obtain ⟨message, hrefused⟩ := JwtGuard.canActivate_refused fun v hv => hacc ⟨v, hv⟩
    rw [hrefused] at h
    contradiction

theorem hideOperations_empty {v : Json} (h : hasBody (some v) = false) : hideOperations v = v := by
  cases v with
  | obj fields =>
    cases fields with
    | nil => rfl
    | cons f fields => contradiction
  | _ => rfl

theorem hasBody_hideOperations (v : Json) :
    hasBody (some (hideOperations v)) = hasBody (some v) := by
  cases v with
  | obj fields =>
    cases fields with
    | nil => rfl
    | cons f fields =>
      simp only [hideOperations, JsonMasks.modify, modifyFields]
      split
      · rfl
      · rfl
  | _ => rfl

theorem hasBody_mask (hidden : String → Bool) (v : Json) :
    hasBody (some (mask hidden v)) = hasBody (some v) := by
  cases v with
  | obj fields =>
    cases fields with
    | nil => rfl
    | cons f fields => rfl
  | arr items =>
    cases items with
    | nil => rfl
    | cons v items => rfl
  | _ => rfl

theorem hasBody_of_withoutPasswords {method : String} {b₁ b₂ : Json}
    (h : withoutPasswords method b₁ = withoutPasswords method b₂) :
    hasBody (some b₁) = hasBody (some b₂) := by
  have hmasked := congrArg (fun v => hasBody (some v)) h
  simp only [withoutPasswords, hasBody_mask] at hmasked
  split at hmasked
  · rwa [hasBody_hideOperations, hasBody_hideOperations] at hmasked
  · exact hmasked

/-- Bodies that differ in passwords alone are logged alike unless they are those
of PATCH requests that send passwords to the path. -/
theorem alike_iff_of_withoutPasswords {method : String} {b₁ b₂ : Json}
    (h : withoutPasswords method b₁ = withoutPasswords method b₂) :
    LoggedAlike b₁ b₂ ↔ (method = "PATCH" → OperationsAlike b₁ b₂) := by
  unfold withoutPasswords at h
  by_cases hpatch : method = "PATCH"
  · rw [if_pos hpatch, if_pos hpatch] at h
    rw [alike_hideOperations_iff h]
    exact ⟨fun halike _ => halike, fun halike => halike hpatch⟩
  · rw [if_neg hpatch, if_neg hpatch] at h
    exact ⟨fun _ hnot => absurd hnot hpatch, fun _ => alike_of_mask h⟩

theorem bodyStr_eq_iff {v w : Json} (hbody : hasBody (some v) = hasBody (some w))
    (hempty : hasBody (some v) = false → LoggedAlike v w) :
    bodyStr (some v) = bodyStr (some w) ↔ LoggedAlike v w := by
  cases hv : hasBody (some v) with
  | false =>
    rw [bodyStr, bodyStr, ← hbody, hv]
    exact ⟨fun _ => hempty hv, fun _ => rfl⟩
  | true =>
    rw [bodyStr, bodyStr, ← hbody, hv, if_pos rfl, if_pos rfl, Option.elim_some, Option.elim_some,
      String.append_right_inj, stringify_redact_eq_iff]

/-- The line is the same for two bodies that differ in passwords alone exactly
when none of these is sent by an operation with the path "password". -/
theorem passwords_hidden_iff (r : LoggedRequest) (b₁ b₂ : Json)
    (h : withoutPasswords r.method b₁ = withoutPasswords r.method b₂) :
    requestLine r (some b₁) = requestLine r (some b₂) ↔
      ((jsString (actor r)).isSome = true → r.method = "PATCH" → OperationsAlike b₁ b₂) := by
  have hbody := hasBody_of_withoutPasswords h
  have hempty : hasBody (some b₁) = false → LoggedAlike b₁ b₂ := by
    intro hnone
    rw [withoutPasswords, withoutPasswords, hideOperations_empty hnone,
      hideOperations_empty (hbody ▸ hnone), ite_self, ite_self] at h
    exact alike_of_mask h
  rw [← alike_iff_of_withoutPasswords h, ← bodyStr_eq_iff hbody hempty]
  unfold requestLine
  cases jsString (actor r) with
  | none => exact ⟨fun _ hnot => by contradiction, fun _ => rfl⟩
  | some client =>
    rw [Option.map_some, Option.map_some, Option.some_inj, String.append_right_inj]
    exact ⟨fun hline _ => hline, fun hline => hline rfl⟩

def patchRequest : LoggedRequest := ⟨"PATCH", "/scim/v2/Users/u1", none, some (.str "okta")⟩

/-- A PATCH of the attributes of an object. -/
def objectPatch (password : String) : Json :=
  .obj [("Operations", .arr [.obj [("op", .str "replace"),
    ("value", .obj [("active", .bool true), ("Password", .str password)])]])]

/-- A PATCH of the path "password". -/
def pathPatch (password : String) : Json :=
  .obj [("Operations", .arr [.obj [("op", .str "replace"), ("path", .str "password"),
    ("value", .str password)]])]

theorem passwords_hidden_iff_object :
    requestLine patchRequest (some (objectPatch "Spring-24")) =
      requestLine patchRequest (some (objectPatch "Winter-25")) := by
  refine (passwords_hidden_iff patchRequest _ _ rfl).mpr fun _ _ ops₁ ops₂ h₁ h₂ => ?_
  obtain rfl := Json.arr.inj (Option.some_inj.mp h₁)
  obtain rfl := Json.arr.inj (Option.some_inj.mp h₂)
  intro o ho hpath
  obtain rfl := List.mem_singleton.mp ho
  contradiction

/-- The value of an operation with the path "password" is logged as it is. -/
theorem path_password_logged :
    withoutPasswords "PATCH" (pathPatch "Spring-24") =
        withoutPasswords "PATCH" (pathPatch "Winter-25") ∧
      requestLine patchRequest (some (pathPatch "Spring-24")) ≠
        requestLine patchRequest (some (pathPatch "Winter-25")) :=
  ⟨rfl, by decide⟩

end Lines

end OktaScim.LogSecrecy
