import OktaScim.GroupPatchEffect

/-!
What the batch of a PATCH of a group comes to, refusals included: that its
values can be read is found out first, then that the new name is free, then that
the users to add are there.
-/
namespace OktaScim.BatchOutcomes

open Schema KeyedRows JsValues PrismaClient PrismaConstraints GroupPatch GroupPatchEffect

section Reading

theorem mapM_eq_none_iff {α β : Type} {f : α → Option β} {l : List α} :
    l.mapM f = none ↔ ∃ x ∈ l, f x = none := by
  induction l with
  | nil => simp
  | cons x l ih =>
    rw [List.mapM_cons]
    cases hx : f x with
    | none => simp [hx]
    | some y =>
      cases hl : l.mapM f with
      | none =>
        obtain ⟨z, hz, hnone⟩ := ih.mp hl
        simp only [Option.bind_eq_bind, Option.bind_some, Option.bind_none, true_iff]
        exact ⟨z, List.mem_cons_of_mem x hz, hnone⟩
      | some ys =>
        have hall : ¬∃ z ∈ l, f z = none := by
          rw [← ih, hl]
          simp
        simp only [Option.bind_eq_bind, Option.bind_some, Option.pure_def, false_iff, reduceCtorEq]
        rintro ⟨z, hz, hnone⟩
        rcases List.mem_cons.mp hz with rfl | hz
        · rw [hx] at hnone
          contradiction
        · exact hall ⟨z, hz, hnone⟩

/-- The member values of a PATCH can be read, those to add as strings. -/
def Legible (E : Engine) (r : GroupPatchResult) : Prop :=
  (∀ v ∈ r.removeMemberIds, (E.stringFilter v).isSome = true) ∧
    ∀ v ∈ r.addMemberIds, ∃ u, v = Json.str u

theorem read_memberUpsert_eq_none {E : Engine} {id : String} {v : Json} :
    (BatchOp.memberUpsert id v).read E = none ↔ ¬∃ u, v = Json.str u := by
  cases v <;> simp [BatchOp.read]

theorem read_patchOperations_eq_none {E : Engine} {id : String} {r : GroupPatchResult} :
    (GroupsService.patchOperations id r).mapM (BatchOp.read E) = none ↔ ¬Legible E r := by
  have hupdate : ∀ op ∈ (if r.displayName.isSome ∨ r.externalId.isSome then
      [BatchOp.groupUpdate id
        { displayName := r.displayName, externalId := GroupsService.patchColumn r.externalId,
          members := [] }]
      else []), op.read E ≠ none := by
    intro op hop
    split at hop
    · rw [List.mem_singleton.mp hop]
      simp [BatchOp.read, readMembers]
    · contradiction
  rw [mapM_eq_none_iff]
  constructor
  · rintro ⟨op, hop, hnone⟩ ⟨hremove, hadd⟩
    simp only [GroupsService.patchOperations, List.mem_append, List.mem_map] at hop
    rcases hop with (hop | ⟨v, hv, rfl⟩) | ⟨v, hv, rfl⟩
    · exact hupdate op hop hnone
    · have hsome := hremove v hv
      simp only [BatchOp.read, readFilter, Option.map_eq_none_iff] at hnone
      rw [hnone] at hsome
      contradiction
    · exact read_memberUpsert_eq_none.mp hnone (hadd v hv)
  · intro hlegible
    by_contra hall
    simp only [not_exists, not_and] at hall
    refine hlegible ⟨fun v hv => ?_, fun v hv => ?_⟩
    · have hread := hall (.memberDeleteMany (some id) (some v)) (by
        simp only [GroupsService.patchOperations, List.mem_append, List.mem_map]
        exact .inl (.inr ⟨v, hv, rfl⟩))
      simp only [BatchOp.read, readFilter, Option.map_eq_none_iff] at hread
      exact Option.isSome_iff_ne_none.mpr hread
    · have hread := hall (.memberUpsert id v) (by
        simp only [GroupsService.patchOperations, List.mem_append, List.mem_map]
        exact .inr ⟨v, hv, rfl⟩)
      by_contra hstr
      exact hread (read_memberUpsert_eq_none.mpr hstr)

end Reading

section Running

variable {E : Engine} {t : Tick} {id : String}

theorem execWrites_append (t : Tick) (w₁ w₂ : List Write) (s : Store) :
    execWrites t (w₁ ++ w₂) s = (execWrites t w₁ s).bind (execWrites t w₂) := by
  induction w₁ generalizing s with
  | nil => rfl
  | cons w ws ih =>
    simp only [List.cons_append, execWrites]
    cases w.exec t s with
    | error e => rfl
    | ok mid => exact ih mid

/-- Removals do not fail. -/
theorem removals_run {values : List Json} {ws : List Write}
    (hread : (values.map fun v => BatchOp.memberDeleteMany (some id) (some v)).mapM
      (BatchOp.read E) = some ws) (s : Store) : ∃ s', execWrites t ws s = .ok s' := by
  induction values generalizing ws s with
  | nil =>
    cases hread
    exact ⟨s, rfl⟩
  | cons v values ih =>
    obtain ⟨w, rest, hw, hrest, rfl⟩ := mapM_cons_some hread
    obtain ⟨p, _, rfl⟩ := Option.map_eq_some_iff.mp hw
    exact ih hrest _

/-- The users of memberships are there. -/
def MembersKnown (s : Store) : Prop := ∀ m ∈ s.members, (s.user m.userId).isSome = true

/-- Additions to a group run through exactly when their users are there. -/
theorem additions_run {values : List Json} {ws : List Write}
    (hread : (values.map fun v => BatchOp.memberUpsert id v).mapM (BatchOp.read E) = some ws)
    {s : Store} (hgroup : (s.group id).isSome = true) (hknown : MembersKnown s) :
    (∃ s', execWrites t ws s = .ok s' ∧ ∀ u, .str u ∈ values → (s.user u).isSome = true) ∨
      (execWrites t ws s = .error .P2003 ∧ ∃ u, .str u ∈ values ∧ s.user u = none) := by
  induction values generalizing ws s with
  | nil =>
    cases hread
    exact Or.inl ⟨s, rfl, by simp⟩
  | cons v values ih =>
    obtain ⟨w, rest, hw, hrest, rfl⟩ := mapM_cons_some hread
    cases v with
    | str u =>
      cases hw
      by_cases hmem : (⟨id, u⟩ : ScimGroupMember) ∈ s.members
      · have hrun : (Write.memberUpsert id u).exec t s = .ok s := if_pos hmem
        simp only [execWrites, hrun]
        rcases ih hrest hgroup hknown with ⟨s', hs', hall⟩ | ⟨herr, w, hw, hnone⟩
        · refine Or.inl ⟨s', hs', fun w hw => ?_⟩
          rcases List.mem_cons.mp hw with heq | hw
          · rw [Json.str.inj heq]
            exact hknown _ hmem
          · exact hall w hw
        · exact Or.inr ⟨herr, w, List.mem_cons_of_mem _ hw, hnone⟩
      · have hins : (Write.memberUpsert id u).exec t s = insertMember ⟨id, u⟩ s := if_neg hmem
        cases hu : s.user u with
        | none =>
          have hfail : insertMember ⟨id, u⟩ s = .error .P2003 := by
            simp [insertMember, hmem, hu]
          have hrun : execWrites t (.memberUpsert id u :: rest) s = .error .P2003 := by
            simp only [execWrites, hins, hfail]
          exact Or.inr ⟨hrun, u, List.mem_cons_self .., hu⟩
        | some row =>
          have hok : insertMember ⟨id, u⟩ s = .ok { s with members := s.members ++ [⟨id, u⟩] } := by
            simp [insertMember, hmem, hu, hgroup]
          simp only [execWrites, hins, hok]
          have hknown' : MembersKnown { s with members := s.members ++ [⟨id, u⟩] } := by
            intro m hm
            rcases List.mem_append.mp hm with hm | hm
            · exact hknown m hm
            · rw [List.mem_singleton.mp hm]
              exact Option.isSome_iff_exists.mpr ⟨row, hu⟩
          rcases ih hrest (s := { s with members := s.members ++ [⟨id, u⟩] }) hgroup hknown' with
            ⟨s', hs', hall⟩ | ⟨herr, w, hw, hnone⟩
          · refine Or.inl ⟨s', hs', fun w hw => ?_⟩
            rcases List.mem_cons.mp hw with heq | hw
            · rw [Json.str.inj heq, hu]
              rfl
            · exact hall w hw
          · exact Or.inr ⟨herr, w, List.mem_cons_of_mem _ hw, hnone⟩
    | null => contradiction
    | bool b => contradiction
    | num n => contradiction
    | arr items => contradiction
    | obj fields => contradiction

/-- The name of the group after the batch is another group's. -/
def NameTaken (s : Store) (id : String) (g : ScimGroup) (r : GroupPatchResult) : Prop :=
  (r.displayName.isSome ∨ r.externalId.isSome) ∧
    displayNameTaken s id (r.displayName.getD g.displayName) = true

/-- The row of the group is written first, and only if some column is set. -/
theorem columns_run {s : Store} {g : ScimGroup} (hg : s.group id = some g) {r : GroupPatchResult}
    {ws : List Write}
    (hread : (if r.displayName.isSome ∨ r.externalId.isSome then
      [BatchOp.groupUpdate id ⟨r.displayName, GroupsService.patchColumn r.externalId, []⟩]
      else []).mapM (BatchOp.read E) = some ws) :
    (NameTaken s id g r ∧ execWrites t ws s = .error .P2002) ∨
      (¬NameTaken s id g r ∧ ∃ s', execWrites t ws s = .ok s' ∧ s'.users = s.users ∧
        s'.members = s.members ∧ (s'.group id).isSome = true) := by
  split at hread
  · rename_i hset
    have hws : ws = [.groupUpdate id r.displayName (GroupsService.patchColumn r.externalId) []] :=
      (Option.some.inj hread).symm
    rw [hws]
    by_cases htaken : displayNameTaken s id (r.displayName.getD g.displayName) = true
    · refine Or.inl ⟨⟨hset, htaken⟩, ?_⟩
      simp only [execWrites, Write.exec, hg, if_pos htaken]
    · have hrun : execWrites t
          [.groupUpdate id r.displayName (GroupsService.patchColumn r.externalId) []] s =
          .ok { s with groups := modifyRow ScimGroup.id id (updateGroup t.now r.displayName
            (GroupsService.patchColumn r.externalId)) s.groups } := by
        simp only [execWrites, Write.exec, hg, if_neg htaken, insertMembers]
      refine Or.inr ⟨fun h => htaken h.2, _, hrun, rfl, rfl, ?_⟩
      rw [group_modifyRow s id id
        (updateGroup t.now r.displayName (GroupsService.patchColumn r.externalId))
        (fun _ => rfl), if_pos rfl, hg]
      rfl
  · rename_i hset
    have hws : ws = [] := (Option.some.inj hread).symm
    rw [hws]
    refine Or.inr ⟨fun h => hset h.1, s, rfl, rfl, rfl, ?_⟩
    rw [hg]
    rfl

/-- The outcome of the batch of a PATCH on a group that is there. -/
theorem transaction_patchOperations {s : Store} (hs : s.Valid) {g : ScimGroup}
    (hg : s.group id = some g) (r : GroupPatchResult) :
    (¬Legible E r ∧
        transaction E t (GroupsService.patchOperations id r) s = .error .validation) ∨
      (Legible E r ∧ NameTaken s id g r ∧
        transaction E t (GroupsService.patchOperations id r) s = .error .P2002) ∨
      (Legible E r ∧ ¬NameTaken s id g r ∧ (∃ u, .str u ∈ r.addMemberIds ∧ s.user u = none) ∧
        transaction E t (GroupsService.patchOperations id r) s = .error .P2003) ∨
      (Legible E r ∧ ¬NameTaken s id g r ∧
        (∀ u, .str u ∈ r.addMemberIds → (s.user u).isSome = true) ∧
        ∃ s', transaction E t (GroupsService.patchOperations id r) s = .ok ((), s')) := by
  by_cases hlegible : Legible E r
  · right
    cases hread : (GroupsService.patchOperations id r).mapM (BatchOp.read E) with
    | none => exact absurd hlegible (read_patchOperations_eq_none.mp hread)
    | some ws =>
      rw [transaction_of_read hread]
      obtain ⟨w₁₂, w₃, hread₁₂, hread₃, rfl⟩ := mapM_append_some hread
      obtain ⟨w₁, w₂, hread₁, hread₂, rfl⟩ := mapM_append_some hread₁₂
      rcases columns_run (t := t) hg hread₁ with
        ⟨htaken, herr⟩ | ⟨hfree, mid, hmid, husers, hmembers, hgroup'⟩
      · refine Or.inl ⟨hlegible, htaken, ?_⟩
        rw [List.append_assoc, execWrites_append, herr]
        rfl
      · right
        obtain ⟨mid', hmid'⟩ := removals_run (t := t) hread₂ mid
        obtain ⟨husers', hgroups', hmembers'⟩ := removals_ok hread₂ hmid'
        have hsame : ∀ u, mid'.user u = s.user u := by
          intro u
          unfold Store.user
          rw [husers', husers]
        have hgroup'' : (mid'.group id).isSome = true := by
          unfold Store.group at hgroup' ⊢
          rw [hgroups']
          exact hgroup'
        have hknown : MembersKnown mid' := by
          intro m hm
          rw [hsame]
          refine hs.memberUser m ?_
          rw [← hmembers]
          exact ((hmembers' m).mp hm).1
        have hrun : execWrites t (w₁ ++ w₂ ++ w₃) s = execWrites t w₃ mid' := by
          rw [execWrites_append, execWrites_append, hmid]
          simp only [Except.bind, hmid']
        rw [hrun]
        rcases additions_run (t := t) hread₃ hgroup'' hknown with
          ⟨s', hs', hall⟩ | ⟨herr, u, hu, hnone⟩
        · refine Or.inr ⟨hlegible, hfree, fun u hu => ?_, s', ?_⟩
          · rw [← hsame]
            exact hall u hu
          · rw [hs']
            rfl
        · refine Or.inl ⟨hlegible, hfree, ⟨u, hu, ?_⟩, ?_⟩
          · rw [← hsame]
            exact hnone
          · rw [herr]
            rfl
  · refine Or.inl ⟨hlegible, ?_⟩
    simp only [transaction, read_patchOperations_eq_none.mpr hlegible]

end Running

end OktaScim.BatchOutcomes
