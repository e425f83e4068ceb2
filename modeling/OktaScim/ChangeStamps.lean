import OktaScim.Isolation
import OktaScim.IsoDates

/-!
The times of creation and of the last update as stamps. A client that has seen
the rows at a time `T` need only fetch those that were updated later: whatever
carries an older stamp is the row that it has seen, even if others were deleted
and created again meanwhile. Memberships carry no stamp.
-/
namespace OktaScim.ChangeStamps

open Programs Interleavings Schema PrismaClient Requests RequestPrograms ConcurrentStore
open Representations RelyGuarantee RowChanges IsoDates

section Rows

variable {α : Type} (createdAt updatedAt : α → ℕ) (T E : ℕ)

/-- What a row that is found tells of the row that was known at the time `T`: it
is that row, or it was updated since, before `E`; and one that was created
earlier was known under the same time of creation. -/
structure Stamped (known found : Option α) : Prop where
  updated : ∀ row, found = some row → known = some row ∨ (T < updatedAt row ∧ updatedAt row < E)
  created : ∀ row, found = some row → createdAt row ≤ T →
    ∃ old, known = some old ∧ createdAt old = createdAt row

variable {createdAt updatedAt T E}

theorem Stamped.refl (known : Option α) : Stamped createdAt updatedAt T E known known :=
  ⟨fun _ h => Or.inl h, fun row h _ => ⟨row, h, rfl⟩⟩

/-- A call that is made later keeps what the stamps say. -/
theorem Stamped.step {known found found' : Option α} {now : ℕ} {drawn writes : Prop}
    (h : Stamped createdAt updatedAt T E known found)
    (hstep : RowChange createdAt updatedAt now drawn writes found found') (hlater : T < now)
    (hend : now < E) : Stamped createdAt updatedAt T E known found' := by
  refine ⟨fun row hrow => ?_, fun row hrow hle => ?_⟩
  · rcases hstep.stamped hrow with hsame | ⟨hupdated, _⟩
    · exact h.updated row hsame
    · right
      omega
  · rcases hstep.stamped hrow with hsame | ⟨_, hcreated | ⟨old, hold, hcreated⟩⟩
    · exact h.created row hsame hle
    · omega
    · obtain ⟨first, hfirst, hsame⟩ := h.created old hold (by omega)
      exact ⟨first, hfirst, hsame.trans hcreated⟩

end Rows

/-- What the stamps of a store tell about an earlier store at the time `T`. -/
structure StampedSince (T E : ℕ) (s s' : Store) : Prop where
  users : ∀ u, Stamped ScimUser.createdAt ScimUser.updatedAt T E (s.user u) (s'.user u)
  groups : ∀ g, Stamped ScimGroup.createdAt ScimGroup.updatedAt T E (s.group g) (s'.group g)

theorem StampedSince.refl (T E : ℕ) (s : Store) : StampedSince T E s s :=
  ⟨fun _ => .refl _, fun _ => .refl _⟩

/-- The clock of a call is after `T` and before `E`. -/
def Between (T E : ℕ) (t : Tick) (_ : Store) : Prop := T < t.now ∧ t.now < E

theorem stampedSince_guaranteed (engine : Engine) (T E : ℕ) (s : Store) :
    Guarantees (exec engine) (Between T E) (fun _ => True) (StampedSince T E s) := by
  rintro t c mid r s' ⟨hlater, hend⟩ _ hmid h
  exact ⟨fun u => (hmid.users u).step (exec_userChange h u) hlater hend,
    fun g => (hmid.groups g).step (exec_groupChange h g) hlater hend⟩

variable {ι : Type} [DecidableEq ι] {env : Env} {request : ι → Request}

/-- Configurations reached in any interleaving of any requests whose calls are
made between the two times. -/
abbrev Later (env : Env) (request : ι → Request) (T E : ℕ) (cfg cfg' : Clients ι) : Prop :=
  Reaches (exec env.engine) (fun i => (request i).handle env)
    (StepsOf (fun _ => True) (Between T E)) cfg cfg'

theorem later_stamped {T E : ℕ} {cfg cfg' : Clients ι} (h : Later env request T E cfg cfg') :
    StampedSince T E cfg.store cfg'.store :=
  reaches_guarantees (fun _ _ => makes_any _) (fun _ p _ _ => makes_any p)
    (stampedSince_guaranteed env.engine T E cfg.store) (.refl T E cfg.store) h

/-- A client that has seen the users and groups at `T` has not missed anything
of those whose `lastModified` text is not after that of `T`: the user, and all
but the members of the group, are as it has seen them. -/
theorem sync_by_lastModified {T : ℕ} {cfg cfg' : Clients ι}
    (h : Later env request T year10000 cfg cfg') :
    (∀ u, cfg'.store.user u.id = some u →
      ¬toISOString T < (toScimUser u env.baseUrl).info.lastModified →
      cfg.store.user u.id = some u) ∧
      ∀ g, cfg'.store.group g.id = some g →
        ¬toISOString T < (toScimGroup (withMembers cfg'.store g) env.baseUrl).info.lastModified →
        cfg.store.group g.id = some g := by
  have hstamped := later_stamped h
  refine ⟨fun u hu hseen => ?_, fun g hg hseen => ?_⟩
  · rcases (hstamped.users u.id).updated u hu with hknown | ⟨hlater, hend⟩
    · exact hknown
    · exact absurd (toISOString_lt hlater hend) hseen
  · rcases (hstamped.groups g.id).updated g hg with hknown | ⟨hlater, hend⟩
    · exact hknown
    · exact absurd (toISOString_lt hlater hend) hseen

/-- After the time 4 one of three users is deleted, and the group is renamed. -/
def deleteAndRename : Bool → Request
  | true => .deleteUser "w"
  | false => .replaceGroup "g" ⟨"night", .undefined, .undefined⟩

theorem sync_by_lastModified_sample : ∃ cfg' : Clients Bool,
    cfg'.store = ⟨staffedStore.users.take 2, [⟨"g", some "e2", "night", 0, 7⟩], []⟩ ∧
    (∀ u, cfg'.store.user u.id = some u →
      ¬toISOString 4 < (toScimUser u sampleEnv.baseUrl).info.lastModified →
      staffedStore.user u.id = some u) ∧
      ∀ g, cfg'.store.group g.id = some g →
        ¬toISOString 4 <
          (toScimGroup (withMembers cfg'.store g) sampleEnv.baseUrl).info.lastModified →
        staffedStore.group g.id = some g := by
  have hclock : ∀ n : ℕ, 4 < n → n < 10 → 4 < n ∧ n < year10000 := by
    intro n hlater hsmall
    unfold year10000
    omega
  have h₀ : Later sampleEnv deleteAndRename 4 year10000 (Config.initial staffedStore)
      (Config.initial staffedStore) := .refl
  have h₁ := h₀.tail (e := .start true) trivial rfl
  have h₂ := h₁.tail (e := .start false) trivial rfl
  have h₃ := h₂.tail (e := .call true (sampleTick "x" 5))
    ⟨trivial, hclock 5 (by decide) (by decide)⟩ rfl
  have h₄ := h₃.tail (e := .call false (sampleTick "x" 6))
    ⟨trivial, hclock 6 (by decide) (by decide)⟩ rfl
  have h₅ := h₄.tail (e := .call false (sampleTick "x" 7))
    ⟨trivial, hclock 7 (by decide) (by decide)⟩ rfl
  have h₆ := h₅.tail (e := .call true (sampleTick "x" 8))
    ⟨trivial, hclock 8 (by decide) (by decide)⟩ rfl
  exact ⟨_, rfl, sync_by_lastModified h₆⟩

end OktaScim.ChangeStamps
