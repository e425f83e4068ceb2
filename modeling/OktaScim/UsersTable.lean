import OktaScim.ChangeDetection
import OktaScim.JsonText
import OktaScim.PageMarkup
import Mathlib.Data.Nat.Digits.Lemmas

/-!
The table of the provisioned users on the dashboard, from the script in
`demo.page.ts`. The page renders it again only when the signature of the answer
has changed. The signature leaves out the name and the time of creation, and
puts the names of the groups together.
-/
namespace OktaScim.UsersTable

open JsValues JsonText Endpoints PageMarkup ChangeDetection

section Page

/-- The four counters. -/
structure Stats : Type where
  total : ℕ
  active : ℕ
  inactive : ℤ
  groups : ℕ

def stats (data : DemoUsers) : Stats :=
  ⟨data.totalUsers, data.activeUsers, (data.totalUsers : ℤ) - data.activeUsers, data.totalGroups⟩

/-- What `renderUsers` keeps and writes. The set `seen` is listed, `updated` is
the time that is shown and `body` the markup of the rows. -/
structure Table : Type where
  firstUsers : Bool
  seen : List String
  stats : Option Stats
  updated : Option String
  body : List Char

/-- The page with the signature of the answer that was rendered last. -/
abbrev Page := View String Table

def loading : List Char :=
  "<tr><td colspan=\"7\" class=\"empty\"><div class=\"big\">Loading&hellip;</div></td></tr>".toList

def loaded : Page := ⟨none, true, [], none, none, loading⟩

def isNew (table : Table) (u : DemoUser) : Bool := !table.firstUsers && !table.seen.contains u.id

def renderUsers (fmt : String → String) (data : DemoUsers) (table : Table) : Table :=
  let written := { table with stats := some (stats data), updated := some data.updatedAt }
  if data.users.isEmpty then { written with body := noUsers }
  else
    { written with
      body := rowsMarkup fmt (data.users.map fun u => (isNew table u, u))
      seen := table.seen ++ data.users.map DemoUser.id
      firstUsers := false }

def nullable (v : Option String) : Json := (v.map Json.str).getD .null

/-- A count; zeros at its end are not told apart from those that follow its digits. -/
def countNumber (n : ℕ) : JsNumber := .finite false n (Nat.digits 10 n).length

def userSig (u : DemoUser) : Json :=
  .arr [.str u.id, .bool u.active, .str u.updatedAt, nullable u.email, nullable u.givenName,
    nullable u.familyName, .str (",".intercalate u.groups), nullable u.externalId]

def usersSig (d : DemoUsers) : String :=
  stringify (.obj [("g", .num (countNumber d.totalGroups)), ("u", .arr (d.users.map userSig))])

/-- What `poll` does with an answer of the feed. -/
def poll (fmt : String → String) (u : DemoUsers) (page : Page) : Page :=
  page.receive usersSig (renderUsers fmt) u

/-- What the handler for clearing the database does when it is done. -/
def clearDb (page : Page) : Page := page.forget fun table => { table with seen := [] }

end Page

section Displays

def bodyOf (fmt : String → String) (marked : DemoUser → Bool) (users : List DemoUser) :
    List Char :=
  rowsMarkup fmt (users.map fun u => (marked u, u))

/-- The counters and the rows are those of the answer; any of the rows may be
marked as new. -/
def Displays (fmt : String → String) (table : Table) (data : DemoUsers) : Prop :=
  table.stats = some (stats data) ∧ ∃ marked, table.body = bodyOf fmt marked data.users

theorem render_stats (fmt : String → String) (data : DemoUsers) (table : Table) :
    (renderUsers fmt data table).stats = some (stats data) := by
  unfold renderUsers
  dsimp only
  split
  · rfl
  · rfl

theorem render_body (fmt : String → String) (data : DemoUsers) (table : Table) :
    (renderUsers fmt data table).body = bodyOf fmt (isNew table) data.users := by
  unfold renderUsers bodyOf
  by_cases hempty : data.users.isEmpty = true
  · rw [List.isEmpty_iff.mp hempty]
    rfl
  · simp only [hempty]
    rfl

theorem render_seen (fmt : String → String) (data : DemoUsers) (table : Table) :
    (renderUsers fmt data table).seen = table.seen ++ data.users.map DemoUser.id := by
  unfold renderUsers
  by_cases hempty : data.users.isEmpty = true
  · have hids : data.users.map DemoUser.id = [] := by rw [List.isEmpty_iff.mp hempty, List.map_nil]
    simp only [hempty, if_true, hids, List.append_nil]
  · simp only [hempty]
    rfl

theorem render_firstUsers (fmt : String → String) (data : DemoUsers) (table : Table) :
    (renderUsers fmt data table).firstUsers = (table.firstUsers && data.users.isEmpty) := by
  unfold renderUsers
  by_cases hempty : data.users.isEmpty = true
  · simp only [hempty, if_true, Bool.and_true]
  · simp only [hempty, Bool.and_false]
    rfl

theorem displays_render (fmt : String → String) (data : DemoUsers) (table : Table) :
    Displays fmt (renderUsers fmt data table) data :=
  ⟨render_stats fmt data table, isNew table, render_body fmt data table⟩

/-- A user without what puts the groups apart. -/
def visibleUser (u : DemoUser) : DemoUser × String :=
  ({ u with groups := [] }, ",".intercalate u.groups)

/-- An answer without its own time, and without what puts the groups apart. -/
def visible (data : DemoUsers) : (ℕ × ℕ × ℕ) × List (DemoUser × String) :=
  ((data.totalUsers, data.activeUsers, data.totalGroups), data.users.map visibleUser)

/-- Every group has a name, and none has a comma in it. -/
def Separable (data : DemoUsers) : Prop :=
  ∀ u ∈ data.users, ∀ g ∈ u.groups, g ≠ "" ∧ ',' ∉ g.toList

theorem intercalate_injective {xs ys : List String} (hxs : ∀ g ∈ xs, g ≠ "" ∧ ',' ∉ g.toList)
    (hys : ∀ g ∈ ys, g ≠ "" ∧ ',' ∉ g.toList)
    (h : ",".intercalate xs = ",".intercalate ys) : xs = ys := by
  have hchars : ∀ {gs : List String}, (∀ g ∈ gs, g ≠ "" ∧ ',' ∉ g.toList) →
      ∀ cs ∈ gs.map String.toList, ',' ∉ cs := by
    intro gs hgs cs hcs
    obtain ⟨g, hg, rfl⟩ := List.mem_map.mp hcs
    exact (hgs g hg).2
  have hjoined : [','].intercalate (xs.map String.toList) =
      [','].intercalate (ys.map String.toList) := by
    have htext := congrArg String.toList h
    rwa [String.toList_intercalate, String.toList_intercalate] at htext
  -- no names together give the empty text, which one name alone does not
  have hempty : ∀ {gs : List String}, (∀ g ∈ gs, g ≠ "" ∧ ',' ∉ g.toList) →
      [','].intercalate (gs.map String.toList) = [] → gs = [] := by
    intro gs hgs hnil
    cases gs with
    | nil => rfl
    | cons g gs =>
      have hne : g.toList ≠ [] := mt String.toList_eq_nil_iff.mp (hgs g (List.mem_cons_self ..)).1
      cases gs with
      | nil => exact absurd (by simpa using hnil) (hgs g (List.mem_cons_self ..)).1
      | cons g' gs => simp at hnil
  by_cases hx : xs = []
  · subst hx
    exact (hempty hys hjoined.symm).symm
  · have hy : ys ≠ [] := by
      rintro rfl
      exact hx (hempty hxs hjoined)
    have hsplit := congrArg (List.splitOn ',') hjoined
    rw [List.splitOn_intercalate _ (hchars hxs) (by simpa using hx),
      List.splitOn_intercalate _ (hchars hys) (by simpa using hy)] at hsplit
    have htoList : Function.Injective String.toList := fun _ _ => String.toList_inj.mp
    exact List.map_injective_iff.mpr htoList hsplit

/-- Where the names of the groups can be told apart, what is visible of an
answer is all that the page shows of it. -/
theorem displays_of_visible {fmt : String → String} {table : Table} {a b : DemoUsers}
    (h : Displays fmt table a) (hvisible : visible a = visible b) (ha : Separable a)
    (hb : Separable b) : Displays fmt table b := by
  obtain ⟨hcounts, hshown⟩ := Prod.mk.inj hvisible
  obtain ⟨htotal, hrest⟩ := Prod.mk.inj hcounts
  obtain ⟨hactive, hgroups⟩ := Prod.mk.inj hrest
  have husers : a.users.map id = b.users.map id := by
    refine map_eq_of_map_eq hshown fun u hu v hv huv => ?_
    obtain ⟨hsame, hnames⟩ := Prod.mk.inj huv
    have hgroups := intercalate_injective (ha u hu) (hb v hv) hnames
    cases u
    cases v
    simp_all
  rw [List.map_id, List.map_id] at husers
  obtain ⟨hstats, marked, hbody⟩ := h
  refine ⟨?_, marked, ?_⟩
  · rw [hstats, stats, stats, htotal, hactive, hgroups]
  · rw [hbody, husers]

end Displays

section Signatures

/-- A count is read back from its text. -/
theorem readCount {n : ℕ} (h : n < 2 ^ 53) :
    Nat.ofDigits 10 ((numberText (countNumber n)).toList.map fun c => c.toNat - 48).reverse =
      n := by
  have hdigit : ∀ d < 10, (Nat.digitChar d).toNat - 48 = d := by decide
  have hlength : (Nat.digits 10 n).length ≤ 21 := by
    apply (Nat.digits_length_le_iff (by decide) n).mpr
    exact h.trans (by decide)
  by_cases hzero : n = 0
  · subst hzero
    rfl
  · have htext : (numberText (countNumber n)).toList =
        (Nat.digits 10 n).reverse.map Nat.digitChar := by
      simp [numberText, countNumber, JsNumber.toStr, hzero, hlength, JsNumber.zeros]
    have hback : (Nat.digits 10 n).map ((fun c => c.toNat - 48) ∘ Nat.digitChar) =
        Nat.digits 10 n := by
      have hid : ∀ d ∈ Nat.digits 10 n, ((fun c => c.toNat - 48) ∘ Nat.digitChar) d = id d :=
        fun d hd => hdigit d (Nat.digits_lt_base (by decide) hd)
      rw [List.map_congr_left hid, List.map_id]
    rw [htext, List.map_map, ← List.map_reverse, List.reverse_reverse, hback, Nat.ofDigits_digits]

theorem countNumber_inj {m n : ℕ} (hm : m < 2 ^ 53) (hn : n < 2 ^ 53)
    (h : numberText (countNumber m) = numberText (countNumber n)) : m = n := by
  rw [← readCount hm, ← readCount hn, h]

/-- What the signature tells of a user. -/
def signed (u : DemoUser) :
    (String × Bool × String) × (Option String × Option String × Option String) ×
      String × Option String :=
  ((u.id, u.active, u.updatedAt), (u.email, u.givenName, u.familyName), ",".intercalate u.groups,
    u.externalId)

theorem sameText_nullable {v w : Option String} (h : SameText (nullable v) (nullable w)) :
    v = w := by
  cases v with
  | none =>
    cases w with
    | none => rfl
    | some w => cases h
  | some v =>
    cases w with
    | none => cases h
    | some w =>
      cases h
      rfl

theorem sameText_bool {b c : Bool} (h : SameText (.bool b) (.bool c)) : b = c := by
  have htext : boolText c = boolText b := Option.some.inj h
  revert htext
  cases b <;> cases c <;> decide

theorem sameText_arr {vs ws : List Json} : SameText (.arr vs) (.arr ws) ↔ SameItems vs ws := by
  simp [SameText]

theorem sameItems_cons {v w : Json} {vs ws : List Json} :
    SameItems (v :: vs) (w :: ws) ↔ SameText v w ∧ SameItems vs ws := by
  simp [SameItems]

theorem sameText_str {s t : String} : SameText (.str s) (.str t) ↔ t = s := by
  simp [SameText]

theorem sameText_userSig {a b : DemoUser} (h : SameText (userSig a) (userSig b)) :
    signed a = signed b := by
  simp only [userSig, sameText_arr, sameItems_cons, sameText_str] at h
  obtain ⟨hid, hactive, hupdated, hemail, hgiven, hfamily, hgroups, hexternal, -⟩ := h
  rw [signed, signed, hid, sameText_bool hactive, hupdated, sameText_nullable hemail,
    sameText_nullable hgiven, sameText_nullable hfamily, hgroups, sameText_nullable hexternal]

theorem sameItems_users {as bs : List DemoUser}
    (h : SameItems (as.map userSig) (bs.map userSig)) : as.map signed = bs.map signed := by
  induction as generalizing bs with
  | nil => rw [List.map_eq_nil_iff.mp h]
  | cons a as ih =>
    obtain ⟨w, rest, hitems, hfirst, hrest⟩ := h
    cases bs with
    | nil => cases hitems
    | cons b bs =>
      obtain ⟨rfl, rfl⟩ := List.cons.inj hitems
      rw [List.map_cons, List.map_cons, sameText_userSig hfirst, ih hrest]

/-- What the signature tells of an answer. -/
theorem usersSig_eq {a b : DemoUsers} (ha : a.totalGroups < 2 ^ 53) (hb : b.totalGroups < 2 ^ 53)
    (h : usersSig a = usersSig b) :
    a.totalGroups = b.totalGroups ∧ a.users.map signed = b.users.map signed := by
  obtain ⟨fields, hfields, w, rest, rfl, hcount, w', rest', rfl, husers, -⟩ :=
    (stringify_eq_iff _ _).mp h
  obtain ⟨hw, hrest⟩ := List.cons.inj (Json.obj.inj hfields)
  obtain ⟨hw', -⟩ := List.cons.inj hrest
  rw [← (Prod.mk.inj hw).2] at hcount
  rw [← (Prod.mk.inj hw').2] at husers
  exact ⟨countNumber_inj ha hb (Option.some.inj hcount).symm,
    sameItems_users (sameText_arr.mp husers)⟩

end Signatures

end OktaScim.UsersTable
