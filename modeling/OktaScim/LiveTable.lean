import OktaScim.ConcurrentStore
import OktaScim.IsoDates
import OktaScim.RowChanges
import OktaScim.UsersTable
import Mathlib.Logic.Relation

/-!
The table of the dashboard while requests are served. The page asks for the
users again and again. For each answer the users are read and the groups are
counted between the calls of the requests, at different times. Answers come in
any order, late or not at all. The table then shows the answer that came last,
although the page leaves it as it is when the signature has not changed. Where
users were read, the later calls have to carry a later time.
-/
namespace OktaScim.LiveTable

open Programs Interleavings Schema PrismaClient PrismaConstraints Requests ConcurrentStore
open Representations Endpoints RelyGuarantee RowChanges IsoDates ChangeDetection UsersTable

section Reads

/-- What is known about the users that were read. None of them was updated after
`asked`, and in the store there is none of the same id but itself or a later one. -/
structure Dated (known : List ScimUser) (latest asked : ℕ) (s : Store) : Prop where
  valid : s.Valid
  stored : ∀ id u, s.user id = some u → u.updatedAt ≤ latest
  read : ∀ u ∈ known, u.updatedAt ≤ asked
  current : ∀ u ∈ known, ∀ v, s.user u.id = some v → v = u ∨ u.updatedAt < v.updatedAt

variable {known : List ScimUser} {latest asked : ℕ} {s : Store}

theorem Dated.mono (h : Dated known latest asked s) {later : ℕ} (hle : latest ≤ later) :
    Dated known later asked s :=
  ⟨h.valid, fun id u hu => (h.stored id u hu).trans hle, h.read, h.current⟩

theorem dated_guaranteed (E : Engine) : Guarantees (exec E)
    (fun t _ => asked < t.now ∧ t.now ≤ latest) (fun _ => True) (Dated known latest asked) := by
  rintro t c mid r s' ⟨hasked, hlatest⟩ _ h hexec
  refine ⟨exec_keeps_valid E t c mid r s' h.valid hexec, fun id u hu => ?_, h.read,
    fun u hu v hv => ?_⟩
  · rcases (exec_userChange hexec id).stamped hu with hsame | ⟨hupdated, _⟩
    · exact h.stored id u hsame
    · omega
  · rcases (exec_userChange hexec u.id).stamped hv with hsame | ⟨hupdated, _⟩
    · exact h.current u hu v hsame
    · have hread := h.read u hu
      right
      omega

/-- The users in the store are read. -/
theorem Dated.asking (h : Dated known latest asked s) (hle : asked ≤ latest) :
    Dated (known ++ s.users) latest latest s := by
  refine ⟨h.valid, h.stored, fun u hu => ?_, fun u hu v hv => ?_⟩
  · rcases List.mem_append.mp hu with hold | hnew
    · exact (h.read u hold).trans hle
    · exact h.stored u.id u (h.valid.user_eq_some_iff.mpr ⟨hnew, rfl⟩)
  · rcases List.mem_append.mp hu with hold | hnew
    · exact h.current u hold v hv
    · have huser : s.user u.id = some u := h.valid.user_eq_some_iff.mpr ⟨hnew, rfl⟩
      exact Or.inl (Option.some.inj (hv.symm.trans huser))

/-- The id and the time of the last update tell the row. -/
def Consistent (known : List ScimUser) : Prop :=
  ∀ u ∈ known, ∀ v ∈ known, u.id = v.id → u.updatedAt = v.updatedAt → u = v

theorem Consistent.asking (h : Dated known latest asked s) (hknown : Consistent known) :
    Consistent (known ++ s.users) := by
  have hstored : ∀ u ∈ s.users, s.user u.id = some u :=
    fun u hu => h.valid.user_eq_some_iff.mpr ⟨hu, rfl⟩
  have hbetween : ∀ u ∈ known, ∀ v ∈ s.users, u.id = v.id → u.updatedAt = v.updatedAt → v = u := by
    intro u hu v hv hid hupdated
    have hv' : s.user u.id = some v := by rw [hid, hstored v hv]
    rcases h.current u hu v hv' with hsame | hlater
    · exact hsame
    · omega
  intro u hu v hv hid hupdated
  rcases List.mem_append.mp hu with hu | hu
  · rcases List.mem_append.mp hv with hv | hv
    · exact hknown u hu v hv hid hupdated
    · exact (hbetween u hu v hv hid hupdated).symm
  · rcases List.mem_append.mp hv with hv | hv
    · exact hbetween v hv u hu hid.symm hupdated.symm
    · have hsame := hstored u hu
      rw [hid, hstored v hv] at hsame
      exact (Option.some.inj hsame).symm

end Reads

section Systems

variable {ι : Type}

/-- The requests, the answers to the page and the page. `latest` is the latest
time of a call and `asked` what it was when the users were read last. `received`
lists the answers that have come, the last one first, and `since` those that
have come since the database was last cleared from the page. -/
structure System (ι : Type) : Type where
  clients : Clients ι
  latest : ℕ
  asked : ℕ
  readings : List (List (ScimUser × List ScimGroup))
  counts : List ℕ
  answers : List DemoUsers
  page : Page
  received : List DemoUsers
  since : List DemoUsers

/-- The answer with the users that were read and the groups that were counted. -/
def answer (rows : List (ScimUser × List ScimGroup)) (totalGroups now : ℕ) : DemoUsers where
  updatedAt := toISOString now
  totalUsers := rows.length
  activeUsers := (rows.filter fun row => row.1.active).length
  totalGroups := totalGroups
  users := rows.map demoUser

/-- At once, these are the answers of the endpoint. -/
theorem answer_demoUsers (ticks : ℕ → Tick) (s : Store) :
    answer (usersWithGroups (ticks 0) s) s.groups.length (ticks 1).now = demoUsers ticks s := rfl

/-- The system over the store `s`, before anything is asked. -/
def initial (s : Store) (latest : ℕ) : System ι :=
  ⟨Config.initial s, latest, 0, [], [], [], loaded, [], []⟩

variable [DecidableEq ι]

inductive Step (env : Env) (request : ι → Request) (fmt : String → String) :
    System ι → System ι → Prop
  | start {σ : System ι} {clients : Clients ι} (i : ι) :
    step (exec env.engine) (fun i => (request i).handle env) σ.clients (.start i) = some clients →
    Step env request fmt σ { σ with clients := clients }
  | call {σ : System ι} {clients : Clients ι} (i : ι) (t : Tick) :
    step (exec env.engine) (fun i => (request i).handle env) σ.clients (.call i t) = some clients →
    σ.asked < t.now → t.now < year10000 →
    Step env request fmt σ { σ with clients := clients, latest := max σ.latest t.now }
  | readUsers {σ : System ι} (t : Tick) :
    Step env request fmt σ
      { σ with asked := σ.latest, readings := usersWithGroups t σ.clients.store :: σ.readings }
  | countGroups {σ : System ι} : σ.clients.store.groups.length < 2 ^ 53 →
    Step env request fmt σ { σ with counts := σ.clients.store.groups.length :: σ.counts }
  | answer {σ : System ι} {rows : List (ScimUser × List ScimGroup)} {n : ℕ} (now : ℕ) :
    rows ∈ σ.readings → n ∈ σ.counts →
    Step env request fmt σ { σ with answers := answer rows n now :: σ.answers }
  | arrive {σ : System ι} {data : DemoUsers} : data ∈ σ.answers →
    Step env request fmt σ
      { σ with
        page := poll fmt data σ.page, received := data :: σ.received, since := data :: σ.since }
  | cleared {σ : System ι} :
    Step env request fmt σ { σ with page := clearDb σ.page, since := [] }

variable {env : Env} {request : ι → Request} {fmt : String → String} {σ σ' : System ι}

/-- What holds of the requests and the answers, where all users that were read
are `known`. -/
structure Answering (known : List ScimUser) (σ : System ι) : Prop where
  dated : Dated known σ.latest σ.asked σ.clients.store
  order : σ.asked ≤ σ.latest
  range : σ.latest < year10000
  consistent : Consistent known
  readings : ∀ rows ∈ σ.readings, ∀ row ∈ rows, row.1 ∈ known
  counts : ∀ n ∈ σ.counts, n < 2 ^ 53
  answers : ∀ data ∈ σ.answers, ∃ rows ∈ σ.readings, ∃ n ∈ σ.counts, ∃ now,
    data = answer rows n now

theorem answering_step {known : List ScimUser} (h : Answering known σ)
    (hstep : Step env request fmt σ σ') : ∃ known', Answering known' σ' := by
  cases hstep with
  | start i hclients =>
    obtain ⟨_, rfl⟩ := step_start_cases _ _ hclients
    exact ⟨known, { h with }⟩
  | call i t hclients hasked hrange =>
    obtain ⟨c, k, _, rfl⟩ := step_call_cases _ _ hclients
    have hdated := h.dated.mono (Nat.le_max_left σ.latest t.now)
    have hnext := next_guarantees (dated_guaranteed env.engine) k
      ⟨hasked, Nat.le_max_right σ.latest t.now⟩ trivial hdated
    have hrange' := h.range
    have horder := h.order
    exact ⟨known, { h with
      dated := hnext
      order := by simp only; omega
      range := by simp only; omega }⟩
  | readUsers t =>
    refine ⟨known ++ σ.clients.store.users, { h with
      dated := h.dated.asking h.order, order := le_refl _
      consistent := h.consistent.asking h.dated
      readings := fun rows hrows row hrow => ?_, answers := fun data hdata => ?_ }⟩
    · rcases List.mem_cons.mp hrows with rfl | hold
      · obtain ⟨u, hu, rfl⟩ := List.mem_map.mp hrow
        rw [List.mem_insertionSort] at hu
        exact List.mem_append_right _ hu
      · exact List.mem_append_left _ (h.readings rows hold row hrow)
    · obtain ⟨rows, hrows, hdata⟩ := h.answers data hdata
      exact ⟨rows, List.mem_cons_of_mem _ hrows, hdata⟩
  | countGroups hcount =>
    refine ⟨known, { h with counts := fun n hn => ?_, answers := fun data hdata => ?_ }⟩
    · rcases List.mem_cons.mp hn with rfl | hold
      · exact hcount
      · exact h.counts n hold
    · obtain ⟨rows, hrows, n, hn, hdata⟩ := h.answers data hdata
      exact ⟨rows, hrows, n, List.mem_cons_of_mem _ hn, hdata⟩
  | answer now hrows hn =>
    refine ⟨known, { h with answers := fun data hdata => ?_ }⟩
    rcases List.mem_cons.mp hdata with rfl | hold
    · exact ⟨_, hrows, _, hn, now, rfl⟩
    · exact h.answers data hold
  | arrive hdata => exact ⟨known, { h with }⟩
  | cleared => exact ⟨known, { h with }⟩

end Systems

section Answers

variable {known : List ScimUser} {σ : System ι}

/-- Users that have one signature are the same but for what puts the groups apart. -/
theorem visibleUser_of_signed (hknown : Consistent known)
    (hdates : ∀ u ∈ known, u.updatedAt < year10000) {row row' : ScimUser × List ScimGroup}
    (hrow : row.1 ∈ known) (hrow' : row'.1 ∈ known)
    (h : signed (demoUser row) = signed (demoUser row')) :
    visibleUser (demoUser row) = visibleUser (demoUser row') := by
  obtain ⟨hfirst, hrest⟩ := Prod.mk.inj h
  obtain ⟨hid, hstamp⟩ := Prod.mk.inj hfirst
  have hupdated : row.1.updatedAt = row'.1.updatedAt :=
    toISOString_injective (hdates _ hrow) (hdates _ hrow') (Prod.mk.inj hstamp).2
  have huser : row.1 = row'.1 := hknown _ hrow _ hrow' hid hupdated
  have hgroups : ",".intercalate (demoUser row).groups = ",".intercalate (demoUser row').groups :=
    (Prod.mk.inj (Prod.mk.inj hrest).2).1
  rw [visibleUser, visibleUser, hgroups]
  simp only [demoUser, huser]

theorem active_of_signed {rows rows' : List (ScimUser × List ScimGroup)}
    (h : rows.map (signed ∘ demoUser) = rows'.map (signed ∘ demoUser)) :
    (rows.filter fun row => row.1.active).length =
      (rows'.filter fun row => row.1.active).length := by
  have hfilter := congrArg (fun users => (users.filter fun u => u.1.2.1).length) h
  simp only [List.filter_map, List.length_map] at hfilter
  exact hfilter

/-- Answers of one signature are, as far as can be seen, the same. -/
theorem visible_of_usersSig (h : Answering known σ) {a b : DemoUsers} (ha : a ∈ σ.answers)
    (hb : b ∈ σ.answers) (hsig : usersSig a = usersSig b) : visible a = visible b := by
  obtain ⟨rows, hrows, m, hm, now, rfl⟩ := h.answers a ha
  obtain ⟨rows', hrows', n, hn, now', rfl⟩ := h.answers b hb
  obtain ⟨hgroups, husers⟩ := usersSig_eq (h.counts m hm) (h.counts n hn) hsig
  simp only [answer, List.map_map] at hgroups husers
  have hdates : ∀ u ∈ known, u.updatedAt < year10000 := fun u hu =>
    lt_of_le_of_lt ((h.dated.read u hu).trans h.order) h.range
  have hlength : rows.length = rows'.length := by
    have hmaps := congrArg List.length husers
    rwa [List.length_map, List.length_map] at hmaps
  have hvisible : rows.map (visibleUser ∘ demoUser) = rows'.map (visibleUser ∘ demoUser) :=
    map_eq_of_map_eq husers fun row hrow row' hrow' => visibleUser_of_signed h.consistent hdates
      (h.readings rows hrows row hrow) (h.readings rows' hrows' row' hrow')
  simp only [visible, answer, List.map_map, hlength, active_of_signed husers, hgroups, hvisible]

end Answers

section Tables

variable {ι : Type} [DecidableEq ι] {env : Env} {request : ι → Request} {fmt : String → String}

/-- What holds of the page: it shows what it received last. -/
structure Live (fmt : String → String) (σ : System ι) : Prop where
  answering : ∃ known, Answering known σ
  shows : σ.page.Shows usersSig (Displays fmt) visible (· ∈ σ.answers) σ.received.head?

theorem live_step {σ σ' : System ι} (h : Live fmt σ) (hstep : Step env request fmt σ σ') :
    Live fmt σ' := by
  obtain ⟨known, hknown⟩ := h.answering
  refine ⟨answering_step hknown hstep, ?_⟩
  cases hstep with
  | start i hclients => exact h.shows
  | call i t hclients hasked hrange => exact h.shows
  | readUsers t => exact h.shows
  | countGroups hcount => exact h.shows
  | answer now hrows hn => exact h.shows.mono fun data hdata => List.mem_cons_of_mem _ hdata
  | arrive hdata =>
    exact h.shows.receive (displays_render fmt)
      (fun _ _ ha hb hsig => visible_of_usersSig hknown ha hb hsig) hdata
  | cleared =>
    have hkeeps : ∀ table data, Displays fmt table data →
        Displays fmt { table with seen := [] } data := fun _ _ hdisplays => hdisplays
    exact h.shows.forget hkeeps

omit [DecidableEq ι] in
theorem live_initial {s : Store} (hs : s.Valid) {latest : ℕ} (hlatest : latest < year10000)
    (hstored : ∀ u ∈ s.users, u.updatedAt ≤ latest) : Live fmt (initial s latest : System ι) := by
  refine ⟨⟨[], ?_⟩, ⟨fun _ h => by contradiction, fun _ h => by contradiction⟩⟩
  have hnone : ∀ {P : ScimUser → Prop}, ∀ u ∈ ([] : List ScimUser), P u := by simp
  exact {
    dated := ⟨hs, fun id u hu => hstored u (hs.user_eq_some_iff.mp hu).1, hnone, hnone⟩
    order := Nat.zero_le latest
    range := hlatest
    consistent := hnone
    readings := fun _ h => absurd h List.not_mem_nil
    counts := fun _ h => absurd h List.not_mem_nil
    answers := fun _ h => absurd h List.not_mem_nil }

/-- The systems that are reached from the store `s`. -/
abbrev Run (env : Env) (request : ι → Request) (fmt : String → String) (s : Store) (latest : ℕ) :
    System ι → Prop :=
  Relation.ReflTransGen (Step env request fmt) (initial s latest)

theorem run_live {s : Store} (hs : s.Valid) {latest : ℕ} (hlatest : latest < year10000)
    (hstored : ∀ u ∈ s.users, u.updatedAt ≤ latest) {σ : System ι}
    (h : Run env request fmt s latest σ) : Live fmt σ := by
  induction h with
  | refl => exact live_initial hs hlatest hstored
  | tail _ hstep ih => exact live_step ih hstep

/-- The table is never out of date: it shows the answer that came last, but for
names of groups that their commas do not tell apart. -/
theorem table_shows_answer {s : Store} (hs : s.Valid) {latest : ℕ} (hlatest : latest < year10000)
    (hstored : ∀ u ∈ s.users, u.updatedAt ≤ latest) {σ : System ι}
    (h : Run env request fmt s latest σ) {data : DemoUsers} (hlast : σ.received.head? = some data) :
    ∃ shown ∈ σ.answers, Displays fmt σ.page.content shown ∧ visible shown = visible data ∧
      (Separable shown → Separable data → Displays fmt σ.page.content data) := by
  obtain ⟨shown, hanswer, hdisplays, hvisible⟩ :=
    (run_live hs hlatest hstored h).shows.shown data hlast
  exact ⟨shown, hanswer, hdisplays, hvisible, displays_of_visible hdisplays hvisible⟩

/-- The user is deleted, and the answer from before comes last. -/
def deleteUser : Unit → Request := fun _ => .deleteUser "u"

/-- The answer from before the deletion. -/
def oldAnswer : DemoUsers := answer (usersWithGroups (sampleTick "x" 0) sampleStore) 1 1

theorem table_shows_answer_sample : ∃ σ : System Unit, σ.clients.store.users = [] ∧
    σ.received = [oldAnswer, answer [] 1 7] ∧
    ∃ shown ∈ σ.answers, Displays id σ.page.content shown ∧ visible shown = visible oldAnswer ∧
      (Separable shown → Separable oldAnswer → Displays id σ.page.content oldAnswer) := by
  have hold : ∀ u ∈ sampleStore.users, u.updatedAt ≤ 0 := by decide
  have hrange : ∀ n : ℕ, n < 10 → n < year10000 := by
    intro n hsmall
    unfold year10000
    omega
  have h₀ : Run sampleEnv deleteUser id sampleStore 0 (initial sampleStore 0) := .refl
  have h₁ := (h₀.tail (.readUsers (sampleTick "x" 0))).tail (.countGroups (by decide))
  have h₂ := h₁.tail (.answer 1 (List.mem_cons_self ..) (List.mem_cons_self ..))
  have h₃ := (h₂.tail (.start () rfl)).tail
    (.call () (sampleTick "x" 5) rfl (by decide) (hrange 5 (by decide)))
  have h₄ := h₃.tail (.call () (sampleTick "x" 6) rfl (by decide) (hrange 6 (by decide)))
  have h₅ := h₄.tail (.readUsers (sampleTick "x" 0))
  have h₆ := h₅.tail (.answer 7 (List.mem_cons_self ..) (List.mem_cons_self ..))
  have h₇ := h₆.tail (.arrive (List.mem_cons_self ..))
  have h₈ := h₇.tail (.arrive (List.mem_cons_of_mem _ (List.mem_cons_self ..)))
  exact ⟨_, rfl, rfl, table_shows_answer sampleStore_valid (hrange 0 (by decide)) hold h₈ rfl⟩

end Tables

section Marks

variable {ι : Type} {σ σ' : System ι}

/-- The user was in an answer that came since the database was cleared. -/
def Known (σ : System ι) (id : String) : Prop := ∃ d ∈ σ.since, ∃ u ∈ d.users, u.id = id

/-- What the page remembers of the answers, for the marks of the rows. -/
structure Remembers (σ : System ι) : Prop where
  seen : ∀ id, id ∈ σ.page.content.seen ↔ Known σ id
  first : σ.page.content.firstUsers = true ↔ ∀ d ∈ σ.received, d.users = []
  signed : ∀ k, σ.page.signature = some k → ∃ d ∈ σ.answers, usersSig d = k ∧
    d ∈ σ.since ∧ d ∈ σ.received

theorem ids_of_usersSig {known : List ScimUser} (h : Answering known σ) {a b : DemoUsers}
    (ha : a ∈ σ.answers) (hb : b ∈ σ.answers) (hsig : usersSig a = usersSig b) :
    a.users.map DemoUser.id = b.users.map DemoUser.id := by
  have hvisible := (Prod.mk.inj (visible_of_usersSig h ha hb hsig)).2
  refine map_eq_of_map_eq hvisible fun u _ v _ huv => ?_
  exact (DemoUser.mk.inj (Prod.mk.inj huv).1).1

variable [DecidableEq ι] {env : Env} {request : ι → Request} {fmt : String → String}

omit [DecidableEq ι] in
theorem remembers_arrive {known : List ScimUser} (h : Answering known σ) (hpage : Remembers σ)
    {data : DemoUsers} (hdata : data ∈ σ.answers) :
    Remembers { σ with
      page := poll fmt data σ.page, received := data :: σ.received, since := data :: σ.since } := by
  have hcons : ∀ id, (∃ d ∈ data :: σ.since, ∃ u ∈ d.users, u.id = id) ↔
      id ∈ data.users.map DemoUser.id ∨ Known σ id := by
    intro id
    simp [Known]
  unfold poll View.receive
  by_cases hsame : σ.page.signature = some (usersSig data)
  · rw [if_pos hsame]
    -- an answer of the same users came before
    obtain ⟨d, hd, hsig, hsince, hreceived⟩ := hpage.signed _ hsame
    have hids := ids_of_usersSig h hd hdata hsig
    refine ⟨fun id => ?_, ?_, fun k hk => ?_⟩
    · rw [hpage.seen id]
      refine ⟨fun hknown => (hcons id).mpr (Or.inr hknown), fun hknown => ?_⟩
      rcases (hcons id).mp hknown with hnew | hold
      · rw [← hids] at hnew
        obtain ⟨u, hu, hid⟩ := List.mem_map.mp hnew
        exact ⟨d, hsince, u, hu, hid⟩
      · exact hold
    · rw [hpage.first, List.forall_mem_cons]
      refine ⟨fun hall => ⟨?_, hall⟩, And.right⟩
      rw [hall d hreceived, List.map_nil] at hids
      exact List.map_eq_nil_iff.mp hids.symm
    · obtain rfl := Option.some.inj (hsame.symm.trans hk)
      exact ⟨data, hdata, rfl, List.mem_cons_self .., List.mem_cons_self ..⟩
  · rw [if_neg hsame]
    refine ⟨fun id => ?_, ?_, fun k hk => ?_⟩
    · rw [render_seen, List.mem_append, hpage.seen id, or_comm]
      exact (hcons id).symm
    · rw [render_firstUsers, Bool.and_eq_true, hpage.first, List.isEmpty_iff, List.forall_mem_cons,
        and_comm]
    · obtain rfl := Option.some.inj hk
      exact ⟨data, hdata, rfl, List.mem_cons_self .., List.mem_cons_self ..⟩

theorem remembers_step {known : List ScimUser} (h : Answering known σ) (hpage : Remembers σ)
    (hstep : Step env request fmt σ σ') : Remembers σ' := by
  cases hstep with
  | start i hclients => exact { hpage with }
  | call i t hclients hasked hrange => exact { hpage with }
  | readUsers t => exact { hpage with }
  | countGroups hcount => exact { hpage with }
  | answer now hrows hn =>
    refine { hpage with signed := fun k hk => ?_ }
    obtain ⟨d, hd, hkept⟩ := hpage.signed k hk
    exact ⟨d, List.mem_cons_of_mem _ hd, hkept⟩
  | arrive hdata => exact remembers_arrive h hpage hdata
  | cleared =>
    refine ⟨fun id => ?_, hpage.first, fun k hk => by contradiction⟩
    simp [Known, clearDb, View.forget]

theorem run_remembers {s : Store} (hs : s.Valid) {latest : ℕ} (hlatest : latest < year10000)
    (hstored : ∀ u ∈ s.users, u.updatedAt ≤ latest) (h : Run env request fmt s latest σ) :
    Remembers σ := by
  induction h with
  | refl =>
    refine ⟨fun id => ?_, ?_, fun k hk => by contradiction⟩
    · simp [Known, initial, loaded]
    · simp [initial, loaded]
  | tail hrun hstep ih =>
    obtain ⟨known, hknown⟩ := (run_live hs hlatest hstored hrun).answering
    exact remembers_step hknown ih hstep

/-- When an answer is rendered, the rows are marked of the users that no answer
had since the database was cleared, if any answer had users before. -/
theorem marks_new_users {s : Store} (hs : s.Valid) {latest : ℕ} (hlatest : latest < year10000)
    (hstored : ∀ u ∈ s.users, u.updatedAt ≤ latest) (h : Run env request fmt s latest σ)
    {data : DemoUsers} (hnew : σ.page.signature ≠ some (usersSig data)) :
    ∃ marked : DemoUser → Bool,
      (poll fmt data σ.page).content.body = bodyOf fmt marked data.users ∧
        ∀ u, marked u = true ↔ (∃ d ∈ σ.received, d.users ≠ []) ∧ ¬Known σ u.id := by
  have hpage := run_remembers hs hlatest hstored h
  refine ⟨isNew σ.page.content, ?_, fun u => ?_⟩
  · unfold poll View.receive
    rw [if_neg hnew, render_body]
  · have hfirst : σ.page.content.firstUsers = false ↔ ∃ d ∈ σ.received, d.users ≠ [] := by
      rw [← Bool.not_eq_true, hpage.first]
      simp
    rw [← hpage.seen, ← hfirst]
    simp [isNew]

/-- Behind a clearing from the page, the same users are new. -/
theorem marks_new_users_sample : ∃ σ : System Unit, σ.received = [oldAnswer] ∧ σ.since = [] ∧
    ∃ marked : DemoUser → Bool,
      (poll id oldAnswer σ.page).content.body = bodyOf id marked oldAnswer.users ∧
        ∀ u, marked u = true ↔ (∃ d ∈ σ.received, d.users ≠ []) ∧ ¬Known σ u.id := by
  have hold : ∀ u ∈ sampleStore.users, u.updatedAt ≤ 0 := by decide
  have hrange : 0 < year10000 := by
    unfold year10000
    omega
  have h₀ : Run sampleEnv deleteUser id sampleStore 0 (initial sampleStore 0) := .refl
  have h₁ := (h₀.tail (.readUsers (sampleTick "x" 0))).tail (.countGroups (by decide))
  have h₂ := h₁.tail (.answer 1 (List.mem_cons_self ..) (List.mem_cons_self ..))
  have h₃ := (h₂.tail (.arrive (List.mem_cons_self ..))).tail .cleared
  have hnone : ∀ k, (clearDb (poll id oldAnswer loaded)).signature ≠ some k := by
    intro k hk
    contradiction
  exact ⟨_, rfl, rfl, marks_new_users sampleStore_valid hrange hold h₃ (hnone _)⟩

end Marks

end OktaScim.LiveTable
