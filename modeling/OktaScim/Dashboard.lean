import OktaScim.DemoPage
import OktaScim.EventWindows

/-!
The dashboard against the event buffer of a server that may be restarted. The
page keeps the number of the newest event that it shows and asks for what is
numbered above it, while a restarted server counts from one again: events that
come before the page has seen an empty buffer are missed as long as their
numbers are not above the old one.
-/
namespace OktaScim.Dashboard

open JsValues DemoEvents DemoPage

section Runs

/-- The server's buffer, how many times the server was restarted, and the page. -/
structure System : Type where
  store : EventsStore
  server : ℕ
  page : Page

/-- What can happen; `emptyLog` is the end of the page's own handler for
clearing, behind the request that it makes. -/
inductive Action : Type
  | add (e : EventData)
  | clear
  | restart
  | emptyLog
  | poll

def step (σ : System) : Action → System
  | .add e => { σ with store := add e σ.store }
  | .clear => { σ with store := clear σ.store }
  | .restart => { σ with store := initial, server := σ.server + 1 }
  | .emptyLog => { σ with page := showLogEmpty σ.page }
  | .poll => { σ with page := updateLog σ.server (list σ.store) σ.page }

def start : System := ⟨initial, 0, Page.loaded⟩

def run (actions : List Action) : System := actions.foldl step start

theorem run_concat (actions : List Action) (action : Action) :
    run (actions ++ [action]) = step (run actions) action := by
  simp only [run, List.foldl_append, List.foldl_cons, List.foldl_nil]

theorem step_add (σ : System) (e : EventData) :
    step σ (.add e) = ⟨add e σ.store, σ.server, σ.page⟩ := rfl

theorem add_seq (e : EventData) (s : EventsStore) : (add e s).seq = s.seq + 1 := rfl

/-- The buffered events that the page takes for new. -/
def unseen (σ : System) : List DemoEvent := fresh σ.page (list σ.store)

end Runs

section Displays

/-- One event was added later than another. -/
def Newer (x y : ℕ × DemoEvent) : Prop := y.1 < x.1 ∨ y.1 = x.1 ∧ y.2.seq < x.2.seq

/-- Every buffered event is displayed, none is displayed twice, and no event
stands above a newer one. -/
structure ShowsBuffer (σ : System) : Prop where
  displayed : ∀ e ∈ list σ.store, (σ.server, e) ∈ cards σ.page.log
  once : ((cards σ.page.log).map fun x => (x.1, x.2.seq)).Nodup
  ordered : (cards σ.page.log).Pairwise fun upper lower => ¬Newer lower upper

/-- What a poll needs. Every new event can be rendered; and all events are new,
or the newest card is of the running server, and where there are new events no
element of the log passes for the placeholder. -/
structure Ready (σ : System) : Prop where
  rendered : ∀ e ∈ unseen σ, (eventCard e).isSome = true
  known : (∀ e ∈ list σ.store, σ.page.renderedSeq < e.seq) ∨
    (∃ newest, (cards σ.page.log).head? = some newest ∧ newest.1 = σ.server) ∧
      (unseen σ = [] ∨ findsLogEmpty σ.page.log = false)

/-- What holds between the polls. -/
structure Synced (σ : System) : Prop where
  store : ∃ calls, σ.store = EventWindows.run calls
  log : (σ.page.log = [.placeholder] ∧ σ.page.renderedSeq = 0) ∨
    .placeholder ∉ σ.page.log ∧
      ∃ newest, (cards σ.page.log).head? = some newest ∧ newest.2.seq = σ.page.renderedSeq
  descending : (cards σ.page.log).Pairwise Newer
  past : ∀ x ∈ cards σ.page.log, x.1 ≤ σ.server
  current : ∀ newest, (cards σ.page.log).head? = some newest → newest.1 = σ.server →
    newest.2.seq ≤ σ.store.seq ∧
      ∀ e ∈ list σ.store, e.seq ≤ newest.2.seq → (σ.server, e) ∈ cards σ.page.log

/-- With nothing twice and in strict order. -/
theorem showsBuffer_of_descending {σ : System}
    (hall : ∀ e ∈ list σ.store, (σ.server, e) ∈ cards σ.page.log)
    (hdesc : (cards σ.page.log).Pairwise Newer) : ShowsBuffer σ where
  displayed := hall
  once := by
    apply List.pairwise_map.mpr
    refine hdesc.imp fun h heq => ?_
    rw [Prod.mk.injEq] at heq
    unfold Newer at h
    omega
  ordered := by
    refine hdesc.imp fun h hback => ?_
    unfold Newer at h hback
    omega

end Displays

section Steps

variable {σ : System}

theorem synced_start : Synced start where
  store := ⟨[], rfl⟩
  log := Or.inl ⟨rfl, rfl⟩
  descending := List.Pairwise.nil
  past := fun _ h => absurd h List.not_mem_nil
  current := fun _ h => by contradiction

theorem synced_add (h : Synced σ) (e : EventData) : Synced (step σ (.add e)) := by
  rw [step_add]
  refine ⟨?_, h.log, h.descending, h.past, ?_⟩
  · obtain ⟨calls, hcalls⟩ := h.store
    refine ⟨calls ++ [.add e], ?_⟩
    rw [EventWindows.run_concat, ← hcalls, EventWindows.call]
  · intro newest hnewest hserver
    obtain ⟨hle, hall⟩ := h.current newest hnewest hserver
    rw [add_seq]
    refine ⟨Nat.le_succ_of_le hle, ?_⟩
    intro x hx hseq
    rcases mem_list_add hx with hold | hnew
    · exact hall x hold hseq
    · rw [hnew] at hseq
      exact absurd hseq (Nat.not_le_of_lt (Nat.lt_succ_of_le hle))

theorem synced_clear (h : Synced σ) : Synced (step σ .clear) where
  store := by
    obtain ⟨calls, hcalls⟩ := h.store
    refine ⟨calls ++ [.clear], ?_⟩
    rw [EventWindows.run_concat, ← hcalls]
    rfl
  log := h.log
  descending := h.descending
  past := h.past
  current := by
    intro newest hnewest hserver
    refine ⟨(h.current newest hnewest hserver).1, ?_⟩
    exact fun x hx => absurd hx List.not_mem_nil

/-- No card is of the new run of the server. -/
theorem synced_restart (h : Synced σ) : Synced (step σ .restart) where
  store := ⟨[], rfl⟩
  log := h.log
  descending := h.descending
  past := fun x hx => Nat.le_succ_of_le (h.past x hx)
  current := by
    intro newest hnewest hserver
    have hpast : newest.1 ≤ σ.server := h.past newest (List.mem_of_mem_head? hnewest)
    exact absurd (Nat.le_of_eq hserver.symm) (Nat.not_le_of_lt (Nat.lt_succ_of_le hpast))

theorem synced_emptyLog (h : Synced σ) : Synced (step σ .emptyLog) where
  store := h.store
  log := Or.inl ⟨rfl, rfl⟩
  descending := List.Pairwise.nil
  past := fun _ h => absurd h List.not_mem_nil
  current := fun _ h => by contradiction

/-- A card of the running server makes the newest one such a card, and its
event is not numbered above the one that the page keeps. -/
theorem Synced.seen (h : Synced σ) {e : DemoEvent} (he : (σ.server, e) ∈ cards σ.page.log) :
    (∃ newest, (cards σ.page.log).head? = some newest ∧ newest.1 = σ.server) ∧
      e.seq ≤ σ.page.renderedSeq := by
  rcases h.log with ⟨hempty, _⟩ | ⟨_, newest, hnewest, hseq⟩
  · rw [hempty] at he
    exact absurd he List.not_mem_nil
  · obtain ⟨rest, hrest⟩ := List.head?_eq_some_iff.mp hnewest
    have hpast := h.past newest (List.mem_of_mem_head? hnewest)
    have hdesc := h.descending
    rw [hrest] at he hdesc
    rcases List.mem_cons.mp he with heq | hmem
    · rw [← heq] at hseq
      exact ⟨⟨newest, hnewest, by rw [← heq]⟩, Nat.le_of_eq hseq⟩
    · have hnewer := List.rel_of_pairwise_cons hdesc hmem
      simp only [Newer] at hnewer
      exact ⟨⟨newest, hnewest, by omega⟩, by omega⟩

theorem Synced.increasing (h : Synced σ) :
    (list σ.store).Pairwise fun x y => x.seq < y.seq := by
  obtain ⟨calls, hcalls⟩ := h.store
  rw [hcalls]
  exact EventWindows.run_increasing calls

theorem Synced.last (h : Synced σ) {e : DemoEvent} (he : (list σ.store).getLast? = some e) :
    e.seq = σ.store.seq := by
  obtain ⟨calls, hcalls⟩ := h.store
  rw [hcalls] at he ⊢
  exact EventWindows.run_last he

end Steps

section Polls

variable {σ : System}

/-- The entries over which a poll inserts. -/
def kept (σ : System) : List Entry := if findsLogEmpty σ.page.log then [] else σ.page.log

theorem mem_kept {x : ℕ × DemoEvent} (h : x ∈ cards (kept σ)) :
    findsLogEmpty σ.page.log = false ∧ x ∈ cards σ.page.log := by
  unfold kept at h
  split at h
  · exact absurd h List.not_mem_nil
  · rename_i hnot
    exact ⟨by simpa using hnot, h⟩

theorem kept_descending (h : Synced σ) : (cards (kept σ)).Pairwise Newer := by
  unfold kept
  split
  · exact List.Pairwise.nil
  · exact h.descending

theorem not_placeholder_kept : .placeholder ∉ kept σ := by
  unfold kept
  split
  · exact List.not_mem_nil
  · rename_i hnot
    exact fun hmem => hnot (findsLogEmpty_of_placeholder hmem)

theorem poll_page (σ : System) :
    step σ .poll = ⟨σ.store, σ.server, updateLog σ.server (list σ.store) σ.page⟩ := rfl

/-- What a poll does: on an empty buffer it may empty the log, where nothing is
new it leaves the page as it is, and else it inserts over the kept entries. -/
theorem poll_cases (h : Synced σ) :
    (list σ.store = [] ∧ (step σ .poll = σ ∨ step σ .poll = step σ .emptyLog)) ∨
    (list σ.store ≠ [] ∧ unseen σ = [] ∧ step σ .poll = σ) ∨
    unseen σ ≠ [] ∧ ∃ last, (list σ.store).getLast? = some last ∧
      step σ .poll = ⟨σ.store, σ.server,
        ⟨if (insertCards σ.server (unseen σ) (kept σ)).2 then last.seq else σ.page.renderedSeq,
          (insertCards σ.server (unseen σ) (kept σ)).1⟩⟩ := by
  by_cases hempty : list σ.store = []
  · refine Or.inl ⟨hempty, ?_⟩
    rw [poll_page, updateLog, hempty]
    simp only [List.getLast?_nil]
    split
    · exact Or.inl rfl
    · exact Or.inr rfl
  · by_cases hnone : unseen σ = []
    · refine Or.inr (Or.inl ⟨hempty, hnone, ?_⟩)
      rw [poll_page, updateLog_known hnone hempty]
    · obtain ⟨last, hlast⟩ := Option.ne_none_iff_exists'.mp (mt List.getLast?_eq_none_iff.mp hempty)
      refine Or.inr (Or.inr ⟨hnone, last, hlast, ?_⟩)
      rw [poll_page, updateLog_fresh h.increasing hlast hnone]
      rfl

/-- An event that the page does not take for new is displayed, when the page is ready. -/
theorem Synced.displayed (h : Synced σ) (hready : Ready σ) {e : DemoEvent} (he : e ∈ list σ.store)
    (hold : e ∉ unseen σ) :
    (σ.server, e) ∈ cards σ.page.log ∧ (unseen σ = [] ∨ findsLogEmpty σ.page.log = false) := by
  have hle : ¬σ.page.renderedSeq < e.seq := fun hlt => hold (mem_fresh.mpr ⟨he, hlt⟩)
  rcases hready.known with hall | ⟨⟨newest, hnewest, hserver⟩, hlog⟩
  · exact absurd (hall e he) hle
  · rcases h.log with ⟨hempty, _⟩ | ⟨_, newest', hnewest', hseq⟩
    · rw [hempty] at hnewest
      contradiction
    · rw [hnewest] at hnewest'
      cases hnewest'
      exact ⟨(h.current newest hnewest hserver).2 e he (by omega), hlog⟩

/-- The displayed events after a poll that renders all new ones. -/
theorem poll_cards (hrendered : ∀ e ∈ unseen σ, (eventCard e).isSome = true) :
    cards (insertCards σ.server (unseen σ) (kept σ)).1 =
      ((unseen σ).map fun e => (σ.server, e)).reverse ++ cards (kept σ) :=
  (insertCards_rendered hrendered _).2

theorem poll_descending (h : Synced σ) :
    (((unseen σ).map fun e => (σ.server, e)).reverse ++ cards (kept σ)).Pairwise Newer := by
  rw [List.pairwise_append, List.pairwise_reverse, List.pairwise_map]
  refine ⟨?_, kept_descending h, ?_⟩
  · have hsorted : (unseen σ).Pairwise fun a b => a.seq < b.seq := h.increasing.filter _
    exact hsorted.imp fun hlt => Or.inr ⟨rfl, hlt⟩
  · intro x hx y hy
    obtain ⟨e, he, rfl⟩ := List.mem_map.mp (List.mem_reverse.mp hx)
    have hy' := (mem_kept hy).2
    rcases Nat.lt_or_eq_of_le (h.past y hy') with hlt | heq
    · exact Or.inl hlt
    · have hseen : y.2.seq ≤ σ.page.renderedSeq := by
        rw [← Prod.mk.eta (p := y), heq] at hy'
        exact (h.seen hy').2
      exact Or.inr ⟨heq, Nat.lt_of_le_of_lt hseen (mem_fresh.mp he).2⟩

/-- After a poll for which the page was ready, all buffered events are displayed. -/
theorem poll_displayed (h : Synced σ) (hready : Ready σ) :
    ∀ e ∈ list σ.store, (σ.server, e) ∈ cards (step σ .poll).page.log := by
  intro e he
  rcases poll_cases h with ⟨hempty, _⟩ | ⟨_, hnone, hstep⟩ | ⟨hnone, last, _, hstep⟩
  · rw [hempty] at he
    exact absurd he List.not_mem_nil
  · rw [hstep]
    exact (h.displayed hready he (by rw [hnone]; exact List.not_mem_nil)).1
  · rw [hstep, poll_cards hready.rendered, List.mem_append]
    by_cases hnew : e ∈ unseen σ
    · exact Or.inl (List.mem_reverse.mpr (List.mem_map_of_mem hnew))
    · obtain ⟨hshown, hlog⟩ := h.displayed hready he hnew
      refine Or.inr ?_
      rwa [kept, hlog.resolve_left hnone, if_neg Bool.false_ne_true]

/-- The last event of the buffer is the last of the new ones, if there are any. -/
theorem unseen_last (h : Synced σ) {last : DemoEvent} (hlast : (list σ.store).getLast? = some last)
    (hne : unseen σ ≠ []) : (unseen σ).getLast? = some last := by
  obtain ⟨init, hinit⟩ := List.getLast?_eq_some_iff.mp hlast
  obtain ⟨e, he⟩ := List.exists_mem_of_ne_nil _ hne
  obtain ⟨hmem, hlt⟩ := mem_fresh.mp he
  have hle : e.seq ≤ last.seq := by
    have hinc := h.increasing
    rw [hinit] at hmem hinc
    have hbefore := (List.pairwise_append.mp hinc).2.2
    rcases List.mem_append.mp hmem with hold | hnew
    · exact Nat.le_of_lt (hbefore e hold last (List.mem_singleton_self _))
    · rw [List.mem_singleton.mp hnew]
  have hkeep : decide (σ.page.renderedSeq < last.seq) = true :=
    decide_eq_true (Nat.lt_of_lt_of_le hlt hle)
  rw [unseen, fresh, hinit, List.filter_append, List.filter_cons, if_pos hkeep, List.filter_nil,
    List.getLast?_concat]

/-- A poll for which the page is ready keeps it in step with the buffer. -/
theorem synced_poll (h : Synced σ) (hready : Ready σ) : Synced (step σ .poll) := by
  have hall := poll_displayed h hready
  rcases poll_cases h with ⟨_, hsame | hemptied⟩ | ⟨_, _, hsame⟩ | ⟨hnone, last, hlast, hstep⟩
  · rw [hsame]
    exact h
  · rw [hemptied]
    exact synced_emptyLog h
  · rw [hsame]
    exact h
  · have hdone : (insertCards σ.server (unseen σ) (kept σ)).2 = true :=
      (insertCards_rendered hready.rendered (kept σ)).1
    have hcards := poll_cards hready.rendered
    have hhead : (((unseen σ).map fun e => (σ.server, e)).reverse ++ cards (kept σ)).head? =
        some (σ.server, last) := by
      rw [List.head?_append, List.head?_reverse, List.getLast?_map, unseen_last h hlast hnone]
      rfl
    rw [hstep, hdone] at hall ⊢
    refine ⟨h.store, Or.inr ⟨?_, (σ.server, last), ?_, rfl⟩, ?_, ?_, ?_⟩
    · exact fun hmem => not_placeholder_kept (placeholder_insertCards hmem)
    · rw [hcards, hhead]
    · rw [hcards]
      exact poll_descending h
    · intro x hx
      rcases mem_cards_insertCards hx with hold | ⟨e, _, _, rfl⟩
      · exact h.past x (mem_kept hold).2
      · exact Nat.le_refl _
    · intro newest hnewest _
      rw [hcards, hhead] at hnewest
      cases hnewest
      exact ⟨Nat.le_of_eq (h.last hlast), fun e he _ => hall e he⟩

/-- Where all buffered events are displayed after a poll, the page was ready for it. -/
theorem ready_of_displayed (h : Synced σ)
    (hall : ∀ e ∈ list σ.store, (σ.server, e) ∈ cards (step σ .poll).page.log) : Ready σ := by
  rcases poll_cases h with ⟨hempty, _⟩ | ⟨hne, hnone, hsame⟩ | ⟨hnone, last, _, hstep⟩
  · refine ⟨fun e he => ?_, Or.inl fun e he => ?_⟩
    · exact absurd (mem_fresh.mp he).1 (by rw [hempty]; exact List.not_mem_nil)
    · exact absurd he (by rw [hempty]; exact List.not_mem_nil)
  · rw [hsame] at hall
    obtain ⟨e, he⟩ := List.exists_mem_of_ne_nil _ hne
    refine ⟨fun e he => ?_, Or.inr ⟨(h.seen (hall e he)).1, Or.inl hnone⟩⟩
    exact absurd he (by rw [hnone]; exact List.not_mem_nil)
  · rw [hstep] at hall
    constructor
    · intro e he
      obtain ⟨hmem, hlt⟩ := mem_fresh.mp he
      rcases mem_cards_insertCards (hall e hmem) with hold | ⟨d, _, hsome, heq⟩
      · exact absurd hlt (Nat.not_lt_of_le (h.seen (mem_kept hold).2).2)
      · rw [(Prod.mk.inj heq).2]
        exact hsome
    · by_cases hknown : ∀ e ∈ list σ.store, σ.page.renderedSeq < e.seq
      · exact Or.inl hknown
      · simp only [not_forall, exists_prop] at hknown
        obtain ⟨e, hmem, hle⟩ := hknown
        rcases mem_cards_insertCards (hall e hmem) with hold | ⟨d, hd, _, heq⟩
        · obtain ⟨hlog, hshown⟩ := mem_kept hold
          exact Or.inr ⟨(h.seen hshown).1, Or.inr hlog⟩
        · rw [← (Prod.mk.inj heq).2] at hd
          exact absurd (mem_fresh.mp hd).2 hle

/-- A page that is in step shows the buffer after a poll exactly when it was ready for it. -/
theorem poll_showsBuffer_iff (h : Synced σ) : ShowsBuffer (step σ .poll) ↔ Ready σ := by
  constructor
  · intro hshows
    exact ready_of_displayed h hshows.displayed
  · intro hready
    exact showsBuffer_of_descending (poll_displayed h hready) (synced_poll h hready).descending

end Polls

section Histories

theorem synced_step {σ : System} (h : Synced σ) (action : Action)
    (hready : action = .poll → Ready σ) : Synced (step σ action) := by
  cases action with
  | add e => exact synced_add h e
  | clear => exact synced_clear h
  | restart => exact synced_restart h
  | emptyLog => exact synced_emptyLog h
  | poll => exact synced_poll h (hready rfl)

/-- A page that is ready whenever it polls stays in step with the buffer. -/
theorem synced_run {actions : List Action}
    (h : ∀ before, before ++ [.poll] <+: actions → Synced (run before) → Ready (run before)) :
    Synced (run actions) := by
  induction actions using List.reverseRecOn with
  | nil => exact synced_start
  | append_singleton actions action ih =>
    have hsynced : Synced (run actions) :=
      ih fun before hbefore => h before (hbefore.trans (List.prefix_append ..))
    rw [run_concat]
    refine synced_step hsynced action ?_
    rintro rfl
    exact h actions (List.prefix_refl _) hsynced

end Histories

section DeclaredEvents

/-- The newest card is of the running server, or the page takes all events for new. -/
def Current (σ : System) : Prop :=
  (∀ e ∈ list σ.store, σ.page.renderedSeq < e.seq) ∨
    ∃ newest, (cards σ.page.log).head? = some newest ∧ newest.1 = σ.server

/-- Only declared events are buffered, and none of their cards passes for the placeholder. -/
structure Typed (σ : System) : Prop where
  events : ∀ e ∈ list σ.store, Declared e.toEventData
  log : ∀ entry ∈ σ.page.log,
    entry = .placeholder ∨ hasClass entry.classes "log-empty" = false

theorem typed_step {σ : System} (h : Typed σ) {action : Action}
    (hadd : ∀ e, action = .add e → Declared e) : Typed (step σ action) := by
  have hempty : ∀ entry ∈ (showLogEmpty σ.page).log,
      entry = .placeholder ∨ hasClass entry.classes "log-empty" = false := by
    intro entry hentry
    exact Or.inl (List.mem_singleton.mp hentry)
  cases action with
  | add e =>
    rw [step_add]
    refine ⟨fun x hx => ?_, h.log⟩
    rcases mem_list_add hx with hold | hnew
    · exact h.events x hold
    · rw [hnew]
      exact hadd e rfl
  | clear => exact ⟨fun e he => absurd he List.not_mem_nil, h.log⟩
  | restart => exact ⟨fun e he => absurd he List.not_mem_nil, h.log⟩
  | emptyLog => exact ⟨h.events, hempty⟩
  | poll =>
    refine ⟨h.events, fun entry hentry => ?_⟩
    rcases mem_updateLog hentry with hplace | hold | ⟨e, he, element, helement, rfl⟩
    · exact Or.inl hplace
    · exact h.log entry hold
    · obtain ⟨element', hsome, hclass⟩ := eventCard_declared (h.events e he)
      rw [helement] at hsome
      cases hsome
      exact Or.inr hclass

theorem typed_run {actions : List Action} (h : ∀ e, .add e ∈ actions → Declared e) :
    Typed (run actions) := by
  induction actions using List.reverseRecOn with
  | nil =>
    refine ⟨fun e he => absurd he List.not_mem_nil, fun entry hentry => ?_⟩
    exact Or.inl (List.mem_singleton.mp hentry)
  | append_singleton actions action ih =>
    rw [run_concat]
    refine typed_step (ih fun e he => h e (List.mem_append_left _ he)) fun e he => h e ?_
    rw [he]
    exact List.mem_append_right _ (List.mem_singleton_self _)

/-- For declared events only the run of the server matters. -/
theorem ready_iff_current {σ : System} (h : Synced σ) (htyped : Typed σ) :
    Ready σ ↔ Current σ := by
  constructor
  · intro hready
    exact hready.known.imp_right fun hnewest => hnewest.1
  · intro hcurrent
    constructor
    · intro e he
      obtain ⟨element, helement, _⟩ := eventCard_declared (htyped.events e (mem_fresh.mp he).1)
      rw [helement]
      rfl
    · refine hcurrent.imp_right fun hnewest => ⟨hnewest, Or.inr ?_⟩
      rcases h.log with ⟨hempty, _⟩ | ⟨hnot, _⟩
      · obtain ⟨newest, hhead, _⟩ := hnewest
        rw [hempty] at hhead
        contradiction
      · rw [findsLogEmpty, List.any_eq_false]
        intro entry hentry
        rcases htyped.log entry hentry with rfl | hclass
        · exact absurd hentry hnot
        · rw [hclass]
          exact Bool.false_ne_true

end DeclaredEvents

section Guarantee

variable {actions before : List Action}

theorem poll_iff (h : Synced (run before)) :
    ShowsBuffer (run (before ++ [.poll])) ↔ Ready (run before) := by
  rw [run_concat]
  exact poll_showsBuffer_iff h

theorem synced_before (hbefore : before ++ [.poll] <+: actions)
    (h : ∀ earlier, earlier ++ [.poll] <+: actions → Synced (run earlier) →
      Ready (run earlier)) : Synced (run before) :=
  synced_run fun earlier hearlier =>
    h earlier (hearlier.trans ((List.prefix_append ..).trans hbefore))

/-- Over any history, every poll shows the buffer exactly when the page is ready
at every poll; for declared events, when it is current. -/
theorem shows_buffer_iff (actions : List Action) :
    ((∀ before, before ++ [.poll] <+: actions → ShowsBuffer (run (before ++ [.poll]))) ↔
      ∀ before, before ++ [.poll] <+: actions → Ready (run before)) ∧
    ((∀ e, .add e ∈ actions → Declared e) →
      ((∀ before, before ++ [.poll] <+: actions → ShowsBuffer (run (before ++ [.poll]))) ↔
        ∀ before, before ++ [.poll] <+: actions → Current (run before))) := by
  have hgeneral :
      (∀ before, before ++ [.poll] <+: actions → ShowsBuffer (run (before ++ [.poll]))) ↔
        ∀ before, before ++ [.poll] <+: actions → Ready (run before) := by
    constructor
    · intro h before hbefore
      have hsynced := synced_before hbefore fun earlier hearlier hs =>
        (poll_iff hs).mp (h earlier hearlier)
      exact (poll_iff hsynced).mp (h before hbefore)
    · intro h before hbefore
      have hsynced := synced_before hbefore fun earlier hearlier _ => h earlier hearlier
      exact (poll_iff hsynced).mpr (h before hbefore)
  refine ⟨hgeneral, fun hdeclared => hgeneral.trans ?_⟩
  have htyped : ∀ before, before ++ [.poll] <+: actions → Typed (run before) := by
    intro before hbefore
    refine typed_run fun e he => hdeclared e ?_
    exact hbefore.subset (List.mem_append_left _ he)
  constructor
  · intro h before hbefore
    have hsynced := synced_before hbefore fun earlier hearlier _ => h earlier hearlier
    exact (ready_iff_current hsynced (htyped before hbefore)).mp (h before hbefore)
  · intro h before hbefore
    have hsynced := synced_before hbefore fun earlier hearlier hs =>
      (ready_iff_current hs (htyped earlier hearlier)).mpr (h earlier hearlier)
    exact (ready_iff_current hsynced (htyped before hbefore)).mpr (h before hbefore)

def sampleEvent : EventData where
  ts := .str "2024-01-01T00:00:00.000Z"
  source := .str "okta"
  actor := .str "Okta → SCIM server"
  kind := .str "request"
  method := some (.str "GET")
  path := some (.str "/scim/v2/Users")
  status := none
  headers := none
  payload := none

theorem sampleEvent_declared : Declared sampleEvent := by
  have hstr : ∀ t v, some (Json.str t) = some v → ∃ s, v = .str s := by
    intro t v hv
    exact ⟨t, (Option.some.inj hv).symm⟩
  exact ⟨⟨_, rfl⟩, Or.inl rfl, ⟨_, rfl⟩, Or.inl rfl, hstr _, hstr _, fun _ h => by contradiction,
    fun _ h => by contradiction⟩

/-- Two events come, and the page polls behind each of them. -/
def polledTwice : List Action := [.add sampleEvent, .poll, .add sampleEvent, .poll]

theorem shows_buffer_iff_sample :
    ∀ before, before ++ [.poll] <+: polledTwice → ShowsBuffer (run (before ++ [.poll])) := by
  have hdeclared : ∀ e, .add e ∈ polledTwice → Declared e := by
    intro e he
    have hsame : e = sampleEvent := by simpa [polledTwice] using he
    rw [hsame]
    exact sampleEvent_declared
  refine ((shows_buffer_iff polledTwice).2 hdeclared).mpr ?_
  rintro before ⟨rest, hrest⟩
  rcases before with _ | ⟨a, _ | ⟨b, _ | ⟨c, _ | ⟨d, before⟩⟩⟩⟩
  · cases hrest
  · cases hrest
    refine Or.inl fun e he => ?_
    obtain rfl := List.mem_singleton.mp he
    exact Nat.zero_lt_one
  · cases hrest
  · cases hrest
    exact Or.inr ⟨_, rfl, rfl⟩
  · have hlength := congrArg List.length hrest
    simp [polledTwice] at hlength

/-- The server is restarted while the page shows an event, and the next event
has the number of that one. -/
def restarted : List Action := [.add sampleEvent, .poll, .restart, .add sampleEvent, .poll]

/-- The event behind the restart is not displayed. -/
theorem event_missed_after_restart :
    Declared sampleEvent ∧ ¬ShowsBuffer (run restarted) := by
  refine ⟨sampleEvent_declared, fun h => ?_⟩
  have hcards : (cards (run restarted).page.log).map Prod.fst = [0] := by rfl
  have hshown := h.displayed _ (List.mem_singleton_self _)
  have hserver : (run restarted).server ∈ [0] := hcards ▸ List.mem_map_of_mem hshown
  exact absurd hserver (by decide)

end Guarantee

end OktaScim.Dashboard
