import OktaScim.DemoEvents
import OktaScim.JsonText
import Mathlib.Data.List.Sort

/-!
The activity log of the dashboard, from the script in `demo.page.ts`. An entry
of the log stands for the element that is inserted, with the texts that it
shows: escaping them for the markup and parsing the markup cancel out. The
colour of a status and the way a time is written are left out, and a number
beyond the range of doubles, which the page receives as null, is shown as one.
A card of the log remembers which run of the server its event came from, which
the script itself does not know.
-/
namespace OktaScim.DemoPage

open JsValues JsonText DemoEvents

section Texts

def newline (depth : ℕ) : List Char := '\n' :: List.replicate (2 * depth) ' '

mutual

/-- `JSON.stringify(value, null, 2)`, for a value that stands `depth` levels deep. -/
def indented (depth : ℕ) : Json → List Char
  | .arr (v :: items) =>
    '[' :: newline (depth + 1) ++ indented (depth + 1) v ++ indentedItems (depth + 1) items ++
      newline depth ++ [']']
  | .obj ((k, v) :: fields) =>
    '\x7b' :: newline (depth + 1) ++ quote k ++ ": ".toList ++ indented (depth + 1) v ++
      indentedFields (depth + 1) fields ++ newline depth ++ ['\x7d']
  | v => text v

def indentedItems (depth : ℕ) : List Json → List Char
  | [] => []
  | v :: items => ',' :: newline depth ++ indented depth v ++ indentedItems depth items

def indentedFields (depth : ℕ) : List (String × Json) → List Char
  | [] => []
  | (k, v) :: fields =>
    ',' :: newline depth ++ quote k ++ ": ".toList ++ indented depth v ++
      indentedFields depth fields

end

example : String.ofList (indented 0 (.obj [("a", .arr [.null, .obj []]), ("b", .str "c")])) =
    "\x7b\n  \"a\": [\n    null,\n    \x7b\x7d\n  ],\n  \"b\": \"c\"\n\x7d" := by decide

/-- The text that `esc(value)` shows; `none` is a thrown `TypeError`. -/
def esc (value : Option Json) : Option String := jsString (coalesce value (some (.str "")))

/-- `value || ''` -/
def orEmpty (value : Option Json) : Option Json :=
  if toBoolean value then value else some (.str "")

/-- `Object.entries(value)` -/
def entries : Json → List (String × Json)
  | .obj fields => fields
  | .arr items => items.mapIdx fun i v => (toString i, v)
  | .str s => s.toList.mapIdx fun i c => (toString i, .str (String.ofList [c]))
  | _ => []

end Texts

section Cards

inductive Line : Type
  | request (text : String)
  | response (status text : String)

/-- The element of one event. -/
structure EventCard : Type where
  classes : String
  actor : String
  ts : Json
  line : Line
  headers : List (String × String)
  payload : Option String

/-- `e.kind === 'request'` -/
def isRequest : Json → Bool
  | .str s => s == "request"
  | _ => false

def eventLine (e : DemoEvent) : Option Line :=
  if isRequest e.kind then do
    let method ← esc (orEmpty e.method)
    let path ← esc (orEmpty e.path)
    return .request (method ++ " " ++ path)
  else do
    let status ← esc e.status
    let method ← esc (orEmpty e.method)
    let path ← esc (orEmpty e.path)
    return .response status (method ++ " " ++ path)

def eventHeaders (headers : Option Json) : Option (List (String × String)) :=
  if toBoolean headers then
    (entries (headers.getD .null)).mapM fun h => (esc (some h.2)).map fun v => (h.1, v)
  else some []

def eventPayload : Option Json → Option String
  | none => none
  | some .null => none
  | some (.str s) => some s
  | some v => some (String.ofList (indented 0 v))

/-- `eventCard`; where it throws there is no card. -/
def eventCard (e : DemoEvent) : Option EventCard := do
  let line ← eventLine e
  let headers ← eventHeaders e.headers
  let source ← esc (some e.source)
  let actor ← esc (some e.actor)
  return ⟨"ev " ++ source, actor, e.ts, line, headers, eventPayload e.payload⟩

end Cards

section Log

inductive Entry : Type
  | placeholder
  | card (server : ℕ) (event : DemoEvent) (element : EventCard)

structure Page : Type where
  renderedSeq : ℕ
  log : List Entry

def isBlank (c : Char) : Bool := ['\t', '\n', '\x0c', '\r', ' '].contains c

def hasClass (classes name : String) : Bool :=
  (classes.toList.splitOnP isBlank).contains name.toList

def Entry.classes : Entry → String
  | .placeholder => "log-empty"
  | .card _ _ element => element.classes

/-- `el.querySelector('.log-empty')` finds an element. -/
def findsLogEmpty (log : List Entry) : Bool :=
  log.any fun entry => hasClass entry.classes "log-empty"

/-- The page as it is loaded. -/
def Page.loaded : Page := ⟨0, [.placeholder]⟩

def showLogEmpty (_ : Page) : Page := ⟨0, [.placeholder]⟩

/-- Inserts the events at the top, one after the other; the flag tells that
none of them has thrown. -/
def insertCards (server : ℕ) : List DemoEvent → List Entry → List Entry × Bool
  | [], log => (log, true)
  | e :: events, log =>
    match eventCard e with
    | none => (log, false)
    | some element => insertCards server events (.card server e element :: log)

def fresh (page : Page) (events : List DemoEvent) : List DemoEvent :=
  events.filter fun e => page.renderedSeq < e.seq

/-- `updateLog`, with the exceptions that the poll catches. -/
def updateLog (server : ℕ) (events : List DemoEvent) (page : Page) : Page :=
  match events.getLast? with
  | none => if findsLogEmpty page.log then page else showLogEmpty page
  | some last =>
    if (fresh page events).isEmpty then page
    else
      let log := if findsLogEmpty page.log then [] else page.log
      let inserted := insertCards server
        ((fresh page events).insertionSort fun a b => a.seq ≤ b.seq) log
      ⟨if inserted.2 then last.seq else page.renderedSeq, inserted.1⟩

end Log

section Updates

/-- The event of a card, with the run of the server that it came from. -/
def Entry.shown : Entry → Option (ℕ × DemoEvent)
  | .placeholder => none
  | .card server event _ => some (server, event)

/-- The displayed events, the topmost one first. -/
def cards (log : List Entry) : List (ℕ × DemoEvent) := log.filterMap Entry.shown

variable {server : ℕ} {events : List DemoEvent} {log : List Entry} {page : Page}

theorem insertCards_rendered (h : ∀ e ∈ events, (eventCard e).isSome = true) (log : List Entry) :
    (insertCards server events log).2 = true ∧
      cards (insertCards server events log).1 =
        (events.map fun e => (server, e)).reverse ++ cards log := by
  induction events generalizing log with
  | nil => exact ⟨rfl, rfl⟩
  | cons e events ih =>
    obtain ⟨element, helement⟩ := Option.isSome_iff_exists.mp (h e (List.mem_cons_self ..))
    obtain ⟨hdone, hcards⟩ :=
      ih (fun d hd => h d (List.mem_cons_of_mem e hd)) (.card server e element :: log)
    simp only [insertCards, helement]
    refine ⟨hdone, ?_⟩
    rw [hcards, List.map_cons, List.reverse_cons, List.append_assoc]
    rfl

/-- Also when an insertion throws, only cards of the events come into the log. -/
theorem mem_insertCards {entry : Entry} (h : entry ∈ (insertCards server events log).1) :
    entry ∈ log ∨ ∃ e ∈ events, ∃ element, eventCard e = some element ∧
      entry = .card server e element := by
  induction events generalizing log with
  | nil => exact Or.inl h
  | cons e events ih =>
    cases helement : eventCard e with
    | none =>
      simp only [insertCards, helement] at h
      exact Or.inl h
    | some element =>
      simp only [insertCards, helement] at h
      rcases ih h with hlog | ⟨d, hd, element', hsome, hentry⟩
      · rcases List.mem_cons.mp hlog with heq | hold
        · exact Or.inr ⟨e, List.mem_cons_self .., element, helement, heq⟩
        · exact Or.inl hold
      · exact Or.inr ⟨d, List.mem_cons_of_mem e hd, element', hsome, hentry⟩

theorem mem_cards_insertCards {x : ℕ × DemoEvent}
    (h : x ∈ cards (insertCards server events log).1) :
    x ∈ cards log ∨ ∃ e ∈ events, (eventCard e).isSome = true ∧ x = (server, e) := by
  obtain ⟨entry, hentry, hx⟩ := List.mem_filterMap.mp h
  rcases mem_insertCards hentry with hlog | ⟨e, he, element, helement, rfl⟩
  · exact Or.inl (List.mem_filterMap.mpr ⟨entry, hlog, hx⟩)
  · exact Or.inr ⟨e, he, by rw [helement]; rfl, (Option.some.inj hx).symm⟩

theorem placeholder_insertCards (h : .placeholder ∈ (insertCards server events log).1) :
    .placeholder ∈ log := by
  rcases mem_insertCards h with hlog | ⟨_, _, _, _, hcard⟩
  · exact hlog
  · contradiction

theorem findsLogEmpty_of_placeholder (h : .placeholder ∈ log) : findsLogEmpty log = true :=
  List.any_eq_true.mpr ⟨.placeholder, h, by decide⟩

theorem mem_fresh {e : DemoEvent} :
    e ∈ fresh page events ↔ e ∈ events ∧ page.renderedSeq < e.seq := by
  rw [fresh, List.mem_filter, decide_eq_true_iff]

/-- Where there is something new among events in order, the new ones are inserted. -/
theorem updateLog_fresh (hsorted : events.Pairwise fun a b => a.seq < b.seq) {last : DemoEvent}
    (hlast : events.getLast? = some last) (hfresh : fresh page events ≠ []) :
    updateLog server events page =
      let inserted := insertCards server (fresh page events)
        (if findsLogEmpty page.log then [] else page.log)
      ⟨if inserted.2 then last.seq else page.renderedSeq, inserted.1⟩ := by
  have hsort : (fresh page events).insertionSort (fun a b => a.seq ≤ b.seq) =
      fresh page events := by
    apply List.Pairwise.insertionSort_eq
    exact (hsorted.filter _).imp Nat.le_of_lt
  have hne : (fresh page events).isEmpty = false := by simpa using hfresh
  simp only [updateLog, hlast, hne, hsort]
  rfl

theorem updateLog_known (hfresh : fresh page events = []) (hne : events ≠ []) :
    updateLog server events page = page := by
  obtain ⟨last, hlast⟩ := Option.ne_none_iff_exists'.mp (mt List.getLast?_eq_none_iff.mp hne)
  simp only [updateLog, hlast, hfresh, List.isEmpty_nil, if_true]

/-- An update leaves only the placeholder, old entries and cards of the events. -/
theorem mem_updateLog {entry : Entry} (h : entry ∈ (updateLog server events page).log) :
    entry = .placeholder ∨ entry ∈ page.log ∨
      ∃ e ∈ events, ∃ element, eventCard e = some element ∧ entry = .card server e element := by
  have hempty : entry ∈ (showLogEmpty page).log → entry = .placeholder := List.mem_singleton.mp
  unfold updateLog at h
  split at h
  · split at h
    · exact Or.inr (Or.inl h)
    · exact Or.inl (hempty h)
  · split at h
    · exact Or.inr (Or.inl h)
    · rcases mem_insertCards h with hlog | ⟨e, he, hcard⟩
      · split at hlog
        · exact absurd hlog List.not_mem_nil
        · exact Or.inr (Or.inl hlog)
      · rw [List.mem_insertionSort] at he
        exact Or.inr (Or.inr ⟨e, (mem_fresh.mp he).1, hcard⟩)

end Updates

section DeclaredEvents

/-- An event of the declared type. -/
structure Declared (e : EventData) : Prop where
  ts : ∃ s, e.ts = .str s
  source : e.source = .str "okta" ∨ e.source = .str "keycloak" ∨ e.source = .str "scim"
  actor : ∃ s, e.actor = .str s
  kind : e.kind = .str "request" ∨ e.kind = .str "response"
  method : ∀ v, e.method = some v → ∃ s, v = .str s
  path : ∀ v, e.path = some v → ∃ s, v = .str s
  status : ∀ v, e.status = some v → ∃ n, v = .num n
  headers : ∀ v, e.headers = some v →
    ∃ fields, v = .obj fields ∧ ∀ field ∈ fields, ∃ s, field.2 = .str s

theorem esc_str (s : String) : esc (some (.str s)) = some s := toStr_str s

theorem esc_orEmpty {value : Option Json} (h : ∀ v, value = some v → ∃ s, v = .str s) :
    ∃ s, esc (orEmpty value) = some s := by
  unfold orEmpty
  split
  · cases value with
    | none => contradiction
    | some v =>
      obtain ⟨s, rfl⟩ := h v rfl
      exact ⟨s, esc_str s⟩
  · exact ⟨"", esc_str ""⟩

theorem shownTexts_of_str {fields : List (String × Json)}
    (h : ∀ field ∈ fields, ∃ s, field.2 = .str s) :
    ∃ shown, fields.mapM (fun f => (esc (some f.2)).map fun v => (f.1, v)) = some shown := by
  induction fields with
  | nil => exact ⟨[], rfl⟩
  | cons field fields ih =>
    obtain ⟨s, hs⟩ := h field (List.mem_cons_self ..)
    obtain ⟨shown, hshown⟩ := ih fun f hf => h f (List.mem_cons_of_mem field hf)
    refine ⟨(field.1, s) :: shown, ?_⟩
    rw [List.mapM_cons, hs, esc_str, hshown]
    rfl

theorem esc_status {status : Option Json} (h : ∀ v, status = some v → ∃ n, v = .num n) :
    ∃ s, esc status = some s := by
  cases status with
  | none => exact ⟨"", esc_str ""⟩
  | some v =>
    obtain ⟨n, rfl⟩ := h v rfl
    exact ⟨n.toStr, by simp [esc, coalesce, jsString, Json.toStr]⟩

theorem eventHeaders_declared {headers : Option Json}
    (h : ∀ v, headers = some v →
      ∃ fields, v = .obj fields ∧ ∀ field ∈ fields, ∃ s, field.2 = .str s) :
    ∃ shown, eventHeaders headers = some shown := by
  unfold eventHeaders
  split
  · cases headers with
    | none => contradiction
    | some v =>
      obtain ⟨fields, rfl, hfields⟩ := h v rfl
      exact shownTexts_of_str hfields
  · exact ⟨[], rfl⟩

/-- An event of the declared type has a card, which does not pass for the placeholder. -/
theorem eventCard_declared {e : DemoEvent} (h : Declared e.toEventData) :
    ∃ element, eventCard e = some element ∧ hasClass element.classes "log-empty" = false := by
  obtain ⟨method, hmethod⟩ := esc_orEmpty h.method
  obtain ⟨path, hpath⟩ := esc_orEmpty h.path
  obtain ⟨shown, hshown⟩ := eventHeaders_declared h.headers
  obtain ⟨actor, hactor⟩ := h.actor
  have hline : ∃ line, eventLine e = some line := by
    unfold eventLine
    split
    · simp [hmethod, hpath]
    · obtain ⟨status, hstatus⟩ := esc_status h.status
      simp [hmethod, hpath, hstatus]
  obtain ⟨line, hline⟩ := hline
  have hcard : ∀ s, e.source = .str s → eventCard e =
      some ⟨"ev " ++ s, actor, e.ts, line, shown, eventPayload e.payload⟩ := by
    intro s hs
    simp [eventCard, hline, hshown, hs, hactor, esc_str]
  have hclasses : hasClass ("ev " ++ "okta") "log-empty" = false ∧
      hasClass ("ev " ++ "keycloak") "log-empty" = false ∧
      hasClass ("ev " ++ "scim") "log-empty" = false := by decide
  rcases h.source with hs | hs | hs
  · exact ⟨_, hcard _ hs, hclasses.1⟩
  · exact ⟨_, hcard _ hs, hclasses.2.1⟩
  · exact ⟨_, hcard _ hs, hclasses.2.2⟩

end DeclaredEvents

end OktaScim.DemoPage
