import OktaScim.JsValues

/-!
The demo's event buffer, from `events.store.ts`: the latest events, numbered in
the order in which they came. The fields of an event hold whatever JSON the
ingest endpoint was sent.
-/
namespace OktaScim.DemoEvents

open JsValues

/-- An event that has no number yet. -/
structure EventData : Type where
  ts : Json
  source : Json
  actor : Json
  kind : Json
  method : Option Json
  path : Option Json
  status : Option Json
  headers : Option Json
  payload : Option Json

structure DemoEvent : Type extends EventData where
  seq : ℕ

structure EventsStore : Type where
  events : List DemoEvent
  seq : ℕ

def cap : ℕ := 300

def initial : EventsStore := ⟨[], 0⟩

/-- An event beyond the cap drops the oldest one. -/
def add (e : EventData) (s : EventsStore) : EventsStore :=
  let events := s.events ++ [{ e with seq := s.seq + 1 }]
  ⟨events.drop (events.length - cap), s.seq + 1⟩

def list (s : EventsStore) : List DemoEvent := s.events

def clear (s : EventsStore) : EventsStore := { s with events := [] }

/-- An event in the buffer was there before, or it is the new one. -/
theorem mem_list_add {e : EventData} {s : EventsStore} {x : DemoEvent} (h : x ∈ list (add e s)) :
    x ∈ list s ∨ x = { e with seq := s.seq + 1 } := by
  simp only [list, add] at h
  rcases List.mem_append.mp (List.mem_of_mem_drop h) with hold | hnew
  · exact Or.inl hold
  · exact Or.inr (List.mem_singleton.mp hnew)

theorem mem_add {e : EventData} {s : EventsStore} {x : DemoEvent} (h : x ∈ (add e s).events) :
    x ∈ s.events ∨ x.toEventData = e :=
  (mem_list_add h).imp_right fun hnew => congrArg DemoEvent.toEventData hnew

/-- A new event is in the buffer, whatever else it drops. -/
theorem added_mem (e : EventData) (s : EventsStore) :
    ∃ x ∈ (add e s).events, x.toEventData = e := by
  refine ⟨{ e with seq := s.seq + 1 }, ?_, rfl⟩
  have hdrop : (s.events ++ [({ e with seq := s.seq + 1 } : DemoEvent)]).length - cap ≤
      s.events.length := by
    simp only [List.length_append, List.length_singleton, cap]
    omega
  simp only [add]
  rw [List.drop_append_of_le_length hdrop]
  simp

end OktaScim.DemoEvents
