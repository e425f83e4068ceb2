import OktaScim.DemoEvents
import Mathlib.Data.List.Chain
import Mathlib.Data.List.DropRight

/-!
The event buffer as a window over the history of its calls. The events are
numbered in the order of their additions, clearing makes none of them new
again, and the buffer shows the end of what was added since the last clear.
-/
namespace OktaScim.EventWindows

open DemoEvents

section Ends

variable {α : Type*}

theorem length_rtake (l : List α) (n : ℕ) : (l.rtake n).length = min n l.length := by
  simp only [List.rtake, List.length_drop]
  omega

theorem rtake_rtake (l : List α) (m n : ℕ) : (l.rtake m).rtake n = l.rtake (min m n) := by
  have hstart : l.length - m + ((l.rtake m).length - n) = l.length - min m n := by
    rw [length_rtake]
    omega
  simp only [List.rtake, List.drop_drop] at hstart ⊢
  rw [hstart]

theorem map_rtake {β : Type*} (f : α → β) (l : List α) (n : ℕ) :
    (l.rtake n).map f = (l.map f).rtake n := by
  simp only [List.rtake, List.map_drop, List.length_map]

/-- The end of a list is the end of any part that reaches far enough. -/
theorem rtake_of_suffix {s l : List α} (h : s <:+ l) {n : ℕ} (hn : n ≤ s.length) :
    l.rtake n = s.rtake n := by
  obtain ⟨pre, rfl⟩ := h
  have hstart : (pre ++ s).length - n = pre.length + (s.length - n) := by
    rw [List.length_append]
    omega
  rw [List.rtake, hstart, List.drop_length_add_append, List.rtake]

theorem rtake_min_length (l : List α) (n : ℕ) : l.rtake (min n l.length) = l.rtake n := by
  simp only [List.rtake]
  congr 1
  omega

end Ends

section Histories

inductive Call : Type
  | add (e : EventData)
  | clear

def call (s : EventsStore) : Call → EventsStore
  | .add e => add e s
  | .clear => clear s

def run (calls : List Call) : EventsStore := calls.foldl call initial

def Call.event : Call → Option EventData
  | .add e => some e
  | .clear => none

/-- All events that were ever added. -/
def added (calls : List Call) : List EventData := calls.filterMap Call.event

def grow (es : List EventData) : Call → List EventData
  | .add e => es ++ [e]
  | .clear => []

/-- The events that were added since the most recent clear. -/
def sinceClear (calls : List Call) : List EventData := calls.foldl grow []

/-- Events with their numbers, from one on. -/
def numbered (es : List EventData) : List DemoEvent :=
  es.mapIdx fun i e => { e with seq := i + 1 }

theorem run_concat (calls : List Call) (c : Call) : run (calls ++ [c]) = call (run calls) c := by
  simp only [run, List.foldl_append, List.foldl_cons, List.foldl_nil]

theorem sinceClear_concat (calls : List Call) (c : Call) :
    sinceClear (calls ++ [c]) = grow (sinceClear calls) c := by
  simp only [sinceClear, List.foldl_append, List.foldl_cons, List.foldl_nil]

theorem added_append (calls calls' : List Call) :
    added (calls ++ calls') = added calls ++ added calls' := List.filterMap_append ..

theorem sinceClear_suffix (calls : List Call) : sinceClear calls <:+ added calls := by
  induction calls using List.reverseRecOn with
  | nil => exact List.suffix_refl []
  | append_singleton calls c ih =>
    rw [sinceClear_concat, added_append]
    cases c with
    | add e =>
      obtain ⟨pre, hpre⟩ := ih
      exact ⟨pre, by rw [← hpre, grow, List.append_assoc]; rfl⟩
    | clear => exact List.nil_suffix

theorem numbered_concat (es : List EventData) (e : EventData) :
    numbered (es ++ [e]) = numbered es ++ [{ e with seq := es.length + 1 }] := by
  simp only [numbered, List.mapIdx_concat]

theorem length_numbered (es : List EventData) : (numbered es).length = es.length :=
  List.length_mapIdx

theorem numbered_events (es : List EventData) :
    (numbered es).map DemoEvent.toEventData = es := by
  induction es using List.reverseRecOn with
  | nil => rfl
  | append_singleton es e ih => rw [numbered_concat, List.map_append, ih]; rfl

theorem numbered_seqs (es : List EventData) :
    (numbered es).map DemoEvent.seq = List.range' 1 es.length := by
  induction es using List.reverseRecOn with
  | nil => rfl
  | append_singleton es e ih =>
    rw [numbered_concat, List.map_append, ih, List.length_append, List.length_singleton,
      List.range'_1_concat, Nat.add_comm 1]
    rfl

end Histories

section Windows

/-- The window of the history that the buffer shows. -/
def shown (calls : List Call) : List DemoEvent :=
  (numbered (added calls)).rtake (min cap (sinceClear calls).length)

/-- The call `add` moves the window by one event. -/
theorem add_rtake (e : EventData) (es : List EventData) (n : ℕ) :
    add e ⟨(numbered es).rtake (min cap n), es.length⟩ =
      ⟨(numbered (es ++ [e])).rtake (min cap (n + 1)), es.length + 1⟩ := by
  have hend : (numbered es).rtake (min cap n) ++ [{ e with seq := es.length + 1 }] =
      (numbered (es ++ [e])).rtake (min cap n + 1) := by
    rw [numbered_concat, List.rtake_concat_succ]
  have hcap : min (min cap n + 1) cap = min cap (n + 1) := by omega
  simp only [add, hend, EventsStore.mk.injEq, and_true]
  rw [← hcap, ← rtake_rtake]
  rfl

/-- After any calls the buffer is the window, and the counter the number of additions. -/
theorem run_eq (calls : List Call) : run calls = ⟨shown calls, (added calls).length⟩ := by
  induction calls using List.reverseRecOn with
  | nil => rfl
  | append_singleton calls c ih =>
    rw [run_concat, ih, shown, shown, sinceClear_concat, added_append]
    cases c with
    | add e =>
      have hadded : added [.add e] = [e] := rfl
      rw [call, add_rtake, hadded, grow, List.length_append, List.length_append,
        List.length_singleton]
    | clear =>
      have hadded : added [.clear] = [] := rfl
      rw [call, clear, hadded, List.append_nil, grow, List.length_nil, Nat.min_zero,
        List.rtake_zero]

theorem shown_events (calls : List Call) :
    (shown calls).map DemoEvent.toEventData = (sinceClear calls).rtake cap := by
  rw [shown, map_rtake, numbered_events,
    rtake_of_suffix (sinceClear_suffix calls) (Nat.min_le_right ..), rtake_min_length]

theorem length_shown (calls : List Call) :
    (shown calls).length = min cap (sinceClear calls).length := by
  have hle := (sinceClear_suffix calls).length_le
  rw [shown, length_rtake, length_numbered]
  omega

theorem shown_seqs (calls : List Call) :
    (shown calls).map DemoEvent.seq =
      List.range' ((added calls).length - (shown calls).length + 1) (shown calls).length := by
  have hle := (sinceClear_suffix calls).length_le
  have hlen := length_shown calls
  rw [hlen, shown, map_rtake, numbered_seqs, List.rtake, List.length_range', List.drop_range']
  congr 1 <;> omega

/-- What the buffer lists after the calls. -/
structure Window (calls : List Call) (es : List DemoEvent) : Prop where
  events : es.map DemoEvent.toEventData =
    (sinceClear calls).rtake (min 300 (sinceClear calls).length)
  consecutive : es.IsChain fun x y => y.seq = x.seq + 1
  increasing : es.Pairwise fun x y => x.seq < y.seq
  ends : ∀ x, es.getLast? = some x → x.seq = (added calls).length

theorem window_shown (calls : List Call) : Window calls (shown calls) where
  events := by rw [shown_events, rtake_min_length, cap]
  consecutive := by
    have hchain := List.isChain_range' ((added calls).length - (shown calls).length + 1)
      (shown calls).length 1
    rw [← shown_seqs] at hchain
    exact (List.isChain_map DemoEvent.seq).mp hchain
  increasing := by
    have hpair : ((shown calls).map DemoEvent.seq).Pairwise (· < ·) := by
      rw [shown_seqs]
      exact List.pairwise_lt_range'
    exact List.pairwise_map.mp hpair
  ends := by
    intro x hx
    have hlast := congrArg List.getLast? (shown_seqs calls)
    rw [List.getLast?_map, hx, List.getLast?_range', Option.map_some] at hlast
    have hlen := length_shown calls
    have hle := (sinceClear_suffix calls).length_le
    split at hlast
    · contradiction
    · have hseq := Option.some.inj hlast
      omega

theorem run_increasing (calls : List Call) :
    (list (run calls)).Pairwise fun x y => x.seq < y.seq := by
  rw [run_eq, list]
  exact (window_shown calls).increasing

/-- The newest event in the buffer has the number of the counter. -/
theorem run_last {calls : List Call} {x : DemoEvent} (h : (list (run calls)).getLast? = some x) :
    x.seq = (run calls).seq := by
  rw [run_eq, list] at h
  rw [run_eq]
  exact (window_shown calls).ends x h

/-- A number in the buffer is the number of an addition since the last clear. -/
theorem shown_seq_bounds {calls : List Call} {x : DemoEvent} (h : x ∈ shown calls) :
    (added calls).length - (sinceClear calls).length < x.seq ∧ x.seq ≤ (added calls).length := by
  have hseq : x.seq ∈ (shown calls).map DemoEvent.seq := List.mem_map_of_mem h
  rw [shown_seqs, List.mem_range'_1] at hseq
  have hlen := length_shown calls
  have hle := (sinceClear_suffix calls).length_le
  omega

/-- The events since a clear are among those that were added behind it. -/
theorem length_sinceClear_le (before later : List Call) :
    (sinceClear (before ++ .clear :: later)).length ≤ (added later).length := by
  have hclear : sinceClear (before ++ [.clear]) = [] := sinceClear_concat before .clear
  have hsplit : sinceClear (before ++ .clear :: later) = sinceClear later := by
    have hassoc : before ++ .clear :: later = (before ++ [.clear]) ++ later := by simp
    rw [hassoc, sinceClear, List.foldl_append, ← sinceClear, hclear, ← sinceClear]
  rw [hsplit]
  exact (sinceClear_suffix later).length_le

/-- The buffer is a window over the history, and numbers listed before a clear
are not given again behind it. -/
theorem list_window (calls : List Call) :
    Window calls (list (run calls)) ∧
      ∀ later, ∀ x ∈ list (run calls), ∀ y ∈ list (run (calls ++ .clear :: later)),
        x.seq < y.seq := by
  have hlist : ∀ calls, list (run calls) = shown calls := by
    intro calls
    rw [run_eq, list]
  constructor
  · rw [hlist]
    exact window_shown calls
  · intro later x hx y hy
    rw [hlist] at hx hy
    have hbefore := (shown_seq_bounds hx).2
    have hbehind := (shown_seq_bounds hy).1
    have hle := length_sinceClear_le calls later
    have hadded : (added (calls ++ .clear :: later)).length =
        (added calls).length + (added later).length := by
      rw [added_append, List.length_append]
      rfl
    omega

end Windows

end OktaScim.EventWindows
