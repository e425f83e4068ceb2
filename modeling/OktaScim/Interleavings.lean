import OktaScim.Programs
import Mathlib.Data.List.Basic

/-!
Any number of programs, one for each client, run against one atomic object.
An event either sends a client's program or lets one program that was sent
make its next call. Nothing else is scheduled or ordered, so every
interleaving of the calls is a run. A configuration also remembers which
programs had ended when another was sent; this is the real-time order.
-/
namespace OktaScim.Interleavings

open Programs

inductive Event (ι τ : Type) : Type
  | start (i : ι)
  | call (i : ι) (t : τ)

structure Config (ι : Type) {C : Type} (R : C → Type) (ε α σ : Type) where
  store : σ
  threads : ι → Option (Prog R ε α)
  precedes : ι → ι → Bool

variable {ι C : Type} {R : C → Type} {ε α σ τ : Type} [DecidableEq ι]

namespace Config

def initial (s : σ) : Config ι R ε α σ := ⟨s, fun _ => none, fun _ _ => false⟩

/-- What client `i` has been answered. -/
def answered (cfg : Config ι R ε α σ) (i : ι) : Option (Except ε α) :=
  (cfg.threads i).bind Prog.result

/-- Every program that was sent has ended. -/
def Quiescent (cfg : Config ι R ε α σ) : Prop :=
  ∀ i p, cfg.threads i = some p → p.result ≠ none

def setThread (cfg : Config ι R ε α σ) (i : ι) (p : Prog R ε α) : Config ι R ε α σ :=
  { cfg with threads := Function.update cfg.threads i (some p) }

@[simp] theorem setThread_store (cfg : Config ι R ε α σ) (i : ι) (p : Prog R ε α) :
    (cfg.setThread i p).store = cfg.store := rfl

@[simp] theorem setThread_precedes (cfg : Config ι R ε α σ) (i : ι) (p : Prog R ε α) :
    (cfg.setThread i p).precedes = cfg.precedes := rfl

@[simp] theorem setThread_same (cfg : Config ι R ε α σ) (i : ι) (p : Prog R ε α) :
    (cfg.setThread i p).threads i = some p := by
  simp [setThread]

theorem setThread_other (cfg : Config ι R ε α σ) {i j : ι} (p : Prog R ε α) (h : j ≠ i) :
    (cfg.setThread i p).threads j = cfg.threads j := by
  simp [setThread, h]

end Config

variable (exec : Exec R ε σ τ) (prog : ι → Prog R ε α)

/-- The configuration in which `i` has just been sent. -/
def startConfig (cfg : Config ι R ε α σ) (i : ι) : Config ι R ε α σ :=
  { cfg.setThread i (prog i) with
    precedes := fun a b => if b = i then (cfg.answered a).isSome else cfg.precedes a b }

/-- The configuration in which `i`, waiting for `c`, has made that call. -/
def callConfig (cfg : Config ι R ε α σ) (i : ι) (t : τ) (c : C) (k : R c → Prog R ε α) :
    Config ι R ε α σ :=
  { cfg.setThread i (next exec t c k cfg.store).1 with
    store := (next exec t c k cfg.store).2 }

def step (cfg : Config ι R ε α σ) : Event ι τ → Option (Config ι R ε α σ)
  | .start i =>
    match cfg.threads i with
    | none => some (startConfig prog cfg i)
    | some _ => none
  | .call i t =>
    match cfg.threads i with
    | some (.call c k) => some (callConfig exec cfg i t c k)
    | _ => none

theorem step_start_cases {cfg cfg' : Config ι R ε α σ} {i : ι}
    (h : step exec prog cfg (.start i) = some cfg') :
    cfg.threads i = none ∧ cfg' = startConfig prog cfg i := by
  cases hi : cfg.threads i with
  | none =>
    simp only [step, hi, Option.some.injEq] at h
    exact ⟨rfl, h.symm⟩
  | some p => simp [step, hi] at h

theorem step_call_cases {cfg cfg' : Config ι R ε α σ} {i : ι} {t : τ}
    (h : step exec prog cfg (.call i t) = some cfg') :
    ∃ c k, cfg.threads i = some (.call c k) ∧ cfg' = callConfig exec cfg i t c k := by
  cases hi : cfg.threads i with
  | none => simp [step, hi] at h
  | some p =>
    cases p with
    | pure a => simp [step, hi] at h
    | throw e => simp [step, hi] at h
    | call c k =>
      simp only [step, hi, Option.some.injEq] at h
      exact ⟨c, k, rfl, h.symm⟩

/-- Client `i` moves to `p` and nothing else happens but for the state: the
other programs stay where they are, and only programs that have ended precede
a program that is sent now. -/
structure Moves (cfg cfg' : Config ι R ε α σ) (i : ι) (p : Prog R ε α) : Prop where
  self : cfg'.threads i = some p
  other : ∀ j, j ≠ i → cfg'.threads j = cfg.threads j
  unanswered : cfg.answered i = none
  precedes : ∀ a b, cfg'.precedes a b = true →
    (b = i ∧ (cfg.answered a).isSome = true) ∨ cfg.precedes a b = true

omit [DecidableEq ι] in
theorem Moves.answered {cfg cfg' : Config ι R ε α σ} {i j : ι} {p : Prog R ε α}
    (h : Moves cfg cfg' i p) (hj : j ≠ i) : cfg'.answered j = cfg.answered j := by
  simp only [Config.answered, h.other j hj]

theorem moves_startConfig {cfg : Config ι R ε α σ} {i : ι} (h : cfg.threads i = none) :
    Moves cfg (startConfig prog cfg i) i (prog i) where
  self := Config.setThread_same cfg i (prog i)
  other j hj := Config.setThread_other cfg (prog i) hj
  unanswered := by simp [Config.answered, h]
  precedes a b hab := by
    by_cases hb : b = i
    · exact Or.inl ⟨hb, by simpa [startConfig, hb] using hab⟩
    · exact Or.inr (by simpa [startConfig, hb] using hab)

theorem moves_callConfig {cfg : Config ι R ε α σ} {i : ι} (t : τ) {c : C}
    {k : R c → Prog R ε α} (h : cfg.threads i = some (.call c k)) :
    Moves cfg (callConfig exec cfg i t c k) i (next exec t c k cfg.store).1 where
  self := Config.setThread_same cfg i _
  other j hj := Config.setThread_other cfg _ hj
  unanswered := by simp [Config.answered, h]
  precedes a b hab := Or.inr hab

/-- The configurations that a run from `init` reaches, when each of its
events is one that `allowed` admits. -/
inductive Reaches (allowed : Config ι R ε α σ → Event ι τ → Prop) (init : Config ι R ε α σ) :
    Config ι R ε α σ → Prop
  | refl : Reaches allowed init init
  | tail {cfg cfg' : Config ι R ε α σ} {e : Event ι τ} :
      Reaches allowed init cfg → allowed cfg e → step exec prog cfg e = some cfg' →
      Reaches allowed init cfg'

/-- A run given by its events. -/
def runEvents (cfg : Config ι R ε α σ) : List (Event ι τ) → Option (Config ι R ε α σ)
  | [] => some cfg
  | e :: es => (step exec prog cfg e).bind fun cfg' => runEvents cfg' es

theorem reaches_runEvents {allowed : Config ι R ε α σ → Event ι τ → Prop}
    {init cfg : Config ι R ε α σ} (hinit : Reaches exec prog allowed init cfg)
    (es : List (Event ι τ)) (hes : ∀ e ∈ es, ∀ cfg, allowed cfg e)
    {cfg' : Config ι R ε α σ} (h : runEvents exec prog cfg es = some cfg') :
    Reaches exec prog allowed init cfg' := by
  induction es generalizing cfg with
  | nil =>
    cases Option.some.inj h
    exact hinit
  | cons e es ih =>
    simp only [runEvents, Option.bind_eq_some_iff] at h
    obtain ⟨mid, hstep, hrest⟩ := h
    exact ih (.tail hinit (hes e (List.mem_cons_self ..) cfg) hstep)
      (fun e' he' => hes e' (List.mem_cons_of_mem e he')) hrest

/-- A property of the state that every call keeps holds in every run. -/
theorem reaches_keeps {allowed : Config ι R ε α σ → Event ι τ → Prop}
    {init cfg : Config ι R ε α σ} {I : σ → Prop} (hkeep : Keeps exec I)
    (hinit : I init.store) (h : Reaches exec prog allowed init cfg) : I cfg.store := by
  induction h with
  | refl => exact hinit
  | @tail cfg cfg' e _ _ hstep ih =>
    cases e with
    | start i =>
      obtain ⟨_, rfl⟩ := step_start_cases exec prog hstep
      exact ih
    | call i t =>
      obtain ⟨c, k, _, rfl⟩ := step_call_cases exec prog hstep
      exact next_keeps exec hkeep t c k cfg.store ih

end OktaScim.Interleavings
