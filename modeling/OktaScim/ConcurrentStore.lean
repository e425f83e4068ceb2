import OktaScim.Interleavings
import OktaScim.PrismaConstraints
import OktaScim.Requests

/-!
Requests served at the same time. Each client sends one request, and the
database calls of the requests are interleaved in any order. The constraints of
the schema hold in every store that is reached.
-/
namespace OktaScim.ConcurrentStore

open Programs Interleavings Schema PrismaClient PrismaConstraints Bodies Requests

variable {ι : Type} [DecidableEq ι]

abbrev Clients (ι : Type) := Config ι Call.Result Exception Answer Store

/-- The configurations of the clients' requests that are reached from `s` by
steps that `allowed` admits. -/
abbrev ServedWhen (allowed : Clients ι → Event ι Tick → Prop) (env : Env)
    (request : ι → Request) (s : Store) (cfg : Clients ι) : Prop :=
  Reaches (exec env.engine) (fun i => (request i).handle env) allowed (Config.initial s) cfg

/-- The configurations that are reached in any order of steps. -/
abbrev Served (env : Env) (request : ι → Request) (s : Store) (cfg : Clients ι) : Prop :=
  ServedWhen (fun _ _ => True) env request s cfg

instance : Nonempty Tick := ⟨sampleTick "x" 0⟩

theorem served_valid {env : Env} {request : ι → Request} {cfg : Clients ι}
    (h : Served env request Store.empty cfg) : cfg.store.Valid :=
  reaches_keeps (exec env.engine) _ (exec_keeps_valid env.engine) Store.empty_valid h

/-- A user is created while a group is created with that user as its member,
and all data is cleared between the two calls of a rename of the group. -/
def sampleRequests : ℕ → Request
  | 0 => .createUser "salt" ⟨"ann", .undefined, .undefined, .undefined, .undefined, .undefined⟩
  | 1 => .createGroup ⟨"staff", .undefined, .value [some ⟨some "u", .undefined⟩]⟩
  | 2 => .replaceGroup "g" ⟨"crew", .undefined, .undefined⟩
  | _ => .clearData

def sampleEvents : List (Event ℕ Tick) :=
  [.start 0, .start 1, .call 1 (sampleTick "x" 0), .call 0 (sampleTick "x" 1),
    .call 0 (sampleTick "u" 2), .call 1 (sampleTick "g" 3), .start 2, .start 3,
    .call 2 (sampleTick "x" 4), .call 3 (sampleTick "x" 5), .call 2 (sampleTick "x" 6),
    .call 3 (sampleTick "x" 7)]

theorem served_valid_sample :
    Store.Valid ⟨[], [⟨"g", none, "crew", 3, 6⟩], []⟩ := by
  have hstart : Served sampleEnv sampleRequests Store.empty (Config.initial Store.empty) := .refl
  have hrun := reaches_runEvents (exec sampleEnv.engine) _ hstart sampleEvents
    (fun _ _ _ => trivial) rfl
  exact served_valid hrun

end OktaScim.ConcurrentStore
