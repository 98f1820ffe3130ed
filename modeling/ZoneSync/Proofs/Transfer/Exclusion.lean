import Mathlib.Data.List.Perm.Basic
import Mathlib.Logic.Function.Basic
import ZoneSync.Proofs.Name.Equality
import ZoneSync.Proofs.Stream.WriteBehind
import ZoneSync.Proofs.Transfer.Reception
import ZoneSync.Zone.Store

/-!
At most one session for a zone. Whoever begins a session holds a guard until the session ends, and
a transfer is a session of its own. Whatever is begun, dropped and transferred in whatever order,
the zones that count as active are those of the guards held, each of them held once.
-/

namespace ZoneSync

namespace Sessions

variable {s s' : Sessions} {origin n : Name}

theorem isActive_iff : s.isActive n ↔ ∃ m ∈ s.active, m.same n := by
  simp [isActive, List.any_eq_true]

theorem begin?_eq_none_iff : s.begin? origin = none ↔ s.isActive origin := by
  rw [begin?]
  split
  · simp [*]
  · simp [*]

theorem isActive_of_begin? (h : s.begin? origin = some s') :
    s'.isActive n ↔ origin.same n ∨ s.isActive n := by
  rw [begin?] at h
  split at h
  · cases h
  · obtain rfl := Option.some.inj h
    simp [isActive]

/-- A session that ends leaves the zones of the others, in whatever letters they are spelt. -/
theorem isActive_finish : (s.finish origin).isActive n ↔ s.isActive n ∧ ¬ origin.same n := by
  rw [isActive_iff, isActive_iff, finish]
  constructor
  · intro ⟨m, known, named⟩
    obtain ⟨known, other⟩ := List.mem_filter.mp known
    refine ⟨⟨m, known, named⟩, fun same => ?_⟩
    have ended := Name.same_trans named (Name.same_symm same)
    simp [ended] at other
  · intro ⟨⟨m, known, named⟩, other⟩
    refine ⟨m, List.mem_filter.mpr ⟨known, ?_⟩, named⟩
    have apart : ¬ m.same origin := fun same =>
      other (Name.same_trans (Name.same_symm same) named)
    simpa using apart

theorem finish_of_begin? (h : s.begin? origin = some s') : s'.finish origin = s := by
  have idle : ¬ s.isActive origin := by
    rw [← begin?_eq_none_iff, h]
    nofun
  rw [begin?, if_neg idle] at h
  obtain rfl := Option.some.inj h
  have others : s.active.filter (fun m => !m.same origin) = s.active := by
    rw [List.filter_eq_self]
    intro m known
    have apart : ¬ m.same origin := fun same => idle (isActive_iff.mpr ⟨m, known, same⟩)
    simpa using apart
  rw [finish, List.filter_cons_of_neg (by simp), others]

end Sessions

namespace Secondary

variable {τ σ : Type} [ZoneStorage τ] [ReadStream σ]

/-- While there is a session for the zone, a transfer reads nothing and changes nothing. -/
theorem transfer_of_active {config : TransferConfig} {request : TransferRequest}
    {server : Secondary τ} (busy : server.sessions.isActive request.origin) (stream : σ) :
    transfer config request (server, stream) =
      .error ⟨request.origin, .consume, .busy⟩ (server, stream) := by
  rw [transfer, Sessions.begin?_eq_none_iff.mpr busy]

/-- However a transfer ends, the sessions are as they were when it began. -/
theorem sessions_of_transfer (config : TransferConfig) (request : TransferRequest)
    (server : Secondary τ) (stream : σ) :
    (behind (transfer config request) (server, stream)).1.sessions = server.sessions := by
  rw [behind, transfer]
  cases begun : server.sessions.begin? request.origin with
  | none => rfl
  | some sessions =>
      have ended := Sessions.finish_of_begin? begun
      dsimp only
      cases transferInSession config request (server.store, stream) with
      | ok outcome state => exact ended
      | error e state => exact ended

end Secondary

/-- Secondaries that share their sessions, with the guards of the sessions that were begun and not
ended. A transfer holds its own guard, which is gone when it ends. -/
structure Cluster {ι : Type} (τ : ι → Type) where
  stores : (i : ι) → τ i
  sessions : Sessions := {}
  guards : List Name := []

namespace Cluster

/-- What can be done with shared sessions. A transfer is to one of the stores, from any stream, and
a store may also be changed by others. -/
inductive Call {ι : Type} (τ : ι → Type) : Type 1 where
  | begin (origin : Name)
  | drop (place : Nat)
  | change (i : ι) (store : τ i)
  | transfer {σ : Type} [ReadStream σ] (i : ι) (config : TransferConfig)
      (request : TransferRequest) (stream : σ)

variable {ι : Type} [DecidableEq ι] {τ : ι → Type} [∀ i, ZoneStorage (τ i)]

def server (c : Cluster τ) (i : ι) : Secondary (τ i) := ⟨c.stores i, c.sessions⟩

/-- What a transfer to one of the stores leaves, whether it succeeds or not. -/
def transferred {σ : Type} [ReadStream σ] (c : Cluster τ) (i : ι) (config : TransferConfig)
    (request : TransferRequest) (stream : σ) : Cluster τ :=
  let server := (behind (Secondary.transfer config request) (c.server i, stream)).1
  { stores := Function.update c.stores i server.store
    sessions := server.sessions
    guards := c.guards }

/-- What a call leaves. A session that cannot begin has no guard. -/
def step (c : Cluster τ) : Call τ → Cluster τ
  | .begin origin =>
    match c.sessions.begin? origin with
    | none => c
    | some sessions => { c with sessions, guards := origin :: c.guards }
  | .drop place =>
    match c.guards[place]? with
    | none => c
    | some origin =>
      { c with sessions := c.sessions.finish origin, guards := c.guards.eraseIdx place }
  | .change i store => { c with stores := Function.update c.stores i store }
  | @Call.transfer _ _ _ _ i config request stream => c.transferred i config request stream

def run (calls : List (Call τ)) (c : Cluster τ) : Cluster τ := calls.foldl step c

/-- There is a guard for the zone. -/
def Holds (c : Cluster τ) (n : Name) : Prop := ∃ g ∈ c.guards, g.same n

/-- No two guards are for one zone, and the zones that count as active are those of the guards. -/
structure Exclusive (c : Cluster τ) : Prop where
  apart : c.guards.Pairwise fun g h => ¬ g.same h
  active : ∀ n, c.sessions.isActive n ↔ c.Holds n

variable {c : Cluster τ}

omit [DecidableEq ι] [∀ i, ZoneStorage (τ i)] in
theorem exclusive_new (stores : (i : ι) → τ i) : Exclusive { stores } where
  apart := .nil
  active n := by simp [Holds, Sessions.isActive]

theorem Exclusive.begin (h : Exclusive c) (origin : Name) : Exclusive (c.step (.begin origin)) := by
  rw [Cluster.step]
  cases begun : c.sessions.begin? origin with
  | none => exact h
  | some sessions =>
      have idle : ¬ c.Holds origin := by
        rw [← h.active, ← Sessions.begin?_eq_none_iff, begun]
        nofun
      refine ⟨List.pairwise_cons.mpr ⟨fun g known same => ?_, h.apart⟩, fun n => ?_⟩
      · exact idle ⟨g, known, Name.same_symm same⟩
      · rw [Sessions.isActive_of_begin? begun, h.active]
        simp [Holds]

theorem Exclusive.drop (h : Exclusive c) (place : Nat) : Exclusive (c.step (.drop place)) := by
  rw [Cluster.step]
  cases held : c.guards[place]? with
  | none => exact h
  | some origin =>
      obtain ⟨inside, rfl⟩ := List.getElem?_eq_some_iff.mp held
      have parted := List.getElem_cons_eraseIdx_perm inside
      have symmetric {g h : Name} (apart : ¬ g.same h) : ¬ h.same g := fun same =>
        apart (Name.same_symm same)
      obtain ⟨others, apart⟩ := List.pairwise_cons.mp ((parted.pairwise_iff symmetric).mpr h.apart)
      refine ⟨apart, fun n => ?_⟩
      rw [Sessions.isActive_finish, h.active]
      constructor
      · intro ⟨⟨g, known, named⟩, ended⟩
        cases parted.mem_iff.mpr known with
        | head => exact absurd named ended
        | tail _ known => exact ⟨g, known, named⟩
      · -- no other guard is for the zone of the one that is dropped
        intro ⟨g, known, named⟩
        refine ⟨⟨g, parted.mem_iff.mp (.tail _ known), named⟩, fun ended => ?_⟩
        exact others g known (Name.same_trans ended (Name.same_symm named))

theorem Exclusive.transfer {σ : Type} [ReadStream σ] (h : Exclusive c) (i : ι)
    (config : TransferConfig) (request : TransferRequest) (stream : σ) :
    Exclusive (c.step (.transfer i config request stream)) := by
  have kept : (c.step (.transfer i config request stream)).sessions = c.sessions :=
    Secondary.sessions_of_transfer config request (c.server i) stream
  refine ⟨h.apart, fun n => ?_⟩
  rw [kept]
  exact h.active n

theorem Exclusive.step (h : Exclusive c) (call : Call τ) : Exclusive (c.step call) := by
  cases call with
  | begin origin => exact h.begin origin
  | drop place => exact h.drop place
  | change i store => exact ⟨h.apart, h.active⟩
  | transfer i config request stream => exact h.transfer i config request stream

theorem Exclusive.run (h : Exclusive c) (calls : List (Call τ)) : Exclusive (run calls c) := by
  induction calls generalizing c with
  | nil => exact h
  | cons call calls ih => exact ih (h.step call)

/-- A transfer that may begin is a session of its own, behind which one store may have changed. -/
theorem exists_session {σ : Type} [ReadStream σ] (i : ι) (config : TransferConfig)
    {request : TransferRequest} (idle : ¬ c.sessions.isActive request.origin) (stream : σ) :
    ∃ store, c.transferred i config request stream =
      run [.begin request.origin, .change i store, .drop 0] c := by
  have kept := Secondary.sessions_of_transfer config request (c.server i) stream
  have begun := Secondary.begin?_eq idle
  have ended := Sessions.finish_of_begin? begun
  refine ⟨(behind (Secondary.transfer config request) (c.server i, stream)).1.store, ?_⟩
  simp only [run, List.foldl_cons, List.foldl_nil, Cluster.step, begun, List.getElem?_cons_zero,
    List.eraseIdx_cons_zero, ended]
  rw [transferred, kept, server]

/-- Whatever is done with shared sessions, a zone has at most one guard, whatever letters its name
is spelt in, and is active, so that no other session can begin, exactly while it has one. Then a
transfer for it is refused with nothing read and nothing changed. Any other transfer leaves the
sessions as it found them; in between it was a session like any other. -/
theorem sessions_exclusive (stores : (i : ι) → τ i) (calls : List (Call τ)) :
    let c := run calls { stores }
    c.guards.Pairwise (fun g h => ¬ g.same h) ∧
    (∀ n, c.sessions.isActive n ↔ c.Holds n) ∧
    (∀ n, c.sessions.begin? n = none ↔ c.Holds n) ∧
    ∀ (σ : Type) [ReadStream σ] (i : ι) (config : TransferConfig) (request : TransferRequest)
      (stream : σ),
      (c.Holds request.origin → Secondary.transfer config request (c.server i, stream) =
        .error ⟨request.origin, .consume, .busy⟩ (c.server i, stream)) ∧
      (¬ c.Holds request.origin →
        (behind (Secondary.transfer config request) (c.server i, stream)).1.sessions =
          c.sessions ∧
        ∃ store, c.transferred i config request stream =
          run [.begin request.origin, .change i store, .drop 0] c) := by
  intro c
  have exclusive : Exclusive c := (exclusive_new stores).run calls
  refine ⟨exclusive.apart, exclusive.active, fun n => ?_, ?_⟩
  · rw [Sessions.begin?_eq_none_iff, exclusive.active]
  · intro σ _ i config request stream
    constructor
    · intro held
      exact Secondary.transfer_of_active ((exclusive.active _).mpr held) stream
    · intro free
      refine ⟨Secondary.sessions_of_transfer config request (c.server i) stream, ?_⟩
      exact exists_session i config (fun busy => free ((exclusive.active _).mp busy)) stream

def smallName : Name := .ofOctet 0x61

/-- The same name in capitals. -/
def capitalName : Name := .ofOctet 0x41

def otherName : Name := .ofOctet 0x62

/-- A session, and behind its beginning a transfer of another zone. -/
def smallCalls : List (Call fun _ : Unit => ZoneStore) :=
  [.begin smallName, .transfer () {} (.axfr 1 otherName) (MemoryReader.ofOctets [])]

theorem sessions_exclusive_small :
    let c := run smallCalls { stores := fun _ => { limits := {} } }
    let state := (c.server (), MemoryReader.ofOctets [0])
    c.Holds capitalName ∧ ¬ c.Holds otherName ∧
      Secondary.transfer {} (.axfr 2 capitalName) state =
        .error ⟨capitalName, .consume, .busy⟩ state ∧
      (behind (Secondary.transfer {} (.axfr 2 otherName)) state).1.sessions = c.sessions := by
  intro c state
  have guards : c.guards = [smallName] := rfl
  have held : c.Holds capitalName := ⟨smallName, by simp [guards], by decide⟩
  have free : ¬ c.Holds otherName := by
    intro ⟨g, known, named⟩
    obtain rfl := List.mem_singleton.mp (guards ▸ known)
    exact absurd named (by decide)
  obtain ⟨-, -, -, transfers⟩ := sessions_exclusive (fun _ => { limits := {} }) smallCalls
  refine ⟨held, free, ?_, ?_⟩
  · exact (transfers MemoryReader () {} (.axfr 2 capitalName) (MemoryReader.ofOctets [0])).1 held
  · exact ((transfers MemoryReader () {} (.axfr 2 otherName) (MemoryReader.ofOctets [0])).2 free).1

end Cluster
end ZoneSync
