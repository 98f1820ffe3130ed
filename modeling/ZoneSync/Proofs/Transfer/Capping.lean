import ZoneSync.Proofs.Transfer.Reception

/-!
The limit on the records that are taken in. As long as an answer keeps to the limit, everything is
as without one. The first record beyond it ends the transfer, whatever else is wrong with that
record or comes behind it.
-/

namespace ZoneSync

namespace Assembly

/-- The assembly with a limit on its records. -/
def capped (limit : Nat) (a : Assembly) : Assembly :=
  { a with expectation := { a.expectation with maxRecords := some limit } }

/-- An assembly without a limit that has not failed. -/
structure Free (a : Assembly) : Prop where
  running : a.progress ≠ .aborted
  unlimited : a.expectation.maxRecords = none

def withCap {ε α : Type} (limit : Nat) :
    EStateM.Result ε Assembly α → EStateM.Result ε Assembly α
  | .ok x a => .ok x (a.capped limit)
  | .error e a => .error e (a.capped limit)

/-- Of the given records those that are processed: all up to the first that is refused, that one
included. -/
def processed : List Record → Assembly → List Record
  | [], _ => []
  | r :: later, a => r :: match process r a with
    | .ok () b => processed later b
    | .error _ _ => []

variable {a b : Assembly} {limit : Nat} {r : Record} {records : List Record}

@[simp] theorem progress_capped (limit : Nat) (a : Assembly) :
    (a.capped limit).progress = a.progress := rfl

@[simp] theorem count_capped (limit : Nat) (a : Assembly) : (a.capped limit).count = a.count := rfl

@[simp] theorem maxRecords_capped (limit : Nat) (a : Assembly) :
    (a.capped limit).expectation.maxRecords = some limit := rfl

@[simp] theorem take_capped (limit : Nat) (a : Assembly) (r : Record) (p : Progress) :
    take (a.capped limit).expectation r p = take a.expectation r p := rfl

/-- Taking a record never aborts; only a refusal does. -/
theorem running_of_take {e : Expectation} {p q : Progress} (h : take e r p = .ok q) :
    q ≠ .aborted := by
  rintro rfl
  rcases take_eq_ok.mp h with ⟨-, h⟩ | ⟨found, -, -, h⟩
  · cases p <;> simp [takeOther] at h
  · cases p with
    | awaitingFirst =>
        simp only [takeSoa] at h
        split at h
        · split at h <;> cases h
        · cases h
    | awaitingSecond first =>
        simp only [takeSoa] at h
        split at h
        · cases h
        · simp [closeFull_eq_ok] at h
    | collecting soa body => simp [takeSoa, closeFull_eq_ok] at h
    | removing | betweenDiffs => simp [takeSoa, openAdded_eq_ok] at h
    | adding chain diff =>
        obtain ⟨-, h⟩ := closeDiff_eq_ok.mp h
        rw [afterDiffs] at h
        split at h
        · cases h
        · split at h <;> cases h
    | finished | aborted => cases h

theorem Free.of_process (free : a.Free) (h : process r a = .ok () b) : b.Free := by
  obtain ⟨p, taken, rfl⟩ := process_eq_ok h
  exact ⟨running_of_take taken, free.unlimited⟩

/-- What is done with a record while nothing has failed. -/
theorem process_running (running : a.progress ≠ .aborted) (r : Record) :
    process r a = match a.expectation.maxRecords.filter fun limit => limit < a.count + 1 with
      | some limit =>
        .error (.tooManyRecords limit) { a with progress := .aborted, count := a.count + 1 }
      | none =>
        match take a.expectation r a.progress with
        | .ok p => .ok () { a with progress := p, count := a.count + 1 }
        | .error v => .error v { a with progress := .aborted, count := a.count + 1 } := by
  rw [process]
  split
  · exact absurd (by assumption) running
  · rfl

theorem process_free (free : a.Free) (r : Record) :
    process r a = match take a.expectation r a.progress with
      | .ok p => .ok () { a with progress := p, count := a.count + 1 }
      | .error v => .error v { a with progress := .aborted, count := a.count + 1 } := by
  rw [process_running free.running, free.unlimited, Option.filter_none]

/-- With a limit that is not reached a record fares as without one. -/
theorem process_room (free : a.Free) (room : a.count < limit) (r : Record) :
    process r (a.capped limit) = withCap limit (process r a) := by
  have within : ¬ limit < a.count + 1 := Nat.not_lt.mpr room
  rw [process_running (a := a.capped limit) free.running, process_free free]
  simp only [maxRecords_capped, count_capped, Option.filter_some, within, decide_false,
    Bool.false_eq_true, if_false, take_capped, progress_capped]
  cases take a.expectation r a.progress <;> rfl

theorem process_full (free : a.Free) (full : limit ≤ a.count) (r : Record) :
    ∃ b, process r (a.capped limit) = .error (.tooManyRecords limit) b := by
  have beyond : limit < a.count + 1 := Nat.lt_succ_of_le full
  rw [process_running (a := a.capped limit) free.running]
  simp only [maxRecords_capped, count_capped, Option.filter_some, beyond, decide_true, if_true]
  exact ⟨_, rfl⟩

theorem processAll_cons (r : Record) (later : List Record) (a : Assembly) :
    processAll (r :: later) a = match process r a with
      | .ok () b => processAll later b
      | .error v b => .error v b := by
  change (process r >>= fun _ => processAll later) a = _
  cases first : process r a with
  | ok _ b => exact bind_of_ok first
  | error v b => exact bind_of_error first

/-- Each record that is processed is counted, also one that is refused. -/
theorem count_processAll (free : a.Free) (records : List Record) :
    match processAll records a with
    | .ok () b => b.Free ∧ b.count = a.count + (processed records a).length
    | .error _ b => b.count = a.count + (processed records a).length := by
  induction records generalizing a with
  | nil => exact ⟨free, rfl⟩
  | cons r later ih =>
      have step := process_free free r
      rw [processAll_cons, processed]
      cases taken : take a.expectation r a.progress with
      | error v =>
          simp only [taken] at step
          simp only [step, List.length_singleton]
      | ok p =>
          simp only [taken] at step
          have rest := ih (free.of_process step)
          simp only [step, List.length_cons]
          simp only at rest
          rwa [Nat.add_right_comm, Nat.add_assoc] at rest

/-- As long as there is room for all records that are processed, they fare as without a limit. -/
theorem processAll_room (free : a.Free) (room : a.count + (processed records a).length ≤ limit) :
    processAll records (a.capped limit) = withCap limit (processAll records a) := by
  induction records generalizing a with
  | nil => rfl
  | cons r later ih =>
      rw [processed, List.length_cons] at room
      rw [processAll_cons, processAll_cons, process_room free (by omega)]
      cases step : process r a with
      | error v b => rfl
      | ok _ b =>
          obtain ⟨p, -, rfl⟩ := process_eq_ok step
          rw [step] at room
          dsimp only at room
          exact ih (free.of_process step) (by dsimp only; omega)

/-- The first record for which there is no room is refused for that reason. -/
theorem processAll_full (free : a.Free) (start : a.count ≤ limit)
    (full : limit < a.count + (processed records a).length) :
    ∃ b, processAll records (a.capped limit) = .error (.tooManyRecords limit) b := by
  induction records generalizing a with
  | nil => exact absurd full (Nat.not_lt.mpr start)
  | cons r later ih =>
      rw [processAll_cons]
      by_cases here : limit ≤ a.count
      · obtain ⟨b, refused⟩ := process_full free here r
        exact ⟨b, by rw [refused]⟩
      · rw [process_room free (Nat.lt_of_not_le here)]
        rw [processed, List.length_cons] at full
        cases step : process r a with
        | error v b =>
            simp only [step, List.length_nil] at full
            omega
        | ok _ b =>
            obtain ⟨p, -, rfl⟩ := process_eq_ok step
            simp only [step] at full
            exact ih (free.of_process step) (by dsimp only; omega) (by dsimp only; omega)

end Assembly

namespace Secondary

/-- The answer records of a message whose header and questions fit the request, as far as they can
be read, and what has stopped the reading. -/
def inspected (request : TransferRequest) (message : Octets) :
    Except TransferFault (List Record × Option RecordError) :=
  match MessageReader.ofOctets message with
  | .error e => .error (.stream e)
  | .ok reader =>
    match checkHeader request reader.header with
    | .error v => .error (.protocol v)
    | .ok () =>
      match MessageReader.questions reader with
      | .error e _ => .error (.stream e)
      | .ok questions reader =>
        if !questions.all (isAsked request) then .error (.protocol .questionMismatch)
        else .ok (answers reader.entries.1, reader.entries.2)

theorem takeMessage_eq (request : TransferRequest) (message : Octets) (a : Assembly) :
    takeMessage request message a = match inspected request message with
      | .error fault => .error fault
      | .ok (records, fault) =>
        match Assembly.processAll records a, fault with
        | .error v _, _ => .error (.protocol v)
        | .ok () _, some e => .error (.ofRecordError e)
        | .ok () b, none => .ok b := by
  rw [takeMessage, inspected]
  cases MessageReader.ofOctets message with
  | error e => rfl
  | ok reader =>
      dsimp only
      cases checkHeader request reader.header with
      | error v => rfl
      | ok _ =>
          dsimp only
          cases MessageReader.questions reader with
          | error e _ => rfl
          | ok questions reader =>
              dsimp only
              split
              · rfl
              · have same := congrFun (takeEntries_eq reader.entries.1) a
                cases processed : Assembly.processAll (answers reader.entries.1) a with
                | error v b => simp only [same, processed]
                | ok _ b => cases reader.entries.2 <;> simp only [same, processed]

/-- The records of a message that are processed. -/
def processedIn (request : TransferRequest) (message : Octets) (a : Assembly) : List Record :=
  match inspected request message with
  | .error _ => []
  | .ok (records, _) => Assembly.processed records a

section Message

variable {request : TransferRequest} {message : Octets} {a b : Assembly} {limit : Nat}

theorem takeMessage_free (free : a.Free) (h : takeMessage request message a = .ok b) :
    b.Free ∧ b.count = a.count + (processedIn request message a).length := by
  rw [takeMessage_eq] at h
  rw [processedIn]
  split at h
  · cases h
  · rename_i records fault seen
    have counted := Assembly.count_processAll free records
    split at h
    · cases h
    · cases h
    · rename_i c done
      obtain rfl := Except.ok.inj h
      rw [done] at counted
      simpa only [seen] using counted

theorem takeMessage_room (free : a.Free)
    (room : a.count + (processedIn request message a).length ≤ limit) :
    takeMessage request message (a.capped limit) =
      (takeMessage request message a).map (Assembly.capped limit) := by
  rw [takeMessage_eq, takeMessage_eq]
  rw [processedIn] at room
  cases seen : inspected request message with
  | error fault => rfl
  | ok found =>
      obtain ⟨records, fault⟩ := found
      simp only [seen] at room ⊢
      rw [Assembly.processAll_room free room]
      cases Assembly.processAll records a <;> cases fault <;> rfl

theorem takeMessage_full (free : a.Free) (start : a.count ≤ limit)
    (full : limit < a.count + (processedIn request message a).length) :
    takeMessage request message (a.capped limit) = .error (.protocol (.tooManyRecords limit)) := by
  rw [takeMessage_eq]
  rw [processedIn] at full
  cases seen : inspected request message with
  | error fault =>
      simp only [seen, List.length_nil] at full
      omega
  | ok found =>
      obtain ⟨records, fault⟩ := found
      simp only [seen] at full ⊢
      obtain ⟨b, refused⟩ := Assembly.processAll_full free start full
      rw [refused]

end Message

variable {σ : Type} [ReadStream σ]

/-- The answer records that are processed on the way through the messages of a stream. -/
def processedFrom (request : TransferRequest) : (rounds : Nat) → Assembly → σ → List Record
  | 0, _, _ => []
  | rounds + 1, a, s =>
    if a.isFinished then []
    else match Framing.read s with
      | .ok (some message) s =>
        processedIn request message a ++ match takeMessage request message a with
          | .ok b => processedFrom request rounds b s
          | .error _ => []
      | _ => []

section Messages

variable {request : TransferRequest} {rounds limit : Nat} {a b : Assembly} {s s' : σ}

theorem takeMessages_free (free : a.Free) (h : takeMessages request rounds a s = .ok b s') :
    b.count = a.count + (processedFrom request rounds a s).length := by
  induction rounds generalizing a s with
  | zero =>
      obtain ⟨rfl, -⟩ := EStateM.Result.ok.inj h
      rfl
  | succ rounds ih =>
      rw [processedFrom]
      rcases takeMessages_succ h with
        ⟨finished, rfl, -⟩ | ⟨running, ⟨ended, rfl⟩ | ⟨message, middle, next, got, taken, more⟩⟩
      · rw [if_pos finished]
        rfl
      · rw [if_neg running, ended]
        rfl
      · obtain ⟨free, count⟩ := takeMessage_free free taken
        rw [if_neg running, got]
        simp only [taken, List.length_append]
        rw [ih free more, count, Nat.add_assoc]

theorem takeMessages_room (free : a.Free)
    (room : a.count + (processedFrom request rounds a s).length ≤ limit) :
    takeMessages request rounds (a.capped limit) s = match takeMessages request rounds a s with
      | .ok b s => .ok (b.capped limit) s
      | .error fault s => .error fault s := by
  induction rounds generalizing a s with
  | zero => rfl
  | succ rounds ih =>
      by_cases finished : a.isFinished
      · rw [takeMessages_finished finished, takeMessages_finished (a := a.capped limit) finished]
      · rw [processedFrom, if_neg finished] at room
        cases got : Framing.read s with
        | error e s' =>
            rw [takeMessages_failed finished got,
              takeMessages_failed (a := a.capped limit) finished got]
        | ok found middle =>
            cases found with
            | none =>
                rw [takeMessages_end finished got,
                  takeMessages_end (a := a.capped limit) finished got]
            | some message =>
                rw [takeMessages_message finished got,
                  takeMessages_message (a := a.capped limit) finished got]
                simp only [got, List.length_append] at room
                rw [takeMessage_room free (by omega)]
                cases taken : takeMessage request message a with
                | error fault => rfl
                | ok b =>
                    obtain ⟨free, count⟩ := takeMessage_free free taken
                    simp only [taken] at room
                    exact ih free (by omega)

theorem takeMessages_full (free : a.Free) (start : a.count ≤ limit)
    (full : limit < a.count + (processedFrom request rounds a s).length) :
    ∃ s', takeMessages request rounds (a.capped limit) s =
      .error (.protocol (.tooManyRecords limit)) s' := by
  induction rounds generalizing a s with
  | zero => exact absurd full (Nat.not_lt.mpr start)
  | succ rounds ih =>
      rw [processedFrom] at full
      by_cases finished : a.isFinished
      · rw [if_pos finished] at full
        exact absurd full (Nat.not_lt.mpr start)
      · rw [if_neg finished] at full
        split at full
        · rename_i message middle got
          rw [takeMessages_message (a := a.capped limit) finished got]
          rw [List.length_append] at full
          by_cases here : limit < a.count + (processedIn request message a).length
          · exact ⟨middle, by rw [takeMessage_full free start here]⟩
          · have room := Nat.le_of_not_lt here
            rw [takeMessage_room free room]
            cases taken : takeMessage request message a with
            | error fault =>
                simp only [taken, List.length_nil] at full
                omega
            | ok b =>
                obtain ⟨free, count⟩ := takeMessage_free free taken
                simp only [taken] at full
                exact ih free (by omega) (by omega)
        · exact absurd full (Nat.not_lt.mpr start)

end Messages

/-- What a consumer without a limit begins with. -/
def blank (request : TransferRequest) : Assembly := { expectation := expectation {} request }

theorem free_blank (request : TransferRequest) : (blank request).Free := ⟨nofun, rfl⟩

/-- The answer records that are processed without a limit before the transfer ends, the one that it
fails at included. A transfer that finds another one in progress processes none. -/
def processed {τ : Type} (request : TransferRequest) (server : Secondary τ) (s : σ) : List Record :=
  if server.sessions.isActive request.origin then []
  else processedFrom request (ReadStream.available s + 1) (blank request) s

section Transfer

variable {config : TransferConfig} {request : TransferRequest} {limit : Nat} {s : σ}

theorem receive_blank (config : TransferConfig) (request : TransferRequest) (s : σ) :
    receive { config with maxTransferRecords := none } request s =
      conclude (takeMessages request (ReadStream.available s + 1) (blank request) s) :=
  receive_eq_conclude _ request s

theorem receive_capped (config : TransferConfig) (request : TransferRequest) (s : σ) :
    receive { config with maxTransferRecords := some limit } request s = conclude
      (takeMessages request (ReadStream.available s + 1) ((blank request).capped limit) s) :=
  receive_eq_conclude _ request s

theorem receive_room
    (room : (processedFrom request (ReadStream.available s + 1) (blank request) s).length ≤ limit) :
    receive { config with maxTransferRecords := some limit } request s =
      receive { config with maxTransferRecords := none } request s := by
  have few : (blank request).count +
      (processedFrom request (ReadStream.available s + 1) (blank request) s).length ≤ limit := by
    simpa [blank] using room
  have same := takeMessages_room (free_blank request) few
  rw [receive_capped, receive_blank, same]
  cases takeMessages request (ReadStream.available s + 1) (blank request) s <;> rfl

theorem receive_full (config : TransferConfig)
    (full : limit < (processedFrom request (ReadStream.available s + 1) (blank request) s).length) :
    ∃ s', receive { config with maxTransferRecords := some limit } request s =
      .error (.protocol (.tooManyRecords limit)) s' := by
  obtain ⟨s', refused⟩ := takeMessages_full (free_blank request) (Nat.zero_le limit)
    (by simpa [blank] using full)
  exact ⟨s', by rw [receive_capped, refused, conclude]⟩

theorem count_of_receive {received : Received} {count : Nat} {s' : σ}
    (h : receive { config with maxTransferRecords := none } request s =
      .ok (received, count) s') :
    count = (processedFrom request (ReadStream.available s + 1) (blank request) s).length := by
  obtain ⟨a, taken, -, rfl⟩ := receive_eq_ok h
  exact (takeMessages_free (free_blank request) taken).trans (Nat.zero_add _)

variable {τ : Type} [ZoneStorage τ]

/-- A transfer knows of its limits only what is received under them. -/
theorem transfer_congr {config' : TransferConfig} (server : Secondary τ)
    (same : receive config request s = receive config' request s) :
    transfer config request (server, s) = transfer config' request (server, s) := by
  simp only [transfer, transferInSession, same]

theorem transfer_of_error {server : Secondary τ} {fault : TransferFault} {s' : σ}
    (idle : ¬ server.sessions.isActive request.origin)
    (failed : receive config request s = .error fault s') :
    ∃ sessions, transfer config request (server, s) =
      .error ⟨request.origin, .consume, fault⟩ ({ store := server.store, sessions }, s') := by
  rw [transfer, transferInSession]
  simp only [begin?_eq idle, failed]
  exact ⟨_, rfl⟩

theorem transfer_room {server : Secondary τ} (room : (processed request server s).length ≤ limit) :
    transfer { config with maxTransferRecords := some limit } request (server, s) =
      transfer { config with maxTransferRecords := none } request (server, s) := by
  rw [processed] at room
  split at room
  · rename_i busy
    simp [transfer, Sessions.begin?, busy]
  · exact transfer_congr server (receive_room room)

theorem transfer_full (config : TransferConfig) {server : Secondary τ}
    (full : limit < (processed request server s).length) :
    ∃ server' s', transfer { config with maxTransferRecords := some limit } request (server, s) =
        .error ⟨request.origin, .consume, .protocol (.tooManyRecords limit)⟩ (server', s') ∧
      server'.store = server.store := by
  rw [processed] at full
  split at full
  · exact absurd full (Nat.not_lt_zero limit)
  · rename_i idle
    obtain ⟨s', refused⟩ := receive_full config full
    obtain ⟨sessions, failed⟩ := transfer_of_error idle refused
    exact ⟨_, s', failed, rfl⟩

/-- Of a limit nothing is noticed as long as no more records are processed without it. Otherwise it
ends the transfer, and nothing is committed. So a transfer that succeeds has kept to it. -/
theorem limit_only_stops (config : TransferConfig) (request : TransferRequest)
    (server : Secondary τ) (s : σ) (limit : Nat) :
    let unlimited := { config with maxTransferRecords := none }
    let limited := { config with maxTransferRecords := some limit }
    let n := (processed request server s).length
    (n ≤ limit →
      transfer limited request (server, s) = transfer unlimited request (server, s)) ∧
    (limit < n → ∃ server' s', transfer limited request (server, s) =
        .error ⟨request.origin, .consume, .protocol (.tooManyRecords limit)⟩ (server', s') ∧
      server'.store = server.store) ∧
    ∀ outcome server' s', transfer limited request (server, s) = .ok outcome (server', s') →
      n ≤ limit ∧ ∀ serial token type records,
        outcome = .committed serial token type records → records = n := by
  intro unlimited limited n
  refine ⟨transfer_room, transfer_full config, ?_⟩
  intro outcome server' s' done
  have few : n ≤ limit := by
    by_contra many
    obtain ⟨_, _, failed, -⟩ := transfer_full config (Nat.lt_of_not_le many)
    rw [failed] at done
    cases done
  refine ⟨few, ?_⟩
  rintro serial token type records rfl
  rw [transfer_room few] at done
  have idle : ¬ server.sessions.isActive request.origin := by
    intro busy
    simp [transfer, Sessions.begin?, busy] at done
  obtain ⟨received, count, receives, commits⟩ := transfer_eq_ok done
  have all : processed request server s = _ := if_neg idle
  rw [← (commit_eq_committed commits).2.1, count_of_receive receives, ← all]

end Transfer

end Secondary
end ZoneSync
