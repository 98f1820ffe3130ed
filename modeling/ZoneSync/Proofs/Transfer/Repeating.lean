import ZoneSync.Proofs.Stream.ReadAhead
import ZoneSync.Proofs.Transfer.Atomicity
import ZoneSync.Proofs.Transfer.Exclusion
import ZoneSync.Proofs.Transfer.Partition
import ZoneSync.Proofs.Zone.Committing

/-!
The same answer a second time. What is received is told by the course of the stream, so it is the
same as before. A full answer leads to the content that is already there. Diffs start from a serial
that the zone has left, so they are refused.
-/

namespace ZoneSync

variable {σ τ : Type}

/-- How many octets are to come. -/
def octetsIn (items : List Item) : Nat := items.countP Except.isOk

/-- The stream knows a bound on the octets that are to come. -/
def Bounded [ReadStream σ] (Left : σ → List Item → Prop) : Prop :=
  ∀ s items, Left s items → octetsIn items ≤ ReadStream.available s

theorem octetsIn_gathered {n missing : Nat} {items rest : List Item} {o : Octets}
    (h : gathered n missing items = (.ok o, rest)) : octetsIn items = missing + octetsIn rest := by
  induction missing generalizing items o with
  | zero =>
      obtain ⟨-, rfl⟩ := Prod.mk.inj h
      exact (Nat.zero_add _).symm
  | succ missing ih =>
      match items with
      | [] | .error e :: items => cases h
      | .ok b :: items =>
          rw [gathered] at h
          cases first : gathered n missing items with
          | mk result behind =>
              rw [first] at h
              obtain ⟨got, rfl⟩ := Prod.mk.inj h
              cases result with
              | error e => cases got
              | ok o =>
                  have fewer := ih first
                  rw [octetsIn] at fewer
                  rw [octetsIn, List.countP_cons_of_pos rfl, fewer]
                  exact Nat.add_right_comm missing _ 1

theorem InboundChannel.bounded : Bounded Left := by
  rintro ⟨arrivals, _⟩ items ⟨-, rfl⟩
  induction arrivals with
  | nil => exact Nat.le_refl 0
  | cons arrival later ih =>
      have here : octetsIn arrival.items ≤ arrival.size := by
        cases arrival with
        | chunk octets =>
            cases octets with
            | nil => exact Nat.le_refl 0
            | cons b o => exact List.countP_le_length.trans_eq (List.length_map _)
        | failure kind => cases kind <;> exact Nat.le_refl 0
      rw [List.flatMap_cons, octetsIn, List.countP_append]
      exact Nat.add_le_add here ih

namespace Framing

/-- What a call for the next message is told by the items to come, and those that it leaves. -/
def told (items : List Item) : Except StreamError (Option Octets) × List Item :=
  match gathered 2 2 items with
  | (.error .endOfStream, rest) => (.ok none, rest)
  | (.error e, rest) => (.error e, rest)
  | (.ok length, rest) =>
    let size := (Octets.toUInt16 length).toNat
    match gathered size size rest with
    | (.error e, rest) => (.error (e.toTruncated size 0), rest)
    | (.ok message, rest) => (.ok (some message), rest)

theorem octetsIn_told {items rest : List Item} {message : Octets}
    (h : told items = (.ok (some message), rest)) : octetsIn rest < octetsIn items := by
  rw [told] at h
  split at h
  · cases h
  · cases h
  · rename_i length behind first
    dsimp only at h
    split at h
    · cases h
    · rename_i found last second
      obtain ⟨-, rfl⟩ := Prod.mk.inj h
      have two := octetsIn_gathered first
      have others := octetsIn_gathered second
      omega

theorem shows_read [ReadStream σ] {Left : σ → List Item → Prop} (plays : Plays Left) {s : σ}
    {items : List Item} (left : Left s items) : Shows Left (read s) (told items) := by
  have first := shows_readOctets plays 2 left
  rw [told]
  generalize gathered 2 2 items = length at first
  obtain ⟨length, rest⟩ := length
  rcases first.cases with ⟨o, middle, got, rfl, left⟩ | ⟨e, s', failed, rfl, left⟩
  · have word : readUInt16 s = .ok (Octets.toUInt16 o) middle := bind_of_ok got
    have second := shows_readOctets plays (Octets.toUInt16 o).toNat left
    simp only [read, word]
    generalize gathered (Octets.toUInt16 o).toNat (Octets.toUInt16 o).toNat rest = message at second
    obtain ⟨message, rest⟩ := message
    rw [within, EStateM.adaptExcept]
    rcases second.cases with ⟨m, s', got, rfl, left⟩ | ⟨e, s', failed, rfl, left⟩
    · rw [got]
      exact ⟨rfl, left⟩
    · rw [failed]
      exact ⟨rfl, left⟩
  · have word : readUInt16 s = .error e s' := bind_of_error failed
    cases e with
    | endOfStream =>
        simp only [read, word]
        exact ⟨rfl, left⟩
    | _ =>
        simp only [read, word]
        exact ⟨rfl, left⟩

end Framing

namespace ZoneStore

variable {s s' : ZoneStore} {origin : Name} {token : Token}

theorem has_of_commitFull {soa : SoaRecord} {records : List Record}
    (h : commitFull origin soa.record records s = .ok token s') :
    ∃ z, s'.Has origin z ⟨token, soa, Generation.keepLast records⟩ := by
  obtain ⟨z, g, found, built, rfl, rfl⟩ := commitFull_eq_ok_iff.mp h
  obtain ⟨soa', same, -, -, rfl⟩ := Generation.build_eq_ok_iff.mp built
  obtain rfl := SoaRecord.record_inj.mp same
  obtain ⟨current, -⟩ := Secondary.find?_publish (z := { z with history := [] })
    (g := ⟨⟨s.nextToken⟩, soa, Generation.keepLast records⟩) found rfl s.limits (s.nextToken + 1)
  exact ⟨_, current, rfl⟩

/-- A content that was accepted is accepted again, whatever the zone holds. -/
theorem commitFull_again {soa : Record} {records : List Record}
    (h : commitFull origin soa records s = .ok token s') :
    ∃ token' s'', commitFull origin soa records s' = .ok token' s'' := by
  obtain ⟨z, g, found, built, rfl, rfl⟩ := commitFull_eq_ok_iff.mp h
  obtain ⟨soa', rfl, owner, fits, rfl⟩ := Generation.build_eq_ok_iff.mp built
  obtain ⟨current, -⟩ := Secondary.find?_publish (z := { z with history := [] })
    (g := ⟨⟨s.nextToken⟩, soa', Generation.keepLast records⟩) found rfl s.limits (s.nextToken + 1)
  exact ⟨_, _, commitFull_eq_ok_iff.mpr
    ⟨_, _, current, Generation.build_eq_ok_iff.mpr ⟨soa', rfl, owner, fits, rfl⟩, rfl, rfl⟩⟩

/-- Diffs from another serial than that of the zone are refused before a token is taken. -/
theorem Has.commitDelta_mismatch {z : Zone} {g : Generation} (h : s.Has origin z g)
    {expected : Serial} (other : g.serial ≠ expected) (diffs : List ZoneDiff) :
    commitDelta origin expected diffs s = .error (.serialMismatch expected g.serial) s := by
  rw [commitDelta]
  simp only [zone_eq_ok_iff.mpr h.found, h.content, if_pos other]

end ZoneStore

namespace Secondary

/-- What is taken in of the items to come, and those that are left. -/
def toldMessages (request : TransferRequest) (a : Assembly) (items : List Item) :
    Except TransferFault Assembly × List Item :=
  if a.isFinished then (.ok a, items)
  else match _ : Framing.told items with
    | (.error e, rest) => (.error (.stream e), rest)
    | (.ok none, rest) => (.ok a, rest)
    | (.ok (some message), rest) =>
      match takeMessage request message a with
      | .error fault => (.error fault, rest)
      | .ok b => toldMessages request b rest
termination_by octetsIn items
decreasing_by exact Framing.octetsIn_told ‹_›

variable [ReadStream σ] {Left : σ → List Item → Prop}

theorem shows_takeMessages (plays : Plays Left) {request : TransferRequest} {rounds : Nat}
    {a : Assembly} {s : σ} {items : List Item} (left : Left s items)
    (enough : octetsIn items < rounds) :
    Shows Left (takeMessages request rounds a s) (toldMessages request a items) := by
  induction rounds generalizing a s items with
  | zero => cases enough
  | succ rounds ih =>
      rw [toldMessages]
      by_cases finished : a.isFinished
      · rw [if_pos finished, takeMessages_finished finished]
        exact ⟨rfl, left⟩
      · rw [if_neg finished]
        have first := Framing.shows_read plays left
        split
        · rename_i e rest course
          rw [course] at first
          rcases first.cases with ⟨a, s', got, told, left⟩ | ⟨e', s', failed, told, left⟩
          · cases told
          · cases told
            rw [takeMessages_failed finished failed]
            exact ⟨rfl, left⟩
        · rename_i rest course
          rw [course] at first
          rcases first.cases with ⟨a, s', ended, told, left⟩ | ⟨e', s', failed, told, left⟩
          · cases told
            rw [takeMessages_end finished ended]
            exact ⟨rfl, left⟩
          · cases told
        · rename_i message rest course
          have fewer := Framing.octetsIn_told course
          rw [course] at first
          rcases first.cases with ⟨a, s', got, told, left⟩ | ⟨e', s', failed, told, left⟩
          · cases told
            rw [takeMessages_message finished got]
            cases takeMessage request message _ with
            | error fault => exact ⟨rfl, left⟩
            | ok b => exact ih left (by omega)
          · cases told

omit [ReadStream σ] in
theorem returned_conclude {Left' : τ → List Item → Prop}
    {x : EStateM.Result TransferFault σ Assembly} {y : EStateM.Result TransferFault τ Assembly}
    {told : Except TransferFault Assembly × List Item} (shown : Shows Left x told)
    (shown' : Shows Left' y told) : returned (conclude x) = returned (conclude y) := by
  obtain ⟨told, rest⟩ := told
  rcases shown.both shown' with ⟨a, s, t, rfl, rfl, -⟩ | ⟨fault, s, t, rfl, rfl, -⟩
  · rw [conclude, conclude]
    cases a.finish <;> rfl
  · rfl

/-- What is received is told by the items to come. -/
theorem returned_receive [ReadStream τ] {Left' : τ → List Item → Prop} (plays : Plays Left)
    (plays' : Plays Left') (bounded : Bounded Left) (bounded' : Bounded Left') {s : σ} {t : τ}
    {items : List Item} (left : Left s items) (left' : Left' t items) (config : TransferConfig)
    (request : TransferRequest) :
    returned (receive config request s) = returned (receive config request t) := by
  rw [receive_eq_conclude, receive_eq_conclude]
  have enough := Nat.lt_succ_of_le (bounded s items left)
  have enough' := Nat.lt_succ_of_le (bounded' t items left')
  exact returned_conclude (shows_takeMessages plays left enough)
    (shows_takeMessages plays' left' enough')

section Commit

variable {ρ : Type} [ZoneStorage ρ] {config : TransferConfig} {request : TransferRequest}

/-- What is received and cannot be committed fails the transfer. -/
theorem transfer_of_commit_error {server : Secondary ρ} {received : Received} {count : Nat}
    {s s' : σ} {e : StoreError} {store : ρ} (idle : ¬ server.sessions.isActive request.origin)
    (receives : receive config request s = .ok (received, count) s')
    (refuses : commit request.origin received count server.store = .error e store) :
    transfer config request (server, s) =
      .error ⟨request.origin, .commit, .storage e⟩ ({ server with store }, s') := by
  have begun := begin?_eq idle
  have ended := Sessions.finish_of_begin? begun
  rw [transfer, transferInSession]
  simp only [begun, ended, receives, refuses]

end Commit

/-- What the answer that a server has committed does to it a second time. -/
def Again (config : TransferConfig) (request : TransferRequest) (server : Secondary ZoneStore)
    (serial : Serial) (token : Token) (type : TransferType) (records : Nat) (s : σ) : Prop :=
  match type with
  | .axfr => ∃ soa content z, soa.serial = serial ∧
      server.store.Has request.origin z ⟨token, soa, content⟩ ∧
      ∃ server' token' z' s', transfer config request (server, s) =
          .ok (.committed serial token' .axfr records) (server', s') ∧
        server'.store.Has request.origin z' ⟨token', soa, content⟩
  | .ixfr => ∃ client, request.clientSerial = some client ∧ (serial ≠ client → ∃ s',
      transfer config request (server, s) =
        .error ⟨request.origin, .commit, .storage (.serialMismatch client serial)⟩ (server, s'))

section Again

variable {config : TransferConfig} {request : TransferRequest}
  {server server' : Secondary ZoneStore} {serial : Serial} {token : Token} {type : TransferType}
  {records : Nat} {s s' : σ}

/-- What a transfer has committed it commits again, or is refused, from every stream from which the
same is received. -/
theorem again_of_same [ReadStream τ]
    (committed : transfer config request (server, s) =
      .ok (.committed serial token type records) (server', s'))
    {t : τ} (same : returned (receive config request s) = returned (receive config request t)) :
    Again config request server' serial token type records t := by
  have kept : server'.sessions = server.sessions := by
    have kept := sessions_of_transfer config request server s
    rwa [behind, committed] at kept
  have idle : ¬ server'.sessions.isActive request.origin := by
    rw [kept]
    intro busy
    rw [transfer_of_active busy] at committed
    cases committed
  obtain ⟨received, count, receives, commits⟩ := transfer_eq_ok committed
  obtain ⟨t', receives'⟩ : ∃ t', receive config request t = .ok (received, count) t' := by
    rw [receives] at same
    cases second : receive config request t with
    | ok result t' =>
        rw [second] at same
        cases same
        exact ⟨t', rfl⟩
    | error fault t' =>
        rw [second] at same
        cases same
  obtain ⟨rfl, rfl, ⟨soa, content, rfl, rfl, full⟩ | ⟨start, diffs, rfl, rfl, delta⟩⟩ :=
    commit_eq_committed commits
  · obtain ⟨z, has⟩ := ZoneStore.has_of_commitFull full
    obtain ⟨token', after, repeated⟩ := ZoneStore.commitFull_again full
    obtain ⟨z', has'⟩ := ZoneStore.has_of_commitFull repeated
    have commits' : commit request.origin (.full soa content) count server'.store =
        .ok (.committed soa.serial token' .axfr count) after := bind_of_ok repeated
    obtain ⟨sessions, done⟩ := transfer_eq idle receives' commits'
    exact ⟨soa, _, z, rfl, has, _, token', z', t', done, has'⟩
  · obtain ⟨answers, answer, -⟩ := answer_of_receive receives
    obtain ⟨client, nonempty⟩ := delta_of_answer answer
    obtain ⟨-, z, z', g, -, found, content, -, reached, -⟩ :=
      commits_of_delta client nonempty delta
    have has : server'.store.Has request.origin z' g := ⟨found, content⟩
    refine ⟨start, client, fun other => ⟨t', ?_⟩⟩
    rw [← reached] at other ⊢
    have refuses : commit request.origin (.delta start diffs) count server'.store =
        .error (.serialMismatch start g.serial) server'.store :=
      bind_of_error (has.commitDelta_mismatch other diffs)
    exact transfer_of_commit_error idle receives' refuses

/-- A zone that has been replaced by an answer is replaced by the same content if that answer comes
again. Diffs that have brought a zone forward are refused then, and nothing changes. The answer may
come from the same stream, or from any other with the same octets ahead, in whatever portions. -/
theorem commit_repeated
    (committed : transfer config request (server, s) =
      .ok (.committed serial token type records) (server', s')) :
    Again config request server' serial token type records s ∧
      ∀ {τ : Type} [ReadStream τ] {Left : σ → List Item → Prop} {Left' : τ → List Item → Prop},
        Plays Left → Plays Left' → Bounded Left → Bounded Left' → ∀ {t : τ} {items : List Item},
        Left s items → Left' t items →
        Again config request server' serial token type records t := by
  refine ⟨again_of_same committed rfl, ?_⟩
  intro τ _ Left Left' plays plays' bounded bounded' t items left left'
  exact again_of_same committed
    (returned_receive plays plays' bounded bounded' left left' config request)

/-- A connection that brings octets in given portions. -/
def bringing (portions : List Octets) : InboundChannel := { arrivals := portions.map .chunk }

/-- An answer with a zone and one with a diff, at first in one piece, then octet by octet. -/
theorem commit_repeated_root :
    let server : Secondary ZoneStore := { store := rootStore }
    let asking : TransferRequest := .axfr 7 .root
    let zone := Framing.frame (responseOf asking
      [(rootSoa 10).record, rootAddress 2, (rootSoa 10).record])
    let diff := Framing.frame (responseOf rootRequest
      [(rootSoa 9).record, (rootSoa 10).record, (rootSoa 10).record])
    (∃ server' token c, transfer {} asking (server, bringing [zone]) =
        .ok (.committed ⟨10⟩ token .axfr 3) (server', c) ∧
      Again {} asking server' ⟨10⟩ token .axfr 3 (bringing (zone.map ([·])))) ∧
    ∃ server' token c, transfer {} rootRequest (server, bringing [diff]) =
        .ok (.committed ⟨10⟩ token .ixfr 3) (server', c) ∧
      ∃ c', transfer {} rootRequest (server', bringing (diff.map ([·]))) =
        .error ⟨.root, .commit, .storage (.serialMismatch ⟨9⟩ ⟨10⟩)⟩ (server', c') := by
  intro server asking zone diff
  have replaced : ∃ server' token c, transfer {} asking (server, bringing [zone]) =
      .ok (.committed ⟨10⟩ token .axfr 3) (server', c) := ⟨_, _, _, by cbv⟩
  have advanced : ∃ server' token c, transfer {} rootRequest (server, bringing [diff]) =
      .ok (.committed ⟨10⟩ token .ixfr 3) (server', c) := ⟨_, _, _, by cbv⟩
  obtain ⟨server₁, token₁, c₁, replaced⟩ := replaced
  obtain ⟨server₂, token₂, c₂, advanced⟩ := advanced
  refine ⟨⟨server₁, token₁, c₁, replaced, ?_⟩, server₂, token₂, c₂, advanced, ?_⟩
  · exact (commit_repeated replaced).2 InboundChannel.plays InboundChannel.plays
      InboundChannel.bounded InboundChannel.bounded ⟨rfl, rfl⟩ ⟨rfl, by cbv⟩
  · obtain ⟨client, known, refused⟩ := (commit_repeated advanced).2 InboundChannel.plays
      InboundChannel.plays InboundChannel.bounded InboundChannel.bounded
      (t := bringing (diff.map ([·]))) ⟨rfl, rfl⟩ ⟨rfl, by cbv⟩
    cases known
    exact refused (by decide)

end Again

end Secondary
end ZoneSync
