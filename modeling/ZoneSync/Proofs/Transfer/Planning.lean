import ZoneSync.Proofs.Serial
import ZoneSync.Transfer.Primary

/-!
What a plan of the primary rests on: the present version of the zone, the serial that the request
asks from, and the diffs that the store has since then.
-/

namespace ZoneSync

section Negotiate

variable (client serial : Serial) (available : Bool)

/-- The decision by the number of steps from the secondary to the primary. -/
theorem negotiate_eq :
    negotiate (some client) serial available =
      if client.distance serial = 0 then ⟨.upToDate, none⟩
      else if client.distance serial < 2 ^ 31 then
        if available then ⟨.ixfr, none⟩ else ⟨.axfr, some .deltaUnavailable⟩
      else if client.distance serial = 2 ^ 31 then ⟨.axfr, some .serialsIncomparable⟩
      else ⟨.axfr, some .secondaryNotOlder⟩ := by
  rw [negotiate]
  by_cases same : client = serial
  · rw [if_pos same, if_pos (Serial.distance_eq_zero.mpr same)]
  · have forth : client.distance serial ≠ 0 := mt Serial.distance_eq_zero.mp same
    rw [if_neg same, if_neg forth]
    rcases Nat.lt_trichotomy (client.distance serial) (2 ^ 31) with near | opposite | far
    · have not_older : ¬ serial.less client := by rw [Serial.less_iff_far]; omega
      have newer : serial.greater client := Serial.greater_iff.mpr ⟨by omega, near⟩
      simp only [not_older, newer, near, if_true, Bool.not_true]
      cases available <;> rfl
    · have not_older : ¬ serial.less client := by rw [Serial.less_iff_far]; omega
      have not_newer : ¬ serial.greater client := by rw [Serial.greater_iff]; omega
      simp [not_older, not_newer, opposite]
    · rw [if_pos (Serial.less_iff_far.mpr far), if_neg (by omega), if_neg (by omega)]

theorem negotiate_upToDate_iff :
    (negotiate (some client) serial available).plan = .upToDate ↔ client = serial := by
  rw [negotiate_eq, ← Serial.distance_eq_zero]
  split_ifs <;> simp_all

theorem negotiate_ixfr_iff :
    (negotiate (some client) serial available).plan = .ixfr ↔
      serial.greater client ∧ available := by
  rw [negotiate_eq, Serial.greater_iff]
  split_ifs with level near known
  · exact iff_of_false nofun fun h => Nat.ne_of_gt h.1.1 level
  · exact iff_of_true rfl ⟨⟨Nat.pos_of_ne_zero level, near⟩, known⟩
  · exact iff_of_false nofun fun h => known h.2
  · exact iff_of_false nofun fun h => near h.1.2
  · exact iff_of_false nofun fun h => near h.1.2

/-- A whole zone is sent for a reason. -/
theorem negotiate_axfr_iff :
    (negotiate (some client) serial available).plan = .axfr ↔
      (negotiate (some client) serial available).fallback.isSome := by
  rw [negotiate_eq]
  split_ifs <;> simp

theorem fallback_ne_noLocalCopy :
    (negotiate (some client) serial available).fallback ≠ some .noLocalCopy := by
  rw [negotiate_eq]
  split_ifs <;> simp

theorem secondaryNotOlder_iff :
    (negotiate (some client) serial available).fallback = some .secondaryNotOlder ↔
      serial.less client := by
  rw [negotiate_eq, Serial.less_iff_far]
  split_ifs <;> simp <;> omega

theorem serialsIncomparable_iff :
    (negotiate (some client) serial available).fallback = some .serialsIncomparable ↔
      client.distance serial = 2 ^ 31 := by
  rw [negotiate_eq]
  split_ifs <;> simp <;> omega

theorem deltaUnavailable_iff :
    (negotiate (some client) serial available).fallback = some .deltaUnavailable ↔
      serial.greater client ∧ ¬ available := by
  rw [negotiate_eq, Serial.greater_iff]
  split_ifs with level near known
  · exact iff_of_false nofun fun h => Nat.ne_of_gt h.1.1 level
  · exact iff_of_false nofun fun h => h.2 known
  · exact iff_of_true rfl ⟨⟨Nat.pos_of_ne_zero level, near⟩, known⟩
  · exact iff_of_false nofun fun h => near h.1.2
  · exact iff_of_false nofun fun h => near h.1.2

end Negotiate

namespace Primary

variable {τ : Type} [ZoneStorage τ]

/-- The plans for a request, with what they rest on. -/
inductive Planned (store : τ) (request : TransferRequest) : AnswerPlan → Prop
  | whole {version : ZoneVersion}
      (current : ZoneStorage.current store request.origin = .ok version)
      (asks : askedSerial request = none) : Planned store request ⟨version, ⟨.axfr, none⟩, []⟩
  | since {version : ZoneVersion} {client : Serial} {diffs : Option (List ZoneDiff)}
      {negotiation : Negotiation}
      (current : ZoneStorage.current store request.origin = .ok version)
      (asks : askedSerial request = some client)
      (found : diffsSince store request.origin version client = .ok diffs)
      (decided : negotiation = negotiate (some client) version.serial diffs.isSome) :
      Planned store request
        ⟨version, negotiation, if negotiation.plan = .ixfr then diffs.getD [] else []⟩

theorem planned_of_plan {store : τ} {request : TransferRequest} {p : AnswerPlan}
    (h : plan store request = .ok p) : Planned store request p := by
  have planned : planFor store request = .ok p := by
    rw [plan] at h
    split at h
    · rename_i planned
      rw [planned, Except.ok.inj h]
    · simp at h
  rw [planFor] at planned
  cases current : ZoneStorage.current store request.origin with
  | error e => simp [current, bind, Except.bind] at planned
  | ok version =>
      cases asks : askedSerial request with
      | none =>
          simp only [current, asks, bind, Except.bind] at planned
          obtain rfl := Except.ok.inj planned
          exact .whole current asks
      | some client =>
          cases found : diffsSince store request.origin version client with
          | error e => simp [current, asks, found, bind, Except.bind] at planned
          | ok diffs =>
              simp only [current, asks, found, bind, Except.bind] at planned
              obtain rfl := Except.ok.inj planned
              exact .since current asks found rfl

theorem Planned.current {store : τ} {request : TransferRequest} {p : AnswerPlan}
    (h : Planned store request p) :
    ZoneStorage.current store request.origin = .ok p.version := by
  cases h with
  | whole current => exact current
  | since current => exact current

/-- Where the whole zone is sent, the diffs since its present serial were not asked for. -/
theorem Planned.asks_other {store : τ} {request : TransferRequest} {p : AnswerPlan}
    (h : Planned store request p) (full : p.negotiation.plan = .axfr) :
    askedSerial request ≠ some p.version.serial := by
  cases h with
  | whole _ asks => simp [asks]
  | since _ asks _ decided =>
      rw [asks]
      intro same
      rw [decided, (negotiate_upToDate_iff ..).mpr (Option.some.inj same)] at full
      cases full

/-- An incremental plan sends what the store has between the client's serial and a newer one. -/
theorem Planned.since_client {store : τ} {request : TransferRequest} {p : AnswerPlan}
    (h : Planned store request p) (incremental : p.negotiation.plan = .ixfr) :
    ∃ client, askedSerial request = some client ∧ client ≠ p.version.serial ∧
      ZoneDiff.isContiguous p.diffs client p.version.serial ∧
      ZoneStorage.delta store request.origin client p.version.serial = .ok (some p.diffs) := by
  cases h with
  | whole => simp at incremental
  | @since version client sent _ _ asks found decided =>
      dsimp only at incremental ⊢
      rw [decided] at incremental
      obtain ⟨newer, available⟩ := (negotiate_ixfr_iff ..).mp incremental
      obtain ⟨diffs, rfl⟩ := Option.isSome_iff_exists.mp available
      refine ⟨client, asks, Serial.ne_of_greater newer, ?_⟩
      rw [decided, if_pos incremental, Option.getD_some]
      rw [diffsSince, if_pos newer] at found
      cases kept : ZoneStorage.delta store request.origin client version.serial with
      | error e => simp [kept, Except.map] at found
      | ok chain =>
          simp only [kept, Except.map, Except.ok.injEq] at found
          obtain ⟨rfl, contiguous⟩ := Option.filter_eq_some_iff.mp found
          exact ⟨contiguous, rfl⟩

end Primary
end ZoneSync
