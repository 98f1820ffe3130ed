import ZoneSync.Proofs.Transfer.Batching
import ZoneSync.Transfer.Primary

/-!
What answering a request does to the stream, as a list of calls that does not depend on the stream.
A step of the outbox makes its calls one after the other until one of them fails, and what it comes
to otherwise is settled before the first of them.
-/

namespace ZoneSync

variable {σ α β : Type}

/-- A call by which a message goes out, or one that lets nothing linger. -/
inductive Dispatch where
  | message (octets : Octets) (short : octets.length ≤ 65535)
  | flush

namespace Dispatch

def make [WriteStream σ] : Dispatch → StreamM σ Unit
  | message o _ => Framing.write o
  | flush => WriteStream.flush

def octets : Dispatch → Octets
  | message o _ => Framing.frame o
  | flush => []

theorem delivers [WriteStream σ] {Has : σ → Octets → Prop} (fallible : Fallible Has)
    {got : Octets} (calls : List Dispatch) :
    Delivers Has got (calls.forM make) (calls.flatMap octets) := by
  induction calls generalizing got with
  | nil => exact delivers_pure
  | cons call later ih =>
      rw [List.flatMap_cons]
      refine Delivers.seq (x := call.make) ?_ ih
      cases call with
      | message o short => exact Framing.delivers_write fallible short
      | flush => exact delivers_flush fallible

end Dispatch

/-- The calls to make on a stream, and what to come to when they are made. -/
structure Errand (α : Type) where
  calls : List Dispatch
  told : Except TransferFault α

namespace Errand

def octets (x : Errand α) : Octets := x.calls.flatMap Dispatch.octets

def run [WriteStream σ] (x : Errand α) : EStateM TransferFault σ α := fun s =>
  match (x.calls.forM Dispatch.make : StreamM σ Unit) s with
  | .error e s => .error (.stream e) s
  | .ok () s =>
    match x.told with
    | .ok a => .ok a s
    | .error e => .error e s

/-- The errand, and behind it another one that is chosen by what it comes to. -/
def andThen (x : Errand α) (f : α → Errand β) : Errand β :=
  match x.told with
  | .ok a => ⟨x.calls ++ (f a).calls, (f a).told⟩
  | .error e => ⟨x.calls, .error e⟩

variable [WriteStream σ]

theorem run_andThen (x : Errand α) (f : α → Errand β) :
    ((x.andThen f).run : EStateM TransferFault σ β) = x.run >>= fun a => (f a).run := by
  obtain ⟨calls, told⟩ := x
  funext s
  cases told with
  | error e =>
      change run ⟨calls, .error e⟩ s = EStateM.bind _ _ s
      simp only [run, EStateM.bind]
      cases (calls.forM Dispatch.make : StreamM σ Unit) s <;> rfl
  | ok a =>
      have calls_append : ((calls ++ (f a).calls).forM Dispatch.make : StreamM σ Unit) =
          calls.forM Dispatch.make >>= fun _ => (f a).calls.forM Dispatch.make :=
        List.forM_append
      change run ⟨calls ++ (f a).calls, (f a).told⟩ s = EStateM.bind _ _ s
      simp only [run, EStateM.bind, calls_append]
      cases made : (calls.forM Dispatch.make : StreamM σ Unit) s with
      | error e middle => rw [bind_of_error made]
      | ok _ middle => rw [bind_of_ok made]

/-- The errand is run to its end, or a call fails and ends it. -/
theorem run_cases {Has : σ → Octets → Prop} (fallible : Fallible Has) (x : Errand α) {s : σ}
    {got : Octets} (has : Has s got) :
    (∃ s', Has s' (got ++ x.octets) ∧
      ((∃ a, x.told = .ok a ∧ x.run s = .ok a s') ∨
        ∃ e, x.told = .error e ∧ x.run s = .error e s')) ∨
    ∃ e s' part, x.run s = .error (.stream e) s' ∧ part <+: x.octets ∧
      BrokenAt Has (got ++ part) s' := by
  rcases Dispatch.delivers fallible x.calls s has with
    ⟨s', made, has⟩ | ⟨e, s', part, failed, early, broken⟩
  · refine .inl ⟨s', has, ?_⟩
    cases told : x.told with
    | ok a => exact .inl ⟨a, rfl, by simp only [run, made, told]⟩
    | error e => exact .inr ⟨e, rfl, by simp only [run, made, told]⟩
  · exact .inr ⟨e, s', part, by simp only [run, failed], early, broken⟩

end Errand

namespace Outbox

/-- The outbox without its stream. -/
def bare (o : Outbox σ) : Outbox Unit := { o with stream := () }

def on (o : Outbox Unit) (stream : σ) : Outbox σ := { o with stream }

/-- A step of an outbox as a step of its stream, which hands out what the outbox has become. -/
def through (x : OutboxM σ α) (o : Outbox Unit) : EStateM TransferFault σ (α × Outbox Unit) :=
  fun s =>
    match x (o.on s) with
    | .ok a o => .ok (a, o.bare) o.stream
    | .error e o => .error e o.stream

theorem through_bind (x : OutboxM σ α) (f : α → OutboxM σ β) (o : Outbox Unit) :
    through (x >>= f) o = through x o >>= fun p => through (f p.1) p.2 := by
  funext s
  change through (EStateM.bind x f) o s = EStateM.bind _ _ s
  simp only [through, EStateM.bind]
  cases x (o.on s) <;> rfl

theorem through_of_ok {x : OutboxM σ α} {o : Outbox Unit} {o' : Outbox σ} {s : σ} {a : α}
    (h : x (o.on s) = .ok a o') : through x o s = .ok (a, o'.bare) o'.stream := by
  rw [through, h]

theorem through_of_error {x : OutboxM σ α} {o : Outbox Unit} {o' : Outbox σ} {s : σ}
    {e : TransferFault} (h : x (o.on s) = .error e o') : through x o s = .error e o'.stream := by
  rw [through, h]

/-- On whatever stream, the step runs one errand. -/
def Runs (x : ∀ (σ : Type) [WriteStream σ], OutboxM σ α) (o : Outbox Unit) : Prop :=
  ∃ errand : Errand (α × Outbox Unit), ∀ (σ : Type) [WriteStream σ], through (x σ) o = errand.run

theorem Runs.bind {x : ∀ (σ : Type) [WriteStream σ], OutboxM σ α}
    {f : ∀ (σ : Type) [WriteStream σ], α → OutboxM σ β} {o : Outbox Unit} (hx : Runs x o)
    (hf : ∀ a o, Runs (fun σ _ => f σ a) o) : Runs (fun σ _ => x σ >>= f σ) o := by
  obtain ⟨errand, same⟩ := hx
  have later (p : α × Outbox Unit) := hf p.1 p.2
  refine ⟨errand.andThen fun p => (later p).choose, fun σ _ => ?_⟩
  rw [through_bind, same, Errand.run_andThen]
  exact congrArg (errand.run >>= ·) (funext fun p => (later p).choose_spec σ)

theorem runs_congr {x y : ∀ (σ : Type) [WriteStream σ], OutboxM σ α} {o o' : Outbox Unit}
    (same : ∀ (σ : Type) [WriteStream σ] (s : σ), x σ (o.on s) = y σ (o'.on s)) (h : Runs y o') :
    Runs x o := by
  obtain ⟨errand, runs⟩ := h
  refine ⟨errand, fun σ _ => ?_⟩
  rw [← runs]
  funext s
  rw [through, same, through]

theorem runs_pure (a : α) (o : Outbox Unit) : Runs (fun σ _ => (pure a : OutboxM σ α)) o :=
  ⟨⟨[], .ok (a, o)⟩, fun _ _ => rfl⟩

theorem runs_throw (e : TransferFault) (o : Outbox Unit) :
    Runs (fun σ _ => (throw e : OutboxM σ α)) o :=
  ⟨⟨[], .error e⟩, fun _ _ => rfl⟩

theorem runs_make (call : Dispatch) (o : Outbox Unit) :
    Runs (fun σ _ => (onStream call.make : OutboxM σ Unit)) o := by
  refine ⟨⟨[call], .ok ((), o)⟩, fun σ _ => funext fun s => ?_⟩
  have single : ([call].forM Dispatch.make : StreamM σ Unit) s =
      (call.make : StreamM σ Unit) s := by
    change EStateM.bind _ _ s = _
    rw [EStateM.bind]
    cases (call.make : StreamM σ Unit) s <;> rfl
  rw [Errand.run, single]
  cases made : (call.make : StreamM σ Unit) s with
  | ok _ s' =>
      have below : onStream call.make (o.on s) = .ok () (o.on s') := by
        rw [onStream, show (o.on s).stream = s from rfl, made]
        rfl
      exact through_of_ok below
  | error e s' =>
      have below : onStream call.make (o.on s) = .error (.stream e) (o.on s') := by
        rw [onStream, show (o.on s).stream = s from rfl, made]
        rfl
      exact through_of_error below

theorem runs_fillWith (pushed : Except PushError MessageBuilder) (o : Outbox Unit) :
    Runs (fun σ _ => (fillWith pushed : OutboxM σ Unit)) o := by
  cases pushed with
  | ok b => exact ⟨⟨[], .ok ((), { o with filling := some b })⟩, fun _ _ => rfl⟩
  | error e => exact ⟨⟨[], .error (.compose e)⟩, fun _ _ => rfl⟩

theorem runs_builder (o : Outbox Unit) :
    Runs (fun σ _ => (builder : OutboxM σ MessageBuilder)) o := by
  cases filling : o.filling with
  | some b =>
      refine ⟨⟨[], .ok (b, o)⟩, fun σ _ => funext fun s => ?_⟩
      have held : (o.on s).filling = some b := filling
      exact through_of_ok (builder_of_filling held)
  | none =>
      obtain ⟨b, new, -⟩ := MessageBuilder.exists_opened o.header o.question
      refine ⟨⟨[], .ok (b, { o with filling := some b, question := none })⟩, fun σ _ => ?_⟩
      funext s
      have idle : (o.on s).filling = none := filling
      exact through_of_ok (builder_of_idle idle new)

theorem runs_send (o : Outbox Unit) : Runs (fun σ _ => (send : OutboxM σ Unit)) o := by
  cases filling : o.filling with
  | none =>
      refine runs_congr (fun σ _ s => ?_) (runs_pure () o)
      have idle : (o.on s).filling = none := filling
      rw [send, get_bind, idle]
  | some b =>
      have started (σ : Type) [WriteStream σ] (s : σ) : send (o.on s) =
          (onStream (Framing.write b.finish) >>= fun _ => modify fun o => { o with
            messages := o.messages + 1
            octets := o.octets + (b.finish.length + 2) })
          (on { o with filling := none } s) := by
        have held : (o.on s).filling = some b := filling
        rw [send, get_bind, held]
        rfl
      by_cases short : b.finish.length ≤ 65535
      · refine runs_congr started ((runs_make (.message b.finish short) _).bind fun _ o => ?_)
        exact ⟨⟨[], .ok ((), { o with
          messages := o.messages + 1
          octets := o.octets + (b.finish.length + 2) })⟩, fun _ _ => rfl⟩
      · refine runs_congr (fun σ _ s => (started σ s).trans (bind_of_error ?_))
          (runs_throw (.stream .limitExceeded) { o with filling := none })
        have long : b.finish.length > 65535 := Nat.lt_of_not_le short
        rw [onStream, Framing.write, if_pos long]
        rfl

theorem runs_sendIfFull (o : Outbox Unit) :
    Runs (fun σ _ => (sendIfFull : OutboxM σ Unit)) o := by
  cases filling : o.filling with
  | none =>
      refine runs_congr (fun σ _ s => ?_) (runs_pure () o)
      have idle : (o.on s).filling = none := filling
      rw [sendIfFull, get_bind, idle]
  | some b =>
      have held (σ : Type) (s : σ) : (o.on s).filling = some b := filling
      by_cases full : b.counts.answer ≥ max o.recordLimit 1
      · refine runs_congr (fun σ _ s => ?_) (runs_send o)
        rw [sendIfFull, get_bind, held]
        exact congrFun (if_pos full) (o.on s)
      · refine runs_congr (fun σ _ s => ?_) (runs_pure () o)
        rw [sendIfFull, get_bind, held]
        exact congrFun (if_neg full) (o.on s)

theorem runs_placeWithin (limit : Nat) (r : Record) (o : Outbox Unit) :
    Runs (fun σ _ => (placeWithin limit r : OutboxM σ Unit)) o := by
  refine (runs_builder o).bind fun b o => ?_
  cases pushed : b.pushAnswerWithin limit r with
  | ok b => exact runs_fillWith _ o
  | error e =>
      cases e with
      | shortBuf =>
          by_cases alone : b.counts.answer = 0
          · simp only [if_pos alone]
            exact runs_fillWith _ o
          · simp only [if_neg alone]
            refine (runs_send o).bind fun _ o => (runs_builder o).bind fun b o => ?_
            cases b.pushAnswerWithin limit r with
            | ok b => exact runs_fillWith _ o
            | error e => exact runs_fillWith _ o
      | countOverflow => exact runs_throw _ o
      | sectionOrder => exact runs_throw _ o

theorem runs_push (r : Record) (o : Outbox Unit) :
    Runs (fun σ _ => (push r : OutboxM σ Unit)) o := by
  refine (runs_sendIfFull o).bind fun _ o => ?_
  refine Runs.bind (runs_congr (fun _ _ _ => rfl) (runs_placeWithin o.sizeLimit r o)) ?_
  exact fun _ o => ⟨⟨[], .ok ((), { o with records := o.records + 1 })⟩, fun _ _ => rfl⟩

theorem runs_pushAll (records : List Record) (o : Outbox Unit) :
    Runs (fun σ _ => (records.forM push : OutboxM σ Unit)) o := by
  induction records generalizing o with
  | nil => exact runs_pure () o
  | cons r later ih => exact (runs_push r o).bind fun _ o => ih o

theorem runs_finish (o : Outbox Unit) : Runs (fun σ _ => (finish : OutboxM σ Unit)) o := by
  by_cases due : o.filling.isSome ∨ o.messages = 0
  · refine runs_congr (fun σ _ s => ?_)
      ((runs_builder o).bind fun _ o => (runs_send o).bind fun _ o => runs_make .flush o)
    have due' : (o.on s).filling.isSome ∨ (o.on s).messages = 0 := due
    rw [finish, get_bind, if_pos (by simpa using due')]
    rfl
  · refine runs_congr (fun σ _ s => ?_) (runs_make .flush o)
    have idle : ¬ ((o.on s).filling.isSome ∨ (o.on s).messages = 0) := due
    rw [finish, get_bind, if_neg (by simpa using idle)]
    rfl

end Outbox

namespace Primary

variable {τ : Type} [ZoneStorage τ] (store : τ) (config : TransferConfig)

theorem runs_sendAnswer (origin : Name) (p : AnswerPlan) (o : Outbox Unit) :
    Outbox.Runs (fun σ _ => (sendAnswer store config origin p : Outbox.OutboxM σ Unit)) o := by
  cases sent : answerRecords store config origin p with
  | ok records =>
      refine Outbox.runs_congr (fun σ _ s => ?_)
        ((Outbox.runs_pushAll records o).bind fun _ o => Outbox.runs_finish o)
      rw [sendAnswer, sent]
  | error e =>
      refine Outbox.runs_congr (fun σ _ s => ?_) (Outbox.runs_throw (.storage e) o)
      rw [sendAnswer, sent]

/-- A request that can be answered is an errand, whatever the stream. -/
theorem serve_runs {request : TransferRequest} {p : AnswerPlan}
    (planned : plan store request = .ok p) :
    ∃ errand : Errand Stats, ∀ (σ : Type) [WriteStream σ],
      (serve store config request : EStateM TransferError σ Stats) =
        errand.run.adaptExcept (TransferError.mk request.origin .produce) := by
  let o : Outbox Unit :=
    { stream := (), header := answerHeader request, question := some request.question,
      sizeLimit := config.maxMessageSize, recordLimit := config.maxRecordsPerMessage }
  obtain ⟨errand, runs⟩ := runs_sendAnswer store config request.origin p o
  refine ⟨errand.andThen fun done => ⟨[], .ok ⟨p.negotiation.plan, p.version.serial,
    done.2.messages, done.2.records, done.2.octets⟩⟩, fun σ _ => funext fun s => ?_⟩
  rw [Errand.run_andThen, ← runs, EStateM.adaptExcept]
  let opened : Outbox σ := { o with stream := s }
  cases sent : sendAnswer store config request.origin p opened with
  | ok _ left =>
      rw [bind_of_ok (Outbox.through_of_ok (o := o) sent), serve, planned]
      simp only [opened, o] at sent
      simp only [sent]
      rfl
  | error e left =>
      rw [bind_of_error (Outbox.through_of_error (o := o) sent), serve, planned]
      simp only [opened, o] at sent
      simp only [sent]

end Primary
end ZoneSync
