import ZoneSync.Deflate.Codec
import ZoneSync.Proofs.Stream.WriteBehind
import ZoneSync.Stream.Stack

/-!
Closed streams. Whatever came of closing a stream, it answers every operation from then on without
a look at the stream below, and stays as it is. The answer is that it is closed, with one exception:
where skipping is made of reads, none is made to skip nothing, and that succeeds.
-/

namespace ZoneSync

variable {δ η σ τ κ ρ ε α β : Type}

/-- An operation of a stream to read from. -/
inductive ReadOp where
  | read (n : Nat)
  | skip (n : Nat)
  | close

/-- An operation of a stream to write to. -/
inductive WriteOp where
  | write (o : Octets)
  | flush
  | close

/-- What an operation that succeeds returns. -/
inductive Returned where
  | octets (o : Octets)
  | number (n : Nat)
  | nothing

def ReadOp.perform [ReadStream σ] : ReadOp → StreamM σ Returned
  | read n => Returned.octets <$> ReadStream.read n
  | skip n => Returned.number <$> ReadStream.skip n
  | close => (fun _ => .nothing) <$> ReadStream.close

def WriteOp.perform [WriteStream σ] : WriteOp → StreamM σ Returned
  | write o => Returned.number <$> WriteStream.write o
  | flush => (fun _ => .nothing) <$> WriteStream.flush
  | close => (fun _ => .nothing) <$> WriteStream.close

/-- What the operations come to one after the other, whatever has failed before, and the state that
they leave. -/
def course (perform : κ → StreamM σ ρ) : List κ → σ → List (Except StreamError ρ) × σ
  | [], s => ([], s)
  | op :: later, s =>
    match perform op s with
    | .ok a s => (.ok a :: (course perform later s).1, (course perform later s).2)
    | .error e s => (.error e :: (course perform later s).1, (course perform later s).2)

/-- A result that leaves the state as it is. -/
def unmoved (s : σ) : Except ε α → EStateM.Result ε σ α
  | .ok a => .ok a s
  | .error e => .error e s

theorem map_of_ok {f : α → β} {step : EStateM ε σ α} {s s' : σ} {a : α} (h : step s = .ok a s') :
    (f <$> step) s = .ok (f a) s' := by
  change EStateM.map f step s = _
  rw [EStateM.map, h]

theorem map_of_error {f : α → β} {step : EStateM ε σ α} {s s' : σ} {e : ε}
    (h : step s = .error e s') : (f <$> step) s = .error e s' := by
  change EStateM.map f step s = _
  rw [EStateM.map, h]

/-- Every operation has an answer that is known beforehand, and leaves the state as it is. -/
def Inert (perform : κ → StreamM σ ρ) (answer : κ → Except StreamError ρ) (s : σ) : Prop :=
  ∀ op, perform op s = unmoved s (answer op)

theorem Inert.course_eq {perform : κ → StreamM σ ρ} {answer : κ → Except StreamError ρ} {s : σ}
    (h : Inert perform answer s) (ops : List κ) :
    course perform ops s = (ops.map answer, s) := by
  induction ops with
  | nil => rfl
  | cons op later ih =>
      rw [course, h op, List.map_cons]
      cases answer op with
      | ok a => simp only [unmoved, ih]
      | error e => simp only [unmoved, ih]

/-- What a closed stream answers. If it inherits the skipping that is made of reads, nothing is
wrong with skipping nothing. -/
def ReadOp.whenClosed (inherits : Bool) : ReadOp → Except StreamError Returned
  | skip 0 => if inherits then .ok (.number 0) else .error .closed
  | _ => .error .closed

abbrev ReadsClosed [ReadStream σ] (inherits : Bool) (s : σ) : Prop :=
  Inert ReadOp.perform (ReadOp.whenClosed inherits) s

abbrev WritesClosed [WriteStream σ] (s : σ) : Prop :=
  Inert WriteOp.perform (fun _ => .error .closed) s

section Inside

variable {wrap : τ → σ} {t : τ}

theorem behind_inside {outer : EStateM ε σ α} {step : EStateM ε τ α}
    (h : outer (wrap t) = stepInside wrap step t) :
    behind outer (wrap t) = wrap (behind step t) := by
  rw [behind, behind, h, stepInside]
  cases step t <;> rfl

theorem map_inside {outer : EStateM ε σ α} {step : EStateM ε τ α} (f : α → β)
    (h : outer (wrap t) = stepInside wrap step t) :
    (f <$> outer) (wrap t) = stepInside wrap (f <$> step) t := by
  change EStateM.map f outer (wrap t) = stepInside wrap (EStateM.map f step) t
  rw [EStateM.map, h, stepInside, stepInside, EStateM.map]
  cases step t <;> rfl

theorem Inert.inside {outer : κ → StreamM σ ρ} {inner : κ → StreamM τ ρ}
    {answer : κ → Except StreamError ρ} (h : Inert inner answer t)
    (same : ∀ op, outer op (wrap t) = stepInside wrap (inner op) t) :
    Inert outer answer (wrap t) := by
  intro op
  rw [same, stepInside, h op]
  cases answer op <;> rfl

/-- A stream that holds another one passes every operation on to it. -/
structure HoldsReader [ReadStream σ] [ReadStream τ] (wrap : τ → σ) : Prop where
  read : ∀ n t, ReadStream.read n (wrap t) = stepInside wrap (ReadStream.read n) t
  skip : ∀ n t, ReadStream.skip n (wrap t) = stepInside wrap (ReadStream.skip n) t
  close : ∀ t, ReadStream.close (wrap t) = stepInside wrap ReadStream.close t

structure HoldsWriter [WriteStream σ] [WriteStream τ] (wrap : τ → σ) : Prop where
  write : ∀ o t, WriteStream.write o (wrap t) = stepInside wrap (WriteStream.write o) t
  flush : ∀ t, WriteStream.flush (wrap t) = stepInside wrap WriteStream.flush t
  close : ∀ t, WriteStream.close (wrap t) = stepInside wrap WriteStream.close t

theorem HoldsReader.readsClosed [ReadStream σ] [ReadStream τ] (holds : HoldsReader wrap)
    {inherits : Bool} (h : ReadsClosed inherits (behind ReadStream.close t)) :
    ReadsClosed inherits (behind ReadStream.close (wrap t)) := by
  rw [behind_inside (holds.close t)]
  refine Inert.inside h fun op => ?_
  cases op with
  | read n => exact map_inside _ (holds.read n _)
  | skip n => exact map_inside _ (holds.skip n _)
  | close => exact map_inside _ (holds.close _)

theorem HoldsWriter.writesClosed [WriteStream σ] [WriteStream τ] (holds : HoldsWriter wrap)
    (h : WritesClosed (behind WriteStream.close t)) :
    WritesClosed (behind WriteStream.close (wrap t)) := by
  rw [behind_inside (holds.close t)]
  refine Inert.inside h fun op => ?_
  cases op with
  | write o => exact map_inside _ (holds.write o _)
  | flush => exact map_inside _ (holds.flush _)
  | close => exact map_inside _ (holds.close _)

end Inside

section Reading

variable [ReadStream σ] {s : σ}

/-- A stream with a way of its own to skip. -/
theorem readsClosed_of_skip (read : ∀ n, ReadStream.read n s = .error .closed s)
    (skip : ∀ n, ReadStream.skip n s = .error .closed s)
    (close : ReadStream.close s = .error .closed s) : ReadsClosed false s := by
  intro op
  cases op with
  | read n => exact map_of_error (read n)
  | skip n => cases n <;> exact map_of_error (skip _)
  | close => exact map_of_error close

/-- A stream that inherits the skipping that is made of reads. -/
theorem readsClosed_of_inherited
    (inherited : ∀ n, (ReadStream.skip n : StreamM σ Nat) = skipByReading ReadStream.read n)
    (read : ∀ n, ReadStream.read n s = .error .closed s)
    (close : ReadStream.close s = .error .closed s) : ReadsClosed true s := by
  intro op
  cases op with
  | read n => exact map_of_error (read n)
  | skip n =>
      rw [ReadOp.perform, inherited]
      cases n with
      | zero => rfl
      | succ n => exact map_of_error (by simp [skipByReading, skipByReading.go, read])
  | close => exact map_of_error close

end Reading

theorem writesClosed [WriteStream σ] {s : σ} (write : ∀ o, WriteStream.write o s = .error .closed s)
    (flush : WriteStream.flush s = .error .closed s)
    (close : WriteStream.close s = .error .closed s) : WritesClosed s := by
  intro op
  cases op with
  | write o => exact map_of_error (write o)
  | flush => exact map_of_error flush
  | close => exact map_of_error close

theorem Counting.isOpen_closing (step : StreamM σ Unit) (c : Counting σ) :
    (behind (closing step) c).isOpen = false := by
  cases opened : c.isOpen with
  | false => simp [behind, closing, opened]
  | true => cases done : step c.inner <;> simp [behind, closing, opened, done]

section Readers

variable [ReadStream σ]

theorem MemoryReader.readsClosed {r : MemoryReader} (closed : r.isOpen = false) :
    ReadsClosed false r := by
  apply readsClosed_of_skip <;>
    simp [ReadStream.read, ReadStream.skip, ReadStream.close, closed]

theorem MemoryReader.isOpen_close (r : MemoryReader) :
    (behind ReadStream.close r).isOpen = false := by
  cases opened : r.isOpen <;> simp [behind, ReadStream.close, opened]

theorem InboundChannel.readsClosed {c : InboundChannel} (closed : c.isOpen = false) :
    ReadsClosed true c := by
  apply readsClosed_of_inherited fun _ => rfl
  all_goals simp [ReadStream.read, ReadStream.close, closed]

theorem InboundChannel.isOpen_close (c : InboundChannel) :
    (behind ReadStream.close c).isOpen = false := by
  cases opened : c.isOpen <;> simp [behind, ReadStream.close, opened]

theorem Limited.readsClosed {l : Limited σ} (closed : l.isOpen = false) :
    ReadsClosed false l := by
  apply readsClosed_of_skip <;>
    simp [ReadStream.read, ReadStream.skip, ReadStream.close, closed]

theorem Limited.isOpen_close (l : Limited σ) : (behind ReadStream.close l).isOpen = false := by
  cases opened : l.isOpen <;> simp [behind, ReadStream.close, opened]

theorem Counting.readsClosed {c : Counting σ} (closed : c.isOpen = false) :
    ReadsClosed false c := by
  apply readsClosed_of_skip <;>
    simp [ReadStream.read, ReadStream.skip, ReadStream.close, counted, closing, closed]

theorem BufferedReader.readsClosed {b : BufferedReader σ} (closed : b.isOpen = false)
    (empty : b.held = []) : ReadsClosed true b := by
  obtain ⟨inner, capacity, _, _⟩ := b
  obtain rfl := closed
  obtain rfl := empty
  exact readsClosed_of_inherited (fun _ => rfl) (fun _ => rfl) rfl

theorem BufferedReader.isOpen_close (b : BufferedReader σ) :
    (behind ReadStream.close b).isOpen = false ∧ (behind ReadStream.close b).held = [] := by
  cases opened : b.isOpen with
  | false => simp [behind, ReadStream.close, opened]
  | true =>
      cases done : (ReadStream.close : StreamM σ Unit) b.inner <;>
        simp [behind, ReadStream.close, opened, done]

theorem ZlibReader.readsClosed [Decompressor δ] {z : ZlibReader δ σ} (closed : z.isOpen = false) :
    ReadsClosed true z := by
  apply readsClosed_of_inherited fun _ => rfl
  all_goals simp [ReadStream.read, ReadStream.close, closed]

theorem ZlibReader.isOpen_close [Decompressor δ] (z : ZlibReader δ σ) :
    (behind ReadStream.close z).isOpen = false := by
  cases opened : z.isOpen with
  | false => simp [behind, ReadStream.close, opened]
  | true =>
      cases done : (ReadStream.close : StreamM σ Unit) z.inner <;>
        simp [behind, ReadStream.close, opened, done]

end Readers

section Writers

variable [WriteStream σ]

theorem MemoryWriter.writesClosed {w : MemoryWriter} (closed : w.isOpen = false) :
    WritesClosed w := by
  apply ZoneSync.writesClosed <;>
    simp [WriteStream.write, WriteStream.flush, WriteStream.close, closed]

theorem MemoryWriter.isOpen_close (w : MemoryWriter) :
    (behind WriteStream.close w).isOpen = false := by
  cases opened : w.isOpen <;> simp [behind, WriteStream.close, opened]

theorem OutboundChannel.writesClosed {c : OutboundChannel} (closed : c.isOpen = false) :
    WritesClosed c := by
  apply ZoneSync.writesClosed <;>
    simp [WriteStream.write, WriteStream.flush, WriteStream.close, closed]

theorem OutboundChannel.isOpen_close (c : OutboundChannel) :
    (behind WriteStream.close c).isOpen = false := by
  cases opened : c.isOpen with
  | false => simp [behind, WriteStream.close, opened]
  | true => cases done : c.flushed <;> simp [behind, WriteStream.close, opened, done]

theorem Counting.writesClosed {c : Counting σ} (closed : c.isOpen = false) : WritesClosed c := by
  apply ZoneSync.writesClosed <;>
    simp [WriteStream.write, WriteStream.flush, WriteStream.close, counted, closing, closed]

theorem BufferedWriter.writesClosed {b : BufferedWriter σ} (closed : b.isOpen = false) :
    WritesClosed b := by
  apply ZoneSync.writesClosed <;>
    simp [WriteStream.write, WriteStream.flush, WriteStream.close, closed]

theorem BufferedWriter.isOpen_close (b : BufferedWriter σ) :
    (behind WriteStream.close b).isOpen = false := by
  cases opened : b.isOpen with
  | false => simp [behind, WriteStream.close, opened]
  | true =>
      cases passed : passOn b with
      | error e b' => simp [behind, WriteStream.close, opened, passed]
      | ok _ b' =>
          cases done : (WriteStream.close : StreamM σ Unit) b'.inner <;>
            simp [behind, WriteStream.close, opened, passed, done]

section Zlib

variable [Compressor η]

theorem ZlibWriter.writesClosed {z : ZlibWriter η σ} (closed : z.isOpen = false) :
    WritesClosed z := by
  apply ZoneSync.writesClosed <;>
    simp [WriteStream.write, WriteStream.flush, WriteStream.close, encoding, closed]

theorem ZlibWriter.isOpen_giveUp (z : ZlibWriter η σ) : z.giveUp.isOpen = false := by
  rw [giveUp]
  split <;> rfl

theorem ZlibWriter.isOpen_close (z : ZlibWriter η σ) :
    (behind WriteStream.close z).isOpen = false := by
  cases opened : z.isOpen with
  | false => simp [behind, WriteStream.close, opened]
  | true =>
      cases ended : Compressor.finish WriteStream.write (z.encoder, z.inner) with
      | error e s => simp [behind, WriteStream.close, opened, ended, isOpen_giveUp]
      | ok _ s =>
          cases done : (WriteStream.close : StreamM σ Unit) s.2 <;>
            simp [behind, WriteStream.close, opened, ended, done]

end Zlib

end Writers

section Connections

theorem Connection.readsClosed {c : Connection} (closed : c.isOpen = false) :
    ReadsClosed true c := by
  obtain ⟨_, _, _, _, _⟩ := c
  obtain rfl := closed
  exact readsClosed_of_inherited (fun _ => rfl) (fun _ => rfl) rfl

theorem Connection.writesClosed {c : Connection} (closed : c.isOpen = false) : WritesClosed c := by
  obtain ⟨_, _, _, _, _⟩ := c
  obtain rfl := closed
  exact ZoneSync.writesClosed (fun _ => rfl) rfl rfl

theorem Connection.isOpen_closeInbound (c : Connection) :
    (behind ReadStream.close c).isOpen = false := by
  have closes : ReadStream.close (c.afterInbound c.inbound) =
      stepInside c.afterInbound ReadStream.close c.inbound := rfl
  have behind_close := behind_inside closes
  exact (congrArg isOpen behind_close).trans c.inbound.isOpen_close

theorem Connection.isOpen_closeOutbound (c : Connection) :
    (behind WriteStream.close c).isOpen = false := by
  have closes : WriteStream.close (c.afterOutbound c.outbound) =
      stepInside c.afterOutbound WriteStream.close c.outbound := rfl
  have behind_close := behind_inside closes
  exact (congrArg isOpen behind_close).trans c.outbound.isOpen_close

end Connections

/-- The stream does not skip in a way of its own. -/
def ReadBase.inheritsSkip : ReadBase → Bool
  | memory _ => false
  | channel _ => true

def ReadLayer.inheritsSkip : ReadLayer δ σ → Bool
  | limited _ | counting _ => false
  | buffered _ | zlib _ => true

/-- The outermost layer decides, whatever is below it. -/
def ReadStack.inheritsSkip : (layers : Nat) → ReadStack δ layers → Bool
  | 0, s => ReadBase.inheritsSkip s
  | layers + 1, s => ReadLayer.inheritsSkip (σ := ReadStack δ layers) s

theorem ReadBase.readsClosed (s : ReadBase) :
    ReadsClosed s.inheritsSkip (behind ReadStream.close s) := by
  cases s with
  | memory r =>
      have holds : HoldsReader memory := ⟨fun _ _ => rfl, fun _ _ => rfl, fun _ => rfl⟩
      exact holds.readsClosed (MemoryReader.readsClosed r.isOpen_close)
  | channel c =>
      have holds : HoldsReader channel := ⟨fun _ _ => rfl, fun _ _ => rfl, fun _ => rfl⟩
      exact holds.readsClosed (InboundChannel.readsClosed c.isOpen_close)

theorem ReadLayer.readsClosed [Decompressor δ] [ReadStream σ] (s : ReadLayer δ σ) :
    ReadsClosed s.inheritsSkip (behind ReadStream.close s) := by
  cases s with
  | limited l =>
      have holds : HoldsReader (σ := ReadLayer δ σ) limited :=
        ⟨fun _ _ => rfl, fun _ _ => rfl, fun _ => rfl⟩
      exact holds.readsClosed (Limited.readsClosed l.isOpen_close)
  | counting c =>
      have holds : HoldsReader (σ := ReadLayer δ σ) counting :=
        ⟨fun _ _ => rfl, fun _ _ => rfl, fun _ => rfl⟩
      exact holds.readsClosed (Counting.readsClosed (c.isOpen_closing _))
  | buffered b =>
      have holds : HoldsReader (σ := ReadLayer δ σ) buffered :=
        ⟨fun _ _ => rfl, fun _ _ => rfl, fun _ => rfl⟩
      exact holds.readsClosed (BufferedReader.readsClosed b.isOpen_close.1 b.isOpen_close.2)
  | zlib z =>
      have holds : HoldsReader (σ := ReadLayer δ σ) zlib :=
        ⟨fun _ _ => rfl, fun _ _ => rfl, fun _ => rfl⟩
      exact holds.readsClosed (ZlibReader.readsClosed z.isOpen_close)

theorem ReadStack.readsClosed [Decompressor δ] : (layers : Nat) → (s : ReadStack δ layers) →
    ReadsClosed (inheritsSkip layers s) (behind ReadStream.close s)
  | 0, s => ReadBase.readsClosed s
  | layers + 1, s => ReadLayer.readsClosed (σ := ReadStack δ layers) s

theorem WriteBase.writesClosed (s : WriteBase) : WritesClosed (behind WriteStream.close s) := by
  cases s with
  | memory w =>
      have holds : HoldsWriter memory := ⟨fun _ _ => rfl, fun _ => rfl, fun _ => rfl⟩
      exact holds.writesClosed (MemoryWriter.writesClosed w.isOpen_close)
  | channel c =>
      have holds : HoldsWriter channel := ⟨fun _ _ => rfl, fun _ => rfl, fun _ => rfl⟩
      exact holds.writesClosed (OutboundChannel.writesClosed c.isOpen_close)

theorem WriteLayer.writesClosed [Compressor η] [WriteStream σ] (s : WriteLayer η σ) :
    WritesClosed (behind WriteStream.close s) := by
  cases s with
  | counting c =>
      have holds : HoldsWriter (σ := WriteLayer η σ) counting :=
        ⟨fun _ _ => rfl, fun _ => rfl, fun _ => rfl⟩
      exact holds.writesClosed (Counting.writesClosed (c.isOpen_closing _))
  | buffered b =>
      have holds : HoldsWriter (σ := WriteLayer η σ) buffered :=
        ⟨fun _ _ => rfl, fun _ => rfl, fun _ => rfl⟩
      exact holds.writesClosed (BufferedWriter.writesClosed b.isOpen_close)
  | zlib z =>
      have holds : HoldsWriter (σ := WriteLayer η σ) zlib :=
        ⟨fun _ _ => rfl, fun _ => rfl, fun _ => rfl⟩
      exact holds.writesClosed (ZlibWriter.writesClosed z.isOpen_close)

theorem WriteStack.writesClosed [Compressor η] : (layers : Nat) → (s : WriteStack η layers) →
    WritesClosed (behind WriteStream.close s)
  | 0, s => WriteBase.writesClosed s
  | layers + 1, s => WriteLayer.writesClosed (σ := WriteStack η layers) s

/-- Nothing but the inherited way to skip nothing keeps a stream from saying that it is closed. -/
theorem ReadOp.whenClosed_iff (inherits : Bool) (ops : List ReadOp) :
    (∀ op ∈ ops, op.whenClosed inherits = .error .closed) ↔ (inherits → .skip 0 ∉ ops) := by
  constructor
  · intro all inherited known
    have refused := all (.skip 0) known
    rw [whenClosed, if_pos inherited] at refused
    cases refused
  · intro none_skipped op known
    cases op with
    | read n => rfl
    | close => rfl
    | skip n =>
        cases n with
        | succ n => rfl
        | zero =>
            cases inherits with
            | false => rfl
            | true => exact absurd known (none_skipped rfl)

/-- A stream that was closed answers all later operations with the answer for a closed stream and
stays as it is: any stack, and any layer around a stream of whatever kind, by whichever library it
decompresses or compresses. That answer is always that the stream is closed, unless a stream that
skips by making reads is to skip nothing. -/
theorem answers_behind_close {δ η σ τ : Type} [Decompressor δ] [Compressor η] [ReadStream σ]
    [WriteStream τ] (layers : Nat) (readOps : List ReadOp) (writeOps : List WriteOp) :
    (∀ s : ReadStack δ layers, course ReadOp.perform readOps (behind ReadStream.close s) =
      (readOps.map (ReadOp.whenClosed (s.inheritsSkip layers)), behind ReadStream.close s)) ∧
    (∀ s : ReadLayer δ σ, course ReadOp.perform readOps (behind ReadStream.close s) =
      (readOps.map (ReadOp.whenClosed s.inheritsSkip), behind ReadStream.close s)) ∧
    (∀ inherits, (∀ op ∈ readOps, op.whenClosed inherits = .error .closed) ↔
      (inherits → .skip 0 ∉ readOps)) ∧
    (∀ s : WriteStack η layers, course WriteOp.perform writeOps (behind WriteStream.close s) =
      (writeOps.map fun _ => .error .closed, behind WriteStream.close s)) ∧
    ∀ s : WriteLayer η τ, course WriteOp.perform writeOps (behind WriteStream.close s) =
      (writeOps.map fun _ => .error .closed, behind WriteStream.close s) := by
  refine ⟨?_, ?_, ?_, ?_, ?_⟩
  · intro s
    exact (ReadStack.readsClosed layers s).course_eq readOps
  · intro s
    exact s.readsClosed.course_eq readOps
  · intro inherits
    exact ReadOp.whenClosed_iff inherits readOps
  · intro s
    exact (WriteStack.writesClosed layers s).course_eq writeOps
  · intro s
    exact s.writesClosed.course_eq writeOps

/-- A closed connection lets nothing be skipped, and so does a buffer over it. -/
theorem skip_nothing_behind_close :
    let channel : ReadStack Deflate.Decoder 0 := ReadBase.channel { arrivals := [] }
    let buffered : ReadStack Deflate.Decoder 1 :=
      ReadLayer.buffered (BufferedReader.withCapacity 8 channel)
    (course ReadOp.perform [.close, .skip 0] channel).1 = [.ok .nothing, .ok (.number 0)] ∧
      (course ReadOp.perform [.close, .skip 0] buffered).1 = [.ok .nothing, .ok (.number 0)] :=
  ⟨rfl, rfl⟩

/-- A stream with both sides is closed on both, whichever of them it was closed on: a connection,
and a counter around a stream of whatever kind. -/
theorem both_sides_behind_close [ReadStream σ] [WriteStream σ] :
    (∀ c s : Connection, s = behind ReadStream.close c ∨ s = behind WriteStream.close c →
      ReadsClosed true s ∧ WritesClosed s) ∧
    ∀ c s : Counting σ, s = behind ReadStream.close c ∨ s = behind WriteStream.close c →
      ReadsClosed false s ∧ WritesClosed s := by
  constructor
  · rintro c s (rfl | rfl)
    · exact ⟨Connection.readsClosed c.isOpen_closeInbound,
        Connection.writesClosed c.isOpen_closeInbound⟩
    · exact ⟨Connection.readsClosed c.isOpen_closeOutbound,
        Connection.writesClosed c.isOpen_closeOutbound⟩
  · rintro c s (rfl | rfl)
    · exact ⟨Counting.readsClosed (c.isOpen_closing _), Counting.writesClosed (c.isOpen_closing _)⟩
    · exact ⟨Counting.readsClosed (c.isOpen_closing _), Counting.writesClosed (c.isOpen_closing _)⟩

end ZoneSync
