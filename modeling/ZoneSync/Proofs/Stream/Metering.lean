import ZoneSync.Proofs.Stream.Closing
import ZoneSync.Proofs.Stream.Ending

/-!
Streams that meter what is taken through them: one counts the octets, one has a limit for them. They
book what a call says that it took, and a call that fails says nothing. A read that fails has taken
nothing. But skipping is made of reads, and some of them may have taken octets before one fails. The
meters are off by exactly those octets.
-/

namespace ZoneSync

variable {σ τ α β : Type}

/-- A stream in which octets are skipped by reading them, and the octets that were taken from it. -/
structure Drawn (σ : Type) where
  stream : σ
  taken : Octets := []

/-- What a failed call may have taken: nothing, unless it was to skip and something else than the
end of the stream was in the way. Then it has taken fewer octets than it was to skip. -/
def Loses (op : ReadOp) (e : StreamError) (before after : Octets) : Prop :=
  after.length = before.length ∨ ∃ n, op = .skip n ∧ e ≠ .endOfStream ∧
    before.length ≤ after.length ∧ after.length < before.length + n

theorem Loses.grown {op : ReadOp} {e : StreamError} {before after : Octets}
    (h : Loses op e before after) : before.length ≤ after.length := by
  rcases h with same | ⟨n, -, -, grown, -⟩
  · exact Nat.le_of_eq same.symm
  · exact grown

/-- How many octets the calls that failed have taken. -/
def lost [ReadStream τ] (taken : τ → Octets) : List ReadOp → τ → Nat
  | [], _ => 0
  | op :: later, t =>
    match op.perform t with
    | .ok _ t' => lost taken later t'
    | .error _ t' => ((taken t').length - (taken t).length) + lost taken later t'

/-- No read of the stream takes more octets than it was asked for. -/
def Bounding (σ : Type) [ReadStream σ] : Prop :=
  ∀ {n : Nat} {s s' : σ} {o : Octets}, ReadStream.read n s = .ok o s' → o.length ≤ n

namespace Drawn

variable [ReadStream σ]

instance : ReadStream (Drawn σ) where
  read n d := match ReadStream.read n d.stream with
    | .ok o stream => .ok o { stream, taken := d.taken ++ o }
    | .error e stream => .error e { d with stream }
  consumed d := ReadStream.consumed d.stream
  available d := ReadStream.available d.stream
  close d := match ReadStream.close d.stream with
    | .ok () stream => .ok () { d with stream }
    | .error e stream => .error e { d with stream }

theorem read_cases (bounding : Bounding σ) (n : Nat) (d : Drawn σ) :
    (∃ o d', ReadStream.read n d = .ok o d' ∧ o.length ≤ n ∧
        d'.taken.length = d.taken.length + o.length) ∨
      ∃ e d', ReadStream.read n d = .error e d' ∧ d'.taken = d.taken := by
  cases got : ReadStream.read n d.stream with
  | ok o stream =>
      exact .inl ⟨o, ⟨stream, d.taken ++ o⟩, by simp only [ReadStream.read, got], bounding got,
        List.length_append⟩
  | error e stream =>
      exact .inr ⟨e, ⟨stream, d.taken⟩, by simp only [ReadStream.read, got], rfl⟩

/-- Skipping says how many octets its reads have taken, unless one of them fails. Then they have
taken fewer than were to be skipped, and none at all if it is the end of the stream that is
reported. -/
theorem go_cases (bounding : Bounding σ) {n rounds skipped : Nat} (few : skipped ≤ n)
    (d : Drawn σ) :
    (∃ k d', skipByReading.go ReadStream.read n rounds skipped d = .ok k d' ∧ k ≤ n ∧
        d'.taken.length + skipped = d.taken.length + k) ∨
      ∃ e d', skipByReading.go ReadStream.read n rounds skipped d = .error e d' ∧
        d.taken.length ≤ d'.taken.length ∧ d'.taken.length + skipped < d.taken.length + n ∧
        (e = .endOfStream → skipped = 0 ∧ d'.taken.length = d.taken.length) := by
  induction rounds generalizing skipped d with
  | zero => exact .inl ⟨skipped, d, rfl, few, rfl⟩
  | succ rounds ih =>
      by_cases all : n ≤ skipped
      · exact .inl ⟨skipped, d, by simp only [skipByReading.go, if_pos all], few, rfl⟩
      · rcases read_cases bounding (min (n - skipped) 512) d with
          ⟨o, middle, got, short, more⟩ | ⟨e, d', failed, same⟩
        · have next : skipByReading.go ReadStream.read n (rounds + 1) skipped d =
              skipByReading.go ReadStream.read n rounds (skipped + o.length) middle := by
            simp only [skipByReading.go, if_neg all, got]
          have few : skipped + o.length ≤ n := by omega
          rw [next]
          rcases ih few middle with
            ⟨k, d', done, fits, sum⟩ | ⟨e, d', failed, grown, part, ended⟩
          · exact .inl ⟨k, d', done, fits, by omega⟩
          · refine .inr ⟨e, d', failed, by omega, by omega, fun last => ?_⟩
            obtain ⟨start, none_more⟩ := ended last
            omega
        · have kept := congrArg List.length same
          by_cases last : e = .endOfStream
          · subst last
            by_cases start : skipped = 0
            · refine .inr ⟨.endOfStream, d', ?_, by omega, by omega, fun _ => ⟨start, kept⟩⟩
              simp only [skipByReading.go, if_neg all, failed, if_pos start]
            · refine .inl ⟨skipped, d', ?_, few, by omega⟩
              simp only [skipByReading.go, if_neg all, failed, if_neg start]
          · refine .inr ⟨e, d', ?_, by omega, by omega, fun h => absurd h last⟩
            simp only [skipByReading.go, if_neg all, failed]

/-- A step that succeeds takes as many octets as it says, `n` at most, and one that fails may lose
some. -/
def Draws (op : ReadOp) (size : α → Nat) (n : Nat) (step : StreamM (Drawn σ) α) (d : Drawn σ) :
    Prop :=
  (∃ a d', step d = .ok a d' ∧ size a ≤ n ∧ d'.taken.length = d.taken.length + size a) ∨
    ∃ e d', step d = .error e d' ∧ Loses op e d.taken d'.taken

theorem draws_read (bounding : Bounding σ) (op : ReadOp) (n : Nat) (d : Drawn σ) :
    Draws op List.length n (ReadStream.read n) d := by
  refine (read_cases bounding n d).imp_right ?_
  rintro ⟨e, d', failed, same⟩
  exact ⟨e, d', failed, .inl (congrArg List.length same)⟩

theorem draws_skip (bounding : Bounding σ) (n : Nat) (d : Drawn σ) :
    Draws (.skip n) id n (ReadStream.skip n) d := by
  refine (go_cases bounding (Nat.zero_le n) d).imp_right ?_
  rintro ⟨e, d', failed, grown, part, ended⟩
  refine ⟨e, d', failed, ?_⟩
  by_cases last : e = .endOfStream
  · exact .inl (ended last).2
  · exact .inr ⟨n, rfl, last, grown, part⟩

theorem draws_close (d : Drawn σ) : Draws .close (fun _ => 0) 0 ReadStream.close d := by
  cases closed : ReadStream.close d.stream with
  | ok _ stream =>
      exact .inl ⟨(), ⟨stream, d.taken⟩, by simp only [ReadStream.close, closed],
        Nat.le_refl 0, rfl⟩
  | error e stream =>
      exact .inr ⟨e, ⟨stream, d.taken⟩, by simp only [ReadStream.close, closed], .inl rfl⟩

end Drawn

/-- A step of a meter leaves what is due as it is. If it fails, what it has lost becomes due. -/
def Books (taken : τ → Octets) (due : τ → Int) (op : ReadOp) (step : StreamM τ α) (t : τ) : Prop :=
  (∃ a t', step t = .ok a t' ∧ due t' = due t) ∨
    ∃ e t', step t = .error e t' ∧
      due t' = due t + ((taken t').length - (taken t).length : Nat) ∧
      Loses op e (taken t) (taken t')

section Books

variable {taken : τ → Octets} {due : τ → Int} {op : ReadOp}

theorem Books.map {step : StreamM τ α} {t : τ} (h : Books taken due op step t) (f : α → β) :
    Books taken due op (f <$> step) t := by
  rcases h with ⟨a, t', done, kept⟩ | ⟨e, t', failed, more, loses⟩
  · exact .inl ⟨f a, t', map_of_ok done, kept⟩
  · exact .inr ⟨e, t', map_of_error failed, more, loses⟩

theorem books_error {step : StreamM τ α} {t : τ} {e : StreamError} (failed : step t = .error e t) :
    Books taken due op step t :=
  .inr ⟨e, t, failed, by simp, .inl rfl⟩

theorem Books.loses [ReadStream τ] {t t' : τ} {e : StreamError}
    (h : Books taken due op op.perform t) (failed : op.perform t = .error e t') :
    Loses op e (taken t) (taken t') := by
  rcases h with ⟨a, t', done, -⟩ | ⟨e, t', failed', -, loses⟩
  · rw [failed] at done
    cases done
  · rw [failed] at failed'
    obtain ⟨rfl, rfl⟩ := EStateM.Result.error.inj failed'
    exact loses

theorem due_course [ReadStream τ] (books : ∀ op t, Books taken due op op.perform t)
    (ops : List ReadOp) (t : τ) :
    due (course ReadOp.perform ops t).2 = due t + (lost taken ops t : Nat) := by
  induction ops generalizing t with
  | nil => exact (Int.add_zero _).symm
  | cons op later ih =>
      rcases books op t with ⟨a, t', done, kept⟩ | ⟨e, t', failed, more, -⟩
      · simp only [course, lost, done]
        rw [ih, kept]
      · simp only [course, lost, failed]
        rw [ih, more, Int.natCast_add, Int.add_assoc]

end Books

namespace Counting

def taken (c : Counting (Drawn σ)) : Octets := c.inner.taken

/-- How many octets more were taken than are counted. -/
def due (c : Counting (Drawn σ)) : Int := c.taken.length - c.count

theorem books_counted {op : ReadOp} {size : α → Nat} {n : Nat} {step : StreamM (Drawn σ) α}
    {c : Counting (Drawn σ)} (draws : Drawn.Draws op size n step c.inner) :
    Books taken due op (counted size step) c := by
  by_cases opened : c.isOpen
  · rcases draws with ⟨a, d', done, -, sum⟩ | ⟨e, d', failed, loses⟩
    · refine .inl ⟨a, { c with inner := d', count := c.count + size a },
        by simp [counted, opened, done], ?_⟩
      simp only [due, taken, sum]
      omega
    · refine .inr ⟨e, { c with inner := d' }, by simp [counted, opened, failed], ?_, loses⟩
      have grown := loses.grown
      simp only [due, taken]
      omega
  · exact books_error (e := .closed) (by simp [counted, opened])

theorem books_closing {step : StreamM (Drawn σ) Unit} {c : Counting (Drawn σ)}
    (draws : Drawn.Draws .close (fun _ => 0) 0 step c.inner) :
    Books taken due .close (closing step) c := by
  by_cases opened : c.isOpen
  · rcases draws with ⟨_, d', done, -, sum⟩ | ⟨e, d', failed, loses⟩
    · refine .inl ⟨(), { c with inner := d', isOpen := false },
        by simp [closing, opened, done], ?_⟩
      simp only [due, taken, sum, Nat.add_zero]
    · refine .inr ⟨e, { c with inner := d', isOpen := false },
        by simp [closing, opened, failed], ?_, loses⟩
      have grown := loses.grown
      simp only [due, taken]
      omega
  · exact books_error (e := .closed) (by simp [closing, opened])

theorem books [ReadStream σ] (bounding : Bounding σ) (op : ReadOp) (c : Counting (Drawn σ)) :
    Books taken due op op.perform c := by
  cases op with
  | read n => exact (books_counted (Drawn.draws_read bounding _ n c.inner)).map _
  | skip n => exact (books_counted (Drawn.draws_skip bounding n c.inner)).map _
  | close => exact (books_closing (Drawn.draws_close c.inner)).map _

end Counting

namespace Limited

def taken (l : Limited (Drawn σ)) : Octets := l.inner.taken

/-- The limit, with what was taken beyond it. -/
def due (l : Limited (Drawn σ)) : Int := l.taken.length + l.remaining

theorem books_spent {op : ReadOp} {size : α → Nat} {n : Nat} {step : StreamM (Drawn σ) α}
    {l : Limited (Drawn σ)} (room : n ≤ l.remaining)
    (draws : Drawn.Draws op size n step l.inner) : Books taken due op (spent size step) l := by
  rcases draws with ⟨a, d', done, fits, sum⟩ | ⟨e, d', failed, loses⟩
  · refine .inl ⟨a, { l with inner := d', remaining := l.remaining - size a },
      by simp [spent, done], ?_⟩
    simp only [due, taken, sum]
    omega
  · refine .inr ⟨e, { l with inner := d' }, by simp [spent, failed], ?_, loses⟩
    have grown := loses.grown
    simp only [due, taken]
    omega

variable [ReadStream σ]

theorem books_read (bounding : Bounding σ) (n : Nat) (l : Limited (Drawn σ)) :
    Books taken due (.read n) (ReadStream.read n) l := by
  by_cases opened : l.isOpen
  · by_cases none_wanted : n = 0
    · exact .inl ⟨[], l, by simp [ReadStream.read, opened, none_wanted], rfl⟩
    · by_cases full : l.remaining = 0
      · exact books_error (e := .limitExceeded)
          (by simp [ReadStream.read, opened, none_wanted, full])
      · have next : ReadStream.read n l =
            spent List.length (ReadStream.read (min n l.remaining)) l := by
          simp [ReadStream.read, opened, none_wanted, full]
        rw [Books, next]
        exact books_spent (Nat.min_le_right n l.remaining) (Drawn.draws_read bounding _ _ l.inner)
  · exact books_error (e := .closed) (by simp [ReadStream.read, opened])

theorem books_skip (bounding : Bounding σ) (n : Nat) (l : Limited (Drawn σ)) :
    Books taken due (.skip n) (ReadStream.skip n) l := by
  by_cases opened : l.isOpen
  · by_cases room : n ≤ l.remaining
    · have next : ReadStream.skip n l = spent id (ReadStream.skip n) l := by
        simp [ReadStream.skip, opened, Nat.not_lt.mpr room]
      rw [Books, next]
      exact books_spent room (Drawn.draws_skip bounding n l.inner)
    · exact books_error (e := .limitExceeded)
        (by simp [ReadStream.skip, opened, Nat.lt_of_not_le room])
  · exact books_error (e := .closed) (by simp [ReadStream.skip, opened])

theorem books_close (l : Limited (Drawn σ)) : Books taken due .close ReadStream.close l := by
  by_cases opened : l.isOpen
  · exact .inl ⟨(), { l with isOpen := false }, by simp [ReadStream.close, opened], rfl⟩
  · exact books_error (e := .closed) (by simp [ReadStream.close, opened])

theorem books (bounding : Bounding σ) (op : ReadOp) (l : Limited (Drawn σ)) :
    Books taken due op op.perform l := by
  cases op with
  | read n => exact (books_read bounding n l).map _
  | skip n => exact (books_skip bounding n l).map _
  | close => exact (books_close l).map _

end Limited

namespace Drawn

/-- Whatever is called on a meter and whatever fails, what was taken from the stream beneath is what
the meter has booked and what calls have lost that failed. Only skipping loses octets, if something
else than the end of the stream is in its way, and fewer than it was to skip. A meter on which no
call has lost any is in step with the stream; a limit is overrun by at most those octets. -/
theorem taken_eq_metered [ReadStream σ] (bounding : Bounding σ) (stream : σ) (limit : Nat)
    (ops : List ReadOp) :
    let counting : Counting (Drawn σ) := { inner := { stream } }
    let limited : Limited (Drawn σ) := { inner := { stream }, remaining := limit }
    let c := (course ReadOp.perform ops counting).2
    let l := (course ReadOp.perform ops limited).2
    c.taken.length = c.count + lost Counting.taken ops counting ∧
    l.taken.length + l.remaining = limit + lost Limited.taken ops limited ∧
    ∀ op : ReadOp,
      (∀ e c', op.perform c = .error e c' → Loses op e c.taken c'.taken) ∧
        ∀ e l', op.perform l = .error e l' → Loses op e l.taken l'.taken := by
  intro counting limited c l
  refine ⟨?_, ?_, fun op => ⟨fun e c' failed => ?_, fun e l' failed => ?_⟩⟩
  · have total : c.due = counting.due + (lost Counting.taken ops counting : Nat) :=
      due_course (Counting.books bounding) ops counting
    have start : counting.due = 0 := rfl
    rw [start, Counting.due] at total
    omega
  · have total : l.due = limited.due + (lost Limited.taken ops limited : Nat) :=
      due_course (Limited.books bounding) ops limited
    have start : limited.due = limit := Int.zero_add _
    rw [start, Limited.due] at total
    omega
  · exact (Counting.books bounding op c).loses failed
  · exact (Limited.books bounding op l).loses failed

end Drawn

theorem InboundChannel.bounding : Bounding InboundChannel := by
  intro n c c' o got
  by_cases opened : c.isOpen
  · by_cases some_n : 0 < n
    · have awaits : c.Awaits [] (incoming c.arrivals) := ⟨opened, rfl⟩
      obtain ⟨-, short, -⟩ := faithful.portion awaits some_n got
      exact short
    · obtain rfl : n = 0 := Nat.eq_zero_of_not_pos some_n
      have silent : ReadStream.read 0 c = .ok [] c := by simp [ReadStream.read, opened]
      rw [silent] at got
      cases got
      exact Nat.le_refl 0
  · have closed : ReadStream.read n c = .error .closed c := by simp [ReadStream.read, opened]
    rw [closed] at got
    cases got

/-- A connection that brings three octets, then times out once, and brings eight more. -/
def faltering : InboundChannel where
  arrivals := [.chunk [1, 2, 3], .failure .timedOut, .chunk [4, 5, 6, 7, 8, 9, 10, 11]]

/-- Five octets are to be skipped and then five to be read. -/
theorem taken_eq_metered_faltering :
    let ops : List ReadOp := [.skip 5, .read 5]
    let counting : Counting (Drawn InboundChannel) := { inner := { stream := faltering } }
    let limited : Limited (Drawn InboundChannel) :=
      { inner := { stream := faltering }, remaining := 5 }
    let c := (course ReadOp.perform ops counting).2
    let l := (course ReadOp.perform ops limited).2
    c.taken.length = c.count + 3 ∧ l.taken.length + l.remaining = 5 + 3 := by
  intro ops counting limited c l
  obtain ⟨counted, spent, -⟩ := Drawn.taken_eq_metered InboundChannel.bounding faltering 5 ops
  exact ⟨counted, spent⟩

/-- The skipping that times out has taken three octets that are not counted. Behind it the limit of
five octets lets five more be read. -/
theorem skipped_unmetered :
    let counting : Counting (Drawn InboundChannel) := { inner := { stream := faltering } }
    let limited : Limited (Drawn InboundChannel) :=
      { inner := { stream := faltering }, remaining := 5 }
    let c := (course ReadOp.perform [.skip 5] counting).2
    let l := (course ReadOp.perform [.skip 5, .read 5] limited).2
    c.taken = [1, 2, 3] ∧ c.count = 0 ∧ c.taken.length ≠ c.count ∧
      l.taken = [1, 2, 3, 4, 5, 6, 7, 8] ∧ l.remaining = 0 ∧ l.taken.length + l.remaining ≠ 5 :=
  ⟨rfl, rfl, by decide, rfl, rfl, by decide⟩

end ZoneSync
