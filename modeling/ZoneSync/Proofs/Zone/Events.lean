import Mathlib.Data.List.DropRight
import ZoneSync.Proofs.Zone.Invariant

/-!
What happens to the zones of a store while commands run: they are added, removed, and get new
generations. The generations that a zone still has are the last of those published for it since
it was added, as many as the limit allows.
-/

namespace ZoneSync

namespace Event

def generation? : Event → Option Generation
  | published _ g => some g
  | _ => none

/-- The generations published for a zone since it was last added, after one more event. A zone
that is removed has none. -/
def extend (origin : Name) (since : List Generation) : Event → List Generation
  | added owner | removed owner => if owner.same origin then [] else since
  | published owner g => if owner.same origin then since ++ [g] else since

/-- All generations that are published, oldest first. -/
def generations (events : List Event) : List Generation := events.filterMap generation?

/-- The generations published for a zone since it was last added, oldest first. -/
def since (origin : Name) (events : List Event) : List Generation :=
  events.foldl (extend origin) []

@[simp] theorem generations_append (events later : List Event) :
    generations (events ++ later) = generations events ++ generations later :=
  List.filterMap_append

theorem mem_generations {events : List Event} {g : Generation} :
    g ∈ generations events ↔ ∃ owner, published owner g ∈ events := by
  simp only [generations, List.mem_filterMap]
  constructor
  · rintro ⟨e, he, same⟩
    cases e with
    | added | removed => simp [generation?] at same
    | published owner g' =>
        obtain rfl := Option.some.inj same
        exact ⟨owner, he⟩
  · rintro ⟨owner, he⟩
    exact ⟨_, he, rfl⟩

theorem since_append (origin : Name) (events later : List Event) :
    since origin (events ++ later) = later.foldl (extend origin) (since origin events) :=
  List.foldl_append

theorem since_concat (origin : Name) (events : List Event) (e : Event) :
    since origin (events ++ [e]) = e.extend origin (since origin events) := since_append ..

theorem since_sublist (origin : Name) (events : List Event) :
    (since origin events).Sublist (generations events) := by
  induction events using List.reverseRecOn with
  | nil => exact .slnil
  | append_singleton events e ih =>
      rw [since_concat, generations_append]
      cases e with
      | added owner | removed owner =>
          simp only [extend]
          split
          · exact List.nil_sublist _
          · exact ih.trans (List.sublist_append_left _ _)
      | published owner g =>
          simp only [extend]
          split
          · exact ih.append (List.Sublist.refl [g])
          · exact ih.trans (List.sublist_append_left _ _)

/-- A generation counted for a zone was published for it. -/
theorem published_of_mem_since {origin : Name} {events : List Event} {g : Generation}
    (h : g ∈ since origin events) : ∃ owner, owner.same origin ∧ published owner g ∈ events := by
  induction events using List.reverseRecOn with
  | nil => simp [since] at h
  | append_singleton events e ih =>
      have earlier : g ∈ since origin events →
          ∃ owner, owner.same origin ∧ published owner g ∈ events ++ [e] := by
        intro before
        obtain ⟨owner, same, known⟩ := ih before
        exact ⟨owner, same, List.mem_append_left _ known⟩
      rw [since_concat] at h
      cases e with
      | added owner | removed owner =>
          simp only [extend] at h
          split at h
          · simp at h
          · exact earlier h
      | published owner g' =>
          simp only [extend] at h
          split at h
          · rename_i same
            cases List.mem_append.mp h with
            | inl before => exact earlier before
            | inr last =>
                obtain rfl := List.mem_singleton.mp last
                exact ⟨owner, same, by simp⟩
          · exact earlier h

/-- Once a zone is removed only what is published later counts for it. -/
theorem since_removed {origin owner : Name} (same : owner.same origin)
    (before after : List Event) :
    since origin (before ++ removed owner :: after) = since origin after := by
  rw [since_append, List.foldl_cons]
  simp only [extend, same, if_true]
  rfl

end Event

namespace ZoneStore

/-- The generations that a zone still has, oldest first. -/
def generations (s : ZoneStore) (origin : Name) : List Generation :=
  match s.find? origin with
  | none => []
  | some z => z.retained ++ z.current.toList

/-- The events while commands run one after the other. -/
def events (s : ZoneStore) : List Command → List Event
  | [] => []
  | c :: later => (c.event? s).toList ++ (c.run s).events later

theorem events_concat (s : ZoneStore) (commands : List Command) (c : Command) :
    s.events (commands ++ [c]) =
      s.events commands ++ (c.event? (commands.foldl Command.run s)).toList := by
  induction commands generalizing s with
  | nil => simp [events]
  | cons first later ih => simp [events, ih]

/-- A zone that is added has no generations, and all others have what they had. -/
theorem generations_added {s : ZoneStore} {owner : Name} (free : s.find? owner = none)
    (origin : Name) :
    generations { s with zones := s.zones ++ [{ origin := owner }] } origin =
      if owner.same origin then [] else s.generations origin := by
  rw [generations, find?_added free]
  cases owner.same origin <;> rfl

theorem generations_removed (s : ZoneStore) (owner origin : Name) :
    generations { s with zones := s.zones.filter fun z => !z.origin.same owner } origin =
      if owner.same origin then [] else s.generations origin := by
  rw [generations, find?_removed]
  cases owner.same origin <;> rfl

/-- A new generation stands behind those that the limit leaves of the earlier ones. -/
theorem generations_published {s : ZoneStore} {owner : Name} {z : Zone} {g : Generation}
    {history : List ZoneDiff} (found : s.find? owner = some z) (sound : z.Sound s.limits)
    (next : Nat) (origin : Name) :
    generations ({ s with nextToken := next }.replace (publish s.limits { z with history } g))
        origin =
      if owner.same origin then
        (s.generations origin).rtake s.limits.retainedGenerations ++ [g]
      else s.generations origin := by
  have replaced := find?_replaced (s := { s with nextToken := next })
    (z := publish s.limits { z with history } g) found rfl origin
  rw [generations, replaced]
  by_cases same : owner.same origin
  · rw [find?_congr s same] at found
    rw [if_pos same, if_pos same, generations, found]
    simp only [publish_current, Option.toList_some]
    rw [publish]
    cases content : z.current with
    | none =>
        have nothing := (sound.unpublished content).2
        simp [nothing]
    | some g' => simp [List.rtake]
  · rw [if_neg same, if_neg same]
    rfl

/-- The generations of every zone are the last ones published for it since it was added, as many
as the limit says and one more. -/
def KeepsLast (s : ZoneStore) (events : List Event) : Prop :=
  ∀ origin,
    s.generations origin = (Event.since origin events).rtake (s.limits.retainedGenerations + 1)

theorem rtake_rtake {α : Type} (n : Nat) (l : List α) :
    (l.rtake (n + 1)).rtake n = l.rtake n := by
  simp only [List.rtake_eq_reverse_take_reverse, List.reverse_reverse, List.take_take]
  rw [Nat.min_eq_left (Nat.le_succ n)]

theorem KeepsLast.changes {s s' : ZoneStore} {events : List Event} {e : Option Event}
    (h : s.KeepsLast events) (sound : ∀ z ∈ s.zones, z.Sound s.limits) (step : Changes s e s') :
    s'.KeepsLast (events ++ e.toList) := by
  intro origin
  have before := h origin
  rw [step.limits]
  cases step with
  | nothing _ =>
      rw [Option.toList_none, List.append_nil]
      exact before
  | added free =>
      rw [generations_added free, Option.toList_some, Event.since_concat, Event.extend]
      split
      · simp
      · exact before
  | removed =>
      rw [generations_removed, Option.toList_some, Event.since_concat, Event.extend]
      split
      · simp
      · exact before
  | replaced found _ | advanced found _ _ =>
      rw [generations_published found (sound _ (mem_of_find? found)), Option.toList_some,
        Event.since_concat, Event.extend]
      split
      · rw [before, rtake_rtake, List.rtake_concat_succ]
      · exact before

/-- Tokens go up with every generation that is published, and the next one is larger still. -/
structure Increasing (start used : Nat) (s : ZoneStore) (events : List Event) : Prop where
  fresh : ∀ g ∈ Event.generations events, g.token.value < s.nextToken
  sorted : (Event.generations events).Pairwise fun g h => g.token.value < h.token.value
  bounded : s.nextToken ≤ start + used

theorem Increasing.published {start used : Nat} {s s' : ZoneStore} {events : List Event}
    {owner : Name} {g : Generation} (h : Increasing start used s events)
    (token : g.token = ⟨s.nextToken⟩) (next : s'.nextToken = s.nextToken + 1) :
    Increasing start (used + 1) s' (events ++ [.published owner g]) where
  fresh := by
    intro x hx
    rw [Event.generations_append] at hx
    rw [next]
    cases List.mem_append.mp hx with
    | inl earlier => exact Nat.lt_succ_of_lt (h.fresh x earlier)
    | inr last =>
        obtain rfl : x = g := List.mem_singleton.mp last
        rw [token]
        exact Nat.lt_succ_self _
  sorted := by
    rw [Event.generations_append]
    refine List.pairwise_append.mpr ⟨h.sorted, List.pairwise_singleton _ _, ?_⟩
    intro x hx y hy
    obtain rfl : y = g := List.mem_singleton.mp hy
    rw [token]
    exact h.fresh x hx
  bounded := by
    have bounded := h.bounded
    omega

theorem Increasing.silent {start used : Nat} {s s' : ZoneStore} {events : List Event}
    {e : Option Event} (h : Increasing start used s events)
    (quiet : Event.generations e.toList = []) (later : s.nextToken ≤ s'.nextToken)
    (once : s'.nextToken ≤ s.nextToken + 1) :
    Increasing start (used + 1) s' (events ++ e.toList) where
  fresh := by
    intro x hx
    rw [Event.generations_append, quiet, List.append_nil] at hx
    exact Nat.lt_of_lt_of_le (h.fresh x hx) later
  sorted := by
    rw [Event.generations_append, quiet, List.append_nil]
    exact h.sorted
  bounded := by
    have bounded := h.bounded
    omega

theorem Increasing.changes {start used : Nat} {s s' : ZoneStore} {events : List Event}
    {e : Option Event} (h : Increasing start used s events) (step : Changes s e s') :
    Increasing start (used + 1) s' (events ++ e.toList) := by
  cases step with
  | nothing once => exact h.silent rfl (Nat.le_add_right _ _) (Nat.add_le_add_left once _)
  | added _ | removed => exact h.silent rfl (Nat.le_refl _) (Nat.le_succ _)
  | replaced _ built => exact h.published (Generation.build_token built) rfl
  | advanced _ _ applied =>
      obtain ⟨last, -, -, -, built⟩ := Generation.apply_eq_ok_iff.mp applied
      exact h.published (Generation.build_token built) rfl

/-- What the events of a run say of the store that it leads to. -/
theorem events_run (limits : StoreLimits) (start : Nat) (commands : List Command) :
    let first : ZoneStore := { limits, nextToken := start }
    let s := commands.foldl Command.run first
    s.KeepsLast (first.events commands) ∧
      Increasing start commands.length s (first.events commands) := by
  intro first s
  induction commands using List.reverseRecOn with
  | nil =>
      refine ⟨fun origin => ?_, ⟨?_, .nil, Nat.le_refl _⟩⟩
      · simp [s, first, generations, find?, events, Event.since]
      · simp [events, Event.generations]
  | append_singleton commands c ih =>
      obtain ⟨keeps, increasing⟩ := ih
      have sound := ((Reachable.empty limits start).run commands).sound
      have step := changes_run (commands.foldl Command.run first) c
      have last : s = c.run (commands.foldl Command.run first) := List.foldl_concat ..
      rw [last, events_concat, List.length_append, List.length_singleton]
      exact ⟨keeps.changes sound step, increasing.changes step⟩

end ZoneStore
end ZoneSync
