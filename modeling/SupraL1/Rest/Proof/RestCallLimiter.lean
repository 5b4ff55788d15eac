import SupraL1.Rest.RestCallLimiter

/-!
# The decisions of the REST limiter

The cache holds the values registered last, each with the time at which it was last allowed
(`Tracks`). Every registration is a use of its value, also a refused one, but only an allowed one
changes the time. So a registration is refused iff the log says so (`register_refused_iff`).
-/

namespace Rest.RestCallLimiter

open Lru

/-- The strategy allows a value that was not seen, or not within the interval. -/
def LimitingStrategy.IsInterval (strategy : LimitingStrategy) (interval : Nat) : Prop :=
  ∀ now limitInstance lastSeen, strategy.shouldAllow now limitInstance lastSeen = .ok () ↔
    ∀ t, lastSeen = some t → interval ≤ now - t

/-- The latest registration of a value that was allowed. -/
def lastAllowed (log : List Registration) (limitInstance : LimitInstance) : Option Registration :=
  log.find? fun r => r.limitInstance = limitInstance && r.allowed

/-- The values registered after the latest registration of this one. -/
def registeredSince (log : List Registration) (limitInstance : LimitInstance) : List LimitInstance :=
  (log.map (·.limitInstance)).takeWhile (· ≠ limitInstance)

/-- The cache after the registrations of a log. -/
structure Tracks (L : RestCallLimiter) (log : List Registration) : Prop where
  capacity : L.cache.capacity = cacheSize
  keys : L.cache.keys = (recent (log.map (·.limitInstance))).take cacheSize
  times : ∀ i t, L.cache.peek i = some t → (lastAllowed log i).map (·.time) = some t

variable {L : RestCallLimiter} {log : List Registration} {interval : Nat}

theorem tracks_new (strategy : LimitingStrategy) : Tracks (new strategy) [] :=
  ⟨rfl, rfl, fun _ _ h => by cases h⟩

/-! ## One registration -/

theorem register_of_peek_none {now : Nat} {i : LimitInstance} (hpeek : L.cache.peek i = none)
    (hok : L.limitingStrategy.shouldAllow now i none = .ok ()) :
    L.register now i = (⟨L.cache.use i now, L.limitingStrategy⟩, .ok ()) := by
  simp [register, Cache.get, Cache.put, hpeek, hok]

theorem register_of_allowed {now t : Nat} {i : LimitInstance} (hpeek : L.cache.peek i = some t)
    (hok : L.limitingStrategy.shouldAllow now i (some t) = .ok ()) :
    L.register now i = (⟨L.cache.use i now, L.limitingStrategy⟩, .ok ()) := by
  simp [register, Cache.get, Cache.put, hpeek, hok, Cache.use_use]

theorem register_of_refused {now t allowIn : Nat} {i : LimitInstance}
    (hpeek : L.cache.peek i = some t)
    (herror : L.limitingStrategy.shouldAllow now i (some t) = .error allowIn) :
    L.register now i =
      (⟨L.cache.use i t, L.limitingStrategy⟩, .error (.tooManyRequests allowIn)) := by
  simp [register, Cache.get, hpeek, herror]

/-- What `register` does: the value is the one used last, and its time changes if it is allowed. -/
theorem register_spec (h : L.limitingStrategy.IsInterval interval) (now : Nat)
    (i : LimitInstance) :
    (∃ t allowIn, L.cache.peek i = some t ∧ now - t < interval ∧
      L.register now i =
        (⟨L.cache.use i t, L.limitingStrategy⟩, .error (.tooManyRequests allowIn))) ∨
    ((∀ t, L.cache.peek i = some t → interval ≤ now - t) ∧
      L.register now i = (⟨L.cache.use i now, L.limitingStrategy⟩, .ok ())) := by
  cases hpeek : L.cache.peek i with
  | none =>
    have hnone : ∀ t, none = some t → interval ≤ now - t := fun t ht => by cases ht
    exact .inr ⟨hnone, register_of_peek_none hpeek ((h now i none).2 hnone)⟩
  | some t =>
    cases hallow : L.limitingStrategy.shouldAllow now i (some t) with
    | ok u => exact .inr ⟨(h now i (some t)).1 hallow, register_of_allowed hpeek hallow⟩
    | error allowIn =>
      refine .inl ⟨t, allowIn, rfl, ?_, register_of_refused hpeek hallow⟩
      by_contra hge
      have hle : ∀ t', some t = some t' → interval ≤ now - t' := by
        intro t' ht
        cases ht
        exact Nat.le_of_not_lt hge
      have hok := (h now i (some t)).2 hle
      rw [hallow] at hok
      cases hok

theorem lastAllowed_cons_of_ne {r : Registration} {i : LimitInstance} (h : r.limitInstance ≠ i) :
    lastAllowed (r :: log) i = lastAllowed log i :=
  List.find?_cons_of_neg (by simp [h])

/-- One more registration, be it refused, with the time that the cache already has, or allowed. -/
theorem Tracks.use (h : Tracks L log) {L' : RestCallLimiter} {r : Registration} {t : Nat}
    (hcache : L'.cache = L.cache.use r.limitInstance t)
    (htime : (lastAllowed (r :: log) r.limitInstance).map (·.time) = some t) :
    Tracks L' (r :: log) := by
  have hpos : 0 < L.cache.capacity := by rw [h.capacity]; decide
  refine ⟨by rw [hcache]; exact h.capacity, ?_, fun i t' hi => ?_⟩
  · rw [hcache, List.map_cons, ← h.capacity]
    exact keys_use hpos (h.capacity ▸ h.keys) _ _
  · rw [hcache] at hi
    by_cases hne : i = r.limitInstance
    · subst hne
      rw [Cache.peek_use_self hpos] at hi
      rw [htime, hi]
    · rw [lastAllowed_cons_of_ne (Ne.symm hne)]
      exact h.times i t' (Cache.peek_of_peek_use hne hi)

theorem Tracks.register (hstrategy : L.limitingStrategy.IsInterval interval)
    (h : Tracks L log) (now : Nat) (i : LimitInstance) :
    Tracks (L.register now i).1 (⟨i, now, (L.register now i).2.isOk⟩ :: log) := by
  rcases register_spec hstrategy now i with ⟨t, allowIn, hpeek, -, heq⟩ | ⟨-, heq⟩ <;> rw [heq]
  · -- a refused attempt is logged, but is not the latest one that was allowed
    have hold : lastAllowed (⟨i, now, false⟩ :: log) i = lastAllowed log i :=
      List.find?_cons_of_neg (by simp)
    refine h.use rfl ?_
    exact hold ▸ h.times i t hpeek
  · have hnew : lastAllowed (⟨i, now, true⟩ :: log) i = some ⟨i, now, true⟩ :=
      List.find?_cons_of_pos (by simp)
    exact h.use rfl (congrArg (Option.map (·.time)) hnew)

theorem limitingStrategy_register (hstrategy : L.limitingStrategy.IsInterval interval)
    (now : Nat) (i : LimitInstance) :
    (L.register now i).1.limitingStrategy = L.limitingStrategy := by
  rcases register_spec hstrategy now i with ⟨t, allowIn, -, -, heq⟩ | ⟨-, heq⟩ <;> rw [heq]

/-! ## A history of registrations -/

theorem tracks_foldl {strategy : LimitingStrategy} (h : strategy.IsInterval interval)
    (rs : List (Nat × LimitInstance)) (hL : L.limitingStrategy = strategy)
    (htracks : Tracks L log) :
    (rs.foldl registerNext (L, log)).1.limitingStrategy = strategy ∧
      Tracks (rs.foldl registerNext (L, log)).1 (rs.foldl registerNext (L, log)).2 := by
  induction rs generalizing L log with
  | nil => exact ⟨hL, htracks⟩
  | cons r rs ih =>
    have hint : L.limitingStrategy.IsInterval interval := by rw [hL]; exact h
    exact ih ((limitingStrategy_register hint r.1 r.2).trans hL) (htracks.register hint r.1 r.2)

/-- **The decisions are determined by the history.** A registration is refused iff its value was
registered before, fewer than `CACHE_SIZE` others were registered since then, and less than the
interval has passed since its latest registration that was allowed. -/
theorem register_refused_iff (strategy : LimitingStrategy) (interval : Nat)
    (hstrategy : strategy.IsInterval interval) (rs : List (Nat × LimitInstance)) (now : Nat)
    (i : LimitInstance) :
    (∃ allowIn, ((registerAll strategy rs).1.register now i).2 = .error (.tooManyRequests allowIn)) ↔
      (∃ r ∈ (registerAll strategy rs).2, r.limitInstance = i) ∧
        (registeredSince (registerAll strategy rs).2 i).toFinset.card < cacheSize ∧
        ∃ r, lastAllowed (registerAll strategy rs).2 i = some r ∧ now - r.time < interval := by
  obtain ⟨hstrat, htracks⟩ := tracks_foldl hstrategy rs rfl (tracks_new strategy)
  change (registerAll strategy rs).1.limitingStrategy = strategy at hstrat
  change Tracks (registerAll strategy rs).1 (registerAll strategy rs).2 at htracks
  generalize registerAll strategy rs = s at hstrat htracks
  obtain ⟨L, log⟩ := s
  have hint : L.limitingStrategy.IsInterval interval := by rw [hstrat]; exact hstrategy
  have hseen : L.cache.peek i ≠ none ↔
      (∃ r ∈ log, r.limitInstance = i) ∧ (registeredSince log i).toFinset.card < cacheSize := by
    rw [Ne, Cache.peek_eq_none_iff, not_not, htracks.keys, mem_take_recent, List.mem_map]
    rfl
  rw [← and_assoc, ← hseen]
  constructor
  · rintro ⟨allowIn, herror⟩
    rcases register_spec hint now i with ⟨t, -, hpeek, hlt, -⟩ | ⟨-, hok⟩
    · obtain ⟨r, hr, rfl⟩ := Option.map_eq_some_iff.1 (htracks.times i t hpeek)
      exact ⟨by rw [hpeek]; simp, r, hr, hlt⟩
    · rw [hok] at herror
      cases herror
  · rintro ⟨hne, r, hr, hlt⟩
    obtain ⟨t, hpeek⟩ := Option.ne_none_iff_exists'.1 hne
    have ht : r.time = t := by
      have := htracks.times i t hpeek
      rw [hr] at this
      exact Option.some.inj this
    rcases register_spec hint now i with ⟨t', allowIn, -, -, herror⟩ | ⟨hle, -⟩
    · exact ⟨allowIn, by rw [herror]⟩
    · have := hle t hpeek
      omega

/-- `IntervalStrategy`. -/
def intervalStrategy (interval : Nat) : LimitingStrategy where
  shouldAllow now _ lastSeen :=
    match lastSeen with
    | none => .ok ()
    | some t => if interval ≤ now - t then .ok () else .error (interval - (now - t))

theorem intervalStrategy_isInterval (interval : Nat) :
    (intervalStrategy interval).IsInterval interval := by
  intro now i lastSeen
  cases lastSeen with
  | none => simp [intervalStrategy]
  | some t =>
    simp only [intervalStrategy, Option.some.injEq]
    split
    · rename_i h
      exact ⟨fun _ t' ht => ht ▸ h, fun _ => rfl⟩
    · rename_i h
      exact ⟨fun herr => (by cases herr), fun hall => absurd (hall t rfl) h⟩

/-- The refused attempt at time 4 keeps the value in the cache, but its time is still 1. -/
theorem register_refused_iff_repeated :
    ∃ allowIn, ((registerAll (intervalStrategy 5) [(1, .bytes [1]), (4, .bytes [1])]).1.register 5
      (.bytes [1])).2 = .error (.tooManyRequests allowIn) := by
  refine (register_refused_iff (intervalStrategy 5) 5 (intervalStrategy_isInterval 5) _ 5
    (.bytes [1])).2 ⟨?_, ?_, ⟨.bytes [1], 1, true⟩, ?_, ?_⟩
  · exact ⟨⟨.bytes [1], 4, false⟩, List.mem_cons_self, rfl⟩
  · decide
  · decide
  · decide

end Rest.RestCallLimiter
