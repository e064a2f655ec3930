import Mathlib.Data.List.Count
import Mathlib.Data.List.Induction
import Mathlib.Data.List.TakeWhile

/-!
# The rate limiter (`RateLimiter.cs`)

The times at which traces were allowed are in a queue. A call first drops
those that are more than one interval ago, then allows the trace when fewer
than the limit are left.

## Implementation notes

Times are ticks of 100 ns. Calls come one after another, so that no other
thread has refreshed in between and `_refreshEvent` is always set.
-/

namespace SignalFxTracing.Sampling

structure RateLimiter where
  maxTracesPerInterval : Int
  intervalQueue : List Int
  windowBegin : Int
  lastRefresh : Int
  windowChecks : Nat
  windowAllowed : Nat
  previousWindowChecks : Nat
  previousWindowAllowed : Nat

namespace RateLimiter

/-- One second. -/
def interval : Int := 10000000

/-- The constructor, at the time `now`. -/
def create (maxTracesPerInterval : Option Int) (now : Int) : RateLimiter where
  maxTracesPerInterval := maxTracesPerInterval.getD 100
  intervalQueue := []
  windowBegin := now
  lastRefresh := now
  windowChecks := 0
  windowAllowed := 0
  previousWindowChecks := 0
  previousWindowAllowed := 0

/-- The statistical window has passed. -/
def shiftWindow (now : Int) (s : RateLimiter) : RateLimiter :=
  if interval ≤ now - s.windowBegin then
    { s with
      previousWindowAllowed := s.windowAllowed
      previousWindowChecks := s.windowChecks
      windowAllowed := 0
      windowChecks := 0
      windowBegin := now }
  else s

/-- `WaitForRefresh`, which reads the time `now`. -/
def waitForRefresh (now : Int) (s : RateLimiter) : RateLimiter :=
  let s := shiftWindow now { s with lastRefresh := now }
  { s with intervalQueue := s.intervalQueue.dropWhile fun time => interval < now - time }

/-- `Allowed`: the time is read once to refresh, and again to record an allowed trace. -/
def allowed (refresh record : Int) (s : RateLimiter) : Bool × RateLimiter :=
  if s.maxTracesPerInterval = 0 then (false, s)
  else if s.maxTracesPerInterval < 0 then (true, s)
  else
    let s := waitForRefresh refresh s
    let s := { s with windowChecks := s.windowChecks + 1 }
    if s.maxTracesPerInterval ≤ s.intervalQueue.length then (false, s)
    else
      (true, { s with
        intervalQueue := s.intervalQueue ++ [record]
        windowAllowed := s.windowAllowed + 1 })

/-- The times that a call reads; the second one when the trace is allowed. -/
structure Call where
  refresh : Int
  record : Int

/-- The calls of a run with their results. -/
def outcomes : RateLimiter → List Call → List (Call × Bool)
  | _, [] => []
  | s, call :: calls =>
      let (result, s) := s.allowed call.refresh call.record
      (call, result) :: outcomes s calls

/-- The times that are read. -/
def readings (history : List (Call × Bool)) : List Int :=
  history.flatMap fun (call, result) =>
    call.refresh :: if result then [call.record] else []

/-- The times at which allowed traces are recorded. -/
def recorded (history : List (Call × Bool)) : List Int :=
  history.filterMap fun (call, result) => if result then some call.record else none

/-- The number of recorded traces in the closed interval that starts at `start`. -/
def countIn (start : Int) (history : List (Call × Bool)) : Nat :=
  (recorded history).countP fun time => start ≤ time ∧ time ≤ start + interval

section Clock

theorem recorded_append (before after : List (Call × Bool)) :
    recorded (before ++ after) = recorded before ++ recorded after :=
  List.filterMap_append ..

theorem readings_append (before after : List (Call × Bool)) :
    readings (before ++ after) = readings before ++ readings after :=
  List.flatMap_append ..

theorem mem_readings_of_recorded {history : List (Call × Bool)} {time : Int}
    (h : time ∈ recorded history) : time ∈ readings history := by
  obtain ⟨⟨call, result⟩, hmem, htime⟩ := List.mem_filterMap.mp h
  cases result with
  | false => cases htime
  | true =>
      obtain rfl := Option.some.inj htime
      exact List.mem_flatMap.mpr ⟨_, hmem, List.mem_cons_of_mem _ List.mem_cons_self⟩

/-- What is recorded is read, in this order. -/
theorem recorded_sublist (history : List (Call × Bool)) :
    (recorded history).Sublist (readings history) := by
  induction history with
  | nil => exact List.Sublist.refl _
  | cons outcome history ih =>
      obtain ⟨call, result⟩ := outcome
      cases result with
      | false => exact ih.cons call.refresh
      | true => exact (ih.cons_cons call.record).cons call.refresh

end Clock

section Queue

/-- On times in order, those at the front that are too old are all that are too old. -/
theorem dropWhile_eq_filter {times : List Int} (h : times.Pairwise (· ≤ ·)) (now : Int) :
    (times.dropWhile fun time => interval < now - time) =
      times.filter fun time => now - interval ≤ time := by
  induction times with
  | nil => rfl
  | cons time times ih =>
      obtain ⟨hle, htimes⟩ := List.pairwise_cons.mp h
      by_cases hold : interval < now - time
      · rw [List.dropWhile_cons_of_pos (by simpa using hold),
          List.filter_cons_of_neg (by simp; omega)]
        exact ih htimes
      · rw [List.dropWhile_cons_of_neg (by simpa using hold),
          List.filter_eq_self.mpr]
        intro t ht
        rcases List.mem_cons.mp ht with rfl | ht
        · simp
          omega
        · have hle := hle t ht
          simp
          omega

theorem waitForRefresh_fields (now : Int) (s : RateLimiter) :
    (waitForRefresh now s).maxTracesPerInterval = s.maxTracesPerInterval ∧
      (waitForRefresh now s).lastRefresh = now ∧
      (waitForRefresh now s).intervalQueue =
        s.intervalQueue.dropWhile fun time => interval < now - time := by
  rw [waitForRefresh, shiftWindow]
  split_ifs
  all_goals exact ⟨rfl, rfl, rfl⟩

/-- The queue holds what was recorded within an interval before the last refresh. -/
structure Inv (n start : Int) (history : List (Call × Bool)) (s : RateLimiter) : Prop where
  limit : s.maxTracesPerInterval = n
  queue : s.intervalQueue =
    (recorded history).filter fun time => s.lastRefresh - interval ≤ time
  lastRefresh : s.lastRefresh ∈ start :: readings history

theorem inv_create (n start : Int) : Inv n start [] (create (some n) start) where
  limit := rfl
  queue := rfl
  lastRefresh := List.mem_cons_self

variable {n start : Int} {history : List (Call × Bool)} {s : RateLimiter} {call : Call}

/-- After a refresh the queue holds what was recorded within an interval. -/
theorem Inv.refreshed (h : Inv n start history s)
    (hclock : (start :: readings history).Pairwise (· ≤ ·))
    (hnow : ∀ t ∈ start :: readings history, t ≤ call.refresh) :
    (waitForRefresh call.refresh s).intervalQueue =
      (recorded history).filter fun time => call.refresh - interval ≤ time := by
  have hsorted : s.intervalQueue.Pairwise (· ≤ ·) := by
    rw [h.queue]
    exact ((List.pairwise_cons.mp hclock).2.sublist (recorded_sublist history)).filter _
  have hlast := hnow _ h.lastRefresh
  rw [(waitForRefresh_fields call.refresh s).2.2, dropWhile_eq_filter hsorted, h.queue,
    List.filter_filter]
  apply List.filter_congr
  intro time _
  simp only [Bool.and_eq_left_iff_imp, decide_eq_true_eq]
  omega

/-- As many traces are in the queue then as are recorded in the interval up to the refresh. -/
theorem Inv.length_refreshed (h : Inv n start history s)
    (hclock : (start :: readings history).Pairwise (· ≤ ·))
    (hnow : ∀ t ∈ start :: readings history, t ≤ call.refresh) :
    (waitForRefresh call.refresh s).intervalQueue.length =
      countIn (call.refresh - interval) history := by
  rw [h.refreshed hclock hnow, countIn, ← List.countP_eq_length_filter]
  apply List.countP_congr
  intro time htime
  have hle := hnow time (List.mem_cons_of_mem _ (mem_readings_of_recorded htime))
  simp only [decide_eq_true_eq]
  omega

theorem allowed_eq (hn : 0 < n) (h : Inv n start history s)
    (hclock : (start :: readings history).Pairwise (· ≤ ·))
    (hnow : ∀ t ∈ start :: readings history, t ≤ call.refresh) :
    (s.allowed call.refresh call.record).1 = true ↔
      (countIn (call.refresh - interval) history : Int) < n := by
  have hlimit := (waitForRefresh_fields call.refresh s).1.trans h.limit
  rw [allowed, if_neg (by rw [h.limit]; omega), if_neg (by rw [h.limit]; omega)]
  dsimp only
  rw [hlimit, h.length_refreshed hclock hnow]
  split_ifs with hfull
  · simp only [false_iff]
    omega
  · simp only [true_iff]
    omega

/-- A call keeps the invariant, with what it has recorded. -/
theorem Inv.allowed (hn : 0 < n) (h : Inv n start history s)
    (hclock : (start :: readings history).Pairwise (· ≤ ·))
    (hnow : ∀ t ∈ start :: readings history, t ≤ call.refresh)
    (hrecord : (s.allowed call.refresh call.record).1 = true → call.refresh ≤ call.record) :
    Inv n start (history ++ [(call, (s.allowed call.refresh call.record).1)])
      (s.allowed call.refresh call.record).2 := by
  obtain ⟨hmax, hlast, -⟩ := waitForRefresh_fields call.refresh s
  have hqueue := h.refreshed hclock hnow
  have hread : ∀ result, call.refresh ∈ start :: readings (history ++ [(call, result)]) := by
    intro result
    rw [readings_append]
    exact List.mem_cons_of_mem _ (List.mem_append_right _ List.mem_cons_self)
  rw [RateLimiter.allowed, if_neg (by rw [h.limit]; omega), if_neg (by rw [h.limit]; omega)]
    at hrecord ⊢
  dsimp only at hrecord ⊢
  split_ifs at hrecord ⊢
  · constructor
    · exact hmax.trans h.limit
    · dsimp only
      rw [hlast, hqueue, recorded_append]
      simp [recorded]
    · dsimp only
      rw [hlast]
      exact hread false
  · have hrecent : call.refresh - interval ≤ call.record := by
      have hle := hrecord rfl
      rw [interval]
      omega
    constructor
    · exact hmax.trans h.limit
    · dsimp only
      have hkept : [call.record].filter (fun time => call.refresh - interval ≤ time) =
          [call.record] :=
        List.filter_eq_self.mpr fun time htime => by
          obtain rfl := List.mem_singleton.mp htime
          exact decide_eq_true hrecent
      rw [hlast, hqueue, recorded_append, List.filter_append]
      exact congrArg _ hkept.symm
    · dsimp only
      rw [hlast]
      exact hread true

end Queue

section Runs

variable {n start : Int}

/-- In a run on a clock that does not go back, a trace is allowed exactly when fewer than the limit
have been recorded in the interval up to the refresh. -/
theorem outcomes_iff (hn : 0 < n) {history : List (Call × Bool)} {s : RateLimiter}
    {calls : List Call} (h : Inv n start history s)
    (hclock : (start :: readings (history ++ outcomes s calls)).Pairwise (· ≤ ·))
    {before after : List (Call × Bool)} {call : Call} {result : Bool}
    (hsplit : outcomes s calls = before ++ (call, result) :: after) :
    result = true ↔ (countIn (call.refresh - interval) (history ++ before) : Int) < n := by
  induction calls generalizing history s before with
  | nil => cases before <;> cases hsplit
  | cons next calls ih =>
      rw [outcomes] at hclock hsplit
      dsimp only at hclock hsplit
      have happend : history ++ (next, (s.allowed next.refresh next.record).1) ::
          outcomes (s.allowed next.refresh next.record).2 calls =
            (history ++ [(next, (s.allowed next.refresh next.record).1)]) ++
              outcomes (s.allowed next.refresh next.record).2 calls := by simp
      have hreadings := hclock
      rw [readings_append, ← List.cons_append, List.pairwise_append] at hreadings
      obtain ⟨hbefore, hafter, hcross⟩ := hreadings
      have hnow : ∀ t ∈ start :: readings history, t ≤ next.refresh :=
        fun t ht => hcross t ht _ List.mem_cons_self
      cases before with
      | nil =>
          obtain ⟨hnext, -⟩ := List.cons.inj hsplit
          obtain ⟨rfl, rfl⟩ := Prod.mk.inj hnext
          rw [List.append_nil]
          exact allowed_eq hn h hbefore hnow
      | cons outcome before =>
          obtain ⟨rfl, hrest⟩ := List.cons.inj hsplit
          rw [happend] at hclock
          have hrecord : (s.allowed next.refresh next.record).1 = true →
              next.refresh ≤ next.record := by
            intro hallowed
            have hpair := (List.pairwise_cons.mp hafter).1
            apply hpair
            rw [hallowed]
            exact List.mem_cons_self
          have hih := ih (h.allowed hn hbefore hnow hrecord) hclock hrest
          rwa [List.append_assoc] at hih

/-- Then no closed interval holds more than the limit. -/
theorem countIn_le (hn : 0 < n) {history : List (Call × Bool)}
    (hclock : (readings history).Pairwise (· ≤ ·))
    (h : ∀ before call after, history = before ++ (call, true) :: after →
      (countIn (call.refresh - interval) before : Int) < n) (a : Int) :
    (countIn a history : Int) ≤ n := by
  induction history using List.reverseRecOn with
  | nil =>
      have hzero : (countIn a [] : Int) = 0 := rfl
      omega
  | append_singleton history outcome ih =>
      obtain ⟨call, result⟩ := outcome
      rw [readings_append, List.pairwise_append] at hclock
      obtain ⟨hbefore, hafter, hcross⟩ := hclock
      have hih := ih hbefore fun before c after hsplit =>
        h before c (after ++ [(call, result)]) (by rw [hsplit]; simp)
      have hcount : countIn a (history ++ [(call, result)]) =
          countIn a history + countIn a [(call, result)] := by
        rw [countIn, recorded_append, List.countP_append]
        rfl
      cases result with
      | false =>
          rw [hcount]
          simpa [countIn, recorded] using hih
      | true =>
          have hlt := h history call [] rfl
          have hrecord : call.refresh ≤ call.record :=
            (List.pairwise_cons.mp hafter).1 _ List.mem_cons_self
          by_cases hin : a ≤ call.record ∧ call.record ≤ a + interval
          · have hle : countIn a history ≤ countIn (call.refresh - interval) history := by
              apply List.countP_mono_left
              intro time htime
              have hold := hcross time (mem_readings_of_recorded htime) _ List.mem_cons_self
              simp only [decide_eq_true_eq]
              omega
            have hone : countIn a [(call, true)] = 1 := by
              simp [countIn, recorded, hin]
            omega
          · have hzero : countIn a [(call, true)] = 0 := by
              simpa [countIn, recorded] using hin
            omega

/-- A trace is allowed exactly when fewer than the limit were recorded in the second up to the
refresh, and no closed second holds more than the limit. -/
theorem rateLimiter_run (hn : 0 < n) (calls : List Call)
    (hclock : (start :: readings (outcomes (create (some n) start) calls)).Pairwise (· ≤ ·)) :
    (∀ before call result after,
        outcomes (create (some n) start) calls = before ++ (call, result) :: after →
          (result = true ↔ (countIn (call.refresh - interval) before : Int) < n)) ∧
      ∀ a, (countIn a (outcomes (create (some n) start) calls) : Int) ≤ n := by
  have hexact : ∀ before call result after,
      outcomes (create (some n) start) calls = before ++ (call, result) :: after →
        (result = true ↔ (countIn (call.refresh - interval) before : Int) < n) := by
    intro before call result after hsplit
    have hiff := outcomes_iff hn (inv_create n start) hclock hsplit
    rwa [List.nil_append] at hiff
  refine ⟨hexact, countIn_le hn (List.pairwise_cons.mp hclock).2 ?_⟩
  intro before call after hsplit
  exact (hexact before call true after hsplit).mp rfl

/-- Two traces at one instant, a third that is rejected, and a fourth more than a second later. -/
theorem rateLimiter_burst :
    let calls := [⟨5, 5⟩, ⟨5, 6⟩, ⟨10000005, 10000005⟩, ⟨10000006, 10000007⟩]
    (outcomes (create (some 2) 0) calls).map Prod.snd = [true, true, false, true] ∧
      ∀ a, (countIn a (outcomes (create (some 2) 0) calls) : Int) ≤ 2 := by
  intro calls
  exact ⟨by decide, (rateLimiter_run (by decide) calls (by decide)).2⟩

end Runs

end RateLimiter

end SignalFxTracing.Sampling
