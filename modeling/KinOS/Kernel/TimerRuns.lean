import KinOS.Lib.TransitionSystem
import KinOS.Kernel.Timer

/-!
# Runs of the timer manager

`std::priority_queue` leaves open which of the timers with the least timeout is on top. `LoopStep` takes any of them, so
what holds of its runs holds of `tickLoop` (`tickLoop_runs`) and of every other order of equal timeouts.

| here | there |
| --- | --- |
| `Top`         | `timers_.top()`: no timer is above it by `operator<` (`kernel/timer.hpp:27-29`) |
| `LoopStep`    | one round of the loop of `Tick` (`timer.cpp:63-83`) |
| `Step`        | `AddTimer` and `Tick` (`timer.cpp:55-86`) |
| `initialized` | `InitializeTask` (`task.cpp:334-341`) |
-/

namespace KinOS.TimerManager

open TransitionSystem

/-! ## The loop of `Tick` -/

def Top (timers : Multiset Timer) (t : Timer) : Prop := t ∈ timers ∧ ∀ u ∈ timers, t.timeout ≤ u.timeout

/-- `task_manager->SendMessage(t.TaskID(), m)`. -/
def send (t : Timer) : UInt64 × Message := (t.taskId, timeoutMessage t)

/-- `Timer{tick_ + kTaskTimerPeriod, kTaskTimerValue, 1}`. -/
def taskTimer (tick : UInt64) : Timer := ⟨tick + kTaskTimerPeriod, kTaskTimerValue, 1⟩

structure Loop where
  timers : Multiset Timer
  sent : List (UInt64 × Message)
  taskTimerTimeout : Bool

inductive LoopStep (tick : UInt64) : Loop → Loop → Prop
  | task {l : Loop} {t : Timer} : Top l.timers t → t.timeout ≤ tick → t.value = kTaskTimerValue →
      LoopStep tick l { l with timers := taskTimer tick ::ₘ l.timers.erase t, taskTimerTimeout := true }
  | send {l : Loop} {t : Timer} : Top l.timers t → t.timeout ≤ tick → t.value ≠ kTaskTimerValue →
      LoopStep tick l { l with timers := l.timers.erase t, sent := l.sent ++ [send t] }

/-- The loop's `break`. -/
def Loop.Left (tick : UInt64) (l : Loop) : Prop := ∃ t, Top l.timers t ∧ tick < t.timeout

/-- `Tick` comes to its end whatever is on top. -/
def TickEnds (tick : UInt64) (timers : Multiset Timer) : Prop :=
  AllPaths (LoopStep tick) (Loop.Left tick) ⟨timers, [], false⟩

/-! ## Runs -/

structure Timers where
  tick : UInt64
  timers : Multiset Timer

inductive Event
  | add (t : Timer)
  | tick (sent : List (UInt64 × Message)) (taskTimerTimeout : Bool)

inductive Step : Timers → Event → Timers → Prop
  | add {s : Timers} {t : Timer} : Step s (.add t) { s with timers := t ::ₘ s.timers }
  | tick {s : Timers} {l : Loop} : Relation.ReflTransGen (LoopStep (s.tick + 1)) ⟨s.timers, [], false⟩ l →
      l.Left (s.tick + 1) → Step s (.tick l.sent l.taskTimerTimeout) ⟨s.tick + 1, l.timers⟩

/-- The constructor's timer. -/
def sentinel : Timer := ⟨0xffffffffffffffff, 0, 0⟩

/-- After `InitializeTask` at this tick. -/
def initialized (tick : UInt64) : Timers := ⟨tick, {sentinel, taskTimer tick}⟩

/-- Any timer but one with the task timer's value. -/
def Event.Allowed : Event → Prop
  | .add t => t.value ≠ kTaskTimerValue
  | .tick _ _ => True

/-- A run of allowed calls in which `tick_` stays below its greatest value. -/
inductive Run (start : UInt64) : List Event → Timers → Prop
  | init : start < 0xffffffffffffffff → Run start [] (initialized start)
  | step {es : List Event} {e : Event} {s s' : Timers} : Run start es s → e.Allowed → Step s e s' →
      s'.tick < 0xffffffffffffffff → Run start (es ++ [e]) s'

/-! ## What the loop has done -/

theorem erase_top {rest : Multiset Timer} {x t : Timer} (h : t ∈ x ::ₘ rest) (hx : x.value = kTaskTimerValue)
    (ht : t.value ≠ kTaskTimerValue) : t ∈ rest ∧ (x ::ₘ rest).erase t = x ::ₘ rest.erase t := by
  have hne : x ≠ t := by
    rintro rfl
    exact ht hx
  exact ⟨(Multiset.mem_cons.mp h).resolve_left (Ne.symm hne), Multiset.erase_cons_tail rest hne⟩

/-- From a heap of the task timer `x` and the timers `U`, the loop has taken some of `U` in order and has `x` or its
successor. -/
structure Handled (tick : UInt64) (x : Timer) (U : Multiset Timer) (l : Loop) (fired : List Timer) (y : Timer)
    (rest : Multiset Timer) : Prop where
  timers : l.timers = y ::ₘ rest
  split : U = ↑fired + rest
  sent : l.sent = fired.map send
  sorted : fired.Pairwise (·.timeout ≤ ·.timeout)
  due : ∀ t ∈ fired, t.timeout ≤ tick ∧ ∀ u ∈ rest, t.timeout ≤ u.timeout
  task : l.taskTimerTimeout = false ∧ y = x ∨ l.taskTimerTimeout = true ∧ x.timeout ≤ tick ∧ y = taskTimer tick

section Loop

variable {tick : UInt64} {x y : Timer} {U rest : Multiset Timer} {l l' : Loop} {fired : List Timer}

theorem Handled.value (h : Handled tick x U l fired y rest) (hx : x.value = kTaskTimerValue) :
    y.value = kTaskTimerValue := by
  rcases h.task with ⟨-, rfl⟩ | ⟨-, -, rfl⟩
  · exact hx
  · rfl

theorem Handled.step (hx : x.value = kTaskTimerValue) (hU : ∀ u ∈ U, u.value ≠ kTaskTimerValue)
    (h : Handled tick x U l fired y rest) (hs : LoopStep tick l l') :
    ∃ fired' y' rest', Handled tick x U l' fired' y' rest' := by
  have hy := h.value hx
  cases hs with
  | @task t htop hdue hv =>
    have hmem := htop.1
    rw [h.timers] at hmem
    have ht : t = y := by
      refine (Multiset.mem_cons.mp hmem).resolve_right fun hr => hU t ?_ hv
      rw [h.split]
      exact Multiset.mem_add.mpr (.inr hr)
    subst ht
    refine ⟨fired, taskTimer tick, rest, ?_, h.split, h.sent, h.sorted, h.due, .inr ⟨rfl, ?_, rfl⟩⟩
    · simp only [h.timers, Multiset.erase_cons_head]
    · rcases h.task with ⟨-, rfl⟩ | ⟨-, hx', -⟩
      · exact hdue
      · exact hx'
  | @send t htop hdue hv =>
    have hmem := htop.1
    rw [h.timers] at hmem
    obtain ⟨hr, herase⟩ := erase_top hmem hy hv
    have hleast : ∀ u ∈ rest, t.timeout ≤ u.timeout := fun u hu => htop.2 u (by
      rw [h.timers]
      exact Multiset.mem_cons_of_mem hu)
    refine ⟨fired ++ [t], y, rest.erase t, ?_, ?_, ?_, ?_, fun u hu => ?_, h.task⟩
    · simp only [h.timers, herase]
    · rw [← Multiset.coe_add, Multiset.add_assoc, Multiset.coe_singleton, Multiset.singleton_add, Multiset.cons_erase hr]
      exact h.split
    · simp only [h.sent, List.map_append, List.map_cons, List.map_nil]
    · refine List.pairwise_append.mpr ⟨h.sorted, List.pairwise_singleton _ _, fun u hu v hv => ?_⟩
      obtain rfl := List.mem_singleton.mp hv
      exact (h.due u hu).2 v hr
    · rcases List.mem_append.mp hu with hu | hu
      · exact ⟨(h.due u hu).1, fun v hv => (h.due u hu).2 v (Multiset.mem_of_mem_erase hv)⟩
      · obtain rfl := List.mem_singleton.mp hu
        exact ⟨hdue, fun v hv => hleast v (Multiset.mem_of_mem_erase hv)⟩

theorem loop_handled (hx : x.value = kTaskTimerValue) (hU : ∀ u ∈ U, u.value ≠ kTaskTimerValue)
    (hrun : Relation.ReflTransGen (LoopStep tick) ⟨x ::ₘ U, [], false⟩ l) :
    ∃ fired y rest, Handled tick x U l fired y rest := by
  refine invariant (I := fun l => ∃ fired y rest, Handled tick x U l fired y rest)
    ⟨[], x, U, rfl, by simp, rfl, .nil, by simp, .inl ⟨rfl, rfl⟩⟩ ?_ hrun
  rintro l l' ⟨fired, y, rest, h⟩ hs
  exact h.step hx hU hs

/-- The task timer after a `Tick`. -/
def nextTask (tick : UInt64) (x : Timer) : Timer := if x.timeout ≤ tick then taskTimer tick else x

/-- **What a `Tick` does**: it sends for the timers that are due, in order, and keeps the others. -/
theorem loop_spec (hx : x.value = kTaskTimerValue) (hU : ∀ u ∈ U, u.value ≠ kTaskTimerValue)
    (hrun : Relation.ReflTransGen (LoopStep tick) ⟨x ::ₘ U, [], false⟩ l) (hleft : l.Left tick) :
    (∃ fired : List Timer, l.sent = fired.map send ∧ fired.Pairwise (·.timeout ≤ ·.timeout) ∧
      (fired : Multiset Timer) = U.filter (·.timeout ≤ tick)) ∧
    l.timers = nextTask tick x ::ₘ U.filter (tick < ·.timeout) ∧ (l.taskTimerTimeout = true ↔ x.timeout ≤ tick) ∧
    tick < (nextTask tick x).timeout := by
  obtain ⟨fired, y, rest, h⟩ := loop_handled hx hU hrun
  obtain ⟨t, htop, hlt⟩ := hleft
  have hlate : ∀ u ∈ l.timers, tick < u.timeout := fun u hu => UInt64.lt_of_lt_of_le hlt (htop.2 u hu)
  rw [h.timers] at hlate
  have hyl := hlate y (Multiset.mem_cons_self ..)
  have hrest : ∀ u ∈ rest, tick < u.timeout := fun u hu => hlate u (Multiset.mem_cons_of_mem hu)
  have hy : y = nextTask tick x ∧ (l.taskTimerTimeout = true ↔ x.timeout ≤ tick) := by
    unfold nextTask
    rcases h.task with ⟨hf, rfl⟩ | ⟨hf, hd, rfl⟩
    · have hnd : ¬ y.timeout ≤ tick := UInt64.not_le.mpr hyl
      rw [if_neg hnd, hf]
      exact ⟨rfl, by simp [hnd]⟩
    · rw [if_pos hd, hf]
      exact ⟨rfl, by simp [hd]⟩
  refine ⟨⟨fired, h.sent, h.sorted, ?_⟩, ?_, hy.2, hy.1 ▸ hyl⟩
  · rw [h.split, Multiset.filter_add, Multiset.filter_eq_self.mpr fun t ht => (h.due t (Multiset.mem_coe.mp ht)).1,
      Multiset.filter_eq_nil.mpr fun u hu => UInt64.not_le.mpr (hrest u hu), Multiset.add_zero]
  · rw [h.timers, hy.1, h.split, Multiset.filter_add, Multiset.filter_eq_self.mpr hrest,
      Multiset.filter_eq_nil.mpr fun u hu => UInt64.not_lt.mpr (h.due u (Multiset.mem_coe.mp hu)).1, Multiset.zero_add]

end Loop

/-! ## When it ends -/

theorem exists_top {m : Multiset Timer} (h : m ≠ 0) : ∃ t, Top m t := by
  obtain ⟨t, ht, hle⟩ := Multiset.exists_min_image (fun t : Timer => t.timeout.toNat) h
  exact ⟨t, ht, fun u hu => UInt64.le_iff_toNat_le.mpr (hle u hu)⟩

section Ends

variable {tick : UInt64} {m : Multiset Timer}

/-- A task timer is due and its successor would be due at once: `tick_ + kTaskTimerPeriod` overflows. -/
def Stuck (tick : UInt64) (m : Multiset Timer) : Prop :=
  ∃ t ∈ m, t.value = kTaskTimerValue ∧ t.timeout ≤ tick ∧ (taskTimer tick).timeout ≤ tick

/-- The timers that are due. -/
def dueCount (tick : UInt64) (l : Loop) : Nat := (l.timers.filter (·.timeout ≤ tick)).card

theorem dueCount_erase {l : Loop} {t : Timer} (ht : t ∈ l.timers) (hdue : t.timeout ≤ tick) :
    ((l.timers.erase t).filter (·.timeout ≤ tick)).card < dueCount tick l := by
  unfold dueCount
  conv_rhs => rw [← Multiset.cons_erase ht]
  rw [Multiset.filter_cons_of_pos (p := fun t : Timer => t.timeout ≤ tick) _ hdue, Multiset.card_cons]
  exact Nat.lt_succ_self _

/-- A round pops a timer that is due, and what it pushes is not. -/
theorem LoopStep.ok {l l' : Loop} (hlate : ∃ u ∈ l.timers, tick < u.timeout) (hok : ¬ Stuck tick l.timers)
    (hs : LoopStep tick l l') :
    ((∃ u ∈ l'.timers, tick < u.timeout) ∧ ¬ Stuck tick l'.timers) ∧ dueCount tick l' < dueCount tick l := by
  obtain ⟨u, hu, hlt⟩ := hlate
  have hkeep : ∀ {t : Timer}, t.timeout ≤ tick → u ∈ l.timers.erase t := by
    intro t hdue
    refine (Multiset.mem_erase_of_ne ?_).mpr hu
    rintro rfl
    exact UInt64.not_lt.mpr hdue hlt
  cases hs with
  | @task t htop hdue hv =>
    have hnext : ¬ (taskTimer tick).timeout ≤ tick := fun h => hok ⟨t, htop.1, hv, hdue, h⟩
    refine ⟨⟨⟨u, Multiset.mem_cons_of_mem (hkeep hdue), hlt⟩, ?_⟩, ?_⟩
    · rintro ⟨-, -, -, -, h⟩
      exact hnext h
    · have hlt := dueCount_erase htop.1 hdue
      unfold dueCount at hlt ⊢
      rwa [Multiset.filter_cons_of_neg (p := fun t : Timer => t.timeout ≤ tick) _ hnext]
  | @send t htop hdue hv =>
    refine ⟨⟨⟨u, hkeep hdue, hlt⟩, ?_⟩, dueCount_erase htop.1 hdue⟩
    rintro ⟨w, hw, h⟩
    exact hok ⟨w, Multiset.mem_of_mem_erase hw, h⟩

/-- While the task timer's successor is due, there is always one. -/
theorem Stuck.step {l l' : Loop} (h : Stuck tick l.timers) (hs : LoopStep tick l l') : Stuck tick l'.timers := by
  obtain ⟨w, hw, hv, hdue, hnext⟩ := h
  cases hs with
  | task => exact ⟨taskTimer tick, Multiset.mem_cons_self .., rfl, hnext, hnext⟩
  | @send t htop ht hne =>
    refine ⟨w, (Multiset.mem_erase_of_ne ?_).mpr hw, hv, hdue, hnext⟩
    rintro rfl
    exact hne hv

/-- **The loop ends unless it is stuck.** -/
theorem tickEnds_iff (hlate : ∃ u ∈ m, tick < u.timeout) : TickEnds tick m ↔ ¬ Stuck tick m := by
  constructor
  · intro hends hstuck
    have hleft : ∀ l : Loop, Stuck tick l.timers → ¬ l.Left tick := by
      rintro l ⟨w, hw, -, hdue, -⟩ ⟨t, htop, hlt⟩
      exact UInt64.not_lt.mpr (UInt64.le_trans (htop.2 w hw) hdue) hlt
    have hstep : ∀ l l' : Loop, Stuck tick l.timers → LoopStep tick l l' → Stuck tick l'.timers :=
      fun _ _ h hs => h.step hs
    exact AllPaths.not_of_invariant hstep hleft (s := ⟨m, [], false⟩) hstuck hends
  · intro hok
    refine AllPaths.of_measure (I := fun l => (∃ u ∈ l.timers, tick < u.timeout) ∧ ¬ Stuck tick l.timers)
      (dueCount tick) (fun _ _ h hs => hs.ok h.1 h.2) ?_ ⟨hlate, hok⟩
    rintro l ⟨⟨u, hu, -⟩, -⟩ hnot
    obtain ⟨t, htop⟩ := exists_top (m := l.timers) (by
      rintro h0
      rw [h0] at hu
      exact Multiset.notMem_zero u hu)
    have hdue : t.timeout ≤ tick := UInt64.not_lt.mp fun hlt => hnot ⟨t, htop, hlt⟩
    by_cases hv : t.value = kTaskTimerValue
    · exact ⟨_, .task htop hdue hv⟩
    · exact ⟨_, .send htop hdue hv⟩

end Ends

/-! ## The timers that wait -/

def Event.isTick : Event → Bool
  | .add _ => false
  | .tick _ _ => true

def Event.timer? : Event → Option Timer
  | .add t => some t
  | .tick _ _ => none

/-- `tick_` after the first `n` events. -/
def clock (start : UInt64) (es : List Event) (n : Nat) : Nat := start.toNat + (es.take n).countP Event.isTick

/-- No `Tick` after event `i` and among the first `n` events had `tick_ >= timeout`. -/
def NotDue (start : UInt64) (es : List Event) (n i : Nat) (t : Timer) : Prop :=
  ∀ k < n, i < k → (es[k]?.any Event.isTick) = true → clock start es (k + 1) < t.timeout.toNat

instance (start : UInt64) (es : List Event) (n i : Nat) (t : Timer) : Decidable (NotDue start es n i t) :=
  inferInstanceAs (Decidable (∀ k < n, i < k → (es[k]?.any Event.isTick) = true → clock start es (k + 1) < t.timeout.toNat))

/-- The timers added by the first `n` events, one for each `AddTimer`, that no `Tick` since has found due. -/
def waiting (start : UInt64) (es : List Event) (n : Nat) : List Timer :=
  (List.range n).filterMap fun i => (es[i]?.bind Event.timer?).filter fun t => NotDue start es n i t

section Waiting

variable {start : UInt64} {es fs : List Event} {e : Event} {n : Nat}

theorem clock_append (h : n ≤ es.length) : clock start (es ++ fs) n = clock start es n := by
  rw [clock, List.take_append_of_le_length h, clock]

theorem clock_snoc : clock start (es ++ [e]) (es.length + 1) = clock start es es.length + if e.isTick then 1 else 0 := by
  rw [clock, List.take_of_length_le (by simp), List.countP_append, List.countP_singleton, ← Nat.add_assoc, clock,
    List.take_length]

theorem notDue_append {i : Nat} {t : Timer} (h : n ≤ es.length) :
    NotDue start (es ++ fs) n i t ↔ NotDue start es n i t := by
  have hk : ∀ k < n, ((es ++ fs)[k]?.any Event.isTick = true → clock start (es ++ fs) (k + 1) < t.timeout.toNat) ↔
      (es[k]?.any Event.isTick = true → clock start es (k + 1) < t.timeout.toNat) := by
    intro k hk
    rw [List.getElem?_append_left (by omega), clock_append (by omega)]
  exact ⟨fun hd k hkn hi => (hk k hkn).mp (hd k hkn hi), fun hd k hkn hi => (hk k hkn).mpr (hd k hkn hi)⟩

theorem waiting_append (h : n ≤ es.length) : waiting start (es ++ fs) n = waiting start es n := by
  refine List.filterMap_congr fun i hi => ?_
  rw [List.getElem?_append_left (by have := List.mem_range.mp hi; omega)]
  simp only [notDue_append h]

theorem notDue_add {i : Nat} {t u : Timer} :
    NotDue start (es ++ [.add u]) (es.length + 1) i t ↔ NotDue start es es.length i t := by
  rw [← @notDue_append _ _ [.add u] _ _ _ (Nat.le_refl _)]
  refine ⟨fun h k hk => h k (by omega), fun h k hk hi ht => ?_⟩
  by_cases heq : k = es.length
  · subst heq
    simp [Event.isTick] at ht
  · exact h k (by omega) hi ht

/-- **An added timer waits.** -/
theorem waiting_add {t : Timer} :
    waiting start (es ++ [.add t]) (es.length + 1) = waiting start es es.length ++ [t] := by
  have hold : waiting start es es.length = (List.range es.length).filterMap fun i =>
      ((es ++ [.add t])[i]?.bind Event.timer?).filter fun u => NotDue start (es ++ [.add t]) (es.length + 1) i u := by
    refine List.filterMap_congr fun i hi => ?_
    rw [List.getElem?_append_left (List.mem_range.mp hi)]
    simp only [notDue_add]
  have hself : NotDue start (es ++ [.add t]) (es.length + 1) es.length t := by
    intro k hk hi
    omega
  have hlast : ((es ++ [Event.add t])[es.length]?.bind Event.timer?).filter (fun u =>
      NotDue start (es ++ [.add t]) (es.length + 1) es.length u) = some t := by
    rw [List.getElem?_concat_length]
    simp [Event.timer?, Option.filter, hself]
  rw [waiting, List.range_succ, List.filterMap_append, ← hold, List.filterMap_cons, hlast, List.filterMap_nil]

/-- **Those that are due are gone after a `Tick`.** -/
theorem waiting_tick {sent : List (UInt64 × Message)} {b : Bool} :
    waiting start (es ++ [.tick sent b]) (es.length + 1) =
      (waiting start es es.length).filter fun t => clock start es es.length + 1 < t.timeout.toNat := by
  have hclock : clock start (es ++ [.tick sent b]) (es.length + 1) = clock start es es.length + 1 := clock_snoc
  have hdue : ∀ i < es.length, ∀ t, NotDue start (es ++ [.tick sent b]) (es.length + 1) i t ↔
      NotDue start es es.length i t ∧ clock start es es.length + 1 < t.timeout.toNat := by
    intro i hi t
    rw [← @notDue_append _ _ [.tick sent b] _ _ _ (Nat.le_refl _), ← hclock]
    constructor
    · intro h
      exact ⟨fun k hk => h k (by omega), h es.length (by omega) hi (by simp [Event.isTick])⟩
    · rintro ⟨h, hlast⟩ k hk hik ht
      by_cases heq : k = es.length
      · subst heq
        exact hlast
      · exact h k (by omega) hik ht
  rw [waiting, List.range_succ, List.filterMap_append, waiting, List.filter_filterMap]
  have hlast : (List.filterMap (fun i => ((es ++ [Event.tick sent b])[i]?.bind Event.timer?).filter fun t =>
      NotDue start (es ++ [Event.tick sent b]) (es.length + 1) i t) [es.length]) = [] := by
    simp [Event.timer?]
  rw [hlast, List.append_nil]
  refine List.filterMap_congr fun i hi => ?_
  have hi := List.mem_range.mp hi
  rw [List.getElem?_append_left hi, Option.filter_filter]
  simp only [hdue i hi, Bool.decide_and]

end Waiting

/-! ## The states of a run -/

/-- The task timer is due within a period, a whole number of periods after the start. -/
structure Periodic (start tick : UInt64) (x : Timer) : Prop where
  value : x.value = kTaskTimerValue
  late : tick.toNat < x.timeout.toNat
  soon : x.timeout.toNat ≤ tick.toNat + kTaskTimerPeriod.toNat
  period : kTaskTimerPeriod.toNat ∣ x.timeout.toNat - start.toNat

/-- The heap holds a task timer, the sentinel and the timers that wait. -/
structure Reached (start : UInt64) (es : List Event) (s : Timers) (x : Timer) : Prop where
  time : s.tick.toNat = clock start es es.length
  below : s.tick < 0xffffffffffffffff
  timers : s.timers = x ::ₘ sentinel ::ₘ (waiting start es es.length : Multiset Timer)
  value : x.value = kTaskTimerValue
  users : ∀ t ∈ waiting start es es.length, t.value ≠ kTaskTimerValue
  task : start.toNat + kTaskTimerPeriod.toNat < 2 ^ 64 → Periodic start s.tick x

/-- What `Tick` number `j` of the events has to do: send for each waiting timer that is due, in order, and report the task
timer every period. -/
def Fires (start : UInt64) (es : List Event) (j : Nat) (sent : List (UInt64 × Message)) (b : Bool) : Prop :=
  (∃ fired : List Timer, sent = fired.map send ∧ fired.Pairwise (·.timeout ≤ ·.timeout) ∧
    fired.Perm ((waiting start es j).filter fun t => t.timeout.toNat ≤ clock start es (j + 1))) ∧
  (b = true ↔ kTaskTimerPeriod.toNat ∣ clock start es (j + 1) - start.toNat)

section Reached

variable {start : UInt64} {es : List Event} {s s' : Timers} {x : Timer}

theorem start_le_clock (n : Nat) : start.toNat ≤ clock start es n := Nat.le_add_right ..

theorem Reached.init (h : start < 0xffffffffffffffff) : Reached start [] (initialized start) (taskTimer start) := by
  refine ⟨rfl, h, ?_, rfl, by simp [waiting], fun hov => ?_⟩
  · rw [initialized, Multiset.pair_comm]
    rfl
  · have hsum : (taskTimer start).timeout.toNat = start.toNat + kTaskTimerPeriod.toNat := by
      rw [taskTimer, UInt64.toNat_add, Nat.mod_eq_of_lt hov]
    refine ⟨rfl, ?_, ?_, ?_⟩
    · rw [hsum]
      exact Nat.lt_add_of_pos_right (by decide)
    · rw [hsum]
      exact Nat.le_refl _
    · exact ⟨1, by rw [hsum, Nat.add_sub_cancel_left, Nat.mul_one]⟩

theorem Reached.next_toNat (h : Reached start es s x) : (s.tick + 1).toNat = s.tick.toNat + 1 := by
  have hb := UInt64.lt_iff_toNat_lt.mp h.below
  rw [UInt64.toNat_add]
  exact Nat.mod_eq_of_lt (Nat.lt_of_lt_of_le (Nat.succ_lt_succ hb) (by decide))

theorem Reached.add {t : Timer} (h : Reached start es s x) (ht : t.value ≠ kTaskTimerValue) :
    Reached start (es ++ [.add t]) { s with timers := t ::ₘ s.timers } x := by
  have hlen : (es ++ [Event.add t]).length = es.length + 1 := by simp
  refine ⟨?_, h.below, ?_, h.value, ?_, h.task⟩
  · rw [hlen, clock_snoc]
    exact h.time
  · rw [hlen, waiting_add, h.timers, ← Multiset.coe_add, Multiset.coe_singleton, Multiset.add_comm,
      Multiset.singleton_add, Multiset.cons_swap, Multiset.cons_swap t]
  · rw [hlen, waiting_add]
    intro u hu
    rcases List.mem_append.mp hu with hu | hu
    · exact h.users u hu
    · obtain rfl := List.mem_singleton.mp hu
      exact ht

/-- The task timer found due at `tick_`, and its successor. -/
theorem Periodic.next {tick : UInt64} (h : Periodic start tick x) (hn : (tick + 1).toNat = tick.toNat + 1)
    (hs : start.toNat ≤ tick.toNat) (hlate : tick + 1 < (nextTask (tick + 1) x).timeout) :
    Periodic start (tick + 1) (nextTask (tick + 1) x) ∧
      (x.timeout ≤ tick + 1 ↔ kTaskTimerPeriod.toNat ∣ tick.toNat + 1 - start.toNat) := by
  have h2 : kTaskTimerPeriod.toNat = 2 := rfl
  have hlate' := h.late
  have hsoon := h.soon
  have hper := h.period
  have hle : x.timeout ≤ tick + 1 ↔ x.timeout.toNat ≤ tick.toNat + 1 := by rw [UInt64.le_iff_toNat_le, hn]
  rw [UInt64.lt_iff_toNat_lt, hn] at hlate
  rw [hle]
  rw [h2] at hsoon hper ⊢
  unfold nextTask at hlate ⊢
  by_cases hdue : x.timeout ≤ tick + 1
  · have hd := hle.mp hdue
    rw [if_pos hdue] at hlate ⊢
    have hsum : (taskTimer (tick + 1)).timeout.toNat = (tick.toNat + 1 + 2) % 2 ^ 64 := by
      rw [taskTimer, UInt64.toNat_add, hn, h2]
    refine ⟨⟨rfl, ?_, ?_, ?_⟩, ?_⟩
    · rwa [hn]
    · rw [hsum, hn, h2]
      omega
    · rw [hsum, h2]
      omega
    · omega
  · have hd : ¬ x.timeout.toNat ≤ tick.toNat + 1 := fun hc => hdue (hle.mpr hc)
    rw [if_neg hdue] at hlate ⊢
    refine ⟨⟨h.value, by rwa [hn], by rw [hn, h2]; omega, by rw [h2]; exact hper⟩, ?_⟩
    omega

theorem Reached.tick {sent : List (UInt64 × Message)} {b : Bool} (h : Reached start es s x)
    (hs : Step s (.tick sent b) s') (hb : s'.tick < 0xffffffffffffffff) :
    Reached start (es ++ [.tick sent b]) s' (nextTask (s.tick + 1) x) ∧
      Fires start (es ++ [.tick sent b]) es.length sent b := by
  have hn := h.next_toNat
  have hlen : (es ++ [Event.tick sent b]).length = es.length + 1 := by simp
  have hclock : clock start (es ++ [.tick sent b]) (es.length + 1) = s.tick.toNat + 1 := by
    rw [clock_snoc, h.time]
    rfl
  have hwait : waiting start (es ++ [.tick sent b]) es.length = waiting start es es.length := waiting_append (Nat.le_refl _)
  cases hs with
  | @tick l hrun hleft =>
    have hsent : ¬ sentinel.timeout ≤ s.tick + 1 := UInt64.not_le.mpr hb
    have hU : ∀ u ∈ sentinel ::ₘ (waiting start es es.length : Multiset Timer), u.value ≠ kTaskTimerValue := by
      intro u hu
      rcases Multiset.mem_cons.mp hu with rfl | hu
      · decide
      · exact h.users u hu
    rw [h.timers] at hrun
    obtain ⟨⟨fired, hf, hsorted, hperm⟩, htimers, hflag, hlate⟩ := loop_spec h.value hU hrun hleft
    -- there is a tick before the last, so the first task timer did not overflow
    have hstart : start.toNat + kTaskTimerPeriod.toNat < 2 ^ 64 := by
      have hlt := UInt64.lt_iff_toNat_lt.mp hb
      have hle := @start_le_clock start es es.length
      have hmax : (0xffffffffffffffff : UInt64).toNat = 2 ^ 64 - 1 := rfl
      have h2 : kTaskTimerPeriod.toNat = 2 := rfl
      simp only [hn, h.time, hmax] at hlt
      omega
    have hle := @start_le_clock start es es.length
    rw [← h.time] at hle
    obtain ⟨hper, hdue⟩ := (h.task hstart).next hn hle hlate
    refine ⟨⟨?_, hb, ?_, hper.value, fun t ht => ?_, fun _ => hper⟩, ⟨fired, hf, hsorted, ?_⟩, ?_⟩
    · rw [hlen, hclock, hn]
    · rw [hlen, waiting_tick, htimers, ← h.time,
        Multiset.filter_cons_of_pos (p := fun t : Timer => s.tick + 1 < t.timeout) _ hb, Multiset.filter_coe]
      simp only [UInt64.lt_iff_toNat_lt, hn]
    · rw [hlen, waiting_tick] at ht
      exact h.users t (List.mem_of_mem_filter ht)
    · rw [Multiset.filter_cons_of_neg (p := fun t : Timer => t.timeout ≤ s.tick + 1) _ hsent, Multiset.filter_coe,
        Multiset.coe_eq_coe] at hperm
      rw [hwait, hclock]
      simpa only [UInt64.le_iff_toNat_le, hn] using hperm
    · rw [hflag, hdue, hclock]

end Reached

theorem fires_append {start : UInt64} {es fs : List Event} {j : Nat} {sent : List (UInt64 × Message)} {b : Bool}
    (h : j < es.length) : Fires start (es ++ fs) j sent b ↔ Fires start es j sent b := by
  unfold Fires
  rw [waiting_append (by omega), clock_append h]

theorem Run.reached {start : UInt64} {es : List Event} {s : Timers} (h : Run start es s) :
    (∃ x, Reached start es s x) ∧ ∀ j sent b, es[j]? = some (.tick sent b) → Fires start es j sent b := by
  induction h with
  | init h => exact ⟨⟨_, .init h⟩, by simp⟩
  | @step es e s s' _ hallowed hs hb ih =>
    obtain ⟨⟨x, hx⟩, hfires⟩ := ih
    have hold : ∀ j < es.length, ∀ sent b, (es ++ [e])[j]? = some (.tick sent b) → Fires start (es ++ [e]) j sent b := by
      intro j hj sent b he
      rw [List.getElem?_append_left hj] at he
      exact (fires_append hj).mpr (hfires j sent b he)
    cases hs with
    | @add t =>
      refine ⟨⟨x, hx.add hallowed⟩, fun j sent b he => ?_⟩
      have hj : j < (es ++ [Event.add t]).length := (List.getElem?_eq_some_iff.mp he).1
      rw [List.length_append, List.length_singleton] at hj
      refine hold j (Nat.lt_of_le_of_ne (Nat.le_of_lt_succ hj) ?_) sent b he
      rintro rfl
      simp at he
    | @tick l hrun hleft =>
      obtain ⟨hnext, hf⟩ := hx.tick (.tick hrun hleft) hb
      refine ⟨⟨_, hnext⟩, fun j sent b he => ?_⟩
      have hj := (List.getElem?_eq_some_iff.mp he).1
      rw [List.length_append, List.length_singleton] at hj
      by_cases heq : j = es.length
      · subst heq
        rw [List.getElem?_concat_length, Option.some.injEq] at he
        cases he
        exact hf
      · exact hold j (by omega) sent b he

/-- In a state of a run, the loop of the next `Tick` ends unless the task timer is due and its successor overflows. -/
theorem Reached.ends {start : UInt64} {es : List Event} {s : Timers} {x : Timer} (h : Reached start es s x)
    (hb : s.tick + 1 < 0xffffffffffffffff) : TickEnds (s.tick + 1) s.timers ↔
      (kTaskTimerPeriod.toNat ∣ s.tick.toNat + 1 - start.toNat → s.tick.toNat + 1 + kTaskTimerPeriod.toNat < 2 ^ 64) := by
  have hn := h.next_toNat
  have h2 : kTaskTimerPeriod.toNat = 2 := rfl
  have hle := @start_le_clock start es es.length
  rw [← h.time] at hle
  have hlt := UInt64.lt_iff_toNat_lt.mp hb
  rw [hn, show (0xffffffffffffffff : UInt64).toNat = 2 ^ 64 - 1 from rfl] at hlt
  have hper := h.task (by omega)
  have hlate := hper.late
  have hsoon := hper.soon
  have hdvd := hper.period
  have hsum : (taskTimer (s.tick + 1)).timeout.toNat = (s.tick.toNat + 1 + 2) % 2 ^ 64 := by
    rw [taskTimer, UInt64.toNat_add, hn, h2]
  have hstuck : Stuck (s.tick + 1) s.timers ↔
      x.timeout ≤ s.tick + 1 ∧ (taskTimer (s.tick + 1)).timeout ≤ s.tick + 1 := by
    rw [h.timers]
    constructor
    · rintro ⟨t, ht, hv, hdue, hnext⟩
      rcases Multiset.mem_cons.mp ht with rfl | ht
      · exact ⟨hdue, hnext⟩
      rcases Multiset.mem_cons.mp ht with rfl | ht
      · cases hv
      · exact absurd hv (h.users t ht)
    · rintro ⟨hdue, hnext⟩
      exact ⟨x, Multiset.mem_cons_self .., h.value, hdue, hnext⟩
  have hmem : sentinel ∈ s.timers := by
    rw [h.timers]
    exact Multiset.mem_cons_of_mem (Multiset.mem_cons_self ..)
  rw [tickEnds_iff ⟨sentinel, hmem, hb⟩, hstuck]
  simp only [UInt64.le_iff_toNat_le, hn, hsum, h2] at hsoon hdvd ⊢
  omega

/-! ## Every order of equal timeouts is one of these runs -/

def Sorted (ts : List Timer) : Prop := ts.Pairwise (·.timeout ≤ ·.timeout)

theorem push_perm : ∀ {ts : List Timer} {t : Timer}, (push ts t).Perm (t :: ts)
  | [], t => .refl _
  | u :: us, t => by
    rw [push]
    split
    · exact .refl _
    · exact (push_perm.cons u).trans (.swap t u us)

theorem push_sorted : ∀ {ts : List Timer} {t : Timer}, Sorted ts → Sorted (push ts t)
  | [], t, _ => List.pairwise_singleton _ t
  | u :: us, t, h => by
    obtain ⟨hu, hus⟩ := List.pairwise_cons.mp h
    rw [push]
    split
    · rename_i hlt
      refine List.pairwise_cons.mpr ⟨fun w hw => ?_, h⟩
      rcases List.mem_cons.mp hw with rfl | hw
      · exact UInt64.le_of_lt hlt
      · exact UInt64.le_trans (UInt64.le_of_lt hlt) (hu w hw)
    · rename_i hge
      refine List.pairwise_cons.mpr ⟨fun w hw => ?_, push_sorted hus⟩
      rcases List.mem_cons.mp (push_perm.mem_iff.mp hw) with rfl | hw
      · exact UInt64.not_lt.mp hge
      · exact hu w hw

theorem Sorted.top {t : Timer} {ts : List Timer} (h : Sorted (t :: ts)) : Top (t :: ts : List Timer) t := by
  refine ⟨by simp, fun u hu => ?_⟩
  rcases List.mem_cons.mp (Multiset.mem_coe.mp hu) with rfl | hu
  · exact UInt64.le_refl _
  · exact (List.pairwise_cons.mp h).1 u hu

theorem tickLoop_runs {tick : UInt64} : ∀ {fuel : Nat} {ts rest : List Timer} {ms : List (UInt64 × Message)} {b : Bool},
    Sorted ts → tickLoop tick fuel ts = some (ms, b, rest) → ∀ (sent : List (UInt64 × Message)) (f : Bool),
      Relation.ReflTransGen (LoopStep tick) ⟨ts, sent, f⟩ ⟨rest, sent ++ ms, f || b⟩ ∧
        Loop.Left tick ⟨rest, sent ++ ms, f || b⟩ ∧ Sorted rest
  | 0, _, _, _, _, _, h => by simp [tickLoop] at h
  | _ + 1, [], _, _, _, _, h => by simp [tickLoop] at h
  | fuel + 1, t :: ts, rest, ms, b, hsorted, h => by
    intro sent f
    have htop := hsorted.top
    have hts : Sorted ts := (List.pairwise_cons.mp hsorted).2
    have herase : ((t :: ts : List Timer) : Multiset Timer).erase t = ts := by simp
    rw [tickLoop] at h
    by_cases hlt : tick < t.timeout
    · rw [if_pos hlt, Option.some.injEq] at h
      cases h
      rw [List.append_nil, Bool.or_false]
      exact ⟨.refl, ⟨t, htop, hlt⟩, hsorted⟩
    rw [if_neg hlt] at h
    have hdue := UInt64.not_lt.mp hlt
    by_cases hv : t.value = kTaskTimerValue
    · rw [if_pos hv] at h
      obtain ⟨⟨ms', b', rest'⟩, hrec, heq⟩ := Option.map_eq_some_iff.mp h
      cases heq
      obtain ⟨hrun, hleft, hrest⟩ := tickLoop_runs (push_sorted hts) hrec sent true
      rw [Bool.or_true, show (true || b') = true from rfl] at *
      refine ⟨.head (.task htop hdue hv) ?_, hleft, hrest⟩
      rw [herase, Multiset.cons_coe, ← Multiset.coe_eq_coe.mpr push_perm]
      exact hrun
    · rw [if_neg hv] at h
      obtain ⟨⟨ms', b', rest'⟩, hrec, heq⟩ := Option.map_eq_some_iff.mp h
      cases heq
      obtain ⟨hrun, hleft, hrest⟩ := tickLoop_runs hts hrec (sent ++ [send t]) f
      rw [List.append_assoc] at hrun hleft
      refine ⟨.head (.send htop hdue hv) ?_, hleft, hrest⟩
      rw [herase]
      exact hrun

/-- **`tick` is a `Tick` of these runs.** -/
theorem tick_step {tm tm' : TimerManager} {ms : List (UInt64 × Message)} {b : Bool} (hs : Sorted tm.timers)
    (h : tm.tick = some (tm', ms, b)) :
    Step ⟨tm.tickCount, tm.timers⟩ (.tick ms b) ⟨tm'.tickCount, tm'.timers⟩ ∧ Sorted tm'.timers := by
  obtain ⟨⟨ms', b', rest⟩, hrec, heq⟩ := Option.map_eq_some_iff.mp h
  cases heq
  obtain ⟨hrun, hleft, hrest⟩ := tickLoop_runs hs hrec [] false
  exact ⟨.tick (s := ⟨tm.tickCount, tm.timers⟩) hrun hleft, hrest⟩

theorem addTimer_step {tm : TimerManager} {t : Timer} (hs : Sorted tm.timers) :
    Step ⟨tm.tickCount, tm.timers⟩ (.add t) ⟨(tm.addTimer t).tickCount, (tm.addTimer t).timers⟩ ∧
      Sorted (tm.addTimer t).timers := by
  have hcoe : ((tm.addTimer t).timers : Multiset Timer) = t ::ₘ (tm.timers : Multiset Timer) := by
    rw [Multiset.cons_coe, Multiset.coe_eq_coe]
    exact push_perm
  rw [hcoe]
  exact ⟨.add, push_sorted hs⟩

/-! ## Once and on time -/

/-- The heap has one task timer and the sentinel, and every `Tick` of the run has done what it has to. -/
structure OnTime (start : UInt64) (es : List Event) (s : Timers) : Prop where
  oneTask : (s.timers.filter (·.value = kTaskTimerValue)).card = 1
  sentinel : sentinel ∈ s.timers
  fires : ∀ j sent b, es[j]? = some (.tick sent b) → Fires start es j sent b

theorem Run.onTime {start : UInt64} {es : List Event} {s : Timers} (h : Run start es s) : OnTime start es s := by
  obtain ⟨⟨x, hx⟩, hfires⟩ := h.reached
  have hsent : ¬ TimerManager.sentinel.value = kTaskTimerValue := by decide
  refine ⟨?_, ?_, hfires⟩
  · rw [hx.timers, Multiset.filter_cons_of_pos (p := fun t : Timer => t.value = kTaskTimerValue) _ hx.value,
      Multiset.filter_cons_of_neg (p := fun t : Timer => t.value = kTaskTimerValue) _ hsent,
      Multiset.filter_eq_nil.mpr fun t ht => hx.users t (Multiset.mem_coe.mp ht)]
    rfl
  · rw [hx.timers]
    exact Multiset.mem_cons_of_mem (Multiset.mem_cons_self ..)

/-- A timer made by `CreateTimer` has a negative value. -/
theorem createTimer_allowed {tm tm' : TimerManager} {mode timeout taskId : UInt64} {v : Int}
    (h : tm.createTimer mode v timeout taskId = some tm') : ∃ t, tm' = tm.addTimer t ∧ (Event.add t).Allowed := by
  unfold createTimer at h
  by_cases hv : v ≤ 0
  · rw [if_pos hv] at h
    cases h
  · rw [if_neg hv] at h
    obtain rfl := Option.some.inj h
    refine ⟨_, rfl, ?_⟩
    change -v ≠ 2147483647
    omega

/-- **Timers fire once and on time**, in every run and whatever the order of equal timeouts. The next `Tick` comes to its end
exactly if it does not find the task timer due with `tick_ + kTaskTimerPeriod` out of range, and no timer of `CreateTimer` is
a task timer. -/
theorem timers_onTime {start : UInt64} {es : List Event} {s : Timers} (h : Run start es s) :
    OnTime start es s ∧
    (s.tick + 1 < 0xffffffffffffffff → (TickEnds (s.tick + 1) s.timers ↔
      (kTaskTimerPeriod.toNat ∣ s.tick.toNat + 1 - start.toNat → s.tick.toNat + 1 + kTaskTimerPeriod.toNat < 2 ^ 64))) ∧
    ∀ (tm tm' : TimerManager) mode v timeout taskId, tm.createTimer mode v timeout taskId = some tm' →
      ∃ t, tm' = tm.addTimer t ∧ (Event.add t).Allowed := by
  obtain ⟨⟨x, hx⟩, -⟩ := h.reached
  exact ⟨h.onTime, hx.ends, fun _ _ _ _ _ _ hc => createTimer_allowed hc⟩

theorem TickEnds.step {s : Timers} (h : TickEnds (s.tick + 1) s.timers) :
    ∃ sent b m, Step s (.tick sent b) ⟨s.tick + 1, m⟩ := by
  have hend : ∀ {l : Loop}, AllPaths (LoopStep (s.tick + 1)) (Loop.Left (s.tick + 1)) l →
      ∃ l', Relation.ReflTransGen (LoopStep (s.tick + 1)) l l' ∧ l'.Left (s.tick + 1) := by
    intro l hl
    induction hl with
    | here hq => exact ⟨_, .refl, hq⟩
    | next hex _ ih =>
      obtain ⟨l1, h1⟩ := hex
      obtain ⟨l', hrun, hleft⟩ := ih l1 h1
      exact ⟨l', .head h1 hrun, hleft⟩
  obtain ⟨l, hrun, hleft⟩ := hend h
  exact ⟨_, _, _, .tick hrun hleft⟩

/-- Runs without timers of any task go on for as many ticks as `tick_` has room for. -/
theorem run_ticks : ∀ n, n < 2 ^ 64 - 2 → ∃ es s, Run 0 es s ∧ s.tick.toNat = n := by
  intro n
  induction n with
  | zero => exact fun _ => ⟨[], _, .init (by decide), rfl⟩
  | succ n ih =>
    intro hn
    obtain ⟨es, s, hrun, ht⟩ := ih (by omega)
    obtain ⟨⟨x, hx⟩, -⟩ := hrun.reached
    have hnext := hx.next_toNat
    have hb : s.tick + 1 < 0xffffffffffffffff := by
      rw [UInt64.lt_iff_toNat_lt, hnext, ht, show (0xffffffffffffffff : UInt64).toNat = 2 ^ 64 - 1 from rfl]
      omega
    have hends := (hx.ends hb).mpr fun _ => by
      rw [ht, show kTaskTimerPeriod.toNat = 2 from rfl]
      omega
    obtain ⟨sent, b, m, hs⟩ := hends.step
    exact ⟨_, _, .step hrun (show (Event.tick sent b).Allowed from trivial) hs hb, by rw [hnext, ht]⟩

/-- A timer that the first `Tick` finds due, with the task timer due at the second. -/
def oneTimer : TimerManager := ⟨0, [⟨1, -5, 4⟩, ⟨2, kTaskTimerValue, 1⟩, sentinel]⟩

theorem oneTimer_run : Run 0 [.add ⟨1, -5, 4⟩, .tick [(4, timeoutMessage ⟨1, -5, 4⟩)] false]
    ⟨1, ([⟨2, kTaskTimerValue, 1⟩, sentinel] : List Timer)⟩ := by
  have hinit : initialized 0 = ⟨0, ([taskTimer 0, TimerManager.sentinel] : List Timer)⟩ :=
    congrArg (Timers.mk 0) (by decide)
  have hadd := (@addTimer_step ⟨0, [taskTimer 0, TimerManager.sentinel]⟩ ⟨1, -5, 4⟩ (by unfold Sorted; decide)).1
  rw [← hinit] at hadd
  have hrun := Run.step (.init (by decide)) (show (Event.add ⟨1, -5, 4⟩).Allowed by unfold Event.Allowed; decide) hadd
    (by decide)
  have htick := (@tick_step oneTimer _ _ _ (by unfold Sorted; decide) rfl).1
  exact .step hrun (show (Event.tick _ _).Allowed from trivial) htick (by decide)

theorem timers_onTime_one : OnTime 0 [.add ⟨1, -5, 4⟩, .tick [(4, timeoutMessage ⟨1, -5, 4⟩)] false]
    ⟨1, ([⟨2, kTaskTimerValue, 1⟩, sentinel] : List Timer)⟩ :=
  (timers_onTime oneTimer_run).1

/-- The `Tick` that brings `tick_` to its last but one value does not end. -/
theorem timers_overflow : ∃ es s, Run 0 es s ∧ s.tick + 1 < 0xffffffffffffffff ∧ ¬ TickEnds (s.tick + 1) s.timers := by
  obtain ⟨es, s, hrun, ht⟩ := run_ticks (2 ^ 64 - 3) (by decide)
  obtain ⟨⟨x, hx⟩, -⟩ := hrun.reached
  have hnext := hx.next_toNat
  have hb : s.tick + 1 < 0xffffffffffffffff := by
    rw [UInt64.lt_iff_toNat_lt, hnext, ht]
    decide
  refine ⟨es, s, hrun, hb, fun hends => ?_⟩
  have h := (hx.ends hb).mp hends
  rw [ht] at h
  exact absurd (h (by decide)) (by decide)

end KinOS.TimerManager
