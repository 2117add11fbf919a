import KinOS.Kernel.TaskInvariant

/-!
# Strict priority and round robin

Wakeups and level changes above `current_level_` only set `level_changed_`; the level is recomputed
by the next `RotateCurrentRunQueue`. `Inv.lazy` is the invariant behind that, and `Inv.rotates`
reads off what every rotation establishes. Within one level `SwitchTask` is a rotation of the
queue (`switchTask_cons`), and a full round brings it back (`switchTasks_round`).
-/

namespace KinOS.TaskManager

/-! ## Rotations pick the highest non-empty level -/

/-- The operations that end in `RotateCurrentRunQueue`. -/
def Op.Rotates (tm : TaskManager) : Op → Prop
  | .switchTask => True
  | .sleep p => tm.currentTask = some p
  | .sleepId id => ∃ t, tm.find id = some t ∧ tm.currentTask = some t.ptr
  | .finish _ => True
  | _ => False

theorem Inv.rotates {tm tm' : TaskManager} (h : tm.Inv) {op : Op} (hok : op.Ok tm) (hrot : op.Rotates tm)
    (he : op.exec tm = some tm') : tm'.IsHighest := by
  cases op with
  | switchTask =>
    obtain ⟨tm1, he1, -, hh⟩ := h.switchTask
    obtain rfl := Option.some.inj (he.symm.trans he1)
    exact hh
  | sleep p =>
    obtain ⟨⟨t, ht, rfl⟩, hne⟩ := hok
    obtain ⟨tm1, he1, -, hh⟩ := h.sleep ht hne
    obtain rfl := Option.some.inj (he.symm.trans he1)
    exact hh hrot
  | sleepId id =>
    obtain ⟨t, hf, hc⟩ := hrot
    obtain ⟨tm1, he1, -, hh⟩ := h.sleep (find_some hf).1 (hok t hf)
    simp only [Op.exec, TaskManager.sleepId, hf, he1, Option.map_some, Option.some.injEq] at he
    exact he ▸ hh hc
  | finish exitCode =>
    obtain ⟨tm1, he1, -, hh⟩ := h.finish hok exitCode
    obtain rfl := Option.some.inj (he.symm.trans he1)
    exact hh
  | newTask | wakeup _ _ | wakeupId _ _ | sendMessage _ _ | startAppTask _ _ | startServerTask _ _ =>
    exact hrot.elim

/-! ## One round of `SwitchTask` -/

/-- `n` consecutive `SwitchTask` calls: the current task after each of them, and the last state. -/
def switchTasks : Nat → TaskManager → Option (List Ptr × TaskManager)
  | 0, tm => some ([], tm)
  | n + 1, tm => do
    let tm ← tm.switchTask
    let c ← tm.currentTask
    let (cs, tm) ← switchTasks n tm
    return (c :: cs, tm)

/-- With the flag clear, `SwitchTask` moves the front of the current queue to its back. -/
theorem switchTask_cons {tm : TaskManager} {c : Ptr} {rest : List Ptr} (hl : tm.levelChanged = false)
    (hq : tm.running tm.currentLevel = c :: rest) :
    tm.switchTask = some (tm.setQueue tm.currentLevel (rest ++ [c])) := by
  have hne : (rest ++ [c]).head? ≠ none := by simp
  obtain ⟨d, hd⟩ := Option.ne_none_iff_exists'.1 hne
  simp [switchTask, rotateCurrentRunQueue, hq, hl, resume, currentTask, hd]

theorem setQueue_setQueue (tm : TaskManager) (l : Level) (q q' : List Ptr) :
    (tm.setQueue l q).setQueue l q' = tm.setQueue l q' := by
  simp [setQueue]

theorem setQueue_self {tm : TaskManager} {l : Level} {q : List Ptr} (h : tm.running l = q) :
    tm.setQueue l q = tm := by
  simp only [setQueue]
  rw [Function.update_eq_self_iff.2 h.symm]

/-- Switching past the tasks `as` behind the front `a` makes each of them current in turn. -/
theorem switchTasks_prefix (as : List Ptr) : ∀ (tm : TaskManager) (a : Ptr) (bs : List Ptr),
    tm.levelChanged = false → tm.running tm.currentLevel = a :: (as ++ bs) →
    switchTasks as.length tm = some (as, tm.setQueue tm.currentLevel
      ((a :: as).getLast (List.cons_ne_nil a as) :: (bs ++ (a :: as).dropLast))) := by
  induction as with
  | nil =>
    intro tm a bs _ hq
    have := setQueue_self (l := tm.currentLevel) (q := a :: bs) (by simpa using hq)
    simp [switchTasks, this]
  | cons b as ih =>
    intro tm a bs hl hq
    have h1 := switchTask_cons hl hq
    have hq1 : (tm.setQueue tm.currentLevel (b :: (as ++ (bs ++ [a])))).running
        (tm.setQueue tm.currentLevel (b :: (as ++ (bs ++ [a])))).currentLevel = b :: (as ++ (bs ++ [a])) := by
      simp
    have he : as ++ bs ++ [a] = as ++ (bs ++ [a]) := by simp
    rw [List.cons_append, List.cons_append, he] at h1
    have h2 := ih (tm.setQueue tm.currentLevel (b :: (as ++ (bs ++ [a])))) b (bs ++ [a]) hl hq1
    rw [setQueue_currentLevel, setQueue_setQueue] at h2
    simp only [List.length_cons, switchTasks, h1, Option.bind_eq_bind, Option.bind_some]
    simp only [currentTask, hq1, List.head?_cons, Option.bind_some, h2]
    simp

/-- One more switch at the end. -/
theorem switchTasks_succ : ∀ (n : Nat) {tm tm' tm'' : TaskManager} {cs : List Ptr} {c : Ptr},
    switchTasks n tm = some (cs, tm') → tm'.switchTask = some tm'' → tm''.currentTask = some c →
    switchTasks (n + 1) tm = some (cs ++ [c], tm'')
  | 0, tm, tm', tm'', cs, c, h, hs, hc => by
    simp only [switchTasks, Option.some.injEq, Prod.mk.injEq] at h
    obtain ⟨rfl, rfl⟩ := h
    simp [switchTasks, hs, hc]
  | n + 1, tm, tm', tm'', cs, c, h, hs, hc => by
    rw [switchTasks] at h
    simp only [Option.bind_eq_bind, Option.bind_eq_some_iff] at h
    obtain ⟨tm1, h1, d, hd, ⟨cs1, tm2⟩, h2, h3⟩ := h
    simp only [pure, Option.some.injEq, Prod.mk.injEq] at h3
    obtain ⟨rfl, rfl⟩ := h3
    have := switchTasks_succ n h2 hs hc
    rw [switchTasks]
    simp [h1, hd, this]

/-- **One round.** `n` switches of a queue of `n` tasks make every task current once and restore
the state. -/
theorem switchTasks_round (tm : TaskManager) (hl : tm.levelChanged = false) {a : Ptr} {as : List Ptr}
    (hq : tm.running tm.currentLevel = a :: as) :
    switchTasks (as.length + 1) tm = some (as ++ [a], tm) := by
  have h1 := switchTasks_prefix as tm a [] hl (by simpa using hq)
  have h2 := @switchTask_cons (tm.setQueue tm.currentLevel
    ((a :: as).getLast (List.cons_ne_nil a as) :: (a :: as).dropLast)) _ (a :: as).dropLast hl (by simp; rfl)
  rw [setQueue_currentLevel, setQueue_setQueue, List.dropLast_concat_getLast, setQueue_self hq] at h2
  exact switchTasks_succ _ h1 h2 (by simp [currentTask, hq])

/-! ## Every reachable state -/

/-- **Strict priority with round robin.** In every reachable state a non-empty queue above the current
level has raised `level_changed_`; every rotation leaves the level at the highest non-empty queue,
whose front is the current task; and with the flag clear one `SwitchTask` per queued task runs each of
them once and restores queues, level and flag. -/
theorem strict_priority_round_robin (tm : TaskManager) (h : tm.Reachable) :
    (∀ l, tm.currentLevel < l → tm.running l ≠ [] → tm.levelChanged = true) ∧
    (∀ (op : Op) (tm' : TaskManager), op.Ok tm → op.Rotates tm → op.exec tm = some tm' →
      tm'.IsHighest ∧ tm'.currentTask = (tm'.running tm'.currentLevel).head?) ∧
    (tm.levelChanged = false → ∃ cs tm', switchTasks (tm.running tm.currentLevel).length tm = some (cs, tm') ∧
      (∀ p ∈ tm.running tm.currentLevel, cs.count p = 1) ∧
      cs.length = (tm.running tm.currentLevel).length ∧
      tm'.running = tm.running ∧ tm'.currentLevel = tm.currentLevel ∧ tm'.levelChanged = tm.levelChanged) := by
  refine ⟨h.inv.lazy, fun op tm' hok hrot he => ⟨h.inv.rotates hok hrot he, rfl⟩, fun hl => ?_⟩
  obtain ⟨a, as, hq⟩ := List.exists_cons_of_ne_nil h.inv.current
  have hround := switchTasks_round tm hl hq
  have hnd := h.inv.rep.nodup tm.currentLevel
  rw [hq] at hnd ⊢
  refine ⟨as ++ [a], tm, by simpa using hround, fun p hp => ?_, by simp, rfl, rfl, rfl⟩
  have hperm : (as ++ [a]).Perm (a :: as) := List.perm_append_singleton a as
  rw [hperm.count_eq]
  exact List.count_eq_one_of_mem hnd hp

/-! Runs of operations. -/

instance (tm : TaskManager) (p : Ptr) : Decidable (tm.Live p) := inferInstanceAs (Decidable (∃ t ∈ tm.tasks, t.ptr = p))

instance decidableOk (tm : TaskManager) : ∀ op : Op, Decidable (op.Ok tm)
  | .wakeup p _ => inferInstanceAs (Decidable (tm.Live p))
  | .sleep p => inferInstanceAs (Decidable (tm.Live p ∧ p ≠ idlePtr))
  | .sleepId id => inferInstanceAs (Decidable (∀ t, tm.find id = some t → t.ptr ≠ idlePtr))
  | .finish _ => inferInstanceAs (Decidable (tm.currentTask ≠ some idlePtr))
  | .newTask | .wakeupId _ _ | .switchTask | .sendMessage _ _ | .startAppTask _ _ | .startServerTask _ _ => isTrue trivial

/-- A run that can be evaluated. -/
theorem reachable_of_eval {α : Type} (ops : List Op) {f : TaskManager → α} {x : α}
    (hok : TransitionSystem.Along Op.exec (fun tm op => op.Ok tm) boot ops)
    (h : (TransitionSystem.exec Op.exec boot ops).map f = some x) : ∃ tm, tm.Reachable ∧ f tm = x := by
  obtain ⟨tm, he, hf⟩ := Option.map_eq_some_iff.1 h
  exact ⟨tm, TransitionSystem.Along.run (fun _ op _ ho hx => ⟨op, ho, hx⟩) ops hok he, hf⟩

/-- Tasks 3, 4 and 5 at level 2 and task 6 at level 1, while the system task sleeps. -/
def threeAndOne : List Op :=
  [.newTask, .newTask, .newTask, .newTask, .wakeup 2 (some 2), .wakeupId 4 (some 2), .wakeup 4 (some 2),
    .wakeup 5 (some 1), .sleep systemPtr]

/-- A round of three tasks above the one of level 1. Once the system task has been sent a message its queue lies above the
current level, and the next switch, from the middle of a round, is to it. -/
theorem strict_priority_levels :
    (∃ tm : TaskManager, (tm.running 3, tm.running 2, tm.running 1, tm.running 0) = ([], [2, 3, 4], [5], [1]) ∧
      ∃ cs tm', switchTasks (tm.running tm.currentLevel).length tm = some (cs, tm') ∧ cs.length = 3 ∧
        (∀ p ∈ [2, 3, 4], cs.count p = 1) ∧ tm'.running = tm.running ∧ tm'.currentLevel = 2) ∧
    ∃ tm : TaskManager, tm.running 3 = [0] ∧ tm.running 2 = [3, 4, 2] ∧ tm.currentLevel = 2 ∧ tm.levelChanged = true ∧
      ∃ tm' : TaskManager, tm.switchTask = some tm' ∧ tm'.IsHighest ∧ tm'.currentTask = some 0 := by
  constructor
  · obtain ⟨tm, hr, hx⟩ := reachable_of_eval threeAndOne (f := fun tm =>
      ((tm.running 3, tm.running 2, tm.running 1, tm.running 0), tm.currentLevel, tm.levelChanged))
      (x := (([], [2, 3, 4], [5], [1]), 2, false)) (by decide) (by decide)
    simp only [Prod.mk.injEq] at hx
    obtain ⟨⟨h3, h2, h1, h0⟩, hc, hl⟩ := hx
    obtain ⟨cs, tm', hs, hcount, hlen, hq, hcur, -⟩ := (strict_priority_round_robin tm hr).2.2 hl
    rw [hc] at hlen hcount hcur
    rw [h2] at hlen hcount
    exact ⟨tm, by rw [h3, h2, h1, h0], cs, tm', hs, hlen, hcount, hq, hcur⟩
  · obtain ⟨tm, hr, hx⟩ := reachable_of_eval (threeAndOne ++ [.switchTask, .sendMessage 1 ⟨.kReady, 4, .unset⟩])
      (f := fun tm => (tm.running 3, tm.running 2, tm.currentLevel, tm.switchTask.bind (·.currentTask)))
      (x := ([0], [3, 4, 2], 2, some 0)) (by decide) (by decide)
    simp only [Prod.mk.injEq] at hx
    obtain ⟨h3, h2, hc, hn⟩ := hx
    obtain ⟨tm', hs, hcur⟩ := Option.bind_eq_some_iff.1 hn
    obtain ⟨hflag, hrot, -⟩ := strict_priority_round_robin tm hr
    refine ⟨tm, h3, h2, hc, hflag 3 (by rw [hc]; decide) (by simp [h3]), tm', hs, ?_, hcur⟩
    exact (hrot .switchTask tm' trivial trivial hs).1

end KinOS.TaskManager
