import KinOS.Kernel.Task
import KinOS.Lib.TransitionSystem

/-!
# The scheduler's representation invariant

`Op` lists the calls that change the scheduler, `Op.exec` runs one, and `Reachable` closes the
constructor's state under them, the idle task never being slept or finished.

`Rep` ties the four queues to the flags: a pointer is in `running_[l]` iff it is a task of
`tasks_` with `running_` set and `level_ = l`, once. All the moves of one task (sleep, wake,
re-level) are instances of `Rep.update`. `Inv` adds that the current queue is non-empty, that
the idle task runs, and the lazy-priority flag (`Inv.lazy`).
-/

namespace KinOS.TaskManager

/-! ## Operations and reachable states -/

/-- The operations on the scheduler state. -/
inductive Op
  | newTask
  | wakeup (p : Ptr) (level : Option Level)
  | wakeupId (id : UInt64) (level : Option Level)
  | sleep (p : Ptr)
  | sleepId (id : UInt64)
  | switchTask
  | sendMessage (id : UInt64) (msg : Message)
  | startAppTask (id amId : UInt64)
  | startServerTask (id initId : UInt64)
  | finish (exitCode : Int)

def Op.exec (tm : TaskManager) : Op → Option TaskManager
  | .newTask => some tm.newTask.1
  | .wakeup p level => tm.wakeup p level
  | .wakeupId id level => (tm.wakeupId id level).map (·.1)
  | .sleep p => tm.sleep p
  | .sleepId id => (tm.sleepId id).map (·.1)
  | .switchTask => tm.switchTask
  | .sendMessage id msg => (tm.sendMessage id msg).map (·.1)
  | .startAppTask id amId => (tm.startAppTask id amId).map (·.1)
  | .startServerTask id initId => (tm.startServerTask id initId).map (·.1)
  | .finish exitCode => tm.finish exitCode

/-- `p` is owned by `tasks_`. -/
def Live (tm : TaskManager) (p : Ptr) : Prop := ∃ t ∈ tm.tasks, t.ptr = p

/-- Pointer arguments are live, and the idle task is neither put to sleep nor finished. -/
def Op.Ok (tm : TaskManager) : Op → Prop
  | .wakeup p _ => tm.Live p
  | .sleep p => tm.Live p ∧ p ≠ idlePtr
  | .sleepId id => ∀ t, tm.find id = some t → t.ptr ≠ idlePtr
  | .finish _ => tm.currentTask ≠ some idlePtr
  | _ => True

def Step (tm tm' : TaskManager) : Prop := ∃ op : Op, op.Ok tm ∧ op.exec tm = some tm'

def Reachable (tm : TaskManager) : Prop := Relation.ReflTransGen Step boot tm

/-! ## Access to `tasks_` -/

section
variable {tm : TaskManager} {p : Ptr} {t : Task}

theorem deref_some (h : tm.deref p = some t) : t ∈ tm.tasks ∧ t.ptr = p := by
  refine ⟨List.mem_of_find?_eq_some h, ?_⟩
  simpa using List.find?_some h

theorem find_some {id : UInt64} (h : tm.find id = some t) : t ∈ tm.tasks ∧ t.id = id := by
  refine ⟨List.mem_of_find?_eq_some h, ?_⟩
  simpa using List.find?_some h

theorem deref_isSome (h : tm.Live p) : ∃ t, tm.deref p = some t := by
  obtain ⟨t, ht, hp⟩ := h
  cases hd : tm.deref p with
  | some u => exact ⟨u, rfl⟩
  | none => exact absurd hp (by simpa using List.find?_eq_none.1 hd t ht)

theorem mem_modify {f : Task → Task} {u : Task} :
    u ∈ (tm.modify p f).tasks ↔ ∃ t ∈ tm.tasks, (if t.ptr = p then f t else t) = u := by
  simp [modify]

theorem modify_ptrs {f : Task → Task} (hf : ∀ t, (f t).ptr = t.ptr) :
    (tm.modify p f).tasks.map Task.ptr = tm.tasks.map Task.ptr := by
  simp only [modify, List.map_map]
  refine List.map_congr_left fun t _ => ?_
  simp only [Function.comp_apply]
  split
  · exact hf t
  · rfl

end

@[simp] theorem setQueue_tasks (tm : TaskManager) (l : Level) (q : List Ptr) :
    (tm.setQueue l q).tasks = tm.tasks := rfl

@[simp] theorem setQueue_running (tm : TaskManager) (l : Level) (q : List Ptr) :
    (tm.setQueue l q).running = Function.update tm.running l q := rfl

@[simp] theorem setQueue_currentLevel (tm : TaskManager) (l : Level) (q : List Ptr) :
    (tm.setQueue l q).currentLevel = tm.currentLevel := rfl

@[simp] theorem setQueue_levelChanged (tm : TaskManager) (l : Level) (q : List Ptr) :
    (tm.setQueue l q).levelChanged = tm.levelChanged := rfl

@[simp] theorem setQueue_nextPtr (tm : TaskManager) (l : Level) (q : List Ptr) :
    (tm.setQueue l q).nextPtr = tm.nextPtr := rfl

@[simp] theorem setQueue_finishWaiter (tm : TaskManager) (l : Level) (q : List Ptr) :
    (tm.setQueue l q).finishWaiter = tm.finishWaiter := rfl

@[simp] theorem modify_running (tm : TaskManager) (p : Ptr) (f : Task → Task) :
    (tm.modify p f).running = tm.running := rfl

@[simp] theorem modify_currentLevel (tm : TaskManager) (p : Ptr) (f : Task → Task) :
    (tm.modify p f).currentLevel = tm.currentLevel := rfl

@[simp] theorem modify_levelChanged (tm : TaskManager) (p : Ptr) (f : Task → Task) :
    (tm.modify p f).levelChanged = tm.levelChanged := rfl

@[simp] theorem modify_nextPtr (tm : TaskManager) (p : Ptr) (f : Task → Task) :
    (tm.modify p f).nextPtr = tm.nextPtr := rfl

@[simp] theorem modify_finishWaiter (tm : TaskManager) (p : Ptr) (f : Task → Task) :
    (tm.modify p f).finishWaiter = tm.finishWaiter := rfl

@[simp] theorem modify_currentTask (tm : TaskManager) (p : Ptr) (f : Task → Task) :
    (tm.modify p f).currentTask = tm.currentTask := rfl

/-! ## Queues and flags agree -/

/-- The queues hold exactly the running tasks of `tasks_`, each once, at its level. -/
structure Rep (tm : TaskManager) : Prop where
  ptrs : (tm.tasks.map Task.ptr).Nodup
  fresh : ∀ t ∈ tm.tasks, t.ptr < tm.nextPtr
  queued : ∀ l q, q ∈ tm.running l ↔ ∃ t ∈ tm.tasks, t.ptr = q ∧ t.running = true ∧ t.level = l
  nodup : ∀ l, (tm.running l).Nodup

theorem Rep.unique {tm : TaskManager} (h : tm.Rep) {t u : Task} (ht : t ∈ tm.tasks) (hu : u ∈ tm.tasks)
    (hp : t.ptr = u.ptr) : t = u := List.inj_on_of_nodup_map h.ptrs ht hu hp

theorem Rep.deref_eq {tm : TaskManager} (h : tm.Rep) {t : Task} (ht : t ∈ tm.tasks) :
    tm.deref t.ptr = some t := by
  obtain ⟨u, hu⟩ := deref_isSome ⟨t, ht, rfl⟩
  obtain ⟨hm, hp⟩ := deref_some hu
  rw [hu, h.unique hm ht hp]

/-- **One task moves.** `t` is rewritten by `f`, and the new queues differ from the old ones in
holding `t` exactly where its new flag and level say. -/
theorem Rep.update {tm tm' : TaskManager} (h : tm.Rep) {t : Task} (ht : t ∈ tm.tasks) (f : Task → Task)
    (hf : ∀ u, (f u).ptr = u.ptr) (htasks : tm'.tasks = (tm.modify t.ptr f).tasks)
    (hnext : tm'.nextPtr = tm.nextPtr)
    (hq : ∀ l q, q ∈ tm'.running l ↔
      (q ≠ t.ptr ∧ q ∈ tm.running l) ∨ (q = t.ptr ∧ (f t).running = true ∧ (f t).level = l))
    (hn : ∀ l, (tm'.running l).Nodup) : tm'.Rep where
  ptrs := by rw [htasks, modify_ptrs hf]; exact h.ptrs
  fresh := by
    intro u hu
    rw [htasks, mem_modify] at hu
    obtain ⟨v, hv, rfl⟩ := hu
    rw [hnext]
    split
    · rw [hf]; exact h.fresh v hv
    · exact h.fresh v hv
  queued := by
    intro l q
    rw [hq, htasks]
    simp only [mem_modify]
    constructor
    · rintro (⟨hne, hm⟩ | ⟨rfl, hr, hl⟩)
      · obtain ⟨u, hu, rfl, hr, hl⟩ := (h.queued l q).1 hm
        exact ⟨u, ⟨u, hu, by rw [if_neg hne]⟩, rfl, hr, hl⟩
      · exact ⟨f t, ⟨t, ht, by rw [if_pos rfl]⟩, hf t, hr, hl⟩
    · rintro ⟨_, ⟨u, hu, rfl⟩, hp, hr, hl⟩
      by_cases hut : u.ptr = t.ptr
      · obtain rfl := h.unique hu ht hut
        rw [if_pos rfl] at hp hr hl
        exact Or.inr ⟨by rw [← hp, hf], hr, hl⟩
      · rw [if_neg hut] at hp hr hl
        exact Or.inl ⟨hp ▸ hut, (h.queued l q).2 ⟨u, hu, hp, hr, hl⟩⟩
  nodup := hn

/-- Rewriting anything but pointer, flag and level of a task keeps `Rep`. -/
theorem Rep.modify {tm : TaskManager} (h : tm.Rep) (p : Ptr) (f : Task → Task) (hf : ∀ u, (f u).ptr = u.ptr)
    (hr : ∀ u, (f u).running = u.running) (hl : ∀ u, (f u).level = u.level) : (tm.modify p f).Rep := by
  by_cases hp : tm.Live p
  · obtain ⟨t, ht, rfl⟩ := hp
    refine h.update ht f hf rfl rfl (fun l q => ?_) h.nodup
    rw [modify_running, hr, hl, h.queued]
    constructor
    · rintro ⟨u, hu, rfl, hrun, hlev⟩
      by_cases hut : u.ptr = t.ptr
      · obtain rfl := h.unique hu ht hut
        exact Or.inr ⟨rfl, hrun, hlev⟩
      · exact Or.inl ⟨hut, u, hu, rfl, hrun, hlev⟩
    · rintro (⟨-, hm⟩ | ⟨rfl, hrun, hlev⟩)
      · exact hm
      · exact ⟨t, ht, rfl, hrun, hlev⟩
  · have hid : (tm.modify p f).tasks = tm.tasks := by
      have hne : ∀ u ∈ tm.tasks, (if u.ptr = p then f u else u) = u :=
        fun u hu => if_neg fun hup => hp ⟨u, hu, hup⟩
      simpa [TaskManager.modify] using List.map_congr_left hne
    exact ⟨by rw [hid]; exact h.ptrs, by rw [hid]; exact h.fresh, by rw [hid]; exact h.queued, h.nodup⟩

theorem Rep.perm {tm tm' : TaskManager} (h : tm.Rep) (htasks : tm'.tasks = tm.tasks)
    (hnext : tm'.nextPtr = tm.nextPtr) (hq : ∀ l, (tm'.running l).Perm (tm.running l)) : tm'.Rep where
  ptrs := htasks ▸ h.ptrs
  fresh := by rw [htasks, hnext]; exact h.fresh
  queued := by intro l q; rw [(hq l).mem_iff, h.queued, htasks]
  nodup := fun l => (hq l).nodup_iff.2 (h.nodup l)

/-- `tasks_.erase(it)` of a task that is in no queue. -/
theorem Rep.erase {tm tm' : TaskManager} (h : tm.Rep) (c : Ptr)
    (htasks : tm'.tasks = tm.tasks.filter (·.ptr ≠ c)) (hnext : tm'.nextPtr = tm.nextPtr)
    (hq : ∀ l q, q ∈ tm'.running l ↔ q ≠ c ∧ q ∈ tm.running l) (hn : ∀ l, (tm'.running l).Nodup) : tm'.Rep where
  ptrs := by rw [htasks]; exact h.ptrs.sublist (List.filter_sublist.map _)
  fresh := by
    intro t ht
    rw [htasks] at ht
    rw [hnext]
    exact h.fresh t (List.mem_of_mem_filter ht)
  queued := by
    intro l q
    rw [hq, h.queued, htasks]
    constructor
    · rintro ⟨hne, t, ht, rfl, hr, hl⟩
      exact ⟨t, by simp [ht, hne], rfl, hr, hl⟩
    · rintro ⟨t, ht, rfl, hr, hl⟩
      simp only [List.mem_filter, ne_eq, decide_not, Bool.not_eq_true', decide_eq_false_iff_not] at ht
      exact ⟨ht.2, t, ht.1, rfl, hr, hl⟩
  nodup := hn

theorem Rep.newTask {tm : TaskManager} (h : tm.Rep) : tm.newTask.1.Rep where
  ptrs := by
    simp only [TaskManager.newTask, List.map_append, List.map_cons, List.map_nil]
    refine List.nodup_append.2 ⟨h.ptrs, by simp, ?_⟩
    intro a ha b hb hab
    obtain ⟨t, ht, rfl⟩ := List.mem_map.1 ha
    simp only [List.mem_singleton] at hb
    exact Nat.ne_of_lt (h.fresh t ht) (hab.trans hb)
  fresh := by
    intro t ht
    simp only [TaskManager.newTask, List.mem_append, List.mem_singleton] at ht ⊢
    rcases ht with ht | rfl
    · exact Nat.lt_succ_of_lt (h.fresh t ht)
    · simp
  queued := by
    intro l q
    simp only [TaskManager.newTask, List.mem_append, List.mem_singleton]
    rw [h.queued]
    constructor
    · rintro ⟨t, ht, hrest⟩; exact ⟨t, Or.inl ht, hrest⟩
    · rintro ⟨t, ht | rfl, hp, hr, hl⟩
      · exact ⟨t, ht, hp, hr, hl⟩
      · simp at hr
  nodup := h.nodup

/-! ## Rotation -/

/-- The current level is the highest non-empty one. -/
def IsHighest (tm : TaskManager) : Prop :=
  tm.running tm.currentLevel ≠ [] ∧ ∀ l, tm.currentLevel < l → tm.running l = []

theorem highestLevel_spec (running : Level → List Ptr) (current : Level) (h : ∃ l, running l ≠ []) :
    running (highestLevel running current) ≠ [] ∧
      ∀ l, highestLevel running current < l → running l = [] := by
  by_cases h3 : running 3 = []
  · by_cases h2 : running 2 = []
    · by_cases h1 : running 1 = []
      · have h0 : running 0 ≠ [] := by
          obtain ⟨l, hl⟩ := h
          fin_cases l
          · exact hl
          · exact absurd h1 hl
          · exact absurd h2 hl
          · exact absurd h3 hl
        have e : highestLevel running current = 0 := by simp [highestLevel, h3, h2, h1, h0]
        rw [e]
        refine ⟨h0, fun l hl => ?_⟩
        fin_cases l <;> simp_all
      · have e : highestLevel running current = 1 := by simp [highestLevel, h3, h2, h1]
        rw [e]
        refine ⟨h1, fun l hl => ?_⟩
        fin_cases l <;> simp_all
    · have e : highestLevel running current = 2 := by simp [highestLevel, h3, h2]
      rw [e]
      refine ⟨h2, fun l hl => ?_⟩
      fin_cases l <;> simp_all
  · have e : highestLevel running current = 3 := by simp [highestLevel, h3]
    rw [e]
    refine ⟨h3, fun l hl => ?_⟩
    fin_cases l <;> simp_all

/-- What `RotateCurrentRunQueue` does to the fields. -/
structure Rotated (tm : TaskManager) (b : Bool) (c : Ptr) (rest : List Ptr) (tm' : TaskManager) : Prop where
  tasks : tm'.tasks = tm.tasks
  latestId : tm'.latestId = tm.latestId
  nextPtr : tm'.nextPtr = tm.nextPtr
  finishWaiter : tm'.finishWaiter = tm.finishWaiter
  running : tm'.running = Function.update tm.running tm.currentLevel (if b then rest else rest ++ [c])
  levelChanged : tm'.levelChanged = false
  level : tm'.currentLevel = if tm.levelChanged || (if b then rest else rest ++ [c]).isEmpty then
    highestLevel tm'.running tm.currentLevel else tm.currentLevel

theorem rotate_spec {tm : TaskManager} (b : Bool) {c : Ptr} {rest : List Ptr}
    (h : tm.running tm.currentLevel = c :: rest) :
    ∃ tm', tm.rotateCurrentRunQueue b = some (tm', c) ∧ Rotated tm b c rest tm' := by
  simp only [rotateCurrentRunQueue, h]
  by_cases hc : (tm.levelChanged || (if b then rest else rest ++ [c]).isEmpty) = true
  · simp only [setQueue_levelChanged, hc, if_true]
    exact ⟨_, rfl, rfl, rfl, rfl, rfl, rfl, rfl, by simp [hc]⟩
  · simp only [setQueue_levelChanged, hc]
    refine ⟨_, rfl, rfl, rfl, rfl, rfl, rfl, ?_, by simp [hc]⟩
    simp only [Bool.or_eq_true, not_or, Bool.not_eq_true] at hc
    exact hc.1

/-- **After a rotation the level is the highest non-empty one**, given the lazy flag was right. -/
theorem Rotated.isHighest {tm tm' : TaskManager} {b : Bool} {c : Ptr} {rest : List Ptr}
    (h : Rotated tm b c rest tm')
    (lazy : ∀ l, tm.currentLevel < l → tm.running l ≠ [] → tm.levelChanged = true)
    (hne : ∃ l, tm'.running l ≠ []) : tm'.IsHighest := by
  by_cases hc : (tm.levelChanged || (if b then rest else rest ++ [c]).isEmpty) = true
  · have hl := h.level
    rw [if_pos hc] at hl
    unfold IsHighest
    rw [hl]
    exact highestLevel_spec _ _ hne
  · have hl := h.level
    rw [if_neg hc] at hl
    simp only [Bool.or_eq_true, not_or, Bool.not_eq_true] at hc
    unfold IsHighest
    rw [hl, h.running]
    refine ⟨by simpa using hc.2, fun l hlt => ?_⟩
    rw [Function.update_of_ne (ne_of_gt hlt)]
    by_contra hlne
    have := lazy l hlt hlne
    rw [hc.1] at this
    exact absurd this (by simp)

/-! ## Writes through a pointer -/

theorem modify_congr {tm : TaskManager} (hrep : tm.Rep) {t : Task} (ht : t ∈ tm.tasks) {f g : Task → Task}
    (hfg : f t = g t) : (tm.modify t.ptr f).tasks = (tm.modify t.ptr g).tasks := by
  simp only [modify]
  refine List.map_congr_left fun u hu => ?_
  split
  · rename_i hp
    rw [hrep.unique hu ht hp, hfg]
  · rfl

theorem modify_modify (tm : TaskManager) (p : Ptr) {f g : Task → Task} (hf : ∀ t, (f t).ptr = t.ptr) :
    (tm.modify p f).modify p g = tm.modify p fun t => g (f t) := by
  simp only [modify, List.map_map]
  congr 1
  refine List.map_congr_left fun u _ => ?_
  simp only [Function.comp_apply]
  by_cases hp : u.ptr = p
  · rw [if_pos hp, if_pos hp, hf, if_pos hp]
  · rw [if_neg hp, if_neg hp, if_neg hp]

theorem modify_id {tm : TaskManager} (hrep : tm.Rep) {t : Task} (ht : t ∈ tm.tasks) {f : Task → Task}
    (hf : f t = t) : (tm.modify t.ptr f).tasks = tm.tasks := by
  rw [modify_congr hrep ht (g := id) hf]
  simp [modify]

/-! ## The invariant -/

/-- What every operation that returns keeps, whichever task it is applied to. -/
structure Core (tm : TaskManager) : Prop where
  rep : tm.Rep
  current : tm.running tm.currentLevel ≠ []
  noWaiter : tm.finishWaiter = []
  /-- A task that became runnable above the current level has set `level_changed_`. -/
  lazy : ∀ l, tm.currentLevel < l → tm.running l ≠ [] → tm.levelChanged = true

/-- With the idle task always runnable, every operation returns. -/
structure Inv (tm : TaskManager) : Prop extends Core tm where
  idle : ∃ t ∈ tm.tasks, t.ptr = idlePtr ∧ t.running = true

theorem boot_running : boot.running = fun l => if l = 3 then [0] else if l = 0 then [1] else [] := by
  funext l; revert l; decide

theorem boot_tasks : boot.tasks = [{ ptr := 0, id := 1, level := 3, running := true },
    { ptr := 1, id := 2, level := 0, running := true, inits := [⟨.taskIdle, 2, 0⟩] }] := by decide

theorem inv_boot : boot.Inv where
  rep := by
    refine ⟨by decide, by decide, fun l q => ?_, by decide⟩
    rw [boot_running, boot_tasks]
    fin_cases l <;> simp <;> exact eq_comm
  current := by decide
  idle := by decide
  noWaiter := rfl
  lazy := by decide

/-- A task is in one queue only. -/
theorem Rep.level_eq {tm : TaskManager} (h : tm.Rep) {t : Task} (ht : t ∈ tm.tasks) {l : Level}
    (hm : t.ptr ∈ tm.running l) : t.running = true ∧ t.level = l := by
  obtain ⟨u, hu, hp, hr, hl⟩ := (h.queued l t.ptr).1 hm
  obtain rfl := h.unique hu ht hp
  exact ⟨hr, hl⟩

theorem Core.currentTask_live {tm : TaskManager} (h : tm.Core) :
    ∃ t rest, t ∈ tm.tasks ∧ tm.running tm.currentLevel = t.ptr :: rest ∧ t.running = true ∧
      t.level = tm.currentLevel ∧ tm.currentTask = some t.ptr := by
  obtain ⟨c, rest, hc⟩ := List.exists_cons_of_ne_nil h.current
  obtain ⟨t, ht, rfl, hr, hl⟩ := (h.rep.queued tm.currentLevel c).1 (by rw [hc]; simp)
  exact ⟨t, rest, ht, hc, hr, hl, by simp [currentTask, hc]⟩

theorem mem_tail_iff {c : Ptr} {rest : List Ptr} (h : (c :: rest).Nodup) (q : Ptr) :
    q ∈ rest ↔ q ≠ c ∧ q ∈ c :: rest := by
  constructor
  · intro hq; exact ⟨fun e => (List.nodup_cons.1 h).1 (e ▸ hq), List.mem_cons_of_mem _ hq⟩
  · rintro ⟨hne, hq⟩; exact (List.mem_cons.1 hq).resolve_left hne

/-- Removing `t` from the queues: membership after the removal. -/
theorem Rep.mem_remove {tm : TaskManager} (h : tm.Rep) {t : Task} (ht : t ∈ tm.tasks) {q' : List Ptr}
    (hq' : ∀ q, q ∈ q' ↔ q ≠ t.ptr ∧ q ∈ tm.running t.level) (l : Level) (q : Ptr) :
    q ∈ Function.update tm.running t.level q' l ↔ q ≠ t.ptr ∧ q ∈ tm.running l := by
  by_cases hl : l = t.level
  · subst hl; rw [Function.update_self, hq']
  · rw [Function.update_of_ne hl]
    refine ⟨fun hm => ⟨?_, hm⟩, fun hm => hm.2⟩
    rintro rfl
    exact hl (h.level_eq ht hm).2.symm

theorem nodup_update {running : Level → List Ptr} (h : ∀ l, (running l).Nodup) (k : Level) {q : List Ptr}
    (hq : q.Nodup) (l : Level) : (Function.update running k q l).Nodup := by
  by_cases hl : l = k
  · subst hl; rwa [Function.update_self]
  · rw [Function.update_of_ne hl]; exact h l

/-- A rotation re-establishes the level part of the invariant, unless nothing is left to run. -/
theorem Core.of_rotated {tm tm' : TaskManager} {b : Bool} {c : Ptr} {rest : List Ptr}
    (hr : Rotated tm b c rest tm')
    (lazy : ∀ l, tm.currentLevel < l → tm.running l ≠ [] → tm.levelChanged = true)
    (hrep : tm'.Rep) (hne : ∃ l, tm'.running l ≠ []) (hw : tm.finishWaiter = []) : tm'.Core ∧ tm'.IsHighest := by
  have hh := hr.isHighest lazy hne
  exact ⟨⟨hrep, hh.1, hr.finishWaiter.trans hw, fun l hl hnl => absurd (hh.2 l hl) hnl⟩, hh⟩

theorem Rep.running_ne_nil {tm : TaskManager} (h : tm.Rep) {t : Task} (ht : t ∈ tm.tasks)
    (hrun : t.running = true) : ∃ l, tm.running l ≠ [] :=
  ⟨t.level, List.ne_nil_of_mem ((h.queued _ _).2 ⟨t, ht, rfl, hrun, rfl⟩)⟩

/-- `CurrentTask()` could be read, so some queue is not empty. -/
theorem resume_some {tm tm' : TaskManager} (h : tm.resume = some tm') : tm' = tm ∧ ∃ l, tm.running l ≠ [] := by
  obtain ⟨c, hc, rfl⟩ := Option.map_eq_some_iff.1 h
  exact ⟨rfl, tm.currentLevel, fun he => by simp [currentTask, he] at hc⟩

/-- No task stops running. -/
def StaysRunning (tm tm' : TaskManager) : Prop :=
  ∀ t ∈ tm.tasks, t.running = true → ∃ u ∈ tm'.tasks, u.ptr = t.ptr ∧ u.running = true

theorem StaysRunning.refl (tm : TaskManager) : StaysRunning tm tm := fun t ht hr => ⟨t, ht, rfl, hr⟩

theorem StaysRunning.modify {tm tm' : TaskManager} {p : Ptr} {f : Task → Task}
    (htasks : tm'.tasks = (tm.modify p f).tasks) (hf : ∀ u, (f u).ptr = u.ptr)
    (hr : ∀ u, u.running = true → (f u).running = true) : StaysRunning tm tm' := by
  intro t ht hrun
  refine ⟨_, htasks ▸ mem_modify.2 ⟨t, ht, rfl⟩, ?_, ?_⟩
  · split
    · exact hf t
    · rfl
  · split
    · exact hr t hrun
    · exact hrun

theorem Core.inv {tm tm' : TaskManager} (h : tm'.Core) (hs : StaysRunning tm tm') (hi : tm.Inv) : tm'.Inv := by
  obtain ⟨t, ht, hp, hr⟩ := hi.idle
  obtain ⟨u, hu, hup, hur⟩ := hs t ht hr
  exact ⟨h, u, hu, hup.trans hp, hur⟩

theorem IsHighest.resume {tm : TaskManager} (h : tm.IsHighest) : tm.resume = some tm := by
  obtain ⟨c, rest, hc⟩ := List.exists_cons_of_ne_nil h.1
  simp [TaskManager.resume, currentTask, hc]

/-! ## Each operation keeps the invariant -/

theorem Core.newTask {tm : TaskManager} (h : tm.Core) : tm.newTask.1.Core where
  rep := h.rep.newTask
  current := h.current
  noWaiter := h.noWaiter
  lazy := h.lazy

theorem Inv.newTask {tm : TaskManager} (h : tm.Inv) : tm.newTask.1.Inv :=
  h.toCore.newTask.inv (fun t ht hr => ⟨t, List.mem_append_left _ ht, rfl, hr⟩) h

theorem Core.modify {tm : TaskManager} (h : tm.Core) (p : Ptr) (f : Task → Task) (hf : ∀ u, (f u).ptr = u.ptr)
    (hr : ∀ u, (f u).running = u.running) (hl : ∀ u, (f u).level = u.level) : (tm.modify p f).Core where
  rep := h.rep.modify p f hf hr hl
  current := h.current
  noWaiter := h.noWaiter
  lazy := h.lazy

/-- **`SwitchTask`**. -/
theorem Core.switchTask {tm : TaskManager} (h : tm.Core) :
    ∃ tm', tm.switchTask = some tm' ∧ tm'.Core ∧ tm'.IsHighest ∧ tm'.tasks = tm.tasks ∧
      tm'.latestId = tm.latestId ∧ tm'.nextPtr = tm.nextPtr := by
  obtain ⟨t, rest, ht, hc, hrun, hlev, -⟩ := h.currentTask_live
  obtain ⟨tm', hrot, hr⟩ := rotate_spec false hc
  have hrep : tm'.Rep := by
    refine h.rep.perm hr.tasks hr.nextPtr fun l => ?_
    rw [hr.running]
    by_cases hl : l = tm.currentLevel
    · subst hl; rw [Function.update_self, hc]; simp
    · rw [Function.update_of_ne hl]
  obtain ⟨hcore, hh⟩ := Core.of_rotated hr h.lazy hrep (hrep.running_ne_nil (hr.tasks ▸ ht) hrun) h.noWaiter
  exact ⟨tm', by simp [TaskManager.switchTask, hrot, hh.resume], hcore, hh, hr.tasks, hr.latestId, hr.nextPtr⟩

theorem Inv.switchTask {tm : TaskManager} (h : tm.Inv) :
    ∃ tm', tm.switchTask = some tm' ∧ tm'.Inv ∧ tm'.IsHighest := by
  obtain ⟨tm', he, hcore, hh, htasks, -, -⟩ := h.toCore.switchTask
  exact ⟨tm', he, hcore.inv (fun t ht hr => ⟨t, htasks ▸ ht, rfl, hr⟩) h, hh⟩

/-- **`Sleep`**, of the current task or of another one: if anything is left to run, it returns. -/
theorem Core.sleep {tm : TaskManager} (h : tm.Core) {t : Task} (ht : t ∈ tm.tasks) :
    (∀ tm', tm.sleep t.ptr = some tm' → tm'.Core ∧ (tm.currentTask = some t.ptr → tm'.IsHighest) ∧
      tm'.tasks = (tm.modify t.ptr fun t => { t with running := false }).tasks ∧
      tm'.latestId = tm.latestId ∧ tm'.nextPtr = tm.nextPtr) ∧
    ((∃ u ∈ tm.tasks, u.ptr ≠ t.ptr ∧ u.running = true) → ∃ tm', tm.sleep t.ptr = some tm') := by
  obtain ⟨c, rest, hc, hcq, hcr, hcl, hcur⟩ := h.currentTask_live
  by_cases hrun : t.running = true
  · by_cases hfront : t.ptr = c.ptr
    · -- the current task: its queue loses its front, then the level is recomputed
      obtain rfl := h.rep.unique ht hc hfront
      obtain ⟨tm1, hrot, hr⟩ := @rotate_spec
        (tm.modify t.ptr fun t => { t with running := false }) true _ _ hcq
      have hrep : tm1.Rep := by
        refine h.rep.update ht (fun t => { t with running := false }) (fun _ => rfl) hr.tasks hr.nextPtr ?_ ?_
        · intro l q
          have hnd := h.rep.nodup tm.currentLevel
          rw [hcq] at hnd
          have := h.rep.mem_remove ht (fun q => by rw [hcl, hcq]; exact mem_tail_iff hnd q) l q
          simpa [hr.running, hcl] using this
        · intro l
          have hnd := h.rep.nodup tm.currentLevel
          rw [hcq] at hnd
          rw [hr.running]
          exact nodup_update h.rep.nodup _ (List.nodup_cons.1 hnd).2 l
      have he : tm.sleep t.ptr = tm1.resume := by
        simp [TaskManager.sleep, h.rep.deref_eq ht, hrun, hcur, hrot]
      rw [he]
      refine ⟨fun tm' hres => ?_, ?_⟩
      · obtain ⟨rfl, hne⟩ := resume_some hres
        obtain ⟨hcore, hh⟩ := Core.of_rotated hr h.lazy hrep hne h.noWaiter
        exact ⟨hcore, fun _ => hh, hr.tasks, hr.latestId, hr.nextPtr⟩
      · rintro ⟨u, hu, hne, hur⟩
        have hu1 : u ∈ tm1.tasks := by
          rw [hr.tasks]
          exact mem_modify.2 ⟨u, hu, by rw [if_neg hne]⟩
        obtain ⟨-, hh⟩ := Core.of_rotated hr h.lazy hrep (hrep.running_ne_nil hu1 hur) h.noWaiter
        exact ⟨tm1, hh.resume⟩
    · -- another task: erased from its queue, the front stays
      have he : tm.sleep t.ptr = some ((tm.modify t.ptr fun t => { t with running := false }).setQueue t.level
          ((tm.running t.level).filter (· ≠ t.ptr))) := by
        simp [TaskManager.sleep, h.rep.deref_eq ht, hrun, hcur, hfront]
      refine ⟨fun tm' he' => ?_, fun _ => ⟨_, he⟩⟩
      obtain rfl := Option.some.inj (he.symm.trans he')
      refine ⟨?_, fun hp => ?_, rfl, rfl, rfl⟩
      · have hrep : Rep ((tm.modify t.ptr fun t => { t with running := false }).setQueue t.level
            ((tm.running t.level).filter (· ≠ t.ptr))) := by
          refine h.rep.update ht (fun t => { t with running := false }) (fun _ => rfl) rfl rfl ?_ ?_
          · intro l q
            have := @Rep.mem_remove _ h.rep _ ht ((tm.running t.level).filter (· ≠ t.ptr))
              (fun q => by simp [and_comm]) l q
            simpa using this
          · exact nodup_update h.rep.nodup _ ((h.rep.nodup _).filter _)
        refine ⟨hrep, ?_, h.noWaiter, ?_⟩
        · -- the front of the current queue survives the erase
          have hm : c.ptr ∈ Function.update tm.running t.level ((tm.running t.level).filter (· ≠ t.ptr))
              tm.currentLevel :=
            (h.rep.mem_remove ht (fun q => by simp [and_comm]) _ _).2 ⟨Ne.symm hfront, by rw [hcq]; simp⟩
          simpa using List.ne_nil_of_mem hm
        · intro l hl hne
          refine h.lazy l hl fun he => hne ?_
          by_cases hlt : l = t.level
          · subst hlt; simp [he]
          · simp [hlt, he]
      · rw [hcur] at hp
        exact absurd (Option.some.inj hp).symm hfront
  · have he : tm.sleep t.ptr = some tm := by simp [TaskManager.sleep, h.rep.deref_eq ht, hrun]
    refine ⟨fun tm' he' => ?_, fun _ => ⟨tm, he⟩⟩
    obtain rfl := Option.some.inj (he.symm.trans he')
    refine ⟨h, fun hp => ?_, ?_, rfl, rfl⟩
    · rw [hcur] at hp
      obtain rfl := h.rep.unique hc ht (Option.some.inj hp)
      exact absurd hcr hrun
    · simp only [Bool.not_eq_true] at hrun
      exact (modify_id h.rep ht (by simp [← hrun])).symm

theorem Inv.sleep {tm : TaskManager} (h : tm.Inv) {t : Task} (ht : t ∈ tm.tasks) (hidle : t.ptr ≠ idlePtr) :
    ∃ tm', tm.sleep t.ptr = some tm' ∧ tm'.Inv ∧ (tm.currentTask = some t.ptr → tm'.IsHighest) := by
  obtain ⟨i, hi, hp, hr⟩ := h.idle
  have hne : i.ptr ≠ t.ptr := fun e => hidle (e.symm.trans hp)
  obtain ⟨hspec, hex⟩ := h.toCore.sleep ht
  obtain ⟨tm', he⟩ := hex ⟨i, hi, hne, hr⟩
  obtain ⟨hcore, hh, htasks, -, -⟩ := hspec tm' he
  refine ⟨tm', he, ⟨hcore, i, ?_, hp, hr⟩, hh⟩
  rw [htasks]
  exact mem_modify.2 ⟨i, hi, by rw [if_neg hne]⟩

/-- Setting the flag when a task is queued above the current level keeps `Core.lazy`. -/
theorem Core.of_raise {tm : TaskManager} (lv : Level) (hrep : tm.Rep) (hcur : tm.running tm.currentLevel ≠ [])
    (hw : tm.finishWaiter = [])
    (hlazy : ∀ l, tm.currentLevel < l → tm.running l ≠ [] → l ≠ lv → tm.levelChanged = true) :
    (if tm.currentLevel < lv then { tm with levelChanged := true } else tm).Core := by
  split
  · exact ⟨⟨hrep.ptrs, hrep.fresh, hrep.queued, hrep.nodup⟩, hcur, hw, fun _ _ _ => rfl⟩
  · rename_i hlt
    exact ⟨hrep, hcur, hw, fun l hl hne => hlazy l hl hne fun e => hlt (e ▸ hl)⟩

/-- **`ChangeLevelRunning`**, of the current task or of another one. -/
theorem Core.changeLevelRunning {tm : TaskManager} (h : tm.Core) {t : Task} (ht : t ∈ tm.tasks)
    (hrun : t.running = true) (level : Option Level) :
    ∃ tm', tm.changeLevelRunning t level = some tm' ∧ tm'.Core ∧ StaysRunning tm tm' := by
  obtain ⟨c, rest, hc, hcq, hcr, hcl, hcur⟩ := h.currentTask_live
  match level with
  | none => exact ⟨tm, rfl, h, .refl tm⟩
  | some lv =>
    by_cases hlv : lv = t.level
    · exact ⟨tm, by simp [TaskManager.changeLevelRunning, hlv], h, .refl tm⟩
    have hstay : ∀ tm' : TaskManager, tm'.tasks = (tm.modify t.ptr fun t => { t with level := lv }).tasks →
        StaysRunning tm tm' := fun tm' he => .modify he (fun _ => rfl) (fun _ hr => hr)
    have hnot : t.ptr ∉ tm.running lv := fun hm => hlv (h.rep.level_eq ht hm).2.symm
    by_cases hfront : t.ptr = c.ptr
    · -- the current task takes the level with it
      obtain rfl := h.rep.unique ht hc hfront
      have hnd := h.rep.nodup tm.currentLevel
      rw [hcq] at hnd
      have hndr := (List.nodup_cons.1 hnd).2
      let tm2 : TaskManager := (((tm.setQueue tm.currentLevel rest).setQueue lv
        (t.ptr :: tm.running lv)).modify t.ptr fun t => { t with level := lv })
      have hne : lv ≠ tm.currentLevel := fun e => hlv (e.trans hcl.symm)
      have hrep : tm2.Rep := by
        refine h.rep.update ht (fun t => { t with level := lv }) (fun _ => rfl) rfl rfl ?_ ?_
        · intro l q
          have hrem := h.rep.mem_remove ht (fun q => by rw [hcl, hcq]; exact mem_tail_iff hnd q) l q
          rw [hcl] at hrem
          by_cases hl : l = lv
          · subst hl
            simp only [tm2, modify_running, setQueue_running, Function.update_self, List.mem_cons]
            constructor
            · rintro (rfl | hq)
              · exact Or.inr ⟨rfl, hrun, trivial⟩
              · exact Or.inl ⟨fun e => hnot (e ▸ hq), hq⟩
            · rintro (⟨-, hq⟩ | ⟨rfl, -, -⟩)
              · exact Or.inr hq
              · exact Or.inl rfl
          · simp only [tm2, modify_running, setQueue_running, Function.update_of_ne hl]
            rw [hrem]
            refine ⟨Or.inl, ?_⟩
            rintro (hq | ⟨-, -, rfl⟩)
            · exact hq
            · exact absurd rfl hl
        · refine nodup_update (nodup_update h.rep.nodup _ hndr) _ ?_
          exact List.nodup_cons.2 ⟨hnot, h.rep.nodup lv⟩
      have heq : tm.changeLevelRunning t (some lv) =
          some (if tm.currentLevel ≤ lv then { tm2 with currentLevel := lv }
            else { tm2 with currentLevel := lv, levelChanged := true }) := by
        simp [TaskManager.changeLevelRunning, hlv, hcur, hcq, tm2, Function.update_of_ne hne]
      have hcur2 : tm2.running lv ≠ [] := by simp [tm2]
      refine ⟨_, heq, ?_, hstay _ (by split <;> rfl)⟩
      split
      · rename_i hle
        refine ⟨⟨hrep.ptrs, hrep.fresh, hrep.queued, hrep.nodup⟩, hcur2, h.noWaiter, ?_⟩
        intro l hl hnel
        have hlc : tm.currentLevel < l := lt_of_le_of_lt hle hl
        refine h.lazy l hlc ?_
        simpa [tm2, Function.update_of_ne (ne_of_gt hl), Function.update_of_ne (ne_of_gt hlc)] using hnel
      · exact ⟨⟨hrep.ptrs, hrep.fresh, hrep.queued, hrep.nodup⟩, hcur2, h.noWaiter, fun _ _ _ => rfl⟩
    · -- another task: erased from its old queue, pushed to the new one
      let tm2 : TaskManager := (((tm.setQueue t.level ((tm.running t.level).filter (· ≠ t.ptr))).setQueue lv
        (tm.running lv ++ [t.ptr])).modify t.ptr fun t => { t with level := lv })
      have heq : tm.changeLevelRunning t (some lv) =
          some (if tm2.currentLevel < lv then { tm2 with levelChanged := true } else tm2) := by
        simp [TaskManager.changeLevelRunning, hlv, hcur, hfront, tm2]
      have hmem : ∀ l q, q ∈ tm2.running l ↔ (q ≠ t.ptr ∧ q ∈ tm.running l) ∨ (q = t.ptr ∧ l = lv) := by
        intro l q
        have hrem := @Rep.mem_remove _ h.rep _ ht ((tm.running t.level).filter (· ≠ t.ptr))
          (fun q => by simp [and_comm]) l q
        by_cases hl : l = lv
        · subst hl
          simp only [tm2, modify_running, setQueue_running, Function.update_self, List.mem_append,
            List.mem_singleton]
          constructor
          · rintro (hq | rfl)
            · exact Or.inl ⟨fun e => hnot (e ▸ hq), hq⟩
            · exact Or.inr ⟨rfl, trivial⟩
          · rintro (⟨-, hq⟩ | ⟨rfl, -⟩)
            · exact Or.inl hq
            · exact Or.inr rfl
        · simp only [tm2, modify_running, setQueue_running, Function.update_of_ne hl]
          rw [hrem]
          simp [hl]
      have hrep : tm2.Rep := by
        refine h.rep.update ht (fun t => { t with level := lv }) (fun _ => rfl) rfl rfl ?_ ?_
        · intro l q
          rw [hmem]
          simp [hrun, eq_comm]
        · refine nodup_update (nodup_update h.rep.nodup _ ((h.rep.nodup _).filter _)) _ ?_
          exact List.nodup_append.2 ⟨h.rep.nodup lv, by simp, by
            intro a ha b hb e
            simp only [List.mem_singleton] at hb
            exact hnot (hb ▸ e ▸ ha)⟩
      refine ⟨_, heq, Core.of_raise lv hrep ?_ h.noWaiter ?_, hstay _ (by split <;> rfl)⟩
      · exact List.ne_nil_of_mem ((hmem _ c.ptr).2 (Or.inl ⟨Ne.symm hfront, by
          show c.ptr ∈ tm.running tm.currentLevel
          rw [hcq]; simp⟩))
      · intro l hl hne hllv
        obtain ⟨q, hq⟩ := List.exists_mem_of_ne_nil _ hne
        rcases (hmem l q).1 hq with ⟨-, hq⟩ | ⟨-, e⟩
        · exact h.lazy l hl (List.ne_nil_of_mem hq)
        · exact absurd e hllv

/-- **`Wakeup`**, of a sleeping or of a running task. -/
theorem Core.wakeup {tm : TaskManager} (h : tm.Core) {t : Task} (ht : t ∈ tm.tasks) (level : Option Level) :
    ∃ tm', tm.wakeup t.ptr level = some tm' ∧ tm'.Core ∧ StaysRunning tm tm' := by
  by_cases hrun : t.running = true
  · obtain ⟨tm', he, hinv⟩ := h.changeLevelRunning ht hrun level
    exact ⟨tm', by simp [TaskManager.wakeup, h.rep.deref_eq ht, hrun, he], hinv⟩
  · obtain ⟨c, rest, hc, hcq, hcr, hcl, hcur⟩ := h.currentTask_live
    let lv := level.getD t.level
    have hnot : ∀ l, t.ptr ∉ tm.running l := fun l hm => hrun (h.rep.level_eq ht hm).1
    let tm2 : TaskManager := (tm.modify t.ptr fun t => { t with level := lv, running := true }).setQueue lv
      (tm.running lv ++ [t.ptr])
    have hmem : ∀ l q, q ∈ tm2.running l ↔ q ∈ tm.running l ∨ (q = t.ptr ∧ l = lv) := by
      intro l q
      by_cases hl : l = lv
      · subst hl; simp [tm2]
      · simp [tm2, hl]
    have hrep : tm2.Rep := by
      refine h.rep.update ht (fun t => { t with level := lv, running := true }) (fun _ => rfl) rfl rfl ?_ ?_
      · intro l q
        rw [hmem]
        constructor
        · rintro (hq | ⟨rfl, rfl⟩)
          · exact Or.inl ⟨fun e => hnot l (e ▸ hq), hq⟩
          · exact Or.inr ⟨rfl, rfl, rfl⟩
        · rintro (⟨-, hq⟩ | ⟨rfl, -, rfl⟩)
          · exact Or.inl hq
          · exact Or.inr ⟨rfl, rfl⟩
      · refine nodup_update h.rep.nodup _ ?_
        exact List.nodup_append.2 ⟨h.rep.nodup lv, by simp, by
          intro a ha b hb e
          simp only [List.mem_singleton] at hb
          exact hnot lv (hb ▸ e ▸ ha)⟩
    have heq : tm.wakeup t.ptr level = some (if tm2.currentLevel < lv then { tm2 with levelChanged := true } else tm2) := by
      simp only [TaskManager.wakeup, h.rep.deref_eq ht, hrun, Option.bind_eq_bind, Option.bind_some, Bool.false_eq_true,
        if_false, pure]
      rfl
    have hstay : StaysRunning tm (if tm2.currentLevel < lv then { tm2 with levelChanged := true } else tm2) :=
      .modify (p := t.ptr) (f := fun t => { t with level := lv, running := true }) (by split <;> rfl) (fun _ => rfl)
        (fun _ _ => rfl)
    refine ⟨_, heq, Core.of_raise lv hrep ?_ h.noWaiter ?_, hstay⟩
    · exact List.ne_nil_of_mem ((hmem _ c.ptr).2 (Or.inl (by
        show c.ptr ∈ tm.running tm.currentLevel
        rw [hcq]; simp)))
    · intro l hl hne hllv
      obtain ⟨q, hq⟩ := List.exists_mem_of_ne_nil _ hne
      rcases (hmem l q).1 hq with hq | ⟨-, e⟩
      · exact h.lazy l hl (List.ne_nil_of_mem hq)
      · exact absurd e hllv

theorem Inv.wakeup {tm : TaskManager} (h : tm.Inv) {t : Task} (ht : t ∈ tm.tasks) (level : Option Level) :
    ∃ tm', tm.wakeup t.ptr level = some tm' ∧ tm'.Inv := by
  obtain ⟨tm', he, hcore, hs⟩ := h.toCore.wakeup ht level
  exact ⟨tm', he, hcore.inv hs h⟩

/-- **`Finish`** by the current task: it is erased, and `Finish` returns if anything is left to run. -/
theorem Core.finish {tm : TaskManager} (h : tm.Core) (exitCode : Int) :
    ∃ c ∈ tm.tasks, tm.currentTask = some c.ptr ∧
      (∀ tm', tm.finish exitCode = some tm' → tm'.Core ∧ tm'.IsHighest ∧
        tm'.tasks = tm.tasks.filter (·.ptr ≠ c.ptr) ∧ tm'.latestId = tm.latestId ∧ tm'.nextPtr = tm.nextPtr) ∧
      ((∃ u ∈ tm.tasks, u.ptr ≠ c.ptr ∧ u.running = true) → ∃ tm', tm.finish exitCode = some tm') := by
  obtain ⟨c, rest, hc, hcq, hcr, hcl, hcur⟩ := h.currentTask_live
  obtain ⟨tm1, hrot, hr⟩ := rotate_spec true hcq
  have hnd := h.rep.nodup tm.currentLevel
  rw [hcq] at hnd
  have hndr := (List.nodup_cons.1 hnd).2
  let tm2 : TaskManager := { tm1 with
    tasks := tm1.tasks.filter (·.ptr ≠ c.ptr)
    finishTasks := (c.id, exitCode) :: tm1.finishTasks.filter (·.1 ≠ c.id) }
  have htasks : tm2.tasks = tm.tasks.filter (·.ptr ≠ c.ptr) := by simp [tm2, hr.tasks]
  have hrep : tm2.Rep := by
    refine h.rep.erase c.ptr (by simp [tm2, hr.tasks]) hr.nextPtr ?_ ?_
    · intro l q
      have := h.rep.mem_remove hc (fun q => by rw [hcl, hcq]; exact mem_tail_iff hnd q) l q
      simpa [tm2, hr.running, hcl] using this
    · intro l
      simp only [tm2, hr.running]
      exact nodup_update h.rep.nodup _ hndr l
  have hr2 : Rotated tm true c.ptr rest { tm2 with tasks := tm1.tasks } :=
    ⟨hr.tasks, hr.latestId, hr.nextPtr, hr.finishWaiter, hr.running, hr.levelChanged, hr.level⟩
  have hhigh : (∃ l, tm2.running l ≠ []) → tm2.Core ∧ tm2.IsHighest := by
    intro hne
    have hh : tm2.IsHighest := hr2.isHighest h.lazy hne
    exact ⟨⟨hrep, hh.1, hr.finishWaiter.trans h.noWaiter, fun l hl hnl => absurd (hh.2 l hl) hnl⟩, hh⟩
  have hderef : tm1.deref c.ptr = some c := by
    rw [deref, hr.tasks]; exact h.rep.deref_eq hc
  have he : tm.finish exitCode = tm2.resume := by
    have hw : tm1.finishWaiter = [] := hr.finishWaiter.trans h.noWaiter
    simp [TaskManager.finish, hrot, hderef, hw, tm2]
  rw [he]
  refine ⟨c, hc, hcur, fun tm' hres => ?_, ?_⟩
  · obtain ⟨rfl, hne⟩ := resume_some hres
    exact ⟨(hhigh hne).1, (hhigh hne).2, htasks, hr.latestId, hr.nextPtr⟩
  · rintro ⟨u, hu, hne, hur⟩
    have hu2 : u ∈ tm2.tasks := by
      rw [htasks, List.mem_filter]
      exact ⟨hu, by simpa using hne⟩
    exact ⟨tm2, (hhigh (hrep.running_ne_nil hu2 hur)).2.resume⟩

theorem Inv.finish {tm : TaskManager} (h : tm.Inv) (hidle : tm.currentTask ≠ some idlePtr) (exitCode : Int) :
    ∃ tm', tm.finish exitCode = some tm' ∧ tm'.Inv ∧ tm'.IsHighest := by
  obtain ⟨i, hi, hp, hr⟩ := h.idle
  obtain ⟨c, hc, hcur, hspec, hex⟩ := h.toCore.finish exitCode
  have hne : i.ptr ≠ c.ptr := fun e => hidle (by rw [hcur, ← e, hp])
  obtain ⟨tm', he⟩ := hex ⟨i, hi, hne, hr⟩
  obtain ⟨hcore, hh, htasks, -, -⟩ := hspec tm' he
  refine ⟨tm', he, ⟨hcore, i, ?_, hp, hr⟩, hh⟩
  rw [htasks, List.mem_filter]
  exact ⟨hi, by simpa using hne⟩

/-- A write to a task followed by `Wakeup()`: the body of `SendMessage` and of the start functions. -/
theorem Core.modifyWakeup {tm : TaskManager} (h : tm.Core) {t : Task} (ht : t ∈ tm.tasks) (f : Task → Task)
    (hf : ∀ u, (f u).ptr = u.ptr) (hr : ∀ u, (f u).running = u.running) (hl : ∀ u, (f u).level = u.level) :
    ∃ tm', (tm.modify t.ptr f).wakeup t.ptr none = some tm' ∧ tm'.Core ∧ StaysRunning tm tm' := by
  have hmem : f t ∈ (tm.modify t.ptr f).tasks := mem_modify.2 ⟨t, ht, if_pos rfl⟩
  obtain ⟨tm', he, hcore, hs⟩ := (h.modify t.ptr f hf hr hl).wakeup hmem none
  rw [hf] at he
  refine ⟨tm', he, hcore, fun u hu hur => ?_⟩
  obtain ⟨v, hv, hvp, hvr⟩ := StaysRunning.modify (p := t.ptr) (f := f) rfl hf (fun u hu => (hr u).trans hu)
    u hu hur
  obtain ⟨w, hw, hwp, hwr⟩ := hs v hv hvr
  exact ⟨w, hw, hwp.trans hvp, hwr⟩

theorem Inv.sendMessage {tm : TaskManager} (h : tm.Inv) (id : UInt64) (msg : Message) :
    ∃ r, tm.sendMessage id msg = some r ∧ r.1.Inv := by
  cases hf : tm.find id with
  | none => exact ⟨_, by simp [TaskManager.sendMessage, hf]; rfl, h⟩
  | some t =>
    obtain ⟨tm', he, hcore, hs⟩ := h.toCore.modifyWakeup (find_some hf).1
      (fun t => { t with msgs := t.msgs ++ [msg] }) (fun _ => rfl) (fun _ => rfl) (fun _ => rfl)
    have he' : tm.taskSendMessage t.ptr msg = some tm' := he
    exact ⟨(tm', .kSuccess), by simp [TaskManager.sendMessage, hf, he'], hcore.inv hs h⟩

theorem Inv.startTask {tm : TaskManager} (h : tm.Inv) (f : TaskFunc) (id data : UInt64) :
    ∃ r, tm.startTask f id data = some r ∧ r.1.Inv := by
  cases hf : tm.find id with
  | none => exact ⟨_, by simp [TaskManager.startTask, hf]; rfl, h⟩
  | some t =>
    obtain ⟨tm', he, hcore, hs⟩ := h.toCore.modifyWakeup (find_some hf).1
      (fun t => t.initContext f data) (fun _ => rfl) (fun _ => rfl) (fun _ => rfl)
    exact ⟨(tm', .kSuccess), by simp [TaskManager.startTask, hf, he], hcore.inv hs h⟩

/-- **Every operation is defined and keeps the invariant.** -/
theorem Inv.exec {tm : TaskManager} (h : tm.Inv) (op : Op) (hok : op.Ok tm) :
    ∃ tm', op.exec tm = some tm' ∧ tm'.Inv := by
  cases op with
  | newTask => exact ⟨_, rfl, h.newTask⟩
  | wakeup p level =>
    obtain ⟨t, ht, rfl⟩ := hok
    exact h.wakeup ht level
  | wakeupId id level =>
    cases hf : tm.find id with
    | none => exact ⟨tm, by simp [Op.exec, TaskManager.wakeupId, hf], h⟩
    | some t =>
      obtain ⟨tm', he, hinv⟩ := h.wakeup (find_some hf).1 level
      exact ⟨tm', by simp [Op.exec, TaskManager.wakeupId, hf, he], hinv⟩
  | sleep p =>
    obtain ⟨⟨t, ht, rfl⟩, hne⟩ := hok
    obtain ⟨tm', he, hinv, -⟩ := h.sleep ht hne
    exact ⟨tm', he, hinv⟩
  | sleepId id =>
    cases hf : tm.find id with
    | none => exact ⟨tm, by simp [Op.exec, TaskManager.sleepId, hf], h⟩
    | some t =>
      obtain ⟨tm', he, hinv, -⟩ := h.sleep (find_some hf).1 (hok t hf)
      exact ⟨tm', by simp [Op.exec, TaskManager.sleepId, hf, he], hinv⟩
  | switchTask =>
    obtain ⟨tm', he, hinv, -⟩ := h.switchTask
    exact ⟨tm', he, hinv⟩
  | sendMessage id msg =>
    obtain ⟨r, he, hinv⟩ := h.sendMessage id msg
    exact ⟨r.1, by simp [Op.exec, he], hinv⟩
  | startAppTask id amId =>
    obtain ⟨r, he, hinv⟩ := h.startTask .taskApp id amId
    exact ⟨r.1, by simp [Op.exec, startAppTask, he], hinv⟩
  | startServerTask id initId =>
    obtain ⟨r, he, hinv⟩ := h.startTask .taskServer id initId
    exact ⟨r.1, by simp [Op.exec, startServerTask, he], hinv⟩
  | finish exitCode =>
    obtain ⟨tm', he, hinv, -⟩ := h.finish hok exitCode
    exact ⟨tm', he, hinv⟩

theorem Reachable.inv {tm : TaskManager} (h : tm.Reachable) : tm.Inv := by
  refine TransitionSystem.invariant inv_boot (fun x y hx hxy => ?_) h
  obtain ⟨op, hok, he⟩ := hxy
  obtain ⟨tm', he', hinv⟩ := hx.exec op hok
  rw [he] at he'
  exact Option.some.inj he' ▸ hinv

/-! ## The invariant, as the scheduler's users rely on it -/

/-- The queues represent exactly the running tasks, and there is a current task. -/
structure QueuesExact (tm : TaskManager) : Prop where
  /-- A running task occurs exactly once in the run queues, in `running_[level_]`. -/
  once : ∀ t ∈ tm.tasks, t.running = true →
    (tm.running t.level).count t.ptr = 1 ∧ ∀ l, l ≠ t.level → t.ptr ∉ tm.running l
  asleep : ∀ t ∈ tm.tasks, t.running = false → ∀ l, t.ptr ∉ tm.running l
  erased : ∀ p, ¬ tm.Live p → ∀ l, p ∉ tm.running l
  current : tm.running tm.currentLevel ≠ []
  /-- `CurrentTask()` is a live running task. -/
  currentTask : ∃ t, tm.currentTask = some t.ptr ∧ tm.deref t.ptr = some t ∧ t.running = true

theorem Inv.queuesExact {tm : TaskManager} (h : tm.Inv) : tm.QueuesExact where
  once := by
    intro t ht hr
    refine ⟨List.count_eq_one_of_mem (h.rep.nodup _) ((h.rep.queued _ _).2 ⟨t, ht, rfl, hr, rfl⟩), ?_⟩
    intro l hl hm
    exact hl (h.rep.level_eq ht hm).2.symm
  asleep := by
    intro t ht hr l hm
    have := (h.rep.level_eq ht hm).1
    rw [hr] at this
    exact absurd this (by simp)
  erased := by
    intro p hp l hm
    obtain ⟨t, ht, hpt, -, -⟩ := (h.rep.queued l p).1 hm
    exact hp ⟨t, ht, hpt⟩
  current := h.current
  currentTask := by
    obtain ⟨t, rest, ht, -, hr, -, hc⟩ := h.currentTask_live
    exact ⟨t, hc, h.rep.deref_eq ht, hr⟩

/-- **Scheduler representation invariant.** In every reachable state the queues hold exactly the
running tasks, `CurrentTask()` is live, and no further operation meets an empty `front()`. -/
theorem queues_exact_of_reachable (tm : TaskManager) (h : tm.Reachable) :
    tm.QueuesExact ∧ ∀ op : Op, op.Ok tm → ∃ tm', op.exec tm = some tm' ∧ tm'.QueuesExact := by
  refine ⟨h.inv.queuesExact, fun op hok => ?_⟩
  obtain ⟨tm', he, hinv⟩ := h.inv.exec op hok
  exact ⟨tm', he, hinv.queuesExact⟩

/-- The state right after the first `NewTask`. -/
theorem queues_exact_newTask : boot.newTask.1.QueuesExact ∧
    ∀ op : Op, op.Ok boot.newTask.1 → ∃ tm', op.exec boot.newTask.1 = some tm' ∧ tm'.QueuesExact :=
  queues_exact_of_reachable boot.newTask.1 (.single ⟨.newTask, trivial, rfl⟩)

end KinOS.TaskManager
