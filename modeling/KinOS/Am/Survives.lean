import KinOS.Am.Tables
import KinOS.Am.ReadCall

/-!
# Which messages the application manager survives

`Safe` says which messages of which tasks a state can take. The clients are looked up without a test in `ReadState`,
`WriteState`, `AllocateFDState` and `WaitingKeyState` (`servers/am/serverstate.cpp:377-480`), `InitState::ReceiveMessage`
(`serverstate.cpp:15-58`) has no `return` for a type it does not know, and the places 0 and 1 of a new table
(`serverstate.cpp:183-202`) are taken for granted.
-/

namespace KinOS.Am

open EStateM TransitionSystem

namespace Server

variable {s : Server} {env : Env} {m : Message} {w : Wait} {st : State}

/-! ## Programs without a null pointer -/

theorem send_total {id : UInt64} : Total (send m id) := Total.modify

theorem sendSm_total {id : UInt64} : Total (sendSm id) := Total.modify

theorem setSm_total {ty : MsgType} {arg : Arg} : Total (setSm ty arg) := Total.modify

theorem sendMessage_total : Total (sendMessage st) := by
  cases st with
  | err | read | write | pipe | allocateFD => exact Total.pure
  | init | execFile | createTask | redirect | «open» =>
    exact Total.get.bind fun _ => sendSm_total.bind fun _ => Total.pure
  | startTask =>
    refine sendSm_total.bind fun _ => Total.get.bind fun s => Total.ite ?_ Total.pure
    exact Total.modify.bind fun _ => sendSm_total.bind fun _ => Total.pure
  | exit =>
    exact Total.get.bind fun _ => sendSm_total.bind fun _ => Total.modify.bind fun _ => sendSm_total.bind fun _ =>
      Total.pure
  | waitingKey =>
    refine Total.get.bind fun s => Total.ite ?_ ?_
    · exact sendSm_total.bind fun _ => Total.pure
    · exact sendSm_total.bind fun _ => Total.pure

theorem finish_total : ∀ r : Wait ⊕ State, Total (finish r)
  | .inl _ => Total.pure
  | .inr _ => sendMessage_total.bind fun _ => Total.pure

theorem requestFile_total : Total requestFile := Total.get.bind fun _ => setSm_total.bind fun _ => Total.pure

/-- After `HandleMessage` nothing can go wrong. -/
theorem turn_runs : Runs (turn env st) s ↔ Runs (handleMessage env st) s := by
  unfold turn
  rw [runs_bind]
  constructor
  · rintro ⟨r, s₁, h, -⟩
    exact ⟨r, s₁, h⟩
  · rintro ⟨r, s₁, h⟩
    exact ⟨r, s₁, h, finish_total r s₁⟩

/-- `HandleMessage` of the states that look up no application. -/
theorem turn_total (h : st = .err ∨ st = .init ∨ st = .execFile ∨ st = .createTask ∨ st = .redirect ∨ st = .open) :
    Runs (turn env st) s := by
  refine turn_runs.mpr ?_
  rcases h with rfl | rfl | rfl | rfl | rfl | rfl
  · exact runs_pure
  · exact runs_pure
  · refine Total.bind Total.get (fun s => Total.bind Total.modify fun _ => ?_) s
    exact Total.ite Total.pure requestFile_total
  · refine Total.bind Total.get (fun s => ?_) s
    split
    · exact Total.bind setSm_total fun _ => sendSm_total.bind fun _ => sendSm_total.bind fun _ => Total.pure
    · exact Total.bind setSm_total fun _ => Total.modify.bind fun _ => Total.pure
  · exact Total.bind Total.get (fun s => setSm_total.bind fun _ => Total.pure) s
  · refine Total.bind Total.get (fun s => Total.modify.bind fun _ => ?_) s
    split
    · exact setSm_total.bind fun _ => Total.pure
    · exact Total.ite (setSm_total.bind fun _ => Total.pure) (setSm_total.bind fun _ => Total.pure)

theorem deliver_runs : Runs (deliver env w m) s ↔
    ((∀ t, s.source w = some t → m.srcTask = t) → Runs (resume env w m) s) := by
  simp only [Runs, deliver_eq]
  cases hs : s.source w with
  | none => simp
  | some t =>
    by_cases ht : m.srcTask = t
    · simp [ht]
    · simp [ht]

/-! ## `ExitState` -/

theorem closeAll_runs : ∀ {ps : List (Option Ref)} {s : Server}, (∀ q ∈ ps, ∃ r, q = some r ∧ r < s.objects.length) →
    ∃ s', closeAll ps s = .ok () s' ∧ s'.objects.length = s.objects.length
  | [], s, _ => ⟨s, rfl, rfl⟩
  | q :: ps, s, h => by
    obtain ⟨⟨r, rfl, hlt⟩, hps⟩ := List.forall_mem_cons.mp h
    have hclose : ∃ s₁, close r s = .ok () s₁ ∧ s₁.objects.length = s.objects.length := by
      have hd : deref r s = .ok s.objects[r] s := deref_ok.mpr ⟨List.getElem?_eq_getElem hlt, rfl⟩
      unfold close
      simp only [run_bind_of_ok hd]
      cases s.objects[r] with
      | terminal _ _ | fat _ _ => exact ⟨s, rfl, rfl⟩
      | pipe p => exact ⟨_, rfl, List.length_set⟩
    obtain ⟨s₁, h1, hlen⟩ := hclose
    have hps₁ : ∀ q ∈ ps, ∃ r, q = some r ∧ r < s₁.objects.length := by rwa [hlen]
    obtain ⟨s₂, h2, hlen2⟩ := closeAll_runs hps₁
    refine ⟨s₂, ?_, hlen2.trans hlen⟩
    rw [closeAll, run_bind_of_ok h1, h2]

theorem exitApps_runs {id : UInt64} : ∀ {as : List AppInfo} {s : Server},
    (∀ a ∈ as, ∀ q ∈ a.files, ∃ r, q = some r ∧ r < s.objects.length) → Runs (exitApps id as) s
  | [], s, _ => runs_pure
  | a :: as, s, h => by
    obtain ⟨ha, has⟩ := List.forall_mem_cons.mp h
    unfold exitApps
    by_cases hc : a.taskId = id ∧ a.state = .run
    · obtain ⟨s₁, h1, hlen⟩ := closeAll_runs ha
      simp only [if_pos hc, runs_bind, run_bind_ok, h1]
      refine ⟨_, s₁, ⟨(), s₁, rfl, rfl⟩, ?_⟩
      have has₁ : ∀ a ∈ as, ∀ q ∈ a.files, ∃ r, q = some r ∧ r < s₁.objects.length := by rwa [hlen]
      obtain ⟨as', s₂, h2⟩ := exitApps_runs has₁
      exact ⟨as', s₂, h2, runs_pure⟩
    · simp only [if_neg hc, runs_bind]
      obtain ⟨as', s₂, h2⟩ := exitApps_runs has
      exact ⟨a, s, rfl, as', s₂, h2, runs_pure⟩

theorem turn_exit_runs (h : ∀ a ∈ s.apps, ∀ q ∈ a.files, ∃ r, q = some r ∧ r < s.objects.length) :
    Runs (turn env .exit) s := by
  rw [turn_runs]
  change Runs (if getPID s.apps (exitappId s.rm) ≠ 0 then _ else _) { s with targetId := _ }
  split
  · obtain ⟨as', s₁, h1⟩ := exitApps_runs
      (s := { s with targetId := getPID s.apps (exitappId s.rm) }) h
    rw [runs_bind]
    refine ⟨(), { s₁ with apps := as' }, ?_, ?_⟩
    · unfold exitApp
      simp only [run_bind_ok, run_get_ok, run_modify_ok]
      exact ⟨_, _, ⟨rfl, rfl⟩, as', s₁, h1, rfl⟩
    · exact setSm_total.bind (fun _ => Total.pure) _
  · exact runs_pure

/-! ## `StartTaskState` -/

/-- How long the table of a new application is. -/
def tableLength (s : Server) : Nat := ((getAppInfo s.apps s.targetId).map (·.files.length)).getD 3

/-- The places that `StartTaskState` writes to are there. -/
def LongEnough (s : Server) : Prop :=
  (s.redirect = true ∨ s.pipe = true → 1 < s.tableLength) ∧ (s.piped = true → 0 < s.tableLength)

instance (s : Server) : Decidable s.LongEnough := inferInstanceAs (Decidable (_ ∧ _))

theorem initializeFileDescriptor_total {terminal id : UInt64} : Total (initializeFileDescriptor terminal id) := by
  have halloc : ∀ d, Total (alloc d) := fun d s => ⟨_, _, rfl⟩
  refine Total.bind ?_ fun _ => Total.bind ?_ fun _ => Total.bind ?_ fun _ => Total.pure
  all_goals exact (halloc _).bind fun _ => Total.modify

theorem newApp_runs (hf : ∀ a ∈ s.apps, a.taskId ≠ s.newId) : Runs (newApp env.terminal s.newId s.targetId) s := by
  unfold newApp
  cases hp : getAppInfo s.apps s.targetId with
  | none =>
    change Runs (if (getAppInfo s.apps s.targetId).isNone then _ else _ : ServerM Unit) { s with apps := _ }
    rw [hp]
    exact initializeFileDescriptor_total _
  | some p =>
    change Runs (if (getAppInfo s.apps s.targetId).isNone then _ else _ : ServerM Unit) { s with apps := _ }
    rw [hp]
    have hne : s.newId ≠ s.targetId := fun h => hf p (getAppInfo_mem hp).1 ((getAppInfo_mem hp).2.trans h.symm)
    change Runs (copyFileDescriptor s.newId s.targetId) _
    unfold copyFileDescriptor
    rw [runs_get_bind]
    split
    · rw [if_neg (fun h => hne h.1)]
      exact Total.modify _
    · exact runs_pure

theorem startTask_runs (hf : ∀ a ∈ s.apps, a.taskId ≠ s.newId) : Runs (startTaskHandle env) s ↔ s.LongEnough := by
  obtain ⟨_, s₁, h1⟩ := newApp_runs hf
  obtain ⟨base, extra, hin, rfl⟩ := newApp_spec hf h1
  have hlen : base.length = s.tableLength := by
    unfold tableLength
    cases hin with
    | parent h => simp [h]
    | terminal h => simp [h]
  unfold startTaskHandle LongEnough
  rw [← hlen, runs_bind_of_ok (rfl : (get : ServerM Server) s = Result.ok s s), runs_bind_of_ok h1]
  cases hr : s.redirect <;> cases hp : s.piped <;> cases hq : s.pipe <;>
    simp [-bind_pure_comp, runs_bind, getAppInfo_fresh hf, modifyApp_fresh hf]
  all_goals omega

/-! ## The states that look up an application -/

theorem turn_allocateFD_runs (hm : s.rm.type = .kOpen ∨ s.rm.type = .kOpenDir) :
    Runs (turn env .allocateFD) s ↔ (getAppInfo s.apps s.targetId).isSome := by
  rw [turn_runs]
  change Runs (do let fd ← allocateFD s.targetId; _) s ↔ _
  rw [runs_bind]
  constructor
  · rintro ⟨fd, s₁, h, -⟩
    obtain ⟨a, ha, -⟩ := allocateFD_place h
    rw [ha]
    rfl
  · intro h
    obtain ⟨a, ha⟩ := Option.isSome_iff_exists.mp h
    have hfd : Runs (allocateFD s.targetId) s := by
      unfold allocateFD
      rw [runs_bind_of_ok (appInfo_ok.mpr ⟨ha, rfl⟩)]
      split
      · exact runs_pure
      · exact Total.modify.bind (fun _ => Total.pure) s
    obtain ⟨fd, s₁, h1⟩ := hfd
    refine ⟨fd, s₁, h1, ?_⟩
    obtain ⟨a', ha', -, hle, rfl⟩ := allocateFD_place h1
    have hget : getAppInfo (modifyApp s.targetId _ s.apps) s.targetId = _ := getAppInfo_modifyApp
      (f := fun a => { a with files := if fd < a.files.length then a.files else a.files ++ [none] }) (fun _ => rfl)
    rw [ha', Option.map_some] at hget
    have hlt : fd < (if fd < a'.files.length then a'.files else a'.files ++ [none]).length := by
      split
      · assumption
      · simp
        omega
    rcases hm with hm | hm
    · simp only [hm, runs_bind, alloc_ok, setFile_ok]
      exact ⟨_, _, ⟨rfl, rfl⟩, (), _, ⟨_, hget, hlt, rfl⟩, runs_bind.mp (setSm_total.bind (fun _ => Total.pure) _)⟩
    · simp only [hm, runs_bind, alloc_ok, setFile_ok]
      exact ⟨_, _, ⟨rfl, rfl⟩, (), _, ⟨_, hget, hlt, rfl⟩, runs_bind.mp (setSm_total.bind (fun _ => Total.pure) _)⟩

theorem turn_waitingKey_runs :
    Runs (turn env .waitingKey) s ↔ (s.waiting = true ∨ (getAppInfo s.apps s.rm.srcTask).isSome) := by
  rw [turn_runs]
  change Runs (if s.waiting = true then _ else _) s ↔ _
  by_cases hw : s.waiting = true
  · simp only [hw, if_true, true_or, iff_true]
    exact Total.modify.bind (fun _ => Total.pure) s
  · rw [if_neg hw, runs_bind_of_ok (a := ⟨⟩) (run_modify_ok.mpr rfl), runs_bind_of_ok (a := ()) (sendSm_ok.mpr rfl),
      runs_bind]
    simp only [hw, Bool.false_eq_true, false_or, appInfo_ok]
    constructor
    · rintro ⟨a, _, ⟨ha, -⟩, -⟩
      exact Option.isSome_iff_exists.mpr ⟨a, ha⟩
    · intro h
      obtain ⟨a, ha⟩ := Option.isSome_iff_exists.mp h
      exact ⟨a, _, ⟨ha, rfl⟩, Total.modify.bind (fun _ => Total.pure) _⟩

theorem readFd_runs {r : Ref} (h : r < s.objects.length) : Runs (readFd env r m) s := by
  have hd : deref r s = .ok s.objects[r] s := deref_ok.mpr ⟨List.getElem?_eq_getElem h, rfl⟩
  unfold readFd
  rw [runs_bind_of_ok hd]
  cases s.objects[r] with
  | terminal _ _ => exact send_total.bind (fun _ => Total.pure) s
  | fat _ _ =>
    cases hf : env.fs with
    | none => exact send_total.bind (fun _ => Total.pure) s
    | some f => exact send_total.bind (fun _ => Total.pure) s
  | pipe p =>
    obtain ⟨s', h1, -⟩ := pipeRead_sent s r p m
    exact (runs_bind_of_ok h1).mpr runs_pure

/-- The chunk fits, or it is not put into the pipe. -/
def Accepts (s : Server) (r : Ref) (m : Message) : Prop :=
  ∀ p, s.objects[r]? = some (.pipe p) → p.closed = false → p.len = 0 → (writeArg m).len.toNat ≤ 16

theorem writeFd_runs {r : Ref} (h : r < s.objects.length) : Runs (writeFd env r m) s ↔ s.Accepts r m := by
  have ho : s.objects[r]? = some s.objects[r] := List.getElem?_eq_getElem h
  have hd : deref r s = .ok s.objects[r] s := deref_ok.mpr ⟨ho, rfl⟩
  unfold writeFd Accepts
  rw [runs_bind_of_ok hd, ho]
  cases s.objects[r] with
  | terminal _ _ =>
    exact iff_of_true (send_total.bind (fun _ => send_total.bind fun _ => Total.pure) s) (by simp)
  | fat id file =>
    refine iff_of_true ?_ (by simp)
    cases hf : env.fs with
    | none => exact send_total.bind (fun _ => Total.pure) s
    | some f =>
      refine Total.bind ?_ (fun _ => Total.pure) s
      exact send_total.bind fun _ => Total.bind Total.modify fun _ => send_total
  | pipe p =>
    simp only [Option.some.injEq, FileDescriptor.pipe.injEq, forall_eq']
    rw [runs_bind]
    unfold pipeWrite
    by_cases hc : p.closed = true
    · simp [hc]
    by_cases h0 : p.len = 0
    · by_cases hz : (writeArg m).len.toNat = 0
      · simp [hc, h0, hz]
      · by_cases hl : 16 < (writeArg m).len.toNat
        · simp [hc, h0, hz, hl]
        · simp [hc, h0, hz, hl, Nat.le_of_not_lt hl]
    · simp [hc, h0]

/-- `ReadState` and `WriteState`. -/
theorem turn_fd_runs {fd : Message → Int} {act : Ref → Message → ServerM (Option Wait)} {this : State}
    (hthis : this = .read ∨ this = .write) : Runs (do finish (← fdHandle fd act this) : ServerM Wait) s ↔
      ∃ a, getAppInfo s.apps s.rm.srcTask = some a ∧
        ∀ r, fileAt a (fd s.rm) = some r → Runs (act r s.rm) { s with targetId := s.rm.srcTask } := by
  unfold Runs
  simp only [turn_fd_eq hthis]
  cases getAppInfo s.apps s.rm.srcTask with
  | none => simp
  | some a =>
    simp only [Option.some.injEq, exists_eq_left']
    cases fileAt a (fd s.rm) with
    | none => simp
    | some r =>
      simp only [Option.some.injEq, forall_eq']
      cases act r s.rm { s with targetId := s.rm.srcTask } with
      | error e s' => simp
      | ok o s' => cases o <;> simp

end Server

namespace Session

open Server

variable {x x' b : Session} {e : Event}

/-! ## The receives of a file -/

/-- A receive of `FatFileDescriptor` belongs to such a descriptor. -/
def FiledAt (objects : List FileDescriptor) (w : Wait) : Prop :=
  ∀ r f, w = .fatRead r f ∨ w = .fatWrite r f → ∃ id file, objects[r]? = some (.fat id file)

def Filed (x : Session) : Prop := FiledAt x.server.objects x.wait

theorem filedAt_of_ne {objects : List FileDescriptor} {w : Wait} (h1 : ∀ r f, w ≠ .fatRead r f)
    (h2 : ∀ r f, w ≠ .fatWrite r f) : FiledAt objects w := by
  rintro r f (h | h)
  · exact absurd h (h1 r f)
  · exact absurd h (h2 r f)

theorem readFd_filed {env : Env} {r : Ref} {m : Message} {s s' : Server} {w : Wait}
    (h : readFd env r m s = .ok (some w) s') : FiledAt s.objects w := by
  simp only [readFd, run_bind_ok, deref_ok] at h
  obtain ⟨d, _, ⟨hd, rfl⟩, h⟩ := h
  cases d with
  | terminal id t =>
    cases h
    exact filedAt_of_ne (by simp) (by simp)
  | fat id file =>
    cases hf : env.fs with
    | none =>
      simp only [hf] at h
      cases h
    | some fsId =>
      simp only [hf] at h
      cases h
      rintro _ _ (⟨⟨⟩⟩ | ⟨⟨⟩⟩)
      exact ⟨id, file, hd⟩
  | pipe p =>
    simp only [run_bind_ok, run_pure_ok] at h
    obtain ⟨_, _, -, h, -⟩ := h
    cases h

theorem writeFd_filed {env : Env} {r : Ref} {m : Message} {s s' : Server} {w : Wait}
    (h : writeFd env r m s = .ok (some w) s') : FiledAt s.objects w := by
  simp only [writeFd, run_bind_ok, deref_ok] at h
  obtain ⟨d, _, ⟨hd, rfl⟩, h⟩ := h
  cases d with
  | terminal id t => cases h
  | fat id file =>
    cases hf : env.fs with
    | none =>
      simp only [hf] at h
      cases h
    | some fsId =>
      simp only [hf] at h
      cases h
      rintro _ _ (⟨⟨⟩⟩ | ⟨⟨⟩⟩)
      exact ⟨id, file, hd⟩
  | pipe p =>
    simp only [run_bind_ok, run_pure_ok] at h
    obtain ⟨_, _, -, h, -⟩ := h
    cases h

theorem turn_fd_filed {fd : Message → Int} {act : Ref → Message → ServerM (Option Wait)} {this : State} {s s' : Server}
    {w : Wait} (hthis : this = .read ∨ this = .write)
    (hact : ∀ r x t w t', act r x t = .ok (some w) t' → FiledAt t.objects w)
    (h : (do finish (← fdHandle fd act this) : ServerM Wait) s = .ok w s') : FiledAt s.objects w := by
  rw [turn_fd_eq hthis] at h
  cases ha : getAppInfo s.apps s.rm.srcTask with
  | none => simp [ha] at h
  | some a =>
    cases hr : fileAt a (fd s.rm) with
    | none =>
      simp only [ha, hr, Result.ok.injEq] at h
      exact filedAt_of_ne (by simp [← h.1]) (by simp [← h.1])
    | some r =>
      simp only [ha, hr] at h
      cases hx : act r s.rm { s with targetId := s.rm.srcTask } with
      | error e s₁ => simp [hx] at h
      | ok o s₁ =>
        cases o with
        | none =>
          simp only [hx, Result.ok.injEq] at h
          exact filedAt_of_ne (by simp [← h.1]) (by simp [← h.1])
        | some w' =>
          simp only [hx, Result.ok.injEq] at h
          have hf := hact _ _ _ _ _ hx
          exact h.1 ▸ hf

theorem resume_init_filed {env : Env} {m : Message} {s s' : Server} {w : Wait}
    (h : resume env (.receive .init) m s = .ok w s') : FiledAt s.objects w := by
  simp only [resume_receive, receiveMessage_init] at h
  cases hf : env.fs with
  | none =>
    simp only [hf] at h
    cases h
    exact filedAt_of_ne (by simp) (by simp)
  | some f =>
    simp only [hf] at h
    by_cases h1 : m.type = .kExecuteFile
    · simp only [h1, if_true] at h
      rcases turn_execFile h with ⟨rfl, -⟩ | ⟨rfl, -⟩
      · exact filedAt_of_ne (by simp) (by simp)
      · exact filedAt_of_ne (by simp) (by simp)
    by_cases h2 : m.type = .kWrite
    · simp only [h2, if_true] at h
      change turn env .write { s with rm := m, fsId := f } = _ at h
      have hw := @turn_fd_filed (fun m => (writeArg m).fd) (writeFd env) .write _ _ _ (.inr rfl)
        (fun _ _ _ _ _ => writeFd_filed) h
      exact hw
    by_cases h3 : m.type = .kOpen ∨ m.type = .kOpenDir
    · simp only [h1, h2, h3, if_true, if_false] at h
      rcases turn_open (s := { s with rm := m, fsId := f }) h3 h with ⟨rfl, -⟩ | ⟨rfl, -⟩
      · exact filedAt_of_ne (by simp) (by simp)
      · exact filedAt_of_ne (by simp) (by simp)
    by_cases h4 : m.type = .kRead
    · simp only [h4, if_true] at h
      change turn env .read { s with rm := m, fsId := f } = _ at h
      have hr := @turn_fd_filed (fun m => (readArg m).fd) (readFd env) .read _ _ _ (.inl rfl)
        (fun _ _ _ _ _ => readFd_filed) h
      exact hr
    by_cases h5 : m.type = .kWaitingKey
    · simp only [h5, if_true] at h
      change turn env .waitingKey { s with rm := m, fsId := f } = _ at h
      rcases (turn_waitingKey h).2 with rfl | rfl
      · exact filedAt_of_ne (by simp) (by simp)
      · exact filedAt_of_ne (by simp) (by simp)
    by_cases h6 : m.type = .kExitApp
    · simp only [h6, if_true] at h
      change turn env .exit { s with rm := m, fsId := f } = _ at h
      obtain ⟨rfl, -⟩ := turn_exit h
      exact filedAt_of_ne (by simp) (by simp)
    · simp only [h1, h2, h3, h4, h5, h6, if_false] at h
      cases h

theorem resume_fat_filed {env : Env} {m : Message} {s s' : Server} {w w' : Wait} {r : Ref} {f : UInt64}
    (hw : w = .fatRead r f ∨ w = .fatWrite r f) (h : resume env w m s = .ok w' s') (hd : FiledAt s.objects w) :
    FiledAt s.objects w' := by
  obtain ⟨id, file, hd'⟩ := hd r f hw
  rcases hw with rfl | rfl
  · rw [resume_fatRead hd'] at h
    split at h
    · cases h
      exact hd
    · cases h
      exact filedAt_of_ne (by simp) (by simp)
  · simp only [resume, run_bind_ok, deref_ok] at h
    obtain ⟨d, _, ⟨hd'', rfl⟩, h⟩ := h
    rw [hd'] at hd''
    cases hd''
    by_cases hm : m.type = .kWrite
    · simp only [hm, if_true, run_bind_ok] at h
      obtain ⟨_, s₁, -, h2⟩ := h
      split at h2
      · cases h2
        exact filedAt_of_ne (by simp) (by simp)
      · cases h2
        exact hd
    · simp only [hm, if_false] at h
      cases h
      exact hd

theorem next_filed (hi : x.Inv) (hx : x.Filed) (h : x.next e = some x') : x'.Filed := by
  obtain ⟨-, hd, -, -⟩ := next_some h
  have hg := Server.frame_grows.deliver _ _ _ _ hd
  -- a descriptor stays what it is
  have hkeep : FiledAt x.server.objects x'.wait → x'.Filed := by
    intro hf r f hw
    obtain ⟨id, file, hr⟩ := hf r f hw
    obtain ⟨d, hd', he⟩ := hg.kept r _ hr
    cases he with
    | fat _ => exact ⟨_, _, hd'⟩
  refine hkeep ?_
  cases next_moves hi h with
  | aside hw hw' _ =>
    rcases deliver_cases hd with ⟨-, hd⟩ | ⟨t, -, -, hc, -⟩
    · cases hxw : x.wait with
      | receive st =>
        rw [hxw] at hd hw
        cases st with
        | init => exact resume_init_filed hd
        | waitingKey =>
          refine filedAt_of_ne ?_ ?_
          all_goals
            intro r f hc
            have hd' := hd
            simp only [resume_receive, receiveMessage_waitingKey] at hd'
            by_cases hk : e.msg.type = .kKeyPush ∨ e.msg.type = .kQuit
            · simp only [hk, if_true] at hd'
              rcases (turn_waitingKey hd').2 with hw | hw
              all_goals
                rw [hc] at hw
                cases hw
            · simp only [hk, if_false] at hd'
              rw [hc] at hd'
              cases hd'
        | _ => cases hw
      | redirectName =>
        rw [hxw] at hw
        cases hw
      | terminalRead id t =>
        rw [hxw] at hd
        simp only [resume, run_bind_ok] at hd
        obtain ⟨_, s₁, -, h2⟩ := hd
        have hw : x'.wait = .receive .init := by
          simp only [finish_ok] at h2
          obtain ⟨st, h3, h4⟩ := h2
          cases h3
          exact h4
        exact filedAt_of_ne (by simp [hw]) (by simp [hw])
      | fatRead r f =>
        rw [hxw] at hd
        exact resume_fat_filed (.inl rfl) hd (hxw ▸ hx)
      | fatWrite r f =>
        rw [hxw] at hd
        exact resume_fat_filed (.inr rfl) hd (hxw ▸ hx)
    · rw [hc]
      exact hx
  | goes hw _ _ _ =>
    rcases hw with hw | ⟨-, hw⟩ | ⟨-, hw⟩
    · rw [hw]
      exact hx
    · exact filedAt_of_ne (by simp [hw]) (by simp [hw])
    · exact filedAt_of_ne (by simp [hw]) (by simp [hw])
  | accepts _ _ hw _ _ =>
    rcases hw with hw | hw
    · exact filedAt_of_ne (by simp [hw]) (by simp [hw])
    · exact filedAt_of_ne (by simp [hw]) (by simp [hw])
  | starts _ hw _ _ _ =>
    rcases hw with hw | hw
    · exact filedAt_of_ne (by simp [hw]) (by simp [hw])
    · exact filedAt_of_ne (by simp [hw]) (by simp [hw])
  | makes _ hw _ _ _ => exact filedAt_of_ne (by simp [hw]) (by simp [hw])
  | fails _ hw _ _ _ => exact filedAt_of_ne (by simp [hw]) (by simp [hw])
  | asks _ hw _ _ => exact filedAt_of_ne (by simp [hw]) (by simp [hw])
  | opens _ hw _ _ => exact filedAt_of_ne (by simp [hw]) (by simp [hw])
  | exits _ hw _ _ _ _ _ => exact filedAt_of_ne (by simp [hw]) (by simp [hw])

theorem Boot.exec_filed {es : List Event} (hb : b.Boot) (h : exec next b es = some x) : x.Filed := by
  have hstep : ∀ x e x', Inv x ∧ Filed x → x.next e = some x' → Inv x' ∧ Filed x' :=
    fun _ _ _ hx h => ⟨next_inv hx.1 h, next_filed hx.1 hx.2 h⟩
  have h0 : b.Filed := filedAt_of_ne (by simp [hb.wait]) (by simp [hb.wait])
  exact (exec_invariant next hstep es ⟨hb.inv, h0⟩ h).2

/-! ## The messages that are safe -/

/-- What the open receive can take: a type that `InitState` knows, from an application where one is looked up; a chunk
for a pipe fits its buffer. -/
def Welcome (s : Server) (m : Message) : Prop :=
  match m.type with
  | .kExecuteFile | .kOpen | .kOpenDir | .kExitApp => True
  | .kRead => (getAppInfo s.apps m.srcTask).isSome
  | .kWrite => ∃ a, getAppInfo s.apps m.srcTask = some a ∧ ∀ r, fileAt a (writeArg m).fd = some r → s.Accepts r m
  | .kWaitingKey => s.waiting = true ∨ (getAppInfo s.apps m.srcTask).isSome
  | _ => False

/-- What the receive can take. A closed receive bounces the others' messages. -/
def Safe (x : Session) (e : Event) : Prop :=
  (∀ t, x.server.source x.wait = some t → e.msg.srcTask = t) →
    match x.wait with
    | .receive .init => e.env.fs.isSome → Welcome x.server e.msg
    | .receive .createTask => e.msg.type = .kReady → x.server.redirect = false → x.server.LongEnough
    | .receive .redirect => e.msg.type = .kOpen → x.server.LongEnough
    | .receive .open => e.msg.type = .kOpen ∨ e.msg.type = .kOpenDir →
        (getAppInfo x.server.apps x.server.targetId).isSome
    | .receive .waitingKey => e.msg.type = .kKeyPush ∨ e.msg.type = .kQuit →
        x.server.waiting = true ∨ (getAppInfo x.server.apps e.msg.srcTask).isSome
    | _ => True

theorem fileAt_mem {a : AppInfo} {fd : Int} {r : Ref} (h : fileAt a fd = some r) : some r ∈ a.files := by
  unfold fileAt at h
  split at h
  · exact List.mem_of_getElem? (Option.join_eq_some_iff.mp h)
  · cases h

theorem runs_receive {env : Env} {m : Message} {s : Server} {st : State} :
    Runs (resume env (.receive st) m) s ↔
      match receiveMessage env st { s with rm := m } with
      | .ok none _ => True
      | .ok (some st') s' => Runs (turn env st') s'
      | .error _ _ => False := by
  unfold Runs
  simp only [resume_receive]
  cases receiveMessage env st { s with rm := m } with
  | ok o s' => cases o <;> simp
  | error e s' => simp

/-- The file server's error, in the states that wait for it. -/
theorem errorFromFs_runs {env : Env} {s : Server} {err : Option Int} :
    match errorFromFs err s with
    | .ok none _ => True
    | .ok (some st') s' => Runs (turn env st') s'
    | .error _ _ => False := by
  rw [errorFromFs_eq]
  by_cases hr : s.rm.errorRetry = true
  · rw [if_pos hr]
    trivial
  · rw [if_neg hr]
    exact turn_total (by simp)

theorem init_runs (hx : x.Wired) : Runs (resume e.env (.receive .init) e.msg) x.server ↔
    (e.env.fs.isSome → Welcome x.server e.msg) := by
  rw [runs_receive, receiveMessage_init]
  cases hf : e.env.fs with
  | none =>
    simp only [Option.isSome_none, Bool.false_eq_true, false_imp_iff, iff_true]
    exact turn_total (.inl rfl)
  | some f =>
    have hlt : ∀ a r fd, getAppInfo x.server.apps e.msg.srcTask = some a → fileAt a fd = some r →
        r < x.server.objects.length := by
      intro a r fd ha hr
      obtain ⟨r', hr', hlt⟩ := hx.files a (getAppInfo_mem ha).1 _ (fileAt_mem hr)
      cases hr'
      exact hlt
    simp only [Option.isSome_some, true_imp_iff, Welcome]
    cases hm : e.msg.type with
    | kExecuteFile => exact iff_of_true (turn_total (by simp)) trivial
    | kOpen | kOpenDir => exact iff_of_true (turn_total (by simp)) trivial
    | kExitApp => exact iff_of_true (turn_exit_runs hx.files) trivial
    | kRead =>
      refine (@turn_fd_runs { x.server with rm := e.msg, fsId := f } (fun m => (readArg m).fd) (readFd e.env) .read
        (.inl rfl)).trans ?_
      constructor
      · rintro ⟨a, ha, -⟩
        exact Option.isSome_iff_exists.mpr ⟨a, ha⟩
      · intro h
        obtain ⟨a, ha⟩ := Option.isSome_iff_exists.mp h
        exact ⟨a, ha, fun r hr => readFd_runs (hlt a r _ ha hr)⟩
    | kWrite =>
      refine (@turn_fd_runs { x.server with rm := e.msg, fsId := f } (fun m => (writeArg m).fd) (writeFd e.env) .write
        (.inr rfl)).trans ?_
      refine exists_congr fun a => and_congr_right fun ha => forall_congr' fun r => imp_congr_right fun hr => ?_
      exact writeFd_runs (hlt a r _ ha hr)
    | kWaitingKey => exact turn_waitingKey_runs
    | _ => simp

/-- **Which messages the server survives**, in any state it can reach. -/
theorem survives_iff {es : List Event} (hb : b.Boot) (h : exec next b es = some x) (e : Event) :
    (∃ w s', Server.deliver e.env x.wait e.msg x.server = .ok w s') ↔ x.Safe e := by
  have hx := hb.exec_wired h
  have hi := hb.exec_inv h
  change Runs (Server.deliver e.env x.wait e.msg) x.server ↔ _
  rw [deliver_runs]
  unfold Safe
  refine imp_congr_right fun _ => ?_
  have hfiled := hb.exec_filed h
  unfold Filed at hfiled
  have hfresh := hi.known_newId
  have hphase := hi.phase
  unfold Phase at hphase
  generalize x.wait = w at hfiled hfresh hphase
  cases w with
  | receive st =>
    cases st with
    | init => exact init_runs hx
    | createTask =>
      rw [runs_receive, receiveMessage_createTask]
      by_cases hm : e.msg.type = .kReady
      · simp only [hm, true_imp_iff]
        change Runs (turn e.env (if x.server.redirect = true then .redirect else .startTask)) _ ↔ _
        by_cases hr : x.server.redirect = true
        · rw [if_pos hr]
          exact iff_of_true (turn_total (by simp)) (by simp [hr])
        · rw [if_neg hr, turn_runs]
          have hs : Runs (startTaskHandle e.env) { x.server with rm := e.msg } ↔ _ := startTask_runs (hfresh (.inl rfl)).2
          exact hs.trans (imp_iff_right (by simpa using hr)).symm
      · rw [iff_true_right (fun h => absurd h hm)]
        by_cases he : e.msg.type = .kError
        · simp only [he, if_true]
          exact errorFromFs_runs
        · simp only [he, hm, if_false]
          exact turn_total (by simp)
    | redirect =>
      rw [runs_receive, receiveMessage_redirect]
      by_cases hm : e.msg.type = .kOpen
      · simp only [hm, true_imp_iff]
        have hs : Runs (startTaskHandle e.env) { x.server with rm := e.msg } ↔ _ := startTask_runs (hfresh (.inr rfl)).2
        exact turn_runs.trans hs
      · rw [iff_true_right (fun h => absurd h hm)]
        by_cases he : e.msg.type = .kError
        · simp only [he, if_true]
          exact errorFromFs_runs
        · simp only [he, hm, if_false]
          exact turn_total (by simp)
    | «open» =>
      rw [runs_receive, receiveMessage_open]
      by_cases hm : e.msg.type = .kOpen ∨ e.msg.type = .kOpenDir
      · have he : e.msg.type ≠ .kError := by
          intro he
          rw [he] at hm
          simp at hm
        simp only [if_neg he, if_pos hm, imp_iff_right hm]
        exact turn_allocateFD_runs (s := { x.server with rm := e.msg }) hm
      · rw [iff_true_right (fun h => absurd h hm)]
        by_cases he : e.msg.type = .kError
        · simp only [he, if_true]
          exact errorFromFs_runs
        · simp only [he, hm, if_false]
          exact turn_total (by simp)
    | waitingKey =>
      rw [runs_receive, receiveMessage_waitingKey]
      by_cases hm : e.msg.type = .kKeyPush ∨ e.msg.type = .kQuit
      · simp only [if_pos hm, imp_iff_right hm]
        exact turn_waitingKey_runs
      · simp only [if_neg hm]
        exact iff_of_true (turn_total (by simp)) (fun h => absurd h hm)
    | execFile =>
      refine iff_of_true ?_ trivial
      rw [runs_receive, receiveMessage_execFile]
      by_cases he : e.msg.type = .kError
      · simp only [he, if_true]
        exact errorFromFs_runs
      by_cases hm : e.msg.type = .kExecuteFile
      · simp only [hm, if_true]
        exact turn_total (by simp)
      · simp only [he, hm, if_false]
    | pipe =>
      refine iff_of_true ?_ trivial
      rw [runs_receive, receiveMessage_pipe]
      by_cases hm : e.msg.type = .kExecuteFile
      · simp only [hm, if_true]
        exact turn_total (by simp)
      · simp only [hm, if_false]
    | _ => exact absurd hphase (by simp [Aside])
  | redirectName => exact iff_of_true (Total.modify.bind (fun _ => requestFile_total.bind finish_total) _) trivial
  | terminalRead id t =>
    refine iff_of_true ?_ trivial
    refine Total.bind ?_ (fun _ => finish_total _) x.server
    split
    · exact send_total.bind fun _ => send_total
    · exact send_total
  | fatRead r f =>
    obtain ⟨id, file, hd⟩ := hfiled r f (.inl rfl)
    refine iff_of_true ?_ trivial
    unfold Runs
    rw [resume_fatRead hd]
    split
    · exact ⟨_, _, rfl⟩
    · exact ⟨_, _, rfl⟩
  | fatWrite r f =>
    obtain ⟨id, file, hd⟩ := hfiled r f (.inr rfl)
    refine iff_of_true ?_ trivial
    unfold resume
    rw [runs_bind_of_ok (deref_ok.mpr ⟨hd, rfl⟩)]
    refine Total.ite ?_ Total.pure x.server
    refine Total.bind ?_ fun _ => Total.ite (finish_total _) Total.pure
    exact send_total.bind fun _ => Total.bind Total.modify fun _ => send_total

/-- Application 10 is running, and reads. -/
theorem survives_read : ∃ x, exec next cold (launch false 10) = some x ∧
    ∃ w s', Server.deliver ⟨some 3, 4, none⟩ x.wait ⟨.kRead, 10, .unset⟩ x.server = .ok w s' := by
  have hrun : (exec next cold (launch false 10)).any (fun x =>
      decide (x.wait = .receive .init ∧ (getAppInfo x.server.apps 10).isSome)) = true := by decide +kernel
  obtain ⟨x, hx, hp⟩ := (Option.any_eq_true _ _).mp hrun
  rw [decide_eq_true_eq] at hp
  refine ⟨x, hx, (survives_iff cold_boot hx ⟨⟨some 3, 4, none⟩, ⟨.kRead, 10, .unset⟩⟩).mpr fun _ => ?_⟩
  rw [hp.1]
  exact fun _ => hp.2

/-- A task that is no application reads, and `GetAppInfo` has nothing for it. -/
theorem survives_nobody : ¬ ∀ (b x : Session) (es : List Event) (e : Event), b.Boot → exec next b es = some x →
    ∃ w s', Server.deliver e.env x.wait e.msg x.server = .ok w s' := by
  intro h
  obtain ⟨w, s', h⟩ := h cold cold [] ⟨⟨some 3, 4, none⟩, ⟨.kRead, 5, .unset⟩⟩ cold_boot rfl
  cases h

end Session

end KinOS.Am
