import KinOS.Am.Objects
import KinOS.Am.Requests

/-!
# The descriptor tables

| here | there |
| --- | --- |
| `Starting`, `StartTaskState` | `StartTaskState::HandleMessage` (`servers/am/serverstate.cpp:183-212`) |
| `Opening`, `GivesSlot`       | `AllocateFDState::HandleMessage` (`serverstate.cpp:377-415`), `AllocateFD` (`appmanager.cpp:48-58`) |
| `Tabled`                     | `AppInfo::files_` (`appmanager.hpp:16-27`) |

`Wired` is what keeps the pointers of the tables good in every reachable state. `Tables` says how long the tables are:
`NewApp` copies the parent's whatever the state of the parent, so it needs that no ended application asks for anything.
-/

namespace KinOS.Am

open TransitionSystem

theorem modifyApp_modifyApp {id : UInt64} {f g : AppInfo → AppInfo} (hg : ∀ a, (g a).taskId = a.taskId) :
    ∀ {as : List AppInfo}, modifyApp id f (modifyApp id g as) = modifyApp id (fun a => f (g a)) as
  | [] => rfl
  | b :: as => by
    by_cases hb : b.taskId = id
    · simp only [modifyApp, if_pos hb, hg]
    · simp only [modifyApp, if_neg hb, modifyApp_modifyApp hg]

theorem getAppInfo_modifyApp {id : UInt64} {f : AppInfo → AppInfo} (hf : ∀ a, (f a).taskId = a.taskId) :
    ∀ {as : List AppInfo}, getAppInfo (modifyApp id f as) id = (getAppInfo as id).map f
  | [] => rfl
  | b :: as => by
    by_cases hb : b.taskId = id
    · simp [modifyApp, getAppInfo_cons, hb, hf]
    · simp [modifyApp, getAppInfo_cons, hb, getAppInfo_modifyApp hf]

theorem mem_modifyApp {id : UInt64} {f : AppInfo → AppInfo} : ∀ {as : List AppInfo} {b : AppInfo},
    b ∈ modifyApp id f as → b ∈ as ∨ ∃ a, getAppInfo as id = some a ∧ b = f a
  | [], b, h => by simp [modifyApp] at h
  | a :: as, b, h => by
    by_cases ha : a.taskId = id
    · simp only [modifyApp, if_pos ha, List.mem_cons] at h
      rcases h with rfl | h
      · exact .inr ⟨a, by simp [getAppInfo_cons, ha], rfl⟩
      · exact .inl (List.mem_cons_of_mem _ h)
    · simp only [modifyApp, if_neg ha, List.mem_cons] at h
      rcases h with rfl | h
      · exact .inl (List.mem_cons_self ..)
      · rcases mem_modifyApp h with h | ⟨c, hc, rfl⟩
        · exact .inl (List.mem_cons_of_mem _ h)
        · exact .inr ⟨c, by simp [getAppInfo_cons, ha, hc], rfl⟩

theorem modifyApp_mem {id : UInt64} {f : AppInfo → AppInfo} {as : List AppInfo} {a : AppInfo}
    (h : getAppInfo as id = some a) : f a ∈ modifyApp id f as := by
  induction as with
  | nil => cases h
  | cons b as ih =>
    rw [getAppInfo_cons] at h
    by_cases hb : b.taskId = id
    · rw [if_pos hb, Option.some.injEq] at h
      subst h
      simp [modifyApp, hb]
    · rw [if_neg hb] at h
      simp [modifyApp, hb, ih h]

/-- Only what the change does to the entry it finds matters. -/
theorem modifyApp_congr {t : UInt64} {f g : AppInfo → AppInfo} {as : List AppInfo} {a : AppInfo}
    (h : getAppInfo as t = some a) (hfg : f a = g a) : modifyApp t f as = modifyApp t g as := by
  induction as with
  | nil => rfl
  | cons b as ih =>
    rw [getAppInfo_cons] at h
    by_cases hb : b.taskId = t
    · rw [if_pos hb, Option.some.injEq] at h
      subst h
      simp [modifyApp, hb, hfg]
    · rw [if_neg hb] at h
      simp [modifyApp, hb, ih h]

theorem modifyApp_self {t : UInt64} : ∀ {as : List AppInfo}, modifyApp t (fun a => a) as = as
  | [] => rfl
  | b :: as => by
    by_cases hb : b.taskId = t
    · simp [modifyApp, hb]
    · simp [modifyApp, hb, modifyApp_self]

namespace Server

/-! ## A descriptor for an application -/

/-- The table with the place `fd`, which may be the next one, taken by `r`. -/
def place (files : List (Option Ref)) (fd : Nat) (r : Ref) : List (Option Ref) :=
  if fd < files.length then files.set fd (some r) else files ++ [some r]

theorem place_getElem? {files : List (Option Ref)} {fd : Nat} {r : Ref} (hle : fd ≤ files.length) (j : Nat) :
    (place files fd r)[j]? = if j = fd then some (some r) else files[j]? := by
  unfold place
  by_cases hlt : fd < files.length
  · rw [if_pos hlt, List.getElem?_set]
    by_cases hj : fd = j
    · simp [hj, hj ▸ hlt]
    · simp [hj, Ne.symm hj]
  · have hfd : fd = files.length := by omega
    rw [if_neg hlt, hfd]
    by_cases hj : j < files.length
    · rw [List.getElem?_append_left hj, if_neg (by omega)]
    · rw [List.getElem?_append_right (by omega)]
      by_cases hj' : j = files.length
      · simp [hj']
      · rw [if_neg hj', List.getElem?_eq_none (by simp; omega), List.getElem?_eq_none (by omega)]

theorem mem_place {files : List (Option Ref)} {fd : Nat} {r : Ref} {q : Option Ref} (h : q ∈ place files fd r) :
    q ∈ files ∨ q = some r := by
  unfold place at h
  split at h
  · exact List.mem_or_eq_of_mem_set h
  · simpa using h

theorem length_place (files : List (Option Ref)) (fd : Nat) (r : Ref) :
    files.length ≤ (place files fd r).length ∧ place files fd r ≠ [] := by
  unfold place
  split
  · next h =>
    refine ⟨by simp, fun h0 => ?_⟩
    rw [List.set_eq_nil_iff] at h0
    simp [h0] at h
  · simp

/-- The application `t` got the place `fd` of its table, which was free, for a new descriptor; nothing else changed in
the tables, and `t` was told. -/
structure GivesSlot (t : UInt64) (s s' : Server) (fd : Nat) : Prop where
  free : ∃ a, getAppInfo s.apps t = some a ∧ a.files[fd]?.join = none ∧ fd ≤ a.files.length ∧
    getAppInfo s'.apps t = some { a with files := place a.files fd s.objects.length }
  others : ∀ (i : Nat) (a : AppInfo), s.apps[i]? = some a → ∃ a', s'.apps[i]? = some a' ∧ a'.taskId = a.taskId ∧
    a'.state = a.state ∧ ∀ j, a.taskId ≠ t ∨ j ≠ fd → a'.files[j]? = a.files[j]?
  object : ∃ name, s'.objects = s.objects ++ [.newFat t name]
  told : ∃ m, s'.sent = s.sent ++ [(t, m)] ∧
    ((m.type = .kOpen ∧ (openArg m).fd = fd) ∨ (m.type = .kOpenDir ∧ (opendirArg m).fd = fd))

theorem allocateFD_place {t : UInt64} {s s' : Server} {fd : Nat} (h : allocateFD t s = .ok fd s') :
    ∃ a, getAppInfo s.apps t = some a ∧ a.files[fd]?.join = none ∧ fd ≤ a.files.length ∧
      s' = { s with apps := modifyApp t (fun a => { a with files := if fd < a.files.length then a.files
        else a.files ++ [none] }) s.apps } := by
  simp only [allocateFD, EStateM.run_bind_ok, appInfo_ok] at h
  obtain ⟨a, _, ⟨ha, rfl⟩, h⟩ := h
  refine ⟨a, ha, ?_⟩
  cases hi : a.files.findIdx? (·.isNone) with
  | some i =>
    simp only [hi, EStateM.run_pure_ok] at h
    obtain ⟨rfl, rfl⟩ := h
    obtain ⟨hlt, hnone, -⟩ := List.findIdx?_eq_some_iff_getElem.mp hi
    refine ⟨?_, Nat.le_of_lt hlt, ?_⟩
    · rw [List.getElem?_eq_getElem hlt, Option.join_some]
      simpa using hnone
    · rw [modifyApp_congr (g := fun a => a) ha (by simp [hlt]), modifyApp_self]
  | none =>
    simp only [hi, EStateM.run_bind_ok, updateApp_ok, EStateM.run_pure_ok] at h
    obtain ⟨_, _, rfl, rfl, rfl⟩ := h
    refine ⟨by simp, Nat.le_refl _, ?_⟩
    refine congrArg (fun as => { s with apps := as }) (modifyApp_congr ha ?_)
    simp

/-- `AllocateFD` and the assignment after it. -/
theorem place_eq {files : List (Option Ref)} {fd : Nat} {r : Ref} (hle : fd ≤ files.length) :
    (if fd < files.length then files else files ++ [none]).set fd (some r) = place files fd r := by
  unfold place
  split
  · rfl
  · have hfd : fd = files.length := by omega
    rw [hfd]
    simp

/-- The rest of `AllocateFDState` on the place it was given. -/
theorem newFile_place {t : UInt64} {s s₁ s' : Server} {fd : Nat} {name : List UInt8} {ty : MsgType} {arg : Arg}
    {u : Unit} (h1 : allocateFD t s = .ok fd s₁)
    (h2 : (do let r ← alloc (.newFat t name); setFile t fd (some r); setSm ty arg : ServerM Unit) s₁ = .ok u s')
    (hid : s.targetId = t) (harg : (ty = .kOpen ∧ (openArg ⟨ty, s.id, arg⟩).fd = fd) ∨
      (ty = .kOpenDir ∧ (opendirArg ⟨ty, s.id, arg⟩).fd = fd)) :
    GivesSlot t s (s'.post s'.sm s'.targetId) fd ∧ s'.pipeFd = s.pipeFd ∧ s'.piped = s.piped ∧
      s'.apps = modifyApp t (fun a => { a with files := place a.files fd s.objects.length }) s.apps := by
  obtain ⟨a, ha, hfree, hle, rfl⟩ := allocateFD_place h1
  simp only [EStateM.run_bind_ok, alloc_ok, setFile_ok, setSm_ok] at h2
  obtain ⟨_, _, ⟨rfl, rfl⟩, _, _, ⟨a', ha', hi, rfl⟩, rfl⟩ := h2
  refine ⟨⟨⟨a, ha, hfree, hle, ?_⟩, ?_, ⟨name, rfl⟩, ?_⟩, rfl, rfl, ?_⟩
  · simp only [post_apps]
    rw [getAppInfo_modifyApp (by exact fun _ => rfl), getAppInfo_modifyApp (by exact fun _ => rfl), ha]
    simp only [Option.map_some, place_eq hle]
  · intro i b hb
    simp only [post_apps]
    rw [modifyApp_modifyApp (by exact fun _ => rfl)]
    obtain ⟨b', hb', rfl | ⟨hg, rfl⟩⟩ := modifyApp_getElem? hb
    · exact ⟨b', hb', rfl, rfl, fun _ _ => rfl⟩
    · rw [ha, Option.some.injEq] at hg
      subst hg
      refine ⟨_, hb', rfl, rfl, fun j hj => ?_⟩
      have hne : j ≠ fd := hj.resolve_left (not_not.mpr (getAppInfo_mem ha).2)
      simp only [place_eq hle, place_getElem? hle, if_neg hne]
  · exact ⟨_, by rw [← hid]; rfl, harg⟩
  · exact (modifyApp_modifyApp (by exact fun _ => rfl)).trans (modifyApp_congr ha (by simp only [place_eq hle]))

/-- `AllocateFDState`. -/
theorem turn_allocateFD {s s' : Server} {env : Env} {w : Wait} (hm : s.rm.type = .kOpen ∨ s.rm.type = .kOpenDir)
    (h : turn env .allocateFD s = .ok w s') :
    w = .receive .init ∧ s'.pipeFd = s.pipeFd ∧ s'.piped = s.piped ∧ ∃ fd, GivesSlot s.targetId s s' fd ∧
      s'.apps = modifyApp s.targetId (fun a => { a with files := place a.files fd s.objects.length }) s.apps := by
  obtain ⟨r, s₁, h1, h2⟩ := turn_ok.mp h
  change allocateFDHandle s = _ at h1
  simp only [allocateFDHandle, EStateM.run_bind_ok, EStateM.run_get_ok] at h1
  obtain ⟨_, _, ⟨rfl, rfl⟩, fd, s2, h3, h4⟩ := h1
  rcases hm with hm | hm
  · simp only [hm, EStateM.run_bind_ok, EStateM.run_pure_ok] at h4
    obtain ⟨q, s3, ha, _, s4, hs, _, s5, hsm, rfl, rfl⟩ := h4
    obtain ⟨hg, hp, hpi, happs⟩ := newFile_place h3 (EStateM.run_bind_ok.mpr ⟨q, s3, ha, EStateM.run_bind_ok.mpr
      ⟨_, s4, hs, hsm⟩⟩) rfl (.inl ⟨rfl, rfl⟩)
    cases h2
    exact ⟨rfl, hp, hpi, fd, hg, happs⟩
  · simp only [hm, EStateM.run_bind_ok, EStateM.run_pure_ok] at h4
    obtain ⟨q, s3, ha, _, s4, hs, _, s5, hsm, rfl, rfl⟩ := h4
    obtain ⟨hg, hp, hpi, happs⟩ := newFile_place h3 (EStateM.run_bind_ok.mpr ⟨q, s3, ha, EStateM.run_bind_ok.mpr
      ⟨_, s4, hs, hsm⟩⟩) rfl (.inr ⟨rfl, rfl⟩)
    cases h2
    exact ⟨rfl, hp, hpi, fd, hg, happs⟩

/-! ## `StartTaskState` and `ExitState` -/

/-- `StartTaskState`, from `HandleMessage` to the next receive: the table and the pipe. -/
theorem turn_startTask_filled {s s' : Server} {env : Env} {w : Wait} (hf : ∀ a ∈ s.apps, a.taskId ≠ s.newId)
    (h : turn env .startTask s = .ok w s') :
    ∃ base first files, Inherits env.terminal s base first ∧
      s'.apps = s.apps ++ [⟨s.newId, s.targetId, .run, files⟩] ∧ Filled s base files s' ∧
      (∃ more, s'.objects = s.objects ++ (first ++ more)) ∧ s'.piped = false ∧
      ((w = .receive .init ∧ s'.pipeFd = s.pipeFd) ∨ ∃ r, s'.pipeFd = some r ∧ r < s'.objects.length) := by
  obtain ⟨r, s₁, h1, h2⟩ := turn_ok.mp h
  obtain ⟨rfl, -, hp, base, first, files, hin, hb, hl, -, hq⟩ := startTask_walk hf h1
  obtain ⟨st, h3, rfl⟩ := finish_ok.mp h2
  obtain ⟨more, hmore, -⟩ := hb.objects
  change (if s₁.pipe = true then _ else _ : ServerM State) (s₁.post s₁.sm 1) = _ at h3
  by_cases hpipe : s₁.pipe = true
  · rw [if_pos hpipe] at h3
    cases h3
    refine ⟨base, first, files, hin, hb.apps, ⟨hl.length, hl.places⟩, ⟨more, hmore⟩, hp, ?_⟩
    refine .inr (hq.resolve_left fun h => ?_)
    rw [hb.vars.2.2.2, h.1] at hpipe
    cases hpipe
  · rw [if_neg hpipe] at h3
    cases h3
    exact ⟨base, first, files, hin, hb.apps, ⟨hl.length, hl.places⟩, ⟨more, hmore⟩, hp,
      hq.imp_left fun h => ⟨rfl, h.2⟩⟩

theorem turn_redirect {s s' : Server} {env : Env} {w : Wait} (h : turn env .redirect s = .ok w s') :
    w = .receive .redirect := by
  cases h
  rfl

/-- The pipe that waits for a reader is not changed. -/
abbrev KeepsPipe {α : Type} (x : ServerM α) : Prop := EStateM.Keeps (fun s s' : Server => s'.pipeFd = s.pipeFd) x

namespace KeepsPipe

variable {α β : Type}

theorem bind {x : ServerM α} {f : α → ServerM β} (hx : KeepsPipe x) (hf : ∀ a, KeepsPipe (f a)) :
    KeepsPipe (x >>= f) :=
  EStateM.Keeps.bind (fun h h' => h'.trans h) hx hf

theorem pure {a : α} : KeepsPipe (pure a : ServerM α) := EStateM.Keeps.pure (by exact fun _ => rfl)

theorem get : KeepsPipe (get : ServerM Server) := EStateM.Keeps.get (by exact fun _ => rfl)

theorem modify {g : Server → Server} (h : ∀ s, (g s).pipeFd = s.pipeFd) : KeepsPipe (modify g : ServerM Unit) :=
  EStateM.Keeps.modify h

theorem deref {r : Ref} : KeepsPipe (deref r) := by
  refine get.bind fun s => ?_
  split
  · exact pure
  · exact EStateM.Keeps.throw

theorem closeAll : ∀ ps : List (Option Ref), KeepsPipe (closeAll ps)
  | [] => pure
  | none :: _ => EStateM.Keeps.throw
  | some r :: ps => by
    refine bind (deref.bind fun d => ?_) fun _ => closeAll ps
    split
    · exact bind (modify fun _ => rfl) fun _ => modify fun _ => rfl
    · exact pure

theorem exitApps {id : UInt64} : ∀ as : List AppInfo, KeepsPipe (exitApps id as)
  | [] => pure
  | a :: as => by
    refine bind (EStateM.Keeps.ite ?_ pure) fun _ => (exitApps as).bind fun _ => pure
    exact (closeAll a.files).bind fun _ => pure

theorem turn_exit {env : Env} : KeepsPipe (turn env .exit) := by
  refine bind (x := exitHandle) ?_ fun r => ?_
  · refine get.bind fun s => bind (modify fun _ => rfl) fun _ => EStateM.Keeps.ite ?_ pure
    refine bind (bind get fun s => (exitApps s.apps).bind fun _ => modify fun _ => rfl) fun _ => ?_
    exact bind (modify fun _ => rfl) fun _ => pure
  · cases r with
    | inl w => exact pure
    | inr st =>
      refine bind ?_ fun _ => pure
      cases st with
      | err | read | write | pipe | allocateFD => exact pure
      | init | execFile | createTask | redirect | «open» =>
        exact get.bind fun _ => bind (modify fun _ => rfl) fun _ => pure
      | startTask =>
        refine bind (modify fun _ => rfl) fun _ => get.bind fun s => EStateM.Keeps.ite ?_ pure
        exact bind (modify fun _ => rfl) fun _ => bind (modify fun _ => rfl) fun _ => pure
      | exit =>
        exact get.bind fun _ => bind (modify fun _ => rfl) fun _ => bind (modify fun _ => rfl) fun _ =>
          bind (modify fun _ => rfl) fun _ => pure
      | waitingKey =>
        refine get.bind fun s => EStateM.Keeps.ite ?_ ?_
        · exact bind (modify fun _ => rfl) fun _ => pure
        · exact bind (modify fun _ => rfl) fun _ => pure

end KeepsPipe

end Server

namespace Session

open Server

variable {x x' b : Session} {e : Event}

/-- The message makes the server run `StartTaskState`. -/
def Starting (x : Session) (e : Event) : Prop :=
  e.msg.srcTask = x.server.fsId ∧
    ((x.wait = .receive .createTask ∧ e.msg.type = .kReady ∧ x.server.redirect = false) ∨
      (x.wait = .receive .redirect ∧ e.msg.type = .kOpen))

/-- The message makes the server run `AllocateFDState`. -/
def Opening (x : Session) (e : Event) : Prop :=
  e.msg.srcTask = x.server.fsId ∧ x.wait = .receive .open ∧ (e.msg.type = .kOpen ∨ e.msg.type = .kOpenDir)

instance (x : Session) (e : Event) : Decidable (x.Starting e) := inferInstanceAs (Decidable (_ ∧ _))

instance (x : Session) (e : Event) : Decidable (x.Opening e) := inferInstanceAs (Decidable (_ ∧ _))

theorem Starting.deliver (h : x.Starting e) :
    Server.deliver e.env x.wait e.msg x.server = turn e.env .startTask { x.server with rm := e.msg } := by
  obtain ⟨hsrc, ⟨hw, hm, hr⟩ | ⟨hw, hm⟩⟩ := h
  · rw [hw, deliver_eq]
    change (if e.msg.srcTask = x.server.fsId then _ else _) = _
    rw [if_pos hsrc]
    simp only [resume_receive, receiveMessage_createTask, hm]
    change turn e.env (if x.server.redirect = true then .redirect else .startTask) _ = _
    rw [hr]
    rfl
  · rw [hw, deliver_eq]
    change (if e.msg.srcTask = x.server.fsId then _ else _) = _
    rw [if_pos hsrc]
    simp only [resume_receive, receiveMessage_redirect, hm]
    rfl

theorem Opening.deliver (h : x.Opening e) :
    Server.deliver e.env x.wait e.msg x.server = turn e.env .allocateFD { x.server with rm := e.msg } := by
  obtain ⟨hsrc, hw, hm⟩ := h
  rw [hw, deliver_eq]
  change (if e.msg.srcTask = x.server.fsId then _ else _) = _
  rw [if_pos hsrc]
  rcases hm with hm | hm
  · simp only [resume_receive, receiveMessage_open, hm]
    rfl
  · simp only [resume_receive, receiveMessage_open, hm]
    rfl

/-- A step that tells the kernel to start a task is one of `StartTaskState`. -/
theorem starting_of_told (hi : x.Inv) (hw : x.wait = .receive .createTask ∨ x.wait = .receive .redirect)
    (hw' : x'.wait = .receive .init ∨ x'.wait = .receive .pipe) (ht : Told x.server x'.server)
    (h : x.next e = some x') : x.Starting e := by
  obtain ⟨-, hfresh⟩ := hi.known_newId hw
  obtain ⟨-, hd, -, -⟩ := next_some h
  rcases deliver_cases hd with ⟨hsrc, hd⟩ | ⟨t, -, -, -, hs⟩
  · rcases hw with hw | hw
    · rw [hw] at hd hsrc
      refine ⟨hsrc _ rfl, .inl ⟨hw, ?_⟩⟩
      rcases resume_createTask hfresh hd with ⟨-, -, hc, -⟩ | ⟨-, -, -, hs⟩ | ⟨-, hc, -⟩ | ⟨hm, -⟩ | ⟨-, -, -, hs⟩
      · rw [hc] at hw'
        simp at hw'
      · exact absurd ht (not_told (l := [_]) (by rw [hs]; rfl) (by simp))
      · rw [hc] at hw'
        simp at hw'
      · refine ⟨hm, ?_⟩
        by_contra hr
        rw [Bool.not_eq_false] at hr
        simp only [resume_receive, receiveMessage_createTask, hm] at hd
        change turn e.env (if x.server.redirect = true then .redirect else .startTask) _ = _ at hd
        rw [hr] at hd
        rw [turn_redirect hd] at hw'
        simp at hw'
      · exact absurd ht (not_told (l := []) (by rw [hs]; simp) (by simp))
    · rw [hw] at hd hsrc
      refine ⟨hsrc _ rfl, .inr ⟨hw, ?_⟩⟩
      rcases resume_redirect hfresh hd with ⟨-, -, hc, -⟩ | ⟨-, -, -, hs⟩ | ⟨hm, -⟩ | ⟨-, -, -, hs⟩
      · rw [hc] at hw'
        simp at hw'
      · exact absurd ht (not_told (l := [_]) (by rw [hs]; rfl) (by simp))
      · exact hm
      · exact absurd ht (not_told (l := []) (by rw [hs]; simp) (by simp))
  · exact absurd ht (not_told (l := [_]) (by rw [hs]; rfl) (by simp))

/-- What the other messages do to the tables: nothing, or an application ends. -/
structure Others (x x' : Session) : Prop where
  apps : x'.server.apps = x.server.apps ∨ ∃ id, x'.server.apps = x.server.apps.map (exited id)
  pipeFd : x'.server.pipeFd = x.server.pipeFd
  piped : x'.server.piped = true ∨ x'.wait = .receive .pipe → x.server.piped = true ∨ x.wait = .receive .pipe

theorem Others.of_quiet (hq : Quiet x.server x'.server) (hw : x'.wait = .receive .pipe → x.wait = .receive .pipe) :
    Others x x' :=
  ⟨.inl hq.apps, hq.pipeFd, fun h => (hq.piped ▸ h).imp_right hw⟩

theorem next_others (hi : x.Inv) (hs : ¬ x.Starting e) (ho : ¬ x.Opening e) (h : x.next e = some x') :
    Others x x' := by
  cases next_moves hi h with
  | aside _ hw' hq =>
    refine .of_quiet hq fun hw => ?_
    rw [hw] at hw'
    cases hw'
  | goes hw hq _ _ =>
    refine .of_quiet hq fun hp => ?_
    rcases hw with hw | ⟨-, hw⟩ | ⟨-, hw⟩
    · exact hw ▸ hp
    · rw [hw] at hp
      cases hp
    · rw [hw] at hp
      cases hp
  | accepts _ _ hw' hr g =>
    obtain ⟨g1, -, -, g4, g5, -⟩ := g
    refine ⟨.inl g1, g4, ?_⟩
    rw [g5, hr.2.2]
    rcases hw' with hw' | hw'
    · simp [hw', or_comm]
    · simp [hw', or_comm]
  | makes _ hw' _ _ g =>
    obtain ⟨g1, -, -, g4, g5, -⟩ := g
    refine ⟨.inl g1, g4, ?_⟩
    rw [g5, hw']
    simp only [Wait.receive.injEq, reduceCtorEq, or_false]
    exact fun h => .inl h
  | fails _ hw' _ hq _ =>
    refine .of_quiet hq fun hp => ?_
    rw [hw'] at hp
    cases hp
  | starts hw hw' _ _ ht => exact absurd (starting_of_told hi hw hw' ht h) hs
  | asks _ hw' hq _ =>
    refine .of_quiet hq fun hp => ?_
    rw [hw'] at hp
    cases hp
  | opens hw hw' _ _ =>
    obtain ⟨-, hd, -, -⟩ := next_some h
    have hpipe : x'.wait = .receive .pipe → x.wait = .receive .pipe := by
      intro hp
      rw [hw'] at hp
      cases hp
    rcases deliver_cases hd with ⟨hsrc, hd⟩ | ⟨t, -, -, -, hs⟩
    · rw [hw] at hd hsrc
      rcases resume_open hd with ⟨-, -, hc, -⟩ | ⟨-, -, -, hs⟩ | ⟨hm, -⟩ | ⟨-, -, -, -, hs⟩
      · rw [hc] at hw'
        cases hw'
      · refine .of_quiet ?_ hpipe
        rw [hs]
        exact ⟨rfl, rfl, rfl, rfl, rfl, fun _ => rfl⟩
      · exact absurd ⟨hsrc _ rfl, hw, hm⟩ ho
      · refine .of_quiet ?_ hpipe
        rw [hs]
        exact ⟨rfl, rfl, rfl, rfl, rfl, fun _ => rfl⟩
    · refine .of_quiet ?_ hpipe
      rw [hs]
      exact ⟨rfl, rfl, rfl, rfl, rfl, fun _ => rfl⟩
  | exits hw hw' _ hf hm hp hx =>
    refine ⟨.inr ⟨_, hx.apps⟩, ?_, ?_⟩
    · obtain ⟨-, hd, -, -⟩ := next_some h
      obtain ⟨f, hf⟩ := Option.isSome_iff_exists.mp hf
      rw [hw] at hd
      change resume e.env (.receive .init) e.msg x.server = _ at hd
      simp only [resume_receive, receiveMessage_init, hf, hm, if_true] at hd
      change turn e.env .exit { x.server with rm := e.msg, fsId := f } = _ at hd
      have hkeep := KeepsPipe.turn_exit _ _ _ hd
      exact hkeep
    · rw [hx.piped, hw']
      simp only [Wait.receive.injEq, reduceCtorEq, or_false]
      exact fun h => .inl h

/-! ## Good pointers -/

/-- Every place of a table points to an object, and so does the pipe that waits for a reader. -/
structure Wired (x : Session) : Prop where
  files : ∀ a ∈ x.server.apps, ∀ q ∈ a.files, ∃ r, q = some r ∧ r < x.server.objects.length
  pipeFd : ∀ r ∈ x.server.pipeFd, r < x.server.objects.length
  piped : x.server.piped = true ∨ x.wait = .receive .pipe → x.server.pipeFd.isSome

theorem next_objects (h : x.next e = some x') : x.server.objects.length ≤ x'.server.objects.length := by
  obtain ⟨-, hd, -, -⟩ := next_some h
  have hg := Server.frame_grows.deliver _ _ _ _ hd
  by_contra hlt
  rw [Nat.not_le] at hlt
  obtain ⟨d, hd', -⟩ := hg.kept x'.server.objects.length _ (List.getElem?_eq_getElem hlt)
  rw [List.getElem?_eq_none (Nat.le_refl _)] at hd'
  cases hd'

theorem Boot.wired (h : b.Boot) : b.Wired := by
  refine ⟨?_, ?_, ?_⟩
  · simp [h.apps]
  · simp [h.pipeFd]
  · simp [h.piped, h.wait]

theorem Wired.of_others (hx : x.Wired) (hlen : x.server.objects.length ≤ x'.server.objects.length)
    (ho : Others x x') : x'.Wired := by
  refine ⟨?_, ?_, ?_⟩
  · intro a ha q hq
    have hold : ∃ a ∈ x.server.apps, q ∈ a.files := by
      rcases ho.apps with happs | ⟨id, happs⟩
      · exact ⟨a, happs ▸ ha, hq⟩
      · rw [happs] at ha
        obtain ⟨c, hc, rfl⟩ := List.mem_map.mp ha
        unfold exited at hq
        split at hq
        · cases hq
        · exact ⟨c, hc, hq⟩
    obtain ⟨c, hc, hq⟩ := hold
    obtain ⟨r, hr, hlt⟩ := hx.files c hc q hq
    exact ⟨r, hr, Nat.lt_of_lt_of_le hlt hlen⟩
  · rw [ho.pipeFd]
    exact fun r hr => Nat.lt_of_lt_of_le (hx.pipeFd r hr) hlen
  · rw [ho.pipeFd]
    exact fun h => hx.piped (ho.piped h)

theorem next_starting (hi : x.Inv) (hs : x.Starting e) (h : x.next e = some x') :
    ∃ base first files, Inherits e.env.terminal { x.server with rm := e.msg } base first ∧
      x'.server.apps = x.server.apps ++ [⟨x.server.newId, x.server.targetId, .run, files⟩] ∧
      Filled x.server base files x'.server ∧ (∃ more, x'.server.objects = x.server.objects ++ (first ++ more)) ∧
      x'.server.piped = false ∧ ((x'.wait = .receive .init ∧ x'.server.pipeFd = x.server.pipeFd) ∨
        ∃ r, x'.server.pipeFd = some r ∧ r < x'.server.objects.length) := by
  have hw : x.wait = .receive .createTask ∨ x.wait = .receive .redirect := hs.2.imp (·.1) (·.1)
  obtain ⟨-, hd, -, -⟩ := next_some h
  rw [hs.deliver] at hd
  obtain ⟨base, first, files, h1, h2, h3, h4, h5, h6⟩ :=
    turn_startTask_filled (s := { x.server with rm := e.msg }) (hi.known_newId hw).2 hd
  exact ⟨base, first, files, h1, h2, ⟨h3.length, h3.places⟩, h4, h5, h6⟩

theorem next_opening (ho : x.Opening e) (h : x.next e = some x') :
    x'.wait = .receive .init ∧ x'.server.pipeFd = x.server.pipeFd ∧ x'.server.piped = x.server.piped ∧
      ∃ fd, GivesSlot x.server.targetId x.server x'.server fd ∧ x'.server.apps = modifyApp x.server.targetId
        (fun a => { a with files := place a.files fd x.server.objects.length }) x.server.apps := by
  obtain ⟨-, hd, -, -⟩ := next_some h
  rw [ho.deliver] at hd
  obtain ⟨h1, h2, h3, fd, hg, h4⟩ := turn_allocateFD (s := { x.server with rm := e.msg }) ho.2.2 hd
  exact ⟨h1, h2, h3, fd, ⟨hg.free, hg.others, hg.object, hg.told⟩, h4⟩

theorem next_wired (hi : x.Inv) (hx : x.Wired) (h : x.next e = some x') : x'.Wired := by
  have hlen := next_objects h
  by_cases hs : x.Starting e
  · obtain ⟨base, first, files, hin, happs, hl, ⟨more, hmore⟩, hp, hq⟩ := next_starting hi hs h
    refine ⟨?_, ?_, ?_⟩
    · intro a ha q hqa
      rw [happs] at ha
      rcases List.mem_append.mp ha with ha | ha
      · obtain ⟨r, hr, hlt⟩ := hx.files a ha q hqa
        exact ⟨r, hr, Nat.lt_of_lt_of_le hlt hlen⟩
      obtain rfl := List.mem_singleton.mp ha
      rcases hl.places q hqa with hb | ⟨hpi, rfl⟩ | hnew
      · cases hin with
        | parent hp =>
          obtain ⟨r, hr, hlt⟩ := hx.files _ (getAppInfo_mem hp).1 q hb
          exact ⟨r, hr, Nat.lt_of_lt_of_le hlt hlen⟩
        | terminal _ =>
          have h3 : x.server.objects.length + 3 ≤ x'.server.objects.length := by
            rw [hmore]
            simp
          have hk : ∀ k < 3, x.server.objects.length + k < x'.server.objects.length := fun k hk => by omega
          simp only [List.mem_cons, List.not_mem_nil, or_false] at hb
          rcases hb with rfl | rfl | rfl
          · exact ⟨_, rfl, hk 0 (by decide)⟩
          · exact ⟨_, rfl, hk 1 (by decide)⟩
          · exact ⟨_, rfl, hk 2 (by decide)⟩
      · obtain ⟨r, hr⟩ := Option.isSome_iff_exists.mp (hx.piped (.inl hpi))
        exact ⟨r, hr, Nat.lt_of_lt_of_le (hx.pipeFd r hr) hlen⟩
      · exact hnew
    · intro r hr
      rcases hq with ⟨-, hq⟩ | ⟨r', hq, hlt⟩
      · rw [hq] at hr
        exact Nat.lt_of_lt_of_le (hx.pipeFd r hr) hlen
      · rw [hq] at hr
        cases hr
        exact hlt
    · rw [hp]
      rintro (h0 | hw')
      · cases h0
      · rcases hq with ⟨hw, -⟩ | ⟨r', hq, -⟩
        · rw [hw] at hw'
          cases hw'
        · rw [hq]
          rfl
  by_cases ho : x.Opening e
  · obtain ⟨hw', hq, hp, fd, hg, happs⟩ := next_opening ho h
    obtain ⟨name, hobj⟩ := hg.object
    refine ⟨?_, ?_, ?_⟩
    · intro a ha q hqa
      have hold : ∀ c ∈ x.server.apps, ∀ q ∈ c.files, ∃ r, q = some r ∧ r < x'.server.objects.length := by
        intro c hc q hq
        obtain ⟨r, hr, hlt⟩ := hx.files c hc q hq
        exact ⟨r, hr, Nat.lt_of_lt_of_le hlt hlen⟩
      rw [happs] at ha
      rcases mem_modifyApp ha with ha | ⟨c, hc, rfl⟩
      · exact hold a ha q hqa
      · rcases mem_place hqa with hqa | rfl
        · exact hold c (getAppInfo_mem hc).1 q hqa
        · exact ⟨_, rfl, by rw [hobj]; simp⟩
    · rw [hq]
      exact fun r hr => Nat.lt_of_lt_of_le (hx.pipeFd r hr) hlen
    · rw [hq, hp, hw']
      intro h
      exact hx.piped (h.imp_right fun h => by cases h)
  · exact hx.of_others hlen (next_others hi hs ho h)

theorem Boot.exec_wired {es : List Event} (hb : b.Boot) (h : exec next b es = some x) : x.Wired := by
  have hstep : ∀ x e x', Inv x ∧ Wired x → x.next e = some x' → Inv x' ∧ Wired x' :=
    fun _ _ _ hx h => ⟨next_inv hx.1 h, next_wired hx.1 hx.2 h⟩
  exact (exec_invariant next hstep es ⟨hb.inv, hb.wired⟩ h).2

/-! ## How long the tables are -/

/-- A running application has its three standard descriptors, and none of its places is empty; one that has ended has
no table. -/
def Tabled (a : AppInfo) : Prop :=
  match a.state with
  | .run => 3 ≤ a.files.length ∧ ∀ q ∈ a.files, q.isSome
  | .kill => a.files = []

structure Tables (x : Session) : Prop where
  distinct : (x.server.apps.map (·.taskId)).Nodup
  tabled : ∀ a ∈ x.server.apps, Tabled a

/-- A table is copied or extended for an application that has ended. -/
def ForEnded (x : Session) (e : Event) : Prop :=
  (x.Starting e ∨ x.Opening e) ∧ ∃ a ∈ getAppInfo x.server.apps x.server.targetId, a.state = .kill

instance (x : Session) (e : Event) : Decidable (x.ForEnded e) := inferInstanceAs (Decidable (_ ∧ _))

/-- `AllocateFDState` gives a place that was free and touches nothing else. -/
def AllocatesSlot (x : Session) (e : Event) : Prop :=
  x.Opening e → ∀ x', x.next e = some x' → ∃ fd, GivesSlot x.server.targetId x.server x'.server fd

theorem tabled_run {a : AppInfo} (hr : a.state = .run) : Tabled a ↔ 3 ≤ a.files.length ∧ ∀ q ∈ a.files, q.isSome := by
  simp only [Tabled, hr]

theorem tabled_kill {a : AppInfo} (hk : a.state = .kill) : Tabled a ↔ a.files = [] := by
  simp only [Tabled, hk]

theorem exited_tabled {id : UInt64} {a : AppInfo} (h : Tabled a) : Tabled (exited id a) := by
  unfold exited
  split
  · exact (tabled_kill rfl).mpr rfl
  · exact h

/-- A new application starts with the table of its parent, whose state `NewApp` does not look at. -/
theorem tables_starting (hi : x.Inv) (hx : x.Wired) (ht : x.Tables) (hs : x.Starting e) (h : x.next e = some x') :
    x'.Tables ↔ ¬ x.ForEnded e := by
  obtain ⟨base, first, files, hin, happs, hl, -, -, -⟩ := next_starting hi hs h
  have hold : ∀ c ∈ x.server.apps, c ∈ x'.server.apps := fun c hc => happs ▸ List.mem_append_left _ hc
  have hnew : (⟨x.server.newId, x.server.targetId, .run, files⟩ : AppInfo) ∈ x'.server.apps := by
    rw [happs]
    exact List.mem_append_right _ (List.mem_singleton_self _)
  constructor
  · -- the child of an ended application has no descriptor at all
    rintro hx' ⟨-, a, ha, hk⟩
    have h3 := ((tabled_run rfl).mp (hx'.tabled _ hnew)).1
    cases hin with
    | parent hp =>
      have hp : getAppInfo x.server.apps x.server.targetId = some _ := hp
      rw [Option.mem_def, hp, Option.some.injEq] at ha
      subst ha
      have h0 := (tabled_kill hk).mp (ht.tabled _ (getAppInfo_mem hp).1)
      have hlen := hl.length
      rw [h0] at hlen
      simp only at h3
      rw [hlen] at h3
      simp at h3
    | terminal hp =>
      have hp : getAppInfo x.server.apps x.server.targetId = none := hp
      rw [hp] at ha
      cases ha
  · intro hn
    have hbase : 3 ≤ base.length ∧ ∀ q ∈ base, q.isSome := by
      cases hin with
      | @parent a hp =>
        have hp : getAppInfo x.server.apps x.server.targetId = some a := hp
        refine (tabled_run ?_).mp (ht.tabled _ (getAppInfo_mem hp).1)
        cases hst : a.state with
        | run => rfl
        | kill => exact absurd ⟨.inl hs, a, hp, hst⟩ hn
      | terminal _ => simp
    refine ⟨(next_inv hi h).nodup, fun a ha => ?_⟩
    rw [happs] at ha
    rcases List.mem_append.mp ha with ha | ha
    · exact ht.tabled a ha
    · rw [List.mem_singleton.mp ha]
      refine (tabled_run rfl).mpr ⟨hbase.1.trans_eq hl.length.symm, fun q hq => ?_⟩
      rcases hl.places q hq with hq | ⟨hp, rfl⟩ | ⟨r, rfl, -⟩
      · exact hbase.2 q hq
      · exact hx.piped (.inl hp)
      · rfl

theorem tables_opening (hi : x.Inv) (ht : x.Tables) (ho : x.Opening e) (h : x.next e = some x') :
    x'.Tables ↔ ¬ x.ForEnded e := by
  obtain ⟨-, -, -, fd, hg, happs⟩ := next_opening ho h
  constructor
  · rintro hx' ⟨-, a, ha, hk⟩
    have hmem := happs ▸ modifyApp_mem (f := fun a => { a with files := place a.files fd x.server.objects.length }) ha
    have h0 := (tabled_kill (a := { a with files := place a.files fd x.server.objects.length }) hk).mp
      (hx'.tabled _ hmem)
    exact (length_place _ _ _).2 h0
  · intro hn
    refine ⟨(next_inv hi h).nodup, fun a ha => ?_⟩
    rw [happs] at ha
    rcases mem_modifyApp ha with ha | ⟨c, hc, rfl⟩
    · exact ht.tabled a ha
    · have hrun : c.state = .run := by
        cases hst : c.state with
        | run => rfl
        | kill => exact absurd ⟨.inr ho, c, hc, hst⟩ hn
      obtain ⟨h3, hsome⟩ := (tabled_run hrun).mp (ht.tabled _ (getAppInfo_mem hc).1)
      refine (tabled_run (a := { c with files := place c.files fd x.server.objects.length }) hrun).mpr
        ⟨Nat.le_trans h3 (length_place _ _ _).1, fun q hq => ?_⟩
      rcases mem_place hq with hq | rfl
      · exact hsome q hq
      · rfl

theorem next_tables_iff (hi : x.Inv) (hx : x.Wired) (ht : x.Tables) (h : x.next e = some x') :
    x'.Tables ↔ ¬ x.ForEnded e := by
  by_cases hs : x.Starting e
  · exact tables_starting hi hx ht hs h
  by_cases ho : x.Opening e
  · exact tables_opening hi ht ho h
  · refine iff_of_true ⟨(next_inv hi h).nodup, fun a ha => ?_⟩ fun hf => hf.1.elim hs ho
    rcases (next_others hi hs ho h).apps with happs | ⟨id, happs⟩
    · exact ht.tabled a (happs ▸ ha)
    · rw [happs] at ha
      obtain ⟨c, hc, rfl⟩ := List.mem_map.mp ha
      exact exited_tabled (ht.tabled c hc)

/-- **The descriptor tables over a run.** They are in order as long as nothing is started or opened for an application
that has ended, and not longer; every descriptor that is opened gets a place that was free. -/
theorem tables_along_iff (hb : b.Boot) (es : List Event) :
    (States next Tables b es ∧ Along next AllocatesSlot b es) ↔ Along next (fun x e => ¬ x.ForEnded e) b es := by
  have hI : ∀ x e x', Inv x ∧ Wired x → x.next e = some x' → Inv x' ∧ Wired x' :=
    fun _ _ _ hx h => ⟨next_inv hx.1 h, next_wired hx.1 hx.2 h⟩
  have h0 : b.Tables := ⟨hb.inv.nodup, by simp [hb.apps]⟩
  rw [along_iff_states hI (fun _ _ _ hx ht h => next_tables_iff hx.1 hx.2 ht h) es ⟨hb.inv, hb.wired⟩ h0]
  refine and_iff_left ?_
  have hslot : ∀ x e x', True → True → x.next e = some x' → True ∧ AllocatesSlot x e := by
    refine fun x e x' _ _ _ => ⟨trivial, fun ho x'' h => ?_⟩
    obtain ⟨-, -, -, fd, hg, -⟩ := next_opening ho h
    exact ⟨fd, hg⟩
  refine Along.mono (P := fun _ _ => True) hslot es trivial ?_
  clear hslot h0 hb
  induction es generalizing b with
  | nil => trivial
  | cons e es ih => exact fun s' _ => ⟨trivial, ih⟩

/-- The application 10 opens a file, which the file server has found. -/
def opens : List Event :=
  [⟨⟨some 3, 4, none⟩, ⟨.kOpen, 10, .unset⟩⟩, ⟨⟨some 3, 4, none⟩, ⟨.kOpen, 3, .unset⟩⟩]

/-- The application 10 starts the application 12. -/
def starts : List Event :=
  [⟨⟨some 3, 4, none⟩, ⟨.kExecuteFile, 10, .executefile ⟨[], [], false, false, 0, false, false⟩⟩⟩,
    ⟨⟨some 3, 4, some 12⟩, ⟨.kExecuteFile, 3, .unset⟩⟩, ⟨⟨some 3, 4, none⟩, ⟨.kReady, 3, .unset⟩⟩]

/-- Application 10 opens a file and starts application 12, which gets a copy of its four descriptors; then the kernel
reports that 10 has ended. -/
theorem tables_along_launch :
    (exec next cold (launch false 10 ++ opens ++ starts)).map
        (fun x => x.server.apps.map fun a => (a.taskId, a.files.length)) = some [(10, 4), (12, 4)] ∧
      States next Tables cold
        (launch false 10 ++ opens ++ starts ++ [⟨⟨some 3, 4, none⟩, ⟨.kExitApp, 10, .exitapp 10 0⟩⟩]) ∧
      Along next AllocatesSlot cold
        (launch false 10 ++ opens ++ starts ++ [⟨⟨some 3, 4, none⟩, ⟨.kExitApp, 10, .exitapp 10 0⟩⟩]) :=
  ⟨by decide +kernel, (tables_along_iff cold_boot _).mpr (by decide +kernel)⟩

/-- Application 10 ends and then asks for application 11, which starts without a descriptor. -/
theorem tables_broken : ¬ ∀ (b : Session) (es : List Event), b.Boot →
    (∀ e ∈ es, e.msg.type = .kExitApp → exitappId e.msg = e.msg.srcTask) →
    States next Tables b es ∧ Along next AllocatesSlot b es := by
  intro h
  have hn : ¬ Along next (fun x e => ¬ x.ForEnded e) cold
      (launch false 10 ++ [⟨⟨some 3, 4, none⟩, ⟨.kExitApp, 10, .exitapp 10 0⟩⟩,
        ⟨⟨some 3, 4, none⟩, ⟨.kExecuteFile, 10, .executefile ⟨[], [], false, false, 0, false, false⟩⟩⟩,
        ⟨⟨some 3, 4, some 11⟩, ⟨.kExecuteFile, 3, .unset⟩⟩, ⟨⟨some 3, 4, none⟩, ⟨.kReady, 3, .unset⟩⟩]) := by
    decide +kernel
  exact hn ((along_iff_states
    (I := fun x => Inv x ∧ Wired x) (fun _ _ _ hx h => ⟨next_inv hx.1 h, next_wired hx.1 hx.2 h⟩)
    (fun _ _ _ hx ht h => next_tables_iff hx.1 hx.2 ht h) _ ⟨cold_boot.inv, cold_boot.wired⟩
    ⟨cold_boot.inv.nodup, by simp [cold_boot.apps]⟩).mpr (h _ _ cold_boot (by decide)).1)

end Session

end KinOS.Am
