import KinOS.Am.Requests

/-!
# Who changes what

`Isolated` says whose entry a message may change. The handlers go by `src_task`, except `ExitState`
(`servers/am/serverstate.cpp:283-302`), which goes by the id inside the message. `NoTrace` says what a failed request
to execute a file leaves behind; `ErrState` restores nothing, so the answer depends on how far the request got.
-/

namespace KinOS.Am.Session

open Server TransitionSystem

variable {x x' b : Session} {e : Event}

/-! ## Entries of other applications -/

/-- A step for a request of the task `s` changes the entry of no application but `s`; it adds an entry only as the
child of `s`; it ends an application, and closes a descriptor, only for a `kExitApp` of that application. -/
structure Isolated (x x' : Session) : Prop where
  others : ∀ (i : Nat) (a : AppInfo), x.server.apps[i]? = some a → a.taskId ≠ x'.request.srcTask →
    x'.server.apps[i]? = some a
  child : ∀ (i : Nat) (a : AppInfo), x.server.apps.length ≤ i → x'.server.apps[i]? = some a →
    x'.request.type = .kExecuteFile ∧ a.pTaskId = x'.request.srcTask ∧ a.taskId = x.server.newId
  killed : ∀ (i : Nat) (a a' : AppInfo), x.server.apps[i]? = some a → x'.server.apps[i]? = some a' →
    a.state = .run → a'.state = .kill → x'.request.type = .kExitApp ∧ x'.request.srcTask = a.taskId
  closed : ∀ r, closedAt x.server.objects r = false → closedAt x'.server.objects r = true →
    x'.request.type = .kExitApp ∧ ∃ a ∈ x.server.apps, a.taskId = x'.request.srcTask ∧ some r ∈ a.files

/-- A `kExitApp` that names a running application other than its sender (with a parent, which `GetPID` tells from
"no such application"). -/
def ExitsOther (x : Session) (e : Event) : Prop :=
  x.wait = .receive .init ∧ e.env.fs.isSome ∧ e.msg.type = .kExitApp ∧ exitappId e.msg ≠ e.msg.srcTask ∧
    ∃ a ∈ x.server.apps, a.taskId = exitappId e.msg ∧ a.state = .run ∧ a.pTaskId ≠ 0

instance (x : Session) (e : Event) : Decidable (x.ExitsOther e) := inferInstanceAs (Decidable (_ ∧ _ ∧ _ ∧ _ ∧ _))

/-- A step that leaves the entries, and what is closed, alone. -/
theorem Isolated.of_same (ha : x'.server.apps = x.server.apps)
    (hc : ∀ r, closedAt x'.server.objects r = true → closedAt x.server.objects r = true) : Isolated x x' := by
  refine ⟨?_, ?_, ?_, ?_⟩
  · intro i a hi _
    rw [ha]
    exact hi
  · intro i a hle hi
    rw [ha, List.getElem?_eq_none hle] at hi
    cases hi
  · intro i a a' hi hi' hrun hkill
    rw [ha, hi] at hi'
    cases hi'
    rw [hrun] at hkill
    cases hkill
  · intro r h0 h1
    rw [hc r h1] at h0
    cases h0

theorem Isolated.of_quiet (hq : Quiet x.server x'.server) : Isolated x x' :=
  .of_same hq.apps fun r hr => by rw [← hq.closed r]; exact hr

theorem getPID_of_mem {as : List AppInfo} {a : AppInfo} (hn : (as.map (·.taskId)).Nodup) (ha : a ∈ as) :
    getPID as a.taskId = a.pTaskId := by
  have hf : getAppInfo as a.taskId = some a := by
    induction as with
    | nil => cases ha
    | cons c cs ih =>
      rw [List.map_cons, List.nodup_cons] at hn
      rcases List.mem_cons.mp ha with rfl | ha
      · simp [getAppInfo]
      · have hne : c.taskId ≠ a.taskId := by
          intro h
          exact hn.1 (h ▸ List.mem_map_of_mem ha)
        simpa [getAppInfo, hne] using ih hn.2 ha
  simp [getPID, hf]

/-- `ExitState` on an application that is running. -/
theorem exits_of_other (hi : x.Inv) (ho : x.ExitsOther e) (h : x.next e = some x') :
    Exits (exitappId e.msg) x.server x'.server ∧ x'.request = e.msg := by
  obtain ⟨hw, hf, hm, -, a, ha, hid, -, hp⟩ := ho
  obtain ⟨-, hd, hy, -⟩ := next_some h
  obtain ⟨f, hf⟩ := Option.isSome_iff_exists.mp hf
  refine ⟨?_, (hy (.inl hw)).1⟩
  rw [hw] at hd
  rw [← getPID_of_mem hi.nodup ha, hid] at hp
  change resume e.env (.receive .init) e.msg x.server = _ at hd
  simp only [resume_receive, receiveMessage_init, hf, hm, if_true] at hd
  change turn e.env .exit { x.server with rm := e.msg, fsId := f } = _ at hd
  obtain ⟨-, ⟨h0, -⟩ | ⟨-, he⟩⟩ := turn_exit hd
  · exact absurd h0 hp
  · exact ⟨he.apps, he.created, he.piped, he.closed⟩

theorem exited_of_run {a : AppInfo} (h : a.state = .run) : (exited a.taskId a).state = .kill := by
  simp [exited, h]

theorem exited_other {id : UInt64} {a : AppInfo} (h : ¬ (a.taskId = id ∧ a.state = .run)) : exited id a = a := if_neg h

/-- A `kExitApp` about another application ends it. -/
theorem not_isolated (hi : x.Inv) (ho : x.ExitsOther e) (h : x.next e = some x') : ¬ Isolated x x' := by
  intro hiso
  obtain ⟨he, hr⟩ := exits_of_other hi ho h
  obtain ⟨-, -, -, hne, a, ha, hid, hrun, -⟩ := ho
  obtain ⟨i, hlt, rfl⟩ := List.getElem_of_mem ha
  have hget := List.getElem?_eq_getElem hlt
  have hget' : x'.server.apps[i]? = some (exited (exitappId e.msg) x.server.apps[i]) := by
    rw [he.apps, List.getElem?_map, hget]
    rfl
  have hkill := exited_of_run hrun
  rw [hid] at hkill
  have := (hiso.killed i _ _ hget hget' hrun hkill).2
  rw [hr, hid] at this
  exact hne this.symm

theorem Isolated.of_starts (hi : x.Inv) (hw : x.wait = .receive .createTask ∨ x.wait = .receive .redirect)
    (hr : x.SameRequest x') {terminal : UInt64} {m : Message}
    (hs : Starts terminal { x.server with rm := m } x'.server) : Isolated x x' := by
  have hp : x.Pending := by
    have hp := hi.phase
    rcases hw with hw | hw <;> simp only [Phase, hw] at hp <;> exact hp.1
  obtain ⟨_, _, files, _, hb, _⟩ := hs.apps
  have happs : x'.server.apps = x.server.apps ++ [⟨x.server.newId, x.server.targetId, .run, files⟩] := hb.apps
  have hkeep : ∀ (i : Nat) (a : AppInfo), x.server.apps[i]? = some a → x'.server.apps[i]? = some a := by
    intro i a ha
    obtain ⟨hlt, -⟩ := List.getElem?_eq_some_iff.mp ha
    rw [happs, List.getElem?_append_left hlt]
    exact ha
  refine ⟨fun i a ha _ => hkeep i a ha, ?_, ?_, ?_⟩
  · intro i a hle ha
    rw [happs, List.getElem?_append_right hle] at ha
    obtain rfl := List.mem_singleton.mp (List.mem_of_getElem? ha)
    rw [hr.1]
    exact ⟨hp.type, hp.target, rfl⟩
  · intro i a a' ha ha' hrun hkill
    rw [hkeep i a ha] at ha'
    cases ha'
    rw [hrun] at hkill
    cases hkill
  · intro r h0 h1
    rw [hb.closed r] at h1
    rw [h1] at h0
    cases h0

theorem Isolated.of_touches {t : UInt64} (ht : t = x'.request.srcTask) (hs : Touches t x.server x'.server) :
    Isolated x x' := by
  have hlen : x'.server.apps.length = x.server.apps.length := by
    simpa using congrArg List.length hs.ids
  refine ⟨?_, ?_, ?_, ?_⟩
  · intro i a ha hne
    obtain ⟨a', ha', -, -, -, hsame⟩ := hs.apps i a ha
    rw [ha', hsame (ht ▸ hne)]
  · intro i a hle ha
    rw [List.getElem?_eq_none (by omega)] at ha
    cases ha
  · intro i a a' ha ha' hrun hkill
    obtain ⟨a'', ha'', -, -, hst, -⟩ := hs.apps i a ha
    rw [ha''] at ha'
    cases ha'
    rw [hst, hrun] at hkill
    cases hkill
  · intro r h0 h1
    rw [hs.closed r, h0] at h1
    cases h1

/-- An application that ends itself. -/
theorem Isolated.of_exits (hm : x'.request.type = .kExitApp) (hs : Exits x'.request.srcTask x.server x'.server) :
    Isolated x x' := by
  have hget : ∀ i : Nat, x'.server.apps[i]? = (x.server.apps[i]?).map (exited x'.request.srcTask) := by
    intro i
    rw [hs.apps, List.getElem?_map]
  refine ⟨?_, ?_, ?_, ?_⟩
  · intro i a ha hne
    rw [hget, ha, Option.map_some, exited_other fun h => hne h.1]
  · intro i a hle ha
    rw [hget, List.getElem?_eq_none hle] at ha
    cases ha
  · intro i a a' ha ha' hrun hkill
    rw [hget, ha, Option.map_some, Option.some.injEq] at ha'
    refine ⟨hm, ?_⟩
    by_contra hne
    rw [exited_other fun h => hne h.1.symm] at ha'
    rw [← ha', hrun] at hkill
    cases hkill
  · intro r h0 h1
    rcases hs.closed r h1 with h1 | ⟨a, ha, hid, -, hr⟩
    · rw [h1] at h0
      cases h0
    · exact ⟨hm, a, ha, hid, hr⟩

theorem isolated_of_exits (hi : x.Inv) (ho : ¬ x.ExitsOther e) (hw : x.wait = .receive .init)
    (hr : x'.request = e.msg) (hf : e.env.fs.isSome) (hm : e.msg.type = .kExitApp)
    (hp : getPID x.server.apps (exitappId e.msg) ≠ 0) (hs : Exits (exitappId e.msg) x.server x'.server) :
    Isolated x x' := by
  by_cases hid : exitappId e.msg = e.msg.srcTask
  · refine .of_exits (by rw [hr]; exact hm) ?_
    rw [hr, ← hid]
    exact hs
  · -- no running application has the id, so the rounds of `ExitApp` find nothing
    have hnone : ∀ a ∈ x.server.apps, ¬ (a.taskId = exitappId e.msg ∧ a.state = .run) := by
      rintro a ha ⟨h1, h2⟩
      rw [← h1, getPID_of_mem hi.nodup ha] at hp
      exact ho ⟨hw, hf, hm, hid, a, ha, h1, h2, hp⟩
    refine .of_same ?_ ?_
    · rw [hs.apps]
      conv_rhs => rw [← List.map_id x.server.apps]
      exact List.map_congr_left fun a ha => exited_other (hnone a ha)
    · intro r hc
      rcases hs.closed r hc with h | ⟨a, ha, h1, h2, -⟩
      · exact h
      · exact absurd ⟨h1, h2⟩ (hnone a ha)

theorem isolated_iff (hi : x.Inv) (h : x.next e = some x') : Isolated x x' ↔ ¬ x.ExitsOther e := by
  refine ⟨fun hiso ho => not_isolated hi ho h hiso, fun ho => ?_⟩
  cases next_moves hi h with
  | aside _ _ hq => exact .of_quiet hq
  | goes _ hq _ _ => exact .of_quiet hq
  | accepts _ _ _ _ hs => exact .of_same hs.1 fun r hr => by rw [← hs.2.1]; exact hr
  | makes _ _ _ _ hs => exact .of_same hs.1 fun r hr => by rw [← hs.2.1]; exact hr
  | fails _ _ _ hq _ => exact .of_quiet hq
  | starts hw _ hr hs _ => exact .of_starts hi hw hr hs
  | asks _ _ hq _ => exact .of_quiet hq
  | opens hw _ hr hs =>
    have hp := hi.phase
    simp only [Phase, hw] at hp
    exact .of_touches (by rw [hp, hr.1]) hs
  | exits hw _ hr hf hm hp hs => exact isolated_of_exits hi ho hw hr hf hm hp hs

/-- **Isolation of the applications.** Along a run of the server every step keeps to the entries of its requester
exactly when no `kExitApp` names a running application other than its sender. -/
theorem isolated_along_iff (hb : b.Boot) (es : List Event) :
    Along next (fun x e => ∀ x', x.next e = some x' → Isolated x x') b es ↔
      Along next (fun x e => ¬ x.ExitsOther e) b es := by
  refine along_congr (fun _ _ _ => next_inv) (fun x e x' hi h => ?_) es hb.inv
  constructor
  · intro hall
    exact (isolated_iff hi h).mp (hall x' h)
  · intro ho x'' h'
    exact (isolated_iff hi h').mpr ho

/-- Two applications are started and one of them ends. -/
theorem isolated_along_launch :
    cold.Boot ∧ Along next (fun x e => ∀ x', x.next e = some x' → Isolated x x') cold
      (launch false 10 ++ launch false 11 ++ [⟨⟨some 3, 4, none⟩, ⟨.kExitApp, 11, .exitapp 11 0⟩⟩]) :=
  ⟨cold_boot, (isolated_along_iff cold_boot _).mpr (by decide +kernel)⟩

/-- Application 11 sends a `kExitApp` that names application 10. -/
theorem isolation_broken : ¬ ∀ (b x x' : Session) (es : List Event) (e : Event), b.Boot → exec next b es = some x →
    x.next e = some x' → Isolated x x' := by
  intro h
  let e : Event := ⟨⟨some 3, 4, none⟩, ⟨.kExitApp, 11, .exitapp 10 0⟩⟩
  have hrun : (exec next cold (launch false 10 ++ launch false 11)).any
      (fun x => decide (x.ExitsOther e) && (x.next e).isSome) = true := by decide +kernel
  obtain ⟨x, hx, hp⟩ := (Option.any_eq_true _ _).mp hrun
  rw [Bool.and_eq_true, decide_eq_true_eq, Option.isSome_iff_exists] at hp
  obtain ⟨ho, x', hx'⟩ := hp
  exact not_isolated (cold_boot.exec_inv hx) ho hx' (h cold x x' _ e cold_boot hx hx')

/-! ## Requests that fail -/

/-- The request to execute a file is over and no application was started: the server has reported an error, or has
dropped the request on a reply it does not know. -/
def Fails (x x' : Session) : Prop :=
  Executing x.wait ∧ x'.wait = .receive .init ∧ ¬ Told x.server x'.server

instance (x x' : Session) : Decidable (Fails x x') := inferInstanceAs (Decidable (_ ∧ _ ∧ _))

/-- The tasks, the table, and the pipe between two stages are what the request found. -/
structure NoTrace (x : Session) : Prop where
  created : x.server.created = x.before.created
  apps : x.server.apps = x.before.apps
  piped : x.server.piped = x.before.piped
  pipeFd : x.server.pipeFd = x.before.pipeFd

/-- The request came in `InitState`, and it fails before there is a task. -/
def Early (x : Session) : Prop := x.stage = false ∧ x.wait = .receive .execFile

instance (x : Session) : Decidable x.Early := inferInstanceAs (Decidable (_ ∧ _))

/-- The application that a step adds reads what its parent reads, or, started by a task that is no application, the
terminal; unless the request is the next stage of a pipeline. -/
def OwnInput (x : Session) (e : Event) (x' : Session) : Prop :=
  ∀ a, x'.server.apps = x.server.apps ++ [a] → x.stage = false →
    match getAppInfo x.server.apps x.request.srcTask with
    | some p => a.files[0]? = p.files[0]?
    | none => ∃ r, a.files[0]? = some (some r) ∧ x'.server.objects[r]? = some (.terminal a.taskId e.env.terminal)

/-- A step that fails leaves the server as it was a message before. -/
theorem fails_quiet (hi : x.Inv) (h : x.next e = some x') (hf : Fails x x') :
    Quiet x.server x'.server ∧ x.SameRequest x' ∧ x.wait ≠ .redirectName := by
  obtain ⟨hx, hw', ht⟩ := hf
  cases next_moves hi h with
  | aside hw _ _ =>
    generalize x.wait = w at hw hx
    cases w with
    | receive st => cases st <;> simp_all [Aside, Executing]
    | _ => simp_all [Aside, Executing]
  | goes hw _ _ _ =>
    rcases hw with hw | ⟨-, hw⟩ | ⟨-, hw⟩
    · rw [← hw, hw'] at hx
      cases hx
    · rw [hw'] at hw
      cases hw
    · rw [hw'] at hw
      cases hw
  | accepts _ _ hw _ _ => rcases hw with hw | hw <;> rw [hw'] at hw <;> cases hw
  | makes _ hw _ _ _ => rw [hw'] at hw; cases hw
  | fails hw _ hr hq _ => exact ⟨hq, hr, hw.2⟩
  | starts _ _ _ _ hto => exact absurd hto ht
  | asks _ hw _ _ => rw [hw'] at hw; cases hw
  | opens hw _ _ _ => rw [hw] at hx; cases hx
  | exits hw _ _ _ _ _ _ => rw [hw] at hx; cases hx

theorem noTrace_iff (hi : x.Inv) (h : x.next e = some x') (hf : Fails x x') : x'.NoTrace ↔ x.Early := by
  obtain ⟨hq, ⟨-, hb, -⟩, hn⟩ := fails_quiet hi h hf
  have hp := hi.phase
  have hx := hf.1
  have hlong : x.server.created = x.before.created ++ [x.server.newId] → ¬ x'.NoTrace := by
    intro hc hn
    have := hn.created
    rw [hq.created, hb, hc] at this
    simp at this
  unfold Phase at hp
  unfold Early
  generalize x.wait = w at hp hx hn ⊢
  cases w with
  | receive st =>
    cases st with
    | execFile =>
      obtain ⟨hp, hc⟩ := hp
      constructor
      · intro hn
        have hpiped := hn.piped
        rw [hq.piped, hb, hp.piped] at hpiped
        refine ⟨?_, rfl⟩
        by_contra hst
        rw [Bool.not_eq_false] at hst
        rw [hst, hp.stage hst] at hpiped
        cases hpiped
      · rintro ⟨hst, -⟩
        refine ⟨?_, ?_, ?_, ?_⟩
        · rw [hq.created, hb, hc]
        · rw [hq.apps, hb, hp.apps]
        · rw [hq.piped, hb, hp.piped, hst, Bool.false_or]
        · rw [hq.pipeFd, hb, hp.pipeFd]
    | createTask | redirect => exact iff_of_false (hlong hp.2.1) (by simp)
    | _ => cases hx
  | redirectName => exact absurd rfl hn
  | _ => cases hx

/-- A pipe waits for its reader only while the next stage of the pipeline is being executed. -/
def Clear (x : Session) : Prop := x.stage = false ∨ ¬ Executing x.wait → x.server.piped = false

theorem next_clear (hi : x.Inv) (hc : x.Clear) (hearly : ∀ x', x.next e = some x' → Fails x x' → x.Early)
    (h : x.next e = some x') : x'.Clear := by
  intro hx'
  cases next_moves hi h with
  | aside hw _ hq =>
    rw [hq.piped]
    refine hc (.inr fun hx => ?_)
    generalize x.wait = w at hw hx
    cases w with
    | receive st => cases st <;> simp_all [Aside, Executing]
    | _ => simp_all [Aside, Executing]
  | goes hw hq _ hr =>
    rw [hq.piped]
    refine hc (hx'.imp (fun hst => by rw [← hr.2.2]; exact hst) fun hn => ?_)
    rcases hw with hw | ⟨-, hw⟩ | ⟨-, hw⟩
    · rw [← hw]
      exact hn
    · rw [hw] at hn
      exact absurd trivial hn
    · rw [hw] at hn
      exact absurd trivial hn
  | accepts ht _ hw' hr hs =>
    have hst : x'.stage = false := by
      refine hx'.resolve_right fun hn => hn ?_
      rcases hw' with hw' | hw' <;> rw [hw'] <;> trivial
    rw [hs.2.2.2.2.1, hst, Bool.false_or]
    refine hc (.inr fun hx => ?_)
    rcases ht with hw | ⟨hw, -⟩ <;> rw [hw] at hx <;> cases hx
  | makes hw hw' hr _ hs =>
    rw [hs.2.2.2.2.1]
    refine hc (.inl ?_)
    rw [← hr.2.2]
    refine hx'.resolve_right fun hn => hn ?_
    rw [hw']
    trivial
  | fails hw hw' hr hq ht =>
    rw [hq.piped]
    exact hc (.inl (hearly x' h ⟨hw.1, hw', ht⟩).1)
  | starts _ _ _ hs _ => exact hs.piped
  | asks hw _ hq _ =>
    rw [hq.piped]
    exact hc (.inr (by rw [hw]; exact id))
  | opens hw _ _ hs =>
    rw [hs.piped]
    exact hc (.inr (by rw [hw]; exact id))
  | exits hw _ _ _ _ _ hs =>
    rw [hs.piped]
    exact hc (.inr (by rw [hw]; exact id))

/-- With no pipe left over, `StartTaskState` gives the new application what it starts with. -/
theorem ownInput_of_starts (hi : x.Inv) (hc : x.Clear)
    (hw : x.wait = .receive .createTask ∨ x.wait = .receive .redirect)
    (hs : Starts e.env.terminal { x.server with rm := e.msg } x'.server) : OwnInput x e x' := by
  intro a ha hst
  have htarget : x.server.targetId = x.request.srcTask := by
    have hp := hi.phase
    rcases hw with hw | hw <;> simp only [Phase, hw] at hp <;> exact hp.1.target
  obtain ⟨base, first, files, hin, hb, hz⟩ := hs.apps
  have hpiped : x.server.piped = false := hc (.inl hst)
  obtain rfl : a = ⟨x.server.newId, x.server.targetId, .run, files⟩ := by
    have := ha.symm.trans hb.apps
    simpa using this
  rw [if_neg (by simp [hpiped])] at hz
  obtain ⟨more, hobj, -⟩ := hb.objects
  rw [← htarget]
  cases hin with
  | parent hp =>
    change getAppInfo x.server.apps x.server.targetId = _ at hp
    simp only [hp]
    exact hz
  | terminal hp =>
    change getAppInfo x.server.apps x.server.targetId = _ at hp
    simp only [hp]
    refine ⟨x.server.objects.length, hz, ?_⟩
    rw [hobj]
    simp

/-- Only `StartTaskState` adds an application. -/
theorem next_ownInput (hi : x.Inv) (hc : x.Clear) (h : x.next e = some x') : OwnInput x e x' := by
  have hsame : x'.server.apps.length = x.server.apps.length → OwnInput x e x' := by
    intro hl a ha
    rw [ha] at hl
    simp at hl
  cases next_moves hi h with
  | aside _ _ hq => exact hsame (by rw [hq.apps])
  | goes _ hq _ _ => exact hsame (by rw [hq.apps])
  | accepts _ _ _ _ hs => exact hsame (by rw [hs.1])
  | makes _ _ _ _ hs => exact hsame (by rw [hs.1])
  | fails _ _ _ hq _ => exact hsame (by rw [hq.apps])
  | starts hw _ _ hs _ => exact ownInput_of_starts hi hc hw hs
  | asks _ _ hq _ => exact hsame (by rw [hq.apps])
  | opens _ _ _ hs => exact hsame (by simpa using congrArg List.length hs.ids)
  | exits _ _ _ _ _ _ hs => exact hsame (by rw [hs.apps, List.length_map])

/-- **A request that fails.** Along a run every failed request leaves no trace exactly when each fails early; and
then every command that is not the next stage of a pipeline reads its own input. -/
theorem noTrace_along_iff (hb : b.Boot) (es : List Event) :
    (Along next (fun x e => ∀ x', x.next e = some x' → Fails x x' → x'.NoTrace) b es ↔
      Along next (fun x e => ∀ x', x.next e = some x' → Fails x x' → x.Early) b es) ∧
    (Along next (fun x e => ∀ x', x.next e = some x' → Fails x x' → x.Early) b es →
      Along next (fun x e => ∀ x', x.next e = some x' → OwnInput x e x') b es) := by
  constructor
  · refine along_congr (fun _ _ _ => next_inv) (fun x e x' hi h => ?_) es hb.inv
    constructor
    · intro hall x'' h' hf
      exact (noTrace_iff hi h' hf).mp (hall x'' h' hf)
    · intro hall x'' h' hf
      exact (noTrace_iff hi h' hf).mpr (hall x'' h' hf)
  · refine Along.mono (I := fun x => x.Inv ∧ x.Clear) (fun x e x' hi hearly h => ?_) es ⟨hb.inv, fun _ => hb.piped⟩
    refine ⟨⟨next_inv hi.1 h, next_clear hi.1 hi.2 hearly h⟩, fun x'' h' => ?_⟩
    exact next_ownInput hi.1 hi.2 h'

/-- The messages of a request for a file that is not there. -/
def missing : List Event :=
  [⟨⟨some 3, 4, none⟩, ⟨.kExecuteFile, 5, .executefile ⟨[], [], false, false, 0, false, false⟩⟩⟩,
    ⟨⟨some 3, 4, none⟩, ⟨.kError, 3, .error false 2⟩⟩]

/-- A missing file, then a command. -/
theorem noTrace_along_missing :
    cold.Boot ∧ Along next (fun x e => ∀ x', x.next e = some x' → Fails x x' → x'.NoTrace) cold
        (missing ++ launch false 10) ∧
      Along next (fun x e => ∀ x', x.next e = some x' → OwnInput x e x') cold (missing ++ launch false 10) := by
  have hearly : Along next (fun x e => ∀ x', x.next e = some x' → Fails x x' → x.Early) cold
      (missing ++ launch false 10) := by decide +kernel
  obtain ⟨h1, h2⟩ := noTrace_along_iff cold_boot (missing ++ launch false 10)
  exact ⟨cold_boot, h1.mpr hearly, h2 hearly⟩

def isPipe : Option FileDescriptor → Bool
  | some (.pipe _) => true
  | _ => false

/-- The second stage of a pipeline names a missing file: `piped_` stays set, and the next command reads the pipe. -/
theorem failed_stage_leaves_pipe :
    (¬ ∀ (b x x' : Session) (es : List Event) (e : Event), b.Boot → exec next b es = some x → x.next e = some x' →
      Fails x x' → x'.NoTrace) ∧
    (¬ ∀ (b x x' : Session) (es : List Event) (e : Event), b.Boot → exec next b es = some x → x.next e = some x' →
      OwnInput x e x') := by
  constructor
  · intro h
    let e : Event := ⟨⟨some 3, 4, none⟩, ⟨.kError, 3, .error false 2⟩⟩
    have hrun : (exec next cold (launch true 10 ++ missing.take 1)).any (fun x => (x.next e).any fun x' =>
        decide (Fails x x') && (x'.server.piped != x'.before.piped)) = true := by decide +kernel
    obtain ⟨x, hx, hp⟩ := (Option.any_eq_true _ _).mp hrun
    obtain ⟨x', hx', hp⟩ := (Option.any_eq_true _ _).mp hp
    rw [Bool.and_eq_true, decide_eq_true_eq, bne_iff_ne] at hp
    exact hp.2 (h cold x x' _ e cold_boot hx hx' hp.1).piped
  · intro h
    let e : Event := ⟨⟨some 3, 4, none⟩, ⟨.kReady, 3, .unset⟩⟩
    have hrun : (exec next cold (launch true 10 ++ missing ++ (launch false 11).take 2)).any (fun x =>
        (x.next e).any fun x' => decide (x.stage = false ∧ getAppInfo x.server.apps x.request.srcTask = none ∧
          x'.server.apps = x.server.apps ++ [⟨11, 5, .run, [some 3, some 5, some 6]⟩] ∧
          isPipe x'.server.objects[3]? = true)) = true := by decide +kernel
    obtain ⟨x, hx, hp⟩ := (Option.any_eq_true _ _).mp hrun
    obtain ⟨x', hx', hp⟩ := (Option.any_eq_true _ _).mp hp
    obtain ⟨hst, hnone, happs, hpipe⟩ := decide_eq_true_eq.mp hp
    have hin := h cold x x' _ e cold_boot hx hx' _ happs hst
    rw [hnone] at hin
    obtain ⟨r, hr, hobj⟩ := hin
    obtain rfl : 3 = r := by simpa using hr
    rw [hobj] at hpipe
    cases hpipe

end KinOS.Am.Session
