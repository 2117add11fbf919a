import KinOS.Am.Session

/-!
# What a step of the application manager can do

One lemma for each receive: the message is taken, and the lemma lists where the server stops next and what it
changed on the way. `Starts`, `Touches` and `Exits` are the three ways in which the table of applications changes.
-/

namespace KinOS.Am

/-- `ExitApp` on one entry. -/
def exited (id : UInt64) (a : AppInfo) : AppInfo :=
  if a.taskId = id ∧ a.state = .run then { a with files := [], state := .kill } else a

namespace Server

/-- The table a new application starts with: the parent's pointers, or the terminal three times. -/
inductive Inherits (terminal : UInt64) (s : Server) : List (Option Ref) → List FileDescriptor → Prop
  | parent {p : AppInfo} : getAppInfo s.apps s.targetId = some p → Inherits terminal s p.files []
  | terminal : getAppInfo s.apps s.targetId = none →
      Inherits terminal s [some s.objects.length, some (s.objects.length + 1), some (s.objects.length + 2)]
        (.replicate 3 (.terminal s.newId terminal))

/-- One application more: the task just created, with the table `files`, and the descriptors `first` made first. -/
structure Built (s : Server) (first : List FileDescriptor) (files : List (Option Ref)) (s' : Server) : Prop where
  apps : s'.apps = s.apps ++ [⟨s.newId, s.targetId, .run, files⟩]
  objects : ∃ more, s'.objects = s.objects ++ (first ++ more) ∧
    ∀ d ∈ first ++ more, d.id = s.newId ∧ closedAt [d] 0 = false
  created : s'.created = s.created
  vars : s'.id = s.id ∧ s'.fsId = s.fsId ∧ s'.targetId = s.targetId ∧ s'.pipe = s.pipe
  sent : ∃ l, s'.sent = s.sent ++ l

/-- `StartTaskState`: the standard input of the new application is the pipe that waits for a reader, or what it
starts with. -/
structure Starts (terminal : UInt64) (s s' : Server) : Prop where
  apps : ∃ base first files, Inherits terminal s base first ∧ Built s first files s' ∧
    files[0]? = if s.piped then some s.pipeFd else base[0]?
  piped : s'.piped = false

/-- The places of a table that was filled from `base`: a new descriptor, or the pipe that waited, took the place of
some. -/
structure Filled (s : Server) (base files : List (Option Ref)) (s' : Server) : Prop where
  length : files.length = base.length
  places : ∀ q ∈ files, q ∈ base ∨ (s.piped = true ∧ q = s.pipeFd) ∨ ∃ r, q = some r ∧ r < s'.objects.length

/-- A `kStartApp` was sent. -/
def Told (s s' : Server) : Prop := ∃ l, s'.sent = s.sent ++ l ∧ ∃ y ∈ l, y.2.type = .kStartApp

instance (s s' : Server) : Decidable (Told s s') :=
  decidable_of_iff (s'.sent.take s.sent.length = s.sent ∧ ∃ y ∈ s'.sent.drop s.sent.length, y.2.type = .kStartApp) <| by
    constructor
    · rintro ⟨h, y, hy, ht⟩
      have hsplit := List.take_append_drop s.sent.length s'.sent
      rw [h] at hsplit
      exact ⟨_, hsplit.symm, y, hy, ht⟩
    · rintro ⟨l, hl, y, hy, ht⟩
      exact ⟨by simp [hl], y, by simpa [hl] using hy, ht⟩

/-- Only the entry of one application changes, and it keeps its state. -/
structure Touches (t : UInt64) (s s' : Server) : Prop where
  ids : s'.apps.map (·.taskId) = s.apps.map (·.taskId)
  apps : ∀ (i : Nat) (a : AppInfo), s.apps[i]? = some a → ∃ a' : AppInfo, s'.apps[i]? = some a' ∧ a'.taskId = a.taskId ∧
    a'.pTaskId = a.pTaskId ∧ a'.state = a.state ∧ (a.taskId ≠ t → a' = a)
  created : s'.created = s.created
  piped : s'.piped = s.piped
  closed : ∀ r, closedAt s'.objects r = closedAt s.objects r

structure Exits (id : UInt64) (s s' : Server) : Prop where
  apps : s'.apps = s.apps.map (exited id)
  created : s'.created = s.created
  piped : s'.piped = s.piped
  closed : ∀ r, closedAt s'.objects r = true → closedAt s.objects r = true ∨
    ∃ a ∈ s.apps, a.taskId = id ∧ a.state = .run ∧ some r ∈ a.files

/-! ## `ExitApp` -/

theorem closedAt_set {objects : List FileDescriptor} {r q : Ref} {p : PipeFileDescriptor}
    (h : closedAt (objects.set r (.pipe { p with closed := true })) q = true) :
    closedAt objects q = true ∨ q = r := by
  by_cases hq : r = q
  · exact .inr hq.symm
  · simp only [closedAt, List.getElem?_set_ne hq] at h
    exact .inl h

/-- Nothing but descriptors of the list is closed. -/
structure Closes (ps : List (Option Ref)) (s s' : Server) : Prop where
  apps : s'.apps = s.apps
  created : s'.created = s.created
  piped : s'.piped = s.piped
  closed : ∀ r, closedAt s'.objects r = true → closedAt s.objects r = true ∨ some r ∈ ps

theorem close_spec {s s' : Server} {r : Ref} {u : Unit} (h : close r s = .ok u s') : Closes [some r] s s' := by
  simp only [close, EStateM.run_bind_ok, deref_ok] at h
  obtain ⟨d, _, ⟨ho, rfl⟩, h⟩ := h
  cases d with
  | terminal _ _ | fat _ _ =>
    simp only [EStateM.run_pure_ok] at h
    obtain ⟨-, rfl⟩ := h
    exact ⟨rfl, rfl, rfl, fun _ hc => .inl hc⟩
  | pipe p =>
    simp only [EStateM.run_bind_ok, store_ok, sendError_ok] at h
    obtain ⟨_, _, rfl, rfl⟩ := h
    refine ⟨rfl, rfl, rfl, fun q hc => ?_⟩
    rcases closedAt_set hc with hc | rfl
    · exact .inl hc
    · exact .inr (by simp)

theorem closeAll_spec : ∀ {ps : List (Option Ref)} {s s' : Server} {u : Unit}, closeAll ps s = .ok u s' →
    Closes ps s s'
  | [], s, s', _, h => by
    simp only [closeAll, EStateM.run_pure_ok] at h
    obtain ⟨-, rfl⟩ := h
    exact ⟨rfl, rfl, rfl, fun _ hc => .inl hc⟩
  | none :: ps, s, s', _, h => by simp [closeAll] at h
  | some r :: ps, s, s', _, h => by
    simp only [closeAll, EStateM.run_bind_ok] at h
    obtain ⟨_, s₁, h1, h2⟩ := h
    have hc1 := close_spec h1
    have hc2 := closeAll_spec h2
    refine ⟨hc2.apps.trans hc1.apps, hc2.created.trans hc1.created, hc2.piped.trans hc1.piped, fun q hc => ?_⟩
    rcases hc2.closed q hc with hc | hc
    · rcases hc1.closed q hc with hc | hc
      · exact .inl hc
      · exact .inr (by simp_all)
    · exact .inr (List.mem_cons_of_mem _ hc)

theorem exitApps_spec {id : UInt64} : ∀ {as : List AppInfo} {s s' : Server} {as' : List AppInfo},
    exitApps id as s = .ok as' s' → as' = as.map (exited id) ∧ s'.created = s.created ∧ s'.piped = s.piped ∧
      ∀ r, closedAt s'.objects r = true → closedAt s.objects r = true ∨
        ∃ a ∈ as, a.taskId = id ∧ a.state = .run ∧ some r ∈ a.files
  | [], s, s', as', h => by
    simp only [exitApps, EStateM.run_pure_ok] at h
    obtain ⟨rfl, rfl⟩ := h
    exact ⟨rfl, rfl, rfl, fun _ hc => .inl hc⟩
  | a :: as, s, s', as', h => by
    simp only [exitApps, EStateM.run_bind_ok, EStateM.run_pure_ok] at h
    obtain ⟨a', s₁, h1, as₁, s₂, h2, rfl, rfl⟩ := h
    obtain ⟨rfl, hcr, hpi, hcl⟩ := exitApps_spec h2
    have hhead : a' = exited id a ∧ s₁.created = s.created ∧ s₁.piped = s.piped ∧
        ∀ r, closedAt s₁.objects r = true → closedAt s.objects r = true ∨
          (a.taskId = id ∧ a.state = .run ∧ some r ∈ a.files) := by
      unfold exited
      split at h1
      · next hc =>
        simp only [EStateM.run_bind_ok, EStateM.run_pure_ok] at h1
        obtain ⟨_, _, h1, rfl, rfl⟩ := h1
        have hcl := closeAll_spec h1
        exact ⟨(if_pos hc).symm, hcl.created, hcl.piped,
          fun r hr => (hcl.closed r hr).imp_right fun h => ⟨hc.1, hc.2, h⟩⟩
      · next hc =>
        simp only [EStateM.run_pure_ok] at h1
        obtain ⟨rfl, rfl⟩ := h1
        exact ⟨(if_neg hc).symm, rfl, rfl, fun _ h => .inl h⟩
    obtain ⟨rfl, hcr1, hpi1, hcl1⟩ := hhead
    refine ⟨rfl, hcr.trans hcr1, hpi.trans hpi1, fun r hr => ?_⟩
    rcases hcl r hr with hr | ⟨b, hb, h⟩
    · rcases hcl1 r hr with hr | h
      · exact .inl hr
      · exact .inr ⟨a, List.mem_cons_self .., h⟩
    · exact .inr ⟨b, List.mem_cons_of_mem _ hb, h⟩

theorem exitApp_spec {id : UInt64} {s s' : Server} {u : Unit} (h : exitApp id s = .ok u s') : Exits id s s' := by
  simp only [exitApp, EStateM.run_bind_ok, EStateM.run_get_ok, EStateM.run_modify_ok] at h
  obtain ⟨_, _, ⟨rfl, rfl⟩, as, s₁, h1, rfl⟩ := h
  obtain ⟨rfl, hcr, hpi, hcl⟩ := exitApps_spec h1
  exact ⟨rfl, hcr, hpi, hcl⟩

/-! ## `NewApp` -/

theorem newApp_spec {s s' : Server} {terminal : UInt64} {u : Unit} (hf : ∀ a ∈ s.apps, a.taskId ≠ s.newId)
    (h : newApp terminal s.newId s.targetId s = .ok u s') :
    ∃ files extra, Inherits terminal s files extra ∧
      s' = { s with apps := s.apps ++ [⟨s.newId, s.targetId, .run, files⟩], objects := s.objects ++ extra } := by
  simp only [newApp, EStateM.run_bind_ok, EStateM.run_get_ok, EStateM.run_modify_ok] at h
  obtain ⟨_, _, ⟨rfl, rfl⟩, _, _, rfl, h⟩ := h
  cases hp : getAppInfo s.apps s.targetId with
  | none =>
    simp only [hp, Option.isNone_none, if_true] at h
    cases h
    refine ⟨_, _, .terminal hp, ?_⟩
    simp only [modifyApp_fresh hf]
    simp [List.replicate]
  | some p =>
    have hparent : getAppInfo (s.apps ++ [⟨s.newId, s.targetId, .run, []⟩]) s.targetId = some p := by
      unfold getAppInfo at hp ⊢
      rw [List.find?_append, hp]
      rfl
    simp only [hp, Option.isNone_some, Bool.false_eq_true, if_false, copyFileDescriptor, EStateM.run_bind_ok,
      EStateM.run_get_ok] at h
    obtain ⟨_, _, ⟨rfl, rfl⟩, h⟩ := h
    simp only [getAppInfo_fresh hf, hparent] at h
    split at h
    · simp at h
    · simp only [updateApp_ok, modifyApp_fresh hf] at h
      subst h
      refine ⟨p.files, [], .parent hp, ?_⟩
      simp

/-! ## `StartTaskState` -/

theorem closedAt_append {objects extra : List FileDescriptor} (h : ∀ d ∈ extra, closedAt [d] 0 = false) (r : Ref) :
    closedAt (objects ++ extra) r = closedAt objects r := by
  by_cases hr : r < objects.length
  · simp [closedAt, List.getElem?_append_left hr]
  · have hnone : objects[r]? = none := List.getElem?_eq_none (Nat.le_of_not_lt hr)
    simp only [closedAt, List.getElem?_append_right (Nat.le_of_not_lt hr), hnone]
    cases he : extra[r - objects.length]? with
    | none => rfl
    | some d => simpa [closedAt] using h d (List.mem_of_getElem? he)

theorem setFile_last {s s' : Server} {id p : UInt64} {st : AppState} {files : List (Option Ref)} {i : Nat}
    {q : Option Ref} {as : List AppInfo} {u : Unit} (hs : s.apps = as ++ [⟨id, p, st, files⟩])
    (hf : ∀ a ∈ as, a.taskId ≠ id) (h : setFile id i q s = .ok u s') :
    i < files.length ∧ s' = { s with apps := as ++ [⟨id, p, st, files.set i q⟩] } := by
  simp only [setFile_ok, hs, getAppInfo_fresh hf, Option.some.injEq] at h
  obtain ⟨a, rfl, hi, rfl⟩ := h
  refine ⟨hi, ?_⟩
  simp only [modifyApp_fresh hf]

section Build

variable {s t t' : Server} {first : List FileDescriptor} {files files' : List (Option Ref)} {r : Ref} {q : Option Ref}
  {d : FileDescriptor} {u : Unit}

theorem Built.alloc (hb : Built s first files t) (hd : d.id = s.newId ∧ closedAt [d] 0 = false)
    (h : alloc d t = .ok r t') : Built s first files t' ∧ t'.piped = t.piped := by
  simp only [alloc_ok] at h
  obtain ⟨-, rfl⟩ := h
  obtain ⟨more, he, hx⟩ := hb.objects
  refine ⟨⟨hb.apps, ⟨more ++ [d], ?_, ?_⟩, hb.created, hb.vars, hb.sent⟩, rfl⟩
  · simp only [he, List.append_assoc]
  · intro x hm
    rw [← List.append_assoc] at hm
    rcases List.mem_append.mp hm with hm | hm
    · exact hx x hm
    · rw [List.mem_singleton.mp hm]
      exact hd

theorem Built.setFile (hf : ∀ a ∈ s.apps, a.taskId ≠ s.newId) (hb : Built s first files t) {i : Nat}
    (h : setFile s.newId i q t = .ok u t') :
    i < files.length ∧ Built s first (files.set i q) t' ∧ t'.piped = t.piped := by
  obtain ⟨hi, rfl⟩ := setFile_last hb.apps hf h
  exact ⟨hi, ⟨rfl, hb.objects, hb.created, hb.vars, hb.sent⟩, rfl⟩

theorem Built.post (hb : Built s first files t) (x : Message) (id : UInt64) : Built s first files (t.post x id) := by
  obtain ⟨l, hl⟩ := hb.sent
  refine ⟨hb.apps, hb.objects, hb.created, hb.vars, l ++ [(id, { x with srcTask := t.id })], ?_⟩
  rw [post_sent, hl, List.append_assoc]

theorem Built.setSm (hb : Built s first files t) (x : Message) : Built s first files { t with sm := x } :=
  ⟨hb.apps, hb.objects, hb.created, hb.vars, hb.sent⟩

theorem Filled.alloc (hf : Filled s files files' t) (h : alloc d t = .ok r t') :
    Filled s files files' t' ∧ r < t'.objects.length := by
  simp only [alloc_ok] at h
  obtain ⟨rfl, rfl⟩ := h
  refine ⟨⟨hf.length, fun q hq => ?_⟩, by simp⟩
  rcases hf.places q hq with hq | hq | ⟨r, hr, hlt⟩
  · exact .inl hq
  · exact .inr (.inl hq)
  · exact .inr (.inr ⟨r, hr, Nat.lt_of_lt_of_le hlt (by simp)⟩)

theorem Filled.set (hf : Filled s files files' t) {i : Nat}
    (hq : (s.piped = true ∧ q = s.pipeFd) ∨ ∃ r, q = some r ∧ r < t.objects.length) (ho : t'.objects = t.objects) :
    Filled s files (files'.set i q) t' := by
  refine ⟨by rw [List.length_set, hf.length], fun p hp => ?_⟩
  rw [ho]
  rcases List.mem_or_eq_of_mem_set hp with hp | rfl
  · exact hf.places p hp
  · exact .inr hq

theorem startTask_walk {env : Env} {w : Wait ⊕ State} (hf : ∀ a ∈ s.apps, a.taskId ≠ s.newId)
    (h : startTaskHandle env s = .ok w t) :
    w = .inr .startTask ∧ t.sm.type = .kStartApp ∧ t.piped = false ∧ ∃ base first files,
      Inherits env.terminal s base first ∧ Built s first files t ∧ Filled s base files t ∧
        files[0]? = (if s.piped then some s.pipeFd else base[0]?) ∧
        ((s.pipe = false ∧ t.pipeFd = s.pipeFd) ∨ ∃ r, t.pipeFd = some r ∧ r < t.objects.length) := by
  simp only [startTaskHandle, EStateM.run_bind_ok, EStateM.run_get_ok, EStateM.run_pure_ok] at h
  obtain ⟨_, _, ⟨rfl, rfl⟩, _, s1, h1, _, s2, h2, _, s3, h3, _, s4, h4, h5⟩ := h
  obtain ⟨base, extra, hin, rfl⟩ := newApp_spec hf h1
  have hb1 : Built s extra base { s with
      apps := s.apps ++ [⟨s.newId, s.targetId, .run, base⟩], objects := s.objects ++ extra } := by
    refine ⟨rfl, ⟨[], by simp, ?_⟩, rfl, ⟨rfl, rfl, rfl, rfl⟩, [], by simp⟩
    cases hin with
    | parent _ => simp
    | terminal _ => simp [closedAt, FileDescriptor.id]
  have hl1 : Filled s base base { s with
      apps := s.apps ++ [⟨s.newId, s.targetId, .run, base⟩], objects := s.objects ++ extra } :=
    ⟨rfl, fun _ hq => .inl hq⟩
  -- the file the output is redirected to
  have hb2 : ∃ f2, Built s extra f2 s2 ∧ Filled s base f2 s2 ∧ f2[0]? = base[0]? ∧ s2.piped = s.piped ∧
      s2.pipeFd = s.pipeFd := by
    split at h2
    · simp only [EStateM.run_bind_ok] at h2
      obtain ⟨r, s2', ha, hs⟩ := h2
      obtain ⟨hb, hp⟩ := hb1.alloc ⟨rfl, rfl⟩ ha
      obtain ⟨hl, hr⟩ := hl1.alloc ha
      have hfd : s2'.pipeFd = s.pipeFd := by
        simp only [alloc_ok] at ha
        rw [← ha.2]
      obtain ⟨hi, rfl⟩ := setFile_last hb.apps hf hs
      obtain ⟨-, hb, hp'⟩ := hb.setFile hf hs
      exact ⟨_, hb, hl.set (.inr ⟨r, rfl, hr⟩) rfl, by simp, hp'.trans hp, hfd⟩
    · simp only [EStateM.run_pure_ok] at h2
      obtain ⟨-, rfl⟩ := h2
      exact ⟨base, hb1, hl1, rfl, rfl, rfl⟩
  obtain ⟨f2, hb2, hl2, hz2, hp2, hq2⟩ := hb2
  -- the pipe it reads from
  have hb3 : ∃ f3, Built s extra f3 s3 ∧ Filled s base f3 s3 ∧
      f3[0]? = (if s.piped then some s.pipeFd else base[0]?) ∧ s3.piped = false ∧ s3.pipeFd = s.pipeFd := by
    split at h3
    · next hpi =>
      simp only [EStateM.run_bind_ok, EStateM.run_modify_ok] at h3
      obtain ⟨_, s3', hs, rfl⟩ := h3
      obtain ⟨hi, hb, -⟩ := hb2.setFile hf hs
      obtain ⟨-, rfl⟩ := setFile_last hb2.apps hf hs
      exact ⟨_, ⟨hb.apps, hb.objects, hb.created, hb.vars, hb.sent⟩, hl2.set (.inl ⟨hpi, rfl⟩) rfl,
        by simp [hi, hpi], rfl, hq2⟩
    · next hpi =>
      simp only [EStateM.run_pure_ok] at h3
      obtain ⟨-, rfl⟩ := h3
      exact ⟨f2, hb2, hl2, by simp [hz2, hpi], by simpa [hpi] using hp2, hq2⟩
  obtain ⟨f3, hb3, hl3, hz3, hp3, hq3⟩ := hb3
  -- the pipe it writes to
  have hb4 : ∃ f4, Built s extra f4 s4 ∧ Filled s base f4 s4 ∧ f4[0]? = f3[0]? ∧ s4.piped = false ∧
      ((s.pipe = false ∧ s4.pipeFd = s.pipeFd) ∨ ∃ r, s4.pipeFd = some r ∧ r < s4.objects.length) := by
    split at h4
    · simp only [EStateM.run_bind_ok, EStateM.run_modify_ok] at h4
      obtain ⟨r, s4', ha, _, _, rfl, hs⟩ := h4
      obtain ⟨hb, hp⟩ := hb3.alloc ⟨rfl, rfl⟩ ha
      obtain ⟨hl, hr⟩ := hl3.alloc ha
      have hb' : Built s extra f3 { s4' with pipeFd := some r } := ⟨hb.apps, hb.objects, hb.created, hb.vars, hb.sent⟩
      obtain ⟨-, hb, hp'⟩ := hb'.setFile hf hs
      obtain ⟨-, rfl⟩ := setFile_last hb'.apps hf hs
      exact ⟨_, hb, hl.set (.inr ⟨r, rfl, hr⟩) rfl, by simp, hp'.trans (hp.trans hp3), .inr ⟨r, rfl, hr⟩⟩
    · next hpi =>
      simp only [EStateM.run_pure_ok] at h4
      obtain ⟨-, rfl⟩ := h4
      exact ⟨f3, hb3, hl3, rfl, hp3, .inl ⟨by simpa using hpi, hq3⟩⟩
  obtain ⟨f4, hb4, hl4, hz4, hp4, hq4⟩ := hb4
  simp only [setSm_ok, sendSm_ok] at h5
  obtain ⟨_, _, rfl, _, _, rfl, _, _, rfl, rfl, rfl⟩ := h5
  exact ⟨rfl, rfl, hp4, base, extra, f4, hin, ((hb4.setSm _).post _ _).setSm _, ⟨hl4.length, hl4.places⟩,
    hz4.trans hz3, hq4⟩

theorem startTask_spec {env : Env} {w : Wait ⊕ State} (hf : ∀ a ∈ s.apps, a.taskId ≠ s.newId)
    (h : startTaskHandle env s = .ok w t) :
    w = .inr .startTask ∧ Starts env.terminal s t ∧ t.sm.type = .kStartApp := by
  obtain ⟨hw, hsm, hp, base, first, files, hin, hb, -, hz, -⟩ := startTask_walk hf h
  exact ⟨hw, ⟨⟨base, first, files, hin, hb, hz⟩, hp⟩, hsm⟩

end Build

/-! ## `AllocateFDState` -/

theorem Touches.of_update {t : UInt64} {s : Server} (f : AppInfo → AppInfo) (objects : List FileDescriptor)
    (hf : ∀ a, (f a).taskId = a.taskId ∧ (f a).pTaskId = a.pTaskId ∧ (f a).state = a.state)
    (hc : ∀ r, closedAt objects r = closedAt s.objects r) :
    Touches t s { s with apps := modifyApp t f s.apps, objects := objects } where
  ids := map_taskId_modifyApp fun a => (hf a).1
  apps i a ha := by
    obtain ⟨a', ha', rfl | ⟨ht, rfl⟩⟩ := @modifyApp_getElem? t f _ _ _ ha
    · exact ⟨a', ha', rfl, rfl, rfl, fun _ => rfl⟩
    · exact ⟨f a, ha', (hf a).1, (hf a).2.1, (hf a).2.2, fun hn => absurd (getAppInfo_mem ht).2 hn⟩
  created := rfl
  piped := rfl
  closed := hc

theorem Touches.trans {t : UInt64} {a b c : Server} (h : Touches t a b) (h' : Touches t b c) : Touches t a c where
  ids := h'.ids.trans h.ids
  apps i x hx := by
    obtain ⟨y, hy, h1, h2, h3, h4⟩ := h.apps i x hx
    obtain ⟨z, hz, g1, g2, g3, g4⟩ := h'.apps i y hy
    refine ⟨z, hz, g1.trans h1, g2.trans h2, g3.trans h3, fun hn => ?_⟩
    rw [g4 (by rwa [h1]), h4 hn]
  created := h'.created.trans h.created
  piped := h'.piped.trans h.piped
  closed r := (h'.closed r).trans (h.closed r)

theorem Quiet.touches {t : UInt64} {s s' : Server} (h : Quiet s s') : Touches t s s' where
  ids := by rw [h.apps]
  apps i a ha := ⟨a, by rw [h.apps]; exact ha, rfl, rfl, rfl, fun _ => rfl⟩
  created := h.created
  piped := h.piped
  closed := h.closed

theorem allocateFD_spec {id : UInt64} {s s' : Server} {fd : Nat} (h : allocateFD id s = .ok fd s') :
    Touches id s s' := by
  simp only [allocateFD, EStateM.run_bind_ok, appInfo_ok] at h
  obtain ⟨a, _, ⟨ha, rfl⟩, h⟩ := h
  cases hi : a.files.findIdx? (·.isNone) with
  | some i =>
    simp only [hi, EStateM.run_pure_ok] at h
    obtain ⟨-, rfl⟩ := h
    exact (Quiet.refl s).touches
  | none =>
    simp only [hi, EStateM.run_bind_ok, updateApp_ok, EStateM.run_pure_ok] at h
    obtain ⟨_, _, rfl, -, rfl⟩ := h
    exact Touches.of_update _ _ (fun _ => ⟨rfl, rfl, rfl⟩) fun _ => rfl

/-- A new descriptor at a place of the table. -/
theorem newFile_spec {id : UInt64} {s s' : Server} {i : Nat} {d : FileDescriptor} {u : Unit} {ty : MsgType}
    {arg : Arg} (hd : closedAt [d] 0 = false)
    (h : (do let r ← alloc d; setFile id i (some r); setSm ty arg : ServerM Unit) s = .ok u s') :
    Touches id s s' ∧ s'.targetId = s.targetId := by
  simp only [EStateM.run_bind_ok, alloc_ok, setFile_ok, setSm_ok] at h
  obtain ⟨_, _, ⟨rfl, rfl⟩, _, _, ⟨a, ha, hi, rfl⟩, rfl⟩ := h
  refine ⟨?_, rfl⟩
  exact (Touches.of_update (fun a => { a with files := a.files.set i (some s.objects.length) }) (s.objects ++ [d])
    (fun _ => ⟨rfl, rfl, rfl⟩) (closedAt_append (by simpa using hd))).trans
      (Quiet.touches ⟨rfl, rfl, rfl, rfl, rfl, fun _ => rfl⟩)

theorem allocateFDHandle_spec {s s' : Server} {w : Wait ⊕ State} (h : allocateFDHandle s = .ok w s') :
    w = .inr .init ∧ Touches s.targetId s s' := by
  simp only [allocateFDHandle, EStateM.run_bind_ok, EStateM.run_get_ok] at h
  obtain ⟨_, _, ⟨rfl, rfl⟩, fd, s1, h1, h2⟩ := h
  have ht := allocateFD_spec h1
  by_cases hm : s.rm.type = .kOpenDir
  · simp only [hm, EStateM.run_bind_ok, EStateM.run_pure_ok] at h2
    obtain ⟨r, s2, ha, _, s3, hs, _, s4, hsm, rfl, rfl⟩ := h2
    have hn := newFile_spec rfl (EStateM.run_bind_ok.mpr ⟨r, s2, ha,
      EStateM.run_bind_ok.mpr ⟨_, s3, hs, hsm⟩⟩)
    exact ⟨rfl, ht.trans hn.1⟩
  · have h2' : ∃ r s2 u s3 u' s4, alloc (.newFat s.targetId (openArg s.rm).filename) s1 = .ok r s2 ∧
        setFile s.targetId fd (some r) s2 = .ok u s3 ∧ setSm .kOpen (.open { openArg s.sm with fd }) s3 = .ok u' s4 ∧
        .inr .init = w ∧ s4 = s' := by
      cases hty : s.rm.type <;> simp only [hty, reduceCtorEq, not_true_eq_false] at hm <;>
        simp only [hty, EStateM.run_bind_ok, EStateM.run_pure_ok] at h2 <;>
        obtain ⟨r, s2, ha, u, s3, hs, u', s4, hsm, hw, hs'⟩ := h2 <;>
        exact ⟨r, s2, u, s3, u', s4, ha, hs, hsm, hw, hs'⟩
    obtain ⟨r, s2, _, s3, _, s4, ha, hs, hsm, rfl, rfl⟩ := h2'
    have hn := newFile_spec rfl (EStateM.run_bind_ok.mpr ⟨r, s2, ha,
      EStateM.run_bind_ok.mpr ⟨_, s3, hs, hsm⟩⟩)
    exact ⟨rfl, ht.trans hn.1⟩

end Server

end KinOS.Am
