import KinOS.Am.Session

/-!
# The descriptors over a run

A descriptor keeps its kind and the id it was made for, whatever the server does; a pipe holds at most one message and
is not opened again. `Grows` is that, and every handler has it.
-/

namespace KinOS.Am

/-- A pipe holds at most the data of one message. -/
def FileDescriptor.Fit : FileDescriptor → Prop
  | .pipe p => p.len ≤ 16
  | _ => True

/-- A descriptor as its constructor leaves it. -/
def FileDescriptor.New : FileDescriptor → Prop
  | .pipe p => p.len = 0 ∧ p.closed = false
  | _ => True

inductive FileDescriptor.Evolves : FileDescriptor → FileDescriptor → Prop
  | terminal {id t : UInt64} : Evolves (.terminal id t) (.terminal id t)
  | fat {id : UInt64} {file file' : Fs.FatFileDescriptor} (h : file'.filename = file.filename) :
      Evolves (.fat id file) (.fat id file')
  | pipe {p p' : PipeFileDescriptor} (hid : p'.id = p.id) (hlen : p.len ≤ 16 → p'.len ≤ 16)
      (hclosed : p.closed = true → p'.closed = true) : Evolves (.pipe p) (.pipe p')

namespace FileDescriptor

theorem Evolves.refl : ∀ d : FileDescriptor, d.Evolves d
  | .terminal _ _ => .terminal
  | .fat _ _ => .fat rfl
  | .pipe _ => .pipe rfl (fun h => h) fun h => h

theorem Evolves.trans {a b c : FileDescriptor} (h : a.Evolves b) (h' : b.Evolves c) : a.Evolves c := by
  cases h with
  | terminal => exact h'
  | fat h =>
    cases h' with
    | fat h' => exact .fat (h'.trans h)
  | pipe h1 h2 h3 =>
    cases h' with
    | pipe g1 g2 g3 => exact .pipe (g1.trans h1) (fun hl => g2 (h2 hl)) fun hc => g3 (h3 hc)

theorem Evolves.fit {a b : FileDescriptor} (h : a.Evolves b) (hf : a.Fit) : b.Fit := by
  cases h with
  | terminal => trivial
  | fat _ => trivial
  | pipe _ h _ => exact h hf

theorem New.fit : ∀ {d : FileDescriptor}, d.New → d.Fit
  | .terminal _ _, _ => trivial
  | .fat _ _, _ => trivial
  | .pipe p, h => by
    change p.len ≤ 16
    rw [h.1]
    exact Nat.zero_le _

end FileDescriptor

namespace Server

open FileDescriptor

structure Grows (s s' : Server) : Prop where
  kept : ∀ (r : Ref) d, s.objects[r]? = some d → ∃ d', s'.objects[r]? = some d' ∧ d.Evolves d'
  fresh : ∀ (r : Ref) d, s.objects[r]? = none → s'.objects[r]? = some d → d.Fit

theorem Grows.of_eq {s s' : Server} (h : s'.objects = s.objects) : Grows s s' where
  kept r d hd := ⟨d, by rw [h]; exact hd, Evolves.refl d⟩
  fresh r d hn hd := by
    rw [h, hn] at hd
    cases hd

theorem Grows.trans {a b c : Server} (h : Grows a b) (h' : Grows b c) : Grows a c where
  kept r d hd := by
    obtain ⟨d', hd', he⟩ := h.kept r d hd
    obtain ⟨d'', hd'', he'⟩ := h'.kept r d' hd'
    exact ⟨d'', hd'', he.trans he'⟩
  fresh r d hn hd := by
    cases hb : b.objects[r]? with
    | none => exact h'.fresh r d hb hd
    | some d' =>
      obtain ⟨d'', hd'', he⟩ := h'.kept r d' hb
      rw [hd''] at hd
      cases hd
      exact he.fit (h.fresh r d' hn hb)

theorem Grows.store {s s' : Server} {r : Ref} {d d' : FileDescriptor} (h : s'.objects = s.objects.set r d')
    (hd : s.objects[r]? = some d) (he : d.Evolves d') : Grows s s' := by
  obtain ⟨hlt, -⟩ := List.getElem?_eq_some_iff.mp hd
  refine ⟨fun q x hx => ?_, fun q x hn hx => ?_⟩
  · rw [h]
    by_cases hq : r = q
    · subst hq
      rw [hd] at hx
      cases hx
      exact ⟨d', by simp [hlt], he⟩
    · exact ⟨x, by simpa [List.getElem?_set_ne hq] using hx, Evolves.refl x⟩
  · have hle : s.objects.length ≤ q := List.getElem?_eq_none_iff.mp hn
    rw [h, List.getElem?_eq_none (by simpa using hle)] at hx
    cases hx

theorem Grows.alloc {s : Server} {d : FileDescriptor} (hd : d.Fit) :
    Grows s { s with objects := s.objects ++ [d] } := by
  refine ⟨fun q x hx => ?_, fun q x hn hx => ?_⟩
  · obtain ⟨hlt, -⟩ := List.getElem?_eq_some_iff.mp hx
    exact ⟨x, by rw [List.getElem?_append_left hlt]; exact hx, Evolves.refl x⟩
  · rw [List.getElem?_append_right (List.getElem?_eq_none_iff.mp hn)] at hx
    rw [List.mem_singleton.mp (List.mem_of_getElem? hx)]
    exact hd

/-! ## A relation that every handler keeps -/

/-- A relation between the server before and after: kept by what the handlers do to `objects` and to `sent`, it is kept
by whatever message comes. -/
structure Frame (R : Server → Server → Prop) : Prop where
  trans : ∀ {a b c}, R a b → R b c → R a c
  same : ∀ {s s' : Server}, s'.id = s.id → s'.objects = s.objects → s'.sent = s.sent → R s s'
  post : ∀ s m id, R s (s.post m id)
  alloc : ∀ s d, d.New → R s { s with objects := s.objects ++ [d] }
  file : ∀ {s : Server} {r : Ref} {id : UInt64} {file file' : Fs.FatFileDescriptor},
    s.objects[r]? = some (.fat id file) → file'.filename = file.filename →
    R s { s with objects := s.objects.set r (.fat id file') }
  read : ∀ {s s' : Server} {r : Ref} {p : PipeFileDescriptor} {m : Message} {u : Unit},
    s.objects[r]? = some (.pipe p) → pipeRead r p m s = .ok u s' → R s s'
  write : ∀ {s s' : Server} {r : Ref} {p : PipeFileDescriptor} {m : Message} {u : Unit},
    s.objects[r]? = some (.pipe p) → pipeWrite r p m s = .ok u s' → R s s'
  close : ∀ {s : Server} {r : Ref} {p : PipeFileDescriptor}, s.objects[r]? = some (.pipe p) →
    R s ({ s with objects := s.objects.set r (.pipe { p with closed := true }) }.post ⟨.kError, 0, .error false 0⟩ p.id)

namespace Frame

variable {R : Server → Server → Prop} (F : Frame R) {α β : Type} {x : ServerM α}
include F

theorem bind {f : α → ServerM β} (hx : EStateM.Keeps R x) (hf : ∀ a, EStateM.Keeps R (f a)) :
    EStateM.Keeps R (x >>= f) :=
  EStateM.Keeps.bind (R := R) (fun h h' => F.trans h h') hx hf

theorem pure {a : α} : EStateM.Keeps R (pure a : ServerM α) := EStateM.Keeps.pure fun _ => F.same rfl rfl rfl

theorem get : EStateM.Keeps R (get : ServerM Server) := EStateM.Keeps.get fun _ => F.same rfl rfl rfl

/-- A change of other members. -/
theorem modify {g : Server → Server} (h : ∀ s, (g s).id = s.id ∧ (g s).objects = s.objects ∧ (g s).sent = s.sent) :
    EStateM.Keeps R (modify g : ServerM Unit) :=
  EStateM.Keeps.modify fun s => F.same (h s).1 (h s).2.1 (h s).2.2

theorem send {m : Message} {id : UInt64} : EStateM.Keeps R (send m id) := EStateM.Keeps.modify fun s => F.post s m id

theorem sendError {b : Bool} {id : UInt64} : EStateM.Keeps R (sendError b id) := F.send

theorem sendSm {id : UInt64} : EStateM.Keeps R (sendSm id) := EStateM.Keeps.modify fun s => F.post s s.sm id

theorem setSm {t : MsgType} {a : Arg} : EStateM.Keeps R (setSm t a) := F.modify fun _ => ⟨rfl, rfl, rfl⟩

theorem setError {e : Int} : EStateM.Keeps R (setError e) := F.setSm

theorem updateApp {id : UInt64} {f : AppInfo → AppInfo} : EStateM.Keeps R (updateApp id f) :=
  F.modify fun _ => ⟨rfl, rfl, rfl⟩

theorem appInfo {id : UInt64} : EStateM.Keeps R (appInfo id) := by
  refine F.bind F.get fun s => ?_
  split
  · exact F.pure
  · exact EStateM.Keeps.throw

theorem setFile {id : UInt64} {i : Nat} {p : Option Ref} : EStateM.Keeps R (setFile id i p) :=
  F.bind F.appInfo fun _ => EStateM.Keeps.ite F.updateApp EStateM.Keeps.throw

theorem new {d : FileDescriptor} (hd : d.New) : EStateM.Keeps R (Server.alloc d) := by
  intro s r s' h
  simp only [alloc_ok] at h
  obtain ⟨-, rfl⟩ := h
  exact F.alloc s d hd

/-! ### The descriptors -/

omit F in
/-- A descriptor is looked up and something is done with it. -/
theorem deref_bind {r : Ref} {f : FileDescriptor → ServerM α}
    (hf : ∀ d s a s', s.objects[r]? = some d → f d s = .ok a s' → R s s') :
    EStateM.Keeps R (do let d ← deref r; f d) := by
  intro s a s' h
  simp only [EStateM.run_bind_ok, deref_ok] at h
  obtain ⟨d, _, ⟨hd, rfl⟩, h⟩ := h
  exact hf d s a s' hd h

theorem forwardWrite {s s' : Server} {r : Ref} {id f : UInt64} {file : Fs.FatFileDescriptor} {m : Message}
    {u : Unit} (hd : s.objects[r]? = some (.fat id file)) (h : forwardWrite r id file f m s = .ok u s') : R s s' := by
  simp only [Server.forwardWrite, EStateM.run_bind_ok] at h
  obtain ⟨_, s₁, h1, _, s₂, h2, h3⟩ := h
  have hobj : s₁.objects[r]? = some (.fat id file) := by
    simp only [send_ok] at h1
    subst h1
    exact hd
  have hset : R s₁ s₂ := by
    simp only [store_ok] at h2
    subst h2
    exact F.file hobj rfl
  exact F.trans (F.send _ _ _ h1) (F.trans hset (F.send _ _ _ h3))

theorem readFd {env : Env} {r : Ref} {m : Message} : EStateM.Keeps R (readFd env r m) := by
  refine deref_bind fun d s a s' hd h => ?_
  cases d with
  | terminal id t => exact F.bind F.send (fun _ => F.pure) _ _ _ h
  | fat id file =>
    cases hf : env.fs with
    | none =>
      simp only [hf] at h
      exact F.bind F.send (fun _ => F.pure) _ _ _ h
    | some f =>
      simp only [hf] at h
      exact F.bind F.send (fun _ => F.pure) _ _ _ h
  | pipe p =>
    simp only [EStateM.run_bind_ok, EStateM.run_pure_ok] at h
    obtain ⟨_, _, h, -, rfl⟩ := h
    exact F.read hd h

theorem writeFd {env : Env} {r : Ref} {m : Message} : EStateM.Keeps R (writeFd env r m) := by
  refine deref_bind fun d s a s' hd h => ?_
  cases d with
  | terminal id t => exact F.bind F.send (fun _ => F.bind F.send fun _ => F.pure) _ _ _ h
  | fat id file =>
    cases hf : env.fs with
    | none =>
      simp only [hf] at h
      exact F.bind F.send (fun _ => F.pure) _ _ _ h
    | some f =>
      simp only [hf, EStateM.run_bind_ok, EStateM.run_pure_ok] at h
      obtain ⟨_, _, h, -, rfl⟩ := h
      exact F.forwardWrite hd h
  | pipe p =>
    simp only [EStateM.run_bind_ok, EStateM.run_pure_ok] at h
    obtain ⟨_, _, h, -, rfl⟩ := h
    exact F.write hd h

/-! ### The states -/

theorem closeFd {r : Ref} : EStateM.Keeps R (Server.close r) := by
  refine deref_bind fun d s a s' hd h => ?_
  cases d with
  | terminal _ _ | fat _ _ => exact F.pure _ _ _ h
  | pipe p =>
    simp only [EStateM.run_bind_ok, store_ok, sendError_ok] at h
    obtain ⟨_, _, rfl, rfl⟩ := h
    exact F.close hd

theorem closeAll : ∀ ps : List (Option Ref), EStateM.Keeps R (closeAll ps)
  | [] => F.pure
  | none :: _ => EStateM.Keeps.throw
  | some _ :: ps => F.bind F.closeFd fun _ => closeAll ps

theorem exitApps {id : UInt64} : ∀ as : List AppInfo, EStateM.Keeps R (exitApps id as)
  | [] => F.pure
  | a :: as => by
    refine F.bind (EStateM.Keeps.ite ?_ F.pure) fun _ => F.bind (exitApps as) fun _ => F.pure
    exact F.bind (F.closeAll a.files) fun _ => F.pure

theorem newApp {terminal id p : UInt64} : EStateM.Keeps R (newApp terminal id p) := by
  have hterm : EStateM.Keeps R (initializeFileDescriptor terminal id) := by
    refine F.bind ?_ fun _ => F.bind ?_ fun _ => F.bind ?_ fun _ => F.pure
    all_goals exact F.bind (F.new (by trivial)) fun _ => F.updateApp
  refine F.bind F.get fun s => F.bind (F.modify fun _ => ⟨rfl, rfl, rfl⟩) fun _ => EStateM.Keeps.ite hterm ?_
  refine F.bind F.get fun s => ?_
  split
  · exact EStateM.Keeps.ite EStateM.Keeps.throw F.updateApp
  · exact F.pure

theorem startTaskHandle {env : Env} : EStateM.Keeps R (startTaskHandle env) := by
  refine F.bind F.get fun s => F.bind F.newApp fun _ => F.bind (EStateM.Keeps.ite ?_ F.pure) fun _ =>
    F.bind (EStateM.Keeps.ite ?_ F.pure) fun _ => F.bind (EStateM.Keeps.ite ?_ F.pure) fun _ => ?_
  · exact F.bind (F.new (by trivial)) fun _ => F.setFile
  · exact F.bind F.setFile fun _ => F.modify fun _ => ⟨rfl, rfl, rfl⟩
  · refine F.bind (F.new (by exact ⟨rfl, rfl⟩)) fun _ => F.bind (F.modify fun _ => ⟨rfl, rfl, rfl⟩) fun _ => ?_
    exact F.setFile
  · exact F.bind F.setSm fun _ => F.bind F.sendSm fun _ => F.bind F.setSm fun _ => F.pure

theorem requestFile : EStateM.Keeps R requestFile := F.bind F.get fun _ => F.bind F.setSm fun _ => F.pure

theorem createTaskHandle {env : Env} : EStateM.Keeps R (createTaskHandle env) := by
  refine F.bind F.get fun s => ?_
  split
  · exact F.bind F.setError fun _ => F.bind F.sendSm fun _ => F.bind F.sendSm fun _ => F.pure
  · exact F.bind F.setSm fun _ => F.bind (F.modify fun _ => ⟨rfl, rfl, rfl⟩) fun _ => F.pure

theorem openHandle : EStateM.Keeps R openHandle := by
  refine F.bind F.get fun s => F.bind (F.modify fun _ => ⟨rfl, rfl, rfl⟩) fun _ => ?_
  split
  · exact F.bind F.setSm fun _ => F.pure
  · refine EStateM.Keeps.ite ?_ ?_
    · exact F.bind F.setSm fun _ => F.pure
    · exact F.bind F.setSm fun _ => F.pure

theorem allocateFDHandle : EStateM.Keeps R allocateFDHandle := by
  have hfd : ∀ id, EStateM.Keeps R (allocateFD id) := by
    refine fun id => F.bind F.appInfo fun a => ?_
    split
    · exact F.pure
    · exact F.bind F.updateApp fun _ => F.pure
  refine F.bind F.get fun s => F.bind (hfd _) fun fd => ?_
  split
  · exact F.bind (F.new (by trivial)) fun _ => F.bind F.setFile fun _ => F.bind F.setSm fun _ => F.pure
  · exact F.bind (F.new (by trivial)) fun _ => F.bind F.setFile fun _ => F.bind F.setSm fun _ => F.pure

theorem fdHandle {fd : Message → Int} {act : Ref → Message → ServerM (Option Wait)} {this : State}
    (ha : ∀ r x, EStateM.Keeps R (act r x)) : EStateM.Keeps R (fdHandle fd act this) := by
  refine F.bind F.get fun s => F.bind (F.modify fun _ => ⟨rfl, rfl, rfl⟩) fun _ => F.bind F.appInfo fun a => ?_
  split
  · exact F.bind F.setError fun _ => F.pure
  · refine F.bind (ha _ _) fun o => ?_
    split
    · exact F.pure
    · exact F.pure

theorem waitingKeyHandle : EStateM.Keeps R waitingKeyHandle := by
  refine F.bind F.get fun s => EStateM.Keeps.ite ?_ ?_
  · exact F.bind (F.modify fun _ => ⟨rfl, rfl, rfl⟩) fun _ => F.pure
  · exact F.bind (F.modify fun _ => ⟨rfl, rfl, rfl⟩) fun _ => F.bind F.sendSm fun _ => F.bind F.appInfo fun a =>
      F.bind (F.modify fun _ => ⟨rfl, rfl, rfl⟩) fun _ => F.pure

theorem handleMessage {env : Env} (st : State) : EStateM.Keeps R (handleMessage env st) := by
  cases st with
  | execFile =>
    refine F.bind F.get fun s => F.bind (F.modify fun _ => ⟨rfl, rfl, rfl⟩) fun _ => ?_
    exact EStateM.Keeps.ite F.pure F.requestFile
  | createTask => exact F.createTaskHandle
  | startTask => exact F.startTaskHandle
  | redirect => exact F.bind F.get fun _ => F.bind F.setSm fun _ => F.pure
  | exit =>
    refine F.bind F.get fun s => F.bind (F.modify fun _ => ⟨rfl, rfl, rfl⟩) fun _ => EStateM.Keeps.ite ?_ F.pure
    refine F.bind ?_ fun _ => F.bind F.setSm fun _ => F.pure
    exact F.bind F.get fun s => F.bind (F.exitApps s.apps) fun _ => F.modify fun _ => ⟨rfl, rfl, rfl⟩
  | «open» => exact F.openHandle
  | allocateFD => exact F.allocateFDHandle
  | read => exact @Frame.fdHandle _ F (fun m => (readArg m).fd) (Server.readFd env) .read fun _ _ => F.readFd
  | write => exact @Frame.fdHandle _ F (fun m => (writeArg m).fd) (Server.writeFd env) .write fun _ _ => F.writeFd
  | waitingKey => exact F.waitingKeyHandle
  | err | init | pipe => exact F.pure

theorem sendMessage (st : State) : EStateM.Keeps R (sendMessage st) := by
  cases st with
  | err | read | write | pipe | allocateFD => exact F.pure
  | init => exact F.bind F.get fun _ => F.bind F.sendSm fun _ => F.pure
  | startTask =>
    refine F.bind F.sendSm fun _ => F.bind F.get fun s => EStateM.Keeps.ite ?_ F.pure
    exact F.bind (F.modify fun _ => ⟨rfl, rfl, rfl⟩) fun _ => F.bind F.sendSm fun _ => F.pure
  | exit =>
    exact F.bind F.get fun s => F.bind F.sendSm fun _ => F.bind (F.modify fun _ => ⟨rfl, rfl, rfl⟩) fun _ =>
      F.bind F.sendSm fun _ => F.pure
  | waitingKey =>
    refine F.bind F.get fun s => EStateM.Keeps.ite ?_ ?_
    · exact F.bind F.sendSm fun _ => F.pure
    · exact F.bind F.sendSm fun _ => F.pure
  | execFile | createTask | redirect | «open» => exact F.bind F.get fun _ => F.bind F.sendSm fun _ => F.pure

theorem finish : ∀ w : Wait ⊕ State, EStateM.Keeps R (finish w)
  | .inl _ => F.pure
  | .inr st => F.bind (F.sendMessage st) fun _ => F.pure

theorem errorFromFs {e : Option Int} : EStateM.Keeps R (errorFromFs e) := by
  refine F.bind F.get fun s => EStateM.Keeps.ite ?_ ?_
  · exact F.bind F.sendSm fun _ => F.pure
  · exact F.bind F.setError fun _ => F.bind F.sendSm fun _ => F.pure

theorem receiveMessage {env : Env} (st : State) : EStateM.Keeps R (receiveMessage env st) := by
  cases st with
  | init =>
    simp only [Server.receiveMessage]
    split
    · exact F.bind F.setError fun _ => F.pure
    · refine F.bind (F.modify fun _ => ⟨rfl, rfl, rfl⟩) fun _ => F.bind F.get fun s => ?_
      split
      all_goals first | exact F.pure | exact EStateM.Keeps.throw
  | execFile | createTask | redirect | «open» =>
    refine F.bind F.get fun s => ?_
    split
    all_goals first | exact F.errorFromFs | exact F.pure
  | pipe =>
    refine F.bind F.get fun s => ?_
    split
    · exact F.bind (F.modify fun _ => ⟨rfl, rfl, rfl⟩) fun _ => F.pure
    · exact F.pure
  | waitingKey =>
    refine F.bind F.get fun s => ?_
    split
    · exact F.pure
    · exact F.pure
    · exact F.bind F.sendError fun _ => F.pure
  | _ => exact F.pure

theorem resume {env : Env} {m : Message} (w : Wait) : EStateM.Keeps R (resume env w m) := by
  have hturn : ∀ st, EStateM.Keeps R (turn env st) := fun st => F.bind (F.handleMessage st) F.finish
  cases w with
  | receive st =>
    refine F.bind (F.modify fun _ => ⟨rfl, rfl, rfl⟩) fun _ => F.bind (F.receiveMessage st) fun o => ?_
    split
    · exact F.pure
    · exact hturn _
  | redirectName =>
    exact F.bind (F.modify fun _ => ⟨rfl, rfl, rfl⟩) fun _ => F.bind F.requestFile F.finish
  | terminalRead id t =>
    refine F.bind ?_ fun _ => F.finish _
    split
    · exact F.bind F.send fun _ => F.send
    · exact F.sendError
  | fatRead r f =>
    refine deref_bind fun d s a s' hd h => ?_
    cases d with
    | fat id file =>
      simp only [EStateM.run_bind_ok, send_ok] at h
      obtain ⟨_, _, rfl, h⟩ := h
      refine F.trans (F.post s m id) ?_
      split at h
      · simp only [EStateM.run_bind_ok, store_ok, EStateM.run_pure_ok] at h
        obtain ⟨_, _, rfl, -, rfl⟩ := h
        exact F.file hd rfl
      · exact F.finish _ _ _ _ h
    | terminal _ _ | pipe _ => exact EStateM.Keeps.throw _ _ _ h
  | fatWrite r f =>
    refine deref_bind fun d s a s' hd h => ?_
    cases d with
    | fat id file =>
      by_cases hm : m.type = .kWrite
      · simp only [hm, if_true, EStateM.run_bind_ok] at h
        obtain ⟨_, s₁, h1, h2⟩ := h
        refine F.trans (F.forwardWrite hd h1) ?_
        exact EStateM.Keeps.ite (F.finish _) F.pure _ _ _ h2
      · simp only [hm, if_false] at h
        exact F.pure _ _ _ h
    | terminal _ _ | pipe _ => exact EStateM.Keeps.throw _ _ _ h

/-- Whatever message comes. -/
theorem deliver {env : Env} {m : Message} (w : Wait) : EStateM.Keeps R (deliver env w m) := by
  refine F.bind F.get fun s => ?_
  split
  · exact F.resume w
  · exact EStateM.Keeps.ite (F.resume w) (F.bind F.sendError fun _ => F.pure)

end Frame

theorem pipeRead_grows {s s' : Server} {r : Ref} {p : PipeFileDescriptor} {m : Message} {u : Unit}
    (hd : s.objects[r]? = some (.pipe p)) (h : pipeRead r p m s = .ok u s') : Grows s s' := by
  have hpost : ∀ (t : Server) (x : Message) (id : UInt64), Grows t (t.post x id) := fun _ _ _ => .of_eq rfl
  unfold pipeRead at h
  split at h
  · simp only [send_ok] at h
    exact h ▸ hpost _ _ _
  split at h
  · simp only [sendError_ok] at h
    exact h ▸ hpost _ _ _
  split at h
  · simp only [EStateM.run_bind_ok, store_ok, send_ok] at h
    obtain ⟨_, _, rfl, _, _, rfl, _, _, rfl, rfl⟩ := h
    exact .store rfl hd (.pipe rfl (fun _ => Nat.zero_le _) fun h => h)
  · simp only [EStateM.run_bind_ok, store_ok, send_ok] at h
    obtain ⟨_, _, rfl, _, _, rfl, rfl⟩ := h
    exact .store rfl hd (.pipe rfl (fun hl => Nat.le_trans (Nat.sub_le _ _) hl) fun h => h)

theorem pipeWrite_grows {s s' : Server} {r : Ref} {p : PipeFileDescriptor} {m : Message} {u : Unit}
    (hd : s.objects[r]? = some (.pipe p)) (h : pipeWrite r p m s = .ok u s') : Grows s s' := by
  have hpost : ∀ (t : Server) (x : Message) (id : UInt64), Grows t (t.post x id) := fun _ _ _ => .of_eq rfl
  unfold pipeWrite at h
  split at h
  · simp only [sendError_ok] at h
    exact h ▸ hpost _ _ _
  split at h
  · split at h
    · split at h
      · simp at h
      · next hl =>
        simp only [store_ok] at h
        subst h
        exact .store rfl hd (.pipe rfl (fun _ => Nat.le_of_not_lt hl) fun h => h)
    · simp only [send_ok] at h
      exact h ▸ hpost _ _ _
  · simp only [sendError_ok] at h
    exact h ▸ hpost _ _ _

theorem frame_grows : Frame Grows where
  trans h h' := h.trans h'
  same _ h _ := .of_eq h
  post _ _ _ := .of_eq rfl
  alloc _ _ hd := .alloc (New.fit hd)
  file hd hname := .store rfl hd (.fat hname)
  read := pipeRead_grows
  write := pipeWrite_grows
  close hd := .store rfl hd (.pipe rfl (fun h => h) fun _ => rfl)

end Server

namespace Session

/-- Every pipe fits one message. -/
def Fits (x : Session) : Prop := ∀ (r : Ref) d, x.server.objects[r]? = some d → d.Fit

theorem next_fits {x x' : Session} {e : Event} (hf : x.Fits) (h : x.next e = some x') : x'.Fits := by
  obtain ⟨-, hd, -, -⟩ := next_some h
  have hg := Server.frame_grows.deliver _ _ _ _ hd
  intro r d hr
  cases hx : x.server.objects[r]? with
  | none => exact hg.fresh r d hx hr
  | some d' =>
    obtain ⟨d'', hr', he⟩ := hg.kept r d' hx
    rw [hr] at hr'
    cases hr'
    exact he.fit (hf r d' hx)

theorem Boot.exec_fits {b x : Session} {es : List Event} (hb : b.Boot)
    (h : TransitionSystem.exec next b es = some x) : x.Fits := by
  refine TransitionSystem.exec_invariant next (fun _ _ _ => next_fits) es (fun r d hr => ?_) h
  rw [hb.objects] at hr
  cases hr

end Session

end KinOS.Am
