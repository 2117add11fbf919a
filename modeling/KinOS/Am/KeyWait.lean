import KinOS.Am.Requests

/-!
# The key that an application waits for

| here | there |
| --- | --- |
| `SameKeys`   | `WaitingKeyState` is one object: no other state looks at `waiting_` and `waiting_id_` (`serverstate.hpp:199-211`) |
| `Exchanged`  | what a `kWaitingKey` request brings about (`serverstate.cpp:462-509`, `apps/more/more.cpp:9-50`) |
| `KeyOrQuit`  | the terminal answers `kWaitingKey` with `kKeyPush` or `kQuit` and nothing else (`servers/terminal/terminal.cpp:416-428`) |

`waiting_` is set by the request and cleared by the key. When something else comes instead of the key the server goes back
to `InitState` and `waiting_` stays set, so that the next request is taken for the key.
-/

namespace KinOS.Am

open TransitionSystem

namespace Server

variable {s s' : Server} {env : Env} {m : Message} {w : Wait} {st : State}

/-! ## The other states -/

def SameKeys (s s' : Server) : Prop := s'.waiting = s.waiting ∧ s'.waitingId = s.waitingId

theorem SameKeys.refl (s : Server) : SameKeys s s := ⟨rfl, rfl⟩

theorem SameKeys.trans {a b c : Server} (h : SameKeys a b) (h' : SameKeys b c) : SameKeys a c :=
  ⟨h'.1.trans h.1, h'.2.trans h.2⟩

/-- `waiting_` and `waiting_id_` are left alone, and `x` returns something in `P`. -/
abbrev KeyM {α : Type} (P : α → Prop) (x : ServerM α) : Prop := EStateM.Gives SameKeys P x

namespace KeyM

variable {α β : Type} {P : α → Prop} {Q : β → Prop} {x : ServerM α}

theorem bind_of {f : α → ServerM β} (hx : KeyM P x) (hf : ∀ a, P a → KeyM Q (f a)) : KeyM Q (x >>= f) :=
  EStateM.Gives.bind (fun h h' => h.trans h') hx hf

theorem bind {f : α → ServerM β} (hx : KeyM (fun _ => True) x) (hf : ∀ a, KeyM Q (f a)) : KeyM Q (x >>= f) :=
  bind_of hx fun a _ => hf a

theorem pure {a : α} (ha : P a) : KeyM P (pure a : ServerM α) := EStateM.Gives.pure .refl ha

theorem throw {e : Undefined} : KeyM P (throw e : ServerM α) := EStateM.Gives.throw

theorem get : KeyM (fun _ => True) (get : ServerM Server) := .of_keeps (.get .refl)

theorem modify {g : Server → Server} (h : ∀ s, SameKeys s (g s)) : KeyM (fun _ => True) (modify g : ServerM Unit) :=
  .of_keeps (.modify h)

theorem send {m : Message} {id : UInt64} : KeyM (fun _ => True) (send m id) := modify fun _ => ⟨rfl, rfl⟩

theorem sendError {b : Bool} {id : UInt64} : KeyM (fun _ => True) (sendError b id) := send

theorem sendSm {id : UInt64} : KeyM (fun _ => True) (sendSm id) := modify fun _ => ⟨rfl, rfl⟩

theorem setSm {t : MsgType} {a : Arg} : KeyM (fun _ => True) (setSm t a) := modify fun _ => ⟨rfl, rfl⟩

theorem setError {e : Int} : KeyM (fun _ => True) (setError e) := setSm

theorem store {r : Ref} {d : FileDescriptor} : KeyM (fun _ => True) (store r d) := modify fun _ => ⟨rfl, rfl⟩

theorem updateApp {id : UInt64} {f : AppInfo → AppInfo} : KeyM (fun _ => True) (updateApp id f) :=
  modify fun _ => ⟨rfl, rfl⟩

theorem alloc {d : FileDescriptor} : KeyM (fun _ => True) (alloc d) := by
  intro s r s' h
  simp only [alloc_ok] at h
  exact h.2 ▸ ⟨⟨rfl, rfl⟩, trivial⟩

theorem deref {r : Ref} : KeyM (fun _ => True) (deref r) := by
  refine bind get fun s => ?_
  split
  · exact pure trivial
  · exact throw

theorem appInfo {id : UInt64} : KeyM (fun _ => True) (appInfo id) := by
  refine bind get fun s => ?_
  split
  · exact pure trivial
  · exact throw

theorem setFile {id : UInt64} {i : Nat} {p : Option Ref} : KeyM (fun _ => True) (setFile id i p) :=
  bind appInfo fun _ => .ite updateApp throw

/-! ### Descriptors and tables -/

theorem pipeRead {r : Ref} {p : PipeFileDescriptor} {x : Message} : KeyM (fun _ => True) (pipeRead r p x) :=
  .ite send (.ite sendError (.ite (bind store fun _ => bind send fun _ => bind send fun _ => send)
    (bind store fun _ => bind send fun _ => send)))

theorem pipeWrite {r : Ref} {p : PipeFileDescriptor} {x : Message} : KeyM (fun _ => True) (pipeWrite r p x) :=
  .ite sendError (.ite (.ite (.ite throw store) send) sendError)

theorem forwardWrite {r : Ref} {id f : UInt64} {file : Fs.FatFileDescriptor} {x : Message} :
    KeyM (fun _ => True) (forwardWrite r id file f x) :=
  bind send fun _ => bind store fun _ => send

theorem readFd {r : Ref} {x : Message} : KeyM (· ≠ some (.receive .waitingKey)) (readFd env r x) := by
  refine bind deref fun d => ?_
  cases d with
  | terminal id t => exact bind send fun _ => pure (by simp)
  | fat id file =>
    simp only
    split
    · exact bind send fun _ => pure (by simp)
    · exact bind send fun _ => pure (by simp)
  | pipe p => exact bind pipeRead fun _ => pure (by simp)

theorem writeFd {r : Ref} {x : Message} : KeyM (· ≠ some (.receive .waitingKey)) (writeFd env r x) := by
  refine bind deref fun d => ?_
  cases d with
  | terminal id t => exact bind send fun _ => bind send fun _ => pure (by simp)
  | fat id file =>
    simp only
    split
    · exact bind send fun _ => pure (by simp)
    · exact bind forwardWrite fun _ => pure (by simp)
  | pipe p => exact bind pipeWrite fun _ => pure (by simp)

theorem closeAll : ∀ ps : List (Option Ref), KeyM (fun _ => True) (closeAll ps)
  | [] => pure trivial
  | none :: _ => throw
  | some r :: ps => by
    refine bind (bind deref fun d => ?_) fun _ => closeAll ps
    cases d with
    | terminal _ _ | fat _ _ => exact pure trivial
    | pipe p => exact bind store fun _ => sendError

theorem exitApps {id : UInt64} : ∀ as : List AppInfo, KeyM (fun _ => True) (exitApps id as)
  | [] => pure trivial
  | a :: as => bind (.ite (bind (closeAll a.files) fun _ => pure trivial) (pure trivial)) fun _ =>
    bind (exitApps as) fun _ => pure trivial

theorem newApp {terminal id p : UInt64} : KeyM (fun _ => True) (newApp terminal id p) := by
  have hterm : KeyM (fun _ => True) (initializeFileDescriptor terminal id) := by
    refine bind ?_ fun _ => bind ?_ fun _ => bind ?_ fun _ => pure trivial
    all_goals exact bind alloc fun _ => updateApp
  refine bind get fun s => bind (modify fun _ => ⟨rfl, rfl⟩) fun _ => .ite hterm (bind get fun s => ?_)
  split
  · exact .ite throw updateApp
  · exact pure trivial

/-! ### The handlers -/

/-- Not on to the receive of `WaitingKeyState`, and not to its `SendMessage`. -/
def Elsewhere : Wait ⊕ State → Prop
  | .inl w => w ≠ .receive .waitingKey
  | .inr st => st ≠ .waitingKey

theorem requestFile : KeyM Elsewhere requestFile :=
  bind get fun _ => bind setSm fun _ => pure (by simp [Elsewhere])

theorem createTaskHandle : KeyM Elsewhere (createTaskHandle env) := by
  refine bind get fun s => ?_
  split
  · exact bind setError fun _ => bind sendSm fun _ => bind sendSm fun _ => pure (by simp [Elsewhere])
  · exact bind setSm fun _ => bind (modify fun _ => ⟨rfl, rfl⟩) fun _ => pure (by simp [Elsewhere])

theorem startTaskHandle : KeyM Elsewhere (startTaskHandle env) := by
  refine bind get fun s => bind newApp fun _ => bind (.ite ?_ (pure trivial)) fun _ =>
    bind (.ite ?_ (pure trivial)) fun _ => bind (.ite ?_ (pure trivial)) fun _ => ?_
  · exact bind alloc fun _ => setFile
  · exact bind setFile fun _ => modify fun _ => ⟨rfl, rfl⟩
  · exact bind alloc fun _ => bind (modify fun _ => ⟨rfl, rfl⟩) fun _ => setFile
  · exact bind setSm fun _ => bind sendSm fun _ => bind setSm fun _ => pure (by simp [Elsewhere])

theorem exitHandle : KeyM Elsewhere exitHandle := by
  refine bind get fun s => bind (modify fun _ => ⟨rfl, rfl⟩) fun _ => .ite ?_ (pure (by simp [Elsewhere]))
  refine bind ?_ fun _ => bind setSm fun _ => pure (by simp [Elsewhere])
  exact bind get fun s => bind (exitApps s.apps) fun _ => modify fun _ => ⟨rfl, rfl⟩

theorem openHandle : KeyM Elsewhere openHandle := by
  refine bind get fun s => bind (modify fun _ => ⟨rfl, rfl⟩) fun _ => ?_
  split
  · exact bind setSm fun _ => pure (by simp [Elsewhere])
  · exact .ite (bind setSm fun _ => pure (by simp [Elsewhere])) (bind setSm fun _ => pure (by simp [Elsewhere]))

theorem allocateFDHandle : KeyM Elsewhere allocateFDHandle := by
  have hfd : ∀ id, KeyM (fun _ => True) (allocateFD id) := by
    refine fun id => bind appInfo fun a => ?_
    split
    · exact pure trivial
    · exact bind updateApp fun _ => pure trivial
  refine bind get fun s => bind (hfd _) fun fd => ?_
  split
  · exact bind alloc fun _ => bind setFile fun _ => bind setSm fun _ => pure (by simp [Elsewhere])
  · exact bind alloc fun _ => bind setFile fun _ => bind setSm fun _ => pure (by simp [Elsewhere])

theorem fdHandle {fd : Message → Int} {act : Ref → Message → ServerM (Option Wait)} {this : State}
    (ht : this ≠ .waitingKey) (ha : ∀ r x, KeyM (· ≠ some (.receive .waitingKey)) (act r x)) :
    KeyM Elsewhere (fdHandle fd act this) := by
  refine bind get fun s => bind (modify fun _ => ⟨rfl, rfl⟩) fun _ => bind appInfo fun a => ?_
  split
  · exact bind setError fun _ => pure (by simp [Elsewhere])
  · refine bind_of (ha _ _) fun o ho => ?_
    cases o with
    | none => exact pure ht
    | some w => exact pure fun hw => ho (congrArg some hw)

theorem handleMessage (hst : st ≠ .waitingKey) : KeyM Elsewhere (handleMessage env st) := by
  cases st with
  | execFile =>
    refine bind get fun s => bind (modify fun _ => ⟨rfl, rfl⟩) fun _ => ?_
    exact .ite (pure (by simp [Elsewhere])) requestFile
  | createTask => exact createTaskHandle
  | startTask => exact startTaskHandle
  | redirect => exact bind get fun _ => bind setSm fun _ => pure (by simp [Elsewhere])
  | exit => exact exitHandle
  | «open» => exact openHandle
  | allocateFD => exact allocateFDHandle
  | read => exact @fdHandle (fun m => (readArg m).fd) (Server.readFd env) .read (by simp) fun _ _ => readFd
  | write => exact @fdHandle (fun m => (writeArg m).fd) (Server.writeFd env) .write (by simp) fun _ _ => writeFd
  | waitingKey => exact absurd rfl hst
  | err | init | pipe => exact pure (by simp [Elsewhere])

theorem sendMessage (hst : st ≠ .waitingKey) : KeyM (· ≠ .waitingKey) (sendMessage st) := by
  cases st with
  | err | read | write | pipe | allocateFD => exact pure (by simp)
  | startTask =>
    refine bind sendSm fun _ => bind get fun s => .ite ?_ (pure (by simp))
    exact bind (modify fun _ => ⟨rfl, rfl⟩) fun _ => bind sendSm fun _ => pure (by simp)
  | exit =>
    exact bind get fun s => bind sendSm fun _ => bind (modify fun _ => ⟨rfl, rfl⟩) fun _ =>
      bind sendSm fun _ => pure (by simp)
  | waitingKey => exact absurd rfl hst
  | init | execFile | createTask | redirect | «open» => exact bind get fun _ => bind sendSm fun _ => pure (by simp)

theorem finish : ∀ r : Wait ⊕ State, Elsewhere r → KeyM (· ≠ .receive .waitingKey) (finish r)
  | .inl _, h => pure h
  | .inr _, h => bind_of (sendMessage h) fun _ hst => pure fun he => hst (Wait.receive.inj he)

theorem turn (hst : st ≠ .waitingKey) : KeyM (· ≠ .receive .waitingKey) (turn env st) :=
  bind_of (handleMessage hst) finish

theorem errorFromFs {e : Option Int} : KeyM (· ≠ some .waitingKey) (errorFromFs e) :=
  bind get fun _ => .ite (bind sendSm fun _ => pure (by simp)) (bind setError fun _ => bind sendSm fun _ => pure (by simp))

theorem receiveMessage (hi : st ≠ .init) (hst : st ≠ .waitingKey) : KeyM (· ≠ some .waitingKey) (receiveMessage env st) := by
  cases st with
  | init => exact absurd rfl hi
  | waitingKey => exact absurd rfl hst
  | execFile | redirect | «open» =>
    refine bind get fun s => ?_
    split
    all_goals first | exact errorFromFs | exact pure (by simp)
  | createTask =>
    refine bind get fun s => ?_
    split
    · exact errorFromFs
    · exact pure (by split <;> simp)
    · exact pure (by simp)
  | pipe =>
    refine bind get fun s => ?_
    split
    · exact bind (modify fun _ => ⟨rfl, rfl⟩) fun _ => pure (by simp)
    · exact pure (by simp)
  | _ => exact pure (by simp)

theorem resume (hi : w ≠ .receive .init) (hw : w ≠ .receive .waitingKey) :
    KeyM (· ≠ .receive .waitingKey) (resume env w m) := by
  cases w with
  | receive st =>
    refine bind (modify fun _ => ⟨rfl, rfl⟩) fun _ => bind_of (receiveMessage (by simpa using hi) (by simpa using hw))
      fun o ho => ?_
    cases o with
    | none => exact pure hw
    | some st' => exact turn fun he => ho (congrArg some he)
  | redirectName => exact bind (modify fun _ => ⟨rfl, rfl⟩) fun _ => bind_of requestFile finish
  | terminalRead id t =>
    refine bind ?_ fun _ => finish _ (by simp [Elsewhere])
    split
    · exact bind send fun _ => send
    · exact sendError
  | fatRead r f =>
    refine bind deref fun d => ?_
    cases d with
    | fat id file => exact bind send fun _ => .ite (bind store fun _ => pure (by simp)) (finish _ (by simp [Elsewhere]))
    | terminal _ _ | pipe _ => exact throw
  | fatWrite r f =>
    refine bind deref fun d => ?_
    cases d with
    | fat id file =>
      exact .ite (bind forwardWrite fun _ => .ite (finish _ (by simp [Elsewhere])) (pure (by simp))) (pure (by simp))
    | terminal _ _ | pipe _ => exact throw

end KeyM

/-- A request for something else than a key. -/
theorem resume_init_keys (hm : m.type ≠ .kWaitingKey) (h : resume env (.receive .init) m s = .ok w s') :
    SameKeys s s' ∧ w ≠ .receive .waitingKey := by
  have hturn : ∀ {st f}, st ≠ .waitingKey → turn env st { s with rm := m, fsId := f } = .ok w s' →
      SameKeys s s' ∧ w ≠ .receive .waitingKey := by
    intro st f hst ht
    exact KeyM.turn hst { s with rm := m, fsId := f } w s' ht
  simp only [resume_receive, receiveMessage_init] at h
  cases hf : env.fs with
  | none =>
    simp only [hf] at h
    cases h
    exact ⟨⟨rfl, rfl⟩, by simp⟩
  | some f =>
    simp only [hf, hm, if_false] at h
    by_cases h1 : m.type = .kExecuteFile
    · simp only [h1, if_true] at h
      exact hturn (by simp) h
    by_cases h2 : m.type = .kWrite
    · simp only [h2, if_true] at h
      exact hturn (by simp) h
    by_cases h3 : m.type = .kOpen ∨ m.type = .kOpenDir
    · simp only [h1, h2, h3, if_true, if_false] at h
      exact hturn (by simp) h
    by_cases h4 : m.type = .kRead
    · simp only [h4, if_true] at h
      exact hturn (by simp) h
    by_cases h5 : m.type = .kExitApp
    · simp only [h5, if_true] at h
      exact hturn (by simp) h
    · simp only [h1, h2, h3, h4, h5, if_false] at h
      cases h

/-- Whatever message comes to a receive that has nothing to do with keys. -/
theorem deliver_keys (hi : w ≠ .receive .init) (hw : w ≠ .receive .waitingKey) {w' : Wait}
    (h : deliver env w m s = .ok w' s') : SameKeys s s' ∧ w' ≠ .receive .waitingKey := by
  rcases deliver_cases h with ⟨-, h⟩ | ⟨_, -, -, rfl, rfl⟩
  · exact KeyM.resume hi hw _ _ _ h
  · exact ⟨⟨rfl, rfl⟩, hw⟩

/-! ## `WaitingKeyState` -/

/-- The server has answered the requester with `kReceived` and asked its parent for the key. -/
def asked (s : Server) (a : AppInfo) : Server :=
  let s := { s with waitingId := s.rm.srcTask, sm := { s.sm with type := .kReceived } }.post
    { s.sm with type := .kReceived } s.rm.srcTask
  { s with targetId := a.pTaskId, sm := { s.sm with type := .kWaitingKey }, waiting := true }.post
    { s.sm with type := .kWaitingKey } a.pTaskId

/-- The key has gone to the task that waits for it. -/
def passedOn (s : Server) : Server := { s with sm := s.rm, waiting := false }.post s.rm s.waitingId

theorem turn_waitingKey_asks (hw : s.waiting = false) (h : turn env .waitingKey s = .ok w s') :
    ∃ a, getAppInfo s.apps s.rm.srcTask = some a ∧ w = .receive .waitingKey ∧ s' = s.asked a := by
  obtain ⟨r, s₁, h1, h2⟩ := turn_ok.mp h
  change (if s.waiting = true then _ else _ : ServerM (Wait ⊕ State)) s = _ at h1
  rw [if_neg (by simp [hw])] at h1
  simp only [EStateM.run_bind_ok, EStateM.run_modify_ok, EStateM.run_pure_ok, sendSm_ok, appInfo_ok] at h1
  obtain ⟨_, _, rfl, _, _, rfl, a, _, ⟨ha, rfl⟩, _, _, rfl, rfl, rfl⟩ := h1
  cases h2
  exact ⟨a, ha, rfl, rfl⟩

theorem turn_waitingKey_passes (hw : s.waiting = true) (h : turn env .waitingKey s = .ok w s') :
    w = .receive .init ∧ s' = s.passedOn := by
  obtain ⟨r, s₁, h1, h2⟩ := turn_ok.mp h
  change (if s.waiting = true then _ else _ : ServerM (Wait ⊕ State)) s = _ at h1
  rw [if_pos hw] at h1
  cases h1
  cases h2
  exact ⟨rfl, rfl⟩

end Server

namespace Session

open Server

variable {x x' b : Session} {e : Event}

/-- What a `kWaitingKey` request has brought about: `kReceived` to the application, the question to its parent, and in the
end, if the session has not failed, the key. In between there is nothing but errors. -/
def Exchanged (x : Session) : Prop :=
  ∃ a received question errors key, getAppInfo x.before.apps x.request.srcTask = some a ∧
    x.server.sent = x.before.sent ++ (x.request.srcTask, received) :: (a.pTaskId, question) :: (errors ++ key) ∧
    received.type = .kReceived ∧ question.type = .kWaitingKey ∧ (∀ y ∈ errors, y.2.type = .kError) ∧
    (key = [] ∨ (x.server.rm.type = .kKeyPush ∨ x.server.rm.type = .kQuit) ∧
      key = [(x.request.srcTask, { x.server.rm with srcTask := x.server.id })])

/-- Between two messages: no session is left behind, and the last one went as it should. -/
structure KeysInOrder (x : Session) : Prop where
  idle : x.wait = .receive .init → x.server.waiting = false
  exchanged : x.request.type = .kWaitingKey → x.Exchanged

/-- What is asked of the other tasks: the parent of an application that waits sends the key, and the file server is there
when a key is asked for. -/
def KeyOrQuit (x : Session) (e : Event) : Prop :=
  (x.wait = .receive .waitingKey → e.msg.srcTask = x.server.targetId → e.msg.type = .kKeyPush ∨ e.msg.type = .kQuit) ∧
    (x.wait = .receive .init → e.msg.type = .kWaitingKey → e.env.fs.isSome)

instance : Decidable (x.KeyOrQuit e) := inferInstanceAs (Decidable (_ ∧ _))

/-- A session that is going on. -/
structure Waits (x : Session) : Prop where
  waiting : x.server.waiting = true
  request : x.request.type = .kWaitingKey
  waitingId : x.server.waitingId = x.request.srcTask
  sent : ∃ a received question errors, getAppInfo x.before.apps x.request.srcTask = some a ∧
    x.server.sent = x.before.sent ++ (x.request.srcTask, received) :: (a.pTaskId, question) :: errors ∧
    received.type = .kReceived ∧ question.type = .kWaitingKey ∧ ∀ y ∈ errors, y.2.type = .kError

/-- What holds between two messages. -/
structure KeyInv (x : Session) : Prop where
  waits : x.wait = .receive .waitingKey → x.Waits
  idle : x.wait ≠ .receive .waitingKey → x.server.waiting = false
  finished : x.wait ≠ .receive .waitingKey → x.request.type = .kWaitingKey → x.wait = .receive .init ∧ x.Exchanged

theorem Waits.exchanged (h : x.Waits) : x.Exchanged := by
  obtain ⟨a, received, question, errors, ha, hs, hr, hq, he⟩ := h.sent
  exact ⟨a, received, question, errors, [], ha, by simpa using hs, hr, hq, he, .inl rfl⟩

theorem KeyInv.inOrder (h : x.KeyInv) : x.KeysInOrder where
  idle hw := h.idle (by simp [hw])
  exchanged hr := by
    by_cases hw : x.wait = .receive .waitingKey
    · exact (h.waits hw).exchanged
    · exact (h.finished hw hr).2

theorem Boot.keyInv (h : b.Boot) (hr : b.request.type ≠ .kWaitingKey) : b.KeyInv where
  waits hw := by simp [h.wait] at hw
  idle _ := h.waiting
  finished _ ht := absurd ht hr

/-- One more message that is an error. -/
theorem Waits.error (h : x.Waits) {y : UInt64 × Message} (hy : y.2.type = .kError) (hr : x.SameRequest x')
    (hs : x'.server.sent = x.server.sent ++ [y]) :
    ∃ a received question errors, getAppInfo x'.before.apps x'.request.srcTask = some a ∧
      x'.server.sent = x'.before.sent ++ (x'.request.srcTask, received) :: (a.pTaskId, question) :: errors ∧
      received.type = .kReceived ∧ question.type = .kWaitingKey ∧ ∀ y ∈ errors, y.2.type = .kError := by
  obtain ⟨a, received, question, errors, ha, hsent, hrec, hq, he⟩ := h.sent
  refine ⟨a, received, question, errors ++ [y], ?_, ?_, hrec, hq, ?_⟩
  · rwa [hr.1, hr.2.1]
  · rw [hs, hsent, hr.1, hr.2.1]
    simp
  · intro z hz
    rcases List.mem_append.1 hz with hz | hz
    · exact he z hz
    · rw [List.mem_singleton.1 hz]
      exact hy

/-! ### One message -/

theorem not_takes (hw : x.wait = .receive .waitingKey) : ¬ x.Takes e.msg := by
  rintro (h | ⟨h, -⟩)
  · simp [hw] at h
  · simp [hw] at h

/-- A message while a session is going on: an error to someone else, the key, or the end of the session. -/
theorem next_waits (hx : x.Waits) (hw : x.wait = .receive .waitingKey) (h : x.next e = some x') : x.SameRequest x' ∧
    ((e.msg.srcTask ≠ x.server.targetId ∧ x'.wait = .receive .waitingKey ∧ x'.Waits) ∨
      (e.msg.srcTask = x.server.targetId ∧ x'.wait = .receive .init ∧
        ((e.msg.type = .kKeyPush ∨ e.msg.type = .kQuit) ∧ x'.server.waiting = false ∧ x'.Exchanged ∨
          ¬ (e.msg.type = .kKeyPush ∨ e.msg.type = .kQuit) ∧ x'.server.waiting = true))) := by
  obtain ⟨-, hd, -, hkeep⟩ := next_some h
  have hr : x.SameRequest x' := hkeep (not_takes hw)
  refine ⟨hr, ?_⟩
  rw [hw] at hd
  rcases deliver_cases hd with ⟨hsrc, hd⟩ | ⟨t, ht, hne, hw', hs⟩
  · have hsrc := hsrc _ rfl
    simp only [resume_receive, receiveMessage_waitingKey] at hd
    refine .inr ⟨hsrc, ?_⟩
    by_cases hk : e.msg.type = .kKeyPush ∨ e.msg.type = .kQuit
    · simp only [hk, if_true] at hd
      obtain ⟨hw', hs⟩ := turn_waitingKey_passes (s := { x.server with rm := e.msg }) hx.waiting hd
      refine ⟨hw', .inl ⟨hk, by rw [hs]; rfl, ?_⟩⟩
      obtain ⟨a, received, question, errors, ha, hsent, hrec, hq, he⟩ := hx.sent
      refine ⟨a, received, question, errors, [(x.request.srcTask, { e.msg with srcTask := x.server.id })], ?_, ?_,
        hrec, hq, he, .inr ⟨?_, ?_⟩⟩
      · rwa [hr.1, hr.2.1]
      · rw [hs, hr.1, hr.2.1]
        simp only [passedOn, post_sent, hsent, hx.waitingId]
        simp
      · rw [hs]
        exact hk
      · rw [hs, hr.1]
        rfl
    · simp only [hk, if_false] at hd
      obtain ⟨hw', hs⟩ := EStateM.Result.ok.inj hd
      refine ⟨hw'.symm, .inr ⟨hk, ?_⟩⟩
      rw [← hs]
      exact hx.waiting
  · cases ht
    refine .inl ⟨hne, hw', by rw [hs]; exact hx.waiting, by rw [hr.1]; exact hx.request, ?_, ?_⟩
    · rw [hs, hr.1]
      exact hx.waitingId
    · exact hx.error rfl hr (by rw [hs, post_sent])

/-- A request for a key, when none is waited for. -/
theorem next_asks (hw : x.wait = .receive .init) (hidle : x.server.waiting = false) (hm : e.msg.type = .kWaitingKey)
    (h : x.next e = some x') : x'.request = e.msg ∧ x'.before = x.server ∧
      ((e.env.fs.isSome ∧ x'.wait = .receive .waitingKey ∧ x'.Waits) ∨
        (e.env.fs = none ∧ x'.wait = .receive .init ∧ x'.server.sent = x.server.sent)) := by
  obtain ⟨-, hd, htake, -⟩ := next_some h
  obtain ⟨hreq, hbefore, -⟩ := htake (.inl hw)
  refine ⟨hreq, hbefore, ?_⟩
  rw [hw] at hd
  rcases deliver_cases hd with ⟨-, hd⟩ | ⟨t, ht, -⟩
  · simp only [resume_receive, receiveMessage_init, hm] at hd
    cases hf : e.env.fs with
    | none =>
      simp only [hf] at hd
      obtain ⟨hw', hs⟩ := EStateM.Result.ok.inj hd
      refine .inr ⟨rfl, hw'.symm, ?_⟩
      rw [← hs]
    | some f =>
      simp only [hf] at hd
      obtain ⟨a, ha, hw', hs⟩ := turn_waitingKey_asks (s := { x.server with rm := e.msg, fsId := f }) hidle hd
      have hsent : x'.server.sent = x.server.sent ++
          [(e.msg.srcTask, ⟨.kReceived, x.server.id, x.server.sm.arg⟩),
            (a.pTaskId, ⟨.kWaitingKey, x.server.id, x.server.sm.arg⟩)] := by
        rw [hs]
        simp only [asked, post_sent, List.append_assoc, List.cons_append, List.nil_append]
        rfl
      refine .inl ⟨rfl, hw', ?_, ?_, ?_, a, _, _, [], ?_, by rw [hsent, hbefore, hreq], rfl, rfl, ?_⟩
      · rw [hs]
        rfl
      · rw [hreq]
        exact hm
      · rw [hs, hreq]
        rfl
      · rw [hbefore, hreq]
        exact ha
      · intro y hy
        cases hy
  · cases ht

/-- A message to the other states. -/
theorem next_other (hw : x.wait ≠ .receive .waitingKey) (hidle : x.server.waiting = false)
    (hm : x.wait = .receive .init → e.msg.type ≠ .kWaitingKey)
    (hreq : x.wait ≠ .receive .init → x.request.type ≠ .kWaitingKey)
    (h : x.next e = some x') : x'.wait ≠ .receive .waitingKey ∧ x'.server.waiting = false ∧
    x'.request.type ≠ .kWaitingKey := by
  obtain ⟨-, hd, htake, hkeep⟩ := next_some h
  have hk : SameKeys x.server x'.server ∧ x'.wait ≠ .receive .waitingKey := by
    by_cases hi : x.wait = .receive .init
    · rw [hi] at hd
      rcases deliver_cases hd with ⟨-, hd⟩ | ⟨t, ht, -⟩
      · exact resume_init_keys (hm hi) hd
      · cases ht
    · exact deliver_keys hi hw hd
  refine ⟨hk.2, hk.1.1.trans hidle, ?_⟩
  by_cases ht : x.Takes e.msg
  · rw [(htake ht).1]
    rcases ht with hi | ⟨_, _, hty⟩
    · exact hm hi
    · simp [hty]
  · rw [(hkeep ht).1]
    exact hreq fun hi => ht (.inl hi)

theorem next_keyInv (hx : x.KeyInv) (hp : x.KeyOrQuit e) (h : x.next e = some x') : x'.KeyInv := by
  by_cases hw : x.wait = .receive .waitingKey
  · obtain ⟨-, ⟨-, hw', hx'⟩ | ⟨hsrc, hw', ⟨-, hidle, hex⟩ | ⟨hk, -⟩⟩⟩ := next_waits (hx.waits hw) hw h
    · exact ⟨fun _ => hx', fun hn => absurd hw' hn, fun hn => absurd hw' hn⟩
    · exact ⟨fun hn => by simp [hw'] at hn, fun _ => hidle, fun _ _ => ⟨hw', hex⟩⟩
    · exact absurd (hp.1 hw hsrc) hk
  · have hidle := hx.idle hw
    by_cases hm : x.wait = .receive .init ∧ e.msg.type = .kWaitingKey
    · obtain ⟨-, -, ⟨-, hw', hx'⟩ | ⟨hf, -⟩⟩ := next_asks hm.1 hidle hm.2 h
      · exact ⟨fun _ => hx', fun hn => absurd hw' hn, fun hn => absurd hw' hn⟩
      · have hfs := hp.2 hm.1 hm.2
        simp [hf] at hfs
    · obtain ⟨hw', hidle', hreq⟩ := next_other hw hidle (fun hi ht => hm ⟨hi, ht⟩)
        (fun hi ht => hi (hx.finished hw ht).1) h
      exact ⟨fun hn => absurd hn hw', fun _ => hidle', fun _ ht => absurd ht hreq⟩

/-- Anything else, and the server is left waiting, or the application is not answered. -/
theorem next_leaves (hx : x.KeyInv) (hp : ¬ x.KeyOrQuit e) (h : x.next e = some x') : ¬ x'.KeysInOrder := by
  intro ho
  rcases Classical.not_and_iff_not_or_not.1 hp with hp | hp
  · obtain ⟨hw, hp⟩ := Classical.not_imp.1 hp
    obtain ⟨hsrc, hk⟩ := Classical.not_imp.1 hp
    obtain ⟨-, ⟨hne, -⟩ | ⟨-, hw', ⟨hk', -⟩ | ⟨-, hwaiting⟩⟩⟩ := next_waits (hx.waits hw) hw h
    · exact hne hsrc
    · exact hk hk'
    · rw [ho.idle hw'] at hwaiting
      cases hwaiting
  · obtain ⟨hw, hp⟩ := Classical.not_imp.1 hp
    obtain ⟨hm, hf⟩ := Classical.not_imp.1 hp
    obtain ⟨hreq, hbefore, ⟨hf', -⟩ | ⟨-, -, hsent⟩⟩ := next_asks hw (hx.idle (by simp [hw])) hm h
    · exact hf hf'
    · obtain ⟨a, received, question, errors, key, -, hs, -⟩ := ho.exchanged (by rw [hreq]; exact hm)
      rw [hsent, hbefore] at hs
      have hlen := congrArg List.length hs
      simp at hlen

/-! ### Runs -/

/-- **Key sessions end in order**: in every state of a run no session is left behind and each request for a key has been
answered as it should, exactly when nothing but the key comes from the parent of an application that waits, and the file
server is there when a key is asked for. -/
theorem keys_along_iff (hb : b.Boot) (hr : b.request.type ≠ .kWaitingKey) (es : List Event) :
    States next KeysInOrder b es ↔ Along next KeyOrQuit b es :=
  (along_iff_states_of_leaves (I := KeyInv) (fun _ _ _ => next_keyInv) (fun _ => KeyInv.inOrder)
    (fun _ _ _ => next_leaves) es (hb.keyInv hr)).symm

/-- Task 5 has started application 9, which waits for a key; then `es`. -/
def waitingFor (es : List Event) : List Event := launch false 9 ++ ⟨⟨some 3, 4, none⟩, ⟨.kWaitingKey, 9, .unset⟩⟩ :: es

/-- The key comes, and the application asks for another. -/
theorem keys_along_more : States next KeysInOrder cold (waitingFor
    [⟨⟨some 3, 4, none⟩, ⟨.kKeyPush, 5, .keyboard 0 44 32 true⟩⟩, ⟨⟨some 3, 4, none⟩, ⟨.kWaitingKey, 9, .unset⟩⟩]) :=
  (keys_along_iff cold_boot (by decide) _).mpr (by decide +kernel)

/-- Task 5 asks for another file instead. -/
def interrupted : List Event :=
  waitingFor [⟨⟨some 3, 4, none⟩, ⟨.kExecuteFile, 5, .executefile ⟨[], [], false, false, 0, false, false⟩⟩⟩]

theorem keys_out_of_order : ¬ ∀ (b : Session) (es : List Event), b.Boot → b.request.type ≠ .kWaitingKey →
    States next KeysInOrder b es := by
  intro h
  have hidle := (h cold interrupted cold_boot (by decide)).mono fun _ hx => hx.idle
  revert hidle
  decide +kernel

end Session

end KinOS.Am
