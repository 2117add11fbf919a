import KinOS.Am.ReadCall

/-!
# What a message does to a pipe

| here | there |
| --- | --- |
| `afterRead`, `pipeAnswer`   | `PipeFileDescriptor::Read` (`servers/am/filedescriptor.cpp:120-165`) |
| `afterWrite`, `writeAnswer` | `PipeFileDescriptor::Write` (`filedescriptor.cpp:167-190`) |
| `shut`                      | `Close` (`filedescriptor.cpp:192-201`) |

The methods as functions of the pipe alone, and the application manager's whole round on a `kWrite`, a `kRead` and a
`kExitApp` in terms of them: what it makes of its objects and its table, and what it sends.
-/

namespace KinOS.Am

open Server

/-! ## The methods -/

namespace PipeFileDescriptor

/-- The bytes that wait for the reader. -/
def content (p : PipeFileDescriptor) : List UInt8 := p.data.toList.take p.len

def afterRead (p : PipeFileDescriptor) (count : Nat) : PipeFileDescriptor :=
  if p.closed then p
  else if p.len = 0 then p
  else if p.len ≤ count then { p with len := 0, data := .replicate 16 0 }
  else { p with len := p.len - count, data := shiftData p.data count (p.len - count) }

def afterWrite (p : PipeFileDescriptor) (w : WriteArg) : PipeFileDescriptor :=
  if p.closed = false ∧ p.len = 0 ∧ w.len ≠ 0 then
    { p with len := w.len.toNat, data := copyData p.data w.data w.len.toNat }
  else p

/-- What `PipeFileDescriptor::Write` sends. -/
def writeAnswer (p : PipeFileDescriptor) (w : WriteArg) : List (UInt64 × Message) :=
  if p.closed then [(p.id, ⟨.kError, 0, .error false 0⟩)]
  else if p.len = 0 then if w.len ≠ 0 then [] else [(p.id, receivedMsg)]
  else [(p.id, ⟨.kError, 0, .error true 0⟩)]

end PipeFileDescriptor

/-- The bytes of a `kWrite`. -/
def chunk (w : WriteArg) : List UInt8 := w.data.toList.take w.len.toNat

/-- The bytes that `read` copies out of a message. -/
def dataBytes (m : Message) : List UInt8 :=
  if m.type = .kRead then (readArg m).data.toList.take (readArg m).len.toNat else []

def dataIn (ms : List Message) : List UInt8 := ms.flatMap dataBytes

@[simp] theorem dataIn_nil : dataIn [] = [] := rfl

@[simp] theorem dataIn_cons (m : Message) (ms : List Message) : dataIn (m :: ms) = dataBytes m ++ dataIn ms := rfl

@[simp] theorem dataIn_append (ms ms' : List Message) : dataIn (ms ++ ms') = dataIn ms ++ dataIn ms' := by
  simp [dataIn]

namespace PipeFileDescriptor

variable {p : PipeFileDescriptor}

@[simp] theorem afterRead_id (count : Nat) : (p.afterRead count).id = p.id := by
  unfold afterRead
  repeat' split
  all_goals rfl

@[simp] theorem afterRead_closed (count : Nat) : (p.afterRead count).closed = p.closed := by
  unfold afterRead
  repeat' split
  all_goals rfl

@[simp] theorem afterWrite_id (w : WriteArg) : (p.afterWrite w).id = p.id := by
  unfold afterWrite
  split <;> rfl

@[simp] theorem afterWrite_closed (w : WriteArg) : (p.afterWrite w).closed = p.closed := by
  unfold afterWrite
  split <;> rfl

/-- What `memmove` leaves at the front. -/
theorem take_shiftData {data : Vector UInt8 16} {count len : Nat} (h : count + len ≤ 16) :
    (shiftData data count len).toList.take len = (data.toList.drop count).take len := by
  apply List.ext_getElem?
  intro i
  by_cases hi : i < len
  · have hmoved : data[count + i]? = some data[count + i] := Vector.getElem?_eq_getElem (by omega)
    rw [List.getElem?_take_of_lt hi, List.getElem?_take_of_lt hi, List.getElem?_drop, Vector.getElem?_toList,
      Vector.getElem?_eq_getElem (by omega), Vector.getElem?_toList, hmoved]
    simp [shiftData, hi, List.getD_eq_getElem?_getD, hmoved]
  · rw [List.getElem?_take_eq_none (by omega), List.getElem?_take_eq_none (by omega)]

theorem take_copyData {old new : Vector UInt8 16} {len : Nat} :
    (copyData old new len).toList.take len = new.toList.take len := by
  apply List.ext_getElem?
  intro i
  by_cases hi : i < len
  · rw [List.getElem?_take_of_lt hi, List.getElem?_take_of_lt hi, Vector.getElem?_toList, Vector.getElem?_toList]
    by_cases h16 : i < 16
    · simp [copyData, h16, hi, Vector.get]
    · rw [Vector.getElem?_eq_none (by omega), Vector.getElem?_eq_none (by omega)]
  · rw [List.getElem?_take_eq_none (by omega), List.getElem?_take_eq_none (by omega)]

theorem content_afterWrite {w : WriteArg} (ho : p.closed = false) (h0 : p.len = 0) :
    (p.afterWrite w).content = chunk w := by
  unfold afterWrite
  by_cases hw : w.len = 0
  · simp [content, chunk, hw, h0]
  · rw [if_pos ⟨ho, h0, hw⟩]
    exact take_copyData

theorem afterWrite_len {w : WriteArg} (ho : p.closed = false) (h0 : p.len = 0) :
    (p.afterWrite w).len = w.len.toNat := by
  unfold afterWrite
  by_cases hw : w.len = 0
  · simp [hw, h0]
  · rw [if_pos ⟨ho, h0, hw⟩]

theorem afterWrite_fit {w : WriteArg} (hp : p.len ≤ 16) (hw : w.len.toNat ≤ 16) : (p.afterWrite w).len ≤ 16 := by
  unfold afterWrite
  split
  · exact hw
  · exact hp

theorem afterRead_fit {count : Nat} (hp : p.len ≤ 16) : (p.afterRead count).len ≤ 16 := by
  unfold afterRead
  repeat' split
  · exact hp
  · exact hp
  · exact Nat.zero_le _
  · exact Nat.le_trans (Nat.sub_le _ _) hp

/-- **Nothing is lost at the pipe.** What the reader is sent and what stays are what was there. -/
theorem content_afterRead {t : UInt64} (count : Nat) {i : UInt64} (hp : p.len ≤ 16) (ho : p.closed = false)
    (ht : p.id ≠ t) : dataIn (sentTo t ((pipeAnswer p t count).map fun y => (y.1, { y.2 with srcTask := i }))) ++
      (p.afterRead count).content = p.content := by
  have hend : dataBytes ⟨.kRead, i, endMsg.arg⟩ = [] := rfl
  have hdata : ∀ n, n ≤ 16 → dataBytes ⟨.kRead, i, (dataMsg p.data n).arg⟩ = p.data.toList.take n := by
    intro n hn
    have : (UInt8.ofNat n).toNat = n := by
      rw [UInt8.toNat_ofNat']
      omega
    simp [dataBytes, dataMsg, readArg, this]
  have hretry : dataBytes ⟨.kError, i, .error true 0⟩ = [] := rfl
  unfold pipeAnswer afterRead
  simp only [ho, Bool.false_eq_true, if_false]
  by_cases h0 : p.len = 0
  · simp [h0, hretry]
  by_cases hl : p.len ≤ count
  · simp only [if_neg h0, if_pos hl, List.map_cons, List.map_nil, sentTo_cons, if_neg ht, if_true, sentTo_nil]
    simp only [dataIn_cons, dataIn_nil, content, List.take_zero, List.append_nil]
    rw [show (⟨(dataMsg p.data p.len).type, i, (dataMsg p.data p.len).arg⟩ : Message) =
      ⟨.kRead, i, (dataMsg p.data p.len).arg⟩ from rfl, hdata _ hp,
      show (⟨endMsg.type, i, endMsg.arg⟩ : Message) = ⟨.kRead, i, endMsg.arg⟩ from rfl, hend, List.append_nil]
  · simp only [if_neg h0, if_neg hl, List.map_cons, List.map_nil, sentTo_cons, if_true, sentTo_nil]
    simp only [dataIn_cons, dataIn_nil, content, List.append_nil]
    rw [show (⟨(dataMsg p.data count).type, i, (dataMsg p.data count).arg⟩ : Message) =
      ⟨.kRead, i, (dataMsg p.data count).arg⟩ from rfl, hdata _ (by omega),
      show (⟨endMsg.type, i, endMsg.arg⟩ : Message) = ⟨.kRead, i, endMsg.arg⟩ from rfl, hend, List.append_nil,
      take_shiftData (by omega), ← List.take_add]
    congr 1
    omega

end PipeFileDescriptor

/-! ## A round of the application manager -/

namespace Server

/-- What a round does to the server: one pipe, and the messages it sends. -/
structure Turns (s s' : Server) (r : Ref) (p : PipeFileDescriptor) (l : List (UInt64 × Message)) : Prop where
  id : s'.id = s.id
  apps : s'.apps = s.apps
  objects : s'.objects = s.objects.set r (.pipe p)
  sent : s'.sent = s.sent ++ l.map fun y => (y.1, { y.2 with srcTask := s.id })

variable {env : Env} {s s' : Server} {m : Message} {w : Wait} {r : Ref} {p : PipeFileDescriptor} {a : AppInfo}

theorem set_same {objects : List FileDescriptor} {d : FileDescriptor} (h : objects[r]? = some d) :
    objects.set r d = objects := by
  obtain ⟨hlt, rfl⟩ := List.getElem?_eq_some_iff.mp h
  exact List.set_getElem_self hlt

theorem Turns.unchanged {id : UInt64} {x : Message} (ho : s.objects[r]? = some (.pipe p)) :
    Turns s (s.post x id) r p [(id, x)] := ⟨rfl, rfl, (set_same ho).symm, rfl⟩

theorem pipeRead_turns (ho : s.objects[r]? = some (.pipe p)) : ∃ s', pipeRead r p m s = .ok () s' ∧
    Turns s s' r (p.afterRead (readArg m).count.toNat) (pipeAnswer p m.srcTask (readArg m).count.toNat) := by
  unfold pipeRead pipeAnswer PipeFileDescriptor.afterRead
  by_cases hc : p.closed = true
  · simp only [if_pos hc]
    exact ⟨_, rfl, .unchanged ho⟩
  by_cases h0 : p.len = 0
  · simp only [if_neg hc, if_pos h0]
    exact ⟨_, rfl, .unchanged ho⟩
  by_cases hl : p.len ≤ (readArg m).count.toNat
  · simp only [if_neg hc, if_neg h0, if_pos hl]
    exact ⟨_, rfl, rfl, rfl, rfl, by simp [Server.post]⟩
  · simp only [if_neg hc, if_neg h0, if_neg hl]
    exact ⟨_, rfl, rfl, rfl, rfl, by simp [Server.post]⟩

theorem pipeWrite_turns (ho : s.objects[r]? = some (.pipe p)) (hw : (writeArg m).len.toNat ≤ 16) :
    ∃ s', pipeWrite r p m s = .ok () s' ∧ Turns s s' r (p.afterWrite (writeArg m)) (p.writeAnswer (writeArg m)) := by
  have hlen : (writeArg m).len.toNat ≠ 0 ↔ (writeArg m).len ≠ 0 := by
    rw [ne_eq, ne_eq, ← UInt8.toNat_inj]
    rfl
  unfold pipeWrite PipeFileDescriptor.writeAnswer PipeFileDescriptor.afterWrite
  by_cases hc : p.closed = true
  · simp only [hc, if_true, Bool.true_eq_false, false_and, if_false]
    exact ⟨_, rfl, .unchanged ho⟩
  have hopen : p.closed = false := Bool.eq_false_iff.mpr hc
  by_cases h0 : p.len = 0
  · by_cases hz : (writeArg m).len = 0
    · simp only [if_neg hc, h0, if_true, hz, ne_eq, not_true, if_false, and_false]
      exact ⟨_, rfl, .unchanged ho⟩
    · simp only [hopen, Bool.false_eq_true, if_false, h0, if_true, hlen, ne_eq, hz, not_false_eq_true, and_self,
        if_neg (Nat.not_lt.mpr hw)]
      exact ⟨_, rfl, rfl, rfl, rfl, by simp⟩
  · simp only [if_neg hc, h0, false_and, and_false, if_false]
    exact ⟨_, rfl, .unchanged ho⟩

/-- A request of `InitState` goes to its state. -/
theorem deliver_request {f : UInt64} {st : State} (hf : env.fs = some f)
    (hm : m.type = .kRead ∧ st = .read ∨ m.type = .kWrite ∧ st = .write ∨ m.type = .kExitApp ∧ st = .exit) :
    deliver env (.receive .init) m s = turn env st { s with rm := m, fsId := f } := by
  rw [deliver_eq]
  change resume env (.receive .init) m s = _
  rcases hm with ⟨hm, rfl⟩ | ⟨hm, rfl⟩ | ⟨hm, rfl⟩
  all_goals
    simp only [resume_receive, receiveMessage_init, hf, hm]
    rfl

/-- What a `kRead` or a `kWrite` on the pipe comes to: nothing without a file server, `EBADF` from a table that no longer
has it, else the method of the pipe. -/
inductive Round (s s' : Server) (r : Ref) (p p' : PipeFileDescriptor) (file : Option Ref) (t : UInt64)
    (l : List (UInt64 × Message)) : Prop
  | dropped (h : Turns s s' r p [])
  | unknown {x : Message} (hfile : file = none) (hx : x.type = .kError ∧ x.errorRetry = false)
      (h : Turns s s' r p [(t, x)])
  | done (hfile : file = some r) (h : Turns s s' r p' l)

theorem fd_round {fd : Message → Int} {act : Ref → Message → ServerM (Option Wait)} {this : State}
    {p' : PipeFileDescriptor} {l : List (UInt64 × Message)} (hthis : this = .read ∨ this = .write)
    (hdel : ∀ f, env.fs = some f → deliver env (.receive .init) m s =
      (do finish (← fdHandle fd act this) : ServerM Wait) { s with rm := m, fsId := f })
    (ha : getAppInfo s.apps m.srcTask = some a) (hfile : fileAt a (fd m) = some r ∨ fileAt a (fd m) = none)
    (ho : s.objects[r]? = some (.pipe p))
    (hact : ∀ t : Server, t.objects[r]? = some (.pipe p) → ∃ t', act r m t = .ok none t' ∧ Turns t t' r p' l)
    (h : deliver env (.receive .init) m s = .ok w s') : Round s s' r p p' (fileAt a (fd m)) m.srcTask l := by
  cases hf : env.fs with
  | none =>
    refine .dropped ?_
    rw [deliver_eq] at h
    change resume env (.receive .init) m s = _ at h
    simp only [resume_receive, receiveMessage_init, hf] at h
    cases h
    exact ⟨rfl, rfl, (set_same ho).symm, by simp⟩
  | some f =>
    have hturn := @turn_fd_eq { s with rm := m, fsId := f } fd act this hthis
    rw [← hdel f hf, h] at hturn
    simp only [ha] at hturn
    rcases hfile with hfile | hfile
    · rw [hfile]
      simp only [hfile] at hturn
      obtain ⟨t', hrun, ht⟩ := hact ({ s with rm := m, fsId := f, targetId := m.srcTask } : Server) ho
      rw [hrun] at hturn
      cases hturn
      exact .done rfl ⟨ht.id, ht.apps, ht.objects, ht.sent⟩
    · rw [hfile]
      simp only [hfile] at hturn
      cases hturn
      exact .unknown (x := ⟨.kError, s.sm.srcTask, .error false EBADF⟩) rfl ⟨rfl, rfl⟩
        ⟨rfl, rfl, (set_same ho).symm, rfl⟩

theorem read_round (hm : m.type = .kRead) (ha : getAppInfo s.apps m.srcTask = some a)
    (hfile : fileAt a (readArg m).fd = some r ∨ fileAt a (readArg m).fd = none) (ho : s.objects[r]? = some (.pipe p))
    (h : deliver env (.receive .init) m s = .ok w s') :
    Round s s' r p (p.afterRead (readArg m).count.toNat) (fileAt a (readArg m).fd) m.srcTask
      (pipeAnswer p m.srcTask (readArg m).count.toNat) := by
  refine @fd_round env s s' m w r p a (fun m => (readArg m).fd) (readFd env) .read _ _ (.inl rfl)
    (fun f hf => deliver_request hf (.inl ⟨hm, rfl⟩)) ha hfile ho (fun t hto => ?_) h
  obtain ⟨t', hrun, ht⟩ := @pipeRead_turns t m r p hto
  refine ⟨t', ?_, ht⟩
  rw [readFd, EStateM.run_bind_of_ok (deref_ok.mpr ⟨hto, rfl⟩)]
  change (pipeRead r p m >>= fun _ => pure none) t = _
  rw [EStateM.run_bind_of_ok hrun]
  rfl

theorem write_round (hm : m.type = .kWrite) (hw : (writeArg m).len.toNat ≤ 16)
    (ha : getAppInfo s.apps m.srcTask = some a)
    (hfile : fileAt a (writeArg m).fd = some r ∨ fileAt a (writeArg m).fd = none) (ho : s.objects[r]? = some (.pipe p))
    (h : deliver env (.receive .init) m s = .ok w s') :
    Round s s' r p (p.afterWrite (writeArg m)) (fileAt a (writeArg m).fd) m.srcTask (p.writeAnswer (writeArg m)) := by
  refine @fd_round env s s' m w r p a (fun m => (writeArg m).fd) (writeFd env) .write _ _ (.inr rfl)
    (fun f hf => deliver_request hf (.inr (.inl ⟨hm, rfl⟩))) ha hfile ho (fun t hto => ?_) h
  obtain ⟨t', hrun, ht⟩ := @pipeWrite_turns t m r p hto hw
  refine ⟨t', ?_, ht⟩
  rw [writeFd, EStateM.run_bind_of_ok (deref_ok.mpr ⟨hto, rfl⟩)]
  change (pipeWrite r p m >>= fun _ => pure none) t = _
  rw [EStateM.run_bind_of_ok hrun]
  rfl

end Server

/-! ## `kExitApp` -/

/-- `Close`. -/
def FileDescriptor.shut : FileDescriptor → FileDescriptor
  | .pipe p => .pipe { p with closed := true }
  | d => d

theorem FileDescriptor.shut_shut (d : FileDescriptor) : d.shut.shut = d.shut := by cases d <;> rfl

namespace Server

/-- The descriptors of `C` are closed, and the task of each pipe among them is sent `kError` without retry. -/
structure Shuts (C : Ref → Prop) (s s' : Server) : Prop where
  id : s'.id = s.id
  rm : s'.rm = s.rm
  targetId : s'.targetId = s.targetId
  apps : s'.apps = s.apps
  closed : ∀ r, C r → s'.objects[r]? = (s.objects[r]?).map (·.shut)
  kept : ∀ r, ¬ C r → s'.objects[r]? = s.objects[r]?
  sent : ∃ l, s'.sent = s.sent ++ l ∧ ∀ y ∈ l, (y.2.type = .kError ∧ y.2.errorRetry = false) ∧
    ∃ r p, C r ∧ s.objects[r]? = some (.pipe p) ∧ y.1 = p.id

variable {s s' : Server} {u : Unit}

theorem Shuts.refl (s : Server) : Shuts (fun _ => False) s s :=
  ⟨rfl, rfl, rfl, rfl, fun _ h => h.elim, fun _ _ => rfl, [], by simp, by simp⟩

theorem Shuts.pipe {C : Ref → Prop} {a b : Server} (h : Shuts C a b) {r : Ref} {p : PipeFileDescriptor}
    (hp : b.objects[r]? = some (.pipe p)) : ∃ q, a.objects[r]? = some (.pipe q) ∧ q.id = p.id := by
  by_cases hc : C r
  · rw [h.closed r hc] at hp
    obtain ⟨d, hd, hs⟩ := Option.map_eq_some_iff.mp hp
    cases d with
    | pipe q =>
      cases hs
      exact ⟨q, hd, rfl⟩
    | terminal _ _ | fat _ _ => cases hs
  · rw [h.kept r hc] at hp
    exact ⟨p, hp, rfl⟩

theorem Shuts.trans {C D : Ref → Prop} {a b c : Server} (h : Shuts C a b) (h' : Shuts D b c) :
    Shuts (fun r => C r ∨ D r) a c := by
  refine ⟨h'.id.trans h.id, h'.rm.trans h.rm, h'.targetId.trans h.targetId, h'.apps.trans h.apps, fun r hr => ?_,
    fun r hr => ?_, ?_⟩
  · by_cases hd : D r
    · rw [h'.closed r hd]
      by_cases hc : C r
      · rw [h.closed r hc, Option.map_map]
        exact congrArg (Option.map · _) (funext FileDescriptor.shut_shut)
      · rw [h.kept r hc]
    · rw [h'.kept r hd, h.closed r (hr.resolve_right hd)]
  · rw [h'.kept r fun hd => hr (.inr hd), h.kept r fun hc => hr (.inl hc)]
  · obtain ⟨l, hl, hin⟩ := h.sent
    obtain ⟨l', hl', hin'⟩ := h'.sent
    refine ⟨l ++ l', by rw [hl', hl, List.append_assoc], fun y hy => ?_⟩
    rcases List.mem_append.mp hy with hy | hy
    · obtain ⟨hk, r, p, hc, hp, hid⟩ := hin y hy
      exact ⟨hk, r, p, .inl hc, hp, hid⟩
    · obtain ⟨hk, r, p, hd, hp, hid⟩ := hin' y hy
      obtain ⟨q, hq, hqid⟩ := h.pipe hp
      exact ⟨hk, r, q, .inr hd, hq, hid.trans hqid.symm⟩

theorem Shuts.congr {C D : Ref → Prop} (h : Shuts C s s') (hCD : ∀ r, C r ↔ D r) : Shuts D s s' := by
  obtain rfl : C = D := funext fun r => propext (hCD r)
  exact h

theorem close_shuts {r : Ref} (h : close r s = .ok u s') : Shuts (· = r) s s' := by
  simp only [close, EStateM.run_bind_ok, deref_ok] at h
  obtain ⟨d, _, ⟨ho, rfl⟩, h⟩ := h
  cases d with
  | terminal _ _ | fat _ _ =>
    simp only [EStateM.run_pure_ok] at h
    obtain ⟨-, rfl⟩ := h
    refine ⟨rfl, rfl, rfl, rfl, ?_, fun _ _ => rfl, [], by simp, by simp⟩
    rintro q rfl
    rw [ho]
    rfl
  | pipe p =>
    simp only [EStateM.run_bind_ok, store_ok, sendError_ok] at h
    obtain ⟨_, _, rfl, rfl⟩ := h
    obtain ⟨hlt, -⟩ := List.getElem?_eq_some_iff.mp ho
    refine ⟨rfl, rfl, rfl, rfl, ?_, fun q hq => ?_, [(p.id, ⟨.kError, s.id, .error false 0⟩)], rfl, fun y hy => ?_⟩
    · rintro q rfl
      rw [ho]
      simp [Server.post, hlt, FileDescriptor.shut]
    · simp only [Server.post, List.getElem?_set_ne (Ne.symm hq)]
    · rw [List.mem_singleton.mp hy]
      exact ⟨⟨rfl, rfl⟩, r, p, rfl, ho, rfl⟩

theorem closeAll_shuts : ∀ {ps : List (Option Ref)} {s s' : Server} {u : Unit}, closeAll ps s = .ok u s' →
    Shuts (fun r => some r ∈ ps) s s'
  | [], s, s', _, h => by
    simp only [closeAll, EStateM.run_pure_ok] at h
    obtain ⟨-, rfl⟩ := h
    exact (Shuts.refl s).congr (by simp)
  | none :: ps, s, s', _, h => by simp [closeAll] at h
  | some r :: ps, s, s', _, h => by
    simp only [closeAll, EStateM.run_bind_ok] at h
    obtain ⟨_, s₁, h1, h2⟩ := h
    exact ((close_shuts h1).trans (closeAll_shuts h2)).congr (by simp)

/-- The descriptor is in the table of a running application with the id. -/
def Held (id : UInt64) (as : List AppInfo) (r : Ref) : Prop :=
  ∃ a ∈ as, a.taskId = id ∧ a.state = .run ∧ some r ∈ a.files

theorem exitApps_shuts {id : UInt64} : ∀ {as as' : List AppInfo} {s s' : Server}, exitApps id as s = .ok as' s' →
    as' = as.map (exited id) ∧ Shuts (Held id as) s s'
  | [], as', s, s', h => by
    simp only [exitApps, EStateM.run_pure_ok] at h
    obtain ⟨rfl, rfl⟩ := h
    exact ⟨rfl, (Shuts.refl s).congr (by simp [Held])⟩
  | a :: as, as', s, s', h => by
    simp only [exitApps, EStateM.run_bind_ok, EStateM.run_pure_ok] at h
    obtain ⟨a', s₁, h1, as₁, s₂, h2, rfl, rfl⟩ := h
    obtain ⟨rfl, hrest⟩ := exitApps_shuts h2
    have hhead : a' = exited id a ∧ Shuts (fun r => a.taskId = id ∧ a.state = .run ∧ some r ∈ a.files) s s₁ := by
      unfold exited
      split at h1
      · next hc =>
        simp only [EStateM.run_bind_ok, EStateM.run_pure_ok] at h1
        obtain ⟨_, _, h1, rfl, rfl⟩ := h1
        exact ⟨(if_pos hc).symm, (closeAll_shuts h1).congr fun r => ⟨fun h => ⟨hc.1, hc.2, h⟩, fun h => h.2.2⟩⟩
      · next hc =>
        simp only [EStateM.run_pure_ok] at h1
        obtain ⟨rfl, rfl⟩ := h1
        exact ⟨(if_neg hc).symm, (Shuts.refl s).congr fun r => ⟨False.elim, fun h => hc ⟨h.1, h.2.1⟩⟩⟩
    obtain ⟨rfl, hfirst⟩ := hhead
    refine ⟨rfl, (hfirst.trans hrest).congr fun r => ?_⟩
    simp [Held]

/-- `ExitState` for the application `t`: its table is closed, then its parent and its task are told. -/
structure Ends (t : UInt64) (s s' : Server) : Prop where
  id : s'.id = s.id
  apps : s'.apps = s.apps.map (exited t)
  closed : ∀ r, Held t s.apps r → s'.objects[r]? = (s.objects[r]?).map (·.shut)
  kept : ∀ r, ¬ Held t s.apps r → s'.objects[r]? = s.objects[r]?
  sent : ∃ l x y, s'.sent = s.sent ++ (l ++ [(getPID s.apps t, x), (t, y)]) ∧ x.type = .kExitApp ∧
    y.type = .kReceived ∧ ∀ z ∈ l, (z.2.type = .kError ∧ z.2.errorRetry = false) ∧
      ∃ r p, Held t s.apps r ∧ s.objects[r]? = some (.pipe p) ∧ z.1 = p.id

/-- Nothing that the pipe or a table depends on. -/
structure Idle (s s' : Server) : Prop where
  id : s'.id = s.id
  apps : s'.apps = s.apps
  objects : s'.objects = s.objects
  sent : s'.sent = s.sent

theorem exit_round {env : Env} {m : Message} {w : Wait} (hm : m.type = .kExitApp)
    (h : deliver env (.receive .init) m s = .ok w s') : Idle s s' ∨ Ends (exitappId m) s s' := by
  cases hf : env.fs with
  | none =>
    rw [deliver_eq] at h
    change resume env (.receive .init) m s = _ at h
    simp only [resume_receive, receiveMessage_init, hf] at h
    cases h
    exact .inl ⟨rfl, rfl, rfl, rfl⟩
  | some f =>
    rw [deliver_request hf (.inr (.inr ⟨hm, rfl⟩))] at h
    obtain ⟨o, s₁, h1, h2⟩ := turn_ok.mp h
    change exitHandle { s with rm := m, fsId := f } = _ at h1
    simp only [exitHandle, EStateM.run_bind_ok, EStateM.run_get_ok, EStateM.run_modify_ok] at h1
    obtain ⟨_, _, ⟨rfl, rfl⟩, _, _, rfl, h1⟩ := h1
    by_cases hp : getPID s.apps (exitappId m) ≠ 0
    · rw [if_pos hp] at h1
      simp only [exitApp, EStateM.run_bind_ok, EStateM.run_get_ok, EStateM.run_modify_ok, EStateM.run_pure_ok] at h1
      obtain ⟨_, _, ⟨_, _, ⟨rfl, rfl⟩, as, s₂, h3, rfl⟩, _, s₃, h4, rfl, rfl⟩ := h1
      obtain ⟨rfl, hs⟩ := exitApps_shuts h3
      obtain ⟨l, hl, hin⟩ := hs.sent
      simp only [setSm_ok] at h4
      subst h4
      cases h2
      let ended : Arg := .exitapp (exitappId m) (exitappResult m)
      refine .inr ⟨hs.id, rfl, hs.closed, hs.kept, l, ⟨.kExitApp, s₂.id, ended⟩, ⟨.kReceived, s₂.id, ended⟩, ?_, rfl, rfl,
        hin⟩
      simp only [Server.post, hl, hs.rm, hs.targetId, List.append_assoc, List.cons_append, List.nil_append]
      rfl
    · rw [if_neg hp] at h1
      cases h1
      cases h2
      exact .inl ⟨rfl, rfl, rfl, rfl⟩

end Server

end KinOS.Am
