import KinOS.Am.Objects
import KinOS.Am.Moves
import KinOS.Fs.ReadShape

/-!
# One `kRead` request, from the application to the application

| here | there |
| --- | --- |
| `keyOf`, `terminalAnswer` | the `kRead` case of `ExecuteFile` in the terminal (`servers/terminal/terminal.cpp:395-422`) |
| `readRequest`, `libcRead` | `read` (`libs/kinos/common/newlib_support.c:123-161`) |
| `attend`                  | the application manager up to its open receive |

The application waits for the answer, so no message of its own is in the queue of the application manager; messages of
other tasks may be, between any two, and the closed receives answer them with `kError`/retry. `Answered` is what
`read` expects. Which descriptors keep to it is `ReadOk`.
-/

namespace KinOS.Am

open Server

/-! ## The terminal -/

inductive Key
  | eot
  | ascii (c : UInt8)
deriving DecidableEq

/-- What the terminal makes of a message while it waits for a key: Ctrl-D ends the input, another key with Ctrl is
passed over. -/
def keyOf (m : Message) : Option Key :=
  match m.type, m.arg with
  | .kKeyPush, .keyboard modifier keycode ascii press =>
    if press then
      if modifier &&& (0x01 ||| 0x10) ≠ 0 then if keycode = 7 then some .eot else none
      else some (.ascii ascii)
    else none
  | _, _ => none

/-- The answer to a `kRead`, once the terminal has received `ms`; `sm` is what `sm[0]` held. -/
def terminalAnswer (terminal : UInt64) (sm : ReadArg) (ms : List Message) : Option Message :=
  match ms.findSome? keyOf with
  | some .eot => some ⟨.kRead, terminal, .read { sm with len := 0 }⟩
  | some (.ascii c) => some ⟨.kRead, terminal, .read { sm with data := sm.data.set 0 c, len := 1 }⟩
  | none => none

/-! ## The C library -/

/-- The request of `read(fd, buf, count)`; the other bytes are what the stack held. -/
def readRequest (t : UInt64) (fd : Int) (count : UInt64) (stack : ReadArg) : Message :=
  ⟨.kRead, t, .read { stack with fd, count := count.toUInt32 }⟩

/-- How the loop of `read` leaves a request: with the bytes, with -1, or with the request sent again. -/
inductive Outcome
  | bytes (bs : List UInt8)
  | failed
  | again
deriving DecidableEq

def Outcome.prepend (bs : List UInt8) : Outcome → Outcome
  | .bytes bs' => .bytes (bs ++ bs')
  | o => o

/-- The loop of `read` on the messages from the application manager: the outcome and the messages not taken; `none`
while it waits for more. -/
def libcRead : List Message → Option (Outcome × List Message)
  | [] => none
  | m :: ms =>
    match m.type with
    | .kError => some (if m.errorRetry then .again else .failed, ms)
    | .kRead =>
      if (readArg m).len ≠ 0 then
        (libcRead ms).map fun (o, left) => (o.prepend ((readArg m).data.toList.take (readArg m).len.toNat), left)
      else some (.bytes [], ms)
    | _ => libcRead ms

/-- One `kError`, or data of at most `count` bytes and then one message of length zero. -/
def Answered (count : Nat) (ms : List Message) : Prop :=
  (∃ m, ms = [m] ∧ m.type = .kError) ∨
  (∃ data z, ms = data ++ [z] ∧ (∀ m ∈ data, m.type = .kRead ∧ (readArg m).len ≠ 0) ∧
    (z.type = .kRead ∧ (readArg z).len = 0) ∧ (data.map fun m => (readArg m).len.toNat).sum ≤ count)

theorem libcRead_data : ∀ {data : List Message} {z : Message}, (∀ m ∈ data, m.type = .kRead ∧ (readArg m).len ≠ 0) →
    z.type = .kRead ∧ (readArg z).len = 0 → ∃ o, libcRead (data ++ [z]) = some (o, [])
  | [], z, _, ⟨hz, hl⟩ => ⟨.bytes [], by simp [libcRead, hz, hl]⟩
  | m :: data, z, hd, hz => by
    obtain ⟨⟨hm, hl⟩, hd⟩ := List.forall_mem_cons.mp hd
    obtain ⟨o, ho⟩ := libcRead_data hd hz
    exact ⟨o.prepend ((readArg m).data.toList.take (readArg m).len.toNat), by simp [libcRead, hm, hl, ho]⟩

/-- `read` takes the whole of an answer, so nothing of it is left when it returns or asks again. -/
theorem libcRead_answered {count : Nat} {ms : List Message} (h : Answered count ms) :
    ∃ o, libcRead ms = some (o, []) := by
  rcases h with ⟨m, rfl, hm⟩ | ⟨data, z, rfl, hd, hz, -⟩
  · exact ⟨if m.errorRetry then .again else .failed, by simp [libcRead, hm]⟩
  · exact libcRead_data hd hz

/-! ## The application manager -/

/-- The messages for the task `t`. -/
def sentTo (t : UInt64) (l : List (UInt64 × Message)) : List Message := (l.filter fun y => y.1 = t).map (·.2)

@[simp] theorem sentTo_append (t : UInt64) (l l' : List (UInt64 × Message)) :
    sentTo t (l ++ l') = sentTo t l ++ sentTo t l' := by simp [sentTo]

@[simp] theorem sentTo_nil (t : UInt64) : sentTo t [] = [] := rfl

@[simp] theorem sentTo_cons (t id : UInt64) (m : Message) (l : List (UInt64 × Message)) :
    sentTo t ((id, m) :: l) = if id = t then m :: sentTo t l else sentTo t l := by
  by_cases h : id = t <;> simp [sentTo, h]

/-- The server takes messages until it is in its open receive: the server then, and the messages it did not take. -/
def attend (env : Env) : Wait → Server → List Message → Option (Server × List Message)
  | w, s, [] => if w = .receive .init then some (s, []) else none
  | w, s, m :: ms =>
    if w = .receive .init then some (s, m :: ms)
    else
      match deliver env w m s with
      | .ok w' s' => attend env w' s' ms
      | .error _ _ => none

/-- A request, and what comes after it. -/
def serve (env : Env) (s : Server) (m : Message) (ms : List Message) : Option (Server × List Message) :=
  match deliver env (.receive .init) m s with
  | .ok w s' => attend env w s' ms
  | .error _ _ => none

@[simp] theorem attend_init {env : Env} {s : Server} {ms : List Message} :
    attend env (.receive .init) s ms = some (s, ms) := by
  cases ms <;> simp [attend]

section Closed

variable {env : Env} {w : Wait} {f t : UInt64}

/-- A closed receive on `f` bounces what comes before the message of `f`. -/
theorem attend_closed (hne : w ≠ .receive .init) : ∀ {ms : List Message} {s : Server} {m : Message}
    {rest : List Message}, (∀ l, { s with sent := l }.source w = some f) → (∀ x ∈ ms, x.srcTask ≠ t) →
    (ms.filter fun x => x.srcTask = f) = m :: rest →
    ∃ l post, sentTo t l = [] ∧ (post.filter fun x => x.srcTask = f) = rest ∧ (∀ x ∈ post, x.srcTask ≠ t) ∧
      m.srcTask = f ∧ attend env w s ms =
        match resume env w m { s with sent := s.sent ++ l } with
        | .ok w' s' => attend env w' s' post
        | .error _ _ => none
  | [], _, _, _, _, _, h => by simp at h
  | x :: ms, s, m, rest, hsrc, ht, h => by
    have hs : s.source w = some f := hsrc s.sent
    by_cases hx : x.srcTask = f
    · rw [List.filter_cons_of_pos (by simpa using hx), List.cons.injEq] at h
      obtain ⟨rfl, h⟩ := h
      refine ⟨[], ms, rfl, h, fun y hy => ht y (List.mem_cons_of_mem _ hy), hx, ?_⟩
      rw [attend, if_neg hne, deliver_eq, hs]
      simp only [if_pos hx, List.append_nil]
    · rw [List.filter_cons_of_neg (by simpa using hx)] at h
      obtain ⟨l, post, hl, hpost, hpt, hm, hatt⟩ := attend_closed hne
        (s := s.post ⟨.kError, 0, .error true 0⟩ x.srcTask) hsrc (fun y hy => ht y (List.mem_cons_of_mem _ hy)) h
      refine ⟨(x.srcTask, ⟨.kError, s.id, .error true 0⟩) :: l, post, ?_, hpost, hpt, hm, ?_⟩
      · rw [sentTo_cons, if_neg (ht x (List.mem_cons_self ..)), hl]
      · rw [attend, if_neg hne, deliver_eq, hs]
        simp only [if_neg hx]
        rw [hatt]
        simp only [Server.post, List.append_assoc, List.singleton_append]

theorem attend_terminalRead {id : UInt64} {ms rest : List Message} {s : Server} {m : Message}
    (ht : ∀ x ∈ ms, x.srcTask ≠ t) (h : (ms.filter fun x => x.srcTask = f) = m :: rest) (hm : m.type = .kRead) :
    ∃ s' left l, attend env (.terminalRead id f) s ms = some (s', left) ∧ s'.sent = s.sent ++ l ∧
      sentTo t l = if id = t then [{ m with srcTask := s.id }, { endMsg with srcTask := s.id }] else [] := by
  obtain ⟨l, post, hl, -, -, -, hatt⟩ := attend_closed (w := .terminalRead id f) (by simp)
    (fun _ => rfl) ht h
  have hres : resume env (.terminalRead id f) m { s with sent := s.sent ++ l } = .ok (.receive .init)
      (({ s with sent := s.sent ++ l }.post m id).post endMsg id) := by
    simp only [resume, hm]
    rfl
  rw [hres] at hatt
  refine ⟨_, _, l ++ [(id, { m with srcTask := s.id }), (id, { endMsg with srcTask := s.id })], hatt.trans attend_init,
    ?_, ?_⟩
  · simp only [Server.post, List.append_assoc, List.cons_append, List.nil_append]
  · rw [sentTo_append, hl]
    by_cases hid : id = t <;> simp [hid]

/-- The messages `FatFileDescriptor::Read` passes on. -/
def upToEnd : List Message → List Message
  | [] => []
  | m :: ms => if (readArg m).len ≠ 0 then m :: upToEnd ms else [m]

theorem resume_fatRead {s : Server} {r : Ref} {id : UInt64} {file : Fs.FatFileDescriptor} {m : Message}
    (hd : s.objects[r]? = some (.fat id file)) : resume env (.fatRead r f) m s =
      if (readArg m).len ≠ 0 then .ok (.fatRead r f) { s.post m id with
        objects := s.objects.set r (.fat id { file with
          rdOff := file.rdOff + (readArg m).len.toNat, rdCluster := (readArg m).cluster.toNat }) }
      else .ok (.receive .init) (s.post m id) := by
  rw [resume, EStateM.run_bind_of_ok (deref_ok.mpr ⟨hd, rfl⟩)]
  change (if (readArg m).len ≠ 0 then _ else _ : ServerM Wait) (s.post m id) = _
  by_cases hlen : (readArg m).len ≠ 0
  · rw [if_pos hlen, if_pos hlen]
    rfl
  · rw [if_neg hlen, if_neg hlen]
    rfl

theorem attend_fatRead {r : Ref} {id : UInt64} : ∀ {out later ms : List Message} {s : Server}
    {file : Fs.FatFileDescriptor}, s.objects[r]? = some (.fat id file) → (∀ x ∈ ms, x.srcTask ≠ t) →
    (ms.filter fun x => x.srcTask = f) = out ++ later → (∃ m ∈ out, (readArg m).len = 0) →
    ∃ s' left l, attend env (.fatRead r f) s ms = some (s', left) ∧ s'.sent = s.sent ++ l ∧
      sentTo t l = if id = t then (upToEnd out).map fun m => { m with srcTask := s.id } else []
  | [], _, _, _, _, _, _, _, hz => by simp at hz
  | m :: out, later, ms, s, file, hd, ht, h, hz => by
    obtain ⟨l, post, hl, hpost, hpt, -, hatt⟩ := attend_closed (w := .fatRead r f) (by simp)
      (fun _ => rfl) ht h
    have hone : sentTo t [(id, { m with srcTask := s.id })] = if id = t then [{ m with srcTask := s.id }] else [] := by
      simp
    have hlt : r < s.objects.length := (List.getElem?_eq_some_iff.mp hd).1
    rw [resume_fatRead (s := { s with sent := s.sent ++ l }) hd] at hatt
    by_cases hlen : (readArg m).len ≠ 0
    · rw [if_pos hlen] at hatt
      have hz' : ∃ m ∈ out, (readArg m).len = 0 := by
        obtain ⟨x, hx, hx0⟩ := hz
        rcases List.mem_cons.mp hx with rfl | hx
        · exact absurd hx0 hlen
        · exact ⟨x, hx, hx0⟩
      let file' : Fs.FatFileDescriptor :=
        { file with rdOff := file.rdOff + (readArg m).len.toNat, rdCluster := (readArg m).cluster.toNat }
      obtain ⟨s', left, l', h1, h2, h3⟩ := @attend_fatRead r id out later post
        { ({ s with sent := s.sent ++ l } : Server).post m id with objects := s.objects.set r (.fat id file') } file'
        (by simp [hlt]) hpt hpost hz'
      refine ⟨s', left, l ++ [(id, { m with srcTask := s.id })] ++ l', hatt.trans h1, ?_, ?_⟩
      · rw [h2]
        simp only [Server.post, List.append_assoc]
      · rw [sentTo_append, sentTo_append, hl, hone, h3, upToEnd, if_pos hlen]
        by_cases hid : id = t
        · simp only [if_pos hid, List.nil_append, List.map_cons, List.singleton_append, Server.post]
        · simp only [if_neg hid, List.append_nil]
    · rw [if_neg hlen] at hatt
      refine ⟨_, _, l ++ [(id, { m with srcTask := s.id })], hatt.trans attend_init, ?_, ?_⟩
      · simp only [Server.post, List.append_assoc]
      · rw [sentTo_append, hl, hone, upToEnd, if_neg hlen]
        rfl

end Closed

/-! ## The descriptors -/

/-- The server as `ReadState` and `WriteState` call the descriptor. -/
def Server.atFd (s : Server) (m : Message) (f : UInt64) : Server := { s with rm := m, fsId := f, targetId := m.srcTask }

theorem atFd_sent (s : Server) (m : Message) (f : UInt64) : (s.atFd m f).sent = s.sent := rfl

/-- `ReadState` takes the request. -/
theorem deliver_read {env : Env} {s : Server} {m : Message} {f : UInt64} {a : AppInfo} {r : Ref} (hf : env.fs = some f)
    (hm : m.type = .kRead) (ha : getAppInfo s.apps m.srcTask = some a) (hr : fileAt a (readArg m).fd = some r) :
    deliver env (.receive .init) m s =
      match readFd env r m (s.atFd m f) with
      | .ok (some w) s' => .ok w s'
      | .ok none s' => .ok (.receive .init) s'
      | .error e s' => .error e s' := by
  have h1 : deliver env (.receive .init) m s = turn env .read { s with rm := m, fsId := f } := by
    rw [deliver_eq]
    change resume env (.receive .init) m s = _
    simp only [resume_receive, receiveMessage_init, hf, hm]
    rfl
  rw [h1]
  refine (@turn_fd_eq { s with rm := m, fsId := f } (fun m => (readArg m).fd) (readFd env) .read (.inl rfl)).trans ?_
  simp only [ha, hr]
  rfl

/-- What `PipeFileDescriptor::Read` sends. -/
def pipeAnswer (p : PipeFileDescriptor) (t : UInt64) (count : Nat) : List (UInt64 × Message) :=
  if p.closed then [(t, endMsg)]
  else if p.len = 0 then [(t, ⟨.kError, 0, .error true 0⟩)]
  else if p.len ≤ count then [(t, dataMsg p.data p.len), (t, endMsg), (p.id, receivedMsg)]
  else [(t, dataMsg p.data count), (t, endMsg)]

theorem pipeRead_sent (s : Server) (r : Ref) (p : PipeFileDescriptor) (m : Message) :
    ∃ s', pipeRead r p m s = .ok () s' ∧ s'.sent = s.sent ++ (pipeAnswer p m.srcTask (readArg m).count.toNat).map
      fun y => (y.1, { y.2 with srcTask := s.id }) := by
  unfold pipeRead pipeAnswer
  by_cases hc : p.closed = true
  · simp only [if_pos hc]
    exact ⟨_, rfl, rfl⟩
  by_cases h0 : p.len = 0
  · simp only [if_neg hc, if_pos h0]
    exact ⟨_, rfl, rfl⟩
  by_cases hl : p.len ≤ (readArg m).count.toNat
  · simp only [if_neg hc, if_neg h0, if_pos hl]
    exact ⟨_, rfl, by simp [Server.post]⟩
  · simp only [if_neg hc, if_neg h0, if_neg hl]
    exact ⟨_, rfl, by simp [Server.post]⟩

theorem readFd_terminal {env : Env} {s : Server} {r : Ref} {m : Message} {id terminal : UInt64}
    (hd : s.objects[r]? = some (.terminal id terminal)) :
    readFd env r m s = .ok (some (.terminalRead id terminal)) (s.post m terminal) := by
  rw [readFd, EStateM.run_bind_of_ok (deref_ok.mpr ⟨hd, rfl⟩)]
  rfl

theorem readFd_fat {env : Env} {s : Server} {r : Ref} {m : Message} {id f : UInt64} {file : Fs.FatFileDescriptor}
    (hd : s.objects[r]? = some (.fat id file)) (hf : env.fs = some f) :
    readFd env r m s = .ok (some (.fatRead r f)) (s.post { m with arg := .read (file.readRequest (readArg m)) } f) := by
  rw [readFd, EStateM.run_bind_of_ok (deref_ok.mpr ⟨hd, rfl⟩)]
  simp only [hf]
  rfl

theorem readFd_pipe {env : Env} {s : Server} {r : Ref} {m : Message} {p : PipeFileDescriptor}
    (hd : s.objects[r]? = some (.pipe p)) : ∃ s', readFd env r m s = .ok none s' ∧
      s'.sent = s.sent ++ (pipeAnswer p m.srcTask (readArg m).count.toNat).map
        fun y => (y.1, { y.2 with srcTask := s.id }) := by
  obtain ⟨s', h, hs⟩ := pipeRead_sent s r p m
  refine ⟨s', ?_, hs⟩
  rw [readFd, EStateM.run_bind_of_ok (deref_ok.mpr ⟨hd, rfl⟩)]
  change (pipeRead r p m >>= fun _ => pure none) s = _
  rw [EStateM.run_bind_of_ok h]
  rfl

/-- Without a file server `InitState` answers nobody. -/
theorem deliver_noFs {env : Env} {s : Server} {m : Message} (hf : env.fs = none) :
    ∃ s', deliver env (.receive .init) m s = .ok (.receive .init) s' ∧ s'.sent = s.sent := by
  rw [deliver_eq]
  change ∃ s', resume env (.receive .init) m s = _ ∧ _
  simp only [resume_receive, receiveMessage_init, hf]
  exact ⟨_, rfl, rfl⟩

/-! ## Answers -/

theorem answered_error {count : Nat} {m : Message} (h : m.type = .kError) : Answered count [m] := .inl ⟨m, rfl, h⟩

theorem answered_end {count : Nat} {z : Message} (h : z.type = .kRead ∧ (readArg z).len = 0) : Answered count [z] :=
  .inr ⟨[], z, rfl, by simp, h, by simp⟩

theorem not_answered_nil {count : Nat} : ¬ Answered count [] := by
  rintro (⟨m, h, -⟩ | ⟨data, z, h, -⟩)
  · cases h
  · simp at h

/-- One data message. -/
theorem answered_pair {count : Nat} {m z : Message} (hm : m.type = .kRead) (hz : z.type = .kRead ∧ (readArg z).len = 0) :
    Answered count [m, z] ↔ (readArg m).len ≠ 0 ∧ (readArg m).len.toNat ≤ count := by
  constructor
  · rintro (⟨_, h, -⟩ | ⟨data, z', h, hd, -, hsum⟩)
    · cases h
    · obtain ⟨rfl, -⟩ : data = [m] ∧ [z'] = [z] := by
        have := List.append_inj' (show [m] ++ [z] = data ++ [z'] from h) rfl
        exact ⟨this.1.symm, this.2.symm⟩
      exact ⟨(hd m (List.mem_singleton_self m)).2, by simpa using hsum⟩
  · rintro ⟨h0, hle⟩
    refine .inr ⟨[m], z, rfl, ?_, hz, by simpa using hle⟩
    intro x hx
    rw [List.mem_singleton.mp hx]
    exact ⟨hm, h0⟩

/-- An answer ends with its `kRead` of length zero, or is the `kError`. -/
theorem Answered.last {count : Nat} {ms : List Message} {m : Message} (h : Answered count (ms ++ [m])) :
    m.type = .kError ∨ m.type = .kRead := by
  rcases h with ⟨x, hx, ht⟩ | ⟨data, z, hx, -, hz, -⟩
  · have := List.append_inj' (show ms ++ [m] = [] ++ [x] from hx) rfl
    rw [List.cons.inj this.2 |>.1]
    exact .inl ht
  · have := List.append_inj' hx rfl
    rw [List.cons.inj this.2 |>.1]
    exact .inr hz.1

theorem answered_pipe_iff {p : PipeFileDescriptor} {t i : UInt64} {count : UInt64} (hfit : p.len ≤ 16) :
    Answered count.toNat (sentTo t ((pipeAnswer p t count.toUInt32.toNat).map
      fun y => (y.1, { y.2 with srcTask := i }))) ↔
    (p.closed = true ∨ p.len = 0 ∨ (count.toUInt32 ≠ 0 ∧ (p.id = t → count.toUInt32.toNat < p.len))) := by
  have hend : (⟨.kRead, i, endMsg.arg⟩ : Message).type = .kRead ∧ (readArg ⟨.kRead, i, endMsg.arg⟩).len = 0 :=
    ⟨rfl, rfl⟩
  have hcount : count.toUInt32.toNat ≤ count.toNat := by
    rw [UInt64.toNat_toUInt32]
    exact Nat.mod_le _ _
  unfold pipeAnswer
  by_cases hc : p.closed = true
  · simp only [hc, if_true, true_or, iff_true, List.map_cons, List.map_nil, sentTo_cons, sentTo_nil]
    exact answered_end hend
  by_cases h0 : p.len = 0
  · simp only [if_neg hc, h0, true_or, or_true, iff_true, List.map_cons, List.map_nil, sentTo_cons,
      sentTo_nil, if_true]
    exact answered_error rfl
  have hlen : ∀ n, n ≤ 16 → (UInt8.ofNat n).toNat = n := by
    intro n hn
    rw [UInt8.toNat_ofNat']
    omega
  have hne : ∀ n, n ≤ 16 → n ≠ 0 → UInt8.ofNat n ≠ 0 := by
    intro n hn h0 h
    have := hlen n hn
    rw [h] at this
    exact h0 this.symm
  have hzero : count.toUInt32 ≠ 0 ↔ count.toUInt32.toNat ≠ 0 := by
    rw [ne_eq, ne_eq, ← UInt32.toNat_inj]
    rfl
  by_cases hl : p.len ≤ count.toUInt32.toNat
  · rw [if_neg hc, if_neg h0, if_pos hl]
    simp only [hc, h0, Bool.false_eq_true, false_or, List.map_cons, List.map_nil, sentTo_cons, sentTo_nil, if_true]
    by_cases hid : p.id = t
    · refine iff_of_false (fun h => ?_) (fun h => ?_)
      · rw [if_pos hid] at h
        have h' : Answered count.toNat ([_, _] ++ [_]) := h
        rcases h'.last with h | h <;> cases h
      · exact absurd (h.2 hid) (by omega)
    · rw [if_neg hid]
      refine (answered_pair rfl hend).trans ?_
      refine iff_of_true ⟨hne _ hfit h0, ?_⟩ ⟨hzero.mpr (by omega), fun h => absurd h hid⟩
      exact Nat.le_trans (Nat.le_of_eq (hlen _ hfit)) (Nat.le_trans hl hcount)
  · rw [if_neg hc, if_neg h0, if_neg hl]
    simp only [hc, h0, Bool.false_eq_true, false_or, List.map_cons, List.map_nil, sentTo_cons, sentTo_nil, if_true]
    have h16 : count.toUInt32.toNat ≤ 16 := by omega
    refine (answered_pair rfl hend).trans ?_
    constructor
    · rintro ⟨h, -⟩
      refine ⟨hzero.mpr fun h' => h ?_, fun _ => by omega⟩
      change UInt8.ofNat count.toUInt32.toNat = 0
      rw [h']
      rfl
    · rintro ⟨h, -⟩
      exact ⟨hne _ h16 (hzero.mp h), Nat.le_trans (Nat.le_of_eq (hlen _ h16)) hcount⟩

/-- The messages of the terminal. -/
theorem answered_terminal_iff {terminal t id i : UInt64} {sm : ReadArg} {keys : List Message} {m : Message}
    {count : UInt64} (h : terminalAnswer terminal sm keys = some m) :
    m.type = .kRead ∧ (Answered count.toNat
      (if id = t then [{ m with srcTask := i }, { endMsg with srcTask := i }] else []) ↔
    (id = t ∧ count ≠ 0 ∧ ∃ c, keys.findSome? keyOf = some (.ascii c))) := by
  have hend : (⟨.kRead, i, endMsg.arg⟩ : Message).type = .kRead ∧ (readArg ⟨.kRead, i, endMsg.arg⟩).len = 0 :=
    ⟨rfl, rfl⟩
  have hcount : count ≠ 0 ↔ 1 ≤ count.toNat := by
    rw [ne_eq, ← UInt64.toNat_inj]
    change ¬ count.toNat = 0 ↔ _
    omega
  unfold terminalAnswer at h
  cases hk : keys.findSome? keyOf with
  | none =>
    rw [hk] at h
    cases h
  | some k =>
    rw [hk] at h
    cases k with
    | eot =>
      cases h
      refine ⟨rfl, iff_of_false (fun h => ?_) (by simp)⟩
      by_cases hid : id = t
      · rw [if_pos hid] at h
        exact ((answered_pair rfl hend).mp h).1 rfl
      · rw [if_neg hid] at h
        exact not_answered_nil h
    | ascii c =>
      cases h
      refine ⟨rfl, ?_⟩
      by_cases hid : id = t
      · rw [if_pos hid]
        refine (answered_pair rfl hend).trans ?_
        constructor
        · rintro ⟨-, h⟩
          exact ⟨hid, hcount.mpr h, c, rfl⟩
        · rintro ⟨-, h, -⟩
          exact ⟨by change (1 : UInt8) ≠ 0; decide, hcount.mp h⟩
      · rw [if_neg hid]
        exact iff_of_false not_answered_nil fun h => hid h.1

/-! ## The messages of the file server -/

/-- How many entries the listing in the reply goes over, as its `len` has it. -/
def listed (fuel : Nat) (s : Fs.Server) (rm : ReadArg) : Nat :=
  (((s.listing fuel rm).getD []).map fun m => (readArg m).len.toNat).sum

theorem readArg_of {m : Message} {r : ReadArg} (h : m.arg = .read r) : readArg m = r := by
  unfold readArg
  rw [h]

theorem upToEnd_data : ∀ {l : List Message} {z : Message}, (∀ m ∈ l, (readArg m).len ≠ 0) → (readArg z).len = 0 →
    upToEnd (l ++ [z]) = l ++ [z]
  | [], z, _, hz => by simp [upToEnd, hz]
  | m :: l, z, hl, hz => by
    obtain ⟨hm, hl⟩ := List.forall_mem_cons.mp hl
    simp [upToEnd, hm, upToEnd_data hl hz]

theorem answered_fat_iff {fuel : Nat} {s s' : Fs.Server} {rm : ReadArg} {out : List Message} {i : UInt64} {count : Nat}
    (h : s.readState fuel rm = some (s', out)) (hc : rm.count.toNat ≤ count) :
    (∃ m ∈ out, (readArg m).len = 0) ∧
      (Answered count ((upToEnd out).map fun m => { m with srcTask := i }) ↔ listed fuel s rm ≤ count) := by
  obtain ⟨l, z, rfl, ⟨hzt, rz, hza, hz0⟩, hl⟩ := Fs.readState_shape h
  have hz : (readArg z).len = 0 := by rw [readArg_of hza, hz0]
  have hz' : (⟨z.type, i, z.arg⟩ : Message).type = .kRead ∧ (readArg ⟨z.type, i, z.arg⟩).len = 0 := ⟨hzt, hz⟩
  refine ⟨⟨z, by simp, hz⟩, ?_⟩
  rcases hl with ⟨hlist, hdata, hsum⟩ | ⟨hlist, sm, s₁, rfl⟩
  · -- a regular file
    have hd : ∀ m ∈ l, m.type = .kRead ∧ (readArg m).len ≠ 0 ∧ (readArg m).len.toNat = (Fs.msgBytes m).length := by
      intro m hm
      obtain ⟨r, hr, h0, hlen⟩ := (hdata m hm).readArg
      obtain ⟨ht, r', harg, -⟩ := hdata m hm
      have hrr : r = r' := by
        rw [Fs.readArg?, harg] at hr
        exact (Option.some.inj hr).symm
      rw [readArg_of harg, ← hrr]
      exact ⟨ht, h0, hlen.symm⟩
    refine iff_of_true ?_ (by simp [listed, hlist])
    rw [upToEnd_data (fun m hm => (hd m hm).2.1) hz, List.map_append]
    refine .inr ⟨_, _, rfl, ?_, hz', ?_⟩
    · intro m hm
      obtain ⟨x, hx, rfl⟩ := List.mem_map.mp hm
      exact ⟨(hd x hx).1, (hd x hx).2.1⟩
    · rw [List.map_map]
      have : l.map ((fun m => (readArg m).len.toNat) ∘ fun m => { m with srcTask := i }) =
          l.map fun m => (Fs.msgBytes m).length := List.map_congr_left fun m hm => (hd m hm).2.2
      rw [this, ← List.length_flatMap]
      omega
  · -- a directory
    have hlisted : listed fuel s rm = sm.len.toNat := by simp [listed, hlist, Fs.Server.readMsg, readArg]
    rw [hlisted]
    by_cases h0 : sm.len = 0
    · have hup : upToEnd ([s₁.readMsg sm] ++ [z]) = [s₁.readMsg sm] := by
        simp [upToEnd, Fs.Server.readMsg, readArg, h0]
      rw [hup]
      exact iff_of_true (answered_end ⟨rfl, h0⟩) (by simp [h0])
    · rw [upToEnd_data (l := [s₁.readMsg sm]) (by simpa [Fs.Server.readMsg, readArg] using h0) hz]
      exact (answered_pair rfl hz').trans ⟨fun h => h.2, fun h => ⟨h0, h⟩⟩

/-! ## The request as a whole -/

/-- The servers behind the descriptors: what the terminal receives while it waits for a key, and the file server. -/
structure Peers where
  keys : List Message
  sm : ReadArg
  fs : Fs.Server
  fuel : Nat

namespace Peers

/-- The server that a descriptor asks. -/
def asked (p : Peers) : FileDescriptor → Option UInt64
  | .terminal _ terminal => some terminal
  | .fat _ _ => some p.fs.id
  | .pipe _ => none

/-- What it sends for the request `m`; `none` if it does not come to an answer. -/
def replies (p : Peers) (m : Message) : FileDescriptor → Option (List Message)
  | .terminal _ terminal => (terminalAnswer terminal p.sm p.keys).map ([·])
  | .fat _ file => (p.fs.readState p.fuel (file.readRequest (readArg m))).map (·.2)
  | .pipe _ => some []

/-- The descriptor is the reader's own, for a terminal a key comes and `count` is not zero, a listing does not go over
more than `count` entries, and a pipe that holds data is read with a count that is not zero (as 32 bits) and not, to
the end, by the task it acknowledges to. -/
def ReadOk (p : Peers) (env : Env) (t count : UInt64) (m : Message) (d : FileDescriptor) : Prop :=
  env.fs.isSome ∧
  match d with
  | .terminal id' _ => id' = t ∧ count ≠ 0 ∧ ∃ c, p.keys.findSome? keyOf = some (.ascii c)
  | .fat id' file => id' = t ∧ listed p.fuel p.fs (file.readRequest (readArg m)) ≤ count.toNat
  | .pipe q => q.closed = true ∨ q.len = 0 ∨ (count.toUInt32 ≠ 0 ∧ (q.id = t → count.toUInt32.toNat < q.len))

end Peers

/-- What the task `t` gets for a request, and that `read` takes all of it. -/
def Disciplined (t count : UInt64) (s s' : Server) : Prop :=
  Answered count.toNat (sentTo t (s'.sent.drop s.sent.length)) ∧
    ∃ o, libcRead (sentTo t (s'.sent.drop s.sent.length)) = some (o, [])

theorem disciplined_iff {t count : UInt64} {s s' : Server} {l : List (UInt64 × Message)} (h : s'.sent = s.sent ++ l) :
    Disciplined t count s s' ↔ Answered count.toNat (sentTo t l) := by
  unfold Disciplined
  rw [h, List.drop_left]
  exact ⟨fun h => h.1, fun h => ⟨h, libcRead_answered h⟩⟩

theorem serve_of_ok {env : Env} {s s' : Server} {m : Message} {ms : List Message} {w : Wait}
    (h : deliver env (.receive .init) m s = .ok w s') : serve env s m ms = attend env w s' ms := by
  unfold serve
  rw [h]

section Kinds

variable {env : Env} {s : Server} {t f count : UInt64} {fd : Int} {stack : ReadArg} {a : AppInfo} {r : Ref}
  {ms : List Message} (hf : env.fs = some f) (ha : getAppInfo s.apps t = some a) (hr : fileAt a fd = some r)
  (ht : ∀ m ∈ ms, m.srcTask ≠ t)
include hf ha hr ht

theorem serve_terminal_iff {id terminal : UInt64} (hd : s.objects[r]? = some (.terminal id terminal)) {sm : ReadArg}
    {keys later : List Message} {reply : Message} (hreply : terminalAnswer terminal sm keys = some reply)
    (hms : (ms.filter fun m => m.srcTask = terminal) = reply :: later) :
    ∃ s' left, serve env s (readRequest t fd count stack) ms = some (s', left) ∧ (Disciplined t count s s' ↔
      (id = t ∧ count ≠ 0 ∧ ∃ c, keys.findSome? keyOf = some (.ascii c))) := by
  have hdel := deliver_read (s := s) (m := readRequest t fd count stack) hf rfl ha hr
  rw [readFd_terminal (s := s.atFd _ f) hd] at hdel
  obtain ⟨hk, hiff⟩ := answered_terminal_iff (t := t) (i := s.id) hreply
  have hne : terminal ≠ t := by
    have hmem : reply ∈ ms.filter fun m => m.srcTask = terminal := by rw [hms]; simp
    obtain ⟨h1, h2⟩ := List.mem_filter.mp hmem
    exact fun h => ht reply h1 ((of_decide_eq_true h2).trans h)
  obtain ⟨s', left, l, h1, h2, h3⟩ := @attend_terminalRead env terminal t id ms later _ reply ht hms hk
  refine ⟨s', left, (serve_of_ok hdel).trans h1, ?_⟩
  rw [post_sent, atFd_sent, List.append_assoc] at h2
  rw [disciplined_iff h2, sentTo_append, h3]
  simp only [sentTo_cons, if_neg hne, sentTo_nil, List.nil_append]
  exact hiff

theorem serve_fat_iff {id : UInt64} {file : Fs.FatFileDescriptor} (hd : s.objects[r]? = some (.fat id file))
    {fuel : Nat} {fs fs' : Fs.Server} {out later : List Message}
    (hout : fs.readState fuel (file.readRequest (readArg (readRequest t fd count stack))) = some (fs', out))
    (hms : (ms.filter fun m => m.srcTask = f) = out ++ later) :
    ∃ s' left, serve env s (readRequest t fd count stack) ms = some (s', left) ∧ (Disciplined t count s s' ↔
      (id = t ∧ listed fuel fs (file.readRequest (readArg (readRequest t fd count stack))) ≤ count.toNat)) := by
  have hdel := deliver_read (s := s) (m := readRequest t fd count stack) hf rfl ha hr
  rw [readFd_fat (s := s.atFd _ f) hd hf] at hdel
  have hcount : (file.readRequest (readArg (readRequest t fd count stack))).count.toNat ≤ count.toNat := by
    change count.toUInt32.toNat ≤ _
    rw [UInt64.toNat_toUInt32]
    exact Nat.mod_le _ _
  obtain ⟨hz, hiff⟩ := answered_fat_iff (i := s.id) hout hcount
  have hne : f ≠ t := by
    obtain ⟨z, hz, -⟩ := hz
    have hmem : z ∈ ms.filter fun m => m.srcTask = f := by rw [hms]; exact List.mem_append_left _ hz
    obtain ⟨h1, h2⟩ := List.mem_filter.mp hmem
    exact fun h => ht z h1 ((of_decide_eq_true h2).trans h)
  let m := readRequest t fd count stack
  obtain ⟨s', left, l, h1, h2, h3⟩ := @attend_fatRead env f t r id out later ms
    ((s.atFd m f).post { m with arg := .read (file.readRequest (readArg m)) } f) file hd ht hms hz
  refine ⟨s', left, (serve_of_ok hdel).trans h1, ?_⟩
  rw [post_sent, atFd_sent, List.append_assoc] at h2
  rw [disciplined_iff h2, sentTo_append, h3]
  simp only [sentTo_cons, if_neg hne, sentTo_nil, List.nil_append]
  by_cases hid : id = t
  · rw [if_pos hid]
    exact hiff.trans ⟨fun h => ⟨hid, h⟩, fun h => h.2⟩
  · rw [if_neg hid]
    exact iff_of_false not_answered_nil fun h => hid h.1

omit ht in
theorem serve_pipe_iff {p : PipeFileDescriptor} (hd : s.objects[r]? = some (.pipe p)) (hfit : p.len ≤ 16) :
    ∃ s' left, serve env s (readRequest t fd count stack) ms = some (s', left) ∧ (Disciplined t count s s' ↔
      (p.closed = true ∨ p.len = 0 ∨ (count.toUInt32 ≠ 0 ∧ (p.id = t → count.toUInt32.toNat < p.len)))) := by
  have hdel := deliver_read (s := s) (m := readRequest t fd count stack) hf rfl ha hr
  obtain ⟨s', hfd, hsent⟩ := @readFd_pipe env (s.atFd (readRequest t fd count stack) f) r _ p hd
  rw [hfd] at hdel
  refine ⟨s', ms, (serve_of_ok hdel).trans attend_init, ?_⟩
  rw [atFd_sent] at hsent
  rw [disciplined_iff hsent]
  exact answered_pipe_iff hfit

end Kinds

/-- The running application `t` has sent the request of `read` on a descriptor `d`. The server that the descriptor asks
answers; `ms` is what comes to the application manager after the request. -/
structure Asking (x : Session) (env : Env) (p : Peers) (t count : UInt64) (fd : Int) (stack : ReadArg)
    (d : FileDescriptor) (ms : List Message) : Prop where
  held : ∃ a r, getAppInfo x.server.apps t = some a ∧ a.state = .run ∧ fileAt a fd = some r ∧
    x.server.objects[r]? = some d
  fs : ∀ f ∈ env.fs, f = p.fs.id
  peer : ∃ out, p.replies (readRequest t fd count stack) d = some out ∧
    ∀ f ∈ p.asked d, ∃ later, (ms.filter fun m => m.srcTask = f) = out ++ later
  waits : ∀ m ∈ ms, m.srcTask ≠ t

/-- **One `kRead` request.** The application manager always comes back to its open receive, and the reader has been
answered as `read` expects exactly when `ReadOk`. -/
theorem read_disciplined_iff {b x : Session} {es : List Event} (hb : b.Boot)
    (hx : TransitionSystem.exec Session.next b es = some x) {env : Env} {p : Peers} {t count : UInt64} {fd : Int}
    {stack : ReadArg} {d : FileDescriptor} {ms : List Message} (h : Asking x env p t count fd stack d ms) :
    ∃ s' left, serve env x.server (readRequest t fd count stack) ms = some (s', left) ∧
      (Disciplined t count x.server s' ↔ p.ReadOk env t count (readRequest t fd count stack) d) := by
  obtain ⟨⟨a, r, ha, -, hr, hd⟩, hfs, ⟨out, hout, hms⟩, ht⟩ := h
  cases hf : env.fs with
  | none =>
    obtain ⟨s', hdel, hsent⟩ := deliver_noFs (s := x.server) (m := readRequest t fd count stack) hf
    refine ⟨s', ms, (serve_of_ok hdel).trans attend_init, iff_of_false ?_ ?_⟩
    · rw [disciplined_iff (l := []) (by simpa using hsent)]
      exact not_answered_nil
    · simp [Peers.ReadOk, hf]
  | some f =>
    simp only [Peers.ReadOk, hf, Option.isSome_some, true_and]
    cases d with
    | terminal id terminal =>
      obtain ⟨reply, hreply, rfl⟩ := Option.map_eq_some_iff.mp hout
      obtain ⟨later, hlater⟩ := hms terminal rfl
      exact serve_terminal_iff hf ha hr ht hd hreply hlater
    | fat id file =>
      obtain ⟨⟨fs', out⟩, hread, rfl⟩ := Option.map_eq_some_iff.mp hout
      obtain ⟨later, hlater⟩ := hms p.fs.id rfl
      obtain rfl := hfs f (by rw [hf]; rfl)
      exact serve_fat_iff hf ha hr ht hd hread hlater
    | pipe q => exact serve_pipe_iff hf ha hr hd (hb.exec_fits hx r _ hd)

/-- A key press, with or without Ctrl. -/
def keyPush (modifier keycode ascii : UInt8) : Message := ⟨.kKeyPush, 1, .keyboard modifier keycode ascii true⟩

/-- The application 10, started from the terminal, reads its standard input; the user presses one key. A message of
task 5 comes before the terminal's. -/
theorem asking_key (fs : Fs.Server) (hfs : fs.id = 3) (k : Message) (stack : ReadArg) {reply : Message}
    (hk : terminalAnswer 4 stack [k] = some reply) (hsrc : reply.srcTask = 4) :
    ∃ x, TransitionSystem.exec Session.next Session.cold (Session.launch false 10) = some x ∧
      Asking x ⟨some 3, 4, none⟩ ⟨[k], stack, fs, 0⟩ 10 1 0 stack (.terminal 10 4) [⟨.kRead, 5, .unset⟩, reply] := by
  have hrun : (TransitionSystem.exec Session.next Session.cold (Session.launch false 10)).any (fun x =>
      decide (getAppInfo x.server.apps 10 = some ⟨10, 5, .run, [some 0, some 1, some 2]⟩) &&
        decide (x.server.objects[0]? = some (.terminal 10 4))) = true := by decide +kernel
  obtain ⟨x, hx, hp⟩ := (Option.any_eq_true _ _).mp hrun
  rw [Bool.and_eq_true, decide_eq_true_eq, decide_eq_true_eq] at hp
  refine ⟨x, hx, ⟨_, 0, hp.1, rfl, rfl, hp.2⟩, ?_, ⟨[reply], ?_, ?_⟩, ?_⟩
  · rintro f ⟨⟩
    exact hfs.symm
  · simp [Peers.replies, hk]
  · rintro f ⟨⟩
    exact ⟨[], by simp [hsrc]⟩
  · simp [hsrc]

/-- The user presses `a`. -/
theorem read_disciplined_key : ∃ x s' left,
    TransitionSystem.exec Session.next Session.cold (Session.launch false 10) = some x ∧
      serve ⟨some 3, 4, none⟩ x.server (readRequest 10 0 1 ⟨[], 0, .replicate 16 0, 0, 0, 0, 0⟩)
        [⟨.kRead, 5, .unset⟩, ⟨.kRead, 4, .read ⟨[], 0, (Vector.replicate 16 0).set 0 0x61, 1, 0, 0, 0⟩⟩] =
          some (s', left) ∧ Disciplined 10 1 x.server s' := by
  obtain ⟨x, hx, ha⟩ := asking_key { Fs.twoBytesServer with id := 3 } rfl (keyPush 0 4 0x61)
    ⟨[], 0, .replicate 16 0, 0, 0, 0, 0⟩ rfl rfl
  obtain ⟨s', left, hs, hiff⟩ := read_disciplined_iff Session.cold_boot hx ha
  exact ⟨x, s', left, hx, hs, hiff.mpr ⟨rfl, rfl, by decide, 0x61, rfl⟩⟩

/-- The user presses Ctrl-D: the terminal's `kRead` of length zero is passed on, and then comes another. -/
theorem read_undisciplined_eot : ¬ ∀ (b x : Session) (es : List Event) (env : Env) (p : Peers) (t count : UInt64)
    (fd : Int) (stack : ReadArg) (d : FileDescriptor) (ms : List Message), b.Boot →
    TransitionSystem.exec Session.next b es = some x → Asking x env p t count fd stack d ms →
    ∃ s' left, serve env x.server (readRequest t fd count stack) ms = some (s', left) ∧
      Disciplined t count x.server s' := by
  intro h
  obtain ⟨x, hx, ha⟩ := asking_key { Fs.twoBytesServer with id := 3 } rfl (keyPush 1 7 0x64)
    ⟨[], 0, .replicate 16 0, 0, 0, 0, 0⟩ rfl rfl
  obtain ⟨s', left, hs, hdis⟩ := h _ x _ _ _ _ _ _ _ _ _ Session.cold_boot hx ha
  obtain ⟨⟨a, r, happ, -, hr, hd⟩, -, ⟨_, -, hms⟩, ht⟩ := ha
  obtain ⟨s'', left', hs', hiff⟩ := @serve_terminal_iff ⟨some 3, 4, none⟩ x.server 10 3 1 0
    ⟨[], 0, .replicate 16 0, 0, 0, 0, 0⟩ a r _ rfl happ hr ht 10 4 hd ⟨[], 0, .replicate 16 0, 0, 0, 0, 0⟩
    [keyPush 1 7 0x64] [] _ rfl rfl
  rw [hs'] at hs
  cases hs
  obtain ⟨-, -, c, hc⟩ := hiff.mp hdis
  cases hc

end KinOS.Am
