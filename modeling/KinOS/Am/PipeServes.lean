import KinOS.Am.PipeSystem

/-!
# The application manager at a pipe

`Serves` is the application manager on a message of the writer or of the reader, as a step of the pipe alone, and
`serves_of_deliver` that `deliver` is one.
-/

namespace KinOS.Am

open Server

/-! ## Tables over an exit -/

section Exited

variable {t u : UInt64} {as : List AppInfo}

theorem exited_taskId (a : AppInfo) : (exited t a).taskId = a.taskId := by
  unfold exited
  split <;> rfl

theorem exited_pTaskId (a : AppInfo) : (exited t a).pTaskId = a.pTaskId := by
  unfold exited
  split <;> rfl

theorem getAppInfo_exited : ∀ {as : List AppInfo}, getAppInfo (as.map (exited t)) u = (getAppInfo as u).map (exited t)
  | [] => rfl
  | a :: as => by
    rw [List.map_cons, getAppInfo_cons, getAppInfo_cons, exited_taskId]
    by_cases ha : a.taskId = u
    · simp [ha]
    · simp [ha, getAppInfo_exited]

theorem getPID_exited : getPID (as.map (exited t)) u = getPID as u := by
  unfold getPID
  rw [getAppInfo_exited]
  cases getAppInfo as u with
  | none => rfl
  | some a => simp [exited_pTaskId]

theorem held_exited {q : Ref} (h : Held u (as.map (exited t)) q) : Held u as q := by
  obtain ⟨b, hb, hid, hrun, hq⟩ := h
  obtain ⟨a, ha, rfl⟩ := List.mem_map.mp hb
  unfold exited at hid hrun hq
  split at hq
  · cases hq
  · next hc =>
    rw [if_neg hc] at hid hrun
    exact ⟨a, ha, hid, hrun, hq⟩

theorem fileAt_exited {a : AppInfo} {fd : Int} : fileAt (exited t a) fd = fileAt a fd ∨ fileAt (exited t a) fd = none := by
  unfold exited
  split
  · right
    simp [fileAt]
  · exact .inl rfl

end Exited

namespace Duct

/-! ## One message at the application manager -/

def Retry (m : Message) : Prop := m.type = .kError ∧ m.errorRetry = true

def Refusal (m : Message) : Prop := m.type = .kError ∧ m.errorRetry = false

/-- What the writer has in the queue of the application manager; `ended`: it has left its program. -/
def FromWriter (wId : UInt64) (ended : Bool) (m : Message) : Prop :=
  m.srcTask = wId ∧ ((m.type = .kWrite ∧ (writeArg m).fd = 1 ∧ (writeArg m).len.toNat ≤ 16) ∨
    (m.type = .kExitApp ∧ exitappId m = wId ∧ ended = true))

def FromReader (rId : UInt64) (ended : Bool) (m : Message) : Prop :=
  m.srcTask = rId ∧ ((m.type = .kRead ∧ (readArg m).fd = 0) ∨
    (m.type = .kExitApp ∧ exitappId m = rId ∧ ended = true))

/-- What becomes of the pipe, and what the writer and the reader are sent. -/
inductive Serves (wId rId : UInt64) (wEnded rEnded : Bool) (p : PipeFileDescriptor) (m : Message) :
    PipeFileDescriptor → List Message → List Message → Prop
  | dropped : Serves wId rId wEnded rEnded p m p [] []
  | bouncedW {e : Message} (hs : m.srcTask = wId) (he : Retry e) : Serves wId rId wEnded rEnded p m p [e] []
  | bouncedR {e : Message} (hs : m.srcTask = rId) (he : Retry e) : Serves wId rId wEnded rEnded p m p [] [e]
  | unknownW {e : Message} (hs : m.srcTask = wId) (hend : wEnded = true) : Serves wId rId wEnded rEnded p m p [e] []
  | unknownR {e : Message} (hs : m.srcTask = rId) (hend : rEnded = true) : Serves wId rId wEnded rEnded p m p [] [e]
  | wrote (i : UInt64) (hs : m.srcTask = wId) (hm : m.type = .kWrite) : Serves wId rId wEnded rEnded p m
      (p.afterWrite (writeArg m)) ((p.writeAnswer (writeArg m)).map fun y => { y.2 with srcTask := i }) []
  | read (i : UInt64) (hs : m.srcTask = rId) (hm : m.type = .kRead) {l : List (UInt64 × Message)}
      (hl : l = (pipeAnswer p rId (readArg m).count.toNat).map fun y => (y.1, { y.2 with srcTask := i })) :
      Serves wId rId wEnded rEnded p m (p.afterRead (readArg m).count.toNat) (sentTo wId l) (sentTo rId l)
  | endedW {b : Bool} {l : List Message} (hs : m.srcTask = wId) (hend : wEnded = true) :
      Serves wId rId wEnded rEnded p m { p with closed := p.closed || b } l []
  | endedR {b : Bool} {l l' : List Message} (hs : m.srcTask = rId) (hend : rEnded = true) (hb : b = false → l = []) :
      Serves wId rId wEnded rEnded p m { p with closed := p.closed || b } l l'

/-- The pipe is where the two look for it, until they have left their programs. -/
structure Wires (wId rId : UInt64) (r : Ref) (wEnded rEnded : Bool) (p : PipeFileDescriptor) (s : Server) : Prop where
  pipe : s.objects[r]? = some (.pipe p)
  pid : p.id = wId
  apart : Apart wId rId r s
  writer : ∃ a, getAppInfo s.apps wId = some a ∧ (fileAt a 1 = some r ∨ fileAt a 1 = none ∧ wEnded = true)
  reader : ∃ a, getAppInfo s.apps rId = some a ∧ (fileAt a 0 = some r ∨ fileAt a 0 = none ∧ rEnded = true)

variable {wId rId : UInt64} {r : Ref} {we re : Bool} {p p' : PipeFileDescriptor} {s s' : Server} {m : Message}

theorem Apart.of_pipes (h : Apart wId rId r s) (hheld : ∀ t q, Held t s'.apps q → Held t s.apps q)
    (hpid : ∀ t, getPID s'.apps t = getPID s.apps t)
    (hobj : ∀ (q : Ref) (p' : PipeFileDescriptor), s'.objects[q]? = some (.pipe p') →
      ∃ p : PipeFileDescriptor, s.objects[q]? = some (.pipe p) ∧ p.id = p'.id) :
    Apart wId rId r s' where
  writer q p' hq hp' := by
    obtain ⟨p, hp, hid⟩ := hobj q p' hp'
    exact hid ▸ h.writer q p (hheld _ _ hq) hp
  reader q p' hq hp' := by
    obtain ⟨p, hp, hid⟩ := hobj q p' hp'
    exact hid ▸ h.reader q p (hheld _ _ hq) hp
  wParent := by
    rw [hpid]
    exact h.wParent
  rParent := by
    rw [hpid]
    exact h.rParent

theorem Wires.turns {l : List (UInt64 × Message)} (h : Wires wId rId r we re p s) (hid : p'.id = p.id)
    (ht : Turns s s' r p' l) : Wires wId rId r we re p' s' := by
  obtain ⟨hlt, -⟩ := List.getElem?_eq_some_iff.mp h.pipe
  refine ⟨?_, hid.trans h.pid, h.apart.of_pipes ?_ ?_ ?_, ?_, ?_⟩
  · rw [ht.objects]
    simp [hlt]
  · rw [ht.apps]
    exact fun _ _ h => h
  · rw [ht.apps]
    exact fun _ => rfl
  · intro q p'' hq
    rw [ht.objects] at hq
    by_cases hqr : r = q
    · subst hqr
      rw [List.getElem?_set_self hlt] at hq
      cases hq
      exact ⟨p, h.pipe, hid.symm⟩
    · rw [List.getElem?_set_ne hqr] at hq
      exact ⟨p'', hq, rfl⟩
  · rw [ht.apps]
    exact h.writer
  · rw [ht.apps]
    exact h.reader

theorem Ends.pipe {t : UInt64} (h : Ends t s s') {q : Ref} (hp' : s'.objects[q]? = some (.pipe p')) :
    ∃ p, s.objects[q]? = some (.pipe p) ∧ p.id = p'.id := by
  by_cases hq : Held t s.apps q
  · rw [h.closed q hq] at hp'
    obtain ⟨d, hd, hs⟩ := Option.map_eq_some_iff.mp hp'
    cases d with
    | pipe p =>
      cases hs
      exact ⟨p, hd, rfl⟩
    | terminal _ _ | fat _ _ => cases hs
  · rw [h.kept q hq] at hp'
    exact ⟨p', hp', rfl⟩

/-- An exit closes the pipe or leaves it alone. -/
theorem Ends.shut {t : UInt64} (h : Ends t s s') (hp : s.objects[r]? = some (.pipe p)) :
    ∃ b, s'.objects[r]? = some (.pipe { p with closed := p.closed || b }) ∧ (b = true ↔ Held t s.apps r) := by
  by_cases hq : Held t s.apps r
  · refine ⟨true, ?_, iff_of_true rfl hq⟩
    rw [h.closed r hq, hp]
    simp [FileDescriptor.shut]
  · refine ⟨false, ?_, iff_of_false Bool.false_ne_true hq⟩
    rw [h.kept r hq, hp]
    simp

theorem Wires.ends {t : UInt64} (h : Wires wId rId r we re p s) (ht : Ends t s s')
    (hw : t = wId → we = true) (hr : t = rId → re = true) :
    ∃ b, Wires wId rId r we re { p with closed := p.closed || b } s' ∧ (b = true ↔ Held t s.apps r) := by
  obtain ⟨b, hb, hiff⟩ := Ends.shut ht h.pipe
  have htable : ∀ u fd ended, (t = u → ended = true) →
      (∃ a, getAppInfo s.apps u = some a ∧ (fileAt a fd = some r ∨ fileAt a fd = none ∧ ended = true)) →
      ∃ a, getAppInfo s'.apps u = some a ∧ (fileAt a fd = some r ∨ fileAt a fd = none ∧ ended = true) := by
    rintro u fd ended hend ⟨a, ha, hfile⟩
    refine ⟨exited t a, by rw [ht.apps, getAppInfo_exited, ha]; rfl, ?_⟩
    by_cases htu : t = u
    · rcases @fileAt_exited t a fd with he | he
      · rw [he]
        exact hfile
      · exact .inr ⟨he, hend htu⟩
    · have hother : exited t a = a := if_neg fun hc => htu (hc.1.symm.trans (getAppInfo_mem ha).2)
      rw [hother]
      exact hfile
  refine ⟨b, ⟨hb, h.pid, h.apart.of_pipes ?_ ?_ fun q p' => Ends.pipe ht, htable _ _ _ hw h.writer,
    htable _ _ _ hr h.reader⟩, hiff⟩
  · rw [ht.apps]
    exact fun _ _ => held_exited
  · rw [ht.apps]
    exact fun _ => getPID_exited

theorem sentTo_filter_nil {t : UInt64} {l : List (UInt64 × Message)} (h : ∀ y ∈ l, y.1 ≠ t) : sentTo t l = [] := by
  unfold sentTo
  rw [List.filter_eq_nil_iff.mpr (by simpa using h), List.map_nil]

theorem sentTo_all {t : UInt64} {l : List (UInt64 × Message)} (h : ∀ y ∈ l, y.1 = t) : sentTo t l = l.map (·.2) := by
  unfold sentTo
  rw [List.filter_eq_self.mpr (by simpa using h)]

/-- `Serves`, for the messages that a round has sent. -/
def Served (wId rId : UInt64) (r : Ref) (we re : Bool) (p : PipeFileDescriptor) (m : Message) (s s' : Server) : Prop :=
  ∃ p' out, s'.sent = s.sent ++ out ∧ Serves wId rId we re p m p' (sentTo wId out) (sentTo rId out) ∧
    Wires wId rId r we re p' s'

theorem served_exit (hne : wId ≠ rId) (h : Wires wId rId r we re p s)
    (hm : m.srcTask = wId ∧ exitappId m = wId ∧ we = true ∨ m.srcTask = rId ∧ exitappId m = rId ∧ re = true)
    (hr : Idle s s' ∨ Ends (exitappId m) s s') : Served wId rId r we re p m s s' := by
  rcases hr with hi | he
  · refine ⟨p, [], by simp [hi.sent], .dropped, ?_⟩
    exact h.turns (l := []) rfl ⟨hi.id, hi.apps, hi.objects.trans (set_same h.pipe).symm, by simp [hi.sent]⟩
  · obtain ⟨l, x, y, hsent, hx, hy, hl⟩ := he.sent
    rcases hm with ⟨hs, hid, hend⟩ | ⟨hs, hid, hend⟩
    · rw [hid] at he hsent hl
      obtain ⟨b, hb, -⟩ := h.ends he (fun _ => hend) (fun hc => absurd hc hne)
      refine ⟨_, _, hsent, ?_, hb⟩
      have hnone : sentTo rId (l ++ [(getPID s.apps wId, x), (wId, y)]) = [] := by
        refine sentTo_filter_nil fun z hz => ?_
        rcases List.mem_append.mp hz with hz | hz
        · obtain ⟨-, q, p', hq, hp', hz⟩ := hl z hz
          rw [hz]
          exact h.apart.writer q p' hq hp'
        · rcases List.mem_cons.mp hz with rfl | hz
          · exact h.apart.wParent
          · rw [List.mem_singleton.mp hz]
            exact hne
      rw [hnone]
      exact .endedW hs hend
    · rw [hid] at he hsent hl
      obtain ⟨b, hb, hiff⟩ := h.ends he (fun hc => absurd hc.symm hne) (fun _ => hend)
      refine ⟨_, _, hsent, .endedR hs hend fun hb0 => ?_, hb⟩
      refine sentTo_filter_nil fun z hz => ?_
      rcases List.mem_append.mp hz with hz | hz
      · obtain ⟨-, q, p', hq, hp', hz⟩ := hl z hz
        rw [hz]
        rcases h.apart.reader q p' hq hp' with rfl | hid'
        · rw [hiff.mpr hq] at hb0
          cases hb0
        · exact hid'
      · rcases List.mem_cons.mp hz with rfl | hz
        · exact h.apart.rParent
        · rw [List.mem_singleton.mp hz]
          exact hne.symm

/-- **The application manager does with a message of the two what `Serves` says**, in whatever receive it takes it. -/
theorem serves_of_deliver {env : Env} {w w' : Wait} (hne : wId ≠ rId) (h : Wires wId rId r we re p s)
    (hm : FromWriter wId we m ∨ FromReader rId re m) (hmeets : s.Meets w m)
    (hd : deliver env w m s = .ok w' s') : Served wId rId r we re p m s s' := by
  have hto : ∀ {x : Message} {t : UInt64}, Turns s s' r p [(t, x)] →
      s'.sent = s.sent ++ [(t, { x with srcTask := s.id })] := fun ht => ht.sent
  rcases hmeets with rfl | hw
  · rcases hm with ⟨hs, ⟨hty, hfd, hlen⟩ | ⟨hty, hid, hend⟩⟩ | ⟨hs, ⟨hty, hfd⟩ | ⟨hty, hid, hend⟩⟩
    · obtain ⟨a, ha, hfile⟩ := h.writer
      have hround := write_round (a := a) hty hlen (by rw [hs]; exact ha)
        (by rw [hfd]; exact hfile.imp_right And.left) h.pipe hd
      rw [hs, hfd] at hround
      cases hround with
      | dropped ht => exact ⟨p, [], by simp [ht.sent], .dropped, h.turns rfl ht⟩
      | unknown hnone _ ht =>
        refine ⟨p, _, hto ht, ?_, h.turns rfl ht⟩
        simp only [sentTo_cons, if_true, if_neg hne, sentTo_nil]
        exact .unknownW hs (hfile.resolve_left (by simp [hnone])).2
      | done hsome ht =>
        refine ⟨_, _, ht.sent, ?_, h.turns (PipeFileDescriptor.afterWrite_id _) ht⟩
        have hall : ∀ y ∈ (p.writeAnswer (writeArg m)).map fun y => (y.1, ({ y.2 with srcTask := s.id } : Message)),
            y.1 = wId := by
          rw [← h.pid]
          unfold PipeFileDescriptor.writeAnswer
          repeat' split
          all_goals simp
        rw [sentTo_all hall, sentTo_filter_nil fun y hy => (hall y hy).trans_ne hne, List.map_map]
        exact .wrote s.id hs hty
    · exact served_exit hne h (.inl ⟨hs, hid, hend⟩) (exit_round hty hd)
    · obtain ⟨a, ha, hfile⟩ := h.reader
      have hround := read_round (a := a) hty (by rw [hs]; exact ha)
        (by rw [hfd]; exact hfile.imp_right And.left) h.pipe hd
      rw [hs, hfd] at hround
      cases hround with
      | dropped ht => exact ⟨p, [], by simp [ht.sent], .dropped, h.turns rfl ht⟩
      | unknown hnone _ ht =>
        refine ⟨p, _, hto ht, ?_, h.turns rfl ht⟩
        simp only [sentTo_cons, if_true, if_neg hne.symm, sentTo_nil]
        exact .unknownR hs (hfile.resolve_left (by simp [hnone])).2
      | done hsome ht => exact ⟨_, _, ht.sent, .read s.id hs hty rfl, h.turns (PipeFileDescriptor.afterRead_id _) ht⟩
    · exact served_exit hne h (.inr ⟨hs, hid, hend⟩) (exit_round hty hd)
  · -- a closed receive on somebody else
    obtain ⟨f, hf, hne'⟩ := (Option.any_eq_true _ _).mp hw
    rw [decide_eq_true_eq] at hne'
    rw [deliver_eq, hf] at hd
    simp only [if_neg (Ne.symm hne')] at hd
    cases hd
    have ht : Turns s (s.post ⟨.kError, 0, .error true 0⟩ m.srcTask) r p [(m.srcTask, ⟨.kError, 0, .error true 0⟩)] :=
      .unchanged h.pipe
    refine ⟨p, _, ht.sent, ?_, h.turns rfl ht⟩
    rcases hm with ⟨hs, -⟩ | ⟨hs, -⟩
    · rw [hs]
      simp only [List.map_cons, List.map_nil, sentTo_cons, if_true, if_neg hne, sentTo_nil]
      exact .bouncedW hs ⟨rfl, rfl⟩
    · rw [hs]
      simp only [List.map_cons, List.map_nil, sentTo_cons, if_true, if_neg hne.symm, sentTo_nil]
      exact .bouncedR hs ⟨rfl, rfl⟩

/-! ## What becomes of the pipe and what the reader gets -/

theorem Serves.pipe {outW outR : List Message} (h : Serves wId rId we re p m p' outW outR)
    (hfit : p.len ≤ 16) (hm : FromWriter wId we m ∨ FromReader rId re m) :
    p'.len ≤ 16 ∧ (p.closed = true → p'.closed = true) := by
  cases h with
  | dropped | bouncedW _ _ | bouncedR _ _ | unknownW _ _ | unknownR _ _ => exact ⟨hfit, fun h => h⟩
  | wrote i hsrc hty =>
    refine ⟨PipeFileDescriptor.afterWrite_fit hfit ?_, fun h => by simpa using h⟩
    rcases hm with ⟨-, ⟨-, -, hlen⟩ | ⟨hty', -⟩⟩ | ⟨-, ⟨hty', -⟩ | ⟨hty', -⟩⟩
    · exact hlen
    all_goals
      rw [hty] at hty'
      cases hty'
  | read i hsrc hty hl => exact ⟨PipeFileDescriptor.afterRead_fit hfit, fun h => by simpa using h⟩
  | endedW _ _ | endedR _ _ _ => exact ⟨hfit, fun h => by simp [h]⟩

/-- What the reader of a closed pipe is sent holds no data, and it is never refused before it has left. -/
theorem Serves.toReader (hne : wId ≠ rId) (hid : p.id = wId) {outW outR : List Message}
    (h : Serves wId rId we re p m p' outW outR) (hre : re = false) :
    (∀ e ∈ outR, ¬ Refusal e) ∧ (p.closed = true → dataIn outR = []) := by
  cases h with
  | dropped | bouncedW _ _ | unknownW _ _ | wrote _ _ _ | endedW _ _ => exact ⟨by simp, fun _ => rfl⟩
  | @bouncedR e hsrc he =>
    refine ⟨fun y hy hr => ?_, fun _ => by simp [dataBytes, he.1]⟩
    rw [List.mem_singleton.mp hy] at hr
    exact absurd (he.2.symm.trans hr.2) (by decide)
  | unknownR _ hend => exact absurd (hre.symm.trans hend) (by decide)
  | endedR _ hend _ => exact absurd (hre.symm.trans hend) (by decide)
  | @read i hsrc hty l hl =>
    subst hl
    refine ⟨fun e he hr => ?_, fun hc => ?_⟩
    · have : e ∈ sentTo rId _ := he
      unfold pipeAnswer at this
      by_cases hc : p.closed = true
      · simp [hc] at this
        rw [this] at hr
        cases hr.1
      by_cases h0 : p.len = 0
      · simp [hc, h0] at this
        rw [this] at hr
        cases hr.2
      by_cases hl : p.len ≤ (readArg m).count.toNat
      · simp [hc, h0, hl, hid, hne] at this
        rcases this with rfl | rfl <;> cases hr.1
      · simp [hc, h0, hl] at this
        rcases this with rfl | rfl <;> cases hr.1
    · simp [pipeAnswer, hc]
      rfl

/-- The pipe is only closed on an exit. -/
theorem Serves.closes {outW outR : List Message} (h : Serves wId rId we re p m p' outW outR) (ho : p.closed = false)
    (hc : p'.closed = true) (hre : re = false) : we = true ∧ outR = [] := by
  cases h with
  | dropped | bouncedW _ _ | bouncedR _ _ | unknownW _ _ | unknownR _ _ => exact absurd (ho.symm.trans hc) (by decide)
  | wrote _ _ _ => exact absurd (ho.symm.trans ((PipeFileDescriptor.afterWrite_closed _).symm.trans hc)) (by decide)
  | read _ _ _ _ => exact absurd (ho.symm.trans ((PipeFileDescriptor.afterRead_closed _).symm.trans hc)) (by decide)
  | endedW _ hend => exact ⟨hend, rfl⟩
  | endedR _ hend _ => exact absurd (hre.symm.trans hend) (by decide)

end Duct

end KinOS.Am
