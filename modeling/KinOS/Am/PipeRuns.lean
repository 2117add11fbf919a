import KinOS.Am.PipeServes

/-!
# What goes through a pipe

The invariant is about the pipe and the three queues: until the pipe is closed, what the reader has received, what is on
its way to it, what the pipe holds and what the writer still has to send are together what the writer was given. The
writer never goes past a chunk that the reader has not taken, since its one outstanding request is in the queue,
bounced, in the pipe or acknowledged.
-/

namespace KinOS.Am

open Server

namespace Duct

variable {wId rId : UInt64} {r : Ref} {we re : Bool} {p p' : PipeFileDescriptor} {s s' : Server} {m : Message}

/-- `TaskApp` stays where it is or has ended, and it only sends its message again. -/
theorem take_exiting (t : UInt64) (msg m : Message) :
    (((Call.exiting msg).take t m).1 = .exiting msg ∨ ((Call.exiting msg).take t m).1 = .finished) ∧
      ∀ y ∈ ((Call.exiting msg).take t m).2.1, y = msg := by
  simp only [Call.take]
  split
  · refine ⟨.inl rfl, fun y hy => ?_⟩
    split at hy
    · exact List.mem_singleton.mp hy
    · cases hy
  split
  · exact ⟨.inr rfl, by simp⟩
  · exact ⟨.inl rfl, by simp⟩

/-- Once it has left its program a task returns from no call. -/
theorem take_ended {c : Call} (h : c.ended = true) (t : UInt64) (m : Message) : (c.take t m).2.2 = [] := by
  cases c with
  | idle | writing _ _ _ | reading _ _ => cases h
  | finished => rfl
  | exiting msg =>
    simp only [Call.take]
    repeat' split
    all_goals rfl

/-! ## The writer's request -/

/-- The messages of the task `t`. -/
def mine (t : UInt64) (ms : List Message) : List Message := ms.filter fun m => m.srcTask = t

theorem mine_cons_self {t : UInt64} {m : Message} {ms : List Message} (h : m.srcTask = t) :
    mine t (m :: ms) = m :: mine t ms := by simp [mine, h]

theorem mine_cons_other {t : UInt64} {m : Message} {ms : List Message} (h : m.srcTask ≠ t) :
    mine t (m :: ms) = mine t ms := by simp [mine, h]

theorem mine_append (t : UInt64) (ms ms' : List Message) : mine t (ms ++ ms') = mine t ms ++ mine t ms' := by
  simp [mine]

/-- The one request of a `write` in progress: in the queue, bounced, dropped, in the pipe or acknowledged; `true`: the
pipe does not have it yet. -/
inductive Token (smsg : Message) (queue answers : List Message) (len : Nat) : Bool → Prop
  | asked (hq : queue = [smsg]) (ha : answers = []) (hl : len = 0) : Token smsg queue answers len true
  | bounced {e : Message} (hq : queue = []) (ha : answers = [e]) (he : Retry e) (hl : len = 0) :
      Token smsg queue answers len true
  | dropped (hq : queue = []) (ha : answers = []) (hl : len = 0) : Token smsg queue answers len true
  | stored (hq : queue = []) (ha : answers = []) (hl : len ≠ 0) : Token smsg queue answers len false
  | acked {e : Message} (hq : queue = []) (ha : answers = [e]) (he : e.type = .kReceived) (hl : len = 0) :
      Token smsg queue answers len false

/-- Where the writer is while the pipe is open, and the bytes it still has to hand over. -/
inductive WriterAt (wId : UInt64) (p : PipeFileDescriptor) (queue answers : List Message) : Call → List UInt8 → Prop
  | idle (hq : queue = []) (ha : answers = []) (hl : p.len = 0) : WriterAt wId p queue answers .idle []
  | writing {smsg : WriteArg} {left : List UInt8} {count : Nat} {b : Bool}
      (ht : Token (writeMsg wId smsg) queue answers p.len b) :
      WriterAt wId p queue answers (.writing smsg left count) ((if b then chunk smsg else []) ++ left)
  | ended {c : Call} (hc : c.ended = true) (hq : ∀ m ∈ queue, m.type = .kExitApp) (hl : p.len = 0) :
      WriterAt wId p queue answers c []

theorem content_nil (h : p.len = 0) : p.content = [] := by simp [PipeFileDescriptor.content, h]

theorem WriterAt.of_ended {queue answers : List Message} {c : Call} {held : List UInt8}
    (h : WriterAt wId p queue answers c held) (hc : c.ended = true) :
    held = [] ∧ p.len = 0 ∧ ∀ m ∈ queue, m.type = .kExitApp := by
  cases h with
  | idle _ _ _ => cases hc
  | writing _ => cases hc
  | ended _ hq hl => exact ⟨rfl, hl, hq⟩

/-- Of the pipe only the length counts. -/
theorem WriterAt.of_len {queue answers : List Message} {c : Call} {held : List UInt8}
    (h : WriterAt wId p queue answers c held) (hl : p'.len = p.len) : WriterAt wId p' queue answers c held := by
  cases h with
  | idle hq ha h0 => exact .idle hq ha (hl.trans h0)
  | writing ht =>
    rw [← hl] at ht
    exact .writing ht
  | ended hc hq h0 => exact .ended hc hq (hl.trans h0)

/-- A message of the writer at the front of the queue is the request of its call, or it has left its program. -/
theorem WriterAt.front {queue answers : List Message} {c : Call} {held : List UInt8}
    (h : WriterAt wId p (m :: queue) answers c held) :
    (∃ smsg left count, c = .writing smsg left count ∧ held = chunk smsg ++ left ∧ m = writeMsg wId smsg ∧ queue = [] ∧
      answers = [] ∧ p.len = 0) ∨
    (c.ended = true ∧ held = [] ∧ p.len = 0 ∧ ∀ x ∈ m :: queue, x.type = .kExitApp) := by
  cases h with
  | idle hq _ _ => cases hq
  | @writing smsg left count b ht =>
    cases ht with
    | asked hq ha hl =>
      obtain ⟨rfl, rfl⟩ := List.cons.inj hq
      exact .inl ⟨smsg, left, count, rfl, rfl, rfl, rfl, ha, hl⟩
    | bounced hq _ _ _ | dropped hq _ _ | stored hq _ _ | acked hq _ _ _ => cases hq
  | ended hc hq hl => exact .inr ⟨hc, rfl, hl, hq⟩

/-- The pipe sends the writer an acknowledgement when the reader has emptied it, and nothing else. -/
theorem sentTo_pipeAnswer {count : Nat} {i : UInt64} (hne : wId ≠ rId) (hid : p.id = wId) (ho : p.closed = false) :
    sentTo wId ((pipeAnswer p rId count).map fun y => (y.1, ({ y.2 with srcTask := i } : Message))) =
      if p.len ≠ 0 ∧ p.len ≤ count then [{ receivedMsg with srcTask := i }] else [] := by
  unfold pipeAnswer
  simp only [ho, Bool.false_eq_true, if_false]
  by_cases h0 : p.len = 0
  · simp [h0, hne.symm]
  · by_cases hl : p.len ≤ count
    · simp [h0, hl, hne.symm, hid]
    · simp [h0, hl, hne.symm]

theorem afterRead_len (count : Nat) (ho : p.closed = false) :
    (p.afterRead count).len = if p.len ≤ count then 0 else p.len - count := by
  unfold PipeFileDescriptor.afterRead
  simp only [ho, Bool.false_eq_true, if_false]
  by_cases h0 : p.len = 0
  · simp [h0]
  · by_cases hl : p.len ≤ count
    · simp [h0, hl]
    · simp [h0, hl]

/-- Its chunk goes into the pipe; one without bytes is acknowledged. -/
theorem WriterAt.wrote {queue answers : List Message} {c : Call} {held : List UInt8} {i : UInt64}
    (ho : p.closed = false) (hty : m.type = .kWrite) (h : WriterAt wId p (m :: queue) answers c held) :
    ∃ held', WriterAt wId (p.afterWrite (writeArg m)) queue
        (answers ++ (p.writeAnswer (writeArg m)).map fun y => { y.2 with srcTask := i }) c held' ∧
      (p.afterWrite (writeArg m)).content ++ held' = p.content ++ held := by
  obtain ⟨smsg, left, count, rfl, rfl, rfl, rfl, rfl, hl⟩ | ⟨-, -, -, hq⟩ := h.front
  swap
  · rw [hq m (List.mem_cons_self ..)] at hty
    cases hty
  have hw : writeArg (writeMsg wId smsg) = smsg := rfl
  rw [hw]
  have hlen := PipeFileDescriptor.afterWrite_len (w := smsg) ho hl
  have hanswer : p.writeAnswer smsg = if smsg.len ≠ 0 then [] else [(p.id, receivedMsg)] := by
    simp [PipeFileDescriptor.writeAnswer, ho, hl]
  refine ⟨left, ?_, ?_⟩
  · rw [hanswer]
    by_cases hz : smsg.len = 0
    · rw [if_neg (not_not.mpr hz)]
      exact .writing (b := false) (.acked rfl rfl rfl (by rw [hlen, hz]; rfl))
    · rw [if_pos hz]
      refine .writing (b := false) (.stored rfl rfl ?_)
      rw [hlen]
      exact fun h0 => hz (UInt8.toNat_inj.mp h0)
  · rw [PipeFileDescriptor.content_afterWrite ho hl, content_nil hl]
    simp

/-- The reader's request acknowledges the chunk once it has taken all of it. -/
theorem WriterAt.read {queue answers : List Message} {c : Call} {held : List UInt8} {count : Nat} {i : UInt64}
    (hne : wId ≠ rId) (hid : p.id = wId) (ho : p.closed = false) (h : WriterAt wId p queue answers c held) :
    WriterAt wId (p.afterRead count) queue (answers ++ sentTo wId
      ((pipeAnswer p rId count).map fun y => (y.1, ({ y.2 with srcTask := i } : Message)))) c held := by
  have hlen := afterRead_len (p := p) count ho
  rw [sentTo_pipeAnswer hne hid ho]
  by_cases h0 : p.len = 0
  · rw [if_neg fun hc => hc.1 h0, List.append_nil]
    refine h.of_len ?_
    rw [hlen, h0]
    simp
  cases h with
  | idle _ _ hl => exact absurd hl h0
  | ended _ _ hl => exact absurd hl h0
  | writing ht =>
    cases ht with
    | asked _ _ hl | bounced _ _ _ hl | dropped _ _ hl | acked _ _ _ hl => exact absurd hl h0
    | stored hq ha _ =>
      by_cases hle : p.len ≤ count
      · rw [if_pos ⟨h0, hle⟩, ha]
        exact .writing (.acked hq rfl rfl (by rw [hlen, if_pos hle]))
      · rw [if_neg fun hc => hle hc.2, List.append_nil]
        refine .writing (.stored hq ha ?_)
        rw [hlen, if_neg hle]
        omega

/-- One message at the application manager while the pipe stays open: **the bytes that leave the pipe are those that
the reader is sent, and the bytes that come in are the writer's next.** -/
theorem WriterAt.served {ms outW outR tow : List Message} {c : Call} {held : List UInt8} (hne : wId ≠ rId)
    (hid : p.id = wId) (hfit : p.len ≤ 16) (ho : p.closed = false) (ho' : p'.closed = false)
    (hm : FromWriter wId c.ended m ∨ FromReader rId re m) (h : WriterAt wId p (mine wId (m :: ms)) tow c held)
    (hs : Serves wId rId c.ended re p m p' outW outR) :
    ∃ held', WriterAt wId p' (mine wId ms) (tow ++ outW) c held' ∧
      (re = false → dataIn outR ++ p'.content ++ held' = p.content ++ held) := by
  have hexit : c.ended = true → (∀ x ∈ mine wId (m :: ms), x.type = .kExitApp) →
      ∀ q : PipeFileDescriptor, q.len = 0 → ∀ l, WriterAt wId q (mine wId ms) l c [] := by
    intro hc hq q hl l
    refine .ended hc (fun x hx => hq x ?_) hl
    obtain ⟨hx, hsrc⟩ := List.mem_filter.mp hx
    exact List.mem_filter.mpr ⟨List.mem_cons_of_mem _ hx, hsrc⟩
  have hreader : m.srcTask = rId → WriterAt wId p (mine wId ms) tow c held := by
    intro hr
    rwa [mine_cons_other (by rw [hr]; exact hne.symm)] at h
  cases hs with
  | dropped =>
    refine ⟨held, ?_, fun _ => by simp⟩
    rw [List.append_nil]
    rcases hm with ⟨hsrc, -⟩ | ⟨hsrc, -⟩
    · rw [mine_cons_self hsrc] at h
      obtain ⟨smsg, left, count, rfl, rfl, -, hnil, ha, hl⟩ | ⟨hc, rfl, hl, hq⟩ := h.front
      · exact .writing (b := true) (.dropped hnil ha hl)
      · exact .ended hc (fun x hx => hq x (List.mem_cons_of_mem _ hx)) hl
    · exact hreader hsrc
  | bouncedW hsrc he =>
    refine ⟨held, ?_, fun _ => by simp⟩
    rw [mine_cons_self hsrc] at h
    obtain ⟨smsg, left, count, rfl, rfl, -, hnil, ha, hl⟩ | ⟨hc, rfl, hl, hq⟩ := h.front
    · exact .writing (b := true) (.bounced hnil (by rw [ha]; rfl) he hl)
    · exact .ended hc (fun x hx => hq x (List.mem_cons_of_mem _ hx)) hl
  | @bouncedR e hsrc he =>
    have hnone : dataBytes e = [] := by simp [dataBytes, he.1]
    exact ⟨held, by simpa using hreader hsrc, fun _ => by simp [hnone]⟩
  | unknownW _ hend =>
    obtain ⟨rfl, hl, hq⟩ := h.of_ended hend
    exact ⟨[], hexit hend hq p hl _, fun _ => by simp⟩
  | unknownR hsrc hend => exact ⟨held, by simpa using hreader hsrc, fun hre => absurd (hre.symm.trans hend) (by decide)⟩
  | wrote i hsrc hty =>
    rw [mine_cons_self hsrc] at h
    obtain ⟨held', hat, hcontent⟩ := h.wrote ho hty
    exact ⟨held', hat, fun _ => hcontent⟩
  | @read i hsrc hty l hl =>
    subst hl
    have hdata := PipeFileDescriptor.content_afterRead (t := rId) (i := i) (readArg m).count.toNat hfit ho
      (by rw [hid]; exact hne)
    exact ⟨held, (hreader hsrc).read hne hid ho, fun _ => by rw [hdata]⟩
  | @endedW b l hsrc hend =>
    obtain ⟨rfl, hl, hq⟩ := h.of_ended hend
    exact ⟨[], hexit hend hq { p with closed := p.closed || b } hl _, fun _ => by simp [PipeFileDescriptor.content]⟩
  | @endedR b l l' hsrc hend hb =>
    have hb0 : b = false := by simpa [ho] using ho'
    have hsame : ({ p with closed := p.closed || b } : PipeFileDescriptor) = p := by rw [hb0, Bool.or_false]
    rw [hb hb0, hsame, List.append_nil]
    exact ⟨held, hreader hsrc, fun hre => absurd (hre.symm.trans hend) (by decide)⟩

/-! ## The chunks of a call -/

theorem nextChunk_fd (smsg : WriteArg) (bs : List UInt8) : (nextChunk smsg bs).fd = smsg.fd := by
  simp only [nextChunk]

theorem nextChunk_len (smsg : WriteArg) (bs : List UInt8) : (nextChunk smsg bs).len.toNat = min 16 bs.length := by
  change (UInt8.ofNat (min 16 bs.length)).toNat = _
  rw [UInt8.toNat_ofNat']
  omega

theorem nextChunk_len_zero {smsg : WriteArg} {bs : List UInt8} (h : (nextChunk smsg bs).len = 0) : bs = [] := by
  have hlen := nextChunk_len smsg bs
  rw [h] at hlen
  have h0 : bs.length = 0 := by
    change 0 = _ at hlen
    omega
  exact List.length_eq_zero_iff.mp h0

theorem chunk_nextChunk (smsg : WriteArg) (bs : List UInt8) : chunk (nextChunk smsg bs) = bs.take 16 := by
  unfold chunk
  rw [nextChunk_len]
  apply List.ext_getElem?
  intro i
  by_cases hi : i < min 16 bs.length
  · have h16 : i < 16 := by omega
    have hb : i < bs.length := by omega
    rw [List.getElem?_take_of_lt hi, List.getElem?_take_of_lt h16, Vector.getElem?_toList, Vector.getElem?_eq_getElem h16,
      List.getElem?_eq_getElem hb]
    simp [nextChunk, hb]
  · rw [List.getElem?_take_eq_none (by omega)]
    by_cases h16 : i < 16
    · rw [List.getElem?_take_of_lt h16, List.getElem?_eq_none (by omega)]
    · rw [List.getElem?_take_eq_none (by omega)]

/-! ## The invariant -/

/-- What the writer's call keeps to. -/
def WriterCall (wId : UInt64) : Call → Prop
  | .writing smsg left _ => smsg.fd = 1 ∧ smsg.len.toNat ≤ 16 ∧ (smsg.len = 0 → left = [])
  | .reading _ _ => False
  | .exiting msg => msg.srcTask = wId ∧ msg.type = .kExitApp ∧ exitappId msg = wId
  | _ => True

def ReaderCall (rId : UInt64) : Call → Prop
  | .reading smsg _ => smsg.srcTask = rId ∧ smsg.type = .kRead ∧ (readArg smsg).fd = 0
  | .writing _ _ _ => False
  | .exiting msg => msg.srcTask = rId ∧ msg.type = .kExitApp ∧ exitappId msg = rId
  | _ => True

structure InvAt (wId rId : UInt64) (r : Ref) (p : PipeFileDescriptor) (x : Duct) : Prop where
  wires : Wires wId rId r x.writer.ended x.reader.ended p x.server
  fit : p.len ≤ 16
  queue : ∀ m ∈ x.toAm, FromWriter wId x.writer.ended m ∨ FromReader rId x.reader.ended m
  writer : WriterCall wId x.writer
  reader : ReaderCall rId x.reader
  answers : x.reader.ended = false → ∀ e ∈ x.toReader, ¬ Refusal e
  opened : p.closed = false → ∃ held, WriterAt wId p (mine wId x.toAm) x.toWriter x.writer held ∧
    (x.reader.ended = false → x.received ++ dataIn x.toReader ++ p.content ++ held = x.given)
  closed : p.closed = true → x.reader.ended = false →
    x.writer.ended = true ∧ x.received ++ dataIn x.toReader = x.given
  sound : x.received <+: x.given
  log : x.reader.ended = false → Result.failed ∉ x.wlog

theorem Start.inv {x : Duct} (h : Start wId rId r x) : InvAt wId rId r (.new wId) x := by
  obtain ⟨hw, hr⟩ := h.calls
  obtain ⟨ham, htw, htr⟩ := h.queues
  obtain ⟨hg, hwl, hrl⟩ := h.logs
  obtain ⟨a, ha, hfa⟩ := h.writer
  obtain ⟨b, hb, hfb⟩ := h.reader
  have hrec : x.received = [] := by simp [received, hrl, hr, Call.got]
  refine ⟨⟨h.pipe, rfl, h.apart, ⟨a, ha, .inl hfa⟩, ⟨b, hb, .inl hfb⟩⟩,
    Nat.zero_le _, by simp [ham], by simp [hw, WriterCall],
    by simp [hr, ReaderCall], by simp [htr], fun _ => ⟨[], ?_, fun _ => ?_⟩, fun hc => (nomatch hc), by simp [hrec],
    fun _ => by simp [hwl]⟩
  · rw [hw, ham, htw]
    exact .idle rfl rfl rfl
  · rw [hrec, htr, hg]
    rfl

theorem FromWriter.write {b : Bool} {smsg : WriteArg} (hfd : smsg.fd = 1) (hlen : smsg.len.toNat ≤ 16) :
    FromWriter wId b (writeMsg wId smsg) :=
  ⟨rfl, .inl ⟨rfl, hfd, hlen⟩⟩

theorem WriterCall.writing {smsg : WriteArg} (bs : List UInt8) (count : Nat) (hfd : smsg.fd = 1) :
    WriterCall wId (.writing (nextChunk smsg bs) (bs.drop 16) count) := by
  refine ⟨(nextChunk_fd smsg bs).trans hfd, ?_, fun hz => ?_⟩
  · rw [nextChunk_len]
    exact Nat.min_le_left _ _
  · rw [nextChunk_len_zero hz]
    rfl

/-- The flags only go up. -/
theorem FromWriter.mono {b b' : Bool} (h : b = true → b' = true) (hm : FromWriter wId b m) : FromWriter wId b' m :=
  ⟨hm.1, hm.2.imp_right fun ⟨h1, h2, h3⟩ => ⟨h1, h2, h h3⟩⟩

theorem FromReader.mono {b b' : Bool} (h : b = true → b' = true) (hm : FromReader rId b m) : FromReader rId b' m :=
  ⟨hm.1, hm.2.imp_right fun ⟨h1, h2, h3⟩ => ⟨h1, h2, h h3⟩⟩

theorem Wires.mono {we' re' : Bool} (h : Wires wId rId r we re p s) (hw : we = true → we' = true)
    (hr : re = true → re' = true) : Wires wId rId r we' re' p s where
  pipe := h.pipe
  pid := h.pid
  apart := h.apart
  writer := by
    obtain ⟨a, ha, hfile⟩ := h.writer
    exact ⟨a, ha, hfile.imp_right fun ⟨h1, h2⟩ => ⟨h1, hw h2⟩⟩
  reader := by
    obtain ⟨a, ha, hfile⟩ := h.reader
    exact ⟨a, ha, hfile.imp_right fun ⟨h1, h2⟩ => ⟨h1, hr h2⟩⟩

variable {x x' : Duct}

/-! ### The application manager -/

/-- The application manager's step: it serves the message at the front of its queue. -/
theorem InvAt.am_serves {env : Env} {w : Wait} (hne : wId ≠ rId) (h : InvAt wId rId r p x)
    (hx : x.next wId rId (.am env w) = some x') : ∃ m ms p' s outW outR, x.toAm = m :: ms ∧
      (FromWriter wId x.writer.ended m ∨ FromReader rId x.reader.ended m) ∧
      Serves wId rId x.writer.ended x.reader.ended p m p' outW outR ∧
      Wires wId rId r x.writer.ended x.reader.ended p' s ∧
      x' = { x with
        server := s
        toAm := ms
        toWriter := x.toWriter ++ outW
        toReader := x.toReader ++ outR } := by
  obtain ⟨m, ms, w', s, ham, hmeets, hd, rfl⟩ := next_am hx
  have hm := h.queue m (by rw [ham]; exact List.mem_cons_self ..)
  obtain ⟨p', out, hsent, hs, hwires⟩ := serves_of_deliver hne h.wires hm hmeets hd
  have hout : s.sent.drop x.server.sent.length = out := by rw [hsent, List.drop_left]
  rw [hout]
  exact ⟨m, ms, p', s, _, _, ham, hm, hs, hwires, rfl⟩

theorem InvAt.served {ms outW outR : List Message} (hne : wId ≠ rId) (h : InvAt wId rId r p x) (ham : x.toAm = m :: ms)
    (hm : FromWriter wId x.writer.ended m ∨ FromReader rId x.reader.ended m)
    (hs : Serves wId rId x.writer.ended x.reader.ended p m p' outW outR)
    (hwires : Wires wId rId r x.writer.ended x.reader.ended p' s) :
    InvAt wId rId r p' { x with
      server := s
      toAm := ms
      toWriter := x.toWriter ++ outW
      toReader := x.toReader ++ outR } := by
  obtain ⟨hfit, hclosed⟩ := hs.pipe h.fit hm
  refine ⟨hwires, hfit, fun y hy => h.queue y (by rw [ham]; exact List.mem_cons_of_mem _ hy), h.writer, h.reader,
    fun hre e he => ?_, fun ho' => ?_, fun hc hre => ?_, h.sound, h.log⟩
  · rcases List.mem_append.mp he with he | he
    · exact h.answers hre e he
    · exact (hs.toReader hne h.wires.pid hre).1 e he
  · have ho : p.closed = false := by
      by_contra hc
      rw [hclosed (by simpa using hc)] at ho'
      cases ho'
    obtain ⟨held, hat, hflow⟩ := h.opened ho
    rw [ham] at hat
    obtain ⟨held', hat', hflow'⟩ := hat.served hne h.wires.pid h.fit ho ho' hm hs
    refine ⟨held', hat', fun hre => ?_⟩
    change x.received ++ dataIn (x.toReader ++ outR) ++ p'.content ++ held' = x.given
    rw [← hflow hre, dataIn_append, List.append_assoc (_ ++ _) p.content, ← hflow' hre]
    simp only [List.append_assoc]
  · change x.writer.ended = true ∧ x.received ++ dataIn (x.toReader ++ outR) = x.given
    rw [dataIn_append]
    by_cases ho : p.closed = true
    · obtain ⟨hend, hflow⟩ := h.closed ho hre
      rw [(hs.toReader hne h.wires.pid hre).2 ho, List.append_nil]
      exact ⟨hend, hflow⟩
    · -- the writer's exit closes it, when nothing of the writer's is on the way
      have ho : p.closed = false := Bool.eq_false_iff.mpr ho
      obtain ⟨hend, hnil⟩ := hs.closes ho hc hre
      obtain ⟨held, hat, hflow⟩ := h.opened ho
      obtain ⟨rfl, hl, -⟩ := hat.of_ended hend
      refine ⟨hend, ?_⟩
      rw [← hflow hre, content_nil hl, hnil]
      simp

/-! ### The writer and the reader -/

theorem InvAt.write {stack : WriteArg} {bs : List UInt8} (h : InvAt wId rId r p x)
    (hx : x.next wId rId (.write stack bs) = some x') : InvAt wId rId r p x' := by
  obtain ⟨hidle, rfl⟩ := next_write hx
  have hend : x.writer.ended = false := by rw [hidle]; rfl
  have hmono : x.writer.ended = true → (false : Bool) = true := fun hc => hend.symm.trans hc
  let base : WriteArg := { stack with fd := 1, count := .ofNat bs.length }
  have hcall : WriterCall wId (.writing (nextChunk base bs) (bs.drop 16) bs.length) := .writing bs bs.length rfl
  refine ⟨h.wires.mono hmono fun h => h, h.fit, fun m hm => ?_, hcall, h.reader, h.answers,
    fun ho => ?_, fun hc hre => ?_, h.sound.trans (List.prefix_append _ _), h.log⟩
  · rcases List.mem_append.mp hm with hm | hm
    · exact (h.queue m hm).imp_left (FromWriter.mono hmono)
    · rw [List.mem_singleton.mp hm]
      exact .inl (.write hcall.1 hcall.2.1)
  · obtain ⟨held, hat, hflow⟩ := h.opened ho
    rw [hidle] at hat
    cases hat with
    | idle hq ha hl =>
      refine ⟨_, .writing (b := true) (.asked ?_ ha hl), fun hre => ?_⟩
      · rw [mine_append, hq]
        exact mine_cons_self rfl
      · change x.received ++ dataIn x.toReader ++ p.content ++ (chunk (nextChunk base bs) ++ bs.drop 16) = x.given ++ bs
        rw [chunk_nextChunk, List.take_append_drop, ← hflow hre, List.append_nil]
    | ended hc _ _ => cases hc
  · exact absurd ((h.closed hc hre).1.symm.trans hend) (by decide)

theorem InvAt.read {stack : ReadArg} {count : UInt64} (hne : wId ≠ rId) (h : InvAt wId rId r p x)
    (hx : x.next wId rId (.read stack count) = some x') : InvAt wId rId r p x' := by
  obtain ⟨hidle, rfl⟩ := next_read hx
  have hend : x.reader.ended = false := by rw [hidle]; rfl
  have hmono : x.reader.ended = true → (false : Bool) = true := fun hc => hend.symm.trans hc
  let smsg := readRequest rId 0 count stack
  have hrec : ({ x with reader := .reading smsg [], toAm := x.toAm ++ [smsg] } : Duct).received = x.received := by
    simp [received, hidle, Call.got]
  refine ⟨h.wires.mono (fun h => h) hmono, h.fit, fun m hm => ?_, h.writer, ⟨rfl, rfl, rfl⟩, fun _ => h.answers hend,
    fun ho => ?_, fun hc _ => ?_, ?_, fun _ => h.log hend⟩
  · rcases List.mem_append.mp hm with hm | hm
    · exact (h.queue m hm).imp_right (FromReader.mono hmono)
    · rw [List.mem_singleton.mp hm]
      exact .inr ⟨rfl, .inl ⟨rfl, rfl⟩⟩
  · obtain ⟨held, hat, hflow⟩ := h.opened ho
    refine ⟨held, ?_, fun _ => ?_⟩
    · change WriterAt wId p (mine wId (x.toAm ++ [smsg])) x.toWriter x.writer held
      rw [mine_append, mine_cons_other (Ne.symm hne)]
      simpa [mine] using hat
    · rw [hrec]
      exact hflow hend
  · rw [hrec]
    exact h.closed hc hend
  · rw [hrec]
    exact h.sound

theorem InvAt.exitWriter {ec : UInt64} (h : InvAt wId rId r p x)
    (hx : x.next wId rId (.exitWriter ec) = some x') : InvAt wId rId r p x' := by
  obtain ⟨hidle, rfl⟩ := next_exitWriter hx
  have hend : x.writer.ended = false := by rw [hidle]; rfl
  refine ⟨h.wires.mono (fun _ => rfl) fun h => h, h.fit, fun m hm => ?_, ⟨rfl, rfl, rfl⟩, h.reader, h.answers,
    fun ho => ?_, fun hc hre => ?_, h.sound, h.log⟩
  · rcases List.mem_append.mp hm with hm | hm
    · exact (h.queue m hm).imp_left (FromWriter.mono fun _ => rfl)
    · rw [List.mem_singleton.mp hm]
      exact .inl ⟨rfl, .inr ⟨rfl, rfl, rfl⟩⟩
  · obtain ⟨held, hat, hflow⟩ := h.opened ho
    rw [hidle] at hat
    cases hat with
    | idle hq ha hl =>
      refine ⟨[], .ended rfl (fun m hm => ?_) hl, hflow⟩
      rw [mine_append, hq, List.nil_append] at hm
      obtain rfl := List.mem_singleton.mp (List.mem_filter.mp hm).1
      rfl
    | ended hc _ _ => cases hc
  · exact absurd ((h.closed hc hre).1.symm.trans hend) (by decide)

theorem InvAt.exitReader {ec : UInt64} (hne : wId ≠ rId) (h : InvAt wId rId r p x)
    (hx : x.next wId rId (.exitReader ec) = some x') : InvAt wId rId r p x' := by
  obtain ⟨hidle, rfl⟩ := next_exitReader hx
  have hrec : ({ x with reader := .exiting (exitMsg rId ec), toAm := x.toAm ++ [exitMsg rId ec] } : Duct).received =
      x.received := by simp [received, hidle, Call.got]
  refine ⟨h.wires.mono (fun h => h) fun _ => rfl, h.fit, fun m hm => ?_, h.writer, ⟨rfl, rfl, rfl⟩, fun hre => (nomatch hre),
    fun ho => ?_, fun _ hre => (nomatch hre), ?_, fun hre => (nomatch hre)⟩
  · rcases List.mem_append.mp hm with hm | hm
    · exact (h.queue m hm).imp_right (FromReader.mono fun _ => rfl)
    · rw [List.mem_singleton.mp hm]
      exact .inr ⟨rfl, .inr ⟨rfl, rfl, rfl⟩⟩
  · obtain ⟨held, hat, -⟩ := h.opened ho
    refine ⟨held, ?_, fun hre => (nomatch hre)⟩
    change WriterAt wId p (mine wId (x.toAm ++ [exitMsg rId ec])) x.toWriter x.writer held
    rw [mine_append, mine_cons_other (Ne.symm hne)]
    simpa [mine] using hat
  · rw [hrec]
    exact h.sound

/-- What the writer sends when it takes a message, and where it is then. -/
theorem WriterCall.take {c : Call} (h : WriterCall wId c) (m : Message) : WriterCall wId (c.take wId m).1 ∧
    (c.take wId m).1.ended = c.ended ∧ ∀ y ∈ (c.take wId m).2.1, FromWriter wId c.ended y := by
  cases c with
  | idle | finished => exact ⟨trivial, rfl, by simp [Call.take]⟩
  | reading _ _ => exact h.elim
  | writing smsg left count =>
    have hagain : FromWriter wId false (writeMsg wId smsg) := .write h.1 h.2.1
    have hmore : WriterCall wId (.writing (nextChunk smsg left) (left.drop 16) count) := .writing left count h.1
    have hsend : FromWriter wId false (writeMsg wId (nextChunk smsg left)) := .write hmore.1 hmore.2.1
    simp only [Call.take]
    split
    · split
      · exact ⟨h, rfl, fun y hy => List.mem_singleton.mp hy ▸ hagain⟩
      · exact ⟨trivial, rfl, by simp⟩
    split
    · split
      · exact ⟨trivial, rfl, by simp⟩
      · exact ⟨hmore, rfl, fun y hy => List.mem_singleton.mp hy ▸ hsend⟩
    · exact ⟨h, rfl, by simp⟩
  | exiting msg =>
    obtain ⟨hstays, hout⟩ := take_exiting wId msg m
    have hsend : FromWriter wId true msg := ⟨h.1, .inr ⟨h.2.1, h.2.2, rfl⟩⟩
    rcases hstays with hc | hc
    · rw [hc]
      exact ⟨h, rfl, fun y hy => hout y hy ▸ hsend⟩
    · rw [hc]
      exact ⟨trivial, rfl, fun y hy => hout y hy ▸ hsend⟩

theorem mine_all {t : UInt64} {ms : List Message} (h : ∀ m ∈ ms, m.srcTask = t) : mine t ms = ms := by
  unfold mine
  rw [List.filter_eq_self]
  simpa using h

theorem mine_none {t : UInt64} {ms : List Message} (h : ∀ m ∈ ms, m.srcTask ≠ t) : mine t ms = [] := by
  unfold mine
  rw [List.filter_eq_nil_iff]
  simpa using h

/-- The writer takes an answer while the pipe is open: it has the same bytes left, and no call fails. -/
theorem WriterAt.takes {queue tow : List Message} {c : Call} {held : List UInt8} (hw : WriterCall wId c)
    (h : WriterAt wId p queue (m :: tow) c held) :
    WriterAt wId p (queue ++ (c.take wId m).2.1) tow (c.take wId m).1 held ∧ Result.failed ∉ (c.take wId m).2.2 := by
  cases h with
  | idle _ ha _ => cases ha
  | @writing smsg left count b ht =>
    cases ht with
    | asked _ ha _ | dropped _ ha _ | stored _ ha _ => cases ha
    | @bounced e hq ha he hl =>
      obtain ⟨rfl, rfl⟩ := List.cons.inj ha
      have htake : (Call.writing smsg left count).take wId m =
          (.writing smsg left count, [writeMsg wId smsg], []) := by
        simp [Call.take, he.1, he.2, writeMsg]
      rw [htake, hq]
      exact ⟨.writing (b := true) (.asked rfl rfl hl), by simp⟩
    | @acked e hq ha he hl =>
      obtain ⟨rfl, rfl⟩ := List.cons.inj ha
      by_cases hz : smsg.len = 0
      · have htake : (Call.writing smsg left count).take wId m = (.idle, [], [.wrote count]) := by
          simp [Call.take, he, hz]
        rw [htake, hq, hw.2.2 hz]
        exact ⟨.idle rfl rfl hl, by simp⟩
      · have htake : (Call.writing smsg left count).take wId m = (.writing (nextChunk smsg left) (left.drop 16) count,
            [writeMsg wId (nextChunk smsg left)], []) := by
          simp [Call.take, he, hz, writeMsg]
        have hnext : WriterAt wId p [writeMsg wId (nextChunk smsg left)] []
            (.writing (nextChunk smsg left) (left.drop 16) count)
            ((if true = true then chunk (nextChunk smsg left) else []) ++ left.drop 16) :=
          .writing (.asked rfl rfl hl)
        rw [if_pos rfl, chunk_nextChunk, List.take_append_drop] at hnext
        rw [htake, hq]
        exact ⟨hnext, by simp⟩
  | ended hc hq hl =>
    have hout := WriterCall.take hw m
    refine ⟨.ended (hout.2.1.trans hc) (fun y hy => ?_) hl, by simp [take_ended hc]⟩
    rcases List.mem_append.mp hy with hy | hy
    · exact hq y hy
    · cases c with
      | idle | writing _ _ _ | reading _ _ => cases hc
      | finished => simp [Call.take] at hy
      | exiting msg =>
        rw [(take_exiting wId msg m).2 y hy]
        exact hw.2.1

theorem InvAt.writerTakes (h : InvAt wId rId r p x) (hx : x.next wId rId .writerTakes = some x') :
    InvAt wId rId r p x' := by
  obtain ⟨m, ms, htw, -, rfl⟩ := next_writerTakes hx
  obtain ⟨hcall, hend, hout⟩ := WriterCall.take h.writer m
  have hmono : x.writer.ended = true → (x.writer.take wId m).1.ended = true := fun hc => hend.trans hc
  refine ⟨h.wires.mono hmono fun h => h, h.fit, fun y hy => ?_, hcall, h.reader, h.answers, fun ho => ?_,
    fun hc hre => ?_, h.sound, fun hre => ?_⟩
  · rcases List.mem_append.mp hy with hy | hy
    · exact (h.queue y hy).imp_left (FromWriter.mono hmono)
    · exact .inl ((hout y hy).mono hmono)
  · obtain ⟨held, hat, hflow⟩ := h.opened ho
    rw [htw] at hat
    refine ⟨held, ?_, hflow⟩
    change WriterAt wId p (mine wId (x.toAm ++ (x.writer.take wId m).2.1)) ms (x.writer.take wId m).1 held
    rw [mine_append, mine_all fun y hy => (hout y hy).1]
    exact (hat.takes h.writer).1
  · obtain ⟨hwe, hflow⟩ := h.closed hc hre
    exact ⟨hend.trans hwe, hflow⟩
  · change Result.failed ∉ x.wlog ++ (x.writer.take wId m).2.2
    by_cases ho : p.closed = true
    · -- the writer has left, so that no call of it returns
      obtain ⟨hwe, -⟩ := h.closed ho hre
      rw [take_ended hwe, List.append_nil]
      exact h.log hre
    · obtain ⟨held, hat, -⟩ := h.opened (Bool.eq_false_iff.mpr ho)
      rw [htw] at hat
      exact List.mem_append.not.mpr (not_or.mpr ⟨h.log hre, (hat.takes h.writer).2⟩)

theorem ReaderCall.take {c : Call} (h : ReaderCall rId c) (m : Message) : ReaderCall rId (c.take rId m).1 ∧
    (c.take rId m).1.ended = c.ended ∧ ∀ y ∈ (c.take rId m).2.1, FromReader rId c.ended y := by
  cases c with
  | idle | finished => exact ⟨trivial, rfl, by simp [Call.take]⟩
  | writing _ _ _ => exact h.elim
  | reading smsg got =>
    obtain ⟨hs, hty, hfd⟩ := h
    simp only [Call.take]
    split
    · split
      · refine ⟨⟨hs, hty, hfd⟩, rfl, fun y hy => ?_⟩
        rw [List.mem_singleton.mp hy]
        exact ⟨hs, .inl ⟨hty, hfd⟩⟩
      · exact ⟨trivial, rfl, by simp⟩
    split
    · split
      · exact ⟨⟨hs, hty, hfd⟩, rfl, by simp⟩
      · exact ⟨trivial, rfl, by simp⟩
    · exact ⟨⟨hs, hty, hfd⟩, rfl, by simp⟩
  | exiting msg =>
    obtain ⟨hstays, hout⟩ := take_exiting rId msg m
    have hsend : FromReader rId true msg := ⟨h.1, .inr ⟨h.2.1, h.2.2, rfl⟩⟩
    rcases hstays with hc | hc
    · rw [hc]
      exact ⟨h, rfl, fun y hy => hout y hy ▸ hsend⟩
    · rw [hc]
      exact ⟨trivial, rfl, fun y hy => hout y hy ▸ hsend⟩

/-- The reader keeps the bytes of every message that is not a refusal. -/
theorem ReaderCall.take_bytes {c : Call} (h : ReaderCall rId c) {m : Message} (hm : c.ended = false → ¬ Refusal m) :
    ((c.take rId m).2.2.flatMap Result.bytes) ++ (c.take rId m).1.got =
      c.got ++ if c.waits ∧ c.ended = false then dataBytes m else [] := by
  cases c with
  | idle | finished => rfl
  | writing _ _ _ => exact h.elim
  | reading smsg got =>
    have hnone : m.type ≠ .kRead → dataBytes m = [] := fun hty => if_neg hty
    by_cases he : m.type = .kError
    · have hretry : m.errorRetry = true := by
        by_contra hc
        exact hm rfl ⟨he, Bool.eq_false_iff.mpr hc⟩
      simp [Call.take, he, hretry, Call.got, hnone]
    by_cases hr : m.type = .kRead
    · by_cases hl : (readArg m).len = 0
      · have hzero : dataBytes m = [] := by simp [dataBytes, hl]
        simp [Call.take, hr, hl, Call.got, Result.bytes, hzero]
      · simp [Call.take, hr, hl, Call.got, Call.waits, Call.ended]
    · simp [Call.take, he, hr, Call.got, hnone]
  | exiting msg =>
    simp only [Call.take]
    repeat' split
    all_goals simp_all [Call.got, Call.ended]

/-- What the reader has received once it has taken a message. -/
theorem received_takes (h : ReaderCall rId x.reader) (hwaits : x.reader.waits = true)
    (hm : x.reader.ended = false → ¬ Refusal m) :
    (x.rlog ++ (x.reader.take rId m).2.2).flatMap Result.bytes ++ (x.reader.take rId m).1.got =
      x.received ++ if x.reader.ended = false then dataBytes m else [] := by
  rw [List.flatMap_append, List.append_assoc, h.take_bytes hm, received, List.append_assoc]
  simp [hwaits]

/-- What has left the pipe is a prefix of what went in. -/
theorem InvAt.delivered (h : InvAt wId rId r p x) (hre : x.reader.ended = false) :
    x.received ++ dataIn x.toReader <+: x.given := by
  by_cases ho : p.closed = true
  · rw [(h.closed ho hre).2]
  · obtain ⟨held, -, hgiven⟩ := h.opened (Bool.eq_false_iff.mpr ho)
    rw [← hgiven hre, List.append_assoc (_ ++ _)]
    exact List.prefix_append _ _

theorem InvAt.readerTakes (hne : wId ≠ rId) (h : InvAt wId rId r p x)
    (hx : x.next wId rId .readerTakes = some x') : InvAt wId rId r p x' := by
  obtain ⟨m, ms, htr, hwaits, rfl⟩ := next_readerTakes hx
  obtain ⟨hcall, hend, hout⟩ := ReaderCall.take h.reader m
  have hans : x.reader.ended = false → ∀ e ∈ m :: ms, ¬ Refusal e := fun hre => htr ▸ h.answers hre
  have hmono : x.reader.ended = true → (x.reader.take rId m).1.ended = true := fun hc => hend.trans hc
  have hrec := received_takes h.reader hwaits fun hre => hans hre m (List.mem_cons_self ..)
  -- what the reader takes moves from its queue to its bytes
  have hflow : x.reader.ended = false → ∀ tail, (x.rlog ++ (x.reader.take rId m).2.2).flatMap Result.bytes ++
      (x.reader.take rId m).1.got ++ dataIn ms ++ tail = x.received ++ dataIn x.toReader ++ tail := by
    intro hre tail
    rw [hrec, if_pos hre, htr, dataIn_cons]
    simp only [List.append_assoc]
  refine ⟨h.wires.mono (fun h => h) hmono, h.fit, fun y hy => ?_, h.writer, hcall,
    fun hre e he => hans (hend.symm.trans hre) e (List.mem_cons_of_mem _ he), fun ho => ?_, fun hc hre => ?_, ?_,
    fun hre => h.log (hend.symm.trans hre)⟩
  · rcases List.mem_append.mp hy with hy | hy
    · exact (h.queue y hy).imp_right (FromReader.mono hmono)
    · exact .inr ((hout y hy).mono hmono)
  · obtain ⟨held, hat, hopen⟩ := h.opened ho
    refine ⟨held, ?_, fun hre => ?_⟩
    · change WriterAt wId p (mine wId (x.toAm ++ (x.reader.take rId m).2.1)) x.toWriter x.writer held
      have hnone : mine wId (x.reader.take rId m).2.1 = [] := mine_none fun y hy => by
        rw [(hout y hy).1]
        exact hne.symm
      rw [mine_append, hnone, List.append_nil]
      exact hat
    · have hre' := hend.symm.trans hre
      have hgiven := hopen hre'
      rw [List.append_assoc] at hgiven
      have := hflow hre' (p.content ++ held)
      rw [← List.append_assoc] at this
      exact this.trans hgiven
  · have hre' := hend.symm.trans hre
    obtain ⟨hwe, hgiven⟩ := h.closed hc hre'
    have := hflow hre' []
    rw [List.append_nil, List.append_nil] at this
    exact ⟨hwe, this.trans hgiven⟩
  · change (x.rlog ++ (x.reader.take rId m).2.2).flatMap Result.bytes ++ (x.reader.take rId m).1.got <+: x.given
    by_cases hre : x.reader.ended = false
    · refine List.IsPrefix.trans ?_ (h.delivered hre)
      rw [hrec, if_pos hre, htr, dataIn_cons, ← List.append_assoc]
      exact List.prefix_append _ _
    · rw [hrec, if_neg hre, List.append_nil]
      exact h.sound

/-! ### Runs -/

theorem InvAt.elsewhere (h : InvAt wId rId r p x) (hs : Elsewhere wId rId r x.server s) :
    InvAt wId rId r p { x with server := s } where
  wires := by
    refine ⟨hs.pipe.trans h.wires.pipe, h.wires.pid, hs.apart, ?_, ?_⟩
    · rw [hs.writer]
      exact h.wires.writer
    · rw [hs.reader]
      exact h.wires.reader
  fit := h.fit
  queue := h.queue
  writer := h.writer
  reader := h.reader
  answers := h.answers
  opened := h.opened
  closed := h.closed
  sound := h.sound
  log := h.log

/-- Every step keeps the invariant. -/
theorem InvAt.step {P : Event → Prop} (hne : wId ≠ rId) (h : InvAt wId rId r p x) (hx : Step wId rId r P x x') :
    ∃ p', InvAt wId rId r p' x' := by
  cases hx with
  | @own e _ hp hx =>
    cases e with
    | write stack bs => exact ⟨p, h.write hx⟩
    | read stack count => exact ⟨p, h.read hne hx⟩
    | exitWriter ec => exact ⟨p, h.exitWriter hx⟩
    | exitReader ec => exact ⟨p, h.exitReader hne hx⟩
    | writerTakes => exact ⟨p, h.writerTakes hx⟩
    | readerTakes => exact ⟨p, h.readerTakes hne hx⟩
    | am env w =>
      obtain ⟨m, ms, p', s, outW, outR, ham, hm, hs, hwires, rfl⟩ := h.am_serves hne hx
      exact ⟨p', h.served hne ham hm hs hwires⟩
  | elsewhere hs => exact ⟨p, h.elsewhere hs⟩

theorem Start.run {P : Event → Prop} (h : Start wId rId r x) (hx : Relation.ReflTransGen (Step wId rId r P) x x') :
    ∃ p, InvAt wId rId r p x' :=
  TransitionSystem.invariant (I := fun x => ∃ p, InvAt wId rId r p x) ⟨_, h.inv⟩
    (fun _ _ ⟨_, hp⟩ hs => hp.step h.ne hs) hx

/-! ### A pipeline -/

/-- The terminal, task 5, has started `10 | 11`. -/
def pipeline : Option Duct :=
  (TransitionSystem.exec Session.next Session.cold (Session.launch true 10 ++ Session.launch false 11)).map fun b =>
    ⟨b.server, .idle, .idle, [], [], [], [], [], []⟩

/-- Task 10 writes three bytes, and its message is bounced once; task 11 reads two. -/
def firstRead : List Event :=
  let env : Env := ⟨some 3, 4, none⟩
  [.write ⟨[], 0, .replicate 16 0, 0, .replicate 3 0, 0, 0, 0⟩ [1, 2, 3], .am env (.receive .execFile), .writerTakes,
    .am env (.receive .init), .read ⟨[], 0, .replicate 16 0, 0, 0, 0, 0⟩ 2, .am env (.receive .init), .readerTakes,
    .readerTakes]

/-- It reads the third, task 10 exits, and the next `read` returns nothing. -/
def lastRead : List Event :=
  let env : Env := ⟨some 3, 4, none⟩
  let stack : ReadArg := ⟨[], 0, .replicate 16 0, 0, 0, 0, 0⟩
  [.read stack 8, .am env (.receive .init), .readerTakes, .readerTakes, .writerTakes, .am env (.receive .init),
    .writerTakes, .exitWriter 0, .am env (.receive .init), .read stack 8, .am env (.receive .init), .readerTakes]

theorem pipeline_start : ∃ x, pipeline = some x ∧ Start 10 11 3 x := by
  have hrun : pipeline.any (fun x => decide (
      x.server.apps = [⟨10, 5, .run, [some 0, some 3, some 2]⟩, ⟨11, 5, .run, [some 3, some 5, some 6]⟩] ∧
      x.server.objects = [.terminal 10 4, .terminal 10 4, .terminal 10 4, .pipe (.new 10), .terminal 11 4, .terminal 11 4,
        .terminal 11 4] ∧ (x.writer = .idle ∧ x.reader = .idle) ∧ (x.toAm = [] ∧ x.toWriter = [] ∧ x.toReader = []) ∧
      x.given = [] ∧ x.wlog = [] ∧ x.rlog = [])) = true := by decide +kernel
  obtain ⟨x, hx, hp⟩ := (Option.any_eq_true _ _).mp hrun
  obtain ⟨happs, hobj, hcalls, hqueues, hlogs⟩ := decide_eq_true_eq.mp hp
  have hpipe : ∀ (q : Ref) (p : PipeFileDescriptor), x.server.objects[q]? = some (.pipe p) → q = 3 ∧ p.id = 10 := by
    intro q p hq
    rw [hobj] at hq
    have hlt := (List.getElem?_eq_some_iff.mp hq).1
    simp only [List.length_cons, List.length_nil] at hlt
    interval_cases q <;> simp_all
    rw [← hq]
    rfl
  refine ⟨x, hx, by decide, by rw [hobj]; rfl, ⟨fun q p _ hq => ?_, fun q p _ hq => .inl (hpipe q p hq).1, ?_, ?_⟩, ?_, ?_,
    hcalls, hqueues, hlogs⟩
  · rw [(hpipe q p hq).2]
    decide
  · rw [happs]
    decide
  · rw [happs]
    decide
  · rw [happs]
    exact ⟨_, rfl, rfl⟩
  · rw [happs]
    exact ⟨_, rfl, rfl⟩

theorem exec_step {P : Event → Prop} {es : List Event} (hP : ∀ e ∈ es, P e)
    (h : TransitionSystem.exec (next wId rId) x es = some x') : Relation.ReflTransGen (Step wId rId r P) x x' :=
  TransitionSystem.exec_run (next wId rId) (R := Step wId rId r P) (P := P) (fun _ _ _ hp he => .own hp he) es hP h

/-- **What the reader has received is always a prefix of what the writer has given**, and as long as the reader has not
left its program every call of `write` has succeeded. -/
theorem received_in_order {P : Event → Prop} (h : Start wId rId r x)
    (hx : Relation.ReflTransGen (Step wId rId r P) x x') :
    x'.received <+: x'.given ∧ (x'.reader.ended = false → Result.failed ∉ x'.wlog) := by
  obtain ⟨p, hp⟩ := h.run hx
  exact ⟨hp.sound, hp.log⟩

/-- After the first `read` of the pipeline. -/
theorem received_in_order_firstRead : ∃ x y, pipeline = some x ∧ TransitionSystem.exec (next 10 11) x firstRead = some y ∧
    y.received = [1, 2] ∧ y.given = [1, 2, 3] ∧ y.received <+: y.given := by
  obtain ⟨x, hx, hstart⟩ := pipeline_start
  have hrun : pipeline.any (fun x => (TransitionSystem.exec (next 10 11) x firstRead).any fun y =>
      decide (y.received = [1, 2] ∧ y.given = [1, 2, 3])) = true := by decide +kernel
  rw [hx, Option.any_some] at hrun
  obtain ⟨y, hy, hp⟩ := (Option.any_eq_true _ _).mp hrun
  obtain ⟨hrec, hgiven⟩ := decide_eq_true_eq.mp hp
  exact ⟨x, y, hx, hy, hrec, hgiven,
    (received_in_order (P := fun _ => True) hstart (exec_step (fun _ _ => trivial) hy)).1⟩

end Duct

end KinOS.Am
