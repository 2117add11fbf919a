import KinOS.Am.PipeRuns

/-!
# The end of the file

`read` puts its `size_t` count into 32 bits. A count that is zero there is answered with two messages of length zero, of
which the next `read` takes the second, so the counts are taken not to be.
-/

namespace KinOS.Am

open Server

namespace Duct

variable {wId rId : UInt64} {r : Ref} {we re : Bool} {p p' : PipeFileDescriptor} {s s' : Server} {m : Message}
  {x x' : Duct}

def Event.Sized : Event → Prop
  | .read _ count => count.toUInt32 ≠ 0
  | _ => True

def SizedCall : Call → Prop
  | .reading smsg _ => (readArg smsg).count ≠ 0
  | _ => True

def EndMark (m : Message) : Prop := m.type = .kRead ∧ (readArg m).len = 0

/-- The one request of a `read` in progress, and what of its answer is still to be taken. -/
inductive ReaderAt (p : PipeFileDescriptor) (queue answers : List Message) : Call → Prop
  | idle (hq : queue = []) (ha : answers = []) : ReaderAt p queue answers .idle
  | asked {smsg : Message} (hq : queue = [smsg]) (ha : answers = []) : ReaderAt p queue answers (.reading smsg [])
  | bounced {smsg e : Message} (hq : queue = []) (ha : answers = [e]) (he : Retry e) :
      ReaderAt p queue answers (.reading smsg [])
  | dropped {smsg : Message} (hq : queue = []) (ha : answers = []) : ReaderAt p queue answers (.reading smsg [])
  | data {smsg d e : Message} (hq : queue = []) (ha : answers = [d, e]) (hd : d.type = .kRead ∧ (readArg d).len ≠ 0)
      (he : EndMark e) : ReaderAt p queue answers (.reading smsg [])
  | last {smsg e : Message} {got : List UInt8} (hq : queue = []) (ha : answers = [e]) (he : EndMark e)
      (hgot : got = [] → p.closed = true) : ReaderAt p queue answers (.reading smsg got)
  | ended {c : Call} (hc : c.ended = true) : ReaderAt p queue answers c

theorem ReaderAt.mono {queue answers : List Message} {c : Call} (h : ReaderAt p queue answers c)
    (hc : p.closed = true → p'.closed = true) : ReaderAt p' queue answers c := by
  cases h with
  | idle hq ha => exact .idle hq ha
  | asked hq ha => exact .asked hq ha
  | bounced hq ha he => exact .bounced hq ha he
  | dropped hq ha => exact .dropped hq ha
  | data hq ha hd he => exact .data hq ha hd he
  | last hq ha he hgot => exact .last hq ha he fun h => hc (hgot h)
  | ended hc => exact .ended hc

theorem dataMsg_len_ne {data : Vector UInt8 16} {n : Nat} {i : UInt64} (h0 : n ≠ 0) (h16 : n ≤ 16) :
    (readArg { dataMsg data n with srcTask := i }).len ≠ 0 := by
  change UInt8.ofNat n ≠ 0
  intro h
  have hn : (UInt8.ofNat n).toNat = n := by
    rw [UInt8.toNat_ofNat']
    omega
  rw [h] at hn
  exact h0 hn.symm

/-- A request at the front of the queue that is answered. -/
theorem ReaderAt.answered {ms tor : List Message} {c : Call} {i : UInt64} (hne : wId ≠ rId) (hid : p.id = wId)
    (hfit : p.len ≤ 16) (hsized : SizedCall c) (hsrc : m.srcTask = rId)
    (h : ReaderAt p (mine rId (m :: ms)) tor c) :
    ReaderAt (p.afterRead (readArg m).count.toNat) (mine rId ms) (tor ++ sentTo rId
      ((pipeAnswer p rId (readArg m).count.toNat).map fun y => (y.1, ({ y.2 with srcTask := i } : Message)))) c := by
  rw [mine_cons_self hsrc] at h
  cases h with
  | ended hc => exact .ended hc
  | idle hq _ | bounced hq _ _ | dropped hq _ | data hq _ _ _ | last hq _ _ _ => cases hq
  | asked hq ha =>
    obtain ⟨rfl, hnil⟩ := List.cons.inj hq
    have hcount : (readArg m).count.toNat ≠ 0 := fun h0 => hsized (UInt32.toNat_inj.mp h0)
    have hend : EndMark { endMsg with srcTask := i } := ⟨rfl, rfl⟩
    rw [ha, List.nil_append]
    unfold pipeAnswer
    by_cases hc : p.closed = true
    · simp only [if_pos hc, List.map_cons, List.map_nil, sentTo_cons, if_true, sentTo_nil]
      exact .last hnil rfl hend fun _ => (PipeFileDescriptor.afterRead_closed _).trans hc
    by_cases h0 : p.len = 0
    · simp only [if_neg hc, if_pos h0, List.map_cons, List.map_nil, sentTo_cons, if_true, sentTo_nil]
      exact .bounced hnil rfl ⟨rfl, rfl⟩
    have hne' : p.id ≠ rId := by
      rw [hid]
      exact hne
    by_cases hl : p.len ≤ (readArg m).count.toNat
    · simp only [if_neg hc, if_neg h0, if_pos hl, List.map_cons, List.map_nil, sentTo_cons, if_true, if_neg hne', sentTo_nil]
      exact .data hnil rfl ⟨rfl, dataMsg_len_ne h0 hfit⟩ hend
    · simp only [if_neg hc, if_neg h0, if_neg hl, List.map_cons, List.map_nil, sentTo_cons, if_true, sentTo_nil]
      exact .data hnil rfl ⟨rfl, dataMsg_len_ne hcount (by omega)⟩ hend

theorem ReaderAt.served {ms tor outW outR : List Message} {c : Call} (hne : wId ≠ rId) (hid : p.id = wId)
    (hfit : p.len ≤ 16) (hsized : SizedCall c) (hm : FromWriter wId we m ∨ FromReader rId c.ended m)
    (h : ReaderAt p (mine rId (m :: ms)) tor c) (hs : Serves wId rId we c.ended p m p' outW outR) :
    ReaderAt p' (mine rId ms) (tor ++ outR) c := by
  have hwriter : m.srcTask = wId → ReaderAt p (mine rId ms) tor c := by
    intro hsrc
    rwa [mine_cons_other (by rw [hsrc]; exact hne)] at h
  cases hs with
  | dropped =>
    rw [List.append_nil]
    rcases hm with ⟨hsrc, -⟩ | ⟨hsrc, -⟩
    · exact hwriter hsrc
    · rw [mine_cons_self hsrc] at h
      cases h with
      | ended hc => exact .ended hc
      | asked hq ha => exact .dropped (List.cons.inj hq).2 ha
      | idle hq _ | bounced hq _ _ | dropped hq _ | data hq _ _ _ | last hq _ _ _ => cases hq
  | bouncedW hsrc _ | unknownW hsrc _ =>
    rw [List.append_nil]
    exact hwriter hsrc
  | bouncedR hsrc he =>
    rw [mine_cons_self hsrc] at h
    cases h with
    | ended hc => exact .ended hc
    | asked hq ha => exact .bounced (List.cons.inj hq).2 (by rw [ha]; rfl) he
    | idle hq _ | bounced hq _ _ | dropped hq _ | data hq _ _ _ | last hq _ _ _ => cases hq
  | unknownR _ hend => exact .ended hend
  | wrote i hsrc hty =>
    rw [List.append_nil]
    exact (hwriter hsrc).mono fun hc => (PipeFileDescriptor.afterWrite_closed _).trans hc
  | @read i hsrc hty l hl =>
    subst hl
    exact h.answered hne hid hfit hsized hsrc
  | endedW hsrc _ =>
    rw [List.append_nil]
    exact (hwriter hsrc).mono fun hc => by simp [hc]
  | endedR _ hend _ => exact .ended hend

/-- What a `read` that takes a message returns, and where the reader is then. -/
theorem ReaderAt.takes {queue tor : List Message} {c : Call} (hc : ReaderCall rId c)
    (h : ReaderAt p queue (m :: tor) c) (hm : c.ended = false → ¬ Refusal m) :
    ReaderAt p (queue ++ (c.take rId m).2.1) tor (c.take rId m).1 ∧ Result.failed ∉ (c.take rId m).2.2 ∧
      (Result.got [] ∈ (c.take rId m).2.2 → p.closed = true ∧ c.ended = false ∧ tor = [] ∧ dataBytes m = []) := by
  cases h with
  | idle _ ha | asked _ ha | dropped _ ha => cases ha
  | @bounced smsg e hq ha he =>
    obtain ⟨rfl, rfl⟩ := List.cons.inj ha
    have htake : (Call.reading smsg []).take rId m = (.reading smsg [], [smsg], []) := by simp [Call.take, he.1, he.2]
    rw [htake, hq]
    exact ⟨.asked rfl rfl, by simp, by simp⟩
  | @data smsg d e hq ha hd he =>
    obtain ⟨rfl, rfl⟩ := List.cons.inj ha
    have htake : (Call.reading smsg []).take rId m = (.reading smsg (dataBytes m), [], []) := by
      simp [Call.take, hd.1, hd.2]
    have hbytes : dataBytes m ≠ [] := by
      have h0 : (readArg m).len.toNat ≠ 0 := fun h0 => hd.2 (UInt8.toNat_inj.mp h0)
      intro hnil
      have hlen := congrArg List.length hnil
      simp [dataBytes, hd.1] at hlen
      exact h0 hlen
    rw [htake, hq]
    exact ⟨.last rfl rfl he fun hnil => absurd hnil hbytes, by simp, by simp⟩
  | @last smsg e got hq ha he hgot =>
    obtain ⟨rfl, rfl⟩ := List.cons.inj ha
    have htake : (Call.reading smsg got).take rId m = (.idle, [], [.got got]) := by simp [Call.take, he.1, he.2]
    rw [htake, hq]
    refine ⟨.idle rfl rfl, by simp, fun hin => ?_⟩
    have hnil : got = [] := by simpa [eq_comm] using hin
    exact ⟨hgot hnil, rfl, rfl, by simp [dataBytes, he.2]⟩
  | ended hend =>
    have htake := ReaderCall.take hc m
    exact ⟨.ended (htake.2.1.trans hend), by simp [take_ended hend], by simp [take_ended hend]⟩

theorem SizedCall.take {c : Call} (h : SizedCall c) (t : UInt64) (m : Message) : SizedCall (c.take t m).1 := by
  cases c with
  | idle | finished => exact trivial
  | writing _ _ _ | exiting _ =>
    simp only [Call.take]
    repeat' split
    all_goals exact trivial
  | reading smsg got =>
    simp only [Call.take]
    repeat' split
    all_goals first | exact h | exact trivial

/-- The invariant with the reader's side: no read fails, and one that returns nothing has come to the end. -/
structure EofAt (wId rId : UInt64) (r : Ref) (p : PipeFileDescriptor) (x : Duct) : Prop where
  inv : InvAt wId rId r p x
  sized : SizedCall x.reader
  reading : ReaderAt p (mine rId x.toAm) x.toReader x.reader
  rlog : Result.failed ∉ x.rlog
  eof : Result.got [] ∈ x.rlog → x.writer.ended = true ∧ x.received = x.given ∧ Result.failed ∉ x.wlog

theorem Start.eofAt (h : Start wId rId r x) : EofAt wId rId r (.new wId) x := by
  obtain ⟨-, hr⟩ := h.calls
  obtain ⟨ham, -, htr⟩ := h.queues
  obtain ⟨-, -, hrl⟩ := h.logs
  refine ⟨h.inv, by simp [hr, SizedCall], ?_, by simp [hrl], by simp [hrl]⟩
  rw [hr, ham, htr]
  exact .idle rfl rfl

/-- A step that only adds messages of the writer to the queue. -/
theorem mine_writer {ms out : List Message} (hne : wId ≠ rId) (h : ∀ m ∈ out, m.srcTask = wId) :
    mine rId (ms ++ out) = mine rId ms := by
  have hnone : mine rId out = [] := mine_none fun m hm => by
    rw [h m hm]
    exact hne
  rw [mine_append, hnone, List.append_nil]

theorem EofAt.writerTakes (hne : wId ≠ rId) (h : EofAt wId rId r p x) (hx : x.next wId rId .writerTakes = some x') :
    EofAt wId rId r p x' := by
  have hinv := h.inv.writerTakes hx
  obtain ⟨m, ms, htw, -, rfl⟩ := next_writerTakes hx
  obtain ⟨-, hend, hout⟩ := WriterCall.take h.inv.writer m
  refine ⟨hinv, h.sized, ?_, h.rlog, fun hin => ?_⟩
  · change ReaderAt p (mine rId (x.toAm ++ (x.writer.take wId m).2.1)) x.toReader x.reader
    rw [mine_writer hne fun y hy => (hout y hy).1]
    exact h.reading
  · obtain ⟨hwe, hrec, hlog⟩ := h.eof hin
    refine ⟨hend.trans hwe, hrec, ?_⟩
    change Result.failed ∉ x.wlog ++ (x.writer.take wId m).2.2
    rw [take_ended hwe, List.append_nil]
    exact hlog

theorem EofAt.readerTakes (hne : wId ≠ rId) (h : EofAt wId rId r p x) (hx : x.next wId rId .readerTakes = some x') :
    EofAt wId rId r p x' := by
  have hinv := h.inv.readerTakes hne hx
  obtain ⟨m, ms, htr, hwaits, rfl⟩ := next_readerTakes hx
  obtain ⟨-, hend, hout⟩ := ReaderCall.take h.inv.reader m
  have hans : x.reader.ended = false → ¬ Refusal m := fun hre =>
    h.inv.answers hre m (by rw [htr]; exact List.mem_cons_self ..)
  have hread := h.reading
  rw [htr] at hread
  obtain ⟨hat, hok, hzero⟩ := hread.takes h.inv.reader hans
  have hrec := received_takes h.inv.reader hwaits hans
  refine ⟨hinv, h.sized.take rId m, ?_, ?_, fun hin => ?_⟩
  · change ReaderAt p (mine rId (x.toAm ++ (x.reader.take rId m).2.1)) ms (x.reader.take rId m).1
    rw [mine_append, mine_all fun y hy => (hout y hy).1]
    exact hat
  · exact List.mem_append.not.mpr (not_or.mpr ⟨h.rlog, hok⟩)
  · rcases List.mem_append.mp hin with hin | hin
    · obtain ⟨hwe, hall, hlog⟩ := h.eof hin
      refine ⟨hwe, ?_, hlog⟩
      -- it had everything, and it cannot have more than everything
      refine hinv.sound.eq_of_length_le ?_
      change x.given.length ≤ ((x.rlog ++ (x.reader.take rId m).2.2).flatMap Result.bytes ++
        (x.reader.take rId m).1.got).length
      rw [hrec, hall, List.length_append]
      exact Nat.le_add_right _ _
    · obtain ⟨hc, hre, rfl, hnone⟩ := hzero hin
      obtain ⟨hwe, hall⟩ := h.inv.closed hc hre
      refine ⟨hwe, ?_, h.inv.log hre⟩
      change (x.rlog ++ (x.reader.take rId m).2.2).flatMap Result.bytes ++ (x.reader.take rId m).1.got = x.given
      rw [hrec, hnone, ite_self, List.append_nil, ← hall, htr, dataIn_cons, hnone, dataIn_nil, List.append_nil]
      simp

/-- Every step whose count is not zero in 32 bits keeps it. -/
theorem EofAt.step (hne : wId ≠ rId) (h : EofAt wId rId r p x) (hx : Step wId rId r Event.Sized x x') :
    ∃ p', EofAt wId rId r p' x' := by
  cases hx with
  | elsewhere hs => exact ⟨p, h.inv.elsewhere hs, h.sized, h.reading, h.rlog, h.eof⟩
  | @own e _ hp hx =>
    cases e with
    | writerTakes => exact ⟨p, h.writerTakes hne hx⟩
    | readerTakes => exact ⟨p, h.readerTakes hne hx⟩
    | am env w =>
      obtain ⟨m, ms, p', s, outW, outR, ham, hm, hs, hwires, rfl⟩ := h.inv.am_serves hne hx
      refine ⟨p', h.inv.served hne ham hm hs hwires, h.sized, ?_, h.rlog, h.eof⟩
      have hread := h.reading
      rw [ham] at hread
      exact hread.served hne h.inv.wires.pid h.inv.fit h.sized hm hs
    | write stack bs =>
      have hinv := h.inv.write hx
      obtain ⟨hidle, rfl⟩ := next_write hx
      refine ⟨p, hinv, h.sized, ?_, h.rlog, fun hin => ?_⟩
      · change ReaderAt p (mine rId (x.toAm ++ [writeMsg wId _])) x.toReader x.reader
        rw [mine_writer hne fun m hm => by rw [List.mem_singleton.mp hm]; rfl]
        exact h.reading
      · have hend := (h.eof hin).1
        rw [hidle] at hend
        cases hend
    | exitWriter ec =>
      have hinv := h.inv.exitWriter hx
      obtain ⟨-, rfl⟩ := next_exitWriter hx
      refine ⟨p, hinv, h.sized, ?_, h.rlog, fun hin => ⟨rfl, (h.eof hin).2⟩⟩
      change ReaderAt p (mine rId (x.toAm ++ [exitMsg wId ec])) x.toReader x.reader
      rw [mine_writer hne fun m hm => by rw [List.mem_singleton.mp hm]; rfl]
      exact h.reading
    | read stack count =>
      have hinv := h.inv.read hne hx
      obtain ⟨hidle, rfl⟩ := next_read hx
      have hread := h.reading
      rw [hidle] at hread
      cases hread with
      | ended hc => cases hc
      | idle hq ha =>
        refine ⟨p, hinv, hp, .asked ?_ ha, h.rlog, fun hin => ?_⟩
        · rw [mine_append, hq]
          exact mine_cons_self rfl
        · obtain ⟨hwe, hall, hlog⟩ := h.eof hin
          refine ⟨hwe, ?_, hlog⟩
          rw [← hall]
          simp [received, hidle, Call.got]
    | exitReader ec =>
      have hinv := h.inv.exitReader hne hx
      obtain ⟨hidle, rfl⟩ := next_exitReader hx
      refine ⟨p, hinv, trivial, .ended rfl, h.rlog, fun hin => ?_⟩
      obtain ⟨hwe, hall, hlog⟩ := h.eof hin
      refine ⟨hwe, ?_, hlog⟩
      rw [← hall]
      simp [received, hidle, Call.got]

/-- **A `read` that returns nothing has come to the end of the file**: the writer has left its program, every call of
its `write` has succeeded and the reader has all its bytes. No `read` fails. -/
theorem end_of_file (h : Start wId rId r x) (hx : Relation.ReflTransGen (Step wId rId r Event.Sized) x x') :
    Result.failed ∉ x'.rlog ∧ (Result.got [] ∈ x'.rlog →
      x'.writer.ended = true ∧ x'.received = x'.given ∧ Result.failed ∉ x'.wlog) := by
  obtain ⟨p, hp⟩ := TransitionSystem.invariant (I := fun x => ∃ p, EofAt wId rId r p x) ⟨_, h.eofAt⟩
    (fun _ _ ⟨_, hp⟩ hs => hp.step h.ne hs) hx
  exact ⟨hp.rlog, hp.eof⟩

/-- The last `read` of the pipeline. -/
theorem end_of_file_lastRead : ∃ x y, pipeline = some x ∧
    TransitionSystem.exec (next 10 11) x (firstRead ++ lastRead) = some y ∧ Result.got [] ∈ y.rlog ∧
      y.writer.ended = true ∧ y.received = y.given ∧ Result.failed ∉ y.wlog := by
  obtain ⟨x, hx, hstart⟩ := pipeline_start
  have hrun : pipeline.any (fun x => (TransitionSystem.exec (next 10 11) x (firstRead ++ lastRead)).any fun y =>
      decide (Result.got [] ∈ y.rlog)) = true := by decide +kernel
  rw [hx, Option.any_some] at hrun
  obtain ⟨y, hy, hp⟩ := (Option.any_eq_true _ _).mp hrun
  have heof := decide_eq_true_eq.mp hp
  have hsized : ∀ e ∈ firstRead ++ lastRead, e.Sized := by
    intro e he
    simp only [firstRead, lastRead, List.cons_append, List.nil_append, List.mem_cons, List.not_mem_nil, or_false] at he
    rcases he with rfl | rfl | rfl | rfl | rfl | rfl | rfl | rfl | rfl | rfl | rfl | rfl | rfl | rfl | rfl | rfl | rfl |
      rfl | rfl | rfl
    all_goals simp [Event.Sized]
  exact ⟨x, y, hx, hy, heof, (end_of_file hstart (exec_step hsized hy)).2 heof⟩

end Duct

end KinOS.Am
