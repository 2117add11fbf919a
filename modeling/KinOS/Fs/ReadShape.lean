import KinOS.Fs.ReadSlices

/-!
# The shape of a reply, on any volume

Whatever the volume holds, a request for a file that is answered is answered with data messages of at most
`arg.read.count` bytes and one message of length zero. For a directory there is at most one message before that, and
its `len` is the number of entries the listing went over, as a `uint8_t`.
-/

namespace KinOS.Fs

/-- The listing in the reply to a request: nothing for a regular file. -/
def Server.listing (fuel : Nat) (s : Server) (rm : ReadArg) : Option (List Message) :=
  if rm.filename = [0x2f] then (s.readDir fuel rm s.vol.bpb.rootCluster.toNat).map (·.2)
  else
    match s.findFile fuel rm.filename 0 with
    | some (s, some i, _) =>
      if entryAttr s.clusterBuf (32 * i) = kDirectory then
        (s.readDir fuel rm (firstCluster s.clusterBuf (32 * i))).map (·.2)
      else some []
    | _ => none

/-! ## Regular files -/

/-- The loop of the regular-file branch, wherever the chain leads. -/
theorem readClusters_count {count off : Nat} : ∀ {fuel : Nat} {s s' : Server} {cluster remain : Nat} {r r' : ReadVars},
    r.emit.Ok → r.emit.bytes.length = r.sent → r.sent ≤ count →
    s.readClusters count off fuel cluster remain r = some (s', r') →
    r'.emit.Ok ∧ r'.emit.bytes.length = r'.sent ∧ r'.sent ≤ count
  | 0, _, _, _, _, _, _, _, _, _, h => by
    rw [Server.readClusters] at h
    cases h
  | fuel + 1, s, s', cluster, remain, r, r', hok, hb, hle, h => by
    rw [Server.readClusters] at h
    split at h
    · next hc =>
      obtain ⟨r₁, he, -, hse, hok₁, hb₁⟩ := readBytes_spec (s.readCluster cluster) remain count off
        (s.readCluster cluster).vol.bpb.bytesPerCluster 0 0 r hok hc.2.2 rfl rfl rfl
      simp only [he] at h
      refine readClusters_count hok₁ ?_ ?_ h
      · rw [hb₁, List.length_append, hb, hse, taken, List.length_map, List.length_range]
      · rw [hse]
        omega
    · simp only [Option.some.injEq, Prod.mk.injEq] at h
      obtain ⟨-, rfl⟩ := h
      exact ⟨hok, hb, hle⟩

/-- The data messages of a reply from a regular file. -/
theorem readFile_replies {fuel : Nat} {s s' : Server} {rm : ReadArg} {i : Nat} {out : List Message}
    (h : s.readFile fuel rm i = some (s', out)) :
    (∀ m ∈ out, IsData m) ∧ (out.flatMap msgBytes).length ≤ rm.count.toNat := by
  unfold Server.readFile at h
  obtain ⟨⟨s₁, r⟩, hread, h⟩ := Option.map_eq_some_iff.mp h
  obtain ⟨hok, hb, hle⟩ := readClusters_count ⟨by simp, by simp⟩ (by simp [Emit.bytes]) (Nat.zero_le _) hread
  simp only [Prod.mk.injEq] at h
  obtain ⟨-, rfl⟩ := h
  have hroom := hok.room
  by_cases hm : r.emit.msgOffset ≠ 0
  · obtain ⟨hok', hb'⟩ := Emit.Ok.flush s₁ hok.data hm (by omega)
    rw [if_pos hm]
    refine ⟨hok'.data, ?_⟩
    have hflush : (r.emit.flush s₁).bytes = (r.emit.flush s₁).out.flatMap msgBytes := by
      rw [Emit.bytes, show (r.emit.flush s₁).msgOffset = 0 from rfl, List.take_zero, List.append_nil]
    rw [← hflush, hb', hb]
    exact hle
  · rw [if_neg hm]
    refine ⟨hok.data, ?_⟩
    have hbytes : r.emit.bytes = r.emit.out.flatMap msgBytes := by
      rw [Emit.bytes, show r.emit.msgOffset = 0 by omega, List.take_zero, List.append_nil]
    rw [← hbytes, hb]
    exact hle

/-! ## Directories -/

theorem readDirLoop_replies {s : Server} {readCluster offset : Nat} : ∀ {fuel entryIndex : Nat} {s' : Server}
    {out : List Message}, s.readDirLoop readCluster offset fuel entryIndex = some (s', out) →
    out = [] ∨ ∃ sm, out = [s.readMsg sm]
  | 0, _, _, _, h => by
    rw [Server.readDirLoop] at h
    cases h
  | fuel + 1, i, s', out, h => by
    rw [Server.readDirLoop] at h
    dsimp only at h
    split at h
    · cases h
    split at h
    · cases h
      exact .inl rfl
    split at h
    · exact readDirLoop_replies h
    · cases h
      exact .inr ⟨_, rfl⟩

theorem readDir_replies {fuel : Nat} {s s' : Server} {rm : ReadArg} {cluster : Nat} {out : List Message}
    (h : s.readDir fuel rm cluster = some (s', out)) : out = [] ∨ ∃ sm, ∃ s₁ : Server, out = [s₁.readMsg sm] := by
  simp only [Server.readDir] at h
  split at h
  · rcases readDirLoop_replies h with h | ⟨sm, h⟩
    · exact .inl h
    · exact .inr ⟨sm, _, h⟩
  · simp only [Option.some.injEq, Prod.mk.injEq] at h
    exact .inl h.2.symm

/-! ## A reply -/

theorem readFinish_end (s : Server) (out : List Message) :
    ∃ z, (s.readFinish out).2 = out ++ [z] ∧ IsEnd z :=
  ⟨_, rfl, rfl, _, rfl, rfl⟩

/-- **The reply to a request.** It ends with the message of length zero; before that come the data of a file, at most
`count` bytes, or the listing of a directory, at most one message. -/
theorem readState_shape {fuel : Nat} {s s' : Server} {rm : ReadArg} {out : List Message}
    (h : s.readState fuel rm = some (s', out)) : ∃ l z, out = l ++ [z] ∧ IsEnd z ∧
      ((s.listing fuel rm = some [] ∧ (∀ m ∈ l, IsData m) ∧ (l.flatMap msgBytes).length ≤ rm.count.toNat) ∨
       (s.listing fuel rm = some l ∧ ∃ sm, ∃ s₁ : Server, l = [s₁.readMsg sm])) := by
  have hdir : ∀ {s₁ s₂ : Server} {c : Nat} {l : List Message}, s₁.readDir fuel rm c = some (s₂, l) →
      s.listing fuel rm = some l →
      (s.listing fuel rm = some [] ∧ (∀ m ∈ l, IsData m) ∧ (l.flatMap msgBytes).length ≤ rm.count.toNat) ∨
       (s.listing fuel rm = some l ∧ ∃ sm, ∃ s₁ : Server, l = [s₁.readMsg sm]) := by
    intro s₁ s₂ c l hd hl
    rcases readDir_replies hd with rfl | hm
    · exact .inl ⟨hl, by simp, by simp⟩
    · exact .inr ⟨hl, hm⟩
  unfold Server.readState at h
  split at h
  · next hroot =>
    obtain ⟨⟨s₁, l⟩, hd, h⟩ := Option.map_eq_some_iff.mp h
    obtain ⟨z, hz, hend⟩ := readFinish_end s₁ l
    simp only [Prod.ext_iff] at h
    refine ⟨l, z, h.2 ▸ hz, hend, hdir hd ?_⟩
    rw [Server.listing, if_pos hroot, hd]
    rfl
  · next hroot =>
    split at h
    · next s₁ i p hfind =>
      obtain ⟨⟨s₂, l⟩, hd, h⟩ := Option.map_eq_some_iff.mp h
      obtain ⟨z, hz, hend⟩ := readFinish_end s₂ l
      simp only [Prod.ext_iff] at h
      refine ⟨l, z, h.2 ▸ hz, hend, ?_⟩
      split at hd
      · next hattr =>
        refine hdir hd ?_
        rw [Server.listing, if_neg hroot, hfind]
        simp only [hattr, if_true, hd, Option.map_some]
      · next hattr =>
        refine .inl ⟨?_, readFile_replies hd⟩
        rw [Server.listing, if_neg hroot, hfind]
        simp only [hattr, if_false]
    · cases h

end KinOS.Fs
