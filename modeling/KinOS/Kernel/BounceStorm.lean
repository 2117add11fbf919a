import KinOS.Kernel.ClosedReceive

/-!
# Two closed receives that answer each other

A rejected message is answered with a new message, and that answer arrives at a task which may be in a
closed receive itself. Two tasks `a` and `b` run `ClosedReceiveMessage`, nobody else sends, and each
step is the next section of either of them. `Calm` says that neither holds a message that would be
answered to `a` or `b` (or stored, which ends the wait); every step keeps both `Calm` and its negation,
so `Calm` decides whether the two come to rest.
-/

namespace KinOS

namespace TaskManager

/-- `msgs_` of the task at `p`. -/
def queueOf (tm : TaskManager) (p : Ptr) : List Message := ((tm.deref p).map (·.msgs)).getD []

/-- `running_` of the task at `p`. -/
def awake (tm : TaskManager) (p : Ptr) : Bool := ((tm.deref p).map (·.running)).getD false

end TaskManager

namespace Kernel

open TaskManager

/-- Inside `ClosedReceiveMessage`. -/
def InClosed : Pc → Prop
  | .closedReceive _ _ _ | .closedReject _ _ _ _ => True
  | _ => False

section TwoTasks

variable (a b : Ptr) (ida idb : UInt64)

/-- A section of `a` or of `b`, inside `ClosedReceiveMessage` and not asleep. -/
def StormStep (k k' : Kernel) : Prop :=
  ∃ p, (p = a ∨ p = b) ∧ k.tm.awake p = true ∧ InClosed (k.pc p) ∧ k.runSection p = some k'

/-- Both queues are empty and both tasks sleep. -/
def Settled (k : Kernel) : Prop := ∀ p, p = a ∨ p = b → k.tm.queueOf p = [] ∧ k.tm.awake p = false

/-- Tasks `a` and `b` answer to the ids `ida` and `idb`; one that sleeps does so at the head of the loop, with
nothing stored and nothing queued. -/
structure Pair (k : Kernel) : Prop where
  inv : k.tm.Inv
  notIdle : ∀ p, p = a ∨ p = b → p ≠ idlePtr
  left : ∃ t, k.tm.find ida = some t ∧ t.ptr = a
  right : ∃ t, k.tm.find idb = some t ∧ t.ptr = b
  asleep : ∀ p, p = a ∨ p = b → k.tm.awake p = false →
    k.tm.queueOf p = [] ∧ ∃ len target, 1 ≤ len ∧ k.pc p = .closedReceive len 0 target

/-- The answer to `m` goes to neither task. -/
def Foreign (m : Message) : Prop := m.srcTask ≠ ida ∧ m.srcTask ≠ idb

/-- A closed receive that has stored nothing and will neither store nor answer `a` or `b`. -/
def CalmAt (msgs : List Message) : Pc → Prop
  | .closedReceive len i target =>
    1 ≤ len ∧ i = 0 ∧ ∀ m ∈ msgs, m.srcTask ≠ target ∧ Foreign ida idb m
  | .closedReject len i target m =>
    1 ≤ len ∧ i = 0 ∧ Foreign ida idb m ∧ ∀ m ∈ msgs, m.srcTask ≠ target ∧ Foreign ida idb m
  | _ => False

def Calm (k : Kernel) : Prop := ∀ p, p = a ∨ p = b → CalmAt ida idb (k.tm.queueOf p) (k.pc p)

/-- What is left to do: pop and answer each message, then sleep. -/
def weight (k : Kernel) (p : Ptr) : Nat :=
  2 * (k.tm.queueOf p).length + (pending (k.pc p)).length + if k.tm.awake p then 1 else 0

variable {a b ida idb}

theorem queueOf_eq {tm : TaskManager} {p : Ptr} {t : Task} (h : tm.deref p = some t) : tm.queueOf p = t.msgs := by
  simp [queueOf, h]

theorem awake_eq {tm : TaskManager} {p : Ptr} {t : Task} (h : tm.deref p = some t) : tm.awake p = t.running := by
  simp [awake, h]

namespace Pair

variable {k k' : Kernel}

/-- The two tasks have the two ids. -/
theorem own_id (h : Pair a b ida idb k) {t : Task} (ht : t ∈ k.tm.tasks) (hp : t.ptr = a ∨ t.ptr = b) :
    t.id = ida ∨ t.id = idb := by
  rcases hp with hp | hp
  · obtain ⟨u, hu, hup⟩ := h.left
    obtain ⟨hmem, hid⟩ := find_some hu
    exact Or.inl (by rw [h.inv.rep.unique ht hmem (hp.trans hup.symm), hid])
  · obtain ⟨u, hu, hup⟩ := h.right
    obtain ⟨hmem, hid⟩ := find_some hu
    exact Or.inr (by rw [h.inv.rep.unique ht hmem (hp.trans hup.symm), hid])

/-- The answer goes to one of the two exactly when the message is not foreign. -/
theorem find_iff (h : Pair a b ida idb k) {m : Message} {u : Task} (hu : k.tm.find m.srcTask = some u) :
    (u.ptr = a ∨ u.ptr = b) ↔ ¬ Foreign ida idb m := by
  obtain ⟨hmem, hid⟩ := find_some hu
  constructor
  · intro hp hf
    rcases h.own_id hmem hp with he | he
    · exact hf.1 (hid.symm.trans he)
    · exact hf.2 (hid.symm.trans he)
  · intro hf
    simp only [Foreign, not_and_or, not_not] at hf
    rcases hf with he | he
    · obtain ⟨v, hv, hvp⟩ := h.left
      rw [he, hv] at hu
      exact Or.inl (Option.some.inj hu ▸ hvp)
    · obtain ⟨v, hv, hvp⟩ := h.right
      rw [he, hv] at hu
      exact Or.inr (Option.some.inj hu ▸ hvp)

theorem foreign_of_none (h : Pair a b ida idb k) {m : Message} (hn : k.tm.find m.srcTask = none) :
    Foreign ida idb m := by
  refine ⟨fun he => ?_, fun he => ?_⟩
  · obtain ⟨v, hv, -⟩ := h.left
    rw [he, hv] at hn
    exact absurd hn (by simp)
  · obtain ⟨v, hv, -⟩ := h.right
    rw [he, hv] at hn
    exact absurd hn (by simp)

theorem live (h : Pair a b ida idb k) {p : Ptr} (hp : p = a ∨ p = b) : ∃ t, k.tm.deref p = some t := by
  rcases hp with rfl | rfl
  · obtain ⟨v, hv, hvp⟩ := h.left
    exact deref_isSome ⟨v, (find_some hv).1, hvp⟩
  · obtain ⟨v, hv, hvp⟩ := h.right
    exact deref_isSome ⟨v, (find_some hv).1, hvp⟩

/-- An operation on one task, and a change of place. -/
theorem touch (h : Pair a b ida idb k) {q : Ptr} {f : Task → Task} (hto : Touches k.tm q f k'.tm) (hcore : k'.tm.Core)
    (hf : ∀ t, (f t).ptr = t.ptr ∧ (f t).id = t.id)
    (hr : q = idlePtr → ∀ t, t.running = true → (f t).running = true)
    (hasleep : ∀ p, p = a ∨ p = b → k'.tm.awake p = false →
      k'.tm.queueOf p = [] ∧ ∃ len target, 1 ≤ len ∧ k'.pc p = .closedReceive len 0 target) :
    Pair a b ida idb k' := by
  have hfind : ∀ id p, (∃ t, k.tm.find id = some t ∧ t.ptr = p) → ∃ t, k'.tm.find id = some t ∧ t.ptr = p := by
    rintro id p ⟨t, ht, hp⟩
    refine ⟨_, by rw [hto.find (fun t => (hf t).2), ht, Option.map_some], ?_⟩
    split
    · exact ((hf t).1).trans hp
    · exact hp
  exact ⟨hto.inv h.inv hcore (fun t => (hf t).1) hr, h.notIdle, hfind ida a h.left, hfind idb b h.right, hasleep⟩

end Pair

/-! ## One step -/

/-- A step of task `p` keeps the pair, keeps `Calm` both ways, and uses up weight while `Calm` holds. -/
def Progress (a b : Ptr) (ida idb : UInt64) (k k' : Kernel) : Prop :=
  Pair a b ida idb k' ∧ (Calm a b ida idb k' ↔ Calm a b ida idb k) ∧
    (Calm a b ida idb k → weight k' a + weight k' b < weight k a + weight k b)

/-- Only the place and queue of `p` matter. -/
theorem calm_iff {k k' : Kernel} {p : Ptr}
    (hself : CalmAt ida idb (k'.tm.queueOf p) (k'.pc p) ↔ CalmAt ida idb (k.tm.queueOf p) (k.pc p))
    (hother : ∀ q, q = a ∨ q = b → q ≠ p → k'.tm.queueOf q = k.tm.queueOf q ∧ k'.pc q = k.pc q) :
    Calm a b ida idb k' ↔ Calm a b ida idb k := by
  have hall : ∀ q, q = a ∨ q = b →
      (CalmAt ida idb (k'.tm.queueOf q) (k'.pc q) ↔ CalmAt ida idb (k.tm.queueOf q) (k.pc q)) := by
    intro q hq
    by_cases hqp : q = p
    · exact hqp ▸ hself
    · obtain ⟨h1, h2⟩ := hother q hq hqp
      rw [h1, h2]
  exact ⟨fun h q hq => (hall q hq).1 (h q hq), fun h q hq => (hall q hq).2 (h q hq)⟩

theorem weight_lt {k k' : Kernel} {p : Ptr} (hp : p = a ∨ p = b) (hself : weight k' p < weight k p)
    (hother : ∀ q, q = a ∨ q = b → q ≠ p → weight k' q = weight k q) :
    weight k' a + weight k' b < weight k a + weight k b := by
  have hle : ∀ q, q = a ∨ q = b → weight k' q ≤ weight k q := by
    intro q hq
    by_cases hqp : q = p
    · exact hqp ▸ Nat.le_of_lt hself
    · exact Nat.le_of_eq (hother q hq hqp)
  have ha := hle a (Or.inl rfl)
  have hb := hle b (Or.inr rfl)
  rcases hp with rfl | rfl <;> omega

/-- Sections that do nothing but move `p`, which is awake. -/
theorem Pair.go {k : Kernel} (h : Pair a b ida idb k) {p : Ptr} (hrun : k.tm.awake p = true) (pc : Pc) :
    Pair a b ida idb (k.setPc p pc) := by
  refine ⟨h.inv, h.notIdle, h.left, h.right, fun q hq hsl => ?_⟩
  have hqp : q ≠ p := by
    rintro rfl
    rw [show (k.setPc q pc).tm = k.tm from rfl, hrun] at hsl
    exact absurd hsl (by simp)
  rw [setPc_pc_other k pc hqp]
  exact h.asleep q hq hsl

theorem Pair.note {k : Kernel} (h : Pair a b ida idb k) (p : Ptr) (m : Message) (f : Fate) :
    Pair a b ida idb (k.note p m f) := ⟨h.inv, h.notIdle, h.left, h.right, h.asleep⟩

/-- **A pop.** Whether it is stored or refused, `Calm` is decided as before. -/
theorem Pair.pop {k : Kernel} (h : Pair a b ida idb k) {t : Task} (ht : k.tm.deref t.ptr = some t)
    (hp : t.ptr = a ∨ t.ptr = b) (hrun : t.running = true) {m : Message} {ms : List Message} (hm : t.msgs = m :: ms)
    {k' : Kernel} (hcore : k'.tm.Core) (hto : Touches k.tm t.ptr (fun t => { t with msgs := ms }) k'.tm)
    (hpcs : ∀ q, q ≠ t.ptr → k'.pc q = k.pc q)
    (hcalm : CalmAt ida idb ms (k'.pc t.ptr) ↔ CalmAt ida idb (m :: ms) (k.pc t.ptr))
    (hpend : CalmAt ida idb (m :: ms) (k.pc t.ptr) → (pending (k'.pc t.ptr)).length ≤ (pending (k.pc t.ptr)).length + 1) :
    Progress a b ida idb k k' := by
  have hself := hto.deref_self (fun _ => rfl) ht
  have hother : ∀ q, q ≠ t.ptr → k'.tm.queueOf q = k.tm.queueOf q ∧ k'.tm.awake q = k.tm.awake q := by
    intro q hq
    rw [queueOf, awake, hto.deref_other (fun _ => rfl) hq]
    exact ⟨rfl, rfl⟩
  refine ⟨h.touch hto hcore (fun _ => ⟨rfl, rfl⟩) (fun _ _ hr => hr) fun q hq hsl => ?_, ?_, fun hc => ?_⟩
  · by_cases hqt : q = t.ptr
    · rw [hqt, awake_eq hself] at hsl
      exact absurd (hrun.symm.trans hsl) (by simp)
    · rw [(hother q hqt).1, hpcs q hqt]
      rw [(hother q hqt).2] at hsl
      exact h.asleep q hq hsl
  · refine calm_iff (p := t.ptr) ?_ fun q _ hq => ⟨(hother q hq).1, hpcs q hq⟩
    rw [queueOf_eq hself, queueOf_eq ht, hm]
    exact hcalm
  · refine weight_lt hp ?_ fun q _ hq => ?_
    · have hc' := hc t.ptr hp
      rw [queueOf_eq ht, hm] at hc'
      have hlen := hpend hc'
      simp only [weight, queueOf_eq hself, queueOf_eq ht, awake_eq hself, awake_eq ht, hm, hrun, List.length_cons]
      omega
    · simp only [weight, (hother q hq).1, (hother q hq).2, hpcs q hq]

/-- **Going to sleep.** -/
theorem Pair.sleep {k : Kernel} (h : Pair a b ida idb k) {t : Task} (ht : k.tm.deref t.ptr = some t)
    (hp : t.ptr = a ∨ t.ptr = b) (hrun : t.running = true) (hm : t.msgs = []) {tm' : TaskManager} (hcore : tm'.Core)
    (hto : Touches k.tm t.ptr (fun t => { t with running := false }) tm')
    (hpc : ∃ len target, 1 ≤ len ∧ k.pc t.ptr = .closedReceive len 0 target) :
    Progress a b ida idb k { k with tm := tm' } := by
  have hself := hto.deref_self (fun _ => rfl) ht
  have hother : ∀ q, q ≠ t.ptr → tm'.queueOf q = k.tm.queueOf q ∧ tm'.awake q = k.tm.awake q := by
    intro q hq
    rw [queueOf, awake, hto.deref_other (fun _ => rfl) hq]
    exact ⟨rfl, rfl⟩
  refine ⟨h.touch hto hcore (fun _ => ⟨rfl, rfl⟩) (fun hi => absurd hi (h.notIdle _ hp)) fun q hq hsl => ?_, ?_,
    fun _ => ?_⟩
  · by_cases hqt : q = t.ptr
    · subst hqt
      exact ⟨(queueOf_eq hself).trans hm, hpc⟩
    · refine (hother q hqt).1 ▸ h.asleep q hq ?_
      rw [← (hother q hqt).2]
      exact hsl
  · refine calm_iff (p := t.ptr) ?_ fun q _ hq => ⟨(hother q hq).1, rfl⟩
    rw [queueOf_eq hself, queueOf_eq ht]
  · refine weight_lt hp ?_ fun q _ hq => ?_
    · simp [weight, queueOf_eq hself, queueOf_eq ht, awake_eq hself, awake_eq ht, hrun]
    · simp only [weight, (hother q hq).1, (hother q hq).2]

/-- **An answer.** A foreign message leaves the two alone; any other one puts a message of theirs into one of
the two queues. -/
theorem Pair.reject {k k1 : Kernel} (h : Pair a b ida idb k) {t : Task} (ht : k.tm.deref t.ptr = some t)
    (hp : t.ptr = a ∨ t.ptr = b) (hrun : t.running = true) {len i : Nat} {target : UInt64} {m : Message}
    (hpc : k.pc t.ptr = .closedReject len i target m)
    (he : k.send (.kernel t.ptr) m.srcTask (errorRetry t.id) = some k1) (f : Fate) :
    Progress a b ida idb k ((k1.note t.ptr m f).setPc t.ptr (.closedReceive len i target)) := by
  have hmem := (deref_some ht).1
  have hpcs : ∀ q, q ≠ t.ptr → ((k1.note t.ptr m f).setPc t.ptr (.closedReceive len i target)).pc q = k1.pc q :=
    fun q hq => setPc_pc_other _ _ hq
  have hpcself : ((k1.note t.ptr m f).setPc t.ptr (.closedReceive len i target)).pc t.ptr = .closedReceive len i target :=
    setPc_pc_self ..
  -- a foreign answer: queues and flags of the two stay
  have hforeign : Foreign ida idb m → k1.pc = k.pc → (∀ q, q = a ∨ q = b → k1.tm.queueOf q = k.tm.queueOf q ∧
      k1.tm.awake q = k.tm.awake q) →
      (Calm a b ida idb ((k1.note t.ptr m f).setPc t.ptr (.closedReceive len i target)) ↔ Calm a b ida idb k) ∧
      (Calm a b ida idb k → weight ((k1.note t.ptr m f).setPc t.ptr (.closedReceive len i target)) a +
        weight ((k1.note t.ptr m f).setPc t.ptr (.closedReceive len i target)) b < weight k a + weight k b) := by
    intro hf hk1 hq
    refine ⟨calm_iff (p := t.ptr) ?_ fun q hq' hqt => ?_, fun _ => weight_lt hp ?_ fun q hq' hqt => ?_⟩
    · rw [hpcself, hpc]
      show CalmAt ida idb (k1.tm.queueOf t.ptr) _ ↔ _
      rw [(hq t.ptr hp).1]
      exact ⟨fun hc => ⟨hc.1, hc.2.1, hf, hc.2.2⟩, fun hc => ⟨hc.1, hc.2.1, hc.2.2.2⟩⟩
    · rw [hpcs q hqt, hk1]
      exact ⟨(hq q hq').1, rfl⟩
    · rw [weight, weight, hpcself, hpc]
      show 2 * (k1.tm.queueOf t.ptr).length + 0 + (if k1.tm.awake t.ptr then 1 else 0) < _
      rw [(hq t.ptr hp).1, (hq t.ptr hp).2]
      simp [pending]
    · rw [weight, weight, hpcs q hqt, hk1]
      show 2 * (k1.tm.queueOf q).length + _ + (if k1.tm.awake q then 1 else 0) = _
      rw [(hq q hq').1, (hq q hq').2]
  rcases send_spec h.inv.toCore he with ⟨hnone, rfl⟩ | ⟨u, tm', hu, hcore, hto, rfl⟩
  · refine ⟨(h.note _ _ _).go ((awake_eq ht).trans hrun) _, hforeign (h.foreign_of_none hnone) rfl fun q _ => ⟨rfl, rfl⟩⟩
  have hud : k.tm.deref u.ptr = some u := h.inv.rep.deref_eq (find_some hu).1
  have hself := hto.deref_self (fun _ => rfl) hud
  have hother : ∀ q, q ≠ u.ptr → tm'.queueOf q = k.tm.queueOf q ∧ tm'.awake q = k.tm.awake q := by
    intro q hq
    rw [queueOf, awake, hto.deref_other (fun _ => rfl) hq]
    exact ⟨rfl, rfl⟩
  have hpair : Pair a b ida idb
      ({ k with tm := tm', sent := Function.update k.sent u.ptr (k.sent u.ptr ++ [(.kernel t.ptr, errorRetry t.id)])
        } : Kernel) := by
    refine h.touch hto hcore (fun _ => ⟨rfl, rfl⟩) (fun _ _ _ => rfl) fun q hq hsl => ?_
    have hqu : q ≠ u.ptr := by
      rintro rfl
      exact absurd ((awake_eq hself).symm.trans hsl) (by simp)
    refine (hother q hqu).1 ▸ h.asleep q hq ?_
    rw [← (hother q hqu).2]
    exact hsl
  have hrun' : tm'.awake t.ptr = true := by
    by_cases htu : t.ptr = u.ptr
    · rw [htu, awake_eq hself]
    · rw [(hother _ htu).2, awake_eq ht, hrun]
  refine ⟨(hpair.note _ _ _).go hrun' _, ?_⟩
  by_cases hf : Foreign ida idb m
  · refine hforeign hf rfl fun q hq => hother q ?_
    rintro rfl
    exact (h.find_iff hu).1 hq hf
  · -- the answer stays between the two
    have hnot : ¬ Calm a b ida idb k := by
      intro hc
      have := hc t.ptr hp
      rw [hpc] at this
      exact hf this.2.2.1
    refine ⟨iff_of_false (fun hc => ?_) hnot, fun hc => absurd hc hnot⟩
    have hup := (h.find_iff hu).2 hf
    have hcu := hc u.ptr hup
    have hin : errorRetry t.id ∈ tm'.queueOf u.ptr := by rw [queueOf_eq hself]; simp
    have hown : ¬ Foreign ida idb (errorRetry t.id) := by
      rintro ⟨h1, h2⟩
      rcases h.own_id hmem hp with e | e
      · exact h1 e
      · exact h2 e
    revert hcu
    show CalmAt ida idb (tm'.queueOf u.ptr) _ → False
    cases ((Kernel.note _ t.ptr m f).setPc t.ptr (.closedReceive len i target)).pc u.ptr <;> intro hcu
    case closedReceive => exact hown (hcu.2.2 _ hin).2
    case closedReject => exact hown (hcu.2.2.2 _ hin).2
    all_goals exact hcu

/-- **Every step of the two.** -/
theorem Pair.step {k k' : Kernel} (h : Pair a b ida idb k) (hs : StormStep a b k k') : Progress a b ida idb k k' := by
  obtain ⟨p, hp, hrun, hin, he⟩ := hs
  obtain ⟨t, ht⟩ := h.live hp
  obtain ⟨hmem, rfl⟩ := deref_some ht
  have hrunt : t.running = true := (awake_eq ht).symm.trans hrun
  have hsec := runSection_section ht he
  -- only the sections of `ClosedReceiveMessage` apply
  cases hsec with
  | go pc hg =>
    have hnot : ¬ CalmAt ida idb (k.tm.queueOf t.ptr) (k.pc t.ptr) ∧ ¬ CalmAt ida idb (k.tm.queueOf t.ptr) pc := by
      revert hg hin
      generalize k.pc t.ptr = pc0
      intro hin hg
      cases hg with
      | closed len i target hdone => exact ⟨fun hc => by rcases hc with ⟨h1, h2, -⟩; omega, id⟩
      | opened | ignored => exact hin.elim
    have hpcself : (k.setPc t.ptr pc).pc t.ptr = pc := setPc_pc_self ..
    refine ⟨h.go hrun pc, iff_of_false (fun hc => hnot.2 ?_) (fun hc => hnot.1 (hc t.ptr hp)),
      fun hc => absurd (hc t.ptr hp) hnot.1⟩
    have := hc t.ptr hp
    rwa [hpcself] at this
  | send who id msg pc k1 hsd _ =>
    revert hsd hin
    generalize k.pc t.ptr = pc0
    intro hin hsd
    cases hsd <;> exact hin.elim
  | reject len i target m k1 hpc hsend => exact h.reject ht hp hrunt hpc hsend _
  | sleep i tm' hw htake =>
    rcases h.inv.toCore.takeMessage_spec hmem htake with ⟨m, ms, -, hr, -, -⟩ | ⟨hm, rfl, -, -, hcore, hto⟩ | ⟨-, -, hr, -⟩
    · exact absurd hr (by simp)
    · refine h.sleep ht hp hrunt hm hcore hto ?_
      revert hw hin
      generalize k.pc t.ptr = pc0
      intro hin hw
      cases hw with
      | closed len _ target hlt => exact ⟨len, target, hlt, rfl⟩
      | opened | system | app => exact hin.elim
    · exact absurd hr (by simp)
  | keep i tm' m pc ret hw hk htake =>
    rcases h.inv.toCore.takeMessage_spec hmem htake with ⟨m', ms, hm, hr, hcore, hto⟩ | ⟨-, -, hr, -, -, -⟩ | ⟨-, -, hr, -⟩
    · obtain rfl := Taken.got.inj hr
      -- stored: the wait is over
      have hnot : ¬ CalmAt ida idb (m :: ms) (k.pc t.ptr) ∧ ¬ CalmAt ida idb ms pc := by
        revert hk hin
        generalize k.pc t.ptr = pc0
        intro hin hk
        cases hk with
        | closed len i target hm => exact ⟨fun hc => (hc.2.2 m (by simp)).1 hm, fun hc => absurd hc.2.1 (by simp)⟩
        | opened | system | retry | received | other => exact hin.elim
      refine h.pop ht hp hrunt hm hcore hto (fun q hq => setPc_pc_other _ _ hq) ?_ (fun hc => absurd hc hnot.1)
      rw [setPc_pc_self]
      exact iff_of_false hnot.2 hnot.1
    · exact absurd hr (by simp)
    · exact absurd hr (by simp)
  | refuse len i target tm' m hpc hne htake =>
    rcases h.inv.toCore.takeMessage_spec hmem htake with ⟨m', ms, hm, hr, hcore, hto⟩ | ⟨-, -, hr, -, -, -⟩ | ⟨-, -, hr, -⟩
    · obtain rfl := Taken.got.inj hr
      refine h.pop ht hp hrunt hm hcore hto (fun q hq => setPc_pc_other _ _ hq) ?_ (fun _ => ?_)
      · rw [setPc_pc_self, hpc]
        refine ⟨fun hc => ⟨hc.1, hc.2.1, fun m' hm' => ?_⟩, fun hc => ⟨hc.1, hc.2.1, (hc.2.2 m (by simp)).2, fun m' hm' =>
          hc.2.2 m' (List.mem_cons_of_mem _ hm')⟩⟩
        rcases List.mem_cons.1 hm' with rfl | hm'
        · exact ⟨hne, hc.2.2.1⟩
        · exact hc.2.2.2 m' hm'
      · rw [setPc_pc_self, hpc]
        simp [pending]
    · exact absurd hr (by simp)
    · exact absurd hr (by simp)
  | expand m hpc _ => rw [hpc] at hin; exact hin.elim
  | start m f k1 hpc _ _ => rw [hpc] at hin; exact hin.elim
  | finish ec tm' hpc _ => rw [hpc] at hin; exact hin.elim

/-! ## Every run of the two -/

/-- A calm pair that has not come to rest can take a step. -/
theorem Pair.live_step {k : Kernel} (h : Pair a b ida idb k) (hc : Calm a b ida idb k) (hs : ¬ Settled a b k) :
    ∃ k', StormStep a b k k' := by
  -- one of the two is awake
  obtain ⟨p, hp, hrun⟩ : ∃ p, (p = a ∨ p = b) ∧ k.tm.awake p = true := by
    by_contra hno
    refine hs fun p hp => ?_
    have hsl : k.tm.awake p = false := by
      cases hr : k.tm.awake p with
      | false => rfl
      | true => exact absurd ⟨p, hp, hr⟩ hno
    exact ⟨(h.asleep p hp hsl).1, hsl⟩
  obtain ⟨t, ht⟩ := h.live hp
  obtain ⟨hmem, rfl⟩ := deref_some ht
  have hcp := hc t.ptr hp
  cases hpc : k.pc t.ptr <;> rw [hpc] at hcp <;> try exact hcp.elim
  case closedReceive len i target =>
    obtain ⟨⟨tm', r⟩, htake⟩ := h.inv.takeMessage_some hmem (h.notIdle _ hp) i
    have hlen : ¬ len ≤ i := by have := hcp.1; have := hcp.2.1; omega
    have hsome : ∃ k', k.runSection t.ptr = some k' := by
      simp only [runSection, ht, hpc, hlen, htake, Option.bind_eq_bind, Option.bind_some, if_false]
      cases r with
      | slept | empty => exact ⟨_, rfl⟩
      | got m =>
        by_cases hm : m.srcTask = target
        · simp only [hm, ne_eq, not_true, if_false]
          exact ⟨_, rfl⟩
        · simp only [ne_eq, hm, not_false_eq_true, if_true]
          exact ⟨_, rfl⟩
    obtain ⟨k', hk'⟩ := hsome
    exact ⟨k', t.ptr, hp, hrun, by rw [hpc]; trivial, hk'⟩
  case closedReject len i target m =>
    obtain ⟨⟨tm', e⟩, hsend, -⟩ := h.inv.sendMessage m.srcTask (errorRetry t.id)
    have hsome : ∃ k', k.runSection t.ptr = some k' := by
      simp only [runSection, ht, hpc, Kernel.send, hsend, Option.bind_eq_bind, Option.bind_some]
      exact ⟨_, rfl⟩
    obtain ⟨k', hk'⟩ := hsome
    exact ⟨k', t.ptr, hp, hrun, by rw [hpc]; trivial, hk'⟩

/-- A pair that is not calm never comes to rest. -/
theorem Pair.never_settles {k : Kernel} (h : Pair a b ida idb k) (hc : ¬ Calm a b ida idb k) :
    ¬ TransitionSystem.AllPaths (StormStep a b) (Settled a b) k := by
  refine TransitionSystem.AllPaths.not_of_invariant (I := fun k => Pair a b ida idb k ∧ ¬ Calm a b ida idb k)
    (fun x y hx hxy => ?_) (fun x hx hq => hx.2 fun p hp => ?_) ⟨h, hc⟩
  · obtain ⟨hy, hiff, -⟩ := hx.1.step hxy
    exact ⟨hy, fun hcy => hx.2 (hiff.1 hcy)⟩
  · obtain ⟨hnil, len, target, hlen, hpc⟩ := hx.1.asleep p hp (hq p hp).2
    rw [hpc, hnil]
    exact ⟨hlen, rfl, fun m hm => absurd hm List.not_mem_nil⟩

/-- **Whether two closed receives come to rest.** From any state, every maximal sequence of receive steps of
`a` and `b` ends with both queues empty and both asleep, if and only if neither call has stored anything and no
message queued at or held by either of them comes from `a`, from `b` or from that call's target. -/
theorem closed_receives_settle_iff (a b : Ptr) (ida idb : UInt64) (k : Kernel) (h : Pair a b ida idb k) :
    TransitionSystem.AllPaths (StormStep a b) (Settled a b) k ↔ Calm a b ida idb k := by
  constructor
  · intro hall
    by_contra hc
    exact h.never_settles hc hall
  · intro hc
    refine TransitionSystem.AllPaths.of_measure (I := fun k => Pair a b ida idb k ∧ Calm a b ida idb k)
      (fun k => weight k a + weight k b) (fun x y hx hxy => ?_) (fun x hx hq => hx.1.live_step hx.2 hq) ⟨h, hc⟩
    obtain ⟨hy, hiff, hlt⟩ := hx.1.step hxy
    exact ⟨⟨hy, hiff.2 hx.2⟩, hlt hx.2⟩

end TwoTasks

/-- Task 3 creates and starts task 4, `deliver` happens, and both enter `ClosedReceiveMessage`, waiting for
task 1 and for task 2. -/
def pairRun (deliver : List Event) : List Event :=
  [.run, .sysNewTask, .sysSend ⟨.kStartApp, 0, .starttask 4⟩ 1, .run, .tick, .tick, .run, .run, .run] ++ deliver ++
    [.sysClosed 1 1, .run, .sysClosed 1 2]

/-- The tasks `pairRun` ends with, one message being queued at task 4. -/
def pairTasks (m : Message) : List Task :=
  [{ ptr := 0, id := 1, name := "systemtask", level := 3 },
    { ptr := 1, id := 2, level := 0, running := true, inits := [⟨.taskIdle, 2, 0⟩] },
    { ptr := 2, id := 3, inits := [⟨.taskInitServer, 3, 0⟩] },
    { ptr := 3, id := 4, running := true, msgs := [m], inits := [⟨.taskApp, 4, 3⟩] }]

theorem pair_of_tasks {es : List Event} {k : Kernel} (h : Runs es k) {m : Message} (ht : k.tm.tasks = pairTasks m)
    (hpc : k.pc 2 = .closedReceive 1 0 1) : Pair 2 3 3 4 k where
  inv := ⟨h.sound.core, by rw [ht]; exact ⟨_, by simp [pairTasks]; exact Or.inr (Or.inl rfl), rfl, rfl⟩⟩
  notIdle := by
    rintro p (rfl | rfl) <;> decide
  left := by
    simp only [find, ht]
    exact ⟨_, rfl, rfl⟩
  right := by
    simp only [find, ht]
    exact ⟨_, rfl, rfl⟩
  asleep := by
    rintro p (rfl | rfl) hsl
    · exact ⟨by simp only [queueOf, deref, ht]; rfl, 1, 1, Nat.le_refl 1, hpc⟩
    · simp [awake, deref, ht, pairTasks] at hsl

/-- A key pressed before task 4 waits: rejected, answered to nobody, and both sleep. -/
theorem closed_receives_settle_key : ∃ k,
    Runs (pairRun [.kernelSend 4 ⟨.kKeyPush, 0, .keyboard 0 4 97 true⟩]) k ∧
    TransitionSystem.AllPaths (StormStep 2 3) (Settled 2 3) k := by
  obtain ⟨k, hk, hx⟩ := runs_of_eval (l := pairRun [.kernelSend 4 ⟨.kKeyPush, 0, .keyboard 0 4 97 true⟩])
    (f := fun k => (k.tm.tasks, k.pc 2, k.pc 3))
    (x := (pairTasks ⟨.kKeyPush, 0, .keyboard 0 4 97 true⟩, .closedReceive 1 0 1, .closedReceive 1 0 2)) (by decide +kernel)
  obtain ⟨ht, h2, h3⟩ := Prod.mk.inj hx |>.imp id Prod.mk.inj
  refine ⟨k, hk, (closed_receives_settle_iff 2 3 3 4 k (pair_of_tasks hk ht h2)).2 ?_⟩
  rintro p (rfl | rfl)
  · rw [h2]
    simp [queueOf, deref, ht, pairTasks, CalmAt]
  · rw [h3]
    simp [queueOf, deref, ht, pairTasks, CalmAt, Foreign]

/-- **A bounce storm.** Task 3 sends task 4 one message, then the two wait for others: the `kError`s go back and
forth for ever. -/
theorem closed_receives_storm : ∃ k, Runs (pairRun [.sysSend ⟨.kReady, 0, .unset⟩ 4, .run]) k ∧
    k.pc 2 = .closedReceive 1 0 1 ∧ k.pc 3 = .closedReceive 1 0 2 ∧
    ¬ TransitionSystem.AllPaths (StormStep 2 3) (Settled 2 3) k := by
  obtain ⟨k, hk, hx⟩ := runs_of_eval (l := pairRun [.sysSend ⟨.kReady, 0, .unset⟩ 4, .run])
    (f := fun k => (k.tm.tasks, k.pc 2, k.pc 3))
    (x := (pairTasks ⟨.kReady, 3, .unset⟩, .closedReceive 1 0 1, .closedReceive 1 0 2)) (by decide +kernel)
  obtain ⟨ht, h2, h3⟩ := Prod.mk.inj hx |>.imp id Prod.mk.inj
  refine ⟨k, hk, h2, h3, (pair_of_tasks hk ht h2).never_settles fun hc => ?_⟩
  have := hc 3 (Or.inr rfl)
  rw [h3] at this
  simp [queueOf, deref, ht, pairTasks, CalmAt, Foreign] at this

end Kernel

end KinOS
