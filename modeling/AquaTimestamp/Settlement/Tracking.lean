import AquaTimestamp.Settlement.Identity

/-!
# The record in memory and the stored record

While the sealer settles a record it changes a copy in memory and saves it at
some points; a save may fail, and the copy goes on to the next method.  This
module says, method by method, how the stored record may differ from the copy:
an anchor not saved yet, a discard not saved yet, the time of a legacy entry
not saved yet, or a method that was served by a write whose final fsync
failed.  A method the sealer has not come to never differs.
-/

namespace AquaTimestamp

open Support Partition

variable {sdk : Sdk}

/-! ## Events of the tick in progress -/

theorem mem_thisCycle_of_lastCall {log : List (Event sdk)} {c : Call sdk}
    {answer : Answer c} (h : lastCall log = some ⟨c, answer⟩) :
    .call c answer ∈ thisCycle log := by
  induction log with
  | nil => cases h
  | cons ev log ih =>
      cases ev with
      | boot | tick => cases h
      | append => exact mem_thisCycle_cons rfl (ih h)
      | call c' answer' =>
          cases h
          exact mem_thisCycle_self rfl

/-- In the tick in progress the witnesses `minted` from the anchor `v` of
(`e`, `m`) were checked, and `verdict` decided it. -/
def JudgedInTick (log : List (Event sdk)) (ctx : WitnessContext) (e : Nat)
    (m : AnchorMethod) (v : TimestampValue)
    (minted : List (MintedWitness sdk)) (verdict : Option SelfCheckVerdict) :
    Prop :=
  ∃ answer : Except String (HostAnswers sdk),
    .call (.selfCheck e m v minted ctx.serviceDid ctx.selfCheck) answer ∈
      thisCycle log ∧
    verdict = firstUnverified minted
      (selfCheckVerdicts ctx.selfCheck ctx.serviceDid minted answer)

theorem JustJudged.inTick {log : List (Event sdk)} {ctx : WitnessContext}
    {e : Nat} {m : AnchorMethod} {v : TimestampValue}
    {minted : List (MintedWitness sdk)} {verdict : Option SelfCheckVerdict}
    (h : JustJudged log ctx e m v minted verdict) :
    JudgedInTick log ctx e m v minted verdict := by
  obtain ⟨answer, hlast, hverdict⟩ := h
  exact ⟨answer, mem_thisCycle_of_lastCall hlast, hverdict⟩

/-- In the tick in progress the witnesses of (`e`, `m`) were committed by a
write that reported an error. -/
def ServedUnsynced (log : List (Event sdk)) (e : Nat) (m : AnchorMethod) :
    Prop :=
  ∃ (remaining : PendingEpoch sdk) (minted : List (MintedWitness sdk))
    (err : StoreError), remaining.epochId = e ∧
    .call (.persistPendingMinted remaining m minted) (.unsynced err) ∈
      thisCycle log

theorem ErrorsChangeNothing.tail {ev : Event sdk} {log : List (Event sdk)}
    (h : ErrorsChangeNothing (ev :: log)) : ErrorsChangeNothing log :=
  fun ev' hev' => h ev' (List.mem_cons_of_mem _ hev')

theorem ErrorsChangeNothing.not_unsynced {log : List (Event sdk)}
    (h : ErrorsChangeNothing log) (e : Nat) (m : AnchorMethod) :
    ¬ ServedUnsynced log e m := by
  rintro ⟨remaining, minted, err, -, hev⟩
  cases h _ (mem_of_mem_thisCycle hev)

/-- The verdicts that cost an anchor: at fault, or unknown past the timeout. -/
def Discards (ctx : WitnessContext) (now : Nat) (a : StoredAnchor)
    (verdict : Option SelfCheckVerdict) : Prop :=
  (∃ reason, verdict = some (.failed reason true)) ∨
    (∃ reason, verdict = some (.missing reason)) ∧
      ctx.evmNotFoundTimeoutSecs ≤ now - a.firstSeen.getD now

/-! ## How a stored record may differ from the one in memory -/

/-- The stored record `q` and the record `p` say the same of a method. -/
structure Agrees (q p : PendingEpoch sdk) (m : AnchorMethod) : Prop where
  listed : m ∈ q.methods ↔ m ∈ p.methods
  entry : q.anchorEntry m = p.anchorEntry m
  faults : q.anchorFaultCount m = p.anchorFaultCount m

/-- How the stored record `q` may differ from the record `p` in memory, for
one method, and what happened in this tick when it does. -/
inductive Drift (log : List (Event sdk)) (ctx : WitnessContext) (now : Nat)
    (q p : PendingEpoch sdk) (m : AnchorMethod) : Prop where
  | agrees : Agrees q p m → Drift log ctx now q p m
  /-- A fresh anchor is not stored. -/
  | gained {v : TimestampValue} :
      m ∈ q.methods → m ∈ p.methods → q.anchorEntry m = none →
      p.anchorEntry m = some ⟨m, v, some now⟩ →
      q.anchorFaultCount m = p.anchorFaultCount m →
      p.anchorFaultCount m < ctx.maxAnchorFaults →
      .call (.createTimestamp p.epochId m p.anchorRoot) (.ok v) ∈
        thisCycle log →
        Drift log ctx now q p m
  /-- The time of a legacy entry is not stored. -/
  | touched {a : StoredAnchor} {minted : List (MintedWitness sdk)}
      {reason : String} :
      (m ∈ q.methods ↔ m ∈ p.methods) → q.anchorEntry m = some a →
      a.firstSeen = none →
      p.anchorEntry m = some { a with firstSeen := some now } →
      q.anchorFaultCount m = p.anchorFaultCount m →
      JudgedInTick log ctx p.epochId m a.value minted
        (some (.missing reason)) →
        Drift log ctx now q p m
  /-- A counted discard is not stored. -/
  | dropped {a : StoredAnchor} {minted : List (MintedWitness sdk)}
      {verdict : Option SelfCheckVerdict} :
      (m ∈ q.methods ↔ m ∈ p.methods) → q.anchorEntry m = some a →
      p.anchorEntry m = none →
      p.anchorFaultCount m = q.anchorFaultCount m + 1 →
      JudgedInTick log ctx p.epochId m a.value minted verdict →
      Discards ctx now a verdict →
        Drift log ctx now q p m
  /-- The method was served, but the sealer was told that it was not. -/
  | unsynced :
      m ∉ q.methods → m ∈ p.methods → q.anchorEntry m = none →
      (p.anchorEntry m).isSome →
      q.anchorFaultCount m = p.anchorFaultCount m →
      ServedUnsynced log p.epochId m →
        Drift log ctx now q p m

theorem Agrees.refl (p : PendingEpoch sdk) (m : AnchorMethod) :
    Agrees p p m :=
  ⟨Iff.rfl, rfl, rfl⟩

theorem Agrees.symm {p q : PendingEpoch sdk} {m : AnchorMethod} (h : Agrees p q m) :
    Agrees q p m :=
  ⟨h.listed.symm, h.entry.symm, h.faults.symm⟩

theorem Agrees.trans {p q r : PendingEpoch sdk} {m : AnchorMethod} (h : Agrees p q m)
    (h' : Agrees q r m) : Agrees p r m :=
  ⟨h.listed.trans h'.listed, h.entry.trans h'.entry, h.faults.trans h'.faults⟩

section Drift

variable {log log' : List (Event sdk)} {ctx : WitnessContext} {now : Nat}
variable {q p p' : PendingEpoch sdk} {m : AnchorMethod}

/-- What happened in the tick stays part of it. -/
theorem Drift.mono (hlog : ∀ ev ∈ thisCycle log, ev ∈ thisCycle log')
    (h : Drift log ctx now q p m) : Drift log' ctx now q p m := by
  cases h with
  | agrees h => exact .agrees h
  | gained hmem hmem' hq hp hfaults hcap hev =>
      exact .gained hmem hmem' hq hp hfaults hcap (hlog _ hev)
  | touched hmem hq ha hp hfaults hjudged =>
      obtain ⟨answer, hev, hverdict⟩ := hjudged
      exact .touched hmem hq ha hp hfaults ⟨answer, hlog _ hev, hverdict⟩
  | dropped hmem hq hp hfaults hjudged hdiscards =>
      obtain ⟨answer, hev, hverdict⟩ := hjudged
      exact .dropped hmem hq hp hfaults ⟨answer, hlog _ hev, hverdict⟩ hdiscards
  | unsynced hnot hmem hq hp hfaults hserved =>
      obtain ⟨remaining, minted, err, hid, hev⟩ := hserved
      exact .unsynced hnot hmem hq hp hfaults
        ⟨remaining, minted, err, hid, hlog _ hev⟩

/-- A change of the record at other methods does not show at this one. -/
theorem Drift.congr (hsame : PendingEpoch.SameEpoch p' p) (hagrees : Agrees p p' m)
    (h : Drift log ctx now q p m) : Drift log ctx now q p' m := by
  have hid : p.epochId = p'.epochId := hsame.1.symm
  have hroot : p.anchorRoot = p'.anchorRoot := by
    simp [PendingEpoch.anchorRoot, hsame.2.2.2.2]
  cases h with
  | agrees h =>
      exact .agrees (h.trans hagrees)
  | gained hmem hmem' hq hp hfaults hcap hev =>
      refine .gained hmem (hagrees.listed.mp hmem') hq (hagrees.entry ▸ hp)
        (hfaults.trans hagrees.faults) (hagrees.faults ▸ hcap) ?_
      rw [← hid, ← hroot]
      exact hev
  | touched hmem hq ha hp hfaults hjudged =>
      exact .touched (hmem.trans hagrees.listed) hq ha (hagrees.entry ▸ hp)
        (hfaults.trans hagrees.faults) (hid ▸ hjudged)
  | dropped hmem hq hp hfaults hjudged hdiscards =>
      exact .dropped (hmem.trans hagrees.listed) hq (hagrees.entry ▸ hp)
        (hagrees.faults ▸ hfaults) (hid ▸ hjudged) hdiscards
  | unsynced hnot hmem hq hp hfaults hserved =>
      exact .unsynced hnot (hagrees.listed.mp hmem) hq (hagrees.entry ▸ hp)
        (hfaults.trans hagrees.faults) (hid ▸ hserved)

end Drift

/-! ## Changes at one method only -/

theorem agrees_setAnchor {p : PendingEpoch sdk} {m m' : AnchorMethod}
    {v : TimestampValue} {now : Nat} (h : m ≠ m') :
    Agrees p (p.setAnchor m v now) m' :=
  ⟨Iff.rfl, by simp [PendingEpoch.anchorEntry_setAnchor, h], by simp⟩

theorem agrees_discardAnchor {p : PendingEpoch sdk} {m m' : AnchorMethod}
    (h : m ≠ m') : Agrees p (discardAnchor p m) m' :=
  ⟨by simp [discardAnchor],
    by simp [discardAnchor, PendingEpoch.anchorEntry_dropAnchor, h],
    by simp [discardAnchor, PendingEpoch.anchorFaultCount_countAnchorFault, h]⟩

theorem agrees_touchAnchor {p : PendingEpoch sdk} {m m' : AnchorMethod}
    {now : Nat} (h : m ≠ m') : Agrees p (p.touchAnchor m now) m' :=
  ⟨Iff.rfl, by simp [PendingEpoch.anchorEntry_touchAnchor, h], by simp⟩

theorem agrees_without {p : PendingEpoch sdk} {m m' : AnchorMethod}
    (h : m ≠ m') : Agrees p (p.without m) m' :=
  ⟨by simp [PendingEpoch.mem_methods_without, Ne.symm h],
    by simp [PendingEpoch.anchorEntry_without, h], by simp⟩

theorem discardAnchor_entry (p : PendingEpoch sdk) (m : AnchorMethod) :
    (discardAnchor p m).anchorEntry m = none := by
  simp [discardAnchor, PendingEpoch.anchorEntry_dropAnchor]

theorem discardAnchor_faults (p : PendingEpoch sdk) (m : AnchorMethod) :
    (discardAnchor p m).anchorFaultCount m = p.anchorFaultCount m + 1 := by
  simp [discardAnchor, PendingEpoch.anchorFaultCount_countAnchorFault]

theorem discardAnchor_methods (p : PendingEpoch sdk) (m : AnchorMethod) :
    (discardAnchor p m).methods = p.methods := by
  simp [discardAnchor]

/-! ## Tracking a record while it is settled -/

/-- What the stored record `q` is known to say in each phase. -/
def Settling.Fits (s : Settling sdk) (log : List (Event sdk))
    (q : PendingEpoch sdk) : Prop :=
  match s.phase with
  | .ready => True
  | .unsaved m v =>
      m ∉ s.todo ∧ m ∈ s.record.methods ∧
        ∃ a, s.record.anchorEntry m = some a ∧ a.value = v
  | .anchored m v | .judged m v _ _ =>
      m ∉ s.todo ∧ m ∈ s.record.methods ∧ Agrees q s.record m ∧
        ∃ a, q.anchorEntry m = some a ∧ a.value = v
  | .resaving m =>
      m ∉ s.todo ∧ m ∈ s.record.methods ∧
        ∃ a minted verdict, q.anchorEntry m = some a ∧
          JustJudged log s.ctx s.record.epochId m a.value minted verdict ∧
          (s.record.anchorEntry m = none → Discards s.ctx s.now a verdict)

/-- The stored record `q` follows the record of `s`. -/
structure Tracks (log : List (Event sdk)) (s : Settling sdk)
    (q : PendingEpoch sdk) : Prop where
  same : PendingEpoch.SameEpoch q s.record
  drift : ∀ m, Drift log s.ctx s.now q s.record m
  ahead : ∀ m ∈ s.todo, Agrees q s.record m
  fits : s.Fits log q

/-- The store follows the record of `s`.  It holds none only when nothing is
left to do. -/
structure Synced (w : World sdk) (s : Settling sdk) : Prop where
  nodup : s.record.methods.Nodup
  todoNodup : s.todo.Nodup
  todoListed : ∀ m ∈ s.todo, m ∈ s.record.methods
  stored : ∀ q, w.store.pendingAnchors[s.record.epochId]? = some q →
    Tracks w.log s q
  absent : w.store.pendingAnchors[s.record.epochId]? = none →
    s.todo = [] ∧ s.phase = .ready

/-- A record that is stored as it is in memory is followed. -/
theorem Tracks.same_record {log : List (Event sdk)} {s : Settling sdk}
    (hfits : s.Fits log s.record) : Tracks log s s.record where
  same := ⟨rfl, rfl, rfl, rfl, rfl⟩
  drift m := .agrees (Agrees.refl _ m)
  ahead m _ := Agrees.refl _ m
  fits := hfits

theorem Synced.visit {w : World sdk} {s : Settling sdk}
    (hstored : w.store.pendingAnchors[s.record.epochId]? = some s.record)
    (hnodup : s.record.methods.Nodup) (htodo : s.todo = s.record.methods)
    (hphase : s.phase = .ready) : Synced w s where
  nodup := hnodup
  todoNodup := htodo ▸ hnodup
  todoListed m hm := htodo ▸ hm
  stored q hq := by
    obtain rfl : s.record = q := Option.some.inj (hstored.symm.trans hq)
    exact .same_record (by simp [Settling.Fits, hphase])
  absent hnone := by
    rw [hstored] at hnone
    cases hnone

/-- A step of settling has something to do. -/
theorem Settles.busy {w w' : World sdk} {s s' : Settling sdk}
    (h : Settles w s w' s') : ¬ (s.todo = [] ∧ s.phase = .ready) := by
  rintro ⟨htodo, hready⟩
  cases h with
  | skip hat | unwired hat | refused hat | obtained hat | hold hat =>
      rw [hat.2] at htodo
      cases htodo
  | store hphase | giveUp hphase | mint hphase | mintFailed hphase
  | judge hphase | keep hphase | blame hphase | wait hphase | abandon hphase
  | resave hphase | serve hphase =>
      rw [hphase] at hready
      cases hready

theorem Synced.tracks {w w' : World sdk} {s s' : Settling sdk}
    (h : Synced w s) (hstep : Settles w s w' s') :
    ∃ q, w.store.pendingAnchors[s.record.epochId]? = some q ∧
      Tracks w.log s q := by
  cases hq : w.store.pendingAnchors[s.record.epochId]? with
  | none => exact absurd (h.absent hq) hstep.busy
  | some q => exact ⟨q, rfl, h.stored q hq⟩

/-- The parts of `Synced` that a step from a followed record has to show. -/
theorem Synced.of_tracks {w w' : World sdk} {s s' : Settling sdk}
    {q : PendingEpoch sdk} (h : Synced w s)
    (hid : s'.record.epochId = s.record.epochId)
    (hmethods : s'.record.methods = s.record.methods)
    (htodo : s'.todo <:+ s.todo)
    (hq : w'.store.pendingAnchors[s.record.epochId]? = some q)
    (ht : Tracks w'.log s' q) : Synced w' s' where
  nodup := hmethods ▸ h.nodup
  todoNodup := h.todoNodup.sublist htodo.sublist
  todoListed m hm := hmethods ▸ h.todoListed m (htodo.subset hm)
  stored q' hq' := by
    rw [hid, hq] at hq'
    cases hq'
    exact ht
  absent hnone := by
    rw [hid, hq] at hnone
    cases hnone

section Steps

variable {w : World sdk} {s : Settling sdk} {q : PendingEpoch sdk}

/-- A call that writes nothing keeps what is known of the stored record. -/
theorem Tracks.of_call {c : Call sdk} {answer : Answer c} {s' : Settling sdk}
    (ht : Tracks w.log s q) (hrecord : s'.record = s.record)
    (hctx : s'.ctx = s.ctx) (hnow : s'.now = s.now) (htodo : s'.todo <:+ s.todo)
    (hfits : s'.Fits (.call c answer :: w.log) q) :
    Tracks (w.after c answer).log s' q where
  same := hrecord ▸ ht.same
  drift m := by
    rw [hrecord, hctx, hnow]
    exact (ht.drift m).mono fun _ => mem_thisCycle_cons rfl
  ahead m hm := hrecord ▸ ht.ahead m (htodo.subset hm)
  fits := hfits

/-- A step in memory that keeps the record. -/
theorem Tracks.of_memory {s' : Settling sdk} {log : List (Event sdk)}
    (ht : Tracks log s q) (hrecord : s'.record = s.record)
    (hctx : s'.ctx = s.ctx) (hnow : s'.now = s.now) (htodo : s'.todo <:+ s.todo)
    (hfits : s'.Fits log q) : Tracks log s' q where
  same := hrecord ▸ ht.same
  drift m := by
    rw [hrecord, hctx, hnow]
    exact ht.drift m
  ahead m hm := hrecord ▸ ht.ahead m (htodo.subset hm)
  fits := hfits

/-- A step that changes the record at one method the sealer has come to. -/
theorem Tracks.of_change {s' : Settling sdk} {log : List (Event sdk)}
    {m : AnchorMethod} (ht : Tracks log s q)
    (hsame : PendingEpoch.SameEpoch s'.record s.record)
    (hctx : s'.ctx = s.ctx) (hnow : s'.now = s.now) (htodo : s'.todo <:+ s.todo)
    (hnot : m ∉ s'.todo) (hothers : ∀ m', m ≠ m' → Agrees s.record s'.record m')
    (hdrift : Drift log s.ctx s.now q s'.record m) (hfits : s'.Fits log q) :
    Tracks log s' q where
  same := ht.same.trans ⟨hsame.1.symm, hsame.2.1.symm, hsame.2.2.1.symm,
    hsame.2.2.2.1.symm, hsame.2.2.2.2.symm⟩
  drift m' := by
    rw [hctx, hnow]
    by_cases hm : m = m'
    · exact hm ▸ hdrift
    · exact (ht.drift m').congr hsame (hothers m' hm)
  ahead m' hm' := by
    have hne : m ≠ m' := fun heq => hnot (heq ▸ hm')
    have hold := ht.ahead m' (htodo.subset hm')
    have hnew := hothers m' hne
    exact hold.trans hnew
  fits := hfits

theorem Settling.AtMethod.suffix {m : AnchorMethod}
    {rest : List AnchorMethod} (hat : s.AtMethod m rest) : rest <:+ s.todo :=
  hat.2 ▸ List.suffix_cons m rest

theorem Synced.not_mem_rest {m : AnchorMethod} {rest : List AnchorMethod}
    (h : Synced w s) (hat : s.AtMethod m rest) : m ∉ rest := by
  have hnodup := h.todoNodup
  rw [hat.2] at hnodup
  exact (List.nodup_cons.mp hnodup).1

theorem Settling.AtMethod.mem {m : AnchorMethod} {rest : List AnchorMethod}
    (hat : s.AtMethod m rest) : m ∈ s.todo :=
  hat.2 ▸ List.mem_cons_self ..

/-- The save of the record in memory. -/
theorem Synced.save {s' : Settling sdk} {o : WriteOutcome}
    (h : Synced w s) (hrecord : s'.record = s.record)
    (hctx : s'.ctx = s.ctx) (hnow : s'.now = s.now) (htodo : s'.todo = s.todo)
    (ht : Tracks w.log s q)
    (hq : w.store.pendingAnchors[s.record.epochId]? = some q)
    (hold : o.committed = false →
      s'.Fits (.call (.savePending s.record) o :: w.log) q)
    (hnew : o.committed = true →
      s'.Fits (.call (.savePending s.record) o :: w.log) s.record) :
    Synced (w.after (.savePending s.record) o) s' := by
  have hid : s'.record.epochId = s.record.epochId := by rw [hrecord]
  have hmethods : s'.record.methods = s.record.methods := by rw [hrecord]
  have hsuffix : s'.todo <:+ s.todo := htodo ▸ List.suffix_refl _
  rcases after_save (w := w) s.record o with ⟨ho, heq⟩ | ⟨ho, heq⟩
  · refine h.of_tracks hid hmethods hsuffix (q := q) ?_
      (ht.of_call hrecord hctx hnow hsuffix (hold ho))
    simpa only [World.after, heq] using hq
  · refine h.of_tracks hid hmethods hsuffix (q := s.record) ?_ ?_
    · simp only [World.after, heq, Store.savePending]
      simp
    · exact hrecord ▸ Tracks.same_record (by rw [hrecord]; exact hnew ho)

/-- After a commit that reported an error the record in memory still lists the
method the store does not. -/
theorem Tracks.unsynced {m : AnchorMethod} {s' : Settling sdk}
    {log : List (Event sdk)} (hrecord : s'.record = s.record)
    (hphase : s'.phase = .ready) (hnot : m ∉ s'.todo)
    (hmem : m ∈ s.record.methods) (hanchor : (s.record.anchorEntry m).isSome)
    (hserved : ServedUnsynced log s.record.epochId m) :
    Tracks log s' (s.record.without m) := by
  have hothers : ∀ m', m ≠ m' → Agrees (s.record.without m) s'.record m' := by
    intro m' hne
    have hsym := agrees_without (p := s.record) hne
    rw [hrecord]
    exact hsym.symm
  refine ⟨hrecord ▸ PendingEpoch.sameEpoch_without _ _, ?_, ?_, ?_⟩
  · intro m'
    by_cases hm : m = m'
    · subst hm
      rw [hrecord]
      refine .unsynced ?_ hmem ?_ hanchor rfl hserved
      · simp [PendingEpoch.mem_methods_without]
      · simp [PendingEpoch.anchorEntry_without]
    · exact .agrees (hothers m' hm)
  · exact fun m' hm' => hothers m' fun heq => hnot (heq ▸ hm')
  · simp [Settling.Fits, hphase]

/-- The serve write: with no error the record in memory follows it, with an
error after the commit it does not. -/
theorem Synced.serve {m : AnchorMethod} {v : TimestampValue}
    {minted : List (MintedWitness sdk)} {o : WriteOutcome} (h : Synced w s)
    (ht : Tracks w.log s q)
    (hq : w.store.pendingAnchors[s.record.epochId]? = some q)
    (hphase : s.phase = .judged m v minted none)
    (hperm : Permitted w (.persistPendingMinted (s.record.without m) m minted) o) :
    Synced (w.after (.persistPendingMinted (s.record.without m) m minted) o)
      { s with
        record := if o.isOk then s.record.without m else s.record
        phase := .ready } := by
  have hfits := ht.fits
  simp only [Settling.Fits, hphase] at hfits
  obtain ⟨hnot, hmem, hagrees, a, ha, -⟩ := hfits
  have hlisted : ∀ m' ∈ s.todo, m' ∈ (s.record.without m).methods := by
    intro m' hm'
    rw [PendingEpoch.mem_methods_without]
    exact ⟨h.todoListed m' hm', fun heq => hnot (heq ▸ hm')⟩
  have hempty : (s.record.without m).methods = [] → s.todo = [] := by
    intro hnil
    refine List.eq_nil_iff_forall_not_mem.mpr fun m' hm' => ?_
    have hin := hlisted m' hm'
    rw [hnil] at hin
    cases hin
  rcases after_serve hperm with ⟨ho, heq⟩ | ⟨ho, hserved⟩
  · have hfail : o.isOk = false := by cases o <;> first | rfl | cases ho
    simp only [hfail, Bool.false_eq_true, if_false]
    refine h.of_tracks rfl rfl (List.suffix_refl _) (q := q) ?_
      (ht.of_call rfl rfl rfl (List.suffix_refl _) trivial)
    simpa only [World.after, heq] using hq
  · have hstored : ∀ {r : Option (PendingEpoch sdk)},
        (w.after (.persistPendingMinted (s.record.without m) m minted)
          o).store.pendingAnchors[s.record.epochId]? = r →
        ((s.record.without m).methods = [] ∧ r = none) ∨
          r = some (s.record.without m) := by
      rintro _ rfl
      have hself := hserved.pending_self
      split at hself
      · rename_i hnil
        exact Or.inl ⟨hnil, hself⟩
      · exact Or.inr hself
    cases o with
    | failed e => cases ho
    | ok =>
        refine ⟨h.nodup.filter _, h.todoNodup, hlisted, ?_, ?_⟩
        · intro q' hq'
          rcases hstored hq' with ⟨-, hnone⟩ | hsome
          · cases hnone
          · cases hsome
            exact .same_record trivial
        · intro hnone
          rcases hstored hnone with ⟨hnil, -⟩ | hsome
          · exact ⟨hempty hnil, rfl⟩
          · cases hsome
    | unsynced e =>
        refine ⟨h.nodup, h.todoNodup, h.todoListed, ?_, ?_⟩
        · intro q' hq'
          rcases hstored hq' with ⟨-, hnone⟩ | hsome
          · cases hnone
          · cases hsome
            refine .unsynced rfl rfl hnot hmem ?_ ?_
            · rw [← hagrees.entry, ha]
              rfl
            · exact ⟨s.record.without m, minted, e, rfl, mem_thisCycle_self rfl⟩
        · intro hnone
          rcases hstored hnone with ⟨hnil, -⟩ | hsome
          · exact ⟨hempty hnil, rfl⟩
          · cases hsome

/-- A discard in memory, of the record `p` that differs from the record of `s`
at most in the discarded entry's time. -/
theorem Synced.discard {m : AnchorMethod} {a : StoredAnchor}
    {minted : List (MintedWitness sdk)} {verdict : Option SelfCheckVerdict}
    {p : PendingEpoch sdk} {down : List AnchorMethod} (h : Synced w s)
    (ht : Tracks w.log s q)
    (hq : w.store.pendingAnchors[s.record.epochId]? = some q)
    (hnot : m ∉ s.todo) (hmem : m ∈ s.record.methods)
    (hagrees : Agrees q s.record m) (ha : q.anchorEntry m = some a)
    (hj : JustJudged w.log s.ctx s.record.epochId m a.value minted verdict)
    (hdiscards : Discards s.ctx s.now a verdict)
    (hsame : PendingEpoch.SameEpoch p s.record)
    (hmethods : p.methods = s.record.methods)
    (hfaults : p.anchorFaultCount m = s.record.anchorFaultCount m)
    (hothers : ∀ m', m ≠ m' → Agrees s.record p m') :
    Synced w
      { s with
        record := discardAnchor p m, down := down, phase := .resaving m } := by
  have hsame' := (sameEpoch_discardAnchor p m).trans hsame
  have hmethods' := (discardAnchor_methods p m).trans hmethods
  refine h.of_tracks hsame'.1 hmethods' (List.suffix_refl _) hq
    (ht.of_change hsame' rfl rfl (List.suffix_refl _) hnot ?_ ?_ ?_)
  · intro m' hm'
    have hp := hothers m' hm'
    have hd := agrees_discardAnchor (p := p) hm'
    exact hp.trans hd
  · refine .dropped ?_ ha (discardAnchor_entry p m) ?_
      (hsame'.1 ▸ hj.inTick) hdiscards
    · rw [hmethods']
      exact hagrees.listed
    · rw [discardAnchor_faults, hfaults, hagrees.faults]
  · refine ⟨hnot, hmethods' ▸ hmem, a, minted, verdict, ha, ?_,
      fun _ => hdiscards⟩
    simp only [hsame'.1]
    exact hj

/-- A fresh anchor enters the record in memory. -/
theorem Synced.obtained {m : AnchorMethod} {rest : List AnchorMethod}
    {v : TimestampValue} (h : Synced w s) (ht : Tracks w.log s q)
    (hq : w.store.pendingAnchors[s.record.epochId]? = some q)
    (hat : s.AtMethod m rest) (hcall : s.MayCall m) :
    Synced (w.after (.createTimestamp s.record.epochId m s.record.anchorRoot)
        (.ok v))
      { s with
        todo := rest
        record := s.record.setAnchor m v s.now
        phase := .unsaved m v } := by
  have hagrees := ht.ahead m hat.mem
  have hmem := h.todoListed m hat.mem
  have hcalled : Tracks
      (w.after (.createTimestamp s.record.epochId m s.record.anchorRoot)
        (.ok v)).log s q :=
    ht.of_call rfl rfl rfl (List.suffix_refl _) (by simp [Settling.Fits, hat.1])
  refine h.of_tracks rfl rfl hat.suffix hq ?_
  refine hcalled.of_change (PendingEpoch.sameEpoch_setAnchor _ m v s.now)
    rfl rfl hat.suffix (h.not_mem_rest hat)
    (fun m' hm' => agrees_setAnchor hm') ?_ ?_
  · refine .gained (hagrees.listed.mpr hmem) hmem
      (hagrees.entry.trans hcall.noAnchor) ?_ hagrees.faults hcall.belowCap
      (mem_thisCycle_self rfl)
    simp [PendingEpoch.anchorEntry_setAnchor]
  · refine ⟨h.not_mem_rest hat, hmem, ⟨m, v, some s.now⟩, ?_, rfl⟩
    simp [PendingEpoch.anchorEntry_setAnchor]

/-- The save of a fresh anchor. -/
theorem Synced.saveFresh {m : AnchorMethod} {v : TimestampValue}
    {o : WriteOutcome} (h : Synced w s) (ht : Tracks w.log s q)
    (hq : w.store.pendingAnchors[s.record.epochId]? = some q)
    (hphase : s.phase = .unsaved m v) :
    Synced (w.after (.savePending s.record) o)
      { s with phase := if o.isOk then .anchored m v else .unsaved m v } := by
  have hfits := ht.fits
  simp only [Settling.Fits, hphase] at hfits
  obtain ⟨hnot, hmem, a, ha, hv⟩ := hfits
  refine h.save rfl rfl rfl rfl ht hq ?_ ?_
  · intro ho
    have hfail : o.isOk = false := by cases o <;> first | rfl | cases ho
    simp only [Settling.Fits, hfail]
    exact ⟨hnot, hmem, a, ha, hv⟩
  · intro ho
    cases hok : o.isOk with
    | true =>
        simp only [Settling.Fits]
        exact ⟨hnot, hmem, Agrees.refl _ m, a, ha, hv⟩
    | false =>
        simp only [Settling.Fits]
        exact ⟨hnot, hmem, a, ha, hv⟩

/-- A call of the minter leaves the records alone. -/
theorem Synced.mint {m : AnchorMethod} {v : TimestampValue} {c : Call sdk}
    {answer : Answer c} (h : Synced w s) (ht : Tracks w.log s q)
    (hq : w.store.pendingAnchors[s.record.epochId]? = some q)
    (hphase : s.phase = .anchored m v) (hminting : c.isMinting = true) :
    Synced (w.after c answer) s := by
  have hwrite : c.isWrite = false := by
    cases c <;> first | rfl | cases hminting
  have hfits := ht.fits
  refine h.of_tracks rfl rfl (List.suffix_refl _) (q := q) ?_
    (ht.of_call rfl rfl rfl (List.suffix_refl _) ?_)
  · simpa only [World.after, after_of_not_write answer hwrite] using hq
  · simpa only [Settling.Fits, hphase] using hfits

/-- What is known of the stored record when a check has found the transaction
of the anchor `a` in memory unknown. -/
theorem Tracks.missing {m : AnchorMethod} {v : TimestampValue}
    {minted : List (MintedWitness sdk)} {reason : String} {a : StoredAnchor}
    (ht : Tracks w.log s q)
    (hphase : s.phase = .judged m v minted (some (.missing reason)))
    (hjust : JustJudged w.log s.ctx s.record.epochId m v minted
      (some (.missing reason)))
    (ha : s.record.anchorEntry m = some a) :
    m ∉ s.todo ∧ m ∈ s.record.methods ∧ Agrees q s.record m ∧
      q.anchorEntry m = some a ∧
      JustJudged w.log s.ctx s.record.epochId m a.value minted
        (some (.missing reason)) := by
  have hfits := ht.fits
  simp only [Settling.Fits, hphase] at hfits
  obtain ⟨hnot, hmem, hagrees, b, hb, rfl⟩ := hfits
  have hentry := hagrees.entry.trans ha
  obtain rfl : b = a := Option.some.inj (hb.symm.trans hentry)
  exact ⟨hnot, hmem, hagrees, hb, hjust⟩

/-- The transaction is unknown and the anchor is kept. -/
theorem Synced.wait {m : AnchorMethod} {v : TimestampValue}
    {minted : List (MintedWitness sdk)} {reason : String} {a : StoredAnchor}
    (h : Synced w s) (ht : Tracks w.log s q)
    (hq : w.store.pendingAnchors[s.record.epochId]? = some q)
    (hphase : s.phase = .judged m v minted (some (.missing reason)))
    (hjust : JustJudged w.log s.ctx s.record.epochId m v minted
      (some (.missing reason)))
    (ha : s.record.anchorEntry m = some a) :
    Synced w
      { s with
        record :=
          if a.firstSeen.isSome then s.record else s.record.touchAnchor m s.now
        phase := if a.firstSeen.isSome then .ready else .resaving m } := by
  obtain ⟨hnot, hmem, hagrees, hstored, hj⟩ := ht.missing hphase hjust ha
  cases hfirst : a.firstSeen with
  | some t =>
      simp only [Option.isSome_some, if_true]
      exact h.of_tracks rfl rfl (List.suffix_refl _) hq
        (ht.of_memory rfl rfl rfl (List.suffix_refl _) trivial)
  | none =>
      simp only [Option.isSome_none, Bool.false_eq_true, if_false]
      have hentry : (s.record.touchAnchor m s.now).anchorEntry m =
          some { a with firstSeen := some s.now } := by
        simp [PendingEpoch.anchorEntry_touchAnchor, ha, hfirst]
      refine h.of_tracks rfl rfl (List.suffix_refl _) hq
        (ht.of_change (PendingEpoch.sameEpoch_touchAnchor _ m s.now) rfl rfl
          (List.suffix_refl _) hnot (fun m' hm' => agrees_touchAnchor hm') ?_ ?_)
      · exact .touched hagrees.listed hstored hfirst hentry hagrees.faults
          hj.inTick
      · refine ⟨hnot, hmem, a, minted, _, hstored, hj, fun hnone => ?_⟩
        rw [hentry] at hnone
        cases hnone

/-- The transaction is unknown past the timeout and the anchor is discarded. -/
theorem Synced.abandon {m : AnchorMethod} {v : TimestampValue}
    {minted : List (MintedWitness sdk)} {reason : String} {a : StoredAnchor}
    (h : Synced w s) (ht : Tracks w.log s q)
    (hq : w.store.pendingAnchors[s.record.epochId]? = some q)
    (hphase : s.phase = .judged m v minted (some (.missing reason)))
    (hjust : JustJudged w.log s.ctx s.record.epochId m v minted
      (some (.missing reason)))
    (ha : s.record.anchorEntry m = some a)
    (hold : s.ctx.evmNotFoundTimeoutSecs ≤ s.now - a.firstSeen.getD s.now) :
    Synced w
      { s with
        record :=
          if a.firstSeen.isSome then discardAnchor s.record m
          else discardAnchor (s.record.touchAnchor m s.now) m
        phase := .resaving m } := by
  obtain ⟨hnot, hmem, hagrees, hstored, hj⟩ := ht.missing hphase hjust ha
  have hdiscards : Discards s.ctx s.now a (some (.missing reason)) :=
    Or.inr ⟨⟨reason, rfl⟩, hold⟩
  cases hfirst : a.firstSeen with
  | some t =>
      exact h.discard ht hq hnot hmem hagrees hstored hj hdiscards
        ⟨rfl, rfl, rfl, rfl, rfl⟩ rfl rfl fun m' _ => Agrees.refl _ m'
  | none =>
      exact h.discard ht hq hnot hmem hagrees hstored hj hdiscards
        (PendingEpoch.sameEpoch_touchAnchor _ m s.now) rfl rfl
        fun m' hm' => agrees_touchAnchor hm'

/-- Every step of settling keeps the stored record following. -/
theorem Synced.settles {w' : World sdk} {s' : Settling sdk} (h : Synced w s)
    (hstep : Settles w s w' s')
    (hjudged : ∀ m v minted verdict, s.phase = .judged m v minted verdict →
      s.Judged w.log m v minted verdict) : Synced w' s' := by
  obtain ⟨q, hq, ht⟩ := h.tracks hstep
  have hfits := ht.fits
  cases hstep with
  | skip hat _ _ | unwired hat _ =>
      refine h.of_tracks rfl rfl hat.suffix hq
        (ht.of_memory rfl rfl rfl hat.suffix ?_)
      simp [Settling.Fits, hat.1]
  | refused hat _ =>
      refine h.of_tracks rfl rfl hat.suffix hq
        (ht.of_call rfl rfl rfl hat.suffix ?_)
      simp [Settling.Fits, hat.1]
  | obtained hat hcall => exact h.obtained ht hq hat hcall
  | store hphase => exact h.saveFresh ht hq hphase
  | giveUp | mintFailed | keep =>
      exact h.of_tracks rfl rfl (List.suffix_refl _) hq
        (ht.of_memory rfl rfl rfl (List.suffix_refl _) trivial)
  | @hold m rest a hat _ ha =>
      have hagrees := ht.ahead m hat.mem
      refine h.of_tracks rfl rfl hat.suffix hq
        (ht.of_memory rfl rfl rfl hat.suffix ?_)
      exact ⟨h.not_mem_rest hat, h.todoListed m hat.mem, hagrees, a,
        hagrees.entry.trans ha, rfl⟩
  | mint hphase hminting => exact h.mint ht hq hphase hminting
  | judge hphase =>
      refine h.of_tracks rfl rfl (List.suffix_refl _) hq
        (ht.of_call rfl rfl rfl (List.suffix_refl _) ?_)
      simpa only [Settling.Fits, hphase] using hfits
  | @blame m v minted reason hphase =>
      have hj := (hjudged _ _ _ _ hphase).just
      simp only [Settling.Fits, hphase] at hfits
      obtain ⟨hnot, hmem, hagrees, a, ha, rfl⟩ := hfits
      exact h.discard ht hq hnot hmem hagrees ha hj (Or.inl ⟨reason, rfl⟩)
        ⟨rfl, rfl, rfl, rfl, rfl⟩ rfl rfl fun m' _ => Agrees.refl _ m'
  | wait hphase ha _ =>
      exact h.wait ht hq hphase (hjudged _ _ _ _ hphase).just ha
  | abandon hphase ha hold =>
      exact h.abandon ht hq hphase (hjudged _ _ _ _ hphase).just ha hold
  | resave hphase =>
      exact h.save rfl rfl rfl rfl ht hq (fun _ => trivial) (fun _ => trivial)
  | serve hphase hperm => exact h.serve ht hq hphase hperm

end Steps

/-! ## Every job of the machine -/

/-- No stored record lists a method twice. -/
def Store.MethodsNodup (st : Store sdk) : Prop :=
  ∀ (e : Nat) (p : PendingEpoch sdk),
    st.pendingAnchors[e]? = some p → p.methods.Nodup

theorem methodsNodup_empty : (Store.empty : Store sdk).MethodsNodup := by
  intro e p hp
  simp [Store.empty] at hp

/-- The listed records are still stored as they were listed. -/
structure Queued (w : World sdk) (queue : List (PendingEpoch sdk)) : Prop where
  stored : ∀ p ∈ queue, w.store.pendingAnchors[p.epochId]? = some p
  distinct : (queue.map PendingEpoch.epochId).Nodup

/-- What is known of the store while a job is in progress. -/
def Followed (w : World sdk) : Job sdk → Prop
  | .retrying _ _ _ _ queue => Queued w queue
  | .settling s => Synced w s ∧ Queued w (s.later.getD []) ∧
      ∀ p ∈ s.later.getD [], s.record.epochId ≠ p.epochId
  | _ => True

theorem queued_nil (w : World sdk) : Queued w [] :=
  ⟨by rintro _ ⟨⟩, List.nodup_nil⟩

theorem Queued.of_eq {w w' : World sdk} {queue : List (PendingEpoch sdk)}
    (h : Queued w queue)
    (heq : ∀ p ∈ queue, w'.store.pendingAnchors[p.epochId]? =
      w.store.pendingAnchors[p.epochId]?) : Queued w' queue :=
  ⟨fun p hp => (heq p hp).trans (h.stored p hp), h.distinct⟩

/-- The records are listed in key order, so no epoch is listed twice. -/
theorem nodup_listPendingEpochs {st : Store sdk}
    (hkeyed : ∀ (e : Nat) p, st.pendingAnchors[e]? = some p → p.epochId = e) :
    (st.listPendingEpochs.map PendingEpoch.epochId).Nodup := by
  have hmap : st.listPendingEpochs.map PendingEpoch.epochId =
      st.pendingAnchors.keys := by
    rw [← Std.ExtTreeMap.map_fst_toList_eq_keys, Store.listPendingEpochs,
      inOrder, List.map_map]
    refine List.map_congr_left fun x hx => ?_
    obtain ⟨e, p⟩ := x
    exact hkeyed e p (Std.ExtTreeMap.mem_toList_iff_getElem?_eq_some.mp hx)
  rw [hmap]
  exact Std.ExtTreeMap.nodup_keys

theorem queued_list {w : World sdk} (hkeys : w.store.Indexed) :
    Queued w w.store.listPendingEpochs where
  stored p hp := by
    obtain ⟨e, he⟩ := mem_inOrder.mp hp
    rw [(hkeys.pending e p he).2]
    exact he
  distinct := nodup_listPendingEpochs fun e p hp => (hkeys.pending e p hp).2

theorem Synced.append {w : World sdk} {s : Settling sdk} (h : Synced w s)
    (batch : List Hash32) (did : String) : Synced (w.append batch did) s where
  nodup := h.nodup
  todoNodup := h.todoNodup
  todoListed := h.todoListed
  absent := h.absent
  stored q hq := by
    have ht := h.stored q hq
    exact ⟨ht.same, fun m => (ht.drift m).mono fun _ => mem_thisCycle_cons rfl,
      ht.ahead, ht.fits⟩

/-- Writes of one record leave the others alone. -/
theorem Written.others {w : World sdk} {s : Settling sdk} {ev : Event sdk}
    {st' : Store sdk} (h : Written w (.settling s) ev st') {e : Nat}
    (hne : s.record.epochId ≠ e) :
    st'.pendingAnchors[e]? = w.store.pendingAnchors[e]? := by
  cases h with
  | unchanged => rfl
  | saved => exact savePending_of_ne _ _ hne
  | served _ _ hserved => exact hserved.pending_of_ne hne

theorem Settles.others {w w' : World sdk} {s s' : Settling sdk}
    (h : Settles w s w' s') {e : Nat} (hne : s.record.epochId ≠ e) :
    w'.store.pendingAnchors[e]? = w.store.pendingAnchors[e]? := by
  rcases h.emits with rfl | ⟨ev, hev, rfl⟩
  · rfl
  · exact hev.written.others hne

/-- Where the record of a followed job is written, no method is doubled. -/
theorem Store.MethodsNodup.written {w : World sdk} {j : Job sdk}
    {ev : Event sdk} {st' : Store sdk} (h : w.store.MethodsNodup) (hfollowed : Followed w j)
    (hdistinct : ∀ ctx now, j.tick = some (ctx, now) → DistinctMethods ctx)
    (hwritten : Written w j ev st') : st'.MethodsNodup := by
  intro e p hp
  cases hwritten with
  | unchanged => exact h e p hp
  | @saved s o _ _ =>
      by_cases hne : s.record.epochId = e
      · subst hne
        rw [savePending_self] at hp
        cases hp
        exact hfollowed.1.nodup
      · rw [savePending_of_ne _ _ hne] at hp
        exact h e p hp
  | @served s m v minted o st' _ _ hserved =>
      by_cases hne : (s.record.without m).epochId = e
      · subst hne
        rw [hserved.pending_self] at hp
        split at hp
        · cases hp
        · cases hp
          exact hfollowed.1.nodup.filter _
      · rw [hserved.pending_of_ne hne] at hp
        exact h e p hp
  | sealed _ _ _ hsealed =>
      rw [hsealed.pendingAnchors] at hp
      split at hp
      · exact h e p hp
      · rename_i p' hp'
        rw [getElem?_put] at hp
        split at hp
        · cases hp
          obtain ⟨c, b, rfl, -, -, rfl⟩ := pendingFor_eq_some hp'
          exact hdistinct _ _ rfl c rfl
        · exact h e p hp

theorem Followed.append {w : World sdk} {j : Job sdk} (h : Followed w j)
    (batch : List Hash32) (did : String) : Followed (w.append batch did) j := by
  cases j with
  | retrying ctx now durationSecs down queue =>
      exact Queued.of_eq h fun p _ => rfl
  | settling s =>
      exact ⟨h.1.append batch did, h.2.1.of_eq fun p _ => rfl, h.2.2⟩
  | idle | entered | closing => trivial

/-- The store follows the sealer's memory in every run that starts on an
indexed store, whatever its writes reported. -/
theorem Reach.followed {st : Store sdk} {w : World sdk} {j : Job sdk}
    (hst : st.Indexed) (hmethods : st.MethodsNodup) (h : Reach st w j) :
    w.store.MethodsNodup ∧ Followed w j := by
  induction h with
  | boot => exact ⟨hmethods, trivial⟩
  | append batch did _ ih => exact ⟨ih.1, ih.2.append batch did⟩
  | restart _ _ _ ih => exact ⟨ih.1, trivial⟩
  | tick _ _ _ _ ih => exact ⟨ih.1, trivial⟩
  | refuse _ ih => exact ⟨ih.1, trivial⟩
  | plain _ ih => exact ⟨ih.1, queued_nil _⟩
  | @list w ctx now durationSecs answer hw hperm ih =>
      refine ⟨ih.1, ?_⟩
      cases answer with
      | error e => exact queued_nil _
      | ok pendings =>
          obtain rfl := hperm pendings rfl
          exact (queued_list (hw.grounded hst).store).of_eq fun p _ => rfl
  | @visit w ctx now durationSecs down p queue _ ih =>
      obtain ⟨hnodup, hqueue⟩ := ih
      have hp := hqueue.stored p (List.mem_cons_self ..)
      obtain ⟨hnot, hdistinct⟩ := List.nodup_cons.mp hqueue.distinct
      refine ⟨hnodup, .visit hp (hnodup _ p hp) rfl rfl, ?_, ?_⟩
      · exact ⟨fun p' hp' => hqueue.stored p' (List.mem_cons_of_mem _ hp'),
          hdistinct⟩
      · exact fun p' hp' heq => hnot (heq ▸ List.mem_map_of_mem hp')
  | @settle w w' s s' hw hstep ih =>
      obtain ⟨hsynced, hqueue, hother⟩ := ih.2
      obtain ⟨hsame, hlater, -⟩ := hstep.frame
      refine ⟨?_, hsynced.settles hstep fun m v minted verdict =>
        hw.judged _ m v minted verdict rfl, ?_, ?_⟩
      · rcases hstep.emits with rfl | ⟨ev, hev, rfl⟩
        · exact ih.1
        · exact ih.1.written ih.2 hw.distinct hev.written
      · rw [hlater]
        exact hqueue.of_eq fun p hp => hstep.others (hother p hp)
      · rw [hlater, hsame.1]
        exact hother
  | leave _ _ _ hlater ih =>
      obtain ⟨hnodup, -, hqueue, -⟩ := ih
      refine ⟨hnodup, ?_⟩
      rw [hlater] at hqueue
      exact hqueue
  | swap _ ih => exact ⟨ih.1, trivial⟩
  | prepare _ _ ih => exact ⟨ih.1, trivial⟩
  | fail _ _ ih => exact ⟨ih.1, trivial⟩
  | @persist w ctx now durationSecs down snapshot prepared batch record o hw hbatch
      hrecord hperm ih =>
      have hnodup := ih.1.written ih.2 hw.distinct
        (Emits.persist hbatch hrecord hperm).written
      refine ⟨hnodup, ?_⟩
      unfold Job.persisted
      split
      · rename_i c p hp
        rcases after_seal hperm with ⟨ho, -⟩ | ⟨-, hsealed⟩
        · cases ho
        · have hstored : (w.after (.persistSealedEpoch record snapshot.leaves []
              (pendingFor (some c) snapshot batch))
              .ok).store.pendingAnchors[p.epochId]? = some p := by
            simp only [World.after, hsealed.pendingAnchors, hp]
            simp
          exact ⟨.visit hstored (hnodup _ p hstored) rfl rfl, queued_nil _,
            by rintro _ ⟨⟩⟩
      · trivial
  | finish _ _ _ _ ih => exact ⟨ih.1, trivial⟩

/-! ## One event and one stored record -/

/-- What an event does to the stored record `q` of an epoch below `u64::MAX`,
with the settlement that does it. -/
inductive RecordStep (w : World sdk) (j : Job sdk) (q : PendingEpoch sdk) :
    Event sdk → Option (PendingEpoch sdk) → Prop where
  | kept (ev : Event sdk) : RecordStep w j q ev (some q)
  | saved {s : Settling sdk} {o : WriteOutcome} :
      j = .settling s → s.phase.Saves → o.committed = true →
      Synced w s → Tracks w.log s q →
        RecordStep w j q (.call (.savePending s.record) o) (some s.record)
  | served {s : Settling sdk} {m : AnchorMethod} {v : TimestampValue}
      {minted : List (MintedWitness sdk)} {o : WriteOutcome} :
      j = .settling s → s.phase = .judged m v minted none →
      o.committed = true → s.Judged w.log m v minted none →
      Synced w s → Tracks w.log s q →
        RecordStep w j q
          (.call (.persistPendingMinted (s.record.without m) m minted) o)
          (if (s.record.without m).methods = [] then none
            else some (s.record.without m))

theorem Reach.record_step {st : Store sdk} {w : World sdk} {j : Job sdk}
    {ev : Event sdk} {e : Nat} {q : PendingEpoch sdk} (hst : st.Indexed)
    (hmethods : st.MethodsNodup) (h : Reach st w j) (hev : Emits w j ev)
    (he : e < u64Max) (hq : w.store.pendingAnchors[e]? = some q) :
    RecordStep w j q ev (w.emit ev).store.pendingAnchors[e]? := by
  have hkept : ∀ st' : Store sdk, st'.pendingAnchors[e]? =
      w.store.pendingAnchors[e]? →
      RecordStep w j q ev st'.pendingAnchors[e]? := by
    intro st' heq
    rw [heq, hq]
    exact .kept ev
  have hwritten := hev.written
  generalize (w.emit ev).store = st' at hwritten
  cases hwritten with
  | unchanged => exact hkept _ rfl
  | @saved s o hphase ho =>
      by_cases hid : s.record.epochId = e
      · subst hid
        have hsynced := (h.followed hst hmethods).2.1
        rw [savePending_self]
        exact .saved rfl hphase ho hsynced (hsynced.stored q hq)
      · exact hkept _ (savePending_of_ne _ _ hid)
  | @served s m v minted o st' hphase ho hserved =>
      by_cases hid : s.record.epochId = e
      · subst hid
        have hsynced := (h.followed hst hmethods).2.1
        have hself := hserved.pending_self
        rw [show (s.record.without m).epochId = s.record.epochId from rfl]
          at hself
        rw [hself]
        exact .served rfl hphase ho (h.judged _ _ _ _ _ rfl hphase) hsynced
          (hsynced.stored q hq)
      · exact hkept _ (hserved.pending_of_ne hid)
  | sealed _ _ _ hsealed =>
      refine hkept _ ?_
      rw [hsealed.pendingAnchors]
      split
      · rfl
      · rename_i p hp
        obtain ⟨c, b, -, -, -, rfl⟩ := pendingFor_eq_some hp
        have hg := h.grounded hst
        rw [getElem?_put, if_neg]
        rintro rfl
        exact hg.fresh rfl he (hg.store.pending _ q hq).1

/-- A method the stored record does not list is not in memory either, unless
it was served by a write that reported an error. -/
theorem Drift.unlisted {log : List (Event sdk)} {ctx : WitnessContext}
    {now : Nat} {q p : PendingEpoch sdk} {m : AnchorMethod}
    (h : Drift log ctx now q p m) (hq : m ∉ q.methods) : m ∉ p.methods ∨ ServedUnsynced log p.epochId m := by
  cases h with
  | agrees h => exact Or.inl fun hp => hq (h.listed.mpr hp)
  | gained hmem => exact absurd hmem hq
  | touched hlisted => exact Or.inl fun hp => hq (hlisted.mpr hp)
  | dropped hlisted => exact Or.inl fun hp => hq (hlisted.mpr hp)
  | unsynced _ _ _ _ _ hserved => exact Or.inr hserved

/-- A method the stored record lists is listed in memory. -/
theorem Tracks.listed {log : List (Event sdk)} {s : Settling sdk}
    {q : PendingEpoch sdk} {m : AnchorMethod} (h : Tracks log s q)
    (hq : m ∈ q.methods) : m ∈ s.record.methods := by
  cases h.drift m with
  | agrees h => exact h.listed.mp hq
  | gained _ hp => exact hp
  | touched hiff => exact hiff.mp hq
  | dropped hiff => exact hiff.mp hq
  | unsynced hnot => exact absurd hq hnot

/-- A record that is stored after an event was stored before it, and lists no
method it did not list then, apart from one whose serve reported an error. -/
theorem Reach.record_after {st : Store sdk} {w : World sdk} {j : Job sdk}
    {ev : Event sdk} {e : Nat} {p q : PendingEpoch sdk} (hst : st.Indexed)
    (hmethods : st.MethodsNodup) (h : Reach st w j) (hev : Emits w j ev)
    (he : e < u64Max) (hp : w.store.pendingAnchors[e]? = some p)
    (hq : (w.emit ev).store.pendingAnchors[e]? = some q) :
    PendingEpoch.SameEpoch p q ∧
      ∀ m ∈ q.methods, m ∈ p.methods ∨ ∃ id, ServedUnsynced w.log id m := by
  have hback : ∀ s m, Tracks w.log s p → m ∈ s.record.methods →
      m ∈ p.methods ∨ ∃ id, ServedUnsynced w.log id m := by
    intro s m ht hm
    by_cases hmem : m ∈ p.methods
    · exact Or.inl hmem
    · rcases (ht.drift m).unlisted hmem with hnot | hunsynced
      · exact absurd hm hnot
      · exact Or.inr ⟨_, hunsynced⟩
  have hstep := h.record_step hst hmethods hev he hp
  rw [hq] at hstep
  generalize hafter : some q = after at hstep
  cases hstep with
  | kept =>
      cases hafter
      exact ⟨⟨rfl, rfl, rfl, rfl, rfl⟩, fun m hm => Or.inl hm⟩
  | saved _ _ _ _ ht =>
      cases hafter
      exact ⟨ht.same, fun m hm => hback _ m ht hm⟩
  | served _ _ _ _ _ ht =>
      split at hafter
      · cases hafter
      · cases hafter
        exact ⟨ht.same, fun m hm =>
          hback _ m ht ((PendingEpoch.mem_methods_without _ _ _).mp hm).1⟩

/-- A listed method stays listed, unless it is served. -/
theorem Reach.listed_step {st : Store sdk} {w : World sdk} {j : Job sdk}
    {ev : Event sdk} {e : Nat} {q : PendingEpoch sdk} {m : AnchorMethod}
    (hst : st.Indexed) (hmethods : st.MethodsNodup) (h : Reach st w j)
    (hev : Emits w j ev) (he : e < u64Max)
    (hq : w.store.pendingAnchors[e]? = some q) (hm : m ∈ q.methods) :
    (∃ q', (w.emit ev).store.pendingAnchors[e]? = some q' ∧
        PendingEpoch.SameEpoch q q' ∧ m ∈ q'.methods) ∨
      ∃ (remaining : PendingEpoch sdk) (minted : List (MintedWitness sdk))
        (o : WriteOutcome), ev = .call (.persistPendingMinted remaining m minted) o ∧
          PendingEpoch.SameEpoch q remaining ∧ o.committed = true := by
  have hstep := h.record_step hst hmethods hev he hq
  generalize (w.emit ev).store.pendingAnchors[e]? = after at hstep
  cases hstep with
  | kept => exact Or.inl ⟨q, rfl, ⟨rfl, rfl, rfl, rfl, rfl⟩, hm⟩
  | saved _ _ _ _ ht => exact Or.inl ⟨_, rfl, ht.same, ht.listed hm⟩
  | @served s done v minted o _ _ ho _ _ ht =>
      by_cases hdone : done = m
      · subst hdone
        exact Or.inr ⟨_, minted, o, rfl, ht.same, ho⟩
      · have hin : m ∈ (s.record.without done).methods :=
          (PendingEpoch.mem_methods_without _ _ _).mpr ⟨ht.listed hm, Ne.symm hdone⟩
        rw [if_neg (List.ne_nil_of_mem hin)]
        exact Or.inl ⟨_, rfl, ht.same, hin⟩

/-- The event seals the epoch `e` with the pending record of its batch. -/
structure SealsPending (w : World sdk) (j : Job sdk) (ev : Event sdk) (e : Nat)
    (snapshot : SealedSnapshot) (c : WitnessContext) (b : EpochBatch sdk)
    (record : EpochRecord) : Prop where
  closes : j.closes = some snapshot
  id : snapshot.epochId = e
  leaves : snapshot.leaves ≠ []
  tick : ∃ now, j.tick = some (some c, now)
  built : buildRecord snapshot (some b) = .ok record
  event : ∃ o : WriteOutcome, o.committed = true ∧
    ev = .call (.persistSealedEpoch record snapshot.leaves []
      (some (PendingEpoch.new snapshot b c.methods))) o
  write : Sealed w.store record snapshot.leaves
    (some (PendingEpoch.new snapshot b c.methods)) (w.emit ev).store
  stored : (w.emit ev).store.pendingAnchors[e]? =
    some (PendingEpoch.new snapshot b c.methods)

/-- Where no record is stored, only the seal of that epoch writes one. -/
theorem Reach.absent_step {st : Store sdk} {w : World sdk} {j : Job sdk}
    {ev : Event sdk} {e : Nat} (hst : st.Indexed) (hmethods : st.MethodsNodup)
    (h : Reach st w j) (hev : Emits w j ev)
    (hnone : w.store.pendingAnchors[e]? = none) :
    (w.emit ev).store.pendingAnchors[e]? = none ∨
      ∃ snapshot c b record, SealsPending w j ev e snapshot c b record := by
  have hbusy : ∀ s, j = .settling s → s.record.epochId = e →
      s.phase = .ready := by
    rintro s rfl rfl
    exact ((h.followed hst hmethods).2.1.absent hnone).2
  have hwritten := hev.written
  generalize hafter : (w.emit ev).store = st' at hwritten
  cases hwritten with
  | unchanged => exact Or.inl hnone
  | @saved s o hphase _ =>
      by_cases hid : s.record.epochId = e
      · have hready := hbusy s rfl hid
        rcases hphase with ⟨m, v, hp⟩ | ⟨m, hp⟩ <;>
          · rw [hready] at hp
            cases hp
      · exact Or.inl ((savePending_of_ne _ _ hid).trans hnone)
  | @served s m v minted o st' hphase _ hserved =>
      by_cases hid : s.record.epochId = e
      · rw [hbusy s rfl hid] at hphase
        cases hphase
      · exact Or.inl ((hserved.pending_of_ne hid).trans hnone)
  | @sealed ctx now durationSecs down snapshot prepared batch record o st' hbatch
      hrecord ho hsealed =>
      cases hp : pendingFor ctx snapshot batch with
      | none =>
          rw [hsealed.pendingAnchors, hp]
          exact Or.inl hnone
      | some p =>
          obtain ⟨c, b, rfl, rfl, -, rfl⟩ := pendingFor_eq_some hp
          rw [hp] at hsealed hafter
          have hput := hsealed.pendingAnchors
          by_cases hid : (PendingEpoch.new snapshot b c.methods).epochId = e
          · refine Or.inr ⟨snapshot, c, b, record, ?_⟩
            rw [← hafter] at hsealed hput
            refine ⟨rfl, hid, ?_, ⟨now, rfl⟩, hrecord, ⟨o, ho, rfl⟩, hsealed, ?_⟩
            · rcases hbatch with ⟨-, hempty⟩ | ⟨hne, -⟩
              · cases hempty
              · exact hne
            · rw [hput, getElem?_put, if_pos hid]
          · rw [hput, getElem?_put, if_neg hid]
            exact Or.inl hnone

/-! ## Anchors of listed methods -/

/-- A record holds anchors of the methods it lists only. -/
def PendingEpoch.HoldsListed (p : PendingEpoch sdk) : Prop :=
  ∀ m, (p.anchorEntry m).isSome → m ∈ p.methods

/-- Every stored record does. -/
def Store.HoldsListed (st : Store sdk) : Prop :=
  ∀ (e : Nat) (p : PendingEpoch sdk), st.pendingAnchors[e]? = some p → p.HoldsListed

theorem holdsListed_empty : (Store.empty : Store sdk).HoldsListed := by
  intro e p hp
  simp [Store.empty] at hp

/-- Where the record in memory differs from the stored one, it still lists the
methods it has anchors of. -/
theorem Drift.listed {log : List (Event sdk)} {ctx : WitnessContext} {now : Nat}
    {q p : PendingEpoch sdk} {m : AnchorMethod} (h : Drift log ctx now q p m)
    (hq : q.HoldsListed) (hp : (p.anchorEntry m).isSome) : m ∈ p.methods := by
  cases h with
  | agrees hagrees =>
      rw [← hagrees.entry] at hp
      exact hagrees.listed.mp (hq m hp)
  | gained _ hmem => exact hmem
  | touched hmem ha => exact hmem.mp (hq m (by rw [ha]; rfl))
  | dropped _ _ hnone =>
      rw [hnone] at hp
      cases hp
  | unsynced _ hmem => exact hmem

theorem Synced.holdsListed {w : World sdk} {s : Settling sdk} (h : Synced w s)
    (hw : w.store.HoldsListed) (hbusy : s.phase ≠ .ready) : s.record.HoldsListed := by
  intro m hm
  cases hq : w.store.pendingAnchors[s.record.epochId]? with
  | none => exact absurd (h.absent hq).2 hbusy
  | some q => exact ((h.stored q hq).drift m).listed (hw _ q hq) hm

theorem PendingEpoch.HoldsListed.without {p : PendingEpoch sdk} (h : p.HoldsListed)
    (m : AnchorMethod) : (p.without m).HoldsListed := by
  intro m' hm'
  rw [PendingEpoch.anchorEntry_without] at hm'
  split at hm'
  · cases hm'
  · rename_i hne
    exact (PendingEpoch.mem_methods_without ..).mpr ⟨h m' hm', Ne.symm hne⟩

/-- Anchors are stored for listed methods only, in every run that starts on
such a store. -/
theorem Reach.holdsListed {st : Store sdk} {w : World sdk} {j : Job sdk}
    (hst : st.Indexed) (hmethods : st.MethodsNodup) (hlisted : st.HoldsListed)
    (h : Reach st w j) : w.store.HoldsListed := by
  refine h.induct (P := fun w => w.store.HoldsListed) (fun _ _ => hlisted) ?_
  intro w j ev hw hev hold e p hp
  have hwritten := hev.written
  generalize (w.emit ev).store = st' at hwritten hp
  cases hwritten with
  | unchanged => exact hold e p hp
  | @saved s o hphase _ =>
      have hbusy : s.phase ≠ .ready := by
        intro hready
        rcases hphase with ⟨m, v, hsaves⟩ | ⟨m, hsaves⟩ <;>
          · rw [hready] at hsaves
            cases hsaves
      have hrecord := (hw.followed hst hmethods).2.1.holdsListed hold hbusy
      by_cases hid : s.record.epochId = e
      · subst hid
        rw [savePending_self] at hp
        cases hp
        exact hrecord
      · rw [savePending_of_ne _ _ hid] at hp
        exact hold e p hp
  | @served s m v minted o st' hphase _ hserved =>
      have hbusy : s.phase ≠ .ready := by
        rw [hphase]
        rintro ⟨⟩
      have hrecord := (hw.followed hst hmethods).2.1.holdsListed hold hbusy
      by_cases hid : (s.record.without m).epochId = e
      · subst hid
        rw [hserved.pending_self] at hp
        split at hp
        · cases hp
        · cases hp
          exact hrecord.without m
      · rw [hserved.pending_of_ne hid] at hp
        exact hold e p hp
  | sealed _ _ _ hsealed =>
      rw [hsealed.pendingAnchors] at hp
      split at hp
      · exact hold e p hp
      · rename_i p' hp'
        rw [getElem?_put] at hp
        split at hp
        · cases hp
          obtain ⟨c, b, -, -, -, rfl⟩ := pendingFor_eq_some hp'
          intro m hm
          cases hm
        · exact hold e p hp

end AquaTimestamp
