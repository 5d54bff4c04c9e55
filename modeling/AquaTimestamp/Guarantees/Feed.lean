import AquaTimestamp.Guarantees.Cycle
import AquaTimestamp.Guarantees.Sealing
import AquaTimestamp.Model.Events
import AquaTimestamp.Model.Sample
import AquaTimestamp.Support.Projection

/-!
# What the event stream tells

The seal events on the bus, with the one a seal loop is about to send, are the seals
the store acknowledged to the running process, once each and in order.  A subscriber
reads them in this order, from the moment it subscribed, and can miss some only when
it falls behind the buffer.
-/

namespace AquaTimestamp

open Support Partition

variable {sdk : Sdk}

/-! ## The feed runs as the server does -/

theorem Feed.act_world (s : Feed sdk) (step : FeedAct) :
    (s.act step).world = s.world ∨
      ∃ batch did, (s.act step).world = s.world.append batch did := by
  cases step with
  | append batch did => exact Or.inr ⟨batch, did, rfl⟩
  | readTotals checks uptimeSecs =>
      left
      unfold Feed.act
      dsimp only
      split <;> rfl
  | sendHealth | subscribe | recv i | leave i => exact Or.inl rfl

theorem feed_projects_world (sdk : Sdk) :
    (feedSemantics sdk).Projects (serverSemantics sdk) Feed.world where
  step := by
    rintro c r s s' ⟨hperm, rfl⟩
    exact ⟨hperm, rfl⟩
  interferes := by
    rintro s s' ⟨step, rfl⟩
    exact s.act_world step

theorem Feed.SealCycle.world {s s' : Feed sdk} {ctx : Option WitnessContext}
    {now durationSecs : Nat}
    {o : Option (Except SealError (EpochRecord × List (MintedWitness sdk)))}
    (h : Feed.SealCycle s ctx now durationSecs s' o) :
    AquaTimestamp.SealCycle s.world ctx now durationSecs s'.world o :=
  (feed_projects_world sdk).run h

theorem Feed.Reachable.world {st : Store sdk} {s : Feed sdk} (h : Feed.Reachable st s) :
    AquaTimestamp.Reachable st s.world := by
  induction h with
  | boot rule now durationSecs => exact .boot now durationSecs
  | @act s step _ ih =>
      rcases s.act_world step with hsame | ⟨batch, did, happend⟩
      · rwa [hsame]
      · rw [happend]
        exact ih.append batch did
  | cycle _ _ hctx hcycle ih => exact .cycle ih hctx hcycle.world
  | announce _ ih => exact ih
  | restart rule now durationSecs _ ih => exact ih.restart now durationSecs
  | crash rule now' durationSecs' _ _ hctx hcycle ih =>
      exact .crash now' durationSecs' ih hctx hcycle.world

/-! ## Every seal is announced once -/

/-- What a seal event tells. -/
def SseEvent.seal : SseEvent → Option (Nat × Nat × String)
  | .epochSealed epochId leafCount merkleRoot _ => some (epochId, leafCount, merkleRoot)
  | _ => none

/-- The same of a record. -/
def EpochRecord.seal (record : EpochRecord) : Nat × Nat × String :=
  (record.id, record.leafCount, record.merkleRootHex)

/-- What the seal events of a list tell. -/
def announced (events : List SseEvent) : List (Nat × Nat × String) :=
  events.filterMap SseEvent.seal

theorem announced_append (events events' : List SseEvent) :
    announced (events ++ events') = announced events ++ announced events' :=
  List.filterMap_append ..

/-- The event of a cycle tells its record. -/
theorem announced_announcement (now : Nat)
    (result : Except SealError (EpochRecord × List (MintedWitness sdk))) :
    announced (announcement now result).toList = (sealedRecord result).map EpochRecord.seal := by
  cases result with
  | ok x => rfl
  | error e => rfl

/-- What the steps beside the sealer keep: the seal events sent and owed, and what the
subscribers have read. -/
structure Relays (told : List (Nat × Nat × String)) (owed : Option SseEvent)
    (s : Feed sdk) : Prop where
  told : announced s.bus.sent = told
  owed : s.owed = owed
  due : ∀ event, s.due = some event → event.seal = none
  sound : s.bus.Sound

theorem Relays.act {told : List (Nat × Nat × String)} {owed : Option SseEvent}
    {s : Feed sdk} (h : Relays told owed s) (step : FeedAct) :
    Relays told owed (s.act step) := by
  cases step with
  | append batch did => exact ⟨h.told, h.owed, h.due, h.sound⟩
  | readTotals checks uptimeSecs =>
      unfold Feed.act
      dsimp only
      split
      · refine ⟨h.told, h.owed, ?_, h.sound⟩
        rintro event hevent
        obtain rfl := Option.some.inj hevent
        rfl
      · exact h
  | sendHealth =>
      unfold Feed.act Feed.send
      dsimp only
      cases hdue : s.due with
      | none => exact ⟨h.told, h.owed, by simp, h.sound⟩
      | some event =>
          refine ⟨?_, h.owed, by simp, h.sound.send event⟩
          have hnone : announced [event] = [] := by
            simp [announced, h.due event hdue]
          exact (announced_append _ _).trans (by rw [hnone, List.append_nil, h.told])
  | subscribe => exact ⟨h.told, h.owed, h.due, h.sound.subscribe⟩
  | recv i => exact ⟨h.told, h.owed, h.due, h.sound.recv i⟩
  | leave i => exact ⟨h.told, h.owed, h.due, h.sound.leave i⟩

/-- A cycle sends no seal event before it ends. -/
theorem Relays.cycle {told : List (Nat × Nat × String)} {owed : Option SseEvent}
    {s s' : Feed sdk} {ctx : Option WitnessContext} {now durationSecs : Nat}
    {o : Option (Except SealError (EpochRecord × List (MintedWitness sdk)))}
    (h : Relays told owed s) (hcycle : Feed.SealCycle s ctx now durationSecs s' o) :
    Relays told owed s' := by
  refine hcycle.keeps (P := Relays told owed) ?_ ?_ ⟨h.told, h.owed, h.due, h.sound⟩
  · rintro c r s₁ s₂ ⟨-, rfl⟩ h₁
    exact ⟨h₁.told, h₁.owed, h₁.due, h₁.sound⟩
  · rintro s₁ s₂ h₁ ⟨step, rfl⟩
    exact h₁.act step

/-- What the running process has sealed, oldest first. -/
def sealsTold (w : World sdk) : List (Nat × Nat × String) :=
  (acknowledged w.log).reverse.map EpochRecord.seal

/-- The seal events sent are the seals of the process but the one that is owed. -/
structure Told (s : Feed sdk) : Prop where
  relays : Relays (announced s.bus.sent) s.owed s
  all : announced (s.bus.sent ++ s.owed.toList) = sealsTold s.world

theorem sealsTold_append (w : World sdk) (batch : List Hash32) (did : String) :
    sealsTold (w.append batch did) = sealsTold w :=
  rfl

theorem Told.act {s : Feed sdk} (h : Told s) (step : FeedAct) : Told (s.act step) := by
  have hrelays := h.relays.act step
  refine ⟨⟨rfl, rfl, hrelays.due, hrelays.sound⟩, ?_⟩
  rw [announced_append, hrelays.told, hrelays.owed, ← announced_append, h.all]
  rcases s.act_world step with hsame | ⟨batch, did, happend⟩
  · rw [hsame]
  · rw [happend, sealsTold_append]

theorem Told.announce {s : Feed sdk} (h : Told s) : Told s.announce := by
  cases howed : s.owed with
  | none =>
      have hsame : s.announce = s := by
        obtain ⟨w, bus, owed, due⟩ := s
        obtain rfl : owed = none := howed
        rfl
      rw [hsame]
      exact h
  | some event =>
      have hall := h.all
      rw [howed] at hall
      refine ⟨⟨rfl, rfl, h.relays.due, ?_⟩, ?_⟩
      · unfold Feed.announce Feed.send
        rw [howed]
        exact h.relays.sound.send event
      · unfold Feed.announce Feed.send
        rw [howed]
        exact (congrArg announced (List.append_nil _)).trans hall

theorem told_start (rule : LagRule) (w : World sdk) (hnone : acknowledged w.log = []) :
    Told (Feed.start rule w) where
  relays := ⟨rfl, rfl, by simp [Feed.start], Broadcast.sound_create _ _⟩
  all := by simp [Feed.start, Broadcast.create, announced, sealsTold, hnone]

/-- A cycle that ends owes the event of the record it returns. -/
theorem Told.cycle {s s' : Feed sdk} {ctx : Option WitnessContext}
    {now durationSecs : Nat}
    {result : Except SealError (EpochRecord × List (MintedWitness sdk))}
    (h : Told s) (howed : s.owed = none)
    (hcycle : Feed.SealCycle s ctx now durationSecs s' (some result)) :
    Told { s' with owed := announcement now result } := by
  have hrelays := h.relays.cycle hcycle
  refine ⟨⟨rfl, rfl, hrelays.due, hrelays.sound⟩, ?_⟩
  have hall := h.all
  rw [howed, Option.toList_none, List.append_nil] at hall
  have hseals : acknowledged s'.world.log = sealedRecord result ++ acknowledged s.world.log :=
    hcycle.world.acknowledges.2 result rfl
  rw [announced_append, hrelays.told, hall, announced_announcement]
  unfold sealsTold
  rw [hseals, List.reverse_append, List.map_append]
  cases result with
  | ok x => rfl
  | error e => rfl

theorem Feed.Reachable.told {st : Store sdk} {s : Feed sdk} (h : Feed.Reachable st s) :
    Told s := by
  induction h with
  | boot rule now durationSecs => exact told_start rule _ rfl
  | act step _ ih => exact ih.act step
  | cycle _ howed _ hcycle ih => exact ih.cycle howed hcycle
  | announce _ ih => exact ih.announce
  | restart rule now durationSecs _ _ => exact told_start rule _ rfl
  | crash rule now' durationSecs' _ _ _ _ _ => exact told_start rule _ rfl

/-! ## Acknowledged seals are stored and in order -/

theorem acknowledged_cons {ev : Event sdk} {log : List (Event sdk)} {record : EpochRecord}
    (h : record ∈ acknowledged (ev :: log)) :
    ev.acknowledged = some record ∨ record ∈ acknowledged log := by
  unfold acknowledged at h ⊢
  obtain ⟨ev', hmem, hev'⟩ := List.mem_filterMap.mp h
  rcases mem_sinceBoot_cons hmem with rfl | hold
  · exact Or.inl hev'
  · exact Or.inr (List.mem_filterMap.mpr ⟨ev', hold, hev'⟩)

theorem Event.acknowledged_eq_some {ev : Event sdk} {record : EpochRecord}
    (h : ev.acknowledged = some record) :
    ∃ leaves witnesses pending,
      ev = .call (.persistSealedEpoch record leaves witnesses pending) .ok := by
  unfold Event.acknowledged at h
  split at h
  · rename_i record' leaves witnesses pending o
    cases o with
    | ok =>
        obtain rfl := Option.some.inj h
        exact ⟨leaves, witnesses, pending, rfl⟩
    | failed e => cases h
    | unsynced e => cases h
  · cases h

/-- An acknowledged seal is in the history. -/
theorem sealedBy_of_acknowledged {log : List (Event sdk)} {record : EpochRecord}
    (h : record ∈ acknowledged log) : ∃ l leaves, SealedBy log l record leaves := by
  induction log with
  | nil => cases h
  | cons ev log ih =>
      rcases acknowledged_cons h with hev | hold
      · obtain ⟨leaves, witnesses, pending, rfl⟩ := Event.acknowledged_eq_some hev
        exact ⟨log, leaves, witnesses, pending, .ok, rfl, List.suffix_refl _⟩
      · obtain ⟨l, leaves, hsealed⟩ := ih hold
        exact ⟨l, leaves, hsealed.mono (List.suffix_cons _ _)⟩

/-- A later seal was made in a history that holds the earlier ones. -/
theorem acknowledged_pairwise (log : List (Event sdk)) :
    (acknowledged log).Pairwise fun later earlier =>
      ∃ l l' leaves leaves', SealedBy log l later leaves ∧ SealedBy l l' earlier leaves' := by
  induction log with
  | nil => exact List.Pairwise.nil
  | cons ev log ih =>
      have hgrow := ih.imp fun {later earlier} ⟨l, l', leaves, leaves', hlater, hbefore⟩ =>
        (⟨l, l', leaves, leaves', hlater.mono (List.suffix_cons ev log), hbefore⟩ :
          ∃ l l' leaves leaves', SealedBy (ev :: log) l later leaves ∧
            SealedBy l l' earlier leaves')
      unfold acknowledged sinceBoot
      rw [List.takeWhile_cons]
      split
      · rw [List.filterMap_cons]
        split
        · exact hgrow
        · rename_i record hrecord
          obtain ⟨leaves, witnesses, pending, rfl⟩ := Event.acknowledged_eq_some hrecord
          refine List.Pairwise.cons (fun earlier hearlier => ?_) hgrow
          obtain ⟨l', leaves', hbefore⟩ := sealedBy_of_acknowledged hearlier
          exact ⟨log, l', leaves, leaves',
            ⟨witnesses, pending, .ok, rfl, List.suffix_refl _⟩, hbefore⟩
      · exact List.Pairwise.nil

section Runs

variable {w : World sdk} {j : Job sdk} {st : Store sdk}

/-- A committed seal below `u64::MAX` stays as it was written. -/
theorem Reach.sealedBy_record (hst : st.Indexed) (h : Reach st w j)
    {l : List (Event sdk)} {record : EpochRecord} {leaves : List LeafEntry}
    (hsealed : SealedBy w.log l record leaves) (hid : record.id < u64Max) :
    w.store.epochs[record.id]? = some record := by
  obtain ⟨witnesses, pending, o, ho, hl⟩ := hsealed
  obtain ⟨w₀, j₀, hw₀, rfl, -, hev⟩ := h.called hl
  refine h.induct_since (P := fun st' => st'.epochs[record.id]? = some record) ?_
    (fun w j ev hw hev ih => hw.epoch_step hst hev hid ih) hl
  rw [storeOf_cons, ← hw₀.store_eq, ← hev.store_eq]
  cases hev with
  | mint _ hminting => cases hminting
  | persist _ _ hperm =>
      rw [store_emit_call]
      rcases after_seal hperm with ⟨hno, -⟩ | ⟨-, hwrite⟩
      · rw [hno] at ho
        cases ho
      · rw [hwrite.epochs, getElem?_put, if_pos rfl]

/-- A process that goes on keeps what it has acknowledged and what it started on. -/
theorem acknowledged_or_before_cons {st : Store sdk} {ev : Event sdk}
    {log : List (Event sdk)} (hboot : ev.isBoot = false) {e : Nat} {record : EpochRecord}
    (h : record ∈ acknowledged log ∨
      (storeOf st (beforeBoot log)).epochs[e]? = some record) :
    record ∈ acknowledged (ev :: log) ∨
      (storeOf st (beforeBoot (ev :: log))).epochs[e]? = some record := by
  rcases h with hin | hold
  · left
    obtain ⟨ev', hmem, hev'⟩ := List.mem_filterMap.mp hin
    exact List.mem_filterMap.mpr ⟨ev', mem_sinceBoot_of_cons hboot hmem, hev'⟩
  · right
    have hbefore : beforeBoot (ev :: log) = beforeBoot log := by
      simp [beforeBoot, hboot]
    rwa [hbefore]

/-- An epoch that the running process has stored was acknowledged to it, when errors
change nothing. -/
theorem Reach.stored_acknowledged (h : Reach st w j) :
    ErrorsChangeNothing w.log → ∀ (e : Nat) record, w.store.epochs[e]? = some record →
      record ∈ acknowledged w.log ∨
        (storeOf st (beforeBoot w.log)).epochs[e]? = some record := by
  refine h.induct (P := fun w => ErrorsChangeNothing w.log → ∀ (e : Nat) record,
    w.store.epochs[e]? = some record → record ∈ acknowledged w.log ∨
      (storeOf st (beforeBoot w.log)).epochs[e]? = some record) ?_ ?_
  · intro now durationSecs _ e record hrecord
    exact Or.inr hrecord
  · intro w j ev hw hev ih herr e record hrecord
    rw [hev.log_eq] at herr ⊢
    have herr' : ErrorsChangeNothing w.log := fun ev hmem => herr ev (List.mem_cons_of_mem _ hmem)
    by_cases hboot : ev.isBoot = true
    · right
      have hbefore : beforeBoot (ev :: w.log) = ev :: w.log := by
        simp [beforeBoot, hboot]
      rw [hbefore, storeOf_cons, ← hw.store_eq, ← hev.store_eq]
      exact hrecord
    · have hgoesOn : ev.isBoot = false := Bool.eq_false_iff.mpr hboot
      have hwritten := hev.written
      generalize (w.emit ev).store = st' at hwritten hrecord
      cases hwritten with
      | unchanged | saved =>
          exact acknowledged_or_before_cons hgoesOn (ih herr' e record hrecord)
      | served _ _ hserved =>
          rw [hserved.epochs] at hrecord
          exact acknowledged_or_before_cons hgoesOn (ih herr' e record hrecord)
      | @sealed ctx now durationSecs down snapshot prepared batch record' o st' _ _ ho
          hsealed =>
          rw [hsealed.epochs, getElem?_put] at hrecord
          split at hrecord
          · obtain rfl := Option.some.inj hrecord
            left
            have hok : o = .ok := by
              have hevent := herr _ (List.mem_cons_self ..)
              cases o with
              | ok => rfl
              | failed e => cases ho
              | unsynced e => cases hevent
            subst hok
            exact List.mem_cons_self ..
          · exact acknowledged_or_before_cons hgoesOn (ih herr' e record hrecord)

end Runs

/-! ## The stream -/

theorem Feed.Visited.world {st : Store sdk} {s : Feed sdk} (h : Feed.Visited st s) :
    AquaTimestamp.Visited st s.world := by
  cases h with
  | between h => exact .between h.world
  | during h _ hctx hcycle => exact .during h.world hctx hcycle.world

/-- At any moment the seals of the process are the announced ones, but for the last. -/
theorem Feed.Visited.told {st : Store sdk} {s : Feed sdk} (h : Feed.Visited st s) :
    s.bus.Sound ∧ ∃ unsent, unsent.length ≤ 1 ∧
      sealsTold s.world = announced s.bus.sent ++ unsent := by
  cases h with
  | between h =>
      refine ⟨h.told.relays.sound, announced s.owed.toList, ?_, ?_⟩
      · apply le_trans (List.length_filterMap_le _ _)
        cases s.owed <;> simp
      · rw [← h.told.all, announced_append]
  | @during s₀ ctx now durationSecs h howed _ hcycle =>
      have hrelays := h.told.relays.cycle hcycle
      refine ⟨hrelays.sound, ?_⟩
      have hall := h.told.all
      rw [howed, Option.toList_none, List.append_nil] at hall
      rw [hrelays.told, hall]
      rcases hcycle.world.acknowledges.1 rfl with hsame | ⟨record, hone⟩
      · refine ⟨[], Nat.zero_le _, ?_⟩
        unfold Acknowledges at hsame
        simp [sealsTold, hsame]
      · refine ⟨[record.seal], le_rfl, ?_⟩
        unfold Acknowledges at hone
        simp [sealsTold, hone]

/-! ## A subscriber that hears of a seal -/

/-- One seal cycle of the feed, executed as far as it goes. -/
def Feed.enter (s : Feed sdk) (ctx : Option WitnessContext) (now durationSecs : Nat)
    (out : Surroundings sdk) :
    Feed sdk × Option (Except SealError (EpochRecord × List (MintedWitness sdk))) :=
  (sealOnce now durationSecs ctx).drive
    (fun s c => out.answer s.world c) (fun s c r => { s with world := s.world.after c r })
    { s with world := s.world.tick ctx now durationSecs }

theorem Feed.sealCycle_enter (s : Feed sdk) (ctx : Option WitnessContext)
    (now durationSecs : Nat) (out : Surroundings sdk) :
    Feed.SealCycle s ctx now durationSecs (s.enter ctx now durationSecs out).1
      (s.enter ctx now durationSecs out).2 := by
  have hstep : ∀ (s : Feed sdk) c r, out.answer s.world c = some r →
      (feedSemantics sdk).step c r s { s with world := s.world.after c r } :=
    fun _ _ _ h => ⟨Surroundings.permitted_answer h, rfl⟩
  exact Prog.run_drive hstep _ _

/-- A client subscribes and a leaf is submitted. -/
def Sample.openFeed : Feed Sample.sdk :=
  ((Feed.start .oldestRetained (World.boot Store.empty [] 0 60)).act .subscribe).act
    (.append [Sample.leaf 1] "did:a")

/-- The epoch is sealed. -/
def Sample.sealedFeed : Feed Sample.sdk × Option
    (Except SealError (EpochRecord × List (MintedWitness Sample.sdk))) :=
  Sample.openFeed.enter (some (Sample.ctx [.evm])) 60 60 (Sample.honest "1")

/-- The client reads of it. -/
def Sample.heardFeed : Feed Sample.sdk :=
  ({ Sample.sealedFeed.1 with
      owed := Sample.sealedFeed.2.bind (announcement 60) }.announce).act (.recv 0)

theorem Sample.heardFeed_reachable : Feed.Reachable Store.empty Sample.heardFeed := by
  have hsome : Sample.sealedFeed.2.isSome = true := by
    decide +kernel
  obtain ⟨result, hresult⟩ := Option.isSome_iff_exists.mp hsome
  have hctx : DistinctMethods (some (Sample.ctx [.evm])) := by
    decide
  have hcycle := Feed.sealCycle_enter Sample.openFeed (some (Sample.ctx [.evm])) 60 60
    (Sample.honest "1")
  have hopen : Feed.Reachable Store.empty Sample.openFeed := .act _ (.act _ (.boot _ 0 60))
  have hsealed := Feed.Reachable.cycle hopen rfl hctx (hresult ▸ hcycle)
  have howed : Sample.sealedFeed.2.bind (announcement 60) = announcement 60 result := by
    rw [hresult, Option.bind_some]
  unfold Sample.heardFeed
  rw [howed]
  exact .act _ (.announce hsealed)

/-! ## Seals and seal events -/

/-- Whatever happens beside the sealer, the seal events on the bus are the seals of the
process in order, all but the one that is not sent yet; a seal stays stored as it was
told, the ids increase, and a subscriber reads a part of this sequence in this order,
and all of what it was sent unless it was told of a gap. -/
theorem bus_tells_each_seal {s : Feed sdk} (h : Feed.Visited Store.empty s) :
    (∃ unsent, unsent.length ≤ 1 ∧ sealsTold s.world = announced s.bus.sent ++ unsent) ∧
    (∀ record ∈ acknowledged s.world.log, record.id < u64Max →
      s.world.store.epochs[record.id]? = some record) ∧
    ((acknowledged s.world.log).Pairwise fun later earlier =>
      earlier.id < u64Max → earlier.id < later.id) ∧
    ∀ r ∈ s.bus.receivers, (announced r.got).Sublist (sealsTold s.world) ∧
      (r.missed = 0 → r.got = (s.bus.sent.take r.next).drop r.joined) := by
  obtain ⟨hsound, unsent, hlength, htold⟩ := h.told
  obtain ⟨j, hj⟩ := reach_of_visited h.world
  refine ⟨⟨unsent, hlength, htold⟩, ?_, ?_, ?_⟩
  · intro record hrecord hid
    obtain ⟨l, leaves, hsealed⟩ := sealedBy_of_acknowledged hrecord
    exact hj.sealedBy_record indexed_empty hsealed hid
  · refine (acknowledged_pairwise s.world.log).imp ?_
    rintro later earlier ⟨l, l', leaves, leaves', hlater, hbefore⟩ hid
    exact hj.seal_order indexed_empty hlater hbefore hid
  · intro r hr
    have hfollows := hsound r hr
    refine ⟨?_, hfollows.got_eq⟩
    have hsent : r.got.Sublist s.bus.sent :=
      hfollows.sublist.trans ((List.drop_sublist _ _).trans (List.take_sublist _ _))
    rw [htold]
    exact (hsent.filterMap SseEvent.seal).trans (List.sublist_append_left _ _)

theorem bus_tells_each_seal_heardFeed :
    (∃ unsent, unsent.length ≤ 1 ∧ sealsTold Sample.heardFeed.world =
      announced Sample.heardFeed.bus.sent ++ unsent) ∧
    ∀ r ∈ Sample.heardFeed.bus.receivers,
      (announced r.got).Sublist (sealsTold Sample.heardFeed.world) := by
  obtain ⟨htold, -, -, hread⟩ := bus_tells_each_seal (.between Sample.heardFeed_reachable)
  exact ⟨htold, fun r hr => (hread r hr).1⟩

/-- When errors of the store change nothing, no epoch is sealed silently: a subscriber
that has missed nothing and is up to date has read of every epoch that this process has
sealed since it subscribed. -/
theorem subscriber_is_told_each_epoch {s : Feed sdk} (h : Feed.Reachable Store.empty s)
    (herr : ErrorsChangeNothing s.world.log) (howed : s.owed = none)
    {r : Receiver SseEvent} (hr : r ∈ s.bus.receivers) (hmissed : r.missed = 0)
    (hnext : r.next = s.bus.sent.length) (e : Nat) (record : EpochRecord)
    (hrecord : s.world.store.epochs[e]? = some record) :
    (storeOf Store.empty (beforeBoot s.world.log)).epochs[e]? = some record ∨
      record.seal ∈ announced (s.bus.sent.take r.joined) ∨
      record.seal ∈ announced r.got := by
  obtain ⟨j, hj⟩ := reach_of_visited (.between h.world)
  rcases hj.stored_acknowledged herr e record hrecord with hnew | hold
  · right
    have htold := h.told.all
    rw [howed, Option.toList_none, List.append_nil] at htold
    have hmem : record.seal ∈ announced s.bus.sent := by
      rw [htold]
      exact List.mem_map_of_mem (List.mem_reverse.mpr hnew)
    have hgot := (h.told.relays.sound r hr).got_eq_drop hmissed hnext
    rw [← List.take_append_drop r.joined s.bus.sent, announced_append] at hmem
    rw [hgot]
    exact List.mem_append.mp hmem
  · exact Or.inl hold

theorem subscriber_is_told_each_epoch_heardFeed :
    ∃ r ∈ Sample.heardFeed.bus.receivers, ∀ record,
      Sample.heardFeed.world.store.epochs[1]? = some record →
        record.seal ∈ announced r.got := by
  have hrun : ErrorsChangeNothing Sample.heardFeed.world.log ∧
      Sample.heardFeed.owed = none ∧
      Sample.heardFeed.bus.receivers.map (fun r => (r.missed, r.next, r.joined)) =
        [(0, 1, 0)] ∧
      Sample.heardFeed.bus.sent.length = 1 ∧
      (storeOf Store.empty (beforeBoot Sample.heardFeed.world.log)).epochs[1]? = none := by
    decide +kernel
  obtain ⟨herr, howed, hreceivers, hlength, hfresh⟩ := hrun
  obtain ⟨r, hr, heq⟩ := List.mem_map.mp (hreceivers ▸ List.mem_singleton_self (0, 1, 0))
  obtain ⟨hmissed, hrest⟩ := Prod.mk.inj heq
  obtain ⟨hnext, hjoined⟩ := Prod.mk.inj hrest
  refine ⟨r, hr, fun record hrecord => ?_⟩
  rcases subscriber_is_told_each_epoch Sample.heardFeed_reachable herr howed hr hmissed
    (hnext.trans hlength.symm) 1 record hrecord with hold | hbefore | hgot
  · rw [hfresh] at hold
    cases hold
  · rw [hjoined, List.take_zero] at hbefore
    cases hbefore
  · exact hgot

end AquaTimestamp
