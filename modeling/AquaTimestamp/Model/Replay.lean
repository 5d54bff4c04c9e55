import AquaTimestamp.Model.Server

/-!
# Executing a server

The server model executed: the surroundings of a seal cycle are functions that
answer its calls, and a run is a list of moves.  Whatever is executed is
reachable.  A run that does not restart reads neither the sealed epochs nor
the history, so it can be executed on a small world and moved to any world
that differs from it in these only; this is how the last epoch id, which takes
`2 ^ 64` seals to open, is reached.
-/

namespace AquaTimestamp

open Support

variable {sdk : Sdk}

/-- How everything outside the sealer behaves during one seal cycle.  The
cycle is stopped at the first call for which `stops` holds. -/
structure Surroundings (sdk : Sdk) where
  prepare : List sdk.RevisionLink → Except String sdk.PreparedBatch
  anchor : Nat → AnchorMethod → String → Except String TimestampValue
  finish : sdk.PreparedBatch → List sdk.RevisionLink → TimestampValue →
    Except String (List (List (sdk.RevisionLink × AnyRevision sdk)))
  sign : sdk.RevisionLink → Except String sdk.Signature
  check : Nat → AnchorMethod → TimestampValue →
    Except String (HostAnswers sdk)
  sealing : WriteOutcome
  serving : Nat → AnchorMethod → WriteOutcome
  saving : PendingEpoch sdk → WriteOutcome
  stops : Call sdk → Bool

/-- A batch that cannot be built fails, whatever the keyspace would do. -/
def WriteOutcome.ofBuilt (o : WriteOutcome) :
    Except StoreError (Store sdk) → WriteOutcome
  | .ok _ => o
  | .error e => .failed e

namespace Surroundings

/-- The answer of a call; `none` stops the cycle there. -/
def answer (out : Surroundings sdk) (w : World sdk) (c : Call sdk) :
    Option (Answer c) :=
  if out.stops c then none
  else
    match c with
    | .listPendingEpochs => some (.ok w.store.listPendingEpochs)
    | .swapAndOpenNext closedAt nextOpenedAt durationSecs =>
        some (w.accumulator.swapAndOpenNext closedAt nextOpenedAt
          durationSecs).1
    | .prepareBatchTimestamp targets => some (out.prepare targets)
    | .createTimestamp e m root => some (out.anchor e m root)
    | .finishBatchTimestamp prepared targets facts =>
        some (out.finish prepared targets facts)
    | .signRevision link => some (out.sign link)
    | .selfCheck e m v _ _ _ => some (out.check e m v)
    | .persistSealedEpoch record leaves witnesses pending =>
        some (out.sealing.ofBuilt (w.store.persistSealedEpochWithPending
          record leaves witnesses pending))
    | .persistPendingMinted remaining done witnesses =>
        some ((out.serving remaining.epochId done).ofBuilt
          (w.store.persistPendingMinted remaining done witnesses))
    | .savePending p => some (out.saving p)
    | .panicked => none

theorem permitted_ofBuilt {o : WriteOutcome}
    {written : Except StoreError (Store sdk)}
    (h : (o.ofBuilt written).committed = true) : ∃ st, written = .ok st := by
  cases written with
  | ok st => exact ⟨st, rfl⟩
  | error e => cases h

/-- Every executed answer is one the server may get. -/
theorem permitted_answer {out : Surroundings sdk} {w : World sdk}
    {c : Call sdk} {r : Answer c} (h : out.answer w c = some r) :
    Permitted w c r := by
  unfold answer at h
  split at h
  · cases h
  · cases c with
    | listPendingEpochs =>
        cases h
        rintro pendings ⟨⟩
        rfl
    | swapAndOpenNext =>
        cases h
        rfl
    | persistSealedEpoch =>
        cases h
        exact permitted_ofBuilt
    | persistPendingMinted =>
        cases h
        exact permitted_ofBuilt
    | prepareBatchTimestamp | createTimestamp | finishBatchTimestamp
    | signRevision | selfCheck | savePending | panicked => trivial

end Surroundings

/-! ## Searching a history -/

/-- Whether some element of a list, with what follows it, satisfies `P`. -/
def someSplit {α : Type} (P : α → List α → Bool) : List α → Bool
  | [] => false
  | a :: as => P a as || someSplit P as

theorem someSplit_iff {α : Type} {P : α → List α → Bool} {as : List α} :
    someSplit P as = true ↔ ∃ a l, a :: l <:+ as ∧ P a l = true := by
  induction as with
  | nil => simp [someSplit]
  | cons a as ih =>
      simp only [someSplit, Bool.or_eq_true, ih]
      constructor
      · rintro (hhead | ⟨b, l, hl, hP⟩)
        · exact ⟨a, as, List.suffix_refl _, hhead⟩
        · exact ⟨b, l, hl.trans (List.suffix_cons _ _), hP⟩
      · rintro ⟨b, l, hl, hP⟩
        rcases List.suffix_cons_iff.mp hl with heq | hold
        · obtain ⟨rfl, rfl⟩ := List.cons.inj heq
          exact Or.inl hP
        · exact Or.inr ⟨b, l, hold, hP⟩

/-! ## Moves -/

/-- `DistinctMethods` is checked by evaluation. -/
instance decidableDistinctMethods (ctx : Option WitnessContext) :
    Decidable (DistinctMethods ctx) :=
  match ctx with
  | none => isTrue (by rintro _ ⟨⟩)
  | some c =>
      decidable_of_iff c.methods.Nodup
        ⟨fun h => by rintro _ ⟨⟩; exact h, fun h => h c rfl⟩

/-- One seal cycle, executed as far as it goes. -/
def World.enter (w : World sdk) (ctx : Option WitnessContext)
    (now durationSecs : Nat) (out : Surroundings sdk) :
    World sdk × Option
      (Except SealError (EpochRecord × List (MintedWitness sdk))) :=
  (sealOnce now durationSecs ctx).drive out.answer World.after
    (w.tick ctx now durationSecs)

/-- One move of a server. -/
inductive Move (sdk : Sdk) where
  | append (batch : List Hash32) (did : String)
  | restart (now durationSecs : Nat)
  | cycle (ctx : Option WitnessContext) (now durationSecs : Nat)
      (out : Surroundings sdk)

namespace World

/-- The world after a move.  A cycle that does not finish, or that no server
would start, is left out. -/
def play (w : World sdk) : Move sdk → World sdk
  | .append batch did => w.append batch did
  | .restart now durationSecs => w.restart now durationSecs
  | .cycle ctx now durationSecs out =>
      if DistinctMethods ctx ∧ (w.enter ctx now durationSecs out).2.isSome then
        (w.enter ctx now durationSecs out).1
      else w

/-- The world after a list of moves. -/
def playAll (w : World sdk) (moves : List (Move sdk)) : World sdk :=
  moves.foldl play w

/-- The moves of a server that starts on an empty store at time 0. -/
def replay (moves : List (Move sdk)) : World sdk :=
  (World.boot Store.empty [] 0 0).playAll moves

end World

theorem sealCycle_enter (w : World sdk) (ctx : Option WitnessContext)
    (now durationSecs : Nat) (out : Surroundings sdk) :
    SealCycle w ctx now durationSecs (w.enter ctx now durationSecs out).1
      (w.enter ctx now durationSecs out).2 := by
  have hstep : ∀ w c r, out.answer w c = some r →
      (serverSemantics sdk).step c r w (w.after c r) :=
    fun _ _ _ h => ⟨Surroundings.permitted_answer h, rfl⟩
  exact Prog.run_drive hstep _ _

/-- A move leads from a reachable world to a reachable world. -/
theorem Reachable.play {st : Store sdk} {w : World sdk} (h : Reachable st w)
    (move : Move sdk) : Reachable st (w.play move) := by
  cases move with
  | append batch did => exact .append batch did h
  | restart now durationSecs => exact .restart now durationSecs h
  | cycle ctx now durationSecs out =>
      simp only [World.play]
      split
      · rename_i hok
        obtain ⟨result, hresult⟩ := Option.isSome_iff_exists.mp hok.2
        have hcycle := sealCycle_enter w ctx now durationSecs out
        rw [hresult] at hcycle
        exact .cycle h hok.1 hcycle
      · exact h

theorem Reachable.playAll {st : Store sdk} {w : World sdk}
    (h : Reachable st w) (moves : List (Move sdk)) :
    Reachable st (w.playAll moves) := by
  unfold World.playAll
  induction moves generalizing w with
  | nil => exact h
  | cons move moves ih => exact ih (h.play move)

theorem reachable_replay (moves : List (Move sdk)) :
    Reachable Store.empty (World.replay moves) :=
  (Reachable.boot 0 0).playAll moves

/-- The world in which an executed cycle is stopped is visited. -/
theorem Reachable.visited_enter {st : Store sdk} {w : World sdk}
    (h : Reachable st w) {ctx : Option WitnessContext}
    (hctx : DistinctMethods ctx) (now durationSecs : Nat)
    (out : Surroundings sdk) :
    Visited st (w.enter ctx now durationSecs out).1 := by
  have hcycle := sealCycle_enter w ctx now durationSecs out
  cases hresult : (w.enter ctx now durationSecs out).2 with
  | none =>
      rw [hresult] at hcycle
      exact .during h hctx hcycle
  | some result =>
      rw [hresult] at hcycle
      exact .between (.cycle h hctx hcycle)

/-! ## Worlds that differ in their past only -/

/-- `w'` has the accumulator and the store of `w`, apart from the epochs
partition, and the history of `w` on top of `past`. -/
structure Twin (past : List (Event sdk)) (w w' : World sdk) : Prop where
  accumulator : w'.accumulator = w.accumulator
  store : ∃ epochs, w'.store = { w.store with epochs := epochs }
  log : w'.log = w.log ++ past

section Twin

variable {past : List (Event sdk)} {w w' : World sdk}

theorem persistSealedEpoch_twin (st : Store sdk)
    (epochs : Partition Nat EpochRecord) (record : EpochRecord)
    (leaves : List LeafEntry) (witnesses : List (MintedWitness sdk))
    (pending : Option (PendingEpoch sdk)) :
    Store.persistSealedEpochWithPending { st with epochs := epochs } record
        leaves witnesses pending =
      (st.persistSealedEpochWithPending record leaves witnesses pending).map
        fun st' => { st' with epochs := epochs.insert record.id record } := by
  unfold Store.persistSealedEpochWithPending
  cases pending with
  | none => rfl
  | some p =>
      dsimp only
      cases p.leafHashes <;> rfl

theorem persistPendingMinted_twin (st : Store sdk)
    (epochs : Partition Nat EpochRecord) (remaining : PendingEpoch sdk)
    (done : AnchorMethod) (witnesses : List (MintedWitness sdk)) :
    Store.persistPendingMinted { st with epochs := epochs } remaining done
        witnesses =
      (st.persistPendingMinted remaining done witnesses).map
        fun st' => { st' with epochs := epochs } := by
  unfold Store.persistPendingMinted
  cases remaining.leafHashes <;> rfl

theorem ofBuilt_map (o : WriteOutcome) (written : Except StoreError (Store sdk))
    (f : Store sdk → Store sdk) : o.ofBuilt (written.map f) = o.ofBuilt written := by
  cases written <;> rfl

theorem Twin.answer_eq (h : Twin past w w') (out : Surroundings sdk)
    (c : Call sdk) : out.answer w' c = out.answer w c := by
  obtain ⟨epochs, hstore⟩ := h.store
  unfold Surroundings.answer
  split
  · rfl
  · cases c with
    | listPendingEpochs =>
        dsimp only
        rw [hstore]
        rfl
    | swapAndOpenNext =>
        dsimp only
        rw [h.accumulator]
    | persistSealedEpoch =>
        dsimp only
        rw [hstore, persistSealedEpoch_twin, ofBuilt_map]
    | persistPendingMinted =>
        dsimp only
        rw [hstore, persistPendingMinted_twin, ofBuilt_map]
    | prepareBatchTimestamp | createTimestamp | finishBatchTimestamp
    | signRevision | selfCheck | savePending | panicked => rfl

theorem Twin.after (h : Twin past w w') (c : Call sdk) (r : Answer c) :
    Twin past (w.after c r) (w'.after c r) where
  accumulator := by
    simp only [World.after, h.accumulator]
  log := by
    simp only [World.after, h.log, List.cons_append]
  store := by
    obtain ⟨epochs, hstore⟩ := h.store
    simp only [World.after, hstore]
    cases c with
    | persistSealedEpoch record leaves witnesses pending =>
        simp only [Store.after, Store.commit, persistSealedEpoch_twin]
        cases w.store.persistSealedEpochWithPending record leaves witnesses
          pending with
        | error e => exact ⟨_, rfl⟩
        | ok st' =>
            simp only [Except.map]
            split <;> exact ⟨_, rfl⟩
    | persistPendingMinted remaining done witnesses =>
        simp only [Store.after, Store.commit, persistPendingMinted_twin]
        cases w.store.persistPendingMinted remaining done witnesses with
        | error e => exact ⟨_, rfl⟩
        | ok st' =>
            simp only [Except.map]
            split <;> exact ⟨_, rfl⟩
    | savePending p =>
        simp only [Store.after, Store.commit]
        split <;> exact ⟨_, rfl⟩
    | listPendingEpochs | swapAndOpenNext | prepareBatchTimestamp
    | createTimestamp | finishBatchTimestamp | signRevision | selfCheck
    | panicked => exact ⟨_, rfl⟩

/-- Twins stay twins while a program is executed, with the same result. -/
theorem Twin.drive {α : Type} (h : Twin past w w') (out : Surroundings sdk)
    (p : SealM sdk α) :
    Twin past (p.drive out.answer World.after w).1
        (p.drive out.answer World.after w').1 ∧
      (p.drive out.answer World.after w').2 =
        (p.drive out.answer World.after w).2 := by
  induction p generalizing w w' with
  | pure a => exact ⟨h, rfl⟩
  | call c next ih =>
      simp only [Prog.drive, h.answer_eq out c]
      cases out.answer w c with
      | none => exact ⟨h, rfl⟩
      | some r => exact ih r (h.after c r)

theorem Twin.enter (h : Twin past w w') (ctx : Option WitnessContext)
    (now durationSecs : Nat) (out : Surroundings sdk) :
    Twin past (w.enter ctx now durationSecs out).1
        (w'.enter ctx now durationSecs out).1 ∧
      (w'.enter ctx now durationSecs out).2 =
        (w.enter ctx now durationSecs out).2 := by
  have htick : Twin past (w.tick ctx now durationSecs)
      (w'.tick ctx now durationSecs) :=
    ⟨h.accumulator, h.store, by simp only [World.tick, h.log, List.cons_append]⟩
  exact htick.drive out _

/-- What a history makes of two stores that differ in the epochs partition
differs in the epochs partition. -/
theorem storeOf_twin (st : Store sdk) (epochs : Partition Nat EpochRecord)
    (log : List (Event sdk)) :
    ∃ epochs', storeOf { st with epochs := epochs } log =
      { storeOf st log with epochs := epochs' } := by
  induction log with
  | nil => exact ⟨epochs, rfl⟩
  | cons ev log ih =>
      obtain ⟨epochs', hstore⟩ := ih
      simp only [storeOf_cons, hstore]
      cases ev with
      | boot | append | tick => exact ⟨epochs', rfl⟩
      | call c r =>
          let acc := Accumulator.new 0 0 0
          have htwin : Twin [] (World.mk acc (storeOf st log) [])
              ⟨acc, { storeOf st log with epochs := epochs' }, []⟩ :=
            ⟨rfl, ⟨epochs', rfl⟩, rfl⟩
          exact (htwin.after c r).store

/-- Moves that are no restarts. -/
def Move.keepsProcess : Move sdk → Bool
  | .restart .. => false
  | _ => true

theorem Twin.play (h : Twin past w w') {move : Move sdk}
    (hmove : move.keepsProcess = true) :
    Twin past (w.play move) (w'.play move) := by
  cases move with
  | append batch did =>
      simp only [World.play, World.append, h.accumulator, h.log]
      exact ⟨rfl, h.store, rfl⟩
  | restart => cases hmove
  | cycle ctx now durationSecs out =>
      obtain ⟨htwin, hresult⟩ := h.enter ctx now durationSecs out
      simp only [World.play, hresult]
      split
      · exact htwin
      · exact h

theorem Twin.playAll (h : Twin past w w') {moves : List (Move sdk)}
    (hmoves : ∀ move ∈ moves, move.keepsProcess = true) :
    Twin past (w.playAll moves) (w'.playAll moves) := by
  unfold World.playAll
  induction moves generalizing w w' with
  | nil => exact h
  | cons move moves ih =>
      exact ih (h.play (hmoves move (List.mem_cons_self ..)))
        fun m hm => hmoves m (List.mem_cons_of_mem _ hm)

end Twin

/-! ## Opening the last epoch id -/

/-- Events of seal cycles without methods and without leaves. -/
def Event.isIdle : Event sdk → Bool
  | .boot .. => true
  | .tick none _ _ => true
  | .call (.swapAndOpenNext ..) _ => true
  | .call (.persistSealedEpoch _ [] _ none) .ok => true
  | _ => false

/-- The open epoch is the one with the id `n`, and nothing was ever stored but
empty epochs. -/
structure OpenAt (n : Nat) (w : World sdk) : Prop where
  reachable : Reachable Store.empty w
  accumulator : w.accumulator = Accumulator.new n 0 0
  store : ∃ epochs, w.store = { (Store.empty : Store sdk) with epochs := epochs }
  log : ∀ ev ∈ w.log, ev.isIdle = true

/-- Sealing the empty open epoch opens the next id. -/
theorem OpenAt.idleCycle {n : Nat} {w : World sdk} (h : OpenAt n w) :
    ∃ w' : World sdk, OpenAt (saturatingAdd n 1) w' := by
  let snapshot : SealedSnapshot := ⟨n, 0, 0, []⟩
  let record : EpochRecord := ⟨n, 0, 0, sdk.sha3Empty, 0, hashTypeLabel⟩
  let w₁ := (w.tick none 0 0).after (.swapAndOpenNext 0 0 0) snapshot
  let w₂ := w₁.after (.persistSealedEpoch record [] [] none) .ok
  have hsnapshot : snapshot = (w.accumulator.swapAndOpenNext 0 0 0).1 := by
    rw [h.accumulator]
    rfl
  obtain ⟨next, hprog, hnext⟩ :
      ∃ next, (sealSnapshot none 0 [] [] snapshot : SealM sdk _) =
          .call (.persistSealedEpoch record [] [] none) next ∧
        next .ok = .pure (.ok (record, [])) :=
    ⟨_, rfl, rfl⟩
  have hswap : (serverSemantics sdk).step (.swapAndOpenNext 0 0 0) snapshot
      (w.tick none 0 0) w₁ :=
    ⟨hsnapshot, rfl⟩
  have hpersist : (serverSemantics sdk).step
      (.persistSealedEpoch record [] [] none) .ok w₁ w₂ :=
    ⟨fun _ => ⟨_, rfl⟩, rfl⟩
  have hrest : (serverSemantics sdk).Run (sealSnapshot none 0 [] [] snapshot)
      w₁ w₂ (some (.ok (record, []))) := by
    rw [hprog]
    refine .call hpersist ?_
    rw [hnext]
    exact .done _ _
  have hcycle : SealCycle w none 0 0 w₂ (some (.ok (record, []))) :=
    .call hswap hrest
  refine ⟨w₂, .cycle h.reachable (by rintro _ ⟨⟩) hcycle, ?_, ?_, ?_⟩
  · simp only [w₂, w₁, World.after, Accumulator.after, World.tick, h.accumulator]
    rfl
  · obtain ⟨epochs, hstore⟩ := h.store
    refine ⟨epochs.insert record.id record, ?_⟩
    simp only [w₂, w₁, World.after, World.tick, hstore]
    rfl
  · intro ev hev
    rcases List.mem_cons.mp hev with rfl | hev
    · rfl
    rcases List.mem_cons.mp hev with rfl | hev
    · rfl
    rcases List.mem_cons.mp hev with rfl | hev
    · rfl
    exact h.log ev hev

/-- Every id can be opened, the last one included. -/
theorem exists_openAt (sdk : Sdk) {n : Nat} (hpos : 0 < n) (hle : n ≤ u64Max) :
    ∃ w : World sdk, OpenAt n w := by
  induction n with
  | zero => omega
  | succ n ih =>
      rcases Nat.eq_zero_or_pos n with rfl | hn
      · refine ⟨World.boot Store.empty [] 0 0, .boot 0 0, ?_, ⟨∅, rfl⟩, ?_⟩
        · rfl
        · intro ev hev
          obtain rfl : ev = .boot 0 0 := by simpa [World.boot] using hev
          rfl
      · obtain ⟨w, hw⟩ := ih hn (by omega)
        have hnext : saturatingAdd n 1 = n + 1 := Nat.min_eq_left hle
        exact hnext ▸ hw.idleCycle

/-- A world in which the last id is open, with no past. -/
def lastEpoch (sdk : Sdk) : World sdk where
  accumulator := Accumulator.new u64Max 0 0
  store := Store.empty
  log := []

/-- The last id can be opened; what is executed there is executed in a twin of
`lastEpoch` with an idle past. -/
theorem exists_lastEpoch (sdk : Sdk) :
    ∃ (w : World sdk) (past : List (Event sdk)), Reachable Store.empty w ∧
      (∀ ev ∈ past, ev.isIdle = true) ∧ Twin past (lastEpoch sdk) w := by
  obtain ⟨w, hw⟩ := exists_openAt sdk (n := u64Max) (by decide) (le_refl _)
  refine ⟨w, w.log, hw.reachable, hw.log, hw.accumulator, ?_, rfl⟩
  obtain ⟨epochs, hstore⟩ := hw.store
  exact ⟨epochs, hstore⟩

/-- Moves that keep the process, executed in `lastEpoch`, have a visited twin. -/
theorem exists_twin_playAll {moves : List (Move sdk)}
    (hmoves : ∀ move ∈ moves, move.keepsProcess = true) :
    ∃ (w : World sdk) (past : List (Event sdk)), Visited Store.empty w ∧
      (∀ ev ∈ past, ev.isIdle = true) ∧
      Twin past ((lastEpoch sdk).playAll moves) w := by
  obtain ⟨w, past, hreach, hidle, htwin⟩ := exists_lastEpoch sdk
  exact ⟨w.playAll moves, past, .between (hreach.playAll moves), hidle,
    htwin.playAll hmoves⟩

/-- On a past that left nothing but epochs, the store is that of the history since then
but for the epochs. -/
theorem storeOf_append_past {past : List (Event sdk)}
    {epochs : Partition Nat EpochRecord}
    (hpast : storeOf Store.empty past =
      { (Store.empty : Store sdk) with epochs := epochs })
    (l : List (Event sdk)) :
    ∃ epochs', storeOf Store.empty (l ++ past) =
      { storeOf Store.empty l with epochs := epochs' } := by
  have happend : storeOf Store.empty (l ++ past) =
      storeOf (storeOf Store.empty past) l := by
    simp only [storeOf, List.foldr_append]
  rw [happend, hpast]
  exact storeOf_twin Store.empty epochs l

theorem pendingAnchors_append_past {past : List (Event sdk)}
    {epochs : Partition Nat EpochRecord}
    (hpast : storeOf Store.empty past =
      { (Store.empty : Store sdk) with epochs := epochs })
    (l : List (Event sdk)) :
    (storeOf Store.empty (l ++ past)).pendingAnchors =
      (storeOf Store.empty l).pendingAnchors := by
  obtain ⟨epochs', hstore⟩ := storeOf_append_past hpast l
  rw [hstore]

/-! ## Readings of a history with an idle past -/

instance decidableErrorsChangeNothing (log : List (Event sdk)) :
    Decidable (ErrorsChangeNothing log) :=
  inferInstanceAs (Decidable (∀ ev ∈ log, ev.errorsChangeNothing = true))

/-- `PoisonedByFsync` is checked by evaluation. -/
instance decidablePoisonedByFsync (log : List (Event sdk)) :
    Decidable (PoisonedByFsync log) :=
  decidable_of_iff (someSplit (fun ev l => ev.commits &&
      (sinceBoot l).any fun earlier => !earlier.errorsChangeNothing) log = false) (by
    rw [← Bool.not_eq_true, someSplit_iff]
    simp only [PoisonedByFsync, Bool.and_eq_true, List.any_eq_true, Bool.not_eq_true',
      not_exists, not_and, Bool.not_eq_false])

section Past

variable {past l : List (Event sdk)}

theorem currentTick_append {t : Option WitnessContext × Nat}
    (h : currentTick l = some t) : currentTick (l ++ past) = some t := by
  induction l with
  | nil => cases h
  | cons ev l ih =>
      cases ev with
      | boot => cases h
      | tick => exact h
      | append => exact ih h
      | call => exact ih h

theorem mem_thisCycle_append {ev : Event sdk} (h : ev ∈ thisCycle l) :
    ev ∈ thisCycle (l ++ past) := by
  induction l with
  | nil => cases h
  | cons new l ih =>
      simp only [thisCycle, List.takeWhile_cons, List.cons_append] at h ih ⊢
      split at h
      · rename_i hnew
        rw [if_pos hnew]
        exact List.mem_cons.mpr ((List.mem_cons.mp h).imp id ih)
      · cases h

theorem suffix_append_past {ev : Event sdk} {log : List (Event sdk)}
    (h : ev :: l <:+ log) : ev :: (l ++ past) <:+ log ++ past := by
  obtain ⟨pre, rfl⟩ := h
  exact ⟨pre, by simp⟩

theorem ErrorsChangeNothing.append_idle (h : ErrorsChangeNothing l)
    (hpast : ∀ ev ∈ past, ev.isIdle = true) :
    ErrorsChangeNothing (l ++ past) := by
  intro ev hev
  rcases List.mem_append.mp hev with hnew | hold
  · exact h ev hnew
  · have hidle := hpast ev hold
    unfold Event.isIdle at hidle
    split at hidle <;> first | rfl | cases hidle

end Past

end AquaTimestamp
