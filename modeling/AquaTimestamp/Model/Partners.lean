import AquaTimestamp.Model.Replay
import AquaTimestamp.Support.TwoRuns

/-!
# Runs against one partner for each method

What a method's provider, its self-check host, the batch producer and the
service key answer for that method is the method's partner.  To let each
partner answer its own calls, the seal cycle is written once more with its
calls marked: those of `settle_method` with the method it settles, the others
with nothing.  Without the marks it is the seal cycle.

Every write of the store succeeds here that can be built.  A submission that
arrives during a cycle lands where one before or after the cycle does: in the
closing epoch before the swap, in the next one after it.
-/

namespace AquaTimestamp

open Support

variable {sdk : Sdk}

/-! ## Partners -/

/-- What answers the calls made for one method.  Each answer may depend on all
that was asked for the method so far. -/
structure Partner (sdk : Sdk) where
  anchor : SealTrace sdk → Nat → String → Except String TimestampValue
  finish : SealTrace sdk → sdk.PreparedBatch → List sdk.RevisionLink →
    TimestampValue → Except String (List (List (sdk.RevisionLink × AnyRevision sdk)))
  sign : SealTrace sdk → sdk.RevisionLink → Except String sdk.Signature
  check : SealTrace sdk → Nat → TimestampValue → List (MintedWitness sdk) → String →
    HostWiring → Except String (HostAnswers sdk)

/-- The calls a partner answers. -/
def Call.isAsked : Call sdk → Bool
  | .createTimestamp .. => true
  | .finishBatchTimestamp .. => true
  | .signRevision _ => true
  | .selfCheck .. => true
  | _ => false

def Partner.answer (partner : Partner sdk) (asked : SealTrace sdk) :
    (c : Call sdk) → Option (Answer c)
  | .createTimestamp e _ root => some (partner.anchor asked e root)
  | .finishBatchTimestamp prepared targets facts =>
      some (partner.finish asked prepared targets facts)
  | .signRevision link => some (partner.sign asked link)
  | .selfCheck e _ value minted serviceDid wiring =>
      some (partner.check asked e value minted serviceDid wiring)
  | _ => none

/-! ## The server beside its partners -/

/-- How the SDK prepares the batch of each number. -/
abbrev Preparing (sdk : Sdk) : Type :=
  Nat → List sdk.RevisionLink → Except String sdk.PreparedBatch

/-- The server, with what was asked for each method so far and how many
batches were prepared. -/
structure Attended (sdk : Sdk) where
  world : World sdk
  asked : AnchorMethod → SealTrace sdk
  batches : Nat

namespace Attended

/-- A server that starts on an empty store. -/
def boot (sdk : Sdk) (now durationSecs : Nat) : Attended sdk :=
  ⟨World.boot Store.empty [] now durationSecs, fun _ => [], 0⟩

/-- The answers of the accumulator, the store and the preparing SDK. -/
def answer (s : Attended sdk) (prepare : Preparing sdk) :
    (c : Call sdk) → Option (Answer c)
  | .listPendingEpochs => some (.ok s.world.store.listPendingEpochs)
  | .swapAndOpenNext closedAt nextOpenedAt durationSecs =>
      some (s.world.accumulator.swapAndOpenNext closedAt nextOpenedAt
        durationSecs).1
  | .prepareBatchTimestamp targets => some (prepare s.batches targets)
  | .persistSealedEpoch record leaves witnesses pending =>
      some (WriteOutcome.ok.ofBuilt (s.world.store.persistSealedEpochWithPending
        record leaves witnesses pending))
  | .persistPendingMinted remaining done witnesses =>
      some (WriteOutcome.ok.ofBuilt
        (s.world.store.persistPendingMinted remaining done witnesses))
  | .savePending _ => some .ok
  | _ => none

/-- The state after a call, made for `k` or for no method. -/
def after (s : Attended sdk) (k : Option AnchorMethod) (c : Call sdk)
    (r : Answer c) : Attended sdk where
  world := s.world.after c r
  asked m := if k = some m ∧ c.isAsked then s.asked m ++ [⟨c, r⟩] else s.asked m
  batches :=
    match c with
    | .prepareBatchTimestamp _ => s.batches + 1
    | _ => s.batches

end Attended

/-- Programs of the sealer with marked calls. -/
abbrev MarkedM (sdk : Sdk) (α : Type) : Type :=
  Prog (Option AnchorMethod × Call sdk)
    (Prog.MarkedAnswer (Option AnchorMethod) (@Answer sdk)) α

/-- Every method's calls are answered by its partner. -/
def attend (prepare : Preparing sdk) (partners : AnchorMethod → Partner sdk) :
    Executor (Option AnchorMethod × Call sdk)
      (Prog.MarkedAnswer (Option AnchorMethod) (@Answer sdk)) (Attended sdk) where
  answer s c :=
    if c.2.isAsked then c.1.bind fun m => (partners m).answer (s.asked m) c.2
    else s.answer prepare c.2
  after s c r := s.after c.1 c.2 r

theorem permitted_attend {prepare : Preparing sdk}
    {partners : AnchorMethod → Partner sdk} {s : Attended sdk}
    {c : Option AnchorMethod × Call sdk} {r : Answer c.2}
    (h : (attend prepare partners).answer s c = some r) :
    Permitted s.world c.2 r := by
  obtain ⟨k, c⟩ := c
  cases c with
  | listPendingEpochs =>
      cases h
      rintro pendings ⟨⟩
      rfl
  | swapAndOpenNext =>
      cases h
      rfl
  | persistSealedEpoch | persistPendingMinted =>
      cases h
      exact Surroundings.permitted_ofBuilt
  | prepareBatchTimestamp | createTimestamp | finishBatchTimestamp
  | signRevision | selfCheck | savePending | panicked => trivial

/-! ## The seal cycle with marked calls -/

/-- `settleMethods`, each method's calls marked with it. -/
def settleMethodsFor (ctx : WitnessContext) (now : Nat) :
    List AnchorMethod → PendingEpoch sdk → List AnchorMethod →
      MarkedM sdk (PendingEpoch sdk × List AnchorMethod ×
        List (MintedWitness sdk))
  | [], pending, down => pure (pending, down, [])
  | method :: methods, pending, down => do
      let (pending, down, served) ←
        (settleMethod ctx pending method down now).marked (some method)
      let (pending, down, more) ← settleMethodsFor ctx now methods pending down
      pure (pending, down, served.getD [] ++ more)

def retryEachFor (ctx : WitnessContext) (now : Nat) :
    List (PendingEpoch sdk) → List AnchorMethod →
      MarkedM sdk (List (MintedWitness sdk) × List AnchorMethod)
  | [], down => pure ([], down)
  | pending :: rest, down => do
      let (_, down, out) ← settleMethodsFor ctx now pending.methods pending down
      let (more, down) ← retryEachFor ctx now rest down
      pure (out ++ more, down)

def retryPendingFor (ctx : WitnessContext) (now : Nat) :
    MarkedM sdk (List (MintedWitness sdk) × List AnchorMethod) := do
  match ← SealM.listPendingEpochs.marked none with
  | .error _ => pure ([], [])
  | .ok pendings => retryEachFor ctx now pendings []

def sealSnapshotFor (witnessCtx : Option WitnessContext) (closedAt : Nat)
    (witnesses : List (MintedWitness sdk)) (down : List AnchorMethod)
    (snapshot : SealedSnapshot) :
    MarkedM sdk (Except SealError (EpochRecord × List (MintedWitness sdk))) := do
  match ← (prepare (snapshot.leaves.map LeafEntry.leaf)).marked none with
  | .error e => pure (.error (.witness e))
  | .ok batch =>
      match buildRecord snapshot batch with
      | .error e => pure (.error (.witness e))
      | .ok record => do
          let pending := pendingFor witnessCtx snapshot batch
          let outcome ←
            (SealM.persistSealedEpoch record snapshot.leaves [] pending).marked none
          match outcome.result with
          | .error e => pure (.error (.store e))
          | .ok _ =>
              match witnessCtx, pending with
              | some ctx, some pending => do
                  let (_, _, minted) ←
                    settleMethodsFor ctx closedAt pending.methods pending down
                  pure (.ok (record, witnesses ++ minted))
              | _, _ => pure (.ok (record, witnesses))

def sealOnceFor (closedAt durationSecs : Nat)
    (witnessCtx : Option WitnessContext) :
    MarkedM sdk (Except SealError (EpochRecord × List (MintedWitness sdk))) :=
  match witnessCtx with
  | none => do
      let snapshot ←
        (SealM.swapAndOpenNext closedAt closedAt durationSecs).marked none
      sealSnapshotFor none closedAt [] [] snapshot
  | some ctx =>
      match ctx.validate with
      | .error e => pure (.error e)
      | .ok _ => do
          let (witnesses, down) ← retryPendingFor ctx closedAt
          let snapshot ←
            (SealM.swapAndOpenNext closedAt closedAt durationSecs).marked none
          sealSnapshotFor (some ctx) closedAt witnesses down snapshot

section Unmarked

variable {ctx : WitnessContext} {now : Nat}

theorem unmarked_settleMethodsFor (methods : List AnchorMethod)
    (pending : PendingEpoch sdk) (down : List AnchorMethod) :
    (settleMethodsFor ctx now methods pending down).unmarked =
      settleMethods ctx now methods pending down := by
  induction methods generalizing pending down with
  | nil => rfl
  | cons method methods ih =>
      simp only [settleMethodsFor, settleMethods, Prog.unmarked_bind,
        Prog.unmarked_marked, Prog.unmarked_pure, ih]

theorem unmarked_retryEachFor (pendings : List (PendingEpoch sdk))
    (down : List AnchorMethod) :
    (retryEachFor ctx now pendings down).unmarked =
      retryEach ctx now pendings down := by
  induction pendings generalizing down with
  | nil => rfl
  | cons pending pendings ih =>
      simp only [retryEachFor, retryEach, Prog.unmarked_bind, Prog.unmarked_pure,
        unmarked_settleMethodsFor, ih]

theorem unmarked_retryPendingFor :
    (retryPendingFor ctx now : MarkedM sdk _).unmarked = retryPending ctx now := by
  simp only [retryPendingFor, retryPending, Prog.unmarked_bind, Prog.unmarked_marked]
  congr 1
  funext answer
  cases answer with
  | error e => rfl
  | ok pendings => exact unmarked_retryEachFor pendings []

theorem unmarked_sealSnapshotFor (witnessCtx : Option WitnessContext)
    (closedAt : Nat) (witnesses : List (MintedWitness sdk))
    (down : List AnchorMethod) (snapshot : SealedSnapshot) :
    (sealSnapshotFor witnessCtx closedAt witnesses down snapshot).unmarked =
      sealSnapshot witnessCtx closedAt witnesses down snapshot := by
  simp only [sealSnapshotFor, sealSnapshot, Prog.unmarked_bind, Prog.unmarked_marked]
  congr 1
  funext answer
  cases answer with
  | error e => rfl
  | ok batch =>
      dsimp only
      cases buildRecord snapshot batch with
      | error e => rfl
      | ok record =>
          simp only [Prog.unmarked_bind, Prog.unmarked_marked]
          congr 1
          funext outcome
          cases outcome.result with
          | error e => rfl
          | ok _ =>
              cases witnessCtx with
              | none => rfl
              | some ctx =>
                  cases pendingFor (some ctx) snapshot batch with
                  | none => rfl
                  | some pending =>
                      simp only [Prog.unmarked_bind, Prog.unmarked_pure,
                        unmarked_settleMethodsFor]

/-- Without its marks the marked cycle is the seal cycle. -/
theorem unmarked_sealOnceFor (closedAt durationSecs : Nat)
    (witnessCtx : Option WitnessContext) :
    (sealOnceFor closedAt durationSecs witnessCtx : MarkedM sdk _).unmarked =
      sealOnce closedAt durationSecs witnessCtx := by
  cases witnessCtx with
  | none =>
      simp only [sealOnceFor, sealOnce, Prog.unmarked_bind, Prog.unmarked_marked,
        unmarked_sealSnapshotFor]
  | some ctx =>
      simp only [sealOnceFor, sealOnce]
      cases ctx.validate with
      | error e => rfl
      | ok _ =>
          simp only [Prog.unmarked_bind, Prog.unmarked_marked,
            unmarked_retryPendingFor, unmarked_sealSnapshotFor]

end Unmarked

/-! ## Runs -/

/-- What happens to a server from outside. -/
inductive Happening where
  | append (batch : List Hash32) (did : String)
  | restart (now durationSecs : Nat)
  | tick (witnessCtx : Option WitnessContext) (now durationSecs : Nat)

/-- No method is enabled twice. -/
def Happening.Distinct : Happening → Prop
  | .tick witnessCtx _ _ => DistinctMethods witnessCtx
  | _ => True

namespace Attended

variable (prepare : Preparing sdk) (partners : AnchorMethod → Partner sdk)

/-- The server after a happening; none when a panic has ended its sealer. -/
def play (s : Attended sdk) : Happening → Option (Attended sdk)
  | .append batch did => some { s with world := s.world.append batch did }
  | .restart now durationSecs =>
      some { s with world := s.world.restart now durationSecs }
  | .tick witnessCtx now durationSecs =>
      match (sealOnceFor now durationSecs witnessCtx).drive
          (attend prepare partners).answer (attend prepare partners).after
          { s with world := s.world.tick witnessCtx now durationSecs } with
      | (s', some _) => some s'
      | (_, none) => none

/-- The server after a list of happenings. -/
def run (s : Attended sdk) (happenings : List Happening) : Option (Attended sdk) :=
  happenings.foldlM (play prepare partners) s

variable {prepare partners} {s s' : Attended sdk}

theorem play_tick {witnessCtx : Option WitnessContext} {now durationSecs : Nat}
    (h : s.play prepare partners (.tick witnessCtx now durationSecs) = some s') :
    ∃ result, (attend prepare partners).Finishes
      (sealOnceFor now durationSecs witnessCtx)
      { s with world := s.world.tick witnessCtx now durationSecs } s' result := by
  simp only [play] at h
  split at h
  · rename_i s'' result heq
    cases h
    exact ⟨result, heq⟩
  · cases h

/-- The runs against partners are runs of the server. -/
theorem reachable_play {h : Happening} (hs : Reachable Store.empty s.world)
    (hplay : s.play prepare partners h = some s') (hdistinct : h.Distinct) :
    Reachable Store.empty s'.world := by
  cases h with
  | append batch did =>
      cases hplay
      exact .append batch did hs
  | restart now durationSecs =>
      cases hplay
      exact .restart now durationSecs hs
  | tick witnessCtx now durationSecs =>
      obtain ⟨result, hfinishes⟩ := play_tick hplay
      have hrun := hfinishes.run (serverSemantics sdk) Attended.world
        fun s c r hanswer => ⟨permitted_attend hanswer, rfl⟩
      rw [unmarked_sealOnceFor] at hrun
      exact .cycle hs hdistinct hrun

theorem reachable_run {happenings : List Happening}
    (hs : Reachable Store.empty s.world)
    (hrun : s.run prepare partners happenings = some s')
    (hdistinct : ∀ h ∈ happenings, h.Distinct) :
    Reachable Store.empty s'.world := by
  induction happenings generalizing s with
  | nil =>
      cases hrun
      exact hs
  | cons h happenings ih =>
      rw [run, List.foldlM_cons] at hrun
      obtain ⟨s₁, hplay, hrest⟩ := Option.bind_eq_some_iff.mp hrun
      exact ih (reachable_play hs hplay (hdistinct h (List.mem_cons_self ..))) hrest
        fun h' hh' => hdistinct h' (List.mem_cons_of_mem _ hh')

end Attended

end AquaTimestamp
