import AquaTimestamp.Settlement.Machine

/-!
# The sealer refines the settlement machine

Every world a run of the server visits is a world of the machine, with some
job in progress; between two seal cycles the job is `idle`.  The proof goes
through the programs of the sealer one by one: each is shown to take the
machine from one job to another, whatever is answered and whatever is
submitted meanwhile.
-/

namespace AquaTimestamp

open Support Semantics

variable {sdk : Sdk}

/-! ## Minting -/

/-- A call of the minter, whatever it is answered. -/
def Minting (c : Call sdk) (_ : Answer c) : Prop :=
  c.isMinting = true

/-- The witness `sign_witness` returns is the one it was asked for. -/
def SignedFor (entry : LeafEntry) (epochId : Nat) (method : AnchorMethod)
    (result : Except WitnessError (MintedWitness sdk)) : Prop :=
  ∀ w, result = .ok w →
    (w.epochId, w.method, LeafEntry.mk w.leaf w.submitterDid) =
      (epochId, method, entry)

/-- The witness carries the object under its own hash. -/
def MintedWitness.Carries (w : MintedWitness sdk)
    (object : sdk.RevisionLink × AnyRevision sdk) : Prop :=
  object.2 = w.objectRevision ∧ revisionLinkToHash object.1 = .ok w.objectHash

theorem within_signWitness (entry : LeafEntry) (epochId : Nat)
    (method : AnchorMethod) (link : sdk.RevisionLink)
    (revision : AnyRevision sdk) :
    (signWitness entry epochId method link revision).Within Minting
      (fun result => SignedFor entry epochId method result ∧
        ∀ w, result = .ok w → w.Carries (link, revision)) := by
  unfold signWitness
  split
  · exact ⟨nofun, nofun⟩
  · rename_i objectHash hhash
    refine Prog.within_ask fun answer => ⟨rfl, ?_⟩
    cases answer with
    | error e => exact ⟨nofun, nofun⟩
    | ok sig =>
        dsimp only
        split
        · exact ⟨nofun, nofun⟩
        · split
          · exact ⟨nofun, nofun⟩
          · constructor
            · rintro w ⟨⟩
              rfl
            · rintro w ⟨⟩
              exact ⟨rfl, hhash⟩

/-- What signing the leaves from position `i` on returns: one witness for each
leaf, in order, over the object at its position. -/
structure SignedLeaves (epochId : Nat) (method : AnchorMethod)
    (objects : List (sdk.RevisionLink × AnyRevision sdk))
    (entries : List LeafEntry) (i : Nat) (ws : List (MintedWitness sdk)) :
    Prop where
  entries : (ws.map fun w =>
      (w.epochId, w.method, LeafEntry.mk w.leaf w.submitterDid)) =
    entries.map fun e => (epochId, method, e)
  objects : ∀ (k : Nat) w, ws[k]? = some w →
    ∃ object, objects[i + k]? = some object ∧ w.Carries object

theorem within_signLeaf (epochId : Nat) (entry : LeafEntry) (i : Nat)
    (method : AnchorMethod)
    (objects : List (sdk.RevisionLink × AnyRevision sdk)) :
    (signLeaf epochId entry i [(method, objects)]).Within Minting
      (fun result => ∀ ws, result = .ok ws →
        SignedLeaves epochId method objects [entry] i ws) := by
  unfold signLeaf
  split
  · intro answer
    exact nomatch answer
  · rename_i link revision hobject
    refine Prog.within_bind (within_signWitness entry epochId method _ _) ?_
    rintro (e | w) ⟨hsigned, hcarries⟩
    · exact nofun
    · rintro ws ⟨⟩
      refine ⟨?_, ?_⟩
      · simpa using hsigned w rfl
      · rintro (_ | k) w' hw'
        · cases hw'
          exact ⟨_, hobject, hcarries w rfl⟩
        · cases hw'

theorem within_signLeaves (epochId : Nat) (method : AnchorMethod)
    (objects : List (sdk.RevisionLink × AnyRevision sdk))
    (entries : List LeafEntry) (i : Nat) :
    (signLeaves epochId [(method, objects)] entries i).Within Minting
      (fun result => ∀ ws, result = .ok ws →
        SignedLeaves epochId method objects entries i ws) := by
  induction entries generalizing i with
  | nil =>
      rintro ws ⟨⟩
      exact ⟨rfl, nofun⟩
  | cons entry entries ih =>
      refine Prog.within_bind (within_signLeaf epochId entry i method objects) ?_
      rintro (e | ws) hws
      · exact nofun
      · refine Prog.within_bind (ih (i + 1)) ?_
        rintro (e | more) hmore
        · exact nofun
        · rintro _ ⟨⟩
          obtain ⟨hone, hobject⟩ := hws ws rfl
          obtain ⟨hrest, hobjects⟩ := hmore more rfl
          obtain ⟨w, rfl⟩ : ∃ w, ws = [w] := by
            refine List.length_eq_one_iff.mp ?_
            simpa using congrArg List.length hone
          refine ⟨?_, ?_⟩
          · rw [List.map_append, hone, hrest]
            rfl
          · rintro (_ | k) w' hw'
            · exact hobject 0 w' hw'
            · obtain ⟨object, hget, hcarries⟩ := hobjects k w' hw'
              refine ⟨object, ?_, hcarries⟩
              rw [← hget]
              congr 1
              omega

/-- Minting for a method makes its calls only, and that method's witnesses. -/
theorem within_mintFrom_methods (p : PendingEpoch sdk) (m : AnchorMethod)
    (v : TimestampValue) :
    (mintFrom p m v).Within Minting fun result =>
      ∀ minted, result = .ok minted → ∀ w ∈ minted, w.method = m := by
  unfold mintFrom
  split
  · exact nofun
  · rename_i snapshot batch hrestore
    unfold mintWitnessesForEpoch
    split
    · exact nofun
    · refine Prog.within_bind (R := fun result => ∀ objects, result = .ok objects →
        ∃ perLeaf, objects = [(m, perLeaf)]) ?_ ?_
      · refine Prog.within_ask fun answer => ⟨rfl, ?_⟩
        cases answer with
        | error e => exact nofun
        | ok results =>
            dsimp only
            split
            · exact nofun
            · rintro objects ⟨⟩
              exact ⟨_, rfl⟩
      · rintro (e | objects) hobjects
        · exact nofun
        · obtain ⟨perLeaf, rfl⟩ := hobjects objects rfl
          refine Prog.within_mono (within_signLeaves snapshot.epochId m perLeaf
            snapshot.leaves 0) (fun _ _ h => h) ?_
          intro result hresult minted hminted
          exact fun w hw => (MintedFor.of_mem (hresult minted hminted).entries hw).2.1

/-! ## Rules for programs that move the machine -/

/-- The world is one of the machine's, whatever the job. -/
def Covered (st : Store sdk) (w : World sdk) : Prop :=
  ∃ j, Reach st w j

/-- The machine is at job `j`. -/
abbrev At (st : Store sdk) (j : Job sdk) (w : World sdk) : Prop :=
  Reach st w j

/-- The program takes the machine from job `j` to `Q`. -/
abbrev Moves (st : Store sdk) (j : Job sdk) {α : Type} (p : SealM sdk α)
    (Q : α → World sdk → Prop) : Prop :=
  (serverSemantics sdk).Triple (Covered st) (At st j) p Q

variable {st : Store sdk} {α β : Type}

theorem stable_at (j : Job sdk) : (serverSemantics sdk).Stable (At st j) := by
  rintro w w' hw ⟨batch, did, rfl⟩
  exact .append batch did hw

/-- A fact of the tick in progress stays one. -/
theorem stable_and_at (st : Store sdk) (C : List (Event sdk) → Prop)
    (hC : ∀ ev log, ev.isBoundary = false → C log → C (ev :: log))
    (j : Job sdk) :
    (serverSemantics sdk).Stable fun w => C w.log ∧ At st j w := by
  rintro w w' ⟨hlog, hw⟩ ⟨batch, did, rfl⟩
  exact ⟨hC _ _ rfl hlog, .append batch did hw⟩

theorem covered_of_at {j : Job sdk} : ∀ w, At st j w → Covered st w :=
  fun _ hw => ⟨j, hw⟩

theorem moves_pure {j : Job sdk} {a : α} {Q : α → World sdk → Prop}
    (h : ∀ w, Reach st w j → Q a w) : Moves st j (pure a) Q :=
  triple_pure (stable_at j) covered_of_at h

theorem moves_ask {j : Job sdk} {c : Call sdk} {f : Answer c → SealM sdk α}
    {Q : α → World sdk → Prop} (j' : Answer c → Job sdk)
    (hstep : ∀ r w, Reach st w j → Permitted w c r →
      Reach st (w.after c r) (j' r))
    (hnext : ∀ r, Moves st (j' r) (f r) Q) :
    Moves st j (Prog.ask c >>= f) Q := by
  refine triple_call (fun r => At st (j' r)) (stable_at j) covered_of_at ?_ hnext
  rintro r w w' hw ⟨hperm, rfl⟩
  exact hstep r w hw hperm

/-- A call that depends on a fact of the tick in progress. -/
theorem moves_ask_knowing {C : List (Event sdk) → Prop}
    (hC : ∀ ev log, ev.isBoundary = false → C log → C (ev :: log))
    {j : Job sdk} {c : Call sdk} {f : Answer c → SealM sdk α}
    {Q : α → World sdk → Prop} (j' : Answer c → Job sdk)
    (hstep : ∀ r w, C w.log → Reach st w j → Permitted w c r →
      Reach st (w.after c r) (j' r))
    (hnext : ∀ r, Moves st (j' r) (f r) Q) :
    (serverSemantics sdk).Triple (Covered st) (fun w => C w.log ∧ At st j w)
      (Prog.ask c >>= f) Q := by
  refine triple_call (fun r => At st (j' r)) (stable_and_at st C hC j)
    (fun w hw => ⟨j, hw.2⟩) ?_ hnext
  rintro r w w' ⟨hlog, hw⟩ ⟨hperm, rfl⟩
  exact hstep r w hlog hw hperm

/-- A step of the machine that asks nothing. -/
theorem moves_silent {j : Job sdk} {p : SealM sdk α}
    {Q : α → World sdk → Prop} (j' : Job sdk)
    (hstep : ∀ w, Reach st w j → Reach st w j') (h : Moves st j' p Q) :
    Moves st j p Q :=
  triple_weaken h hstep fun _ _ hq => hq

theorem moves_bind {j : Job sdk} {p : SealM sdk α} {f : α → SealM sdk β}
    {Q : β → World sdk → Prop} (j' : α → Job sdk)
    (hp : Moves st j p (fun a => At st (j' a)))
    (hf : ∀ a, Moves st (j' a) (f a) Q) : Moves st j (p >>= f) Q :=
  triple_bind (fun a => At st (j' a)) hp hf

/-! ## Settling one method -/

/-- The record after the current method is done with. -/
def Settling.done (s : Settling sdk) (rest : List AnchorMethod)
    (record : PendingEpoch sdk) (down : List AnchorMethod) : Settling sdk :=
  { s with record := record, down := down, todo := rest, phase := .ready }

variable {s : Settling sdk} {m : AnchorMethod} {rest : List AnchorMethod}

/-- Where `store_anchor` leaves the machine. -/
theorem moves_storeAnchor {v : TimestampValue} (hphase : s.phase = .unsaved m v) :
    Moves st (.settling s) (storeAnchor s.record) (fun stored => At st
      (.settling
        { s with phase := if stored then .anchored m v else .unsaved m v })) := by
  have hsame : { s with phase := .unsaved m v } = s := by rw [← hphase]
  refine moves_ask
    (fun o => .settling
      { s with phase := if o.isOk then .anchored m v else .unsaved m v })
    (fun o w hw _ => hw.settle (.store hphase)) fun first => ?_
  cases hfirst : first.isOk with
  | true => exact moves_pure fun w hw => by simpa [hfirst] using hw
  | false =>
      refine moves_ask
        (fun o => .settling
          { s with phase := if o.isOk then .anchored m v else .unsaved m v })
        (fun o w hw _ => ?_) fun second => moves_pure fun w hw => hw
      have hw' : Reach st w (.settling s) := by
        simpa [hfirst, hsame] using hw
      exact hw'.settle (.store hphase)

/-- Where step 1 leaves the machine: at the anchor, or past the method. -/
def Settling.obtained (s : Settling sdk) (m : AnchorMethod)
    (rest : List AnchorMethod)
    (out : PendingEpoch sdk × List AnchorMethod × Option TimestampValue) :
    Settling sdk :=
  match out.2.2 with
  | none => s.done rest out.1 out.2.1
  | some v =>
      { s with
        record := out.1, down := out.2.1, todo := rest, phase := .anchored m v }

/-- Where the provider call leaves the machine. -/
def Settling.called (s : Settling sdk) (m : AnchorMethod)
    (rest : List AnchorMethod) : Option TimestampValue → Settling sdk
  | none => s.done rest s.record (m :: s.down)
  | some v =>
      { s with
        todo := rest
        record := s.record.setAnchor m v s.now
        phase := .unsaved m v }

theorem moves_anchorRoot (hat : s.AtMethod m rest) (hcall : s.MayCall m) :
    Moves st (.settling s)
      (anchorRoot s.ctx m s.record.epochId s.record.anchorRoot)
      (fun value? => At st (.settling (s.called m rest value?))) := by
  have hready : s.done rest s.record (m :: s.down) =
      { s with todo := rest, down := m :: s.down } := by
    rw [Settling.done, ← hat.1]
  unfold anchorRoot
  split
  · refine moves_ask
      (fun answer => .settling (s.called m rest answer.toOption)) ?_ ?_
    · rintro (e | v) w hw _
      · have hnext := hw.settle (.refused (e := e) hat hcall)
        rwa [← hready] at hnext
      · exact hw.settle (.obtained hat hcall)
    · rintro (e | v)
      · exact moves_pure fun w hw => hw
      · exact moves_pure fun w hw => hw
  · rename_i hprovider
    refine moves_pure fun w hw => ?_
    have hnext := hw.settle (.unwired hat (by simpa using hprovider))
    rwa [← hready] at hnext

theorem moves_obtainAnchor (hat : s.AtMethod m rest)
    (henabled : m ∈ s.ctx.methods) :
    Moves st (.settling s) (obtainAnchor s.ctx s.record m s.down s.now)
      (fun out => At st (.settling (s.obtained m rest out))) := by
  have hready : { s with todo := rest, phase := .ready } =
      { s with todo := rest } := by rw [hat.1]
  unfold obtainAnchor
  split
  · rename_i value hvalue
    obtain ⟨a, ha, rfl⟩ := Option.map_eq_some_iff.mp hvalue
    exact moves_pure fun w hw => hw.settle (.hold hat henabled ha)
  · rename_i hvalue
    have hnone : s.record.anchorEntry m = none := by
      simpa [PendingEpoch.anchor] using hvalue
    have hskip : ∀ w, ¬ s.MayCall m → Reach st w (.settling s) →
        Reach st w (.settling (s.done rest s.record s.down)) := by
      intro w hcall hw
      have hnext := hw.settle (.skip hat hcall fun _ => hnone)
      rwa [← hready] at hnext
    split
    · rename_i hdown
      exact moves_pure fun w => hskip w fun hcall => hcall.notDown hdown
    · rename_i hdown
      split
      · rename_i hcap
        exact moves_pure fun w => hskip w fun hcall =>
          absurd hcap (UInt32.not_le.mpr hcall.belowCap)
      · rename_i hcap
        have hcall : s.MayCall m :=
          ⟨henabled, hnone, hdown, UInt32.not_le.mp hcap⟩
        refine moves_bind (fun value? => .settling (s.called m rest value?))
          (moves_anchorRoot hat hcall) ?_
        rintro (_ | v)
        · exact moves_pure fun w hw => hw
        · refine moves_bind _
            (moves_storeAnchor (s := s.called m rest (some v)) rfl) fun stored => ?_
          cases stored with
          | true => exact moves_pure fun w hw => hw
          | false =>
              exact moves_pure fun w hw => hw.settle (.giveUp rfl)

/-! ### Minting, checking and acting on the verdict -/

/-- What finishing a batch for one method returns. -/
def FinishedAs (log : List (Event sdk)) (batch : EpochBatch sdk)
    (m : AnchorMethod) (v : TimestampValue)
    (result : Except WitnessError
      (List (AnchorMethod × List (sdk.RevisionLink × AnyRevision sdk)))) :
    Prop :=
  ∀ objects, result = .ok objects → ∃ results perLeaf,
    (objects = [(m, perLeaf)] ∧ (results.zip batch.leaves).mapM
      (fun x => addedTimestamp x.1 x.2) = .ok perLeaf) ∧
    Finished log batch m v results

/-- Finishing the batch for the anchor leaves the machine where it was. -/
theorem moves_finishMethods {v : TimestampValue} (batch : EpochBatch sdk)
    (hphase : s.phase = .anchored m v) :
    Moves st (.settling s)
      (finishMethods batch [(m, MethodAnchorOutcome.fromValue m v)])
      (fun result w => FinishedAs w.log batch m v result ∧
        At st (.settling s) w) := by
  refine triple_call (fun answer w =>
    (∀ results, answer = .ok results → Finished w.log batch m v results) ∧
      At st (.settling s) w) (stable_at _) covered_of_at ?_ ?_
  · rintro answer w w' hw ⟨-, rfl⟩
    refine ⟨?_, hw.settle (.mint hphase rfl)⟩
    rintro results rfl
    exact mem_thisCycle_self rfl
  · intro answer
    have hstable := stable_and_at st
      (fun log => ∀ results, answer = .ok results →
        Finished log batch m v results)
      (fun ev log hev h results hok => mem_thisCycle_cons hev (h results hok))
      (.settling s)
    cases answer with
    | error e =>
        exact triple_pure hstable (fun w hw => ⟨_, hw.2⟩)
          fun w hw => ⟨nofun, hw.2⟩
    | ok results =>
        simp only [Prog.bind]
        split
        · exact triple_pure hstable (fun w hw => ⟨_, hw.2⟩)
            fun w hw => ⟨nofun, hw.2⟩
        · rename_i perLeaf hperLeaf
          refine triple_pure hstable (fun w hw => ⟨_, hw.2⟩) ?_
          rintro w ⟨hfinished, hw⟩
          refine ⟨?_, hw⟩
          rintro objects ⟨⟩
          exact ⟨results, perLeaf, ⟨rfl, hperLeaf⟩, hfinished results rfl⟩

/-- The objects a batch's results add to its leaves, by position. -/
theorem addedTimestamp_of_mapM {results : List (List
      (sdk.RevisionLink × AnyRevision sdk))} {leaves : List Hash32}
    {perLeaf : List (sdk.RevisionLink × AnyRevision sdk)}
    (h : (results.zip leaves).mapM (fun x => addedTimestamp x.1 x.2) =
      .ok perLeaf) {i : Nat} {object : sdk.RevisionLink × AnyRevision sdk}
    (hobject : perLeaf[i]? = some object) :
    ∃ tree leaf, results[i]? = some tree ∧ leaves[i]? = some leaf ∧
      addedTimestamp tree leaf = .ok object := by
  obtain ⟨hlength, hall⟩ := List.forall₂_iff_get.mp (mapM_eq_ok_iff.mp h)
  obtain ⟨hi, rfl⟩ := List.getElem?_eq_some_iff.mp hobject
  have hi' : i < (results.zip leaves).length := hlength ▸ hi
  refine ⟨(results.zip leaves)[i].1, (results.zip leaves)[i].2, ?_, ?_,
    hall i hi' hi⟩
  · have hzip : (results.zip leaves)[i]? = some (results.zip leaves)[i] :=
      List.getElem?_eq_getElem hi'
    exact (List.getElem?_zip_eq_some.mp hzip).1
  · have hzip : (results.zip leaves)[i]? = some (results.zip leaves)[i] :=
      List.getElem?_eq_getElem hi'
    exact (List.getElem?_zip_eq_some.mp hzip).2

/-- Witnesses signed over the objects of a finished batch are minted from
it. -/
theorem SignedLeaves.mintedFrom {log : List (Event sdk)} {v : TimestampValue}
    {snapshot : SealedSnapshot} {batch : EpochBatch sdk}
    {results : List (List (sdk.RevisionLink × AnyRevision sdk))}
    {perLeaf : List (sdk.RevisionLink × AnyRevision sdk)}
    {minted : List (MintedWitness sdk)}
    (h : SignedLeaves snapshot.epochId m perLeaf snapshot.leaves 0 minted)
    (hleaves : snapshot.leaves.map LeafEntry.leaf = batch.leaves)
    (hfinished : Finished log batch m v results)
    (hperLeaf : (results.zip batch.leaves).mapM
      (fun x => addedTimestamp x.1 x.2) = .ok perLeaf) :
    MintedFrom log batch m v minted := by
  refine ⟨results, hfinished, fun i wit hwit => ?_⟩
  obtain ⟨object, hobject, hrevision, hhash⟩ := h.objects i wit hwit
  rw [Nat.zero_add] at hobject
  obtain ⟨tree, leaf, htree, hleaf, hadded⟩ :=
    addedTimestamp_of_mapM hperLeaf hobject
  have hminted : minted.map MintedWitness.leaf = batch.leaves := by
    have hmap := congrArg (List.map fun x => x.2.2.leaf) h.entries
    simp only [List.map_map, Function.comp_def] at hmap
    rw [← hleaves]
    exact hmap
  have hsame : batch.leaves[i]? = some wit.leaf := by
    rw [← hminted, List.getElem?_map, hwit]
    rfl
  obtain rfl : leaf = wit.leaf := Option.some.inj (hleaf.symm.trans hsame)
  exact ⟨tree, object.1, htree, hsame, by rw [hadded, ← hrevision], hhash⟩

/-- What is minted for the record's anchor. -/
def MintedAs (s : Settling sdk) (m : AnchorMethod) (v : TimestampValue)
    (minted : List (MintedWitness sdk)) (log : List (Event sdk)) : Prop :=
  ∃ snapshot batch, s.record.restore = .ok (snapshot, batch) ∧
    MintedFor snapshot m minted ∧ MintedFrom log batch m v minted

theorem MintedAs.cons {v : TimestampValue} {minted : List (MintedWitness sdk)}
    {log : List (Event sdk)} (h : MintedAs s m v minted log) {ev : Event sdk}
    (hev : ev.isBoundary = false) : MintedAs s m v minted (ev :: log) := by
  obtain ⟨snapshot, batch, hrestore, hfor, hfrom⟩ := h
  exact ⟨snapshot, batch, hrestore, hfor, hfrom.cons hev⟩

/-- Signing the objects of the finished batch mints the record's witnesses. -/
theorem moves_signLeaves {v : TimestampValue} {snapshot : SealedSnapshot}
    {batch : EpochBatch sdk}
    {results : List (List (sdk.RevisionLink × AnyRevision sdk))}
    {perLeaf : List (sdk.RevisionLink × AnyRevision sdk)}
    (hphase : s.phase = .anchored m v)
    (hrestore : s.record.restore = .ok (snapshot, batch))
    (hleaves : snapshot.leaves.map LeafEntry.leaf = batch.leaves)
    (hperLeaf : (results.zip batch.leaves).mapM
      (fun x => addedTimestamp x.1 x.2) = .ok perLeaf) :
    (serverSemantics sdk).Triple (Covered st)
      (fun w => Finished w.log batch m v results ∧ At st (.settling s) w)
      (signLeaves snapshot.epochId [(m, perLeaf)] snapshot.leaves 0)
      (fun result w => (∀ minted, result = .ok minted →
        MintedAs s m v minted w.log) ∧ At st (.settling s) w) := by
  have hstable := stable_and_at st (fun log => Finished log batch m v results)
    (fun ev log hev h => mem_thisCycle_cons hev h) (.settling s)
  have hsign := triple_within (I := Covered st) hstable
    (fun w hw => ⟨_, hw.2⟩) ?_
    (within_signLeaves snapshot.epochId m perLeaf snapshot.leaves 0)
  · refine triple_weaken hsign (fun w hw => hw) ?_
    rintro result w ⟨hsigned, hfinished, hw⟩
    refine ⟨fun minted hminted => ?_, hw⟩
    have hleaf := hsigned minted hminted
    exact ⟨snapshot, batch, hrestore, hleaf.entries,
      hleaf.mintedFrom hleaves hfinished hperLeaf⟩
  · rintro c answer w w' hminting ⟨hfinished, hw⟩ ⟨-, rfl⟩
    exact ⟨mem_thisCycle_cons rfl hfinished,
      hw.settle (.mint hphase hminting)⟩

/-- Minting leaves the machine where it was, with the witnesses of the record's
anchor when it succeeds. -/
theorem moves_mintFrom {v : TimestampValue} (hphase : s.phase = .anchored m v) :
    Moves st (.settling s) (mintFrom s.record m v)
      (fun result w => (∀ minted, result = .ok minted →
        MintedAs s m v minted w.log) ∧ At st (.settling s) w) := by
  unfold mintFrom
  split
  · exact moves_pure fun w hw => ⟨nofun, hw⟩
  · rename_i snapshot batch hrestore
    unfold mintWitnessesForEpoch
    split
    · exact moves_pure fun w hw => ⟨nofun, hw⟩
    · rename_i hleaves
      refine triple_bind _ (moves_finishMethods batch hphase) ?_
      rintro (e | objects)
      · exact triple_weaken (moves_pure fun w hw => ⟨nofun, hw⟩)
          (fun w hw => hw.2) fun _ _ hpost => hpost
      · -- The producer's answer is known from here on.
        have hsigns : (serverSemantics sdk).Triple (Covered st)
            (fun w => ∃ results perLeaf,
              (objects = [(m, perLeaf)] ∧ (results.zip batch.leaves).mapM
                (fun x => addedTimestamp x.1 x.2) = .ok perLeaf) ∧
              Finished w.log batch m v results ∧ At st (.settling s) w)
            (signLeaves snapshot.epochId objects snapshot.leaves 0)
            (fun result w => (∀ minted, result = .ok minted →
              MintedAs s m v minted w.log) ∧ At st (.settling s) w) := by
          refine triple_exists fun results => triple_exists fun perLeaf =>
            triple_of_pre ?_
          rintro ⟨rfl, hperLeaf⟩
          exact moves_signLeaves hphase hrestore (not_not.mp hleaves) hperLeaf
        refine triple_weaken hsigns ?_ fun _ _ hpost => hpost
        rintro w ⟨hfinished, hw⟩
        obtain ⟨results, perLeaf, hpure, hlog⟩ := hfinished objects rfl
        exact ⟨results, perLeaf, hpure, hlog, hw⟩

theorem moves_settleMissing {v : TimestampValue} {reason : String}
    {minted : List (MintedWitness sdk)}
    (hphase : s.phase = .judged m v minted (some (.missing reason))) :
    Moves st (.settling s) (settleMissing s.ctx s.record m s.now)
      (fun record => At st (.settling (s.done s.todo record s.down))) := by
  unfold settleMissing
  split
  · rename_i hseen
    have hnone : s.record.anchorEntry m = none := by
      simpa [PendingEpoch.anchorFirstSeen] using hseen
    exact moves_pure fun w hw => hw.settle
      (.keep hphase (fun _ _ => hnone) (fun _ h => nomatch h))
  · rename_i firstSeen changed seen hseen
    obtain ⟨a, ha, hout⟩ := Option.map_eq_some_iff.mp hseen
    have hfirst : firstSeen = a.firstSeen.getD s.now ∧
        changed = !a.firstSeen.isSome ∧
        seen = if a.firstSeen.isSome then s.record
          else s.record.touchAnchor m s.now := by
      cases hf : a.firstSeen with
      | none =>
          simp only [hf, Prod.mk.injEq] at hout
          obtain ⟨⟨rfl, rfl⟩, rfl⟩ := hout
          simp
      | some t =>
          simp only [hf, Prod.mk.injEq] at hout
          obtain ⟨⟨rfl, rfl⟩, rfl⟩ := hout
          simp
    obtain ⟨rfl, rfl, rfl⟩ := hfirst
    split
    · rename_i hyoung
      refine moves_silent _ (fun w hw => hw.settle (.wait hphase ha hyoung)) ?_
      cases hf : a.firstSeen.isSome with
      | true => exact moves_pure fun w hw => hw
      | false =>
          exact moves_ask (fun _ => _)
            (fun o w hw _ => hw.settle (.resave rfl))
            fun _ => moves_pure fun w hw => hw
    · rename_i hold
      refine moves_silent _
        (fun w hw => hw.settle (.abandon hphase ha (Nat.not_lt.mp hold))) ?_
      cases hf : a.firstSeen.isSome with
      | true =>
          exact moves_ask (fun _ => _)
            (fun o w hw _ => hw.settle (.resave rfl))
            fun _ => moves_pure fun w hw => hw
      | false =>
          exact moves_ask (fun _ => _)
            (fun o w hw _ => hw.settle (.resave rfl))
            fun _ => moves_pure fun w hw => hw

theorem moves_settleVerdict {v : TimestampValue}
    {minted : List (MintedWitness sdk)} {verdict : Option SelfCheckVerdict}
    (hphase : s.phase = .judged m v minted verdict) :
    Moves st (.settling s)
      (settleVerdict s.ctx s.record m s.down s.now minted verdict)
      (fun out => At st (.settling (s.done s.todo out.1 out.2.1))) := by
  match verdict, hphase with
  | none, hphase =>
      refine moves_ask
        (fun o => .settling (s.done s.todo
          (if o.isOk then s.record.without m else s.record) s.down))
        (fun o w hw hperm => hw.settle (.serve hphase hperm)) fun o => ?_
      cases ho : o.isOk with
      | true => exact moves_pure fun w hw => by simpa [ho] using hw
      | false => exact moves_pure fun w hw => by simpa [ho] using hw
  | some (.missing reason), hphase =>
      exact moves_bind _ (moves_settleMissing hphase)
        fun record => moves_pure fun w hw => hw
  | some (.failed reason true), hphase =>
      refine moves_silent _ (fun w hw => hw.settle (.blame hphase)) ?_
      exact moves_ask (fun _ => _) (fun o w hw _ => hw.settle (.resave rfl))
        fun _ => moves_pure fun w hw => hw
  | some (.failed reason false), hphase =>
      exact moves_pure fun w hw => hw.settle
        (.keep hphase (fun _ h => nomatch h) (fun _ h => nomatch h))
  | some (.notYet reason), hphase =>
      exact moves_pure fun w hw => hw.settle
        (.keep hphase (fun _ h => nomatch h) (fun _ h => nomatch h))
  | some .verified, hphase =>
      exact moves_pure fun w hw => hw.settle
        (.keep hphase (fun _ h => nomatch h) (fun _ h => nomatch h))

/-- `settle_method` takes the machine past its method. -/
theorem moves_settleMethod (hat : s.AtMethod m rest) :
    Moves st (.settling s) (settleMethod s.ctx s.record m s.down s.now)
      (fun out => At st (.settling (s.done rest out.1 out.2.1))) := by
  unfold settleMethod
  split
  · rename_i hdisabled
    have hready : ({ s with todo := rest } : Settling sdk) =
        s.done rest s.record s.down := by
      rw [Settling.done, ← hat.1]
    refine moves_pure fun w hw => ?_
    have hnext := hw.settle (.skip hat (fun hcall => hdisabled hcall.enabled)
      fun hm => absurd hm hdisabled)
    rwa [hready] at hnext
  · rename_i henabled
    refine moves_bind _ (moves_obtainAnchor hat (not_not.mp henabled)) ?_
    rintro ⟨record, down, _ | v⟩
    · exact moves_pure fun w hw => hw
    · refine triple_bind _ (moves_mintFrom rfl) ?_
      rintro (e | minted)
      · exact triple_weaken
          (moves_pure fun w hw => hw.settle (.mintFailed rfl))
          (fun w hw => hw.2) fun _ _ hpost => hpost
      · refine triple_weaken (moves_ask_knowing (C := MintedAs
            (s.obtained m rest (record, down, some v)) m v minted)
            (fun ev log hev h => h.cons hev) _
            (fun answer w ⟨snapshot, batch, hrestore, hfor, hfrom⟩ hw _ =>
              hw.settle (.judge rfl hrestore hfor hfrom))
            fun answer => moves_settleVerdict rfl)
          (fun w hw => ⟨hw.1 minted rfl, hw.2⟩) fun _ _ hpost => hpost

/-! ## The seal cycle -/

/-- The loop over a record's methods takes the machine through all of them. -/
theorem moves_settleMethods (todo : List AnchorMethod) :
    ∀ s : Settling sdk, s.phase = .ready → s.todo = todo →
      Moves st (.settling s) (settleMethods s.ctx s.now todo s.record s.down)
        (fun out => At st (.settling (s.done [] out.1 out.2.1))) := by
  induction todo with
  | nil =>
      intro s hphase htodo
      refine moves_pure fun w hw => ?_
      rwa [show s.done [] s.record s.down = s by
        rw [Settling.done, ← hphase, ← htodo]]
  | cons m todo ih =>
      intro s hphase htodo
      refine moves_bind _ (moves_settleMethod ⟨hphase, htodo⟩) fun out => ?_
      refine moves_bind _
        (ih (s.done todo out.1 out.2.1) rfl rfl) fun out' => ?_
      exact moves_pure fun w hw => hw

theorem moves_retryEach {ctx : WitnessContext} {now durationSecs : Nat}
    (queue : List (PendingEpoch sdk)) (down : List AnchorMethod) :
    Moves st (.retrying (some ctx) now durationSecs down queue)
      (retryEach ctx now queue down)
      (fun out => At st (.retrying (some ctx) now durationSecs out.2 [])) := by
  induction queue generalizing down with
  | nil => exact moves_pure fun w hw => hw
  | cons p queue ih =>
      refine moves_silent _ (fun w hw => hw.visit) ?_
      refine moves_bind _
        (moves_settleMethods p.methods
          ⟨ctx, now, durationSecs, down, some queue, p, p.methods, .ready⟩
          rfl rfl) fun out => ?_
      refine moves_silent _ (fun w hw => hw.leave rfl rfl rfl) ?_
      exact moves_bind _ (ih out.2.1) fun more => moves_pure fun w hw => hw

theorem moves_retryPending {ctx : WitnessContext} {now durationSecs : Nat} :
    Moves st (.entered (some ctx) now durationSecs) (retryPending ctx now)
      (fun out => At st (.retrying (some ctx) now durationSecs out.2 [])) := by
  refine moves_ask _ (fun answer w hw hperm => hw.list hperm) ?_
  rintro (e | queue)
  · exact moves_pure fun w hw => hw
  · exact moves_retryEach queue []

/-- The part of `seal_once` after the batch of the closed epoch is there. -/
def sealBatch (ctx : Option WitnessContext) (now : Nat)
    (witnesses : List (MintedWitness sdk)) (down : List AnchorMethod)
    (snapshot : SealedSnapshot) (batch : Option (EpochBatch sdk)) :
    SealM sdk (Except SealError (EpochRecord × List (MintedWitness sdk))) :=
  match buildRecord snapshot batch with
  | .error e => pure (.error (.witness e))
  | .ok record => do
      let pending := pendingFor ctx snapshot batch
      let outcome ← SealM.persistSealedEpoch record snapshot.leaves [] pending
      match outcome.result with
      | .error e => pure (.error (.store e))
      | .ok _ =>
          match ctx, pending with
          | some ctx, some pending => do
              let (_, _, minted) ←
                settleMethods ctx now pending.methods pending down
              pure (.ok (record, witnesses ++ minted))
          | _, _ => pure (.ok (record, witnesses))

theorem sealSnapshot_eq (ctx : Option WitnessContext) (now : Nat)
    (witnesses : List (MintedWitness sdk)) (down : List AnchorMethod)
    (snapshot : SealedSnapshot) :
    sealSnapshot ctx now witnesses down snapshot =
      prepare (snapshot.leaves.map LeafEntry.leaf) >>= fun
        | .error e => pure (.error (.witness e))
        | .ok batch => sealBatch ctx now witnesses down snapshot batch :=
  rfl

theorem moves_sealBatch {ctx : Option WitnessContext}
    {now durationSecs : Nat} {down : List AnchorMethod}
    {witnesses : List (MintedWitness sdk)} {snapshot : SealedSnapshot}
    {prepared : Option (Except String sdk.PreparedBatch)}
    {batch : Option (EpochBatch sdk)}
    (hbatch : Batched snapshot prepared batch) :
    Moves st (.closing ctx now durationSecs down snapshot prepared)
      (sealBatch ctx now witnesses down snapshot batch)
      (fun _ => At st .idle) := by
  unfold sealBatch
  split
  · rename_i e herror
    refine moves_pure fun w hw => ?_
    rcases hbatch with ⟨-, rfl⟩ | ⟨-, p, rfl, rfl⟩
    · cases herror
    · refine hw.fail ?_
      rintro _ ⟨⟩
      exact ⟨e, herror⟩
  · rename_i record hrecord
    refine moves_ask _ (fun o w hw hperm => hw.persist hbatch hrecord hperm)
      fun o => ?_
    cases o with
    | failed e => exact moves_pure fun w hw => hw
    | unsynced e => exact moves_pure fun w hw => hw
    | ok =>
        dsimp only [WriteOutcome.result]
        match ctx, pendingFor ctx snapshot batch with
        | some ctx, some p =>
            refine moves_bind _
              (moves_settleMethods p.methods
                ⟨ctx, now, durationSecs, down, none, p, p.methods, .ready⟩
                rfl rfl) fun out => ?_
            exact moves_pure fun w hw => hw.finish rfl rfl rfl
        | none, _ => exact moves_pure fun w hw => hw
        | some _, none => exact moves_pure fun w hw => hw

/-- From the closed epoch to the end of the cycle. -/
theorem moves_sealSnapshot {ctx : Option WitnessContext}
    {now durationSecs : Nat} {down : List AnchorMethod}
    {witnesses : List (MintedWitness sdk)} (snapshot : SealedSnapshot) :
    Moves st (.closing ctx now durationSecs down snapshot none)
      (sealSnapshot ctx now witnesses down snapshot)
      (fun _ => At st .idle) := by
  rw [sealSnapshot_eq]
  unfold prepare
  by_cases hempty : snapshot.leaves = []
  · rw [if_pos (by simp [hempty])]
    exact moves_sealBatch (Or.inl ⟨hempty, rfl⟩)
  · rw [if_neg (by simp [hempty])]
    refine moves_ask _ (fun answer w hw _ => hw.prepare hempty) ?_
    rintro (e | p)
    · exact moves_pure fun w hw => hw.fail (by rintro _ ⟨⟩)
    · exact moves_sealBatch (Or.inr ⟨hempty, p, rfl, rfl⟩)

theorem moves_sealOnce {ctx : Option WitnessContext}
    {now durationSecs : Nat} :
    Moves st (.entered ctx now durationSecs) (sealOnce now durationSecs ctx)
      (fun _ => At st .idle) := by
  unfold sealOnce
  split
  · refine moves_silent _ (fun w hw => hw.plain) ?_
    refine triple_call
      (fun snapshot => At st (.closing none now durationSecs [] snapshot none))
      (stable_at _) covered_of_at ?_ fun snapshot => moves_sealSnapshot snapshot
    rintro snapshot w w' hw ⟨rfl, rfl⟩
    exact hw.swap
  · rename_i ctx
    split
    · exact moves_pure fun w hw => hw.refuse
    · refine moves_bind _ moves_retryPending fun out => ?_
      refine triple_call
        (fun snapshot =>
          At st (.closing (some ctx) now durationSecs out.2 snapshot none))
        (stable_at _) covered_of_at ?_ fun snapshot => moves_sealSnapshot snapshot
      rintro snapshot w w' hw ⟨rfl, rfl⟩
      exact hw.swap

/-! ## Every run is a run of the machine -/

theorem reach_of_reachable {w : World sdk} (h : Reachable st w) :
    Reach st w .idle := by
  induction h with
  | boot now durationSecs => exact .boot now durationSecs
  | append batch did _ ih => exact ih.append batch did
  | cycle _ hdistinct hcycle ih =>
      exact (moves_sealOnce _ _ _ (ih.tick _ _ hdistinct) hcycle).2 _ rfl
  | restart now durationSecs _ ih => exact ih.restart now durationSecs
  | crash now' durationSecs' _ hdistinct hcycle ih =>
      obtain ⟨j, hj⟩ :=
        (moves_sealOnce _ _ _ (ih.tick _ _ hdistinct) hcycle).1 rfl
      exact hj.restart now' durationSecs'

/-- The refinement: at any moment of any run of the server, the world is one
of the settlement machine's. -/
theorem reach_of_visited {w : World sdk} (h : Visited st w) :
    ∃ j, Reach st w j := by
  cases h with
  | between h => exact ⟨.idle, reach_of_reachable h⟩
  | during h hdistinct hcycle =>
      exact (moves_sealOnce _ _ _
        ((reach_of_reachable h).tick _ _ hdistinct) hcycle).1 rfl

end AquaTimestamp
