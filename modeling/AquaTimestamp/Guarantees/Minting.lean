import AquaTimestamp.Model.Sample
import AquaTimestamp.Settlement.Refinement

/-!
# Whose witness is minted

The minter matches three lists by position: the leaves of the snapshot, the
leaves of the batch and the producer's results, for any number of methods.
Whatever the producer puts into its results, a witness carries an object that
is chained to its own leaf, or nothing is minted at all.
-/

namespace AquaTimestamp

open Support Prog

variable {sdk : Sdk}

/-- The program stands before a panic. -/
def Panics {α : Type} (q : SealM sdk α) : Prop :=
  ∃ next, q = .call .panicked next

/-- A sequence that waits for an answer panics when its first part does. -/
theorem panics_bind {α β : Type} {c : Call sdk} {next : Answer c → SealM sdk α}
    {f : α → SealM sdk β} (h : Panics (.call c next >>= f)) :
    Panics (.call c next) := by
  obtain ⟨_, hnext⟩ := h
  cases hnext
  exact ⟨_, rfl⟩

/-! ## One witness -/

/-- The witness of a leaf and a method over one object, with the call that
signed it. -/
structure SignedAs (epochId : Nat) (entry : LeafEntry) (method : AnchorMethod)
    (object : sdk.RevisionLink × AnyRevision sdk)
    (x : (c : Call sdk) × Answer c) (w : MintedWitness sdk) : Prop where
  leaf : w.leaf = entry.leaf
  submitterDid : w.submitterDid = entry.submitterDid
  epochId : w.epochId = epochId
  method : w.method = method
  objectRevision : w.objectRevision = object.2
  signature : ∃ sig, x = ⟨.signRevision object.1, .ok sig⟩ ∧
    w.signatureRevision = .signature sig

theorem leads_signWitness {entry : LeafEntry} {epochId : Nat}
    {method : AnchorMethod} {object : sdk.RevisionLink × AnyRevision sdk}
    {t : SealTrace sdk} {q : SealM sdk (Except WitnessError (MintedWitness sdk))}
    (h : Leads (signWitness entry epochId method object.1 object.2) t q) :
    ¬ Panics q ∧ ∀ w, q = .pure (.ok w) →
      ∃ x, t = [x] ∧ SignedAs epochId entry method object x w := by
  have hpure : ∀ {e : WitnessError}
      {q : SealM sdk (Except WitnessError (MintedWitness sdk))},
      q = .pure (.error e) → ¬ Panics q ∧ ∀ w, q = .pure (.ok w) →
        ∃ x, t = [x] ∧ SignedAs epochId entry method object x w := by
    rintro e _ rfl
    exact ⟨nofun, nofun⟩
  unfold signWitness at h
  split at h
  · exact hpure (leads_pure h).2
  · rcases leads_call h with ⟨rfl, rfl⟩ | ⟨answer, t', rfl, hrest⟩
    · refine ⟨?_, nofun⟩
      rintro ⟨next, ⟨⟩⟩
    · cases answer with
      | error e => exact hpure (leads_pure hrest).2
      | ok sig =>
          dsimp only [Prog.bind] at hrest
          split at hrest
          · exact hpure (leads_pure hrest).2
          · split at hrest
            · exact hpure (leads_pure hrest).2
            · obtain ⟨rfl, rfl⟩ := leads_pure hrest
              refine ⟨nofun, ?_⟩
              rintro w ⟨⟩
              exact ⟨_, rfl, rfl, rfl, rfl, rfl, rfl, sig, rfl, rfl⟩

/-! ## The witnesses of one leaf -/

/-- The witnesses of the leaf at position `i`, one for each method, with the
calls that signed them. -/
structure SignedMethods (epochId : Nat) (entry : LeafEntry) (i : Nat)
    (objects : List (AnchorMethod × List (sdk.RevisionLink × AnyRevision sdk)))
    (t : SealTrace sdk) (ws : List (MintedWitness sdk)) : Prop where
  calls : t.length = objects.length
  witnesses : ws.length = objects.length
  signed : ∀ (j : Nat) m perLeaf, objects[j]? = some (m, perLeaf) →
    ∃ object x w, perLeaf[i]? = some object ∧ t[j]? = some x ∧
      ws[j]? = some w ∧ SignedAs epochId entry m object x w

theorem leads_signLeaf {entry : LeafEntry} {epochId i : Nat}
    {objects : List (AnchorMethod × List (sdk.RevisionLink × AnyRevision sdk))}
    {t : SealTrace sdk}
    {q : SealM sdk (Except WitnessError (List (MintedWitness sdk)))}
    (h : Leads (signLeaf epochId entry i objects) t q)
    (hlong : ∀ x ∈ objects, i < x.2.length) :
    ¬ Panics q ∧ ∀ ws, q = .pure (.ok ws) →
      SignedMethods epochId entry i objects t ws := by
  induction objects generalizing t q with
  | nil =>
      obtain ⟨rfl, rfl⟩ := leads_pure h
      refine ⟨by rintro ⟨_, ⟨⟩⟩, ?_⟩
      rintro ws ⟨⟩
      exact ⟨rfl, rfl, by simp⟩
  | cons head rest ih =>
      obtain ⟨method, perLeaf⟩ := head
      have hi : i < perLeaf.length := hlong _ (List.mem_cons_self ..)
      have hobject : perLeaf[i]? = some perLeaf[i] := List.getElem?_eq_getElem hi
      simp only [signLeaf, hobject] at h
      rcases leads_bind h with ⟨c, next, hp, rfl⟩ | ⟨result, t₁, t₂, rfl, hp, hrest⟩
      · exact ⟨fun hpanics => (leads_signWitness hp).1 (panics_bind hpanics), by rintro _ ⟨⟩⟩
      cases result with
      | error e =>
          obtain ⟨-, rfl⟩ := leads_pure hrest
          exact ⟨by rintro ⟨_, ⟨⟩⟩, by rintro _ ⟨⟩⟩
      | ok w =>
          obtain ⟨x, rfl, hsigned⟩ := (leads_signWitness hp).2 w rfl
          have hlong' : ∀ x ∈ rest, i < x.2.length :=
            fun x hx => hlong x (List.mem_cons_of_mem _ hx)
          rcases leads_bind hrest with
            ⟨c, next, hp', rfl⟩ | ⟨result, t₃, t₄, rfl, hp', hlast⟩
          · exact ⟨fun hpanics => (ih hp' hlong').1 (panics_bind hpanics), by rintro _ ⟨⟩⟩
          cases result with
          | error e =>
              obtain ⟨-, rfl⟩ := leads_pure hlast
              exact ⟨by rintro ⟨_, ⟨⟩⟩, by rintro _ ⟨⟩⟩
          | ok more =>
              obtain ⟨rfl, rfl⟩ := leads_pure hlast
              refine ⟨by rintro ⟨_, ⟨⟩⟩, ?_⟩
              rintro ws ⟨⟩
              have hmore := (ih hp' hlong').2 more rfl
              rw [List.append_nil]
              refine ⟨?_, ?_, ?_⟩
              · simp [hmore.calls]
              · simp [hmore.witnesses]
              · rintro (_ | j) m perLeaf' hget
                · cases hget
                  exact ⟨_, x, w, hobject, rfl, rfl, hsigned⟩
                · exact hmore.signed j m perLeaf' hget

/-! ## The witnesses of all leaves -/

/-- The witnesses of the leaves from position `i` on, leaf by leaf. -/
structure SignedLeafMajor (epochId : Nat) (entries : List LeafEntry) (i : Nat)
    (objects : List (AnchorMethod × List (sdk.RevisionLink × AnyRevision sdk)))
    (t : SealTrace sdk) (ws : List (MintedWitness sdk)) : Prop where
  calls : t.length = entries.length * objects.length
  witnesses : ws.length = entries.length * objects.length
  signed : ∀ (n j : Nat) entry m perLeaf, entries[n]? = some entry →
    objects[j]? = some (m, perLeaf) →
    ∃ object x w, perLeaf[i + n]? = some object ∧
      t[n * objects.length + j]? = some x ∧
      ws[n * objects.length + j]? = some w ∧
      SignedAs epochId entry m object x w

theorem SignedMethods.append {epochId i : Nat} {entry : LeafEntry}
    {entries : List LeafEntry}
    {objects : List (AnchorMethod × List (sdk.RevisionLink × AnyRevision sdk))}
    {t t' : SealTrace sdk} {ws more : List (MintedWitness sdk)}
    (h : SignedMethods epochId entry i objects t ws)
    (hmore : SignedLeafMajor epochId entries (i + 1) objects t' more) :
    SignedLeafMajor epochId (entry :: entries) i objects (t ++ t') (ws ++ more) := by
  refine ⟨?_, ?_, ?_⟩
  · rw [List.length_append, h.calls, hmore.calls, List.length_cons, Nat.succ_mul,
      Nat.add_comm]
  · rw [List.length_append, h.witnesses, hmore.witnesses, List.length_cons,
      Nat.succ_mul, Nat.add_comm]
  · intro n j entry' m perLeaf hentry hobjects
    have hj : j < objects.length := (List.getElem?_eq_some_iff.mp hobjects).1
    cases n with
    | zero =>
        cases hentry
        obtain ⟨object, x, w, hobject, hx, hw, hsigned⟩ := h.signed j m perLeaf hobjects
        rw [Nat.zero_mul, Nat.zero_add, Nat.add_zero,
          List.getElem?_append_left (h.calls ▸ hj),
          List.getElem?_append_left (h.witnesses ▸ hj)]
        exact ⟨object, x, w, hobject, hx, hw, hsigned⟩
    | succ n =>
        obtain ⟨object, x, w, hobject, hx, hw, hsigned⟩ :=
          hmore.signed n j entry' m perLeaf hentry hobjects
        -- The first leaf takes one place for each method.
        have hplace : (n + 1) * objects.length + j =
            objects.length + (n * objects.length + j) := by
          rw [Nat.succ_mul]
          omega
        refine ⟨object, x, w, ?_, ?_, ?_, hsigned⟩
        · rw [← hobject]
          congr 1
          omega
        · rw [hplace, ← h.calls, List.getElem?_append_right (Nat.le_add_right _ _),
            Nat.add_sub_cancel_left, h.calls]
          exact hx
        · rw [hplace, ← h.witnesses, List.getElem?_append_right (Nat.le_add_right _ _),
            Nat.add_sub_cancel_left, h.witnesses]
          exact hw

theorem leads_signLeaves {entries : List LeafEntry} {epochId i : Nat}
    {objects : List (AnchorMethod × List (sdk.RevisionLink × AnyRevision sdk))}
    {t : SealTrace sdk}
    {q : SealM sdk (Except WitnessError (List (MintedWitness sdk)))}
    (h : Leads (signLeaves epochId objects entries i) t q)
    (hlong : ∀ x ∈ objects, i + entries.length ≤ x.2.length) :
    ¬ Panics q ∧ ∀ ws, q = .pure (.ok ws) →
      SignedLeafMajor epochId entries i objects t ws := by
  induction entries generalizing i t q with
  | nil =>
      obtain ⟨rfl, rfl⟩ := leads_pure h
      refine ⟨nofun, ?_⟩
      rintro ws ⟨⟩
      exact ⟨by simp, by simp, nofun⟩
  | cons entry entries ih =>
      rw [List.length_cons] at hlong
      have hhead : ∀ x ∈ objects, i < x.2.length := by
        intro x hx
        have hx := hlong x hx
        omega
      have htail : ∀ x ∈ objects, i + 1 + entries.length ≤ x.2.length := by
        intro x hx
        have hx := hlong x hx
        omega
      rcases leads_bind h with ⟨c, next, hp, rfl⟩ | ⟨result, t₁, t₂, rfl, hp, hrest⟩
      · exact ⟨fun hpanics => (leads_signLeaf hp hhead).1 (panics_bind hpanics),
          nofun⟩
      cases result with
      | error e =>
          obtain ⟨-, rfl⟩ := leads_pure hrest
          exact ⟨nofun, nofun⟩
      | ok ws =>
          have hws := (leads_signLeaf hp hhead).2 ws rfl
          rcases leads_bind hrest with
            ⟨c, next, hp', rfl⟩ | ⟨result, t₃, t₄, rfl, hp', hlast⟩
          · exact ⟨fun hpanics => (ih hp' htail).1 (panics_bind hpanics), nofun⟩
          cases result with
          | error e =>
              obtain ⟨-, rfl⟩ := leads_pure hlast
              exact ⟨nofun, nofun⟩
          | ok more =>
              obtain ⟨rfl, rfl⟩ := leads_pure hlast
              refine ⟨nofun, ?_⟩
              rintro _ ⟨⟩
              rw [List.append_nil]
              exact hws.append ((ih hp' htail).2 more rfl)

/-! ## The objects of the batch -/

/-- Every answer of the producer has one result for each target. -/
def OneResultPerTarget (t : SealTrace sdk) : Prop :=
  ∀ prepared targets facts results,
    ⟨.finishBatchTimestamp prepared targets facts, .ok results⟩ ∈ t →
      results.length = targets.length

/-- The objects of each method, with the calls that finished them. -/
structure FinishedEach (batch : EpochBatch sdk)
    (outcomes : List (AnchorMethod × MethodAnchorOutcome)) (t : SealTrace sdk)
    (objects : List (AnchorMethod × List (sdk.RevisionLink × AnyRevision sdk))) :
    Prop where
  calls : t.length = outcomes.length
  count : objects.length = outcomes.length
  finished : ∀ (j : Nat) m outcome, outcomes[j]? = some (m, outcome) →
    ∃ results perLeaf, t[j]? = some ⟨.finishBatchTimestamp batch.prepared
        batch.targets (outcome.facts m batch.anchorRoot), .ok results⟩ ∧
      (results.zip batch.leaves).mapM (fun x => addedTimestamp x.1 x.2) =
        .ok perLeaf ∧
      objects[j]? = some (m, perLeaf)

theorem leads_finishMethods {batch : EpochBatch sdk}
    {outcomes : List (AnchorMethod × MethodAnchorOutcome)} {t : SealTrace sdk}
    {q : SealM sdk (Except WitnessError
      (List (AnchorMethod × List (sdk.RevisionLink × AnyRevision sdk))))}
    (h : Leads (finishMethods batch outcomes) t q) :
    ¬ Panics q ∧ ∀ objects, q = .pure (.ok objects) →
      FinishedEach batch outcomes t objects := by
  induction outcomes generalizing t q with
  | nil =>
      obtain ⟨rfl, rfl⟩ := leads_pure h
      refine ⟨nofun, ?_⟩
      rintro objects ⟨⟩
      exact ⟨rfl, rfl, nofun⟩
  | cons head rest ih =>
      obtain ⟨method, outcome⟩ := head
      rcases leads_call h with ⟨rfl, rfl⟩ | ⟨answer, t', rfl, hanswer⟩
      · refine ⟨?_, nofun⟩
        rintro ⟨next, ⟨⟩⟩
      cases answer with
      | error e =>
          obtain ⟨-, rfl⟩ := leads_pure hanswer
          exact ⟨nofun, nofun⟩
      | ok results =>
          dsimp only [Prog.bind] at hanswer
          split at hanswer
          · obtain ⟨-, rfl⟩ := leads_pure hanswer
            exact ⟨nofun, nofun⟩
          · rename_i perLeaf hperLeaf
            rcases leads_bind hanswer with
              ⟨c, next, hp, rfl⟩ | ⟨result, t₁, t₂, rfl, hp, hlast⟩
            · exact ⟨fun hpanics => (ih hp).1 (panics_bind hpanics), nofun⟩
            cases result with
            | error e =>
                obtain ⟨-, rfl⟩ := leads_pure hlast
                exact ⟨nofun, nofun⟩
            | ok more =>
                obtain ⟨rfl, rfl⟩ := leads_pure hlast
                refine ⟨nofun, ?_⟩
                rintro _ ⟨⟩
                have hmore := (ih hp).2 more rfl
                rw [List.append_nil]
                refine ⟨?_, ?_, ?_⟩
                · simp [hmore.calls]
                · simp [hmore.count]
                · rintro (_ | j) m outcome' hget
                  · cases hget
                    exact ⟨results, perLeaf, rfl, hperLeaf, rfl⟩
                  · exact hmore.finished j m outcome' hget

/-- The object of a leaf is the one revision its result added, a typed object
on the leaf. -/
theorem addedTimestamp_eq_ok {tree : List (sdk.RevisionLink × AnyRevision sdk)}
    {leaf : Hash32} {object : sdk.RevisionLink × AnyRevision sdk}
    (h : addedTimestamp tree leaf = .ok object) :
    ∃ link typed, object = (link, .typed typed) ∧
      (tree.filter fun x => x.1 ≠ sdk.linkFromBytes leaf) = [(link, .typed typed)] ∧
      sdk.objectPrevious typed = some (sdk.linkFromBytes leaf) := by
  unfold addedTimestamp at h
  split at h
  · cases h
  · rename_i link typed hadded
    split at h
    · rename_i hprevious
      cases h
      exact ⟨link, typed, rfl, hadded, hprevious⟩
    · cases h
  · cases h
  · cases h

/-! ## The whole epoch -/

section Epoch

variable {snapshot : SealedSnapshot} {batch : EpochBatch sdk}
variable {outcomes : List (AnchorMethod × MethodAnchorOutcome)}
variable {t : SealTrace sdk}
variable {q : SealM sdk (Except WitnessError (List (MintedWitness sdk)))}

/-- The witness of a leaf is minted from the producer's result at the leaf's
place, over the one object that result adds to the leaf. -/
structure Attributed (snapshot : SealedSnapshot) (batch : EpochBatch sdk)
    (entry : LeafEntry) (i : Nat) (method : AnchorMethod)
    (outcome : MethodAnchorOutcome)
    (finish sign : (c : Call sdk) × Answer c) (w : MintedWitness sdk) : Prop where
  object : ∃ results tree link typed,
    finish = ⟨.finishBatchTimestamp batch.prepared batch.targets
      (outcome.facts method batch.anchorRoot), .ok results⟩ ∧
    results[i]? = some tree ∧
    (tree.filter fun x => x.1 ≠ sdk.linkFromBytes entry.leaf) =
      [(link, .typed typed)] ∧
    sdk.objectPrevious typed = some (sdk.linkFromBytes entry.leaf) ∧
    w.objectRevision = .typed typed ∧
    ∃ sig, sign = ⟨.signRevision link, .ok sig⟩ ∧
      w.signatureRevision = .signature sig
  leaf : w.leaf = entry.leaf
  submitterDid : w.submitterDid = entry.submitterDid
  epochId : w.epochId = snapshot.epochId
  method : w.method = method

/-- The objects of a method reach as far as the batch. -/
theorem FinishedEach.length_objects {t₁ t₂ : SealTrace sdk}
    {objects : List (AnchorMethod × List (sdk.RevisionLink × AnyRevision sdk))}
    (h : FinishedEach batch outcomes t₁ objects)
    (hcount : OneResultPerTarget (t₁ ++ t₂)) :
    ∀ x ∈ objects, x.2.length = batch.leaves.length := by
  rintro ⟨m, perLeaf⟩ hx
  obtain ⟨j, hj, hget⟩ := List.mem_iff_getElem.mp hx
  have hj' : j < outcomes.length := h.count ▸ hj
  obtain ⟨results, perLeaf', hcall, hmap, hobjects⟩ := h.finished j
    outcomes[j].1 outcomes[j].2 (List.getElem?_eq_getElem hj')
  rw [List.getElem?_eq_getElem hj, hget] at hobjects
  cases hobjects
  have hresults : results.length = batch.leaves.length := by
    rw [hcount _ _ _ _ (List.mem_append_left _ (List.mem_of_getElem? hcall)),
      EpochBatch.targets, List.length_map]
  rw [← (mapM_eq_ok_iff.mp hmap).length_eq, List.length_zip, hresults, min_self]

/-- Minting answers for every leaf and method in its place, and never panics
while the producer returns one result for each target.  A batch of other leaves
is refused. -/
theorem mint_attributes_witnesses
    (h : Leads (mintWitnessesForEpoch snapshot batch outcomes) t q)
    (hcount : OneResultPerTarget t) :
    ¬ Panics q ∧
    (∀ minted, q = .pure (.ok minted) →
      minted.length = snapshot.leaves.length * outcomes.length ∧
      ∀ (i j : Nat) entry method outcome, snapshot.leaves[i]? = some entry →
        outcomes[j]? = some (method, outcome) →
        ∃ finish sign w, t[j]? = some finish ∧
          t[outcomes.length + (i * outcomes.length + j)]? = some sign ∧
          minted[i * outcomes.length + j]? = some w ∧
          Attributed snapshot batch entry i method outcome finish sign w) ∧
    (snapshot.leaves.map LeafEntry.leaf ≠ batch.leaves →
      t = [] ∧ q = .pure (.error (.batch
        "prepared batch does not hold the snapshot's leaves in order"))) := by
  unfold mintWitnessesForEpoch at h
  split at h
  · obtain ⟨rfl, rfl⟩ := leads_pure h
    exact ⟨nofun, nofun, fun _ => ⟨rfl, rfl⟩⟩
  rename_i hleaves
  have hleaves := not_not.mp hleaves
  have hsame : batch.leaves.length = snapshot.leaves.length := by
    rw [← hleaves, List.length_map]
  rcases leads_bind h with ⟨c, next, hp, rfl⟩ | ⟨result, t₁, t₂, rfl, hp, hsign⟩
  · exact ⟨fun hpanics => (leads_finishMethods hp).1 (panics_bind hpanics), nofun,
      fun hne => absurd hleaves hne⟩
  cases result with
  | error e =>
      obtain ⟨-, rfl⟩ := leads_pure hsign
      exact ⟨nofun, nofun, fun hne => absurd hleaves hne⟩
  | ok objects =>
      have hfinished := (leads_finishMethods hp).2 objects rfl
      have hlengths := hfinished.length_objects hcount
      have hsigned := leads_signLeaves hsign fun x hx => by
        rw [hlengths x hx, hsame, Nat.zero_add]
      refine ⟨hsigned.1, ?_, fun hne => absurd hleaves hne⟩
      intro minted hminted
      have hmajor := hsigned.2 minted hminted
      refine ⟨hfinished.count ▸ hmajor.witnesses, ?_⟩
      intro i j entry method outcome hentry houtcome
      obtain ⟨results, perLeaf, hcall, hmap, hobjects⟩ :=
        hfinished.finished j method outcome houtcome
      obtain ⟨object, x, w, hobject, hx, hw, hsign⟩ :=
        hmajor.signed i j entry method perLeaf hentry hobjects
      rw [Nat.zero_add] at hobject
      obtain ⟨tree, leaf, htree, hleaf, hadded⟩ :=
        addedTimestamp_of_mapM hmap hobject
      obtain rfl : leaf = entry.leaf := by
        rw [← hleaves, List.getElem?_map, hentry] at hleaf
        exact (Option.some.inj hleaf).symm
      obtain ⟨link, typed, rfl, hrevisions, hprevious⟩ := addedTimestamp_eq_ok hadded
      obtain ⟨sig, rfl, hsig⟩ := hsign.signature
      refine ⟨_, _, w, ?_, ?_, ?_, ⟨results, tree, link, typed, rfl, htree,
        hrevisions, hprevious, hsign.objectRevision, sig, rfl, hsig⟩, hsign.leaf,
        hsign.submitterDid, hsign.epochId, hsign.method⟩
      · rw [List.getElem?_append_left
          (List.getElem?_eq_some_iff.mp hcall).1]
        exact hcall
      · rw [← hfinished.calls, List.getElem?_append_right (Nat.le_add_right _ _),
          Nat.add_sub_cancel_left, hfinished.calls, ← hfinished.count]
        exact hx
      · rw [← hfinished.count]
        exact hw

end Epoch

/-! ## An epoch of two leaves -/

def Sample.twoLeaves : SealedSnapshot :=
  ⟨1, 0, 10, [⟨Sample.leaf 3, "did:a"⟩, ⟨Sample.leaf 1, "did:b"⟩]⟩

def Sample.twoTargets : EpochBatch Sample.sdk :=
  ⟨[Sample.leaf 3, Sample.leaf 1], [Sample.leaf 3, Sample.leaf 1]⟩

def Sample.bothOutcomes : List (AnchorMethod × MethodAnchorOutcome) :=
  [AnchorMethod.evm, AnchorMethod.qtsa].map fun m =>
    (m, MethodAnchorOutcome.fromValue m (Sample.anchored "a" m "r"))

/-- Minting the epoch for both methods. -/
def Sample.mintBoth (out : Surroundings Sample.sdk) : SealTrace Sample.sdk ×
    SealM Sample.sdk (Except WitnessError (List (MintedWitness Sample.sdk))) :=
  (mintWitnessesForEpoch Sample.twoLeaves Sample.twoTargets
    Sample.bothOutcomes).follow (out.answer (World.boot Store.empty [] 0 0))

/-- The leaf and method of each minted witness, when minting succeeded. -/
def mintedFor : SealM sdk (Except WitnessError (List (MintedWitness sdk))) →
    Option (List (Hash32 × AnchorMethod))
  | .pure (.ok minted) => some (minted.map fun w => (w.leaf, w.method))
  | _ => none

theorem mintedFor_eq_some
    {q : SealM sdk (Except WitnessError (List (MintedWitness sdk)))}
    {l : List (Hash32 × AnchorMethod)} (h : mintedFor q = some l) :
    ∃ minted, q = .pure (.ok minted) := by
  unfold mintedFor at h
  split at h
  · exact ⟨_, rfl⟩
  · cases h

theorem mint_attributes_witnesses_twoLeaves :
    ∃ (minted : List (MintedWitness Sample.sdk)) (w : MintedWitness Sample.sdk),
      (Sample.mintBoth (Sample.honest "a")).2 = .pure (.ok minted) ∧
      minted.length = 2 * 2 ∧ minted[1 * 2 + 0]? = some w ∧
      w.leaf = Sample.leaf 1 ∧ w.submitterDid = "did:b" ∧ w.method = .evm := by
  have hcount : OneResultPerTarget (Sample.mintBoth (Sample.honest "a")).1 := by
    intro prepared targets facts results hmem
    have hanswer := answer_of_mem_follow hmem
    cases hanswer
    exact List.length_mapIdx
  have hrun : mintedFor (Sample.mintBoth (Sample.honest "a")).2 =
      some [(Sample.leaf 3, .evm), (Sample.leaf 3, .qtsa), (Sample.leaf 1, .evm),
        (Sample.leaf 1, .qtsa)] := by
    decide +kernel
  obtain ⟨minted, hminted⟩ := mintedFor_eq_some hrun
  obtain ⟨-, hwitnesses, -⟩ :=
    mint_attributes_witnesses (leads_follow _ _) hcount
  obtain ⟨hlength, hplaces⟩ := hwitnesses minted hminted
  obtain ⟨finish, sign, w, -, -, hw, hattributed⟩ :=
    hplaces 1 0 ⟨Sample.leaf 1, "did:b"⟩ .evm _ rfl rfl
  exact ⟨minted, w, hminted, hlength, hw, hattributed.leaf,
    hattributed.submitterDid, hattributed.method⟩

-- The producer swaps the results of two leaves: nothing is minted.
example : mintedFor (Sample.mintBoth { Sample.honest "a" with
    finish := fun _ targets facts =>
      .ok (Sample.finished targets facts).reverse }).2 = none := by
  decide +kernel

end AquaTimestamp
