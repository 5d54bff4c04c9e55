import AquaTimestamp.Model.PendingJson
import AquaTimestamp.Model.Sample
import AquaTimestamp.Support.Trace

/-!
# Pending records survive storage

A record made of a snapshot and its batch, changed by any sequence of the
operations on its anchors, is read back from storage as it was written, and
restores to the snapshot and the batch it was made of.  The operations keep one
anchor and one fault entry for each method.
-/

namespace AquaTimestamp

open Support
open JsonCodec (Survives)
open Prog (Leads within_ask within_bind)

variable {sdk : Sdk}

/-! ## Operations on the anchors of a record -/

/-- An operation of the sealer on a record's anchors or fault counts. -/
inductive AnchorOp where
  | setAnchor (method : AnchorMethod) (value : TimestampValue) (now : Nat)
  | dropAnchor (method : AnchorMethod)
  | countAnchorFault (method : AnchorMethod)
  | anchorFirstSeen (method : AnchorMethod) (now : Nat)

namespace AnchorOp

/-- The record after the operation. -/
def apply (p : PendingEpoch sdk) : AnchorOp → PendingEpoch sdk
  | .setAnchor m value now => p.setAnchor m value now
  | .dropAnchor m => p.dropAnchor m
  | .countAnchorFault m => (p.countAnchorFault m).1
  | .anchorFirstSeen m now => ((p.anchorFirstSeen m now).map Prod.snd).getD p

/-- The time an operation stores is a `u64`, and the SDK keeps the value it
stores. -/
def Storable (value : JsonCodec TimestampValue) : AnchorOp → Prop
  | .setAnchor _ v now => value.Survives v ∧ now ≤ u64Max
  | .anchorFirstSeen _ now => now ≤ u64Max
  | _ => True

/-- The first judgement of an anchor changes at most its missing time. -/
theorem apply_anchorFirstSeen (p : PendingEpoch sdk) (m : AnchorMethod) (now : Nat) :
    (AnchorOp.anchorFirstSeen m now).apply p = p ∨
      (AnchorOp.anchorFirstSeen m now).apply p = p.touchAnchor m now := by
  simp only [apply, PendingEpoch.anchorFirstSeen]
  cases p.anchorEntry m with
  | none => exact Or.inl rfl
  | some a =>
      cases hseen : a.firstSeen with
      | some t => exact Or.inl (by simp [hseen])
      | none => exact Or.inr (by simp [hseen])

end AnchorOp

/-- A record made of a snapshot, with at most one entry for each method. -/
structure PendingEpoch.MadeOf (batchJson : JsonCodec sdk.PreparedBatch)
    (valueJson : JsonCodec TimestampValue) (p origin : PendingEpoch sdk) : Prop where
  epoch : p.SameEpoch origin
  methods : p.methods = origin.methods
  anchors : (p.anchors.map StoredAnchor.method).Nodup
  anchorFaults : (p.anchorFaults.map AnchorFaults.method).Nodup
  storable : p.Storable batchJson valueJson

section Operations

variable {batchJson : JsonCodec sdk.PreparedBatch}
variable {valueJson : JsonCodec TimestampValue} {origin p : PendingEpoch sdk}

theorem madeOf_new {snapshot : SealedSnapshot} {batch : EpochBatch sdk}
    (methods : List AnchorMethod) (hid : snapshot.epochId ≤ u64Max)
    (hopened : snapshot.openedAt ≤ u64Max) (hclosed : snapshot.closedAt ≤ u64Max)
    (hbatch : batchJson.Survives batch.prepared) :
    (PendingEpoch.new snapshot batch methods).MadeOf batchJson valueJson
      (PendingEpoch.new snapshot batch methods) where
  epoch := ⟨rfl, rfl, rfl, rfl, rfl⟩
  methods := rfl
  anchors := List.nodup_nil
  anchorFaults := List.nodup_nil
  storable := ⟨hid, hopened, hclosed, hbatch, nofun⟩

namespace PendingEpoch.MadeOf

theorem setAnchor (h : p.MadeOf batchJson valueJson origin) (m : AnchorMethod)
    {v : TimestampValue} {now : Nat} (hv : valueJson.Survives v) (hnow : now ≤ u64Max) :
    (p.setAnchor m v now).MadeOf batchJson valueJson origin where
  epoch := (sameEpoch_setAnchor p m v now).trans h.epoch
  methods := h.methods
  anchors :=
    Keyed.nodup_append_singleton (Keyed.nodup_discard h.anchors)
      (Keyed.not_mem_keys_discard m p.anchors)
  anchorFaults := h.anchorFaults
  storable := by
    refine ⟨h.storable.epochId, h.storable.openedAt, h.storable.closedAt,
      h.storable.batch, fun a ha => ?_⟩
    rcases List.mem_append.mp ha with ha | ha
    · exact h.storable.anchors a (List.mem_filter.mp ha).1
    · rw [List.mem_singleton.mp ha]
      refine ⟨hv, fun t ht => ?_⟩
      rw [← Option.some.inj ht]
      exact hnow

theorem dropAnchor (h : p.MadeOf batchJson valueJson origin) (m : AnchorMethod) :
    (p.dropAnchor m).MadeOf batchJson valueJson origin where
  epoch := (sameEpoch_dropAnchor p m).trans h.epoch
  methods := h.methods
  anchors := Keyed.nodup_discard h.anchors
  anchorFaults := h.anchorFaults
  storable :=
    ⟨h.storable.epochId, h.storable.openedAt, h.storable.closedAt, h.storable.batch,
      fun a ha => h.storable.anchors a (List.mem_filter.mp ha).1⟩

theorem touchAnchor (h : p.MadeOf batchJson valueJson origin) (m : AnchorMethod)
    {now : Nat} (hnow : now ≤ u64Max) :
    (p.touchAnchor m now).MadeOf batchJson valueJson origin where
  epoch := (sameEpoch_touchAnchor p m now).trans h.epoch
  methods := h.methods
  anchors := by
    have hkeys : (p.touchAnchor m now).anchors.map StoredAnchor.method =
        p.anchors.map StoredAnchor.method :=
      Keyed.keys_revise (f := fun a => { a with firstSeen := a.firstSeen.or (some now) })
        (fun _ => rfl) m p.anchors
    exact hkeys ▸ h.anchors
  anchorFaults := h.anchorFaults
  storable := by
    refine ⟨h.storable.epochId, h.storable.openedAt, h.storable.closedAt,
      h.storable.batch, fun a ha => ?_⟩
    rcases Keyed.mem_revise ha with ha | ⟨b, hb, rfl⟩
    · exact h.storable.anchors a ha
    · have hfits := h.storable.anchors b hb
      refine ⟨hfits.value, fun t ht => ?_⟩
      rcases Option.or_eq_some_iff.mp ht with hseen | ⟨-, hseen⟩
      · exact hfits.firstSeen t hseen
      · rw [← Option.some.inj hseen]
        exact hnow

theorem countAnchorFault (h : p.MadeOf batchJson valueJson origin) (m : AnchorMethod) :
    (p.countAnchorFault m).1.MadeOf batchJson valueJson origin := by
  have hepoch := (sameEpoch_countAnchorFault p m).trans h.epoch
  have hmethods := (methods_countAnchorFault p m).trans h.methods
  unfold PendingEpoch.countAnchorFault at hepoch hmethods ⊢
  split
  case h_1 f hf =>
    have hkeys : _ = p.anchorFaults.map AnchorFaults.method :=
      Keyed.keys_revise (f := fun f => { f with count := f.count + 1 }) (fun _ => rfl) m
        p.anchorFaults
    exact ⟨h.epoch, h.methods, h.anchors, hkeys ▸ h.anchorFaults, h.storable.epochId,
      h.storable.openedAt, h.storable.closedAt, h.storable.batch, h.storable.anchors⟩
  case h_2 hnone =>
    exact ⟨h.epoch, h.methods, h.anchors,
      Keyed.nodup_append_singleton h.anchorFaults (Keyed.not_mem_keys_of_lookup hnone),
      h.storable.epochId, h.storable.openedAt, h.storable.closedAt, h.storable.batch,
      h.storable.anchors⟩

theorem apply (h : p.MadeOf batchJson valueJson origin) {op : AnchorOp}
    (hop : op.Storable valueJson) : (op.apply p).MadeOf batchJson valueJson origin := by
  cases op with
  | setAnchor m v now => exact h.setAnchor m hop.1 hop.2
  | dropAnchor m => exact h.dropAnchor m
  | countAnchorFault m => exact h.countAnchorFault m
  | anchorFirstSeen m now =>
      rcases AnchorOp.apply_anchorFirstSeen p m now with heq | heq
      · rw [heq]
        exact h
      · rw [heq]
        exact h.touchAnchor m hop

/-- Every sequence of operations keeps what the record was made of. -/
theorem foldl {ops : List AnchorOp} (h : p.MadeOf batchJson valueJson origin)
    (hops : ∀ op ∈ ops, op.Storable valueJson) :
    (ops.foldl AnchorOp.apply p).MadeOf batchJson valueJson origin := by
  induction ops generalizing p with
  | nil => exact h
  | cons op ops ih =>
      exact ih (h.apply (hops op (List.mem_cons_self ..)))
        fun op' hop' => hops op' (List.mem_cons_of_mem _ hop')

end PendingEpoch.MadeOf

end Operations

/-! ## Minting from a restored record -/

/-- The refusal of a batch that holds other leaves than the snapshot, or the
same in another order. -/
def leafOrderRefusal : WitnessError :=
  .batch "prepared batch does not hold the snapshot's leaves in order"

/-- Whatever is answered, the program does not end with that refusal. -/
def NeverRefused {α : Type} (p : SealM sdk (Except WitnessError α)) : Prop :=
  p.Within (fun _ _ => True) (· ≠ .error leafOrderRefusal)

section Refusal

variable {α β : Type}

theorem neverRefused_ok (a : α) :
    NeverRefused (pure (.ok a) : SealM sdk (Except WitnessError α)) :=
  nofun

theorem neverRefused_error {e : WitnessError} (he : e ≠ leafOrderRefusal) :
    NeverRefused (pure (.error e) : SealM sdk (Except WitnessError α)) :=
  fun heq => he (Except.error.inj heq)

/-- A sequence that passes an error on adds no refusal. -/
theorem NeverRefused.bind {p : SealM sdk (Except WitnessError α)}
    {f : Except WitnessError α → SealM sdk (Except WitnessError β)}
    (hp : NeverRefused p) (herror : ∀ e, f (.error e) = pure (.error e))
    (hok : ∀ a, NeverRefused (f (.ok a))) : NeverRefused (p >>= f) := by
  refine within_bind hp ?_
  rintro (e | a) hresult
  · rw [herror]
    exact neverRefused_error fun he => hresult (he ▸ rfl)
  · exact hok a

theorem batch_ne_leafOrderRefusal (e : String) :
    WitnessError.batch ("finish_batch_timestamp: " ++ e) ≠ leafOrderRefusal := by
  intro heq
  have htext := congrArg String.toList (WitnessError.batch.inj heq)
  rw [String.toList_append] at htext
  exact absurd (congrArg List.head? htext) (by simp)

theorem badHash_of_revisionLinkToHash {link : sdk.RevisionLink} {e : WitnessError}
    (h : revisionLinkToHash link = .error e) : ∃ len, e = .badHash len := by
  unfold revisionLinkToHash at h
  split at h
  · split at h
    · cases h
    · exact ⟨_, (Except.error.inj h).symm⟩
  · exact ⟨_, (Except.error.inj h).symm⟩

theorem object_of_addedTimestamp {tree : List (sdk.RevisionLink × AnyRevision sdk)}
    {leaf : Hash32} {e : WitnessError} (h : addedTimestamp tree leaf = .error e) :
    ∃ msg, e = .object msg := by
  unfold addedTimestamp at h
  split at h
  · exact ⟨_, (Except.error.inj h).symm⟩
  · split at h
    · cases h
    · exact ⟨_, (Except.error.inj h).symm⟩
  · exact ⟨_, (Except.error.inj h).symm⟩
  · exact ⟨_, (Except.error.inj h).symm⟩

theorem neverRefused_signWitness (entry : LeafEntry) (epochId : Nat)
    (method : AnchorMethod) (link : sdk.RevisionLink) (revision : AnyRevision sdk) :
    NeverRefused (signWitness entry epochId method link revision) := by
  unfold signWitness
  split
  · rename_i e hhash
    obtain ⟨len, rfl⟩ := badHash_of_revisionLinkToHash hhash
    exact neverRefused_error nofun
  · refine within_ask fun answer => ⟨trivial, ?_⟩
    cases answer with
    | error e => exact neverRefused_error nofun
    | ok sig =>
        dsimp only
        split
        · exact neverRefused_error nofun
        · split
          · rename_i e hhash
            obtain ⟨len, rfl⟩ := badHash_of_revisionLinkToHash hhash
            exact neverRefused_error nofun
          · exact neverRefused_ok _

theorem neverRefused_signLeaf (epochId : Nat) (entry : LeafEntry) (i : Nat)
    (objects : List (AnchorMethod × List (sdk.RevisionLink × AnyRevision sdk))) :
    NeverRefused (signLeaf epochId entry i objects) := by
  induction objects with
  | nil => exact neverRefused_ok _
  | cons head rest ih =>
      unfold signLeaf
      split
      · exact fun answer => nomatch answer
      · exact (neverRefused_signWitness entry epochId _ _ _).bind (fun _ => rfl)
          fun w => ih.bind (fun _ => rfl) fun ws => neverRefused_ok _

theorem neverRefused_signLeaves (epochId : Nat)
    (objects : List (AnchorMethod × List (sdk.RevisionLink × AnyRevision sdk)))
    (entries : List LeafEntry) (i : Nat) :
    NeverRefused (signLeaves epochId objects entries i) := by
  induction entries generalizing i with
  | nil => exact neverRefused_ok _
  | cons entry entries ih =>
      exact (neverRefused_signLeaf epochId entry i objects).bind (fun _ => rfl)
        fun ws => (ih (i + 1)).bind (fun _ => rfl) fun more => neverRefused_ok _

theorem neverRefused_finishMethods (batch : EpochBatch sdk)
    (outcomes : List (AnchorMethod × MethodAnchorOutcome)) :
    NeverRefused (finishMethods batch outcomes) := by
  induction outcomes with
  | nil => exact neverRefused_ok _
  | cons head rest ih =>
      refine within_ask fun answer => ⟨trivial, ?_⟩
      cases answer with
      | error e => exact neverRefused_error (batch_ne_leafOrderRefusal e)
      | ok results =>
          dsimp only
          split
          · rename_i e hadded
            obtain ⟨x, -, hx⟩ := exists_error_of_mapM hadded
            obtain ⟨msg, rfl⟩ := object_of_addedTimestamp hx
            exact neverRefused_error nofun
          · exact ih.bind (fun _ => rfl) fun more => neverRefused_ok _

/-- A snapshot and a batch of its leaves in order are not refused. -/
theorem neverRefused_mintWitnessesForEpoch {snapshot : SealedSnapshot}
    {batch : EpochBatch sdk} (h : snapshot.leaves.map LeafEntry.leaf = batch.leaves)
    (outcomes : List (AnchorMethod × MethodAnchorOutcome)) :
    NeverRefused (mintWitnessesForEpoch snapshot batch outcomes) := by
  rw [mintWitnessesForEpoch, if_neg (not_not_intro h)]
  exact (neverRefused_finishMethods batch outcomes).bind (fun _ => rfl)
    fun objects => neverRefused_signLeaves snapshot.epochId objects snapshot.leaves 0

end Refusal

/-! ## What is read back -/

/-- The batch the sealer prepares for a snapshot. -/
def SealedSnapshot.batchOf (snapshot : SealedSnapshot) (prepared : sdk.PreparedBatch) :
    EpochBatch sdk :=
  ⟨prepared, snapshot.leaves.map LeafEntry.leaf⟩

/-- The record of a snapshot after operations on its anchors. -/
def SealedSnapshot.recordAfter (snapshot : SealedSnapshot)
    (prepared : sdk.PreparedBatch) (methods : List AnchorMethod)
    (ops : List AnchorOp) : PendingEpoch sdk :=
  ops.foldl AnchorOp.apply
    (PendingEpoch.new snapshot (snapshot.batchOf prepared) methods)

/-- A pending record is read back from storage as it was written, restores to
the snapshot and the batch it was made of, which minting does not refuse, and
holds at most one anchor and one fault count of each method.  What the SDK does
with its own types, and that ids and times are `u64`s, is assumed. -/
theorem pending_record_survives (batchJson : JsonCodec sdk.PreparedBatch)
    (valueJson : JsonCodec TimestampValue) (snapshot : SealedSnapshot)
    (prepared : sdk.PreparedBatch) (methods : List AnchorMethod) (ops : List AnchorOp)
    (hid : snapshot.epochId ≤ u64Max) (hopened : snapshot.openedAt ≤ u64Max)
    (hclosed : snapshot.closedAt ≤ u64Max) (hbatch : batchJson.Survives prepared)
    (hops : ∀ op ∈ ops, op.Storable valueJson) :
    let p := snapshot.recordAfter prepared methods ops
    ∃ p',
      (PendingEpoch.json batchJson valueJson).decode
        ((PendingEpoch.json batchJson valueJson).encode p) = .ok p' ∧
      p'.restore = .ok (snapshot, snapshot.batchOf prepared) ∧
      (∀ restored batch outcomes t result, p'.restore = .ok (restored, batch) →
        Leads (mintWitnessesForEpoch restored batch outcomes) t (.pure result) →
          result ≠ .error leafOrderRefusal) ∧
      p'.methods = methods ∧
      ∀ m, p'.anchor m = p.anchor m ∧ p'.anchorFaultCount m = p.anchorFaultCount m ∧
        (∀ now, (p'.anchorFirstSeen m now).map Prod.fst =
          (p.anchorFirstSeen m now).map Prod.fst) ∧
        (p'.anchors.map StoredAnchor.method).count m ≤ 1 ∧
        (p'.anchorFaults.map AnchorFaults.method).count m ≤ 1 := by
  intro p
  have hmade : p.MadeOf batchJson valueJson _ :=
    (madeOf_new methods hid hopened hclosed hbatch).foldl hops
  have hrestore : p.restore = .ok (snapshot, snapshot.batchOf prepared) :=
    hmade.epoch.restore_eq.trans (PendingEpoch.restore_new snapshot _ methods)
  refine ⟨p, PendingEpoch.json_keepsOn batchJson valueJson p hmade.storable, hrestore,
    ?_, hmade.methods, ?_⟩
  · intro restored batch outcomes t result hrestored hminted
    have hleaves : restored.leaves.map LeafEntry.leaf = batch.leaves := by
      rw [(PendingEpoch.restore_leaves hrestored).2]
    have hnever := neverRefused_mintWitnessesForEpoch hleaves outcomes
    exact (hnever.leads hminted).2 result rfl
  · intro m
    exact ⟨rfl, rfl, fun _ => rfl, List.nodup_iff_count_le_one.mp hmade.anchors m,
      List.nodup_iff_count_le_one.mp hmade.anchorFaults m⟩

/-! ## An epoch of two leaves -/

/-- Digests by their text. -/
def Sample.digestJson : JsonCodec Hash32 :=
  JsonCodec.string.via hexLower fun s =>
    match PendingEpoch.leafHash ⟨s, ""⟩ with
    | .ok h => .ok h
    | .error _ => .error "invalid digest"

/-- An anchor by its fields. -/
def Sample.valueJson : JsonCodec TimestampValue where
  encode v := .obj [("merkle_proof", (JsonCodec.list .string).encode v.merkleProof),
    ("sender_account_address", .str v.senderAccountAddress),
    ("tsa_provider", .str v.tsaProvider), ("transaction_hash", .str v.transactionHash),
    ("smart_contract_address", .str v.smartContractAddress),
    ("network", .str v.network), ("merkle_root", .str v.merkleRoot),
    ("timestamp", .num v.timestamp), ("batch_tree_size", .num v.batchTreeSize),
    ("batch_leaf_index", .num v.batchLeafIndex),
    ("shielding_nonce", .str v.shieldingNonce)]
  decode j := do
    let text name := j.required [] name .string
    let number name := j.required [] name .u64
    let merkleProof ← j.required [] "merkle_proof" (.list .string)
    .ok ⟨merkleProof, ← text "sender_account_address", ← text "tsa_provider",
      ← text "transaction_hash", ← text "smart_contract_address", ← text "network",
      ← text "merkle_root", ← number "timestamp", ← number "batch_tree_size",
      ← number "batch_leaf_index", ← text "shielding_nonce"⟩

theorem Sample.digestJson_keeps : Sample.digestJson.Keeps := by
  refine JsonCodec.KeepsOn.via (P := fun _ => True)
    (fun s _ => JsonCodec.string_keeps s) (fun _ => trivial) fun h => ?_
  rw [PendingEpoch.leafHash_hexLower]

def Sample.batchJson : JsonCodec Sample.sdk.PreparedBatch :=
  .list Sample.digestJson

/-- The one method's anchor is stored, found at fault and dropped, and another
one is stored; the other method's anchor is stored once. -/
def Sample.anchorOps : List AnchorOp :=
  [.setAnchor .evm (Sample.anchored "a" .evm "r") 5,
    .setAnchor .qtsa (Sample.anchored "t" .qtsa "r") 6, .countAnchorFault .evm,
    .dropAnchor .evm, .setAnchor .evm (Sample.anchored "b" .evm "r") 9,
    .anchorFirstSeen .evm 12]

def Sample.recordedSnapshot : SealedSnapshot :=
  ⟨1, 0, 10, [⟨Sample.leaf 3, "did:a"⟩, ⟨Sample.leaf 4, "did:b"⟩]⟩

def Sample.changedRecord : PendingEpoch Sample.sdk :=
  Sample.recordedSnapshot.recordAfter [Sample.leaf 3, Sample.leaf 4] [.evm, .qtsa]
    Sample.anchorOps

theorem pending_record_survives_twoLeaves :
    ∃ p' : PendingEpoch Sample.sdk,
      (PendingEpoch.json Sample.batchJson Sample.valueJson).decode
        ((PendingEpoch.json Sample.batchJson Sample.valueJson).encode
          Sample.changedRecord) = .ok p' ∧
      p'.anchor .evm = some (Sample.anchored "b" .evm "r") ∧
      p'.anchorFaultCount .evm = 1 ∧
      p'.anchor .qtsa = some (Sample.anchored "t" .qtsa "r") ∧
      p'.anchorFaultCount .qtsa = 0 := by
  have hops : ∀ op ∈ Sample.anchorOps, op.Storable Sample.valueJson := by
    intro op hop
    simp only [Sample.anchorOps, List.mem_cons, List.not_mem_nil, or_false] at hop
    rcases hop with rfl | rfl | rfl | rfl | rfl | rfl
    · exact ⟨rfl, by decide⟩
    · exact ⟨rfl, by decide⟩
    · trivial
    · trivial
    · exact ⟨rfl, by decide⟩
    · exact (by decide : 12 ≤ u64Max)
  obtain ⟨p', hdecode, -, -, -, hmethod⟩ :=
    pending_record_survives Sample.batchJson Sample.valueJson Sample.recordedSnapshot
      [Sample.leaf 3, Sample.leaf 4] [.evm, .qtsa] Sample.anchorOps (by decide)
      (by decide) (by decide)
      (Sample.digestJson_keeps.list [Sample.leaf 3, Sample.leaf 4]) hops
  obtain ⟨hanchor, hcount, -⟩ := hmethod .evm
  obtain ⟨hanchor', hcount', -⟩ := hmethod .qtsa
  exact ⟨p', hdecode, hanchor, hcount, hanchor', hcount'⟩

end AquaTimestamp
