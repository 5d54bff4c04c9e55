import AquaTimestamp.Model.Sample
import AquaTimestamp.Settlement.SideBySide
import AquaTimestamp.Settlement.Tracking

/-!
# The two methods do not interfere

Two servers with the same submissions, ticks and prepared batches, in which
the partner of one method is the same and the partner of the other is not,
hold the same for that method after every tick.
-/

namespace AquaTimestamp

open Support Executor

variable {sdk : Sdk} {m : AnchorMethod}
variable {prepare : Preparing sdk} {partners₁ partners₂ : AnchorMethod → Partner sdk}
variable {i : Nat} {ρ : Nat → Option (MethodRecord sdk)} {p₁ p₂ : PendingEpoch sdk}
variable {s₁ s₂ : Attended sdk} {ctx : WitnessContext}
variable {down₁ down₂ : List AnchorMethod} {now : Nat}

/-! ## The loops on both sides -/

theorem settleMethodsFor_cons (k : AnchorMethod) (ks : List AnchorMethod)
    (p : PendingEpoch sdk) (down : List AnchorMethod) :
    settleMethodsFor ctx now (k :: ks) p down =
      (settleMethod ctx p k down now).marked (some k) >>= fun out =>
        settleMethodsFor ctx now ks out.1 out.2.1 >>= fun out' =>
          pure (out'.1, out'.2.1, out.2.2.getD [] ++ out'.2.2) :=
  rfl

theorem retryEachFor_cons (p : PendingEpoch sdk) (ps : List (PendingEpoch sdk))
    (down : List AnchorMethod) :
    retryEachFor ctx now (p :: ps) down =
      settleMethodsFor ctx now p.methods p down >>= fun out =>
        retryEachFor ctx now ps out.2.1 >>= fun out' =>
          pure (out.2.2 ++ out'.1, out'.2) :=
  rfl

/-- The sides may be exchanged. -/
theorem beside_symm {γ : Type}
    {q₁ q₂ : MarkedM sdk (PendingEpoch sdk × List AnchorMethod × γ)}
    (h : Beside m prepare partners₂ partners₁ (Held m i ρ p₂ p₁) q₂ q₁ (Agreeing m i ρ)) :
    Beside m prepare partners₁ partners₂ (Held m i ρ p₁ p₂) q₁ q₂ (Agreeing m i ρ) :=
  h.symm.weaken (fun _ _ hheld => hheld.symm) fun _ _ _ _ hout =>
    ⟨hout.1.symm, hout.2.symm⟩

/-- The left side comes to the other method. -/
theorem beside_methods_left {k : AnchorMethod} (hne : k ≠ m) {ks : List AnchorMethod}
    {q₂ : MarkedM sdk (PendingEpoch sdk × List AnchorMethod × List (MintedWitness sdk))}
    (hdown : m ∈ down₁ ↔ m ∈ down₂)
    (hrest : ∀ q₁ down₁, (m ∈ down₁ ↔ m ∈ down₂) →
      Beside m prepare partners₁ partners₂ (Held m i ρ q₁ p₂)
        (settleMethodsFor ctx now ks q₁ down₁) q₂ (Agreeing m i ρ)) :
    Beside m prepare partners₁ partners₂ (Held m i ρ p₁ p₂)
      (settleMethodsFor ctx now (k :: ks) p₁ down₁) q₂ (Agreeing m i ρ) := by
  rw [settleMethodsFor_cons]
  refine paired_bind_left _ (lasting_apart _ _) (lasting_apart _ _) (beside_other hne) ?_
  intro out
  refine paired_of_pre fun hd => Paired.map_left ?_
  exact hrest _ _ (hd.trans hdown)

/-- Both go through the methods of their record. -/
theorem beside_settleMethods (hm : partners₁ m = partners₂ m)
    {methods₁ methods₂ : List AnchorMethod}
    (hcount : methods₁.count m = methods₂.count m) (hdown : m ∈ down₁ ↔ m ∈ down₂) :
    Beside m prepare partners₁ partners₂ (Held m i ρ p₁ p₂)
      (settleMethodsFor ctx now methods₁ p₁ down₁)
      (settleMethodsFor ctx now methods₂ p₂ down₂) (Agreeing m i ρ) := by
  induction methods₁ generalizing methods₂ p₁ p₂ down₁ down₂ with
  | nil =>
      induction methods₂ generalizing p₂ down₂ with
      | nil => exact paired_pure fun _ _ h => ⟨hdown, h⟩
      | cons k ks ih =>
          have hnot : m ∉ k :: ks := List.count_eq_zero.mp hcount.symm
          have hks : ks.count m = 0 :=
            List.count_eq_zero.mpr fun h => hnot (List.mem_cons_of_mem _ h)
          refine beside_symm (beside_methods_left ?_ hdown.symm fun q₂ d₂ hd => ?_)
          · rintro rfl
            exact hnot (List.mem_cons_self ..)
          · exact beside_symm (ih hks.symm hd.symm)
  | cons k ks ih =>
      by_cases hk : k = m
      · subst hk
        rw [List.count_cons_self] at hcount
        induction methods₂ generalizing p₂ down₂ with
        | nil => cases hcount
        | cons k' ks' ih' =>
            by_cases hk' : k' = k
            · subst hk'
              rw [List.count_cons_self] at hcount
              rw [settleMethodsFor_cons, settleMethodsFor_cons]
              refine beside_bind _ (beside_settleMethod hm hdown) ?_
              intro out₁ out₂
              refine paired_of_pre fun hd => Paired.map_left ?_
              exact (Paired.map_left (ih (Nat.succ.inj hcount) hd).symm).symm
            · rw [List.count_cons_of_ne hk'] at hcount
              refine beside_symm (beside_methods_left hk' hdown.symm fun q₂ d₂ hd => ?_)
              exact beside_symm (ih' hcount hd.symm)
      · rw [List.count_cons_of_ne hk] at hcount
        exact beside_methods_left hk hdown fun q₁ d₁ hd => ih hcount hd

/-! ## The listed records on both sides -/

/-- What is stored for the method is `ρ`, on both sides. -/
structure Stocked (m : AnchorMethod) (ρ : Nat → Option (MethodRecord sdk))
    (s₁ s₂ : Attended sdk) : Prop where
  matched : Matched m s₁ s₂
  stored : ∀ e, s₁.world.store.recordFor m e = ρ e

theorem Stocked.symm (h : Stocked m ρ s₁ s₂) : Stocked m ρ s₂ s₁ :=
  ⟨h.matched.symm, fun e =>
    (h.matched.alike.world.store.records e).symm.trans (h.stored e)⟩

/-- In the listed records the part of the method is the stored one. -/
structure InStock (m : AnchorMethod) (ρ : Nat → Option (MethodRecord sdk))
    (ps : List (PendingEpoch sdk)) : Prop where
  stored : ∀ p ∈ ps, ρ p.epochId = p.partFor m
  distinct : (ps.map PendingEpoch.epochId).Nodup

/-- What is stored for the method after the record `p` was settled to `q`. -/
def settledTo (m : AnchorMethod) (ρ : Nat → Option (MethodRecord sdk)) (i : Nat)
    (q : PendingEpoch sdk) (e : Nat) : Option (MethodRecord sdk) :=
  if i = e then q.partFor m else ρ e

theorem Held.stocked {q₁ q₂ : PendingEpoch sdk} (h : Held m i ρ q₁ q₂ s₁ s₂) :
    Stocked m (settledTo m ρ i q₁) s₁ s₂ :=
  ⟨h.matched, h.stored⟩

theorem Stocked.held (h : Stocked m ρ s₁ s₂) (hp : ρ p₁.epochId = p₁.partFor m)
    (heq : p₁.forMethod m = p₂.forMethod m) :
    Held m p₁.epochId ρ p₁ p₂ s₁ s₂ := by
  refine ⟨h.matched, rfl, heq, fun e => ?_⟩
  rw [h.stored e]
  split
  · rename_i he
    rw [← he, hp]
  · rfl

theorem InStock.tail {ps : List (PendingEpoch sdk)} (h : InStock m ρ (p₁ :: ps))
    (q : PendingEpoch sdk) : InStock m (settledTo m ρ p₁.epochId q) ps := by
  obtain ⟨hnot, hdistinct⟩ := List.nodup_cons.mp h.distinct
  refine ⟨fun p hp => ?_, hdistinct⟩
  have hne : p₁.epochId ≠ p.epochId := fun heq =>
    hnot (List.mem_map.mpr ⟨p, hp, heq.symm⟩)
  rw [settledTo, if_neg hne]
  exact h.stored p (List.mem_cons_of_mem _ hp)

/-- Both retried, with the same answer whether the method is down. -/
def RetriedAlike (m : AnchorMethod)
    (out₁ out₂ : List (MintedWitness sdk) × List AnchorMethod)
    (s₁ s₂ : Attended sdk) : Prop :=
  (m ∈ out₁.2 ↔ m ∈ out₂.2) ∧ Matched m s₁ s₂

/-- The left side comes to a record in which the method is not pending. -/
theorem beside_record_left (hm : partners₁ m = partners₂ m) (hp : m ∉ p₁.methods)
    {ps : List (PendingEpoch sdk)} (hlisted : InStock m ρ (p₁ :: ps))
    (hdown : m ∈ down₁ ↔ m ∈ down₂)
    {q₂ : MarkedM sdk (List (MintedWitness sdk) × List AnchorMethod)}
    (hrest : ∀ down₁, InStock m ρ ps → (m ∈ down₁ ↔ m ∈ down₂) →
      Beside m prepare partners₁ partners₂ (Stocked m ρ)
        (retryEachFor ctx now ps down₁) q₂ (RetriedAlike m)) :
    Beside m prepare partners₁ partners₂ (Stocked m ρ)
      (retryEachFor ctx now (p₁ :: ps) down₁) q₂ (RetriedAlike m) := by
  have hstored := hlisted.stored p₁ (List.mem_cons_self ..)
  have hρ : ∀ q : PendingEpoch sdk, q.forMethod m = p₁.forMethod m →
      settledTo m ρ p₁.epochId q = ρ := by
    intro q hq
    funext e
    unfold settledTo
    split
    · rename_i he
      rw [← he, hstored, PendingEpoch.partFor_congr hq]
    · rfl
  rw [retryEachFor_cons]
  refine paired_bind_left (fun out s₁ s₂ => (m ∈ out.2.1 ↔ m ∈ down₁) ∧ Stocked m ρ s₁ s₂)
    (lasting_apart _ _) (lasting_apart _ _) ?_ ?_
  · -- the right server stands still, as if it went through no methods
    intro s₁ s₂ s₁' s₂' out u hstock h₁ h₂ hapart₁ hapart₂
    obtain ⟨rfl, -⟩ := finishes_pure.mp h₂
    have hidle : (attend prepare partners₂).Finishes
        (settleMethodsFor ctx now [] p₁ down₁) s₂ s₂ (p₁, down₁, []) := rfl
    have hout := beside_settleMethods hm (List.count_eq_zero.mpr hp) Iff.rfl _ _ _ _ _ _
      (hstock.held hstored rfl) h₁ hidle hapart₁ hapart₂
    have hafter := hout.2.stocked
    rw [hρ _ hout.2.record] at hafter
    exact ⟨hout.1, hafter⟩
  · intro out
    refine paired_of_pre fun hd => Paired.map_left ?_
    have htail := hlisted.tail p₁
    rw [hρ p₁ rfl] at htail
    exact hrest out.2.1 htail (hd.trans hdown)

theorem RetriedAlike.symm {out₁ out₂ : List (MintedWitness sdk) × List AnchorMethod}
    (h : RetriedAlike m out₁ out₂ s₁ s₂) : RetriedAlike m out₂ out₁ s₂ s₁ :=
  ⟨h.1.symm, h.2.symm⟩

theorem beside_retry_symm
    {q₁ q₂ : MarkedM sdk (List (MintedWitness sdk) × List AnchorMethod)}
    (h : Beside m prepare partners₂ partners₁ (Stocked m ρ) q₂ q₁ (RetriedAlike m)) :
    Beside m prepare partners₁ partners₂ (Stocked m ρ) q₁ q₂ (RetriedAlike m) :=
  h.symm.weaken (fun _ _ hstock => hstock.symm) fun _ _ _ _ hout => hout.symm

/-- Both come to a record in which the method is pending. -/
theorem beside_record (hm : partners₁ m = partners₂ m)
    (hp : p₁.forMethod m = p₂.forMethod m) {ps₁ ps₂ : List (PendingEpoch sdk)}
    (h₁ : InStock m ρ (p₁ :: ps₁)) (h₂ : InStock m ρ (p₂ :: ps₂))
    (hdown : m ∈ down₁ ↔ m ∈ down₂)
    (hrest : ∀ ρ down₁ down₂, InStock m ρ ps₁ → InStock m ρ ps₂ →
      (m ∈ down₁ ↔ m ∈ down₂) →
        Beside m prepare partners₁ partners₂ (Stocked m ρ)
          (retryEachFor ctx now ps₁ down₁) (retryEachFor ctx now ps₂ down₂)
          (RetriedAlike m)) :
    Beside m prepare partners₁ partners₂ (Stocked m ρ)
      (retryEachFor ctx now (p₁ :: ps₁) down₁) (retryEachFor ctx now (p₂ :: ps₂) down₂)
      (RetriedAlike m) := by
  have hcount : p₁.methods.count m = p₂.methods.count m := congrArg MethodRecord.listed hp
  have hstored := h₁.stored p₁ (List.mem_cons_self ..)
  rw [retryEachFor_cons, retryEachFor_cons]
  refine beside_bind (fun out₁ out₂ => Agreeing m p₁.epochId ρ out₁ out₂) ?_ ?_
  · exact (beside_settleMethods hm hcount hdown).weaken
      (fun _ _ hstock => hstock.held hstored hp) fun _ _ _ _ hout => hout
  · intro out₁ out₂
    refine paired_of_pre fun hd => Paired.map_left ?_
    refine (Paired.map_left (Paired.symm ?_)).symm
    have htail₂ := h₂.tail out₁.1
    rw [← PendingEpoch.epochId_congr hp] at htail₂
    exact (hrest _ _ _ (h₁.tail out₁.1) htail₂ hd).weaken
      (fun _ _ hheld => hheld.stocked) fun _ _ _ _ hout => hout

/-- The parts of the method in a list of records. -/
def partsFor (m : AnchorMethod) (ps : List (PendingEpoch sdk)) : List (MethodRecord sdk) :=
  ps.filterMap fun p => p.partFor m

theorem partsFor_cons_of_mem {p : PendingEpoch sdk} (hp : m ∈ p.methods)
    (ps : List (PendingEpoch sdk)) : partsFor m (p :: ps) = p.forMethod m :: partsFor m ps :=
  List.filterMap_cons_some (if_pos hp)

theorem partsFor_cons_of_not_mem {p : PendingEpoch sdk} (hp : m ∉ p.methods)
    (ps : List (PendingEpoch sdk)) : partsFor m (p :: ps) = partsFor m ps :=
  List.filterMap_cons_none (if_neg hp)

/-- Both go through the records that list the method in the same order. -/
theorem beside_retryEach (hm : partners₁ m = partners₂ m)
    {ps₁ ps₂ : List (PendingEpoch sdk)} (hparts : partsFor m ps₁ = partsFor m ps₂)
    (h₁ : InStock m ρ ps₁) (h₂ : InStock m ρ ps₂) (hdown : m ∈ down₁ ↔ m ∈ down₂) :
    Beside m prepare partners₁ partners₂ (Stocked m ρ)
      (retryEachFor ctx now ps₁ down₁) (retryEachFor ctx now ps₂ down₂)
      (RetriedAlike m) := by
  induction ps₁ generalizing ps₂ ρ down₁ down₂ with
  | nil =>
      induction ps₂ generalizing down₂ with
      | nil => exact paired_pure fun _ _ hstock => ⟨hdown, hstock.matched⟩
      | cons p ps ih =>
          by_cases hp : m ∈ p.methods
          · rw [partsFor_cons_of_mem hp] at hparts
            cases hparts
          · rw [partsFor_cons_of_not_mem hp] at hparts
            refine beside_retry_symm (beside_record_left hm.symm hp h₂ hdown.symm ?_)
            exact fun d₂ hps hd => beside_retry_symm (ih hparts hps hd.symm)
  | cons p ps ih =>
      by_cases hp : m ∈ p.methods
      · rw [partsFor_cons_of_mem hp] at hparts
        induction ps₂ generalizing down₂ with
        | nil => cases hparts
        | cons p' ps' ih' =>
            by_cases hp' : m ∈ p'.methods
            · rw [partsFor_cons_of_mem hp'] at hparts
              obtain ⟨hhead, htail⟩ := List.cons.inj hparts
              refine beside_record hm hhead h₁ h₂ hdown ?_
              exact fun ρ d₁ d₂ hps hps' hd => ih htail hps hps' hd
            · rw [partsFor_cons_of_not_mem hp'] at hparts
              refine beside_retry_symm (beside_record_left hm.symm hp' h₂ hdown.symm ?_)
              exact fun d₂ hps' hd => beside_retry_symm (ih' hparts hps' hd.symm)
      · rw [partsFor_cons_of_not_mem hp] at hparts
        exact beside_record_left hm hp h₁ hdown fun d₁ hps hd => ih hparts hps h₂ hd

/-! ## The cycle on both sides -/

/-- A call that is asked of no partner and writes nothing, on both sides. -/
theorem Matched.after_unasked (h : Matched m s₁ s₂) {c : Call sdk}
    (hasked : c.isAsked = false) (hwrite : c.isWrite = false) (r₁ r₂ : Answer c) :
    Matched m (s₁.after none c r₁) (s₂.after none c r₂) := by
  have hstore : ∀ (s : Attended sdk) (r : Answer c),
      (s.after none c r).world.store = s.world.store := fun s r =>
    after_of_not_write r hwrite
  have hcalls : ∀ (s : Attended sdk) (r : Answer c),
      providerCalls m (s.after none c r).world.log = providerCalls m s.world.log := by
    intro s r
    cases c <;> first | rfl | cases hasked
  refine ⟨⟨⟨?_, ?_, ?_⟩, ?_, asked_after_congr h.alike.asked hasked hasked⟩,
    h.soundLeft.unchanged (hstore s₁ r₁), h.soundRight.unchanged (hstore s₂ r₂)⟩
  · change s₁.world.accumulator.after c = s₂.world.accumulator.after c
    rw [h.alike.world.accumulator]
  · rw [hstore, hstore]
    exact h.alike.world.store
  · rw [hcalls, hcalls]
    exact h.alike.world.calls
  · have hbatches := h.alike.batches
    cases c <;> first | exact hbatches | exact congrArg (· + 1) hbatches

/-- The servers list the same parts of the method in the same order. -/
theorem Matched.partsFor_eq (h : Matched m s₁ s₂) :
    partsFor m s₁.world.store.listPendingEpochs =
      partsFor m s₂.world.store.listPendingEpochs :=
  Partition.filterMap_inOrder_congr fun e => h.alike.world.store.records e

theorem Attended.Sound.listed {s : Attended sdk} (h : s.Sound m) :
    InStock m (fun e => s.world.store.recordFor m e) s.world.store.listPendingEpochs where
  stored p hp := by
    obtain ⟨e, he⟩ := Partition.mem_inOrder.mp hp
    rw [h.keyed e p he]
    exact congrArg (·.bind fun q => q.partFor m) he
  distinct := nodup_listPendingEpochs h.keyed

/-- Both retry what is pending. -/
theorem beside_retryPending (hm : partners₁ m = partners₂ m) :
    Beside m prepare partners₁ partners₂ (Matched m)
      (retryPendingFor ctx now) (retryPendingFor ctx now) (RetriedAlike m) := by
  intro s₁ s₂ s₁' s₂' out₁ out₂ hmatched h₁ h₂
  obtain ⟨r₁, hr₁, hrest₁⟩ := finishes_call.mp h₁
  obtain ⟨r₂, hr₂, hrest₂⟩ := finishes_call.mp h₂
  cases hr₁
  cases hr₂
  have hlisted₂ := hmatched.soundRight.listed
  rw [← funext hmatched.alike.world.store.records] at hlisted₂
  have hstock := hmatched.after_unasked (c := .listPendingEpochs) rfl rfl
    (.ok s₁.world.store.listPendingEpochs) (.ok s₂.world.store.listPendingEpochs)
  exact beside_retryEach hm hmatched.partsFor_eq hmatched.soundLeft.listed hlisted₂ Iff.rfl
    _ _ _ _ _ _ ⟨hstock, fun _ => rfl⟩ hrest₁ hrest₂

theorem beside_swapAndOpenNext {closedAt nextOpenedAt durationSecs : Nat} :
    Beside m prepare partners₁ partners₂ (Matched m)
      ((SealM.swapAndOpenNext closedAt nextOpenedAt durationSecs).marked none)
      ((SealM.swapAndOpenNext closedAt nextOpenedAt durationSecs).marked none)
      (fun a b s₁ s₂ => a = b ∧ Matched m s₁ s₂) := by
  refine paired_call (fun a b s₁ s₂ => a = b ∧ Matched m s₁ s₂)
    (lasting_apart _ _) (lasting_apart _ _) ?_ fun a b => paired_pure fun _ _ h => h
  intro s₁ s₂ r₁ r₂ hmatched h₁ h₂ _ _
  have hacc := hmatched.alike.world.accumulator
  cases h₁
  cases h₂
  exact ⟨by rw [hacc], hmatched.after_unasked rfl rfl _ _⟩

/-- The batches are prepared alike. -/
theorem beside_prepare (leaves : List Hash32) :
    Beside m prepare partners₁ partners₂ (Matched m)
      ((AquaTimestamp.prepare leaves).marked none)
      ((AquaTimestamp.prepare leaves).marked none)
      (fun a b s₁ s₂ => a = b ∧ Matched m s₁ s₂) := by
  unfold AquaTimestamp.prepare
  split
  · exact paired_pure fun _ _ h => ⟨rfl, h⟩
  · refine paired_call (fun a b s₁ s₂ => a = b ∧ Matched m s₁ s₂)
      (lasting_apart _ _) (lasting_apart _ _) ?_ ?_
    · intro s₁ s₂ r₁ r₂ hmatched h₁ h₂ _ _
      have hbatches := hmatched.alike.batches
      cases h₁
      cases h₂
      exact ⟨by rw [hbatches], hmatched.after_unasked rfl rfl _ _⟩
    · intro a b
      refine paired_of_pre ?_
      rintro rfl
      cases a <;> exact paired_pure fun _ _ h => ⟨rfl, h⟩

section Sealing

variable {record : EpochRecord} {leaves : List LeafEntry}
variable {pending : Option (PendingEpoch sdk)} {st₁ st₂ : Store sdk}

theorem Attended.Sound.sealing {s : Attended sdk} (h : s.Sound m)
    (hbuilt : s.world.store.persistSealedEpochWithPending record leaves [] pending =
      .ok (s.after none (.persistSealedEpoch record leaves [] pending) .ok).world.store) :
    (s.after none (.persistSealedEpoch record leaves [] pending) .ok).Sound m := by
  have hsealed := Store.sealed_of_persistSealedEpoch hbuilt
  constructor
  · intro e q hq
    rw [hsealed.pendingAnchors] at hq
    split at hq
    · exact h.keyed e q hq
    · rw [Partition.getElem?_put] at hq
      split at hq
      · rename_i he
        cases hq
        exact he
      · exact h.keyed e q hq
  · intro tip htip
    unfold Store.pairFor Store.getTipPair at htip
    rw [hsealed.tipToPair] at htip
    obtain ⟨ev, hev, hw⟩ := h.tips tip htip
    exact ⟨ev, List.mem_cons_of_mem _ hev, hw⟩

theorem after_sealing {s : Attended sdk} {o : WriteOutcome}
    {written : Except StoreError (Store sdk)}
    (hb : s.world.store.persistSealedEpochWithPending record leaves [] pending = written) :
    (s.after none (.persistSealedEpoch record leaves [] pending) o).world.store =
      s.world.store.commit o written := by
  rw [← hb]
  rfl

/-- Both seal the closed epoch. -/
theorem Matched.sealed (h : Matched m s₁ s₂)
    (hb₁ : s₁.world.store.persistSealedEpochWithPending record leaves [] pending = .ok st₁)
    (hb₂ : s₂.world.store.persistSealedEpochWithPending record leaves [] pending = .ok st₂) :
    Matched m (s₁.after none (.persistSealedEpoch record leaves [] pending) .ok)
      (s₂.after none (.persistSealedEpoch record leaves [] pending) .ok) := by
  have hst₁ := after_sealing (o := .ok) hb₁
  have hst₂ := after_sealing (o := .ok) hb₂
  refine h.after_write rfl rfl ?_
    (h.soundLeft.sealing (hb₁.trans (congrArg Except.ok hst₁.symm)))
    (h.soundRight.sealing (hb₂.trans (congrArg Except.ok hst₂.symm)))
  rw [hst₁, hst₂]
  exact h.alike.world.store.persistSealedEpoch hb₁ hb₂

/-- Neither seals the closed epoch. -/
theorem Matched.unsealed (h : Matched m s₁ s₂) {e : StoreError}
    (hb₁ : s₁.world.store.persistSealedEpochWithPending record leaves [] pending = .error e)
    (hb₂ : s₂.world.store.persistSealedEpochWithPending record leaves [] pending = .error e) :
    Matched m (s₁.after none (.persistSealedEpoch record leaves [] pending) (.failed e))
      (s₂.after none (.persistSealedEpoch record leaves [] pending) (.failed e)) := by
  have hst₁ := after_sealing (o := .failed e) hb₁
  have hst₂ := after_sealing (o := .failed e) hb₂
  refine h.after_write rfl rfl ?_ (h.soundLeft.unchanged hst₁)
    (h.soundRight.unchanged hst₂)
  rw [hst₁, hst₂]
  exact h.alike.world.store

/-- Both seal the closed epoch, or neither could build the write. -/
theorem beside_persistSealedEpoch :
    Beside m prepare partners₁ partners₂ (Matched m)
      ((SealM.persistSealedEpoch record leaves [] pending).marked none)
      ((SealM.persistSealedEpoch record leaves [] pending).marked none)
      (fun o₁ o₂ s₁ s₂ => o₁ = o₂ ∧ Matched m s₁ s₂ ∧ (o₁ = .ok → ∀ p, pending = some p →
        s₁.world.store.recordFor m p.epochId = p.partFor m)) := by
  refine paired_call (fun o₁ o₂ s₁ s₂ => o₁ = o₂ ∧ Matched m s₁ s₂ ∧ (o₁ = .ok →
      ∀ p, pending = some p → s₁.world.store.recordFor m p.epochId = p.partFor m))
    (lasting_apart _ _) (lasting_apart _ _) ?_ fun _ _ => paired_pure fun _ _ h => h
  intro s₁ s₂ r₁ r₂ hmatched h₁ h₂ _ _
  have ho₁ := Option.some.inj h₁
  have ho₂ := Option.some.inj h₂
  rcases Store.persistSealedEpoch_builds s₁.world.store s₂.world.store record leaves pending
    with ⟨st₁, st₂, hb₁, hb₂⟩ | ⟨e, hb₁, hb₂⟩
  · rw [hb₁] at ho₁
    rw [hb₂] at ho₂
    subst ho₁ ho₂
    refine ⟨rfl, hmatched.sealed hb₁ hb₂, ?_⟩
    rintro - p rfl
    change Store.recordFor (s₁.after none _ _).world.store m p.epochId = p.partFor m
    rw [after_sealing hb₁]
    exact Store.recordFor_persistSealedEpoch hb₁ m
  · rw [hb₁] at ho₁
    rw [hb₂] at ho₂
    subst ho₁ ho₂
    exact ⟨rfl, hmatched.unsealed hb₁ hb₂, by rintro ⟨⟩⟩

end Sealing

/-- Both settle the record of the closed epoch. -/
theorem beside_ownRecord (hm : partners₁ m = partners₂ m) (hdown : m ∈ down₁ ↔ m ∈ down₂)
    {p : PendingEpoch sdk} (record : EpochRecord)
    (witnesses₁ witnesses₂ : List (MintedWitness sdk)) :
    Beside m prepare partners₁ partners₂
      (fun s₁ s₂ => Matched m s₁ s₂ ∧ (WriteOutcome.ok = .ok → ∀ p', some p = some p' →
        s₁.world.store.recordFor m p'.epochId = p'.partFor m))
      (settleMethodsFor ctx now p.methods p down₁ >>= fun out =>
        pure (Except.ok (ε := SealError) (record, witnesses₁ ++ out.2.2)))
      (settleMethodsFor ctx now p.methods p down₂ >>= fun out =>
        pure (Except.ok (ε := SealError) (record, witnesses₂ ++ out.2.2)))
      (fun _ _ s₁ s₂ => Matched m s₁ s₂) := by
  intro s₁ s₂ s₁' s₂' a b hP h₁ h₂ hapart₁ hapart₂
  obtain ⟨hmatched, hstored⟩ := hP
  have hstock : Stocked m (fun e => s₁.world.store.recordFor m e) s₁ s₂ :=
    ⟨hmatched, fun _ => rfl⟩
  have hp := hstored rfl p rfl
  obtain ⟨t₁, out₁, hmethods₁, hpure₁⟩ := finishes_bind.mp h₁
  obtain ⟨t₂, out₂, hmethods₂, hpure₂⟩ := finishes_bind.mp h₂
  obtain ⟨rfl, -⟩ := finishes_pure.mp hpure₁
  obtain ⟨rfl, -⟩ := finishes_pure.mp hpure₂
  have hout := beside_settleMethods hm rfl hdown _ _ _ _ _ _ (hstock.held hp rfl)
    hmethods₁ hmethods₂ hapart₁ hapart₂
  exact hout.2.matched

/-- Both close their epoch. -/
theorem beside_sealSnapshot (hm : partners₁ m = partners₂ m)
    (witnessCtx : Option WitnessContext) (closedAt : Nat)
    (witnesses₁ witnesses₂ : List (MintedWitness sdk)) (snapshot : SealedSnapshot)
    (hdown : m ∈ down₁ ↔ m ∈ down₂) :
    Beside m prepare partners₁ partners₂ (Matched m)
      (sealSnapshotFor witnessCtx closedAt witnesses₁ down₁ snapshot)
      (sealSnapshotFor witnessCtx closedAt witnesses₂ down₂ snapshot)
      (fun _ _ s₁ s₂ => Matched m s₁ s₂) := by
  refine beside_bind _ (beside_prepare _) ?_
  intro answer answer'
  refine paired_of_pre ?_
  rintro rfl
  cases answer with
  | error e => exact paired_pure fun _ _ h => h
  | ok batch =>
      dsimp only
      cases buildRecord snapshot batch with
      | error e => exact paired_pure fun _ _ h => h
      | ok record =>
          refine beside_bind _ beside_persistSealedEpoch ?_
          intro outcome outcome'
          refine paired_of_pre ?_
          rintro rfl
          cases outcome with
          | failed e | unsynced e => exact paired_pure fun _ _ h => h.1
          | ok =>
              cases witnessCtx with
              | none => exact paired_pure fun _ _ h => h.1
              | some ctx =>
                  cases pendingFor (some ctx) snapshot batch with
                  | none => exact paired_pure fun _ _ h => h.1
                  | some p => exact beside_ownRecord hm hdown record witnesses₁ witnesses₂

/-- Both go through a whole cycle. -/
theorem beside_sealOnce (hm : partners₁ m = partners₂ m) (closedAt durationSecs : Nat)
    (witnessCtx : Option WitnessContext) :
    Beside m prepare partners₁ partners₂ (Matched m)
      (sealOnceFor closedAt durationSecs witnessCtx)
      (sealOnceFor closedAt durationSecs witnessCtx)
      (fun _ _ s₁ s₂ => Matched m s₁ s₂) := by
  cases witnessCtx with
  | none =>
      refine beside_bind _ beside_swapAndOpenNext ?_
      intro snapshot snapshot'
      refine paired_of_pre ?_
      rintro rfl
      exact beside_sealSnapshot hm none closedAt [] [] snapshot Iff.rfl
  | some ctx =>
      unfold sealOnceFor
      dsimp only
      cases ctx.validate with
      | error e => exact paired_pure fun _ _ h => h
      | ok _ =>
          refine beside_bind _ (beside_retryPending hm) ?_
          rintro ⟨witnesses₁, down₁⟩ ⟨witnesses₂, down₂⟩
          refine paired_of_pre fun hd => ?_
          refine beside_bind _ beside_swapAndOpenNext ?_
          intro snapshot snapshot'
          refine paired_of_pre ?_
          rintro rfl
          exact beside_sealSnapshot hm (some ctx) closedAt witnesses₁ witnesses₂ snapshot hd

/-! ## Runs on both sides -/

theorem matched_boot (m : AnchorMethod) (now durationSecs : Nat) :
    Matched m (Attended.boot sdk now durationSecs) (Attended.boot sdk now durationSecs) := by
  have hsound : (Attended.boot sdk now durationSecs).Sound m := by
    constructor
    · intro e q hq
      simp [Attended.boot, World.boot, Store.empty] at hq
    · intro tip htip
      simp [Attended.boot, World.boot, Store.pairFor, Store.getTipPair, Store.empty] at htip
  exact ⟨.refl m _, hsound, hsound⟩

/-- An entry of the history that is no call of the sealer. -/
theorem Matched.world {w₁ w₂ : World sdk} {ev₁ ev₂ : Event sdk} (h : Matched m s₁ s₂)
    (hacc : w₁.accumulator = w₂.accumulator) (hstore₁ : w₁.store = s₁.world.store)
    (hstore₂ : w₂.store = s₂.world.store) (hlog₁ : w₁.log = ev₁ :: s₁.world.log)
    (hlog₂ : w₂.log = ev₂ :: s₂.world.log) (hev₁ : ev₁.callsProvider m = false)
    (hev₂ : ev₂.callsProvider m = false) :
    Matched m { s₁ with world := w₁ } { s₂ with world := w₂ } := by
  obtain ⟨⟨⟨-, hagree, hcalls⟩, hbatches, hasked⟩, hsound₁, hsound₂⟩ := h
  have hsound : ∀ (s : Attended sdk) (w : World sdk) (ev : Event sdk), s.Sound m →
      w.store = s.world.store → w.log = ev :: s.world.log →
        Attended.Sound m { s with world := w } := by
    intro s w ev hs hstore hlog
    refine hs.of_eq (congrArg Store.pendingAnchors hstore)
      (congrArg Store.tipToPair hstore) ?_
    change s.world.log ⊆ w.log
    rw [hlog]
    exact List.subset_cons_self ..
  refine ⟨⟨⟨hacc, ?_, ?_⟩, hbatches, hasked⟩, hsound s₁ w₁ ev₁ hsound₁ hstore₁ hlog₁,
    hsound s₂ w₂ ev₂ hsound₂ hstore₂ hlog₂⟩
  · change Store.AgreeOn m w₁.store w₂.store
    rw [hstore₁, hstore₂]
    exact hagree
  · change providerCalls m w₁.log = providerCalls m w₂.log
    rw [hlog₁, hlog₂, providerCalls, providerCalls,
      List.countP_cons_of_neg (by simp [hev₁]), List.countP_cons_of_neg (by simp [hev₂])]
    exact hcalls

/-- The history before a happening is part of the one after it. -/
theorem Attended.Apart.of_play {partners : AnchorMethod → Partner sdk} {s s' : Attended sdk}
    {h : Happening} (hs' : s'.Apart m) (hplay : s.play prepare partners h = some s') :
    s.Apart m := by
  have htail : ∀ (w : World sdk) (ev : Event sdk), w.log = ev :: s.world.log →
      TipsApart m w.log → s.Apart m := by
    intro w ev hlog hw ev₁ hev₁ w₁ hw₁ ev₂ hev₂ w₂ hw₂
    rw [hlog] at hw
    exact hw ev₁ (List.mem_cons_of_mem _ hev₁) w₁ hw₁ ev₂ (List.mem_cons_of_mem _ hev₂)
      w₂ hw₂
  cases h with
  | append batch did =>
      cases hplay
      exact htail (s.world.append batch did) _ rfl hs'
  | restart now durationSecs =>
      cases hplay
      exact htail (s.world.restart now durationSecs) _ rfl hs'
  | tick witnessCtx now durationSecs =>
      obtain ⟨result, hfinishes⟩ := Attended.play_tick hplay
      exact htail (s.world.tick witnessCtx now durationSecs) _ rfl
        ((lasting_apart prepare partners).of_finishes hfinishes hs')

theorem Attended.Apart.of_run {partners : AnchorMethod → Partner sdk} {s s' : Attended sdk}
    {happenings : List Happening} (hs' : s'.Apart m)
    (hrun : s.run prepare partners happenings = some s') : s.Apart m := by
  induction happenings generalizing s with
  | nil =>
      cases hrun
      exact hs'
  | cons happening happenings ih =>
      obtain ⟨t, hplay, hrest⟩ := Option.bind_eq_some_iff.mp hrun
      exact (ih hrest).of_play hplay

/-- What happens to both keeps them matched. -/
theorem Matched.play (hm : partners₁ m = partners₂ m) (h : Matched m s₁ s₂)
    {s₁' s₂' : Attended sdk} {happening : Happening}
    (h₁ : s₁.play prepare partners₁ happening = some s₁')
    (h₂ : s₂.play prepare partners₂ happening = some s₂')
    (hapart₁ : s₁'.Apart m) (hapart₂ : s₂'.Apart m) : Matched m s₁' s₂' := by
  have hworld := h.alike.world
  cases happening with
  | append batch did =>
      cases h₁
      cases h₂
      refine h.world ?_ rfl rfl rfl rfl rfl rfl
      change (s₁.world.accumulator.appendBatch batch did).2 = _
      rw [hworld.accumulator]
      rfl
  | restart now durationSecs =>
      cases h₁
      cases h₂
      refine h.world ?_ rfl rfl rfl rfl rfl rfl
      change Accumulator.new (World.nextEpochId s₁.world.store) now durationSecs =
        Accumulator.new (World.nextEpochId s₂.world.store) now durationSecs
      rw [World.nextEpochId, World.nextEpochId, Store.lastSealedEpochId,
        Store.lastSealedEpochId, hworld.store.epochs]
  | tick witnessCtx now durationSecs =>
      obtain ⟨result₁, hfinishes₁⟩ := Attended.play_tick h₁
      obtain ⟨result₂, hfinishes₂⟩ := Attended.play_tick h₂
      refine beside_sealOnce hm now durationSecs witnessCtx _ _ _ _ _ _ ?_ hfinishes₁
        hfinishes₂ hapart₁ hapart₂
      exact h.world hworld.accumulator rfl rfl rfl rfl rfl rfl

/-- Whole runs keep them matched. -/
theorem Matched.run (hm : partners₁ m = partners₂ m) (h : Matched m s₁ s₂)
    {s₁' s₂' : Attended sdk} {happenings : List Happening}
    (h₁ : s₁.run prepare partners₁ happenings = some s₁')
    (h₂ : s₂.run prepare partners₂ happenings = some s₂')
    (hapart₁ : s₁'.Apart m) (hapart₂ : s₂'.Apart m) : Matched m s₁' s₂' := by
  induction happenings generalizing s₁ s₂ with
  | nil =>
      cases h₁
      cases h₂
      exact h
  | cons happening happenings ih =>
      obtain ⟨t₁, hplay₁, hrest₁⟩ := Option.bind_eq_some_iff.mp h₁
      obtain ⟨t₂, hplay₂, hrest₂⟩ := Option.bind_eq_some_iff.mp h₂
      exact ih (h.play hm hplay₁ hplay₂ (hapart₁.of_run hrest₁) (hapart₂.of_run hrest₂))
        hrest₁ hrest₂

/-! ## Method independence -/

/-- The anchor stored for a method in an epoch. -/
def Store.anchorFor (st : Store sdk) (m : AnchorMethod) (e : Nat) : Option StoredAnchor :=
  st.pendingAnchors[e]?.bind fun p => p.anchorEntry m

/-- The faults stored for a method in an epoch. -/
def Store.faultsFor (st : Store sdk) (m : AnchorMethod) (e : Nat) : Option UInt32 :=
  st.pendingAnchors[e]?.map fun p => p.anchorFaultCount m

/-- Anchors are stored where the method is pending only. -/
theorem Store.HoldsListed.anchorFor_eq {st : Store sdk} (h : st.HoldsListed) (e : Nat) :
    st.anchorFor m e = (st.recordFor m e).bind MethodRecord.anchor := by
  unfold Store.anchorFor Store.recordFor
  cases hp : st.pendingAnchors[e]? with
  | none => rfl
  | some p =>
      rw [Option.bind_some, Option.bind_some, PendingEpoch.partFor]
      split
      · rfl
      · rename_i hnot
        exact Option.not_isSome_iff_eq_none.mp fun hsome => hnot (h e p hp m hsome)

theorem Attended.holdsListed_of_run {partners : AnchorMethod → Partner sdk}
    {s : Attended sdk} {now durationSecs : Nat} {happenings : List Happening}
    (hdistinct : ∀ h ∈ happenings, h.Distinct)
    (hrun : (Attended.boot sdk now durationSecs).run prepare partners happenings = some s) :
    s.world.store.HoldsListed := by
  have hreach := Attended.reachable_run (.boot now durationSecs) hrun hdistinct
  exact (reach_of_reachable hreach).holdsListed indexed_empty methodsNodup_empty
    holdsListed_empty

/-- Two servers with the same submissions, ticks and prepared batches and the
same partner for a method hold the same for it, whatever the other method's
partners do: the epochs it is pending in, with its anchors and its faults
there, its lookups and tips, and the provider calls made for it. -/
theorem method_independence {durationSecs : Nat} {happenings : List Happening}
    (hdistinct : ∀ h ∈ happenings, h.Distinct) (hm : partners₁ m = partners₂ m)
    (h₁ : (Attended.boot sdk now durationSecs).run prepare partners₁ happenings = some s₁)
    (h₂ : (Attended.boot sdk now durationSecs).run prepare partners₂ happenings = some s₂)
    (hapart₁ : TipsApart m s₁.world.log) (hapart₂ : TipsApart m s₂.world.log) :
    World.AgreeOn m s₁.world s₂.world ∧
      ∀ e, s₁.world.store.anchorFor m e = s₂.world.store.anchorFor m e := by
  have hmatched := (matched_boot m now durationSecs).run hm h₁ h₂ hapart₁ hapart₂
  have hagree := hmatched.alike.world
  refine ⟨hagree, fun e => ?_⟩
  rw [(Attended.holdsListed_of_run hdistinct h₁).anchorFor_eq,
    (Attended.holdsListed_of_run hdistinct h₂).anchorFor_eq, hagree.store.records e]

instance (m : AnchorMethod) (log : List (Event Sample.sdk)) : Decidable (TipsApart m log) :=
  inferInstanceAs (Decidable (∀ ev ∈ log, ∀ w ∈ ev.servedWitnesses, ∀ ev' ∈ log,
    ∀ w' ∈ ev'.servedWitnesses, w.method = m → w'.method ≠ m →
      w.signatureHash ≠ w'.signatureHash))

/-- A partner that anchors or not, and whose chain host gives `verdict` until
the partner was asked four times. -/
def Sample.partner (m : AnchorMethod) (anchors : Bool) (verdict : EvmAnchorVerdict) :
    Partner Sample.sdk where
  anchor asked _ root :=
    if anchors then .ok (Sample.anchored (toString asked.length) m root)
    else .error "unreachable"
  finish _ _ targets facts := .ok (Sample.finished targets facts)
  sign _ link := .ok ⟨link, "did:service"⟩
  check asked _ _ _ _ _ :=
    .ok (if asked.length < 4 then Sample.chainAnswers verdict else Sample.verifying)

/-- The first EVM anchor is at fault; the TSA anchors or not. -/
def Sample.partners (tsaAnchors : Bool) : AnchorMethod → Partner Sample.sdk
  | .evm => Sample.partner .evm true (.invalid .reverted "reverted")
  | .qtsa => Sample.partner .qtsa tsaAnchors .verified

/-- An epoch is sealed for both methods and retried once. -/
def Sample.retriedOnce : List Happening :=
  [.append [Sample.leaf 1] "did:a", .tick (some (Sample.ctx [.evm, .qtsa])) 60 60,
    .tick (some (Sample.ctx [.evm, .qtsa])) 120 60]

def Sample.faultedRun (tsaAnchors : Bool) : Option (Attended Sample.sdk) :=
  (Attended.boot Sample.sdk 0 60).run (fun _ targets => .ok targets)
    (Sample.partners tsaAnchors) Sample.retriedOnce

theorem Sample.faultedRun_eq_some (tsaAnchors : Bool) :
    ∃ s, Sample.faultedRun tsaAnchors = some s ∧ TipsApart .evm s.world.log ∧
      s.world.store.faultsFor .evm 1 = if tsaAnchors then none else some 1 := by
  have hrun : ∀ tsaAnchors, (Sample.faultedRun tsaAnchors).any (fun s =>
      TipsApart .evm s.world.log ∧
        s.world.store.faultsFor .evm 1 = if tsaAnchors then none else some 1) = true := by
    decide +kernel
  obtain ⟨s, hs, hfound⟩ := (Option.any_eq_true _ _).mp (hrun tsaAnchors)
  exact ⟨s, hs, of_decide_eq_true hfound⟩

theorem method_independence_faultedRun :
    ∃ s₁ s₂, Sample.faultedRun true = some s₁ ∧ Sample.faultedRun false = some s₂ ∧
      World.AgreeOn .evm s₁.world s₂.world ∧
      ∀ e, s₁.world.store.anchorFor .evm e = s₂.world.store.anchorFor .evm e := by
  obtain ⟨s₁, h₁, hapart₁, -⟩ := Sample.faultedRun_eq_some true
  obtain ⟨s₂, h₂, hapart₂, -⟩ := Sample.faultedRun_eq_some false
  refine ⟨s₁, s₂, h₁, h₂, ?_⟩
  unfold Sample.faultedRun at h₁ h₂
  have hdistinct : ∀ h ∈ Sample.retriedOnce, h.Distinct := by
    simp [Sample.retriedOnce, Happening.Distinct, DistinctMethods, Sample.ctx]
  have hm : Sample.partners true .evm = Sample.partners false .evm := rfl
  exact method_independence hdistinct hm h₁ h₂ hapart₁ hapart₂

/-- The faults of a method that is served are gone with the record, and the
record stays for as long as the other method is pending. -/
theorem exists_faults_differ :
    ∃ s₁ s₂, Sample.faultedRun true = some s₁ ∧ Sample.faultedRun false = some s₂ ∧
      Sample.partners true .evm = Sample.partners false .evm ∧
      TipsApart .evm s₁.world.log ∧ TipsApart .evm s₂.world.log ∧
      s₁.world.store.faultsFor .evm 1 = none ∧
      s₂.world.store.faultsFor .evm 1 = some 1 := by
  obtain ⟨s₁, h₁, hapart₁, hfaults₁⟩ := Sample.faultedRun_eq_some true
  obtain ⟨s₂, h₂, hapart₂, hfaults₂⟩ := Sample.faultedRun_eq_some false
  exact ⟨s₁, s₂, h₁, h₂, rfl, hapart₁, hapart₂, hfaults₁, hfaults₂⟩

end AquaTimestamp
