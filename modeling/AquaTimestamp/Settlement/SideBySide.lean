import AquaTimestamp.Model.Partners
import AquaTimestamp.Settlement.ForMethod
import AquaTimestamp.Settlement.Refinement

/-!
# Two servers side by side

Two servers are compared by what they hold for one method.  What the calls
made for the other method do leaves that alone; what is done for the method
itself happens on both sides.

A tip is a hash.  When a witness of the other method had the tip of one of
this method it would overwrite its index entry, so the histories are those in
which the tips of the two differ.
-/

namespace AquaTimestamp

open Support Executor

variable {sdk : Sdk} {m : AnchorMethod}

/-! ## What is compared -/

/-- The provider of the method was called. -/
def Event.callsProvider (m : AnchorMethod) : Event sdk → Bool
  | .call (.createTimestamp _ m' _) _ => m' = m
  | _ => false

/-- How often the method's provider was called. -/
def providerCalls (m : AnchorMethod) (log : List (Event sdk)) : Nat :=
  log.countP (Event.callsProvider m)

/-- The worlds hold the same for a method: what is pending for it, with its
anchor and its faults, its lookups, tips and pairs, and the provider calls made
for it. -/
structure World.AgreeOn (m : AnchorMethod) (w w' : World sdk) : Prop where
  accumulator : w.accumulator = w'.accumulator
  store : Store.AgreeOn m w.store w'.store
  calls : providerCalls m w.log = providerCalls m w'.log

/-- No witness served for the other method has the tip of one served for
`m`. -/
def TipsApart (m : AnchorMethod) (log : List (Event sdk)) : Prop :=
  ∀ ev ∈ log, ∀ w ∈ ev.servedWitnesses, ∀ ev' ∈ log, ∀ w' ∈ ev'.servedWitnesses,
    w.method = m → w'.method ≠ m → w.signatureHash ≠ w'.signatureHash

/-- The history of the server keeps the tips apart. -/
def Attended.Apart (m : AnchorMethod) (s : Attended sdk) : Prop :=
  TipsApart m s.world.log

/-- The servers agree on the method, and so does what its partner was asked. -/
structure Alike (m : AnchorMethod) (s s' : Attended sdk) : Prop where
  world : World.AgreeOn m s.world s'.world
  batches : s.batches = s'.batches
  asked : s.asked m = s'.asked m

theorem Alike.refl (m : AnchorMethod) (s : Attended sdk) : Alike m s s :=
  ⟨⟨rfl, .refl m _, rfl⟩, rfl, rfl⟩

theorem Alike.symm {s s' : Attended sdk} (h : Alike m s s') : Alike m s' s :=
  ⟨⟨h.world.accumulator.symm, h.world.store.symm, h.world.calls.symm⟩,
    h.batches.symm, h.asked.symm⟩

theorem Alike.trans {s s' s'' : Attended sdk} (h : Alike m s s')
    (h' : Alike m s' s'') : Alike m s s'' :=
  ⟨⟨h.world.accumulator.trans h'.world.accumulator,
    h.world.store.trans h'.world.store, h.world.calls.trans h'.world.calls⟩,
    h.batches.trans h'.batches, h.asked.trans h'.asked⟩

/-- Pending records are stored under their ids, and the method's tips are those
of its served witnesses. -/
structure Attended.Sound (m : AnchorMethod) (s : Attended sdk) : Prop where
  keyed : ∀ (e : Nat) q, s.world.store.pendingAnchors[e]? = some q → q.epochId = e
  tips : ∀ tip, s.world.store.pairFor m tip ≠ none →
    ∃ ev ∈ s.world.log, ∃ w ∈ ev.servedWitnesses,
      w.method = m ∧ w.signatureHash = tip

theorem Attended.Sound.of_eq {s s' : Attended sdk} (h : s.Sound m)
    (hanchors : s'.world.store.pendingAnchors = s.world.store.pendingAnchors)
    (htips : s'.world.store.tipToPair = s.world.store.tipToPair)
    (hlog : s.world.log ⊆ s'.world.log) : s'.Sound m where
  keyed := by
    rw [hanchors]
    exact h.keyed
  tips tip htip := by
    unfold Store.pairFor Store.getTipPair at htip
    rw [htips] at htip
    obtain ⟨ev, hev, hw⟩ := h.tips tip htip
    exact ⟨ev, hlog hev, hw⟩

section Steps

variable {prepare prepare₁ prepare₂ : Preparing sdk}
variable {partners partners₁ partners₂ : AnchorMethod → Partner sdk}
variable {s s₁ s₂ : Attended sdk} {m' : AnchorMethod}

theorem lasting_apart (prepare : Preparing sdk) (partners : AnchorMethod → Partner sdk) :
    (attend prepare partners).Lasting (Attended.Apart m) := by
  intro s c r h ev hev w hw ev' hev' w' hw'
  exact h ev (List.mem_cons_of_mem _ hev) w hw ev' (List.mem_cons_of_mem _ hev') w' hw'

/-! ## Calls made for the other method -/

/-- A call made for `m'` that leaves the part of `m` in the record of `e`. -/
def Call.Spares (m m' : AnchorMethod) (e : Nat) (v : Option (MethodRecord sdk)) :
    Call sdk → Prop
  | .createTimestamp _ k _ => k = m'
  | .finishBatchTimestamp .. => True
  | .signRevision _ => True
  | .selfCheck .. => True
  | .savePending p => p.epochId = e ∧ p.partFor m = v
  | .persistPendingMinted p done minted =>
      p.epochId = e ∧ p.partFor m = v ∧ done = m' ∧ ∀ w ∈ minted, w.method = m'
  | _ => False

theorem after_asked_store {k : Option AnchorMethod} {c : Call sdk} {r : Answer c}
    (hc : c.isAsked = true) : (s.after k c r).world.store = s.world.store := by
  cases c <;> first | rfl | cases hc

theorem after_asked_sound {k : Option AnchorMethod} {c : Call sdk} {r : Answer c}
    (hc : c.isAsked = true) (h : s.Sound m) : (s.after k c r).Sound m := by
  have hstore := after_asked_store (s := s) (k := k) (r := r) hc
  exact h.of_eq (by rw [hstore]) (by rw [hstore]) (List.subset_cons_self ..)

theorem asked_after_of_not_asked {k : Option AnchorMethod} {c : Call sdk}
    {r : Answer c} (hc : c.isAsked = false) : (s.after k c r).asked m = s.asked m :=
  if_neg fun h => by rw [hc] at h; cases h.2

theorem alike_after_asked (hne : m' ≠ m) {c : Call sdk} {r : Answer c}
    (hc : c.isAsked = true) (hprovider : Event.callsProvider m (.call c r) = false) :
    Alike m s (s.after (some m') c r) where
  world :=
    { accumulator := by cases c <;> first | rfl | cases hc
      store := by
        rw [after_asked_store hc]
        exact .refl m _
      calls := by
        change _ = List.countP _ (_ :: _)
        rw [List.countP_cons_of_neg (by simpa using hprovider)]
        rfl }
  batches := by cases c <;> first | rfl | cases hc
  asked := by
    have hk : ¬ (some m' = some m ∧ c.isAsked = true) := fun h => hne (Option.some.inj h.1)
    exact (if_neg hk).symm

theorem sound_savePending (h : s.Sound m) (k : Option AnchorMethod) (p : PendingEpoch sdk) :
    (s.after k (.savePending p) .ok).Sound m where
  keyed e q hq := by
    change (s.world.store.savePending p).pendingAnchors[e]? = some q at hq
    by_cases he : p.epochId = e
    · subst he
      rw [savePending_self] at hq
      cases hq
      rfl
    · rw [savePending_of_ne _ _ he] at hq
      exact h.keyed e q hq
  tips tip htip := by
    obtain ⟨ev, hev, hw⟩ := h.tips tip htip
    exact ⟨ev, List.mem_cons_of_mem _ hev, hw⟩

/-- A write of witnesses either could not be built, or served them. -/
theorem after_serving (k : Option AnchorMethod) {p : PendingEpoch sdk}
    {done : AnchorMethod} {minted : List (MintedWitness sdk)} {o : WriteOutcome}
    (ho : o = WriteOutcome.ok.ofBuilt (s.world.store.persistPendingMinted p done minted)) :
    (o.isOk = false ∧ o.committed = false ∧
        (s.after k (.persistPendingMinted p done minted) o).world.store =
          s.world.store) ∨
      (o = .ok ∧ s.world.store.persistPendingMinted p done minted =
        .ok (s.after k (.persistPendingMinted p done minted) o).world.store) := by
  subst ho
  cases hbuilt : s.world.store.persistPendingMinted p done minted with
  | error e =>
      refine Or.inl ⟨rfl, rfl, ?_⟩
      change s.world.store.commit _ (s.world.store.persistPendingMinted p done minted) = _
      rw [hbuilt]
      rfl
  | ok st =>
      refine Or.inr ⟨rfl, ?_⟩
      change _ = Except.ok
        (s.world.store.commit _ (s.world.store.persistPendingMinted p done minted))
      rw [hbuilt]
      rfl

theorem sound_serving (h : s.Sound m) {k : Option AnchorMethod} {p : PendingEpoch sdk}
    {done : AnchorMethod} {minted : List (MintedWitness sdk)}
    (hbuilt : s.world.store.persistPendingMinted p done minted =
      .ok (s.after k (.persistPendingMinted p done minted) .ok).world.store) :
    (s.after k (.persistPendingMinted p done minted) .ok).Sound m := by
  have hserved := Store.served_of_persistPendingMinted hbuilt
  constructor
  · intro e q hq
    by_cases he : p.epochId = e
    · subst he
      rw [hserved.pending_self] at hq
      split at hq
      · cases hq
      · cases hq
        rfl
    · rw [hserved.pending_of_ne he] at hq
      exact h.keyed e q hq
  · intro tip htip
    unfold Store.pairFor Store.getTipPair at htip
    rw [hserved.tipToPair] at htip
    rcases Partition.putAll_cases s.world.store.tipToPair
      (minted.map fun w => (w.signatureHash, Store.pairIndex w)) tip rfl with
      ⟨idx, hsome, hmem⟩ | ⟨-, hold⟩
    · obtain ⟨w, hw, heq⟩ := List.mem_map.mp hmem
      obtain ⟨rfl, rfl⟩ := Prod.mk.inj heq
      rw [hsome] at htip
      have hbyte : (Store.pairIndex w).methodByte = m.methodByte := by
        by_contra hbyte
        exact htip (Option.filter_some_neg (by simpa using hbyte))
      exact ⟨_, List.mem_cons_self .., w, hw, AnchorMethod.methodByte_injective hbyte, rfl⟩
    · rw [← hold] at htip
      obtain ⟨ev, hev, hw⟩ := h.tips tip htip
      exact ⟨ev, List.mem_cons_of_mem _ hev, hw⟩

/-- What is done for the other method leaves this one's part alone. -/
theorem alike_of_spares (hne : m' ≠ m) (hsound : s.Sound m) {e : Nat}
    {v : Option (MethodRecord sdk)} (hv : s.world.store.recordFor m e = v)
    {c : Call sdk} {r : Answer c} (hc : c.Spares m m' e v)
    (hr : (attend prepare partners).answer s (some m', c) = some r)
    (hapart : (s.after (some m') c r).Apart m) :
    Alike m s (s.after (some m') c r) ∧ (s.after (some m') c r).Sound m := by
  cases c with
  | createTimestamp e' k root =>
      obtain rfl : k = m' := hc
      exact ⟨alike_after_asked hne rfl (by simp [Event.callsProvider, hne]),
        after_asked_sound rfl hsound⟩
  | finishBatchTimestamp | signRevision | selfCheck =>
      exact ⟨alike_after_asked hne rfl rfl, after_asked_sound rfl hsound⟩
  | savePending p =>
      cases hr
      obtain ⟨rfl, rfl⟩ := hc
      refine ⟨⟨⟨rfl, Store.agreeOn_savePending hv, rfl⟩, rfl,
        (asked_after_of_not_asked rfl).symm⟩, ?_⟩
      exact sound_savePending hsound _ p
  | persistPendingMinted p done minted =>
      have hr' : r = WriteOutcome.ok.ofBuilt
          (s.world.store.persistPendingMinted p done minted) := (Option.some.inj hr).symm
      obtain ⟨rfl, rfl, rfl, hminted⟩ := hc
      rcases after_serving (some done) hr' with ⟨-, -, hstore⟩ | ⟨rfl, hbuilt⟩
      · refine ⟨⟨⟨rfl, ?_, rfl⟩, rfl, (asked_after_of_not_asked rfl).symm⟩, ?_⟩
        · rw [hstore]
          exact .refl m _
        · exact hsound.of_eq (by rw [hstore]) (by rw [hstore]) (List.subset_cons_self ..)
      · refine ⟨⟨⟨rfl, ?_, rfl⟩, rfl, (asked_after_of_not_asked rfl).symm⟩,
          sound_serving hsound hbuilt⟩
        refine Store.agreeOn_persistPendingMinted hbuilt hne hminted hv ?_
        intro w hw
        by_contra htip
        obtain ⟨ev, hev, w', hw', hmethod, hhash⟩ := hsound.tips _ htip
        refine hapart ev (List.mem_cons_of_mem _ hev) w' hw' _ (List.mem_cons_self ..) w hw
          hmethod ?_ hhash
        rw [hminted w hw]
        exact hne
  | listPendingEpochs | swapAndOpenNext | prepareBatchTimestamp | persistSealedEpoch
  | panicked => exact absurd hc id

end Steps

/-! ## The other method's part of a settlement -/

/-- The part of `m` in a record and its place among the methods that are down
are what they were. -/
def KeepsPart (m : AnchorMethod) (p p' : PendingEpoch sdk)
    (down down' : List AnchorMethod) : Prop :=
  p'.forMethod m = p.forMethod m ∧ (m ∈ down' ↔ m ∈ down)

section Other

variable {m' : AnchorMethod} {ctx : WitnessContext} {p q : PendingEpoch sdk}
variable {down : List AnchorMethod} {now : Nat}

/-- The calls that spare the part of `m` in the record `p`. -/
abbrev SparesPart (m m' : AnchorMethod) (p : PendingEpoch sdk) (c : Call sdk)
    (_ : Answer c) : Prop :=
  c.Spares m m' p.epochId (p.partFor m)

theorem spares_of_minting {c : Call sdk} {r : Answer c} (h : Minting c r) :
    SparesPart m m' p c r := by
  cases c <;> trivial

theorem spares_savePending (hq : q.forMethod m = p.forMethod m) {r : WriteOutcome} :
    SparesPart m m' p (.savePending q) r :=
  ⟨PendingEpoch.epochId_congr hq, PendingEpoch.partFor_congr hq⟩

theorem spares_storeAnchor (hq : q.forMethod m = p.forMethod m) :
    (storeAnchor q).Within (SparesPart m m' p) fun _ => True := by
  refine Prog.within_ask fun first => ⟨spares_savePending hq, ?_⟩
  split
  · trivial
  · exact Prog.within_ask fun second => ⟨spares_savePending hq, trivial⟩

theorem mem_down_cons (hne : m' ≠ m) : m ∈ m' :: down ↔ m ∈ down := by
  simp [Ne.symm hne]

theorem spares_obtainAnchor (hne : m' ≠ m) :
    (obtainAnchor ctx p m' down now).Within (SparesPart m m' p)
      fun out => KeepsPart m p out.1 down out.2.1 := by
  unfold obtainAnchor
  split
  · exact ⟨rfl, Iff.rfl⟩
  · split
    · exact ⟨rfl, Iff.rfl⟩
    · split
      · exact ⟨rfl, Iff.rfl⟩
      · refine Prog.within_bind (R := fun _ => True) ?_ ?_
        · unfold anchorRoot
          split
          · refine Prog.within_ask fun answer => ⟨rfl, ?_⟩
            cases answer <;> trivial
          · trivial
        · rintro (_ | value) -
          · exact ⟨rfl, mem_down_cons hne⟩
          · have hheld := PendingEpoch.forMethod_setAnchor_of_ne p hne value now
            refine Prog.within_bind (spares_storeAnchor hheld) ?_
            intro stored _
            split
            · exact ⟨hheld, Iff.rfl⟩
            · exact ⟨hheld, mem_down_cons hne⟩

theorem forMethod_discardAnchor_of_ne (hne : m' ≠ m) :
    (discardAnchor q m').forMethod m = q.forMethod m := by
  rw [discardAnchor, PendingEpoch.forMethod_dropAnchor_of_ne _ hne,
    PendingEpoch.forMethod_countAnchorFault_of_ne _ hne]

theorem forMethod_anchorFirstSeen_of_ne (hne : m' ≠ m) {seen : Nat × Bool}
    {touched : PendingEpoch sdk} (h : q.anchorFirstSeen m' now = some (seen, touched)) :
    touched.forMethod m = q.forMethod m := by
  obtain ⟨a, -, hout⟩ := Option.map_eq_some_iff.mp h
  cases hfirst : a.firstSeen with
  | some t =>
      rw [hfirst] at hout
      obtain ⟨-, rfl⟩ := Prod.mk.inj hout
      rfl
  | none =>
      rw [hfirst] at hout
      obtain ⟨-, rfl⟩ := Prod.mk.inj hout
      exact PendingEpoch.forMethod_touchAnchor_of_ne q hne now

theorem spares_settleMissing (hne : m' ≠ m) (hq : q.forMethod m = p.forMethod m) :
    (settleMissing ctx q m' now).Within (SparesPart m m' p)
      fun out => out.forMethod m = p.forMethod m := by
  unfold settleMissing
  split
  · exact hq
  · rename_i firstSeen changed seen hseen
    have htouched := (forMethod_anchorFirstSeen_of_ne hne hseen).trans hq
    have hdiscarded := (forMethod_discardAnchor_of_ne (q := seen) hne).trans htouched
    split
    · split
      · exact Prog.within_ask fun _ => ⟨spares_savePending htouched, htouched⟩
      · exact htouched
    · exact Prog.within_ask fun _ => ⟨spares_savePending hdiscarded, hdiscarded⟩

theorem spares_settleVerdict (hne : m' ≠ m) (hq : q.forMethod m = p.forMethod m)
    {minted : List (MintedWitness sdk)} (hminted : ∀ w ∈ minted, w.method = m')
    (verdict : Option SelfCheckVerdict) :
    (settleVerdict ctx q m' down now minted verdict).Within (SparesPart m m' p)
      fun out => KeepsPart m p out.1 down out.2.1 := by
  unfold settleVerdict
  split
  · refine Prog.within_bind (spares_settleMissing hne hq) ?_
    exact fun settled hsettled => ⟨hsettled, Iff.rfl⟩
  · have hdiscarded := (forMethod_discardAnchor_of_ne (q := q) hne).trans hq
    refine Prog.within_ask fun _ => ⟨spares_savePending hdiscarded, ?_⟩
    exact ⟨hdiscarded, mem_down_cons hne⟩
  · exact ⟨hq, Iff.rfl⟩
  · have hwithout := (PendingEpoch.forMethod_without_of_ne q hne).trans hq
    refine Prog.within_ask fun outcome => ⟨⟨PendingEpoch.epochId_congr hwithout,
      PendingEpoch.partFor_congr hwithout, rfl, hminted⟩, ?_⟩
    split
    · exact ⟨hwithout, Iff.rfl⟩
    · exact ⟨hq, Iff.rfl⟩

/-- Settling the other method spares this one. -/
theorem spares_settleMethod (hne : m' ≠ m) :
    (settleMethod ctx p m' down now).Within (SparesPart m m' p)
      fun out => KeepsPart m p out.1 down out.2.1 := by
  unfold settleMethod
  split
  · exact ⟨rfl, Iff.rfl⟩
  · refine Prog.within_bind (spares_obtainAnchor hne) ?_
    rintro ⟨q, down', _ | value⟩ ⟨hq, hdown⟩
    · exact ⟨hq, hdown⟩
    · refine Prog.within_bind (Prog.within_mono (within_mintFrom_methods q m' value)
        (fun _ _ => spares_of_minting) fun _ h => h) ?_
      rintro (e | minted) hminted
      · exact ⟨hq, hdown⟩
      · refine Prog.within_ask fun answer => ⟨trivial, ?_⟩
        refine Prog.within_mono (spares_settleVerdict hne hq (hminted minted rfl) _)
          (fun _ _ h => h) ?_
        exact fun out hout => ⟨hout.1, hout.2.trans hdown⟩

end Other

/-! ## Two servers side by side -/

/-- The servers agree on the method, and each of them is sound. -/
structure Matched (m : AnchorMethod) (s₁ s₂ : Attended sdk) : Prop where
  alike : Alike m s₁ s₂
  soundLeft : s₁.Sound m
  soundRight : s₂.Sound m

theorem Matched.symm {s₁ s₂ : Attended sdk} (h : Matched m s₁ s₂) : Matched m s₂ s₁ :=
  ⟨h.alike.symm, h.soundRight, h.soundLeft⟩

/-- Both settle the record of epoch `i`, whose part for the method is the same
and is the stored one; what is stored for it in other epochs is `ρ`. -/
structure Held (m : AnchorMethod) (i : Nat) (ρ : Nat → Option (MethodRecord sdk))
    (p₁ p₂ : PendingEpoch sdk) (s₁ s₂ : Attended sdk) : Prop where
  matched : Matched m s₁ s₂
  epochId : p₁.epochId = i
  record : p₁.forMethod m = p₂.forMethod m
  stored : ∀ e, s₁.world.store.recordFor m e = if i = e then p₁.partFor m else ρ e

section Beside

variable {prepare : Preparing sdk} {partners₁ partners₂ : AnchorMethod → Partner sdk}
variable {i : Nat} {ρ : Nat → Option (MethodRecord sdk)} {p₁ p₂ q₁ q₂ : PendingEpoch sdk}
variable {s₁ s₂ s₁' : Attended sdk} {m' : AnchorMethod} {ctx : WitnessContext}
variable {down₁ down₂ : List AnchorMethod} {now : Nat} {α β : Type}

theorem Held.symm (h : Held m i ρ p₁ p₂ s₁ s₂) : Held m i ρ p₂ p₁ s₂ s₁ where
  matched := h.matched.symm
  epochId := (PendingEpoch.epochId_congr h.record).symm.trans h.epochId
  record := h.record.symm
  stored e := by
    rw [← h.matched.alike.world.store.records e, h.stored e,
      PendingEpoch.partFor_congr h.record]

/-- The left server has done something that leaves the method's part alone. -/
theorem Held.of_alike (h : Held m i ρ p₁ p₂ s₁ s₂) (halike : Alike m s₁ s₁')
    (hsound : s₁'.Sound m) (hq : q₁.forMethod m = p₁.forMethod m) :
    Held m i ρ q₁ p₂ s₁' s₂ where
  matched := ⟨halike.symm.trans h.matched.alike, hsound, h.matched.soundRight⟩
  epochId := (PendingEpoch.epochId_congr hq).trans h.epochId
  record := hq.trans h.record
  stored e := by
    rw [← halike.world.store.records e, h.stored e, PendingEpoch.partFor_congr hq]

variable (m prepare partners₁ partners₂) in
/-- Two finished programs of the servers, side by side. -/
abbrev Beside (P : Attended sdk → Attended sdk → Prop) (p₁ : MarkedM sdk α)
    (p₂ : MarkedM sdk β) (Q : α → β → Attended sdk → Attended sdk → Prop) : Prop :=
  Paired (attend prepare partners₁) (attend prepare partners₂) (Attended.Apart m) P p₁ p₂ Q

theorem beside_bind {P : Attended sdk → Attended sdk → Prop} {γ δ : Type}
    {p₁ : MarkedM sdk α} {p₂ : MarkedM sdk β} {f₁ : α → MarkedM sdk γ}
    {f₂ : β → MarkedM sdk δ} {Q : γ → δ → Attended sdk → Attended sdk → Prop}
    (R : α → β → Attended sdk → Attended sdk → Prop)
    (hp : Beside m prepare partners₁ partners₂ P p₁ p₂ R)
    (hf : ∀ a b, Beside m prepare partners₁ partners₂ (R a b) (f₁ a) (f₂ b) Q) :
    Beside m prepare partners₁ partners₂ P (p₁ >>= f₁) (p₂ >>= f₂) Q :=
  paired_bind R (lasting_apart _ _) (lasting_apart _ _) hp hf

/-- The left server settles the other method; the right one does nothing. -/
theorem beside_other (hne : m' ≠ m) :
    Beside m prepare partners₁ partners₂ (Held m i ρ p₁ p₂)
      ((settleMethod ctx p₁ m' down₁ now).marked (some m')) (pure ())
      (fun out _ s₁ s₂ => (m ∈ out.2.1 ↔ m ∈ down₁) ∧ Held m i ρ out.1 p₂ s₁ s₂) := by
  intro s₁ s₂ s₁' s₂' out u hheld h₁ h₂ hapart _
  obtain ⟨rfl, -⟩ := finishes_pure.mp h₂
  have hkept := h₁.kept (P := fun s => Alike m s₁ s ∧ s.Sound m)
    (lasting_apart (m := m) prepare partners₁)
    (Prog.within_marked (k := some m') (spares_settleMethod hne)) ?_
    ⟨.refl m _, hheld.matched.soundLeft⟩ hapart
  · obtain ⟨⟨hpart, hdown⟩, halike, hsound⟩ := hkept
    exact ⟨hdown, hheld.of_alike halike hsound hpart⟩
  · rintro s ⟨k, c⟩ r ⟨rfl, hc⟩ ⟨halike, hsound⟩ hr hfine
    have hv : s.world.store.recordFor m p₁.epochId = p₁.partFor m := by
      rw [← halike.world.store.records, hheld.stored, if_pos hheld.epochId.symm]
    obtain ⟨hnext, hsound'⟩ := alike_of_spares hne hsound hv hc hr hfine
    exact ⟨halike.trans hnext, hsound'⟩

/-! ## Calls made for the method on both sides -/

theorem Held.after_asked (h : Held m i ρ p₁ p₂ s₁ s₂) {c : Call sdk} (r : Answer c)
    (hc : c.isAsked = true) :
    Held m i ρ p₁ p₂ (s₁.after (some m) c r) (s₂.after (some m) c r) where
  matched :=
    { alike :=
        { world :=
            { accumulator := by
                have hacc := h.matched.alike.world.accumulator
                cases c <;> first | exact hacc | cases hc
              store := by
                rw [after_asked_store hc, after_asked_store hc]
                exact h.matched.alike.world.store
              calls := by
                change List.countP _ (_ :: _) = List.countP _ (_ :: _)
                rw [List.countP_cons, List.countP_cons]
                exact congrArg (· + _) h.matched.alike.world.calls }
          batches := by
            have hbatches := h.matched.alike.batches
            cases c <;> first | exact hbatches | cases hc
          asked := by
            have hk : some m = some m ∧ c.isAsked = true := ⟨rfl, hc⟩
            change (if _ then _ else _) = if _ then _ else _
            rw [if_pos hk, if_pos hk, h.matched.alike.asked] }
      soundLeft := after_asked_sound hc h.matched.soundLeft
      soundRight := after_asked_sound hc h.matched.soundRight }
  epochId := h.epochId
  record := h.record
  stored := by
    rw [after_asked_store hc]
    exact h.stored

/-- The method's partner gives the same answer on both sides. -/
theorem answer_eq (hm : partners₁ m = partners₂ m) (h : s₁.asked m = s₂.asked m)
    {c : Call sdk} {r₁ r₂ : Answer c} (hc : c.isAsked = true)
    (h₁ : (attend prepare partners₁).answer s₁ (some m, c) = some r₁)
    (h₂ : (attend prepare partners₂).answer s₂ (some m, c) = some r₂) : r₁ = r₂ := by
  change (if c.isAsked = true then (partners₁ m).answer (s₁.asked m) c else _) = _ at h₁
  change (if c.isAsked = true then (partners₂ m).answer (s₂.asked m) c else _) = _ at h₂
  rw [if_pos hc] at h₁ h₂
  rw [hm, h, h₂] at h₁
  exact (Option.some.inj h₁).symm

/-- A program that only asks the method's partner does the same on both
sides. -/
theorem beside_same (hm : partners₁ m = partners₂ m) {q : SealM sdk α} {Q : α → Prop}
    (hq : q.Within (fun c _ => c.isAsked = true) Q) :
    Beside m prepare partners₁ partners₂ (Held m i ρ p₁ p₂)
      (q.marked (some m)) (q.marked (some m))
      (fun a b s₁ s₂ => (a = b ∧ Q a) ∧ Held m i ρ p₁ p₂ s₁ s₂) := by
  induction q with
  | pure a => exact paired_pure fun s₁ s₂ h => ⟨⟨rfl, hq⟩, h⟩
  | call c next ih =>
      refine paired_call (fun r₁ r₂ s₁ s₂ => r₁ = r₂ ∧ Held m i ρ p₁ p₂ s₁ s₂)
        (lasting_apart _ _) (lasting_apart _ _) ?_ ?_
      · intro s₁ s₂ r₁ r₂ hheld h₁ h₂ _ _
        have hc := (hq r₁).1
        obtain rfl := answer_eq hm hheld.matched.alike.asked hc h₁ h₂
        exact ⟨rfl, hheld.after_asked r₁ hc⟩
      · intro r₁ r₂
        refine paired_of_pre ?_
        rintro rfl
        exact ih r₁ (hq r₁).2

theorem asked_after_congr (h : s₁.asked m = s₂.asked m) {k k' : Option AnchorMethod}
    {c c' : Call sdk} {r : Answer c} {r' : Answer c'} (hc : c.isAsked = false)
    (hc' : c'.isAsked = false) : (s₁.after k c r).asked m = (s₂.after k' c' r').asked m := by
  rw [asked_after_of_not_asked hc, asked_after_of_not_asked hc', h]

/-- Writes that leave the stores agreeing, on both sides. -/
theorem Matched.after_write (h : Matched m s₁ s₂) {k : Option AnchorMethod}
    {c₁ c₂ : Call sdk} {r₁ : Answer c₁} {r₂ : Answer c₂} (hc₁ : c₁.isWrite = true)
    (hc₂ : c₂.isWrite = true)
    (hstore : Store.AgreeOn m (s₁.after k c₁ r₁).world.store
      (s₂.after k c₂ r₂).world.store)
    (hsound₁ : (s₁.after k c₁ r₁).Sound m) (hsound₂ : (s₂.after k c₂ r₂).Sound m) :
    Matched m (s₁.after k c₁ r₁) (s₂.after k c₂ r₂) := by
  have hkept : ∀ (s : Attended sdk) (c : Call sdk) (r : Answer c), c.isWrite = true →
      (s.after k c r).world.accumulator = s.world.accumulator ∧
        providerCalls m (s.after k c r).world.log = providerCalls m s.world.log ∧
        (s.after k c r).batches = s.batches ∧ c.isAsked = false := by
    intro s c r hc
    cases c <;> first | exact ⟨rfl, rfl, rfl, rfl⟩ | cases hc
  obtain ⟨hacc₁, hcalls₁, hbatches₁, hasked₁⟩ := hkept s₁ c₁ r₁ hc₁
  obtain ⟨hacc₂, hcalls₂, hbatches₂, hasked₂⟩ := hkept s₂ c₂ r₂ hc₂
  have hworld := h.alike.world
  refine ⟨⟨⟨?_, hstore, ?_⟩, ?_, asked_after_congr h.alike.asked hasked₁ hasked₂⟩,
    hsound₁, hsound₂⟩
  · rw [hacc₁, hacc₂, hworld.accumulator]
  · rw [hcalls₁, hcalls₂, hworld.calls]
  · rw [hbatches₁, hbatches₂, h.alike.batches]

/-- A write that changes nothing. -/
theorem Attended.Sound.unchanged {s : Attended sdk} (h : s.Sound m) {k : Option AnchorMethod}
    {c : Call sdk} {r : Answer c}
    (hstore : (s.after k c r).world.store = s.world.store) : (s.after k c r).Sound m :=
  h.of_eq (congrArg Store.pendingAnchors hstore) (congrArg Store.tipToPair hstore)
    (List.subset_cons_self ..)

/-- Both save their record. -/
theorem beside_savePending {next₁ : WriteOutcome → SealM sdk α}
    {next₂ : WriteOutcome → SealM sdk β} {Q : α → β → Attended sdk → Attended sdk → Prop}
    (hid : q₁.epochId = p₁.epochId) (hq : q₁.forMethod m = q₂.forMethod m)
    (hnext : Beside m prepare partners₁ partners₂ (Held m i ρ q₁ q₂)
      ((next₁ .ok).marked (some m)) ((next₂ .ok).marked (some m)) Q) :
    Beside m prepare partners₁ partners₂ (Held m i ρ p₁ p₂)
      ((SealM.savePending q₁ >>= next₁).marked (some m))
      ((SealM.savePending q₂ >>= next₂).marked (some m)) Q := by
  refine paired_call (fun r₁ r₂ s₁ s₂ => (r₁ = .ok ∧ r₂ = .ok) ∧ Held m i ρ q₁ q₂ s₁ s₂)
    (lasting_apart _ _) (lasting_apart _ _) ?_ ?_
  · intro s₁ s₂ r₁ r₂ hheld h₁ h₂ _ _
    cases h₁
    cases h₂
    have hmatched := hheld.matched
    have hstore := hmatched.alike.world.store.savePending hq
    refine ⟨⟨rfl, rfl⟩, hmatched.after_write rfl rfl hstore
      (sound_savePending hmatched.soundLeft _ _) (sound_savePending hmatched.soundRight _ _),
      hid.trans hheld.epochId, hq, fun e => ?_⟩
    refine (Store.recordFor_savePending _ _ _ _).trans ?_
    rw [hid, hheld.epochId, hheld.stored e]
    split <;> rfl
  · intro r₁ r₂
    refine paired_of_pre ?_
    rintro ⟨rfl, rfl⟩
    exact hnext

/-- Whether a serve can be built depends on the leaves only. -/
theorem exists_persistPendingMinted {st : Store sdk} {p : PendingEpoch sdk}
    {done : AnchorMethod} {minted : List (MintedWitness sdk)} :
    (∃ st', st.persistPendingMinted p done minted = .ok st') ↔
      ∃ hashes, p.leafHashes = .ok hashes := by
  unfold Store.persistPendingMinted
  cases p.leafHashes with
  | error e => simp
  | ok hashes => simp

theorem Held.after_serving (h : Held m i ρ p₁ p₂ s₁ s₂) {minted : List (MintedWitness sdk)}
    {o₁ o₂ : WriteOutcome}
    (ho₁ : o₁ = WriteOutcome.ok.ofBuilt
      (s₁.world.store.persistPendingMinted (p₁.without m) m minted))
    (ho₂ : o₂ = WriteOutcome.ok.ofBuilt
      (s₂.world.store.persistPendingMinted (p₂.without m) m minted)) :
    ((o₁ = .ok ∧ o₂ = .ok) ∧ Held m i ρ (p₁.without m) (p₂.without m)
        (s₁.after (some m) (.persistPendingMinted (p₁.without m) m minted) o₁)
        (s₂.after (some m) (.persistPendingMinted (p₂.without m) m minted) o₂)) ∨
      (o₁.isOk = false ∧ o₂.isOk = false) ∧ Held m i ρ p₁ p₂
        (s₁.after (some m) (.persistPendingMinted (p₁.without m) m minted) o₁)
        (s₂.after (some m) (.persistPendingMinted (p₂.without m) m minted) o₂) := by
  have hwithout : (p₁.without m).forMethod m = (p₂.without m).forMethod m := by
    rw [PendingEpoch.forMethod_without, PendingEpoch.forMethod_without, h.record]
  have hbuilds : (∃ st, s₁.world.store.persistPendingMinted (p₁.without m) m minted =
      .ok st) ↔ ∃ st, s₂.world.store.persistPendingMinted (p₂.without m) m minted =
        .ok st := by
    rw [exists_persistPendingMinted, exists_persistPendingMinted,
      PendingEpoch.leafHashes, PendingEpoch.leafHashes,
      (PendingEpoch.sameEpoch_congr hwithout).2.2.2.1]
  have hmatched := h.matched
  have hagree := hmatched.alike.world.store
  rcases AquaTimestamp.after_serving (some m) ho₁ with
    ⟨hok₁, -, hstore₁⟩ | ⟨rfl, hbuilt₁⟩
  · rcases AquaTimestamp.after_serving (some m) ho₂ with
      ⟨hok₂, -, hstore₂⟩ | ⟨rfl, hbuilt₂⟩
    · refine Or.inr ⟨⟨hok₁, hok₂⟩, hmatched.after_write rfl rfl ?_
        (hmatched.soundLeft.unchanged hstore₁) (hmatched.soundRight.unchanged hstore₂),
        h.epochId, h.record, ?_⟩
      · rw [hstore₁, hstore₂]
        exact hagree
      · rw [hstore₁]
        exact h.stored
    · obtain ⟨st, hst⟩ := hbuilds.mpr ⟨_, hbuilt₂⟩
      rw [ho₁, hst] at hok₁
      cases hok₁
  · rcases AquaTimestamp.after_serving (some m) ho₂ with
      ⟨hok₂, -, hstore₂⟩ | ⟨rfl, hbuilt₂⟩
    · obtain ⟨st, hst⟩ := hbuilds.mp ⟨_, hbuilt₁⟩
      rw [ho₂, hst] at hok₂
      cases hok₂
    · refine Or.inl ⟨⟨rfl, rfl⟩, hmatched.after_write rfl rfl
        (hagree.persistPendingMinted hwithout hbuilt₁ hbuilt₂)
        (sound_serving hmatched.soundLeft hbuilt₁)
        (sound_serving hmatched.soundRight hbuilt₂), h.epochId, hwithout, fun e => ?_⟩
      rw [(Store.served_of_persistPendingMinted hbuilt₁).recordFor, h.stored e]
      change (if p₁.epochId = e then _ else _) = _
      rw [h.epochId]
      split <;> rfl

/-- Both serve the method, or neither could build the write. -/
theorem beside_serve {minted : List (MintedWitness sdk)}
    {next₁ : WriteOutcome → SealM sdk α} {next₂ : WriteOutcome → SealM sdk β}
    {Q : α → β → Attended sdk → Attended sdk → Prop}
    (hserved : Beside m prepare partners₁ partners₂
      (Held m i ρ (p₁.without m) (p₂.without m))
      ((next₁ .ok).marked (some m)) ((next₂ .ok).marked (some m)) Q)
    (hfailed : ∀ o₁ o₂ : WriteOutcome, o₁.isOk = false → o₂.isOk = false →
      Beside m prepare partners₁ partners₂ (Held m i ρ p₁ p₂)
        ((next₁ o₁).marked (some m)) ((next₂ o₂).marked (some m)) Q) :
    Beside m prepare partners₁ partners₂ (Held m i ρ p₁ p₂)
      ((SealM.persistPendingMinted (p₁.without m) m minted >>= next₁).marked (some m))
      ((SealM.persistPendingMinted (p₂.without m) m minted >>= next₂).marked (some m))
      Q := by
  refine paired_call (fun o₁ o₂ s₁ s₂ =>
      ((o₁ = .ok ∧ o₂ = .ok) ∧ Held m i ρ (p₁.without m) (p₂.without m) s₁ s₂) ∨
        (o₁.isOk = false ∧ o₂.isOk = false) ∧ Held m i ρ p₁ p₂ s₁ s₂)
    (lasting_apart _ _) (lasting_apart _ _) ?_ ?_
  · intro s₁ s₂ o₁ o₂ hheld h₁ h₂ _ _
    exact hheld.after_serving (Option.some.inj h₁).symm (Option.some.inj h₂).symm
  · intro o₁ o₂ s₁ s₂ s₁' s₂' a b hR h₁ h₂ hapart₁ hapart₂
    rcases hR with ⟨⟨rfl, rfl⟩, hheld⟩ | ⟨⟨ho₁, ho₂⟩, hheld⟩
    · exact hserved _ _ _ _ _ _ hheld h₁ h₂ hapart₁ hapart₂
    · exact hfailed o₁ o₂ ho₁ ho₂ _ _ _ _ _ _ hheld h₁ h₂ hapart₁ hapart₂

/-! ## Settling the method on both sides -/

/-- Both programs return a record and the methods that are down, with the same
answer about the method. -/
def Agreeing {γ : Type} (m : AnchorMethod) (i : Nat) (ρ : Nat → Option (MethodRecord sdk))
    (out₁ out₂ : PendingEpoch sdk × List AnchorMethod × γ) (s₁ s₂ : Attended sdk) :
    Prop :=
  (m ∈ out₁.2.1 ↔ m ∈ out₂.2.1) ∧ Held m i ρ out₁.1 out₂.1 s₁ s₂

/-- The records in memory agree while both hold them. -/
theorem beside_of_record {q₁ : MarkedM sdk α} {q₂ : MarkedM sdk β}
    {Q : α → β → Attended sdk → Attended sdk → Prop}
    (h : p₁.forMethod m = p₂.forMethod m →
      Beside m prepare partners₁ partners₂ (Held m i ρ p₁ p₂) q₁ q₂ Q) :
    Beside m prepare partners₁ partners₂ (Held m i ρ p₁ p₂) q₁ q₂ Q := by
  intro s₁ s₂ s₁' s₂' a b hheld
  exact h hheld.record _ _ _ _ _ _ hheld

theorem beside_storeAnchor (hid : q₁.epochId = p₁.epochId)
    (hq : q₁.forMethod m = q₂.forMethod m) :
    Beside m prepare partners₁ partners₂ (Held m i ρ p₁ p₂)
      ((storeAnchor q₁).marked (some m)) ((storeAnchor q₂).marked (some m))
      (fun a b s₁ s₂ => (a = true ∧ b = true) ∧ Held m i ρ q₁ q₂ s₁ s₂) :=
  beside_savePending hid hq (paired_pure fun _ _ h => ⟨⟨rfl, rfl⟩, h⟩)

theorem within_anchorRoot_asked {epochId : Nat} {root : String} :
    (anchorRoot ctx m epochId root : SealM sdk _).Within
      (fun c _ => c.isAsked = true) fun _ => True := by
  unfold anchorRoot
  split
  · refine Prog.within_ask fun answer => ⟨rfl, ?_⟩
    cases answer <;> trivial
  · trivial

theorem beside_obtainAnchor (hm : partners₁ m = partners₂ m)
    (hdown : m ∈ down₁ ↔ m ∈ down₂) :
    Beside m prepare partners₁ partners₂ (Held m i ρ p₁ p₂)
      ((obtainAnchor ctx p₁ m down₁ now).marked (some m))
      ((obtainAnchor ctx p₂ m down₂ now).marked (some m))
      (fun out₁ out₂ s₁ s₂ => out₁.2.2 = out₂.2.2 ∧ Agreeing m i ρ out₁ out₂ s₁ s₂) := by
  refine beside_of_record fun hp => ?_
  have hanchor : p₁.anchor m = p₂.anchor m := by
    rw [PendingEpoch.anchor, PendingEpoch.anchor, PendingEpoch.anchorEntry_congr hp]
  unfold obtainAnchor
  rw [hanchor, PendingEpoch.anchorFaultCount_congr hp, PendingEpoch.epochId_congr hp,
    PendingEpoch.anchorRoot_congr hp]
  cases p₂.anchor m with
  | some value => exact paired_pure fun _ _ h => ⟨rfl, hdown, h⟩
  | none =>
      dsimp only
      by_cases hd : m ∈ down₂
      · rw [if_pos (hdown.mpr hd), if_pos hd]
        exact paired_pure fun _ _ h => ⟨rfl, hdown, h⟩
      rw [if_neg fun h => hd (hdown.mp h), if_neg hd]
      split
      · exact paired_pure fun _ _ h => ⟨rfl, hdown, h⟩
      rw [Prog.marked_bind, Prog.marked_bind]
      refine beside_bind _ (beside_same hm within_anchorRoot_asked) ?_
      intro value? value?'
      refine paired_of_pre ?_
      rintro ⟨rfl, -⟩
      cases value? with
      | none => exact paired_pure fun _ _ h => ⟨rfl, by simp, h⟩
      | some value =>
          have hheld : (p₁.setAnchor m value now).forMethod m =
              (p₂.setAnchor m value now).forMethod m := by
            rw [PendingEpoch.forMethod_setAnchor, PendingEpoch.forMethod_setAnchor, hp]
          dsimp only
          rw [Prog.marked_bind, Prog.marked_bind]
          refine beside_bind _ (beside_storeAnchor rfl hheld) ?_
          intro stored₁ stored₂
          refine paired_of_pre ?_
          rintro ⟨rfl, rfl⟩
          exact paired_pure fun _ _ h => ⟨rfl, hdown, h⟩

theorem beside_mintFrom (hm : partners₁ m = partners₂ m) (v : TimestampValue) :
    Beside m prepare partners₁ partners₂ (Held m i ρ p₁ p₂)
      ((mintFrom p₁ m v).marked (some m)) ((mintFrom p₂ m v).marked (some m))
      (fun a b s₁ s₂ => a = b ∧ Held m i ρ p₁ p₂ s₁ s₂) := by
  refine beside_of_record fun hp => ?_
  have hmint : mintFrom p₁ m v = mintFrom p₂ m v := by
    unfold mintFrom
    rw [(PendingEpoch.sameEpoch_congr hp).restore_eq]
  rw [hmint]
  have hasks : (mintFrom p₂ m v).Within (fun c _ => c.isAsked = true) fun _ => True := by
    refine Prog.within_mono (within_mintFrom_methods p₂ m v) ?_ fun _ _ => trivial
    intro c r hc
    cases c <;> first | rfl | cases hc
  exact (beside_same hm hasks).weaken (fun _ _ h => h) fun _ _ _ _ h => ⟨h.1.1, h.2⟩

theorem forMethod_discardAnchor_congr (h : q₁.forMethod m = q₂.forMethod m) :
    (discardAnchor q₁ m).forMethod m = (discardAnchor q₂ m).forMethod m := by
  rw [discardAnchor, discardAnchor, PendingEpoch.forMethod_dropAnchor,
    PendingEpoch.forMethod_dropAnchor, PendingEpoch.forMethod_countAnchorFault,
    PendingEpoch.forMethod_countAnchorFault, h]

theorem epochId_discardAnchor : (discardAnchor q₁ m).epochId = q₁.epochId :=
  (PendingEpoch.sameEpoch_countAnchorFault q₁ m).1

/-- Both look up when the anchor was first seen. -/
theorem anchorFirstSeen_congr (h : p₁.forMethod m = p₂.forMethod m) (now : Nat) :
    (p₁.anchorFirstSeen m now = none ∧ p₂.anchorFirstSeen m now = none) ∨
      ∃ firstSeen changed q₁ q₂,
        p₁.anchorFirstSeen m now = some ((firstSeen, changed), q₁) ∧
        p₂.anchorFirstSeen m now = some ((firstSeen, changed), q₂) ∧
        q₁.epochId = p₁.epochId ∧ q₁.forMethod m = q₂.forMethod m ∧
        (changed = false → q₁ = p₁ ∧ q₂ = p₂) := by
  unfold PendingEpoch.anchorFirstSeen
  rw [PendingEpoch.anchorEntry_congr h]
  cases p₂.anchorEntry m with
  | none => exact Or.inl ⟨rfl, rfl⟩
  | some a =>
      right
      simp only [Option.map_some]
      cases hfirst : a.firstSeen with
      | some t => exact ⟨t, false, p₁, p₂, rfl, rfl, rfl, h, fun _ => ⟨rfl, rfl⟩⟩
      | none =>
          refine ⟨now, true, _, _, rfl, rfl, rfl, ?_, nofun⟩
          rw [PendingEpoch.forMethod_touchAnchor, PendingEpoch.forMethod_touchAnchor, h]

theorem beside_settleMissing :
    Beside m prepare partners₁ partners₂ (Held m i ρ p₁ p₂)
      ((settleMissing ctx p₁ m now).marked (some m))
      ((settleMissing ctx p₂ m now).marked (some m))
      (fun q₁ q₂ s₁ s₂ => Held m i ρ q₁ q₂ s₁ s₂) := by
  refine beside_of_record fun hp => ?_
  unfold settleMissing
  rcases anchorFirstSeen_congr hp now with
    ⟨h₁, h₂⟩ | ⟨firstSeen, changed, q₁, q₂, h₁, h₂, hid, hq, hsame⟩
  · rw [h₁, h₂]
    exact paired_pure fun _ _ h => h
  · rw [h₁, h₂]
    dsimp only
    split
    · cases changed with
      | true => exact beside_savePending hid hq (paired_pure fun _ _ h => h)
      | false =>
          obtain ⟨rfl, rfl⟩ := hsame rfl
          exact paired_pure fun _ _ h => h
    · exact beside_savePending (epochId_discardAnchor.trans hid)
        (forMethod_discardAnchor_congr hq) (paired_pure fun _ _ h => h)

theorem beside_settleVerdict (hdown : m ∈ down₁ ↔ m ∈ down₂)
    (minted : List (MintedWitness sdk)) (verdict : Option SelfCheckVerdict) :
    Beside m prepare partners₁ partners₂ (Held m i ρ p₁ p₂)
      ((settleVerdict ctx p₁ m down₁ now minted verdict).marked (some m))
      ((settleVerdict ctx p₂ m down₂ now minted verdict).marked (some m))
      (Agreeing m i ρ) := by
  refine beside_of_record fun hp => ?_
  unfold settleVerdict
  split
  · rw [Prog.marked_bind, Prog.marked_bind]
    refine beside_bind _ beside_settleMissing ?_
    exact fun q₁ q₂ => paired_pure fun _ _ h => ⟨hdown, h⟩
  · exact beside_savePending epochId_discardAnchor (forMethod_discardAnchor_congr hp)
      (paired_pure fun _ _ h => ⟨by simp, h⟩)
  · exact paired_pure fun _ _ h => ⟨hdown, h⟩
  · refine beside_serve (paired_pure fun _ _ h => ⟨hdown, h⟩) ?_
    intro o₁ o₂ ho₁ ho₂
    rw [ho₁, ho₂]
    exact paired_pure fun _ _ h => ⟨hdown, h⟩

/-- Both settle the method. -/
theorem beside_settleMethod (hm : partners₁ m = partners₂ m)
    (hdown : m ∈ down₁ ↔ m ∈ down₂) :
    Beside m prepare partners₁ partners₂ (Held m i ρ p₁ p₂)
      ((settleMethod ctx p₁ m down₁ now).marked (some m))
      ((settleMethod ctx p₂ m down₂ now).marked (some m))
      (Agreeing m i ρ) := by
  unfold settleMethod
  split
  · exact paired_pure fun _ _ h => ⟨hdown, h⟩
  rw [Prog.marked_bind, Prog.marked_bind]
  refine beside_bind _ (beside_obtainAnchor hm hdown) ?_
  rintro ⟨q₁, d₁, value?⟩ ⟨q₂, d₂, value?'⟩
  refine paired_of_pre ?_
  rintro rfl
  refine paired_of_pre fun hd => ?_
  cases value? with
  | none => exact paired_pure fun _ _ h => ⟨hd, h⟩
  | some value =>
      dsimp only
      rw [Prog.marked_bind, Prog.marked_bind]
      refine beside_bind _ (beside_mintFrom hm value) ?_
      intro result result'
      refine paired_of_pre ?_
      rintro rfl
      cases result with
      | error e => exact paired_pure fun _ _ h => ⟨hd, h⟩
      | ok minted =>
          dsimp only
          refine beside_of_record fun hq => ?_
          rw [Prog.marked_bind, Prog.marked_bind, PendingEpoch.epochId_congr hq]
          refine beside_bind _ (beside_same (Q := fun _ => True) hm
            fun _ => ⟨rfl, trivial⟩) ?_
          intro answer answer'
          refine paired_of_pre ?_
          rintro ⟨rfl, -⟩
          exact beside_settleVerdict hd minted _

end Beside

end AquaTimestamp
