import AquaTimestamp.Guarantees.Spend
import AquaTimestamp.Model.Routes

/-!
# Outages of the self-check hosts

A host that is asked about an anchor may verify it, judge against it, or give
no judgement.  For EVM no judgement keeps the anchor.  For qTSA an error of the
host is put on the anchor, which is counted as a fault and discarded; as long
as the TSA host answers, no judgement costs nothing there either.
-/

namespace AquaTimestamp

open Support Partition

variable {sdk : Sdk}

/-! ## What the hosts answer -/

/-- The chain host's judgement of the payloads' claim, if there is a host. -/
def evmAnswer (payloads : sdk.Json) (hosts : SelfCheckHosts sdk) :
    Option EvmAnchorVerdict :=
  hosts.blockchain.map fun host => host (sdk.claimFromPayload payloads)

/-- The TSA host's answer about the payloads' token, if it is asked. -/
def tsaAnswer (payloads : sdk.Json) (hosts : SelfCheckHosts sdk) :
    Option (Except String (QualifiedVerifyLevel × String)) :=
  match hosts.tsa, (sdk.jsonGet payloads "transaction_hash").bind sdk.jsonAsStr,
      (sdk.jsonGet payloads "merkle_root").bind sdk.jsonAsStr,
      (sdk.jsonGet payloads "timestamp").bind sdk.jsonAsU64 with
  | some host, some response, some root, some time =>
      some (host response root time)
  | _, _, _, _ => none

/-- The host of `m` verifies the anchor or gives no judgement: the TSA host
fails, or the chain host cannot evaluate the claim for another reason than an
unknown transaction. -/
def sparesAnchor (m : AnchorMethod) (payloads : sdk.Json)
    (hosts : SelfCheckHosts sdk) : Bool :=
  match m with
  | .evm =>
      match evmAnswer payloads hosts with
      | some (.invalid _ _) => false
      | some (.notEvaluable .notFound _ _) => false
      | _ => true
  | .qtsa =>
      match tsaAnswer payloads hosts with
      | some (.ok (.other _, _)) => false
      | _ => true

/-- The TSA host, where it is the method's host, does not fail. -/
def tsaAnswers (m : AnchorMethod) (payloads : sdk.Json)
    (hosts : SelfCheckHosts sdk) : Bool :=
  match m with
  | .evm => true
  | .qtsa =>
      match tsaAnswer payloads hosts with
      | some (.error _) => false
      | _ => true

/-- What an event asks the host of (`e`, `m`) about: the payloads of the first
witness of a check, with the hosts it is asked of. -/
def Event.asks (e : Nat) (m : AnchorMethod) :
    Event sdk → Option (sdk.Json × SelfCheckHosts sdk)
  | .call (.selfCheck e' m' _ (first :: _) _ wiring) (.ok answers) =>
      if e' = e ∧ m' = m then
        (SelfCheck.contentAndInclusion first).toOption.map fun payloads =>
          (payloads, wiring.hosts answers)
      else none
  | _ => none

/-! ## The verdicts that cost an anchor -/

/-- Verdicts that neither put the anchor at fault nor find it unknown. -/
def SelfCheckVerdict.sparing : SelfCheckVerdict → Bool
  | .failed _ true => false
  | .missing _ => false
  | _ => true

open SelfCheck

theorem sparing_of_content_error {w : MintedWitness sdk} {v : SelfCheckVerdict}
    (h : contentAndInclusion w = .error v) : v.sparing = true := by
  unfold contentAndInclusion at h
  repeat' split at h
  all_goals cases h <;> rfl

theorem sparing_serviceSignature (w : MintedWitness sdk) (did : String) :
    (serviceSignature w did).sparing = true := by
  unfold serviceSignature
  repeat' split
  all_goals rfl

theorem sparing_verifyAgainst (m : AnchorMethod)
    (judged : List (Option sdk.Json)) (did : String) (w : MintedWitness sdk) :
    (verifyAgainst m judged did w).sparing = true := by
  unfold verifyAgainst
  split
  · rename_i v hv
    exact sparing_of_content_error hv
  · split
    · rfl
    · exact sparing_serviceSignature w did

/-- An anchor that its host spares, and does not fail about, gets a sparing
verdict. -/
theorem sparing_judgeAnchor {m : AnchorMethod} {payloads : sdk.Json}
    {hosts : SelfCheckHosts sdk} (hspares : sparesAnchor m payloads hosts = true)
    (htsa : tsaAnswers m payloads hosts = true) :
    (judgeAnchor m payloads hosts).sparing = true := by
  cases m with
  | evm =>
      simp only [sparesAnchor, evmAnswer] at hspares
      simp only [judgeAnchor, checkEvm]
      cases hhost : hosts.blockchain with
      | none => rfl
      | some host =>
          rw [hhost] at hspares
          dsimp only [Option.map_some] at hspares ⊢
          cases hverdict : host (sdk.claimFromPayload payloads) with
          | verified => rfl
          | invalid reason text =>
              rw [hverdict] at hspares
              cases hspares
          | notEvaluable reason text finality =>
              rw [hverdict] at hspares
              cases reason with
              | notFound => cases hspares
              | unsupportedNetwork | networkNotConfigured | other => rfl
  | qtsa =>
      simp only [sparesAnchor, tsaAnswer] at hspares
      simp only [tsaAnswers, tsaAnswer] at htsa
      simp only [judgeAnchor, checkTsa]
      split
      · rfl
      · rename_i host hhost
        split
        · rename_i response root time hresponse hroot htime
          simp only [hhost, hresponse, hroot, htime] at hspares htsa
          split
          · rfl
          · rfl
          · rename_i level message hanswer
            rw [hanswer] at hspares
            cases hspares
          · rename_i e hanswer
            rw [hanswer] at htsa
            cases htsa
        · rfl

/-- An error of the TSA host is put on the anchor. -/
example : @SelfCheck.checkTsa Sample.sdk
    (.payload (Sample.anchored "" .qtsa "root"))
    ⟨none, some fun _ _ _ => .error "connection refused"⟩ =
      .failed "TSA token: connection refused" true := by
  decide +kernel

theorem sparing_verifyMintedBatch {ws : List (MintedWitness sdk)}
    {did : String} {hosts : SelfCheckHosts sdk} {m : AnchorMethod}
    (hmethod : ∀ w ∈ ws, w.method = m)
    (hjudge : ∀ first rest payloads, ws = first :: rest →
      contentAndInclusion first = .ok payloads →
        (judgeAnchor m payloads hosts).sparing = true) :
    ∀ v ∈ verifyMintedBatch ws did hosts, v.sparing = true := by
  intro v hv
  unfold verifyMintedBatch at hv
  split at hv
  · cases hv
  · rename_i first rest
    have hfirst := hmethod first (List.mem_cons_self ..)
    split at hv
    · rename_i v' hcontent
      obtain rfl := List.eq_of_mem_replicate hv
      exact sparing_of_content_error hcontent
    · rename_i payloads hcontent
      have hsparing := hjudge first rest payloads rfl hcontent
      rw [hfirst] at hv
      split at hv
      · obtain ⟨w, -, rfl⟩ := List.mem_map.mp hv
        exact sparing_verifyAgainst _ _ _ _
      · obtain rfl := List.eq_of_mem_replicate hv
        exact hsparing

theorem mem_of_firstUnverified {minted : List (MintedWitness sdk)}
    {verdicts : List SelfCheckVerdict} {v : SelfCheckVerdict}
    (h : firstUnverified minted verdicts = some v) : v ∈ verdicts := by
  unfold firstUnverified at h
  obtain ⟨⟨w, v'⟩, hfind, rfl⟩ := Option.map_eq_some_iff.mp h
  exact (List.of_mem_zip (List.mem_of_find?_eq_some hfind)).2

/-- Whenever the host of (`e`, `m`) is asked, it spares the anchor and, if it
is the TSA host, it does not fail. -/
def HostsSpare (e : Nat) (m : AnchorMethod) (log : List (Event sdk)) : Prop :=
  ∀ ev ∈ log, ∀ payloads hosts, ev.asks e m = some (payloads, hosts) →
    sparesAnchor m payloads hosts = true ∧ tsaAnswers m payloads hosts = true

/-- The judgement of witnesses of (`e`, `m`) does not cost their anchor. -/
theorem HostsSpare.sparing {w : World sdk} {s : Settling sdk}
    {m : AnchorMethod} {v : TimestampValue}
    {minted : List (MintedWitness sdk)} {verdict : SelfCheckVerdict}
    (h : HostsSpare s.record.epochId m w.log)
    (hjudged : s.Judged w.log m v minted (some verdict)) :
    verdict.sparing = true := by
  obtain ⟨answer, hlast, hverdict⟩ := hjudged.just
  obtain ⟨snapshot, batch, -, hfor⟩ := hjudged.mintedFor
  have hin := mem_of_mem_thisCycle (mem_thisCycle_of_lastCall hlast)
  have hmem := mem_of_firstUnverified hverdict.symm
  cases answer with
  | error e =>
      obtain rfl := List.eq_of_mem_replicate hmem
      rfl
  | ok answers =>
      refine sparing_verifyMintedBatch (m := m)
        (fun w hw => (hfor.of_mem hw).2.1) ?_ verdict hmem
      rintro first rest payloads rfl hcontent
      obtain ⟨hspares, htsa⟩ := h _ hin payloads (s.ctx.selfCheck.hosts answers)
        (by simp [Event.asks, hcontent, Except.toOption])
      exact sparing_judgeAnchor hspares htsa

/-! ## One step of settling -/

/-- What a step of settling does to a method of the record in memory. -/
theorem Settles.record_cases {w w' : World sdk} {s s' : Settling sdk}
    (h : Settles w s w' s') (m : AnchorMethod) :
    Agrees s.record s'.record m ∨
      (s.record.anchorEntry m = none ∧
        ∃ v, s'.record = s.record.setAnchor m v s.now) ∨
      s'.record = s.record.without m ∨
      ∃ v minted verdict, s.phase = .judged m v minted (some verdict) ∧
        verdict.sparing = false := by
  cases h with
  | skip | unwired | refused | store | giveUp | hold | mint | mintFailed
  | judge | keep | resave => exact Or.inl (Agrees.refl _ m)
  | @obtained m' rest v _ hcall =>
      by_cases hm : m' = m
      · subst hm
        exact Or.inr (Or.inl ⟨hcall.noAnchor, v, rfl⟩)
      · exact Or.inl (agrees_setAnchor hm)
  | @blame m' v minted reason hphase =>
      by_cases hm : m' = m
      · subst hm
        exact Or.inr (Or.inr (Or.inr ⟨v, minted, _, hphase, rfl⟩))
      · exact Or.inl (agrees_discardAnchor hm)
  | @wait m' v minted reason a hphase =>
      by_cases hm : m' = m
      · subst hm
        exact Or.inr (Or.inr (Or.inr ⟨v, minted, _, hphase, rfl⟩))
      · refine Or.inl ?_
        dsimp only
        split
        · exact Agrees.refl _ m
        · exact agrees_touchAnchor hm
  | @abandon m' v minted reason a hphase =>
      by_cases hm : m' = m
      · subst hm
        exact Or.inr (Or.inr (Or.inr ⟨v, minted, _, hphase, rfl⟩))
      · refine Or.inl ?_
        dsimp only
        split
        · exact agrees_discardAnchor hm
        · have htouch : Agrees s.record (s.record.touchAnchor m' s.now) m :=
            agrees_touchAnchor hm
          have hdrop := agrees_discardAnchor
            (p := s.record.touchAnchor m' s.now) hm
          exact htouch.trans hdrop
  | @serve m' v minted o _ _ =>
      dsimp only
      split
      · by_cases hm : m' = m
        · subst hm
          exact Or.inr (Or.inr (Or.inl rfl))
        · exact Or.inl (agrees_without hm)
      · exact Or.inl (Agrees.refl _ m)

/-! ## Over whole runs -/

/-- Some stored record of `e` held the anchor `a` for `m`. -/
def Had (st : Store sdk) (log : List (Event sdk)) (e : Nat) (m : AnchorMethod)
    (a : StoredAnchor) : Prop :=
  ∃ l q, l <:+ log ∧ (storeOf st l).pendingAnchors[e]? = some q ∧
    q.anchorEntry m = some a

/-- The record has no fault for `m`, and while it lists `m` it holds whatever
anchor was ever stored. -/
def Spared (had : StoredAnchor → Prop) (p : PendingEpoch sdk)
    (m : AnchorMethod) : Prop :=
  p.anchorFaultCount m = 0 ∧
    ∀ a, had a → m ∈ p.methods → p.anchorEntry m = some a

/-- Nothing was lost for (`e`, `m`), in the store and in memory. -/
structure Unharmed (st : Store sdk) (e : Nat) (m : AnchorMethod)
    (w : World sdk) (j : Job sdk) : Prop where
  stored : ∀ q, w.store.pendingAnchors[e]? = some q →
    Spared (Had st w.log e m) q m
  memory : ∀ s, j = .settling s → s.record.epochId = e →
    Spared (Had st w.log e m) s.record m

section Run

variable {st : Store sdk} {w w' : World sdk} {j j' : Job sdk}
variable {e : Nat} {m : AnchorMethod}

theorem had_cons {ev : Event sdk} {log : List (Event sdk)} {a : StoredAnchor}
    (h : Had st (ev :: log) e m a) :
    Had st log e m a ∨ ∃ q, (storeOf st (ev :: log)).pendingAnchors[e]? = some q ∧
      q.anchorEntry m = some a := by
  obtain ⟨l, q, hl, hq, ha⟩ := h
  rcases List.suffix_cons_iff.mp hl with rfl | hold
  · exact Or.inr ⟨q, hq, ha⟩
  · exact Or.inl ⟨l, q, hold, hq, ha⟩

theorem had_self {log : List (Event sdk)} {a : StoredAnchor}
    {q : PendingEpoch sdk} (hq : (storeOf st log).pendingAnchors[e]? = some q)
    (ha : q.anchorEntry m = some a) : Had st log e m a :=
  ⟨log, q, List.suffix_refl _, hq, ha⟩

/-- An event that leaves the record of `e` alone stores no new anchor. -/
theorem had_cons_of_same {ev : Event sdk} {log : List (Event sdk)}
    {a : StoredAnchor}
    (hsame : (storeOf st (ev :: log)).pendingAnchors[e]? =
      (storeOf st log).pendingAnchors[e]?)
    (h : Had st (ev :: log) e m a) : Had st log e m a := by
  rcases had_cons h with hold | ⟨q, hq, ha⟩
  · exact hold
  · rw [hsame] at hq
    exact had_self hq ha

theorem Spared.mono {had had' : StoredAnchor → Prop} {p : PendingEpoch sdk}
    (h : Spared had p m)
    (hnew : ∀ a, had' a → had a ∨ p.anchorEntry m = some a) :
    Spared had' p m := by
  refine ⟨h.1, fun a ha hm => ?_⟩
  rcases hnew a ha with hold | hentry
  · exact h.2 a hold hm
  · exact hentry

theorem Spared.agrees {had : StoredAnchor → Prop} {p q : PendingEpoch sdk}
    (h : Spared had p m) (hagrees : Agrees p q m) : Spared had q m :=
  ⟨hagrees.faults ▸ h.1, fun a ha hm =>
    hagrees.entry ▸ h.2 a ha (hagrees.listed.mpr hm)⟩

theorem Spared.without {had : StoredAnchor → Prop} {p : PendingEpoch sdk}
    (h : Spared had p m) (done : AnchorMethod) :
    Spared had (p.without done) m := by
  by_cases hdone : done = m
  · subst hdone
    refine ⟨h.1, fun a _ hm => ?_⟩
    exact absurd rfl ((PendingEpoch.mem_methods_without _ _ _).mp hm).2
  · exact h.agrees (agrees_without hdone)

/-- The worlds differ in nothing the record of `e` depends on. -/
theorem Unharmed.of_same (h : Unharmed st e m w j)
    (hhad : ∀ a, Had st w'.log e m a → Had st w.log e m a)
    (hstore : w'.store.pendingAnchors[e]? = w.store.pendingAnchors[e]?)
    (hmemory : ∀ s, j' = .settling s → s.record.epochId = e →
      Spared (Had st w.log e m) s.record m) : Unharmed st e m w' j' where
  stored q hq := (h.stored q (hstore ▸ hq)).mono fun a ha => Or.inl (hhad a ha)
  memory s hs hid := (hmemory s hs hid).mono fun a ha => Or.inl (hhad a ha)

/-- The record in memory after a step of settling that costs no anchor. -/
theorem Spared.settles {had : StoredAnchor → Prop} {s s' : Settling sdk}
    (h : Spared had s.record m) (hstep : Settles w s w' s')
    (hsparing : ∀ v minted verdict,
      s.phase = .judged m v minted (some verdict) → verdict.sparing = true) :
    Spared had s'.record m := by
  rcases hstep.record_cases m with hagrees | ⟨hnone, v, hset⟩ | hwithout |
    ⟨v, minted, verdict, hphase, hcosts⟩
  · exact h.agrees hagrees
  · rw [hset]
    refine ⟨h.1, fun a ha hm => ?_⟩
    have hentry := h.2 a ha hm
    rw [hnone] at hentry
    cases hentry
  · rw [hwithout]
    exact h.without m
  · rw [hsparing v minted verdict hphase] at hcosts
    cases hcosts

/-- Only sealed epochs ever had an anchor. -/
theorem Reach.had_epochs (hst : st.Indexed) (h : Reach st w j)
    {a : StoredAnchor} : Had st w.log e m a → e ∈ w.store.epochs := by
  refine h.induct_between (P := fun w => Had st w.log e m a → e ∈ w.store.epochs)
    ?_ ?_
  · rintro now durationSecs ⟨l, q, hl, hq, -⟩
    have hstore : storeOf st l = st := by
      rcases List.suffix_cons_iff.mp hl with rfl | hnil
      · rfl
      · rw [List.suffix_nil.mp hnil]
        rfl
    rw [hstore] at hq
    exact (hst.pending e q hq).1
  · intro w j ev j' hw hev hnext ih hhad
    rw [hev.log_eq] at hhad
    rcases had_cons hhad with hold | ⟨q, hq, -⟩
    · exact hev.epochs_kept (ih hold)
    · rw [← hev.log_eq, ← hnext.store_eq] at hq
      exact ((hnext.grounded hst).store.pending e q hq).1

theorem Unharmed.settles {s s' : Settling sdk}
    (h : Unharmed st e m w (.settling s)) (hw : Reach st w (.settling s))
    (hstep : Settles w s w' s') (hspare : HostsSpare e m w.log) :
    Unharmed st e m w' (.settling s') := by
  have hstore := hw.store_eq
  have hstore' := (hw.settle hstep).store_eq
  -- What the record of `e` may have been replaced by.
  have hafter : ∀ q', w'.store.pendingAnchors[e]? = some q' →
      w.store.pendingAnchors[e]? = some q' ∨
        s.record.epochId = e ∧
          (q' = s.record ∨ ∃ done, q' = s.record.without done) := by
    intro q' hq'
    by_cases hid : s.record.epochId = e
    · rcases hstep.emits with rfl | ⟨ev, hev, rfl⟩
      · exact Or.inl hq'
      · have hwritten := hev.written
        generalize (w.emit ev).store = st' at hwritten hq'
        cases hwritten with
        | unchanged => exact Or.inl hq'
        | saved =>
            rw [← hid, savePending_self] at hq'
            cases hq'
            exact Or.inr ⟨hid, Or.inl rfl⟩
        | @served _ done _ _ _ _ _ _ hserved =>
            have hself := hserved.pending_self
            rw [show (s.record.without done).epochId = e from hid] at hself
            rw [hself] at hq'
            split at hq'
            · cases hq'
            · cases hq'
              exact Or.inr ⟨hid, Or.inr ⟨done, rfl⟩⟩
    · exact Or.inl (hstep.others hid ▸ hq')
  have hhad : ∀ a, Had st w'.log e m a → Had st w.log e m a ∨
      ∃ q', w'.store.pendingAnchors[e]? = some q' ∧
        q'.anchorEntry m = some a := by
    intro a ha
    rcases hstep.log_cases with hlog | ⟨c, answer, hlog⟩
    · exact Or.inl (hlog ▸ ha)
    · rw [hstore', hlog]
      exact had_cons (hlog ▸ ha)
  have hfrom : ∀ q', w'.store.pendingAnchors[e]? = some q' →
      Spared (Had st w.log e m) q' m := by
    intro q' hq'
    rcases hafter q' hq' with hold | ⟨hid, rfl | ⟨done, rfl⟩⟩
    · exact h.stored q' hold
    · exact h.memory s rfl hid
    · exact (h.memory s rfl hid).without done
  constructor
  · intro q hq
    refine (hfrom q hq).mono fun a ha => (hhad a ha).imp id ?_
    rintro ⟨q', hq', hentry⟩
    rw [hq] at hq'
    cases hq'
    exact hentry
  · rintro s'' hs'' hid'
    cases hs''
    have hid : s.record.epochId = e := by rw [← hid', hstep.frame.1.1]
    subst hid
    have hmemory : Spared (Had st w'.log s.record.epochId m) s.record m := by
      refine (h.memory s rfl rfl).mono fun a ha => ?_
      rcases hhad a ha with hold | ⟨q', hq', hentry⟩
      · exact Or.inl hold
      · rcases hafter q' hq' with hold | ⟨-, rfl | ⟨done, rfl⟩⟩
        · exact Or.inl (had_self (hstore ▸ hold) hentry)
        · exact Or.inr hentry
        · rw [PendingEpoch.anchorEntry_without] at hentry
          split at hentry
          · cases hentry
          · exact Or.inr hentry
    exact hmemory.settles hstep fun v minted verdict hphase =>
      hspare.sparing (hw.judged s m v minted _ rfl hphase)

/-- After the seal write only the record just stored is settled. -/
theorem record_of_persisted {ctx : Option WitnessContext}
    {now durationSecs : Nat} {down : List AnchorMethod}
    {pending : Option (PendingEpoch sdk)} {o : WriteOutcome} {s : Settling sdk}
    (h : Job.persisted ctx now durationSecs down pending o = .settling s) :
    pending = some s.record := by
  unfold Job.persisted at h
  split at h
  · cases h
    rfl
  · cases h

theorem Unharmed.persist {ctx : Option WitnessContext}
    {now durationSecs : Nat} {down : List AnchorMethod}
    {snapshot : SealedSnapshot}
    {prepared : Option (Except String sdk.PreparedBatch)}
    {batch : Option (EpochBatch sdk)} {record : EpochRecord} {o : WriteOutcome}
    (h : Unharmed Store.empty e m w
      (.closing ctx now durationSecs down snapshot prepared))
    (hw : Reach Store.empty w
      (.closing ctx now durationSecs down snapshot prepared))
    (he : e < u64Max) (hbatch : Batched snapshot prepared batch)
    (hrecord : buildRecord snapshot batch = .ok record)
    (hperm : Permitted w (.persistSealedEpoch record snapshot.leaves []
      (pendingFor ctx snapshot batch)) o) :
    Unharmed Store.empty e m
      (w.after (.persistSealedEpoch record snapshot.leaves []
        (pendingFor ctx snapshot batch)) o)
      (.persisted ctx now durationSecs down
        (pendingFor ctx snapshot batch) o) := by
  have hst : (Store.empty : Store sdk).Indexed := indexed_empty
  have hg := hw.grounded hst
  have hstore' := (hw.persist hbatch hrecord hperm).store_eq
  obtain ⟨w', ev, hw', hlog, hwritten⟩ : ∃ w' ev, w' = w.after
      (.persistSealedEpoch record snapshot.leaves []
        (pendingFor ctx snapshot batch)) o ∧ w'.log = ev :: w.log ∧
      (w'.store = w.store ∨ Sealed w.store record snapshot.leaves
        (pendingFor ctx snapshot batch) w'.store) :=
    ⟨_, _, rfl, rfl, (after_seal hperm).imp And.right And.right⟩
  rw [← hw'] at hstore' ⊢
  by_cases hnew : ∃ p, pendingFor ctx snapshot batch = some p ∧ p.epochId = e
  · obtain ⟨p, hp, hid⟩ := hnew
    obtain ⟨c, b, -, -, -, rfl⟩ := pendingFor_eq_some hp
    obtain rfl : snapshot.epochId = e := hid
    have hfresh := hg.fresh rfl he
    have hstored : ∀ q, w'.store.pendingAnchors[snapshot.epochId]? = some q →
        q = PendingEpoch.new snapshot b c.methods := by
      intro q hq
      rcases hwritten with heq | hsealed
      · rw [heq] at hq
        exact absurd (hg.store.pending _ q hq).1 hfresh
      · rw [hsealed.pendingAnchors, hp] at hq
        have hid : (PendingEpoch.new snapshot b c.methods).epochId =
          snapshot.epochId := rfl
        rw [getElem?_put, if_pos hid] at hq
        exact (Option.some.inj hq).symm
    -- The id is new, so no anchor was ever stored under it.
    have hnone : ∀ a, ¬ Had Store.empty w'.log snapshot.epochId m a := by
      intro a ha
      rw [hlog] at ha
      rcases had_cons ha with hhad | ⟨q, hq, hentry⟩
      · exact hfresh (hw.had_epochs hst hhad)
      · rw [← hlog, ← hstore'] at hq
        rw [hstored q hq] at hentry
        cases hentry
    constructor
    · intro q hq
      rw [hstored q hq]
      exact ⟨rfl, fun a ha => absurd ha (hnone a)⟩
    · intro s hs _
      have hsome := record_of_persisted hs
      rw [hp] at hsome
      rw [← Option.some.inj hsome]
      exact ⟨rfl, fun a ha => absurd ha (hnone a)⟩
  · have hother : w'.store.pendingAnchors[e]? = w.store.pendingAnchors[e]? := by
      rcases hwritten with heq | hsealed
      · rw [heq]
      · rw [hsealed.pendingAnchors]
        split
        · rfl
        · rename_i p hp
          rw [getElem?_put, if_neg fun hid => hnew ⟨p, hp, hid⟩]
    refine h.of_same (fun a ha => ?_) hother ?_
    · rw [hlog] at ha
      refine had_cons_of_same ?_ ha
      rw [← hlog, ← hstore', ← hw.store_eq]
      exact hother
    · intro s hs hid
      exact absurd ⟨s.record, record_of_persisted hs, hid⟩ hnew

theorem HostsSpare.tail {ev : Event sdk} {log : List (Event sdk)}
    (h : HostsSpare e m (ev :: log)) : HostsSpare e m log :=
  fun ev' hev' => h ev' (List.mem_cons_of_mem _ hev')

/-- Nothing is lost for an (epoch, method) whose hosts spare its anchor. -/
theorem Reach.unharmed (h : Reach Store.empty w j) (he : e < u64Max) :
    HostsSpare e m w.log → Unharmed Store.empty e m w j := by
  have hst : (Store.empty : Store sdk).Indexed := indexed_empty
  have hmethods : (Store.empty : Store sdk).MethodsNodup := methodsNodup_empty
  induction h with
  | boot now durationSecs =>
      intro _
      refine ⟨fun q hq => ?_, by rintro s ⟨⟩⟩
      simp [World.boot, Store.empty] at hq
  | append batch did _ ih =>
      intro hspare
      have hold := ih hspare.tail
      exact hold.of_same (fun a => had_cons_of_same rfl) rfl hold.memory
  | restart now durationSecs _ ih =>
      intro hspare
      exact (ih hspare.tail).of_same (fun a => had_cons_of_same rfl) rfl
        (by rintro s ⟨⟩)
  | tick now durationSecs _ _ ih =>
      intro hspare
      exact (ih hspare.tail).of_same (fun a => had_cons_of_same rfl) rfl
        (by rintro s ⟨⟩)
  | refuse _ ih | plain _ ih | leave _ _ _ _ ih | fail _ _ ih
  | finish _ _ _ _ ih =>
      intro hspare
      exact (ih hspare).of_same (fun a ha => ha) rfl (by rintro s ⟨⟩)
  | list _ _ ih =>
      intro hspare
      exact (ih hspare.tail).of_same (fun a => had_cons_of_same rfl) rfl
        (by rintro s ⟨⟩)
  | @visit w ctx now durationSecs down p queue hw ih =>
      intro hspare
      have hold := ih hspare
      have hp := (hw.followed hst hmethods).2.stored p (List.mem_cons_self ..)
      refine hold.of_same (fun a ha => ha) rfl ?_
      rintro s ⟨⟩ rfl
      exact hold.stored p hp
  | @settle w w' s s' hw hstep ih =>
      intro hspare
      have hbefore : HostsSpare e m w.log := by
        rcases hstep.log_cases with hlog | ⟨c, answer, hlog⟩
        · exact hlog ▸ hspare
        · rw [hlog] at hspare
          exact hspare.tail
      exact (ih hbefore).settles hw hstep hbefore
  | swap _ ih =>
      intro hspare
      exact (ih hspare.tail).of_same (fun a => had_cons_of_same rfl) rfl
        (by rintro s ⟨⟩)
  | prepare _ _ ih =>
      intro hspare
      exact (ih hspare.tail).of_same (fun a => had_cons_of_same rfl) rfl
        (by rintro s ⟨⟩)
  | @persist w ctx now durationSecs down snapshot prepared batch record o hw hbatch
      hrecord hperm ih =>
      intro hspare
      exact (ih hspare.tail).persist hw he hbatch hrecord hperm

end Run

/-- What an outage costs (`e`, `m`): nothing.  A stored anchor stays in every
later record that lists the method, no fault is counted, no provider is called
once an anchor was stored, and the method is not reported as stalled. -/
structure NothingLost (w : World sdk) (e : Nat) (m : AnchorMethod) : Prop where
  kept : ∀ a q, Had Store.empty w.log e m a →
    w.store.pendingAnchors[e]? = some q → m ∈ q.methods →
      q.anchorEntry m = some a
  faultless : ∀ q, w.store.pendingAnchors[e]? = some q →
    q.anchorFaultCount m = 0
  paidOnce : ∀ root answer l,
    .call (.createTimestamp e m root) answer :: l <:+ w.log →
      ∀ a, ¬ Had Store.empty l e m a
  notStalled : ∀ maxAnchorFaults, 0 < maxAnchorFaults →
    anchorStalled w.store maxAnchorFaults m e = false

/-- In a run in which the host of (`e`, `m`) verifies the anchor or gives no
judgement whenever it is asked, and the TSA host does not fail where it is the
host, nothing is lost for (`e`, `m`). -/
theorem outage_costs_no_anchor {w : World sdk} (hw : Visited Store.empty w)
    {e : Nat} (he : e < u64Max) {m : AnchorMethod}
    (hspares : ∀ ev ∈ w.log, ∀ payloads hosts,
      ev.asks e m = some (payloads, hosts) →
        sparesAnchor m payloads hosts = true)
    (htsa : ∀ ev ∈ w.log, ∀ payloads hosts,
      ev.asks e m = some (payloads, hosts) →
        tsaAnswers m payloads hosts = true) : NothingLost w e m := by
  obtain ⟨j, hj⟩ := reach_of_visited hw
  have hst : (Store.empty : Store sdk).Indexed := indexed_empty
  have hspare : HostsSpare e m w.log := fun ev hev payloads hosts hasks =>
    ⟨hspares ev hev payloads hosts hasks, htsa ev hev payloads hosts hasks⟩
  have hunharmed := hj.unharmed he hspare
  constructor
  · exact fun a q hhad hq hm => (hunharmed.stored q hq).2 a hhad hm
  · exact fun q hq => (hunharmed.stored q hq).1
  · intro root answer l hl a hhad
    obtain ⟨w₀, j₀, hw₀, rfl, -, hev⟩ := hj.called hl
    have hearlier : HostsSpare e m w₀.log := fun ev hin =>
      hspare ev (((List.suffix_cons _ _).trans hl).subset hin)
    obtain ⟨ctx, now, q, -, hq, hm, hnone, -⟩ :=
      hw₀.provider_finds hst methodsNodup_empty hev
    have hentry := ((hw₀.unharmed he hearlier).stored q hq).2 a hhad hm
    rw [hnone] at hentry
    cases hentry
  · intro maxAnchorFaults hpos
    simp only [anchorStalled, List.any_eq_false, decide_eq_true_eq, not_and]
    intro p hp hid _ hfaults
    obtain ⟨e', hp'⟩ := mem_inOrder.mp hp
    obtain rfl : e' = e := by
      rw [← hid, ((hj.grounded hst).store.pending e' p hp').2]
    rw [(hunharmed.stored p hp').1] at hfaults
    exact absurd hpos (UInt32.not_lt.mpr hfaults)

/-- Two ticks without a judgement of the chain, far apart. -/
def Sample.silentChainRun : World Sample.sdk :=
  .replay [.append [Sample.leaf 1] "did:a",
    Sample.cycle [.evm] 10
      { Sample.honest "1" with check := fun _ _ _ => .ok Sample.notFinal },
    Sample.cycle [.evm] 500
      { Sample.honest "2" with check := fun _ _ _ => .ok Sample.notFinal }]

/-- Whether the hosts meet `P` whenever (`e`, `m`) is asked about. -/
def Event.asksMeet (P : sdk.Json → SelfCheckHosts sdk → Bool) (e : Nat)
    (m : AnchorMethod) (ev : Event sdk) : Bool :=
  (ev.asks e m).all fun asked => P asked.1 asked.2

theorem asks_meet {P : sdk.Json → SelfCheckHosts sdk → Bool} {e : Nat}
    {m : AnchorMethod} {log : List (Event sdk)}
    (h : ∀ ev ∈ log, ev.asksMeet P e m = true) :
    ∀ ev ∈ log, ∀ payloads hosts, ev.asks e m = some (payloads, hosts) →
      P payloads hosts = true := by
  intro ev hev payloads hosts hasks
  have hmeet := h ev hev
  rw [Event.asksMeet, hasks] at hmeet
  exact hmeet

theorem outage_costs_no_anchor_silentChainRun :
    NothingLost Sample.silentChainRun 1 .evm := by
  have hrun : (∀ ev ∈ Sample.silentChainRun.log,
        ev.asksMeet (sparesAnchor .evm) 1 .evm = true) ∧
      ∀ ev ∈ Sample.silentChainRun.log,
        ev.asksMeet (tsaAnswers .evm) 1 .evm = true := by
    decide +kernel
  exact outage_costs_no_anchor (.between (reachable_replay _)) (by decide)
    (asks_meet hrun.1) (asks_meet hrun.2)

/-- The TSA host is not reachable when the stored token is checked. -/
def Sample.silentTsaRun : World Sample.sdk :=
  .replay [.append [Sample.leaf 1] "did:a",
    Sample.cycle [.qtsa] 10
      { Sample.honest "1" with
        check := fun _ _ _ => .ok { Sample.verifying with
          tsa := fun _ _ _ => .error "connection refused" } }]

theorem exists_outage_costs_anchor :
    ∃ w : World Sample.sdk, Visited Store.empty w ∧
      (∀ ev ∈ w.log, ∀ payloads hosts, ev.asks 1 .qtsa = some (payloads, hosts) →
        sparesAnchor .qtsa payloads hosts = true) ∧
      (∃ a, Had Store.empty w.log 1 .qtsa a) ∧
      ∃ q, w.store.pendingAnchors[1]? = some q ∧ .qtsa ∈ q.methods ∧
        q.anchorEntry .qtsa = none ∧ q.anchorFaultCount .qtsa = 1 := by
  have hrun : (∀ ev ∈ Sample.silentTsaRun.log,
        ev.asksMeet (sparesAnchor .qtsa) 1 .qtsa = true) ∧
      someSplit (fun ev l => holdsSome (storeOf Store.empty (ev :: l)) 1 .qtsa 0)
        Sample.silentTsaRun.log = true ∧
      (Sample.silentTsaRun.store.pendingAnchors[1]?.any fun q =>
        decide (.qtsa ∈ q.methods ∧ q.anchorEntry .qtsa = none ∧
          q.anchorFaultCount .qtsa = 1)) = true := by
    decide +kernel
  obtain ⟨hspares, hheld, hafter⟩ := hrun
  obtain ⟨ev, l, hl, hholds⟩ := someSplit_iff.mp hheld
  obtain ⟨a, q, hq, -, ha, -⟩ := exists_holds hholds
  obtain ⟨q', hq', hlost⟩ := (Option.any_eq_true _ _).mp hafter
  exact ⟨_, .between (reachable_replay _), asks_meet hspares,
    ⟨a, ev :: l, q, hl, hq, ha⟩, q', hq', of_decide_eq_true hlost⟩

end AquaTimestamp
