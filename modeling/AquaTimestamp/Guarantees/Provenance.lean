import AquaTimestamp.Guarantees.Isolation
import AquaTimestamp.Guarantees.Sealing
import AquaTimestamp.Model.Front
import AquaTimestamp.Support.Projection

/-!
# Where a timestamped leaf comes from

Every state of the service is, without its auth stores and its requests, a world of
the server, so what holds of the server's runs holds of the service's.  A leaf is
stored under a DID only after a request the service accepted, with a token it gave to
that DID for a signature over a challenge it had issued to it; and a witness is
served only to a DID that submitted its leaf in this way.
-/

namespace AquaTimestamp

open Support Partition

variable {sdk : Sdk} {host : AuthHost} {params : FrontParams}

/-! ## The service runs as the server does -/

/-- A request leaves the world as it is, or appends the batch it carries for the DID
of its token. -/
theorem Front.serve_world (cfg : Config) (maxAnchorFaults : UInt32) (s : Front sdk host)
    (req : FrontRequest) :
    (s.serve cfg maxAnchorFaults req).world = s.world ∨
      ∃ authorization leaves did batch,
        req = .submitLeaves authorization leaves ∧
        (bearerDid host s.auth authorization).1 = .ok did ∧
        readBatch cfg did leaves = .ok batch ∧
        (s.serve cfg maxAnchorFaults req).world = s.world.append batch did := by
  have hfetch : ∀ authorization handler,
      (s.fetch req authorization handler).world = s.world := by
    intro authorization handler
    unfold Front.fetch
    split
    · rfl
    · split <;> rfl
  cases req with
  | challenge did => exact Or.inl rfl
  | session did nonce signature => exact Or.inl rfl
  | submitUnread authorization rejection =>
      left
      simp only [Front.serve, Front.reject]
      split <;> rfl
  | getTreeByTip authorization tipHex => exact Or.inl (hfetch _ _)
  | getTreeByLeaf authorization leafHex method => exact Or.inl (hfetch _ _)
  | listOrQueryTrees authorization epoch method => exact Or.inl (hfetch _ _)
  | submitLeaves authorization leaves =>
      cases hbearer : bearerDid host s.auth authorization with
      | mk result auth =>
          cases result with
          | error e => exact Or.inl (by simp [Front.serve, hbearer, Front.answered])
          | ok did =>
              cases hbatch : readBatch cfg did leaves with
              | error e =>
                  exact Or.inl (by simp [Front.serve, hbearer, submitLeaves, hbatch])
              | ok batch =>
                  refine Or.inr ⟨authorization, leaves, did, batch, rfl, by rw [hbearer], hbatch, ?_⟩
                  simp only [Front.serve, hbearer, submitLeaves, hbatch]
                  split <;> rfl

theorem projects_world (sdk : Sdk) (host : AuthHost) (params : FrontParams) :
    (frontSemantics sdk host params).Projects (serverSemantics sdk) Front.world where
  step := by
    rintro c r s s' ⟨hperm, rfl⟩
    exact ⟨hperm, rfl⟩
  interferes := by
    rintro s s' (⟨req, rfl⟩ | ⟨auth, -, rfl⟩)
    · rcases s.serve_world params.cfg params.witnessCtx.maxAnchorFaults req with
        hsame | ⟨-, -, did, batch, -, -, -, happend⟩
      · exact Or.inl hsame
      · exact Or.inr ⟨batch, did, happend⟩
    · exact Or.inl rfl

theorem Front.Reachable.world (hdistinct : params.witnessCtx.methods.Nodup)
    {st : Store sdk} {s : Front sdk host} (h : Front.Reachable params st s) :
    AquaTimestamp.Reachable st s.world := by
  have hctx : DistinctMethods (some params.witnessCtx) := by
    rintro _ ⟨⟩
    exact hdistinct
  induction h with
  | boot now => exact .boot now _
  | @request s req _ ih =>
      rcases s.serve_world params.cfg params.witnessCtx.maxAnchorFaults req with
        hsame | ⟨-, -, did, batch, -, -, -, happend⟩
      · rwa [hsame]
      · rw [happend]
        exact ih.append batch did
  | elapse _ _ ih => exact ih
  | cycle _ hcycle ih =>
      exact .cycle ih hctx ((projects_world sdk host params).run hcycle)
  | restart now _ ih => exact ih.restart now _
  | crash now' _ hcycle ih =>
      exact .crash now' _ ih hctx ((projects_world sdk host params).run hcycle)

/-- Whatever requests are served and however the process ends, the world of the
service is one of the server's. -/
theorem Front.Visited.world (hdistinct : params.witnessCtx.methods.Nodup)
    {st : Store sdk} {s : Front sdk host} (h : Front.Visited params st s) :
    AquaTimestamp.Visited st s.world := by
  cases h with
  | between h => exact .between (h.world hdistinct)
  | during h hcycle =>
      refine .during (h.world hdistinct) ?_ ((projects_world sdk host params).run hcycle)
      rintro _ ⟨⟩
      exact hdistinct

/-! ## Stored leaves were appended -/

/-- The leaf was in an accepted batch of the DID. -/
def Appended (log : List (Event sdk)) (leaf : Hash32) (did : String) : Prop :=
  ∃ batch o added, .append batch did (.ok o) added ∈ log ∧ leaf ∈ batch

theorem Appended.mono {log log' : List (Event sdk)} {leaf : Hash32} {did : String}
    (h : Appended log leaf did) (hlog : log <:+ log') : Appended log' leaf did := by
  obtain ⟨batch, o, added, hmem, hleaf⟩ := h
  exact ⟨batch, o, added, hlog.subset hmem, hleaf⟩

theorem mem_appendLeaves {did : String} {batch : List Hash32} {acc : Accumulator}
    {a d : Nat} {entry : LeafEntry}
    (h : entry ∈ (Accumulator.appendLeaves did batch acc a d).1.leaves) :
    entry ∈ acc.leaves ∨ (entry.leaf ∈ batch ∧ entry.submitterDid = did) := by
  induction batch generalizing acc a d with
  | nil => exact Or.inl h
  | cons leaf batch ih =>
      unfold Accumulator.appendLeaves at h
      split at h
      · rcases ih h with hold | ⟨hleaf, hdid⟩
        · exact Or.inl hold
        · exact Or.inr ⟨List.mem_cons_of_mem _ hleaf, hdid⟩
      · rcases ih h with hold | ⟨hleaf, hdid⟩
        · rcases List.mem_append.mp hold with hold | hnew
          · exact Or.inl hold
          · obtain rfl := List.mem_singleton.mp hnew
            exact Or.inr ⟨List.mem_cons_self .., rfl⟩
        · exact Or.inr ⟨List.mem_cons_of_mem _ hleaf, hdid⟩

/-- An entry of the open epoch was there before, or is a leaf of the accepted
batch. -/
theorem mem_leaves_append {acc : Accumulator} {batch : List Hash32} {did : String}
    {entry : LeafEntry} (h : entry ∈ (acc.appendBatch batch did).2.leaves) :
    entry ∈ acc.leaves ∨ ((∃ o, (acc.appendBatch batch did).1 = .ok o) ∧
      entry.leaf ∈ batch ∧ entry.submitterDid = did) := by
  unfold Accumulator.appendBatch at h ⊢
  split at h
  · exact Or.inl h
  · rename_i hfits
    rw [if_neg hfits]
    rcases mem_appendLeaves h with hold | hnew
    · exact Or.inl hold
    · exact Or.inr ⟨⟨_, rfl⟩, hnew⟩

section Runs

variable {w : World sdk} {j : Job sdk} {s : Settling sdk}

theorem Reach.open_appended {st : Store sdk} (h : Reach st w j) :
    ∀ entry ∈ w.accumulator.leaves, Appended w.log entry.leaf entry.submitterDid := by
  refine h.induct (P := fun w => ∀ entry ∈ w.accumulator.leaves,
    Appended w.log entry.leaf entry.submitterDid) ?_ ?_
  · intro now durationSecs entry hentry
    cases hentry
  · intro w j ev _ hev ih entry hentry
    have hold : entry ∈ w.accumulator.leaves →
        Appended (w.emit ev).log entry.leaf entry.submitterDid := by
      intro hentry
      rw [hev.log_eq]
      exact (ih entry hentry).mono (List.suffix_cons _ _)
    cases ev with
    | boot => cases hentry
    | tick => exact hold hentry
    | append batch did outcome added =>
        rcases mem_leaves_append hentry with hentry | ⟨⟨o, ho⟩, hleaf, hdid⟩
        · exact hold hentry
        · have hmem : w.submission batch did ∈ (w.append batch did).log :=
            List.mem_cons_self ..
          rw [World.submission, ho] at hmem
          rw [hdid]
          exact ⟨batch, o, _, hmem, hleaf⟩
    | call c answer =>
        cases c with
        | swapAndOpenNext => cases hentry
        | _ => exact hold hentry

/-- The leaves of an epoch that is being sealed were appended. -/
theorem Reach.closing_appended {st : Store sdk} (h : Reach st w j)
    {snapshot : SealedSnapshot} (hcloses : j.closes = some snapshot) :
    ∀ entry ∈ snapshot.leaves, Appended w.log entry.leaf entry.submitterDid := by
  intro entry hentry
  obtain ⟨closedAt, openedAt, durationSecs, l, hl⟩ := h.closedAs snapshot hcloses
  obtain ⟨w₀, j₀, hw₀, rfl, -, hev⟩ := h.called hl
  cases hev with
  | swap => exact (hw₀.open_appended entry hentry).mono ((List.suffix_cons _ _).trans hl)
  | mint _ hminting => cases hminting

theorem Reach.stored_appended (h : Reach Store.empty w j) :
    (∀ (e : Nat) (leaf : Hash32) did, w.store.epochLeaves[(e, leaf)]? = some did →
      Appended w.log leaf did) ∧
    ∀ (leaf : Hash32) did, w.store.leafOwner[leaf]? = some did →
      Appended w.log leaf did := by
  refine h.induct (P := fun w =>
    (∀ (e : Nat) (leaf : Hash32) did, w.store.epochLeaves[(e, leaf)]? = some did →
      Appended w.log leaf did) ∧
    ∀ (leaf : Hash32) did, w.store.leafOwner[leaf]? = some did →
      Appended w.log leaf did) ?_ ?_
  · intro now durationSecs
    simp [World.boot, Store.empty]
  · intro w j ev hw hev ih
    have hgrow : ∀ leaf did, Appended w.log leaf did →
        Appended (w.emit ev).log leaf did := by
      intro leaf did happended
      rw [hev.log_eq]
      exact happended.mono (List.suffix_cons _ _)
    have hwritten := hev.written
    generalize (w.emit ev).store = st' at hwritten ⊢
    generalize (w.emit ev).log = log at hgrow ⊢
    cases hwritten with
    | unchanged | saved =>
        exact ⟨fun e leaf did hget => hgrow _ _ (ih.1 e leaf did hget),
          fun leaf did hget => hgrow _ _ (ih.2 leaf did hget)⟩
    | served _ _ hserved =>
        rw [hserved.epochLeaves, hserved.leafOwner]
        exact ⟨fun e leaf did hget => hgrow _ _ (ih.1 e leaf did hget),
          fun leaf did hget => hgrow _ _ (ih.2 leaf did hget)⟩
    | sealed _ _ _ hsealed =>
        have hclosing := hw.closing_appended rfl
        constructor
        · intro e leaf did hget
          rw [hsealed.epochLeaves] at hget
          rcases putAll_cases _ _ _ hget with ⟨did', hsome, hmem⟩ | ⟨-, hold⟩
          · cases hsome
            obtain ⟨entry, hentry, heq⟩ := List.mem_map.mp hmem
            obtain ⟨hkey, rfl⟩ := Prod.mk.inj heq
            obtain ⟨-, rfl⟩ := Prod.mk.inj hkey
            exact hgrow _ _ (hclosing entry hentry)
          · exact hgrow _ _ (ih.1 e leaf did hold)
        · intro leaf did hget
          rw [hsealed.leafOwner] at hget
          rcases putAll_cases _ _ _ hget with ⟨did', hsome, hmem⟩ | ⟨-, hold⟩
          · cases hsome
            obtain ⟨entry, hentry, heq⟩ := List.mem_map.mp hmem
            obtain ⟨rfl, rfl⟩ := Prod.mk.inj heq
            exact hgrow _ _ (hclosing entry hentry)
          · exact hgrow _ _ (ih.2 leaf did hold)

/-- The leaves the record restores to were appended. -/
def PendingEpoch.LeavesAppended (log : List (Event sdk)) (q : PendingEpoch sdk) : Prop :=
  ∀ snapshot batch, q.restore = .ok (snapshot, batch) →
    ∀ entry ∈ snapshot.leaves, Appended log entry.leaf entry.submitterDid

theorem PendingEpoch.LeavesAppended.of_same {log : List (Event sdk)}
    {p q : PendingEpoch sdk} (h : q.LeavesAppended log) (hsame : SameEpoch q p) :
    p.LeavesAppended log := by
  intro snapshot batch hrestore
  rw [← hsame.restore_eq] at hrestore
  exact h snapshot batch hrestore

theorem PendingEpoch.LeavesAppended.mono {log log' : List (Event sdk)}
    {q : PendingEpoch sdk} (h : q.LeavesAppended log) (hsuffix : log <:+ log') :
    q.LeavesAppended log' := by
  intro snapshot batch hrestore entry hentry
  exact (h snapshot batch hrestore entry hentry).mono hsuffix

/-- The record of a closed epoch restores to the leaves that were closed. -/
theorem PendingEpoch.leavesAppended_new {log : List (Event sdk)}
    {snapshot : SealedSnapshot} {batch : EpochBatch sdk} {methods : List AnchorMethod}
    (h : ∀ entry ∈ snapshot.leaves, Appended log entry.leaf entry.submitterDid) :
    (PendingEpoch.new snapshot batch methods).LeavesAppended log := by
  intro snapshot' batch' hrestore
  rw [PendingEpoch.restore_new] at hrestore
  obtain ⟨rfl, -⟩ := Prod.mk.inj (Except.ok.inj hrestore)
  exact h

/-- The record that is settled is the stored one, but for its anchors. -/
theorem Reach.settling_stored (h : Reach Store.empty w (.settling s))
    (hbusy : s.phase ≠ .ready) :
    ∃ q, w.store.pendingAnchors[s.record.epochId]? = some q ∧
      PendingEpoch.SameEpoch q s.record := by
  have hsynced := (h.followed indexed_empty methodsNodup_empty).2.1
  cases hq : w.store.pendingAnchors[s.record.epochId]? with
  | none => exact absurd (hsynced.absent hq).2 hbusy
  | some q => exact ⟨q, rfl, (hsynced.stored q hq).same⟩

theorem Reach.pending_appended (h : Reach Store.empty w j) :
    ∀ (e : Nat) q, w.store.pendingAnchors[e]? = some q → q.LeavesAppended w.log := by
  refine h.induct (P := fun w => ∀ (e : Nat) q,
    w.store.pendingAnchors[e]? = some q → q.LeavesAppended w.log) ?_ ?_
  · intro now durationSecs e q hq
    simp [World.boot, Store.empty] at hq
  · intro w j ev hw hev ih e q hq
    have hgrow : ∀ q : PendingEpoch sdk, q.LeavesAppended w.log →
        q.LeavesAppended (w.emit ev).log := by
      intro q h
      rw [hev.log_eq]
      exact h.mono (List.suffix_cons _ _)
    have hwritten := hev.written
    generalize (w.emit ev).store = st' at hwritten hq
    generalize (w.emit ev).log = log at hgrow ⊢
    cases hwritten with
    | unchanged => exact hgrow q (ih e q hq)
    | @saved s o hsaves _ =>
        by_cases hid : s.record.epochId = e
        · rw [← hid, savePending_self] at hq
          obtain rfl := Option.some.inj hq
          have hbusy : s.phase ≠ .ready := by
            rintro hready
            rcases hsaves with ⟨m, v, hphase⟩ | ⟨m, hphase⟩ <;> simp [hready] at hphase
          obtain ⟨q, hq, hsame⟩ := hw.settling_stored hbusy
          exact hgrow _ ((ih _ q hq).of_same hsame)
        · rw [savePending_of_ne _ _ hid] at hq
          exact hgrow q (ih e q hq)
    | @served s m v minted o st' hphase _ hserved =>
        by_cases hid : s.record.epochId = e
        · obtain ⟨q₀, hq₀, hsame⟩ := hw.settling_stored (by simp [hphase])
          have hsame' : PendingEpoch.SameEpoch q₀ (s.record.without m) := hsame
          have hid' : (s.record.without m).epochId = e := hid
          rw [hserved.pendingAnchors] at hq
          split at hq
          · rw [getElem?_remove, if_pos hid'] at hq
            cases hq
          · rw [getElem?_put, if_pos hid'] at hq
            obtain rfl := Option.some.inj hq
            exact hgrow _ ((ih _ q₀ hq₀).of_same hsame')
        · rw [hserved.pending_of_ne hid] at hq
          exact hgrow q (ih e q hq)
    | @sealed ctx now durationSecs down snapshot prepared batch record o st' _ _ _ hsealed =>
        have hclosing := hw.closing_appended rfl
        rw [hsealed.pendingAnchors] at hq
        cases hp : pendingFor ctx snapshot batch with
        | none =>
            rw [hp] at hq
            exact hgrow q (ih e q hq)
        | some p =>
            obtain ⟨c, b, -, -, -, rfl⟩ := pendingFor_eq_some hp
            rw [hp] at hq
            dsimp only at hq
            rw [getElem?_put] at hq
            split at hq
            · obtain rfl := Option.some.inj hq
              exact hgrow _ (PendingEpoch.leavesAppended_new hclosing)
            · exact hgrow q (ih e q hq)

/-- A pair the service indexes is for a leaf that its submitter appended. -/
theorem Reach.pair_appended (h : Reach Store.empty w j) {tip : Hash32}
    {idx : TipPairIndex} (hidx : w.store.tipToPair[tip]? = some idx) :
    Appended w.log idx.leaf idx.submitterDid := by
  obtain ⟨l, e, m, minted, wit, horigin⟩ := h.origin tip idx hidx
  obtain ⟨-, -, hleaf, hdid⟩ := h.origin_key horigin
  obtain ⟨w₀, s, v, hw₀, rfl, -, hphase, hjudged⟩ := h.servedBy horigin.served
  obtain ⟨snapshot, batch, hrestore, hfor⟩ := hjudged.mintedFor
  obtain ⟨q, hq, hsame⟩ := hw₀.settling_stored (by simp [hphase])
  have hentry : wit.entry ∈ snapshot.leaves := by
    rw [← hfor.entries]
    exact List.mem_map_of_mem horigin.mem
  have happended := (hw₀.pending_appended _ q hq).of_same hsame snapshot batch hrestore
    wit.entry hentry
  rw [hleaf, hdid]
  exact happended.mono horigin.served.suffix

end Runs

/-! ## Requests that prove a DID -/

/-- The token was given to the DID for a signature over a challenge that the service
had issued to it before. -/
def Proved (host : AuthHost) (trail : List (Exchange sdk)) (did token : String) : Prop :=
  ∃ earlier nonce signature x c bytes,
    ⟨.session did nonce signature, .ok (.session x)⟩ :: earlier <:+ trail ∧
    x.token = token ∧ ⟨.challenge did, .ok (.challenge c)⟩ ∈ earlier ∧ c.nonce = nonce ∧
    decodeSignature signature = .ok bytes ∧
    host.verifyCaip122 did c.message bytes = .ok true

/-- The leaf was in a request that the service accepted, with a token of the DID. -/
def Submitted (host : AuthHost) (cfg : Config) (trail : List (Exchange sdk))
    (leaf : Hash32) (did : String) : Prop :=
  ∃ earlier authorization leaves receipt token batch,
    ⟨.submitLeaves authorization leaves, .ok (.leaves receipt)⟩ :: earlier <:+ trail ∧
    bearerToken authorization = .ok token ∧ Proved host earlier did token ∧
    readBatch cfg did leaves = .ok batch ∧ leaf ∈ batch ∧ receipt.submitterDid = did

theorem Proved.mono {trail trail' : List (Exchange sdk)} {did token : String}
    (h : Proved host trail did token) (htrail : trail <:+ trail') :
    Proved host trail' did token := by
  obtain ⟨earlier, nonce, signature, x, c, bytes, hsuffix, hrest⟩ := h
  exact ⟨earlier, nonce, signature, x, c, bytes, hsuffix.trans htrail, hrest⟩

theorem Submitted.mono {cfg : Config} {trail trail' : List (Exchange sdk)}
    {leaf : Hash32} {did : String} (h : Submitted host cfg trail leaf did)
    (htrail : trail <:+ trail') : Submitted host cfg trail' leaf did := by
  obtain ⟨earlier, authorization, leaves, receipt, token, batch, hsuffix, hrest⟩ := h
  exact ⟨earlier, authorization, leaves, receipt, token, batch, hsuffix.trans htrail,
    hrest⟩

/-- Every outstanding challenge, every session and every accepted batch has its
request. -/
structure Accounted (cfg : Config) (s : Front sdk host) : Prop where
  challenges : ∀ c, host.issued s.auth c →
    ⟨.challenge c.did, .ok (.challenge c)⟩ ∈ s.trail
  sessions : ∀ token did, host.holds s.auth token did → Proved host s.trail did token
  appends : ∀ leaf did, Appended s.world.log leaf did → Submitted host cfg s.trail leaf did

section Requests

variable {cfg : Config} {s : Front sdk host}

/-- An answer that brings nothing to the auth stores keeps the account. -/
theorem Accounted.answered (h : Accounted cfg s) {auth : host.State}
    (hkeeps : host.Keeps s.auth auth) (req : FrontRequest)
    (answer : Except FrontError (Reply sdk)) :
    Accounted cfg (s.answered auth req answer) where
  challenges c hc := List.mem_cons_of_mem _ (h.challenges c (hkeeps.issued c hc))
  sessions token did hd :=
    (h.sessions token did (hkeeps.holds token did hd)).mono (List.suffix_cons _ _)
  appends leaf did happended := (h.appends leaf did happended).mono (List.suffix_cons _ _)

theorem keeps_refl (auth : host.State) : host.Keeps auth auth :=
  ⟨fun _ h => h, fun _ _ h => h⟩

theorem keeps_bearerDid (hhost : host.Lawful) {auth auth' : host.State}
    {authorization : Option String} {result : Except FrontError String}
    (h : bearerDid host auth authorization = (result, auth')) : host.Keeps auth auth' := by
  unfold bearerDid at h
  split at h
  · obtain ⟨-, rfl⟩ := Prod.mk.inj h
    exact keeps_refl auth
  · rename_i token htoken
    have hkeeps := hhost.validateSession_keeps auth token
    split at h <;>
      · rename_i hsession
        obtain ⟨-, rfl⟩ := Prod.mk.inj h
        rw [hsession] at hkeeps
        exact hkeeps

/-- Who passes the token's check has proved the DID. -/
theorem Accounted.proved (h : Accounted cfg s) (hhost : host.Lawful)
    {auth : host.State} {authorization : Option String} {did : String}
    (hbearer : bearerDid host s.auth authorization = (.ok did, auth)) :
    ∃ token, bearerToken authorization = .ok token ∧ Proved host s.trail did token := by
  obtain ⟨token, htoken, hsession⟩ := bearerDid_eq_ok hbearer
  exact ⟨token, htoken, h.sessions token did (hhost.validateSession_ok _ _ _ hsession)⟩

theorem Accounted.challenge (h : Accounted cfg s) (hhost : host.Lawful)
    (maxAnchorFaults : UInt32) (did : String) :
    Accounted cfg (s.serve cfg maxAnchorFaults (.challenge did)) := by
  have hissued := hhost.createChallenge_issued s.auth did
  have hheld := hhost.createChallenge_holds s.auth did
  simp only [Front.serve, AquaTimestamp.challenge]
  cases hcreate : host.createChallenge s.auth did with
  | mk result auth =>
      rw [hcreate] at hissued hheld
      cases result with
      | error e =>
          refine h.answered ⟨fun c hc => ?_, hheld⟩ _ _
          rcases hissued c hc with hold | ⟨-, hnew⟩
          · exact hold
          · cases hnew
      | ok x =>
          refine ⟨fun c hc => ?_, ?_, ?_⟩
          · rcases hissued c hc with hold | ⟨rfl, hnew⟩
            · exact List.mem_cons_of_mem _ (h.challenges c hold)
            · obtain rfl := Except.ok.inj hnew
              exact List.mem_cons_self ..
          · exact fun token did' hd =>
              (h.sessions token did' (hheld token did' hd)).mono (List.suffix_cons _ _)
          · exact fun leaf did' happended =>
              (h.appends leaf did' happended).mono (List.suffix_cons _ _)

/-- A session that is opened adds at most its own token. -/
theorem openSession_holds (hhost : host.Lawful) {auth auth' : host.State} {did : String}
    {result : Except FrontError Session}
    (h : openSession host auth did = (result, auth')) :
    (∀ c, host.issued auth' c → host.issued auth c) ∧
      ∀ token did', host.holds auth' token did' → host.holds auth token did' ∨
        (did' = did ∧ ∃ x, result = .ok x ∧ x.token = token) := by
  have hissued := hhost.createSession_issued auth did
  have hheld := hhost.createSession_holds auth did
  unfold openSession at h
  split at h
  · rename_i hcreate
    obtain ⟨rfl, rfl⟩ := Prod.mk.inj h
    rw [hcreate] at hissued hheld
    refine ⟨hissued, fun token did' hd => ?_⟩
    rcases hheld token did' hd with hold | ⟨hdid, x, hx, htoken⟩
    · exact Or.inl hold
    · exact Or.inr ⟨hdid, x, by simpa using hx, htoken⟩
  all_goals
    rename_i hcreate
    obtain ⟨rfl, rfl⟩ := Prod.mk.inj h
    rw [hcreate] at hissued hheld
    refine ⟨hissued, fun token did' hd => Or.inl ?_⟩
    rcases hheld token did' hd with hold | ⟨-, x, hx, -⟩
    · exact hold
    · cases hx

theorem session_holds (hhost : host.Lawful) {auth auth' : host.State}
    {did nonce signature : String} {result : Except FrontError Session}
    (h : session host auth did nonce signature = (result, auth')) :
    (∀ c, host.issued auth' c → host.issued auth c) ∧
      ∀ token did', host.holds auth' token did' → host.holds auth token did' ∨
        (did' = did ∧ ∃ x, result = .ok x ∧ x.token = token) := by
  have hkeeps := hhost.validateChallenge_keeps auth nonce
  have hsame : ∀ {auth₁ : host.State}, host.Keeps auth auth₁ →
      (∀ c, host.issued auth₁ c → host.issued auth c) ∧
        ∀ token did', host.holds auth₁ token did' → host.holds auth token did' ∨
          (did' = did ∧ ∃ x, result = .ok x ∧ x.token = token) :=
    fun hkeeps => ⟨hkeeps.issued, fun token did' hd => Or.inl (hkeeps.holds _ _ hd)⟩
  unfold session at h
  split at h
  · rename_i hchallenge
    obtain ⟨-, rfl⟩ := Prod.mk.inj h
    rw [hchallenge] at hkeeps
    exact hsame hkeeps
  · rename_i hchallenge
    rw [hchallenge] at hkeeps
    split at h
    · obtain ⟨-, rfl⟩ := Prod.mk.inj h
      exact hsame hkeeps
    · split at h
      · obtain ⟨-, rfl⟩ := Prod.mk.inj h
        exact hsame hkeeps
      · obtain ⟨hissued, hheld⟩ := openSession_holds hhost h
        refine ⟨fun c hc => hkeeps.issued c (hissued c hc), fun token did' hd => ?_⟩
        rcases hheld token did' hd with hold | hnew
        · exact Or.inl (hkeeps.holds _ _ hold)
        · exact Or.inr hnew

theorem Accounted.session (h : Accounted cfg s) (hhost : host.Lawful)
    (maxAnchorFaults : UInt32) (did nonce signature : String) :
    Accounted cfg (s.serve cfg maxAnchorFaults (.session did nonce signature)) := by
  simp only [Front.serve]
  cases hsession : AquaTimestamp.session host s.auth did nonce signature with
  | mk result auth =>
      obtain ⟨hissued, hheld⟩ := session_holds hhost hsession
      refine ⟨fun c hc => List.mem_cons_of_mem _ (h.challenges c (hissued c hc)), ?_,
        fun leaf did' happended =>
          (h.appends leaf did' happended).mono (List.suffix_cons _ _)⟩
      intro token did' hd
      rcases hheld token did' hd with hold | ⟨rfl, x, rfl, htoken⟩
      · exact (h.sessions token did' hold).mono (List.suffix_cons _ _)
      · obtain ⟨c, bytes, hchallenge, rfl, hbytes, hverified, -⟩ := session_eq_ok hsession
        obtain ⟨hout, hnonce⟩ := hhost.validateChallenge_ok _ _ _ hchallenge
        exact ⟨s.trail, nonce, signature, x, c, bytes, List.suffix_refl _, htoken,
          h.challenges c hout, hnonce, hbytes, hverified⟩

/-- What a submission adds to the history is the accepted batch of its DID. -/
theorem appended_append {w : World sdk} {batch : List Hash32} {leaf : Hash32}
    {did did' : String} (h : Appended (w.append batch did).log leaf did') :
    Appended w.log leaf did' ∨
      (did' = did ∧ leaf ∈ batch ∧ ∃ o, (w.accumulator.appendBatch batch did).1 = .ok o) := by
  obtain ⟨batch', o, added, hmem, hleaf⟩ := h
  rcases List.mem_cons.mp hmem with heq | hold
  · injection heq with hbatch hdid ho hadded
    subst hbatch
    exact Or.inr ⟨hdid, hleaf, o, ho.symm⟩
  · exact Or.inl ⟨batch', o, added, hold, hleaf⟩

theorem Accounted.submitLeaves (h : Accounted cfg s) (hhost : host.Lawful)
    (maxAnchorFaults : UInt32) (authorization : Option String) (leaves : List String) :
    Accounted cfg (s.serve cfg maxAnchorFaults (.submitLeaves authorization leaves)) := by
  simp only [Front.serve]
  cases hbearer : bearerDid host s.auth authorization with
  | mk result auth =>
      have hkeeps := keeps_bearerDid hhost hbearer
      cases result with
      | error e => exact h.answered hkeeps _ _
      | ok did =>
          obtain ⟨token, htoken, hproved⟩ := h.proved hhost hbearer
          refine ⟨fun c hc => List.mem_cons_of_mem _ (h.challenges c (hkeeps.issued c hc)),
            fun token did' hd => (h.sessions token did' (hkeeps.holds _ _ hd)).mono
              (List.suffix_cons _ _), ?_⟩
          intro leaf did' happended
          simp only [AquaTimestamp.submitLeaves] at happended ⊢
          have hold : ∀ answer, Appended s.world.log leaf did' → Submitted host cfg
              (⟨.submitLeaves authorization leaves, answer⟩ :: s.trail) leaf did' :=
            fun answer hbefore => (h.appends leaf did' hbefore).mono (List.suffix_cons _ _)
          cases hbatch : readBatch cfg did leaves with
          | error e =>
              simp only [hbatch] at happended
              exact hold _ happended
          | ok batch =>
              simp only [hbatch] at happended
              cases ho : (s.world.accumulator.appendBatch batch did).1 with
              | error full =>
                  simp only [ho] at happended ⊢
                  rcases appended_append happended with hbefore | ⟨-, -, o, hok⟩
                  · exact hold _ hbefore
                  · rw [hok] at ho
                    cases ho
              | ok o =>
                  simp only [ho] at happended ⊢
                  rcases appended_append happended with hbefore | ⟨rfl, hleaf, -⟩
                  · exact hold _ hbefore
                  · exact ⟨s.trail, authorization, leaves, _, token, batch,
                      List.suffix_refl _, htoken, hproved, hbatch, hleaf, rfl⟩

theorem Accounted.fetch (h : Accounted cfg s) (hhost : host.Lawful) (req : FrontRequest)
    (authorization : Option String)
    (handler : String → Except AuthApiError (Response sdk)) :
    Accounted cfg (s.fetch req authorization handler) := by
  unfold Front.fetch
  split
  · rename_i hbearer
    exact h.answered (keeps_bearerDid hhost hbearer) _ _
  · rename_i hbearer
    split
    · exact h.answered (keeps_bearerDid hhost hbearer) _ _
    · exact h.answered (keeps_bearerDid hhost hbearer) _ _

theorem Accounted.reject (h : Accounted cfg s) (hhost : host.Lawful) (req : FrontRequest)
    (authorization : Option String) (rejection : JsonRejection) :
    Accounted cfg (s.reject req authorization rejection) := by
  unfold Front.reject
  split
  · rename_i hbearer
    exact h.answered (keeps_bearerDid hhost hbearer) _ _
  · rename_i hbearer
    exact h.answered (keeps_bearerDid hhost hbearer) _ _

theorem Accounted.serve (h : Accounted cfg s) (hhost : host.Lawful)
    (maxAnchorFaults : UInt32) (req : FrontRequest) :
    Accounted cfg (s.serve cfg maxAnchorFaults req) := by
  cases req with
  | challenge did => exact h.challenge hhost maxAnchorFaults did
  | session did nonce signature =>
      exact h.session hhost maxAnchorFaults did nonce signature
  | submitLeaves authorization leaves =>
      exact h.submitLeaves hhost maxAnchorFaults authorization leaves
  | submitUnread authorization rejection => exact h.reject hhost _ authorization rejection
  | getTreeByTip authorization tipHex => exact h.fetch hhost _ _ _
  | getTreeByLeaf authorization leafHex method => exact h.fetch hhost _ _ _
  | listOrQueryTrees authorization epoch method => exact h.fetch hhost _ _ _

/-- The account is kept by what happens to the world without an append. -/
theorem Accounted.of_world (h : Accounted cfg s) {w : World sdk}
    (hlog : ∀ leaf did, Appended w.log leaf did → Appended s.world.log leaf did) :
    Accounted cfg { s with world := w } where
  challenges := h.challenges
  sessions := h.sessions
  appends leaf did happended := h.appends leaf did (hlog leaf did happended)

theorem appended_cons {log : List (Event sdk)} {ev : Event sdk} {leaf : Hash32}
    {did : String} (hev : ∀ batch o added, ev ≠ .append batch did (.ok o) added)
    (h : Appended (ev :: log) leaf did) : Appended log leaf did := by
  obtain ⟨batch, o, added, hmem, hleaf⟩ := h
  rcases List.mem_cons.mp hmem with heq | hold
  · exact absurd heq.symm (hev batch o added)
  · exact ⟨batch, o, added, hold, hleaf⟩

end Requests

/-- The account is kept while the sealer is at work. -/
theorem Accounted.cycle (hhost : host.Lawful) {s s' : Front sdk host}
    {now durationSecs : Nat}
    {result : Option (Except SealError (EpochRecord × List (MintedWitness sdk)))}
    (h : Accounted params.cfg s)
    (hcycle : Front.SealCycle params s now durationSecs s' result) :
    Accounted params.cfg s' := by
  refine hcycle.keeps (P := Accounted params.cfg) ?_ ?_ ?_
  · rintro c r s₁ s₂ ⟨-, rfl⟩ h₁
    exact h₁.of_world fun leaf did => appended_cons (by simp)
  · rintro s₁ s₂ h₁ (⟨req, rfl⟩ | ⟨auth, helapses, rfl⟩)
    · exact h₁.serve hhost _ req
    · have hkeeps := hhost.elapses_keeps _ _ helapses
      exact ⟨fun c hc => h₁.challenges c (hkeeps.issued c hc),
        fun token did hd => h₁.sessions token did (hkeeps.holds _ _ hd), h₁.appends⟩
  · exact h.of_world fun leaf did => appended_cons (by simp)

theorem Accounted.restart (hhost : host.Lawful) {s : Front sdk host}
    (h : Accounted params.cfg s) (now : Nat) :
    Accounted params.cfg (s.restart params now) where
  challenges c hc := absurd hc (hhost.noneIssued _ _ _ _ c)
  sessions token did hd := absurd hd (hhost.noneHeld _ _ _ _ token did)
  appends leaf did happended := h.appends leaf did (appended_cons (by simp) happended)

theorem Front.Reachable.accounted (hhost : host.Lawful) {st : Store sdk}
    {s : Front sdk host} (h : Front.Reachable params st s) : Accounted params.cfg s := by
  induction h with
  | boot now =>
      refine ⟨fun c hc => absurd hc (hhost.noneIssued _ _ _ _ c),
        fun token did hd => absurd hd (hhost.noneHeld _ _ _ _ token did), ?_⟩
      rintro leaf did ⟨batch, o, added, hmem, -⟩
      simp [Front.boot, World.boot] at hmem
  | request req _ ih => exact ih.serve hhost _ req
  | elapse _ helapses ih =>
      have hkeeps := hhost.elapses_keeps _ _ helapses
      exact ⟨fun c hc => ih.challenges c (hkeeps.issued c hc),
        fun token did hd => ih.sessions token did (hkeeps.holds _ _ hd), ih.appends⟩
  | cycle _ hcycle ih => exact ih.cycle hhost hcycle
  | restart now _ ih => exact ih.restart hhost now
  | crash now' _ hcycle ih => exact (ih.cycle hhost hcycle).restart hhost now'

theorem Front.Visited.accounted (hhost : host.Lawful) {st : Store sdk}
    {s : Front sdk host} (h : Front.Visited params st s) : Accounted params.cfg s := by
  cases h with
  | between h => exact h.accounted hhost
  | during h hcycle => exact (h.accounted hhost).cycle hhost hcycle

/-! ## A session and a submission -/

/-- Every request is answered once. -/
theorem Front.serve_trail (cfg : Config) (maxAnchorFaults : UInt32) (s : Front sdk host)
    (req : FrontRequest) :
    ∃ answer, (s.serve cfg maxAnchorFaults req).trail = ⟨req, answer⟩ :: s.trail := by
  have hfetch : ∀ authorization handler,
      ∃ answer, (s.fetch req authorization handler).trail = ⟨req, answer⟩ :: s.trail := by
    intro authorization handler
    unfold Front.fetch
    split
    · exact ⟨_, rfl⟩
    · split <;> exact ⟨_, rfl⟩
  cases req with
  | challenge did => exact ⟨_, rfl⟩
  | session did nonce signature => exact ⟨_, rfl⟩
  | submitLeaves authorization leaves =>
      simp only [Front.serve]
      split <;> exact ⟨_, rfl⟩
  | submitUnread authorization rejection =>
      simp only [Front.serve, Front.reject]
      split <;> exact ⟨_, rfl⟩
  | getTreeByTip authorization tipHex => exact hfetch _ _
  | getTreeByLeaf authorization leafHex method => exact hfetch _ _
  | listOrQueryTrees authorization epoch method => exact hfetch _ _

/-- The response of the newest answer, of a fetch route. -/
def Front.fetched (s : Front sdk host) : Option (Response sdk) :=
  match s.trail with
  | ⟨_, .ok (.trees r)⟩ :: _ => some r
  | _ => none

theorem Front.serve_fetched {cfg : Config} {maxAnchorFaults : UInt32}
    {s : Front sdk host} {req : FrontRequest} {r : Response sdk}
    (h : (s.serve cfg maxAnchorFaults req).fetched = some r) :
    (s.serve cfg maxAnchorFaults req).trail = ⟨req, .ok (.trees r)⟩ :: s.trail := by
  obtain ⟨answer, htrail⟩ := s.serve_trail cfg maxAnchorFaults req
  unfold Front.fetched at h
  rw [htrail] at h ⊢
  split at h
  · rename_i heq
    obtain ⟨hhead, -⟩ := List.cons.inj heq
    obtain rfl := Option.some.inj h
    rw [hhead]
    rw [Exchange.mk.injEq] at hhead
    rw [hhead.1]
  · cases h

/-- One seal cycle of the service, executed as far as it goes. -/
def Front.enter (s : Front sdk host) (params : FrontParams) (now durationSecs : Nat)
    (out : Surroundings sdk) :
    Front sdk host × Option (Except SealError (EpochRecord × List (MintedWitness sdk))) :=
  (sealOnce now durationSecs (some params.witnessCtx)).drive
    (fun s c => out.answer s.world c) (fun s c r => { s with world := s.world.after c r })
    { s with world := s.world.tick (some params.witnessCtx) now durationSecs }

theorem Front.sealCycle_enter (s : Front sdk host) (params : FrontParams)
    (now durationSecs : Nat) (out : Surroundings sdk) :
    Front.SealCycle params s now durationSecs (s.enter params now durationSecs out).1
      (s.enter params now durationSecs out).2 := by
  have hstep : ∀ (s : Front sdk host) c r, out.answer s.world c = some r →
      (frontSemantics sdk host params).step c r s { s with world := s.world.after c r } :=
    fun _ _ _ h => ⟨Surroundings.permitted_answer h, rfl⟩
  exact Prog.run_drive hstep _ _

/-- Challenges and tokens in two lists; the signature `01` is good. -/
def Sample.authHost : AuthHost where
  State := List Challenge × List (String × String)
  buildStores _ _ _ _ := ([], [])
  createChallenge s did :=
    (.ok ⟨did, "nonce", "sign in as " ++ did, 300⟩,
      (⟨did, "nonce", "sign in as " ++ did, 300⟩ :: s.1, s.2))
  validateChallenge s nonce :=
    match s.1.find? fun c => c.nonce = nonce with
    | some c => (.ok c, (s.1.erase c, s.2))
    | none => (.error "unknown nonce", s)
  verifyCaip122 _ _ bytes := .ok (bytes = [1])
  createSession s did :=
    (.ok ⟨"token-" ++ did, did, 3600, 0⟩, (s.1, ("token-" ++ did, did) :: s.2))
  validateSession s token :=
    match s.2.find? fun x => x.1 = token with
    | some x => (.ok x.2, s)
    | none => (.error "unknown token", s)
  elapses s s' := s'.1 ⊆ s.1 ∧ s'.2 ⊆ s.2
  issued s c := c ∈ s.1
  holds s token did := (token, did) ∈ s.2

theorem Sample.authHost_lawful : Sample.authHost.Lawful where
  noneIssued _ _ _ _ _ := List.not_mem_nil
  noneHeld _ _ _ _ _ _ := List.not_mem_nil
  createChallenge_issued s did c h := by
    rcases List.mem_cons.mp h with rfl | hold
    · exact Or.inr ⟨rfl, rfl⟩
    · exact Or.inl hold
  createChallenge_holds _ _ _ _ h := h
  validateChallenge_ok s nonce c h := by
    simp only [Sample.authHost] at h ⊢
    split at h
    · rename_i x hfind
      obtain rfl := Except.ok.inj h
      exact ⟨List.mem_of_find?_eq_some hfind, by simpa using List.find?_some hfind⟩
    · cases h
  validateChallenge_keeps s nonce := by
    refine ⟨fun c h => ?_, fun token did h => ?_⟩
    · simp only [Sample.authHost] at h ⊢
      split at h
      · exact List.mem_of_mem_erase h
      · exact h
    · simp only [Sample.authHost] at h ⊢
      split at h
      · exact h
      · exact h
  createSession_issued _ _ _ h := h
  createSession_holds s did token did' h := by
    rcases List.mem_cons.mp h with heq | hold
    · obtain ⟨rfl, rfl⟩ := Prod.mk.inj heq
      exact Or.inr ⟨rfl, _, rfl, rfl⟩
    · exact Or.inl hold
  validateSession_ok s token did h := by
    simp only [Sample.authHost] at h ⊢
    split at h
    · rename_i x hfind
      obtain rfl := Except.ok.inj h
      have htoken : x.1 = token := by simpa using List.find?_some hfind
      rw [← htoken]
      exact List.mem_of_find?_eq_some hfind
    · cases h
  validateSession_keeps s token := by
    simp only [Sample.authHost]
    split <;> exact ⟨fun _ h => h, fun _ _ h => h⟩
  elapses_keeps s s' h := ⟨fun _ hc => h.1 hc, fun _ _ hd => h.2 hd⟩

def Sample.frontParams : FrontParams where
  cfg := { server := ⟨"0.0.0.0:3000"⟩ }
  witnessCtx := Sample.ctx [.evm, .qtsa]

/-- A DID signs in and submits a leaf. -/
def Sample.submittedFront : Front Sample.sdk Sample.authHost :=
  (((Front.boot Sample.frontParams Store.empty 0).serve Sample.frontParams.cfg 3
    (.challenge "did:a")).serve Sample.frontParams.cfg 3
    (.session "did:a" "nonce" "0x01")).serve Sample.frontParams.cfg 3
    (.submitLeaves (some "Bearer token-did:a") [hexLower (Sample.leaf 1)])

/-- Its epoch is sealed and anchored. -/
def Sample.sealedFront : Front Sample.sdk Sample.authHost × Option
    (Except SealError (EpochRecord × List (MintedWitness Sample.sdk))) :=
  Sample.submittedFront.enter Sample.frontParams 60 60 (Sample.honest "1")

theorem Sample.sealedFront_visited :
    Front.Visited Sample.frontParams Store.empty Sample.sealedFront.1 := by
  have hsome : Sample.sealedFront.2.isSome = true := by
    decide +kernel
  obtain ⟨result, hresult⟩ := Option.isSome_iff_exists.mp hsome
  have hcycle := Front.sealCycle_enter Sample.submittedFront Sample.frontParams 60 60
    (Sample.honest "1")
  exact .between (.cycle (.request _ (.request _ (.request _ (.boot 0)))) (hresult ▸ hcycle))

/-! ## Submitted leaves -/

/-- A sealed epoch holds a leaf under a DID only if the service accepted the leaf in a
request with a token of that DID, which had signed a challenge of the service. -/
theorem sealed_leaf_was_submitted (hhost : host.Lawful)
    (hdistinct : params.witnessCtx.methods.Nodup) {s : Front sdk host}
    (h : Front.Visited params Store.empty s) :
    (∀ (e : Nat) (leaf : Hash32) did,
      s.world.store.epochLeaves[(e, leaf)]? = some did →
        Submitted host params.cfg s.trail leaf did) ∧
    (∀ (leaf : Hash32) did, s.world.store.leafOwner[leaf]? = some did →
      Submitted host params.cfg s.trail leaf did) ∧
    (∀ (tip : Hash32) idx, s.world.store.tipToPair[tip]? = some idx →
      Submitted host params.cfg s.trail idx.leaf idx.submitterDid) ∧
    ∀ entry ∈ s.world.accumulator.leaves,
      Submitted host params.cfg s.trail entry.leaf entry.submitterDid := by
  obtain ⟨j, hj⟩ := reach_of_visited (h.world hdistinct)
  have haccount := (h.accounted hhost).appends
  obtain ⟨hepochs, howners⟩ := hj.stored_appended
  refine ⟨?_, ?_, ?_, ?_⟩
  · intro e leaf did hleaf
    exact haccount leaf did (hepochs e leaf did hleaf)
  · intro leaf did howner
    exact haccount leaf did (howners leaf did howner)
  · intro tip idx hidx
    exact haccount _ _ (hj.pair_appended hidx)
  · intro entry hentry
    exact haccount _ _ (hj.open_appended entry hentry)

theorem sealed_leaf_was_submitted_sealedFront :
    Submitted Sample.authHost Sample.frontParams.cfg Sample.sealedFront.1.trail
      (Sample.leaf 1) "did:a" := by
  have hsealed : Sample.sealedFront.1.world.store.epochLeaves[(1, Sample.leaf 1)]? =
      some "did:a" := by
    decide +kernel
  exact (sealed_leaf_was_submitted Sample.authHost_lawful (by decide)
    Sample.sealedFront_visited).1 1 _ _ hsealed

/-! ## Served witnesses -/

/-- The header the request is let in with. -/
def FrontRequest.authorization : FrontRequest → Option String
  | .challenge _ => none
  | .session _ _ _ => none
  | .submitLeaves authorization _ => authorization
  | .submitUnread authorization _ => authorization
  | .getTreeByTip authorization _ => authorization
  | .getTreeByLeaf authorization _ _ => authorization
  | .listOrQueryTrees authorization _ _ => authorization

/-- The pair is the DID's own, or the current one of a leaf of the DID; either way of
a leaf the DID submitted. -/
def Entitled (cfg : Config) (s : Front sdk host) (did : String) (idx : TipPairIndex) :
    Prop :=
  (∃ tip : Hash32, s.world.store.tipToPair[tip]? = some idx ∧ idx.submitterDid = did ∧
    Submitted host cfg s.trail idx.leaf did) ∨
  ∃ (leaf : Hash32) (m : AnchorMethod), s.world.store.currentPair leaf m = some idx ∧
    s.world.store.leafOwner[leaf]? = some did ∧ Submitted host cfg s.trail leaf did

/-- The body tells about pairs with the property only. -/
def Body.ShowsOnly (st : Store sdk) (P : TipPairIndex → Prop) : Body sdk → Prop
  | .tree revisions fileIndex => ∃ pairs, (∀ idx ∈ pairs, P idx) ∧
      loadPairs st pairs ∅ ∅ = .ok (revisions, fileIndex)
  | .tips listed => ∀ text ∈ listed, ∃ idx, P idx ∧ text = revisionWireHex sdk idx.signatureHash
  | .status _ => False
  | .error _ => False

theorem pairResponse_showsOnly {st : Store sdk} {P : TipPairIndex → Prop}
    {idx : TipPairIndex} {r : Response sdk} (hP : P idx)
    (h : pairResponse st idx = .ok r) : r.body.ShowsOnly st P := by
  unfold pairResponse buildPairBody at h
  split at h
  · rename_i body hbody
    obtain rfl := Except.ok.inj h
    split at hbody
    · rename_i revisions fileIndex hload
      obtain rfl := Except.ok.inj hbody
      exact ⟨[idx], by simpa using hP, by simp [loadPairs, hload]⟩
    · cases hbody
  · cases h

section Fetches

variable {s : Front sdk host} {did : String} {r : Response sdk}

theorem getTreeByTip_entitled (hhost : host.Lawful)
    (hdistinct : params.witnessCtx.methods.Nodup)
    (h : Front.Visited params Store.empty s) {tipHex : String}
    (hroute : getTreeByTip s.world.store did tipHex = .ok r) (hr : r.status = .ok) :
    r.body.ShowsOnly s.world.store (Entitled params.cfg s did) := by
  obtain ⟨tip, idx, -, hidx, hdid, -, hpair⟩ := getTreeByTip_served hroute hr
  obtain ⟨j, hj⟩ := reach_of_visited (h.world hdistinct)
  have hsubmitted := (h.accounted hhost).appends _ _ (hj.pair_appended hidx)
  rw [hdid] at hsubmitted
  exact pairResponse_showsOnly (Or.inl ⟨tip, hidx, hdid, hsubmitted⟩) hpair

theorem getTreeByLeaf_entitled (hhost : host.Lawful)
    (hdistinct : params.witnessCtx.methods.Nodup)
    (h : Front.Visited params Store.empty s) {maxAnchorFaults : UInt32}
    {leafHex : String} {method : Option String}
    (hroute : getTreeByLeaf s.world.store maxAnchorFaults did leafHex method = .ok r)
    (hr : r.status = .ok) :
    r.body.ShowsOnly s.world.store (Entitled params.cfg s did) := by
  obtain ⟨methodStr, m, leaf, tip, idx, -, -, -, howner, htip, hidx, -, hpair⟩ :=
    getTreeByLeaf_served hroute hr
  obtain ⟨j, hj⟩ := reach_of_visited (h.world hdistinct)
  have hsubmitted := (h.accounted hhost).appends _ _ (hj.stored_appended.2 leaf did howner)
  have hcurrent : s.world.store.currentPair leaf m = some idx :=
    currentPair_eq_some.mpr ⟨tip, htip, hidx⟩
  exact pairResponse_showsOnly (Or.inr ⟨leaf, m, hcurrent, howner, hsubmitted⟩) hpair

/-- The pairs of a DID are of leaves it submitted. -/
theorem entitled_of_pair (hhost : host.Lawful)
    (hdistinct : params.witnessCtx.methods.Nodup)
    (h : Front.Visited params Store.empty s) {tip : Hash32} {idx : TipPairIndex}
    (hidx : s.world.store.tipToPair[tip]? = some idx) (hdid : idx.submitterDid = did) :
    Entitled params.cfg s did idx := by
  obtain ⟨j, hj⟩ := reach_of_visited (h.world hdistinct)
  have hsubmitted := (h.accounted hhost).appends _ _ (hj.pair_appended hidx)
  rw [hdid] at hsubmitted
  exact Or.inl ⟨tip, hidx, hdid, hsubmitted⟩

theorem listOrQueryTrees_entitled (hhost : host.Lawful)
    (hdistinct : params.witnessCtx.methods.Nodup)
    (h : Front.Visited params Store.empty s) {maxAnchorFaults : UInt32}
    {epoch : Option Nat} {method : Option String}
    (hroute : listOrQueryTrees s.world.store maxAnchorFaults did epoch method = .ok r)
    (hr : r.status = .ok) :
    r.body.ShowsOnly s.world.store (Entitled params.cfg s did) := by
  unfold listOrQueryTrees at hroute
  split at hroute
  · obtain rfl := Except.ok.inj hroute
    intro text htext
    obtain ⟨⟨e, tip⟩, hlisted, rfl⟩ := List.mem_map.mp htext
    have hmem := (List.mem_filter.mp hlisted).1
    unfold listWitnessTipsForDid at hmem
    rw [List.mem_mergeSort] at hmem
    obtain ⟨⟨tip', idx⟩, hentry, heq⟩ := List.mem_map.mp hmem
    obtain ⟨-, rfl⟩ := Prod.mk.inj heq
    obtain ⟨hstored, hdid⟩ := List.mem_filter.mp hentry
    have hidx := Std.ExtTreeMap.mem_toList_iff_getElem?_eq_some.mp hstored
    obtain ⟨j, hj⟩ := reach_of_visited (h.world hdistinct)
    refine ⟨idx, entitled_of_pair hhost hdistinct h hidx (of_decide_eq_true hdid), ?_⟩
    rw [hj.linked.key _ idx hidx]
  · obtain ⟨m, -, hunion⟩ := bind_eq_ok_iff.mp hroute
    obtain ⟨-, revisions, fileIndex, hload, hbody⟩ := unionForEpoch_served hunion hr
    rw [hbody]
    refine ⟨_, fun idx hidx => ?_, hload⟩
    obtain ⟨⟨tip, hstored⟩, -, -, hdid⟩ := mem_listWitnessesForDidInEpoch.mp hidx
    exact entitled_of_pair hhost hdistinct h hstored hdid
  · cases hroute

end Fetches

theorem fetch_trail {s : Front sdk host} {req : FrontRequest} {authorization : Option String}
    {handler : String → Except AuthApiError (Response sdk)} {r : Response sdk}
    (h : (s.fetch req authorization handler).trail = ⟨req, .ok (.trees r)⟩ :: s.trail) :
    ∃ did auth, bearerDid host s.auth authorization = (.ok did, auth) ∧
      handler did = .ok r := by
  unfold Front.fetch at h
  split at h
  · simp [Front.answered] at h
  · rename_i did auth hbearer
    refine ⟨did, auth, hbearer, ?_⟩
    split at h
    · simp [Front.answered] at h
    · rename_i r' hhandler
      simp only [Front.answered, List.cons.injEq, Exchange.mk.injEq, Except.ok.injEq,
        Reply.trees.injEq, true_and, and_true] at h
      rw [hhandler, h]

/-- Whatever a fetch route answers with 200, in whatever state the service is, it
tells the caller about the witnesses of leaves only which the caller itself submitted;
and the caller has signed a challenge for its DID. -/
theorem served_only_to_submitter (hhost : host.Lawful)
    (hdistinct : params.witnessCtx.methods.Nodup) {s : Front sdk host}
    (h : Front.Visited params Store.empty s) (maxAnchorFaults : UInt32) (req : FrontRequest)
    (r : Response sdk)
    (hanswer : (s.serve params.cfg maxAnchorFaults req).trail =
      ⟨req, .ok (.trees r)⟩ :: s.trail)
    (hr : r.status = .ok) :
    ∃ did token, bearerToken req.authorization = .ok token ∧
      Proved host s.trail did token ∧
      r.body.ShowsOnly s.world.store (Entitled params.cfg s did) := by
  have hproved : ∀ {authorization did auth},
      bearerDid host s.auth authorization = (.ok did, auth) →
      ∃ token, bearerToken authorization = .ok token ∧ Proved host s.trail did token :=
    fun hbearer => (h.accounted hhost).proved hhost hbearer
  cases req with
  | challenge did =>
      simp only [Front.serve, Front.answered] at hanswer
      cases hc : (challenge host s.auth did).1 <;> simp [hc, Except.map] at hanswer
  | session did nonce signature =>
      simp only [Front.serve, Front.answered] at hanswer
      cases hx : (session host s.auth did nonce signature).1 <;>
        simp [hx, Except.map] at hanswer
  | submitLeaves authorization leaves =>
      simp only [Front.serve] at hanswer
      split at hanswer
      · simp [Front.answered] at hanswer
      · rename_i did auth hbearer
        cases hl : (submitLeaves params.cfg s.world did leaves).1 <;>
          simp [hl, Except.map] at hanswer
  | submitUnread authorization rejection =>
      simp only [Front.serve, Front.reject] at hanswer
      split at hanswer <;> simp [Front.answered] at hanswer
  | getTreeByTip authorization tipHex =>
      obtain ⟨did, auth, hbearer, hroute⟩ := fetch_trail hanswer
      obtain ⟨token, htoken, hdid⟩ := hproved hbearer
      exact ⟨did, token, htoken, hdid,
        getTreeByTip_entitled hhost hdistinct h hroute hr⟩
  | getTreeByLeaf authorization leafHex method =>
      obtain ⟨did, auth, hbearer, hroute⟩ := fetch_trail hanswer
      obtain ⟨token, htoken, hdid⟩ := hproved hbearer
      exact ⟨did, token, htoken, hdid,
        getTreeByLeaf_entitled hhost hdistinct h hroute hr⟩
  | listOrQueryTrees authorization epoch method =>
      obtain ⟨did, auth, hbearer, hroute⟩ := fetch_trail hanswer
      obtain ⟨token, htoken, hdid⟩ := hproved hbearer
      exact ⟨did, token, htoken, hdid,
        listOrQueryTrees_entitled hhost hdistinct h hroute hr⟩

/-- The DID fetches its leaf. -/
def Sample.fetchByLeaf : FrontRequest :=
  .getTreeByLeaf (some "Bearer token-did:a") (hexLower (Sample.leaf 1)) (some "evm")

theorem served_only_to_submitter_sealedFront :
    ∃ (did token : String) (r : Response Sample.sdk),
      bearerToken Sample.fetchByLeaf.authorization = .ok token ∧
      Proved Sample.authHost Sample.sealedFront.1.trail did token ∧ r.status = .ok ∧
      r.body.ShowsOnly Sample.sealedFront.1.world.store
        (Entitled Sample.frontParams.cfg Sample.sealedFront.1 did) := by
  have hfetched : ((Sample.sealedFront.1.serve Sample.frontParams.cfg 3
      Sample.fetchByLeaf).fetched.map Response.status) = some .ok := by
    decide +kernel
  obtain ⟨r, hr, hstatus⟩ := Option.map_eq_some_iff.mp hfetched
  obtain ⟨did, token, htoken, hproved, hbody⟩ :=
    served_only_to_submitter Sample.authHost_lawful (by decide) Sample.sealedFront_visited
      3 Sample.fetchByLeaf r (Front.serve_fetched hr) hstatus
  exact ⟨did, token, r, htoken, hproved, hstatus, hbody⟩

end AquaTimestamp
