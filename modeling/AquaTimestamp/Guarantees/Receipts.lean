import AquaTimestamp.Guarantees.Accumulation
import AquaTimestamp.Guarantees.Delivery
import AquaTimestamp.Guarantees.Progress
import AquaTimestamp.Guarantees.Provenance
import AquaTimestamp.Guarantees.Totals
import AquaTimestamp.Model.Submission

/-!
# From a submission to the witness

A client that submits gets a receipt for each of its hashes, or an error and nothing is
submitted.  A hash with a receipt is in the open epoch the receipt names; and when the
next tick fails in nothing, a client that waits for that epoch gets the witness.
-/

namespace AquaTimestamp

open Support Partition TimestampClient

variable {sdk : Sdk} {host : AuthHost}

/-! ## The wire -/

/-- A token that survives the header. -/
def Usable (token : String) : Prop :=
  token ≠ "" ∧ trimText token.toList = token.toList

theorem bearerToken_bearer {token : String} (h : Usable token) :
    bearerToken (some (bearer token)) = .ok token := by
  have htext : (bearer token).toList = bearerPrefix ++ token.toList := by
    rw [bearer, String.toList_append, String.toList_ofList]
  have hprefix : bearerPrefix.isPrefixOf (bearerPrefix ++ token.toList) = true :=
    List.isPrefixOf_iff_prefix.mpr (List.prefix_append _ _)
  have hsome : token.toList.isEmpty = false := by
    rw [List.isEmpty_eq_false_iff]
    exact fun hnil => h.1 (String.toList_inj.mp hnil)
  simp only [bearerToken, htext, hprefix, if_true, List.drop_left, h.2, hsome,
    String.ofList_toList]
  rfl

/-- A session's token lets its DID in. -/
theorem bearerDid_bearer {auth : host.State} {token did : String} (husable : Usable token)
    (hsession : (host.validateSession auth token).1 = .ok did) :
    (bearerDid host auth (some (bearer token))).1 = .ok did := by
  unfold bearerDid
  rw [bearerToken_bearer husable]
  dsimp only
  cases hresult : host.validateSession auth token with
  | mk result auth' =>
      rw [hresult] at hsession
      subst hsession
      rfl

theorem parseLeafHex_leafText (h : Hash32) : parseLeafHex (leafText h) = .ok h := by
  refine parseLeafHex_of_digits ?_
  have htext : (leafText h).toList = ['0', 'x'] ++ Hex.encode h.toList := by
    rw [leafText, formatHash32Bare, String.toList_append]
    exact congrArg (['0', 'x'] ++ ·) String.toList_ofList
  rw [htext]
  rfl

/-- The service decodes the hashes a client sends. -/
theorem decodeLeaves_leafText (hashes : List Hash32) :
    decodeLeaves 0 (hashes.map leafText) = .ok hashes := by
  rw [decodeLeaves_eq_ok_iff]
  induction hashes with
  | nil => exact .nil
  | cons h hashes ih => exact .cons (parseLeafHex_leafText h) ih

theorem asTexts_map (texts : List String) :
    Wire.asTexts (.array (texts.map .text) : Wire sdk) = .ok texts := by
  unfold Wire.asTexts
  dsimp only
  induction texts with
  | nil => rfl
  | cons text texts ih =>
      rw [List.map_cons, List.mapM_cons, ih]
      rfl

theorem decodeLeavesRequest_leavesRequest (hashes : List Hash32) :
    decodeLeavesRequest (leavesRequest hashes : RequestBody sdk).json =
      .ok (hashes.map leafText) := by
  unfold leavesRequest
  generalize hashes.map leafText = texts
  simp [decodeLeavesRequest, Wire.struct, Wire.fieldOf, Wire.need,
    asTexts_map, bind, Except.bind, pure, Except.pure]

/-- A hash takes 68 bytes of a body, with its quotes. -/
theorem byteLength_leafText (h : Hash32) :
    Hex.byteLength (CompactJson.printString (leafText h)) = 68 := by
  have hdigits := Hex.allDigits_encode h.toList
  have htext : (leafText h).toList = ['0', 'x'] ++ Hex.encode h.toList := by
    rw [leafText, formatHash32Bare, String.toList_append]
    exact congrArg (['0', 'x'] ++ ·) String.toList_ofList
  rw [CompactJson.byteLength_printString, htext, Hex.byteLength_append, Hex.byteLength_encode,
    Vector.length_toList]
  · rfl
  · rw [htext]
    intro c hc
    rcases List.mem_append.mp hc with hstart | hdigit
    · rcases List.mem_pair.mp hstart with rfl | rfl <;> rfl
    · exact CompactJson.escapeChar_of_digit (hdigits c hdigit)

/-- The bytes of a submission. -/
theorem length_leavesRequest {hashes : List Hash32} (hne : hashes ≠ []) :
    (leavesRequest hashes : RequestBody sdk).length = 69 * hashes.length + 12 := by
  have helements : ∀ text ∈ hashes.map leafText,
      Hex.byteLength (CompactJson.printString text) = 68 := by
    intro text htext
    obtain ⟨h, -, rfl⟩ := List.mem_map.mp htext
    exact byteLength_leafText h
  have hlist := CompactJson.byteLength_printStrings
    (fun hnil => hne (List.map_eq_nil_iff.mp hnil)) helements
  rw [List.length_map] at hlist
  have hname : Hex.byteLength (CompactJson.printString "leaves") = 8 := by
    decide +kernel
  simp only [leavesRequest, leavesRequestText, Hex.byteLength_cons, Hex.byteLength_append,
    hname, hlist]
  show 1 + (8 + (1 + (69 * hashes.length + 1 + 1))) = 69 * hashes.length + 12
  omega

/-- What the service makes of the body of a submission. -/
theorem readLeavesRequest_leavesRequest {hashes : List Hash32} (hne : hashes ≠ []) :
    readLeavesRequest (leavesRequest hashes : RequestBody sdk) =
      if defaultBodyLimit < 69 * hashes.length + 12 then
        .error ⟨413, "Failed to buffer the request body: length limit exceeded"⟩
      else .ok (hashes.map leafText) := by
  unfold readLeavesRequest
  rw [length_leavesRequest hne, decodeLeavesRequest_leavesRequest]

theorem asU64_number {n : Nat} (h : n ≤ u64Max) :
    Wire.asU64 (.number n : Wire sdk) = .ok n :=
  if_pos h

theorem asOptionU64_ofOptionU64 {n : Option Nat} (h : ∀ k ∈ n, k ≤ u64Max) :
    Wire.asOptionU64 (some (.ofOptionU64 n : Wire sdk)) = .ok n := by
  cases n with
  | none => rfl
  | some k =>
      show (Wire.asU64 (.number k : Wire sdk)).map some = _
      rw [asU64_number (h k rfl)]
      rfl

/-- The numbers of a response are `u64`s. -/
structure LeavesResponse.Fits (r : LeavesResponse) : Prop where
  accepted : r.accepted ≤ u64Max
  duplicates : r.duplicates ≤ u64Max
  epochId : r.epochId ≤ u64Max
  epochClosesAt : r.epochClosesAt ≤ u64Max

theorem decodeLeavesResponse_wire {r : LeavesResponse} (h : r.Fits) :
    decodeLeavesResponse (r.wire : Wire sdk) = .ok r := by
  simp [decodeLeavesResponse, LeavesResponse.wire, Wire.struct, Wire.fieldOf, Wire.need,
    asU64_number h.accepted, asU64_number h.duplicates, asU64_number h.epochId,
    asU64_number h.epochClosesAt, Wire.asText, bind, Except.bind, pure, Except.pure]

/-- The numbers of a schedule are `u64`s. -/
structure ScheduleResponse.Fits (r : ScheduleResponse) : Prop where
  currentEpochId : r.currentEpochId ≤ u64Max
  currentEpochOpenedAt : r.currentEpochOpenedAt ≤ u64Max
  currentEpochClosesAt : r.currentEpochClosesAt ≤ u64Max
  epochDurationSecs : r.epochDurationSecs ≤ u64Max
  lastSealedEpochId : ∀ id ∈ r.lastSealedEpochId, id ≤ u64Max
  lastSealedAt : ∀ at' ∈ r.lastSealedAt, at' ≤ u64Max

/-- The part of a schedule that a client reads. -/
def ScheduleResponse.read (r : ScheduleResponse) : EpochSchedule :=
  ⟨r.currentEpochId, r.currentEpochOpenedAt, r.currentEpochClosesAt, r.epochDurationSecs,
    r.lastSealedEpochId, r.lastSealedAt, r.anchorMethods⟩

theorem decodeSchedule_wire {r : ScheduleResponse} (h : r.Fits) :
    decodeSchedule (r.wire : Wire sdk) = .ok r.read := by
  simp [decodeSchedule, ScheduleResponse.wire, Wire.struct, Wire.fieldOf, Wire.need,
    asU64_number h.currentEpochId, asU64_number h.currentEpochOpenedAt,
    asU64_number h.currentEpochClosesAt, asU64_number h.epochDurationSecs,
    asOptionU64_ofOptionU64 h.lastSealedEpochId, asOptionU64_ofOptionU64 h.lastSealedAt,
    asTexts_map, ScheduleResponse.read, bind, Except.bind, pure, Except.pure]

/-! ## The open epoch -/

theorem closesAt_appendBatch (acc : Accumulator) (batch : List Hash32) (did : String) :
    (acc.appendBatch batch did).2.closesAt = acc.closesAt := by
  have hloop : ∀ (batch : List Hash32) (acc : Accumulator) (a d : Nat),
      (Accumulator.appendLeaves did batch acc a d).1.closesAt = acc.closesAt := by
    intro batch
    induction batch with
    | nil => exact fun _ _ _ => rfl
    | cons leaf batch ih =>
        intro acc a d
        unfold Accumulator.appendLeaves
        split
        · exact ih _ _ _
        · exact ih _ _ _
  unfold Accumulator.appendBatch
  split
  · rfl
  · exact hloop _ _ _ _

theorem Reach.closesAt_le {st : Store sdk} {w : World sdk} {j : Job sdk} (h : Reach st w j) :
    w.accumulator.closesAt ≤ u64Max := by
  refine h.induct (P := fun w => w.accumulator.closesAt ≤ u64Max) ?_ ?_
  · intro now durationSecs
    exact Nat.min_le_right _ _
  · intro w j ev _ hev hcloses
    cases ev with
    | boot => exact Nat.min_le_right _ _
    | tick => exact hcloses
    | append batch did outcome added =>
        exact (closesAt_appendBatch w.accumulator batch did).le.trans hcloses
    | call c answer =>
        cases c with
        | swapAndOpenNext => exact Nat.min_le_right _ _
        | _ => exact hcloses

/-! ## Receipts -/

/-- A single submission fails only as the batch of one does. -/
theorem submit_eq_ok_iff {net : Intake sdk} {hash : Hash32} {receipt : SubmissionReceipt} :
    submit net hash = .ok receipt ↔ submitMany net [hash] = .ok [receipt] := by
  have hsingle : ∀ receipts, submitMany net [hash] = .ok receipts →
      ∃ r, receipts = [r] := by
    intro receipts h
    simp only [submitMany, bind, Except.bind] at h
    repeat' split at h
    all_goals first | exact ⟨_, (Except.ok.inj h).symm⟩ | cases h
  simp only [submit, bind, Except.bind]
  cases hmany : submitMany net [hash] with
  | error e => simp
  | ok receipts =>
      obtain ⟨r, rfl⟩ := hsingle receipts hmany
      simp

/-- The service takes the batch of a DID; a body is 69 bytes for each hash and 12 more. -/
structure Admitted (cfg : Config) (acc : Accumulator) (did : String)
    (hashes : List Hash32) : Prop where
  body_le : 69 * hashes.length + 12 ≤ defaultBodyLimit
  allowed : cfg.isAllowed did = true
  length_le : hashes.length ≤ cfg.epoch.maxLeavesPerRequest
  fits : acc.leaves.length + acc.newLeaves hashes ≤ acc.leafCap

theorem Admitted.length_le_u64Max {cfg : Config} {acc : Accumulator} {did : String}
    {hashes : List Hash32} (h : Admitted cfg acc did hashes) : hashes.length ≤ u64Max := by
  have hbody := h.body_le
  unfold defaultBodyLimit at hbody
  unfold u64Max
  omega

/-- The open epoch has taken in the batch: each hash is in it, under the DID unless it
was there before. -/
structure TakenIn (acc acc' : Accumulator) (did : String) (hashes : List Hash32) :
    Prop where
  epochId : acc'.epochId = acc.epochId
  kept : acc.leaves <+: acc'.leaves
  each : ∀ hash ∈ hashes, ∃ entry ∈ acc'.leaves, entry.leaf = hash ∧
    (entry ∈ acc.leaves ∨ entry.submitterDid = did)
  nothingElse : ∀ entry ∈ acc'.leaves,
    entry ∈ acc.leaves ∨ entry.leaf ∈ hashes ∧ entry.submitterDid = did

theorem takenIn_appendBatch {acc : Accumulator} (hopen : acc.OpenEpoch) {did : String}
    {hashes : List Hash32} {o : AcceptOutcome}
    (hok : (acc.appendBatch hashes did).1 = .ok o) :
    TakenIn acc (acc.appendBatch hashes did).2 did hashes where
  epochId := (acc.appendBatch_frame hashes did).1
  kept := (acc.appendBatch_frame hashes did).2
  each hash hhash := by
    obtain ⟨entry, hentry, hleaf⟩ :=
      List.mem_map.mp (hopen.mem_appendBatch hok hhash)
    rcases mem_leaves_append hentry with hold | ⟨-, -, hdid⟩
    · exact ⟨entry, hentry, hleaf, Or.inl hold⟩
    · exact ⟨entry, hentry, hleaf, Or.inr hdid⟩
  nothingElse entry hentry := by
    rcases mem_leaves_append hentry with hold | ⟨-, hleaf, hdid⟩
    · exact Or.inl hold
    · exact Or.inr ⟨hleaf, hdid⟩

section Submission

variable {cfg : Config} {maxAnchorFaults : UInt32} {s : Front sdk host}
variable {token did : String} {hashes : List Hash32}

theorem serve_submitLeaves {authorization : Option String} {leaves : List String}
    (hdid : (bearerDid host s.auth authorization).1 = .ok did) :
    (s.serve cfg maxAnchorFaults (.submitLeaves authorization leaves)).world =
        (submitLeaves cfg s.world did leaves).2 ∧
      s.reply cfg maxAnchorFaults (.submitLeaves authorization leaves) =
        .ok (Exchange.wire ⟨.submitLeaves authorization leaves,
          (submitLeaves cfg s.world did leaves).1.map .leaves⟩) := by
  cases hbearer : bearerDid host s.auth authorization with
  | mk result auth =>
      rw [hbearer] at hdid
      subst hdid
      simp only [Front.reply, Front.serve, hbearer]
      exact ⟨trivial, trivial⟩

theorem serve_submitUnread {authorization : Option String} {rejection : JsonRejection}
    (hdid : (bearerDid host s.auth authorization).1 = .ok did) :
    (s.serve cfg maxAnchorFaults (.submitUnread authorization rejection)).world = s.world ∧
      s.reply cfg maxAnchorFaults (.submitUnread authorization rejection) =
        .ok ⟨rejection.status, none⟩ := by
  cases hbearer : bearerDid host s.auth authorization with
  | mk result auth =>
      rw [hbearer] at hdid
      subst hdid
      simp only [Front.reply, Front.serve, Front.reject, hbearer]
      exact ⟨rfl, rfl⟩

/-- A batch whose body is too long is refused before it is read. -/
theorem submitMany_unread (husable : Usable token)
    (hsession : (host.validateSession s.auth token).1 = .ok did) (hne : hashes ≠ [])
    (hlong : defaultBodyLimit < 69 * hashes.length + 12) :
    submitMany (s.intake cfg maxAnchorFaults token) hashes = .error (.server 413 none) ∧
      (s.submitted cfg maxAnchorFaults token hashes).world = s.world := by
  have hsome : hashes.isEmpty = false := by
    rwa [List.isEmpty_eq_false_iff]
  have hrequest : FrontRequest.submission (some (bearer token))
      (leavesRequest hashes : RequestBody sdk) = .submitUnread (some (bearer token))
        ⟨413, "Failed to buffer the request body: length limit exceeded"⟩ := by
    rw [FrontRequest.submission, readLeavesRequest_leavesRequest hne, if_pos hlong]
  obtain ⟨hworld, hreply⟩ := @serve_submitUnread sdk host cfg maxAnchorFaults s did _
    ⟨413, "Failed to buffer the request body: length limit exceeded"⟩
    (bearerDid_bearer husable hsession)
  constructor
  · have hpost : (s.intake cfg maxAnchorFaults token).post token (leavesRequest hashes) =
        .ok ⟨413, none⟩ := by
      rw [← hreply, ← hrequest]
      rfl
    have htoken : (s.intake cfg maxAnchorFaults token).ensureToken = .ok token := rfl
    simp [submitMany, hsome, htoken, hpost, HttpAnswer.isSuccess, bind, Except.bind]
  · rw [← hworld, Front.submitted, hsome, hrequest]
    rfl

/-- What a client makes of the service's answer to its batch. -/
theorem submitMany_intake (husable : Usable token)
    (hsession : (host.validateSession s.auth token).1 = .ok did) (hne : hashes ≠ [])
    (hbody : 69 * hashes.length + 12 ≤ defaultBodyLimit) :
    (∀ r, r.Fits → (submitLeaves cfg s.world did (hashes.map leafText)).1 = .ok r →
      submitMany (s.intake cfg maxAnchorFaults token) hashes = .ok (receiptsOf hashes r)) ∧
    (∀ e, e.status ∈ [400, 403, 503] →
      (submitLeaves cfg s.world did (hashes.map leafText)).1 = .error e →
        ∃ body, submitMany (s.intake cfg maxAnchorFaults token) hashes =
          .error (.server e.status body)) ∧
    (s.submitted cfg maxAnchorFaults token hashes).world =
      (submitLeaves cfg s.world did (hashes.map leafText)).2 := by
  have hsome : hashes.isEmpty = false := by
    rwa [List.isEmpty_eq_false_iff]
  have hrequest : FrontRequest.submission (some (bearer token))
      (leavesRequest hashes : RequestBody sdk) =
        .submitLeaves (some (bearer token)) (hashes.map leafText) := by
    rw [FrontRequest.submission, readLeavesRequest_leavesRequest hne,
      if_neg (Nat.not_lt.mpr hbody)]
  obtain ⟨hworld, hreply⟩ := @serve_submitLeaves sdk host cfg maxAnchorFaults s did _
    (hashes.map leafText) (bearerDid_bearer husable hsession)
  have hpost : (s.intake cfg maxAnchorFaults token).post token (leavesRequest hashes) =
      .ok (Exchange.wire ⟨.submitLeaves (some (bearer token)) (hashes.map leafText),
        (submitLeaves cfg s.world did (hashes.map leafText)).1.map .leaves⟩) := by
    rw [← hreply, ← hrequest]
    rfl
  have htoken : (s.intake cfg maxAnchorFaults token).ensureToken = .ok token := rfl
  refine ⟨?_, ?_, ?_⟩
  · intro r hfits hok
    rw [hok] at hpost
    simp [submitMany, hsome, htoken, hpost, Exchange.wire, Except.map, Reply.wire,
      HttpAnswer.isSuccess, json, decodeLeavesResponse_wire hfits, bind, Except.bind]
  · intro e hstatus herror
    rw [herror] at hpost
    have hsame : (FrontError.wire e : HttpAnswer sdk).status = e.status := by
      cases e <;> rfl
    have hnot : (FrontError.wire e : HttpAnswer sdk).isSuccess = false := by
      simp only [List.mem_cons, List.not_mem_nil, or_false] at hstatus
      unfold HttpAnswer.isSuccess
      rw [hsame]
      exact decide_eq_false (by omega)
    refine ⟨(FrontError.wire e : HttpAnswer sdk).body, ?_⟩
    simp [submitMany, hsome, htoken, hpost, Exchange.wire, Except.map, hnot, hsame, bind,
      Except.bind]
  · rw [← hworld, Front.submitted, hsome, hrequest]
    rfl

/-- A batch that is not read is refused as forbidden or as a bad request. -/
theorem readBatch_refused (hne : hashes ≠ [])
    (h : ¬ cfg.isAllowed did = true ∨ cfg.epoch.maxLeavesPerRequest < hashes.length) :
    ∃ e, readBatch cfg did (hashes.map leafText) = .error e ∧ e.status ∈ [400, 403] := by
  have hsome : hashes.length ≠ 0 := by
    rwa [ne_eq, List.length_eq_zero_iff]
  unfold readBatch
  by_cases hallowed : cfg.isAllowed did = true
  · have hlong : hashes.length > cfg.epoch.maxLeavesPerRequest :=
      h.resolve_left (not_not_intro hallowed)
    simp only [hallowed, Bool.not_true, Bool.false_eq_true, if_false, List.length_map, hsome,
      hlong, if_true]
    exact ⟨_, rfl, List.mem_cons_self ..⟩
  · simp only [Bool.eq_false_iff.mpr hallowed, Bool.not_false, if_true]
    exact ⟨_, rfl, List.mem_cons_of_mem _ (List.mem_cons_self ..)⟩

/-- The service answers with `r` and the batch is in the open epoch. -/
structure Accepts (cfg : Config) (w : World sdk) (did : String) (hashes : List Hash32)
    (r : LeavesResponse) : Prop where
  answer : (submitLeaves cfg w did (hashes.map leafText)).1 = .ok r
  admitted : Admitted cfg w.accumulator did hashes
  counts : r.accepted + r.duplicates = hashes.length
  epochId : r.epochId = w.accumulator.epochId
  epochClosesAt : r.epochClosesAt = w.accumulator.closesAt
  submitterDid : r.submitterDid = did
  taken : TakenIn w.accumulator
    (submitLeaves cfg w did (hashes.map leafText)).2.accumulator did hashes

/-- The service answers with the error `e` and the open epoch is as it was. -/
structure Refuses (cfg : Config) (w : World sdk) (did : String) (hashes : List Hash32)
    (e : FrontError) : Prop where
  answer : (submitLeaves cfg w did (hashes.map leafText)).1 = .error e
  notAdmitted : ¬ Admitted cfg w.accumulator did hashes
  status : e.status ∈ [400, 403, 503]
  accumulator :
    (submitLeaves cfg w did (hashes.map leafText)).2.accumulator = w.accumulator

theorem refuses_unread {w : World sdk} (hne : hashes ≠ [])
    (h : ¬ cfg.isAllowed did = true ∨ cfg.epoch.maxLeavesPerRequest < hashes.length) :
    ∃ e, Refuses cfg w did hashes e := by
  obtain ⟨e, he, hstatus⟩ := readBatch_refused hne h
  have hunread : submitLeaves cfg w did (hashes.map leafText) = (.error e, w) := by
    simp only [submitLeaves, he]
  refine ⟨e, congrArg Prod.fst hunread, ?_, ?_, ?_⟩
  · intro hadmitted
    rcases h with hdenied | hlong
    · exact hdenied hadmitted.allowed
    · exact absurd hadmitted.length_le (Nat.not_le.mpr hlong)
  · rcases List.mem_cons.mp hstatus with hbad | hforbidden
    · exact hbad ▸ List.mem_cons_self ..
    · exact List.mem_singleton.mp hforbidden ▸
        List.mem_cons_of_mem _ (List.mem_cons_self ..)
  · rw [hunread]

theorem closesAt_of_appended {acc : Accumulator} {o : AcceptOutcome}
    (h : (acc.appendBatch hashes did).1 = .ok o) : o.epochClosesAt = acc.closesAt := by
  unfold Accumulator.appendBatch at h
  split at h
  · cases h
  · cases h
    rfl

/-- The service accepts a batch or refuses it. -/
theorem submitLeaves_cases (w : World sdk) (cfg : Config) (did : String)
    (hopen : w.accumulator.OpenEpoch) (hne : hashes ≠ [])
    (hbody : 69 * hashes.length + 12 ≤ defaultBodyLimit) :
    (∃ r, Accepts cfg w did hashes r) ∨ ∃ e, Refuses cfg w did hashes e := by
  by_cases hallowed : cfg.isAllowed did = true
  · by_cases hmax : hashes.length ≤ cfg.epoch.maxLeavesPerRequest
    · have hbatch : readBatch cfg did (hashes.map leafText) = .ok hashes := by
        refine readBatch_eq_ok_iff.mpr ⟨hallowed, ?_, ?_, decodeLeaves_leafText hashes⟩
        · exact fun hnil => hne (List.map_eq_nil_iff.mp hnil)
        · rwa [List.length_map]
      have hrefused := hopen.refused_iff hashes did
      cases happend : (w.accumulator.appendBatch hashes did).1 with
      | error full =>
          have hanswer : submitLeaves cfg w did (hashes.map leafText) =
              (.error full.refusal, w.append hashes did) := by
            simp only [submitLeaves, hbatch, happend]
          refine Or.inr ⟨full.refusal, congrArg Prod.fst hanswer, ?_, ?_, ?_⟩
          · intro hadmitted
            exact absurd hadmitted.fits (Nat.not_le.mpr (hrefused.mp ⟨full, happend⟩))
          · exact List.mem_cons_of_mem _ (List.mem_cons_of_mem _ (List.mem_cons_self ..))
          · rw [hanswer]
            exact Accumulator.appendBatch_of_error happend
      | ok o =>
          have hanswer : submitLeaves cfg w did (hashes.map leafText) =
              (.ok ⟨o.accepted, o.duplicates, o.epochId, o.epochClosesAt, did⟩,
                w.append hashes did) := by
            simp only [submitLeaves, hbatch, happend]
          have hfits : ¬ w.accumulator.leafCap <
              w.accumulator.leaves.length + w.accumulator.newLeaves hashes := by
            intro hfull
            obtain ⟨full, herror⟩ := hrefused.mpr hfull
            rw [happend] at herror
            cases herror
          obtain ⟨hid, hcounts, -, -, -⟩ := hopen.accepted happend
          refine Or.inl ⟨_, congrArg Prod.fst hanswer,
            ⟨hbody, hallowed, hmax, Nat.not_lt.mp hfits⟩, hcounts, hid,
            closesAt_of_appended happend, rfl, ?_⟩
          rw [hanswer]
          exact takenIn_appendBatch hopen happend
    · exact Or.inr (refuses_unread hne (Or.inr (Nat.not_le.mp hmax)))
  · exact Or.inr (refuses_unread hne (Or.inl hallowed))

theorem Accepts.fits {w : World sdk} {r : LeavesResponse} (h : Accepts cfg w did hashes r)
    (hsound : w.accumulator.Sound) (hcloses : w.accumulator.closesAt ≤ u64Max) :
    r.Fits where
  accepted := (Nat.le_add_right _ _).trans (h.counts.le.trans h.admitted.length_le_u64Max)
  duplicates := (Nat.le_add_left _ _).trans (h.counts.le.trans h.admitted.length_le_u64Max)
  epochId := h.epochId.le.trans hsound.id_le
  epochClosesAt := h.epochClosesAt.le.trans hcloses

theorem store_submitLeaves (w : World sdk) (cfg : Config) (did : String)
    (leaves : List String) : (submitLeaves cfg w did leaves).2.store = w.store := by
  unfold submitLeaves
  split
  · rfl
  · split <;> rfl

end Submission

/-- A client that submits gets a receipt for each of its hashes, in order, that names the
open epoch, and each hash is in that epoch, under the client's DID unless it was there
before; or it gets an error, and the open epoch is as it was.  Which of the two happens
depends on the length of the body, the allowlist, the limit of a request and the room in
the epoch alone.  A single submission is the batch of one. -/
theorem submission_is_all_or_nothing {params : FrontParams} {s : Front sdk host}
    (h : Front.Visited params Store.empty s) (hdistinct : params.witnessCtx.methods.Nodup)
    {token did : String} (husable : Usable token)
    (hsession : (host.validateSession s.auth token).1 = .ok did) {hashes : List Hash32}
    (hne : hashes ≠ []) (maxAnchorFaults : UInt32) :
    (s.submitted params.cfg maxAnchorFaults token hashes).world.store = s.world.store ∧
    ((Admitted params.cfg s.world.accumulator did hashes ∧
        submitMany (s.intake params.cfg maxAnchorFaults token) hashes =
          .ok (hashes.map fun hash =>
            ⟨hash, s.world.accumulator.epochId, s.world.accumulator.closesAt, did⟩) ∧
        TakenIn s.world.accumulator
          (s.submitted params.cfg maxAnchorFaults token hashes).world.accumulator
          did hashes) ∨
      (¬ Admitted params.cfg s.world.accumulator did hashes ∧
        (∃ status ∈ [400, 403, 413, 503], ∃ body,
          submitMany (s.intake params.cfg maxAnchorFaults token) hashes =
            .error (.server status body)) ∧
        (s.submitted params.cfg maxAnchorFaults token hashes).world.accumulator =
          s.world.accumulator)) ∧
    ∀ hash receipt, submit (s.intake params.cfg maxAnchorFaults token) hash = .ok receipt ↔
      submitMany (s.intake params.cfg maxAnchorFaults token) [hash] = .ok [receipt] := by
  obtain ⟨j, hj⟩ := reach_of_visited (h.world hdistinct)
  have hsound := (hj.grounded indexed_empty).accumulator
  rcases Nat.lt_or_ge defaultBodyLimit (69 * hashes.length + 12) with hlong | hbody
  · obtain ⟨hrefused, hworld⟩ := @submitMany_unread sdk host params.cfg maxAnchorFaults s
      token did hashes husable hsession hne hlong
    rw [hworld]
    refine ⟨rfl, Or.inr ⟨fun hadmitted => ?_, ⟨413, by decide, none, hrefused⟩, rfl⟩,
      fun hash receipt => submit_eq_ok_iff⟩
    exact absurd hadmitted.body_le (Nat.not_le.mpr hlong)
  · obtain ⟨hok, herror, hworld⟩ := @submitMany_intake sdk host params.cfg maxAnchorFaults s
      token did hashes husable hsession hne hbody
    rw [hworld, store_submitLeaves]
    refine ⟨rfl, ?_, fun hash receipt => submit_eq_ok_iff⟩
    rcases submitLeaves_cases s.world params.cfg did hsound.toOpenEpoch hne hbody with
      ⟨r, hr⟩ | ⟨e, he⟩
    · left
      refine ⟨hr.admitted, ?_, hr.taken⟩
      rw [hok r (hr.fits hsound hj.closesAt_le) hr.answer, receiptsOf, hr.epochId,
        hr.epochClosesAt, hr.submitterDid]
    · right
      have hstatus : e.status ∈ [400, 403, 413, 503] := by
        have hthree := he.status
        simp only [List.mem_cons, List.not_mem_nil, or_false] at hthree ⊢
        omega
      exact ⟨he.notAdmitted, ⟨e.status, hstatus, herror e he.status he.answer⟩,
        he.accumulator⟩

/-- A DID signs in. -/
def Sample.signedIn : Front Sample.sdk Sample.authHost :=
  ((Front.boot Sample.frontParams Store.empty 0).serve Sample.frontParams.cfg 3
    (.challenge "did:a")).serve Sample.frontParams.cfg 3
    (.session "did:a" "nonce" "0x01")

theorem Sample.signedIn_reachable :
    Front.Reachable Sample.frontParams Store.empty Sample.signedIn :=
  .request _ (.request _ (.boot 0))

theorem Sample.usable_token : Usable "token-did:a" :=
  ⟨by decide, by decide +kernel⟩

theorem submission_is_all_or_nothing_signedIn :
    submitMany (Sample.signedIn.intake Sample.frontParams.cfg 3 "token-did:a")
      [Sample.leaf 1, Sample.leaf 2] =
        .ok [⟨Sample.leaf 1, 1, 600, "did:a"⟩, ⟨Sample.leaf 2, 1, 600, "did:a"⟩] := by
  have hstate : (Sample.authHost.validateSession Sample.signedIn.auth "token-did:a").1 =
        .ok "did:a" ∧
      Sample.signedIn.world.accumulator.epochId = 1 ∧
      Sample.signedIn.world.accumulator.closesAt = 600 ∧
      Sample.frontParams.cfg.isAllowed "did:a" = true ∧
      Sample.signedIn.world.accumulator.leaves = [] ∧
      Sample.signedIn.world.accumulator.leafCap = maxLeavesPerEpoch := by
    decide +kernel
  obtain ⟨hsession, hid, hcloses, hallowed, hleaves, hcap⟩ := hstate
  have hne : [Sample.leaf 1, Sample.leaf 2] ≠ [] := by
    decide
  obtain ⟨-, ⟨-, hreceipts, -⟩ | ⟨hnot, -, -⟩, -⟩ := submission_is_all_or_nothing
    (.between Sample.signedIn_reachable) (by decide) Sample.usable_token hsession hne 3
  · rw [hreceipts, hid, hcloses]
    rfl
  · refine absurd ⟨by decide, hallowed, by decide, ?_⟩ hnot
    have hnew : Sample.signedIn.world.accumulator.newLeaves
        [Sample.leaf 1, Sample.leaf 2] ≤ 2 := by
      unfold Accumulator.newLeaves
      exact (Finset.card_le_card Finset.sdiff_subset).trans (List.toFinset_card_le _)
    have hroom : 2 ≤ maxLeavesPerEpoch := by
      decide
    rw [hleaves, hcap, List.length_nil]
    omega

/-! ## Requests after the submission -/

section Later

variable {params : FrontParams} {st : Store sdk} {s s' : Front sdk host}

theorem Front.Serves.reachable (hs : Front.Reachable params st s)
    (h : Front.Serves params s s') : Front.Reachable params st s' := by
  induction h with
  | refl => exact hs
  | request req _ ih => exact .request req ih
  | elapse _ htime ih => exact .elapse ih htime

/-- Requests leave the store alone, and the open epoch keeps its id and its leaves. -/
theorem Front.Serves.keeps (h : Front.Serves params s s') :
    s'.world.store = s.world.store ∧
      s'.world.accumulator.epochId = s.world.accumulator.epochId ∧
      s.world.accumulator.leaves <+: s'.world.accumulator.leaves := by
  induction h with
  | refl => exact ⟨rfl, rfl, List.prefix_refl _⟩
  | @request s' req _ ih =>
      obtain ⟨hstore, hid, hleaves⟩ := ih
      rcases s'.serve_world params.cfg params.witnessCtx.maxAnchorFaults req with
        hsame | ⟨-, -, did, batch, -, -, -, happend⟩
      · rw [hsame]
        exact ⟨hstore, hid, hleaves⟩
      · rw [happend]
        obtain ⟨hkeeps, hprefix⟩ := s'.world.accumulator.appendBatch_frame batch did
        exact ⟨hstore, hkeeps.trans hid, hleaves.trans hprefix⟩
  | elapse _ _ ih => exact ih

/-- The service is a server for a client with a session, as the polling sees it. -/
theorem answeredIn_network {cfg : Config} {maxAnchorFaults : UInt32}
    {checks : OverflowChecks} {uptimeSecs : Nat} {token did : String} (husable : Usable token)
    (hsession : (host.validateSession s.auth token).1 = .ok did) (leaf : Hash32)
    (m : AnchorMethod) :
    AnsweredIn (s.network cfg maxAnchorFaults checks uptimeSecs token) s.world
      maxAnchorFaults did leaf m := by
  refine ⟨token, rfl, ?_⟩
  have hdid := bearerDid_bearer husable hsession
  cases hbearer : bearerDid host s.auth (some (bearer token)) with
  | mk result auth =>
      rw [hbearer] at hdid
      subst hdid
      simp only [Front.network, Option.map_some, Front.reply, Front.serve, Front.fetch,
        hbearer, leafAnswer]
      cases getTreeByLeaf s.world.store maxAnchorFaults did (formatHash32Bare leaf)
          (some m.asStr) with
      | ok r => rfl
      | error e =>
          simp only [Front.answered, Exchange.wire, FrontError.wire, FrontError.status,
            FrontError.msg]
          rfl

end Later

/-! ## From the receipt to the witness -/

/-- The client can read what the run has written: the ticks ran with the DID it pinned,
different revisions have different hashes and the batch producer makes timestamp
objects. -/
structure ReadableBy (client : TimestampClient sdk) (log : List (Event sdk)) : Prop where
  hashes : DistinctHashes log
  revisions : OneRevisionPerHash log
  signer : ∀ ev ∈ log, ∀ signer ∈ ev.serviceDid, signer = client.serverDid
  stamps : ∀ wit ∈ log.flatMap Event.minted, ∀ object,
    wit.objectRevision = .typed object → client.isTimestampObject object = true

/-- A schedule names an epoch at or past every epoch that answers a leaf. -/
theorem Reach.schedule_covers {w : World sdk} {j : Job sdk} (h : Reach Store.empty w j)
    {leaf : Hash32} {m : AnchorMethod} {e : Nat} (hanswer : answerEpoch w.store leaf m = some e) :
    ∃ last, w.store.lastSealedEpochId = some last ∧ e ≤ last := by
  obtain ⟨tip, -, hpair⟩ := Option.bind_eq_some_iff.mp hanswer
  obtain ⟨idx, hidx, hid⟩ := Option.map_eq_some_iff.mp hpair
  have hmem : e ∈ w.store.epochs := hid ▸ (h.grounded indexed_empty).store.tips tip idx hidx
  cases hlast : w.store.lastSealedEpochId with
  | none =>
      have hkeys : w.store.epochs.keys = [] := List.getLast?_eq_none_iff.mp hlast
      have hin := Std.ExtTreeMap.mem_keys.mpr hmem
      rw [hkeys] at hin
      cases hin
  | some last => exact ⟨last, rfl, (lastSealedEpochId_eq_some hlast).2 e hmem⟩

/-- A client reads the schedule of the service. -/
theorem schedule_network {cfg : Config} {maxAnchorFaults : UInt32} {s : Front sdk host}
    {checks : OverflowChecks} {uptimeSecs : Nat} {token : String} {sched : ScheduleResponse}
    (hsched : AquaTimestamp.schedule checks s.world cfg.epoch.durationSecs uptimeSecs =
      some sched) (hfits : sched.Fits) :
    TimestampClient.schedule (s.network cfg maxAnchorFaults checks uptimeSecs token) =
      .ok sched.read := by
  have hsend : (s.network cfg maxAnchorFaults checks uptimeSecs token).send none .schedule =
      .ok ⟨200, some sched.wire⟩ := by
    simp only [Front.network, hsched]
  simp only [TimestampClient.schedule, hsend, bind, Except.bind, HttpAnswer.isSuccess, json,
    decodeSchedule_wire hfits]
  rfl

/-- A client that waits gets the witness from the first poll that finds the epoch sealed
and the leaf served. -/
theorem awaitWitness_served {client : TimestampClient sdk} {receipt : SubmissionReceipt}
    {m : AnchorMethod} {timeout : Nat} {poll : Poll sdk} {sched : EpochSchedule}
    {pair : WitnessPair sdk} (htime : poll.elapsed < timeout)
    (hsched : TimestampClient.schedule poll.network = .ok sched)
    (hsealed : sealedBy sched receipt = true)
    (hfetch : client.tryFetchWitness poll.network receipt.leaf m = .ok (some pair))
    (later : List (Poll sdk)) :
    client.awaitWitness receipt m timeout (poll :: later) = some (.ok pair) := by
  unfold awaitWitness
  rw [if_neg (Nat.not_le.mpr htime), hsched]
  simp only [hsealed, if_true, hfetch]

/-- The leaf of a receipt is in the open epoch that the receipt names, under the client's
DID when it was not another's before. -/
theorem exists_entry_of_receipt {params : FrontParams} {s : Front sdk host}
    (hs : Front.Reachable params Store.empty s) (hdistinct : params.witnessCtx.methods.Nodup)
    {token did : String} (husable : Usable token)
    (hsession : (host.validateSession s.auth token).1 = .ok did) {hashes : List Hash32}
    (hne : hashes ≠ []) {maxAnchorFaults : UInt32}
    {receipts : List SubmissionReceipt}
    (hsubmit : submitMany (s.intake params.cfg maxAnchorFaults token) hashes = .ok receipts)
    {receipt : SubmissionReceipt} (hreceipt : receipt ∈ receipts)
    (hfirst : ∀ entry ∈ s.world.accumulator.leaves, entry.leaf = receipt.leaf →
      entry.submitterDid = did) :
    ∃ entry ∈ (s.submitted params.cfg maxAnchorFaults token hashes).world.accumulator.leaves,
      entry.leaf = receipt.leaf ∧ entry.submitterDid = did ∧
        receipt.epochId =
          (s.submitted params.cfg maxAnchorFaults token hashes).world.accumulator.epochId := by
  have hj := reach_of_reachable (hs.world hdistinct)
  have hsound := (hj.grounded indexed_empty).accumulator
  have hbody : 69 * hashes.length + 12 ≤ defaultBodyLimit := by
    by_contra hlong
    rw [(submitMany_unread husable hsession hne (Nat.not_le.mp hlong)).1] at hsubmit
    cases hsubmit
  obtain ⟨hok, herror, hworld⟩ := @submitMany_intake sdk host params.cfg maxAnchorFaults s
    token did hashes husable hsession hne hbody
  rw [hworld]
  rcases submitLeaves_cases s.world params.cfg did hsound.toOpenEpoch hne hbody with
    ⟨r, hr⟩ | ⟨e, he⟩
  · rw [hok r (hr.fits hsound hj.closesAt_le) hr.answer] at hsubmit
    cases hsubmit
    obtain ⟨hash, hhash, rfl⟩ := List.mem_map.mp hreceipt
    have hid := hr.epochId.trans hr.taken.epochId.symm
    obtain ⟨entry, hentry, hleaf, hold | hnew⟩ := hr.taken.each hash hhash
    · exact ⟨entry, hentry, hleaf, hfirst entry hold hleaf, hid⟩
    · exact ⟨entry, hentry, hleaf, hnew, hid⟩
  · obtain ⟨body, hrefused⟩ := herror e he.status he.answer
    rw [hrefused] at hsubmit
    cases hsubmit

/-- A tick in which no call fails settles every leaf of the open epoch, and requests that
are served after it change nothing about that. -/
theorem Front.settled_after_tick {params : FrontParams}
    (hdistinct : params.witnessCtx.methods.Nodup)
    (hvalid : params.witnessCtx.validate = .ok ())
    (hcap : 0 < params.witnessCtx.maxAnchorFaults) {s s₁ s₂ : Front sdk host}
    (hs : Front.Reachable params Store.empty s) {now durationSecs : Nat}
    {result : Except SealError (EpochRecord × List (MintedWitness sdk))}
    (hcycle : Front.SealCycle params s now durationSecs s₁ (some result))
    (hfaultless : Faultless s₁.world.log) (hafter : Front.Serves params s₁ s₂)
    {entry : LeafEntry} (hentry : entry ∈ s.world.accumulator.leaves) {m : AnchorMethod}
    (hm : m ∈ params.witnessCtx.methods) :
    answerEpoch s₂.world.store entry.leaf m = some s.world.accumulator.epochId ∧
      s₂.world.store.leafOwner[entry.leaf]? = some entry.submitterDid := by
  obtain ⟨snapshot, hsnapshot, hclosed, -, hcaught⟩ :=
    (hs.world hdistinct).catchesUp hdistinct hvalid
      ((projects_world sdk host params).run hcycle) hfaultless
  have hin : entry ∈ snapshot.leaves := hclosed.subset hentry
  rw [hafter.keeps.1, ← hsnapshot]
  exact ⟨hcaught.answers hcap entry hin m hm, hcaught.owner entry hin⟩

/-- A client submits hashes and gets receipts.  Requests are served, a tick follows in
which no call fails, and more requests are served.  A client of the same DID that polls
then, for a receipt whose leaf nobody else had submitted in that epoch before, is given
the witness of its leaf, for every enabled method. -/
theorem submitted_hash_is_delivered {client : TimestampClient sdk}
    (hmatches : client.Matches) (hspells : SpellsLinks sdk) {params : FrontParams}
    (hdistinct : params.witnessCtx.methods.Nodup)
    (hvalid : params.witnessCtx.validate = .ok ())
    (hcap : 0 < params.witnessCtx.maxAnchorFaults) {s s₁ s₂ s₃ : Front sdk host}
    (hs : Front.Reachable params Store.empty s) {token did : String} (husable : Usable token)
    (hsession : (host.validateSession s.auth token).1 = .ok did) {hashes : List Hash32}
    {receipts : List SubmissionReceipt}
    (hsubmit : submitMany
      (s.intake params.cfg params.witnessCtx.maxAnchorFaults token) hashes = .ok receipts)
    (hbefore : Front.Serves params
      (s.submitted params.cfg params.witnessCtx.maxAnchorFaults token hashes) s₁)
    {now durationSecs : Nat}
    {result : Except SealError (EpochRecord × List (MintedWitness sdk))}
    (hcycle : Front.SealCycle params s₁ now durationSecs s₂ (some result))
    (hfaultless : Faultless s₂.world.log) (hafter : Front.Serves params s₂ s₃)
    (hreadable : ReadableBy client s₃.world.log) {token' : String} (husable' : Usable token')
    (hsession' : (host.validateSession s₃.auth token').1 = .ok did)
    {checks : OverflowChecks} {uptimeSecs : Nat} {sched : ScheduleResponse}
    (hsched : AquaTimestamp.schedule checks s₃.world params.cfg.epoch.durationSecs uptimeSecs =
      some sched) (hclock : sched.Fits)
    {receipt : SubmissionReceipt} (hreceipt : receipt ∈ receipts)
    (hfirst : ∀ entry ∈ s.world.accumulator.leaves, entry.leaf = receipt.leaf →
      entry.submitterDid = did)
    {m : AnchorMethod} (hm : m ∈ params.witnessCtx.methods) {timeout : Nat} {poll : Poll sdk}
    (hpoll : poll.network = s₃.network params.cfg params.witnessCtx.maxAnchorFaults
      checks uptimeSecs token')
    (htime : poll.elapsed < timeout) (later : List (Poll sdk)) :
    ∃ pair object sig,
      client.awaitWitness receipt m timeout (poll :: later) = some (.ok pair) ∧
        Delivered client receipt.leaf m pair object sig := by
  have hne : hashes ≠ [] := by
    rintro rfl
    cases hsubmit
  obtain ⟨entry, hentry, hleaf, hdid, hid⟩ := exists_entry_of_receipt hs hdistinct husable
    hsession hne hsubmit hreceipt hfirst
  have hsubmitted : Front.Reachable params Store.empty
      (s.submitted params.cfg params.witnessCtx.maxAnchorFaults token hashes) := by
    rw [Front.submitted, List.isEmpty_eq_false_iff.mpr hne, if_neg Bool.false_ne_true]
    exact .request _ hs
  have hs₁ := hbefore.reachable hsubmitted
  have hs₃ := hafter.reachable (.cycle hs₁ hcycle)
  obtain ⟨-, hepoch, hleaves⟩ := hbefore.keeps
  obtain ⟨hanswer, howner⟩ := Front.settled_after_tick hdistinct hvalid hcap hs₁ hcycle
    hfaultless hafter (hleaves.subset hentry) hm
  rw [hepoch, ← hid, hleaf] at hanswer
  rw [hleaf, hdid] at howner
  have hj := reach_of_reachable (hs₃.world hdistinct)
  obtain ⟨-, r, hroute, -, hstatus, -, -⟩ := hj.serves_answer hreadable.hashes hanswer howner
    (parseHash32_formatHash32Bare _) (AnchorMethod.parse_asStr m)
    params.witnessCtx.maxAnchorFaults
  have hserved : (leafAnswer s₃.world params.witnessCtx.maxAnchorFaults did receipt.leaf
      m).status = .ok := by
    rw [leafAnswer, hroute]
    exact hstatus
  obtain ⟨pair, object, sig, hdelivered, hfetch⟩ := hj.accepts_served hmatches hspells
    hreadable.revisions hreadable.hashes hreadable.signer hreadable.stamps hserved
  obtain ⟨last, hlast, hpast⟩ := hj.schedule_covers hanswer
  refine ⟨pair, object, sig, ?_, hdelivered⟩
  refine awaitWitness_served htime (hpoll ▸ schedule_network hsched hclock) ?_
    (hpoll ▸ hfetch _ (answeredIn_network husable' hsession' _ _)) later
  have hnamed : sched.read.lastSealedEpochId = some last := by
    obtain ⟨total, -, rfl⟩ := Option.map_eq_some_iff.mp hsched
    exact hlast
  simp only [sealedBy, hnamed, decide_eq_true_eq]
  exact hpast

/-- The DID submits a hash, and the next tick seals and anchors it. -/
def Sample.deliveredFront : Front Sample.sdk Sample.authHost × Option
    (Except SealError (EpochRecord × List (MintedWitness Sample.sdk))) :=
  (Sample.signedIn.submitted Sample.frontParams.cfg 3 "token-did:a" [Sample.leaf 1]).enter
    Sample.frontParams 600 600 (Sample.honest "1")

/-- A poll that reaches the service then. -/
def Sample.deliveredPoll : Poll Sample.sdk :=
  ⟨5, Sample.deliveredFront.1.network Sample.frontParams.cfg 3 .enabled 600 "token-did:a", 6, 6⟩

theorem submitted_hash_is_delivered_deliveredFront :
    ∃ pair object sig,
      Sample.client.awaitWitness ⟨Sample.leaf 1, 1, 600, "did:a"⟩ .evm 60
        [Sample.deliveredPoll] = some (.ok pair) ∧
      Delivered Sample.client (Sample.leaf 1) .evm pair object sig := by
  have hsome : Sample.deliveredFront.2.isSome = true := by
    decide +kernel
  obtain ⟨result, hresult⟩ := Option.isSome_iff_exists.mp hsome
  have hcycle := Front.sealCycle_enter
    (Sample.signedIn.submitted Sample.frontParams.cfg 3 "token-did:a" [Sample.leaf 1])
    Sample.frontParams 600 600 (Sample.honest "1")
  have hsubmit : submitMany
      (Sample.signedIn.intake Sample.frontParams.cfg 3 "token-did:a") [Sample.leaf 1] =
        .ok [⟨Sample.leaf 1, 1, 600, "did:a"⟩] := by
    rfl
  have hrun : (Sample.authHost.validateSession Sample.signedIn.auth "token-did:a").1 =
        .ok "did:a" ∧
      (Sample.authHost.validateSession Sample.deliveredFront.1.auth "token-did:a").1 =
        .ok "did:a" ∧
      Faultless Sample.deliveredFront.1.world.log ∧
      DistinctHashes Sample.deliveredFront.1.world.log ∧
      (∀ x ∈ Sample.deliveredFront.1.world.log.flatMap Event.revisions,
        ∀ y ∈ Sample.deliveredFront.1.world.log.flatMap Event.revisions,
          x.1 = y.1 → x.2.json = y.2.json) ∧
      (∀ ev ∈ Sample.deliveredFront.1.world.log, ∀ signer ∈ ev.serviceDid,
        signer = "did:service") ∧
      Sample.signedIn.world.accumulator.leaves = [] := by
    decide +kernel
  obtain ⟨hsession, hsession', hfaultless, hhashes, hjson, hdid, hempty⟩ := hrun
  have hreadable : ReadableBy Sample.client Sample.deliveredFront.1.world.log :=
    ⟨hhashes, fun x hx y hy hsame =>
      Sample.client_matches.json_injective (hjson x hx y hy hsame), hdid,
      fun _ _ _ _ => rfl⟩
  have hsched : AquaTimestamp.schedule .enabled Sample.deliveredFront.1.world
      Sample.frontParams.cfg.epoch.durationSecs 600 =
        some ⟨2, 600, 1200, 600, some 1, some 600, ["evm", "qtsa"], 1, 1, 600⟩ := by
    decide +kernel
  have hclock : ScheduleResponse.Fits
      ⟨2, 600, 1200, 600, some 1, some 600, ["evm", "qtsa"], 1, 1, 600⟩ := by
    constructor <;> decide
  exact submitted_hash_is_delivered Sample.client_matches Sample.spellsLinks (by decide)
    Sample.ctx_valid (by decide) Sample.signedIn_reachable Sample.usable_token hsession
    hsubmit .refl (hresult ▸ hcycle) hfaultless .refl hreadable
    Sample.usable_token hsession' hsched hclock (List.mem_singleton_self _)
    (fun entry hentry => by rw [hempty] at hentry; cases hentry) (by decide) rfl (by decide) []

end AquaTimestamp
