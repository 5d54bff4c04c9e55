import AquaTimestamp.Guarantees.Cycle
import AquaTimestamp.Model.Sample
import AquaTimestamp.Model.Startup
import AquaTimestamp.Settlement.Identity

/-!
# What a service that has started relies on

The checks before the start are exactly what the service needs afterwards: its
context is valid, its providers, its self-check host and its labels name one chain, and
no seal cycle is ever refused.  Every tick of its seal task closes one
epoch, whatever fails in it.
-/

namespace AquaTimestamp

open Support

variable {sdk : Sdk}
variable {names : EvmNames} {cfg : Config} {identity : ServiceIdentity}
variable {overrides : IdentityClaimOverrides} {driver : SealDriver}
variable {anchors : AnchorOverrides} {env : Environment sdk}
variable {app : Started sdk}

/-! ## The conditions of the start -/

/-- Everything the service is refused for the lack of. -/
structure Startable (names : EvmNames) (cfg : Config) (identity : ServiceIdentity)
    (overrides : IdentityClaimOverrides) (driver : SealDriver) (anchors : AnchorOverrides)
    (env : Environment sdk) : Prop where
  mnemonic : cfg.anchors.evm.enabled = true → anchors.evm = false →
    isBlank identity.mnemonic = false
  rpcUrl : cfg.anchors.evm.enabled = true → anchors.evm = false →
    isBlank cfg.anchors.evm.rpcUrl = false
  url : cfg.anchors.qtsa.enabled = true → anchors.qtsa = false →
    isBlank cfg.anchors.qtsa.url = false
  chain : cfg.anchors.evm.enabled = true → ∃ chain, OneChain cfg names chain
  claim : ∃ tree, buildIdentityTree env.identityMaker identity overrides env.now = .ok tree ∧
    ∃ response, buildResponse env.identityMaker identity tree = .ok response
  store : ∃ st, env.opened = .ok st
  lastSealed : env.lastSealedReads = .ok ()
  serviceDid : (env.identityMaker.deriveDidPkh identity.privateKey).getD "" ≠ ""
  wallet : driver = .interval → cfg.bondingCurve.enabled = true →
    ∃ address, env.parseAddress identity.addressEip55 = .ok address

theorem checkProviders_eq_ok_iff {mnemonic : String} :
    checkProviders cfg anchors mnemonic = .ok () ↔
      Configured (cfg.withoutInjected anchors) mnemonic := by
  unfold checkProviders
  by_cases hsome : anchors.evm = false ∨ anchors.qtsa = false
  · rw [if_pos hsome, checkEnabledAnchors_eq_ok_iff]
  · rw [if_neg hsome]
    apply iff_of_true rfl
    simp only [not_or, Bool.not_eq_false] at hsome
    constructor <;> simp [Config.withoutInjected, hsome.1, hsome.2]

theorem spawnSealer_eq_ok_iff :
    (∃ task, spawnSealer cfg identity env driver = .ok task) ↔
      (driver = .interval → cfg.bondingCurve.enabled = true →
        ∃ address, env.parseAddress identity.addressEip55 = .ok address) := by
  unfold spawnSealer
  cases driver with
  | interval =>
      by_cases hcurve : cfg.bondingCurve.enabled = true
      · cases hparse : env.parseAddress identity.addressEip55 <;> simp [hcurve]
      · simp [hcurve]
  | channel => simp
  | off => simp

/-- The parts of a service that has started. -/
structure BuiltFrom (names : EvmNames) (cfg : Config) (identity : ServiceIdentity)
    (overrides : IdentityClaimOverrides) (driver : SealDriver) (anchors : AnchorOverrides)
    (env : Environment sdk) (app : Started sdk) : Prop where
  providers : checkProviders cfg anchors identity.mnemonic = .ok ()
  chainSource : cfg.checkEvmChainSource names = .ok ()
  claim : ∃ tree, buildIdentityTree env.identityMaker identity overrides env.now = .ok tree ∧
    buildResponse env.identityMaker identity tree = .ok app.identityResponseJson
  lastSealed : env.lastSealedReads = .ok ()
  world : ∃ st, env.opened = .ok st ∧
    app.world = World.boot st [] env.now cfg.epoch.durationSecs
  evmAnchor : evmProvider cfg.anchors.evm identity anchors = .ok app.evmAnchor
  qtsaAnchor : app.qtsaAnchor = qtsaProvider cfg.anchors.qtsa anchors
  evmHost : evmHost names cfg.anchors.evm anchors app.witnessCtx.methods =
    .ok app.evmCheckHost
  tsaHost : app.tsaCheckHost = tsaHost anchors app.witnessCtx.methods
  ctx : app.witnessCtx = {
    methods := methodsOf app.evmAnchor app.qtsaAnchor
    evmAnchor := app.evmAnchor.isSome
    qtsaAnchor := app.qtsaAnchor.isSome
    selfCheck := ⟨app.evmCheckHost.isSome, app.tsaCheckHost.isSome⟩
    evmNotFoundTimeoutSecs := cfg.anchors.evm.notFoundTimeoutSecs
    maxAnchorFaults := defaultMaxAnchorFaults
    serviceDid := (env.identityMaker.deriveDidPkh identity.privateKey).getD "" }
  valid : app.witnessCtx.validate = .ok ()
  sealTask : spawnSealer cfg identity env driver = .ok app.sealTask
  watcher : app.watcher = spawnWatcher cfg identity env

theorem builtFrom
    (h : buildAppWithAnchors names cfg identity overrides driver anchors env = .ok app) :
    BuiltFrom names cfg identity overrides driver anchors env app := by
  unfold buildAppWithAnchors at h
  obtain ⟨_, hproviders, h⟩ := bind_eq_ok_iff.mp h
  obtain ⟨_, hchain, h⟩ := bind_eq_ok_iff.mp h
  obtain ⟨tree, htree, h⟩ := bind_eq_ok_iff.mp h
  obtain ⟨response, hresponse, h⟩ := bind_eq_ok_iff.mp h
  obtain ⟨st, hopened, h⟩ := bind_eq_ok_iff.mp h
  obtain ⟨_, hlast, h⟩ := bind_eq_ok_iff.mp h
  obtain ⟨evmAnchor, hevm, h⟩ := bind_eq_ok_iff.mp h
  obtain ⟨host, hhost, h⟩ := bind_eq_ok_iff.mp h
  obtain ⟨_, hvalid, h⟩ := bind_eq_ok_iff.mp h
  obtain ⟨task, htask, h⟩ := bind_eq_ok_iff.mp h
  cases h
  exact ⟨failing_eq_ok_iff.mp hproviders, failing_eq_ok_iff.mp hchain,
    ⟨tree, failing_eq_ok_iff.mp htree, failing_eq_ok_iff.mp hresponse⟩,
    failing_eq_ok_iff.mp hlast,
    ⟨st, failing_eq_ok_iff.mp hopened, rfl⟩, hevm, rfl, hhost, rfl, rfl,
    failing_eq_ok_iff.mp hvalid, htask, rfl⟩

theorem BuiltFrom.startable (h : BuiltFrom names cfg identity overrides driver anchors env app) :
    Startable names cfg identity overrides driver anchors env := by
  have hconfigured := checkProviders_eq_ok_iff.mp h.providers
  have hdid := (validate_eq_ok_iff.mp h.valid).2.2
  rw [h.ctx] at hdid
  constructor
  · exact fun henabled hno => hconfigured.mnemonic (by
      simp [Config.withoutInjected, henabled, hno])
  · exact fun henabled hno => hconfigured.rpcUrl (by
      simp [Config.withoutInjected, henabled, hno])
  · exact fun henabled hno => hconfigured.url (by
      simp [Config.withoutInjected, henabled, hno])
  · exact checkEvmChainSource_eq_ok_iff.mp h.chainSource
  · obtain ⟨tree, htree, hresponse⟩ := h.claim
    exact ⟨tree, htree, _, hresponse⟩
  · obtain ⟨st, hst, -⟩ := h.world
    exact ⟨st, hst⟩
  · exact h.lastSealed
  · exact hdid
  · exact spawnSealer_eq_ok_iff.mp ⟨_, h.sealTask⟩

/-- A wiring of the enabled methods passes when the service DID is known. -/
theorem validate_of_wired {evmAnchor : Option EvmProvider}
    {qtsaAnchor : Option QtsaProvider} {evmCheckHost : Option EvmCheckHost}
    {tsaCheckHost : Option TsaCheckHost} {timeout : Nat} {faults : UInt32} {did : String}
    (hevm : evmCheckHost.isSome = decide (.evm ∈ methodsOf evmAnchor qtsaAnchor))
    (htsa : tsaCheckHost.isSome = decide (.qtsa ∈ methodsOf evmAnchor qtsaAnchor))
    (hdid : did ≠ "") :
    (WitnessContext.mk (methodsOf evmAnchor qtsaAnchor) evmAnchor.isSome qtsaAnchor.isSome
      ⟨evmCheckHost.isSome, tsaCheckHost.isSome⟩ timeout faults did).validate = .ok () := by
  refine validate_eq_ok_iff.mpr ⟨fun m hm => ?_, fun m hm => ?_, hdid⟩
  · rcases mem_methodsOf.mp hm with ⟨rfl, hsome⟩ | ⟨rfl, hsome⟩
    · exact hsome
    · exact hsome
  · cases m with
    | evm => simp [WitnessContext.hostMissing, hevm, show _ from hm]
    | qtsa => simp [WitnessContext.hostMissing, htsa, show _ from hm]

theorem Startable.builds (h : Startable names cfg identity overrides driver anchors env) :
    ∃ app, buildAppWithAnchors names cfg identity overrides driver anchors env = .ok app := by
  have hchain : cfg.anchors.evm.enabled = true →
      ∃ chain, cfg.anchors.evm.evmChain = .ok chain := by
    intro henabled
    obtain ⟨chain, hone⟩ := h.chain henabled
    exact ⟨chain, hone.named⟩
  have hproviders : checkProviders cfg anchors identity.mnemonic = .ok () := by
    refine checkProviders_eq_ok_iff.mpr ⟨?_, ?_, ?_, ?_⟩
    · simpa [Config.withoutInjected] using h.mnemonic
    · simpa [Config.withoutInjected] using h.rpcUrl
    · intro henabled
      apply hchain
      simp only [Config.withoutInjected, Bool.and_eq_true] at henabled
      exact henabled.1
    · simpa [Config.withoutInjected] using h.url
  obtain ⟨tree, htree, response, hresponse⟩ := h.claim
  obtain ⟨st, hst⟩ := h.store
  obtain ⟨evmAnchor, hevm⟩ : ∃ a, evmProvider cfg.anchors.evm identity anchors = .ok a :=
    exists_evmProvider hchain
  have henabled := (evmProvider_eq_ok hevm).1
  have hmethods : .evm ∈ methodsOf evmAnchor (qtsaProvider cfg.anchors.qtsa anchors) →
      ∃ chain, cfg.anchors.evm.evmChain = .ok chain := by
    intro hmem
    rcases mem_methodsOf.mp hmem with ⟨-, hsome⟩ | ⟨hne, -⟩
    · exact hchain (henabled ▸ hsome)
    · cases hne
  obtain ⟨host, hhost⟩ : ∃ x, evmHost names cfg.anchors.evm anchors _ = .ok x :=
    exists_evmHost hmethods
  obtain ⟨task, htask⟩ := spawnSealer_eq_ok_iff.mpr h.wallet
  have hvalid := fun timeout faults => @validate_of_wired _ _ _ _ timeout faults _
    (evmHost_eq_ok hhost).1 (@isSome_tsaHost anchors _) h.serviceDid
  simp only [buildAppWithAnchors, hproviders,
    checkEvmChainSource_eq_ok_iff.mpr h.chain, htree, hresponse, hst, h.lastSealed, hevm, hhost,
    hvalid, htask, failing, bind, Except.bind]
  exact ⟨_, rfl⟩

/-- The service starts exactly when nothing it needs is missing. -/
theorem service_starts_iff :
    (∃ app, buildAppWithAnchors names cfg identity overrides driver anchors env = .ok app) ↔
      Startable names cfg identity overrides driver anchors env := by
  constructor
  · rintro ⟨app, happ⟩
    exact (builtFrom happ).startable
  · exact Startable.builds

/-! ## One chain -/

/-- What the service says about chains names this one.  The watcher labels the wallets it
credits with this chain's id; which chain it polls is the matter of its own endpoint. -/
structure OnChain (names : EvmNames) (cfg : Config) (app : Started sdk)
    (chain : EvmChain) : Prop where
  provider : ∀ mnemonic rpcUrl chain', app.evmAnchor = some (.cliEth mnemonic rpcUrl chain') →
    chain' = chain ∧ rpcUrl = cfg.anchors.evm.rpcUrl
  host : ∀ chainId rpcUrl, app.evmCheckHost = some (.endpoint chainId rpcUrl) →
    chainId = names.chainId chain ∧ rpcUrl = cfg.anchors.evm.rpcUrl
  network : names.evmChainIdForNetwork (names.networkClaim chain) =
    some (names.chainId chain)
  watcher : ∀ task, app.watcher = some task →
    task.watcher.chainId = names.chainId chain ∧ task.rpcUrl = cfg.leaderboard.rpcUrl
  labels : ∀ x ∈ cfg.chainLabels, LabelNames names chain x.2

theorem BuiltFrom.methods (h : BuiltFrom names cfg identity overrides driver anchors env app)
    (m : AnchorMethod) :
    m ∈ app.witnessCtx.methods ↔
      (m = .evm ∧ cfg.anchors.evm.enabled = true) ∨
        (m = .qtsa ∧ cfg.anchors.qtsa.enabled = true) := by
  rw [h.ctx, mem_methodsOf, (evmProvider_eq_ok h.evmAnchor).1, h.qtsaAnchor,
    isSome_qtsaProvider]

/-- A service that anchors on a chain sends its transactions to the chain its
witnesses are checked on, names that chain in their payloads and in the DIDs of its
contributors, and gives a transaction time to be seen. -/
theorem started_service_on_one_chain (hids : names.Lawful)
    (happ : buildAppWithAnchors names cfg identity overrides driver anchors env = .ok app)
    (hevm : .evm ∈ app.witnessCtx.methods) :
    0 < app.witnessCtx.evmNotFoundTimeoutSecs ∧ ∃ chain, OnChain names cfg app chain := by
  have hbuilt := builtFrom happ
  have henabled : cfg.anchors.evm.enabled = true := by
    rcases (hbuilt.methods .evm).mp hevm with ⟨-, henabled⟩ | ⟨hne, -⟩
    · exact henabled
    · cases hne
  obtain ⟨chain, hone⟩ := hbuilt.startable.chain henabled
  refine ⟨?_, chain, ?_, ?_, hone.readBack, ?_, hone.labels⟩
  · rw [hbuilt.ctx]
    exact hone.timeout
  · intro mnemonic rpcUrl chain' hprovider
    obtain ⟨-, hurl, hchain⟩ := (evmProvider_eq_ok hbuilt.evmAnchor).2 _ _ _ hprovider
    exact ⟨hone.unique hchain, hurl⟩
  · intro chainId rpcUrl hhost
    obtain ⟨hurl, chain', hchain, hid⟩ := (evmHost_eq_ok hbuilt.evmHost).2 _ _ hhost
    rw [hone.unique hchain] at hid
    exact ⟨hid, hurl⟩
  · intro task htask
    rw [hbuilt.watcher, spawnWatcher] at htask
    split at htask
    · split at htask
      · cases htask
      · cases htask
        exact ⟨leaderboardChainId_eq hids hone.named, rfl⟩
    · cases htask

/-- The SDK's names of chains, with `evm:` before the id of a custom one. -/
def Sample.evmNames : EvmNames where
  chainId
    | .mainnet => 1
    | .sepolia => 11155111
    | .holesky => 17000
    | .custom chainId => chainId
  networkClaim
    | .mainnet => "mainnet"
    | .sepolia => "sepolia"
    | .holesky => "holesky"
    | .custom chainId => "evm:" ++ toString chainId
  evmChainIdForNetwork network :=
    if network = "mainnet" then some 1
    else if network = "sepolia" then some 11155111
    else if network = "holesky" then some 17000
    else none

/-- The defaults, and a chain label from before. -/
def Sample.config : Config where
  server := ⟨"0.0.0.0:3000"⟩
  anchorLegacy := ⟨some "sepolia"⟩

/-- The revision of the claim and the signature over it. -/
def Sample.claimObject : Sample.Object :=
  ⟨Sample.leaf 7, Sample.anchored "" .evm "r"⟩

def Sample.claimSignature : Sample.Signature :=
  ⟨Sample.objectLink Sample.claimObject, didPkh 1 "0xservice"⟩

/-- A wallet with one key, and trees of one revision. -/
def Sample.identityMaker : IdentityMaker Sample.sdk where
  getWallet _ := .ok ("0xservice", "0x07")
  validate _ := .ok ()
  claimJson claim := .ok (.str claim.signerDid)
  createObjectUtil _ :=
    .ok ⟨[(Sample.linkText (Sample.objectLink Sample.claimObject), .typed Sample.claimObject)],
      []⟩
  signAquaTreeWithSigner tree _ :=
    .ok { tree with revisions := tree.revisions ++
      [(Sample.linkText (Sample.signatureLink Sample.claimSignature),
        .signature Sample.claimSignature)] }
  deriveDidPkh _ := some (didPkh 1 "0xservice")
  revisionJson
    | .typed _ => .ok (.obj [("payload", .num 7)])
    | .signature sig =>
        .ok (.obj [("previous_revision", .num 7), ("signer", .str sig.signer)])
    | .other revision => nomatch revision
  deployVersion := none

def Sample.serviceKey : ServiceIdentity where
  addressEip55 := "0xservice"
  serverDid := didPkh 1 "0xservice"
  chainId := 1
  trustDomain := "timestamp"
  dns := "openwitness.org"
  ip := "142.93.168.4"
  privateKey := [7]
  mnemonic := "test junk"

/-- A fresh install on which everything works. -/
def Sample.environment : Environment Sample.sdk where
  identityMaker := Sample.identityMaker
  opened := .ok Store.empty
  lastSealedReads := .ok ()
  parseAddress _ := .ok (Vector.replicate 20 7)
  now := 0

/-- What the service is then. -/
def Sample.service : Started Sample.sdk where
  identityResponseJson := (IdentityResponse.new Sample.serviceKey
    (IdentityTree.toJson (⟨[], []⟩ : IdentityTree Sample.sdk)
      [(Sample.linkText (Sample.objectLink Sample.claimObject), .obj [("payload", .num 7)]),
        (Sample.linkText (Sample.signatureLink Sample.claimSignature),
          .obj [("previous_revision", .num 7),
            ("signer", .str (didPkh 1 "0xservice"))])])).toJson
  evmAnchor := some (.cliEth "test junk"
    "https://ethereum-sepolia-rpc.publicnode.com" .sepolia)
  qtsaAnchor := some (.tsa "http://timestamp.sectigo.com/qualified" (some 16))
  evmCheckHost := some (.endpoint 11155111 "https://ethereum-sepolia-rpc.publicnode.com")
  tsaCheckHost := some .webHost
  witnessCtx := { Sample.ctx [.evm, .qtsa] with
    evmNotFoundTimeoutSecs := 3600
    serviceDid := didPkh 1 "0xservice" }
  sealTask := .interval 600
  watcher := some ⟨"https://ethereum-sepolia-rpc.publicnode.com",
    ⟨Vector.replicate 20 7, 11155111⟩, 15⟩
  world := World.boot Store.empty [] 0 600

theorem Sample.service_built :
    buildAppWithAnchors Sample.evmNames Sample.config Sample.serviceKey {} .interval {}
      Sample.environment = .ok Sample.service := by
  rfl

theorem started_service_on_one_chain_service :
    0 < Sample.service.witnessCtx.evmNotFoundTimeoutSecs ∧
      ∃ chain, OnChain Sample.evmNames Sample.config Sample.service chain :=
  started_service_on_one_chain ⟨rfl, rfl, rfl, fun _ => rfl⟩ Sample.service_built (by decide)

/-! ## Every tick closes an epoch -/

/-- The duration a seal task gives its cycles; a service without a task has none. -/
def SealTask.cycleSecs : SealTask → Option Nat
  | .interval durationSecs => some durationSecs
  | .bondingCurve _ _ params => some params.pollIntervalSecs.val
  | .channel durationSecs => some durationSecs
  | .off => none

/-- The worlds of a started service between two ticks of its task. -/
inductive Serves (app : Started sdk) : World sdk → Prop where
  | start : Serves app app.world
  | append {w : World sdk} (batch : List Hash32) (did : String) :
      Serves app w → Serves app (w.append batch did)
  | cycle {w w' : World sdk} {now durationSecs : Nat}
      {result : Except SealError (EpochRecord × List (MintedWitness sdk))} :
      Serves app w → app.sealTask.cycleSecs = some durationSecs →
        SealCycle w (some app.witnessCtx) now durationSecs w' (some result) →
          Serves app w'

theorem saturatingAdd_succ (a n : Nat) :
    saturatingAdd (saturatingAdd a n) 1 = saturatingAdd a (n + 1) := by
  unfold saturatingAdd
  omega

theorem BuiltFrom.distinctMethods
    (h : BuiltFrom names cfg identity overrides driver anchors env app) :
    DistinctMethods (some app.witnessCtx) := by
  rintro _ ⟨⟩
  rw [h.ctx]
  exact methodsOf_nodup _ _

/-- A started service runs as the server does: each tick of its task closes one epoch,
counted from the last that was sealed before the start, and none is refused. -/
theorem started_service_closes_each_tick
    (happ : buildAppWithAnchors names cfg identity overrides driver anchors env = .ok app)
    (h : Serves app w) :
    (∃ st, env.opened = .ok st ∧ Reachable st w ∧
      w.accumulator.epochId = saturatingAdd (World.nextEpochId st) (ticks w.log)) ∧
    ∀ now durationSecs w' result,
      SealCycle w (some app.witnessCtx) now durationSecs w' (some result) →
        ∀ e, result = .error e → e.isRefusal = false := by
  have hbuilt := builtFrom happ
  refine ⟨?_, fun now durationSecs w' result hcycle =>
    (hcycle.closes hbuilt.valid).2⟩
  obtain ⟨st, hst, hworld⟩ := hbuilt.world
  refine ⟨st, hst, ?_⟩
  induction h with
  | start =>
      rw [hworld]
      refine ⟨.boot _ _, ?_⟩
      exact (Nat.min_eq_left (nextEpochId_le st)).symm
  | append batch did _ ih =>
      exact ⟨ih.1.append batch did,
        ((World.accumulator _).appendBatch_frame batch did).1.trans ih.2⟩
  | cycle _ _ hcycle ih =>
      obtain ⟨hreach, hid⟩ := ih
      have hcounts := (hcycle.closes hbuilt.valid).1
      refine ⟨.cycle hreach hbuilt.distinctMethods hcycle, ?_⟩
      rw [hcounts.epochId, hcounts.ticks, hid, saturatingAdd_succ]

/-- A leaf is submitted and the task ticks; both providers refuse. -/
def Sample.firstTick : World Sample.sdk × Option
    (Except SealError (EpochRecord × List (MintedWitness Sample.sdk))) :=
  (Sample.service.world.append [Sample.leaf 1] "did:a").enter
    (some Sample.service.witnessCtx) 600 600 Sample.noProvider

theorem started_service_closes_each_tick_firstTick :
    (∃ st, Sample.environment.opened = .ok st ∧ Reachable st Sample.firstTick.1 ∧
      Sample.firstTick.1.accumulator.epochId =
        saturatingAdd (World.nextEpochId st) (ticks Sample.firstTick.1.log)) ∧
    ∀ now durationSecs w' result,
      SealCycle Sample.firstTick.1 (some Sample.service.witnessCtx) now durationSecs w'
        (some result) → ∀ e, result = .error e → e.isRefusal = false := by
  have hsome : Sample.firstTick.2.isSome = true := by
    decide +kernel
  obtain ⟨result, hresult⟩ := Option.isSome_iff_exists.mp hsome
  have hcycle := sealCycle_enter (Sample.service.world.append [Sample.leaf 1] "did:a")
    (some Sample.service.witnessCtx) 600 600 Sample.noProvider
  have hserves : Serves Sample.service Sample.firstTick.1 :=
    .cycle (.append _ _ .start) rfl (hresult ▸ hcycle)
  exact started_service_closes_each_tick Sample.service_built hserves

end AquaTimestamp
