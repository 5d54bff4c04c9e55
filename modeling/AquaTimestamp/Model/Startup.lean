import AquaTimestamp.Model.BondingCurve
import AquaTimestamp.Model.Identity
import AquaTimestamp.Model.Watcher

/-!
# The start of the service

`build_app_with_anchors` of `lib.rs`: from the configuration and the injected
providers to the context of the sealer, the seal task, the watcher of the
leaderboard and the world the service starts in.

What the start asks of its surroundings (the wallet and the SDK behind the identity,
the keyspace on disk, the parsing of addresses, the clock) is given.
-/

namespace AquaTimestamp

open Support

variable {sdk : Sdk}

/-! ## What is given -/

/-- `AnchorOverrides`: which providers and hosts are injected. -/
structure AnchorOverrides where
  evm : Bool := false
  qtsa : Bool := false
  evmCheckHost : Bool := false
  tsaCheckHost : Bool := false

/-- `SealDriver`. -/
inductive SealDriver where
  | interval
  | channel
  | off
  deriving DecidableEq

/-- What the start asks of its surroundings. -/
structure Environment (sdk : Sdk) where
  identityMaker : IdentityMaker sdk
  /-- `Store::open`. -/
  opened : Except String (Store sdk)
  /-- Whether `last_sealed_epoch_id` can be read. -/
  lastSealedReads : Except String Unit
  /-- Alloy's `Address::from_str`. -/
  parseAddress : String → Except String Address
  now : Nat

/-! ## What is built -/

inductive EvmProvider where
  | injected
  /-- `CliEthTimestamper::new`. -/
  | cliEth (mnemonic rpcUrl : String) (chain : EvmChain)
  deriving DecidableEq

inductive QtsaProvider where
  | injected
  /-- `TsaTimestamper::new`, with its spacing of requests. -/
  | tsa (url : String) (minRequestInterval : Option Nat)
  deriving DecidableEq

inductive EvmCheckHost where
  | injected
  /-- `EthBlockchainHost` with one endpoint. -/
  | endpoint (chainId : Nat) (rpcUrl : String)
  deriving DecidableEq

inductive TsaCheckHost where
  | injected
  /-- `TsaWebHost::new`. -/
  | webHost
  deriving DecidableEq

/-- The seal task that is spawned, with the duration its cycles are given. -/
inductive SealTask where
  | interval (durationSecs : Nat)
  | bondingCurve (rpcUrl : String) (wallet : Address) (params : BondingCurveParams)
  | channel (durationSecs : Nat)
  | off

/-- The watcher of the leaderboard that is spawned. -/
structure WatcherTask where
  rpcUrl : String
  watcher : BlockWatcher
  pollIntervalSecs : Nat

/-- Why the service does not start. -/
inductive StartError where
  | anchors (e : ConfigError)
  | chainSource (e : ConfigError)
  | identity (e : String)
  | openStore (path e : String)
  | lastSealed (e : String)
  | parseChain (e : String)
  | wiring (e : SealError)
  | walletAddress (address e : String)
  deriving DecidableEq

/-- The context `anyhow` puts before the cause; the identity's errors have their
own texts. -/
def StartError.context : StartError → Option String
  | .anchors _ => some "anchor configuration (decision D51: no placeholder witnesses)"
  | .chainSource _ => some "anchor configuration (one EVM chain source)"
  | .identity _ => none
  | .openStore path _ => some ("opening fjall keyspace at " ++ path)
  | .lastSealed _ => some "reading last_sealed_epoch_id"
  | .parseChain _ => some "parsing anchors.evm.chain"
  | .wiring _ => some "anchor providers and self-check hosts (decision D51, OW1.4)"
  | .walletAddress address _ =>
      some ("parsing service wallet address " ++ address.quote)

/-- A service that has started. -/
structure Started (sdk : Sdk) where
  identityResponseJson : JsonValue
  evmAnchor : Option EvmProvider
  qtsaAnchor : Option QtsaProvider
  evmCheckHost : Option EvmCheckHost
  tsaCheckHost : Option TsaCheckHost
  witnessCtx : WitnessContext
  sealTask : SealTask
  watcher : Option WatcherTask
  world : World sdk

/-! ## The steps -/

/-- `DEFAULT_MAX_ANCHOR_FAULTS`. -/
def defaultMaxAnchorFaults : UInt32 := 3

/-- The configuration the providers are checked on: an injected provider stands in
for the configured one. -/
def Config.withoutInjected (cfg : Config) (anchors : AnchorOverrides) : Config :=
  { cfg with
    anchors := {
      evm := { cfg.anchors.evm with enabled := cfg.anchors.evm.enabled && !anchors.evm }
      qtsa := { cfg.anchors.qtsa with
        enabled := cfg.anchors.qtsa.enabled && !anchors.qtsa } } }

/-- The check of the providers, skipped when both are injected. -/
def checkProviders (cfg : Config) (anchors : AnchorOverrides) (mnemonic : String) :
    Except ConfigError Unit :=
  if anchors.evm = false ∨ anchors.qtsa = false then
    (cfg.withoutInjected anchors).checkEnabledAnchors mnemonic
  else .ok ()

/-- The provider of the EVM method. -/
def evmProvider (cfg : EvmAnchorConfig) (identity : ServiceIdentity)
    (anchors : AnchorOverrides) : Except StartError (Option EvmProvider) :=
  if !cfg.enabled then .ok none
  else if anchors.evm then .ok (some .injected)
  else
    match cfg.evmChain with
    | .error e => .error (.parseChain e)
    | .ok chain => .ok (some (.cliEth identity.mnemonic cfg.rpcUrl chain))

/-- The provider of the qTSA method. -/
def qtsaProvider (cfg : QtsaAnchorConfig) (anchors : AnchorOverrides) :
    Option QtsaProvider :=
  if !cfg.enabled then none
  else if anchors.qtsa then some .injected
  else some (.tsa cfg.url cfg.throttle)

/-- The methods that have a provider, in the order they are pushed. -/
def methodsOf (evmAnchor : Option EvmProvider) (qtsaAnchor : Option QtsaProvider) :
    List AnchorMethod :=
  (if evmAnchor.isSome then [.evm] else []) ++ (if qtsaAnchor.isSome then [.qtsa] else [])

/-- The host EVM witnesses are judged against. -/
def evmHost (names : EvmNames) (cfg : EvmAnchorConfig) (anchors : AnchorOverrides)
    (methods : List AnchorMethod) : Except StartError (Option EvmCheckHost) :=
  if .evm ∉ methods then .ok none
  else if anchors.evmCheckHost then .ok (some .injected)
  else
    match cfg.evmChain with
    | .error e => .error (.parseChain e)
    | .ok chain => .ok (some (.endpoint (names.chainId chain) cfg.rpcUrl))

/-- The host qTSA tokens are judged with. -/
def tsaHost (anchors : AnchorOverrides) (methods : List AnchorMethod) :
    Option TsaCheckHost :=
  if .qtsa ∉ methods then none
  else if anchors.tsaCheckHost then some .injected
  else some .webHost

/-- The seal task.  The bonding curve needs the service's own address. -/
def spawnSealer (cfg : Config) (identity : ServiceIdentity) (env : Environment sdk) :
    SealDriver → Except StartError SealTask
  | .interval =>
      if cfg.bondingCurve.enabled then
        match env.parseAddress identity.addressEip55 with
        | .error e => .error (.walletAddress identity.addressEip55 e)
        | .ok wallet =>
            .ok (.bondingCurve cfg.anchors.evm.rpcUrl wallet
              ⟨cfg.bondingCurve.nHalf, cfg.bondingCurve.pollIntervalSecs,
                cfg.bondingCurve.minBalanceMultiplier⟩)
      else .ok (.interval cfg.epoch.durationSecs)
  | .channel => .ok (.channel cfg.epoch.durationSecs)
  | .off => .ok .off

/-- The watcher; an address that does not parse only disables it. -/
def spawnWatcher (cfg : Config) (identity : ServiceIdentity) (env : Environment sdk) :
    Option WatcherTask :=
  if cfg.leaderboard.enabled then
    match env.parseAddress (cfg.leaderboard.watchedAddress identity.addressEip55) with
    | .error _ => none
    | .ok wallet =>
        some ⟨cfg.leaderboard.rpcUrl, ⟨wallet, cfg.leaderboardChainId⟩,
          cfg.leaderboard.pollIntervalSecs⟩
  else none

/-- A failure with the context of the step that met it. -/
def failing {ε α : Type} (context : ε → StartError) :
    Except ε α → Except StartError α
  | .ok a => .ok a
  | .error e => .error (context e)

/-- `build_app_with_anchors`. -/
def buildAppWithAnchors (names : EvmNames) (cfg : Config) (identity : ServiceIdentity)
    (overrides : IdentityClaimOverrides) (driver : SealDriver) (anchors : AnchorOverrides)
    (env : Environment sdk) : Except StartError (Started sdk) := do
  failing .anchors (checkProviders cfg anchors identity.mnemonic)
  failing .chainSource (cfg.checkEvmChainSource names)
  let tree ← failing .identity
    (buildIdentityTree env.identityMaker identity overrides env.now)
  let response ← failing .identity (buildResponse env.identityMaker identity tree)
  let store ← failing (.openStore cfg.storage.path) env.opened
  failing .lastSealed env.lastSealedReads
  let evmAnchor ← evmProvider cfg.anchors.evm identity anchors
  let qtsaAnchor := qtsaProvider cfg.anchors.qtsa anchors
  let methods := methodsOf evmAnchor qtsaAnchor
  let evmCheckHost ← evmHost names cfg.anchors.evm anchors methods
  let tsaCheckHost := tsaHost anchors methods
  let witnessCtx : WitnessContext := {
    methods := methods
    evmAnchor := evmAnchor.isSome
    qtsaAnchor := qtsaAnchor.isSome
    selfCheck := ⟨evmCheckHost.isSome, tsaCheckHost.isSome⟩
    evmNotFoundTimeoutSecs := cfg.anchors.evm.notFoundTimeoutSecs
    maxAnchorFaults := defaultMaxAnchorFaults
    serviceDid := (env.identityMaker.deriveDidPkh identity.privateKey).getD "" }
  failing .wiring witnessCtx.validate
  let sealTask ← spawnSealer cfg identity env driver
  .ok {
    identityResponseJson := response
    evmAnchor := evmAnchor
    qtsaAnchor := qtsaAnchor
    evmCheckHost := evmCheckHost
    tsaCheckHost := tsaCheckHost
    witnessCtx := witnessCtx
    sealTask := sealTask
    watcher := spawnWatcher cfg identity env
    world := World.boot store [] env.now cfg.epoch.durationSecs }

/-! ## The context -/

section Wiring

variable {cfg : Config} {anchors : AnchorOverrides} {identity : ServiceIdentity}

theorem failing_eq_ok_iff {ε α : Type} {context : ε → StartError} {x : Except ε α}
    {a : α} : failing context x = .ok a ↔ x = .ok a := by
  cases x with
  | error e => simp [failing]
  | ok b => simp [failing]

theorem mem_methodsOf {evmAnchor : Option EvmProvider} {qtsaAnchor : Option QtsaProvider}
    {m : AnchorMethod} :
    m ∈ methodsOf evmAnchor qtsaAnchor ↔
      (m = .evm ∧ evmAnchor.isSome) ∨ (m = .qtsa ∧ qtsaAnchor.isSome) := by
  unfold methodsOf
  cases evmAnchor <;> cases qtsaAnchor <;> simp

theorem methodsOf_nodup (evmAnchor : Option EvmProvider)
    (qtsaAnchor : Option QtsaProvider) : (methodsOf evmAnchor qtsaAnchor).Nodup := by
  unfold methodsOf
  cases evmAnchor <;> cases qtsaAnchor <;> simp

theorem isSome_qtsaProvider {qtsa : QtsaAnchorConfig} :
    (qtsaProvider qtsa anchors).isSome = qtsa.enabled := by
  unfold qtsaProvider
  cases qtsa.enabled <;> cases anchors.qtsa <;> simp

/-- An enabled EVM method with a chain has its provider: the injected one, or one on
that chain. -/
theorem evmProvider_eq_ok {evm : EvmAnchorConfig} {evmAnchor : Option EvmProvider}
    (h : evmProvider evm identity anchors = .ok evmAnchor) :
    evmAnchor.isSome = evm.enabled ∧
      ∀ mnemonic rpcUrl chain, evmAnchor = some (.cliEth mnemonic rpcUrl chain) →
        mnemonic = identity.mnemonic ∧ rpcUrl = evm.rpcUrl ∧ evm.evmChain = .ok chain := by
  unfold evmProvider at h
  by_cases henabled : evm.enabled = true
  · by_cases hinjected : anchors.evm = true
    · simp only [henabled, hinjected, Bool.not_true, Bool.false_eq_true, if_false,
        if_true, Except.ok.injEq] at h
      subst h
      simp [henabled]
    · cases hchain : evm.evmChain with
      | error e => simp [henabled, hinjected, hchain] at h
      | ok chain =>
          simp only [henabled, hinjected, hchain, Bool.not_true, Bool.false_eq_true,
            if_false, Except.ok.injEq] at h
          subst h
          simp [henabled]
  · simp only [Bool.not_eq_true] at henabled
    simp only [henabled, Bool.not_false, if_true, Except.ok.injEq] at h
    subst h
    simp [henabled]

theorem exists_evmProvider {evm : EvmAnchorConfig}
    (h : evm.enabled = true → ∃ chain, evm.evmChain = .ok chain) :
    ∃ evmAnchor, evmProvider evm identity anchors = .ok evmAnchor := by
  unfold evmProvider
  by_cases henabled : evm.enabled = true
  · obtain ⟨chain, hchain⟩ := h henabled
    by_cases hinjected : anchors.evm = true
    · simp [henabled, hinjected]
    · simp [henabled, hinjected, hchain]
  · simp [henabled]

theorem isSome_tsaHost {methods : List AnchorMethod} :
    (tsaHost anchors methods).isSome = decide (.qtsa ∈ methods) := by
  unfold tsaHost
  by_cases hmem : AnchorMethod.qtsa ∈ methods
  · cases anchors.tsaCheckHost <;> simp [hmem]
  · simp [hmem]

/-- The host of an EVM method, if it is not injected, is keyed by the chain. -/
theorem evmHost_eq_ok {names : EvmNames} {evm : EvmAnchorConfig}
    {methods : List AnchorMethod} {host : Option EvmCheckHost}
    (h : evmHost names evm anchors methods = .ok host) :
    host.isSome = decide (.evm ∈ methods) ∧
      ∀ chainId rpcUrl, host = some (.endpoint chainId rpcUrl) →
        rpcUrl = evm.rpcUrl ∧
          ∃ chain, evm.evmChain = .ok chain ∧ chainId = names.chainId chain := by
  unfold evmHost at h
  by_cases hmem : AnchorMethod.evm ∈ methods
  · by_cases hinjected : anchors.evmCheckHost = true
    · simp only [hmem, hinjected, not_true_eq_false, if_false, if_true,
        Except.ok.injEq] at h
      subst h
      simp [hmem]
    · cases hchain : evm.evmChain with
      | error e => simp [hmem, hinjected, hchain] at h
      | ok chain =>
          simp only [hmem, hinjected, hchain, not_true_eq_false, if_false,
            Bool.false_eq_true, Except.ok.injEq] at h
          subst h
          simp [hmem, eq_comm]
  · simp only [hmem, not_false_eq_true, if_true, Except.ok.injEq] at h
    subst h
    simp [hmem]

theorem exists_evmHost {names : EvmNames} {evm : EvmAnchorConfig}
    {methods : List AnchorMethod}
    (h : .evm ∈ methods → ∃ chain, evm.evmChain = .ok chain) :
    ∃ host, evmHost names evm anchors methods = .ok host := by
  unfold evmHost
  by_cases hmem : AnchorMethod.evm ∈ methods
  · obtain ⟨chain, hchain⟩ := h hmem
    by_cases hinjected : anchors.evmCheckHost = true
    · simp [hmem, hinjected]
    · simp [hmem, hinjected, hchain]
  · simp [hmem]

/-- A context passes exactly when its methods are wired and the service DID is
known. -/
theorem validate_eq_ok_iff {ctx : WitnessContext} :
    ctx.validate = .ok () ↔
      (∀ m ∈ ctx.methods, ctx.provider m = true) ∧
        (∀ m ∈ ctx.methods, ctx.hostMissing m = false) ∧ ctx.serviceDid ≠ "" := by
  unfold WitnessContext.validate
  cases hprovider : ctx.methods.find? (fun m => !ctx.provider m) with
  | some m =>
      have hmem := List.mem_of_find?_eq_some hprovider
      have hmissing := List.find?_some hprovider
      refine iff_of_false (by simp) fun h => ?_
      simp [h.1 m hmem] at hmissing
  | none =>
      have hproviders : ∀ m ∈ ctx.methods, ctx.provider m = true := by
        simpa using List.find?_eq_none.mp hprovider
      cases hhost : ctx.methods.find? ctx.hostMissing with
      | some m =>
          have hmem := List.mem_of_find?_eq_some hhost
          have hmissing := List.find?_some hhost
          refine iff_of_false (by simp) fun h => ?_
          simp [h.2.1 m hmem] at hmissing
      | none =>
          have hhosts : ∀ m ∈ ctx.methods, ctx.hostMissing m = false := by
            simpa using List.find?_eq_none.mp hhost
          by_cases hdid : ctx.serviceDid = ""
          · simp [hdid]
          · simp only [hdid, if_false, true_iff]
            exact ⟨hproviders, hhosts, hdid⟩

end Wiring

end AquaTimestamp
