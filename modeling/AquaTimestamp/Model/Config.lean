import AquaTimestamp.Model.Sealer
import AquaTimestamp.Support.Overflow
import AquaTimestamp.Support.Trim

/-!
# The configuration

`config.rs`: the sections of `config.toml` that decide how the service runs,
with their defaults, and the checks the service makes of them before it starts.
The reading of TOML is not modelled; a `Config` is what it gives.

What the SDK says of EVM chains is a parameter.
-/

namespace AquaTimestamp

open Support

/-! ## Numbers in a text -/

/-- The digits of a `u64` after the number read so far. -/
def parseDigits (n : Nat) : List Char → Except String Nat
  | [] => .ok n
  | c :: rest =>
      if c.isDigit then
        if n * 10 + (c.toNat - '0'.toNat) ≤ u64Max then
          parseDigits (n * 10 + (c.toNat - '0'.toNat)) rest
        else .error "number too large to fit in target type"
      else .error "invalid digit found in string"

/-- `str::parse::<u64>`. -/
def parseU64 : List Char → Except String Nat
  | [] => .error "cannot parse integer from empty string"
  | ['+'] => .error "invalid digit found in string"
  | '+' :: digits => parseDigits 0 digits
  | digits => parseDigits 0 digits

/-! ## EVM chains -/

/-- `EvmChain`, as far as the configuration names one. -/
inductive EvmChain where
  | mainnet
  | sepolia
  | holesky
  | custom (chainId : Nat)
  deriving DecidableEq, Repr

/-- What the SDK says of chains. -/
structure EvmNames where
  /-- `EvmChain::chain_id`. -/
  chainId : EvmChain → Nat
  /-- `EvmChain::network_claim`: the `network` of a payload. -/
  networkClaim : EvmChain → String
  /-- `evm_chain_id_for_network`: how a reader takes a `network`. -/
  evmChainIdForNetwork : String → Option Nat

/-- The SDK's chain ids. -/
structure EvmNames.Lawful (names : EvmNames) : Prop where
  mainnet : names.chainId .mainnet = 1
  sepolia : names.chainId .sepolia = 11155111
  holesky : names.chainId .holesky = 17000
  custom : ∀ chainId, names.chainId (.custom chainId) = chainId

/-! ## The sections -/

structure ServerConfig where
  listen : String

structure IdentityConfig where
  chainId : Nat := 1
  trustDomain : String := "timestamp"
  dns : String := "openwitness.org"
  ip : String := "142.93.168.4"

structure AuthConfig where
  challengeTtlSecs : Nat := 300
  sessionTtlSecs : Nat := 3600
  allowedDids : List String := []

structure StorageConfig where
  path : String := "/var/lib/aqua-timestamp/state"

structure EpochConfig where
  durationSecs : Nat := 600
  maxLeavesPerRequest : Nat := 10000

/-- The legacy `[anchor]` block. -/
structure AnchorConfig where
  evmNetwork : Option String := none

/-- `[anchors.evm]`, without the finality the hosts are asked for. -/
structure EvmAnchorConfig where
  enabled : Bool := true
  rpcUrl : String := "https://ethereum-sepolia-rpc.publicnode.com"
  chain : String := "sepolia"
  networkLabel : Option String := none
  notFoundTimeoutSecs : Nat := 3600

/-- `[anchors.qtsa]`. -/
structure QtsaAnchorConfig where
  enabled : Bool := true
  url : String := "http://timestamp.sectigo.com/qualified"
  minRequestIntervalSecs : Nat := 16

structure AnchorsConfig where
  evm : EvmAnchorConfig := {}
  qtsa : QtsaAnchorConfig := {}

structure BondingCurveConfig where
  enabled : Bool := false
  nHalf : U64 := 7200
  pollIntervalSecs : U64 := 12
  minBalanceMultiplier : U64 := 2

structure LeaderboardConfig where
  enabled : Bool := true
  pollIntervalSecs : Nat := 15
  rpcUrl : String := "https://ethereum-sepolia-rpc.publicnode.com"
  maxPoolSize : Nat := 500
  walletAddress : Option String := none

structure Config where
  server : ServerConfig
  identity : IdentityConfig := {}
  auth : AuthConfig := {}
  storage : StorageConfig := {}
  epoch : EpochConfig := {}
  anchorLegacy : AnchorConfig := {}
  anchors : AnchorsConfig := {}
  bondingCurve : BondingCurveConfig := {}
  leaderboard : LeaderboardConfig := {}

/-- `throttle`: no spacing at zero. -/
def QtsaAnchorConfig.throttle (cfg : QtsaAnchorConfig) : Option Nat :=
  if cfg.minRequestIntervalSecs = 0 then none else some cfg.minRequestIntervalSecs

/-- `watched_address`. -/
def LeaderboardConfig.watchedAddress (cfg : LeaderboardConfig) (serviceAddress : String) :
    String :=
  cfg.walletAddress.getD serviceAddress

/-! ## The chain -/

def customPrefix : List Char :=
  ['c', 'u', 's', 't', 'o', 'm', ':']

/-- `evm_chain`. -/
def EvmAnchorConfig.evmChain (cfg : EvmAnchorConfig) : Except String EvmChain :=
  if cfg.chain = "mainnet" then .ok .mainnet
  else if cfg.chain = "sepolia" then .ok .sepolia
  else if cfg.chain = "holesky" then .ok .holesky
  else if customPrefix.isPrefixOf cfg.chain.toList then
    match parseU64 (cfg.chain.toList.drop customPrefix.length) with
    | .ok chainId => .ok (.custom chainId)
    | .error e => .error ("invalid anchors.evm.chain=" ++ cfg.chain.quote ++ ": " ++ e)
  else
    .error ("unknown anchors.evm.chain=" ++ cfg.chain.quote ++
      ": expected mainnet | sepolia | holesky | custom:<chain_id>")

/-- `leaderboard_chain_id`: a text that names no chain counts as Sepolia. -/
def Config.leaderboardChainId (cfg : Config) : Nat :=
  let chain := cfg.anchors.evm.chain
  if chain = "mainnet" then 1
  else if chain = "sepolia" then 11155111
  else if chain = "holesky" then 17000
  else if customPrefix.isPrefixOf chain.toList then
    match parseU64 (chain.toList.drop customPrefix.length) with
    | .ok chainId => chainId
    | .error _ => 11155111
  else 11155111

/-! ## The checks -/

/-- What is wrong with a configuration. -/
inductive ConfigError where
  | invalidChain (e : String)
  | zeroTimeout
  | unreadNetwork (chain claim : String) (chainId : Nat)
  | foreignLabel (setting label chain : String) (chainId : Nat) (claim : String)
  | emptyMnemonic
  | emptyRpcUrl
  | emptyTsaUrl
  deriving DecidableEq

/-- The message the operator sees. -/
def ConfigError.display : ConfigError → String
  | .invalidChain e =>
      "anchors.evm is enabled but anchors.evm.chain is invalid: " ++ e
  | .zeroTimeout =>
      "anchors.evm.not_found_timeout_secs = 0 would abandon every anchor the node " ++
      "has not seen yet in the tick it was sent and re-anchor it: set it above " ++
      "propagation and finality time (default 3600)"
  | .unreadNetwork chain claim chainId =>
      "anchors.evm.chain = " ++ chain.quote ++ " gives the payload network " ++
      claim.quote ++ ", which the SDK does not read back as chain id " ++
      toString chainId ++ "; no EVM witness could pass the self-check while every " ++
      "epoch spends a transaction: use a chain id from 1 to 2^53-1"
  | .foreignLabel setting label chain chainId claim =>
      setting ++ " = " ++ label.quote ++ " does not name the chain of " ++
      "anchors.evm.chain = " ++ chain.quote ++ " (chain id " ++ toString chainId ++
      ", payload network " ++ claim.quote ++ "); the chain comes from " ++
      "anchors.evm.chain alone: remove " ++ setting ++ " or set it to " ++ claim.quote
  | .emptyMnemonic =>
      "anchors.evm is enabled but the service mnemonic is empty: set the mnemonic " ++
      "or set [anchors.evm].enabled = false"
  | .emptyRpcUrl =>
      "anchors.evm is enabled but anchors.evm.rpc_url is empty: set an RPC URL " ++
      "or set [anchors.evm].enabled = false"
  | .emptyTsaUrl =>
      "anchors.qtsa is enabled but anchors.qtsa.url is empty: set a TSA URL " ++
      "or set [anchors.qtsa].enabled = false"

/-- `trim().is_empty()`. -/
def isBlank (text : String) : Bool :=
  text.toList.all isWhitespace

/-- The deprecated labels, under the names of their settings. -/
def Config.chainLabels (cfg : Config) : List (String × Option String) :=
  [("anchors.evm.network_label", cfg.anchors.evm.networkLabel),
    ("anchor.evm_network", cfg.anchorLegacy.evmNetwork)]

/-- The loop over the labels: each one that is set names the chain. -/
def checkLabels (names : EvmNames) (chainText : String) (chain : EvmChain) :
    List (String × Option String) → Except ConfigError Unit
  | [] => .ok ()
  | (_, none) :: rest => checkLabels names chainText chain rest
  | (setting, some label) :: rest =>
      if names.evmChainIdForNetwork label ≠ some (names.chainId chain) then
        .error (.foreignLabel setting label chainText (names.chainId chain)
          (names.networkClaim chain))
      else checkLabels names chainText chain rest

/-- `check_evm_chain_source`. -/
def Config.checkEvmChainSource (cfg : Config) (names : EvmNames) :
    Except ConfigError Unit :=
  let evm := cfg.anchors.evm
  if !evm.enabled then .ok ()
  else
    match evm.evmChain with
    | .error e => .error (.invalidChain e)
    | .ok chain =>
        if evm.notFoundTimeoutSecs = 0 then .error .zeroTimeout
        else
          let claim := names.networkClaim chain
          if names.evmChainIdForNetwork claim ≠ some (names.chainId chain) then
            .error (.unreadNetwork evm.chain claim (names.chainId chain))
          else checkLabels names evm.chain chain cfg.chainLabels

/-- The part of `check_enabled_anchors` about the EVM method. -/
def Config.checkEnabledEvm (cfg : Config) (mnemonic : String) : Except ConfigError Unit :=
  let evm := cfg.anchors.evm
  if !evm.enabled then .ok ()
  else if isBlank mnemonic then .error .emptyMnemonic
  else if isBlank evm.rpcUrl then .error .emptyRpcUrl
  else
    match evm.evmChain with
    | .error e => .error (.invalidChain e)
    | .ok _ => .ok ()

/-- `check_enabled_anchors`. -/
def Config.checkEnabledAnchors (cfg : Config) (mnemonic : String) :
    Except ConfigError Unit :=
  match cfg.checkEnabledEvm mnemonic with
  | .error e => .error e
  | .ok () =>
      if cfg.anchors.qtsa.enabled ∧ isBlank cfg.anchors.qtsa.url then .error .emptyTsaUrl
      else .ok ()

/-! ## What passes -/

section Checks

variable {cfg : Config} {names : EvmNames}

/-- The label, if it is set, names the chain. -/
def LabelNames (names : EvmNames) (chain : EvmChain) (label : Option String) : Prop :=
  ∀ text ∈ label, names.evmChainIdForNetwork text = some (names.chainId chain)

theorem checkLabels_eq_ok_iff {chainText : String} {chain : EvmChain}
    {labels : List (String × Option String)} :
    checkLabels names chainText chain labels = .ok () ↔
      ∀ x ∈ labels, LabelNames names chain x.2 := by
  induction labels with
  | nil => simp [checkLabels]
  | cons x labels ih =>
      obtain ⟨setting, label⟩ := x
      cases label with
      | none => simp [checkLabels, ih, LabelNames]
      | some label =>
          by_cases hname : names.evmChainIdForNetwork label = some (names.chainId chain)
          · simp [checkLabels, ih, LabelNames, hname]
          · simp [checkLabels, LabelNames, hname]

/-- What the check of the chain demands of an enabled EVM method. -/
structure OneChain (cfg : Config) (names : EvmNames) (chain : EvmChain) : Prop where
  named : cfg.anchors.evm.evmChain = .ok chain
  timeout : 0 < cfg.anchors.evm.notFoundTimeoutSecs
  readBack : names.evmChainIdForNetwork (names.networkClaim chain) =
    some (names.chainId chain)
  labels : ∀ x ∈ cfg.chainLabels, LabelNames names chain x.2

theorem OneChain.unique {chain chain' : EvmChain} (h : OneChain cfg names chain)
    (hchain : cfg.anchors.evm.evmChain = .ok chain') : chain' = chain := by
  have hsame := h.named
  rw [hchain] at hsame
  exact Except.ok.inj hsame

theorem checkEvmChainSource_eq_ok_iff :
    cfg.checkEvmChainSource names = .ok () ↔
      (cfg.anchors.evm.enabled = true → ∃ chain, OneChain cfg names chain) := by
  by_cases henabled : cfg.anchors.evm.enabled = true
  · rw [forall_prop_of_true henabled]
    cases hchain : cfg.anchors.evm.evmChain with
    | error e =>
        simp only [Config.checkEvmChainSource, henabled, hchain, Bool.not_true,
          Bool.false_eq_true, if_false, reduceCtorEq, false_iff]
        rintro ⟨chain, hone⟩
        simpa [hchain] using hone.named
    | ok chain =>
        have hiff : (∃ chain, OneChain cfg names chain) ↔ OneChain cfg names chain := by
          constructor
          · rintro ⟨chain', hone⟩
            rwa [hone.unique hchain]
          · exact fun hone => ⟨chain, hone⟩
        simp only [Config.checkEvmChainSource, henabled, hchain, Bool.not_true,
          Bool.false_eq_true, if_false, hiff]
        by_cases hzero : cfg.anchors.evm.notFoundTimeoutSecs = 0
        · rw [if_pos hzero]
          refine iff_of_false (by simp) fun hone => ?_
          exact absurd hzero (Nat.pos_iff_ne_zero.mp hone.timeout)
        · rw [if_neg hzero]
          by_cases hread : names.evmChainIdForNetwork (names.networkClaim chain) =
              some (names.chainId chain)
          · rw [if_neg (not_not.mpr hread), checkLabels_eq_ok_iff]
            exact ⟨fun hlabels => ⟨hchain, Nat.pos_of_ne_zero hzero, hread, hlabels⟩,
              fun hone => hone.labels⟩
          · rw [if_pos hread]
            exact iff_of_false (by simp) fun hone => hread hone.readBack
  · simp [Config.checkEvmChainSource, henabled]

/-- An enabled method has its provider's settings. -/
structure Configured (cfg : Config) (mnemonic : String) : Prop where
  mnemonic : cfg.anchors.evm.enabled = true → isBlank mnemonic = false
  rpcUrl : cfg.anchors.evm.enabled = true → isBlank cfg.anchors.evm.rpcUrl = false
  chain : cfg.anchors.evm.enabled = true → ∃ chain, cfg.anchors.evm.evmChain = .ok chain
  url : cfg.anchors.qtsa.enabled = true → isBlank cfg.anchors.qtsa.url = false

theorem checkEnabledEvm_eq_ok_iff {mnemonic : String} :
    cfg.checkEnabledEvm mnemonic = .ok () ↔
      (cfg.anchors.evm.enabled = true → isBlank mnemonic = false ∧
        isBlank cfg.anchors.evm.rpcUrl = false ∧
          ∃ chain, cfg.anchors.evm.evmChain = .ok chain) := by
  by_cases henabled : cfg.anchors.evm.enabled = true
  · by_cases hmnemonic : isBlank mnemonic = true
    · simp [Config.checkEnabledEvm, henabled, hmnemonic]
    · by_cases hrpc : isBlank cfg.anchors.evm.rpcUrl = true
      · simp [Config.checkEnabledEvm, henabled, hmnemonic, hrpc]
      · cases hchain : cfg.anchors.evm.evmChain with
        | error e => simp [Config.checkEnabledEvm, henabled, hmnemonic, hrpc, hchain]
        | ok chain => simp [Config.checkEnabledEvm, henabled, hmnemonic, hrpc, hchain]
  · simp [Config.checkEnabledEvm, henabled]

theorem checkEnabledAnchors_eq_ok_iff {mnemonic : String} :
    cfg.checkEnabledAnchors mnemonic = .ok () ↔ Configured cfg mnemonic := by
  have hevm : cfg.checkEnabledEvm mnemonic = .ok () ↔ _ := checkEnabledEvm_eq_ok_iff
  unfold Config.checkEnabledAnchors
  constructor
  · intro h
    split at h
    · cases h
    · rename_i hok
      split at h
      · cases h
      · rename_i hurl
        have hsettings := hevm.mp hok
        refine ⟨fun he => (hsettings he).1, fun he => (hsettings he).2.1,
          fun he => (hsettings he).2.2, fun hq => ?_⟩
        by_contra hblank
        exact hurl ⟨hq, Bool.not_eq_false _ ▸ hblank⟩
  · intro h
    have hok := hevm.mpr fun he => ⟨h.mnemonic he, h.rpcUrl he, h.chain he⟩
    simp only [hok]
    apply if_neg
    rintro ⟨hq, hblank⟩
    rw [h.url hq] at hblank
    cases hblank

/-- With a chain that parses, the leaderboard watches the chain the anchors go to. -/
theorem leaderboardChainId_eq {chain : EvmChain} (hids : names.Lawful)
    (h : cfg.anchors.evm.evmChain = .ok chain) :
    cfg.leaderboardChainId = names.chainId chain := by
  unfold Config.leaderboardChainId
  dsimp only
  by_cases hmainnet : cfg.anchors.evm.chain = "mainnet"
  · rw [if_pos hmainnet, ← hids.mainnet]
    rw [EvmAnchorConfig.evmChain, if_pos hmainnet] at h
    rw [Except.ok.inj h]
  rw [if_neg hmainnet]
  by_cases hsepolia : cfg.anchors.evm.chain = "sepolia"
  · rw [if_pos hsepolia, ← hids.sepolia]
    rw [EvmAnchorConfig.evmChain, if_neg hmainnet, if_pos hsepolia] at h
    rw [Except.ok.inj h]
  rw [if_neg hsepolia]
  by_cases hholesky : cfg.anchors.evm.chain = "holesky"
  · rw [if_pos hholesky, ← hids.holesky]
    rw [EvmAnchorConfig.evmChain, if_neg hmainnet, if_neg hsepolia, if_pos hholesky] at h
    rw [Except.ok.inj h]
  rw [if_neg hholesky]
  rw [EvmAnchorConfig.evmChain, if_neg hmainnet, if_neg hsepolia, if_neg hholesky] at h
  by_cases hcustom : customPrefix.isPrefixOf cfg.anchors.evm.chain.toList = true
  · rw [if_pos hcustom]
    rw [if_pos hcustom] at h
    cases hparse : parseU64 (cfg.anchors.evm.chain.toList.drop customPrefix.length) with
    | error e => simp [hparse] at h
    | ok chainId =>
        rw [hparse] at h
        rw [← Except.ok.inj h, hids.custom]
  · rw [if_neg hcustom] at h
    cases h

/-- The defaults pass their own checks, given a mnemonic and an SDK that reads
Sepolia's claim back. -/
theorem checks_default {server : ServerConfig} {mnemonic : String}
    (hmnemonic : isBlank mnemonic = false)
    (hread : names.evmChainIdForNetwork (names.networkClaim .sepolia) =
      some (names.chainId .sepolia)) :
    ({ server := server } : Config).checkEnabledAnchors mnemonic = .ok () ∧
      ({ server := server } : Config).checkEvmChainSource names = .ok () := by
  have hchain : ({} : EvmAnchorConfig).evmChain = .ok .sepolia := by
    decide
  have hrpc : isBlank ({} : EvmAnchorConfig).rpcUrl = false := by
    decide
  have hurl : isBlank ({} : QtsaAnchorConfig).url = false := by
    decide
  have htimeout : 0 < ({} : EvmAnchorConfig).notFoundTimeoutSecs := by
    decide
  constructor
  · exact checkEnabledAnchors_eq_ok_iff.mpr
      ⟨fun _ => hmnemonic, fun _ => hrpc, fun _ => ⟨_, hchain⟩, fun _ => hurl⟩
  · refine checkEvmChainSource_eq_ok_iff.mpr fun _ =>
      ⟨.sepolia, hchain, htimeout, hread, ?_⟩
    intro x hx
    simp only [Config.chainLabels, List.mem_cons, List.not_mem_nil, or_false] at hx
    obtain rfl | rfl := hx
    · simp [LabelNames]
    · simp [LabelNames]

end Checks

end AquaTimestamp
