import AquaTimestamp.Model.Server
import AquaTimestamp.Support.Overflow

/-!
# The bonding-curve sealer

`run_sealer_with_bonding_curve` counts its polls in virtual blocks.  At each poll
it asks an oracle for the wallet's balance and the gas cost of one transaction,
keeps a safety margin, and calls `seal_once` when the interval the curve gives
has passed since the last seal.

The curve is computed in floating point; the interval it yields is a parameter.
-/

namespace AquaTimestamp

open Support

/-- `u128::MAX`, at its width. -/
def largestU128 : U128 :=
  ⟨u128Max, by decide⟩

/-- `u64 as u128`. -/
def widen (n : U64) : U128 :=
  ⟨n.val, Nat.lt_trans n.isLt (by decide)⟩

/-! ## The oracle -/

/-- `OracleError`. -/
inductive OracleError where
  | rpc (message : String)
  | zeroBalance
  deriving DecidableEq

/-- `TIMESTAMP_GAS_UNITS`: the gas of one `witness(bytes32)` call. -/
def timestampGasUnits : U128 :=
  ⟨50000, by decide⟩

/-- What a query of `AlloyOracle` meets: whether its URL parses, and what the node
answers.  A failure comes with its text. -/
structure NodeAnswers where
  rpcUrl : String
  parsed : Except String Unit
  balance : Except String U256
  gasPrice : Except String U128

/-- `u128::try_from`, or the largest value. -/
def saturateU128 (balance : U256) : U128 :=
  if h : balance.val < 2 ^ 128 then ⟨balance.val, h⟩ else largestU128

/-- `AlloyOracle::balance_and_gas_cost`.  The product is computed before the
balance is looked at; `none` is a panic. -/
def NodeAnswers.balanceAndGasCost (checks : OverflowChecks) (node : NodeAnswers) :
    Option (Except OracleError (U128 × U128)) :=
  match node.parsed with
  | .error e => some (.error (.rpc ("invalid RPC URL " ++ node.rpcUrl.quote ++ ": " ++ e)))
  | .ok () =>
      match node.balance with
      | .error e => some (.error (.rpc ("get_balance failed: " ++ e)))
      | .ok balance =>
          match node.gasPrice with
          | .error e => some (.error (.rpc ("get_gas_price failed: " ++ e)))
          | .ok gasPrice =>
              (checks.mul timestampGasUnits gasPrice).map fun gasCost =>
                if (saturateU128 balance).val = 0 then .error .zeroBalance
                else .ok (saturateU128 balance, gasCost)

/-- One answer of a `BalanceOracle`: of `AlloyOracle`, or of any other
implementation. -/
inductive OracleAnswer where
  | alloy (node : NodeAnswers)
  | other (answer : Except OracleError (U128 × U128))

/-- `BalanceOracle::balance_and_gas_cost`. -/
def OracleAnswer.balanceAndGasCost (checks : OverflowChecks) :
    OracleAnswer → Option (Except OracleError (U128 × U128))
  | .alloy node => node.balanceAndGasCost checks
  | .other answer => some answer

/-! ## The loop -/

/-- `BondingCurveParams`. -/
structure BondingCurveParams where
  nHalf : U64
  pollIntervalSecs : U64
  minBalanceMultiplier : U64

/-- `block_interval (publication_rate balance gas_cost n_half)`. -/
abbrev BlockInterval := U128 → U128 → U64 → U64

/-- The variables of the loop. -/
structure BondingLoop where
  lastSealBlock : U64
  virtualBlock : U64

/-- How a poll ends. -/
inductive PollOutcome where
  | oracleFailed (e : OracleError)
  | zeroGasCost
  | belowMargin
  | intervalOpen
  | seals
  deriving DecidableEq

namespace BondingLoop

/-- The loop is entered. -/
def start : BondingLoop :=
  ⟨⟨0, by decide⟩, ⟨0, by decide⟩⟩

/-- A poll after the oracle has answered.  The loop notes a seal whether or not it
succeeds. -/
def judge (checks : OverflowChecks) (params : BondingCurveParams)
    (interval : BlockInterval) (s : BondingLoop) :
    Except OracleError (U128 × U128) → Option (BondingLoop × PollOutcome)
  | .error e => some (s, .oracleFailed e)
  | .ok (balance, gasCost) =>
      if gasCost.val = 0 then some (s, .zeroGasCost)
      else
        (checks.mul gasCost (widen params.minBalanceMultiplier)).bind fun minBalance =>
          if balance < minBalance then some (s, .belowMargin)
          else
            (checks.sub s.virtualBlock s.lastSealBlock).map fun elapsed =>
              if interval balance gasCost params.nHalf ≤ elapsed then
                ({ s with lastSealBlock := s.virtualBlock }, .seals)
              else (s, .intervalOpen)

/-- One round of the loop; `none` is a panic, which ends the task. -/
def poll (checks : OverflowChecks) (params : BondingCurveParams)
    (interval : BlockInterval) (s : BondingLoop) (oracle : OracleAnswer) :
    Option (BondingLoop × PollOutcome) :=
  (checks.add s.virtualBlock ⟨1, by decide⟩).bind fun virtualBlock =>
    (oracle.balanceAndGasCost checks).bind fun answer =>
      judge checks params interval { s with virtualBlock := virtualBlock } answer

end BondingLoop

/-! ## The sealer's task -/

/-- A poll: where the loop stood, what the oracle said and how it ended. -/
structure PollRecord where
  loop : BondingLoop
  oracle : OracleAnswer
  outcome : Option PollOutcome

variable {sdk : Sdk}

/-- The sealer's task beside the server; its polls, newest first. -/
structure BondingSealer (sdk : Sdk) where
  world : World sdk
  task : Option BondingLoop
  polls : List PollRecord

namespace BondingSealer

/-- The task is spawned. -/
def spawn (w : World sdk) : BondingSealer sdk :=
  ⟨w, some .start, []⟩

/-- One step: a submission arrives, or the loop polls.  Its seal is a cycle of the
server; the task is gone when the cycle does not return, and when a poll panics. -/
inductive Step (checks : OverflowChecks) (params : BondingCurveParams)
    (interval : BlockInterval) (ctx : Option WitnessContext) :
    BondingSealer sdk → BondingSealer sdk → Prop where
  | append {s : BondingSealer sdk} (batch : List Hash32) (did : String) :
      Step checks params interval ctx s { s with world := s.world.append batch did }
  | skip {s : BondingSealer sdk} {loop loop' : BondingLoop} {oracle : OracleAnswer}
      {outcome : PollOutcome} :
      s.task = some loop →
      loop.poll checks params interval oracle = some (loop', outcome) →
      outcome ≠ .seals →
      Step checks params interval ctx s
        ⟨s.world, some loop', ⟨loop, oracle, some outcome⟩ :: s.polls⟩
  | sealed {s : BondingSealer sdk} {loop loop' : BondingLoop} {oracle : OracleAnswer}
      {now : Nat} {w' : World sdk}
      {result : Except SealError (EpochRecord × List (MintedWitness sdk))} :
      s.task = some loop →
      loop.poll checks params interval oracle = some (loop', .seals) →
      SealCycle s.world ctx now params.pollIntervalSecs w' (some result) →
      Step checks params interval ctx s
        ⟨w', some loop', ⟨loop, oracle, some .seals⟩ :: s.polls⟩
  | sealStops {s : BondingSealer sdk} {loop loop' : BondingLoop} {oracle : OracleAnswer}
      {now : Nat} {w' : World sdk} :
      s.task = some loop →
      loop.poll checks params interval oracle = some (loop', .seals) →
      SealCycle s.world ctx now params.pollIntervalSecs w' none →
      Step checks params interval ctx s
        ⟨w', none, ⟨loop, oracle, some .seals⟩ :: s.polls⟩
  | panic {s : BondingSealer sdk} {loop : BondingLoop} {oracle : OracleAnswer} :
      s.task = some loop →
      loop.poll checks params interval oracle = none →
      Step checks params interval ctx s
        ⟨s.world, none, ⟨loop, oracle, none⟩ :: s.polls⟩

/-- A run of the task. -/
def Steps (checks : OverflowChecks) (params : BondingCurveParams)
    (interval : BlockInterval) (ctx : Option WitnessContext) :
    BondingSealer sdk → BondingSealer sdk → Prop :=
  Relation.ReflTransGen (Step checks params interval ctx)

end BondingSealer

/-- The polls up to the last seal, or up to the start. -/
def sinceSeal (polls : List PollRecord) : Nat :=
  (polls.takeWhile fun p => p.outcome != some .seals).length

end AquaTimestamp
