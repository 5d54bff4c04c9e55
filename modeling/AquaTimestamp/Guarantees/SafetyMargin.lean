import AquaTimestamp.Model.BondingCurve
import AquaTimestamp.Model.Sample

/-!
# The safety margin of the bonding-curve sealer

A poll does what its arithmetic says as long as both gas products fit `u128` and
the polls so far fit `u64`.  Then a seal is paid for with the margin, and comes
after the interval; else a build without overflow checks compares the balance with
a residue of the product, and a build with them ends the task.
-/

namespace AquaTimestamp

open Support OverflowChecks

variable {checks : OverflowChecks} {params : BondingCurveParams} {interval : BlockInterval}

/-! ## The oracle -/

/-- The balance and the gas price of a query that the node answered. -/
def NodeAnswers.answered (node : NodeAnswers) : Option (U256 × U128) :=
  match node.parsed, node.balance, node.gasPrice with
  | .ok (), .ok balance, .ok gasPrice => some (balance, gasPrice)
  | _, _, _ => none

/-- The gas products of a poll fit `u128`: the cost of one transaction, unless the
query failed, and the margin, unless the wallet is empty. -/
def OracleAnswer.Fits (multiplier : U64) : OracleAnswer → Prop
  | .alloy node => ∀ balance gasPrice, node.answered = some (balance, gasPrice) →
      50000 * gasPrice.val < 2 ^ 128 ∧
        (balance.val ≠ 0 → 50000 * gasPrice.val * multiplier.val < 2 ^ 128)
  | .other answer => ∀ balance gasCost, answer = .ok (balance, gasCost) →
      gasCost.val * multiplier.val < 2 ^ 128

theorem saturateU128_eq_zero {balance : U256} :
    (saturateU128 balance).val = 0 ↔ balance.val = 0 := by
  unfold saturateU128
  split
  · exact Iff.rfl
  · rename_i hlarge
    constructor
    · intro h
      exact absurd h (by decide)
    · intro h
      exact absurd (h ▸ Nat.two_pow_pos 128) hlarge

/-- A query that is not answered in full fails, with no arithmetic done. -/
theorem balanceAndGasCost_of_unanswered {node : NodeAnswers} (h : node.answered = none) :
    ∃ e, ∀ checks, node.balanceAndGasCost checks = some (.error e) := by
  obtain ⟨rpcUrl, parsed, balance, gasPrice⟩ := node
  cases parsed with
  | error e => exact ⟨_, fun _ => rfl⟩
  | ok u =>
      cases balance with
      | error e => exact ⟨_, fun _ => rfl⟩
      | ok balance =>
          cases gasPrice with
          | error e => exact ⟨_, fun _ => rfl⟩
          | ok gasPrice => cases h

/-- A query that is answered multiplies the price. -/
theorem balanceAndGasCost_of_answered {node : NodeAnswers} {balance : U256}
    {gasPrice : U128} (h : node.answered = some (balance, gasPrice)) :
    node.balanceAndGasCost checks =
      (checks.mul timestampGasUnits gasPrice).map fun gasCost =>
        if (saturateU128 balance).val = 0 then .error .zeroBalance
        else .ok (saturateU128 balance, gasCost) := by
  obtain ⟨rpcUrl, parsed, balance', gasPrice'⟩ := node
  unfold NodeAnswers.answered at h
  split at h
  · rename_i hparsed hbalance hprice
    cases h
    simp only at hparsed hbalance hprice
    subst hparsed hbalance hprice
    rfl
  · cases h

/-- An answer whose products fit is the same in every build, and the margin it asks
for fits. -/
theorem OracleAnswer.Fits.reading {multiplier : U64} {oracle : OracleAnswer}
    (h : oracle.Fits multiplier) :
    ∃ answer, (∀ checks, oracle.balanceAndGasCost checks = some answer) ∧
      ∀ balance gasCost, answer = .ok (balance, gasCost) →
        gasCost.val * multiplier.val < 2 ^ 128 := by
  cases oracle with
  | other answer => exact ⟨answer, fun _ => rfl, h⟩
  | alloy node =>
      cases hanswered : node.answered with
      | none =>
          obtain ⟨e, he⟩ := balanceAndGasCost_of_unanswered hanswered
          exact ⟨.error e, he, nofun⟩
      | some pair =>
          obtain ⟨balance, gasPrice⟩ := pair
          obtain ⟨hcost, hmargin⟩ := h balance gasPrice hanswered
          have hmul : ∀ checks : OverflowChecks, checks.mul timestampGasUnits gasPrice =
              some ⟨50000 * gasPrice.val, hcost⟩ := fun _ => settle_of_lt hcost
          have hread : ∀ checks, node.balanceAndGasCost checks =
              some (if (saturateU128 balance).val = 0 then .error .zeroBalance
                else .ok (saturateU128 balance, ⟨50000 * gasPrice.val, hcost⟩)) := by
            intro checks
            rw [balanceAndGasCost_of_answered hanswered, hmul]
            rfl
          refine ⟨_, hread, fun b g hok => ?_⟩
          split at hok
          · cases hok
          · rename_i hnonzero
            cases hok
            exact hmargin fun hzero => hnonzero (saturateU128_eq_zero.mpr hzero)

/-- With checks on, an answer that the loop gets and can multiply has products that
fit. -/
theorem OracleAnswer.fits_of_enabled {multiplier : U64} {oracle : OracleAnswer}
    {answer : Except OracleError (U128 × U128)}
    (hanswer : oracle.balanceAndGasCost .enabled = some answer)
    (hmargin : ∀ balance gasCost, answer = .ok (balance, gasCost) →
      gasCost.val * multiplier.val < 2 ^ 128) : oracle.Fits multiplier := by
  cases oracle with
  | other answer' =>
      cases hanswer
      exact hmargin
  | alloy node =>
      intro balance gasPrice hanswered
      have hread : node.balanceAndGasCost .enabled = some answer := hanswer
      rw [balanceAndGasCost_of_answered hanswered] at hread
      have hcost : 50000 * gasPrice.val < 2 ^ 128 := by
        by_contra hlarge
        have hpanics : enabled.mul timestampGasUnits gasPrice = none := dif_neg hlarge
        rw [hpanics] at hread
        cases hread
      have hmul : enabled.mul timestampGasUnits gasPrice =
          some ⟨50000 * gasPrice.val, hcost⟩ := settle_of_lt hcost
      rw [hmul, Option.map_some] at hread
      have hrest := Option.some.inj hread
      refine ⟨hcost, fun hnonzero => ?_⟩
      rw [if_neg (saturateU128_eq_zero.not.mpr hnonzero)] at hrest
      exact hmargin _ _ hrest.symm

/-! ## One poll -/

namespace BondingLoop

variable {s s' : BondingLoop} {oracle : OracleAnswer} {outcome : PollOutcome}

/-- What a seal is made on: the margin, and the interval since the last one. -/
def PaidFor (checks : OverflowChecks) (params : BondingCurveParams)
    (interval : BlockInterval) (oracle : OracleAnswer) (polls : Nat) : Prop :=
  ∃ balance gasCost, oracle.balanceAndGasCost checks = some (.ok (balance, gasCost)) ∧
    gasCost.val * params.minBalanceMultiplier.val ≤ balance.val ∧
    (interval balance gasCost params.nHalf).val ≤ polls

/-- What a poll does in exact arithmetic. -/
structure Polled (checks : OverflowChecks) (params : BondingCurveParams)
    (interval : BlockInterval) (s : BondingLoop) (oracle : OracleAnswer)
    (s' : BondingLoop) (outcome : PollOutcome) : Prop where
  counts : s'.virtualBlock.val = s.virtualBlock.val + 1
  waits : outcome ≠ .seals → s'.lastSealBlock = s.lastSealBlock
  notes : outcome = .seals → s'.lastSealBlock = s'.virtualBlock
  paid : outcome = .seals → PaidFor checks params interval oracle
    (s.virtualBlock.val + 1 - s.lastSealBlock.val)

/-- After an answer whose margin fits, the loop compares exact values. -/
theorem judge_of_fits (checks : OverflowChecks) (interval : BlockInterval)
    {answer : Except OracleError (U128 × U128)}
    (hle : s.lastSealBlock ≤ s.virtualBlock)
    (hfits : ∀ balance gasCost, answer = .ok (balance, gasCost) →
      gasCost.val * params.minBalanceMultiplier.val < 2 ^ 128) :
    ∃ s' outcome, s.judge checks params interval answer = some (s', outcome) ∧
      s'.virtualBlock = s.virtualBlock ∧
      (outcome ≠ .seals → s'.lastSealBlock = s.lastSealBlock) ∧
      (outcome = .seals → s'.lastSealBlock = s.virtualBlock ∧
        ∃ balance gasCost, answer = .ok (balance, gasCost) ∧
          gasCost.val * params.minBalanceMultiplier.val ≤ balance.val ∧
          (interval balance gasCost params.nHalf).val ≤
            s.virtualBlock.val - s.lastSealBlock.val) := by
  cases answer with
  | error e => exact ⟨s, .oracleFailed e, rfl, rfl, fun _ => rfl, nofun⟩
  | ok pair =>
      obtain ⟨balance, gasCost⟩ := pair
      have hmul : checks.mul gasCost (widen params.minBalanceMultiplier) =
          some ⟨_, hfits balance gasCost rfl⟩ := settle_of_lt _
      simp only [judge, hmul, sub_of_le hle, Option.bind_some, Option.map_some]
      split
      · exact ⟨s, .zeroGasCost, rfl, rfl, fun _ => rfl, nofun⟩
      · split
        · exact ⟨s, .belowMargin, rfl, rfl, fun _ => rfl, nofun⟩
        · rename_i hmargin
          split
          · rename_i helapsed
            refine ⟨_, .seals, rfl, rfl, fun hne => absurd rfl hne, fun _ => ⟨rfl, ?_⟩⟩
            exact ⟨balance, gasCost, rfl, Nat.le_of_not_lt hmargin, helapsed⟩
          · exact ⟨s, .intervalOpen, rfl, rfl, fun _ => rfl, nofun⟩

/-- A poll with products that fit does not panic, and is exact. -/
theorem poll_of_fits (checks : OverflowChecks) (interval : BlockInterval)
    (hle : s.lastSealBlock ≤ s.virtualBlock) (hcount : s.virtualBlock.val + 1 < 2 ^ 64)
    (hfits : oracle.Fits params.minBalanceMultiplier) :
    ∃ s' outcome, s.poll checks params interval oracle = some (s', outcome) ∧
      Polled checks params interval s oracle s' outcome := by
  obtain ⟨answer, hread, hmargin⟩ := hfits.reading
  have hadd : checks.add s.virtualBlock ⟨1, by decide⟩ =
      some ⟨s.virtualBlock.val + 1, hcount⟩ := settle_of_lt hcount
  have hle' : s.lastSealBlock ≤ ⟨s.virtualBlock.val + 1, hcount⟩ :=
    Nat.le_succ_of_le hle
  obtain ⟨s', outcome, hjudge, hcounts, hwaits, hseals⟩ :=
    judge_of_fits checks interval
      (s := { s with virtualBlock := ⟨s.virtualBlock.val + 1, hcount⟩ }) hle' hmargin
  refine ⟨s', outcome, ?_, ?_⟩
  · rw [poll, hadd, Option.bind_some, hread checks, Option.bind_some, hjudge]
  · refine ⟨congrArg Fin.val hcounts, hwaits, fun h => ?_, fun h => ?_⟩
    · rw [(hseals h).1, hcounts]
    · obtain ⟨-, balance, gasCost, hanswer, hpaid, helapsed⟩ := hseals h
      exact ⟨balance, gasCost, hanswer ▸ hread checks, hpaid, helapsed⟩

/-- A build with checks on goes on exactly when the poll's results fit. -/
theorem poll_enabled_ne_none (hle : s.lastSealBlock ≤ s.virtualBlock) :
    s.poll .enabled params interval oracle ≠ none ↔
      s.virtualBlock.val + 1 < 2 ^ 64 ∧ oracle.Fits params.minBalanceMultiplier := by
  constructor
  · intro hne
    obtain ⟨result, hresult⟩ := Option.ne_none_iff_exists'.mp hne
    obtain ⟨virtualBlock, hadd, hrest⟩ := Option.bind_eq_some_iff.mp hresult
    obtain ⟨answer, hanswer, hjudge⟩ := Option.bind_eq_some_iff.mp hrest
    refine ⟨?_, OracleAnswer.fits_of_enabled hanswer ?_⟩
    · exact settle_enabled_ne_none.mp (Option.ne_none_iff_exists'.mpr ⟨_, hadd⟩)
    · rintro balance gasCost rfl
      by_cases hzero : gasCost.val = 0
      · rw [hzero, Nat.zero_mul]
        exact Nat.two_pow_pos 128
      · simp only [judge, if_neg hzero] at hjudge
        obtain ⟨minBalance, hmul, -⟩ := Option.bind_eq_some_iff.mp hjudge
        exact settle_enabled_ne_none.mp (Option.ne_none_iff_exists'.mpr ⟨_, hmul⟩)
  · rintro ⟨hcount, hfits⟩
    obtain ⟨s', outcome, hpoll, -⟩ := poll_of_fits .enabled interval hle hcount hfits
    rw [hpoll]
    exact Option.some_ne_none _

end BondingLoop

/-! ## Runs -/

/-- No poll so far had products that do not fit, and their number fits `u64`. -/
def PollsFit (multiplier : U64) (polls : List PollRecord) : Prop :=
  ∀ p earlier, p :: earlier <:+ polls →
    earlier.length + 1 < 2 ^ 64 ∧ p.oracle.Fits multiplier

/-- The safety margin at a poll, after the earlier ones: no operation overflows, so
that a build with checks on goes on, and a seal is paid for and comes after the
interval. -/
structure PollRecord.Safe (checks : OverflowChecks) (params : BondingCurveParams)
    (interval : BlockInterval) (p : PollRecord) (earlier : List PollRecord) : Prop where
  noOverflow : p.loop.poll .enabled params interval p.oracle ≠ none
  paid : p.outcome = some .seals →
    BondingLoop.PaidFor checks params interval p.oracle (sinceSeal earlier + 1)

/-- The loop's variables after the polls so far. -/
structure BondingLoop.Counts (s : BondingLoop) (polls : List PollRecord) : Prop where
  virtualBlock : s.virtualBlock.val = polls.length
  lastSealBlock : s.lastSealBlock.val + sinceSeal polls = s.virtualBlock.val

theorem counts_start : BondingLoop.start.Counts [] :=
  ⟨rfl, rfl⟩

theorem forall_suffix_cons {α : Type} {P : α → List α → Prop} {a : α} {l : List α} :
    (∀ b k, b :: k <:+ a :: l → P b k) ↔ P a l ∧ ∀ b k, b :: k <:+ l → P b k := by
  constructor
  · intro h
    exact ⟨h a l List.suffix_rfl, fun b k hk => h b k (hk.trans (List.suffix_cons a l))⟩
  · rintro ⟨ha, hl⟩ b k hk
    rcases List.suffix_cons_iff.mp hk with heq | hsuffix
    · obtain ⟨rfl, rfl⟩ := List.cons.inj heq
      exact ha
    · exact hl b k hsuffix

theorem sinceSeal_seal (loop : BondingLoop) (oracle : OracleAnswer)
    (polls : List PollRecord) :
    sinceSeal (⟨loop, oracle, some .seals⟩ :: polls) = 0 := by
  simp [sinceSeal]

theorem sinceSeal_skip (loop : BondingLoop) (oracle : OracleAnswer)
    {outcome : PollOutcome} (h : outcome ≠ .seals) (polls : List PollRecord) :
    sinceSeal (⟨loop, oracle, some outcome⟩ :: polls) = sinceSeal polls + 1 := by
  simp [sinceSeal, h]

section Runs

variable {loop loop' : BondingLoop} {oracle : OracleAnswer} {outcome : PollOutcome}
variable {polls : List PollRecord}

/-- A poll that fits keeps the count. -/
theorem BondingLoop.Counts.poll (hcounts : loop.Counts polls)
    (hfit : PollsFit params.minBalanceMultiplier (⟨loop, oracle, some outcome⟩ :: polls))
    (hpoll : loop.poll checks params interval oracle = some (loop', outcome)) :
    loop'.Counts (⟨loop, oracle, some outcome⟩ :: polls) := by
  obtain ⟨⟨hlength, hfits⟩, -⟩ := forall_suffix_cons.mp hfit
  have hle : loop.lastSealBlock ≤ loop.virtualBlock := by
    have hlast := hcounts.lastSealBlock
    exact Fin.le_def.mpr (by omega)
  obtain ⟨s', outcome', hpoll', hpolled⟩ := BondingLoop.poll_of_fits checks interval hle
    (hcounts.virtualBlock ▸ hlength) hfits
  cases hpoll.symm.trans hpoll'
  refine ⟨?_, ?_⟩
  · rw [hpolled.counts, hcounts.virtualBlock, List.length_cons]
  · by_cases hseals : outcome = .seals
    · subst hseals
      rw [sinceSeal_seal, hpolled.notes rfl, Nat.add_zero]
    · rw [sinceSeal_skip loop oracle hseals, hpolled.waits hseals, hpolled.counts,
        ← hcounts.lastSealBlock, Nat.add_assoc]

/-- The margin holds at a poll exactly when the poll fits. -/
theorem PollRecord.safe_iff_fits {p : PollRecord} (hcounts : p.loop.Counts polls)
    (hrecorded : p.outcome = (p.loop.poll checks params interval p.oracle).map Prod.snd) :
    p.Safe checks params interval polls ↔
      polls.length + 1 < 2 ^ 64 ∧ p.oracle.Fits params.minBalanceMultiplier := by
  have hlast := hcounts.lastSealBlock
  have hle : p.loop.lastSealBlock ≤ p.loop.virtualBlock := Fin.le_def.mpr (by omega)
  rw [← hcounts.virtualBlock]
  constructor
  · intro hsafe
    exact (BondingLoop.poll_enabled_ne_none hle).mp hsafe.noOverflow
  · intro hfits
    refine ⟨(BondingLoop.poll_enabled_ne_none hle).mpr hfits, fun hseals => ?_⟩
    obtain ⟨s', outcome, hpoll, hpolled⟩ :=
      BondingLoop.poll_of_fits checks interval hle hfits.1 hfits.2
    rw [hpoll] at hrecorded
    have houtcome : outcome = .seals := Option.some.inj (hrecorded.symm.trans hseals)
    have hsince : p.loop.virtualBlock.val + 1 - p.loop.lastSealBlock.val =
        sinceSeal polls + 1 := by
      omega
    exact hsince ▸ hpolled.paid houtcome

end Runs

namespace BondingSealer

variable {sdk : Sdk} {ctx : Option WitnessContext} {s s' : BondingSealer sdk} {w : World sdk}

/-- Every poll is recorded as it went, and as long as the polls fit the counters
count them. -/
structure Recorded (checks : OverflowChecks) (params : BondingCurveParams)
    (interval : BlockInterval) (s : BondingSealer sdk) : Prop where
  outcomes : ∀ p earlier, p :: earlier <:+ s.polls →
    p.outcome = (p.loop.poll checks params interval p.oracle).map Prod.snd
  counts : ∀ p earlier, p :: earlier <:+ s.polls →
    PollsFit params.minBalanceMultiplier earlier → p.loop.Counts earlier
  task : ∀ loop, s.task = some loop → PollsFit params.minBalanceMultiplier s.polls →
    loop.Counts s.polls

theorem recorded_spawn (w : World sdk) : Recorded checks params interval (spawn w) where
  outcomes _ _ h := absurd (List.suffix_nil.mp h) (List.cons_ne_nil _ _)
  counts _ _ h := absurd (List.suffix_nil.mp h) (List.cons_ne_nil _ _)
  task loop hloop _ := by
    cases hloop
    exact counts_start

/-- A new poll is recorded by what it gave. -/
theorem Recorded.cons (h : Recorded checks params interval s) {loop : BondingLoop}
    (hloop : s.task = some loop) {p : PollRecord} (hp : p.loop = loop)
    (hpoll : p.outcome = (p.loop.poll checks params interval p.oracle).map Prod.snd)
    {w' : World sdk} {task' : Option BondingLoop}
    (htask : ∀ loop', task' = some loop' →
      PollsFit params.minBalanceMultiplier (p :: s.polls) → loop'.Counts (p :: s.polls)) :
    Recorded checks params interval ⟨w', task', p :: s.polls⟩ where
  outcomes := forall_suffix_cons.mpr ⟨hpoll, h.outcomes⟩
  counts := forall_suffix_cons.mpr ⟨fun hfit => hp ▸ h.task loop hloop hfit, h.counts⟩
  task := htask

theorem Step.recorded (hstep : Step checks params interval ctx s s')
    (h : Recorded checks params interval s) : Recorded checks params interval s' := by
  have hcounts : ∀ {loop loop' : BondingLoop} {oracle : OracleAnswer}
      {outcome : PollOutcome}, s.task = some loop →
      loop.poll checks params interval oracle = some (loop', outcome) →
      PollsFit params.minBalanceMultiplier (⟨loop, oracle, some outcome⟩ :: s.polls) →
      loop'.Counts (⟨loop, oracle, some outcome⟩ :: s.polls) := by
    intro loop loop' oracle outcome hloop hpoll hfit
    exact (h.task loop hloop (forall_suffix_cons.mp hfit).2).poll hfit hpoll
  cases hstep with
  | append batch did => exact ⟨h.outcomes, h.counts, h.task⟩
  | skip hloop hpoll _ =>
      refine h.cons hloop rfl (by rw [hpoll]; rfl) ?_
      rintro _ ⟨⟩ hfit
      exact hcounts hloop hpoll hfit
  | sealed hloop hpoll _ =>
      refine h.cons hloop rfl (by rw [hpoll]; rfl) ?_
      rintro _ ⟨⟩ hfit
      exact hcounts hloop hpoll hfit
  | sealStops hloop hpoll _ => exact h.cons hloop rfl (by rw [hpoll]; rfl) nofun
  | panic hloop hpoll => exact h.cons hloop rfl (by rw [hpoll]; rfl) nofun

theorem Steps.recorded (hsteps : Steps checks params interval ctx (spawn w) s) :
    Recorded checks params interval s := by
  induction hsteps with
  | refl => exact recorded_spawn w
  | tail _ hstep ih => exact hstep.recorded ih

end BondingSealer

/-- The margin holds at every recorded poll exactly when every poll fits. -/
theorem all_safe_iff {polls : List PollRecord}
    (houtcomes : ∀ p earlier, p :: earlier <:+ polls →
      p.outcome = (p.loop.poll checks params interval p.oracle).map Prod.snd)
    (hcounts : ∀ p earlier, p :: earlier <:+ polls →
      PollsFit params.minBalanceMultiplier earlier → p.loop.Counts earlier) :
    (∀ p earlier, p :: earlier <:+ polls → p.Safe checks params interval earlier) ↔
      PollsFit params.minBalanceMultiplier polls := by
  induction polls with
  | nil => simp [PollsFit]
  | cons p polls ih =>
      obtain ⟨hp, houtcomes⟩ := forall_suffix_cons.mp houtcomes
      obtain ⟨hcount, hcounts⟩ := forall_suffix_cons.mp hcounts
      rw [forall_suffix_cons, ih houtcomes hcounts, PollsFit, PollsFit, forall_suffix_cons]
      constructor
      · rintro ⟨hnew, hearlier⟩
        exact ⟨(PollRecord.safe_iff_fits (hcount hearlier) hp).mp hnew, hearlier⟩
      · rintro ⟨hnew, hearlier⟩
        exact ⟨(PollRecord.safe_iff_fits (hcount hearlier) hp).mpr hnew, hearlier⟩

/-! ## The loop and the server -/

section Server

variable {sdk : Sdk} {ctx : Option WitnessContext} {w w' : World sdk}
variable {s s' : BondingSealer sdk}

/-- A call of `seal_once`. -/
def Event.isTick : Event sdk → Bool
  | .tick .. => true
  | _ => false

/-- The calls of `seal_once` in a history. -/
def ticks (log : List (Event sdk)) : Nat :=
  log.countP Event.isTick

/-- The polls that sealed. -/
def seals (polls : List PollRecord) : Nat :=
  polls.countP fun p => p.outcome == some .seals

theorem ticks_run {α : Type} {p : SealM sdk α} {o : Option α}
    (hrun : (serverSemantics sdk).Run p w w' o) : ticks w'.log = ticks w.log := by
  induction hrun with
  | stop | done => rfl
  | call hstep _ ih =>
      obtain ⟨-, rfl⟩ := hstep
      exact ih
  | interfere hstep _ ih =>
      obtain ⟨batch, did, rfl⟩ := hstep
      exact ih

/-- A seal cycle is one call of `seal_once`. -/
theorem ticks_sealCycle {now durationSecs : Nat}
    {result : Option (Except SealError (EpochRecord × List (MintedWitness sdk)))}
    (hcycle : SealCycle w ctx now durationSecs w' result) :
    ticks w'.log = ticks w.log + 1 := by
  rw [ticks_run hcycle]
  exact List.countP_cons_of_pos rfl

theorem seals_cons_seal (loop : BondingLoop) (oracle : OracleAnswer)
    (polls : List PollRecord) :
    seals (⟨loop, oracle, some .seals⟩ :: polls) = seals polls + 1 :=
  List.countP_cons_of_pos rfl

theorem seals_cons_other {p : PollRecord} (h : p.outcome ≠ some .seals)
    (polls : List PollRecord) : seals (p :: polls) = seals polls :=
  List.countP_cons_of_neg (by simpa using h)

theorem BondingSealer.Step.ticks_eq (hstep : Step checks params interval ctx s s')
    (h : ticks s.world.log = ticks w.log + seals s.polls) :
    ticks s'.world.log = ticks w.log + seals s'.polls := by
  cases hstep with
  | append batch did => exact h
  | skip _ _ hskips =>
      rw [seals_cons_other fun heq => hskips (Option.some.inj heq)]
      exact h
  | sealed _ _ hcycle | sealStops _ _ hcycle =>
      rw [ticks_sealCycle hcycle, h, seals_cons_seal, Nat.add_assoc]
  | panic =>
      rw [seals_cons_other]
      · exact h
      · nofun

/-- `seal_once` is called once for each poll that seals. -/
theorem BondingSealer.Steps.ticks_eq
    (hsteps : Steps checks params interval ctx (spawn w) s) :
    ticks s.world.log = ticks w.log + seals s.polls := by
  induction hsteps with
  | refl => rfl
  | tail _ hstep ih => exact hstep.ticks_eq ih

theorem BondingSealer.Step.reachable {st : Store sdk} (hctx : DistinctMethods ctx)
    (hstep : Step checks params interval ctx s s')
    (h : s.task.isSome → Reachable st s.world) :
    s'.task.isSome → Reachable st s'.world := by
  intro htask
  cases hstep with
  | append batch did => exact .append batch did (h htask)
  | skip hloop _ _ => exact h (hloop ▸ rfl)
  | sealed hloop _ hcycle => exact .cycle (h (hloop ▸ rfl)) hctx hcycle
  | sealStops | panic => cases htask

/-- While the task is there, the server is between two seal cycles, as it is with
the timer: what holds of every reachable world holds here too. -/
theorem BondingSealer.Steps.reachable {st : Store sdk} (hctx : DistinctMethods ctx)
    (hw : Reachable st w) (hsteps : Steps checks params interval ctx (spawn w) s) :
    s.task.isSome → Reachable st s.world := by
  induction hsteps with
  | refl => exact fun _ => hw
  | tail _ hstep ih => exact hstep.reachable hctx ih

end Server

/-- `seal_once` is called at the polls that seal and at no others, and the margin
holds at every poll of a run exactly when at each of them the gas products fit
`u128` and the number of polls fits `u64`. -/
theorem bonding_margin_iff {sdk : Sdk} {ctx : Option WitnessContext} {w : World sdk}
    {s : BondingSealer sdk}
    (hrun : BondingSealer.Steps checks params interval ctx (.spawn w) s) :
    ticks s.world.log = ticks w.log + seals s.polls ∧
    ((∀ p earlier, p :: earlier <:+ s.polls → p.Safe checks params interval earlier) ↔
      PollsFit params.minBalanceMultiplier s.polls) :=
  ⟨hrun.ticks_eq, all_safe_iff hrun.recorded.outcomes hrun.recorded.counts⟩

/-! ## Replaying the loop -/

namespace BondingSealer

variable {sdk : Sdk} {ctx : Option WitnessContext} {s s' : BondingSealer sdk}

/-- One poll, executed, if the task is there. -/
def play (s : BondingSealer sdk) (checks : OverflowChecks) (params : BondingCurveParams)
    (interval : BlockInterval) (ctx : Option WitnessContext) (oracle : OracleAnswer)
    (now : Nat) (out : Surroundings sdk) : BondingSealer sdk :=
  match s.task with
  | none => s
  | some loop =>
      match loop.poll checks params interval oracle with
      | none => ⟨s.world, none, ⟨loop, oracle, none⟩ :: s.polls⟩
      | some (loop', outcome) =>
          if outcome = .seals then
            let entered := s.world.enter ctx now params.pollIntervalSecs out
            ⟨entered.1, entered.2.map fun _ => loop',
              ⟨loop, oracle, some .seals⟩ :: s.polls⟩
          else ⟨s.world, some loop', ⟨loop, oracle, some outcome⟩ :: s.polls⟩

theorem Steps.play (hsteps : Steps checks params interval ctx s s')
    (oracle : OracleAnswer) (now : Nat) (out : Surroundings sdk) :
    Steps checks params interval ctx s
      (s'.play checks params interval ctx oracle now out) := by
  obtain ⟨w, task, polls⟩ := s'
  cases task with
  | none => exact hsteps
  | some loop =>
      refine hsteps.tail ?_
      simp only [BondingSealer.play]
      split
      · rename_i hpoll
        exact .panic rfl hpoll
      · rename_i loop' outcome hpoll
        split
        · rename_i hseals
          subst hseals
          have hcycle := sealCycle_enter w ctx now params.pollIntervalSecs out
          cases hresult : (w.enter ctx now params.pollIntervalSecs out).2 with
          | none => exact .sealStops rfl hpoll (hresult ▸ hcycle)
          | some result => exact .sealed rfl hpoll (hresult ▸ hcycle)
        · rename_i hskips
          exact .skip rfl hpoll hskips

end BondingSealer

/-- The default margin, and a curve of two blocks. -/
def Sample.bondingParams : BondingCurveParams :=
  ⟨1, 12, 2⟩

def Sample.everyTwoBlocks : BlockInterval :=
  fun _ _ _ => 2

/-- Ten ether, and the gas cost of the curve's tests. -/
def Sample.funded : OracleAnswer :=
  .other (.ok (⟨10000000000000000000, by decide⟩, ⟨1350000000000000, by decide⟩))

/-- A node with the largest balance, and a gas price of which twice the cost does not
fit `u128`. -/
def Sample.extremeGas : OracleAnswer :=
  .alloy ⟨"http://node", .ok (), .ok ⟨2 ^ 256 - 1, by decide⟩, .ok ⟨2 ^ 112, by decide⟩⟩

/-- The loop polls twice on an empty store. -/
def Sample.polledTwice (checks : OverflowChecks) (oracle : OracleAnswer) :
    BondingSealer Sample.sdk :=
  ((BondingSealer.spawn (World.boot Store.empty [] 0 0)).play checks Sample.bondingParams
      Sample.everyTwoBlocks none oracle 12 (Sample.honest "")).play checks
    Sample.bondingParams Sample.everyTwoBlocks none oracle 24 (Sample.honest "")

theorem steps_polledTwice (checks : OverflowChecks) (oracle : OracleAnswer) :
    BondingSealer.Steps checks Sample.bondingParams Sample.everyTwoBlocks none
      (.spawn (World.boot Store.empty [] 0 0)) (Sample.polledTwice checks oracle) :=
  (BondingSealer.Steps.play .refl oracle 12 (Sample.honest "")).play oracle 24
    (Sample.honest "")

theorem bonding_margin_iff_funded :
    seals (Sample.polledTwice .enabled Sample.funded).polls = 1 ∧
    ∀ p earlier, p :: earlier <:+ (Sample.polledTwice .enabled Sample.funded).polls →
      p.Safe .enabled Sample.bondingParams Sample.everyTwoBlocks earlier := by
  refine ⟨by decide +kernel, ?_⟩
  refine (bonding_margin_iff (steps_polledTwice .enabled Sample.funded)).2.mpr ?_
  have hfits : Sample.funded.Fits Sample.bondingParams.minBalanceMultiplier := by
    rintro balance gasCost ⟨⟩
    decide
  have hpolls : (Sample.polledTwice .enabled Sample.funded).polls =
      [⟨⟨⟨0, by decide⟩, ⟨1, by decide⟩⟩, Sample.funded, some .seals⟩,
        ⟨.start, Sample.funded, some .intervalOpen⟩] := rfl
  rw [hpolls, PollsFit, forall_suffix_cons, forall_suffix_cons]
  refine ⟨⟨by decide, hfits⟩, ⟨by decide, hfits⟩, fun p earlier h => ?_⟩
  exact absurd (List.suffix_nil.mp h) (List.cons_ne_nil _ _)

/-- Without overflow checks the loop seals on less than the margin; with them the
same poll ends the task. -/
theorem exists_seal_below_margin :
    (∃ s, BondingSealer.Steps .disabled Sample.bondingParams Sample.everyTwoBlocks none
        (.spawn (World.boot Store.empty [] 0 0) : BondingSealer Sample.sdk) s ∧
      ∃ p ∈ s.polls, p.outcome = some .seals ∧ ∃ balance gasCost,
        p.oracle.balanceAndGasCost .disabled = some (.ok (balance, gasCost)) ∧
        balance.val < gasCost.val * Sample.bondingParams.minBalanceMultiplier.val) ∧
    ∃ s, BondingSealer.Steps .enabled Sample.bondingParams Sample.everyTwoBlocks none
        (.spawn (World.boot Store.empty [] 0 0) : BondingSealer Sample.sdk) s ∧
      s.task.isNone ∧ ∃ p ∈ s.polls, p.outcome = none := by
  refine ⟨⟨_, steps_polledTwice .disabled Sample.extremeGas, ?_⟩,
    ⟨_, steps_polledTwice .enabled Sample.extremeGas, by decide +kernel, ?_⟩⟩
  · have hpolls : (Sample.polledTwice .disabled Sample.extremeGas).polls =
        [⟨⟨⟨0, by decide⟩, ⟨1, by decide⟩⟩, Sample.extremeGas, some .seals⟩,
          ⟨.start, Sample.extremeGas, some .intervalOpen⟩] := rfl
    have hread : Sample.extremeGas.balanceAndGasCost .disabled =
        some (.ok (largestU128, ⟨50000 * 2 ^ 112, by decide⟩)) := by
      decide +kernel
    rw [hpolls]
    exact ⟨_, List.mem_cons_self .., rfl, _, _, hread, by decide⟩
  · have hpolls : (Sample.polledTwice .enabled Sample.extremeGas).polls =
        [⟨.start, Sample.extremeGas, none⟩] := rfl
    rw [hpolls]
    exact ⟨_, List.mem_cons_self .., rfl⟩

end AquaTimestamp
