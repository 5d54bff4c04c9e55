import AquaTimestamp.Guarantees.Watching

/-!
# What the watcher credits

Each transfer of a window is added to the row that was read before the window's
batch is written, and the batch leaves the last update of a sender.  So a sender
is credited for the last of its transfers only, and a row whose read failed is
written anew.
-/

namespace AquaTimestamp

open Support Support.Semantics

variable {blockchain : Blockchain} {meets : WatchCondition} {watcher : BlockWatcher}

/-! ## The rows of a window -/

/-- The transfers of one sender, in order. -/
def fromSender (a : Address) (fts : List FuelTransfer) : List FuelTransfer :=
  fts.filter fun ft => ft.sender = a

/-- The credits were read in the store `b`. -/
def ReadIn (b : Leaderboard) (credits : List Credit) : Prop :=
  ∀ c ∈ credits, ∀ row, c.existing = .ok row → row = b.getContributor c.transfer.sender

/-- Every read of the window gave the sender's row. -/
def AllRead (credits : List Credit) : Prop :=
  ∀ c ∈ credits, ∃ row, c.existing = .ok row

section Programs

variable {b : Leaderboard} {I : WatchWorld → Prop}

/-- Reading the rows of a window: one credit for each transfer, in the store as
it is. -/
theorem triple_readRows (hI : ∀ w, w.store = b → I w) (fts : List FuelTransfer) :
    (watchSemantics blockchain meets).Triple I (fun w => w.store = b)
      (BlockWatcher.readRows fts)
      (fun credits w => (credits.map Credit.transfer = fts ∧ ReadIn b credits ∧
        ∀ c ∈ credits, meets b (.getContributor c.transfer.sender) c.existing) ∧
          w.store = b) := by
  induction fts with
  | nil => exact triple_pure (stable_watch _) hI fun w hw => ⟨⟨rfl, nofun, nofun⟩, hw⟩
  | cons ft fts ih =>
      refine triple_call (fun existing w => ((∀ row, existing = .ok row →
        row = b.getContributor ft.sender) ∧
          meets b (.getContributor ft.sender) existing) ∧ w.store = b)
        (stable_watch _) hI ?_ fun existing => ?_
      · rintro existing w w' rfl ⟨hobserved, hmeets, rfl⟩
        exact ⟨⟨hobserved, hmeets⟩, rfl⟩
      · refine triple_of_pre ?_
        rintro ⟨hobserved, hmeets⟩
        simp only [Prog.bind]
        refine triple_bind _ ih fun rest => triple_of_pre ?_
        rintro ⟨hrest, hread, hall⟩
        refine triple_pure (stable_watch _) hI fun w hw => ⟨⟨?_, ?_, ?_⟩, hw⟩
        · rw [List.map_cons, hrest]
        · exact List.forall_mem_cons.mpr ⟨hobserved, hread⟩
        · exact List.forall_mem_cons.mpr ⟨hmeets, hall⟩

/-- A window is written with the rows read in the store before it, or nothing is
written. -/
theorem triple_creditWindow {first last : Nat} {fts : List FuelTransfer}
    (hI : ∀ w, w.store = b → I w) {R : Leaderboard → Prop}
    (hcommit : ∀ credits, credits.map Credit.transfer = fts → ReadIn b credits →
      (∀ c ∈ credits, meets b (.getContributor c.transfer.sender) c.existing) →
      meets b (.upsertContributorsAndWatermark
        (credits.map (Credit.update watcher.chainId)) chainLabel last
        ⟨first, last, credits⟩) (.ok ()) →
      R (b.upsertContributorsAndWatermark
        (credits.map (Credit.update watcher.chainId)) chainLabel last))
    (hR : ∀ w, R w.store → I w) :
    (watchSemantics blockchain meets).Triple I (fun w => w.store = b)
      (watcher.creditWindow first last fts)
      (fun committed w => if committed then R w.store else w.store = b) := by
  refine triple_bind _ (triple_readRows hI fts) fun credits => triple_of_pre ?_
  rintro ⟨htransfers, hread, hall⟩
  refine triple_call (fun written w => if written.isOk then R w.store else w.store = b)
    (stable_watch _) hI ?_ fun written => ?_
  · rintro (error | ⟨⟨⟩⟩) w w' rfl ⟨-, hmeets, rfl⟩
    · rfl
    · exact hcommit credits htransfers hread hall hmeets
  · refine triple_pure (stable_watch _) (fun w hw => ?_) fun w hw => hw
    split at hw
    · exact hR w hw
    · exact hI w hw

end Programs

/-- The row of a sender after a window's batch: what the last of its credits
makes of the row that was read. -/
theorem getContributor_upsert (b : Leaderboard) (chainId : Nat)
    (credits : List Credit) (e : Nat) (a : Address) :
    (b.upsertContributorsAndWatermark (credits.map (Credit.update chainId)) chainLabel
        e).getContributor a =
      ((credits.filter fun c => c.transfer.sender = a).getLast?.map fun c =>
        creditedEntry chainId c.transfer (c.existing.toOption.getD none)).or
          (b.getContributor a) := by
  rw [Leaderboard.getContributor, Leaderboard.upsertContributorsAndWatermark,
    Partition.getElem?_putAll, List.filter_map, List.getLast?_map, Option.map_map]
  rfl

/-- When every read succeeded, a sender's row is the one before with its last
transfer added. -/
theorem getContributor_upsert_of_allRead {b : Leaderboard} {chainId : Nat}
    {credits : List Credit} (hread : ReadIn b credits) (hall : AllRead credits) (e : Nat)
    (a : Address) :
    (b.upsertContributorsAndWatermark (credits.map (Credit.update chainId)) chainLabel
        e).getContributor a =
      ((fromSender a (credits.map Credit.transfer)).getLast?.map fun ft =>
        creditedEntry chainId ft (b.getContributor a)).or (b.getContributor a) := by
  rw [getContributor_upsert, fromSender, List.filter_map, List.getLast?_map,
    Option.map_map]
  refine congrArg (fun o => Option.or o (b.getContributor a)) ?_
  refine Option.map_congr fun c hc => ?_
  obtain ⟨hmem, hsender⟩ := List.mem_filter.mp (List.mem_of_getLast? hc)
  obtain ⟨row, hrow⟩ := hall c hmem
  have hsender : c.transfer.sender = a := of_decide_eq_true hsender
  rw [hrow, hread c hmem row hrow, hsender]
  rfl

/-! ## Every transfer is credited -/

/-- The wei a row holds; none without a row. -/
def weiOf (row : Option ContributorEntry) : Nat :=
  row.elim 0 ContributorEntry.fuelContributedWei

/-- When a row was last active. -/
def lastActiveOf (row : Option ContributorEntry) : Nat :=
  row.elim 0 ContributorEntry.lastActive

/-- Every sender of a window has been credited all its transfers, and nobody
else's row has changed. -/
def Credited (fts : List FuelTransfer) (b b' : Leaderboard) : Prop :=
  ∀ a,
    (fromSender a fts = [] → b'.getContributor a = b.getContributor a) ∧
    (fromSender a fts ≠ [] → ∃ e, b'.getContributor a = some e ∧
      e.fuelContributedWei = min (weiOf (b.getContributor a) +
        ((fromSender a fts).map FuelTransfer.valueWei).sum) u128Max ∧
      e.lastActive = ((fromSender a fts).map FuelTransfer.blockTimestamp).foldl max
        (lastActiveOf (b.getContributor a)))

/-- The last transfer of a sender makes up for the ones before it: these carry
nothing, or the row is full without them, and none of them is later. -/
structure LastSuffices (fts : List FuelTransfer) (b : Leaderboard) (a : Address)
    (last : FuelTransfer) : Prop where
  value : (∀ ft ∈ (fromSender a fts).dropLast, ft.valueWei = 0) ∨
    u128Max ≤ weiOf (b.getContributor a) + last.valueWei
  time : ∀ ft ∈ (fromSender a fts).dropLast, ft.blockTimestamp ≤
    max (lastActiveOf (b.getContributor a)) last.blockTimestamp

theorem wei_creditedEntry (chainId : Nat) (ft : FuelTransfer)
    (row : Option ContributorEntry) :
    (creditedEntry chainId ft row).fuelContributedWei =
      min (weiOf row + ft.valueWei) u128Max := by
  cases row with
  | none =>
      have hle := ft.valueWei_le
      simp only [creditedEntry, weiOf, Option.elim_none]
      omega
  | some e => rfl

theorem lastActive_creditedEntry (chainId : Nat) (ft : FuelTransfer)
    (row : Option ContributorEntry) :
    (creditedEntry chainId ft row).lastActive =
      max (lastActiveOf row) ft.blockTimestamp := by
  cases row with
  | none => exact (Nat.zero_max _).symm
  | some e =>
      simp only [creditedEntry, lastActiveOf, Option.elim_some]
      split <;> omega

/-- A sum is full without its first part exactly when that part is nothing or
the rest is full already. -/
theorem min_sum_eq_iff {earlier : List FuelTransfer} {p v : Nat} :
    min (p + v) u128Max =
        min (p + ((earlier.map FuelTransfer.valueWei).sum + v)) u128Max ↔
      (∀ ft ∈ earlier, ft.valueWei = 0) ∨ u128Max ≤ p + v := by
  have hzero : (earlier.map FuelTransfer.valueWei).sum = 0 ↔
      ∀ ft ∈ earlier, ft.valueWei = 0 := by
    rw [List.sum_eq_zero_iff_forall_eq_nat]
    simp
  rw [← hzero]
  omega

/-- The running maximum is below a bound when its start and its parts are. -/
theorem foldl_max_le_iff {ts : List Nat} {p q : Nat} :
    ts.foldl max p ≤ q ↔ p ≤ q ∧ ∀ t ∈ ts, t ≤ q := by
  induction ts generalizing p with
  | nil => simp
  | cons t ts ih =>
      rw [List.foldl_cons, ih, List.forall_mem_cons, Nat.max_le, and_assoc]

theorem max_foldl_eq_iff {earlier : List FuelTransfer} {p t : Nat} :
    max p t = max ((earlier.map FuelTransfer.blockTimestamp).foldl max p) t ↔
      ∀ ft ∈ earlier, ft.blockTimestamp ≤ max p t := by
  have hbound : (earlier.map FuelTransfer.blockTimestamp).foldl max p ≤ max p t ↔ _ :=
    foldl_max_le_iff
  have hstart := foldl_max_le_iff.mp (Nat.le_refl
    ((earlier.map FuelTransfer.blockTimestamp).foldl max p))
  simp only [List.forall_mem_map] at hbound
  constructor
  · intro heq
    exact (hbound.mp (heq ▸ Nat.le_max_left _ _)).2
  · intro hall
    have hle := hbound.mpr ⟨Nat.le_max_left _ _, hall⟩
    have hp := hstart.1
    omega

/-- Reads of contributor rows succeed. -/
def ReadsRows : WatchCondition
  | _, .getContributor _, answer => ∃ row, answer = .ok row
  | _, _, _ => True

/-- What a committed window whose rows were read leaves of every row. -/
theorem getContributor_after_window {first last : Nat} {fts : List FuelTransfer}
    {w w' : WatchWorld}
    (hrun : (watchSemantics blockchain ReadsRows).Run
      (watcher.creditWindow first last fts) w w' (some true)) (a : Address) :
    w'.store.getContributor a =
      ((fromSender a fts).getLast?.map fun ft =>
        creditedEntry watcher.chainId ft (w.store.getContributor a)).or
          (w.store.getContributor a) := by
  have hcommit : ∀ credits, credits.map Credit.transfer = fts →
      ReadIn w.store credits → AllRead credits →
      (w.store.upsertContributorsAndWatermark
        (credits.map (Credit.update watcher.chainId)) chainLabel last).getContributor a =
          ((fromSender a fts).getLast?.map fun ft =>
            creditedEntry watcher.chainId ft (w.store.getContributor a)).or
              (w.store.getContributor a) := by
    rintro credits rfl hread hall
    exact getContributor_upsert_of_allRead hread hall last a
  have htriple : (watchSemantics blockchain ReadsRows).Triple (fun _ => True)
      (fun w₁ => w₁.store = w.store) (watcher.creditWindow first last fts) _ :=
    triple_creditWindow (R := fun b => b.getContributor a =
        ((fromSender a fts).getLast?.map fun ft =>
          creditedEntry watcher.chainId ft (w.store.getContributor a)).or
            (w.store.getContributor a))
      (fun _ _ => trivial)
      (fun credits hmap hread hall _ => hcommit credits hmap hread hall)
      fun _ _ => trivial
  exact (htriple w w' _ rfl hrun).2 true rfl

/-- Its row holds what a sender is due exactly when its last transfer makes up
for the ones before it. -/
theorem credited_iff_lastSuffices {fts : List FuelTransfer} {b : Leaderboard}
    {a : Address} {last : FuelTransfer} (chainId : Nat)
    (hlast : (fromSender a fts).getLast? = some last) :
    ((creditedEntry chainId last (b.getContributor a)).fuelContributedWei =
        min (weiOf (b.getContributor a) +
          ((fromSender a fts).map FuelTransfer.valueWei).sum) u128Max ∧
      (creditedEntry chainId last (b.getContributor a)).lastActive =
        ((fromSender a fts).map FuelTransfer.blockTimestamp).foldl max
          (lastActiveOf (b.getContributor a))) ↔
      LastSuffices fts b a last := by
  have hown : fromSender a fts = (fromSender a fts).dropLast ++ [last] :=
    (List.dropLast_append_getLast? last hlast).symm
  rw [wei_creditedEntry, lastActive_creditedEntry]
  constructor
  · rintro ⟨hwei, hactive⟩
    rw [hown, List.map_append, List.sum_append, List.map_singleton,
      List.sum_singleton] at hwei
    rw [hown, List.map_append, List.foldl_append] at hactive
    exact ⟨min_sum_eq_iff.mp hwei, max_foldl_eq_iff.mp hactive⟩
  · rintro ⟨hvalue, htime⟩
    rw [hown, List.map_append, List.sum_append, List.map_singleton,
      List.sum_singleton, List.map_append, List.foldl_append]
    exact ⟨min_sum_eq_iff.mpr hvalue, max_foldl_eq_iff.mpr htime⟩

/-- A committed window whose rows were read credits every transfer exactly when
the last transfer of each sender makes up for the ones before it. -/
theorem window_credited_iff {first last : Nat} {fts : List FuelTransfer}
    {w w' : WatchWorld}
    (hrun : (watchSemantics blockchain ReadsRows).Run
      (watcher.creditWindow first last fts) w w' (some true)) :
    Credited fts w.store w'.store ↔
      ∀ a ft, (fromSender a fts).getLast? = some ft → LastSuffices fts w.store a ft := by
  have hrow := getContributor_after_window hrun
  constructor
  · intro hcredited a ft hft
    obtain ⟨e, he, hdue⟩ := (hcredited a).2
      (List.ne_nil_of_mem (List.mem_of_getLast? hft))
    rw [hrow a, hft] at he
    cases he
    exact (credited_iff_lastSuffices watcher.chainId hft).mp hdue
  · intro hsuffices a
    refine ⟨fun hnone => ?_, fun hsome => ?_⟩
    · rw [hrow a, hnone]
      rfl
    · have hft := List.getLast?_eq_some_getLast hsome
      refine ⟨creditedEntry watcher.chainId ((fromSender a fts).getLast hsome)
        (w.store.getContributor a), ?_, ?_⟩
      · rw [hrow a, hft]
        rfl
      · exact (credited_iff_lastSuffices watcher.chainId hft).mpr (hsuffices a _ hft)

/-- Where no sender has two transfers in the window, nothing comes before a
sender's last one. -/
theorem lastSuffices_of_nodup {fts : List FuelTransfer}
    (h : (fts.map FuelTransfer.sender).Nodup) (b : Leaderboard) (a : Address)
    (last : FuelTransfer) : LastSuffices fts b a last := by
  have hcount : (fromSender a fts).length = (fts.map FuelTransfer.sender).count a := by
    rw [List.count_eq_countP, List.countP_map, List.countP_eq_length_filter]
    exact congrArg List.length (List.filter_congr fun ft _ => by
      rw [Function.comp_apply, beq_eq_decide])
  have hlength := List.nodup_iff_count_le_one.mp h a
  have hnone : (fromSender a fts).dropLast = [] := by
    rw [← List.length_eq_zero_iff, List.length_dropLast]
    omega
  constructor
  · rw [hnone]
    exact Or.inl fun _ hft => absurd hft List.not_mem_nil
  · rw [hnone]
    exact fun _ hft => absurd hft List.not_mem_nil

/-- A transfer of so many wei by a sender of the small chains. -/
def Sample.transfer (sender : UInt8) (wei : Nat) (hle : wei ≤ u128Max) : FuelTransfer :=
  ⟨Vector.replicate 20 sender, wei, 6, 600, hle⟩

/-- Two senders have a row, the first one of five wei and 42 hashes. -/
def Sample.donated : Leaderboard :=
  Sample.leaderboard.upsertContributorsAndWatermark
    [(Vector.replicate 20 7, ⟨"did:7", 5, 0, 42, 1, by decide⟩),
      (Vector.replicate 20 8, ⟨"did:8", 9, 0, 0, 2, by decide⟩)] chainLabel 5

/-- The small watcher writes a window. -/
def Sample.credited (b : Leaderboard) (fts : List FuelTransfer) :
    WatchWorld × Option Bool :=
  (WatchSurroundings.honest Sample.minedChain 8).drive
    (Sample.walletWatcher.creditWindow 6 8 fts) ⟨b, []⟩

theorem within_honest_readsRows {latest : Nat} (hlatest : latest ≤ u64Max) :
    (WatchSurroundings.honest Sample.minedChain latest).Within Sample.minedChain
      ReadsRows := by
  refine WatchSurroundings.within_honest hlatest fun b c answer hanswer => ?_
  cases c with
  | getContributor address =>
      cases hanswer
      exact ⟨_, rfl⟩
  | _ => trivial

/-- The small watcher's window is a run of the credit loop. -/
theorem run_credited {b : Leaderboard} {fts : List FuelTransfer}
    (h : (Sample.credited b fts).2 = some true) :
    (watchSemantics Sample.minedChain ReadsRows).Run
      (Sample.walletWatcher.creditWindow 6 8 fts) ⟨b, []⟩
      (Sample.credited b fts).1 (some true) := by
  have hwithin : (WatchSurroundings.honest Sample.minedChain 8).Within
      Sample.minedChain ReadsRows := within_honest_readsRows (by decide)
  have hrun := WatchSurroundings.run_drive hwithin
    (Sample.walletWatcher.creditWindow 6 8 fts) ⟨b, []⟩
  exact h ▸ hrun

/-- Two senders with a row and one without. -/
def Sample.threeTransfers : List FuelTransfer :=
  [Sample.transfer 7 2 (by decide), Sample.transfer 8 3 (by decide),
    Sample.transfer 9 4 (by decide)]

theorem window_credited_iff_threeTransfers :
    Credited Sample.threeTransfers Sample.donated
      (Sample.credited Sample.donated Sample.threeTransfers).1.store := by
  have hsenders : (Sample.threeTransfers.map FuelTransfer.sender).Nodup := by
    decide +kernel
  exact (window_credited_iff (run_credited (by decide +kernel))).mpr
    fun a ft _ => lastSuffices_of_nodup hsenders Sample.donated a ft

/-- Of two transfers of one sender in one window only the last one counts. -/
theorem exists_transfer_not_credited :
    ∃ fts w', (watchSemantics Sample.minedChain ReadsRows).Run
      (Sample.walletWatcher.creditWindow 6 8 fts) ⟨Sample.leaderboard, []⟩ w'
        (some true) ∧ ¬ Credited fts Sample.leaderboard w'.store := by
  refine ⟨[Sample.transfer 7 2 (by decide), Sample.transfer 7 3 (by decide)], _,
    run_credited (by decide +kernel), fun hcredited => ?_⟩
  obtain ⟨e, he, hwei, -⟩ := (hcredited (Vector.replicate 20 7)).2 (by decide)
  have hrow : ((Sample.credited Sample.leaderboard [Sample.transfer 7 2 (by decide),
      Sample.transfer 7 3 (by decide)]).1.store.getContributor
        (Vector.replicate 20 7)).map ContributorEntry.fuelContributedWei = some 3 := by
    decide +kernel
  have hdue : e.fuelContributedWei = 5 := hwei.trans (by decide +kernel)
  rw [he] at hrow
  rw [Option.map_some, hdue] at hrow
  exact absurd hrow (by decide)

/-! ## Reads that fail -/

/-- No row has lost anything: what it holds has not decreased, and its other
counts are as they were. -/
def KeepsRows (b b' : Leaderboard) : Prop :=
  ∀ a e, b.getContributor a = some e → ∃ e', b'.getContributor a = some e' ∧
    e.fuelContributedWei ≤ e'.fuelContributedWei ∧
    e'.fuelContributedSat = e.fuelContributedSat ∧
    e'.hashesSubmitted = e.hashesSubmitted

theorem keepsRows_refl (b : Leaderboard) : KeepsRows b b :=
  fun _ e he => ⟨e, he, Nat.le_refl _, rfl, rfl⟩

theorem KeepsRows.trans {b b' b'' : Leaderboard} (h : KeepsRows b b')
    (h' : KeepsRows b' b'') : KeepsRows b b'' := by
  intro a e he
  obtain ⟨e', he', hwei, hsat, hhashes⟩ := h a e he
  obtain ⟨e'', he'', hwei', hsat', hhashes'⟩ := h' a e' he'
  exact ⟨e'', he'', Nat.le_trans hwei hwei', hsat'.trans hsat, hhashes'.trans hhashes⟩

/-- Failed reads in a window are of senders without a row. -/
def FailsOnNew (b : Leaderboard) (credits : List Credit) : Prop :=
  ∀ c ∈ credits, ∀ e, c.existing = .error e →
    b.getContributor c.transfer.sender = none

/-- A stored watermark is read when the watcher starts, and in a committed window
only reads of senders without a row have failed. -/
def TrustsReads : WatchCondition
  | b, .getWatermark chain, .error _ => b.getWatermark chain = none
  | b, .upsertContributorsAndWatermark _ _ _ window, .ok () =>
      FailsOnNew b window.credits
  | _, _, _ => True

theorem keepsWatermark_trustsReads : TrustsReads.KeepsWatermark :=
  fun _ _ h => h

theorem keepsRows_upsert {b : Leaderboard} {credits : List Credit}
    (hread : ReadIn b credits) (hfails : FailsOnNew b credits) (chainId e : Nat) :
    KeepsRows b (b.upsertContributorsAndWatermark
      (credits.map (Credit.update chainId)) chainLabel e) := by
  intro a row hrow
  rw [getContributor_upsert]
  cases hlast : (credits.filter fun c => c.transfer.sender = a).getLast? with
  | none => exact ⟨row, hrow, Nat.le_refl _, rfl, rfl⟩
  | some c =>
      obtain ⟨hmem, hsender⟩ := List.mem_filter.mp (List.mem_of_getLast? hlast)
      have hsender : c.transfer.sender = a := of_decide_eq_true hsender
      cases hexisting : c.existing with
      | error error =>
          have hnone := hfails c hmem error hexisting
          rw [hsender, hrow] at hnone
          cases hnone
      | ok existing =>
          have hread := hread c hmem existing hexisting
          rw [hsender, hrow] at hread
          subst hread
          have hentry : c.existing.toOption.getD none = some row := by
            rw [hexisting]
            rfl
          rw [Option.map_some, Option.some_or, hentry]
          refine ⟨_, rfl, ?_, rfl, rfl⟩
          exact Nat.le_min.mpr ⟨Nat.le_add_right _ _, row.fuelContributedWei_le⟩

section Runs

variable {b₀ : Leaderboard} {s s' : Watching}

/-- The rows of `b₀` are kept in the store. -/
def RowsKept (b₀ : Leaderboard) (w : WatchWorld) : Prop :=
  KeepsRows b₀ w.store

/-- Calls that write no row. -/
def WatchCall.leavesRows : WatchCall → Bool
  | .upsertContributorsAndWatermark .. => false
  | _ => true

theorem rowsKept_after {w : WatchWorld} {c : WatchCall} {answer : WatchAnswer c}
    (hc : c.leavesRows = true) (hw : RowsKept b₀ w) : RowsKept b₀ (w.after c answer) := by
  have hstore : ∀ a, (w.store.after c answer).getContributor a =
      w.store.getContributor a := by
    intro a
    cases c with
    | setWatermark chain block => cases answer <;> rfl
    | upsertContributorsAndWatermark updates chain block window => cases hc
    | _ => rfl
  intro a e he
  obtain ⟨e', he', hkept⟩ := hw a e he
  exact ⟨e', (hstore a).trans he', hkept⟩

/-- A program that writes no row keeps them all. -/
theorem rowsKept_within {α : Type} {p : WatchM α} {Q : α → Prop}
    (hp : p.Within (fun c _ => c.leavesRows = true) Q) :
    (watchSemantics blockchain TrustsReads).Triple (RowsKept b₀) (RowsKept b₀) p
      (fun a w => Q a ∧ RowsKept b₀ w) := by
  refine triple_within (stable_watch _) (fun _ hw => hw) ?_ hp
  rintro c answer w w' hc hw ⟨-, -, rfl⟩
  exact rowsKept_after hc hw

theorem within_scanEach (ns : List Nat) :
    (watcher.scanEach ns).Within (fun c _ => c.leavesRows = true) (fun _ => True) := by
  induction ns with
  | nil => trivial
  | cons n ns ih =>
      refine Prog.within_ask fun answer => ⟨rfl, ?_⟩
      match answer with
      | .error e => trivial
      | .ok none => trivial
      | .ok (some block) =>
          dsimp only
          split
          · exact ih
          · split
            · exact fun answer => nomatch answer
            · refine Prog.within_bind ih ?_
              rintro (e | rest) - <;> trivial

theorem within_initialWatermark :
    BlockWatcher.initialWatermark.Within (fun c _ => c.leavesRows = true)
      (fun _ => True) := by
  refine Prog.within_ask fun answer => ⟨rfl, ?_⟩
  match answer with
  | .error e => trivial
  | .ok (some w) => trivial
  | .ok none =>
      refine Prog.within_ask fun latest => ⟨rfl, ?_⟩
      cases latest <;> trivial

theorem rowsKept_creditWindow {first last : Nat} {fts : List FuelTransfer} :
    (watchSemantics blockchain TrustsReads).Triple (RowsKept b₀) (RowsKept b₀)
      (watcher.creditWindow first last fts) (fun _ => RowsKept b₀) := by
  have hfixed : ∀ b, (watchSemantics blockchain TrustsReads).Triple (RowsKept b₀)
      (fun w => KeepsRows b₀ b ∧ w.store = b) (watcher.creditWindow first last fts)
      (fun _ => RowsKept b₀) := by
    refine fun b => triple_of_pre fun hb => ?_
    have hI : ∀ w : WatchWorld, w.store = b → RowsKept b₀ w := by
      rintro w rfl
      exact hb
    refine triple_weaken (triple_creditWindow hI (R := KeepsRows b₀) ?_
      fun w hw => hw) (fun w hw => hw) ?_
    · intro credits _ hread _ hfails
      exact hb.trans (keepsRows_upsert hread hfails watcher.chainId last)
    · rintro (_ | _) w hw
      · exact hI w hw
      · exact hw
  exact triple_weaken (triple_exists hfixed) (fun w hw => ⟨w.store, hw, rfl⟩)
    fun _ _ hw => hw

theorem rowsKept_pollOnce (m : Nat) :
    (watchSemantics blockchain TrustsReads).Triple (RowsKept b₀) (RowsKept b₀)
      (watcher.pollOnce m) (fun _ => RowsKept b₀) := by
  have hpure : ∀ m' : Nat, (watchSemantics blockchain TrustsReads).Triple (RowsKept b₀)
      (RowsKept b₀) (pure m' : WatchM Nat) (fun _ => RowsKept b₀) :=
    fun m' => triple_pure (stable_watch _) (fun _ hw => hw) fun _ hw => hw
  refine triple_call (fun _ => RowsKept b₀) (stable_watch _) (fun _ hw => hw) ?_ ?_
  · rintro answer w w' hw ⟨-, -, rfl⟩
    exact rowsKept_after rfl hw
  rintro (e | latest)
  · exact hpure m
  simp only [Prog.bind]
  split
  · exact hpure m
  refine triple_bind _ (rowsKept_within (within_scanEach _)) fun result =>
    triple_of_pre fun _ => ?_
  cases result with
  | error e => exact hpure m
  | ok fts =>
      dsimp only
      split
      · refine triple_call (fun _ => RowsKept b₀) (stable_watch _) (fun _ hw => hw) ?_
          fun _ => hpure _
        rintro answer w w' hw ⟨-, -, rfl⟩
        exact rowsKept_after rfl hw
      · exact triple_bind _ rowsKept_creditWindow fun committed => hpure _

theorem Watching.Step.rowsKept
    (hstep : Watching.Step blockchain TrustsReads watcher s s')
    (h : RowsKept b₀ s.world) : RowsKept b₀ s'.world := by
  have hinitial : (watchSemantics blockchain TrustsReads).Triple (RowsKept b₀)
      (RowsKept b₀) BlockWatcher.initialWatermark _ :=
    rowsKept_within within_initialWatermark
  cases hstep with
  | start hrun => exact ((hinitial _ _ _ h hrun).2 _ rfl).2
  | startStops hrun => exact (hinitial _ _ _ h hrun).1 rfl
  | poll hrun => exact (rowsKept_pollOnce _ _ _ _ h hrun).2 _ rfl
  | pollStops hrun => exact (rowsKept_pollOnce _ _ _ _ h hrun).1 rfl

theorem Watching.Steps.keepsRows
    (hsteps : Watching.Steps blockchain TrustsReads watcher s s') :
    KeepsRows s.world.store s'.world.store := by
  induction hsteps with
  | refl => exact keepsRows_refl _
  | tail _ hstep ih => exact hstep.rowsKept ih

end Runs

/-- As long as a stored watermark is read at every start and no committed window
misses the row of a sender that has one, no row loses anything and no block's
transfers are committed twice. -/
theorem trusted_reads_keep_leaderboard {b : Leaderboard} {s s' : Watching}
    (hrun : Watching.Steps blockchain TrustsReads watcher (.fresh b) s)
    (hlater : Watching.Steps blockchain TrustsReads watcher s s') :
    KeepsRows s.world.store s'.world.store ∧
    ∀ n, (s'.world.commits.filter fun x => x.Covers n).length ≤ 1 ∧
      ∀ x ∈ s'.world.commits, x.Covers n →
        (x.transfers.map FuelTransfer.inbound).filter (fun t => t.block = n) =
          inboundAt blockchain watcher.walletAddress n := by
  have hwhole : Watching.Steps blockchain TrustsReads watcher (.fresh b) s' :=
    Relation.ReflTransGen.trans hrun hlater
  obtain ⟨m, hkept, -⟩ := Watching.Steps.kept keepsWatermark_trustsReads hwhole
  exact ⟨Watching.Steps.keepsRows hlater, fun n => ⟨covers_unique_of_kept hkept,
    fun x hx hcovers => transfers_of_covered hkept hx hcovers⟩⟩

/-! ## A read that fails -/

/-- Block 6 holds a transfer of a sender that has a row and block 7 one of a
sender that has none. -/
def Sample.busyChain : Blockchain := fun n =>
  ⟨100 * n, match n with
    | 6 => [⟨some (Vector.replicate 20 1), 2, Vector.replicate 20 7⟩]
    | 7 => [⟨some (Vector.replicate 20 1), 3, Vector.replicate 20 9⟩]
    | _ => []⟩

/-- Reads of senders without a row fail.  A window is committed unless it misses
the row of a sender that has one. -/
def Sample.careful (latest : Nat) : WatchSurroundings
  | b, .getContributor a =>
      some (if (b.getContributor a).isNone then .error (.fjall "io error")
        else .ok (b.getContributor a))
  | b, .upsertContributorsAndWatermark _ _ _ window =>
      if window.credits.all fun c =>
          c.existing.isOk || (b.getContributor c.transfer.sender).isNone then
        some (.ok ())
      else none
  | b, c => WatchSurroundings.honest Sample.busyChain latest b c

/-- Reads of contributor rows fail. -/
def Sample.blindToRows (latest : Nat) : WatchSurroundings
  | _, .getContributor _ => some (.error (.fjall "io error"))
  | b, c => WatchSurroundings.honest Sample.minedChain latest b c

/-- The read of the watermark fails. -/
def Sample.blindToWatermark : WatchSurroundings
  | _, .getWatermark _ => some (.error (.fjall "io error"))
  | b, c => WatchSurroundings.honest Sample.minedChain 8 b c

/-- Nothing is asked of the calls. -/
def AnyAnswer : WatchCondition :=
  fun _ _ _ => True

theorem within_honest_anyAnswer {chain : Blockchain} {latest : Nat}
    (hlatest : latest ≤ u64Max) :
    (WatchSurroundings.honest chain latest).Within chain AnyAnswer :=
  WatchSurroundings.within_honest hlatest fun _ _ _ _ => trivial

theorem within_careful {latest : Nat} (hlatest : latest ≤ u64Max) :
    (Sample.careful latest).Within Sample.busyChain TrustsReads := by
  intro b c answer hanswer
  cases c with
  | getContributor a =>
      cases hanswer
      refine ⟨fun row hrow => ?_, trivial⟩
      split at hrow
      · cases hrow
      · exact (Except.ok.inj hrow).symm
  | upsertContributorsAndWatermark updates chain blockNumber window =>
      refine ⟨trivial, ?_⟩
      simp only [Sample.careful] at hanswer
      split at hanswer
      · rename_i hread
        cases hanswer
        intro c hc e he
        have hok := List.all_eq_true.mp hread c hc
        rw [he] at hok
        simpa [Except.isOk, Except.toBool] using hok
      · cases hanswer
  | getWatermark chain =>
      refine ⟨(within_honest_anyAnswer hlatest b _ answer hanswer).1, ?_⟩
      cases hanswer
      trivial
  | _ => exact ⟨(within_honest_anyAnswer hlatest b _ answer hanswer).1, trivial⟩

theorem within_blindToRows {latest : Nat} (hlatest : latest ≤ u64Max) :
    (Sample.blindToRows latest).Within Sample.minedChain AnyAnswer := by
  intro b c answer hanswer
  cases c with
  | getContributor address =>
      cases hanswer
      exact ⟨nofun, trivial⟩
  | _ => exact within_honest_anyAnswer hlatest b _ answer hanswer

theorem within_blindToWatermark :
    Sample.blindToWatermark.Within Sample.minedChain AnyAnswer := by
  intro b c answer hanswer
  cases c with
  | getWatermark chain =>
      cases hanswer
      exact ⟨nofun, trivial⟩
  | _ => exact within_honest_anyAnswer (show 8 ≤ u64Max by decide) b _ answer hanswer

/-- The read of the new sender fails and its row is written anew. -/
def Sample.carefullyPolled : Watching :=
  ((Watching.fresh Sample.donated).start (Sample.careful 5)).poll
    Sample.walletWatcher (Sample.careful 8)

theorem trusted_reads_keep_leaderboard_newSender :
    (Sample.carefullyPolled.world.commits.any fun x =>
      x.credits.any fun c => !c.existing.isOk) = true ∧
    (∃ e, Sample.carefullyPolled.world.store.getContributor (Vector.replicate 20 7) =
        some e ∧ 5 ≤ e.fuelContributedWei ∧ e.hashesSubmitted = 42) ∧
    (Sample.carefullyPolled.world.commits.filter fun x => x.Covers 7).length ≤ 1 := by
  have hrun : Watching.Steps Sample.busyChain TrustsReads Sample.walletWatcher
      (.fresh Sample.donated) _ :=
    Watching.Steps.start .refl (within_careful (show 5 ≤ u64Max by decide))
  have hlater : Watching.Steps Sample.busyChain TrustsReads Sample.walletWatcher
      ((Watching.fresh Sample.donated).start (Sample.careful 5))
      Sample.carefullyPolled :=
    Watching.Steps.poll .refl (within_careful (show 8 ≤ u64Max by decide))
  obtain ⟨hkept, honce⟩ := trusted_reads_keep_leaderboard hrun hlater
  obtain ⟨e, he, hwei, -, hhashes⟩ := hkept (Vector.replicate 20 7)
    ⟨"did:7", 5, 0, 42, 1, by decide⟩ (by decide +kernel)
  exact ⟨by decide +kernel, ⟨e, he, hwei, hhashes⟩, (honce 7).1⟩

/-- The row before and after the window whose read fails. -/
def Sample.overwritten : Watching :=
  ((Watching.fresh Sample.donated).start (.honest Sample.minedChain 5)).poll
    Sample.walletWatcher (Sample.blindToRows 8)

/-- Block 6 is committed, and again after a start that could not read. -/
def Sample.rescanned : Watching :=
  ((Sample.started.poll Sample.walletWatcher (.honest Sample.minedChain 8)).start
    Sample.blindToWatermark).poll Sample.walletWatcher (.honest Sample.minedChain 8)

/-- A failed read of a row resets it, and a failed read of the watermark commits
a block's transfers again. -/
theorem exists_failed_read_corrupts :
    (∃ e e', Watching.Steps Sample.minedChain AnyAnswer Sample.walletWatcher
        (.fresh Sample.donated) Sample.overwritten ∧
      Sample.donated.getContributor (Vector.replicate 20 7) = some e ∧
      Sample.overwritten.world.store.getContributor (Vector.replicate 20 7) = some e' ∧
      e'.fuelContributedWei < e.fuelContributedWei ∧
      e'.hashesSubmitted ≠ e.hashesSubmitted) ∧
    Watching.Steps Sample.minedChain AnyAnswer Sample.walletWatcher
        (.fresh Sample.leaderboard) Sample.rescanned ∧
      (Sample.rescanned.world.commits.filter fun x => x.Covers 6).length = 2 := by
  refine ⟨⟨⟨"did:7", 5, 0, 42, 1, by decide⟩,
    creditedEntry 1 (Sample.transfer 7 2 (by decide)) none, ?_, ?_⟩, ?_, ?_⟩
  · exact Watching.Steps.poll (Watching.Steps.start .refl
      (within_honest_anyAnswer (by decide))) (within_blindToRows (by decide))
  · decide +kernel
  · exact Watching.Steps.poll (Watching.Steps.start (Watching.Steps.poll
      (Watching.Steps.start .refl (within_honest_anyAnswer (by decide)))
      (within_honest_anyAnswer (by decide))) within_blindToWatermark)
      (within_honest_anyAnswer (by decide))
  · decide +kernel

end AquaTimestamp
