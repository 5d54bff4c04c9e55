import AquaTimestamp.Guarantees.Lifetime
import AquaTimestamp.Settlement.Order

/-!
# What anchoring an (epoch, method) may cost

A provider call costs a transaction or a token.  The sealer calls a provider
only when the stored record holds no anchor and its fault count is below the
cap, and every anchor that reaches the store is either still held or was
counted as a fault.  So the successful calls of an (epoch, method) are at most
the cap, apart from those whose anchor was lost before it could be stored.
-/

namespace AquaTimestamp

open Support Partition

variable {sdk : Sdk}

/-- The successful provider calls for one (epoch, method): how many, how many
of earlier ticks lost their anchor, and the anchors of this tick that no
stored record has carried. -/
structure Tally where
  calls : Nat
  lost : Nat
  unstored : List TimestampValue

/-- Calls whose anchor never reached a stored record. -/
def Tally.neverStored (t : Tally) : Nat :=
  t.lost + t.unstored.length

/-- The anchor a successful provider call for (`e`, `m`) returned. -/
def Event.obtains (e : Nat) (m : AnchorMethod) :
    Event sdk → Option TimestampValue
  | .call (.createTimestamp e' m' _) (.ok v) =>
      if e' = e ∧ m' = m then some v else none
  | _ => none

/-- Count one event.  The end of a tick loses what is not stored by then. -/
def Tally.count (t : Tally) (e : Nat) (m : AnchorMethod) (ev : Event sdk) :
    Tally :=
  if ev.isBoundary then ⟨t.calls, t.lost + t.unstored.length, []⟩
  else
    match ev.obtains e m, ev.stores with
    | some v, _ => ⟨t.calls + 1, t.lost, v :: t.unstored⟩
    | none, some p =>
        if p.epochId = e then
          { t with unstored := t.unstored.filter fun v => p.anchor m ≠ some v }
        else t
    | none, none => t

/-- The spending on (`e`, `m`) in a history. -/
def spend (e : Nat) (m : AnchorMethod) : List (Event sdk) → Tally
  | [] => ⟨0, 0, []⟩
  | ev :: log => (spend e m log).count e m ev

/-- Every seal cycle of the history ran with the fault cap `max`. -/
def FixedCap (max : UInt32) (log : List (Event sdk)) : Prop :=
  ∀ ctx now durationSecs, .tick (some ctx) now durationSecs ∈ log →
    ctx.maxAnchorFaults = max

/-- The faults of a method and the anchor it holds. -/
def used (q : PendingEpoch sdk) (m : AnchorMethod) : Nat :=
  (q.anchorFaultCount m).toNat + (if (q.anchorEntry m).isSome then 1 else 0)

/-! ## The tally, event by event -/

section Tally

variable {t : Tally} {e : Nat} {m : AnchorMethod} {log : List (Event sdk)}

theorem obtains_eq_some {ev : Event sdk} {v : TimestampValue}
    (h : ev.obtains e m = some v) :
    ∃ root, ev = .call (.createTimestamp e m root) (.ok v) := by
  unfold Event.obtains at h
  split at h
  · split at h
    · rename_i heq
      obtain ⟨rfl, rfl⟩ := heq
      cases h
      exact ⟨_, rfl⟩
    · cases h
  · cases h

/-- The anchors not stored yet are those of this tick's calls. -/
theorem mem_unstored {v : TimestampValue}
    (h : v ∈ (spend e m log).unstored) :
    ∃ root, .call (.createTimestamp e m root) (.ok v) ∈ thisCycle log := by
  induction log with
  | nil => cases h
  | cons ev log ih =>
      simp only [spend, Tally.count] at h
      split at h
      · cases h
      · rename_i hboundary
        have hnew : ev.isBoundary = false := by simpa using hboundary
        have hold : v ∈ (spend e m log).unstored →
            ∃ root, .call (.createTimestamp e m root) (.ok v) ∈
              thisCycle (ev :: log) := by
          intro hv
          obtain ⟨root, hin⟩ := ih hv
          exact ⟨root, mem_thisCycle_cons hnew hin⟩
        split at h
        · rename_i v' hobtains
          rcases List.mem_cons.mp h with rfl | h
          · obtain ⟨root, rfl⟩ := obtains_eq_some hobtains
            exact ⟨root, mem_thisCycle_self rfl⟩
          · exact hold h
        · split at h
          · exact hold (List.mem_filter.mp h).1
          · exact hold h
        · exact hold h

theorem calls_eq_zero (h : ∀ ev ∈ log, ev.about ≠ some (e, m)) :
    (spend e m log).calls = 0 := by
  induction log with
  | nil => rfl
  | cons ev log ih =>
      have hrest := ih fun ev' hev' => h ev' (List.mem_cons_of_mem _ hev')
      simp only [spend, Tally.count]
      split
      · exact hrest
      · split
        · rename_i v hobtains
          obtain ⟨root, rfl⟩ := obtains_eq_some hobtains
          exact absurd rfl (h _ (List.mem_cons_self ..))
        · split <;> exact hrest
        · exact hrest

end Tally

/-! ## The budget of one (epoch, method) -/

/-- The tally `t` is covered by what the stored record has used up. -/
structure Budget (max : Nat) (t : Tally) (stored : Option (PendingEpoch sdk))
    (m : AnchorMethod) : Prop where
  unstoredLe : t.unstored.length ≤ 1
  unstoredNone : ∀ q, stored = some q → t.unstored ≠ [] →
    q.anchorEntry m = none
  within : ∀ q, stored = some q → used q m ≤ max
  held : ∀ q, stored = some q → m ∈ q.methods →
    t.calls ≤ t.neverStored + used q m
  bound : t.calls ≤ t.neverStored + max

/-- The tally after a record that carries the anchor of `p` is stored. -/
def Tally.carried (t : Tally) (p : PendingEpoch sdk) (m : AnchorMethod) :
    Tally :=
  { t with unstored := t.unstored.filter fun v => p.anchor m ≠ some v }

section Budget

variable {max : Nat} {t : Tally} {q p : PendingEpoch sdk} {m : AnchorMethod}

theorem carried_of_none (h : p.anchorEntry m = none) : t.carried p m = t := by
  simp [Tally.carried, PendingEpoch.anchor, h]

theorem carried_of_nil (h : t.unstored = []) : t.carried p m = t := by
  cases t
  simp_all [Tally.carried]

/-- A stored record that says the same of the method. -/
theorem Budget.agrees (h : Budget max t (some q) m)
    (hlisted : m ∈ p.methods → m ∈ q.methods) (hused : used p m = used q m)
    (hnone : q.anchorEntry m = none → p.anchorEntry m = none) :
    Budget max (t.carried p m) (some p) m := by
  have hsame : t.carried p m = t := by
    by_cases hnil : t.unstored = []
    · exact carried_of_nil hnil
    · exact carried_of_none (hnone (h.unstoredNone q rfl hnil))
  rw [hsame]
  refine ⟨h.unstoredLe, ?_, ?_, ?_, h.bound⟩
  · rintro _ ⟨⟩ hne
    exact hnone (h.unstoredNone q rfl hne)
  · rintro _ ⟨⟩
    rw [hused]
    exact h.within q rfl
  · rintro _ ⟨⟩ hm
    rw [hused]
    exact h.held q rfl (hlisted hm)

/-- A stored record with a fresh anchor, the one not stored yet. -/
theorem Budget.gained (h : Budget max t (some q) m) {a : StoredAnchor}
    (hlisted : m ∈ q.methods)
    (hq : q.anchorEntry m = none) (hp : p.anchorEntry m = some a)
    (hfaults : q.anchorFaultCount m = p.anchorFaultCount m)
    (hcap : (p.anchorFaultCount m).toNat < max)
    (honly : ∀ v ∈ t.unstored, v = a.value) :
    Budget max (t.carried p m) (some p) m := by
  have hnil : (t.carried p m).unstored = [] := by
    simp only [Tally.carried, List.filter_eq_nil_iff]
    intro v hv
    simp [PendingEpoch.anchor, hp, honly v hv]
  have hcalls : (t.carried p m).calls = t.calls := rfl
  have hlost : (t.carried p m).neverStored = t.lost := by
    simp [Tally.neverStored, hnil]
    rfl
  have hused : used p m = used q m + 1 := by simp [used, hq, hp, hfaults]
  have hheld := h.held q rfl hlisted
  have hle := h.unstoredLe
  simp only [Tally.neverStored] at hheld
  have hwithin : used p m ≤ max := by
    simp only [used, hp, Option.isSome_some, if_true]
    omega
  refine ⟨by simp [hnil], ?_, ?_, ?_, ?_⟩
  · rintro _ ⟨⟩ hne
    exact absurd hnil hne
  · rintro _ ⟨⟩
    exact hwithin
  · rintro _ ⟨⟩ _
    rw [hcalls, hlost]
    omega
  · rw [hcalls, hlost]
    omega

/-- A stored record that lost its anchor for one more fault. -/
theorem used_of_dropped (hmax : max < 2 ^ 32) (h : used q m ≤ max)
    {a : StoredAnchor} (hq : q.anchorEntry m = some a)
    (hp : p.anchorEntry m = none)
    (hfaults : p.anchorFaultCount m = q.anchorFaultCount m + 1) :
    used p m = used q m := by
  simp only [used, hq, Option.isSome_some, if_true] at h
  simp only [used, hq, hp, hfaults, Option.isSome_some, Option.isSome_none,
    if_true, UInt32.toNat_add]
  simp
  omega

end Budget

/-! ## Every run stays within the budget -/

theorem tick_mem_of_currentTick {log : List (Event sdk)}
    {ctx : Option WitnessContext} {now : Nat}
    (h : currentTick log = some (ctx, now)) :
    ∃ durationSecs, .tick ctx now durationSecs ∈ log := by
  induction log with
  | nil => cases h
  | cons ev log ih =>
      cases ev with
      | boot => cases h
      | tick ctx' now' durationSecs =>
          cases h
          exact ⟨durationSecs, List.mem_cons_self ..⟩
      | append | call =>
          obtain ⟨durationSecs, hin⟩ := ih h
          exact ⟨durationSecs, List.mem_cons_of_mem _ hin⟩

theorem FixedCap.tail {max : UInt32} {ev : Event sdk} {log : List (Event sdk)}
    (h : FixedCap max (ev :: log)) : FixedCap max log :=
  fun ctx now durationSecs hin =>
    h ctx now durationSecs (List.mem_cons_of_mem _ hin)

section Run

variable {st : Store sdk} {w : World sdk} {j : Job sdk}

/-- In one tick the provider is asked about an (epoch, method) at most once. -/
theorem Reach.provider_once (hst : st.Indexed) (hmethods : st.MethodsNodup)
    (h : Reach st w j) {e : Nat} (he : e < u64Max) {m : AnchorMethod} :
    ∀ v v' root root',
      .call (.createTimestamp e m root) (.ok v) ∈ thisCycle w.log →
      .call (.createTimestamp e m root') (.ok v') ∈ thisCycle w.log →
        v = v' := by
  refine h.induct (P := fun w => ∀ v v' root root',
    .call (.createTimestamp e m root) (.ok v) ∈ thisCycle w.log →
    .call (.createTimestamp e m root') (.ok v') ∈ thisCycle w.log →
      v = v') ?_ ?_
  · intro now durationSecs v v' root root' hin
    cases hin
  · intro w j ev hw hev ih v v' root root' hin hin'
    rw [hev.log_eq] at hin hin'
    cases hboundary : ev.isBoundary with
    | true =>
        simp [thisCycle, hboundary] at hin
    | false =>
        -- The new event is about a method the sealer had not come to.
        have hfirst : ∀ root v, ev = .call (.createTimestamp e m root) (.ok v) →
            ∀ root' v', .call (.createTimestamp e m root') (.ok v') ∉
              thisCycle w.log := by
          rintro root v rfl root' v' hearlier
          cases hev with
          | mint _ hminting => cases hminting
          | @provider s _ rest _ hat hcall =>
              exact (hw.ordered hst hmethods).todo s rfl he m hat.mem _ hearlier rfl
        rcases (mem_thisCycle_cons_iff hboundary).mp hin with heq | hold
        · rcases (mem_thisCycle_cons_iff hboundary).mp hin' with heq' | hold'
          · rw [← heq] at heq'
            cases heq'
            rfl
          · exact absurd hold' (hfirst root v heq.symm root' v')
        · rcases (mem_thisCycle_cons_iff hboundary).mp hin' with heq' | hold'
          · exact absurd hold (hfirst root' v' heq'.symm root v)
          · exact ih v v' root root' hold hold'

/-- A write of the record in memory, or of it without another method. -/
theorem Budget.write {max : UInt32} {e : Nat} {m : AnchorMethod}
    {ctx : WitnessContext} {now : Nat} {q p : PendingEpoch sdk}
    (h : Budget max.toNat (spend e m w.log) (some q) m)
    (honce : ∀ v v' root root',
      .call (.createTimestamp e m root) (.ok v) ∈ thisCycle w.log →
      .call (.createTimestamp e m root') (.ok v') ∈ thisCycle w.log → v = v')
    (herr : ErrorsChangeNothing w.log) (hcap : ctx.maxAnchorFaults = max)
    (hid : p.epochId = e) (hdrift : Drift w.log ctx now q p m) :
    Budget max.toNat ((spend e m w.log).carried p m) (some p) m := by
  cases hdrift with
  | agrees hagrees =>
      refine h.agrees hagrees.listed.mpr ?_ fun hnone => hagrees.entry ▸ hnone
      simp [used, hagrees.entry, hagrees.faults]
  | gained hlisted _ hq hp hfaults hbelow hev =>
      refine h.gained hlisted hq hp hfaults ?_ ?_
      · rw [← hcap]
        exact UInt32.lt_iff_toNat_lt.mp hbelow
      · intro v hv
        obtain ⟨root, hin⟩ := mem_unstored hv
        rw [hid] at hev
        exact honce _ _ _ _ hin hev
  | touched hlisted hq _ hp hfaults _ =>
      refine h.agrees hlisted.mpr ?_ ?_
      · simp [used, hq, hp, hfaults]
      · intro hnone
        rw [hq] at hnone
        cases hnone
  | dropped hlisted hq hp hfaults _ _ =>
      refine h.agrees hlisted.mpr ?_ fun _ => hp
      exact used_of_dropped max.toNat_lt (h.within q rfl) hq hp hfaults
  | unsynced _ _ _ _ _ hserved => exact absurd hserved (herr.not_unsynced _ _)

/-- How an event that is neither a boundary nor a successful provider call of
(`e`, `m`) changes the tally. -/
theorem count_cases {t : Tally} {e : Nat} {m : AnchorMethod} {ev : Event sdk}
    (hboundary : ev.isBoundary = false) (hobtains : ev.obtains e m = none) :
    t.count e m ev = t ∨ ∃ p, ev.stores = some p ∧ p.epochId = e ∧
      t.count e m ev = t.carried p m := by
  simp only [Tally.count, hboundary, hobtains]
  cases hstores : ev.stores with
  | none => exact Or.inl rfl
  | some p =>
      by_cases hid : p.epochId = e
      · exact Or.inr ⟨p, rfl, hid, by simp [hid, Tally.carried]⟩
      · exact Or.inl (by simp [hid])

/-- The tally after an event that leaves the record `after` in the store. -/
theorem count_of_after {t : Tally} {e : Nat} {m : AnchorMethod}
    {ev : Event sdk} (hev : Emits w j ev) (hboundary : ev.isBoundary = false)
    (hobtains : ev.obtains e m = none) :
    t.count e m ev = t ∨ ∃ p, (w.emit ev).store.pendingAnchors[e]? = some p ∧
      t.count e m ev = t.carried p m := by
  rcases count_cases (t := t) hboundary hobtains with hsame | ⟨p, hp, hid, hcount⟩
  · exact Or.inl hsame
  · exact Or.inr ⟨p, hid ▸ hev.stores_eq hp, hcount⟩

/-- A record that stays as it is stored. -/
theorem Budget.kept {max : Nat} {t t' : Tally} {q : PendingEpoch sdk}
    {m : AnchorMethod} (h : Budget max t (some q) m)
    (ht : t' = t ∨ t' = t.carried q m) : Budget max t' (some q) m := by
  rcases ht with rfl | rfl
  · exact h
  · exact h.agrees id rfl id

/-- No record is stored any more. -/
theorem Budget.gone {max : Nat} {t t' : Tally} {stored : Option (PendingEpoch sdk)}
    {m : AnchorMethod} (h : Budget max t stored m) (ht : t' = t) :
    Budget max t' (none : Option (PendingEpoch sdk)) m := by
  subst ht
  exact ⟨h.unstoredLe, by rintro _ ⟨⟩, by rintro _ ⟨⟩, by rintro _ ⟨⟩, h.bound⟩

/-- The record without the served method. -/
theorem Budget.served {max : Nat} {t t' : Tally} {q p : PendingEpoch sdk}
    {m : AnchorMethod} (h : Budget max t (some q) m) {a : StoredAnchor}
    (hagrees : Agrees q p m) (ha : q.anchorEntry m = some a)
    (ht : t' = t ∨ t' = t.carried (p.without m) m) :
    Budget max t' (some (p.without m)) m := by
  have hnil : t.unstored = [] := by
    by_contra hne
    rw [h.unstoredNone q rfl hne] at ha
    cases ha
  obtain rfl : t' = t := by
    rcases ht with rfl | rfl
    · rfl
    · exact carried_of_nil hnil
  have hused : used (p.without m) m ≤ used q m := by
    simp [used, PendingEpoch.anchorEntry_without, hagrees.faults]
  refine ⟨h.unstoredLe, ?_, ?_, ?_, h.bound⟩
  · rintro _ ⟨⟩ hne
    exact absurd hnil hne
  · rintro _ ⟨⟩
    exact hused.trans (h.within q rfl)
  · rintro _ ⟨⟩ hmem
    simp [PendingEpoch.mem_methods_without] at hmem

/-- A freshly sealed epoch has cost nothing. -/
theorem Budget.sealed {max : Nat} {t t' : Tally} {stored : Option (PendingEpoch sdk)}
    {m : AnchorMethod} {snapshot : SealedSnapshot} {b : EpochBatch sdk}
    {methods : List AnchorMethod} (h : Budget max t stored m)
    (hcalls : t.calls = 0)
    (ht : t' = t ∨ t' = t.carried (PendingEpoch.new snapshot b methods) m) :
    Budget max t' (some (PendingEpoch.new snapshot b methods)) m := by
  have hnone : (PendingEpoch.new snapshot b methods).anchorEntry m = none := rfl
  obtain rfl : t' = t := by
    rcases ht with rfl | rfl
    · rfl
    · exact carried_of_none hnone
  refine ⟨h.unstoredLe, ?_, ?_, ?_, h.bound⟩
  · rintro _ ⟨⟩ _
    exact hnone
  · rintro _ ⟨⟩
    exact Nat.zero_le _
  · rintro _ ⟨⟩ _
    rw [hcalls]
    exact Nat.zero_le _

/-- A successful provider call of (`e`, `m`). -/
theorem Budget.called {max : Nat} {t : Tally} {q : PendingEpoch sdk}
    {m : AnchorMethod} (h : Budget max t (some q) m) (hnil : t.unstored = [])
    (hnone : q.anchorEntry m = none) (v : TimestampValue) :
    Budget max ⟨t.calls + 1, t.lost, v :: t.unstored⟩ (some q) m := by
  have hbound := h.bound
  refine ⟨by simp [hnil], ?_, h.within, ?_, ?_⟩
  · rintro _ ⟨⟩ _
    exact hnone
  · rintro _ ⟨⟩ hmem
    have hheld := h.held q rfl hmem
    simp only [Tally.neverStored, List.length_cons] at hheld ⊢
    omega
  · simp only [Tally.neverStored, List.length_cons] at hbound ⊢
    omega

/-- What a provider call finds in the store. -/
theorem Reach.provider_finds (hst : st.Indexed) (hmethods : st.MethodsNodup)
    (h : Reach st w j) {e : Nat} {m : AnchorMethod} {root : String}
    {answer : Except String TimestampValue}
    (hev : Emits w j (.call (.createTimestamp e m root) answer)) :
    ∃ ctx now q, currentTick w.log = some (some ctx, now) ∧
      w.store.pendingAnchors[e]? = some q ∧ m ∈ q.methods ∧
      q.anchorEntry m = none ∧ q.anchorFaultCount m < ctx.maxAnchorFaults := by
  cases hev with
  | mint _ hminting => cases hminting
  | @provider s _ rest _ hat hcall =>
      have hsynced := (h.followed hst hmethods).2.1
      cases hq : w.store.pendingAnchors[s.record.epochId]? with
      | none =>
          have hnil := (hsynced.absent hq).1
          rw [hat.2] at hnil
          cases hnil
      | some q =>
          have hagrees := (hsynced.stored q hq).ahead m hat.mem
          refine ⟨s.ctx, s.now, q, h.currentTick_eq _ rfl, rfl,
            hagrees.listed.mpr (hsynced.todoListed m hat.mem),
            hagrees.entry.trans hcall.noAnchor, ?_⟩
          rw [hagrees.faults]
          exact hcall.belowCap

theorem count_of_stores {t : Tally} {e : Nat} {m : AnchorMethod}
    {ev : Event sdk} {p : PendingEpoch sdk} (hboundary : ev.isBoundary = false)
    (hobtains : ev.obtains e m = none) (hstores : ev.stores = some p)
    (hid : p.epochId = e) : t.count e m ev = t.carried p m := by
  simp [Tally.count, hboundary, hobtains, hstores, hid, Tally.carried]

/-- A boundary only moves what is not stored to what is lost. -/
theorem Budget.boundary {max : Nat} {t : Tally} {e : Nat} {m : AnchorMethod}
    {ev : Event sdk} {stored : Option (PendingEpoch sdk)}
    (h : Budget max t stored m) (hboundary : ev.isBoundary = true) :
    Budget max (t.count e m ev) stored m := by
  have hcount : t.count e m ev = ⟨t.calls, t.lost + t.unstored.length, []⟩ := by
    simp [Tally.count, hboundary]
  rw [hcount]
  exact ⟨by simp, fun q _ hne => absurd rfl hne, h.within, h.held, h.bound⟩

/-- The write of a record that is stored: one case per kind of write. -/
theorem Budget.step {max : UInt32} {e : Nat} {m : AnchorMethod}
    {q : PendingEpoch sdk} {ev : Event sdk} {after : Option (PendingEpoch sdk)}
    (h : Budget max.toNat (spend e m w.log) (some q) m)
    (hw : Reach st w j) (hst : st.Indexed) (hmethods : st.MethodsNodup)
    (he : e < u64Max) (herr : ErrorsChangeNothing w.log)
    (hcap : FixedCap max w.log) (hid : q.epochId = e)
    (hev : Emits w j ev) (hboundary : ev.isBoundary = false)
    (hobtains : ev.obtains e m = none)
    (hafter : (w.emit ev).store.pendingAnchors[e]? = after)
    (hstep : RecordStep w j q ev after) :
    Budget max.toNat ((spend e m w.log).count e m ev) after m := by
  have honce := fun v v' root root' =>
    hw.provider_once hst hmethods he (m := m) v v' root root'
  have hcapOf : ∀ s, j = .settling s → s.ctx.maxAnchorFaults = max := by
    rintro s rfl
    obtain ⟨durationSecs, hin⟩ :=
      tick_mem_of_currentTick (hw.currentTick_eq _ rfl)
    exact hcap _ _ _ hin
  have hcount : ∀ p, after = some p →
      (spend e m w.log).count e m ev = spend e m w.log ∨
        (spend e m w.log).count e m ev = (spend e m w.log).carried p m := by
    rintro p rfl
    rcases count_of_after hev hboundary hobtains with hsame | ⟨p', hp', heq⟩
    · exact Or.inl hsame
    · rw [hafter] at hp'
      cases hp'
      exact Or.inr heq
  have hgone : after = none →
      (spend e m w.log).count e m ev = spend e m w.log := by
    rintro rfl
    rcases count_of_after hev hboundary hobtains with hsame | ⟨p', hp', -⟩
    · exact hsame
    · rw [hafter] at hp'
      cases hp'
  cases hstep with
  | kept => exact h.kept (hcount q rfl)
  | @saved s o hj _ ho _ ht =>
      have hsid : s.record.epochId = e := by rw [← ht.same.1, hid]
      rw [count_of_stores rfl rfl (by simp [Event.stores, ho]) hsid]
      exact h.write honce herr (hcapOf s hj) hsid (ht.drift m)
  | @served s done v minted o hj hphase ho _ _ ht =>
      have hsid : s.record.epochId = e := by rw [← ht.same.1, hid]
      by_cases hnil : (s.record.without done).methods = []
      · rw [if_pos hnil] at hgone ⊢
        exact h.gone (hgone rfl)
      · rw [if_neg hnil] at hcount ⊢
        by_cases hdone : done = m
        · subst hdone
          have hfits := ht.fits
          simp only [Settling.Fits, hphase] at hfits
          obtain ⟨-, -, hagrees, a, ha, -⟩ := hfits
          exact h.served hagrees ha (hcount _ rfl)
        · rw [count_of_stores rfl rfl (by simp [Event.stores, ho, hnil])
            (show (s.record.without done).epochId = e from hsid)]
          exact h.write honce herr (hcapOf s hj) hsid
            ((ht.drift m).congr (PendingEpoch.sameEpoch_without _ _)
              (agrees_without hdone))

/-- Every run from an empty store stays within the budget. -/
theorem Reach.budget (h : Reach Store.empty w j) {max : UInt32} {e : Nat}
    (he : e < u64Max) (m : AnchorMethod) :
    ErrorsChangeNothing w.log → FixedCap max w.log →
      Budget max.toNat (spend e m w.log) w.store.pendingAnchors[e]? m := by
  have hst : (Store.empty : Store sdk).Indexed := indexed_empty
  have hmethods : (Store.empty : Store sdk).MethodsNodup := methodsNodup_empty
  refine h.induct (P := fun w => ErrorsChangeNothing w.log →
    FixedCap max w.log →
      Budget max.toNat (spend e m w.log) w.store.pendingAnchors[e]? m) ?_ ?_
  · intro now durationSecs _ _
    refine ⟨Nat.zero_le _, ?_, ?_, ?_, Nat.zero_le _⟩ <;>
      · intro q hq
        simp [World.boot, Store.empty] at hq
  · intro w j ev hw hev ih herr hcap
    rw [hev.log_eq] at herr hcap ⊢
    have hold := ih herr.tail hcap.tail
    simp only [spend]
    cases hboundary : ev.isBoundary with
    | true =>
        have hstore : (w.emit ev).store = w.store := by
          rw [hev.store_eq]
          cases ev <;> first | rfl | cases hboundary
        rw [hstore]
        exact hold.boundary hboundary
    | false =>
        cases hobtains : ev.obtains e m with
        | some v =>
            obtain ⟨root, rfl⟩ := obtains_eq_some hobtains
            obtain ⟨ctx, now, q, -, hq, -, hnone, -⟩ :=
              hw.provider_finds hst hmethods hev
            have hnil : (spend e m w.log).unstored = [] := by
              refine List.eq_nil_iff_forall_not_mem.mpr fun v' hv' => ?_
              obtain ⟨root', hin⟩ := mem_unstored hv'
              cases hev with
              | mint _ hminting => cases hminting
              | @provider s _ rest _ hat _ =>
                  exact (hw.ordered hst hmethods).todo s rfl he m hat.mem _ hin rfl
            rw [hq] at hold
            have hcount : (spend e m w.log).count e m
                (.call (.createTimestamp e m root) (.ok v) : Event sdk) =
                ⟨(spend e m w.log).calls + 1, (spend e m w.log).lost,
                  v :: (spend e m w.log).unstored⟩ := by
              simp [Tally.count, hboundary, hobtains]
            rw [hcount, store_emit_call, after_of_not_write _ rfl, hq]
            exact hold.called hnil hnone v
        | none =>
            cases hq : w.store.pendingAnchors[e]? with
            | some q =>
                rw [hq] at hold
                exact hold.step hw hst hmethods he herr.tail hcap.tail
                  ((hw.grounded hst).store.pending e q hq).2 hev hboundary
                  hobtains rfl (hw.record_step hst hmethods hev he hq)
            | none =>
                rcases hw.absent_step hst hmethods hev hq with
                  hnone | ⟨snapshot, c, b, record, hseal⟩
                · rw [hnone]
                  refine hold.gone ?_
                  rcases count_of_after hev hboundary hobtains with
                    hsame | ⟨p, hp, -⟩
                  · exact hsame
                  · rw [hnone] at hp
                    cases hp
                · have hsid := hseal.id
                  have hsome := hseal.stored
                  have hfresh :=
                    (hw.grounded hst).fresh hseal.closes (hsid ▸ he)
                  have hcalls := calls_eq_zero (m := m) fun ev' hev' =>
                    (hw.ordered hst hmethods).unsealed _ hfresh ev' hev' m
                  rw [hsid] at hcalls
                  rw [hsome]
                  refine hold.sealed hcalls ?_
                  rcases count_of_after hev hboundary hobtains with
                    hsame | ⟨p, hp, heq⟩
                  · exact Or.inl hsame
                  · rw [hsome] at hp
                    cases hp
                    exact Or.inr heq

/-! ## The fault counter -/

/-- A record in memory has used no more than the cap when the stored one has
not. -/
theorem Drift.used_le {log : List (Event sdk)} {ctx : WitnessContext}
    {now : Nat} {q p : PendingEpoch sdk} {m : AnchorMethod}
    (h : Drift log ctx now q p m) (herr : ErrorsChangeNothing log)
    (hq : used q m ≤ ctx.maxAnchorFaults.toNat) :
    used p m ≤ ctx.maxAnchorFaults.toNat := by
  cases h with
  | agrees h =>
      rw [show used p m = used q m by simp [used, h.entry, h.faults]]
      exact hq
  | gained _ _ _ hp _ hbelow _ =>
      have hlt := UInt32.lt_iff_toNat_lt.mp hbelow
      simp only [used, hp, Option.isSome_some, if_true]
      omega
  | touched _ hq' _ hp hfaults _ =>
      rw [show used p m = used q m by simp [used, hq', hp, hfaults]]
      exact hq
  | dropped _ hq' hp hfaults _ _ =>
      rw [used_of_dropped (UInt32.toNat_lt _) hq hq' hp hfaults]
      exact hq
  | unsynced _ _ _ _ _ hserved => exact absurd hserved (herr.not_unsynced _ _)

/-- The record in memory has used no more than the cap, while it is written. -/
theorem Reach.record_used_le (hst : st.Indexed) (hmethods : st.MethodsNodup)
    {s : Settling sdk} (h : Reach st w (.settling s))
    (herr : ErrorsChangeNothing w.log) {max : UInt32} (hcap : FixedCap max w.log)
    (hphase : s.phase ≠ .ready)
    (hwithin : ∀ (e : Nat) q m, w.store.pendingAnchors[e]? = some q →
      used q m ≤ max.toNat) (m : AnchorMethod) :
    used s.record m ≤ max.toNat := by
  obtain ⟨durationSecs, hin⟩ := tick_mem_of_currentTick (h.currentTick_eq _ rfl)
  obtain rfl := hcap _ _ _ hin
  have hsynced := (h.followed hst hmethods).2.1
  cases hq : w.store.pendingAnchors[s.record.epochId]? with
  | none => exact absurd (hsynced.absent hq).2 hphase
  | some q =>
      exact ((hsynced.stored q hq).drift m).used_le herr (hwithin _ q m hq)

theorem Phase.Saves.ne_ready {phase : Phase sdk} (h : phase.Saves) :
    phase ≠ .ready := by
  rintro rfl
  rcases h with ⟨m, v, hp⟩ | ⟨m, hp⟩ <;> cases hp

/-- No stored record has used more than the cap. -/
theorem Reach.used_le (h : Reach Store.empty w j) {max : UInt32} :
    ErrorsChangeNothing w.log → FixedCap max w.log →
      ∀ (e : Nat) q m, w.store.pendingAnchors[e]? = some q →
        used q m ≤ max.toNat := by
  have hst : (Store.empty : Store sdk).Indexed := indexed_empty
  have hmethods : (Store.empty : Store sdk).MethodsNodup := methodsNodup_empty
  refine h.induct (P := fun w => ErrorsChangeNothing w.log →
    FixedCap max w.log → ∀ (e : Nat) q m,
      w.store.pendingAnchors[e]? = some q → used q m ≤ max.toNat) ?_ ?_
  · intro now durationSecs _ _ e q m hq
    simp [World.boot, Store.empty] at hq
  · intro w j ev hw hev ih herr hcap e q m hq
    rw [hev.log_eq] at herr hcap
    have hold := ih herr.tail hcap.tail
    have hwritten := hev.written
    generalize (w.emit ev).store = st' at hwritten hq
    cases hwritten with
    | unchanged => exact hold e q m hq
    | @saved s o hphase _ =>
        by_cases hid : s.record.epochId = e
        · subst hid
          rw [savePending_self] at hq
          cases hq
          exact hw.record_used_le hst hmethods herr.tail hcap.tail
            hphase.ne_ready hold m
        · rw [savePending_of_ne _ _ hid] at hq
          exact hold e q m hq
    | @served s done v minted o st' hphase _ hserved =>
        have hle := hw.record_used_le hst hmethods herr.tail hcap.tail
          (by rw [hphase]; rintro ⟨⟩) hold m
        by_cases hid : (s.record.without done).epochId = e
        · subst hid
          rw [hserved.pending_self] at hq
          split at hq
          · cases hq
          · cases hq
            refine le_trans ?_ hle
            simp only [used, PendingEpoch.anchorFaultCount_without,
              PendingEpoch.anchorEntry_without]
            by_cases hdone : done = m <;> simp [hdone]
        · rw [hserved.pending_of_ne hid] at hq
          exact hold e q m hq
    | sealed _ _ _ hsealed =>
        rw [hsealed.pendingAnchors] at hq
        split at hq
        · exact hold e q m hq
        · rename_i p hp
          obtain ⟨c, b, -, -, -, rfl⟩ := pendingFor_eq_some hp
          rw [getElem?_put] at hq
          split at hq
          · cases hq
            exact Nat.zero_le _
          · exact hold e q m hq

end Run

/-- The bound on what one (epoch, method) costs.  Over any run from an empty
store in which writes that report an error change nothing, with a fixed cap:
the successful provider calls of an epoch below `u64::MAX` are at most the cap
and those whose anchor never reached a stored record; no provider is called
while the stored record holds an anchor or has reached the cap; and the fault
counter never exceeds the cap, neither in the store nor in what is saved. -/
theorem anchor_spend_bounded {w : World sdk} (hw : Visited Store.empty w)
    (herr : ErrorsChangeNothing w.log) {max : UInt32}
    (hcap : FixedCap max w.log) (m : AnchorMethod) :
    (∀ e < u64Max, (spend e m w.log).calls ≤
      max.toNat + (spend e m w.log).neverStored) ∧
    (∀ e root answer l,
      .call (.createTimestamp e m root) answer :: l <:+ w.log →
        ∃ q, (storeOf Store.empty l).pendingAnchors[e]? = some q ∧
          q.anchorEntry m = none ∧ q.anchorFaultCount m < max) ∧
    (∀ (e : Nat) q, w.store.pendingAnchors[e]? = some q →
      q.anchorFaultCount m ≤ max) ∧
    (∀ p o l, .call (.savePending p) o :: l <:+ w.log →
      p.anchorFaultCount m ≤ max) := by
  obtain ⟨j, hj⟩ := reach_of_visited hw
  have hst : (Store.empty : Store sdk).Indexed := indexed_empty
  have hmethods : (Store.empty : Store sdk).MethodsNodup := methodsNodup_empty
  have hcount : ∀ q : PendingEpoch sdk, used q m ≤ max.toNat →
      q.anchorFaultCount m ≤ max := by
    intro q hq
    refine UInt32.le_iff_toNat_le.mpr ?_
    unfold used at hq
    omega
  refine ⟨?_, ?_, ?_, ?_⟩
  · intro e he
    have hbound := (hj.budget he m herr hcap).bound
    omega
  · intro e root answer l hl
    obtain ⟨w₀, j₀, hw₀, rfl, hstore, hev⟩ := hj.called hl
    obtain ⟨ctx, now, q, htick, hq, -, hnone, hlt⟩ :=
      hw₀.provider_finds hst hmethods hev
    obtain ⟨durationSecs, hin⟩ := tick_mem_of_currentTick htick
    have hmem := ((List.suffix_cons _ _).trans hl).subset hin
    rw [hcap _ _ _ hmem] at hlt
    exact ⟨q, hstore ▸ hq, hnone, hlt⟩
  · exact fun e q hq => hcount q (hj.used_le herr hcap e q m hq)
  · intro p o l hl
    obtain ⟨w₀, j₀, hw₀, rfl, -, hev⟩ := hj.called hl
    have hsub := (List.suffix_cons _ _).trans hl
    have herr₀ : ErrorsChangeNothing w₀.log :=
      fun ev hev => herr ev (hsub.subset hev)
    have hcap₀ : FixedCap max w₀.log :=
      fun ctx now durationSecs hin => hcap _ _ _ (hsub.subset hin)
    cases hev with
    | mint _ hminting => cases hminting
    | save hphase =>
        exact hcount _ (hw₀.record_used_le hst hmethods herr₀ hcap₀
          hphase.ne_ready (hw₀.used_le herr₀ hcap₀) m)

/-! ## The bound, by evaluation -/

/-- A seal cycle runs with the fault cap `max`. -/
def Event.runsWithCap (max : UInt32) : Event sdk → Bool
  | .tick (some ctx) _ _ => decide (ctx.maxAnchorFaults = max)
  | _ => true

theorem FixedCap.of_events {max : UInt32} {log : List (Event sdk)}
    (h : ∀ ev ∈ log, ev.runsWithCap max = true) : FixedCap max log :=
  fun _ _ _ hin => of_decide_eq_true (h _ hin)

/-- No cycle of an idle past runs with a context. -/
theorem FixedCap.append_idle {max : UInt32} {l past : List (Event sdk)}
    (h : FixedCap max l) (hpast : ∀ ev ∈ past, ev.isIdle = true) :
    FixedCap max (l ++ past) := by
  intro ctx now durationSecs hin
  rcases List.mem_append.mp hin with hnew | hold
  · exact h ctx now durationSecs hnew
  · cases hpast _ hold

theorem anchor_spend_bounded_missingRun :
    (spend 1 .evm Sample.missingRun.log).calls = 1 ∧
      (∀ e < u64Max, (spend e .evm Sample.missingRun.log).calls ≤
        (3 : UInt32).toNat + (spend e .evm Sample.missingRun.log).neverStored) ∧
      (∀ e root answer l, .call (.createTimestamp e .evm root) answer :: l <:+
        Sample.missingRun.log →
          ∃ q, (storeOf Store.empty l).pendingAnchors[e]? = some q ∧
            q.anchorEntry .evm = none ∧ q.anchorFaultCount .evm < 3) ∧
      (∀ (e : Nat) q, Sample.missingRun.store.pendingAnchors[e]? = some q →
        q.anchorFaultCount .evm ≤ 3) ∧
      (∀ p o l, .call (.savePending p) o :: l <:+ Sample.missingRun.log →
        p.anchorFaultCount .evm ≤ 3) := by
  have hrun : (spend 1 .evm Sample.missingRun.log).calls = 1 ∧
      ErrorsChangeNothing Sample.missingRun.log ∧
      ∀ ev ∈ Sample.missingRun.log, ev.runsWithCap 3 = true := by
    decide +kernel
  exact ⟨hrun.1, anchor_spend_bounded (.between (reachable_replay _)) hrun.2.1
    (.of_events hrun.2.2) .evm⟩

/-- Nothing is spent in an idle past. -/
theorem spend_append_idle {l past : List (Event sdk)} {e : Nat}
    {m : AnchorMethod} (hpast : ∀ ev ∈ past, ev.isIdle = true) :
    spend e m (l ++ past) = spend e m l := by
  induction l with
  | nil =>
      rw [List.nil_append]
      induction past with
      | nil => rfl
      | cons ev past ih =>
          have hrest := ih fun ev' hev' => hpast ev' (List.mem_cons_of_mem _ hev')
          have hidle := hpast ev (List.mem_cons_self ..)
          simp only [spend] at hrest ⊢
          rw [hrest]
          unfold Event.isIdle at hidle
          split at hidle <;> first | rfl | cases hidle
  | cons ev l ih =>
      simp only [List.cons_append, spend, ih]

/-- The last epoch id is sealed twice, with a cap of one fault; both anchors
are stored. -/
def Sample.twicePaidRun : List (Move Sample.sdk) :=
  let ctx : WitnessContext := { Sample.ctx [.evm] with maxAnchorFaults := 1 }
  [.append [Sample.leaf 1] "did:a",
    .cycle (some ctx) 10 60
      { Sample.honest "1" with check := fun _ _ _ => .ok Sample.notFinal },
    .append [Sample.leaf 2] "did:a",
    .cycle (some ctx) 20 60
      { Sample.honest "2" with check := fun _ _ _ => .ok Sample.notFinal }]

theorem exists_spend_exceeds_cap :
    ∃ w : World Sample.sdk, Visited Store.empty w ∧ ErrorsChangeNothing w.log ∧
      FixedCap 1 w.log ∧
      (1 : UInt32).toNat + (spend u64Max .evm w.log).neverStored <
        (spend u64Max .evm w.log).calls := by
  have hmoves : ∀ move ∈ Sample.twicePaidRun, move.keepsProcess = true := by
    decide
  obtain ⟨w, past, hw, hidle, hend⟩ := exists_twin_playAll hmoves
  have hlog := hend.log
  have hrun : ErrorsChangeNothing
        ((lastEpoch Sample.sdk).playAll Sample.twicePaidRun).log ∧
      (∀ ev ∈ ((lastEpoch Sample.sdk).playAll Sample.twicePaidRun).log,
        ev.runsWithCap 1 = true) ∧
      (1 : UInt32).toNat + (spend u64Max .evm
        ((lastEpoch Sample.sdk).playAll Sample.twicePaidRun).log).neverStored <
      (spend u64Max .evm
        ((lastEpoch Sample.sdk).playAll Sample.twicePaidRun).log).calls := by
    decide +kernel
  obtain ⟨herr, hcap, hspend⟩ := hrun
  refine ⟨w, hw, ?_, ?_, ?_⟩
  · exact hlog ▸ herr.append_idle hidle
  · exact hlog ▸ (FixedCap.of_events hcap).append_idle hidle
  · rw [hlog, spend_append_idle hidle]
    exact hspend

end AquaTimestamp
