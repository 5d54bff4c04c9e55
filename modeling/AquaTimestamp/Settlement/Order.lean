import AquaTimestamp.Settlement.Tracking

/-!
# Each (epoch, method) once per tick

In one tick the sealer comes to a pending (epoch, method) once: it asks the
provider at most once, checks at most one list of witnesses, and writes at
most that list.  The proof keeps track of the methods and records still to
come, about which nothing has happened in the tick.  Ids that have run out are
left out: two epochs stored under `u64::MAX` are not told apart.
-/

namespace AquaTimestamp

open Support Partition

variable {sdk : Sdk}

/-- The (epoch, method) an event of the settlement is about. -/
def Event.about : Event sdk → Option (Nat × AnchorMethod)
  | .call (.createTimestamp e m _) _ => some (e, m)
  | .call (.selfCheck e m _ _ _ _) _ => some (e, m)
  | .call (.persistPendingMinted p m _) _ => some (p.epochId, m)
  | _ => none

/-- Provider calls. -/
def Event.isProvider : Event sdk → Bool
  | .call (.createTimestamp ..) _ => true
  | _ => false

/-- The listed records a job has not come to. -/
def Job.waiting : Job sdk → List (PendingEpoch sdk)
  | .retrying _ _ _ _ queue => queue
  | .settling s => s.later.getD []
  | _ => []

/-- What has happened to the current method in this tick. -/
def Settling.Progress (s : Settling sdk) (log : List (Event sdk)) : Prop :=
  match s.phase with
  | .ready | .resaving _ => True
  | .unsaved m _ | .anchored m _ =>
      ∀ ev ∈ thisCycle log, ev.about = some (s.record.epochId, m) →
        ev.isProvider = true
  | .judged m v minted verdict =>
      ∀ ev ∈ thisCycle log, ev.about = some (s.record.epochId, m) →
        ev.isProvider = true ∨ ∃ answer,
          ev = .call (.selfCheck s.record.epochId m v minted s.ctx.serviceDid
            s.ctx.selfCheck) answer ∧
          verdict = firstUnverified minted
            (selfCheckVerdicts s.ctx.selfCheck s.ctx.serviceDid minted answer)

/-- Nothing has happened in this tick to what the job has not come to. -/
structure Ordered (w : World sdk) (j : Job sdk) : Prop where
  unsealed : ∀ e, e ∉ w.store.epochs → ∀ ev ∈ w.log, ∀ m,
    ev.about ≠ some (e, m)
  entered : ∀ ctx now durationSecs, j = .entered ctx now durationSecs →
    ∀ ev ∈ thisCycle w.log, ev.about = none
  waiting : ∀ p ∈ j.waiting, p.epochId < u64Max →
    ∀ ev ∈ thisCycle w.log, ∀ m, ev.about ≠ some (p.epochId, m)
  todo : ∀ s, j = .settling s → s.record.epochId < u64Max → ∀ m ∈ s.todo,
    ∀ ev ∈ thisCycle w.log, ev.about ≠ some (s.record.epochId, m)
  progress : ∀ s, j = .settling s → s.record.epochId < u64Max →
    s.Progress w.log

/-- A phase other than `ready` is about a method the sealer has come to. -/
theorem Synced.current_not_todo {w : World sdk} {s : Settling sdk}
    (h : Synced w s) {m : AnchorMethod}
    (hphase : (∃ v, s.phase = .unsaved m v) ∨ (∃ v, s.phase = .anchored m v) ∨
      ∃ v minted verdict, s.phase = .judged m v minted verdict) :
    m ∉ s.todo := by
  cases hq : w.store.pendingAnchors[s.record.epochId]? with
  | none =>
      have hready := (h.absent hq).2
      rcases hphase with ⟨v, hp⟩ | ⟨v, hp⟩ | ⟨v, minted, verdict, hp⟩ <;>
        · rw [hp] at hready
          cases hready
  | some q =>
      have hfits := (h.stored q hq).fits
      rcases hphase with ⟨v, hp⟩ | ⟨v, hp⟩ | ⟨v, minted, verdict, hp⟩ <;>
        · simp only [Settling.Fits, hp] at hfits
          exact hfits.1

/-! ## Steps -/

section Steps

variable {w w' : World sdk} {s s' : Settling sdk}

/-- What a step adds to the history: nothing, an event about no method, or an
event about a method it has come to. -/
def Adds (w w' : World sdk) (s s' : Settling sdk) : Prop :=
  w'.log = w.log ∨ ∃ ev, w'.log = ev :: w.log ∧ ev.isBoundary = false ∧
    ∀ e m, ev.about = some (e, m) → e = s.record.epochId ∧ m ∉ s'.todo

theorem Adds.quiet {c : Call sdk} {answer : Answer c}
    (h : Event.about (.call c answer) = none) : Adds w (w.after c answer) s s' :=
  Or.inr ⟨_, rfl, rfl, fun e m hsome => by rw [h] at hsome; cases hsome⟩

theorem Adds.own {c : Call sdk} {answer : Answer c} {m : AnchorMethod}
    (h : Event.about (.call c answer) = some (s.record.epochId, m))
    (hm : m ∉ s'.todo) : Adds w (w.after c answer) s s' := by
  refine Or.inr ⟨_, rfl, rfl, fun e m' hsome => ?_⟩
  rw [h] at hsome
  cases hsome
  exact ⟨rfl, hm⟩

theorem Adds.cases {w w' : World sdk} {ev : Event sdk} (h : Adds w w' s s')
    (hev : ev ∈ thisCycle w'.log) {e : Nat} {m : AnchorMethod}
    (habout : ev.about = some (e, m)) :
    ev ∈ thisCycle w.log ∨ e = s.record.epochId ∧ m ∉ s'.todo := by
  rcases h with hlog | ⟨new, hlog, hnew, hall⟩
  · rw [hlog] at hev
    exact Or.inl hev
  · rw [hlog] at hev
    rcases (mem_thisCycle_cons_iff hnew).mp hev with rfl | hold
    · exact Or.inr (hall e m habout)
    · exact Or.inl hold

/-- One step of settling a record, from what it adds to the history. -/
theorem Ordered.advance (h : Ordered w (.settling s))
    (hown : s.record.epochId ∈ w.store.epochs)
    (hothers : ∀ p ∈ s.later.getD [], s.record.epochId ≠ p.epochId)
    (hid : s'.record.epochId = s.record.epochId) (hlater : s'.later = s.later)
    (htodo : s'.todo <:+ s.todo) (hepochs : w'.store.epochs = w.store.epochs)
    (hadds : Adds w w' s s')
    (hprogress : s.record.epochId < u64Max → s'.Progress w'.log) :
    Ordered w' (.settling s') where
  unsealed e he ev hev m habout := by
    rw [hepochs] at he
    have hold : ev ∈ w.log ∨ e = s.record.epochId := by
      rcases hadds with hlog | ⟨new, hlog, -, hall⟩
      · exact Or.inl (hlog ▸ hev)
      · rw [hlog] at hev
        rcases List.mem_cons.mp hev with rfl | hold
        · exact Or.inr (hall e m habout).1
        · exact Or.inl hold
    rcases hold with hold | rfl
    · exact h.unsealed e he ev hold m habout
    · exact he hown
  entered := by rintro _ _ _ ⟨⟩
  waiting p hp hlt ev hev m habout := by
    have hp' : p ∈ s.later.getD [] := by rw [← hlater]; exact hp
    rcases hadds.cases hev habout with hold | ⟨heq, -⟩
    · exact h.waiting p hp' hlt ev hold m habout
    · exact hothers p hp' heq.symm
  todo := by
    rintro _ ⟨⟩ hlt m hm ev hev habout
    rw [hid] at hlt habout
    rcases hadds.cases hev habout with hold | ⟨-, hnot⟩
    · exact h.todo s rfl hlt m (htodo.subset hm) ev hold habout
    · exact hnot hm
  progress := by
    rintro _ ⟨⟩ hlt
    exact hprogress (hid ▸ hlt)

/-- An event about no method changes no progress. -/
theorem Settling.Progress.quiet {log : List (Event sdk)} {new : Event sdk}
    (hnew : new.isBoundary = false) (hquiet : new.about = none)
    (h : s.Progress log) : s.Progress (new :: log) := by
  have hold : ∀ ev ∈ thisCycle (new :: log), ∀ m,
      ev.about = some (s.record.epochId, m) → ev ∈ thisCycle log := by
    intro ev hev m habout
    rcases (mem_thisCycle_cons_iff hnew).mp hev with rfl | hev
    · rw [hquiet] at habout
      cases habout
    · exact hev
  unfold Settling.Progress at h ⊢
  split at h
  · trivial
  · trivial
  all_goals exact fun ev hev habout => h ev (hold ev hev _ habout) habout

theorem Settles.epochs_eq (h : Settles w s w' s') :
    w'.store.epochs = w.store.epochs := by
  rcases h.emits with rfl | ⟨ev, hev, rfl⟩
  · rfl
  · have hwritten := hev.written
    generalize (w.emit ev).store = st' at hwritten
    cases hwritten with
    | unchanged | saved => rfl
    | served _ _ hserved => exact hserved.epochs

theorem about_of_minting {c : Call sdk} {answer : Answer c}
    (h : c.isMinting = true) : Event.about (.call c answer) = none := by
  cases c <;> first | rfl | cases h

theorem Ordered.settles (h : Ordered w (.settling s)) (hstep : Settles w s w' s')
    (hsynced : Synced w s) (hown : s.record.epochId ∈ w.store.epochs)
    (hothers : ∀ p ∈ s.later.getD [], s.record.epochId ≠ p.epochId) :
    Ordered w' (.settling s') := by
  obtain ⟨hsame, hlater, -⟩ := hstep.frame
  have hgo := fun htodo => h.advance hown hothers hsame.1 hlater htodo
    hstep.epochs_eq
  have hprogress := h.progress s rfl
  cases hstep with
  | skip hat | unwired hat =>
      refine hgo hat.suffix (Or.inl rfl) fun _ => ?_
      simp [Settling.Progress, hat.1]
  | refused hat =>
      refine hgo hat.suffix (Adds.own rfl (hsynced.not_mem_rest hat)) fun _ => ?_
      simp [Settling.Progress, hat.1]
  | @obtained m rest v hat =>
      refine hgo hat.suffix (Adds.own rfl (hsynced.not_mem_rest hat)) ?_
      intro hlt ev hev habout
      rcases (mem_thisCycle_cons_iff rfl).mp hev with rfl | hold
      · rfl
      · exact absurd habout (h.todo s rfl hlt m hat.mem ev hold)
  | @store m v o hphase =>
      refine hgo (List.suffix_refl _) (Adds.quiet rfl) fun hlt => ?_
      have hnew : s.Progress (.call (.savePending s.record) o :: w.log) :=
        (hprogress hlt).quiet rfl rfl
      simp only [Settling.Progress, hphase] at hnew
      cases hok : o.isOk with
      | true => exact hnew
      | false => exact hnew
  | giveUp | mintFailed | keep | blame =>
      exact hgo (List.suffix_refl _) (Or.inl rfl) fun _ => trivial
  | @wait m v minted reason a =>
      refine hgo (List.suffix_refl _) (Or.inl rfl) fun _ => ?_
      cases hfirst : a.firstSeen.isSome with
      | true => trivial
      | false => trivial
  | abandon => exact hgo (List.suffix_refl _) (Or.inl rfl) fun _ => trivial
  | @hold m rest a hat =>
      refine hgo hat.suffix (Or.inl rfl) ?_
      intro hlt ev hev habout
      exact absurd habout (h.todo s rfl hlt m hat.mem ev hev)
  | @mint m v c answer hphase hminting =>
      have hquiet : Event.about (.call c answer) = none :=
        about_of_minting hminting
      exact hgo (List.suffix_refl _) (Adds.quiet hquiet) fun hlt =>
        (hprogress hlt).quiet rfl hquiet
  | @judge m v minted snapshot batch answer hphase =>
      have hnot := hsynced.current_not_todo (Or.inr (Or.inl ⟨v, hphase⟩))
      refine hgo (List.suffix_refl _) (Adds.own rfl hnot) ?_
      intro hlt ev hev habout
      have hold := hprogress hlt
      simp only [Settling.Progress, hphase] at hold
      rcases (mem_thisCycle_cons_iff rfl).mp hev with rfl | hev
      · exact Or.inr ⟨answer, rfl, rfl⟩
      · exact Or.inl (hold ev hev habout)
  | resave => exact hgo (List.suffix_refl _) (Adds.quiet rfl) fun _ => trivial
  | @serve m v minted o hphase =>
      have hnot := hsynced.current_not_todo
        (Or.inr (Or.inr ⟨v, minted, none, hphase⟩))
      exact hgo (List.suffix_refl _) (Adds.own rfl hnot) fun _ => trivial

end Steps

/-! ## Every job of the machine -/

section Run

variable {w : World sdk} {j j' : Job sdk}

/-- A step outside of settling, from what it adds to the history. -/
theorem Ordered.outside (h : Ordered w j) {w' : World sdk}
    (hepochs : ∀ e ∈ w.store.epochs, e ∈ w'.store.epochs)
    (hlog : w'.log = w.log ∨
      ∃ ev, w'.log = ev :: w.log ∧ ev.isBoundary = false ∧ ev.about = none)
    (hentered : ∀ ctx now durationSecs, j' = .entered ctx now durationSecs →
      j = .entered ctx now durationSecs)
    (hwaiting : ∀ p ∈ j'.waiting, p ∈ j.waiting)
    (hsettling : ∀ s, j' = .settling s → s.record.epochId < u64Max →
      s.phase = .ready ∧ ∀ ev ∈ thisCycle w'.log, ∀ m ∈ s.todo,
        ev.about ≠ some (s.record.epochId, m)) : Ordered w' j' := by
  have hold : ∀ ev ∈ thisCycle w'.log, ev ∈ thisCycle w.log ∨
      ev.about = none := by
    intro ev hev
    rcases hlog with heq | ⟨new, heq, hnew, hquiet⟩
    · exact Or.inl (heq ▸ hev)
    · rw [heq] at hev
      rcases (mem_thisCycle_cons_iff hnew).mp hev with rfl | hev
      · exact Or.inr hquiet
      · exact Or.inl hev
  refine ⟨?_, ?_, ?_, ?_, ?_⟩
  · intro e he ev hev m habout
    have he' : e ∉ w.store.epochs := fun hmem => he (hepochs e hmem)
    rcases hlog with heq | ⟨new, heq, -, hquiet⟩
    · exact h.unsealed e he' ev (heq ▸ hev) m habout
    · rw [heq] at hev
      rcases List.mem_cons.mp hev with rfl | hev
      · rw [hquiet] at habout
        cases habout
      · exact h.unsealed e he' ev hev m habout
  · intro ctx now durationSecs hj ev hev
    rcases hold ev hev with hev | hquiet
    · exact h.entered ctx now durationSecs (hentered _ _ _ hj) ev hev
    · exact hquiet
  · intro p hp hlt ev hev m habout
    rcases hold ev hev with hev | hquiet
    · exact h.waiting p (hwaiting p hp) hlt ev hev m habout
    · rw [hquiet] at habout
      cases habout
  · exact fun s hj hlt m hm ev hev => (hsettling s hj hlt).2 ev hev m hm
  · intro s hj hlt
    simp [Settling.Progress, (hsettling s hj hlt).1]

/-- A boundary of the history leaves nothing in the tick. -/
theorem Ordered.boundary (h : Ordered w j) {w' : World sdk} {ev : Event sdk}
    (hepochs : w'.store.epochs = w.store.epochs) (hlog : w'.log = ev :: w.log)
    (hev : ev.isBoundary = true) (hquiet : ev.about = none) : Ordered w' j' := by
  have hempty : thisCycle w'.log = [] := by simp [hlog, thisCycle, hev]
  refine ⟨?_, ?_, ?_, ?_, ?_⟩
  · intro e he ev' hev' m habout
    rw [hepochs] at he
    rw [hlog] at hev'
    rcases List.mem_cons.mp hev' with rfl | hold
    · rw [hquiet] at habout
      cases habout
    · exact h.unsealed e he ev' hold m habout
  · intro _ _ _ _ ev hin
    rw [hempty] at hin
    cases hin
  · intro _ _ _ ev hin
    rw [hempty] at hin
    cases hin
  · intro _ _ _ _ _ ev hin
    rw [hempty] at hin
    cases hin
  · intro s _ _
    unfold Settling.Progress
    rw [hempty]
    split
    · trivial
    · trivial
    all_goals
      rintro ev ⟨⟩

theorem Ordered.append (h : Ordered w j) (hg : Grounded w j)
    (hothers : ∀ s, j = .settling s →
      ∀ p ∈ s.later.getD [], s.record.epochId ≠ p.epochId)
    (batch : List Hash32) (did : String) : Ordered (w.append batch did) j := by
  have hlog : ∃ ev, (w.append batch did).log = ev :: w.log ∧
      ev.isBoundary = false ∧ ev.about = none := ⟨_, rfl, rfl, rfl⟩
  cases j with
  | settling s =>
      refine h.advance (hg.records _ (List.mem_cons_self ..)) (hothers s rfl) rfl
        rfl (List.suffix_refl _) rfl ?_ ?_
      · obtain ⟨ev, heq, hnew, hquiet⟩ := hlog
        exact Or.inr ⟨ev, heq, hnew, fun e m hsome => by
          rw [hquiet] at hsome
          cases hsome⟩
      · exact fun hlt => (h.progress s rfl hlt).quiet rfl rfl
  | idle | entered | retrying | closing =>
      exact h.outside (fun _ => id) (Or.inr hlog) (fun _ _ _ => id)
        (fun _ => id) (by rintro s ⟨⟩)

/-- In every run each (epoch, method) is come to once per tick. -/
theorem Reach.ordered {st : Store sdk} (hst : st.Indexed)
    (hmethods : st.MethodsNodup) (h : Reach st w j) : Ordered w j := by
  induction h with
  | boot now durationSecs =>
      refine ⟨?_, by rintro _ _ _ ⟨⟩, by rintro _ ⟨⟩, by rintro _ ⟨⟩,
        by rintro _ ⟨⟩⟩
      intro e _ ev hev m habout
      obtain rfl : ev = .boot now durationSecs := by
        simpa [World.boot] using hev
      cases habout
  | append batch did hw ih =>
      refine ih.append (hw.grounded hst) ?_ batch did
      rintro s rfl
      exact (hw.followed hst hmethods).2.2.2
  | restart _ _ _ ih => exact ih.boundary rfl rfl rfl rfl
  | tick _ _ _ _ ih => exact ih.boundary rfl rfl rfl rfl
  | refuse _ ih | fail _ _ ih | finish _ _ _ _ ih | plain _ ih =>
      exact ih.outside (fun _ => id) (Or.inl rfl) (by rintro _ _ _ ⟨⟩)
        (by rintro _ ⟨⟩) (by rintro _ ⟨⟩)
  | @list w ctx now durationSecs answer _ _ ih =>
      have hquiet := ih.entered _ _ _ rfl
      refine ⟨?_, by rintro _ _ _ ⟨⟩, ?_, by rintro _ ⟨⟩, by rintro _ ⟨⟩⟩
      · intro e he ev hev m habout
        rcases List.mem_cons.mp hev with rfl | hev
        · cases habout
        · exact ih.unsealed e he ev hev m habout
      · intro p _ _ ev hev m habout
        rcases (mem_thisCycle_cons_iff rfl).mp hev with rfl | hev
        · cases habout
        · rw [hquiet ev hev] at habout
          cases habout
  | @visit w ctx now durationSecs down p queue _ ih =>
      refine ih.outside (fun _ => id) (Or.inl rfl) (by rintro _ _ _ ⟨⟩)
        (fun p' hp' => List.mem_cons_of_mem _ hp') ?_
      rintro s ⟨⟩ hlt
      exact ⟨rfl, fun ev hev m _ =>
        ih.waiting p (List.mem_cons_self ..) hlt ev hev m⟩
  | settle hw hstep ih =>
      have hfollowed := (hw.followed hst hmethods).2
      exact ih.settles hstep hfollowed.1
        ((hw.grounded hst).records _ (List.mem_cons_self ..)) hfollowed.2.2
  | @leave w s queue _ _ _ hlater ih =>
      refine ih.outside (fun _ => id) (Or.inl rfl) (by rintro _ _ _ ⟨⟩) ?_
        (by rintro _ ⟨⟩)
      intro p hp
      simp only [Job.waiting, hlater]
      exact hp
  | swap _ ih | prepare _ _ ih =>
      exact ih.outside (fun _ => id) (Or.inr ⟨_, rfl, rfl, rfl⟩)
        (by rintro _ _ _ ⟨⟩) (by rintro _ ⟨⟩) (by rintro _ ⟨⟩)
  | @persist w ctx now durationSecs down snapshot prepared batch record o hw _
      hrecord hperm ih =>
      have hg := hw.grounded hst
      refine ih.outside ?_ (Or.inr ⟨_, rfl, rfl, rfl⟩) ?_ ?_ ?_
      · intro e he
        simp only [World.after]
        rcases after_seal hperm with ⟨-, heq⟩ | ⟨-, hsealed⟩
        · rwa [heq]
        · rw [hsealed.epochs, Std.ExtTreeMap.mem_insert]
          exact Or.inr he
      · intro ctx' now' durationSecs' hj
        unfold Job.persisted at hj
        split at hj <;> cases hj
      · intro p hp
        unfold Job.persisted at hp
        split at hp <;> cases hp
      · intro s hj hlt
        unfold Job.persisted at hj
        split at hj
        · rename_i c p hp
          cases hj
          obtain ⟨c', b, -, -, -, rfl⟩ := pendingFor_eq_some hp
          refine ⟨rfl, fun ev hev m _ habout => ?_⟩
          have hfresh := hg.fresh rfl hlt
          rcases List.mem_cons.mp (mem_of_mem_thisCycle hev) with rfl | hev
          · cases habout
          · exact ih.unsealed _ hfresh ev hev m habout
        · cases hj

end Run

end AquaTimestamp
