import AquaTimestamp.Model.KnownServers
import Mathlib.Data.List.TakeWhile

/-!
# Trust pins survive

The known-servers file is a book of pins, one for each URL up to trailing slashes.
Whatever was in the file, a handle and the file that is left behind hold the same
book, and a run of records does to it what the records do one after the other: the
last DID of a URL is found, its first time stays, and no other URL is touched.
-/

namespace AquaTimestamp

open Support JsonCodec JsonValue KnownServers

/-! ## URLs up to trailing slashes -/

/-- The URLs differ in trailing slashes only. -/
def SameUrl (u v : String) : Prop :=
  ∃ base m n, u.toList = base ++ List.replicate m '/' ∧
    v.toList = base ++ List.replicate n '/'

/-- A URL is its normal form with slashes after it. -/
theorem exists_slashes (u : String) :
    ∃ n, u.toList = (normalise u).toList ++ List.replicate n '/' := by
  have hslashes : ∀ c ∈ u.toList.reverse.takeWhile (· = '/'), c = '/' := fun c hc =>
    of_decide_eq_true (List.mem_takeWhile_imp (p := fun c => decide (c = '/')) hc)
  have hsplit : u.toList.reverse.takeWhile (· = '/') ++ u.toList.reverse.dropWhile (· = '/') =
      u.toList.reverse := List.takeWhile_append_dropWhile
  rw [List.eq_replicate_of_mem hslashes] at hsplit
  have hreverse := congrArg List.reverse hsplit
  rw [List.reverse_append, List.reverse_replicate, List.reverse_reverse] at hreverse
  refine ⟨(u.toList.reverse.takeWhile (· = '/')).length, ?_⟩
  rw [normalise, String.toList_ofList]
  exact hreverse.symm

theorem normalise_of_toList {u : String} {base : List Char} {n : Nat}
    (h : u.toList = base ++ List.replicate n '/') :
    normalise u = String.ofList (base.reverse.dropWhile (· = '/')).reverse := by
  rw [normalise, h, List.reverse_append, List.reverse_replicate,
    List.dropWhile_append_of_pos]
  intro c hc
  exact decide_eq_true (List.eq_of_mem_replicate hc)

/-- Normal forms agree exactly for URLs that differ in trailing slashes only. -/
theorem normalise_eq_iff {u v : String} : normalise u = normalise v ↔ SameUrl u v := by
  constructor
  · intro heq
    obtain ⟨m, hm⟩ := exists_slashes u
    obtain ⟨n, hn⟩ := exists_slashes v
    exact ⟨(normalise u).toList, m, n, hm, heq ▸ hn⟩
  · rintro ⟨base, m, n, hu, hv⟩
    rw [normalise_of_toList hu, normalise_of_toList hv]

instance (u v : String) : Decidable (SameUrl u v) :=
  decidable_of_iff _ normalise_eq_iff

/-! ## The book of pins -/

/-- What is pinned at each normal form. -/
abbrev Pins := String → Option Entry

/-- A record changes the pin of its URL. -/
def Pins.record (pins : Pins) (call : RecordCall) : Pins :=
  Function.update pins (normalise call.baseUrl) (some (
    match pins (normalise call.baseUrl) with
    | some e => { e with did := call.did, lastSeenAt := call.now }
    | none => ⟨normalise call.baseUrl, call.did, call.now, call.now⟩))

/-- Records one after the other, the newest first in the list. -/
def Pins.recordAll (pins : Pins) (calls : List RecordCall) : Pins :=
  calls.foldr (fun call pins => pins.record call) pins

section Pins

variable {pins : Pins} {calls : List RecordCall} {call : RecordCall} {k : String} {e : Entry}

theorem recordAll_cons (pins : Pins) (call : RecordCall) (calls : List RecordCall) :
    pins.recordAll (call :: calls) = (pins.recordAll calls).record call :=
  rfl

theorem record_of_ne (h : normalise call.baseUrl ≠ k) : pins.record call k = pins k :=
  Function.update_of_ne (Ne.symm h) _ _

theorem record_self (pins : Pins) (call : RecordCall) :
    ∃ e, pins.record call (normalise call.baseUrl) = some e ∧ e.did = call.did ∧
      ∀ e₀, pins (normalise call.baseUrl) = some e₀ → e.firstSeenAt = e₀.firstSeenAt := by
  refine ⟨_, Function.update_self .., ?_⟩
  split
  · rename_i e₀ h₀
    refine ⟨rfl, ?_⟩
    rintro e' h'
    cases h₀.symm.trans h'
    rfl
  · rename_i h₀
    refine ⟨rfl, fun e' h' => ?_⟩
    cases h₀.symm.trans h'

/-- Records of other URLs leave a pin as it is. -/
theorem recordAll_of_ne (h : ∀ call ∈ calls, normalise call.baseUrl ≠ k) :
    pins.recordAll calls k = pins k := by
  induction calls with
  | nil => rfl
  | cons call calls ih =>
      obtain ⟨hcall, hcalls⟩ := List.forall_mem_cons.mp h
      rw [recordAll_cons, record_of_ne hcall, ih hcalls]

/-- A pin stays, with its first time. -/
theorem recordAll_keeps (h : pins k = some e) :
    ∃ e', pins.recordAll calls k = some e' ∧ e'.firstSeenAt = e.firstSeenAt := by
  induction calls with
  | nil => exact ⟨e, h, rfl⟩
  | cons call calls ih =>
      obtain ⟨e', he', hfirst⟩ := ih
      rw [recordAll_cons]
      by_cases hcall : normalise call.baseUrl = k
      · obtain ⟨e'', he'', -, hkept⟩ := record_self (pins.recordAll calls) call
        subst hcall
        exact ⟨e'', he'', (hkept e' he').trans hfirst⟩
      · rw [record_of_ne hcall]
        exact ⟨e', he', hfirst⟩

/-- The newest record of a URL gives its DID. -/
theorem recordAll_newest {u : String}
    (h : calls.find? (fun call => SameUrl call.baseUrl u) = some call) :
    ∃ e, pins.recordAll calls (normalise u) = some e ∧ e.did = call.did := by
  induction calls with
  | nil => cases h
  | cons newest calls ih =>
      rw [recordAll_cons]
      by_cases hsame : SameUrl newest.baseUrl u
      · rw [List.find?_cons, decide_eq_true hsame] at h
        cases h
        obtain ⟨e, he, hdid, -⟩ := record_self (pins.recordAll calls) call
        rw [normalise_eq_iff.mpr hsame] at he
        exact ⟨e, he, hdid⟩
      · rw [List.find?_cons, decide_eq_false hsame] at h
        obtain ⟨e, he, hdid⟩ := ih h
        have hne : normalise newest.baseUrl ≠ normalise u :=
          fun heq => hsame (normalise_eq_iff.mp heq)
        rw [record_of_ne hne]
        exact ⟨e, he, hdid⟩

end Pins

/-! ## The file -/

theorem u64Member_keeps : u64Member.Keeps :=
  (natUpTo_keeps _).via (fun n => Nat.le_sub_one_of_lt n.isLt) fun n => by
    rw [Fin.ofNat_val_eq_self]

theorem entry_json_keeps : Entry.json.Keeps := by
  intro e
  simp only [Survives, Entry.json, Entry.members]
  rw [required_eq_ok ?_ (string_keeps e.baseUrl), required_eq_ok ?_ (string_keeps e.did),
    required_eq_ok ?_ (u64Member_keeps e.firstSeenAt),
    required_eq_ok ?_ (u64Member_keeps e.lastSeenAt)]
  · rfl
  all_goals simp [HasField]

theorem flat_members (e : Entry) : Flat e.members := by
  intro x hx
  simp only [Entry.members, List.mem_cons, List.not_mem_nil, or_false] at hx
  rcases hx with rfl | rfl | rfl | rfl
  · exact Or.inl ⟨_, rfl⟩
  · exact Or.inl ⟨_, rfl⟩
  · exact Or.inr ⟨_, e.firstSeenAt.isLt, rfl⟩
  · exact Or.inr ⟨_, e.lastSeenAt.isLt, rfl⟩

section File

variable {t : JsonText} {file : Option ByteArray} {entries : Partition String Entry}

/-- A printed entry is one line. -/
theorem unbroken_print (ht : t.KeepsFlat) (e : Entry) :
    Unbroken (t.print (Entry.json.encode e)) := by
  intro c hc
  have hprintable := ht.escapes e.members (flat_members e) c hc
  constructor
  · rintro rfl
    exact absurd hprintable (by decide)
  · rintro rfl
    exact absurd hprintable (by decide)

/-- A printed entry is read back. -/
theorem entryOf_print (ht : t.KeepsFlat) (e : Entry) :
    entryOf t (t.print (Entry.json.encode e)) = some e := by
  have hopens := ht.opens e.members (flat_members e)
  have hparses : t.parse (t.print (Entry.json.encode e)) = .ok (Entry.json.encode e) :=
    ht.parses e.members (flat_members e)
  have hdecodes : Entry.json.decode (Entry.json.encode e) = .ok e := entry_json_keeps e
  have hblank : (t.print (Entry.json.encode e)).all isWhitespace = false := by
    cases hline : t.print (Entry.json.encode e) with
    | nil =>
        rw [show t.print (.obj e.members) = [] from hline] at hopens
        cases hopens
    | cons c line =>
        rw [show t.print (.obj e.members) = c :: line from hline] at hopens
        cases hopens
        rfl
  rw [entryOf, hblank, hparses]
  simp only [Bool.false_eq_true, if_false]
  exact congrArg Except.toOption hdecodes

theorem fromUTF8?_toUTF8 (text : String) : String.fromUTF8? text.toUTF8 = some text := by
  simp only [String.fromUTF8?, String.toUTF8_eq_toByteArray,
    dif_pos (String.isValidUTF8 _)]
  rfl

/-- A text can be opened, whatever its lines are. -/
theorem openAt_toUTF8 (t : JsonText) (text : String) :
    ∃ f, KnownServersFile.openAt t (some text.toUTF8) = .ok f := by
  rw [KnownServersFile.openAt, readEntries, fromUTF8?_toUTF8]
  exact ⟨_, rfl⟩

/-- Every entry is kept under its own URL. -/
def IsBook (entries : Partition String Entry) : Prop :=
  ∀ (k : String) (e : Entry), entries[k]? = some e → e.baseUrl = k

theorem isBook_readEntries (h : readEntries t file = .ok entries) : IsBook entries := by
  intro k e hget
  unfold readEntries at h
  split at h
  · cases h
    simp at hget
  · split at h
    · cases h
    · cases h
      rcases Partition.putAll_cases _ _ k hget with ⟨e', heq, hmem⟩ | ⟨-, hempty⟩
      · obtain ⟨e'', -, hpair⟩ := List.mem_map.mp hmem
        cases hpair
        cases heq
        rfl
      · simp at hempty

/-- What a flush writes, in whatever order, is read back as the book. -/
theorem readEntries_flushed (ht : t.KeepsFlat) (hbook : IsBook entries)
    {order : List Entry} (hperm : order.Perm entries.inOrder) :
    readEntries t (some (flushed t order)) = .ok entries := by
  have hlines : lines (unlines (order.map fun e => t.print (Entry.json.encode e))) =
      order.map fun e => t.print (Entry.json.encode e) := by
    refine lines_unlines fun l hl => ?_
    obtain ⟨e, -, rfl⟩ := List.mem_map.mp hl
    exact unbroken_print ht e
  have hentries : (order.map fun e => t.print (Entry.json.encode e)).filterMap (entryOf t) =
      order := by
    simp only [List.filterMap_map, Function.comp_def, entryOf_print ht, List.filterMap_some]
  have hmem : ∀ {k e}, (k, e) ∈ order.map (fun e => (e.baseUrl, e)) ↔
      entries[k]? = some e := by
    intro k e
    rw [List.mem_map]
    constructor
    · rintro ⟨e', he', heq⟩
      cases heq
      obtain ⟨k', hk'⟩ := Partition.mem_inOrder.mp (hperm.mem_iff.mp he')
      exact hbook k' e hk' ▸ hk'
    · intro hget
      have horder : e ∈ order := hperm.mem_iff.mpr (Partition.mem_inOrder.mpr ⟨k, hget⟩)
      exact ⟨e, horder, by rw [hbook k e hget]⟩
  rw [readEntries, flushed, fromUTF8?_toUTF8]
  simp only [String.toList_ofList, hlines, hentries]
  refine congrArg Except.ok (Std.ExtTreeMap.ext_getElem? fun k => ?_)
  cases hget : entries[k]? with
  | some e =>
      refine Partition.putAll_of_mem_unique (hmem.mpr hget) fun e' he' => ?_
      exact Option.some.inj ((hmem.mp he').symm.trans hget)
  | none =>
      rw [Partition.putAll_of_not_mem]
      · simp
      · intro e he
        cases hget.symm.trans (hmem.mp he)

/-- The book of a handle. -/
def KnownServersFile.pins (f : KnownServersFile) : Pins :=
  fun k => f.entries[k]?

/-- A record does to the map what it does to the book. -/
theorem pins_record (f : KnownServersFile) (call : RecordCall) :
    (f.record call).pins = f.pins.record call := by
  funext k
  simp only [KnownServersFile.record, KnownServersFile.pins, Pins.record]
  cases hget : f.entries[normalise call.baseUrl]? with
  | none | some =>
      simp only [Function.update_apply, Partition.getElem?_put, eq_comm]
      rfl

/-- A record keeps every entry under its own URL. -/
theorem isBook_record {f : KnownServersFile} (h : IsBook f.entries) (call : RecordCall) :
    IsBook (f.record call).entries := by
  intro k e hget
  simp only [KnownServersFile.record] at hget
  split at hget
  · rename_i e₀ h₀
    simp only [Partition.getElem?_put] at hget
    split at hget
    · cases hget
      rename_i hk
      exact hk ▸ h _ e₀ h₀
    · exact h k e hget
  · simp only [Partition.getElem?_put] at hget
    split at hget
    · cases hget
      assumption
    · exact h k e hget

end File

/-! ## Runs -/

namespace KnownServersWorld

variable {t : JsonText} {w w' : KnownServersWorld}

/-- The handle holds what opening the file again would give. -/
def Synced (t : JsonText) (w : KnownServersWorld) : Prop :=
  ∀ f, w.handle = some f → KnownServersFile.openAt t w.file = .ok f

theorem synced_fresh (file : Option ByteArray) : Synced t (fresh file) :=
  nofun

theorem isBook_openAt {file : Option ByteArray} {f : KnownServersFile}
    (h : KnownServersFile.openAt t file = .ok f) : IsBook f.entries := by
  unfold KnownServersFile.openAt at h
  cases hread : readEntries t file with
  | error e =>
      rw [hread] at h
      cases h
  | ok entries =>
      rw [hread] at h
      cases h
      exact isBook_readEntries hread

/-- What a step does to the file: nothing, or one record of what it holds. -/
theorem Step.effect (ht : t.KeepsFlat) (hstep : Step t w w') (h : Synced t w) :
    Synced t w' ∧ ((w'.file = w.file ∧ w'.records = w.records) ∨
      ∃ f call, KnownServersFile.openAt t w.file = .ok f ∧
        KnownServersFile.openAt t w'.file = .ok (f.record call) ∧
        w'.records = call :: w.records) := by
  cases hstep with
  | opens hclosed hopen =>
      refine ⟨?_, Or.inl ⟨rfl, rfl⟩⟩
      rintro _ ⟨⟩
      exact hopen
  | drops => exact ⟨nofun, Or.inl ⟨rfl, rfl⟩⟩
  | records call hhandle hperm =>
      rename_i f order
      have hopen := h f hhandle
      have hbook := isBook_record (isBook_openAt hopen) call
      have hreopen : KnownServersFile.openAt t (some (flushed t order)) =
          .ok (f.record call) := by
        rw [KnownServersFile.openAt, readEntries_flushed ht hbook hperm]
        rfl
      refine ⟨?_, Or.inr ⟨f, call, hopen, hreopen, rfl⟩⟩
      rintro _ ⟨⟩
      exact hreopen

/-- What a run does to the file: its records, one after the other, to what the file
held. -/
structure Recorded (t : JsonText) (w w' : KnownServersWorld) (calls : List RecordCall) :
    Prop where
  synced : Synced t w'
  records : w'.records = calls ++ w.records
  written : calls ≠ [] → ∃ f', KnownServersFile.openAt t w'.file = .ok f'
  opened : ∀ f', KnownServersFile.openAt t w'.file = .ok f' →
    ∃ f, KnownServersFile.openAt t w.file = .ok f
  pins : ∀ f, KnownServersFile.openAt t w.file = .ok f →
    ∃ f', KnownServersFile.openAt t w'.file = .ok f' ∧ f'.pins = f.pins.recordAll calls

theorem Steps.recorded (ht : t.KeepsFlat) (hsteps : Steps t w w') (h : Synced t w) :
    ∃ calls, Recorded t w w' calls := by
  induction hsteps with
  | refl =>
      exact ⟨[], h, rfl, absurd rfl, fun f hf => ⟨f, hf⟩, fun f hf => ⟨f, hf, rfl⟩⟩
  | tail _ hstep ih =>
      obtain ⟨calls, hcalls⟩ := ih
      obtain ⟨hsynced, ⟨hfile, hrecords⟩ | ⟨f, call, hopen, hreopen, hrecords⟩⟩ :=
        hstep.effect ht hcalls.synced
      · refine ⟨calls, hsynced, hrecords.trans hcalls.records, ?_, ?_, ?_⟩
        all_goals rw [hfile]
        · exact hcalls.written
        · exact hcalls.opened
        · exact hcalls.pins
      · refine ⟨call :: calls, hsynced, ?_, fun _ => ⟨_, hreopen⟩,
          fun _ _ => hcalls.opened f hopen, fun f₀ hf₀ => ?_⟩
        · rw [hrecords, hcalls.records, List.cons_append]
        · obtain ⟨f', hf', hpins⟩ := hcalls.pins f₀ hf₀
          cases hf'.symm.trans hopen
          refine ⟨f.record call, hreopen, ?_⟩
          rw [pins_record, hpins, recordAll_cons]

/-- The file holds this map, and so does the handle if there is one. -/
def Holds (t : JsonText) (w : KnownServersWorld) (f : KnownServersFile) : Prop :=
  KnownServersFile.openAt t w.file = .ok f ∧ ∀ held, w.handle = some held → held = f

theorem Synced.holds (h : Synced t w) {f : KnownServersFile}
    (hopen : KnownServersFile.openAt t w.file = .ok f) : w.Holds t f :=
  ⟨hopen, fun held hheld => Except.ok.inj ((h held hheld).symm.trans hopen)⟩

end KnownServersWorld

open KnownServersWorld in
/-- In every run on whatever file: the last record of a URL gives its DID, in memory and
after reopening alike; an entry stays, with its first time; and an entry that no record
is for stays as it is. -/
theorem known_servers_round_trip {t : JsonText} (ht : t.KeepsFlat)
    {file : Option ByteArray} {w w' : KnownServersWorld} (hrun : Steps t (fresh file) w)
    (hlater : Steps t w w') :
    (∀ u last, w'.records.find? (fun call => SameUrl call.baseUrl u) = some last →
      ∃ f, w'.Holds t f ∧ f.lookup u = some last.did) ∧
    (∀ (f : KnownServersFile) (k : String) (e : Entry),
      KnownServersFile.openAt t w.file = .ok f → f.entries[k]? = some e →
      ∃ f', w'.Holds t f' ∧ ∃ e' : Entry, f'.entries[k]? = some e' ∧
        e'.firstSeenAt = e.firstSeenAt) ∧
    ∃ calls, w'.records = calls ++ w.records ∧
      ∀ (f : KnownServersFile) (k : String), KnownServersFile.openAt t w.file = .ok f →
        (∀ call ∈ calls, normalise call.baseUrl ≠ k) →
        ∃ f', w'.Holds t f' ∧ f'.entries[k]? = f.entries[k]? := by
  have hwhole : Steps t (fresh file) w' := hrun.trans hlater
  obtain ⟨before, hbefore⟩ := hrun.recorded ht (synced_fresh file)
  obtain ⟨calls, hcalls⟩ := hlater.recorded ht hbefore.synced
  obtain ⟨all, hall⟩ := hwhole.recorded ht (synced_fresh file)
  have hrecords : w'.records = all := by
    rw [hall.records]
    exact List.append_nil _
  refine ⟨fun u last hlast => ?_, fun f k e hopen hget => ?_, calls, hcalls.records,
    fun f k hopen hother => ?_⟩
  · have hne : all ≠ [] := by
      rintro rfl
      rw [hrecords] at hlast
      cases hlast
    obtain ⟨f', hopen'⟩ := hall.written hne
    obtain ⟨f₀, hopen₀⟩ := hall.opened f' hopen'
    obtain ⟨f, hopen, hpins⟩ := hall.pins f₀ hopen₀
    rw [hrecords] at hlast
    obtain ⟨e, he, hdid⟩ : ∃ e, f₀.pins.recordAll all (normalise u) = some e ∧
        e.did = last.did := recordAll_newest hlast
    have hget : f.entries[normalise u]? = some e := (congrFun hpins _).trans he
    refine ⟨f, hall.synced.holds hopen, ?_⟩
    rw [KnownServersFile.lookup, hget, Option.map_some, hdid]
  · obtain ⟨f', hopen', hpins⟩ := hcalls.pins f hopen
    have hpin : f.pins k = some e := hget
    obtain ⟨e', he', hfirst⟩ : ∃ e', f.pins.recordAll calls k = some e' ∧
        e'.firstSeenAt = e.firstSeenAt := recordAll_keeps hpin
    exact ⟨f', hcalls.synced.holds hopen', e', (congrFun hpins k).trans he', hfirst⟩
  · obtain ⟨f', hopen', hpins⟩ := hcalls.pins f hopen
    exact ⟨f', hcalls.synced.holds hopen', (congrFun hpins k).trans (recordAll_of_ne hother)⟩

/-- A file with a blank line and one that is no JSON. -/
def Sample.malformedFile : ByteArray :=
  "\nnot json\n".toUTF8

/-- A record of a URL with slashes at its end, and of a DID with a line break and
quotes. -/
def Sample.recordCall : RecordCall :=
  ⟨"https://a//", "did:\n\"x\"", ⟨5, by decide⟩⟩

open KnownServersWorld in
theorem known_servers_round_trip_reopened :
    ∃ w, Steps .compact (fresh (some Sample.malformedFile)) w ∧ w.handle = none ∧
      ∃ f, KnownServersFile.openAt .compact w.file = .ok f ∧
        f.lookup "https://a" = some "did:\n\"x\"" := by
  obtain ⟨f₀, hf₀⟩ : ∃ f₀, KnownServersFile.openAt .compact (some Sample.malformedFile) =
      .ok f₀ := openAt_toUTF8 _ _
  have hopened : Steps .compact (fresh (some Sample.malformedFile)) _ :=
    .tail .refl (.opens rfl hf₀)
  have hrecorded : Steps .compact (fresh (some Sample.malformedFile)) _ :=
    hopened.tail (.records Sample.recordCall rfl (List.Perm.refl _))
  have hdropped : Steps .compact (fresh (some Sample.malformedFile)) _ :=
    hrecorded.tail .drops
  have hsame : SameUrl "https://a//" "https://a" :=
    ⟨"https://a".toList, 2, 0, by decide, by decide⟩
  obtain ⟨hlast, -⟩ :=
    known_servers_round_trip JsonText.keepsFlat_compact .refl hdropped
  obtain ⟨f, hholds, hlookup⟩ := hlast "https://a" Sample.recordCall
    (by rw [fresh, List.find?_cons, Sample.recordCall, decide_eq_true hsame])
  exact ⟨_, hdropped, rfl, f, hholds.1, hlookup⟩

end AquaTimestamp
