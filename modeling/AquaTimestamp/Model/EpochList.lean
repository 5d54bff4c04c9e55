import AquaTimestamp.Model.Storage

/-!
# The epoch list

`list_epochs_desc` of `storage.rs` and the `GET /v1/epochs` handler over it.
A page holds up to `limit` epochs, newest first, and names the id the next
page resumes from.
-/

namespace AquaTimestamp

open Support

variable {sdk : Sdk}

namespace Store

/-- The records with ids up to `upper`, newest first
(`epochs.range(..=upper).rev()`). -/
def epochsDownFrom (st : Store sdk) (upper : Nat) : List EpochRecord :=
  ((st.epochs.toList.filter fun kv => kv.1 ≤ upper).map Prod.snd).reverse

/-- The loop over the records still to come, with the page so far: the record
after a full page only gives the cursor. -/
def collectPage (limit : Nat) : List EpochRecord → List EpochRecord →
    List EpochRecord × Option Nat
  | [], out => (out, none)
  | record :: rest, out =>
      if out.length = limit then (out, some record.id)
      else collectPage limit rest (out ++ [record])

/-- `list_epochs_desc`. -/
def listEpochsDesc (st : Store sdk) (start : Option Nat) (limit : Nat) :
    List EpochRecord × Option Nat :=
  if limit = 0 then ([], start)
  else collectPage limit (st.epochsDownFrom (start.getD u64Max)) []

end Store

/-! ## The route -/

/-- `EPOCHS_MAX_LIMIT`. -/
def epochsMaxLimit : Nat := 200

/-- `EPOCHS_DEFAULT_LIMIT`. -/
def epochsDefaultLimit : Nat := 50

/-- `EpochsQuery`; the field `from` is `start` here. -/
structure EpochsQuery where
  start : Option Nat
  limit : Option Nat

structure EpochListItem where
  id : Nat
  openedAt : Nat
  closedAt : Nat
  merkleRoot : String
  leafCount : Nat
  hashType : String
  deriving DecidableEq

/-- `EpochsResponse`. -/
structure EpochsResponse where
  epochs : List EpochListItem
  next : Option Nat
  deriving DecidableEq

/-- A record as it is listed. -/
def EpochRecord.listItem (r : EpochRecord) : EpochListItem where
  id := r.id
  openedAt := r.openedAt
  closedAt := r.closedAt
  merkleRoot := hexLower r.merkleRoot
  leafCount := r.leafCount
  hashType := r.hashType

/-- The limit of a page: the requested one or the default, clamped. -/
def pageLimit (limit : Option Nat) : Nat :=
  max 1 (min (limit.getD epochsDefaultLimit) epochsMaxLimit)

/-- `list_epochs`.  The reads of the store succeed: the branch that answers 500 is not
modelled. -/
def listEpochs (st : Store sdk) (q : EpochsQuery) : EpochsResponse :=
  let (records, next) := st.listEpochsDesc q.start (pageLimit q.limit)
  ⟨records.map EpochRecord.listItem, next⟩

theorem pageLimit_pos (limit : Option Nat) : 0 < pageLimit limit := by
  unfold pageLimit
  omega

namespace Store

variable {st : Store sdk}

theorem collectPage_eq {limit : Nat} :
    ∀ {records out : List EpochRecord}, out.length ≤ limit →
      collectPage limit records out =
        (out ++ records.take (limit - out.length),
          ((records.drop (limit - out.length)).head?).map EpochRecord.id)
  | [], out, _ => by simp [collectPage]
  | record :: rest, out, hle => by
      rw [collectPage]
      split
      · rename_i hfull
        simp [hfull]
      · rename_i hroom
        have hleft : limit - out.length = limit - (out ++ [record]).length + 1 := by
          rw [List.length_append, List.length_singleton]
          omega
        rw [collectPage_eq (by rw [List.length_append, List.length_singleton]; omega),
          hleft, List.take_succ_cons, List.drop_succ_cons, List.append_assoc,
          List.singleton_append]

/-- A page is cut off the records below its start, and the cursor is the id of
the record after it. -/
theorem listEpochsDesc_eq {start : Option Nat} {limit : Nat} (hpos : 0 < limit) :
    st.listEpochsDesc start limit =
      ((st.epochsDownFrom (start.getD u64Max)).take limit,
        (((st.epochsDownFrom (start.getD u64Max)).drop limit).head?).map
          EpochRecord.id) := by
  rw [listEpochsDesc, if_neg (by omega), collectPage_eq (Nat.zero_le _)]
  rfl

theorem mem_epochsDownFrom {upper : Nat} {record : EpochRecord} :
    record ∈ st.epochsDownFrom upper ↔
      ∃ e ≤ upper, st.epochs[e]? = some record := by
  simp only [epochsDownFrom, List.mem_reverse, List.mem_map, List.mem_filter,
    Prod.exists, Std.ExtTreeMap.mem_toList_iff_getElem?_eq_some, decide_eq_true_eq]
  constructor
  · rintro ⟨e, record, ⟨hget, hle⟩, rfl⟩
    exact ⟨e, hle, hget⟩
  · rintro ⟨e, hle, hget⟩
    exact ⟨e, record, ⟨hget, hle⟩, rfl⟩

end Store

end AquaTimestamp
