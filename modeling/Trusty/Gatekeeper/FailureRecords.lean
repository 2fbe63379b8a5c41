import Mathlib.Data.List.Induction
import Mathlib.Data.List.Nodup
import Mathlib.Tactic.Common

/-!
The failure records that the gatekeeper keeps in memory.

`WriteMemoryRecord` looks for the record of its user and for the oldest record
in one loop.  `Written` says what a write does to the table.
The model of `mem_records_` is the list of the records in use, which is empty
before and after `InitMemoryRecords` allocates the array.
-/

namespace Trusty.Gatekeeper

open List

structure FailureRecord where
  secureUserId : UInt64
  lastCheckedTimestamp : UInt64
  failureCounter : UInt32
  deriving DecidableEq

def maxFailureRecords : Nat := 10

/-- The record of a user without failures. -/
def FailureRecord.cleared (userId : UInt64) : FailureRecord :=
  ⟨userId, 0, 0⟩

def lookup (records : List FailureRecord) (userId : UInt64) : Option FailureRecord :=
  records.find? (·.secureUserId == userId)

def getMemoryRecord (records : List FailureRecord) (userId : UInt64) : FailureRecord :=
  (lookup records userId).getD (.cleared userId)

/-- The loop of `WriteMemoryRecord`, which ends with `idx` and `min_idx`. -/
def searchRecords (userId : UInt64) : List FailureRecord → Nat → Nat → UInt64 → Nat × Nat
  | [], idx, minIdx, _ => (idx, minIdx)
  | record :: rest, idx, minIdx, minTimestamp =>
    if record.secureUserId = userId then (idx, minIdx)
    else if record.lastCheckedTimestamp ≤ minTimestamp then
      searchRecords userId rest (idx + 1) idx record.lastCheckedTimestamp
    else searchRecords userId rest (idx + 1) minIdx minTimestamp

def writeMemoryRecord (records : List FailureRecord) (record : FailureRecord) :
    List FailureRecord :=
  let (idx, minIdx) := searchRecords record.secureUserId records 0 0 (-1)
  if maxFailureRecords ≤ idx then records.set minIdx record
  else if idx = records.length then records ++ [record]
  else records.set idx record

/-- The calls with `secure` false. -/
inductive RecordCall where
  | getFailureRecord (userId : UInt64)
  | writeFailureRecord (record : FailureRecord)
  | clearFailureRecord (userId : UInt64)

/-- The record that a call writes. -/
def RecordCall.written : RecordCall → Option FailureRecord
  | getFailureRecord _ => none
  | writeFailureRecord record => some record
  | clearFailureRecord userId => some (.cleared userId)

def RecordCall.perform (records : List FailureRecord) (call : RecordCall) : List FailureRecord :=
  match call.written with
  | none => records
  | some record => writeMemoryRecord records record

def recordsAfter (calls : List RecordCall) : List FailureRecord :=
  calls.foldl RecordCall.perform []

/-! ### The loop -/

section Search

variable {userId minTimestamp : UInt64} {minIdx : Nat} {seen rest : List FailureRecord}

/-- `min_idx` is the place of a record that none of `records` is older than. -/
def IsOldest (records : List FailureRecord) (minIdx : Nat) (minTimestamp : UInt64) : Prop :=
  ∃ front oldest back, records = front ++ oldest :: back ∧ front.length = minIdx ∧
    oldest.lastCheckedTimestamp = minTimestamp ∧
    ∀ record ∈ records, minTimestamp ≤ record.lastCheckedTimestamp

theorem searchRecords_found (idx : Nat) {front : List FailureRecord} {old : FailureRecord}
    (new : ∀ record ∈ front, record.secureUserId ≠ userId) (found : old.secureUserId = userId) :
    (searchRecords userId (front ++ old :: rest) idx minIdx minTimestamp).1 =
      idx + front.length := by
  induction front generalizing idx minIdx minTimestamp with
  | nil => simp [searchRecords, found]
  | cons record front ih =>
    have other := new record mem_cons_self
    have new := fun record inside => new record (mem_cons_of_mem _ inside)
    rw [cons_append, searchRecords, if_neg other, length_cons]
    split <;> rw [ih _ new] <;> omega

/-- The invariant is that `min_idx` is the place of an oldest record of those
seen, if there are any. -/
theorem searchRecords_missing (new : ∀ record ∈ rest, record.secureUserId ≠ userId)
    (oldest : seen = [] ∧ minTimestamp = -1 ∨ IsOldest seen minIdx minTimestamp) :
    (searchRecords userId rest seen.length minIdx minTimestamp).1 = (seen ++ rest).length ∧
      (seen ++ rest ≠ [] → ∃ timestamp,
        IsOldest (seen ++ rest) (searchRecords userId rest seen.length minIdx minTimestamp).2
          timestamp) := by
  induction rest generalizing seen minIdx minTimestamp with
  | nil =>
    rw [append_nil]
    refine ⟨rfl, fun nonempty => ⟨minTimestamp, ?_⟩⟩
    exact oldest.resolve_left fun start => nonempty start.1
  | cons record rest ih =>
    have other := new record mem_cons_self
    have new := fun record inside => new record (mem_cons_of_mem _ inside)
    have length : seen.length + 1 = (seen ++ [record]).length := by simp
    rw [searchRecords, if_neg other, append_cons, length]
    split
    case isTrue older =>
      refine ih new (.inr ⟨seen, record, [], rfl, rfl, rfl, forall_mem_append.mpr ⟨?_, by simp⟩⟩)
      intro earlier inside
      rcases oldest with ⟨rfl, _⟩ | ⟨_, _, _, _, _, _, least⟩
      · cases inside
      · exact UInt64.le_trans older (least earlier inside)
    case isFalse younger =>
      have small := record.lastCheckedTimestamp.toNat_lt
      rcases oldest with ⟨_, rfl⟩ | ⟨front, least, back, rfl, place, stamp, smallest⟩
      · exact absurd (UInt64.le_iff_toNat_le.mpr (Nat.le_of_lt_succ small)) younger
      · refine ih new (.inr ⟨front, least, back ++ [record], by simp, place, stamp, ?_⟩)
        have last := UInt64.le_of_lt (UInt64.not_le.mp younger)
        exact forall_mem_append.mpr ⟨smallest, by simpa using last⟩

end Search

/-! ### A write -/

structure Valid (records : List FailureRecord) : Prop where
  distinct : (records.map FailureRecord.secureUserId).Nodup
  bounded : records.length ≤ maxFailureRecords

/-- A write replaces the record of its user or an oldest record, or adds one. -/
inductive Written (record : FailureRecord) (records : List FailureRecord) :
    List FailureRecord → Prop
  | replaced {front old back} (whole : records = front ++ old :: back)
      (place : old.secureUserId = record.secureUserId ∨
        lookup records record.secureUserId = none ∧ records.length = maxFailureRecords ∧
          ∀ other ∈ records, old.lastCheckedTimestamp ≤ other.lastCheckedTimestamp) :
      Written record records (front ++ record :: back)
  | added (new : lookup records record.secureUserId = none)
      (room : records.length < maxFailureRecords) : Written record records (records ++ [record])

section Write

variable {records : List FailureRecord} {record : FailureRecord}

theorem lookup_eq_none {userId : UInt64} :
    lookup records userId = none ↔ userId ∉ records.map FailureRecord.secureUserId := by
  simp [lookup]

theorem written_writeMemoryRecord (valid : Valid records) :
    Written record records (writeMemoryRecord records record) := by
  have bounded := valid.bounded
  rw [writeMemoryRecord]
  dsimp only
  cases found : lookup records record.secureUserId with
  | none =>
    have new : ∀ other ∈ records, other.secureUserId ≠ record.secureUserId := by
      simpa using lookup_eq_none.mp found
    obtain ⟨last, oldest⟩ := searchRecords_missing new (.inl ⟨rfl, rfl⟩)
    simp only [nil_append, length_nil] at last oldest
    rw [last, if_pos rfl]
    split
    case isTrue full =>
      obtain ⟨timestamp, front, old, back, whole, place, rfl, least⟩ := oldest (by
        rintro rfl
        exact absurd full (by decide))
      have changed : records.set front.length record = front ++ record :: back := by simp [whole]
      rw [← place, changed]
      exact .replaced whole (.inr ⟨found, by omega, least⟩)
    case isFalse room => exact .added found (by omega)
  | some old =>
    obtain ⟨same, front, back, rfl, new⟩ := find?_eq_some_iff_append.mp found
    simp only [beq_iff_eq, Bool.not_eq_true', beq_eq_false_iff_ne] at same new
    rw [length_append, length_cons] at bounded
    rw [searchRecords_found 0 new same, if_neg (by omega), if_neg (by simp)]
    have changed : (front ++ old :: back).set (0 + front.length) record = front ++
        record :: back := by simp
    rw [changed]
    exact .replaced rfl (.inl same)

theorem lookup_middle (front : List FailureRecord) (middle : FailureRecord)
    (back : List FailureRecord) {userId : UInt64} (other : middle.secureUserId ≠ userId) :
    lookup (front ++ middle :: back) userId = lookup (front ++ back) userId := by
  simp [lookup, find?_append, other]

theorem lookup_new {front back : List FailureRecord}
    (new : lookup (front ++ back) record.secureUserId = none) :
    lookup (front ++ record :: back) record.secureUserId = some record := by
  rw [lookup, find?_append, Option.or_eq_none_iff] at new
  simp [lookup, find?_append, new.1]

theorem distinct_middle {front back : List FailureRecord} {middle : FailureRecord} :
    ((front ++ middle :: back).map FailureRecord.secureUserId).Nodup ↔
      lookup (front ++ back) middle.secureUserId = none ∧
        ((front ++ back).map FailureRecord.secureUserId).Nodup := by
  rw [lookup_eq_none, map_append, map_cons, nodup_middle, nodup_cons, map_append]

variable {after : List FailureRecord} (written : Written record records after)
  (valid : Valid records)

include written valid

theorem Written.keeps_valid : Valid after := by
  obtain ⟨distinct, bounded⟩ := valid
  cases written with
  | @replaced front old back whole place =>
    refine ⟨?_, by simpa [whole] using bounded⟩
    rw [whole] at distinct place
    obtain ⟨gone, rest⟩ := distinct_middle.mp distinct
    refine distinct_middle.mpr ⟨?_, rest⟩
    rcases place with same | ⟨new, _⟩
    · rwa [← same]
    · simp_all [lookup_eq_none]
  | added new room =>
    refine ⟨distinct_middle.mpr (by simpa using ⟨new, distinct⟩), ?_⟩
    rw [length_append, length_singleton]
    exact room

theorem Written.lookup_own : lookup after record.secureUserId = some record := by
  have distinct := (written.keeps_valid valid).distinct
  cases written <;> exact lookup_new (distinct_middle.mp distinct).1

theorem Written.lookup_other {userId : UInt64} (other : userId ≠ record.secureUserId)
    (present : lookup after userId ≠ none) : lookup after userId = lookup records userId := by
  cases written with
  | @replaced front old back whole =>
    rw [lookup_middle _ _ _ other.symm] at present ⊢
    rw [whole] at valid ⊢
    rw [lookup_middle]
    rintro rfl
    exact present (distinct_middle.mp valid.distinct).1
  | added => rw [lookup_middle _ _ _ other.symm, append_nil]

end Write

/-! ### Sequences of calls -/

/-- `record` is the last record written for the user, who has had a record
after every call since. -/
inductive Kept (userId : UInt64) (record : FailureRecord) : List RecordCall → Prop
  | write {calls call} (written : RecordCall.written call = some record)
      (own : record.secureUserId = userId) : Kept userId record (calls ++ [call])
  | other {calls call} (kept : Kept userId record calls)
      (elsewhere : ∀ other, call.written = some other → other.secureUserId ≠ userId)
      (present : lookup (recordsAfter (calls ++ [call])) userId ≠ none) :
      Kept userId record (calls ++ [call])

section Calls

variable {calls : List RecordCall} {call : RecordCall} {userId : UInt64} {record : FailureRecord}

theorem recordsAfter_append :
    recordsAfter (calls ++ [call]) = call.perform (recordsAfter calls) := by
  simp [recordsAfter]

theorem recordsAfter_read (reads : call.written = none) :
    recordsAfter (calls ++ [call]) = recordsAfter calls := by
  rw [recordsAfter_append, RecordCall.perform, reads]

theorem written_recordsAfter (valid : Valid (recordsAfter calls))
    (writes : call.written = some record) :
    Written record (recordsAfter calls) (recordsAfter (calls ++ [call])) := by
  rw [recordsAfter_append, RecordCall.perform, writes]
  exact written_writeMemoryRecord valid

theorem valid_recordsAfter (calls : List RecordCall) : Valid (recordsAfter calls) := by
  induction calls using reverseRecOn with
  | nil => exact ⟨nodup_nil, Nat.zero_le _⟩
  | append_singleton calls call valid =>
    cases writes : call.written with
    | none => rwa [recordsAfter_read writes]
    | some record => exact (written_recordsAfter valid writes).keeps_valid valid

theorem lookup_elsewhere
    (elsewhere : ∀ other, call.written = some other → other.secureUserId ≠ userId)
    (present : lookup (recordsAfter (calls ++ [call])) userId ≠ none) :
    lookup (recordsAfter (calls ++ [call])) userId = lookup (recordsAfter calls) userId := by
  cases writes : call.written with
  | none => rw [recordsAfter_read writes]
  | some other =>
    have valid := valid_recordsAfter calls
    exact (written_recordsAfter valid writes).lookup_other valid
      (elsewhere other writes).symm present

theorem lookup_write (writes : call.written = some record) :
    lookup (recordsAfter (calls ++ [call])) record.secureUserId = some record :=
  have valid := valid_recordsAfter calls
  (written_recordsAfter valid writes).lookup_own valid

theorem lookup_eq_some_iff_kept :
    lookup (recordsAfter calls) userId = some record ↔ Kept userId record calls := by
  constructor
  · intro found
    induction calls using reverseRecOn with
    | nil => cases found
    | append_singleton calls call ih =>
      have present : lookup (recordsAfter (calls ++ [call])) userId ≠ none := by simp [found]
      by_cases own : ∃ other, call.written = some other ∧ other.secureUserId = userId
      · obtain ⟨other, writes, rfl⟩ := own
        rw [lookup_write writes, Option.some.injEq] at found
        exact .write (found ▸ writes) (by rw [found])
      · have elsewhere : ∀ other, call.written = some other → other.secureUserId ≠ userId :=
          fun other writes same => own ⟨other, writes, same⟩
        rw [lookup_elsewhere elsewhere present] at found
        exact .other (ih found) elsewhere present
  · intro kept
    induction kept with
    | write writes own => exact own ▸ lookup_write writes
    | other _ elsewhere present ih => rw [lookup_elsewhere elsewhere present, ih]

end Calls

/-- In every sequence of calls the records are a map of at most
`MAX_FAILURE_RECORDS` users: a read gives the last record written unless the
user was evicted since, and a write changes no other user's record except that
it evicts one with the oldest record when it adds a user to a full table. -/
theorem failureRecords_map (calls : List RecordCall) :
    Valid (recordsAfter calls) ∧
      (∀ userId record, Kept userId record calls →
        getMemoryRecord (recordsAfter calls) userId = record) ∧
      (∀ userId, (∀ record, ¬ Kept userId record calls) →
        getMemoryRecord (recordsAfter calls) userId = .cleared userId) ∧
      (∀ userId, recordsAfter (calls ++ [.getFailureRecord userId]) = recordsAfter calls) ∧
      ∀ call record, RecordCall.written call = some record →
        Written record (recordsAfter calls) (recordsAfter (calls ++ [call])) := by
  have valid := valid_recordsAfter calls
  refine ⟨valid, ?_, ?_, fun userId => recordsAfter_read rfl,
    fun call record => written_recordsAfter valid⟩
  · intro userId record kept
    rw [getMemoryRecord, lookup_eq_some_iff_kept.mpr kept, Option.getD_some]
  · intro userId forgotten
    have missing : lookup (recordsAfter calls) userId = none :=
      Option.eq_none_iff_forall_ne_some.mpr fun record found =>
        forgotten record (lookup_eq_some_iff_kept.mp found)
    rw [getMemoryRecord, missing, Option.getD_none]

end Trusty.Gatekeeper
