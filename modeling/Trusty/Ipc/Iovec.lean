import Mathlib.Algebra.GroupWithZero.Nat
import Mathlib.Data.List.TakeWhile

/-!
Gathering a message from buffers and spreading it over buffers (`iovec.c`).

The kernel variants work on buffers of the kernel and only check for null
pointers.  The user variants read each descriptor from user space as they go and
copy bytes that may be missing there.
-/

namespace Trusty.Ipc

open List

/-- `ERR_NOT_FOUND` and the other error codes. -/
def errNotFound : Int := -2
def errNotReady : Int := -3
def errNoMsg : Int := -4
def errNoMemory : Int := -5
def errInvalidArgs : Int := -8
def errNotEnoughBuffer : Int := -9
def errAlreadyExists : Int := -14
def errChannelClosed : Int := -15
def errNotSupported : Int := -24
def errTooBig : Int := -25
def errFault : Int := -40
def errAccessDenied : Int := -43

/-! ### Gathering -/

/-- An entry of an iovec to copy from: the length in its descriptor, if the
descriptor can be read, the bytes that are there, and what a copy of so many bytes
writes to its destination and returns. -/
structure IovSource where
  length : Except Int Nat
  contents : List UInt8
  copy : Nat → List UInt8 × Option Int
  contents_length : ∀ len, length = .ok len → contents.length = len
  copy_length : ∀ count, (copy count).1.length ≤ count
  copy_contents : ∀ len count, length = .ok len → count ≤ len → (copy count).2 = none →
    (copy count).1 = contents.take count

/-- `iovec_kern_t` as a source: the memory at `base`, which may be null. -/
def kernSource (base : Option (Nat → UInt8)) (len : Nat) : IovSource where
  length := .ok len
  contents := (List.range len).map (base.getD fun _ => 0)
  copy count :=
    if count = 0 then ([], none)
    else
      match base with
      | none => ([], some errInvalidArgs)
      | some memory => ((List.range count).map memory, none)
  contents_length := by
    rintro _ ⟨⟩
    simp
  copy_length := by
    intro count
    split
    · simp
    · cases base <;> simp
  copy_contents := by
    rintro _ count ⟨⟩ short copied
    by_cases empty : count = 0
    · simp [empty]
    · cases base with
      | none => simp [empty] at copied
      | some memory => simp [empty, ← map_take, take_range, Nat.min_eq_left short]

theorem kernSource_fails {entry : Option (Nat → UInt8) × Nat} {count : Nat} {code : Int}
    (fails : (kernSource entry.1 entry.2).length = .error code ∨
      ((kernSource entry.1 entry.2).copy count).2 = some code) :
    (entry.1 = none ∧ 0 < count) ∧ code = errInvalidArgs := by
  obtain ⟨base, len⟩ := entry
  rcases fails with contra | fails
  · cases contra
  simp only [kernSource] at fails
  split at fails
  · cases fails
  · cases base with
    | none => exact ⟨⟨rfl, by omega⟩, (Option.some.inj fails).symm⟩
    | some memory => cases fails

/-- `copy_from_user`: the bytes up to the first that cannot be read, then zeros. -/
def copyFromUser (region : Nat → Option UInt8) (count : Nat) : List UInt8 × Option Int :=
  let readable := (List.range count).takeWhile fun index => (region index).isSome
  if readable.length = count then ((List.range count).map fun index => (region index).getD 0, none)
  else
    (readable.map (fun index => (region index).getD 0) ++ List.replicate
      (count - readable.length) 0, some errFault)

theorem copyFromUser_length (region : Nat → Option UInt8) (count : Nat) :
    (copyFromUser region count).1.length = count := by
  have bound := ( takeWhile_prefix (l := List.range count)
    fun index => (region index).isSome).length_le
  rw [length_range] at bound
  simp only [copyFromUser]
  split
  · simp
  · simp only [length_append, length_map, length_replicate]
    omega

/-- `iovec_user_t` as a source: the memory at `base`, if the descriptor can be
read. -/
def userSource (descriptor : Option ((Nat → Option UInt8) × Nat)) : IovSource where
  length :=
    match descriptor with
    | none => .error errFault
    | some (_, len) => .ok len
  contents :=
    match descriptor with
    | none => []
    | some (region, len) => (List.range len).map fun index => (region index).getD 0
  copy count :=
    match descriptor with
    | none => ([], some errFault)
    | some (region, _) => copyFromUser region count
  contents_length := by
    cases descriptor with
    | none => rintro _ ⟨⟩
    | some entry =>
      rintro _ ⟨⟩
      simp
  copy_length := by
    intro count
    cases descriptor with
    | none => simp
    | some entry => exact Nat.le_of_eq (copyFromUser_length entry.1 count)
  copy_contents := by
    cases descriptor with
    | none => rintro _ _ ⟨⟩
    | some entry =>
      rintro _ count ⟨⟩ short copied
      simp only [copyFromUser] at copied ⊢
      split at copied
      case isTrue complete =>
        rw [if_pos complete, ← map_take, take_range, Nat.min_eq_left short]
      case isFalse => cases copied

theorem userSource_fails {entry : Option ((Nat → Option UInt8) × Nat)} {count : Nat} {code : Int}
    (fails : (userSource entry).length = .error code ∨
      ((userSource entry).copy count).2 = some code) :
    (∀ descriptor ∈ entry, ∃ index < count, descriptor.1 index = none) ∧ code = errFault := by
  cases entry with
  | none =>
    refine ⟨by simp, ?_⟩
    rcases fails with fails | fails <;> cases fails <;> rfl
  | some descriptor =>
    rcases fails with contra | fails
    · cases contra
    simp only [userSource, copyFromUser] at fails
    split at fails
    · cases fails
    rename_i short
    cases fails
    refine ⟨?_, rfl⟩
    rintro _ ⟨⟩
    by_contra readable
    refine short ((congrArg List.length (takeWhile_eq_self_iff.mpr ?_)).trans length_range)
    intro index below
    by_contra missing
    exact readable ⟨index, mem_range.mp below, by simpa using missing⟩

/-- The loop of `kern_iovec_to_membuf` and `user_iovec_to_membuf`: what is written
to the buffer, and the number of bytes copied or the error. -/
def iovecToMembuf : List IovSource → Nat → List UInt8 × Except Int Nat
  | [], _ => ([], .ok 0)
  | iov :: rest, len =>
    match iov.length with
    | .error code => ([], .error code)
    | .ok iovLen =>
      let toCopy := min len iovLen
      match iov.copy toCopy with
      | (written, some code) => (written, .error code)
      | (written, none) =>
        if len - toCopy = 0 then (written, .ok toCopy)
        else
          let (more, result) := iovecToMembuf rest (len - toCopy)
          (written ++ more, result.map (toCopy + ·))

/-- `kern_iovec_to_membuf`; `iov` is missing if the pointer is null and the count
is not 0. -/
def kernIovecToMembuf (len : Nat) (iov : Option (List (Option (Nat → UInt8) × Nat))) :
    List UInt8 × Except Int Nat :=
  if len = 0 then ([], .ok 0)
  else
    match iov with
    | none => ([], .error errInvalidArgs)
    | some entries => iovecToMembuf (entries.map fun entry => kernSource entry.1 entry.2) len

def userIovecToMembuf (len : Nat) (iov : List (Option ((Nat → Option UInt8) × Nat))) :
    List UInt8 × Except Int Nat :=
  if len = 0 then ([], .ok 0) else iovecToMembuf (iov.map userSource) len

theorem iovecToMembuf_length (iov : List IovSource) (len : Nat) :
    (iovecToMembuf iov len).1.length ≤ len := by
  fun_induction iovecToMembuf iov len with
  | case1 | case2 => exact Nat.zero_le _
  | case3 entry rest len iovLen lengthEq toCopy written code copied
  | case4 entry rest len iovLen lengthEq toCopy written copied =>
    have copyBound := entry.copy_length toCopy
    rw [copied] at copyBound
    exact Nat.le_trans copyBound (Nat.min_le_left _ _)
  | case5 entry rest len iovLen lengthEq toCopy written copied full more result recursion ih =>
    have copyBound := entry.copy_length toCopy
    simp only [copied, recursion, length_append] at copyBound ih ⊢
    omega

variable {len count : Nat} {code : Int} {written data : List UInt8} {stored : List (List UInt8)}

section

variable {α : Type} {room : α → Nat} {fails : α → Nat → Prop} {size : Nat} {entry : α}
  {iov : List α}

/-- A copy of so many bytes gets to an entry, with some bytes left, that fails for
the bytes it would take. -/
def Reaches (room : α → Nat) (fails : α → Nat → Prop) (size : Nat) (iov : List α) : Prop :=
  ∃ front entry back, iov = front ++ entry :: back ∧ (front.map room).sum < size ∧
    fails entry (min (size - (front.map room).sum) (room entry))

theorem Reaches.head (nonempty : 0 < size) (failing : fails entry (min size (room entry))) :
    Reaches room fails size (entry :: iov) :=
  ⟨[], entry, iov, rfl, nonempty, failing⟩

theorem Reaches.cons (reaches : Reaches room fails (size - room entry) iov) :
    Reaches room fails size (entry :: iov) := by
  obtain ⟨front, other, back, rfl, before, failing⟩ := reaches
  refine ⟨entry :: front, other, back, rfl, ?_, ?_⟩
  · rw [map_cons, sum_cons]
    omega
  · rwa [map_cons, sum_cons, ← Nat.sub_sub]

theorem iovecToMembuf_error {source : α → IovSource} {failure : Int} (nonempty : 0 < len)
    (lengths : ∀ entry len, (source entry).length = .ok len → room entry = len)
    (reason : ∀ entry count code, (source entry).length = .error code ∨
      ((source entry).copy count).2 = some code → fails entry count ∧ code = failure)
    (failed : iovecToMembuf (iov.map source) len = (written, .error code)) :
    Reaches room fails len iov ∧ code = failure := by
  induction iov generalizing len written code with
  | nil => cases failed
  | cons entry rest ih =>
    simp only [map_cons, iovecToMembuf] at failed
    split at failed
    case h_1 lengthCode lengthEq =>
      cases failed
      exact (reason entry _ _ (.inl lengthEq)).imp_left (.head nonempty)
    case h_2 iovLen lengthEq =>
      obtain rfl := lengths entry iovLen lengthEq
      split at failed
      case h_1 piece copyCode copied =>
        cases failed
        exact (reason entry _ _ (.inr (congrArg Prod.snd copied))).imp_left (.head nonempty)
      case h_2 piece copied =>
        split at failed
        · cases failed
        rename_i full
        generalize recursion :
          iovecToMembuf (rest.map source) (len - min len (room entry)) = tail at failed
        obtain ⟨more, result⟩ := tail
        cases result with
        | ok others => cases failed
        | error tailCode =>
          cases failed
          have left : len - min len (room entry) = len - room entry := by omega
          rw [left] at recursion full
          exact (ih (by omega) recursion).imp_left .cons

end

variable {iov : List IovSource}

theorem iovecToMembuf_ok (gathered : iovecToMembuf iov len = (written, .ok count)) :
    written = (iov.flatMap IovSource.contents).take len ∧ count = written.length := by
  fun_induction iovecToMembuf iov len generalizing count written
  case case1 =>
    cases gathered
    simp
  case case2 | case3 => cases gathered
  case case4 entry rest len iovLen lengthEq toCopy piece copied full =>
    have contentsLength := entry.contents_length iovLen lengthEq
    have pieceEq := entry.copy_contents iovLen toCopy lengthEq (Nat.min_le_right len _)
    simp only [copied, forall_const] at pieceEq
    cases gathered
    have fits : toCopy = len := by omega
    rw [fits] at pieceEq ⊢
    constructor
    · rw [pieceEq, flatMap_cons, take_append_of_le_length (by omega)]
    · rw [pieceEq, length_take]
      omega
  case case5 entry rest len iovLen lengthEq toCopy piece copied room more result recursion ih =>
    have contentsLength := entry.contents_length iovLen lengthEq
    have pieceEq := entry.copy_contents iovLen toCopy lengthEq (Nat.min_le_right len _)
    have whole : toCopy = iovLen := by omega
    simp only [copied, forall_const] at pieceEq
    rw [whole, ← contentsLength, take_length] at pieceEq
    cases result with
    | error code => cases gathered
    | ok others =>
      cases gathered
      obtain ⟨moreEq, othersEq⟩ := ih recursion
      constructor
      · have longer : entry.contents.length ≤ len := by omega
        rw [pieceEq, moreEq, flatMap_cons, take_append, contentsLength, whole,
          take_of_length_le longer]
      · rw [length_append, pieceEq, contentsLength, whole, othersEq]

/-! ### Spreading -/

/-- An entry of an iovec to copy to: the length in its descriptor, if the
descriptor can be read, and what of some data is stored there and returned. -/
structure IovTarget where
  length : Except Int Nat
  store : List UInt8 → List UInt8 × Option Int
  store_ok : ∀ data, (store data).2 = none → (store data).1 = data

def kernTarget (base : Bool) (len : Nat) : IovTarget where
  length := .ok len
  store data :=
    if data = [] then ([], none)
    else if base = false then ([], some errInvalidArgs)
    else (data, none)
  store_ok := by
    intro data
    split_ifs with empty null
    · simp [empty]
    · simp
    · simp

theorem kernTarget_fails {entry : Bool × Nat}
    (fails : (kernTarget entry.1 entry.2).length = .error code ∨
      ((kernTarget entry.1 entry.2).store data).2 = some code) :
    (entry.1 = false ∧ 0 < data.length) ∧ code = errInvalidArgs := by
  rcases fails with contra | fails
  · cases contra
  simp only [kernTarget] at fails
  split_ifs at fails with empty null
  exact ⟨⟨null, length_pos_iff.mpr empty⟩, (Option.some.inj fails).symm⟩

/-- `copy_to_user` to a region of which so many bytes can be written. -/
def copyToUser (writable : Nat) (data : List UInt8) : List UInt8 × Option Int :=
  if data.length ≤ writable then (data, none) else (data.take writable, some errFault)

def userTarget (descriptor : Option (Nat × Nat)) : IovTarget where
  length :=
    match descriptor with
    | none => .error errFault
    | some (_, len) => .ok len
  store data :=
    match descriptor with
    | none => ([], some errFault)
    | some (writable, _) => copyToUser writable data
  store_ok := by
    intro data
    cases descriptor with
    | none => simp
    | some entry =>
      simp only [copyToUser]
      split <;> simp

theorem userTarget_fails {entry : Option (Nat × Nat)}
    (fails : (userTarget entry).length = .error code ∨
      ((userTarget entry).store data).2 = some code) :
    (∀ descriptor ∈ entry, descriptor.1 < data.length) ∧ code = errFault := by
  cases entry with
  | none =>
    refine ⟨by simp, ?_⟩
    rcases fails with fails | fails <;> cases fails <;> rfl
  | some descriptor =>
    rcases fails with contra | fails
    · cases contra
    simp only [userTarget, copyToUser] at fails
    split at fails
    · cases fails
    rename_i tooLong
    cases fails
    refine ⟨?_, rfl⟩
    rintro _ ⟨⟩
    exact Nat.lt_of_not_le tooLong

def IovTarget.room (iov : IovTarget) : Nat :=
  match iov.length with
  | .ok len => len
  | .error _ => 0

/-- The loop of `membuf_to_kern_iovec` and `membuf_to_user_iovec`: what is stored
in the entries it gets to, and the number of bytes copied or the error. -/
def membufToIovec : List IovTarget → List UInt8 → List (List UInt8) × Except Int Nat
  | [], _ => ([], .ok 0)
  | iov :: rest, data =>
    match iov.length with
    | .error code => ([], .error code)
    | .ok iovLen =>
      let piece := data.take iovLen
      match iov.store piece with
      | (stored, some code) => ([stored], .error code)
      | (stored, none) =>
        if data.length - piece.length = 0 then ([stored], .ok piece.length)
        else
          let (more, result) := membufToIovec rest (data.drop piece.length)
          (stored :: more, result.map (piece.length + ·))

/-- `membuf_to_kern_iovec`; `iov` is missing if the pointer is null and the count
is not 0. -/
def membufToKernIovec (iov : Option (List (Bool × Nat))) (data : List UInt8) :
    List (List UInt8) × Except Int Nat :=
  if data = [] then ([], .ok 0)
  else
    match iov with
    | none => ([], .error errInvalidArgs)
    | some entries => membufToIovec (entries.map fun entry => kernTarget entry.1 entry.2) data

def membufToUserIovec (iov : List (Option (Nat × Nat))) (data : List UInt8) :
    List (List UInt8) × Except Int Nat :=
  if data = [] then ([], .ok 0) else membufToIovec (iov.map userTarget) data

/-- Data spread over entries with the given room, as far as it goes. -/
def spread : List Nat → List UInt8 → List (List UInt8)
  | [], _ => []
  | room :: rest, data => if data = [] then [] else data.take room :: spread rest (data.drop room)

theorem flatten_spread (rooms : List Nat) (data : List UInt8) :
    (spread rooms data).flatten = data.take rooms.sum := by
  induction rooms generalizing data with
  | nil => simp [spread]
  | cons room rest ih =>
    rw [spread]
    split
    case isTrue empty => simp [empty]
    case isFalse => rw [flatten_cons, sum_cons, ih, take_add]

theorem membufToIovec_error {α : Type} {room : α → Nat} {fails : α → Nat → Prop} {iov : List α}
    {target : α → IovTarget} {failure : Int} (nonempty : 0 < data.length)
    (lengths : ∀ entry len, (target entry).length = .ok len → room entry = len)
    (reason : ∀ entry data code, (target entry).length = .error code ∨
      ((target entry).store data).2 = some code → fails entry data.length ∧ code = failure)
    (failed : membufToIovec (iov.map target) data = (stored, .error code)) :
    Reaches room fails data.length iov ∧ code = failure := by
  induction iov generalizing data stored code with
  | nil => cases failed
  | cons entry rest ih =>
    simp only [map_cons, membufToIovec] at failed
    split at failed
    case h_1 lengthCode lengthEq =>
      cases failed
      refine (reason entry (data.take (room entry)) _ (.inl lengthEq)).imp_left fun failing =>
        .head nonempty ?_
      rwa [length_take, Nat.min_comm] at failing
    case h_2 iovLen lengthEq =>
      obtain rfl := lengths entry iovLen lengthEq
      split at failed
      case h_1 piece storeCode kept =>
        cases failed
        refine (reason entry _ _ (.inr (congrArg Prod.snd kept))).imp_left fun failing =>
          .head nonempty ?_
        rwa [length_take, Nat.min_comm] at failing
      case h_2 piece kept =>
        rw [length_take] at failed
        split at failed
        · cases failed
        rename_i tooLong
        have whole : min (room entry) data.length = room entry := by omega
        rw [whole] at failed tooLong
        generalize recursion :
          membufToIovec (rest.map target) (data.drop (room entry)) = tail at failed
        obtain ⟨more, result⟩ := tail
        cases result with
        | ok others => cases failed
        | error tailCode =>
          cases failed
          have inner := ih (by rw [length_drop]; omega) recursion
          rw [length_drop] at inner
          exact inner.imp_left .cons

theorem membufToIovec_ok {iov : List IovTarget} (nonempty : data ≠ [])
    (copied : membufToIovec iov data = (stored, .ok count)) :
    stored = spread (iov.map IovTarget.room) data ∧ count = stored.flatten.length := by
  fun_induction membufToIovec iov data generalizing stored count
  case case1 =>
    cases copied
    simp [spread]
  case case2 | case3 => cases copied
  case case4 entry rest data iovLen lengthEq piece held kept fits =>
    cases copied
    have heldEq := entry.store_ok piece
    simp only [kept, forall_const] at heldEq
    have short : piece.length = min iovLen data.length := length_take
    have nothingLeft : data.drop iovLen = [] := drop_of_length_le (by omega)
    rw [map_cons, spread, if_neg nonempty, IovTarget.room, lengthEq, nothingLeft, heldEq]
    cases rest <;> simp [spread, piece]
  case case5 entry rest data iovLen lengthEq piece held kept tooLong more result recursion ih =>
    have heldEq := entry.store_ok piece
    simp only [kept, forall_const] at heldEq
    have short : piece.length = min iovLen data.length := length_take
    have whole : piece.length = iovLen := by omega
    rw [whole] at recursion ih
    cases result with
    | error code => cases copied
    | ok others =>
      cases copied
      have someLeft : data.drop iovLen ≠ [] := by
        intro nothing
        have lengths := congrArg List.length nothing
        rw [length_drop, length_nil] at lengths
        omega
      obtain ⟨moreEq, othersEq⟩ := ih someLeft recursion
      rw [map_cons, spread, if_neg nonempty, IovTarget.room, lengthEq, heldEq, ← moreEq]
      refine ⟨rfl, ?_⟩
      rw [flatten_cons, length_append, whole, othersEq]

end Trusty.Ipc
