import Trusty.Kernel.Vmm

/-!
The configuration options in the manifest of an app (`trusty_app.c`), which are stepped
through twice: when the app is loaded and when it asks for a mapping.

The loops run over what the blob has from the index on.  A read beyond its end is a fault.
-/

namespace Trusty.Kernel

open List

def errNotFound : Int := -2

def trustyAppConfigKeyMinStackSize : BitVec 32 := 1
def trustyAppConfigKeyMinHeapSize : BitVec 32 := 2
def trustyAppConfigKeyMapMem : BitVec 32 := 3

inductive BlobFault where
  | assertion
  | outside
deriving DecidableEq

structure AppProps where
  minStackSize : BitVec 32
  minHeapSize : BitVec 32
  mapIoMemCnt : BitVec 32
deriving DecidableEq

abbrev Words := List (BitVec 32)

def readBlob (rest : Words) (index : Nat) : Except BlobFault (BitVec 32) :=
  match rest[index]? with
  | some word => .ok word
  | none => .error .outside

/-- The data value of an option for a size, which must be there and not be rounded to 0. -/
def sizeOption (rest : Words) : Except BlobFault (BitVec 32) :=
  if rest.length + 1 ≤ 1 then .error .assertion
  else do
    let size := roundup (← readBlob rest 0) 4096
    if size = 0 then .error .assertion else return size

theorem length_drop_lt (key : BitVec 32) (rest : Words) (count : Nat) :
    (rest.drop count).length < (key :: rest).length :=
  Nat.lt_succ_of_le (by simp only [length_drop, Nat.sub_le])

/-- The loop of `load_app_config_options`, with the entries it steps over. -/
def loadOptions (props : AppProps) : Words → Except BlobFault (AppProps × List Words)
  | [] => .ok (props, [])
  | key :: rest =>
    if key = trustyAppConfigKeyMinStackSize then do
      let size ← sizeOption rest
      let later ← loadOptions { props with minStackSize := size } (rest.drop 1)
      return (later.1, (key :: rest.take 1) :: later.2)
    else if key = trustyAppConfigKeyMinHeapSize then do
      let size ← sizeOption rest
      let later ← loadOptions { props with minHeapSize := size } (rest.drop 1)
      return (later.1, (key :: rest.take 1) :: later.2)
    else if key = trustyAppConfigKeyMapMem then
      if rest.length + 1 ≤ 3 then .error .assertion
      else do
        let later ← loadOptions { props with mapIoMemCnt := props.mapIoMemCnt + 1 } (rest.drop 3)
        return (later.1, (key :: rest.take 3) :: later.2)
    else .error .assertion
termination_by blob => blob.length
decreasing_by all_goals exact length_drop_lt ..

def loadAppConfigOptions (defaultStackSize : BitVec 32) (configBlob : Words) :
    Except BlobFault (AppProps × List Words) :=
  loadOptions ⟨defaultStackSize, 4 * 4096, 0⟩ configBlob

/-- `uthread_map_contig`, which has other errors. -/
structure UthreadMap where
  mapContig : BitVec 32 → BitVec 32 → Int
  found : ∀ offset size, mapContig offset size ≠ errNotFound

/-- What a call returns and maps, and the entries it steps over. -/
structure MmioSetup where
  ret : Int
  mapped : Option (BitVec 32 × BitVec 32)
  steps : List Words

def trustyAppSetupMmio (ut : UthreadMap) (mmioId : BitVec 32) : Words → Except BlobFault MmioSetup
  | [] => .ok ⟨errNotFound, none, []⟩
  | key :: rest =>
    if key = trustyAppConfigKeyMapMem then do
      let id ← readBlob rest 0
      let offset ← readBlob rest 1
      let size := roundup (← readBlob rest 2) 4096
      if id ≠ mmioId then
        let later ← trustyAppSetupMmio ut mmioId (rest.drop 3)
        return { later with steps := (key :: rest.take 3) :: later.steps }
      else return ⟨ut.mapContig offset size, some (offset, size), [key :: rest.take 3]⟩
    else do
      let later ← trustyAppSetupMmio ut mmioId (rest.drop 1)
      return { later with steps := (key :: rest.take 1) :: later.steps }
termination_by blob => blob.length

/-! ### What the entries are -/

inductive IsEntry : Words → Prop
  | size {key : BitVec 32}
      (known : key = trustyAppConfigKeyMinStackSize ∨ key = trustyAppConfigKeyMinHeapSize)
      (size : BitVec 32) : IsEntry [key, size]
  | mapMem (id offset size : BitVec 32) : IsEntry [trustyAppConfigKeyMapMem, id, offset, size]

/-- The address and size of an entry for a mapping with this id. -/
def mapMem (mmioId : BitVec 32) : Words → Option (BitVec 32 × BitVec 32)
  | [key, id, offset, size] =>
    if key = trustyAppConfigKeyMapMem ∧ id = mmioId then some (offset, size) else none
  | _ => none

def pageRounded (size : Nat) : Nat := (size + 4095) / 4096 * 4096

/-- The call steps along the entries to the first one for this id. -/
structure FindsFirst (round : BitVec 32 → Nat) (mmioId : BitVec 32) (entries : List Words)
    (setup : MmioSetup) :
    Prop where
  steps : setup.steps <+: entries
  last : setup.mapped = none → setup.steps = entries
  ret : setup.ret = errNotFound ↔ entries.findSome? (mapMem mmioId) = none
  mapped : setup.mapped.map (Prod.map id BitVec.toNat) = (entries.findSome? (mapMem mmioId)).map
    (Prod.map id round)

/-- A blob is read inside its bounds, and if it is accepted it consists of the entries that
both loops find. -/
def Agrees (ut : UthreadMap) (defaultStackSize mmioId : BitVec 32) (blob : Words) : Prop :=
  loadAppConfigOptions defaultStackSize blob ≠ .error .outside ∧
    ∀ props entries, loadAppConfigOptions defaultStackSize blob = .ok (props, entries) →
    (∀ entry ∈ entries, IsEntry entry) ∧ blob = entries.flatten ∧
      ∃ setup, trustyAppSetupMmio ut mmioId blob = .ok setup ∧
        FindsFirst (pageRounded ·.toNat) mmioId entries setup

theorem ok_of_bind {α β : Type} {first : Except BlobFault α} {next : α → Except BlobFault β}
    {result : β} (ok : (first >>= next) = .ok result) :
    ∃ value, first = .ok value ∧ next value = .ok result := by
  cases first with
  | error fault => cases ok
  | ok value => exact ⟨value, rfl, ok⟩

theorem bind_inside {α β : Type} {first : Except BlobFault α} {next : α → Except BlobFault β}
    (inside : first ≠ .error .outside) (later : ∀ value, next value ≠ .error .outside) :
    (first >>= next) ≠ .error .outside := by
  cases first with
  | error fault => exact fun failed => inside (congrArg Except.error (Except.error.inj failed))
  | ok value => exact later value

theorem sizeOption_inside (rest : Words) : sizeOption rest ≠ .error .outside := by
  cases rest with
  | nil => exact fun failed => by cases failed
  | cons word more =>
    change (if roundup word 4096 = 0 then Except.error BlobFault.assertion
      else pure (roundup word 4096)) ≠ _
    split <;> exact fun failed => by cases failed

theorem loadOptions_inside (props : AppProps) (blob : Words) :
    loadOptions props blob ≠ .error .outside := by
  fun_induction loadOptions props blob with
  | case1 | case4 | case6 => exact fun failed => by cases failed
  | case2 props rest ih | case3 props rest _ ih =>
    exact bind_inside (sizeOption_inside rest) fun size => bind_inside (ih size)
      fun _ failed => by cases failed
  | case5 props rest _ _ _ ih => exact bind_inside ih fun _ failed => by cases failed

theorem exists_of_sizeOption {rest : Words} {size : BitVec 32} (ok : sizeOption rest = .ok size) :
    ∃ word more, rest = word :: more := by
  cases rest with
  | nil => cases ok
  | cons word more => exact ⟨word, more, rfl⟩

section

variable {ut : UthreadMap} {mmioId : BitVec 32} {entries : List Words}

theorem entries_of_loadOptions {props new : AppProps} {blob : Words}
    (loaded : loadOptions props blob = .ok (new, entries)) :
    (∀ entry ∈ entries, IsEntry entry) ∧ blob = entries.flatten := by
  fun_induction loadOptions props blob generalizing entries with
  | case1 =>
    cases loaded
    exact ⟨fun _ mem => absurd mem not_mem_nil, rfl⟩
  | case2 props rest ih =>
    obtain ⟨size, found, loaded⟩ := ok_of_bind loaded
    obtain ⟨⟨_, later⟩, more, ⟨⟩⟩ := ok_of_bind loaded
    obtain ⟨word, rest, rfl⟩ := exists_of_sizeOption found
    obtain ⟨all, flat⟩ := ih size more
    exact ⟨forall_mem_cons.mpr ⟨.size (.inl rfl) word, all⟩, congrArg (_ :: word :: ·) flat⟩
  | case3 props rest _ ih =>
    obtain ⟨size, found, loaded⟩ := ok_of_bind loaded
    obtain ⟨⟨_, later⟩, more, ⟨⟩⟩ := ok_of_bind loaded
    obtain ⟨word, rest, rfl⟩ := exists_of_sizeOption found
    obtain ⟨all, flat⟩ := ih size more
    exact ⟨forall_mem_cons.mpr ⟨.size (.inr rfl) word, all⟩, congrArg (_ :: word :: ·) flat⟩
  | case4 | case6 => cases loaded
  | case5 props rest long _ _ ih =>
    obtain ⟨⟨_, later⟩, more, ⟨⟩⟩ := ok_of_bind loaded
    rcases rest with _ | ⟨id, _ | ⟨offset, _ | ⟨size, rest⟩⟩⟩
    iterate 3 simp at long
    obtain ⟨all, flat⟩ := ih more
    exact ⟨forall_mem_cons.mpr ⟨.mapMem id offset size, all⟩,
      congrArg (_ :: id :: offset :: size :: ·) flat⟩

theorem FindsFirst.cons {round : BitVec 32 → Nat} {setup : MmioSetup} {entry : Words}
    (other : mapMem mmioId entry = none) (finds : FindsFirst round mmioId entries setup) :
    FindsFirst round mmioId (entry :: entries) { setup with steps := entry :: setup.steps } where
  steps := cons_prefix_cons.mpr ⟨rfl, finds.steps⟩
  last none := congrArg (entry :: ·) (finds.last none)
  ret := by
    rw [findSome?_cons, other]
    exact finds.ret
  mapped := by
    rw [findSome?_cons, other]
    exact finds.mapped

/-- On entries the second loop needs no checks. -/
theorem finds_setupMmio (all : ∀ entry ∈ entries, IsEntry entry) :
    ∃ setup, trustyAppSetupMmio ut mmioId entries.flatten = .ok setup ∧
      FindsFirst (roundup · 4096 |>.toNat) mmioId entries setup := by
  induction entries with
  | nil =>
    rw [flatten_nil, trustyAppSetupMmio]
    exact ⟨_, rfl, prefix_rfl, fun _ => rfl, iff_of_true rfl rfl, rfl⟩
  | cons entry rest ih =>
    obtain ⟨isEntry, all⟩ := forall_mem_cons.mp all
    obtain ⟨later, found, finds⟩ := ih all
    cases isEntry with
    | @size key known size =>
      have other : key ≠ trustyAppConfigKeyMapMem := by
        rcases known with rfl | rfl <;> decide
      refine ⟨_, ?_, finds.cons rfl⟩
      rw [flatten_cons, cons_append, trustyAppSetupMmio, if_neg other]
      exact congrArg (· >>= _) found
    | mapMem id offset size =>
      rw [flatten_cons, cons_append, trustyAppSetupMmio, if_pos rfl]
      by_cases same : id = mmioId
      · have first :
          findSome? (mapMem mmioId) ([trustyAppConfigKeyMapMem, id, offset, size] :: rest) =
            some (offset, size) := by
          rw [findSome?_cons, mapMem, if_pos ⟨rfl, same⟩]
        refine ⟨_, if_neg (not_not.mpr same), ?_⟩
        constructor
        · exact ⟨rest, rfl⟩
        · rintro ⟨⟩
        · rw [first]
          exact iff_of_false (ut.found _ _) (Option.some_ne_none _)
        · rw [first]
          rfl
      · refine ⟨_, (if_pos same).trans ?_, finds.cons (if_neg fun found => same found.2)⟩
        exact congrArg (· >>= _) found

theorem toNat_roundup_iff (size : BitVec 32) :
    (roundup size 4096).toNat = pageRounded size.toNat ↔ size.toNat ≤ 2 ^ 32 - 4096 := by
  have rounded : (roundup size 4096).toNat = (size.toNat + 4095) % 2 ^ 32 / 4096 * 4096 :=
    @toNat_roundup arm size
  have small := size.isLt
  rw [rounded, pageRounded]
  omega

end

/-- The loops agree unless the size of the mapping is rounded up to 2 ^ 32. -/
theorem appOptions_agree_iff (ut : UthreadMap) (defaultStackSize mmioId : BitVec 32)
    (blob : Words) :
    Agrees ut defaultStackSize mmioId blob ↔
      ∀ props entries offset size, loadAppConfigOptions defaultStackSize blob = .ok
        (props, entries) →
        entries.findSome? (mapMem mmioId) = some (offset, size) → size.toNat ≤ 2 ^ 32 - 4096 := by
  constructor
  · intro agrees props entries offset size loaded first
    obtain ⟨all, rfl, setup, found, finds⟩ := agrees.2 props entries loaded
    obtain ⟨_, same, rounded⟩ := @finds_setupMmio ut mmioId entries all
    obtain rfl := Except.ok.inj (found.symm.trans same)
    have sizes := rounded.mapped.symm.trans finds.mapped
    rw [first] at sizes
    exact (toNat_roundup_iff size).mp (congrArg Prod.snd (Option.some.inj sizes))
  · refine fun small => ⟨loadOptions_inside _ blob, fun props entries loaded => ?_⟩
    obtain ⟨all, flat⟩ := entries_of_loadOptions loaded
    obtain ⟨setup, found, rounded⟩ := @finds_setupMmio ut mmioId entries all
    refine ⟨all, flat, setup, flat ▸ found, { rounded with mapped := ?_ }⟩
    rw [rounded.mapped]
    cases first : entries.findSome? (mapMem mmioId) with
    | none => rfl
    | some found =>
      have rounds := (toNat_roundup_iff found.2).mpr (small props entries _ _ loaded first)
      exact congrArg some (Prod.ext rfl rounds)

/-- A mapping of all but one byte of 4 GiB is one of no bytes. -/
theorem large_mapping_lost : ¬ Agrees ⟨fun _ _ => noError, fun _ _ => by decide⟩ 4096 0
    [trustyAppConfigKeyMapMem, 0, 0, 0xFFFFFFFF] := by
  rintro ⟨-, agrees⟩
  obtain ⟨_, _, setup, found, finds⟩ :=
    agrees ⟨4096, 4 * 4096, 1⟩ [[trustyAppConfigKeyMapMem, 0, 0, 0xFFFFFFFF]] (by decide +kernel)
  rw [trustyAppSetupMmio] at found
  cases found
  exact absurd finds.mapped (by decide +kernel)

end Trusty.Kernel
