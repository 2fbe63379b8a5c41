import Mathlib.Data.Nat.Digits.Lemmas
import Trusty.Kernel.Vmm

/-!
The names of files (`client_tipc.c`).

A client gives the name of a file, which becomes a path below the uuid of the
client.  Files are found by comparing paths (`file_tree_lookup` of `file.c`), so
the paths keep the files of the clients apart.

A file is a number here, wherever the transactions put its blocks, and a session has a list
of the files it has open in place of its table of handles.
-/

namespace Trusty.Storage

open Kernel List

def fsPathMax : Nat := 64 + 128

structure ClientUuid where
  timeLow : UInt32
  timeMid : UInt16
  timeHiAndVersion : UInt16
  clockSeqAndNode : Fin 8 → UInt8
deriving DecidableEq

inductive PathResult where
  | noError
  | notValid
deriving DecidableEq

def isNameChar (char : UInt8) : Bool :=
  97 ≤ char && char ≤ 122 || 65 ≤ char && char ≤ 90 || 48 ≤ char && char ≤ 57 ||
    char == 46 || char == 45 || char == 95

def isValidName (name : List UInt8) : Bool := name.length != 0 && name.all isNameChar

/-! ### Formatted output -/

def hextable (digit : Nat) : UInt8 := if digit < 10 then UInt8.ofNat (48 + digit)
      else UInt8.ofNat (87 + digit)

def longlongToHexstring (u : Nat) : List UInt8 :=
  if u / 16 = 0 then [hextable (u % 16)] else longlongToHexstring (u / 16) ++ [hextable (u % 16)]
termination_by u

/-- `%0` with a width and `x`. -/
def hexField (width u : Nat) : List UInt8 :=
  List.replicate (width - (longlongToHexstring u).length) 48 ++ longlongToHexstring u

/-- The widths and values of `%08x%04x%04x%02x%02x%02x%02x%02x%02x%02x%02x`. -/
def ClientUuid.fields (uuid : ClientUuid) : List (Nat × Nat) :=
  (8, uuid.timeLow.toNat) :: (4, uuid.timeMid.toNat) :: (4, uuid.timeHiAndVersion.toNat) ::
    List.ofFn fun index => (2, (uuid.clockSeqAndNode index).toNat)

def printFields (fields : List (Nat × Nat)) :
    List UInt8 := fields.flatMap fun field => hexField field.1 field.2

/-- `vsnprintf` of a text. -/
def snprintf (out text : List UInt8) : List UInt8 × Nat :=
  if out.length ≤ text.length then (text.take (out.length - 1) ++ [0], text.length)
  else (text ++ 0 :: out.drop (text.length + 1), text.length)

/-- `get_path`; nothing if `memcpy` leaves the buffer. -/
def getPath (arch : Arch) (pathOut : List UInt8) (uuid : ClientUuid) (fileName : List UInt8) :
    Option (PathResult × List UInt8) :=
  let (pathOut, rc) := snprintf pathOut (printFields uuid.fields ++ [47])
  if pathOut.length ≤ (rc + fileName.length) % 2 ^ arch.bits then some (.notValid, pathOut)
  else if rc + fileName.length < pathOut.length then
    some (.noError, pathOut.take rc ++ fileName ++ 0 :: pathOut.drop (rc + fileName.length + 1))
  else none

def cString (buffer : List UInt8) : List UInt8 := buffer.takeWhile (· != 0)

theorem longlongToHexstring_pos {u : Nat} (positive : 0 < u) :
    longlongToHexstring u = (Nat.digits 16 u).reverse.map hextable := by
  induction u using Nat.strong_induction_on with
  | h u ih =>
    rw [longlongToHexstring, Nat.digits_def' (by decide) positive]
    by_cases small : u / 16 = 0
    · simp [small]
    · rw [if_neg small, ih (u / 16) (by omega) (by omega)]
      simp

theorem hexField_eq {width u : Nat} (wide : 0 < width) (fits : u < 16 ^ width) :
    hexField width u = (Nat.digitsAppend 16 width u).reverse.map hextable := by
  have zero : hextable 0 = 48 := rfl
  rcases Nat.eq_zero_or_pos u with rfl | positive
  · have one : longlongToHexstring 0 = [48] := by
      rw [longlongToHexstring]
      rfl
    obtain ⟨rest, rfl⟩ := Nat.exists_eq_succ_of_ne_zero (Nat.ne_of_gt wide)
    simp only [hexField, one, Nat.digitsAppend, Nat.digits_zero, length_singleton,
      Nat.succ_sub_one, nil_append, length_nil, Nat.sub_zero, reverse_replicate,
      map_replicate, zero]
    exact replicate_succ'.symm
  · simp [hexField, longlongToHexstring_pos positive, Nat.digitsAppend, zero]

def hexValue (char : UInt8) : Nat := if char < 58 then char.toNat - 48 else char.toNat - 87

variable {digit : Nat} {uuid other : ClientUuid} {name : List UInt8}

theorem hexValue_hextable (isDigit : digit < 16) : hexValue (hextable digit) = digit := by
  have all : ∀ digit : Fin 16, hexValue (hextable digit) = digit := by decide
  exact all ⟨digit, isDigit⟩

theorem hextable_ne_zero (isDigit : digit < 16) : hextable digit ≠ 0 := by
  have all : ∀ digit : Fin 16, hextable digit ≠ 0 := by decide
  exact all ⟨digit, isDigit⟩

section HexField

variable {width u : Nat} (wide : 0 < width) (fits : u < 16 ^ width)

include wide fits

theorem length_hexField : (hexField width u).length = width := by
  rw [hexField_eq wide fits, length_map, length_reverse, Nat.length_digitsAppend (by decide) _ fits]

theorem hexField_nonzero : 0 ∉ hexField width u := by
  rw [hexField_eq wide fits]
  simp only [mem_map, mem_reverse, not_exists, not_and]
  exact fun digit inside => hextable_ne_zero (Nat.lt_of_mem_digitsAppend (by decide) _ _ inside)

theorem hexField_inj {other : Nat} (otherFits : other < 16 ^ width)
    (same : hexField width u = hexField width other) :
    u = other := by
  rw [hexField_eq wide fits, hexField_eq wide otherFits] at same
  refine (Nat.bijOn_digitsAppend (by decide) width).injOn fits otherFits (reverse_injective ?_)
  have back : ∀ n, ((Nat.digitsAppend 16 width n).reverse.map hextable).map hexValue =
      (Nat.digitsAppend 16 width n).reverse := by
    intro n
    rw [map_map]
    refine (map_congr_left fun digit inside => ?_).trans (map_id _)
    exact hexValue_hextable (Nat.lt_of_mem_digitsAppend (by decide) _ _ (mem_reverse.mp inside))
  rw [← back u, ← back other, same]

end HexField

theorem printFields_inj {first second : List (Nat × Nat)} {tail otherTail : List UInt8}
    (widths : first.map Prod.fst = second.map Prod.fst) (wide : ∀ field ∈ first, 0 < field.1)
    (fits : ∀ field ∈ first, field.2 < 16 ^ field.1)
    (otherFits : ∀ field ∈ second, field.2 < 16 ^ field.1)
    (same : printFields first ++ tail = printFields second ++ otherTail) :
    first = second ∧ tail = otherTail := by
  induction first generalizing second with
  | nil =>
    obtain rfl : second = [] := by simpa using widths.symm
    exact ⟨rfl, same⟩
  | cons field rest ih =>
    obtain ⟨width, value⟩ := field
    cases second with
    | nil => cases widths
    | cons other others =>
      simp only [map_cons, List.cons.injEq] at widths
      obtain ⟨rfl, widths⟩ := widths
      simp only [forall_mem_cons] at wide fits otherFits
      simp only [printFields, flatMap_cons, append_assoc] at same
      have lengths :=
        (length_hexField wide.1 fits.1).trans (length_hexField wide.1 otherFits.1).symm
      obtain ⟨head, tails⟩ := append_inj same lengths
      obtain ⟨rfl, tailEq⟩ := ih widths wide.2 fits.2 otherFits.2 tails
      exact ⟨by rw [hexField_inj wide.1 fits.1 otherFits.1 head], tailEq⟩

theorem ClientUuid.fields_fit (uuid : ClientUuid) :
    ∀ field ∈ uuid.fields, 0 < field.1 ∧ field.2 < 16 ^ field.1 := by
  simp only [fields, forall_mem_cons, forall_mem_ofFn_iff]
  exact ⟨⟨by decide, uuid.timeLow.toNat_lt⟩, ⟨by decide, uuid.timeMid.toNat_lt⟩,
    ⟨by decide, uuid.timeHiAndVersion.toNat_lt⟩, fun index =>
      ⟨by decide, (uuid.clockSeqAndNode index).toNat_lt⟩⟩

theorem ClientUuid.fields_inj (same : uuid.fields = other.fields) : uuid = other := by
  obtain ⟨low, mid, hi, clock⟩ := uuid
  obtain ⟨otherLow, otherMid, otherHi, otherClock⟩ := other
  simp only [fields, List.cons.injEq, Prod.mk.injEq, true_and, UInt32.toNat_inj,
    UInt16.toNat_inj] at same
  obtain ⟨rfl, rfl, rfl, clocks⟩ := same
  have clockEq : clock = otherClock := by
    funext index
    have pair := congrFun (ofFn_injective clocks) index
    exact UInt8.toNat_inj.mp (by simpa using pair)
  rw [clockEq]

def pathText (uuid : ClientUuid) (name : List UInt8) :
    List UInt8 := printFields uuid.fields ++ 47 :: name

theorem pathText_inj {otherName : List UInt8}
    (same : pathText uuid name = pathText other otherName) :
    uuid = other ∧ name = otherName := by
  have widths : uuid.fields.map Prod.fst = other.fields.map Prod.fst := by simp [ClientUuid.fields]
  obtain ⟨fields, tails⟩ :=
    printFields_inj widths (fun field inside => (uuid.fields_fit field inside).1)
      (fun field inside => (uuid.fields_fit field inside).2)
      (fun field inside => (other.fields_fit field inside).2) same
  exact ⟨ClientUuid.fields_inj fields, by simpa using tails⟩

theorem length_printUuid (uuid : ClientUuid) : (printFields uuid.fields).length = 32 := by
  have lengths : ∀ field ∈ uuid.fields, (hexField field.1 field.2).length = field.1 :=
    fun field inside =>
    length_hexField (uuid.fields_fit field inside).1 (uuid.fields_fit field inside).2
  rw [printFields, length_flatMap, map_congr_left lengths]
  simp [ClientUuid.fields, ofFn_succ]

theorem pathText_nonzero (uuid : ClientUuid) (valid : isValidName name = true) :
    0 ∉ pathText uuid name := by
  simp only [pathText, printFields, mem_append, mem_flatMap, mem_cons, not_or, not_exists, not_and]
  refine ⟨fun field inside => ?_, by decide, fun inside => ?_⟩
  · exact hexField_nonzero (uuid.fields_fit field inside).1 (uuid.fields_fit field inside).2
  · simp only [isValidName, Bool.and_eq_true, all_eq_true] at valid
    exact absurd (valid.2 0 inside) (by decide)

theorem cString_append {text rest : List UInt8} (nonzero : 0 ∉ text) :
    cString (text ++ 0 :: rest) = text := by
  rw [cString, takeWhile_append_of_pos]
  · simp
  · intro char inside
    simpa using fun zero : char = 0 => nonzero (zero ▸ inside)

theorem getPath_ok {arch : Arch} {out buffer : List UInt8} (size : out.length = fsPathMax)
    (ok : getPath arch out uuid name = some (.noError, buffer)) :
    buffer.length = fsPathMax ∧ ∃ rest, buffer = pathText uuid name ++ 0 :: rest := by
  obtain ⟨text, text_eq⟩ : ∃ text, text = printFields uuid.fields ++ [47] := ⟨_, rfl⟩
  have length : text.length = 33 := by rw [text_eq, length_append, length_printUuid]; rfl
  have whole : pathText uuid name = text ++ name := by rw [text_eq, append_assoc]; rfl
  have small : ¬ out.length ≤ text.length := by
    rw [size, length]
    decide
  simp only [getPath, ← text_eq, snprintf, if_neg small] at ok
  split at ok
  · cases ok
  split at ok
  · rename_i inside
    cases ok
    simp only [length_append, length_cons, length_drop, length, size, fsPathMax] at inside
    rw [take_left, whole]
    refine ⟨?_, _, rfl⟩
    simp only [length_append, length_cons, length_drop, length, size, fsPathMax]
    omega
  · cases ok

/-! ### Sessions -/

/-- `struct file_entry`, and the client for which it was created. -/
structure FileEntry where
  path : List UInt8
  creator : ClientUuid

/-- `struct storage_client_session` with the files it has open. -/
structure ClientSession where
  uuid : ClientUuid
  files : List Nat

/-- All files that were ever created, and the sessions. -/
structure ClientState where
  files : List FileEntry
  sessions : Nat → Option ClientSession

/-- `file_tree_lookup`, where `visible` are the files with the hash of the path in
the trees of a transaction. -/
def fileTreeLookup (files : List FileEntry) (visible : List Nat) (path : List UInt8) : Option Nat :=
  visible.find? fun file => files[file]?.any fun entry => cString path == cString entry.path

/-- `strcpy` to a cleared block. -/
def strcpyPath (path : List UInt8) : List UInt8 :=
  cString path ++ List.replicate (fsPathMax - (cString path).length) 0

/-- The checks before a name is used; the path is left in `buffer`. -/
structure NamesFile (arch : Arch) (state : ClientState) (session : Nat) (client : ClientSession)
    (name out buffer : List UInt8) : Prop where
  found : state.sessions session = some client
  valid : isValidName name = true
  size : out.length = fsPathMax
  path : getPath arch out client.uuid name = some (.noError, buffer)

def ClientState.setSession (state : ClientState) (session : Nat) (client : Option ClientSession) :
    ClientState :=
  { state with sessions := Function.update state.sessions session client }

/-- A request, with the session and the file that it opens, creates, reads, writes
or deletes. -/
inductive ClientStep (arch : Arch) : ClientState → Option (Nat × Nat) → ClientState → Prop
  | connect {state : ClientState} (session : Nat) (uuid : ClientUuid) : ClientStep arch state none
      (state.setSession session (some ⟨uuid, []⟩))
  | disconnect {state : ClientState} (session : Nat) :
      ClientStep arch state none (state.setSession session none)
  | opens {state : ClientState} {session file : Nat} {client : ClientSession}
      {name out buffer : List UInt8} {visible : List Nat}
      (names : NamesFile arch state session client name out buffer)
      (lookup : fileTreeLookup state.files visible buffer = some file) :
      ClientStep arch state (some (session, file))
        (state.setSession session (some { client with files := file :: client.files }))
  | creates {state : ClientState} {session : Nat} {client : ClientSession}
      {name out buffer : List UInt8} {visible : List Nat}
      (names : NamesFile arch state session client name out buffer)
      (lookup : fileTreeLookup state.files visible buffer = none) :
      ClientStep arch state (some (session, state.files.length))
        (ClientState.setSession { state with
          files := state.files ++ [⟨strcpyPath buffer, client.uuid⟩] } session
          (some { client with files := state.files.length :: client.files }))
  | deletes {state : ClientState} {session file : Nat} {client : ClientSession}
      {name out buffer : List UInt8} {visible : List Nat}
      (names : NamesFile arch state session client name out buffer)
      (lookup : fileTreeLookup state.files visible buffer = some file) :
      ClientStep arch state (some (session, file)) state
  | uses {state : ClientState} {session file : Nat} {client : ClientSession}
      (found : state.sessions session = some client) (opened : file ∈ client.files) :
      ClientStep arch state (some (session, file)) state
  | closes {state : ClientState} {session file : Nat} {client : ClientSession}
      (found : state.sessions session = some client) :
      ClientStep arch state none
        (state.setSession session (some { client with files := client.files.erase file }))

inductive ClientReachable (arch : Arch) : ClientState → Prop
  | start : ClientReachable arch ⟨[], fun _ => none⟩
  | step {state after : ClientState} {access : Option (Nat × Nat)} : ClientReachable arch state →
      ClientStep arch state access after → ClientReachable arch after

/-- The file was created for the client of the session. -/
def Owns (files : List FileEntry) (uuid : ClientUuid) (file : Nat) : Prop :=
  ∃ entry, files[file]? = some entry ∧ entry.creator = uuid

structure Isolated (state : ClientState) : Prop where
  paths : ∀ entry ∈ state.files, ∃ name, isValidName name = true ∧
    cString entry.path = pathText entry.creator name
  owned : ∀ session client, state.sessions session = some client →
    ∀ file ∈ client.files, Owns state.files client.uuid file

variable {arch : Arch} {state after : ClientState} {session file : Nat} {client : ClientSession}
  {name out buffer : List UInt8}

theorem NamesFile.cString (names : NamesFile arch state session client name out buffer) :
    cString buffer = pathText client.uuid name := by
  obtain ⟨_, rest, rfl⟩ := getPath_ok names.size names.path
  exact cString_append (pathText_nonzero _ names.valid)

/-- What is copied to the block of a new file is the path. -/
theorem NamesFile.cString_strcpyPath (names : NamesFile arch state session client name out buffer) :
    Storage.cString (strcpyPath buffer) = pathText client.uuid name := by
  have short : (pathText client.uuid name).length < fsPathMax := by
    obtain ⟨length, rest, rfl⟩ := getPath_ok names.size names.path
    rw [← length, length_append, length_cons]
    omega
  obtain ⟨rest, pad⟩ := Nat.exists_eq_succ_of_ne_zero (Nat.sub_ne_zero_of_lt short)
  rw [strcpyPath, names.cString, pad, replicate_succ]
  exact cString_append (pathText_nonzero _ names.valid)

theorem Isolated.lookup_owns (isolated : Isolated state)
    (names : NamesFile arch state session client name out buffer) {visible : List Nat}
    (lookup : fileTreeLookup state.files visible buffer = some file) :
    Owns state.files client.uuid file := by
  have same := List.find?_some lookup
  simp only [Option.any_eq_true, beq_iff_eq] at same
  obtain ⟨entry, found, same⟩ := same
  obtain ⟨otherName, _, path⟩ := isolated.paths entry (mem_of_getElem? found)
  rw [names.cString, path] at same
  exact ⟨entry, found, (pathText_inj same).1.symm⟩

theorem Owns.append {files more : List FileEntry} (owns : Owns files uuid file) :
    Owns (files ++ more) uuid file := by
  obtain ⟨entry, found, creator⟩ := owns
  exact ⟨entry, List.getElem?_append_left (List.getElem?_eq_some_iff.mp found).1 ▸ found, creator⟩

section

variable (isolated : Isolated state)

include isolated

theorem Isolated.accesses (step : ClientStep arch state (some (session, file)) after) :
    ∃ client, state.sessions session = some client ∧ Owns after.files client.uuid file := by
  cases step with
  | opens names lookup => exact ⟨_, names.found, isolated.lookup_owns names lookup⟩
  | creates names lookup =>
    exact ⟨_, names.found, ⟨strcpyPath _, _⟩, List.getElem?_concat_length, rfl⟩
  | deletes names lookup => exact ⟨_, names.found, isolated.lookup_owns names lookup⟩
  | uses found opened => exact ⟨_, found, isolated.owned _ _ found _ opened⟩

theorem Isolated.setSession {new : Option ClientSession}
    (owned : ∀ client, new = some client →
      ∀ file ∈ client.files, Owns state.files client.uuid file) :
    Isolated (state.setSession session new) := by
  refine ⟨isolated.paths, fun other client found => ?_⟩
  simp only [ClientState.setSession] at found
  by_cases same : other = session
  · subst same
    rw [Function.update_self] at found
    exact owned client found
  · rw [Function.update_of_ne same] at found
    exact isolated.owned other client found

theorem Isolated.create (names : NamesFile arch state session client name out buffer) :
    Isolated { state with files := state.files ++ [⟨strcpyPath buffer, client.uuid⟩] } := by
  refine ⟨fun entry inside => ?_, fun other otherClient found file opened => ?_⟩
  · rcases mem_append.mp inside with before | new
    · exact isolated.paths entry before
    obtain rfl := mem_singleton.mp new
    exact ⟨name, names.valid, names.cString_strcpyPath⟩
  · exact (isolated.owned other otherClient found file opened).append

theorem Isolated.step {access : Option (Nat × Nat)} (step : ClientStep arch state access after) :
    Isolated after := by
  cases step with
  | connect session uuid =>
    refine isolated.setSession fun _ same file inside => ?_
    cases same
    exact absurd inside not_mem_nil
  | disconnect session => exact isolated.setSession fun _ same => by cases same
  | opens names lookup =>
    refine isolated.setSession fun _ same => ?_
    cases same
    have owns := isolated.lookup_owns names lookup
    exact forall_mem_cons.mpr ⟨owns, isolated.owned _ _ names.found⟩
  | creates names lookup =>
    refine (isolated.create names).setSession fun _ same => ?_
    cases same
    exact forall_mem_cons.mpr ⟨⟨_, List.getElem?_concat_length, rfl⟩,
      fun file before => (isolated.owned _ _ names.found file before).append⟩
  | deletes => exact isolated
  | uses => exact isolated
  | closes found =>
    refine isolated.setSession fun _ same file inside => ?_
    cases same
    exact isolated.owned _ _ found file (mem_of_mem_erase inside)

end

theorem ClientReachable.isolated (reachable : ClientReachable arch state) : Isolated state := by
  induction reachable with
  | start => exact ⟨fun _ inside => absurd inside not_mem_nil, fun _ _ found => by cases found⟩
  | step _ step ih => exact ih.step step

/-- The paths of clients are different strings, and each client reaches its own
files only. -/
theorem clientFiles_isolated (arch : Arch) :
    (∀ uuid other name otherName out otherOut buffer otherBuffer, isValidName name = true →
      isValidName otherName = true → out.length = fsPathMax → otherOut.length = fsPathMax →
      getPath arch out uuid name = some (.noError, buffer) →
      getPath arch otherOut other otherName = some (.noError, otherBuffer) →
      (cString buffer = cString otherBuffer → uuid = other ∧ name = otherName) ∧
      (cString buffer).length < fsPathMax ∧ buffer.length = fsPathMax ∧
      buffer[(cString buffer).length]? = some 0 ∧
      cString buffer = printFields uuid.fields ++ 47 :: name) ∧
    ∀ state session file after, ClientReachable arch state →
    ClientStep arch state (some (session, file)) after →
      ∃ client entry, state.sessions session = some client ∧ after.files[file]? = some entry ∧
        entry.creator = client.uuid := by
  refine ⟨?_, ?_⟩
  · intro uuid other name otherName out otherOut buffer otherBuffer valid otherValid size otherSize
      path otherPath
    obtain ⟨length, rest, rfl⟩ := getPath_ok size path
    obtain ⟨_, otherRest, rfl⟩ := getPath_ok otherSize otherPath
    rw [cString_append (pathText_nonzero uuid valid),
      cString_append (pathText_nonzero other otherValid)]
    refine ⟨pathText_inj, ?_, length, by simp, rfl⟩
    rw [← length, length_append, length_cons]
    omega
  · intro state session file after reachable step
    obtain ⟨client, found, entry, entryFound, creator⟩ := reachable.isolated.accesses step
    exact ⟨client, entry, found, entryFound, creator⟩

/-- Paths of two clients, and a session that opens and uses the file of another session of
its client. -/
theorem clientFiles_isolated_short : ∃ buffer otherBuffer,
    getPath arm (List.replicate fsPathMax 0) ⟨0, 0, 0, fun _ => 0⟩ [97] = some (.noError, buffer) ∧
    getPath arm (List.replicate fsPathMax 0) ⟨0, 0, 0, fun _ => 1⟩ [97] = some
      (.noError, otherBuffer) ∧
    cString buffer ≠ cString otherBuffer ∧ ∃ state after client entry, ClientStep arm state
      (some (1, 0)) after ∧
      state.sessions 1 = some client ∧ after.files[0]? = some entry ∧
      entry.creator = client.uuid := by
  have first :
      ((getPath arm (List.replicate fsPathMax 0) ⟨0, 0, 0, fun _ => 0⟩ [97]).map Prod.fst) = some
        .noError := by
    decide +kernel
  have second :
      ((getPath arm (List.replicate fsPathMax 0) ⟨0, 0, 0, fun _ => 1⟩ [97]).map Prod.fst) = some
        .noError := by
    decide +kernel
  obtain ⟨⟨_, buffer⟩, path, rfl⟩ := Option.map_eq_some_iff.mp first
  obtain ⟨⟨_, otherBuffer⟩, otherPath, rfl⟩ := Option.map_eq_some_iff.mp second
  refine ⟨buffer, otherBuffer, path, otherPath, fun same => ?_, ?_⟩
  · have uuids :=
      ((clientFiles_isolated arm).1 _ _ _ _ _ _ _ _ rfl rfl length_replicate length_replicate path
      otherPath).1 same
    exact absurd (congrFun (ClientUuid.mk.inj uuids.1).2.2.2 0) (by decide)
  let client : ClientSession := ⟨⟨0, 0, 0, fun _ => 0⟩, []⟩
  have names : NamesFile arm (ClientState.setSession ⟨[], fun _ => none⟩ 0 (some client))
    0 client [97]
      (List.replicate fsPathMax 0) buffer := ⟨rfl, rfl, length_replicate, path⟩
  have created := (ClientReachable.start.step (.connect 0 client.uuid)).step
    (.creates names (rfl : fileTreeLookup [] [] buffer = none))
  have again (state : ClientState) : NamesFile arm (state.setSession 1 (some client)) 1 client [97]
      (List.replicate fsPathMax 0) buffer := ⟨rfl, rfl, length_replicate, path⟩
  have lookup : fileTreeLookup [⟨strcpyPath buffer, client.uuid⟩] [0] buffer = some 0 := by
    simp [fileTreeLookup, names.cString, names.cString_strcpyPath]
  obtain ⟨state, opened, found⟩ : ∃ state, ClientReachable arm state ∧
      state.sessions 1 = some { client with files := [0] } :=
    ⟨_, (created.step (.connect 1 client.uuid)).step (.opens (again _) lookup), rfl⟩
  have used := @ClientStep.uses arm _ 1 0 _ found mem_cons_self
  obtain ⟨client, entry, facts⟩ := (clientFiles_isolated arm).2 _ 1 0 _ opened used
  exact ⟨_, _, client, entry, used, facts⟩

end Trusty.Storage
