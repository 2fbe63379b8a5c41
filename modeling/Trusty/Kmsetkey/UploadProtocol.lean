import Trusty.Kmsetkey.Upload
import Trusty.Lib.Transcript

/-!
The upload as a protocol.

A session is what the observations say about the upload: it begins with an accepted
`KEY_LEN`, and every `SET_KEY` and the end of the connection that began it end it.
The globals follow the session as long as no session has to be given up, since nothing
is released then.
-/

namespace Trusty.Kmsetkey

open Lib Kernel Keymaster List

def msgCmd (message : List Byte) : BitVec 32 := word32 (message.take 4)

def msgPayload (message : List Byte) : List Byte := message.drop sizeofKmsetkeyMsg

namespace Observation

/-- The message with this command that was served, and what it led to. -/
def ServedAs (seen : Observation) (cmd : BitVec 32) (message : List Byte)
    (served : Served) : Prop :=
  seen.served = some (message, served) ∧ msgCmd message = cmd

def processed (seen : Observation) :
    List (List Byte) := (seen.served.map fun served => served.2.processed).getD []

def released (seen : Observation) :
    List (List Byte) := (seen.served.map fun served => served.2.released).getD []

def Opens (seen : Observation) : Prop := ∃ message served, seen.ServedAs keyLenCmd message served ∧
      served.rc = noError

end Observation

/-! ### Sessions -/

structure Session where
  chan : Nat
  len : BitVec 32
  data : List Byte

def sessionServed (session : Option Session) (chan : Nat) (message : List Byte) (rc : Int) :
    Option Session :=
  if msgCmd message = keyLenCmd then
    if rc = noError then some ⟨chan, word32 (msgPayload message), []⟩ else session
  else if msgCmd message = keyBufCmd then
    if rc = noError then session.map fun s => { s with data := s.data ++ msgPayload message }
    else session
  else if msgCmd message = setKeyCmd then none
  else session

def sessionAfter (session : Option Session) (seen : Observation) : Option Session :=
  let session := match seen.served with
    | some (message, served) => sessionServed session seen.chan message served.rc
    | none => session
  if seen.closed then session.filter (·.chan ≠ seen.chan) else session

def session (history : List Observation) : Option Session := history.foldl sessionAfter none

theorem session_concat (history : List Observation) (seen : Observation) :
    session (history ++ [seen]) = sessionAfter (session history) seen := foldl_concat ..

/-- The globals are as the session says. -/
structure Receives (arch : Arch) (s : Session) (upload : Upload) (keyBuf out : List Byte) :
    Prop where
  len_ne : s.len ≠ 0
  addressable : Addressable arch s.len
  keyLen : upload.keyLen = s.len
  keyOffset : upload.keyOffset.toNat = s.data.length
  data_le : s.data.length ≤ s.len.toNat
  hasKeyBuf : upload.keyBuf = some keyBuf
  hasOut : upload.outKeyBuf = some out
  length_keyBuf : keyBuf.length = s.len.toNat
  length_out : out.length = s.len.toNat
  data : keyBuf.take s.data.length = s.data

def Follows (arch : Arch) : Option Session → Upload → Prop
  | some s, upload => ∃ keyBuf out, Receives arch s upload keyBuf out
  | none, upload => upload.keyLen = 0 ∧ upload.keyBuf = none ∧ upload.outKeyBuf = none

/-! ### One message -/

section Serve

variable {arch : Arch} {upload : Upload} {s : Session} {keyBuf out message payload : List Byte}
  {given : ServeGiven}

/-- What `KEY_LEN` is to be asked for, and what the allocator has to answer. -/
structure MayOpen (arch : Arch) (payload : List Byte) (given : ServeGiven) : Prop where
  length : payload.length = 4
  len_ne : word32 payload ≠ 0
  keyBuf : given.keyBuf.granted = true
  outKeyBuf : given.outKeyBuf.granted = true
  addressable : Addressable arch (word32 payload)

theorem setKeyLen_released (free : Follows arch none upload) (chan : Nat) :
    (MayOpen arch payload given ∧ (upload.setKeyLen arch payload given).rc = noError ∧
        Follows arch (some ⟨chan, word32 payload, []⟩)
        (upload.setKeyLen arch payload given).upload) ∨
      (¬MayOpen arch payload given ∧ (upload.setKeyLen arch payload given).rc ≠ noError ∧
        Follows arch none (upload.setKeyLen arch payload given).upload) := by
  obtain ⟨noLen, noBuf, noOut⟩ := free
  unfold Upload.setKeyLen
  rw [if_neg (by simp [noLen, noBuf, noOut])]
  split
  case isTrue wrong =>
    exact .inr ⟨fun may => wrong (by rw [may.length]), show (-2 : Int) ≠ 0 by decide, noLen,
      noBuf, noOut⟩
  case isFalse right =>
    dsimp only
    split
    case isTrue zero => exact .inr ⟨fun may => may.len_ne zero, show (-3 : Int) ≠ 0 by decide, zero,
      noBuf, noOut⟩
    case isFalse nonzero =>
      split
      case isTrue refused =>
        exact .inr ⟨fun may => refused may.keyBuf, show (-4 : Int) ≠ 0 by decide, rfl, noBuf, noOut⟩
      case isFalse granted =>
        split
        case isTrue refused =>
          exact .inr ⟨fun may => refused ⟨may.outKeyBuf, may.addressable⟩,
            show (-5 : Int) ≠ 0 by decide, rfl, rfl, noOut⟩
        case isFalse both =>
          have both := not_not.mp both
          refine .inl ⟨⟨by omega, nonzero, not_not.mp granted, both.1, both.2⟩, rfl,
            given.keyBuf.block (word32 payload).toNat, given.outKeyBuf.block (word32 payload).toNat,
            ?_⟩
          exact ⟨nonzero, both.2, rfl, rfl, Nat.zero_le _, rfl, rfl, by simp [MallocGiven.block],
            by simp [MallocGiven.block], rfl⟩

theorem setKeyLen_processed (upload : Upload) :
    (upload.setKeyLen arch payload given).processed = [] := by
  unfold Upload.setKeyLen
  split
  · rfl
  split
  · rfl
  dsimp only
  split
  · rfl
  split
  · rfl
  split <;> rfl

/-- The payload of `KEY_BUF` is not empty and there is room for it. -/
def RoomFor (upload : Upload) (payload : List Byte) : Prop :=
  payload ≠ [] ∧ upload.keyOffset.toNat + payload.length ≤ upload.keyLen.toNat

theorem sendKeyBuf_released (free : Follows arch none upload) :
    (upload.sendKeyBuf arch payload).rc ≠ noError ∧
    Follows arch none (upload.sendKeyBuf arch payload).upload := by
  unfold Upload.sendKeyBuf
  rw [free.2.1]
  exact ⟨show (-1 : Int) ≠ 0 by decide, free⟩

theorem sendKeyBuf_processed (upload : Upload) :
    (upload.sendKeyBuf arch payload).processed = [] := by
  unfold Upload.sendKeyBuf
  split
  · split
    · rfl
    split <;> rfl
  · rfl

/-- The buffer is complete, it is decrypted and the keys are set. -/
structure GoodKeybox (arch : Arch) (upload : Upload) (given : ServeGiven) (keyBuf out : List Byte) :
    Prop where
  complete : upload.keyOffset = upload.keyLen
  opened : (decrypted arch upload.keyOffset keyBuf out given).1.1 = noError
  set : keysSet (decrypted arch upload.keyOffset keyBuf out given).2 given = noError

theorem length_decrypted (keyOffset : BitVec 32) :
    (decrypted arch keyOffset keyBuf out given).2.length = out.length := by
  have keeps : ∀ op buffer, buffer.length = out.length →
      (keyboxAnswer keyBuf given op buffer).2.length = out.length := by
    intro op buffer same
    unfold keyboxAnswer
    split
    case h_2 =>
      change (overwrite buffer 0 _).length = _
      rw [length_overwrite, same]
      rw [length_take]
      omega
    all_goals exact same
  exact Dialog.run_invariant keeps _ rfl

theorem overwrite_wiped {buffer : List Byte} {len : Nat} (length : buffer.length = len) :
    overwrite buffer 0 (List.replicate len 0) = List.replicate len 0 := by
  rw [overwrite, length_replicate, drop_eq_nil_of_le (by omega), append_nil]
  rfl

theorem handleKey_released (free : Follows arch none upload) :
    Follows arch none (upload.handleKey arch given).upload ∧
    (upload.handleKey arch given).processed = [] := by
  unfold Upload.handleKey
  rw [free.2.1]
  exact ⟨free, rfl⟩

section

variable (receives : Receives arch s upload keyBuf out)

include receives

theorem setKeyLen_open : (upload.setKeyLen arch payload given).rc ≠ noError ∧
      Follows arch (some s) (upload.setKeyLen arch payload given).upload := by
  have dirty : upload.keyLen ≠ 0 := receives.keyLen ▸ receives.len_ne
  unfold Upload.setKeyLen
  rw [if_pos (.inl dirty)]
  exact ⟨show (-1 : Int) ≠ 0 by decide, keyBuf, out, receives⟩

/-- Two times the length does not exceed `size_t`, so that the sum does not wrap. -/
theorem sendKeyBuf_guard : (payload.length = 0 ∨ upload.keyLen.toNat < payload.length ∨
        upload.keyLen.toNat < (upload.keyOffset.toNat + payload.length) % 2 ^ arch.bits) ↔
      ¬RoomFor upload payload := by
  have fits := receives.addressable
  have below := receives.data_le
  rw [Addressable] at fits
  rw [RoomFor, receives.keyLen, receives.keyOffset, not_and_or, not_ne_iff, not_le,
    length_eq_zero_iff]
  refine or_congr_right ?_
  by_cases long : s.len.toNat < payload.length
  · exact iff_of_true (.inl long) (by omega)
  · rw [Nat.mod_eq_of_lt (by omega), or_iff_right long]

theorem sendKeyBuf_open : (RoomFor upload payload ∧ (upload.sendKeyBuf arch payload).rc = noError ∧
        Follows arch (some { s with data := s.data ++ payload })
        (upload.sendKeyBuf arch payload).upload) ∨
      (¬RoomFor upload payload ∧ (upload.sendKeyBuf arch payload).rc ≠ noError ∧
        Follows arch (some s) (upload.sendKeyBuf arch payload).upload) := by
  have nonzero : upload.keyLen ≠ 0 := receives.keyLen ▸ receives.len_ne
  unfold Upload.sendKeyBuf
  rw [receives.hasKeyBuf, receives.hasOut]
  dsimp only
  rw [if_neg nonzero]
  by_cases room : RoomFor upload payload
  · rw [if_neg ((sendKeyBuf_guard receives).not.mpr (not_not.mpr room))]
    have inside := room.2
    rw [receives.keyLen, receives.keyOffset] at inside
    refine .inl ⟨room, rfl, overwrite keyBuf upload.keyOffset.toNat payload, out, ?_⟩
    have fits : upload.keyOffset.toNat + payload.length ≤ keyBuf.length := by
      rw [receives.keyOffset, receives.length_keyBuf]
      exact inside
    constructor
    case len_ne => exact receives.len_ne
    case addressable => exact receives.addressable
    case keyLen => exact receives.keyLen
    case keyOffset =>
      change (upload.keyOffset + BitVec.ofNat 32 payload.length).toNat = (s.data ++ payload).length
      rw [BitVec.toNat_add, BitVec.toNat_ofNat, receives.keyOffset, length_append, Nat.add_mod_mod,
        Nat.mod_eq_of_lt (by omega)]
    case data_le =>
      change (s.data ++ payload).length ≤ _
      rw [length_append]
      exact inside
    case hasKeyBuf => rfl
    case hasOut => rfl
    case length_keyBuf => rw [length_overwrite fits, receives.length_keyBuf]
    case length_out => exact receives.length_out
    case data =>
      change (overwrite keyBuf upload.keyOffset.toNat payload).take
        (s.data ++ payload).length = s.data ++ payload
      rw [overwrite, receives.keyOffset, receives.data, ← append_assoc, take_left]
  · rw [if_pos ((sendKeyBuf_guard receives).mpr room)]
    refine .inr ⟨room, show (-2 : Int) ≠ 0 by decide, keyBuf, out, receives⟩

theorem handleKey_open :
    (GoodKeybox arch upload given keyBuf out ∧
        Follows arch none (upload.handleKey arch given).upload ∧
        (upload.handleKey arch given).released = List.replicate 2 (List.replicate s.len.toNat 0) ∧
        (upload.handleKey arch given).processed = [s.data] ∧ s.data.length = s.len.toNat) ∨
      (¬GoodKeybox arch upload given keyBuf out ∧
        (upload.handleKey arch given).upload.keyBuf ≠ none) := by
  have nonzero : upload.keyLen ≠ 0 := receives.keyLen ▸ receives.len_ne
  unfold Upload.handleKey
  rw [receives.hasKeyBuf, receives.hasOut]
  dsimp only
  rw [if_neg nonzero]
  split
  case isTrue incomplete =>
    exact .inr
      ⟨fun good =>
        incomplete good.complete, by rw [receives.hasKeyBuf]; exact Option.some_ne_none _⟩
  case isFalse complete =>
    have complete := not_not.mp complete
    have full : s.data.length = s.len.toNat := by
      rw [← receives.keyOffset, complete, receives.keyLen]
    split
    case isTrue failed =>
      exact .inr ⟨fun good => failed good.opened, Option.some_ne_none _⟩
    case isFalse ok =>
      split
      case isTrue failed =>
        exact .inr ⟨fun good => failed good.set, Option.some_ne_none _⟩
      case isFalse set =>
        refine .inl ⟨⟨complete, not_not.mp ok, not_not.mp set⟩, ⟨rfl, rfl, rfl⟩, ?_, ?_, full⟩
        · rw [receives.keyLen, overwrite_wiped ((length_decrypted _).trans receives.length_out),
            overwrite_wiped receives.length_keyBuf]
          rfl
        · have whole := receives.data
          rw [full, ← receives.length_keyBuf, take_length] at whole
          rw [whole]

end

end Serve

/-! ### One event -/

/-- The message of an event that gets to the switch of `handle_msg`. -/
def ChannelEvent.arrived (ev : ChannelEvent) : Option (List Byte) :=
  if (¬ev.error ∧ ¬ev.ready ∧ ev.msg) ∧ ev.given.getMsg = noError ∧
      sizeofKmsetkeyMsg ≤ ev.given.message.length ∧ ev.given.readMsg = ev.given.message.length then
    some ev.given.message
  else none

def ChannelEvent.Idle (ev : ChannelEvent) : Prop :=
  ¬ev.error ∧ ¬ev.ready ∧ ¬ev.hup ∧ (ev.msg → ev.given.getMsg = errNoMsg)

section Event

variable {arch : Arch} {upload : Upload} {s : Session} {message : List Byte} {ev : ChannelEvent}

theorem handleChannel_arrived (arrived : ev.arrived = some message) :
    kmsetkeyHandleChannel arch upload ev =
      (⟨ev.chan, (upload.serveMsg arch message ev.given.serve).rc ≠ noError ∨ ev.hup,
          some (message, upload.serveMsg arch message ev.given.serve)⟩,
        (upload.serveMsg arch message ev.given.serve).upload) := by
  unfold ChannelEvent.arrived at arrived
  split at arrived
  case isTrue arrives =>
    cases arrived
    obtain ⟨⟨noErr, notReady, msg⟩, got, long, read⟩ := arrives
    have handled : upload.handleMsg arch ev.given =
        ((upload.serveMsg arch ev.given.message ev.given.serve).rc,
          some (upload.serveMsg arch ev.given.message ev.given.serve)) := by
      unfold Upload.handleMsg
      rw [if_neg (by rw [got]; decide), if_neg (not_not.mpr got), if_neg (not_lt.mpr long),
        if_neg (by omega), if_neg (not_not.mpr read)]
    unfold kmsetkeyHandleChannel
    rw [if_neg (by simp [noErr, notReady]), if_pos msg, handled]
    rfl
  · cases arrived

theorem handleMsg_unread (arch : Arch) (upload : Upload) {given : MsgGiven}
    (unread : ¬(given.getMsg = noError ∧
      sizeofKmsetkeyMsg ≤ given.message.length ∧ given.readMsg = given.message.length)) :
    ∃ rc, upload.handleMsg arch given = (rc, none) ∧ (rc = noError ↔ given.getMsg = errNoMsg) := by
  unfold Upload.handleMsg
  by_cases empty : given.getMsg = errNoMsg
  · exact ⟨noError, if_pos empty, iff_of_true rfl empty⟩
  rw [if_neg empty]
  by_cases got : given.getMsg = noError
  · rw [if_neg (not_not.mpr got)]
    by_cases short : given.message.length < sizeofKmsetkeyMsg
    · exact ⟨errNotValid, if_pos short, iff_of_false (by decide) empty⟩
    rw [if_neg short]
    by_cases failed : given.readMsg < 0
    · exact ⟨given.readMsg, if_pos failed, iff_of_false failed.ne empty⟩
    rw [if_neg failed, if_pos fun read => unread ⟨got, not_lt.mp short, read⟩]
    exact ⟨errNotValid, rfl, iff_of_false (by decide) empty⟩
  · exact ⟨given.getMsg, if_pos got, iff_of_false got empty⟩

theorem handleChannel_missed (missed : ev.arrived = none) :
    ∃ closed : Bool, kmsetkeyHandleChannel arch upload ev = (⟨ev.chan, closed, none⟩, upload) ∧
      (closed = false ↔ ev.Idle) := by
  unfold ChannelEvent.arrived at missed
  split at missed
  · cases missed
  case isFalse misses =>
    unfold kmsetkeyHandleChannel ChannelEvent.Idle
    by_cases broken : ev.error = true ∨ ev.ready = true
    · refine ⟨true, by rw [if_pos broken], iff_of_false (by decide) ?_⟩
      rintro ⟨noErr, notReady, -⟩
      exact broken.elim noErr notReady
    rw [if_neg broken]
    have sound := not_or.mp broken
    by_cases msg : ev.msg = true
    · obtain ⟨rc, handled, empty⟩ := handleMsg_unread arch upload
        fun reads => misses ⟨⟨sound.1, sound.2, msg⟩, reads⟩
      rw [if_pos msg, handled]
      refine ⟨_, rfl, ?_⟩
      simp [sound, msg, ← empty, and_comm]
    · rw [if_neg msg]
      exact ⟨ev.hup, rfl, by simp [sound, msg]⟩

variable {session : Option Session} {served : Served} {closed : Bool} {chan : Nat}

theorem sessionAfter_served (goes : sessionServed session chan message served.rc = some s) :
    sessionAfter session ⟨chan, closed, some (message, served)⟩ = if closed ∧ s.chan = chan then
      none else some s := by
  unfold sessionAfter
  dsimp only
  rw [goes]
  cases closed <;> by_cases same : s.chan = chan <;> simp [same]

theorem sessionAfter_none {served : Option (List Byte × Served)}
    (ends : ∀ message result, served = some (message, result) →
      sessionServed none chan message result.rc = none) :
      sessionAfter none ⟨chan, closed, served⟩ = none := by
  unfold sessionAfter
  cases served with
  | none => cases closed <;> rfl
  | some served =>
    dsimp only
    rw [ends served.1 served.2 rfl]
    cases closed <;> rfl

/-- What has to hold of an event so that no session is given up.  Without a session the
connection of an accepted `KEY_LEN` must not be gone at once.  During a session every
`SET_KEY` succeeds, and on its own connection there is nothing else but `KEY_BUF` with
a payload that fits. -/
def Steady (arch : Arch) (session : Option Session) (upload : Upload) (ev : ChannelEvent) : Prop :=
  match session, ev.arrived with
  | none, none => True
  | none, some message =>
    ev.hup → msgCmd message = keyLenCmd → ¬MayOpen arch (msgPayload message) ev.given.serve
  | some s, none => ev.chan = s.chan → ev.Idle
  | some s, some message =>
    if msgCmd message = setKeyCmd then
      ∃ keyBuf out, upload.keyBuf = some keyBuf ∧ upload.outKeyBuf = some out ∧
        GoodKeybox arch upload ev.given.serve keyBuf out
    else ev.chan = s.chan → ¬ev.hup ∧ msgCmd message = keyBufCmd ∧
      RoomFor upload (msgPayload message)

/-- What is asked of an event, given the session before it. -/
structure Lawful (session : Option Session) (seen : Observation) : Prop where
  /-- a buffer is processed only when it is complete -/
  complete : ∀ input ∈ seen.processed, ∃ s, session = some s ∧ input = s.data ∧
    s.data.length = s.len.toNat
  single : seen.processed.length ≤ 1
  ends : seen.processed ≠ [] → sessionAfter session seen = none
  /-- both buffers are wiped and released when the session ends -/
  wipes : ∀ s, session = some s → sessionAfter session seen = none →
    seen.released = List.replicate 2 (List.replicate s.len.toNat 0)

theorem Lawful.of_quiet {seen : Observation} (quiet : seen.processed = [])
    (lasts : session ≠ none → sessionAfter session seen ≠ none) : Lawful session seen where
  complete := by simp [quiet]
  single := by simp [quiet]
  ends processed := absurd quiet processed
  wipes s found ended := by
    subst found
    exact absurd ended (lasts (Option.some_ne_none s))

theorem serveMsg_eq (arch : Arch) (upload : Upload) (message : List Byte) (given : ServeGiven) :
    upload.serveMsg arch message given =
      if msgCmd message = keyLenCmd then upload.setKeyLen arch (msgPayload message) given
      else if msgCmd message = keyBufCmd then upload.sendKeyBuf arch (msgPayload message)
      else if msgCmd message = setKeyCmd then upload.handleKey arch given
      else ⟨errNotSupported, msgCmd message, upload, [], []⟩ := rfl

theorem serveMsg_released (free : Follows arch none upload) (message : List Byte)
    (given : ServeGiven) (chan : Nat) : (upload.serveMsg arch message given).processed = [] ∧
      ((msgCmd message = keyLenCmd ∧ MayOpen arch (msgPayload message) given ∧
          (upload.serveMsg arch message given).rc = noError ∧
          Follows arch (some ⟨chan, word32 (msgPayload message), []⟩)
          (upload.serveMsg arch message given).upload) ∨
        (¬(msgCmd message = keyLenCmd ∧ MayOpen arch (msgPayload message) given) ∧
          sessionServed none chan message (upload.serveMsg arch message given).rc = none ∧
          Follows arch none (upload.serveMsg arch message given).upload)) := by
  rw [serveMsg_eq, sessionServed]
  by_cases isLen : msgCmd message = keyLenCmd
  · simp only [if_pos isLen]
    refine ⟨setKeyLen_processed upload, ?_⟩
    obtain ⟨may, ok, follows⟩ | ⟨mayNot, failed, follows⟩ := setKeyLen_released free chan
    · exact .inl ⟨isLen, may, ok, follows⟩
    · exact .inr ⟨fun opens => mayNot opens.2, if_neg failed, follows⟩
  by_cases isBuf : msgCmd message = keyBufCmd
  · obtain ⟨failed, follows⟩ := sendKeyBuf_released free
    simp only [if_neg isLen, if_pos isBuf]
    exact ⟨sendKeyBuf_processed upload, .inr ⟨fun opens => isLen opens.1, if_neg failed, follows⟩⟩
  by_cases isSet : msgCmd message = setKeyCmd
  · obtain ⟨follows, processed⟩ := handleKey_released free
    simp only [if_neg isLen, if_neg isBuf, if_pos isSet]
    exact ⟨processed, .inr ⟨fun opens => isLen opens.1, trivial, follows⟩⟩
  · simp only [if_neg isLen, if_neg isBuf, if_neg isSet]
    exact ⟨trivial, .inr ⟨fun opens => isLen opens.1, trivial, free⟩⟩

theorem serveMsg_open (follows : Follows arch (some s) upload) (given : ServeGiven) (chan : Nat)
    (other : msgCmd message ≠ setKeyCmd) :
    (upload.serveMsg arch message given).processed = [] ∧
      ((upload.serveMsg arch message given).rc = noError ↔
        msgCmd message = keyBufCmd ∧ RoomFor upload (msgPayload message)) ∧
      ∃ next, next.chan = s.chan ∧
        sessionServed (some s) chan message (upload.serveMsg arch message given).rc = some next ∧
        Follows arch (some next) (upload.serveMsg arch message given).upload := by
  obtain ⟨keyBuf, out, receives⟩ := follows
  have ne : keyLenCmd ≠ keyBufCmd := by decide
  rw [serveMsg_eq, sessionServed]
  by_cases isLen : msgCmd message = keyLenCmd
  · obtain ⟨failed, follows⟩ := setKeyLen_open receives
    simp only [if_pos isLen]
    exact ⟨setKeyLen_processed upload, iff_of_false failed fun adds => ne (isLen ▸ adds.1), s, rfl,
      if_neg failed, follows⟩
  by_cases isBuf : msgCmd message = keyBufCmd
  · simp only [if_neg isLen, if_pos isBuf]
    refine ⟨sendKeyBuf_processed upload, ?_⟩
    obtain ⟨room, ok, follows⟩ | ⟨full, failed, follows⟩ := sendKeyBuf_open receives
    · exact ⟨iff_of_true ok ⟨isBuf, room⟩, { s with data := s.data ++ msgPayload message }, rfl,
        if_pos ok, follows⟩
    · exact ⟨iff_of_false failed fun adds => full adds.2, s, rfl, if_neg failed, follows⟩
  · simp only [if_neg isLen, if_neg isBuf, if_neg other]
    exact ⟨trivial, iff_of_false (by decide) fun adds => isBuf adds.1, s, rfl, rfl, keyBuf,
      out, receives⟩

theorem sessionAfter_missed :
    sessionAfter session ⟨chan, closed, none⟩ = if closed then session.filter (·.chan ≠ chan)
      else session := rfl

theorem Follows.keyBuf_ne_none (follows : Follows arch (some s) upload) : upload.keyBuf ≠ none := by
  obtain ⟨keyBuf, out, receives⟩ := follows
  rw [receives.hasKeyBuf]
  exact Option.some_ne_none keyBuf

theorem sessionAfter_setKey (isSet : msgCmd message = setKeyCmd) :
    sessionAfter session ⟨chan, closed, some (message, served)⟩ = none := by
  have notLen : setKeyCmd ≠ keyLenCmd := by decide
  have notBuf : setKeyCmd ≠ keyBufCmd := by decide
  unfold sessionAfter sessionServed
  simp only [isSet, if_neg notLen, if_neg notBuf, if_true]
  cases closed <;> rfl

theorem serveMsg_setKey (isSet : msgCmd message = setKeyCmd) (given : ServeGiven) :
    upload.serveMsg arch message given = upload.handleKey arch given := by
  rw [serveMsg_eq, if_neg (by rw [isSet]; decide), if_neg (by rw [isSet]; decide), if_pos isSet]

/-- A steady event keeps the session and the globals together; any other gives the session
up and leaves a buffer. -/
theorem handleChannel_cases (follows : Follows arch session upload) (ev : ChannelEvent) :
    (Steady arch session upload ev ∧
        Follows arch (sessionAfter session (kmsetkeyHandleChannel arch upload ev).1)
          (kmsetkeyHandleChannel arch upload ev).2 ∧
        Lawful session (kmsetkeyHandleChannel arch upload ev).1) ∨
      (¬Steady arch session upload ev ∧
        sessionAfter session (kmsetkeyHandleChannel arch upload ev).1 = none ∧
        (kmsetkeyHandleChannel arch upload ev).2.keyBuf ≠ none) := by
  unfold Steady
  cases arrived : ev.arrived with
  | none =>
    obtain ⟨closed, handled, idle⟩ := @handleChannel_missed arch upload ev arrived
    rw [handled]
    cases session with
    | none =>
      rw [sessionAfter_none fun _ _ contra => by cases contra]
      exact .inl ⟨trivial, follows, .of_quiet rfl fun contra => absurd rfl contra⟩
    | some s =>
      by_cases gone : closed = true ∧ ev.chan = s.chan
      · obtain ⟨rfl, same⟩ := gone
        refine .inr ⟨fun steady => absurd (idle.mpr (steady same)) (by decide), ?_,
          follows.keyBuf_ne_none⟩
        simp [sessionAfter_missed, same]
      · have same : sessionAfter (some s) ⟨ev.chan, closed, none⟩ = some s := by
          cases closed with
          | false => rfl
          | true =>
            have apart : s.chan ≠ ev.chan := fun same => gone ⟨rfl, same.symm⟩
            simp [sessionAfter_missed, apart]
        rw [same]
        refine .inl ⟨fun own => idle.mp ?_, follows, .of_quiet rfl fun open_ => same.symm ▸ open_⟩
        exact Bool.eq_false_iff.mpr fun closes => gone ⟨closes, own⟩
  | some message =>
    rw [handleChannel_arrived arrived]
    cases session with
    | none =>
      obtain ⟨quiet, ⟨isLen, may, ok, opened⟩ | ⟨refused, stays, released⟩⟩ :=
        serveMsg_released follows message ev.given.serve ev.chan
      · have goes :
          sessionServed none ev.chan message (upload.serveMsg arch message ev.given.serve).rc =
            some ⟨ev.chan, word32 (msgPayload message), []⟩ := by
          rw [sessionServed, if_pos isLen, if_pos ok]
        rw [sessionAfter_served goes]
        by_cases gone : ev.hup = true
        · rw [if_pos (by simp [gone])]
          exact .inr ⟨fun steady => steady gone isLen may, rfl, opened.keyBuf_ne_none⟩
        · rw [if_neg (by simp [ok, gone])]
          exact .inl ⟨fun hup => absurd hup gone, opened, .of_quiet quiet fun contra =>
            absurd rfl contra⟩
      · rw [sessionAfter_none (by rintro _ _ ⟨⟩; exact stays)]
        exact .inl ⟨fun _ isLen may => refused ⟨isLen, may⟩, released, .of_quiet quiet fun contra =>
          absurd rfl contra⟩
    | some s =>
      by_cases isSet : msgCmd message = setKeyCmd
      · simp only [if_pos isSet]
        obtain ⟨keyBuf, out, receives⟩ := follows
        rw [sessionAfter_setKey isSet, serveMsg_setKey isSet]
        obtain ⟨good, released, wiped, processed, full⟩ | ⟨bad, stays⟩ := handleKey_open receives
        · refine .inl ⟨⟨keyBuf, out, receives.hasKeyBuf, receives.hasOut, good⟩, released, ?_, ?_,
            fun _ => sessionAfter_setKey isSet, ?_⟩
          · intro input member
            change input ∈ (upload.handleKey arch ev.given.serve).processed at member
            rw [processed, mem_singleton] at member
            exact ⟨s, rfl, member, full⟩
          · exact le_of_eq (congrArg List.length processed)
          · rintro _ ⟨⟩ -
            exact wiped
        · refine .inr ⟨?_, rfl, stays⟩
          rintro ⟨keyBuf', out', hasKeyBuf, hasOut, good⟩
          cases hasKeyBuf.symm.trans receives.hasKeyBuf
          cases hasOut.symm.trans receives.hasOut
          exact bad good
      · simp only [if_neg isSet]
        obtain ⟨quiet, accepts, next, sameChan, goes, follows⟩ :=
          serveMsg_open follows ev.given.serve ev.chan isSet
        have after :=
          @sessionAfter_served next message (some s) (upload.serveMsg arch message ev.given.serve)
            ((upload.serveMsg arch message ev.given.serve).rc ≠ noError ∨ ev.hup) ev.chan goes
        split at after
        case isTrue gone =>
          refine .inr ⟨fun steady => ?_, after, follows.keyBuf_ne_none⟩
          obtain ⟨stays, adds⟩ := steady (by rw [← gone.2, sameChan])
          have closed := gone.1
          simp [accepts.mpr adds, stays] at closed
        case isFalse stays =>
          rw [after]
          refine .inl
            ⟨fun own => ?_, follows,
              .of_quiet quiet fun _ => by rw [after]; exact Option.some_ne_none next⟩
          obtain ⟨ok, remains⟩ := not_or.mp fun closed =>
            stays ⟨decide_eq_true closed, by rw [sameChan, own]⟩
          exact ⟨remains, accepts.mp (not_not.mp ok)⟩

end Event

/-! ### Whole runs -/

/-- What is asked of the upload after a run. -/
structure UploadCorrect (arch : Arch) (history : List Observation) (upload : Upload) : Prop where
  /-- while an upload is open, the buffer starts with what was accepted since -/
  receives : ∀ s, session history = some s →
    upload.keyLen = s.len ∧ upload.keyOffset ≤ upload.keyLen ∧
      upload.keyBuf.map (List.take upload.keyOffset.toNat) = some s.data
  /-- complete buffers are processed, and the ones that are given up are wiped -/
  lawful : ∀ past now, past ++ [now] <+: history → Lawful (session past) now
  /-- between two buffers that are processed another one is opened -/
  once : ∀ past first between second, past ++ first :: (between ++ [second]) <+: history →
    first.processed ≠ [] → second.processed ≠ [] → ∃ seen ∈ between, seen.Opens
  /-- without a session both buffers are released, and `KEY_LEN` is accepted -/
  released : session history = none →
    upload.keyBuf = none ∧ upload.outKeyBuf = none ∧
      ∀ payload given, MayOpen arch payload given →
      (upload.setKeyLen arch payload given).rc = noError

section Runs

variable {arch : Arch} {upload : Upload} {history : List Observation}

theorem sessionAfter_eq_none {seen : Observation} (shut : ¬seen.Opens) :
    sessionAfter none seen = none := by
  obtain ⟨chan, closed, served⟩ := seen
  apply sessionAfter_none
  rintro message result rfl
  unfold sessionServed
  by_cases isLen : msgCmd message = keyLenCmd
  · rw [if_pos isLen, if_neg fun ok => shut ⟨message, result, ⟨rfl, isLen⟩, ok⟩]
  rw [if_neg isLen]
  split
  · split <;> rfl
  · split <;> rfl

theorem session_append_eq_none {past between : List Observation} (closed : session past = none)
    (shut : ∀ seen ∈ between, ¬seen.Opens) : session (past ++ between) = none := by
  induction between generalizing past with
  | nil => rwa [append_nil]
  | cons seen rest ih =>
    obtain ⟨first, others⟩ := forall_mem_cons.mp shut
    rw [← singleton_append, ← append_assoc]
    apply ih _ others
    rw [session_concat, closed]
    exact sessionAfter_eq_none first

def Tracked (arch : Arch) (history : List Observation) (upload : Upload) : Prop :=
  Follows arch (session history) upload ∧ ∀ past now, past ++ [now] <+: history →
    Lawful (session past) now

theorem tracked_initial : Tracked arch [] Upload.initial := by
  refine ⟨⟨rfl, rfl, rfl⟩, fun past now part => ?_⟩
  have empty := prefix_nil.mp part
  simp at empty

theorem Tracked.step {ev : ChannelEvent} (tracked : Tracked arch history upload)
    (steady : Steady arch (session history) upload ev) :
    Tracked arch (history ++ [(kmsetkeyHandleChannel arch upload ev).1])
    (kmsetkeyHandleChannel arch upload ev).2 := by
  obtain ⟨-, follows, lawful⟩ := (handleChannel_cases tracked.1 ev).resolve_right fun lost =>
    lost.1 steady
  refine ⟨by rw [session_concat]; exact follows, fun past now part => ?_⟩
  obtain whole | earlier := prefix_concat_iff.mp part
  · obtain ⟨rfl, last⟩ := append_inj' whole rfl
    obtain ⟨rfl, -⟩ := List.cons.inj last
    exact lawful
  · exact tracked.2 past now earlier

theorem Tracked.correct (tracked : Tracked arch history upload) :
    UploadCorrect arch history upload where
  receives := by
    intro s found
    have follows := tracked.1
    rw [found] at follows
    obtain ⟨keyBuf, out, receives⟩ := follows
    refine ⟨receives.keyLen, ?_, ?_⟩
    · rw [BitVec.le_def, receives.keyOffset, receives.keyLen]
      exact receives.data_le
    · rw [receives.hasKeyBuf, Option.map_some, receives.keyOffset, receives.data]
  lawful := tracked.2
  once := by
    intro past first between second part firstProcesses secondProcesses
    by_contra shut
    push Not at shut
    rw [← singleton_append, ← append_assoc, ← append_assoc] at part
    have ends : session (past ++ [first]) = none := by
      rw [session_concat]
      refine (tracked.2 past first ?_).ends firstProcesses
      exact (prefix_append (past ++ [first]) (between ++ [second])).trans (by rwa [← append_assoc])
    have stays := session_append_eq_none ends shut
    obtain ⟨input, member⟩ := exists_mem_of_ne_nil _ secondProcesses
    obtain ⟨s, found, -⟩ := (tracked.2 _ second part).complete input member
    rw [stays] at found
    cases found
  released := by
    intro ended
    have follows := tracked.1
    rw [ended] at follows
    refine ⟨follows.2.1, follows.2.2, fun payload given may => ?_⟩
    obtain ⟨-, ok, -⟩ | ⟨refused, -⟩ := setKeyLen_released follows 0
    · exact ok
    · exact absurd may refused

/-- The upload is correct after every part of a run just if all its events are steady:
nothing is released when a session is given up. -/
theorem upload_correct_iff (arch : Arch) (events : List ChannelEvent) :
    (∀ before, before <+: events →
        UploadCorrect arch (Transcript.transcript (kmsetkeyHandleChannel arch) .initial before)
          (Transcript.final (kmsetkeyHandleChannel arch) .initial before)) ↔
      Transcript.MeetsAfter (kmsetkeyHandleChannel arch)
        (fun history upload ev => Steady arch (session history) upload ev) [] .initial events := by
  have shows (history : List Observation) (upload : Upload)
    (tracked : Tracked arch history upload) :
      UploadCorrect arch history upload := tracked.correct
  have keeps (history : List Observation) (upload : Upload) (ev : ChannelEvent)
      (tracked : Tracked arch history upload) (steady : Steady arch (session history) upload ev) :=
      tracked.step steady
  have loses (history : List Observation) (upload : Upload) (ev : ChannelEvent)
    (tracked : Tracked arch history upload)
      (unsteady : ¬Steady arch (session history) upload ev) :
      ¬UploadCorrect arch (history ++ [(kmsetkeyHandleChannel arch upload ev).1])
        (kmsetkeyHandleChannel arch upload ev).2 := by
    intro correct
    obtain ⟨-, ended, stays⟩ := (handleChannel_cases tracked.1 ev).resolve_left fun kept =>
      unsteady kept.1
    exact stays (correct.released (by rw [session_concat]; exact ended)).1
  exact Transcript.forall_prefix_iff_meetsAfter shows keeps loses tracked_initial events

/-- `KEY_LEN` for a buffer of one byte, with enough memory. -/
def openEvent : ChannelEvent :=
  ⟨1, false, false, true, false, noError, bytes32 keyLenCmd ++ bytes32 1, 8,
    ⟨true, fun _ => 0⟩, ⟨true, fun _ => 0⟩, fun _ => true, [], true, true, []⟩

def dropEvent : ChannelEvent := { openEvent with msg := false, hup := true }

/-- When the connection is gone, the buffers stay, and no upload can be opened. -/
theorem dropped_upload_stays :
    ¬UploadCorrect arm64
      (Transcript.transcript (kmsetkeyHandleChannel arm64) .initial [openEvent, dropEvent])
      (Transcript.final (kmsetkeyHandleChannel arm64) .initial [openEvent, dropEvent]) := by
  intro correct
  have stays :
      (Transcript.final (kmsetkeyHandleChannel arm64) .initial [openEvent, dropEvent]).keyBuf =
        some [0] := by
    decide +kernel
  have ended :
      session
        (Transcript.transcript (kmsetkeyHandleChannel arm64) .initial [openEvent, dropEvent]) =
        none := by
    rfl
  have released := (correct.released ended).1
  cases released

end Runs

end Trusty.Kmsetkey
