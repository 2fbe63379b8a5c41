import Trusty.Kmsetkey.Keybox
import Trusty.Kmsetkey.KeyList

/-!
The upload of a keybox (`kmsetkey.c`).

`KEY_LEN` opens an upload, `KEY_BUF` adds to it and `SET_KEY` decrypts it and sets the
keys.  The upload is global: all connections work on the same one.
-/

namespace Trusty.Kmsetkey

open Lib Kernel Keymaster

def errNotReady : Int := -3
def errNotSupported : Int := -24

def respFlag : BitVec 32 := 0x80000000
def doneFlag : BitVec 32 := 0x40000000

def keyLenCmd : BitVec 32 := 0
def keyBufCmd : BitVec 32 := 1
def setKeyCmd : BitVec 32 := 2

def sizeofKmsetkeyMsg : Nat := 4

/-- The globals; a buffer that is not there is `NULL`. -/
structure Upload where
  keyLen : BitVec 32
  keyOffset : BitVec 32
  keyBuf : Option (List Byte)
  outKeyBuf : Option (List Byte)

def Upload.initial : Upload := ⟨0, 0, none, none⟩

structure MallocGiven where
  granted : Bool
  content : Nat → Byte

def MallocGiven.block (given : MallocGiven) (len : Nat) :
    List Byte := (List.range len).map given.content

/-- What the functions that serve a message are answered.  `plain` is what AES writes to
the output, and `commands` what the commands of `set_key` return one after the other. -/
structure ServeGiven where
  keyBuf : MallocGiven
  outKeyBuf : MallocGiven
  crypto : CryptoCall → Bool
  plain : List Byte
  keyMemory : Bool
  payload : Bool
  commands : List Int

/-- What a message leads to: the buffers are listed that were released, as they were then,
and the ones that were passed to `decrypt_keybox`. -/
structure Served where
  rc : Int
  reply : BitVec 32
  upload : Upload
  released : List (List Byte)
  processed : List (List Byte)

/-- Two blocks of this length have to find a place. -/
def Addressable (arch : Arch) (len : BitVec 32) : Prop := 2 * len.toNat < 2 ^ arch.bits

instance (arch : Arch) (len : BitVec 32) : Decidable (Addressable arch len) :=
  inferInstanceAs (Decidable (_ < _))

section

variable (arch : Arch) (upload : Upload)

def Upload.setKeyLen (payload : List Byte) (given : ServeGiven) : Served :=
  if upload.keyLen ≠ 0 ∨ upload.keyBuf ≠ none ∨ upload.outKeyBuf ≠ none then
    ⟨-1, keyLenCmd, upload, [], []⟩
  else if sizeofKmsetkeyMsg + payload.length ≠ sizeofKmsetkeyMsg + 4 then
    ⟨-2, keyLenCmd, upload, [], []⟩
  else
    let keyLen := word32 payload
    if keyLen = 0 then ⟨-3, keyLenCmd, { upload with keyLen := keyLen }, [], []⟩
    else if ¬given.keyBuf.granted then ⟨-4, keyLenCmd, { upload with keyLen := 0 }, [], []⟩
    else
      let keyBuf := given.keyBuf.block keyLen.toNat
      if ¬(given.outKeyBuf.granted ∧ Addressable arch keyLen) then
        ⟨-5, keyLenCmd, { upload with keyLen := 0, keyBuf := none }, [keyBuf], []⟩
      else
        ⟨noError, keyLenCmd ||| (respFlag ||| doneFlag),
          ⟨keyLen, 0, some keyBuf, some (given.outKeyBuf.block keyLen.toNat)⟩, [], []⟩

/-- `send_key_buf`; the sum is one of `size_t`. -/
def Upload.sendKeyBuf (payload : List Byte) : Served :=
  match upload.keyBuf, upload.outKeyBuf with
  | some keyBuf, some _ =>
    if upload.keyLen = 0 then ⟨-1, keyBufCmd, upload, [], []⟩
    else if payload.length = 0 ∨ upload.keyLen.toNat < payload.length ∨
        upload.keyLen.toNat < (upload.keyOffset.toNat + payload.length) % 2 ^ arch.bits then
      ⟨-2, keyBufCmd, upload, [], []⟩
    else
      let keyOffset := upload.keyOffset + BitVec.ofNat 32 payload.length
      let reply := if keyOffset = upload.keyLen then keyBufCmd ||| doneFlag else keyBufCmd
      ⟨noError, reply ||| respFlag,
        { upload with
          keyOffset := keyOffset
          keyBuf := some (overwrite keyBuf upload.keyOffset.toNat payload) },
        [], []⟩
  | _, _ => ⟨-1, keyBufCmd, upload, [], []⟩

/-- What `decrypt_keybox` is answered; the state is the output.  What AES writes behind the
output is left out. -/
def keyboxAnswer (input : List Byte) (given : ServeGiven) :
    (op : KeyboxOp) → List Byte → KeyboxOp.Ans op × List Byte
  | .load pos len, out => (slice input pos len, out)
  | .crypto (.aesCbc pos len), out =>
    (given.crypto (.aesCbc pos len), overwrite out 0 (given.plain.take (min len out.length)))
  | .crypto call, out => (given.crypto call, out)
  | .malloc _ _, out => (given.keyMemory, out)
  | .store _ _, out => ((), out)
  | .copyOut _ _, out => ((), out)

/-- What `set_key` is answered; the state has the commands that are left. -/
def setKeyAnswer (buf : List Byte) (given : ServeGiven) :
    (op : SetKeyOp) → List Int → SetKeyOp.Ans op × List Int
  | .malloc _, commands => (given.payload, commands)
  | .load pos, commands => (slice buf pos 4, commands)
  | .copy pos len, commands => (slice buf pos len, commands)
  | .setKeyImpl _ _, commands => (commands.headD noError, commands.tail)

/-- The result of `decrypt_keybox` on the whole buffer with `*out_len`, and the output.
Neither it nor `set_key` halts. -/
def decrypted (arch : Arch) (keyOffset : BitVec 32) (keyBuf out : List Byte) (given : ServeGiven) :
    (Int × BitVec 32) × List Byte :=
  let result := Dialog.run (keyboxAnswer keyBuf given) (decryptKeybox arch keyOffset keyOffset) out
  (result.1.getD (noError, keyOffset), result.2)

def keysSet (out : List Byte) (given : ServeGiven) : Int :=
  (Dialog.run (setKeyAnswer out given) setKey given.commands).1.getD noError

/-- `handle_key`; `key_offset` is where `decrypt_keybox` reports the length of the output. -/
def Upload.handleKey (given : ServeGiven) : Served :=
  match upload.keyBuf, upload.outKeyBuf with
  | some keyBuf, some outKeyBuf =>
    if upload.keyLen = 0 then ⟨errNotValid, setKeyCmd, upload, [], []⟩
    else if upload.keyOffset ≠ upload.keyLen then ⟨errNotReady, setKeyCmd, upload, [], []⟩
    else
      let ((rc, outLen), out) := decrypted arch upload.keyOffset keyBuf outKeyBuf given
      let upload := { upload with keyOffset := outLen, outKeyBuf := some out }
      if rc ≠ noError then ⟨if rc < 0 then rc else noError, setKeyCmd, upload, [], [keyBuf]⟩
      else
        let rc := keysSet out given
        if rc ≠ noError then ⟨if rc < 0 then rc else noError, setKeyCmd, upload, [], [keyBuf]⟩
        else
          let wiped := List.replicate upload.keyLen.toNat 0
          ⟨noError, setKeyCmd ||| (respFlag ||| doneFlag),
            { upload with keyLen := 0, keyBuf := none, outKeyBuf := none },
            [overwrite out 0 wiped, overwrite keyBuf 0 wiped], [keyBuf]⟩
  | _, _ => ⟨errNotValid, setKeyCmd, upload, [], []⟩

/-- A message that waits on a channel, and what the kernel answers.  Without memory for
the message `read_msg` fails. -/
structure MsgGiven where
  getMsg : Int
  message : List Byte
  readMsg : Int
  serve : ServeGiven

/-- The switch of `handle_msg`. -/
def Upload.serveMsg (message : List Byte) (given : ServeGiven) : Served :=
  let cmd := word32 (message.take 4)
  let payload := message.drop sizeofKmsetkeyMsg
  if cmd = keyLenCmd then upload.setKeyLen arch payload given
  else if cmd = keyBufCmd then upload.sendKeyBuf arch payload
  else if cmd = setKeyCmd then upload.handleKey arch given
  else ⟨errNotSupported, cmd, upload, [], []⟩

/-- `handle_msg`; the result is 0 if there is no message. -/
def Upload.handleMsg (given : MsgGiven) : Int × Option Served :=
  if given.getMsg = errNoMsg then (noError, none)
  else if given.getMsg ≠ noError then (given.getMsg, none)
  else if given.message.length < sizeofKmsetkeyMsg then (errNotValid, none)
  else if given.readMsg < 0 then (given.readMsg, none)
  else if given.readMsg ≠ given.message.length then (errNotValid, none)
  else
    let served := upload.serveMsg arch given.message given.serve
    (served.rc, some served)

structure ChannelEvent where
  chan : Nat
  error : Bool
  ready : Bool
  msg : Bool
  hup : Bool
  given : MsgGiven

/-- What is seen of an event: whether the channel was closed, and the message that was
served if there was one. -/
structure Observation where
  chan : Nat
  closed : Bool
  served : Option (List Byte × Served)

def kmsetkeyHandleChannel (ev : ChannelEvent) : Observation × Upload :=
  if ev.error ∨ ev.ready then (⟨ev.chan, true, none⟩, upload)
  else if ev.msg then
    let (rc, served) := upload.handleMsg arch ev.given
    let upload := (served.map Served.upload).getD upload
    (⟨ev.chan, rc ≠ noError ∨ ev.hup, served.map (ev.given.message, ·)⟩, upload)
  else (⟨ev.chan, ev.hup, none⟩, upload)

end

end Trusty.Kmsetkey
