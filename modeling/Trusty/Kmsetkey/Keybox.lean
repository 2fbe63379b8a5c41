import Trusty.Keymaster.Server
import Trusty.Lib.Buffer

/-!
The encrypted keybox of the key provisioning (`decrypt_keybox` of `cryptolib.c`).

RSA, AES and the hash are calls that succeed or fail; what matters here is which bytes
of the buffers they are given.  The lengths in the box decide that.
-/

namespace Trusty.Kmsetkey

open Lib Kernel Keymaster

def szAesIv : Nat := 16

def offsetEnckbHeaderSize : Nat := 68
def offsetEnckbHeaderKeycount : Nat := 72
def offsetEnckbHeaderHasekkb : Nat := 76
def offsetEnckbHeaderEkkb : Nat := 80
def szEnckbHeaderEkkb : Nat := 256
def szEnckbTotalHeader : Nat := 336
def szEnckbSig : Nat := 256

def szDrmkeyId : Nat := 4
def szDrmkeySize : Nat := 4
def szDrmkeySig : Nat := 256

/-- The offset of `drmKey` in `ENCRYPT_DRM_KEY_T`; two pointers are behind it. -/
def drmKeyOffset : Nat := 80

def sizeofEncryptDrmKey (arch : Arch) : Nat := drmKeyOffset + 2 * (arch.bits / 8)

/-- `"EncS"` -/
def magicNumber : List Byte := [0x45, 0x6e, 0x63, 0x53]

/-! ### What is asked for -/

/-- The calls of the crypto library, with positions in `in_keybox`. -/
inductive CryptoCall where
  | decryptKkbPub
  | rsaOaepDecode (pos len : Nat)
  | sha256 (pos len : Nat)
  /-- the hash over `key_buf` -/
  | sha256Key (len : Nat)
  | rsaPssVerify (pos len : Nat)
  | aesEcb
  /-- decrypts to the start of `out_keybox` -/
  | aesCbc (pos len : Nat)

inductive KeyboxOp where
  /-- a read of `in_keybox` into a variable -/
  | load (pos len : Nat)
  | crypto (call : CryptoCall)
  /-- the size of `key_buf` that is meant and the one that is passed -/
  | malloc (meant : Nat) (size : BitVec 32)
  /-- a write to `key_buf` -/
  | store (pos len : Nat)
  /-- copies the start of `out_keybox` to `key_buf` -/
  | copyOut (pos len : Nat)

def KeyboxOp.Ans : KeyboxOp → Type
  | .load _ _ => List Byte
  | .crypto _ => Bool
  | .malloc _ _ => Bool
  | .store _ _ => Unit
  | .copyOut _ _ => Unit

abbrev KeyboxDialog := Dialog KeyboxOp KeyboxOp.Ans

namespace Box

def load (pos len : Nat) : KeyboxDialog (List Byte) := Dialog.perform (KeyboxOp.load pos len)

def crypto (call : CryptoCall) : KeyboxDialog Bool := Dialog.perform (KeyboxOp.crypto call)

def malloc (meant : Nat) (size : BitVec 32) :
    KeyboxDialog Bool := Dialog.perform (KeyboxOp.malloc meant size)

def store (pos len : Nat) : KeyboxDialog Unit := Dialog.perform (KeyboxOp.store pos len)

def copyOut (pos len : Nat) : KeyboxDialog Unit := Dialog.perform (KeyboxOp.copyOut pos len)

end Box

def check {α : Type} (call : KeyboxDialog Bool) (failure : α) (rest : KeyboxDialog α) :
    KeyboxDialog α := do
  if ← call then rest else return failure

/-- The comparison with the magic number, which ends at the first difference. -/
def matchMagic : List Byte → Nat → KeyboxDialog Bool
  | [], _ => return true
  | byte :: rest, pos => do
    let found ← Box.load pos 1
    if found = [byte] then matchMagic rest (pos + 1) else return false

/-- `decrypt_Kkb`; the first byte of `Kkb_pub` is 0. -/
def decryptKkb :
    KeyboxDialog Bool := Box.crypto (.rsaOaepDecode offsetEnckbHeaderEkkb szEnckbHeaderEkkb)

def verifyKeybox (keyboxLen : BitVec 32) : KeyboxDialog Bool :=
  if keyboxLen = 0 then return false
  else check (Box.crypto (.sha256 0 (keyboxLen - BitVec.ofNat 32 szEnckbSig).toNat)) false
    (Box.crypto (.rsaPssVerify (keyboxLen - BitVec.ofNat 32 szEnckbSig).toNat szEnckbSig))

def verifyKey (keyLen : BitVec 32) (sig : Nat) : KeyboxDialog Bool :=
  if keyLen = 0 then return false
  else check (Box.crypto (.sha256Key keyLen.toNat)) false
    (Box.crypto (.rsaPssVerify sig szDrmkeySig))

def aesCbc (pos : Nat) (inLen : BitVec 32) : KeyboxDialog Bool :=
  if inLen = 0 then return false else Box.crypto (.aesCbc pos inLen.toNat)

/-- The end of `decrypt_keybox`: the decrypted key is copied behind its header to be
verified.  The result is the one of the function with `*out_len`. -/
def verifyDrmKey (drmKeySize encDrmKeySize : BitVec 32) : KeyboxDialog (Int × BitVec 32) :=
  let keyLen := drmKeySize + BitVec.ofNat 32 szDrmkeyId + BitVec.ofNat 32 szDrmkeySize
  check (Box.malloc (drmKeySize.toNat + szDrmkeyId + szDrmkeySize) keyLen) (-13, drmKeySize) do
    Box.store 0 szDrmkeyId
    Box.store szDrmkeyId szDrmkeySize
    Box.copyOut (szDrmkeyId + szDrmkeySize) drmKeySize.toNat
    check (verifyKey keyLen (szEnckbTotalHeader + drmKeyOffset + encDrmKeySize.toNat))
      (-14, drmKeySize) (return (0, drmKeySize))

/-- The part of `decrypt_keybox` from the first key on. -/
def decryptDrmKey (arch : Arch) (outLen : BitVec 32) : KeyboxDialog (Int × BitVec 32) := do
  let encryptDrm ← Box.load szEnckbTotalHeader (sizeofEncryptDrmKey arch)
  let drmKeySize := word32 (slice encryptDrm 8 4)
  let encDrmKeySize := word32 (slice encryptDrm 12 4)
  if slice encryptDrm 16 szAesIv = List.replicate szAesIv 0 then return (-10, outLen)
  else
    check (Box.crypto .aesEcb) (-11, outLen) <|
      check (aesCbc (szEnckbTotalHeader + drmKeyOffset) encDrmKeySize) (-12, outLen) <|
        verifyDrmKey drmKeySize encDrmKeySize

/-- The part of `decrypt_keybox` behind the magic number. -/
def decryptOpened (arch : Arch) (inLen outLen : BitVec 32) : KeyboxDialog (Int × BitVec 32) :=
  if inLen.toNat < szEnckbTotalHeader + szEnckbSig then return (-3, outLen)
  else do
    let totalLen ← Box.load offsetEnckbHeaderSize 4
    if inLen ≠ word32 totalLen ∨ outLen ≠ word32 totalLen then return (-4, outLen)
    else
      check (Box.crypto .decryptKkbPub) (-5, outLen) do
        let hasEkkb ← Box.load offsetEnckbHeaderHasekkb 4
        if word32 hasEkkb ≠ 1 then return (-6, outLen)
        else
          check decryptKkb (-7, outLen) <| check (verifyKeybox inLen) (-8, outLen) do
            let keyCount ← Box.load offsetEnckbHeaderKeycount 4
            if word32 keyCount ≠ 1 then return (-9, outLen) else decryptDrmKey arch outLen

/-- `decrypt_keybox`, with the value of `*out_len` before and after. -/
def decryptKeybox (arch : Arch) (inLen outLen : BitVec 32) : KeyboxDialog (Int × BitVec 32) :=
  if inLen = 0 then return (-1, outLen)
  else check (matchMagic magicNumber 0) (-2, outLen) (decryptOpened arch inLen outLen)

end Trusty.Kmsetkey
