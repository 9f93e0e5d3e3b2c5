import TelegramDesktop.DataStream

/-!
# Local files

A local file is a magic, the version of the application, a stream of byte arrays and a
signature, as in `storage/details/storage_file_utilities.cpp`.
-/

namespace TelegramDesktop

/-- The hashes and the local cipher, of which only this is known. -/
structure LocalCrypto (Key : Type*) where
  md5 : Bytes → Bytes
  sha1 : Bytes → Bytes
  encrypt : Key → Bytes → Bytes → Bytes
  decrypt : Key → Bytes → Bytes → Bytes
  length_md5 : ∀ bytes, (md5 bytes).length = 16
  length_sha1 : ∀ bytes, (sha1 bytes).length = 20
  length_encrypt : ∀ key key128 data, 16 ∣ data.length →
    (encrypt key key128 data).length = data.length
  length_decrypt : ∀ key key128 data, 16 ∣ data.length →
    (decrypt key key128 data).length = data.length
  decrypt_encrypt : ∀ key key128 data, 16 ∣ data.length →
    decrypt key key128 (encrypt key key128 data) = data

/-- A cipher that leaves its data alone. -/
instance {Key : Type*} : Inhabited (LocalCrypto Key) where
  default := {
    md5 := fun _ => List.replicate 16 0
    sha1 := fun _ => List.replicate 20 0
    encrypt := fun _ _ data => data
    decrypt := fun _ _ data => data
    length_md5 := fun _ => List.length_replicate
    length_sha1 := fun _ => List.length_replicate
    length_encrypt := fun _ _ _ _ => rfl
    length_decrypt := fun _ _ _ _ => rfl
    decrypt_encrypt := fun _ _ _ _ => rfl }

/-- A 32-bit number as it lies in memory. -/
def memory32 (value : UInt32) : Bytes := littleEndian 4 value.toNat

def ofMemory32 (bytes : Bytes) : UInt32 := UInt32.ofNat (ofLittleEndian bytes)

def qbswap (value : UInt32) : UInt32 := ofMemory32 (memory32 value).reverse

/-- `TDF$` -/
def tdfMagic : Bytes := [0x54, 0x44, 0x46, 0x24]

def appVersion : Int32 := 4002004

namespace LocalCrypto

variable {Key : Type*} (crypto : LocalCrypto Key)

/-- The data of an encrypted descriptor: room for its length, and what is written. -/
def encryptedDescriptor (payload : Bytes) : Bytes := [0, 0, 0, 0] ++ payload

/-- The bytes after the data that make its size a multiple of 16 are random. -/
def prepareEncrypted (key : Key) (random : Nat → UInt8) (data : Bytes) : Bytes :=
  let size := UInt32.ofNat data.length
  let fullSize := if size &&& 0x0F ≠ 0 then size + (0x10 - (size &&& 0x0F)) else size
  let resized := data ++ (List.range (fullSize - size).toNat).map random
  let toEncrypt := memory32 size ++ resized.drop 4
  let key128 := (crypto.sha1 toEncrypt).take 16
  key128 ++ crypto.encrypt key key128 toEncrypt

/-- Decrypted data, with the position of the reader in it. -/
structure Decrypted where
  data : Bytes
  pos : Nat
  deriving DecidableEq

/-- The block is decrypted and its sha-1 compared. -/
def decryptLocal (key : Key) (encrypted : Bytes) : Option Decrypted :=
  if encrypted.length ≤ 16 ∨ encrypted.length % 16 ≠ 0 then none
  else
    let fullLen := UInt32.ofNat (encrypted.length - 16)
    let encryptedKey := encrypted.take 16
    let decrypted := crypto.decrypt key encryptedKey ((encrypted.drop 16).take fullLen.toNat)
    if (crypto.sha1 decrypted).take 16 ≠ encryptedKey then none
    else
      let dataLen := ofMemory32 (decrypted.take 4)
      if dataLen > UInt32.ofNat decrypted.length ∨ dataLen ≤ fullLen - 16 ∨ dataLen < 4 then none
      else some { data := decrypted.take dataLen.toNat, pos := 4 }

def Decrypted.rest (decrypted : Decrypted) : Bytes := decrypted.data.drop decrypted.pos

end LocalCrypto

/-- A file that is being written. -/
structure FileWriteDescriptor where
  safeData : Bytes := []
  md5 : Bytes := []
  fullSize : Int32 := 0

/-- What is to be written to a file. -/
structure WriteEntry where
  data : Bytes
  md5 : Bytes

namespace FileWriteDescriptor

variable {Key : Type*} (crypto : LocalCrypto Key) (file : FileWriteDescriptor)

/-- One byte array is added to the file. -/
def writeData (data : Option Bytes) : FileWriteDescriptor :=
  let size := (data.getD []).length
  let len := if data.isNone then 0xFFFFFFFF else UInt32.ofNat size
  { safeData := file.safeData ++ DataStream.writeByteArray data
    md5 := file.md5 ++ memory32 (qbswap len) ++ data.getD []
    fullSize := file.fullSize + Int32.ofNat (4 + size) }

/-- One encrypted block is added to the file. -/
def writeEncrypted (key : Key) (random : Nat → UInt8) (data : Bytes) : FileWriteDescriptor :=
  file.writeData (some (crypto.prepareEncrypted key random data))

/-- The size and the md5 of the file are fixed. -/
def finish : WriteEntry where
  data := file.safeData
  md5 := crypto.md5
    (file.md5 ++ memory32 file.fullSize.toUInt32 ++ memory32 appVersion.toUInt32 ++ tdfMagic)

end FileWriteDescriptor

def WriteEntry.content (entry : WriteEntry) : Bytes :=
  tdfMagic ++ memory32 appVersion.toUInt32 ++ entry.data ++ entry.md5

/-- A file that was read, with the version of its writer. -/
structure FileReadDescriptor where
  version : Int32
  data : Bytes
  deriving DecidableEq

/-- The file is taken when its magic, version and md5 are right. -/
def readContent {Key : Type*} (crypto : LocalCrypto Key) (content : Bytes) :
    Option FileReadDescriptor :=
  let magic := content.take 4
  let version := (ofMemory32 ((content.drop 4).take 4)).toInt32
  let bytes := content.drop 8
  let dataSize := Int32.ofInt (bytes.length - 16)
  let data := bytes.take dataSize.toNatClampNeg
  if magic ≠ tdfMagic then none
  else if content.length < 8 then none
  else if version > appVersion then none
  else if dataSize < 0 then none
  else if crypto.md5 (data ++ memory32 dataSize.toUInt32 ++ memory32 version.toUInt32 ++ magic) ≠
      (bytes.drop dataSize.toNatClampNeg).take 16 then none
  else some { version := version, data := data }

/-- The postfixes of a name: `s`, `0` and `1`. -/
inductive Postfix
  | safe
  | simple
  | backup
  deriving DecidableEq

/-- A file of the disk. -/
structure StoredFile where
  content : Bytes
  lastModified : Nat

/-- The files with the names that one base has. -/
abbrev StoredFiles := Postfix → Option StoredFile

namespace StoredFiles

variable {Key : Type*} (crypto : LocalCrypto Key) (files : StoredFiles)

def remove (name : Postfix) : StoredFiles := Function.update files name none

def toTry : List Postfix :=
  if (files .safe).isSome then [.safe]
  else
    match files .simple, files .backup with
    | some simple, some backup =>
      if simple.lastModified < backup.lastModified then [.backup, .simple]
      else [.simple, .backup]
    | some _, none => [.simple]
    | none, _ => [.backup]

/-- One of the two files, if it is there and whole. -/
def readOne (name : Postfix) : Option FileReadDescriptor :=
  (files name).bind fun file => readContent crypto file.content

/-- The first file that passes is read, and another one that could be tried is removed. -/
def readFile : Option (FileReadDescriptor × StoredFiles) :=
  (files.toTry.findSome? fun name => (files.readOne crypto name).map (name, ·)).map
    fun (name, result) =>
      (result, (files.toTry.filter (· ≠ name)).foldl remove files)

end StoredFiles

/-- A step that is done whole or not at all.  Replacing a name and renaming are. -/
inductive FileStep
  | replace (name : Postfix) (content : Bytes) (time : Nat)
  | truncate (name : Postfix) (time : Nat)
  | append (name : Postfix) (byte : UInt8) (time : Nat)
  | remove (name : Postfix)
  | renameWithOverwrite (source target : Postfix)

/-- What a step does to the files. -/
def FileStep.apply (files : StoredFiles) : FileStep → StoredFiles
  | replace name content time =>
    Function.update files name (some { content := content, lastModified := time })
  | truncate name time =>
    Function.update files name (some { content := [], lastModified := time })
  | append name byte time =>
    Function.update files name ((files name).map fun file =>
      { content := file.content ++ [byte], lastModified := time })
  | remove name => files.remove name
  | renameWithOverwrite source target =>
    Function.update (Function.update files target (files source)) source none

def StoredFiles.applyAll (files : StoredFiles) (steps : List FileStep) : StoredFiles :=
  steps.foldl FileStep.apply files

/-- Which steps of writing a file succeed. -/
structure WriteOutcome where
  saveOpens : Bool
  saveCommits : Bool
  plainOpens : Bool
  renames : Bool

def appendSteps (name : Postfix) (clock : Nat → Nat) (content : Bytes) : List FileStep :=
  content.mapIdx fun index byte => .append name byte (clock (index + 1))

/-- The header is written when the file is opened, and the bytes of a plain file are
flushed before it is renamed.  The clock shows any time at each step. -/
def WriteEntry.writeNow (entry : WriteEntry) (outcome : WriteOutcome) (clock : Nat → Nat) :
    List FileStep :=
  if outcome.saveOpens ∧ outcome.saveCommits then
    [.replace .safe entry.content (clock 0), .remove .simple, .remove .backup]
  else if outcome.plainOpens then
    .truncate .simple (clock 0) :: appendSteps .simple clock entry.content ++
      [.remove .backup,
        if outcome.renames then .renameWithOverwrite .simple .safe else .remove .safe]
  else []

end TelegramDesktop
