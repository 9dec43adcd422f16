/-
`core/AsyncMappedFile.cpp`: appending to a file that is mapped, and to a
counter of its bytes that is mapped from a file next to it.

`write` reserves with one fetch-and-add, and then copies if what it
reserved is in the mapping. The two are the atomic steps of a writer;
between them other writers take theirs.

Only a mapped file is here: without the mappings every call returns
`-EBADF`. `writev` is a sequence of writes.
-/
import TradingEngine.Lib.Tiling

namespace TradingEngine.Core

/-- `-ENOMEM`. -/
def enomem : Int := -12

/-- `AsyncMappedFile`, mapped. -/
structure AsyncMappedFile where
  /-- `m_filemap`. -/
  data : Nat → UInt8
  /-- `m_filemap.size()`. -/
  capacity : UInt64
  /-- The offsets of a file are signed. -/
  capacity_lt : capacity.toNat < 9223372036854775808
  /-- `*m_sizemap.data()`. -/
  counter : UInt64

namespace AsyncMappedFile

/-- `MAX_LOGFILE_SIZE`. -/
def maxLogfileSize : UInt64 := (1 : UInt64) <<< 40

/-- A file opened for writing, with what its two files hold. -/
def openWritable (data : Nat → UInt8) (counter : UInt64) :
    AsyncMappedFile where
  data
  capacity := maxLogfileSize
  capacity_lt := by decide
  counter

/-- `as_readonly_buffer`: the mapping, and the length that the counter
gives. -/
def asReadonlyBuffer (file : AsyncMappedFile) : (Nat → UInt8) × UInt64 :=
  (file.data, file.counter)

-- ===================================================================== write

/-- `__sync_fetch_and_add`. -/
def fetchAndAdd (file : AsyncMappedFile) (len : UInt64) :
    UInt64 × AsyncMappedFile :=
  (file.counter, { file with counter := file.counter + len })

/-- `(std::int64_t)off + len < (std::int64_t)m_filemap.size()`. -/
def hasRoom (file : AsyncMappedFile) (off : UInt64) (len : Int) : Bool :=
  off.toInt64.toInt + len < file.capacity.toInt64.toInt

/-- `memcpy`, to an offset. -/
def copy (file : AsyncMappedFile) (off : UInt64) (buf : List UInt8) :
    AsyncMappedFile :=
  { file with
    data := fun i =>
      if off.toNat ≤ i ∧ i < off.toNat + buf.length then
        buf.getD (i - off.toNat) 0
      else file.data i }

/-- What is left of a `write` once it has its offset. -/
def complete (file : AsyncMappedFile) (off : UInt64) (buf : List UInt8) :
    Int × AsyncMappedFile :=
  if file.hasRoom off buf.length then (buf.length, file.copy off buf)
  else (enomem, file)

/-- `write`, all at once: `len` is an `int`, that of `buf`. -/
def write (file : AsyncMappedFile) (buf : List UInt8) :
    Int × AsyncMappedFile :=
  if buf.length = 0 then (-1, file)
  else
    let r := file.fetchAndAdd buf.length.toUInt64
    r.2.complete r.1 buf

end AsyncMappedFile

-- =================================================================== writers

/-- The arguments of a call with a positive length. -/
structure Chunk where
  bytes : List UInt8
  length_pos : 0 < bytes.length
  /-- The length is an `int`. -/
  length_lt : bytes.length < 2147483648

/-- A call of `write`, from its fetch-and-add on. -/
structure WriteCall (ι : Type) where
  writer : ι
  off : UInt64
  buf : Chunk
  /-- What it returned, if it did. -/
  ret : Option Int

/-- A file that several threads write to, with their calls in the order of
the fetch-and-adds. -/
structure SharedFile (ι : Type) where
  file : AsyncMappedFile
  calls : List (WriteCall ι)

namespace SharedFile

variable {ι : Type} [DecidableEq ι]

def start (file : AsyncMappedFile) : SharedFile ι := ⟨file, []⟩

/-- The steps of a thread: into a call, and out of it. -/
inductive Op (ι : Type)
  | reserve (writer : ι) (buf : Chunk)
  | finish (writer : ι)

/-- The call that a thread is in. -/
def IsIn (writer : ι) (c : WriteCall ι) : Prop :=
  c.writer = writer ∧ c.ret = none

instance (writer : ι) (c : WriteCall ι) : Decidable (IsIn writer c) :=
  inferInstanceAs (Decidable (_ ∧ _))

/-- A thread is in one call at a time. -/
def busy (s : SharedFile ι) (writer : ι) : Bool :=
  s.calls.any fun c => IsIn writer c

def reserve (s : SharedFile ι) (writer : ι) (buf : Chunk) : SharedFile ι :=
  let r := s.file.fetchAndAdd buf.bytes.length.toUInt64
  ⟨r.2, s.calls ++ [⟨writer, r.1, buf, none⟩]⟩

def finish (s : SharedFile ι) (writer : ι) : SharedFile ι :=
  match s.calls.find? fun c => IsIn writer c with
  | none => s
  | some c =>
      let r := s.file.complete c.off c.buf.bytes
      ⟨r.2, s.calls.map fun c' =>
        if IsIn writer c' then { c' with ret := some r.1 } else c'⟩

def step (s : SharedFile ι) : Op ι → SharedFile ι
  | .reserve writer buf => if s.busy writer then s else s.reserve writer buf
  | .finish writer => s.finish writer

/-- Every thread that is in a call gets out of it. -/
def settle (s : SharedFile ι) : SharedFile ι :=
  (s.calls.map WriteCall.writer).foldl finish s

end SharedFile

end TradingEngine.Core
