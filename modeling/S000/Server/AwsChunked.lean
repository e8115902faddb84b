import S000.Store.Machine

/-!
# Server/AwsChunked — bodies in chunks

`awsChunkedReader` of `internal/server/aws_chunked.go`, as a machine that takes one byte of the
transport at a time; how the transport is cut into reads makes no difference to it.  An end of the
transport inside a chunk, or before the size of the next one, comes out of the reader as `io.EOF`,
which whoever copies from the reader takes for the end of the data.
-/

namespace S000

open Strings

/-- `usesAWSChunkedEncoding`. -/
def usesAWSChunkedEncoding (value : Bytes) : Bool :=
  (split value 0x2C).any fun part => equalFold (trimSpace part) (str "aws-chunked")

/-- What the reader is reading. -/
inductive ChunkState
  /-- The line with the size of a chunk, so far. -/
  | size (line : Bytes)
  /-- The data of a chunk, of which one byte and `more` are to come. -/
  | data (more : ℕ)
  /-- The first byte after a chunk. -/
  | cr
  /-- The second byte after a chunk, the first being `first`. -/
  | lf (first : UInt8)
  /-- A line after the last chunk, so far. -/
  | trailer (line : Bytes)
deriving DecidableEq

/-- `readChunkSize`, on a line without its newline. -/
def parseChunkSize (line : Bytes) : Option ℕ :=
  let line := before 0x3B (trimRight line (str "\r\n"))
  match Strconv.parseInt 16 (trimSpace line) with
  | none => none
  | some n => if n < 0 then none else some n.toNat

/-- `awsChunkedReader.Read` until it ends; `fails` says that the transport ends with an error. -/
def readChunks (fails : Bool) : ChunkState → Bytes → Stream
  | _, [] => ⟨[], fails⟩
  | .size line, b :: t =>
    if b ≠ 0x0A then readChunks fails (.size (line ++ [b])) t
    else match parseChunkSize line with
      | none => ⟨[], true⟩
      | some 0 => readChunks fails (.trailer []) t
      | some (n + 1) => readChunks fails (.data n) t
  | .data more, b :: t =>
    let rest := readChunks fails (if more = 0 then .cr else .data (more - 1)) t
    { rest with bytes := b :: rest.bytes }
  | .cr, b :: t => readChunks fails (.lf b) t
  | .lf first, b :: t =>
    if first = 0x0D ∧ b = 0x0A then readChunks fails (.size []) t else ⟨[], true⟩
  | .trailer line, b :: t =>
    if b ≠ 0x0A then readChunks fails (.trailer (line ++ [b])) t
    else if trimRight line (str "\r\n") = [] then ⟨[], false⟩
    else readChunks fails (.trailer []) t

/-- `requestObjectBody`. -/
def requestObjectBody (r : Request) (body : Stream) : Stream :=
  if usesAWSChunkedEncoding (r.header.get (str "Content-Encoding")) then
    readChunks body.fails (.size []) body.bytes
  else body

example : readChunks false (.size []) (str "3\r\nabcd\r\n") = ⟨str "abc", true⟩ := by decide

end S000
