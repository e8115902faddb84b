import S000.Server.Contents

/-!
# Server/ChunkedBodies — what a body in chunks decodes to

A body in chunks is the lines and the data of its chunks, then a line of size zero and trailers.  Cut
off anywhere before that line has ended, it reads as if it ended there: the reader passes on the end
of the transport, wherever it meets it (`fails_readChunks_cut`).
-/

namespace S000

open Strings List Prog Machine Blob Metadata

/-- A chunk as it is sent: a line with its size and perhaps extensions, and the data. -/
structure Chunk where
  line : Bytes
  data : Bytes
  newline_not_mem : 0x0A ∉ line
  size_eq : parseChunkSize line = some data.length
  data_ne_nil : data ≠ []

namespace Chunk

def encode (c : Chunk) : Bytes := c.line ++ 0x0A :: (c.data ++ [0x0D, 0x0A])

def encodeAll (chunks : List Chunk) : Bytes := chunks.flatMap encode

end Chunk

/-! ## Bodies whole and cut off -/

section Cut

variable {fails : Bool} {line l d t p : Bytes} {n : ℕ}

theorem readChunks_line (hl : 0x0A ∉ l) :
    readChunks fails (.size line) (l ++ t) = readChunks fails (.size (line ++ l)) t := by
  induction l generalizing line with
  | nil => simp
  | cons b l ih =>
    obtain ⟨hb, hl⟩ := not_or.1 (mt mem_cons.2 hl)
    rw [cons_append, readChunks, if_pos (symm hb), ih hl, append_assoc]
    rfl

theorem readChunks_size {c : Chunk} :
    readChunks fails (.size []) (c.line ++ 0x0A :: t) =
      readChunks fails (.data (c.data.length - 1)) t := by
  obtain ⟨n, hn⟩ := Nat.exists_eq_succ_of_ne_zero (mt eq_nil_of_length_eq_zero c.data_ne_nil)
  rw [readChunks_line c.newline_not_mem, readChunks, nil_append, c.size_eq, hn]
  rfl

theorem readChunks_data : ∀ {d : Bytes} (b : UInt8),
    readChunks fails (.data d.length) (b :: d ++ t) =
      { readChunks fails .cr t with bytes := b :: d ++ (readChunks fails .cr t).bytes }
  | [], _ => rfl
  | b' :: _, b => congrArg (fun s : Stream => { s with bytes := b :: s.bytes }) (readChunks_data b')

/-- **A body in chunks is decoded to their data**, whatever their lines and what comes after them. -/
theorem readChunks_encodeAll (fails : Bool) (chunks : List Chunk) (rest : Bytes) :
    readChunks fails (.size []) (Chunk.encodeAll chunks ++ (str "0\r\n\r\n" ++ rest)) =
      ⟨chunks.flatMap Chunk.data, false⟩ := by
  induction chunks with
  | nil => rfl
  | cons c chunks ih =>
    obtain ⟨b, d, hdata⟩ := exists_cons_of_ne_nil c.data_ne_nil
    simp only [Chunk.encodeAll, flatMap_cons, Chunk.encode, append_assoc, cons_append, readChunks_size,
      hdata]
    exact (readChunks_data b).trans
      (congrArg (fun s : Stream => { s with bytes := b :: d ++ s.bytes }) ih)

/-- The end of the transport within the data of a chunk. -/
theorem fails_readChunks_data (hd : d.length ≤ n + 1) : (readChunks fails (.data n) d).fails = fails := by
  induction d generalizing n with
  | nil => rfl
  | cons b d ih =>
    cases n with
    | zero =>
      obtain rfl := eq_nil_of_length_eq_zero (Nat.le_zero.1 (Nat.le_of_succ_le_succ hd))
      rfl
    | succ n => exact ih (Nat.le_of_succ_le_succ hd)

theorem fails_readChunks_after (hd : d.length = n + 1) :
    (readChunks fails (.data n) (d ++ t)).fails = (readChunks fails .cr t).fails := by
  induction d generalizing n with
  | nil => cases hd
  | cons b d ih =>
    cases n with
    | zero =>
      obtain rfl := eq_nil_of_length_eq_zero (Nat.succ.inj hd)
      rfl
    | succ n => exact ih (Nat.succ.inj hd)

/-- **The end of the transport is passed on**, wherever a body is cut off before its last line has
ended. -/
theorem fails_readChunks_cut {chunks : List Chunk} {last : Bytes} (hlast : 0x0A ∉ last)
    (hp : p <+: Chunk.encodeAll chunks ++ last) : (readChunks fails (.size []) p).fails = fails := by
  have hline {l p : Bytes} (hl : 0x0A ∉ l) (hp : p <+: l) :
      (readChunks fails (.size []) p).fails = fails := by
    rw [← append_nil p, readChunks_line (mt (hp.subset ·) hl)]
    rfl
  induction chunks generalizing p with
  | nil => exact hline hlast hp
  | cons c chunks ih =>
    rw [Chunk.encodeAll, flatMap_cons, Chunk.encode] at hp
    simp only [append_assoc, cons_append] at hp
    rcases prefix_or_prefix_of_prefix hp (prefix_append _ _) with hp' | ⟨p, rfl⟩
    · exact hline c.newline_not_mem hp'
    rw [prefix_append_right_inj, prefix_cons_iff] at hp
    obtain rfl | ⟨p, rfl, hp⟩ := hp
    · exact hline c.newline_not_mem (by rw [append_nil])
    have hpos := length_pos_iff.2 c.data_ne_nil
    rw [readChunks_size]
    rcases prefix_or_prefix_of_prefix hp (prefix_append _ _) with hp' | ⟨p, rfl⟩
    · exact fails_readChunks_data (hp'.length_le.trans (by omega))
    rw [fails_readChunks_after (by omega)]
    rw [prefix_append_right_inj, prefix_cons_iff] at hp
    obtain rfl | ⟨p, rfl, hp⟩ := hp
    · rfl
    rw [prefix_cons_iff] at hp
    obtain rfl | ⟨p, rfl, hp⟩ := hp
    · rfl
    · exact ih hp

end Cut

/-! ## What is stored of a body that is cut off -/

theorem writeMultipartPart_fails {P : Platform} {st : Store} {now : Time} {src : Stream}
    (hfails : src.fails = true) (uploadID : Bytes) (n : ℤ) :
    (writeMultipartPart P st now uploadID n src).Only (fun _ _ => True) Call.Idle (· = none) := by
  refine only_ite (fun _ => rfl) fun _ => ?_
  refine Only.bind (Q := fun _ => True) ?_ fun made _ => ?_
  · exact only_ite (fun _ => trivial) fun _ => ⟨trivial, fun _ _ => trivial⟩
  refine only_ite (fun _ => rfl) fun _ => (fillTemp_fails (fun _ h => h) hfails).bind fun x hx => ?_
  subst hx
  rfl

/-- **A body that is cut off ends with an error only if the transport does**: cut anywhere before the
line of its last chunk has ended, it is read as a shorter body.  Where the transport does end with an
error, writing an object or a part fails, and both stores stay as they were. -/
theorem truncated_body_fails_iff {r : Request} {chunks : List Chunk} {last p : Bytes} {fails : Bool}
    (hr : usesAWSChunkedEncoding (r.header.get (str "Content-Encoding")) = true)
    (hlast : 0x0A ∉ last) (hp : p <+: Chunk.encodeAll chunks ++ last) :
    let src := requestObjectBody r ⟨p, fails⟩
    (src.fails = true ↔ fails = true) ∧ (fails = true →
      ∀ (P : Platform) (st : Store) (now : Time) (w : World) (faults : List Fault),
        (∀ ref, let x := stores.exec (writeObject P st now ref src) faults ⟨w, []⟩
          x.1 = none ∧ w.Kept x.2.world) ∧
        ∀ uploadID n,
          let x := stores.exec (writeMultipartPart P st now uploadID n src) faults ⟨w, []⟩
          x.1 = none ∧ w.Kept x.2.world) := by
  intro src
  have hiff : src.fails = true ↔ fails = true := by
    change (requestObjectBody r ⟨p, fails⟩).fails = true ↔ _
    rw [requestObjectBody, if_pos hr, fails_readChunks_cut hlast hp]
  refine ⟨hiff, fun hfails P st now w faults => ?_⟩
  have hsrc := hiff.2 hfails
  exact ⟨fun ref => exec_of_ensures (ensures_idle (writeObject_fails (fun _ h => h) hsrc)),
    fun uploadID n => exec_of_ensures (ensures_idle (writeMultipartPart_fails hsrc uploadID n))⟩

def helloChunk : Chunk := ⟨str "5\r", str "hello", by decide, by decide, by decide⟩

def chunkedRequest : Request := objectRequest "" [("Content-Encoding", "aws-chunked")]

theorem truncated_body_fails_hello :
    let src := requestObjectBody chunkedRequest ⟨str "5\r\nhe", true⟩
    src.fails = true ∧ ∀ w faults, let x := stores.exec (writeObject sampleAPI.platform
        sampleAPI.blob 0 ⟨str "b", str "k", nullVersion⟩ src) faults ⟨w, []⟩
      x.1 = none ∧ w.Kept x.2.world := by
  obtain ⟨hiff, hfails⟩ := @truncated_body_fails_iff chunkedRequest [helloChunk] (str "0\r")
    (str "5\r\nhe") true (by decide) (by decide) (by decide)
  exact ⟨hiff.2 rfl, fun w faults => (hfails rfl _ _ _ w faults).1 _⟩

/-- **Two of five bytes are stored as an object** when the transport ends there. -/
theorem truncated_body_stored :
    let w := afterAll sampleAPI {} [⟨.createBucket (str "b"), sampleCtx 1, []⟩,
      ⟨.putObject chunkedRequest (str "b") (str "k") ⟨str "5\r\nhe", false⟩, sampleCtx 2, []⟩]
    str "5\r\nhe" <+: Chunk.encodeAll [helloChunk] ∧
      (getReply sampleAPI w objectRequest (str "b") (str "k")).content? = some (str "he") := by
  decide +kernel

end S000
