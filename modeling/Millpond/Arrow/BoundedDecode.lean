import Millpond.Arrow.Tables

set_option autoImplicit false

/-! # Decoding within a limit

The loop of `_decode_value` against a decompressor that splits the content as it likes: what it asks
for, what it holds, and what it returns or raises. The loop holds at most `limit` bytes whenever it
asks for more, so the next read is never empty and one byte too many is enough to stop it. -/

namespace Millpond.Arrow.Decode

open Millpond.Arrow (Bytes Libs lz4FrameMagic maxDecodedValueBytes readChunks)

/-! ## The decompressor -/

/-- `_DECODE_CHUNK_BYTES`. -/
def decodeChunkBytes : ℕ := 1048576

/-- What a `CompressedInputStream` makes of a frame: the content, up to the damage if the frame is
    damaged, and how much of it each read hands out. -/
structure Stream where
  content : Bytes
  damaged : Bool
  share : ℕ → ℕ

/-- The `n`-th read, with `rest` still to come: `none` for an `OSError`. Before the end of the data a
    read hands out at least one byte and at most `size`; a negative size asks for everything. -/
def Stream.read (s : Stream) (n : ℕ) (size : ℤ) (rest : Bytes) : Option Bytes :=
  if size = 0 then some []
  else if rest.isEmpty then if s.damaged then none else some []
  else if size < 0 then some rest
  else some (rest.take (max 1 (min (s.share n) size.toNat)))

/-! ## The loop -/

inductive DecodeError where
  | corrupt
  | oversized (limit : ℕ)
deriving DecidableEq, Repr

/-- A read of the loop: its size, its answer, and how many bytes the loop holds after it. -/
structure Read where
  size : ℤ
  answer : Option Bytes
  total : ℕ
deriving DecidableEq, Repr

/-- A call: the reads it makes, and how it ends. -/
structure Decoding where
  reads : List Read
  result : Except DecodeError Bytes

def Decoding.cons (read : Read) (d : Decoding) : Decoding := ⟨read :: d.reads, d.result⟩

/-- `chunks[0] if len(chunks) == 1 else b"".join(chunks)`. -/
def joined : List Bytes → Bytes
  | [chunk] => chunk
  | chunks => chunks.flatten

@[simp] theorem joined_eq (chunks : List Bytes) : joined chunks = chunks.flatten := by
  unfold joined
  split <;> simp

/-- What a read hands out is the next part of the content. -/
theorem read_eq_take {s : Stream} {n : ℕ} {size : ℤ} {rest chunk : Bytes}
    (h : s.read n size rest = some chunk) : chunk = rest.take chunk.length := by
  unfold Stream.read at h
  split_ifs at h
  all_goals
    obtain rfl := Option.some.inj h
    simp

theorem length_drop_lt {s : Stream} {n : ℕ} {size : ℤ} {rest chunk : Bytes}
    (h : s.read n size rest = some chunk) (hchunk : ¬ chunk.isEmpty = true) :
    (rest.drop chunk.length).length < rest.length := by
  have hle : chunk.length ≤ rest.length := by
    rw [read_eq_take h]
    exact List.length_take_le' _ _
  have hpos : chunk.length ≠ 0 := fun hzero => hchunk (by simpa using hzero)
  rw [List.length_drop]
  omega

/-- The size of the next read. -/
def nextSize (limit total : ℕ) : ℤ := min decodeChunkBytes ((limit : ℤ) + 1 - total)

/-- The loop, with `rest` still in the stream. -/
def decodeLoop (s : Stream) (limit : ℕ) (n : ℕ) (rest : Bytes) (chunks : List Bytes) (total : ℕ) :
    Decoding :=
  let size := nextSize limit total
  match _hread : s.read n size rest with
  | none => ⟨[⟨size, none, total⟩], .error .corrupt⟩
  | some chunk =>
      let read : Read := ⟨size, some chunk, total + chunk.length⟩
      if chunk.isEmpty then ⟨[read], .ok (joined chunks)⟩
      else if limit < total + chunk.length then ⟨[read], .error (.oversized limit)⟩
      else
        (decodeLoop s limit (n + 1) (rest.drop chunk.length) (chunks ++ [chunk])
          (total + chunk.length)).cons read
termination_by rest.length
decreasing_by exact length_drop_lt _hread ‹_›

/-- `_decode_value`, on the streams that pyarrow opens. -/
def decodeValue (streamOf : Bytes → Stream) (raw : Bytes) (limit : Option ℕ) : Decoding :=
  if raw.take 4 ≠ lz4FrameMagic then ⟨[], .ok raw⟩
  else
    decodeLoop (streamOf raw) (limit.getD maxDecodedValueBytes) 0 (streamOf raw).content [] 0

/-! ## One read -/

variable {s : Stream} {limit n total : ℕ} {rest chunk : Bytes}

/-- A loop that holds no more than the limit asks for at least one byte, and for no more than one
    past the limit. -/
theorem nextSize_bounds (h : total ≤ limit) :
    1 ≤ nextSize limit total ∧ nextSize limit total ≤ decodeChunkBytes ∧
      nextSize limit total ≤ (limit : ℤ) + 1 - total := by
  unfold nextSize decodeChunkBytes
  omega

theorem read_of_pos {size : ℤ} (hsize : 1 ≤ size) (hrest : rest ≠ []) :
    s.read n size rest = some (rest.take (max 1 (min (s.share n) size.toNat))) := by
  unfold Stream.read
  rw [if_neg (by omega), if_neg (by simpa using hrest), if_neg (by omega)]

theorem read_nil {size : ℤ} (hsize : 1 ≤ size) :
    s.read n size [] = if s.damaged then none else some [] := by
  unfold Stream.read
  rw [if_neg (by omega)]
  rfl

/-- Before the end of the data the loop gets between one byte and what it may still hold. -/
theorem read_chunk (h : total ≤ limit) (hrest : rest ≠ []) :
    ∃ chunk, s.read n (nextSize limit total) rest = some chunk ∧ chunk ≠ [] ∧
      chunk = rest.take chunk.length ∧ total + chunk.length ≤ limit + 1 := by
  obtain ⟨hpos, -, hlimit⟩ := nextSize_bounds h
  have hread := read_of_pos (s := s) (n := n) hpos hrest
  refine ⟨_, hread, ?_, read_eq_take hread, ?_⟩
  · have hlength : rest.length ≠ 0 := fun hzero => hrest (List.eq_nil_of_length_eq_zero hzero)
    intro hnil
    have hzero := congrArg List.length hnil
    rw [List.length_take, List.length_nil] at hzero
    omega
  · rw [List.length_take]
    omega

/-! ## The whole loop -/

/-- What the loop comes to with `rest` still in the stream and `held` bytes read. -/
structure Bounded (s : Stream) (limit : ℕ) (rest : Bytes) (held : Bytes) (d : Decoding) : Prop where
  ok_iff : ∀ bytes, d.result = .ok bytes ↔
    bytes = held ++ rest ∧ (held ++ rest).length ≤ limit ∧ s.damaged = false
  oversized_iff : d.result = .error (.oversized limit) ↔ limit < (held ++ rest).length
  corrupt_iff : d.result = .error .corrupt ↔ (held ++ rest).length ≤ limit ∧ s.damaged = true
  reads : d.reads.length ≤ rest.length + 1
  size : ∀ read ∈ d.reads, 1 ≤ read.size ∧ read.size ≤ decodeChunkBytes
  held : ∀ read ∈ d.reads, read.total ≤ limit + 1

section Steps

variable {chunks : List Bytes}

theorem decodeLoop_of_none (h : s.read n (nextSize limit total) rest = none) :
    decodeLoop s limit n rest chunks total
      = ⟨[⟨nextSize limit total, none, total⟩], .error .corrupt⟩ := by
  rw [decodeLoop]
  split
  · rfl
  · next hread => rw [h] at hread; cases hread

theorem decodeLoop_of_some (h : s.read n (nextSize limit total) rest = some chunk) :
    decodeLoop s limit n rest chunks total =
      let read : Read := ⟨nextSize limit total, some chunk, total + chunk.length⟩
      if chunk.isEmpty then ⟨[read], .ok (joined chunks)⟩
      else if limit < total + chunk.length then ⟨[read], .error (.oversized limit)⟩
      else
        (decodeLoop s limit (n + 1) (rest.drop chunk.length) (chunks ++ [chunk])
          (total + chunk.length)).cons read := by
  rw [decodeLoop]
  split
  · next hread => rw [h] at hread; cases hread
  · next hread =>
      obtain rfl := Option.some.inj (h.symm.trans hread)
      rfl

end Steps

/-- A loop that ends with its next read. -/
theorem bounded_last {held : Bytes} {size : ℤ} {answer : Option Bytes} {result : Except DecodeError Bytes}
    (hpos : 1 ≤ size) (hmax : size ≤ decodeChunkBytes) (hheld : total ≤ limit + 1)
    (hok : ∀ bytes, result = .ok bytes ↔
      bytes = held ++ rest ∧ (held ++ rest).length ≤ limit ∧ s.damaged = false)
    (hoversized : result = .error (.oversized limit) ↔ limit < (held ++ rest).length)
    (hcorrupt : result = .error .corrupt ↔ (held ++ rest).length ≤ limit ∧ s.damaged = true) :
    Bounded s limit rest held ⟨[⟨size, answer, total⟩], result⟩ := by
  refine ⟨hok, hoversized, hcorrupt, by simp, ?_, ?_⟩
  · intro read hread
    obtain rfl := List.mem_singleton.1 hread
    exact ⟨hpos, hmax⟩
  · intro read hread
    obtain rfl := List.mem_singleton.1 hread
    exact hheld

/-- At the end of the data. -/
theorem bounded_end {chunks : List Bytes} (htotal : total = chunks.flatten.length)
    (hle : total ≤ limit) :
    Bounded s limit [] chunks.flatten (decodeLoop s limit n [] chunks total) := by
  obtain ⟨hpos, hmax, -⟩ := nextSize_bounds hle
  have hread := read_nil (s := s) (n := n) hpos
  have hlength : (chunks.flatten ++ []).length ≤ limit := by
    rw [List.append_nil]
    omega
  cases hdamaged : s.damaged with
  | true =>
      rw [hdamaged, if_pos rfl] at hread
      rw [decodeLoop_of_none hread]
      refine bounded_last hpos hmax (by omega) (fun bytes => ?_) ?_ ?_
      · simp [hdamaged]
      · simp only [Except.error.injEq, reduceCtorEq, false_iff]
        exact Nat.not_lt.2 hlength
      · simpa [hdamaged] using hlength
  | false =>
      rw [hdamaged, if_neg (by decide)] at hread
      rw [decodeLoop_of_some hread]
      refine bounded_last hpos hmax (by simpa using by omega) (fun bytes => ?_) ?_ ?_
      · simp only [joined_eq, Except.ok.injEq, hdamaged, and_true, List.append_nil] at hlength ⊢
        exact ⟨fun h => ⟨h.symm, hlength⟩, fun h => h.1.symm⟩
      · simp only [reduceCtorEq, false_iff]
        exact Nat.not_lt.2 hlength
      · simp [hdamaged]

theorem length_chunk_le (hchunk : chunk = rest.take chunk.length) : chunk.length ≤ rest.length := by
  rw [hchunk]
  exact List.length_take_le' _ _

/-- One read too many for the limit. -/
theorem bounded_oversized {chunks : List Bytes} {size : ℤ} (htotal : total = chunks.flatten.length)
    (hchunk : chunk = rest.take chunk.length) (hover : limit < total + chunk.length)
    (hheld : total + chunk.length ≤ limit + 1) (hpos : 1 ≤ size) (hmax : size ≤ decodeChunkBytes) :
    Bounded s limit rest chunks.flatten
      ⟨[⟨size, some chunk, total + chunk.length⟩], .error (.oversized limit)⟩ := by
  have hlength : limit < (chunks.flatten ++ rest).length := by
    have hle := length_chunk_le hchunk
    rw [List.length_append]
    omega
  refine bounded_last hpos hmax hheld (fun bytes => ?_) ?_ ?_
  · simp only [reduceCtorEq, false_iff, not_and]
    exact fun _ hle => absurd hlength (by omega)
  · exact iff_of_true rfl hlength
  · simp only [Except.error.injEq, reduceCtorEq, false_iff, not_and]
    exact fun hle => absurd hlength (by omega)

/-- What a read adds to the loop that follows it. -/
theorem Bounded.cons {held : Bytes} {d : Decoding} {size : ℤ} (hchunk : chunk = rest.take chunk.length)
    (hne : chunk ≠ []) (hheld : total + chunk.length ≤ limit + 1) (hpos : 1 ≤ size)
    (hmax : size ≤ decodeChunkBytes)
    (h : Bounded s limit (rest.drop chunk.length) (held ++ chunk) d) :
    Bounded s limit rest held (d.cons ⟨size, some chunk, total + chunk.length⟩) := by
  have hsplit : held ++ chunk ++ rest.drop chunk.length = held ++ rest := by
    rw [List.append_assoc]
    conv_lhs => rw [hchunk]
    rw [List.length_take_of_le (length_chunk_le hchunk), List.take_append_drop]
  constructor
  · intro bytes
    rw [← hsplit]
    exact h.ok_iff bytes
  · rw [← hsplit]
    exact h.oversized_iff
  · rw [← hsplit]
    exact h.corrupt_iff
  · have hreads := h.reads
    have hlt : (rest.drop chunk.length).length + 1 ≤ rest.length := by
      have hle := length_chunk_le hchunk
      have hpos : chunk.length ≠ 0 := fun hzero => hne (List.eq_nil_of_length_eq_zero hzero)
      rw [List.length_drop]
      omega
    show (_ :: d.reads).length ≤ _
    rw [List.length_cons]
    omega
  · intro read hread
    rcases List.mem_cons.1 hread with rfl | hread
    · exact ⟨hpos, hmax⟩
    · exact h.size read hread
  · intro read hread
    rcases List.mem_cons.1 hread with rfl | hread
    · exact hheld
    · exact h.held read hread

/-- Before every read the loop holds what came before, and no more than the limit. -/
theorem decodeLoop_bounded (n : ℕ) (rest : Bytes) (chunks : List Bytes) (total : ℕ)
    (htotal : total = chunks.flatten.length) (hle : total ≤ limit) :
    Bounded s limit rest chunks.flatten (decodeLoop s limit n rest chunks total) := by
  induction hlength : rest.length using Nat.strongRecOn generalizing n rest chunks total with
  | ind length ih =>
      by_cases hrest : rest = []
      · subst hrest
        exact bounded_end htotal hle
      · obtain ⟨chunk, hread, hne, hchunk, hheld⟩ := read_chunk (s := s) (n := n) hle hrest
        obtain ⟨hpos, hmax, -⟩ := nextSize_bounds hle
        have hempty : ¬ chunk.isEmpty = true := by simpa using hne
        rw [decodeLoop_of_some hread]
        dsimp only
        rw [if_neg hempty]
        by_cases hover : limit < total + chunk.length
        · rw [if_pos hover]
          exact bounded_oversized htotal hchunk hover hheld hpos hmax
        · rw [if_neg hover]
          refine Bounded.cons hchunk hne hheld hpos hmax ?_
          have hflatten : (chunks ++ [chunk]).flatten = chunks.flatten ++ chunk := by simp
          rw [← hflatten]
          refine ih _ (hlength ▸ length_drop_lt hread hempty) _ _ _ _ ?_ (by omega) rfl
          rw [hflatten, List.length_append, htotal]

/-! ## The property -/

/-- **Bounded decode.** For every value, limit and decompressor, however it splits the content: a value
    without the magic is returned as it is; otherwise the call ends after at most one read for each
    byte of the content and one more, returns the content exactly when the frame is whole and the
    content within the limit, and calls it oversized exactly when there is more. No read is empty, and
    the loop never holds more than one byte past the limit. -/
theorem decodeValue_bounded (streamOf : Bytes → Stream) (raw : Bytes) (limit : Option ℕ) :
    (raw.take 4 ≠ lz4FrameMagic → (decodeValue streamOf raw limit).result = .ok raw) ∧
    (raw.take 4 = lz4FrameMagic →
      Bounded (streamOf raw) (limit.getD maxDecodedValueBytes) (streamOf raw).content []
        (decodeValue streamOf raw limit)) := by
  unfold decodeValue
  constructor
  · intro hmagic
    rw [if_pos hmagic]
  · intro hmagic
    rw [if_neg (not_not_intro hmagic)]
    exact decodeLoop_bounded 0 (streamOf raw).content [] 0 rfl (Nat.zero_le _)

/-- The loop takes its answers as the loop over answers does. -/
theorem readChunks_answers (n : ℕ) (rest : Bytes) (chunks : List Bytes) (total : ℕ) :
    readChunks limit ((decodeLoop s limit n rest chunks total).reads.map Read.answer) chunks total
      = (decodeLoop s limit n rest chunks total).result.toOption := by
  induction hlength : rest.length using Nat.strongRecOn generalizing n rest chunks total with
  | ind length ih =>
      cases hread : s.read n (nextSize limit total) rest with
      | none =>
          rw [decodeLoop_of_none hread]
          rfl
      | some chunk =>
          rw [decodeLoop_of_some hread]
          dsimp only
          by_cases hempty : chunk.isEmpty = true
          · rw [if_pos hempty]
            simp [readChunks, hempty, Except.toOption]
          · rw [if_neg hempty]
            by_cases hover : limit < total + chunk.length
            · rw [if_pos hover]
              simp [readChunks, hempty, hover, Except.toOption]
            · rw [if_neg hover]
              show readChunks limit (some chunk :: _) chunks total = _
              rw [readChunks, if_neg hempty, if_neg hover]
              exact ih _ (hlength ▸ length_drop_lt hread hempty) _ _ _ _ rfl

/-- Without a limit of its own the call is `decodeValue` on what the reads answer. -/
theorem decodeValue_toOption {F : Type} (libs : Libs F) (streamOf : Bytes → Stream) (raw : Bytes)
    (h : libs.reads raw = (decodeValue streamOf raw none).reads.map Read.answer) :
    Arrow.decodeValue libs raw = (decodeValue streamOf raw none).result.toOption := by
  unfold Arrow.decodeValue decodeValue at *
  by_cases hmagic : raw.take 4 = lz4FrameMagic
  · rw [if_neg (not_not_intro hmagic)] at h ⊢
    rw [if_pos hmagic, h]
    exact readChunks_answers _ _ _ _
  · rw [if_neg hmagic, if_pos hmagic]
    rfl

end Millpond.Arrow.Decode
