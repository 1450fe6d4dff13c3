import Millpond.Hoglake.FlushKey
import Millpond.Lib.Groups
import Millpond.Maintenance.PartitionTuples

set_option autoImplicit false

/-! # The commit message

`format_commit_message` writes one line of `key=value` pairs about the flush and one line of offset
ranges for each topic, cut to a byte limit. What a cut keeps, and that the ranges can be read back
from a message without a cut. -/

namespace Millpond.Hoglake

open Millpond.Maintenance (isSpace)

/-! ## One line of offsets -/

/-- A `(partition, first, last)` range. -/
abbrev OffsetRange := ℤ × ℤ × ℤ

/-- `p<partition>:<first>-<last>`. -/
def OffsetRange.part (r : OffsetRange) : String :=
  "p" ++ toString r.1 ++ ":" ++ (toString r.2.1 ++ "-" ++ toString r.2.2)

/-- `offsets <topic>`. -/
def lineHead (topic : String) : String := "offsets " ++ topic

/-- ` ... (+<k> more)`. -/
def marker (k : ℕ) : String := " ... (+" ++ toString k ++ " more)"

/-- The line with every range and their count. -/
def wholeLine (topic : String) (ranges : List OffsetRange) : String :=
  " ".intercalate (lineHead topic :: ranges.map OffsetRange.part) ++
    (" (" ++ toString ranges.length ++ ")")

/-- The line with the first `kept` ranges and the marker. -/
def cutLine (topic : String) (ranges : List OffsetRange) (kept : ℕ) : String :=
  " ".intercalate (lineHead topic :: (ranges.take kept).map OffsetRange.part) ++
    marker (ranges.length - kept)

/-- `len(text.encode())`. -/
def byteLen (text : String) : ℤ := text.utf8ByteSize

/-- The loop: from the `index`-th part on, with a line of `size` bytes so far. -/
def keptLoop (limit : ℤ) (total index : ℕ) (size : ℤ) : List String → ℕ
  | [] => index
  | part :: rest =>
      let grown := size + 1 + byteLen part
      if limit < grown + byteLen (marker (total - index - 1)) then index
      else keptLoop limit total (index + 1) grown rest

/-- `_offsets_line`. -/
def offsetsLine (topic : String) (ranges : List OffsetRange) (limit : ℤ) : String :=
  let parts := ranges.map OffsetRange.part
  if byteLen (wholeLine topic ranges) ≤ limit then wholeLine topic ranges
  else cutLine topic ranges (keptLoop limit parts.length 0 (byteLen (lineHead topic)) parts)

/-! ## The message -/

/-- `_message_token`. -/
def messageToken (value : String) : String :=
  let text := value.map fun character => if isSpace character then '_' else character
  if text.isEmpty then "unknown" else text

/-- `_MESSAGE_TRIGGERS`, with `_UNKNOWN_TRIGGER` for what is not in it. -/
def messageTrigger : Option String → String
  | some "size" => "size"
  | some "time" => "interval"
  | some "interval" => "interval"
  | some "final" => "final"
  | _ => "unknown"

/-- `codec_token`. -/
def codecToken (compression : Option String) (level : Option ℤ) : String :=
  let name := match compression with
    | some name => if name.isEmpty then "default" else name
    | none => "default"
  match level with
  | none => name
  | some level => name ++ "-" ++ toString level

/-- `stats_token`. -/
def statsToken (deferredStats : Option Bool) : String :=
  if deferredStats = some true then "deferred" else "shipped"

/-- The arguments of `format_commit_message`. -/
structure MessageArgs where
  records : ℤ
  files : ℤ
  partitions : ℤ
  arrowBytes : ℤ
  trigger : Option String
  version : String
  tableUuid : Option String
  codec : String
  stats : String
  kafkaOffsets : List FlushRange
  limit : ℤ

/-- `table_uuid or 'unknown'`. -/
def MessageArgs.table (args : MessageArgs) : String :=
  match args.tableUuid with
  | some uuid => if uuid.isEmpty then "unknown" else uuid
  | none => "unknown"

/-- The pairs of the summary line. -/
def MessageArgs.summaryPairs (args : MessageArgs) : List (String × String) :=
  [("records", toString args.records), ("files", toString args.files),
    ("partitions", toString args.partitions), ("arrow_bytes", toString args.arrowBytes),
    ("codec", args.codec), ("stats", args.stats), ("trigger", messageTrigger args.trigger),
    ("millpond", messageToken args.version), ("table", messageToken args.table)]

def MessageArgs.summary (args : MessageArgs) : String :=
  " ".intercalate (args.summaryPairs.map fun pair => pair.1 ++ "=" ++ pair.2)

/-- `by_topic`. -/
def byTopic (kafkaOffsets : List FlushRange) : List (String × List OffsetRange) :=
  Groups.collect (fun q => q.1) (fun q => [q.2]) (fun ranges q => ranges ++ [q.2]) kafkaOffsets

/-- The order Python puts on ranges. -/
def OffsetRange.order (r : OffsetRange) : ℤ ×ₗ ℤ ×ₗ ℤ := toLex (r.1, toLex r.2)

/-- Each topic of `sorted(by_topic)` with `sorted(by_topic[topic])`. -/
def topicRanges (kafkaOffsets : List FlushRange) : List (String × List OffsetRange) :=
  (((byTopic kafkaOffsets).map Prod.fst).insertionSort (· ≤ ·)).map fun topic =>
    (topic, (((Groups.lookup topic (byTopic kafkaOffsets)).getD []).insertionSort
      (keyLe OffsetRange.order)))

/-- `format_commit_message`. -/
def formatCommitMessage (args : MessageArgs) : String :=
  "\n".intercalate (args.summary ::
    (topicRanges args.kafkaOffsets).map fun t => offsetsLine t.1 t.2 args.limit)

/-! ## What a line keeps -/

variable {topic : String} {ranges : List OffsetRange} {limit : ℤ}

theorem byteLen_append (s t : String) : byteLen (s ++ t) = byteLen s + byteLen t := by
  simp [byteLen, String.utf8ByteSize_append]

/-- One more part is a space and the part. -/
theorem byteLen_intercalate_concat (head part : String) (front : List String) :
    byteLen (" ".intercalate (head :: (front ++ [part])))
      = byteLen (" ".intercalate (head :: front)) + 1 + byteLen part := by
  rw [← List.cons_append, String.intercalate_append_of_ne_nil (List.cons_ne_nil _ _)
    (List.cons_ne_nil _ _), String.intercalate_singleton, byteLen_append, byteLen_append]
  rfl

/-- The loop admits parts as long as the line with its marker fits, one at a time. -/
theorem keptLoop_spec {front rest : List OffsetRange} {size : ℤ} {kept : ℕ}
    (hranges : ranges = front ++ rest)
    (hsize : size = byteLen (" ".intercalate (lineHead topic :: front.map OffsetRange.part)))
    (hkept : keptLoop limit ranges.length front.length size (rest.map OffsetRange.part) = kept) :
    kept ≤ ranges.length ∧
      (∀ j, front.length < j → j ≤ kept → byteLen (cutLine topic ranges j) ≤ limit) ∧
      (kept < ranges.length → limit < byteLen (cutLine topic ranges (kept + 1))) := by
  induction rest generalizing front size with
  | nil =>
      have hlength : ranges.length = front.length := by rw [hranges, List.append_nil]
      obtain rfl : front.length = kept := hkept
      exact ⟨hlength.ge, fun j hlow hhigh => absurd hlow (by omega),
        fun hlt => absurd hlt (by omega)⟩
  | cons range rest ih =>
      have hgrown : size + 1 + byteLen range.part
          = byteLen (" ".intercalate (lineHead topic :: (front ++ [range]).map OffsetRange.part)) := by
        rw [List.map_append, List.map_singleton, byteLen_intercalate_concat, hsize]
      -- the line with this part is the one whose size the loop computes
      have hcut : byteLen (cutLine topic ranges (front.length + 1))
          = size + 1 + byteLen range.part + byteLen (marker (ranges.length - front.length - 1)) := by
        have htake : ranges.take (front.length + 1) = front ++ [range] := by
          rw [hranges, List.take_length_add_append]
          rfl
        rw [cutLine, htake, byteLen_append, ← hgrown, Nat.sub_sub]
      rw [List.map_cons, keptLoop, ← hcut] at hkept
      split_ifs at hkept with hlimit
      · subst hkept
        have hlength : front.length ≤ ranges.length := by rw [hranges, List.length_append]; omega
        exact ⟨hlength, fun j hlow hhigh => absurd hlow (by omega), fun _ => hlimit⟩
      · have hnext : front.length + 1 = (front ++ [range]).length := by simp
        rw [hnext] at hkept
        obtain ⟨hle, hfits, hmore⟩ := ih (by rw [hranges]; simp) hgrown hkept
        refine ⟨hle, fun j hlow hhigh => ?_, hmore⟩
        rcases Nat.lt_or_ge (front.length + 1) j with hlt | hge
        · exact hfits j (hnext ▸ hlt) hhigh
        · obtain rfl : j = front.length + 1 := by omega
          exact not_lt.1 hlimit

/-- The two forms differ in what stands before the last parenthesis. -/
theorem cutLine_ne_wholeLine {topic' : String} {ranges' : List OffsetRange} (kept : ℕ) :
    cutLine topic' ranges' kept ≠ wholeLine topic ranges := by
  intro h
  have hlists := congrArg String.toList h
  rw [cutLine, wholeLine, marker] at hlists
  simp only [String.toList_append] at hlists
  have hmore : " more)".toList = " mor".toList ++ ['e'] ++ [')'] := by decide
  have hparen : ")".toList = [')'] := by decide
  rw [hmore, hparen] at hlists
  simp only [← List.append_assoc] at hlists
  have hinit := List.append_cancel_right hlists
  have hlast := congrArg List.getLast? hinit
  rw [List.getLast?_concat, List.getLast?_append] at hlast
  have hdigits : (toString ranges.length).toList.getLast? = some 'e' := by
    cases hrepr : (toString ranges.length).toList.getLast? with
    | none => exact absurd (List.getLast?_eq_none_iff.1 hrepr) (repr_toList_ne_nil _)
    | some c =>
        rw [hrepr] at hlast
        exact hlast.symm
  have hdigit : 'e'.isDigit = true := isDigit_of_mem_repr (List.mem_of_getLast? hdigits)
  exact absurd hdigit (by decide)

/-- What a line is: whole if it fits; else a prefix of the ranges with a marker for the rest, within
    the limit if any range is kept, and kept are as many as can be admitted one at a time. -/
structure LineRight (topic : String) (ranges : List OffsetRange) (limit : ℤ) : Prop where
  whole : offsetsLine topic ranges limit = wholeLine topic ranges ↔
    byteLen (wholeLine topic ranges) ≤ limit
  cut : ¬ byteLen (wholeLine topic ranges) ≤ limit → ∃ kept k, kept + k = ranges.length ∧
    offsetsLine topic ranges limit
      = " ".intercalate (lineHead topic :: (ranges.take kept).map OffsetRange.part) ++ marker k ∧
    (1 ≤ kept → byteLen (offsetsLine topic ranges limit) ≤ limit) ∧
    (∀ j, 1 ≤ j → j ≤ kept → byteLen (cutLine topic ranges j) ≤ limit) ∧
    (kept < ranges.length → limit < byteLen (cutLine topic ranges (kept + 1)))

theorem offsetsLine_right (topic : String) (ranges : List OffsetRange) (limit : ℤ) :
    LineRight topic ranges limit := by
  constructor
  · by_cases hfits : byteLen (wholeLine topic ranges) ≤ limit
    · exact ⟨fun _ => hfits, fun _ => if_pos hfits⟩
    · refine ⟨fun hwhole => ?_, fun hle => absurd hle hfits⟩
      rw [offsetsLine, if_neg hfits] at hwhole
      exact absurd hwhole (cutLine_ne_wholeLine _)
  · intro hfits
    have hline : offsetsLine topic ranges limit = cutLine topic ranges
        (keptLoop limit ranges.length 0 (byteLen (lineHead topic)) (ranges.map OffsetRange.part)) := by
      simp only [offsetsLine, if_neg hfits, List.length_map]
    generalize hkept : keptLoop limit ranges.length 0 (byteLen (lineHead topic))
      (ranges.map OffsetRange.part) = kept at hline
    have hhead : byteLen (lineHead topic)
        = byteLen (" ".intercalate (lineHead topic :: [].map OffsetRange.part)) := by
      rw [List.map_nil, String.intercalate_singleton]
    obtain ⟨hle, hadmitted, hnext⟩ := keptLoop_spec (List.nil_append ranges).symm hhead hkept
    refine ⟨kept, ranges.length - kept, by omega, hline, fun hkept => ?_, fun j hj => ?_, hnext⟩
    · rw [hline]
      exact hadmitted kept hkept le_rfl
    · exact hadmitted j hj

/-! ## Text without white space -/

/-- No character of it is white space. -/
def Spaceless (s : String) : Prop := ∀ c ∈ s.toList, isSpace c = false

instance (s : String) : Decidable (Spaceless s) :=
  decidable_of_iff (s.toList.all (!isSpace ·) = true)
    (by simp only [Spaceless, List.all_eq_true, Bool.not_eq_true'])

theorem Spaceless.append {s t : String} (hs : Spaceless s) (ht : Spaceless t) :
    Spaceless (s ++ t) := by
  intro c hc
  rw [String.toList_append, List.mem_append] at hc
  exact hc.elim (hs c) (ht c)

theorem Spaceless.notMem {s : String} (h : Spaceless s) {c : Char} (hc : isSpace c = true) :
    c ∉ s.toList := by
  intro hmem
  rw [h c hmem] at hc
  cases hc

theorem spaceless_toString (n : ℤ) : Spaceless (toString n) := by
  intro c hc
  by_contra hspace
  have hdash : c ≠ '-' := by
    rintro rfl
    exact hspace (by decide)
  have hdigit : c.isDigit = false := by
    by_contra hdigit
    have hlt : c.toNat < 58 ∧ 48 ≤ c.toNat := by
      simp only [Char.isDigit, Bool.not_eq_false, Bool.and_eq_true, decide_eq_true_eq] at hdigit
      exact ⟨Nat.lt_succ_of_le (UInt32.le_iff_toNat_le.1 hdigit.2), UInt32.le_iff_toNat_le.1 hdigit.1⟩
    have hall : ∀ k < 58, 48 ≤ k → isSpace (Char.ofNat k) = false := by decide
    have hc := hall c.toNat hlt.1 hlt.2
    rw [Char.ofNat_toNat] at hc
    exact hspace hc
  exact notMem_toString hdash hdigit hc

theorem spaceless_messageToken (value : String) : Spaceless (messageToken value) := by
  unfold messageToken
  simp only
  split_ifs with hempty
  · decide
  · intro c hc
    rw [String.toList_map] at hc
    obtain ⟨d, -, rfl⟩ := List.mem_map.1 hc
    by_cases hspace : isSpace d = true
    · rw [if_pos hspace]
      decide
    · rw [if_neg hspace]
      simpa using hspace

theorem spaceless_messageTrigger (trigger : Option String) : Spaceless (messageTrigger trigger) := by
  have hall : ∀ s ∈ ["size", "interval", "final", "unknown"], Spaceless s := by decide
  have hmem : messageTrigger trigger ∈ ["size", "interval", "final", "unknown"] := by
    unfold messageTrigger
    split <;> simp
  exact hall _ hmem

/-- The sink's own tokens: a codec that `parquet_write_options` takes, and the stats. -/
structure MessageArgs.FromSink (parquetWriteOptions : String → Option ℤ → Bool) (args : MessageArgs) :
    Prop where
  codec : ∃ compression level, args.codec = codecToken compression level ∧
    ∀ name ∈ compression, name = "" ∨ parquetWriteOptions name level = true
  stats : ∃ deferredStats, args.stats = statsToken deferredStats

variable {parquetWriteOptions : String → Option ℤ → Bool} {args : MessageArgs}

theorem spaceless_codec (hnames : ∀ name level, parquetWriteOptions name level = true → Spaceless name)
    (h : args.FromSink parquetWriteOptions) : Spaceless args.codec := by
  obtain ⟨compression, level, hcodec, haccepted⟩ := h.codec
  have hdefault : Spaceless "default" := by decide
  have hname : ∀ name ∈ compression, Spaceless (if name.isEmpty then "default" else name) := by
    intro name hmem
    split_ifs with hempty
    · exact hdefault
    · rcases haccepted name hmem with rfl | hok
      · exact absurd rfl hempty
      · exact hnames name level hok
  have hdash : Spaceless "-" := by decide
  rw [hcodec]
  cases compression with
  | none =>
      cases level with
      | none => exact hdefault
      | some level => exact (hdefault.append hdash).append (spaceless_toString level)
  | some name =>
      cases level with
      | none => exact hname name rfl
      | some level => exact ((hname name rfl).append hdash).append (spaceless_toString level)

/-- No value of the summary has white space in it. -/
theorem spaceless_summary
    (hnames : ∀ name level, parquetWriteOptions name level = true → Spaceless name)
    (h : args.FromSink parquetWriteOptions) : ∀ pair ∈ args.summaryPairs, Spaceless pair.2 := by
  have hstats : Spaceless args.stats := by
    obtain ⟨deferredStats, hstats⟩ := h.stats
    rw [hstats, statsToken]
    split_ifs
    · decide
    · decide
  simp only [MessageArgs.summaryPairs, List.mem_cons, List.not_mem_nil, or_false, forall_eq_or_imp,
    forall_eq]
  exact ⟨spaceless_toString _, spaceless_toString _, spaceless_toString _, spaceless_toString _,
    spaceless_codec hnames h, hstats, spaceless_messageTrigger _, spaceless_messageToken _,
    spaceless_messageToken _⟩

/-! ## Reading a message back -/

variable {kafkaOffsets : List FlushRange}

/-- The ranges of a topic, in their order of arrival. -/
theorem fromMembers_ranges (members : List FlushRange) :
    Groups.fromMembers (fun q => [q.2]) (fun ranges q => ranges ++ [q.2]) members
      = if members = [] then none else some (members.map Prod.snd) := by
  have hfold : ∀ (rest : List FlushRange) (ranges : List OffsetRange),
      rest.foldl (fun ranges q => ranges ++ [q.2]) ranges = ranges ++ rest.map Prod.snd := by
    intro rest
    induction rest with
    | nil => intro ranges; simp
    | cons q rest ih =>
        intro ranges
        rw [List.foldl_cons, ih, List.map_cons, List.append_assoc, List.singleton_append]
  cases members with
  | nil => rfl
  | cons q rest =>
      rw [if_neg (List.cons_ne_nil _ _)]
      exact congrArg some (hfold rest [q.2])

/-- The lines name the given ranges, and no others. -/
theorem mem_topicRanges {q : FlushRange} :
    q ∈ kafkaOffsets ↔ ∃ t ∈ topicRanges kafkaOffsets, t.1 = q.1 ∧ q.2 ∈ t.2 := by
  have hlookup : ∀ topic, Groups.lookup topic (byTopic kafkaOffsets)
      = if kafkaOffsets.filter (fun q => q.1 = topic) = [] then none
        else some ((kafkaOffsets.filter fun q => q.1 = topic).map Prod.snd) := by
    intro topic
    rw [byTopic, Groups.lookup_collect, fromMembers_ranges]
  have hranges : ∀ topic, (Groups.lookup topic (byTopic kafkaOffsets)).getD []
      = (kafkaOffsets.filter fun q => q.1 = topic).map Prod.snd := by
    intro topic
    rw [hlookup]
    split_ifs with hnil
    · rw [hnil]
      rfl
    · rfl
  constructor
  · intro hq
    have hmem : q ∈ kafkaOffsets.filter fun q' => q'.1 = q.1 :=
      List.mem_filter.2 ⟨hq, decide_eq_true rfl⟩
    have hkey : q.1 ∈ (byTopic kafkaOffsets).map Prod.fst := by
      have hsome := hlookup q.1
      rw [if_neg (List.ne_nil_of_mem hmem)] at hsome
      have hentry := (Groups.mem_iff_lookup (Groups.collect_keys_nodup kafkaOffsets)).2 hsome
      exact List.mem_map_of_mem (f := Prod.fst) hentry
    refine ⟨_, List.mem_map_of_mem ((List.mem_insertionSort _).2 hkey), rfl, ?_⟩
    refine (List.mem_insertionSort _).2 ?_
    rw [hranges]
    exact List.mem_map_of_mem hmem
  · rintro ⟨t, ht, htopic, hmem⟩
    obtain ⟨topic, -, rfl⟩ := List.mem_map.1 ht
    have hmem := (List.mem_insertionSort _).1 hmem
    rw [hranges] at hmem
    obtain ⟨q', hq', heq⟩ := List.mem_map.1 hmem
    obtain ⟨hin, hkey⟩ := List.mem_filter.1 hq'
    have hsame : q' = q := Prod.ext ((of_decide_eq_true hkey).trans htopic) heq
    exact hsame ▸ hin

theorem part_inj {r r' : OffsetRange} (h : r.part = r'.part) : r = r' := by
  have htext : ∀ r : OffsetRange, r.part
      = ":".intercalate ["p" ++ toString r.1, toString r.2.1 ++ "-" ++ toString r.2.2] := by
    intro r
    simp [OffsetRange.part, String.append_assoc]
  have hfields : ∀ r : OffsetRange,
      ∀ s ∈ ["p" ++ toString r.1, toString r.2.1 ++ "-" ++ toString r.2.2], ':' ∉ s.toList := by
    intro r
    simp only [List.mem_cons, List.not_mem_nil, or_false, forall_eq_or_imp, forall_eq]
    refine ⟨?_, notMem_dashed _ _ (by decide) (by decide)⟩
    rw [String.toList_append, List.mem_append, not_or]
    exact ⟨by decide, notMem_toString (by decide) (by decide)⟩
  rw [htext, htext] at h
  have hparts := intercalate_inj rfl (hfields r) (hfields r') (by simp) (by simp) h
  simp only [List.cons.injEq, and_true] at hparts
  obtain ⟨hpartition, hoffsets⟩ := hparts
  obtain ⟨hfirst, hlast⟩ := dashed_inj hoffsets
  have hp : toString r.1 = toString r'.1 := (String.append_right_inj "p").1 hpartition
  exact Prod.ext (toString_int_inj hp) (Prod.ext hfirst hlast)

theorem spaceless_part (r : OffsetRange) : Spaceless r.part := by
  have hp : Spaceless "p" := by decide
  have hcolon : Spaceless ":" := by decide
  have hdash : Spaceless "-" := by decide
  exact ((hp.append (spaceless_toString _)).append hcolon).append
    (((spaceless_toString _).append hdash).append (spaceless_toString _))

/-- A whole line, word by word. -/
theorem wholeLine_eq (topic : String) (ranges : List OffsetRange) : wholeLine topic ranges
    = " ".intercalate (["offsets", topic] ++ ranges.map OffsetRange.part ++
        ["(" ++ toString ranges.length ++ ")"]) := by
  rw [String.intercalate_append_of_ne_nil (by simp) (List.cons_ne_nil _ _),
    String.intercalate_singleton, List.cons_append, List.cons_append, List.nil_append,
    String.intercalate_cons_cons, wholeLine, lineHead, String.intercalate_cons_append]
  have hspace : "offsets " = "offsets" ++ " " := by decide
  have hparen : " (" = " " ++ "(" := by decide
  rw [hspace, hparen]
  simp only [String.append_assoc]

theorem wholeLine_words (topic : String) (ranges : List OffsetRange) (h : Spaceless topic) :
    ∀ s ∈ ["offsets", topic] ++ ranges.map OffsetRange.part ++
      ["(" ++ toString ranges.length ++ ")"], Spaceless s := by
  have hopen : Spaceless "(" := by decide
  have hclose : Spaceless ")" := by decide
  have hcount : Spaceless (toString (ranges.length : ℤ)) := spaceless_toString _
  intro s hs
  simp only [List.mem_append, List.mem_cons, List.not_mem_nil, or_false, List.mem_map] at hs
  rcases hs with ((rfl | rfl) | ⟨r, -, rfl⟩) | rfl
  · decide
  · exact h
  · exact spaceless_part r
  · exact (hopen.append hcount).append hclose

/-- A whole line tells its topic and its ranges. -/
theorem wholeLine_inj {t t' : String × List OffsetRange} (ht : Spaceless t.1) (ht' : Spaceless t'.1)
    (h : wholeLine t.1 t.2 = wholeLine t'.1 t'.2) : t = t' := by
  rw [wholeLine_eq, wholeLine_eq] at h
  have hspace : isSpace ' ' = true := by decide
  have hwords := intercalate_inj rfl (fun s hs => (wholeLine_words _ _ ht s hs).notMem hspace)
    (fun s hs => (wholeLine_words _ _ ht' s hs).notMem hspace) (by simp) (by simp) h
  simp only [List.cons_append, List.nil_append, List.cons.injEq, true_and] at hwords
  obtain ⟨htopic, hrest⟩ := hwords
  obtain ⟨hparts, -⟩ := List.append_inj' hrest rfl
  exact Prod.ext htopic (map_inj_of_mem (fun r _ r' _ => part_inj) hparts)

/-! ## The property -/

/-- Topic names without white space. -/
def MessageArgs.Plain (args : MessageArgs) : Prop := ∀ q ∈ args.kafkaOffsets, Spaceless q.1

/-- Every line of offsets is whole. -/
def MessageArgs.Whole (args : MessageArgs) : Prop :=
  ∀ t ∈ topicRanges args.kafkaOffsets, offsetsLine t.1 t.2 args.limit = wholeLine t.1 t.2

theorem offsetsLine_cases (topic : String) (ranges : List OffsetRange) (limit : ℤ) :
    offsetsLine topic ranges limit = wholeLine topic ranges ∨
      ∃ kept, offsetsLine topic ranges limit = cutLine topic ranges kept := by
  unfold offsetsLine
  simp only
  split_ifs
  · exact Or.inl rfl
  · exact Or.inr ⟨_, rfl⟩

theorem newline_notMem_cutLine (h : Spaceless topic) (kept : ℕ) :
    '\n' ∉ (cutLine topic ranges kept).toList := by
  have hnewline : isSpace '\n' = true := by decide
  have hhead : '\n' ∉ (lineHead topic).toList := by
    rw [lineHead, String.toList_append, List.mem_append, not_or]
    exact ⟨by decide, h.notMem hnewline⟩
  rw [cutLine, marker]
  simp only [String.toList_append, List.mem_append, not_or]
  refine ⟨notMem_intercalate (by decide) fun s hs => ?_, ⟨by decide, ?_⟩, by decide⟩
  · rcases List.mem_cons.1 hs with rfl | hs
    · exact hhead
    · obtain ⟨r, -, rfl⟩ := List.mem_map.1 hs
      exact (spaceless_part r).notMem hnewline
  · exact (spaceless_toString ((ranges.length - kept : ℕ) : ℤ)).notMem hnewline

theorem newline_notMem_offsetsLine (h : Spaceless topic) :
    '\n' ∉ (offsetsLine topic ranges limit).toList := by
  rcases offsetsLine_cases topic ranges limit with hwhole | ⟨kept, hcut⟩
  · rw [hwhole, wholeLine_eq]
    exact notMem_intercalate (by decide) fun s hs =>
      (wholeLine_words topic ranges h s hs).notMem (by decide)
  · rw [hcut]
    exact newline_notMem_cutLine h kept

theorem newline_notMem_summary
    (hnames : ∀ name level, parquetWriteOptions name level = true → Spaceless name)
    (h : args.FromSink parquetWriteOptions) : '\n' ∉ args.summary.toList := by
  have hnewline : isSpace '\n' = true := by decide
  have hkeys : ∀ pair ∈ args.summaryPairs, '\n' ∉ pair.1.toList := by
    simp only [MessageArgs.summaryPairs, List.mem_cons, List.not_mem_nil, or_false, forall_eq_or_imp,
      forall_eq]
    decide
  refine notMem_intercalate (by decide) fun s hs => ?_
  obtain ⟨pair, hpair, rfl⟩ := List.mem_map.1 hs
  simp only [String.toList_append, List.mem_append, not_or]
  exact ⟨⟨hkeys pair hpair, by decide⟩, (spaceless_summary hnames h pair hpair).notMem hnewline⟩

theorem MessageArgs.Plain.topics (h : args.Plain) :
    ∀ t ∈ topicRanges args.kafkaOffsets, Spaceless t.1 := by
  intro t ht
  obtain ⟨topic, htopic, rfl⟩ := List.mem_map.1 ht
  obtain ⟨entry, hentry, rfl⟩ := List.mem_map.1 ((List.mem_insertionSort _).1 htopic)
  have hmembers := Groups.mem_collect.1 (show (entry.1, entry.2) ∈ byTopic args.kafkaOffsets from hentry)
  rw [fromMembers_ranges] at hmembers
  split_ifs at hmembers with hnil
  obtain ⟨q, hq⟩ := List.exists_mem_of_ne_nil _ hnil
  obtain ⟨hin, hkey⟩ := List.mem_filter.1 hq
  exact of_decide_eq_true hkey ▸ h q hin

/-- The lines of equal messages are equal. -/
theorem topicRanges_eq {args' : MessageArgs}
    (hnames : ∀ name level, parquetWriteOptions name level = true → Spaceless name)
    (hsink : args.FromSink parquetWriteOptions) (hsink' : args'.FromSink parquetWriteOptions)
    (hplain : args.Plain) (hplain' : args'.Plain) (hwhole : args.Whole)
    (h : formatCommitMessage args = formatCommitMessage args') :
    topicRanges args.kafkaOffsets = topicRanges args'.kafkaOffsets := by
  have hfree : ∀ a : MessageArgs, a.FromSink parquetWriteOptions → a.Plain →
      ∀ s ∈ a.summary :: (topicRanges a.kafkaOffsets).map fun t => offsetsLine t.1 t.2 a.limit,
        '\n' ∉ s.toList := by
    intro a ha hp s hs
    rcases List.mem_cons.1 hs with rfl | hs
    · exact newline_notMem_summary hnames ha
    · obtain ⟨t, ht, rfl⟩ := List.mem_map.1 hs
      exact newline_notMem_offsetsLine (hp.topics t ht)
  have hlines := intercalate_inj rfl (hfree args hsink hplain) (hfree args' hsink' hplain')
    (by simp) (by simp) h
  have hmaps := (List.cons.inj hlines).2
  -- a cut line is no whole line, so the other message has none
  have hwhole' : ∀ t ∈ topicRanges args'.kafkaOffsets,
      offsetsLine t.1 t.2 args'.limit = wholeLine t.1 t.2 := by
    intro t ht
    have hmem := List.mem_map_of_mem (f := fun t => offsetsLine t.1 t.2 args'.limit) ht
    rw [← hmaps] at hmem
    obtain ⟨t', ht', heq⟩ := List.mem_map.1 hmem
    rcases offsetsLine_cases t.1 t.2 args'.limit with hok | ⟨kept, hcut⟩
    · exact hok
    · rw [hwhole t' ht', hcut] at heq
      exact absurd heq.symm (cutLine_ne_wholeLine kept)
  have hequal : (topicRanges args.kafkaOffsets).map (fun t => wholeLine t.1 t.2)
      = (topicRanges args'.kafkaOffsets).map fun t => wholeLine t.1 t.2 := by
    rw [← List.map_congr_left hwhole, hmaps, List.map_congr_left hwhole']
  exact map_inj_of_mem (fun t ht t' ht' => wholeLine_inj (hplain.topics t ht) (hplain'.topics t' ht'))
    hequal

/-- **The commit message.** Every line is right about its limit; a message of the sink without a cut
    line tells the ranges that it was made from; and no value of its summary has white space. -/
theorem formatCommitMessage_reads
    (hnames : ∀ name level, parquetWriteOptions name level = true → Spaceless name) :
    (∀ topic ranges limit, LineRight topic ranges limit) ∧
    (∀ a b : MessageArgs, a.FromSink parquetWriteOptions → b.FromSink parquetWriteOptions →
      a.Plain → b.Plain → a.Whole → formatCommitMessage a = formatCommitMessage b →
      ∀ q, q ∈ a.kafkaOffsets ↔ q ∈ b.kafkaOffsets) ∧
    ∀ a : MessageArgs, a.FromSink parquetWriteOptions → ∀ pair ∈ a.summaryPairs, Spaceless pair.2 := by
  refine ⟨offsetsLine_right, fun a b ha hb hpa hpb hwhole h q => ?_, fun a => spaceless_summary hnames⟩
  have hequal := topicRanges_eq hnames ha hb hpa hpb hwhole h
  rw [mem_topicRanges, mem_topicRanges, hequal]

/-- The codecs that `pyhoglake` takes: zstd with a level from 1 to 9, snappy and none without. -/
def pyhoglakeCodecs (name : String) (level : Option ℤ) : Bool :=
  (name = "zstd" ∧ level.all fun n => decide (1 ≤ n ∧ n ≤ 9)) ∨
    ((name = "snappy" ∨ name = "none") ∧ level.isNone)

theorem spaceless_of_pyhoglakeCodecs (name : String) (level : Option ℤ)
    (h : pyhoglakeCodecs name level = true) : Spaceless name := by
  simp only [pyhoglakeCodecs, decide_eq_true_eq] at h
  rcases h with ⟨rfl, -⟩ | ⟨rfl | rfl, -⟩
  · decide
  · decide
  · decide

/-- A flush of three records of two partitions, its ranges in this order. -/
def threeRecords (kafkaOffsets : List FlushRange) : MessageArgs where
  records := 3
  files := 1
  partitions := 1
  arrowBytes := 512
  trigger := some "size"
  version := "1.4.0"
  tableUuid := some "0b6f"
  codec := codecToken (some "zstd") (some 3)
  stats := statsToken none
  kafkaOffsets := kafkaOffsets
  limit := 4096

theorem threeRecords_fromSink (kafkaOffsets : List FlushRange) :
    (threeRecords kafkaOffsets).FromSink pyhoglakeCodecs :=
  ⟨⟨some "zstd", some 3, rfl, by decide⟩, none, rfl⟩

/-- One message, of the ranges in either order; it tells them. -/
theorem pyhoglakeCodecs_reads :
    (∀ topic ranges limit, LineRight topic ranges limit) ∧
    (formatCommitMessage (threeRecords [("clicks", 0, 0, 1), ("clicks", 1, 4, 4)]) =
        formatCommitMessage (threeRecords [("clicks", 1, 4, 4), ("clicks", 0, 0, 1)]) ∧
      ∀ q, q ∈ (threeRecords [("clicks", 0, 0, 1), ("clicks", 1, 4, 4)]).kafkaOffsets ↔
        q ∈ (threeRecords [("clicks", 1, 4, 4), ("clicks", 0, 0, 1)]).kafkaOffsets) ∧
    ∀ pair ∈ (threeRecords [("clicks", 0, 0, 1), ("clicks", 1, 4, 4)]).summaryPairs, Spaceless pair.2 := by
  obtain ⟨hlines, hranges, hsummary⟩ := formatCommitMessage_reads spaceless_of_pyhoglakeCodecs
  have hequal : formatCommitMessage (threeRecords [("clicks", 0, 0, 1), ("clicks", 1, 4, 4)]) =
      formatCommitMessage (threeRecords [("clicks", 1, 4, 4), ("clicks", 0, 0, 1)]) := by
    decide +kernel
  refine ⟨hlines, ⟨hequal, ?_⟩, hsummary _ (threeRecords_fromSink _)⟩
  refine hranges _ _ (threeRecords_fromSink _) (threeRecords_fromSink _) ?_ ?_ ?_ hequal
  · unfold MessageArgs.Plain
    decide
  · unfold MessageArgs.Plain
    decide
  · unfold MessageArgs.Whole
    decide +kernel

end Millpond.Hoglake
