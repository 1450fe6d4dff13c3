import Millpond.Hoglake.Sink
import Millpond.Main.Loop
import Millpond.Lib.Rendering

set_option autoImplicit false

/-! # The flush key

A hoglake commit is named by its destination, the incarnation of the table and the offset ranges of
the flush. This file is that name over arbitrary integers: `_sink_write_kwargs` turns the loop's
`offsets` dict into sorted tuples, `_flush_key` renders them one a line. Two flushes share a name
exactly when they are the same rows for the same table. -/

namespace Millpond.Hoglake

/-! ## The two halves of the key -/

/-- A `(topic, partition, first, last)` tuple. -/
abbrev FlushRange := String × ℤ × ℤ × ℤ

/-- The order Python puts on such tuples. -/
def FlushRange.order (r : FlushRange) : String ×ₗ ℤ ×ₗ ℤ ×ₗ ℤ :=
  toLex (r.1, toLex (r.2.1, toLex (r.2.2.1, r.2.2.2)))

/-- The dict `(topic, partition) → (first, last)`, its entries in insertion order. -/
structure OffsetMap where
  entries : List ((String × ℤ) × (ℤ × ℤ))
  once : (entries.map Prod.fst).Nodup

/-- `offsets.get(key)`. -/
def OffsetMap.get? (offsets : OffsetMap) (key : String × ℤ) : Option (ℤ × ℤ) :=
  (offsets.entries.find? (·.1 = key)).map Prod.snd

/-- The flattened entry. -/
def flushRange (entry : (String × ℤ) × (ℤ × ℤ)) : FlushRange :=
  (entry.1.1, entry.1.2, entry.2.1, entry.2.2)

/-- `_sink_write_kwargs` for hoglake. -/
def hoglakeWriteKwargs (offsets : OffsetMap) (trigger : Main.Trigger) :
    List FlushRange × Main.Trigger :=
  ((offsets.entries.map flushRange).insertionSort (keyLe FlushRange.order), trigger)

/-- What the key names besides the offsets. The incarnation is the text of its uuid. -/
structure Destination where
  catalog : String
  namespace_ : String
  table : String
  tableUuid : String
deriving DecidableEq

/-- `catalog/namespace/table/uuid`. -/
def Destination.text (d : Destination) : String :=
  d.catalog ++ "/" ++ d.namespace_ ++ "/" ++ d.table ++ "/" ++ d.tableUuid

/-- `topic:partition:first-last`. -/
def FlushRange.text (r : FlushRange) : String :=
  r.1 ++ ":" ++ toString r.2.1 ++ ":" ++ toString r.2.2.1 ++ "-" ++ toString r.2.2.2

/-- The text that `_flush_key` hashes. -/
def keyName (d : Destination) (kafkaOffsets : List FlushRange) : String :=
  "\n".intercalate
    (d.text :: (kafkaOffsets.insertionSort (keyLe FlushRange.order)).map FlushRange.text)

/-- `_flush_key`: without offsets a random uuid, here the `fresh`-th one. -/
def flushKeyOf (fresh : ℕ) (d : Destination) (kafkaOffsets : List FlushRange) : Key :=
  if kafkaOffsets.isEmpty then .uuid4 fresh else .uuid5 (keyName d kafkaOffsets)

/-- The key of a flush of the loop. -/
def commitKey (fresh : ℕ) (d : Destination) (offsets : OffsetMap) (trigger : Main.Trigger) : Key :=
  flushKeyOf fresh d (hoglakeWriteKwargs offsets trigger).1

/-! ## Reading a name back -/

/-- The parts of a destination are free of separators. -/
structure Destination.Plain (d : Destination) : Prop where
  slash : ∀ s ∈ [d.catalog, d.namespace_, d.table, d.tableUuid], '/' ∉ s.toList
  newline : ∀ s ∈ [d.catalog, d.namespace_, d.table, d.tableUuid], '\n' ∉ s.toList

/-- Topic names are free of separators. -/
structure OffsetMap.Plain (offsets : OffsetMap) : Prop where
  colon : ∀ entry ∈ offsets.entries, ':' ∉ entry.1.1.toList
  newline : ∀ entry ∈ offsets.entries, '\n' ∉ entry.1.1.toList

theorem order_injective : Function.Injective FlushRange.order := by
  intro a b h
  obtain ⟨a₁, a₂, a₃, a₄⟩ := a
  obtain ⟨b₁, b₂, b₃, b₄⟩ := b
  simp only [FlushRange.order, toLex_inj, Prod.mk.injEq] at h
  obtain ⟨rfl, rfl, rfl, rfl⟩ := h
  rfl

theorem flushRange_injective : Function.Injective flushRange := by
  intro a b h
  obtain ⟨⟨a₁, a₂⟩, a₃, a₄⟩ := a
  obtain ⟨⟨b₁, b₂⟩, b₃, b₄⟩ := b
  simp only [flushRange, Prod.mk.injEq] at h
  obtain ⟨rfl, rfl, rfl, rfl⟩ := h
  rfl

theorem destination_text_eq (d : Destination) :
    d.text = "/".intercalate [d.catalog, d.namespace_, d.table, d.tableUuid] := by
  simp [Destination.text, String.append_assoc]

theorem destination_text_inj {d d' : Destination} (hd : d.Plain) (hd' : d'.Plain)
    (h : d.text = d'.text) : d = d' := by
  rw [destination_text_eq, destination_text_eq] at h
  have hparts := intercalate_inj rfl hd.slash hd'.slash (by simp) (by simp) h
  obtain ⟨_, _, _, _⟩ := d
  obtain ⟨_, _, _, _⟩ := d'
  simpa using hparts

theorem newline_notMem_destination {d : Destination} (hd : d.Plain) : '\n' ∉ d.text.toList := by
  have h := hd.newline
  simp only [List.mem_cons, List.not_mem_nil, or_false, forall_eq_or_imp, forall_eq] at h
  simp [Destination.text, h]

theorem range_text_eq (r : FlushRange) : r.text =
    ":".intercalate [r.1, toString r.2.1, toString r.2.2.1 ++ "-" ++ toString r.2.2.2] := by
  simp [FlushRange.text, String.append_assoc]

/-- The dashed pair holds no character but digits and signs. -/
theorem notMem_dashed {c : Char} (a b : ℤ) (hdash : c ≠ '-') (hdigit : c.isDigit = false) :
    c ∉ (toString a ++ "-" ++ toString b).toList := by
  simp only [String.toList_append, List.mem_append, not_or]
  exact ⟨⟨notMem_toString hdash hdigit, by simpa using hdash⟩, notMem_toString hdash hdigit⟩

theorem range_text_inj {r r' : FlushRange} (hr : ':' ∉ r.1.toList) (hr' : ':' ∉ r'.1.toList)
    (h : r.text = r'.text) : r = r' := by
  rw [range_text_eq, range_text_eq] at h
  have hfields : ∀ q : FlushRange, ':' ∉ q.1.toList →
      ∀ s ∈ [q.1, toString q.2.1, toString q.2.2.1 ++ "-" ++ toString q.2.2.2], ':' ∉ s.toList := by
    intro q hq
    simp only [List.mem_cons, List.not_mem_nil, or_false, forall_eq_or_imp, forall_eq]
    exact ⟨hq, notMem_toString (by decide) (by decide), notMem_dashed _ _ (by decide) (by decide)⟩
  have hparts := intercalate_inj rfl (hfields r hr) (hfields r' hr') (by simp) (by simp) h
  simp only [List.cons.injEq, and_true] at hparts
  obtain ⟨htopic, hpartition, hoffsets⟩ := hparts
  obtain ⟨hfirst, hlast⟩ := dashed_inj hoffsets
  exact Prod.ext htopic (Prod.ext (toString_int_inj hpartition) (Prod.ext hfirst hlast))

theorem newline_notMem_range {r : FlushRange} (hr : '\n' ∉ r.1.toList) : '\n' ∉ r.text.toList := by
  have hpartition : '\n' ∉ (toString r.2.1).toList := notMem_toString (by decide) (by decide)
  have hfirst : '\n' ∉ (toString r.2.2.1).toList := notMem_toString (by decide) (by decide)
  have hlast : '\n' ∉ (toString r.2.2.2).toList := notMem_toString (by decide) (by decide)
  simp only [FlushRange.text, String.toList_append, List.mem_append, not_or]
  exact ⟨⟨⟨⟨⟨⟨hr, by decide⟩, hpartition⟩, by decide⟩, hfirst⟩, by decide⟩, hlast⟩

/-- Rendering is injective on tuples with plain topics. -/
theorem ranges_text_inj {rs rs' : List FlushRange} (h : ∀ r ∈ rs, ':' ∉ r.1.toList)
    (h' : ∀ r ∈ rs', ':' ∉ r.1.toList)
    (htexts : rs.map FlushRange.text = rs'.map FlushRange.text) : rs = rs' :=
  map_inj_of_mem (fun r hr r' hr' => range_text_inj (h r hr) (h' r' hr')) htexts

/-- The tuples of a dict, sorted twice: by the loop and by the sink. -/
def OffsetMap.ranges (offsets : OffsetMap) : List FlushRange :=
  ((offsets.entries.map flushRange).insertionSort (keyLe FlushRange.order)).insertionSort
    (keyLe FlushRange.order)

theorem ranges_perm (offsets : OffsetMap) : offsets.ranges.Perm (offsets.entries.map flushRange) :=
  (List.perm_insertionSort _ _).trans (List.perm_insertionSort _ _)

theorem ranges_eq_iff {offsets offsets' : OffsetMap} :
    offsets.ranges = offsets'.ranges ↔ offsets.entries.Perm offsets'.entries := by
  have hsorted : ∀ l : List FlushRange, (l.insertionSort (keyLe FlushRange.order)).Perm l :=
    fun l => List.perm_insertionSort _ l
  unfold OffsetMap.ranges
  rw [insertionSort_keyLe_eq_iff order_injective]
  constructor
  · intro h
    have hmaps := (hsorted _).symm.trans (h.trans (hsorted _))
    exact (List.map_perm_map_iff flushRange_injective).1 hmaps
  · intro h
    exact (hsorted _).trans ((h.map flushRange).trans (hsorted _).symm)

theorem get?_eq_some {offsets : OffsetMap} {key : String × ℤ} {range : ℤ × ℤ} :
    offsets.get? key = some range ↔ (key, range) ∈ offsets.entries := by
  obtain ⟨entries, once⟩ := offsets
  unfold OffsetMap.get?
  induction entries with
  | nil => simp
  | cons entry rest ih =>
      obtain ⟨k, v⟩ := entry
      simp only [List.map_cons, List.nodup_cons] at once
      by_cases h : k = key
      · subst h
        have hnot : (k, range) ∉ rest := fun hmem => once.1 (List.mem_map.2 ⟨_, hmem, rfl⟩)
        simp [hnot, eq_comm]
      · have hne : ¬ key = k := fun he => h he.symm
        simp only [List.find?_cons, h, decide_false, List.mem_cons, Prod.mk.injEq, hne, false_and,
          false_or]
        exact ih once.2

/-- Two dicts are equal when their entries are, in any order. -/
theorem entries_perm_iff {offsets offsets' : OffsetMap} :
    offsets.entries.Perm offsets'.entries ↔ ∀ key, offsets.get? key = offsets'.get? key := by
  have hnodup : ∀ m : OffsetMap, m.entries.Nodup := fun m => List.Nodup.of_map _ m.once
  rw [List.perm_ext_iff_of_nodup (hnodup _) (hnodup _)]
  constructor
  · intro h key
    refine Option.ext (fun range => ?_)
    rw [get?_eq_some, get?_eq_some]
    exact h (key, range)
  · intro h entry
    have hentry := congrArg (· = some entry.2) (h entry.1)
    simpa [get?_eq_some] using hentry

/-! ## Flush identity -/

theorem commitKey_eq {fresh : ℕ} {d : Destination} {offsets : OffsetMap} {trigger : Main.Trigger}
    (h : offsets.entries ≠ []) : commitKey fresh d offsets trigger =
      .uuid5 ("\n".intercalate (d.text :: offsets.ranges.map FlushRange.text)) := by
  unfold commitKey flushKeyOf hoglakeWriteKwargs
  rw [if_neg]
  · rfl
  · rw [List.isEmpty_iff]
    intro hnil
    have hperm := List.perm_insertionSort (keyLe FlushRange.order) (offsets.entries.map flushRange)
    rw [show List.insertionSort (keyLe FlushRange.order) (offsets.entries.map flushRange) = [] from hnil]
      at hperm
    exact h (List.map_eq_nil_iff.1 hperm.symm.eq_nil)

/-- **Flush identity.** The keys of two flushes are equal if and only if catalog, namespace, table,
    incarnation and the whole offset map are; the order in which the map was filled and the trigger
    of the flush play no part. -/
theorem commitKey_eq_iff (fresh fresh' : ℕ) (d d' : Destination) (offsets offsets' : OffsetMap)
    (trigger trigger' : Main.Trigger) (hd : d.Plain) (hd' : d'.Plain) (ho : offsets.Plain)
    (ho' : offsets'.Plain) (hne : offsets.entries ≠ []) (hne' : offsets'.entries ≠ []) :
    commitKey fresh d offsets trigger = commitKey fresh' d' offsets' trigger' ↔
      d = d' ∧ ∀ key, offsets.get? key = offsets'.get? key := by
  rw [commitKey_eq hne, commitKey_eq hne', ← entries_perm_iff, ← ranges_eq_iff, Key.uuid5.injEq]
  constructor
  · intro h
    have hlines : ∀ (e : Destination) (m : OffsetMap), e.Plain → m.Plain →
        ∀ s ∈ e.text :: m.ranges.map FlushRange.text, '\n' ∉ s.toList := by
      intro e m he hm s hs
      rcases List.mem_cons.1 hs with rfl | hs
      · exact newline_notMem_destination he
      · obtain ⟨r, hr, rfl⟩ := List.mem_map.1 hs
        obtain ⟨entry, hentry, rfl⟩ := List.mem_map.1 ((ranges_perm m).mem_iff.1 hr)
        exact newline_notMem_range (hm.newline entry hentry)
    have hcolon : ∀ m : OffsetMap, m.Plain → ∀ r ∈ m.ranges, ':' ∉ r.1.toList := by
      intro m hm r hr
      obtain ⟨entry, hentry, rfl⟩ := List.mem_map.1 ((ranges_perm m).mem_iff.1 hr)
      exact hm.colon entry hentry
    have hall := intercalate_inj rfl (hlines d offsets hd ho) (hlines d' offsets' hd' ho')
      (by simp) (by simp) h
    obtain ⟨hhead, htail⟩ := List.cons.inj hall
    exact ⟨destination_text_inj hd hd' hhead,
      ranges_text_inj (hcolon offsets ho) (hcolon offsets' ho') htail⟩
  · intro ⟨hdest, hranges⟩
    rw [hdest, hranges]

/-- One partition of one table. -/
def plainDestination : Destination := ⟨"lake", "events", "raw", "6f1b6d2e"⟩

def onePartition (first last : ℤ) : OffsetMap := ⟨[(("clicks", 0), (first, last))], by simp⟩

/-- A flush of more rows after a rewind has another key. -/
theorem rewound_flush_renamed :
    commitKey 0 plainDestination (onePartition 30 41) .size ≠
      commitKey 1 plainDestination (onePartition 0 41) .time := by
  intro h
  have hsame := (commitKey_eq_iff 0 1 plainDestination plainDestination (onePartition 30 41)
    (onePartition 0 41) .size .time ⟨by decide, by decide⟩ ⟨by decide, by decide⟩
    ⟨by simp [onePartition], by simp [onePartition]⟩
    ⟨by simp [onePartition], by simp [onePartition]⟩ (by simp [onePartition])
    (by simp [onePartition])).1 h
  exact absurd (hsame.2 ("clicks", 0)) (by decide)

/-! ## The loop's own flushes -/

/-- A loop entry as tuple of integers. -/
def loopRange (entry : (String × ℕ) × (ℕ × ℕ)) : FlushRange :=
  (entry.1.1, entry.1.2, entry.2.1, entry.2.2)

theorem quadLe_iff (a b : (String × ℕ) × (ℕ × ℕ)) :
    quadLe a b = true ↔ keyLe FlushRange.order (loopRange a) (loopRange b) := by
  obtain ⟨⟨a₁, a₂⟩, a₃, a₄⟩ := a
  obtain ⟨⟨b₁, b₂⟩, b₃, b₄⟩ := b
  simp only [quadLe, keyLe, FlushRange.order, loopRange, Prod.Lex.toLex_le_toLex, Nat.cast_lt,
    Nat.cast_inj, Nat.cast_le]
  split_ifs with h₁ h₂ h₃
  · simp [lt_iff_le_and_ne, h₁]
  · obtain rfl := not_not.1 h₁
    simp [lt_iff_le_and_ne, h₂]
  · obtain rfl := not_not.1 h₁
    obtain rfl := not_not.1 h₂
    simp [lt_iff_le_and_ne, h₃]
  · obtain rfl := not_not.1 h₁
    obtain rfl := not_not.1 h₂
    obtain rfl := not_not.1 h₃
    simp

/-- The name the sink gives to a flush of the loop is the name defined here. -/
theorem flushName_eq (cfg : SinkConfig) (uuid : Uuid) (offsets : Identity) :
    flushName cfg (some uuid) offsets =
      keyName ⟨cfg.catalog, cfg.namespace_, cfg.table, toString uuid⟩ (offsets.map loopRange) := by
  have hsort : (offsets.insertionSort (quadLe · ·)).map loopRange =
      (offsets.map loopRange).insertionSort (keyLe FlushRange.order) :=
    List.map_insertionSort _ _ loopRange offsets fun a _ b _ => quadLe_iff a b
  unfold flushName keyName
  rw [← hsort, List.map_map]
  rfl

/-- As `OffsetMap.Plain`, of the loop's entries. -/
def PlainTopics (offsets : Identity) : Prop :=
  ∀ entry ∈ offsets, ':' ∉ entry.1.1.toList ∧ '\n' ∉ entry.1.1.toList

theorem loopRange_injective : Function.Injective loopRange := by
  intro a b h
  obtain ⟨⟨a₁, a₂⟩, a₃, a₄⟩ := a
  obtain ⟨⟨b₁, b₂⟩, b₃, b₄⟩ := b
  simp only [loopRange, Prod.mk.injEq, Nat.cast_inj] at h
  obtain ⟨rfl, rfl, rfl, rfl⟩ := h
  rfl

/-- **A sink names a flush by its ranges.** Whatever the incarnations and the destination are called,
    one name stands for one set of ranges. -/
theorem flushName_inj {cfg : SinkConfig} {uuid uuid' : Uuid} {offsets offsets' : Identity}
    (hplain : PlainTopics offsets) (hplain' : PlainTopics offsets')
    (h : flushName cfg (some uuid) offsets = flushName cfg (some uuid') offsets') :
    offsets.Perm offsets' := by
  have hranges : ∀ o : Identity, PlainTopics o →
      ∀ r ∈ (o.map loopRange).insertionSort (keyLe FlushRange.order), ':' ∉ r.1.toList ∧ '\n' ∉ r.1.toList := by
    intro o ho r hr
    obtain ⟨entry, hentry, rfl⟩ := List.mem_map.1 ((List.perm_insertionSort _ _).mem_iff.1 hr)
    exact ho entry hentry
  have hlines : ∀ (u : Uuid) (o : Identity), PlainTopics o → ∀ s ∈ toString u ::
      ((o.map loopRange).insertionSort (keyLe FlushRange.order)).map FlushRange.text, '\n' ∉ s.toList := by
    intro u o ho s hs
    rcases List.mem_cons.1 hs with rfl | hs
    · exact notMem_toString (n := u) (by decide) (by decide)
    · obtain ⟨r, hr, rfl⟩ := List.mem_map.1 hs
      exact newline_notMem_range (hranges o ho r hr).2
  simp only [flushName_eq, keyName, Destination.text, String.intercalate_cons_append] at h
  have hall := intercalate_inj rfl (hlines uuid offsets hplain) (hlines uuid' offsets' hplain') (by simp)
    (by simp) (String.append_right_inj _ |>.1 h)
  have hsame := ranges_text_inj (fun r hr => (hranges offsets hplain r hr).1)
    (fun r hr => (hranges offsets' hplain' r hr).1) (List.cons.inj hall).2
  rw [insertionSort_keyLe_eq_iff order_injective] at hsame
  exact (List.map_perm_map_iff loopRange_injective).1 hsame

end Millpond.Hoglake
