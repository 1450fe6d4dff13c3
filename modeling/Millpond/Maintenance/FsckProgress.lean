import Millpond.Maintenance.FsckSafety
import Mathlib.Data.Finset.Card
import Mathlib.Data.Finset.Filter

set_option autoImplicit false

/-! # The cleanup comes to an end

An attempt of `cleanup_all_safe` that fails has deleted an object that the queue names twice, or met
trouble of its own. The next attempt heals the rows of what is gone, so in a steady lake there are no
more attempts than objects named twice, troubles, and one. -/

namespace Millpond.Maintenance

open Prog Autocommit

variable {root : String} {paths : List String} {l l' : Lake} {n : ℕ}

/-! ## A steady lake -/

/-- The gates of `heal_orphans` are open: a file is live, and nothing live has to do with the queue. An
    absolute path is not also that of an object under the data path. -/
structure Open (root : String) (l : Lake) : Prop where
  live : liveDataFiles l ≠ []
  apart : ∀ f ∈ liveDataFiles l, absPath root f.path ∉ queueKeys root l.queue
  vectors : ∀ f ∈ l.catalog.deleteFiles.rows, f.endSnapshot.isNone = true →
    f.dataFileId ∉ l.queue.map Scheduled.dataFileId
  single : ∀ row ∈ l.queue, isAbsolute row.path = true → ∀ file ∈ l.objects,
    isListed root file = true → file ≠ rooted root row.path

/-- The others leave the queue and the objects of `paths` alone, and the gates open. -/
structure Steady (root : String) (paths : List String) (l l' : Lake) : Prop where
  queue : l'.queue = l.queue
  objects : ∀ path ∈ paths, ∀ file, names root path file = true →
    (file ∈ l'.objects ↔ file ∈ l.objects)
  opens : Open root l → Open root l'

/-- The keys that the queue names more than once and whose object is there. -/
def repeated (root : String) (l : Lake) : Finset String :=
  (queueKeys root l.queue).toFinset.filter fun key =>
    2 ≤ (queueKeys root l.queue).count key ∧ key ∈ l.objects

theorem mem_repeated {key : String} : key ∈ repeated root l ↔
    2 ≤ (queueKeys root l.queue).count key ∧ key ∈ l.objects := by
  simp only [repeated, Finset.mem_filter, List.mem_toFinset]
  constructor
  · exact fun h => h.2
  · exact fun h => ⟨List.count_pos_iff.1 (by omega), h⟩

/-- Every key of the queue has its object. -/
def Present (root : String) (l : Lake) : Prop := ∀ key ∈ queueKeys root l.queue, key ∈ l.objects

/-- What holds between the statements of a run that started with these paths in the queue. -/
structure Due (root : String) (paths : List String) (n : ℕ) (l : Lake) : Prop where
  opens : Open root l
  within : ∀ row ∈ l.queue, row.path ∈ paths
  accounted : ∀ path ∈ paths, isListed root (absPath root path) = true →
    Accounted root (absPath root path) l
  bound : (repeated root l).card ≤ n

theorem queueKeys_steady (h : Steady root paths l l') :
    queueKeys root l'.queue = queueKeys root l.queue := congrArg (queueKeys root) h.queue

theorem mem_objects_steady (h : Steady root paths l l') (hwithin : ∀ row ∈ l.queue, row.path ∈ paths)
    {key : String} (hkey : key ∈ queueKeys root l.queue) : key ∈ l'.objects ↔ key ∈ l.objects := by
  obtain ⟨row, hrow, rfl⟩ := mem_queueKeys.1 hkey
  exact h.objects row.path (hwithin row hrow) _ (names_absPath root row.path)

theorem Present.steady (hp : Present root l) (hwithin : ∀ row ∈ l.queue, row.path ∈ paths)
    (h : Steady root paths l l') : Present root l' := by
  intro key hkey
  rw [queueKeys_steady h] at hkey
  exact (mem_objects_steady h hwithin hkey).2 (hp key hkey)

theorem repeated_steady (h : Steady root paths l l') (hwithin : ∀ row ∈ l.queue, row.path ∈ paths) :
    repeated root l' = repeated root l := by
  ext key
  rw [mem_repeated, mem_repeated, queueKeys_steady h]
  refine and_congr_right fun hcount => mem_objects_steady h hwithin ?_
  exact List.count_pos_iff.1 (by omega)

theorem Due.steady (hd : Due root paths n l) (h : Steady root paths l l') : Due root paths n l' where
  opens := h.opens hd.opens
  within := by
    rw [h.queue]
    exact hd.within
  accounted path hpath hlisted := by
    rcases hd.accounted path hpath hlisted with hgone | hqueued
    · exact Or.inl fun hin => hgone ((h.objects path hpath _ (names_absPath root path)).1 hin)
    · refine Or.inr ?_
      rwa [queueKeys_steady h]
  bound := by
    rw [repeated_steady h hd.within]
    exact hd.bound

theorem findCatalogOrphans_steady (h : Steady root paths l l')
    (hwithin : ∀ row ∈ l.queue, row.path ∈ paths) :
    findCatalogOrphans root l' = findCatalogOrphans root l := by
  unfold findCatalogOrphans
  rw [h.queue]
  refine List.filter_congr fun row hrow => congrArg not ?_
  rw [Bool.eq_iff_iff, List.any_eq_true, List.any_eq_true]
  refine exists_congr fun file => and_congr_left fun hfile => ?_
  exact h.objects row.path (hwithin row hrow) file (Bool.and_eq_true_iff.1 hfile).2

/-! ## The steps of the run -/

/-- A step of a run leaves the file tables alone, and the queue and the bucket shrink. -/
structure Shrinks (l l' : Lake) : Prop where
  dataFiles : l'.catalog.dataFiles = l.catalog.dataFiles
  deleteFiles : l'.catalog.deleteFiles = l.catalog.deleteFiles
  queue : l'.queue.Sublist l.queue
  objects : ∀ key ∈ l'.objects, key ∈ l.objects

theorem FsckStep.shrinks {env : FsckEnv} (hstep : FsckStep env l l') : Shrinks l l' := by
  cases hstep with
  | lock => exact ⟨rfl, rfl, .refl _, fun _ h => h⟩
  | dedup => exact ⟨rfl, rfl, keepFirst_sublist [] l.queue, fun _ h => h⟩
  | heal paths gone => exact ⟨rfl, rfl, List.filter_sublist, fun _ h => h⟩
  | clean attempt =>
      unfold Lake.cleaned
      split
      · exact ⟨rfl, rfl, List.nil_sublist _, fun _ => List.mem_of_mem_filter⟩
      · exact ⟨rfl, rfl, .refl _, fun _ => List.mem_of_mem_filter⟩
  | sweep => exact ⟨rfl, rfl, .refl _, fun _ => List.mem_of_mem_filter⟩

theorem repeated_shrinks (h : Shrinks l l') : repeated root l' ⊆ repeated root l := by
  intro key hkey
  rw [mem_repeated] at hkey ⊢
  exact ⟨hkey.1.trans ((h.queue.map _).count_le key), h.objects key hkey.2⟩

theorem Open.shrinks (ho : Open root l) (h : Shrinks l l') : Open root l' := by
  have hlive : liveDataFiles l' = liveDataFiles l := by
    unfold liveDataFiles
    rw [h.dataFiles]
  refine ⟨hlive ▸ ho.live, fun f hf hq => ?_, fun f hf hnone hq => ?_, fun row hrow habs file hfile => ?_⟩
  · exact ho.apart f (hlive ▸ hf) ((h.queue.map _).subset hq)
  · rw [h.deleteFiles] at hf
    exact ho.vectors f hf hnone ((h.queue.map _).subset hq)
  · exact ho.single row (h.queue.subset hrow) habs file (h.objects file hfile)

theorem Due.fsckStep {env : FsckEnv} (hlaws : env.Lawful) (hd : Due env.root paths n l)
    (hstep : FsckStep env l l') : Due env.root paths n l' where
  opens := hd.opens.shrinks hstep.shrinks
  within row hrow := hd.within row (hstep.shrinks.queue.subset hrow)
  accounted path hpath hlisted := (hd.accounted path hpath hlisted).fsckStep hlaws hlisted hstep
  bound := (Finset.card_le_card (repeated_shrinks hstep.shrinks)).trans hd.bound

/-! ## Healing -/

theorem isAbsolute_of_isListed {file : String} (hroot : isAbsolute root = true)
    (hlisted : isListed root file = true) : isAbsolute file = true := by
  have hprefix : root.toList <+: file.toList := by
    have hlong := List.isPrefixOf_iff_prefix.1 (Bool.and_eq_true_iff.1 hlisted).1
    refine .trans ?_ hlong
    simp only [rooted, String.toList_append, List.append_assoc]
    exact List.prefix_append _ _
  unfold isAbsolute at hroot ⊢
  simp only [Bool.or_eq_true, List.isPrefixOf_iff_prefix] at hroot ⊢
  exact hroot.imp (·.trans hprefix) (·.trans hprefix)

/-- A row that is no orphan has its object. -/
theorem mem_objects_of_not_orphan {row : Scheduled} (hroot : isAbsolute root = true)
    (ho : Open root l) (hrow : row ∈ l.queue) (h : row ∉ findCatalogOrphans root l) :
    absPath root row.path ∈ l.objects := by
  have hsome : ∃ file ∈ l.objects, isListed root file = true ∧ names root row.path file = true := by
    by_contra hnone
    refine h (mem_findCatalogOrphans.2 ⟨hrow, fun file hfile hlisted => ?_⟩)
    rw [← Bool.not_eq_true]
    exact fun hnames => hnone ⟨file, hfile, hlisted, hnames⟩
  obtain ⟨file, hfile, hlisted, hnames⟩ := hsome
  have hform : file = row.path ∨ file = rooted root row.path := by simpa [names] using hnames
  unfold absPath
  split
  · next habs =>
      rcases hform with rfl | rfl
      · exact hfile
      · exact absurd rfl (ho.single row hrow habs _ hfile hlisted)
  · next hrel =>
      rcases hform with rfl | rfl
      · exact absurd (isAbsolute_of_isListed hroot hlisted) hrel
      · exact hfile

/-- What healing leaves has its objects. -/
theorem present_unscheduled (hroot : isAbsolute root = true) (ho : Open root l) :
    Present root (l.unscheduled ((findCatalogOrphans root l).map Scheduled.path)) := by
  intro key hkey
  obtain ⟨row, hrow, rfl⟩ := mem_queueKeys.1 hkey
  obtain ⟨hqueued, hpath⟩ := List.mem_filter.1 hrow
  have hin : absPath root row.path ∈ l.objects :=
    mem_objects_of_not_orphan hroot ho hqueued fun horphan =>
      of_decide_eq_true hpath (List.mem_map_of_mem horphan)
  exact hin

theorem healOrphansB1Counts_open (ho : Open root l) :
    (healOrphansB1Counts root (findCatalogOrphans root l) l).1 ≠ 0 ∧
      (healOrphansB1Counts root (findCatalogOrphans root l) l).2 = 0 := by
  refine ⟨fun h => ho.live (List.eq_nil_of_length_eq_zero h), ?_⟩
  refine List.length_eq_zero_iff.2 (List.filter_eq_nil_iff.2 fun f hf hin => ho.apart f hf ?_)
  have hsub : (findCatalogOrphans root l).Sublist l.queue := List.filter_sublist
  exact (hsub.map _).subset (of_decide_eq_true hin)

theorem deleteVectorRefs_open (ho : Open root l) :
    deleteVectorRefs (findCatalogOrphans root l) l = 0 := by
  refine List.length_eq_zero_iff.2 (List.filter_eq_nil_iff.2 fun f hf hin => ?_)
  obtain ⟨hnone, hid⟩ := Bool.and_eq_true_iff.1 hin
  have hsub : (findCatalogOrphans root l).Sublist l.queue := List.filter_sublist
  exact ho.vectors f hf hnone ((hsub.map _).subset (of_decide_eq_true hid))

/-! ## The attempts -/

section Attempts

variable {env : FsckEnv} {s : Session Lake FsckError} {E : FsckError → Lake → Prop}

/-- Why a cleanup fails: trouble at this attempt, a key of the queue without an object, or one named
    twice whose object it deleted itself. -/
def FsckEnv.Explained (env : FsckEnv) (troubled : ℕ → Bool) : Prop :=
  ∀ attempt l e, (env.cleanupOldFiles attempt l).2 = .error e → e = .io ∧
    (troubled attempt = true ∨ (∃ key ∈ queueKeys env.root l.queue, key ∉ l.objects) ∨
      ∃ key ∈ (env.cleanupOldFiles attempt l).1, 2 ≤ (queueKeys env.root l.queue).count key)

theorem due_stable (c d : Lake) (hc : Due env.root paths n c) (h : Steady env.root paths c d) :
    Due env.root paths n d := hc.steady h

theorem ends_acquireAdvisoryLock {I : Lake → Prop} (hfree : ∀ l, env.lockFree l = true)
    (hs : s.Calm (Steady env.root paths)) (hstable : ∀ c d, I c → Steady env.root paths c d → I d)
    (hlock : ∀ c : Lake, I c → I { c with locked := true }) (h : I s.state) :
    Ends (Steady env.root paths) (acquireAdvisoryLock env) (fun _ => I) E s := by
  unfold acquireAdvisoryLock
  simp only [hfree, Bool.or_true, if_true]
  refine ends_bind (J := fun held l => held = true ∧ I l) (ends_call hs hstable h ?_ ?_)
    fun held t ht ⟨hheld, hI⟩ => ends_ite (fun _ => ends_pure ht hI) fun hnot => absurd hheld hnot
  · rintro c held d hc hrun
    cases hrun
    exact ⟨rfl, hlock c hc⟩
  · rintro c e d hc hrun
    cases hrun

theorem ends_dedupDeletions (hlaws : env.Lawful) (hfree : ∀ l, env.lockFree l = true)
    (hs : s.Calm (Steady env.root paths)) (h : Due env.root paths n s.state) :
    Ends (Steady env.root paths) (dedupDeletions env false) (fun _ => Due env.root paths n) E s := by
  unfold dedupDeletions
  refine ends_bind (J := fun _ => Due env.root paths n) (ends_query hs due_stable h fun _ h => h)
    fun dups t ht h => ends_ite (fun _ => ends_pure ht h) fun _ => ?_
  refine ends_bind (ends_acquireAdvisoryLock hfree ht due_stable
    (fun c hc => hc.fsckStep hlaws (.lock c)) h) fun _ u hu h => ?_
  refine ends_bind (J := fun _ => Due env.root paths n) (ends_exec hu due_stable h
    fun c hc => hc.fsckStep hlaws (.dedup c)) fun _ v hv h => ?_
  exact ends_bind (ends_query hv due_stable h fun _ h => h) fun _ _ ht h => ends_pure ht h

theorem ends_requireDataPath (hroot : isAbsolute env.root = true) {I : Lake → Prop}
    (hs : s.Calm (Steady env.root paths)) (h : I s.state) :
    Ends (Steady env.root paths) (requireDataPath env) (fun _ => I) E s := by
  refine ends_ite (fun hempty => ?_) fun _ => ends_pure hs h
  rw [FsckEnv.root, String.isEmpty_iff.1 hempty] at hroot
  exact absurd hroot (by decide +kernel)

/-- Between the statements of `heal_orphans`, the orphans it found are those there are. -/
structure Healing (root : String) (paths : List String) (n : ℕ) (orphans : List Scheduled) (l : Lake) :
    Prop where
  due : Due root paths n l
  found : orphans = findCatalogOrphans root l

theorem healing_stable (orphans : List Scheduled) (c d : Lake)
    (hc : Healing env.root paths n orphans c) (h : Steady env.root paths c d) :
    Healing env.root paths n orphans d :=
  ⟨hc.due.steady h, hc.found.trans (findCatalogOrphans_steady h hc.due.within).symm⟩

/-- Between healing and the cleanup. -/
structure Healed (root : String) (paths : List String) (n : ℕ) (l : Lake) : Prop where
  due : Due root paths n l
  present : Present root l

theorem healed_stable (c d : Lake) (hc : Healed env.root paths n c) (h : Steady env.root paths c d) :
    Healed env.root paths n d := ⟨hc.due.steady h, hc.present.steady hc.due.within h⟩

theorem ends_healOrphans (hlaws : env.Lawful) (hroot : isAbsolute env.root = true)
    (hfree : ∀ l, env.lockFree l = true) (hs : s.Calm (Steady env.root paths))
    (h : Due env.root paths n s.state) :
    Ends (Steady env.root paths) (healOrphans env false) (fun _ => Healed env.root paths n) E s := by
  unfold healOrphans
  refine ends_bind (ends_requireDataPath hroot hs h) fun _ s₁ hs₁ h₁ => ?_
  refine ends_bind (J := fun _ => Due env.root paths n) ?_ fun _ s₂ hs₂ h₂ => ?_
  · exact ends_acquireAdvisoryLock hfree hs₁ due_stable (fun c hc => hc.fsckStep hlaws (.lock c)) h₁
  refine ends_bind (J := Healing env.root paths n) (ends_query hs₂ due_stable h₂ fun c hc => ⟨hc, rfl⟩)
    fun orphans s₃ hs₃ h₃ => ends_ite (fun hempty => ends_pure hs₃ ⟨h₃.due, ?_⟩) fun _ => ?_
  · -- no row is an orphan
    intro key hkey
    obtain ⟨row, hrow, rfl⟩ := mem_queueKeys.1 hkey
    refine mem_objects_of_not_orphan hroot h₃.due.opens hrow ?_
    rw [← h₃.found, List.isEmpty_iff.1 hempty]
    exact List.not_mem_nil
  have hstable := @healing_stable paths n env orphans
  refine ends_bind (J := fun counts l => (counts.1 ≠ 0 ∧ counts.2 = 0) ∧
    Healing env.root paths n orphans l) (ends_query hs₃ hstable h₃ fun c hc => ⟨?_, hc⟩)
    fun counts s₄ hs₄ ⟨hcounts, h₄⟩ => ?_
  · rw [hc.found]
    exact healOrphansB1Counts_open hc.due.opens
  refine ends_ite (fun hzero => absurd (beq_iff_eq.1 hzero) hcounts.1) fun _ =>
    ends_ite (fun hpos => absurd hcounts.2 (Nat.pos_iff_ne_zero.1 hpos)) fun _ => ?_
  refine ends_bind (J := fun refs l => refs = 0 ∧ Healing env.root paths n orphans l)
    (ends_query hs₄ hstable h₄ fun c hc => ⟨?_, hc⟩) fun refs s₅ hs₅ ⟨hrefs, h₅⟩ => ?_
  · rw [hc.found]
    exact deleteVectorRefs_open hc.due.opens
  refine ends_ite (fun hpos => absurd hrefs (Nat.pos_iff_ne_zero.1 hpos)) fun _ =>
    ends_ite (fun hdry => absurd hdry Bool.false_ne_true) fun _ => ?_
  refine ends_bind (J := fun _ => Healed env.root paths n) (ends_exec hs₅ hstable h₅ fun c hc => ?_)
    fun _ s₆ hs₆ h₆ => ?_
  · rw [hc.found]
    exact ⟨hc.due.fsckStep hlaws (.heal c _ (gone_findCatalogOrphans env.root c)),
      present_unscheduled hroot hc.due.opens⟩
  · exact ends_bind (ends_query hs₆ healed_stable h₆ fun _ h => h) fun _ _ ht h => ends_pure ht h

/-- A cleanup that meets no trouble and fails has one key less that is named twice. -/
theorem Healed.failed {troubled : ℕ → Bool} {attempt : ℕ} {e : FsckError}
    (hexplained : env.Explained troubled) (h : Healed env.root paths n l)
    (herror : (env.cleanupOldFiles attempt l).2 = .error e) (hcalm : troubled attempt = false) :
    (repeated env.root (l.without (env.cleanupOldFiles attempt l).1)).card < n := by
  obtain ⟨-, htrouble | ⟨key, hkey, hmissing⟩ | ⟨key, hdeleted, htwice⟩⟩ := hexplained attempt l e herror
  · rw [hcalm] at htrouble
    cases htrouble
  · exact absurd (h.present key hkey) hmissing
  · refine lt_of_lt_of_le (Finset.card_lt_card ?_) h.due.bound
    have hshrinks : Shrinks l (l.without (env.cleanupOldFiles attempt l).1) :=
      ⟨rfl, rfl, .refl _, fun _ => List.mem_of_mem_filter⟩
    refine (Finset.ssubset_iff_of_subset (repeated_shrinks hshrinks)).2 ⟨key, ?_, fun hin => ?_⟩
    · exact mem_repeated.2 ⟨htwice, h.present key (List.count_pos_iff.1 (by omega))⟩
    · exact of_decide_eq_true (List.mem_filter.1 (mem_repeated.1 hin).2).2 hdeleted

/-- How the cleanup ends: the queue is empty, or it failed for one of its reasons. -/
theorem ends_cleanupAll (hlaws : env.Lawful) {troubled : ℕ → Bool} (hexplained : env.Explained troubled)
    (hfree : ∀ l, env.lockFree l = true) (attempt : ℕ) (hs : s.Calm (Steady env.root paths))
    (h : Healed env.root paths n s.state) :
    Ends (Steady env.root paths) (cleanupAll env attempt)
      (fun _ l => l.queue = [] ∧ Due env.root paths n l)
      (fun e l => e = .io ∧ Due env.root paths n l ∧
        (troubled attempt = false → (repeated env.root l).card < n)) s := by
  unfold cleanupAll
  refine ends_bind (ends_acquireAdvisoryLock hfree hs healed_stable
    (fun c hc => ⟨hc.due.fsckStep hlaws (.lock c), hc.present⟩) h) fun _ t ht h => ?_
  refine ends_bind (J := fun _ l => l.queue = [] ∧ Due env.root paths n l)
    (ends_call ht healed_stable h ?_ ?_) fun _ u hu h => ?_
  · intro c a d hc hrun
    have hdue : Due env.root paths n (c.cleaned (env.cleanupOldFiles attempt c)).1 :=
      hc.due.fsckStep hlaws (.clean c attempt)
    rw [hrun] at hdue
    unfold Lake.cleaned at hrun
    split at hrun
    · cases hrun
      exact ⟨rfl, hdue⟩
    · cases hrun
  · intro c e d hc hrun
    have hdue : Due env.root paths n (c.cleaned (env.cleanupOldFiles attempt c)).1 :=
      hc.due.fsckStep hlaws (.clean c attempt)
    rw [hrun] at hdue
    unfold Lake.cleaned at hrun
    split at hrun
    · cases hrun
    · next herror =>
        cases hrun
        exact ⟨(hexplained attempt c _ herror).1, hdue, hc.failed hexplained herror⟩
  · refine ends_bind (J := fun _ l => l.queue = [] ∧ Due env.root paths n l)
      (ends_query hu (fun c d hc hsteady => ?_) h fun _ h => h) fun _ _ ht h => ends_pure ht h
    exact ⟨hsteady.queue.trans hc.1, hc.2.steady hsteady⟩

theorem ends_cleanupAttempts (hlaws : env.Lawful) {troubled : ℕ → Bool}
    (hexplained : env.Explained troubled) (hroot : isAbsolute env.root = true)
    (hfree : ∀ l, env.lockFree l = true) (maxIterations left : ℕ) :
    ∀ (attempt n : ℕ) (s : Session Lake FsckError), s.Calm (Steady env.root paths) →
      Due env.root paths n s.state → n + (List.range' attempt left).countP troubled < left →
      Ends (Steady env.root paths) (cleanupAttempts env maxIterations attempt left)
        (fun _ l => l.queue = [] ∧ ∃ n, Due env.root paths n l) (fun _ _ => False) s := by
  induction left with
  | zero => exact fun _ _ _ _ _ hbound => absurd hbound (Nat.not_lt_zero _)
  | succ left ih =>
      intro attempt n s hs h hbound
      unfold cleanupAttempts
      refine ends_bind (ends_dedupDeletions hlaws hfree hs h) fun _ s₁ hs₁ h₁ => ?_
      refine ends_bind (ends_healOrphans hlaws hroot hfree hs₁ h₁) fun _ s₂ hs₂ h₂ => ?_
      refine ends_bind (J := fun clean l => Due env.root paths n l ∧
          (clean = true ∧ l.queue = [] ∨ clean = false ∧
            (troubled attempt = false → (repeated env.root l).card < n)))
        (ends_tryCatch (ends_bind (ends_cleanupAll hlaws hexplained hfree attempt hs₂ h₂)
          fun _ t ht h => ends_pure ht ⟨h.2, Or.inl ⟨rfl, h.1⟩⟩)
          fun e t ht he => ?_) fun clean s₃ hs₃ h₃ => ?_
      · obtain ⟨rfl, hdue, hless⟩ := he
        exact ends_pure ht ⟨hdue, Or.inr ⟨rfl, hless⟩⟩
      rcases h₃ with ⟨hdue, ⟨rfl, hempty⟩ | ⟨rfl, hless⟩⟩
      · exact ends_pure hs₃ ⟨hempty, n, hdue⟩
      -- another attempt, with one trouble or one key named twice less to come
      rw [List.range'_succ, List.countP_cons] at hbound
      cases htrouble : troubled attempt with
      | true =>
          rw [htrouble, if_pos rfl] at hbound
          exact ih (attempt + 1) n s₃ hs₃ hdue (by omega)
      | false =>
          rw [htrouble, if_neg Bool.false_ne_true] at hbound
          have hcard := hless htrouble
          exact ih (attempt + 1) (n - 1) s₃ hs₃
            ⟨hdue.opens, hdue.within, hdue.accounted, by omega⟩ (by omega)

end Attempts

/-- **The cleanup comes to an end.** In a steady lake, when fewer objects are named twice and fewer
    attempts meet trouble than `max_iterations`, `cleanup_all_safe` raises nothing, the queue is empty,
    and every object under the data path that it named is deleted. -/
theorem cleanupAllSafe_converges (env : FsckEnv) (hlaws : env.Lawful) (troubled : ℕ → Bool)
    (hexplained : env.Explained troubled) (hroot : isAbsolute env.root = true)
    (hfree : ∀ l, env.lockFree l = true) (maxIterations : ℕ) (s : Session Lake FsckError)
    (hs : s.Calm (Steady env.root (s.state.queue.map Scheduled.path))) (hopen : Open env.root s.state)
    (hbound : (repeated env.root s.state).card + (List.range' 1 maxIterations).countP troubled <
      maxIterations) :
    wp (cleanupAllSafe env maxIterations)
      (fun _ t => t.state.queue = [] ∧ ∀ key ∈ queueKeys env.root s.state.queue,
        isListed env.root key = true → key ∉ t.state.objects) (fun _ _ => False) s := by
  have hdue : Due env.root (s.state.queue.map Scheduled.path) (repeated env.root s.state).card s.state := by
    refine ⟨hopen, fun row hrow => List.mem_map_of_mem hrow, fun path hpath _ => Or.inr ?_, le_refl _⟩
    obtain ⟨row, hrow, rfl⟩ := List.mem_map.1 hpath
    exact mem_queueKeys.2 ⟨row, hrow, rfl⟩
  have hends : Ends (Steady env.root (s.state.queue.map Scheduled.path))
      (cleanupAllSafe env maxIterations) (fun _ l => l.queue = [] ∧
        ∃ n, Due env.root (s.state.queue.map Scheduled.path) n l) (fun _ _ => False) s := by
    unfold cleanupAllSafe
    refine ends_bind (ends_acquireAdvisoryLock hfree hs due_stable
      (fun c hc => hc.fsckStep hlaws (.lock c)) hdue) fun _ t ht h => ?_
    exact ends_cleanupAttempts hlaws hexplained hroot hfree maxIterations maxIterations 1 _ t ht h hbound
  refine wp_mono hends (fun _ t h => ⟨h.2.1, fun key hkey hlisted => ?_⟩) fun _ _ h => h.2
  obtain ⟨-, hempty, n, hend⟩ := h
  obtain ⟨row, hrow, rfl⟩ := mem_queueKeys.1 hkey
  refine (hend.accounted row.path (List.mem_map_of_mem hrow) hlisted).resolve_right ?_
  rw [hempty]
  exact List.not_mem_nil

/-- A cleanup that deletes key by key and stops at one without an object. -/
def deleteEach : List String → List String → List String × Except FsckError Unit
  | [], _ => ([], .ok ⟨⟩)
  | key :: rest, objects =>
      if key ∈ objects then
        let (deleted, result) := deleteEach rest (objects.filter (· ≠ key))
        (key :: deleted, result)
      else ([], .error .io)

theorem deleteEach_subset (keys : List String) :
    ∀ objects, ∀ key ∈ (deleteEach keys objects).1, key ∈ keys := by
  induction keys with
  | nil => exact fun _ _ h => h
  | cons first rest ih =>
      intro objects key hkey
      unfold deleteEach at hkey
      split at hkey
      · rcases List.mem_cons.1 hkey with rfl | hrest
        · exact List.mem_cons_self
        · exact List.mem_cons_of_mem _ (ih _ key hrest)
      · cases hkey

theorem deleteEach_complete (keys : List String) :
    ∀ objects, (deleteEach keys objects).2 = .ok ⟨⟩ → ∀ key ∈ keys, key ∈ (deleteEach keys objects).1 := by
  induction keys with
  | nil => exact fun _ _ _ h => h
  | cons first rest ih =>
      intro objects hok key hkey
      unfold deleteEach at hok ⊢
      split at hok
      · next hin =>
          rw [if_pos hin]
          rcases List.mem_cons.1 hkey with rfl | hrest
          · exact List.mem_cons_self
          · exact List.mem_cons_of_mem _ (ih _ hok key hrest)
      · cases hok

theorem deleteEach_explained (keys : List String) : ∀ objects e,
    (deleteEach keys objects).2 = .error e → e = .io ∧
      ((∃ key ∈ keys, key ∉ objects) ∨ ∃ key ∈ (deleteEach keys objects).1, 2 ≤ keys.count key) := by
  induction keys with
  | nil => exact fun _ _ h => by cases h
  | cons first rest ih =>
      intro objects e herror
      unfold deleteEach at herror ⊢
      split at herror
      · next hin =>
          rw [if_pos hin]
          obtain ⟨he, ⟨key, hkey, hmissing⟩ | ⟨key, hdeleted, htwice⟩⟩ := ih _ e herror
          · refine ⟨he, ?_⟩
            by_cases hfirst : key = first
            · refine Or.inr ⟨first, List.mem_cons_self, ?_⟩
              rw [List.count_cons_self]
              have := List.count_pos_iff.2 (hfirst ▸ hkey)
              omega
            · refine Or.inl ⟨key, List.mem_cons_of_mem _ hkey, fun hobject => hmissing ?_⟩
              exact List.mem_filter.2 ⟨hobject, decide_eq_true hfirst⟩
          · refine ⟨he, Or.inr ⟨key, List.mem_cons_of_mem _ hdeleted, htwice.trans ?_⟩⟩
            exact (List.sublist_cons_self first rest).count_le key
      · next hnot =>
          cases herror
          exact ⟨rfl, Or.inl ⟨first, List.mem_cons_self, hnot⟩⟩

def keyByKeyEnv : FsckEnv where
  dataPath := some "s3://b/"
  lockFree _ := true
  cleanupOldFiles _ l := deleteEach (queueKeys (rtrimSlashes "s3://b/") l.queue) l.objects
  deleteOrphanedFiles _ := ([], .ok ⟨⟩)

theorem keyByKeyEnv_lawful : keyByKeyEnv.Lawful where
  queued _ _ := deleteEach_subset _ _
  complete _ _ := deleteEach_complete _ _
  swept _ _ h := absurd h List.not_mem_nil

/-- The queue names one object by its relative and by its absolute path. -/
def namedTwice : Session Lake FsckError where
  state := {
    catalog := { endedFile (fun i => i) [⟨4, "old.parquet", true⟩, ⟨4, "s3://b/old.parquet", false⟩] with
      dataFiles := ⟨[⟨7, 1, 1, none, "a.parquet", true, none, none, none⟩], by decide⟩ }
    objects := ["s3://b/a.parquet", "s3://b/old.parquet"]
    locked := false }
  others _ l := l
  fates _ := none
  clock := 0

theorem namedTwice_converges : wp (cleanupAllSafe keyByKeyEnv 2)
    (fun _ t => t.state.queue = [] ∧ ∀ key ∈ queueKeys keyByKeyEnv.root namedTwice.state.queue,
      isListed keyByKeyEnv.root key = true → key ∉ t.state.objects) (fun _ _ => False) namedTwice :=
  cleanupAllSafe_converges keyByKeyEnv keyByKeyEnv_lawful (fun _ => false)
    (fun _ _ _ herror => (deleteEach_explained _ _ _ herror).imp_right Or.inr) (by decide +kernel)
    (fun _ => rfl) 2 namedTwice ⟨fun _ _ => ⟨rfl, fun _ _ _ _ => Iff.rfl, fun h => h⟩, fun _ => rfl⟩
    ⟨by decide +kernel, by decide +kernel, by decide +kernel, by decide +kernel⟩ (by decide +kernel)

end Millpond.Maintenance
