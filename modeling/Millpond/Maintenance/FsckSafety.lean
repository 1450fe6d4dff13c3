import Millpond.Maintenance.ExpireSafety
import Millpond.Maintenance.Fsck

set_option autoImplicit false

/-! # No maintenance run deletes an object in use

The queue names no object that a row of the file tables names. Expiry moves a key from the file tables
to the queue in one commit, `fsck` deletes objects that the queue names, and other writers bring new
keys; so an object stays as long as a row names it. -/

namespace Millpond.Maintenance

open Prog Autocommit ReadCommitted

variable {root : String} {l l' : Lake}

/-! ## Keys -/

/-- The keys of the rows of the file tables. -/
def fileKeys (root : String) (c : Catalog) : List String :=
  (c.dataFiles.rows.map fun f => absPath root f.path) ++
    c.deleteFiles.rows.map fun f => absPath root f.path

/-- The keys of the queue. -/
def queueKeys (root : String) (queue : List Scheduled) : List String :=
  queue.map fun row => absPath root row.path

/-- A row of the file tables has its key to itself, its object is there, and the queue does not name
    it. -/
structure InUse (root : String) (objects : List String) (c : Catalog) : Prop where
  distinct : (fileKeys root c).Nodup
  apart : ∀ key ∈ fileKeys root c, key ∉ queueKeys root c.filesScheduledForDeletion
  backed : ∀ key ∈ fileKeys root c, key ∈ objects

def Lake.InUse (root : String) (l : Lake) : Prop := Maintenance.InUse root l.objects l.catalog

theorem mem_fileKeys {c : Catalog} {key : String} : key ∈ fileKeys root c ↔
    (∃ f ∈ c.dataFiles.rows, absPath root f.path = key) ∨
      ∃ f ∈ c.deleteFiles.rows, absPath root f.path = key := by
  simp only [fileKeys, List.mem_append, List.mem_map]

theorem mem_queueKeys {queue : List Scheduled} {key : String} :
    key ∈ queueKeys root queue ↔ ∃ row ∈ queue, absPath root row.path = key := List.mem_map

theorem queueKeys_append (queue rows : List Scheduled) :
    queueKeys root (queue ++ rows) = queueKeys root queue ++ queueKeys root rows := List.map_append

theorem InUse.eq_of_data {objects : List String} {c : Catalog} (h : InUse root objects c)
    {f g : DataFile} (hf : f ∈ c.dataFiles.rows) (hg : g ∈ c.dataFiles.rows)
    (hkey : absPath root f.path = absPath root g.path) : f = g :=
  List.inj_on_of_nodup_map (List.nodup_append.1 h.distinct).1 hf hg hkey

theorem InUse.eq_of_vector {objects : List String} {c : Catalog} (h : InUse root objects c)
    {f g : DeleteFile} (hf : f ∈ c.deleteFiles.rows) (hg : g ∈ c.deleteFiles.rows)
    (hkey : absPath root f.path = absPath root g.path) : f = g :=
  List.inj_on_of_nodup_map (List.nodup_append.1 h.distinct).2.1 hf hg hkey

theorem InUse.data_ne_vector {objects : List String} {c : Catalog} (h : InUse root objects c)
    {f : DataFile} {g : DeleteFile} (hf : f ∈ c.dataFiles.rows) (hg : g ∈ c.deleteFiles.rows) :
    absPath root f.path ≠ absPath root g.path :=
  (List.nodup_append.1 h.distinct).2.2 _ (List.mem_map_of_mem hf) _ (List.mem_map_of_mem hg)

/-- File rows go, and the queue takes up keys of theirs. -/
theorem InUse.retire {objects : List String} {c c' : Catalog} (h : InUse root objects c)
    {data : DataFile → Bool} {vectors : DeleteFile → Bool}
    (hdata : c'.dataFiles = c.dataFiles.delete data)
    (hvectors : c'.deleteFiles = c.deleteFiles.delete vectors)
    (hqueue : ∀ key ∈ queueKeys root c'.filesScheduledForDeletion,
      key ∈ queueKeys root c.filesScheduledForDeletion ∨
        (∃ f ∈ c.dataFiles.rows, data f = true ∧ absPath root f.path = key) ∨
        ∃ f ∈ c.deleteFiles.rows, vectors f = true ∧ absPath root f.path = key) :
    InUse root objects c' := by
  have hsub : (fileKeys root c').Sublist (fileKeys root c) := by
    unfold fileKeys
    rw [hdata, hvectors]
    exact (List.filter_sublist.map _).append (List.filter_sublist.map _)
  refine ⟨hsub.nodup h.distinct, fun key hkey hq => ?_, fun key hkey => h.backed key (hsub.subset hkey)⟩
  have hkept := mem_fileKeys.1 hkey
  rw [hdata, hvectors] at hkept
  simp only [Table.mem_delete] at hkept
  -- a key that came from a row that went is no longer that of a row
  rcases hqueue key hq with hold | ⟨f, hf, hgone, rfl⟩ | ⟨f, hf, hgone, rfl⟩
  · exact h.apart key (hsub.subset hkey) hold
  · rcases hkept with ⟨g, ⟨hg, hstays⟩, hpath⟩ | ⟨g, ⟨hg, -⟩, hpath⟩
    · rw [h.eq_of_data hg hf hpath, hgone] at hstays
      cases hstays
    · exact h.data_ne_vector hf hg hpath.symm
  · rcases hkept with ⟨g, ⟨hg, -⟩, hpath⟩ | ⟨g, ⟨hg, hstays⟩, hpath⟩
    · exact h.data_ne_vector hg hf hpath
    · rw [h.eq_of_vector hg hf hpath, hgone] at hstays
      cases hstays

/-- More objects do no harm. -/
theorem InUse.mono {objects objects' : List String} {c : Catalog} (h : InUse root objects c)
    (hsub : ∀ key ∈ objects, key ∈ objects') : InUse root objects' c :=
  ⟨h.distinct, h.apart, fun key hkey => hsub key (h.backed key hkey)⟩

/-! ## Other writers -/

/-- The files of a commit have new keys, and their objects are in the bucket. -/
structure Commit.Fresh (root : String) (objects : List String) (k : Commit) (c : Catalog) : Prop where
  distinct : ((k.dataFiles.map fun f => absPath root f.path) ++
    k.deleteFiles.map fun f => absPath root f.path).Nodup
  unused : ∀ key ∈ (k.dataFiles.map fun f => absPath root f.path) ++
    (k.deleteFiles.map fun f => absPath root f.path),
      key ∉ fileKeys root c ∧ key ∉ queueKeys root c.filesScheduledForDeletion ∧ key ∈ objects

theorem map_path_endedLive (c : Catalog) (ids : List ℕ) (snapshot : ℕ) :
    ((c.dataFiles.update (·.endedLive ids snapshot) (dataFile_endedLive_key _ _)).rows.map
      fun f => absPath root f.path) = c.dataFiles.rows.map fun f => absPath root f.path := by
  show ((c.dataFiles.rows.map (·.endedLive ids snapshot)).map fun f => absPath root f.path) = _
  rw [List.map_map]
  refine List.map_congr_left fun f _ => ?_
  simp only [Function.comp_apply, DataFile.endedLive, DataFile.ended]
  split_ifs <;> rfl

theorem map_path_endedLive_vector (c : Catalog) (ids : List ℕ) (snapshot : ℕ) :
    ((c.deleteFiles.update (·.endedLive ids snapshot) (deleteFile_endedLive_key _ _)).rows.map
      fun f => absPath root f.path) = c.deleteFiles.rows.map fun f => absPath root f.path := by
  show ((c.deleteFiles.rows.map (·.endedLive ids snapshot)).map fun f => absPath root f.path) = _
  rw [List.map_map]
  refine List.map_congr_left fun f _ => ?_
  simp only [Function.comp_apply, DeleteFile.endedLive]
  split_ifs <;> rfl

/-- The keys after a commit are those before it and some of the commit's. -/
theorem fileKeys_apply (root : String) (k : Commit) (c : Catalog) :
    ∃ data vectors, data.Sublist (k.dataFiles.map fun f => absPath root f.path) ∧
      vectors.Sublist (k.deleteFiles.map fun f => absPath root f.path) ∧
      (fileKeys root (k.apply c)).Perm (fileKeys root c ++ (data ++ vectors)) := by
  obtain ⟨data, hdata, hrows⟩ := Table.insertAll_rows
    (c.dataFiles.update (·.endedLive k.endedDataFiles k.snapshot.snapshotId)
      (dataFile_endedLive_key _ _)) k.dataFiles
  obtain ⟨vectors, hvectors, hrows'⟩ := Table.insertAll_rows
    (c.deleteFiles.update (·.endedLive k.endedDeleteFiles k.snapshot.snapshotId)
      (deleteFile_endedLive_key _ _)) k.deleteFiles
  refine ⟨_, _, hdata.map _, hvectors.map _, ?_⟩
  unfold fileKeys Commit.apply
  rw [hrows, hrows', List.map_append, List.map_append, map_path_endedLive, map_path_endedLive_vector]
  simp only [List.append_assoc]
  refine List.Perm.append_left _ ?_
  rw [← List.append_assoc, ← List.append_assoc]
  exact List.perm_append_comm.append_right _

theorem InUse.apply {objects : List String} {k : Commit} {c : Catalog} (h : InUse root objects c)
    (hk : k.Fresh root objects c) : InUse root objects (k.apply c) := by
  obtain ⟨data, vectors, hdata, hvectors, hperm⟩ := fileKeys_apply root k c
  have hsub := hdata.append hvectors
  refine ⟨hperm.nodup_iff.2 ?_, fun key hkey => ?_, fun key hkey => ?_⟩
  · refine List.nodup_append.2 ⟨h.distinct, hsub.nodup hk.distinct, fun key hold key' hnew heq => ?_⟩
    exact (hk.unused key' (hsub.subset hnew)).1 (heq ▸ hold)
  · rcases List.mem_append.1 (hperm.mem_iff.1 hkey) with hold | hnew
    · exact h.apart key hold
    · exact (hk.unused key (hsub.subset hnew)).2.1
  · rcases List.mem_append.1 (hperm.mem_iff.1 hkey) with hold | hnew
    · exact h.backed key hold
    · exact (hk.unused key (hsub.subset hnew)).2.2

/-- What another session does to the lake: a commit, an upload under new keys, or an expiry. -/
inductive Elsewhere (root : String) : Lake → Lake → Prop where
  | commit (l : Lake) (k : Commit) (fresh : k.Fresh root l.objects l.catalog) :
      Elsewhere root l { l with catalog := k.apply l.catalog }
  | upload (l : Lake) (keys : List String)
      (unnamed : ∀ key ∈ keys, ∀ row ∈ l.queue, names root row.path key = false) :
      Elsewhere root l { l with objects := l.objects ++ keys }
  | retire (l : Lake) (data : DataFile → Bool) (vectors : DeleteFile → Bool) (rows : List Scheduled)
      (retired : ∀ key ∈ queueKeys root rows,
        (∃ f ∈ l.catalog.dataFiles.rows, data f = true ∧ absPath root f.path = key) ∨
          ∃ f ∈ l.catalog.deleteFiles.rows, vectors f = true ∧ absPath root f.path = key) :
      Elsewhere root l { l with catalog := { l.catalog with
        dataFiles := l.catalog.dataFiles.delete data
        deleteFiles := l.catalog.deleteFiles.delete vectors
        filesScheduledForDeletion := l.queue ++ rows } }

/-- Any number of such steps. -/
def Others (root : String) : Lake → Lake → Prop := Relation.ReflTransGen (Elsewhere root)

theorem Others.invariant {I : Lake → Prop} (h : Others root l l')
    (hstep : ∀ c d, I c → Elsewhere root c d → I d) (hl : I l) : I l' := by
  induction h with
  | refl => exact hl
  | tail _ hnext ih => exact hstep _ _ ih hnext

theorem Lake.InUse.elsewhere (h : l.InUse root) (hstep : Elsewhere root l l') : l'.InUse root := by
  cases hstep with
  | commit k fresh => exact h.apply fresh
  | upload keys _ => exact h.mono fun key hkey => List.mem_append_left _ hkey
  | retire data vectors rows retired =>
      refine InUse.retire h rfl rfl fun key hkey => ?_
      rw [queueKeys_append] at hkey
      exact (List.mem_append.1 hkey).imp_right (retired key)

theorem Lake.InUse.others (h : l.InUse root) (hothers : Others root l l') : l'.InUse root :=
  hothers.invariant (I := Lake.InUse root) (fun _ _ => Lake.InUse.elsewhere) h

/-! ## The steps of fsck -/

/-- What the DuckLake calls promise: the cleanup deletes objects of the queue, all of them if it
    exits clean, and the sweep none that a row of the file tables names. -/
structure FsckEnv.Lawful (env : FsckEnv) : Prop where
  queued : ∀ attempt l, ∀ key ∈ (env.cleanupOldFiles attempt l).1, key ∈ queueKeys env.root l.queue
  complete : ∀ attempt l, (env.cleanupOldFiles attempt l).2 = .ok ⟨⟩ →
    ∀ key ∈ queueKeys env.root l.queue, key ∈ (env.cleanupOldFiles attempt l).1
  swept : ∀ l, ∀ key ∈ (env.deleteOrphanedFiles l).1, key ∉ fileKeys env.root l.catalog

/-- What one statement of a run does to the lake. -/
inductive FsckStep (env : FsckEnv) : Lake → Lake → Prop where
  | lock (l : Lake) : FsckStep env l { l with locked := true }
  | dedup (l : Lake) : FsckStep env l (l.withQueue (keepFirst [] l.queue))
  | heal (l : Lake) (paths : List String)
      (gone : ∀ row ∈ l.queue, row.path ∈ paths → row ∈ findCatalogOrphans env.root l) :
      FsckStep env l (l.unscheduled paths)
  | clean (l : Lake) (attempt : ℕ) : FsckStep env l (l.cleaned (env.cleanupOldFiles attempt l)).1
  | sweep (l : Lake) : FsckStep env l (l.without (env.deleteOrphanedFiles l).1)

theorem keepFirst_sublist (seen : List String) (rows : List Scheduled) :
    (keepFirst seen rows).Sublist rows := by
  induction rows generalizing seen with
  | nil => exact .slnil
  | cons row rest ih =>
      unfold keepFirst
      split
      · exact (ih seen).cons row
      · exact (ih _).cons_cons row

/-- A smaller queue does no harm. -/
theorem Lake.InUse.withQueue (h : l.InUse root) {rows : List Scheduled}
    (hsub : ∀ row ∈ rows, row ∈ l.queue) : (l.withQueue rows).InUse root :=
  ⟨h.distinct, fun key hkey hq => by
    obtain ⟨row, hrow, hpath⟩ := mem_queueKeys.1 hq
    exact h.apart key hkey (mem_queueKeys.2 ⟨row, hsub row hrow, hpath⟩), h.backed⟩

/-- Objects that no row of the file tables names may go. -/
theorem Lake.InUse.without (h : l.InUse root) {keys : List String}
    (hunused : ∀ key ∈ keys, key ∉ fileKeys root l.catalog) : (l.without keys).InUse root :=
  ⟨h.distinct, h.apart, fun key hkey =>
    List.mem_filter.2 ⟨h.backed key hkey, by simpa using fun hin => hunused key hin hkey⟩⟩

theorem Lake.InUse.fsckStep {env : FsckEnv} (hlaws : env.Lawful) (h : l.InUse env.root)
    (hstep : FsckStep env l l') : l'.InUse env.root := by
  cases hstep with
  | lock => exact ⟨h.distinct, h.apart, h.backed⟩
  | dedup => exact h.withQueue fun row hrow => (keepFirst_sublist [] l.queue).subset hrow
  | heal paths _ => exact h.withQueue fun row hrow => List.mem_of_mem_filter hrow
  | clean attempt =>
      have hunused : ∀ key ∈ (env.cleanupOldFiles attempt l).1, key ∉ fileKeys env.root l.catalog :=
        fun key hkey hfile => h.apart key hfile (hlaws.queued attempt l key hkey)
      unfold Lake.cleaned
      split
      · exact (h.withQueue fun row hrow => absurd hrow List.not_mem_nil).without hunused
      · exact h.without hunused
  | sweep => exact h.without (hlaws.swept l)

/-! ## A run goes in steps -/

/-- The rows of the queue with one of these paths are orphans. -/
def Gone (root : String) (paths : List String) (l : Lake) : Prop :=
  ∀ row ∈ l.queue, row.path ∈ paths → row ∈ findCatalogOrphans root l

theorem mem_findCatalogOrphans {row : Scheduled} : row ∈ findCatalogOrphans root l ↔
    row ∈ l.queue ∧ ∀ file ∈ l.objects, isListed root file = true → names root row.path file = false := by
  simp only [findCatalogOrphans, List.mem_filter, Bool.not_eq_true', List.any_eq_false,
    Bool.and_eq_true, not_and, Bool.not_eq_true]

/-- Whether a row is an orphan depends on its path alone. -/
theorem gone_findCatalogOrphans (root : String) (l : Lake) :
    Gone root ((findCatalogOrphans root l).map Scheduled.path) l := by
  intro row hrow hpath
  obtain ⟨orphan, horphan, heq⟩ := List.mem_map.1 hpath
  exact mem_findCatalogOrphans.2 ⟨hrow, heq ▸ (mem_findCatalogOrphans.1 horphan).2⟩

/-- What is gone stays gone: its key is not in use, so no other session queues it again, and new
    objects have new keys. -/
structure Healable (root : String) (paths : List String) (l : Lake) : Prop where
  inUse : l.InUse root
  gone : Gone root paths l
  queued : ∀ path ∈ paths, ∃ row ∈ l.queue, row.path = path

theorem Healable.elsewhere {paths : List String} (h : Healable root paths l)
    (hstep : Elsewhere root l l') : Healable root paths l' := by
  refine ⟨h.inUse.elsewhere hstep, ?_, ?_⟩
  · intro row hrow hpath
    cases hstep with
    | commit k fresh => exact mem_findCatalogOrphans.2 (mem_findCatalogOrphans.1 (h.gone row hrow hpath))
    | upload keys unnamed =>
        refine mem_findCatalogOrphans.2 ⟨hrow, fun file hfile hlisted => ?_⟩
        rcases List.mem_append.1 hfile with hold | hnew
        · exact (mem_findCatalogOrphans.1 (h.gone row hrow hpath)).2 file hold hlisted
        · exact unnamed file hnew row hrow
    | retire data vectors rows retired =>
        rcases List.mem_append.1 hrow with hold | hnew
        · have horphan := mem_findCatalogOrphans.1 (h.gone row hold hpath)
          exact mem_findCatalogOrphans.2 ⟨List.mem_append_left _ hold, horphan.2⟩
        · -- its key was in use, and that of the path is in the queue
          obtain ⟨orphan, horphan, heq⟩ := h.queued row.path hpath
          have hfile : absPath root row.path ∈ fileKeys root l.catalog := by
            refine mem_fileKeys.2 ((retired _ (mem_queueKeys.2 ⟨row, hnew, rfl⟩)).imp ?_ ?_)
            · exact fun ⟨f, hf, _, hkey⟩ => ⟨f, hf, hkey⟩
            · exact fun ⟨f, hf, _, hkey⟩ => ⟨f, hf, hkey⟩
          refine absurd (mem_queueKeys.2 ⟨orphan, horphan, ?_⟩) (h.inUse.apart _ hfile)
          rw [heq]
  · intro path hpath
    obtain ⟨row, hrow, heq⟩ := h.queued path hpath
    cases hstep with
    | commit k fresh => exact ⟨row, hrow, heq⟩
    | upload keys unnamed => exact ⟨row, hrow, heq⟩
    | retire data vectors rows retired => exact ⟨row, List.mem_append_left _ hrow, heq⟩

theorem Healable.others {paths : List String} (h : Healable root paths l) (hothers : Others root l l') :
    Healable root paths l' :=
  hothers.invariant (I := Healable root paths) (fun _ _ => Healable.elsewhere) h

section Run

variable {env : FsckEnv} {R : Lake → Lake → Prop} {s : Session Lake FsckError}

/-- The others do no more than `Elsewhere` says. -/
def Bounded (env : FsckEnv) (R : Lake → Lake → Prop) : Prop := ∀ c d, R c d → Others env.root c d

theorem inUse_stable (hR : Bounded env R) (c d : Lake) (hc : c.InUse env.root) (h : R c d) :
    d.InUse env.root := hc.others (hR c d h)

theorem healable_stable (hR : Bounded env R) (paths : List String) (c d : Lake)
    (hc : Healable env.root paths c) (h : R c d) : Healable env.root paths d := hc.others (hR c d h)

theorem goes_acquireAdvisoryLock (hR : Bounded env R) (hw : s.Within R) (hin : s.state.InUse env.root) :
    Goes R (FsckStep env) (acquireAdvisoryLock env) (fun _ l => l.InUse env.root) s := by
  unfold acquireAdvisoryLock
  refine goes_bind (J := fun _ l => l.InUse env.root) (goes_call hw (inUse_stable hR) hin ?_ ?_)
    fun held t hwt hint => goes_ite (fun _ => goes_pure hwt hint) fun _ => goes_throw hwt _
  · intro c _
    split
    · exact moves_own (.lock c)
    · exact .refl
  · intro c a d hc hrun
    split at hrun
    · cases hrun
      exact ⟨hc.distinct, hc.apart, hc.backed⟩
    · cases hrun
      exact hc

theorem goes_lockUnless (hR : Bounded env R) (dryRun : Bool) (hw : s.Within R)
    (hin : s.state.InUse env.root) : Goes R (FsckStep env) (lockUnless env dryRun)
      (fun _ l => l.InUse env.root) s :=
  goes_ite (fun _ => goes_pure hw hin) fun _ => goes_acquireAdvisoryLock hR hw hin

theorem goes_dedupDeletions (hR : Bounded env R) (dryRun : Bool) (hw : s.Within R)
    (hin : s.state.InUse env.root) : Goes R (FsckStep env) (dedupDeletions env dryRun)
      (fun _ l => l.InUse env.root) s := by
  unfold dedupDeletions
  refine goes_bind (J := fun _ l => l.InUse env.root) (goes_query hw (inUse_stable hR) hin fun _ h => h)
    fun dups t hwt hint => goes_ite (fun _ => goes_pure hwt hint) fun _ => ?_
  refine goes_bind (goes_acquireAdvisoryLock hR hwt hint) fun _ u hwu hinu => ?_
  refine goes_bind (J := fun _ l => l.InUse env.root) (goes_exec hwu (inUse_stable hR) hinu
    (fun c _ => .dedup c) fun c hc => hc.withQueue fun row hrow =>
      (keepFirst_sublist [] c.queue).subset hrow) fun _ v hwv hinv => ?_
  exact goes_bind (goes_query hwv (inUse_stable hR) hinv fun _ h => h) fun _ _ h h' => goes_pure h h'

theorem goes_healOrphans (hR : Bounded env R) (dryRun : Bool) (hw : s.Within R)
    (hin : s.state.InUse env.root) : Goes R (FsckStep env) (healOrphans env dryRun)
      (fun _ l => l.InUse env.root) s := by
  unfold healOrphans
  refine goes_bind (J := fun _ l => l.InUse env.root) ?_ fun _ s₁ hw₁ hin₁ => ?_
  · unfold requireDataPath
    exact goes_ite (fun _ => goes_throw hw _) fun _ => goes_pure hw hin
  refine goes_bind (goes_lockUnless hR dryRun hw₁ hin₁) fun _ s₂ hw₂ hin₂ => ?_
  -- what is listed as gone stays gone and queued until the rows are deleted
  refine goes_bind (J := fun orphans l => Healable env.root (orphans.map Scheduled.path) l)
    (goes_query hw₂ (inUse_stable hR) hin₂ fun c hc => ⟨hc, gone_findCatalogOrphans env.root c, ?_⟩)
    fun orphans s₃ hw₃ h₃ => goes_ite (fun _ => goes_pure hw₃ h₃.inUse) fun _ => ?_
  · intro path hpath
    obtain ⟨row, hrow, heq⟩ := List.mem_map.1 hpath
    exact ⟨row, (mem_findCatalogOrphans.1 hrow).1, heq⟩
  have hstable := healable_stable hR (orphans.map Scheduled.path)
  refine goes_bind (J := fun _ l => Healable env.root (orphans.map Scheduled.path) l)
    (goes_query hw₃ hstable h₃ fun _ h => h) fun counts s₄ hw₄ h₄ => ?_
  refine goes_ite (fun _ => goes_throw hw₄ _) fun _ => goes_ite (fun _ => goes_throw hw₄ _) fun _ => ?_
  refine goes_bind (J := fun _ l => Healable env.root (orphans.map Scheduled.path) l)
    (goes_query hw₄ hstable h₄ fun _ h => h) fun refs s₅ hw₅ h₅ => ?_
  refine goes_ite (fun _ => goes_throw hw₅ _) fun _ => goes_ite (fun _ => goes_pure hw₅ h₅.inUse)
    fun _ => ?_
  refine goes_bind (J := fun _ l => l.InUse env.root) (goes_exec hw₅ hstable h₅
    (fun c hc => .heal c _ hc.gone) fun c hc => hc.inUse.withQueue fun row hrow =>
      List.mem_of_mem_filter hrow) fun _ s₆ hw₆ h₆ => ?_
  exact goes_bind (goes_query hw₆ (inUse_stable hR) h₆ fun _ h => h) fun _ _ h h' => goes_pure h h'

theorem goes_cleanupAll (hR : Bounded env R) (hlaws : env.Lawful) (attempt : ℕ) (hw : s.Within R)
    (hin : s.state.InUse env.root) : Goes R (FsckStep env) (cleanupAll env attempt)
      (fun _ l => l.InUse env.root) s := by
  unfold cleanupAll
  refine goes_bind (goes_acquireAdvisoryLock hR hw hin) fun _ t hwt hint => ?_
  refine goes_bind (J := fun _ l => l.InUse env.root) (goes_call hwt (inUse_stable hR) hint
    (fun c _ => moves_own (.clean c attempt)) fun c a d hc hrun => ?_) fun _ u hwu hinu => ?_
  · have hstep := hc.fsckStep hlaws (.clean c attempt)
    rwa [hrun] at hstep
  · exact goes_bind (goes_query hwu (inUse_stable hR) hinu fun _ h => h) fun _ _ h h' => goes_pure h h'

theorem inUse_of_moves (hR : Bounded env R) (hlaws : env.Lawful) {c d : Lake}
    (h : Moves R (FsckStep env) c d) (hc : c.InUse env.root) : d.InUse env.root :=
  h.invariant (I := Lake.InUse env.root) (inUse_stable hR) (fun _ _ hc => hc.fsckStep hlaws) hc

theorem goes_cleanupAttempts (hR : Bounded env R) (hlaws : env.Lawful) (maxIterations left : ℕ) :
    ∀ (attempt : ℕ) (s : Session Lake FsckError), s.Within R →
      s.state.InUse env.root → Goes R (FsckStep env)
        (cleanupAttempts env maxIterations attempt left) (fun _ l => l.InUse env.root) s := by
  induction left with
  | zero => exact fun _ _ hw _ => goes_throw hw _
  | succ left ih =>
      intro attempt s hw hin
      unfold cleanupAttempts
      refine goes_bind (goes_dedupDeletions hR false hw hin) fun _ s₁ hw₁ hin₁ => ?_
      refine goes_bind (goes_healOrphans hR false hw₁ hin₁) fun _ s₂ hw₂ hin₂ => ?_
      refine goes_bind (J := fun _ l => l.InUse env.root) (goes_tryCatch
        (goes_bind (goes_cleanupAll hR hlaws attempt hw₂ hin₂) fun _ _ h h' => goes_pure h h')
        fun e t hwt hmoves => ?_)
        fun clean s₃ hw₃ hin₃ => goes_ite (fun _ => goes_pure hw₃ hin₃) fun _ => ih _ s₃ hw₃ hin₃
      -- only an `IOException` is another attempt
      cases e
      case io => exact goes_pure hwt (inUse_of_moves hR hlaws hmoves hin₂)
      all_goals exact goes_throw hwt _

theorem goes_orphans (hR : Bounded env R) (hlaws : env.Lawful) (dryRun : Bool) (hw : s.Within R)
    (hin : s.state.InUse env.root) : Goes R (FsckStep env) (orphans env dryRun)
      (fun _ l => l.InUse env.root) s := by
  unfold orphans
  refine goes_bind (goes_lockUnless hR dryRun hw hin) fun _ t hwt hint => ?_
  -- a dry sweep lists and removes nothing
  have hnone : ∀ c : Lake, c.without [] = c := fun c => by simp [Lake.without]
  refine goes_call hwt (inUse_stable hR) hint (fun c _ => ?_) fun c a d hc hrun => ?_
  · cases dryRun with
    | true => exact (hnone c).symm ▸ .refl
    | false => exact moves_own (.sweep c)
  · obtain ⟨rfl, -⟩ := Prod.mk.inj hrun
    refine hc.without fun key hkey => ?_
    cases dryRun with
    | true => exact absurd hkey List.not_mem_nil
    | false => exact hlaws.swept c key hkey

/-- However a run of `fsck` ends, the lake went by steps of the others and steps of the run. -/
theorem goes_fsck (hR : Bounded env R) (hlaws : env.Lawful) (dryRun : Bool) (maxIterations : ℕ)
    (hw : s.Within R) (hin : s.state.InUse env.root) :
    Goes R (FsckStep env) (fsck env dryRun maxIterations)
      (fun _ l => l.InUse env.root) s := by
  unfold fsck
  refine goes_ite (fun _ => ?_) fun _ => ?_
  · refine goes_bind (goes_dedupDeletions hR true hw hin) fun _ s₁ hw₁ hin₁ => ?_
    exact goes_bind (goes_healOrphans hR true hw₁ hin₁) fun _ s₂ hw₂ hin₂ => goes_orphans hR hlaws true hw₂ hin₂
  · unfold cleanupAllSafe
    refine goes_bind (goes_bind (goes_acquireAdvisoryLock hR hw hin) fun _ t hwt hint =>
      goes_cleanupAttempts hR hlaws maxIterations maxIterations 1 t hwt hint) fun _ s₁ hw₁ hin₁ => ?_
    exact goes_orphans hR hlaws false hw₁ hin₁

end Run

/-! ## Expiry -/

/-- The commits of others land one by one, with new keys whose objects are there. -/
def FreshAll (root : String) (objects : List String) : List Commit → Catalog → Prop
  | [], _ => True
  | k :: rest, c => (k.Above c → k.Fresh root objects c) ∧ FreshAll root objects rest (landAbove c k)

/-- Others that only add snapshots above the maximum, with new keys. -/
def AddsFresh (root : String) (objects : List String) (_ : List Write) (c c' : Catalog) : Prop :=
  ∃ ks : List Commit, c' = ks.foldl landAbove c ∧ FreshAll root objects ks c

theorem AddsFresh.addsAbove {objects : List String} {own : List Write} {c c' : Catalog}
    (h : AddsFresh root objects own c c') : AddsAbove own c c' := by
  obtain ⟨ks, hks, -⟩ := h
  exact ⟨ks, hks⟩

theorem InUse.addsFresh {objects : List String} {own : List Write} {c c' : Catalog}
    (h : InUse root objects c) (hadds : AddsFresh root objects own c c') : InUse root objects c' := by
  obtain ⟨ks, rfl, hfresh⟩ := hadds
  induction ks generalizing c with
  | nil => exact h
  | cons k rest ih =>
      obtain ⟨hk, hrest⟩ := hfresh
      refine ih ?_ hrest
      unfold landAbove
      split
      · next habove => exact h.apply (hk habove)
      · exact h

/-- A batch takes the keys of dead files to the queue. -/
theorem InUse.afterBatch {objects : List String} {ids : List ℕ} {c : Catalog}
    (h : InUse root objects c) : InUse root objects (afterBatch ids c) := by
  have hdata : (Maintenance.afterBatch ids c).dataFiles = c.dataFiles.delete fun f =>
      decide (f.dataFileId ∈ (expireDeadData ids c).map Scheduled.dataFileId) := rfl
  have hvectors : (Maintenance.afterBatch ids c).deleteFiles = c.deleteFiles.delete fun f =>
      decide (f.deleteFileId ∈ (expireDeadDv ids c).map Scheduled.dataFileId) := rfl
  refine h.retire hdata hvectors fun key hkey => ?_
  rw [afterBatch_queue, queueKeys_append, queueKeys_append] at hkey
  rcases List.mem_append.1 hkey with hkey | hkey
  · rcases List.mem_append.1 hkey with hold | hdata
    · exact Or.inl hold
    · obtain ⟨row, hrow, rfl⟩ := mem_queueKeys.1 hdata
      have hdead := List.mem_of_mem_filter hrow
      obtain ⟨f, hf, rfl⟩ := List.mem_map.1 hdead
      refine Or.inr (Or.inl ⟨f, List.mem_of_mem_filter hf, decide_eq_true ?_, rfl⟩)
      exact List.mem_map_of_mem hdead
  · obtain ⟨row, hrow, rfl⟩ := mem_queueKeys.1 hkey
    have hdead := List.mem_of_mem_filter hrow
    obtain ⟨f, hf, rfl⟩ := List.mem_map.1 hdead
    refine Or.inr (Or.inr ⟨f, List.mem_of_mem_filter hf, decide_eq_true ?_, rfl⟩)
    exact List.mem_map_of_mem hdead

section Expire

variable {R : List Write → Catalog → Catalog → Prop}

theorem outside_expireLoop_any (cutoff batchSize : ℤ) (numBatches : Option ℤ) (fuel : ℕ) :
    ∀ batchNum, Outside R (fun _ _ => True) (fun _ => True)
      (expireLoop cutoff batchSize numBatches fuel batchNum) := by
  induction fuel with
  | zero => exact fun _ => outside_pure _
  | succ fuel ih =>
      intro batchNum
      unfold expireLoop
      refine Outside.ite (outside_throw _) (outside_query_bind (J := fun _ _ => True)
        (fun _ _ _ _ => trivial) fun ids => ?_)
      refine Outside.ite (outside_pure _) (Outside.ite (outside_pure _) (Outside.bind ?_ fun _ => ih _))
      refine outside_transaction ?_ fun s _ _ _ => wp_true _ s
      exact (inside_statement _ _).bind fun _ => (inside_statement _ _).bind fun _ =>
        (inside_statement _ _).bind fun _ => (inside_statement _ _).bind fun _ =>
        (inside_statement _ _).bind fun _ => (inside_statement _ _).bind fun _ =>
        (inside_statement _ _).bind fun _ => (inside_statement _ _).bind fun _ =>
        (inside_statement _ _).bind fun _ => (inside_statement _ _).bind fun _ => inside_statement _ _

theorem outside_expireRuns_any (runs : List (ExpireRun × ℕ)) :
    Outside R (fun _ _ => True) (fun _ => True) (expireRuns runs) := by
  induction runs with
  | nil => exact outside_pure _
  | cons run rest ih =>
      refine ((Outside.tryCatch ?_ fun _ => outside_pure _).bind fun _ => ih)
      unfold expireSnapshots
      refine outside_query_bind (J := fun _ _ => True) (fun _ _ _ _ => trivial) fun held => ?_
      refine Outside.ite (outside_throw _) ?_
      refine outside_query_bind (J := fun _ _ => True) (fun _ _ _ _ => trivial) fun cutoff => ?_
      refine Outside.ite ?_ (outside_expireLoop_any _ _ _ _ _)
      exact outside_query_bind (J := fun _ _ => True) (fun _ _ _ _ => trivial) fun _ => outside_pure _

end Expire

theorem keeps_inUse (root : String) (objects : List String) :
    Keeps (AddsFresh root objects) IsBatch (InUse root objects) where
  others _ _ _ hc hadds := hc.addsFresh hadds
  commit own c hc hbatch := by
    obtain ⟨ids, -, rfl⟩ := hbatch
    exact hc.afterBatch

/-- Runs of `expire-snapshots` keep what is in use. -/
theorem InUse.expireRuns {objects : List String}
    {s : ReadCommitted.Session Catalog Write PgError ExpireStatement}
    (hw : s.Within (AddsFresh root objects)) (hown : s.own = []) (runs : List (ExpireRun × ℕ))
    (h : InUse root objects s.committed) :
    InUse root objects (final (expireRuns runs) s).committed := by
  have hbatches : Ran AddsAbove IsBatch s (final (Maintenance.expireRuns runs) s) :=
    final_of_wp (outside_expireRuns runs s (fun n own c => (hw n own c).addsAbove) hown trivial)
  have hfresh : Ran (AddsFresh root objects) (fun _ _ => True) s
      (final (Maintenance.expireRuns runs) s) :=
    final_of_wp (outside_expireRuns_any runs s hw hown trivial)
  exact (hbatches.meet hfresh).keeps (keeps_inUse root objects) h

/-! ## Histories -/

/-- One event in the life of a lake: other sessions, runs of `expire-snapshots`, or a run of `fsck`,
    whose lock goes with its connection. The others stay within `R`. -/
inductive Maintains (env : FsckEnv) (R : Lake → Lake → Prop) : Lake → Lake → Prop where
  | elsewhere (l l' : Lake) (h : R l l') : Maintains env R l l'
  | expire (l : Lake) (s : ReadCommitted.Session Catalog Write PgError ExpireStatement)
      (start : s.committed = l.catalog) (own : s.own = [])
      (others : s.Within (AddsFresh env.root l.objects)) (runs : List (ExpireRun × ℕ)) :
      Maintains env R l { l with catalog := (final (expireRuns runs) s).committed }
  | fsck (s : Autocommit.Session Lake FsckError) (others : s.Within R) (dryRun : Bool)
      (maxIterations : ℕ) :
      Maintains env R s.state
        { (final (fsck env dryRun maxIterations) s).state with locked := false }

theorem Lake.InUse.maintains {env : FsckEnv} {R : Lake → Lake → Prop} (hR : Bounded env R)
    (hlaws : env.Lawful) (h : l.InUse env.root) (hstep : Maintains env R l l') :
    l'.InUse env.root := by
  cases hstep with
  | elsewhere _ _ hothers => exact inUse_stable hR l l' h hothers
  | expire _ s start own others runs =>
      have hstart : Maintenance.InUse env.root l.objects s.committed := start ▸ h
      exact InUse.expireRuns others own runs hstart
  | fsck s others dryRun maxIterations =>
      have hend := inUse_of_moves hR hlaws (goes_fsck hR hlaws dryRun maxIterations others h).final.moves h
      exact ⟨hend.distinct, hend.apart, hend.backed⟩

/-- **No maintenance run deletes an object in use.** Through any history of `expire-snapshots` and
    `fsck` runs, however each of them ends and whatever other sessions meanwhile commit (under new keys,
    with the objects there), upload or expire, the object of every data file and every delete vector of
    the catalog stays in the bucket. -/
theorem maintenance_keeps_objects (env : FsckEnv) (hlaws : env.Lawful) (l l' : Lake)
    (hstart : l.InUse env.root)
    (history : Relation.ReflTransGen (Maintains env (Others env.root)) l l') :
    (∀ f ∈ l'.catalog.dataFiles.rows, absPath env.root f.path ∈ l'.objects) ∧
      ∀ f ∈ l'.catalog.deleteFiles.rows, absPath env.root f.path ∈ l'.objects := by
  have hend : l'.InUse env.root := by
    induction history with
    | refl => exact hstart
    | tail _ hstep ih => exact ih.maintains (fun _ _ h => h) hlaws hstep
  exact ⟨fun f hf => hend.backed _ (mem_fileKeys.2 (Or.inl ⟨f, hf, rfl⟩)),
    fun f hf => hend.backed _ (mem_fileKeys.2 (Or.inr ⟨f, hf, rfl⟩))⟩

/-- A cleanup that deletes the objects of the queue, and a sweep that deletes what no row names. -/
def tidyEnv : FsckEnv where
  dataPath := some "s3://b/"
  lockFree _ := true
  cleanupOldFiles _ l := (queueKeys (rtrimSlashes "s3://b/") l.queue, .ok ⟨⟩)
  deleteOrphanedFiles l := (l.objects.filter fun key =>
    key ∉ fileKeys (rtrimSlashes "s3://b/") l.catalog ∧ key ∉ queueKeys (rtrimSlashes "s3://b/") l.queue, .ok ⟨⟩)

theorem tidyEnv_lawful : tidyEnv.Lawful where
  queued _ _ _ hkey := hkey
  complete _ _ _ _ hkey := hkey
  swept _ _ hkey := (of_decide_eq_true (List.mem_filter.1 hkey).2).1

/-- One file in use, one queued twice, one that no row names. -/
def cluttered : Lake where
  catalog := endedFile (fun i => i) [⟨4, "old.parquet", true⟩, ⟨4, "old.parquet", true⟩]
  objects := ["s3://b/a.parquet", "s3://b/old.parquet", "s3://b/stray.parquet"]
  locked := false

theorem cluttered_inUse : cluttered.InUse tidyEnv.root :=
  ⟨by decide +kernel, by decide +kernel, by decide +kernel⟩

/-- A run of `fsck` on that lake, nothing else happening. -/
def tidySession : Session Lake FsckError where
  state := cluttered
  others _ l := l
  fates _ := none
  clock := 0

/-- What it leaves. -/
def tidied : Lake := { (final (fsck tidyEnv false 2) tidySession).state with locked := false }

theorem tidied_keeps_objects :
    (∀ f ∈ tidied.catalog.dataFiles.rows, absPath tidyEnv.root f.path ∈ tidied.objects) ∧
      ∀ f ∈ tidied.catalog.deleteFiles.rows, absPath tidyEnv.root f.path ∈ tidied.objects :=
  maintenance_keeps_objects tidyEnv tidyEnv_lawful cluttered tidied cluttered_inUse
    (.single (.fsck tidySession (fun _ _ => .refl) false 2))

/-! ## Nothing in the queue is forgotten -/

/-- The object is gone, or the queue names it. -/
def Accounted (root key : String) (l : Lake) : Prop :=
  key ∉ l.objects ∨ key ∈ queueKeys root l.queue

/-- The others, none of whom uploads under `key`. -/
def NeverUploads (root key : String) (l l' : Lake) : Prop :=
  Others root l l' ∧ (key ∈ l'.objects → key ∈ l.objects)

theorem mem_keepFirst_path {path : String} {rows : List Scheduled} :
    ∀ {seen : List String}, path ∈ (keepFirst seen rows).map Scheduled.path ↔
      path ∈ rows.map Scheduled.path ∧ path ∉ seen := by
  induction rows with
  | nil => simp [keepFirst]
  | cons row rest ih =>
      intro seen
      unfold keepFirst
      split
      · next hseen =>
          rw [ih, List.map_cons, List.mem_cons]
          constructor
          · exact fun ⟨hrest, hnot⟩ => ⟨Or.inr hrest, hnot⟩
          · rintro ⟨rfl | hrest, hnot⟩
            · exact absurd hseen hnot
            · exact ⟨hrest, hnot⟩
      · next hseen =>
          rw [List.map_cons, List.mem_cons, ih, List.map_cons, List.mem_cons, List.mem_cons]
          by_cases heq : path = row.path
          · simp [heq, hseen]
          · simp [heq]

theorem names_absPath (root path : String) : names root path (absPath root path) = true := by
  unfold names absPath
  split <;> simp

theorem queueKeys_others (h : Others root l l') {key : String}
    (hkey : key ∈ queueKeys root l.queue) : key ∈ queueKeys root l'.queue := by
  refine h.invariant (I := fun l => key ∈ queueKeys root l.queue) (fun c d hc hstep => ?_) hkey
  cases hstep with
  | commit k fresh => exact hc
  | upload keys unnamed => exact hc
  | retire data vectors rows retired =>
      show key ∈ queueKeys root (c.queue ++ rows)
      rw [queueKeys_append]
      exact List.mem_append_left _ hc

theorem Accounted.neverUploads {key : String} (h : Accounted root key l)
    (hothers : NeverUploads root key l l') : Accounted root key l' := by
  by_cases hin : key ∈ l'.objects
  · exact Or.inr (queueKeys_others hothers.1 (h.resolve_left fun hnot => hnot (hothers.2 hin)))
  · exact Or.inl hin

theorem Accounted.fsckStep {env : FsckEnv} (hlaws : env.Lawful) {key : String}
    (hlisted : isListed env.root key = true) (h : Accounted env.root key l)
    (hstep : FsckStep env l l') : Accounted env.root key l' := by
  rcases h with hgone | hqueued
  · -- no step of a run brings an object back
    refine Or.inl fun hin => hgone ?_
    cases hstep with
    | lock => exact hin
    | dedup => exact hin
    | heal paths _ => exact hin
    | clean attempt =>
        unfold Lake.cleaned at hin
        split at hin
        · exact List.mem_of_mem_filter hin
        · exact List.mem_of_mem_filter hin
    | sweep => exact List.mem_of_mem_filter hin
  · obtain ⟨row, hrow, hkey⟩ := mem_queueKeys.1 hqueued
    cases hstep with
    | lock => exact Or.inr hqueued
    | dedup =>
        -- the first row of the same path stays
        obtain ⟨first, hfirst, hpath⟩ := List.mem_map.1
          (mem_keepFirst_path.2 ⟨List.mem_map_of_mem hrow, List.not_mem_nil⟩)
        exact Or.inr (mem_queueKeys.2 ⟨first, hfirst, by rw [hpath]; exact hkey⟩)
    | heal paths gone =>
        by_cases hpath : row.path ∈ paths
        · -- an orphan's object is not listed
          refine Or.inl fun hin => ?_
          have hnames := (mem_findCatalogOrphans.1 (gone row hrow hpath)).2 key hin hlisted
          rw [← hkey, names_absPath] at hnames
          cases hnames
        · exact Or.inr (mem_queueKeys.2 ⟨row, List.mem_filter.2 ⟨hrow, decide_eq_true hpath⟩, hkey⟩)
    | clean attempt =>
        unfold Lake.cleaned
        split
        · next hok =>
            refine Or.inl fun hin => ?_
            have hkept := of_decide_eq_true (List.mem_filter.1 hin).2
            exact hkept (hlaws.complete attempt l hok key hqueued)
        · exact Or.inr hqueued
    | sweep => exact Or.inr hqueued

theorem queue_foldl_landAbove (ks : List Commit) (c : Catalog) :
    (ks.foldl landAbove c).filesScheduledForDeletion = c.filesScheduledForDeletion := by
  induction ks generalizing c with
  | nil => rfl
  | cons k rest ih =>
      refine (ih (landAbove c k)).trans ?_
      unfold landAbove
      split <;> rfl

/-- Expiry only adds to the queue. -/
theorem mem_queueKeys_expireRuns {s : ReadCommitted.Session Catalog Write PgError ExpireStatement}
    (hw : s.Within AddsAbove) (hown : s.own = []) (runs : List (ExpireRun × ℕ)) {key : String}
    (hkey : key ∈ queueKeys root s.committed.filesScheduledForDeletion) :
    key ∈ queueKeys root (final (expireRuns runs) s).committed.filesScheduledForDeletion := by
  have hran : Ran AddsAbove IsBatch s (final (expireRuns runs) s) :=
    final_of_wp (outside_expireRuns runs s hw hown trivial)
  refine hran.keeps (I := fun c => key ∈ queueKeys root c.filesScheduledForDeletion) ⟨?_, ?_⟩ hkey
  · rintro _ c _ hc ⟨ks, rfl⟩
    rwa [queue_foldl_landAbove]
  · rintro own c hc ⟨ids, -, rfl⟩
    show key ∈ queueKeys root (afterBatch ids c).filesScheduledForDeletion
    rw [afterBatch_queue, List.append_assoc, queueKeys_append]
    exact List.mem_append_left _ hc

/-- **Nothing in the queue is forgotten.** Through any such history in which nobody uploads under the
    key again: an object under the data path that the queue names at the start is deleted at the end,
    or the queue still names it. -/
theorem maintenance_forgets_nothing (env : FsckEnv) (hlaws : env.Lawful) (l l' : Lake) (key : String)
    (hstart : l.InUse env.root) (hlisted : isListed env.root key = true)
    (hqueued : key ∈ queueKeys env.root l.queue)
    (history : Relation.ReflTransGen (Maintains env (NeverUploads env.root key)) l l') :
    key ∉ l'.objects ∨ key ∈ queueKeys env.root l'.queue := by
  have hR : Bounded env (NeverUploads env.root key) := fun _ _ h => h.1
  suffices hend : l'.InUse env.root ∧ Accounted env.root key l' from hend.2
  induction history with
  | refl => exact ⟨hstart, Or.inr hqueued⟩
  | tail _ hstep ih =>
      refine ⟨ih.1.maintains hR hlaws hstep, ?_⟩
      cases hstep with
      | elsewhere _ _ hothers => exact ih.2.neverUploads hothers
      | expire _ s start own others runs =>
          refine ih.2.imp_right fun hin => ?_
          refine mem_queueKeys_expireRuns (fun n o c => (others n o c).addsAbove) own runs ?_
          rw [start]
          exact hin
      | fsck s others dryRun maxIterations =>
          exact (goes_fsck hR hlaws dryRun maxIterations others ih.1).final.moves.invariant
            (I := Accounted env.root key) (fun _ _ hc => hc.neverUploads)
            (fun _ _ hc => hc.fsckStep hlaws hlisted) ih.2

theorem tidied_forgets_nothing : "s3://b/old.parquet" ∉ tidied.objects ∨
    "s3://b/old.parquet" ∈ queueKeys tidyEnv.root tidied.queue :=
  maintenance_forgets_nothing tidyEnv tidyEnv_lawful cluttered tidied _ cluttered_inUse
    (by decide +kernel) (by decide +kernel)
    (.single (.fsck tidySession (fun _ _ => ⟨.refl, fun h => h⟩) false 2))

end Millpond.Maintenance
