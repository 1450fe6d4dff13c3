import Millpond.Maintenance.Compaction
import Millpond.Maintenance.IntegerTexts

set_option autoImplicit false

/-! # The `target_file_size` that a compaction leaves

A run sets the option for its tier, once more for a new connection, and puts back at its exit what it
read before. What it puts back is a number of units, which reads as the bytes it was made of. -/

namespace Millpond.Maintenance

/-- What `ducklake_set_option` makes of a number of binary units. -/
def ReadsBinaryUnits (readSize : String → Option ℕ) : Prop :=
  ∀ u ∈ sizeUnits, ∀ q : ℕ, 0 < q → readSize (q.repr ++ u.1) = some (q * u.2)

/-! ## The units -/

/-- A multiple of 1024 is a whole number of some unit. -/
theorem bytesToHuman_repr {n : ℕ} (hpos : 0 < n) (hdvd : 1024 ∣ n) (hshort : n.repr.length ≤ 4300) :
    ∃ u ∈ sizeUnits, u.2 ≤ n ∧ u.2 ∣ n ∧ bytesToHuman n.repr = some ((n / u.2).repr ++ u.1) := by
  let pick : String × ℕ → Option String := fun u =>
    if u.2 ≤ n ∧ n % u.2 = 0 then some ((n / u.2).repr ++ u.1) else none
  have hpick : bytesToHuman n.repr = sizeUnits.findSome? pick := by
    have hcast : ¬ ((n : ℤ) ≤ 0) := by omega
    unfold bytesToHuman
    rw [pyInt_repr_eq, if_neg (not_lt.2 hshort)]
    simp only [if_neg hcast, Int.toNat_natCast]
    rfl
  have hkib : pick ("KiB", 1024) = some ((n / 1024).repr ++ "KiB") :=
    if_pos ⟨Nat.le_of_dvd hpos hdvd, Nat.mod_eq_zero_of_dvd hdvd⟩
  obtain ⟨text, htext⟩ : ∃ text, sizeUnits.findSome? pick = some text := by
    rw [← Option.isSome_iff_exists, List.findSome?_isSome_iff]
    exact ⟨("KiB", 1024), by decide, by rw [hkib]; rfl⟩
  obtain ⟨u, hu, hmake⟩ := List.exists_of_findSome?_eq_some htext
  simp only [pick] at hmake
  split_ifs at hmake with hclean
  refine ⟨u, hu, hclean.1, Nat.dvd_of_mod_eq_zero hclean.2, ?_⟩
  rw [hpick, htext, ← hmake]

/-- Rendered and read again. -/
theorem readSize_bytesToHuman {readSize : String → Option ℕ} (hreads : ReadsBinaryUnits readSize)
    {n : ℕ} (hpos : 0 < n) (hdvd : 1024 ∣ n) (hshort : n.repr.length ≤ 4300) :
    ∃ text, bytesToHuman n.repr = some text ∧ readSize text = some n := by
  obtain ⟨u, hu, hle, hclean, hhuman⟩ := bytesToHuman_repr hpos hdvd hshort
  have hunit : 0 < u.2 := by
    have hall : ∀ u ∈ sizeUnits, 0 < u.2 := by decide
    exact hall u hu
  refine ⟨_, hhuman, ?_⟩
  rw [hreads u hu (n / u.2) (Nat.div_pos hle hunit), Nat.div_mul_cancel hclean]

theorem restoreText_repr {n : ℕ} {text : String} (h : bytesToHuman n.repr = some text) :
    restoreText (some n.repr) = text := by
  have hne : n.repr.isEmpty = false := by
    rw [String.isEmpty_eq_false_iff]
    exact fun hnil => repr_toList_ne_nil n (by rw [hnil]; rfl)
  unfold restoreText
  simp only [hne, h, Bool.false_eq_true, if_false, Option.getD_some]

/-! ## The exits -/

/-- Whatever the body does: where a connection is left and the restoring CALL goes through, the option
    is what it was. -/
theorem scopedTargetFileSize_restores {w : CompactWorld} {n : ℕ} {text : String}
    (htext : bytesToHuman n.repr = some text) (hread : w.readSize text = some n)
    (hrestore : w.restoreFails = false) (value : String)
    (body : Option String → LoopEnd × CompactState)
    (hlive : (scopedTargetFileSize w value (some n.repr) body).live = true) :
    (scopedTargetFileSize w value (some n.repr) body).globalSize = some n.repr := by
  have hset : w.setTarget w.restoreFails (restoreText (some n.repr)) = some n.repr := by
    rw [restoreText_repr htext, CompactWorld.setTarget, hrestore, hread]
    rfl
  unfold scopedTargetFileSize at hlive ⊢
  dsimp only at hlive ⊢
  split
  · rfl
  · rename_i hread
    rw [if_neg hread] at hlive
    split
    · rfl
    · rename_i hsane
      rw [if_neg hsane] at hlive
      cases hstored : w.setTarget w.setFails value with
      | none => rfl
      | some stored =>
          simp only [hstored, hset] at hlive ⊢
          cases hdead : (body (some stored)).2.connDead with
          | true => simp [hdead] at hlive
          | false => simp

/-- **Compaction leaves the option as it found it.** For every run, whatever fails in it: if a
    connection is live at the exit and the restoring CALL succeeds, a GLOBAL `target_file_size` of a
    positive multiple of 1024 bytes that `int()` reads is the same afterwards; and the text that is
    put back reads as these bytes. -/
theorem compact_restores (cfg : CompactSettings) (w : CompactWorld) (candidates : ℕ)
    (tables : List (String × String)) (hreads : ReadsBinaryUnits w.readSize) {n : ℕ} (hpos : 0 < n)
    (hdvd : 1024 ∣ n) (hshort : n.repr.length ≤ 4300) :
    (∃ text, bytesToHuman n.repr = some text ∧ w.readSize text = some n) ∧
      ((compact cfg w candidates tables (some n.repr)).live = true → w.restoreFails = false →
        (compact cfg w candidates tables (some n.repr)).globalSize = some n.repr) := by
  obtain ⟨text, htext, hread⟩ := readSize_bytesToHuman hreads hpos hdvd hshort
  refine ⟨⟨text, htext, hread⟩, fun hlive hrestore => ?_⟩
  unfold compact at hlive ⊢
  split
  · rfl
  · rename_i hbefore
    rw [if_neg hbefore] at hlive
    split
    · rfl
    · rename_i hnothing
      rw [if_neg hnothing] at hlive
      split
      · rfl
      · rename_i hsetup
        rw [if_neg hsetup] at hlive
        exact scopedTargetFileSize_restores htext hread hrestore cfg.target _ hlive

/-! ## Which runs lose the connection -/

theorem afterFatal_connDead {w : CompactWorld} {target : String} {n : ℕ} {s : CompactState}
    (hs : s.connDead = false) (h : (w.afterFatal target n s).2.connDead = true) :
    (w.afterFatal target n s).1 = .aborted := by
  unfold CompactWorld.afterFatal at h ⊢
  split
  · rename_i halive
    rw [if_pos halive] at h
    exact absurd (hs.symm.trans h) Bool.false_ne_true
  · rename_i hwedged
    rw [if_neg hwedged] at h
    dsimp only at h ⊢
    split
    · rfl
    · rename_i hfirst
      rw [if_neg hfirst] at h
      split
      · rfl
      · rename_i hconnect
        rw [if_neg hconnect] at h
        cases hset : w.setTarget (w.reconnectSetFails n) target with
        | none => rfl
        | some stored =>
            rw [hset] at h
            exact absurd (hs.symm.trans h) Bool.false_ne_true

theorem mergeTable_connDead {cfg : CompactSettings} {w : CompactWorld} {index : ℕ} {name : String}
    {grant : ℤ} {callIdx : ℕ} {s : CompactState} (hs : s.connDead = false)
    (h : (mergeTable cfg w index name grant callIdx s).2.connDead = true) :
    (mergeTable cfg w index name grant callIdx s).1 = .aborted := by
  fun_induction mergeTable cfg w index name grant callIdx s with
  | case1 => exact absurd (hs.symm.trans h) Bool.false_ne_true
  | case2 grant callIdx s hloop n cap rows hjudge consumed s' outputs hcapped ih => exact ih hs h
  | case3 grant callIdx s hloop n cap hjudge s' =>
      have hsame : (if callIdx = 0 then { s' with noopTables := s.noopTables + 1 } else s').connDead =
          s.connDead := by split <;> rfl
      exact absurd ((hsame.trans hs).symm.trans h) Bool.false_ne_true
  | case4 => exact absurd (hs.symm.trans h) Bool.false_ne_true
  | case5 => exact afterFatal_connDead hs h
  | case6 => exact absurd (hs.symm.trans h) Bool.false_ne_true
  | case7 => exact absurd (hs.symm.trans h) Bool.false_ne_true
  | case8 => exact absurd (hs.symm.trans h) Bool.false_ne_true

theorem mergeTables_connDead {cfg : CompactSettings} {w : CompactWorld} {tableTotal index : ℕ}
    {tables : List (String × String)} {s : CompactState} (hs : s.connDead = false)
    (h : (mergeTables cfg w tableTotal index tables s).2.connDead = true) :
    (mergeTables cfg w tableTotal index tables s).1.1 = .aborted := by
  induction tables generalizing index s with
  | nil => exact absurd (hs.symm.trans h) Bool.false_ne_true
  | cons table rest ih =>
      unfold mergeTables at h ⊢
      split
      · rename_i hspent
        rw [if_pos hspent] at h
        exact absurd (hs.symm.trans h) Bool.false_ne_true
      · rename_i hleft
        rw [if_neg hleft] at h
        dsimp only at h ⊢
        cases hend : mergeTable cfg w index (table.1 ++ "." ++ table.2)
            (tableGrant cfg tableTotal s.remaining) 0 s with
        | mk loopEnd s' =>
            have hdead : s'.connDead = true → loopEnd = .aborted := fun hdead => by
              have hlost := mergeTable_connDead hs ((congrArg (·.2.connDead) hend).trans hdead)
              rwa [hend] at hlost
            rw [hend] at h
            cases loopEnd with
            | done =>
                refine ih ?_ h
                cases hconn : s'.connDead with
                | false => rfl
                | true => exact absurd (hdead hconn) nofun
            | aborted => rfl
            | raised => exact absurd (hdead h) nofun

/-- Only a run that gives up its remaining tables ends without a connection. -/
theorem compactCatalog_live (cfg : CompactSettings) (w : CompactWorld)
    (tables : List (String × String)) (globalSize : Option String)
    (h : (compactCatalog cfg w tables globalSize).2.connDead = true) :
    (compactCatalog cfg w tables globalSize).1.1 = .aborted :=
  mergeTables_connDead rfl h

/-! ## Sizes that `int()` does not read -/

/-- The reader of binary units, alone. -/
def readBinarySize (text : String) : Option ℕ :=
  let digits := text.toList.takeWhile Char.isDigit
  let unit := String.ofList (text.toList.dropWhile Char.isDigit)
  if digits = [] then none
  else (sizeUnits.find? fun u => u.1 == unit).map fun u => Nat.ofDigitChars 10 digits 0 * u.2

theorem readBinarySize_reads : ReadsBinaryUnits readBinarySize := by
  intro u hu q _
  have hdigits : ∀ c ∈ q.repr.toList, c.isDigit = true := fun c => isDigit_of_mem_repr
  have hunit : ∀ u ∈ sizeUnits, u.1.toList.takeWhile Char.isDigit = [] ∧
      u.1.toList.dropWhile Char.isDigit = u.1.toList ∧
      sizeUnits.find? (fun v => v.1 == u.1) = some u := by decide
  obtain ⟨htake, hdrop, hfind⟩ := hunit u hu
  unfold readBinarySize
  rw [String.toList_append, List.takeWhile_append_of_pos hdigits, List.dropWhile_append_of_pos hdigits,
    htake, hdrop, List.append_nil, if_neg (repr_toList_ne_nil q), String.ofList_toList, hfind]
  rw [Option.map_some, Nat.toList_repr, Nat.ofDigitChars_ten_toDigits]

/-- A lake without errors. -/
def quietWorld : CompactWorld where
  countFails := false
  setupFails := false
  readFails := false
  setFails := false
  readSize := readBinarySize
  merge := fun _ _ => .rows []
  alive := fun _ => true
  connectFails := fun _ => false
  reconnectSetFails := fun _ => false
  restoreFails := false

def tierOne : CompactSettings := ⟨"128MiB", none, false, 80, none⟩

theorem quietWorld_restores :
    (∃ text, bytesToHuman (Nat.repr 67108864) = some text ∧
        quietWorld.readSize text = some 67108864) ∧
      ((compact tierOne quietWorld 2 [("main", "events")] (some (Nat.repr 67108864))).live = true →
        quietWorld.restoreFails = false →
        (compact tierOne quietWorld 2 [("main", "events")] (some (Nat.repr 67108864))).globalSize =
          some (Nat.repr 67108864)) :=
  compact_restores tierOne quietWorld 2 [("main", "events")] readBinarySize_reads (by decide)
    (by decide) (by decide)

/-- More digits than `int()` reads. -/
theorem restoreText_of_long {n : ℕ} (h : 4300 < n.repr.length) :
    restoreText (some n.repr) = defaultTargetFileSize := by
  have hhuman : bytesToHuman n.repr = none := by
    unfold bytesToHuman
    rw [pyInt_repr_eq, if_pos h]
  simp only [restoreText, hhuman, Option.getD_none, ite_self]

/-- An exit with a connection, after the option was set and put back. -/
theorem scopedTargetFileSize_eq {w : CompactWorld} {value stored restored : String}
    {globalSize : Option String} {body : Option String → LoopEnd × CompactState}
    (hvalue : isSettingValue value = true) (hread : w.readFails = false)
    (hrestore : isSettingValue (restoreText globalSize) = true)
    (hset : w.setTarget w.setFails value = some stored)
    (hdead : (body (some stored)).2.connDead = false)
    (hback : w.setTarget w.restoreFails (restoreText globalSize) = some restored) :
    scopedTargetFileSize w value globalSize body =
      ⟨if (body (some stored)).1 = .raised then none else some (body (some stored)).2.failed.length,
        some restored, true⟩ := by
  simp only [scopedTargetFileSize, hvalue, hread, hrestore, hset, hdead, hback, Bool.not_true,
    Bool.or_false, Bool.false_eq_true, if_false]

theorem tierOne_default {globalSize : Option String}
    (h : restoreText globalSize = defaultTargetFileSize) :
    compact tierOne quietWorld 2 [] globalSize = ⟨some 0, some "134217728", true⟩ := by
  have hset : quietWorld.setTarget false "128MiB" = some "134217728" := by decide
  have hback : quietWorld.setTarget false (restoreText globalSize) = some "134217728" := by
    rw [h]
    exact hset
  have hsane : isSettingValue (restoreText globalSize) = true := by
    rw [h]
    decide
  show scopedTargetFileSize quietWorld "128MiB" globalSize (fun globalSize =>
    ((compactCatalog tierOne quietWorld [] globalSize).1.1,
      (compactCatalog tierOne quietWorld [] globalSize).2)) = _
  exact scopedTargetFileSize_eq (by decide) rfl hsane hset rfl hback

/-- `1024 * 10 ** k`. -/
def kibWithZeros (k : ℕ) : ℕ := 1024 * 10 ^ k

theorem kibWithZeros_long {k : ℕ} (hk : 0 < k) : k < (kibWithZeros k).repr.length := by
  refine not_le.1 fun hshort => ?_
  have hlt := (Nat.length_repr_le_iff hk).1 hshort
  exact absurd hlt (not_lt.2 (Nat.le_mul_of_pos_left _ (by decide)))

theorem kibWithZeros_pos (k : ℕ) : 0 < kibWithZeros k :=
  Nat.mul_pos (by decide) (Nat.pow_pos (by decide))

/-- The size is a multiple of 1024, and the run puts back the default. -/
theorem hugeSize_replaced :
    0 < kibWithZeros 4300 ∧ 1024 ∣ kibWithZeros 4300 ∧
      (compact tierOne quietWorld 2 [] (some (kibWithZeros 4300).repr)).live = true ∧
      quietWorld.restoreFails = false ∧
      (compact tierOne quietWorld 2 [] (some (kibWithZeros 4300).repr)).globalSize ≠
        some (kibWithZeros 4300).repr := by
  have hlong : 4300 < (kibWithZeros 4300).repr.length := kibWithZeros_long (by decide)
  rw [tierOne_default (restoreText_of_long hlong)]
  refine ⟨kibWithZeros_pos _, Nat.dvd_mul_right _ _, rfl, rfl, fun hsame => ?_⟩
  rw [← Option.some.inj hsame] at hlong
  exact absurd hlong (by decide)

end Millpond.Maintenance
