import FpgaDatabase.Firmware.TableLoad

namespace FpgaDatabase.Firmware.FreshTable

open CString Table SdDriver SdSearch SdCopy TableLoad

variable {card : Card} {b : FatBPB} {name : List UInt8} {fileSize bufSize fuel c : ℕ} {log : Log}
  {k k' : Copy} {o o' : Outcome} {buf buf' : Buffer}

theorem rel_bind {α β : Type} {R : α → α → Prop} {S : β → β → Prop} {x y : Option α}
    {f g : α → Option β} (h : Option.Rel R x y)
    (hstep : ∀ a a', x = some a → R a a' → Option.Rel S (f a) (g a')) :
    Option.Rel S (x.bind f) (y.bind g) := by
  cases h with
  | none => exact .none
  | some ha => exact hstep _ _ rfl ha

theorem rel_refl {α : Type} (x : Option α) : Option.Rel Eq x x := by
  cases x with
  | none => exact .none
  | some a => exact .some rfl

section Copying

structure Alike (k k' : Copy) : Prop where
  bytesRead : k'.bytesRead = k.bytesRead
  done : k'.done = k.done
  followed : k'.followed = k.followed
  buf : Set.EqOn k'.buf k.buf (Set.Iio k.bytesRead)

theorem copyBytes_alike (s : Sector) (is : List ℕ) (h : Alike k k') :
    Alike (copyBytes fileSize bufSize s is k) (copyBytes fileSize bufSize s is k') := by
  induction is generalizing k k' with
  | nil => exact h
  | cons i is ih =>
    simp only [copyBytes, h.done, h.bytesRead]
    split_ifs with hd hfull
    · exact h
    · exact ⟨rfl, rfl, h.followed, h.buf⟩
    · refine ih ⟨rfl, rfl, h.followed, ?_⟩
      intro j hj
      simp only [Set.mem_Iio] at hj
      by_cases he : j = k.bytesRead
      · simp [he]
      · simp only [Function.update_of_ne he]
        exact h.buf (show j < k.bytesRead by omega)

theorem copySectors_alike (card : Card) (fileSize bufSize : ℕ) (log : Log) (secs : List ℕ) (h : Alike k k') :
    ∃ ok r r' log', copySectors card fileSize bufSize log secs k = (ok, r, log') ∧
      copySectors card fileSize bufSize log secs k' = (ok, r', log') ∧ Alike r r' := by
  induction secs generalizing log k k' with
  | nil => exact ⟨true, k, k', log, rfl, rfl, h⟩
  | cons sec secs ih =>
    simp only [copySectors, h.done]
    split_ifs
    · exact ⟨true, k, k', log, rfl, rfl, h⟩
    · cases card.sdReadSector log sec with
      | none => exact ⟨false, k, k', _, rfl, rfl, h⟩
      | some s => exact ih _ (copyBytes_alike s (List.range 512) h)

theorem copyChain_alike (fuel : ℕ) (log : Log) (c : ℕ) (h : Alike k k') :
    Option.Rel (fun r r' ↦ r'.1 = r.1 ∧ Alike r.2.1 r'.2.1 ∧ r'.2.2 = r.2.2)
      (copyChain card b fileSize bufSize fuel log c k)
      (copyChain card b fileSize bufSize fuel log c k') := by
  induction fuel generalizing log c k k' with
  | zero => exact .none
  | succ fuel ih =>
    simp only [copyChain, h.done]
    split_ifs
    · have hk : Alike { k with followed := k.followed ++ [c] }
          { k' with done := k.done, followed := k'.followed ++ [c] } :=
        ⟨h.bytesRead, rfl, by simp only [h.followed], h.buf⟩
      obtain ⟨ok, r, r', log', hr, hr', ha⟩ :=
        copySectors_alike card fileSize bufSize log (clusterSectors b c) hk
      rw [hr, hr']
      cases ok with
      | false => exact .some ⟨rfl, ha, rfl⟩
      | true => exact ih _ _ ha
    · exact .some ⟨rfl, h, rfl⟩

/-- Two calls that read the same file, and differ at most in the rest of the buffer. -/
structure SameFile (o o' : Outcome) : Prop where
  ret : o'.ret = o.ret
  log : o'.log = o.log
  found : o'.found = o.found
  buf : Set.EqOn o'.buf o.buf (Set.Iio o.ret.toNat)

theorem SameFile.unread (ret : ℤ) (log : Log) (found : Found) (buf buf' : Buffer) (h : ret ≤ 0) :
    SameFile ⟨ret, buf, log, found, []⟩ ⟨ret, buf', log, found, []⟩ := by
  refine ⟨rfl, rfl, rfl, ?_⟩
  simp [Int.toNat_eq_zero.mpr h]

theorem sdReadFile_alike (card : Card) (name : List UInt8) (bufSize fuel : ℕ) (buf buf' : Buffer) :
    Option.Rel SameFile (sdReadFile card name bufSize fuel buf)
      (sdReadFile card name bufSize fuel buf') := by
  unfold sdReadFile
  split
  · exact .some (.unread _ _ _ _ _ (by decide))
  · next b log _ =>
    refine rel_bind (rel_refl (locate card b name fuel log)) ?_
    rintro ⟨file, log₁⟩ _ - rfl
    simp only
    split_ifs with hc hs
    · exact .some (.unread _ _ _ _ _ (by decide))
    · exact .some (.unread _ _ _ _ _ le_rfl)
    · have hk : Alike ⟨0, false, buf, []⟩ ⟨0, false, buf', []⟩ := ⟨rfl, rfl, rfl, by simp⟩
      refine rel_bind (copyChain_alike fuel log₁ file.cluster hk) ?_
      rintro ⟨_, r, _⟩ ⟨ok, r', log₂⟩ - ⟨rfl, ha, rfl⟩
      have hread : r'.bytesRead = r.bytesRead := ha.bytesRead
      refine .some ⟨?_, rfl, rfl, ?_⟩
      · simp only [hread]
      · cases ok with
        | false => simp
        | true => simpa using ha.buf

theorem sdReadFile_le (h : sdReadFile card name bufSize fuel buf = some o) : o.ret ≤ bufSize := by
  cases sdReadFile_iff.mp h with
  | unmounted => simp
  | missing => simp
  | empty => simp
  | @copied _ _ _ _ _ ok k _ _ _ _ hk =>
    have hle : k.bytesRead ≤ bufSize := copyChain_le hk (Nat.zero_le _)
    cases ok with
    | false => simp
    | true => simpa using hle

end Copying

section Accepting

theorem loadSchema_congr {n : ℕ} (schema : TableSchema) (hn : headerBytes ≤ n)
    (h : Set.EqOn buf' buf (Set.Iio n)) : loadSchema buf' n schema = loadSchema buf n schema := by
  have hlen : headerBytes = 28 := rfl
  have hbytes {first count : ℕ} (hc : first + count ≤ 28) :
      bytesAt buf' first count = bytesAt buf first count := bytesAt_congr h (by omega)
  unfold loadSchema headerField
  simp only [hbytes (show 0 + 4 ≤ 28 by omega), hbytes (show 4 + 4 ≤ 28 by omega),
    hbytes (show 8 + 4 ≤ 28 by omega), hbytes (show 12 + 4 ≤ 28 by omega),
    hbytes (show 16 + 4 ≤ 28 by omega)]
  split_ifs with h₁ h₂ h₃ h₄ h₅
  · rfl
  · rfl
  · rfl
  · rfl
  · rfl
  · simp only [Prod.mk.injEq, TableSchema.mk.injEq, true_and]
    refine List.map_congr_left fun index hindex ↦ ?_
    have := List.mem_range.mp hindex
    have hcols : maxColumns = 4 := rfl
    have hcell : cellSize = 1 := rfl
    rw [hbytes (by rw [hcell]; omega)]

theorem acceptFile_congr (target : Target) (h : SameFile o o') :
    acceptFile o' target = { acceptFile o target with buf := o'.buf } := by
  unfold acceptFile
  rw [h.ret, h.found]
  by_cases hshort : o.ret < headerBytes
  · rw [if_pos hshort, if_pos hshort]
  · obtain ⟨n, hn⟩ := Int.eq_ofNat_of_zero_le (show 0 ≤ o.ret by omega)
    have hb := h.buf
    rw [hn] at hb hshort ⊢
    rw [if_neg hshort, if_neg hshort,
      loadSchema_congr target.schema (by omega) (by simpa using hb)]
    cases loadSchema o.buf n target.schema with
    | mk ok schema =>
      cases ok with
      | false => rfl
      | true =>
        simp only
        split_ifs <;> rfl

/-- What `load_table_from_sd` promises about a table it has loaded. -/
structure WellFormed (l : Loaded) : Prop where
  size : l.target.memorySize = l.target.schema.rowCount * l.target.schema.rowWidth
  words : 4 ∣ l.target.memorySize
  fits : (headerBytes + l.target.memorySize : ℤ) ≤ l.fileBytes
  columns : 1 ≤ l.target.schema.columnCount ∧ l.target.schema.columnCount ≤ 4

theorem acceptFile_wellFormed {target : Target} (hle : o.ret ≤ sdFileMaxSize)
    (h : (acceptFile o target).ret = true) : WellFormed (acceptFile o target) := by
  obtain ⟨table, htable, htarget, -⟩ := acceptFile_ret hle h
  obtain ⟨hsize, hwidth, hfits, hcolumns⟩ := loadTable_bounds htable
  rw [delivered, length_bytesAt] at hfits
  refine ⟨?_, ?_, ?_, ?_⟩
  · rw [htarget]
    exact hsize
  · rw [htarget]
    exact ⟨table.schema.rowCount, by rw [hsize, hwidth, Nat.mul_comm]⟩
  · have hlen : headerBytes = 28 := rfl
    rw [htarget, (acceptFile_frame o target).2.1]
    simp only
    omega
  · rw [htarget]
    exact hcolumns

end Accepting

structure SameTable (l l' : Loaded) : Prop where
  ret : l'.ret = l.ret
  schema : l'.target.schema = l.target.schema
  memorySize : l'.target.memorySize = l.target.memorySize
  memory : l.ret = true → l'.memory = l.memory
  wellFormed : l.ret = true → WellFormed l

theorem acceptFile_same (target : Target) (hle : o.ret ≤ sdFileMaxSize) (h : SameFile o o') :
    SameTable (acceptFile o target) (acceptFile o' target) := by
  rw [acceptFile_congr target h]
  refine ⟨rfl, rfl, rfl, ?_, acceptFile_wellFormed hle⟩
  intro hret
  have hfits := (acceptFile_wellFormed hle hret).fits
  obtain ⟨hbuf, hbytes, -⟩ := acceptFile_frame o target
  unfold Loaded.memory
  rw [hbuf]
  rw [hbytes] at hfits
  exact bytesAt_congr h.buf
    (show headerBytes + (acceptFile o target).target.memorySize ≤ o.ret.toNat by omega)

theorem readTableFile_alike (card : Card) (tableName : List UInt8) (fuel : ℕ)
    (buf buf' : Buffer) :
    Option.Rel SameFile (readTableFile card tableName fuel buf)
      (readTableFile card tableName fuel buf') := by
  refine rel_bind (sdReadFile_alike card _ _ _ buf buf') ?_
  intro o o' _ hsame
  rw [hsame.ret, hsame.log]
  split_ifs
  · exact sdReadFile_alike _ _ _ _ _ _
  · exact .some hsame

theorem readTableFile_le (h : readTableFile card name fuel buf = some o) :
    o.ret ≤ sdFileMaxSize := by
  obtain ⟨o₁, h₁, h⟩ := Option.bind_eq_some_iff.mp h
  split_ifs at h
  · exact sdReadFile_le h
  · cases h
    exact sdReadFile_le h₁

/-- Nothing of a table comes from what was in the buffer before it was loaded. -/
theorem no_stale_table (card : Card) (tableName : List UInt8) (fuel : ℕ) (target : Target)
    (buf buf' : Buffer) :
    Option.Rel SameTable (loadTableFromSd card tableName fuel buf target)
      (loadTableFromSd card tableName fuel buf' target) := by
  have hrefused : SameTable ⟨false, target, buf, 0, notFound⟩ ⟨false, target, buf', 0, notFound⟩ :=
    ⟨rfl, rfl, rfl, fun h ↦ absurd h (by simp), fun h ↦ absurd h (by simp)⟩
  unfold loadTableFromSd
  simp only [Option.map_eq_bind]
  split_ifs
  · exact .some hrefused
  · exact .some hrefused
  · refine rel_bind (readTableFile_alike card tableName fuel buf buf') ?_
    intro o o' ho hsame
    exact .some (acceptFile_same target (readTableFile_le ho) hsame)

end FpgaDatabase.Firmware.FreshTable
