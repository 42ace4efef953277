import FpgaDatabase.Firmware.FatVolume

namespace FpgaDatabase.Firmware.OneFile

open SdDriver SdSearch SdCopy FatVolume

/-- The smallest FAT16 volume with a file: a boot sector, one sector of FAT, one sector
of root directory, and the clusters 2 and 3 of one sector each. -/
def layout : Layout where
  vbr := 0
  reserved := 1
  fats := 1
  sectorsPerFat := 1
  sectorsPerCluster := 1
  rootEntries := 16
  rootCluster := 0
  clusters := 2

def bootSector : Sector
  | 0 => 0xEB
  | 12 => 2
  | 13 => 1
  | 14 => 1
  | 16 => 1
  | 17 => 16
  | 22 => 1
  | 510 => 0x55
  | 511 => 0xAA
  | _ => 0

def fatSector : Sector
  | 4 => 0xFF
  | 5 => 0xFF
  | _ => 0

variable (nm content : List UInt8)

def rootSector : Sector := fun k ↦
  if k < 11 then nm.getD k 0
  else if k = 26 then 2
  else if k = 28 then UInt8.ofNat (content.length % 256)
  else if k = 29 then UInt8.ofNat (content.length / 256)
  else 0

def image : ℕ → Sector
  | 0 => bootSector
  | 1 => fatSector
  | 2 => rootSector nm content
  | 3 => fun k ↦ content.getD k 0
  | _ => fun _ ↦ 0

def slot : Slot := ⟨(2, 0), entryAt (image nm content 2) 0⟩

def chain (_ : ℕ) : List ℕ := [2]

theorem formatted : layout.Formatted (image nm content) where
  start := .inl rfl
  signature := rfl
  bytesPerSector := rfl
  sectorsPerCluster := rfl
  sectorsPerCluster_pos := by decide
  reserved := rfl
  fats := rfl
  fats_pos := by decide
  rootEntries := rfl
  rootCluster := rfl
  sectorsPerFat := rfl
  fatFits := by decide
  extent := by decide
  clusters_pos := by decide
  clusters_le := by decide

theorem allocated : layout.Allocated (image nm content) 2 [2] := by
  have he : layout.fatEntry (image nm content) 2 = ru16 fatSector 4 := rfl
  refine .last ⟨by decide, by decide⟩ ?_
  rw [he]
  decide

/-- A name that a directory can store: the first byte is neither of the two marks of a
free slot nor a point. -/
structure Storable (nm : List UInt8) : Prop where
  length : nm.length = 11
  used : nm.getD 0 0 ≠ 0
  kept : nm.getD 0 0 ≠ 0xE5
  plain : nm.getD 0 0 ≠ 46

variable {nm content} (h : Storable nm) (hlen : content.length ≤ 512)

include h in
theorem entries_root : entries (rootSlots (image nm content) layout chain) = [slot nm content] := by
  have hslots : ∃ rest, rootSlots (image nm content) layout chain =
      slot nm content :: ⟨(2, 1), entryAt (image nm content 2) 1⟩ :: rest := ⟨_, rfl⟩
  obtain ⟨rest, hslots⟩ := hslots
  have h₀ : (slot nm content).entry 0 = nm.getD 0 0 := rfl
  have h₁ : entryAt (image nm content 2) 1 0 = 0 := rfl
  have hl : live (slot nm content) = true := by
    have ha : (slot nm content).entry 11 = 0 := rfl
    unfold live
    rw [h₀, ha]
    simp only [Bool.and_eq_true, decide_eq_true_eq]
    exact ⟨⟨⟨h.kept, by decide⟩, by decide⟩, h.plain⟩
  rw [entries, hslots, List.takeWhile_cons_of_pos (by simpa [h₀] using h.used),
    List.takeWhile_cons_of_neg (by simp [h₁]), List.filter_cons_of_pos hl, List.filter_nil]

theorem isDir_slot : isDir (slot nm content) = false := by
  have ha : (slot nm content).entry 11 = 0 := rfl
  unfold isDir
  rw [ha]
  decide

include h in
theorem files_root : files (rootSlots (image nm content) layout chain) = [slot nm content] := by
  rw [files, entries_root h, List.filter_cons_of_pos (by simp [isDir_slot]), List.filter_nil]

include h in
theorem no_tables : tablesEntry (image nm content) layout chain = none := by
  rw [tablesEntry, entries_root h, List.find?_cons_of_neg (by simp [isDir_slot]), List.find?_nil]

include h in
theorem tablesSlots_nil : tablesSlots (image nm content) layout chain = [] := by
  rw [tablesSlots, no_tables h]

include hlen in
theorem fileSizeOf_slot : fileSizeOf (slot nm content) = content.length := by
  have he : fileSizeOf (slot nm content) = (UInt8.ofNat (content.length % 256)).toNat +
      256 * (UInt8.ofNat (content.length / 256)).toNat := by
    unfold fileSizeOf ru32 ru16
    change _ + 256 * _ + 65536 * (0 + 256 * 0) = _
    rfl
  rw [he, UInt8.toNat_ofNat', UInt8.toNat_ofNat']
  omega

include h in
theorem nameOf_slot : nameOf (slot nm content) = nm := by
  apply List.ext_getElem
  · simp [nameOf, entryName, h.length]
  · intro k hk hk'
    have hlt : k < 11 := by rwa [h.length] at hk'
    simp [nameOf, entryName, slot, entryAt, image, rootSector, hlt, hk']

def volume (hne : content ≠ []) : Volume where
  image := image nm content
  layout := layout
  chain := chain
  formatted := formatted nm content
  root_chain := fun hf ↦ absurd hf (by decide)
  tables_chain := by
    intro t ht
    rw [no_tables h] at ht
    cases ht
  root_distinct := by
    rw [entries_root h]
    exact List.nodup_singleton _
  tables_distinct := by
    rw [tablesSlots_nil h]
    exact List.nodup_nil
  file_chain := by
    intro e he
    rw [files_root h, tablesSlots_nil h] at he
    have he' : e = slot nm content := by simpa [files, entries] using he
    subst he'
    rw [fileSizeOf_slot hlen, if_neg (by simpa using hne)]
    exact ⟨allocated nm content, by simpa [chain, layout] using hlen⟩

theorem clustersOf_slot (hne : content ≠ []) {i : ℕ} (hi : i < 512) :
    ((volume h hlen hne).clustersOf (slot nm content))[i]? = some (content.getD i 0) := by
  have hc : (volume h hlen hne).clustersOf (slot nm content) =
      [3].flatMap (sectorBytes (image nm content)) :=
    congrArg (List.flatMap (sectorBytes (image nm content)))
      (show [2].flatMap layout.cluster = [3] by decide)
  rw [hc, List.flatMap_singleton, sectorBytes, List.getElem?_map, List.getElem?_range hi]
  rfl

end FpgaDatabase.Firmware.OneFile
