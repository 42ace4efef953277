import FpgaDatabase.Firmware.SdCopy

namespace FpgaDatabase.Firmware.FatVolume

open CString SdDriver SdSearch SdCopy Library.Linked

/-- The numbers recorded in a boot sector, and how many clusters the data area holds. -/
structure Layout where
  vbr : ℕ
  reserved : ℕ
  fats : ℕ
  sectorsPerFat : ℕ
  sectorsPerCluster : ℕ
  rootEntries : ℕ
  rootCluster : ℕ
  clusters : ℕ

namespace Layout

variable (L : Layout) (image : ℕ → Sector)

def fat32 : Bool := L.rootEntries = 0

def fatStart : ℕ := L.vbr + L.reserved
def rootStart : ℕ := L.fatStart + L.fats * L.sectorsPerFat

/-- The last sector may reach past the last entry of the root directory. -/
def rootSectors : ℕ := (L.rootEntries * 32 + 511) / 512

def dataStart : ℕ := L.rootStart + L.rootSectors

def InData (c : ℕ) : Prop := 2 ≤ c ∧ c < L.clusters + 2

/-- The sectors of a cluster; the first two cluster numbers are not used. -/
def cluster (c : ℕ) : List ℕ :=
  (List.range L.sectorsPerCluster).map
    (fun s ↦ L.dataStart + (c - 2) * L.sectorsPerCluster + s)

def entryWidth : ℕ := if L.fat32 then 4 else 2

def fatEntry (c : ℕ) : ℕ :=
  let off := L.entryWidth * c
  let s := image (L.fatStart + off / 512)
  if L.fat32 then ru32 s (off % 512) % 0x10000000 else ru16 s (off % 512)

def endMark : ℕ := if L.fat32 then 0x0FFFFFF8 else 0xFFF8

/-- The clusters of a file or a directory. A list that ends with an end mark visits no
cluster twice. -/
inductive Allocated : ℕ → List ℕ → Prop
  | last {c : ℕ} : L.InData c → L.endMark ≤ L.fatEntry image c → Allocated c [c]
  | link {c : ℕ} {cs : List ℕ} :
      L.InData c → Allocated (L.fatEntry image c) cs → Allocated c (c :: cs)

def jump (s : Sector) : Prop := s 0 = 0xEB ∨ s 0 = 0xE9

/-- The boot sector describes the layout, and the volume has room for what it says. -/
structure Formatted : Prop where
  start : if L.vbr = 0 then jump (image 0)
    else ¬ jump (image 0) ∧ signed (image 0) = true ∧ ru32 (image 0) 454 = L.vbr
  signature : signed (image L.vbr) = true
  bytesPerSector : ru16 (image L.vbr) 11 = 512
  sectorsPerCluster : (image L.vbr 13).toNat = L.sectorsPerCluster
  sectorsPerCluster_pos : 0 < L.sectorsPerCluster
  reserved : ru16 (image L.vbr) 14 = L.reserved
  fats : (image L.vbr 16).toNat = L.fats
  fats_pos : 0 < L.fats
  rootEntries : ru16 (image L.vbr) 17 = L.rootEntries
  rootCluster : ru32 (image L.vbr) 44 = L.rootCluster
  sectorsPerFat : if L.fat32 then ru16 (image L.vbr) 22 = 0 ∧ ru32 (image L.vbr) 36 = L.sectorsPerFat
    else ru16 (image L.vbr) 22 = L.sectorsPerFat
  fatFits : L.entryWidth * (L.clusters + 2) ≤ 512 * L.sectorsPerFat
  extent : L.dataStart + L.clusters * L.sectorsPerCluster ≤ 4294967296
  clusters_pos : 0 < L.clusters
  clusters_le : L.clusters + 2 ≤ if L.fat32 then 0x0FFFFFF7 else 0xFFF7

/-- What `fat_parse_bpb` should make of the boot sector. -/
def bpb : FatBPB where
  bytesPerSector := 512
  sectorsPerCluster := L.sectorsPerCluster
  reservedSectors := L.reserved
  numFats := L.fats
  rootEntryCount := L.rootEntries
  sectorsPerFat := L.sectorsPerFat
  rootCluster := L.rootCluster
  isFat32 := L.fat32
  fatStart := L.fatStart
  rootDirSector := L.rootStart
  rootDirSectors := L.rootSectors
  dataStart := L.dataStart

variable {L image} {c : ℕ} {cs : List ℕ}

theorem Formatted.sectorsPerFat_pos (h : L.Formatted image) : 0 < L.sectorsPerFat := by
  have hf := h.fatFits
  unfold entryWidth at hf
  split at hf <;> omega

theorem u32_of_lt {n : ℕ} (h : n < 4294967296) : u32 n = n := Nat.mod_eq_of_lt h

theorem Formatted.dataStart_lt (h : L.Formatted image) (hc : L.InData c) :
    L.dataStart + (c - 2) * L.sectorsPerCluster + L.sectorsPerCluster ≤ 4294967296 := by
  have he := h.extent
  have hmul : (c - 2 + 1) * L.sectorsPerCluster ≤ L.clusters * L.sectorsPerCluster :=
    Nat.mul_le_mul_right _ (by have := hc.2; have := hc.1; omega)
  rw [Nat.add_mul, Nat.one_mul] at hmul
  omega

theorem Formatted.starts_lt (h : L.Formatted image) :
    L.fatStart < 4294967296 ∧ L.rootStart < 4294967296 ∧ L.dataStart < 4294967296 := by
  have he := h.extent
  have hpos := Nat.mul_pos h.clusters_pos h.sectorsPerCluster_pos
  have hdata : L.dataStart = L.rootStart + L.rootSectors := rfl
  have hroot : L.rootStart = L.fatStart + L.fats * L.sectorsPerFat := rfl
  omega

theorem Formatted.parse (h : L.Formatted image) :
    fatParseBpb (image L.vbr) L.vbr = some L.bpb := by
  obtain ⟨h₁, h₂, h₃⟩ := h.starts_lt
  have hspf : (if ru16 (image L.vbr) 22 ≠ 0 then ru16 (image L.vbr) 22 else ru32 (image L.vbr) 36) =
      L.sectorsPerFat := by
    have hs := h.sectorsPerFat
    have hp := h.sectorsPerFat_pos
    cases hf : L.fat32 with
    | true =>
      rw [hf, if_pos rfl] at hs
      simp [hs.1, hs.2]
    | false =>
      rw [hf, if_neg (by simp)] at hs
      simp [hs, hp.ne']
  have hspc : image L.vbr 13 ≠ 0 := by
    intro he
    have hs := h.sectorsPerCluster
    rw [he] at hs
    exact h.sectorsPerCluster_pos.ne hs
  have hfats : image L.vbr 16 ≠ 0 := by
    intro he
    have hs := h.fats
    rw [he] at hs
    exact h.fats_pos.ne hs
  have hfat : u32 (L.vbr + L.reserved) = L.fatStart := u32_of_lt h₁
  have hroot : u32 (L.fatStart + L.fats * L.sectorsPerFat) = L.rootStart := u32_of_lt h₂
  have hdata : u32 (L.rootStart + (L.rootEntries * 32 + 511) / 512) = L.dataStart := u32_of_lt h₃
  unfold fatParseBpb
  simp only [hspf, h.signature, h.bytesPerSector, h.reserved, h.fats, h.rootEntries, h.rootCluster,
    h.sectorsPerCluster, hspc, hfats, hfat, hroot, hdata, Bool.not_true, Bool.false_eq_true, ne_eq,
    not_true_eq_false, if_false]
  rfl

theorem Formatted.findVbr (h : L.Formatted image) : fatFindVbr (image 0) = L.vbr := by
  have hs := h.start
  unfold jump at hs
  unfold fatFindVbr
  by_cases hv : L.vbr = 0
  · rw [if_pos hv] at hs
    rw [if_pos hs, hv]
  · rw [if_neg hv] at hs
    rw [if_neg hs.1, if_pos hs.2.1, hs.2.2]

theorem Formatted.mount (h : L.Formatted image) :
    ∃ log, SdDriver.mount (sound image) = (some L.bpb, log) := by
  unfold SdDriver.mount
  simp only [sdReadSector_sound, h.findVbr]
  split_ifs with hv
  · rw [← hv, h.parse]
    exact ⟨_, rfl⟩
  · rw [h.parse]
    exact ⟨_, rfl⟩

theorem Formatted.clusterSectors_eq (h : L.Formatted image) (hc : L.InData c) :
    clusterSectors L.bpb c = L.cluster c := by
  have hlt := h.dataStart_lt hc
  have hle := h.clusters_le
  have hc' : u32 (c + 4294967294) = c - 2 := by
    have hb : c + 4294967294 = c - 2 + 4294967296 := by
      have := hc.1
      omega
    rw [u32, hb, Nat.add_mod_right, Nat.mod_eq_of_lt]
    have := hc.2
    split at hle <;> omega
  unfold clusterSectors cluster fatClus2sec
  apply List.map_congr_left
  intro s hs
  have hs' : s < L.sectorsPerCluster := List.mem_range.mp hs
  rw [hc']
  change u32 (u32 (L.dataStart + (c - 2) * L.sectorsPerCluster) + s) = _
  rw [u32_of_lt (show L.dataStart + (c - 2) * L.sectorsPerCluster < 4294967296 by omega),
    u32_of_lt (by omega)]

theorem Formatted.nextOf_eq (h : L.Formatted image) (hc : L.InData c) :
    nextOf L.bpb image c = L.fatEntry image c := by
  have hle := h.clusters_le
  have hlt := h.starts_lt.2.1
  have hfits : L.entryWidth * c / 512 < L.sectorsPerFat := by
    have hmul : L.entryWidth * (c + 1) ≤ L.entryWidth * (L.clusters + 2) :=
      Nat.mul_le_mul_left _ hc.2
    have hw : 0 < L.entryWidth := by
      unfold entryWidth
      split <;> omega
    have hfit := h.fatFits
    rw [Nat.mul_add, Nat.mul_one] at hmul
    omega
  have hsec : fatSector L.bpb (L.entryWidth * c) = L.fatStart + L.entryWidth * c / 512 := by
    have hfat : L.rootStart = L.fatStart + L.fats * L.sectorsPerFat := rfl
    have hmul := Nat.mul_le_mul_right L.sectorsPerFat h.fats_pos
    exact u32_of_lt (show L.fatStart + L.entryWidth * c / 512 < 4294967296 by omega)
  have hoff : u32 (L.entryWidth * c) = L.entryWidth * c := by
    apply u32_of_lt
    have := hc.2
    unfold entryWidth
    split at hle <;> split <;> omega
  unfold nextOf fatNextCluster fatEntry
  change (if L.fat32 = true then _ else _) = _
  unfold entryWidth at hsec hoff ⊢
  cases hf : L.fat32 with
  | true =>
    rw [hf, if_pos rfl] at hsec hoff
    simp only [if_true, fat32Next, sdReadSector_sound, Nat.mul_comm c, hoff, hsec]
  | false =>
    rw [hf, if_neg (by simp)] at hsec hoff
    simp only [Bool.false_eq_true, if_false, fat16Next, sdReadSector_sound, Nat.mul_comm c, hoff,
      hsec]

theorem Formatted.valid (h : L.Formatted image) (hc : L.InData c) :
    fatClusValid L.bpb c = true := by
  have hle := h.clusters_le
  have hlt := hc.2
  have hge := hc.1
  unfold fatClusValid fatIsEoc
  change (_ && !(if L.fat32 = true then _ else _)) = true
  split at hle
  · next hf => simp [hf]; omega
  · next hf => simp [hf]; omega

theorem Allocated.inData (h : L.Allocated image c cs) : ∀ d ∈ cs, L.InData d := by
  induction h with
  | last hc _ => simpa using hc
  | link hc _ ih => simpa [hc] using ih

theorem Allocated.head (h : L.Allocated image c cs) : L.InData c := by
  cases h with
  | last hc _ => exact hc
  | link hc _ => exact hc

theorem Allocated.chain (hf : L.Formatted image) (h : L.Allocated image c cs) :
    Chain (nextOf L.bpb image) (fatClusValid L.bpb) c cs := by
  induction h with
  | @last c hc he =>
    apply Chain.last
    rw [hf.nextOf_eq hc]
    unfold endMark at he
    unfold fatClusValid fatIsEoc
    change (_ && !(if L.fat32 = true then _ else _)) = false
    split at he
    · next h₁ => simp [h₁, he]
    · next h₁ => simp [h₁, he]
  | @link c cs hc h ih =>
    rw [← hf.nextOf_eq hc] at h ih
    exact .link (hf.valid h.head) ih

theorem Allocated.sectors (hf : L.Formatted image) (h : L.Allocated image c cs) :
    cs.flatMap (clusterSectors L.bpb) = cs.flatMap L.cluster := by
  rw [List.flatMap_congr fun d hd ↦ hf.clusterSectors_eq (h.inData d hd)]

end Layout

section Directories

/-- A slot that is in use: neither erased, nor part of a long name, nor a volume label,
nor one of the two links of a subdirectory. -/
def live (s : Slot) : Bool :=
  s.entry 0 ≠ 0xE5 && s.entry 11 ≠ 0x0F && s.entry 11 &&& 0x08 = 0 && s.entry 0 ≠ 46

def isDir (s : Slot) : Bool := s.entry 11 &&& 0x10 ≠ 0

def nameOf (s : Slot) : List UInt8 := entryName s.entry

def fileSizeOf (s : Slot) : ℕ := ru32 s.entry 28

/-- The recorded start cluster; its upper half exists in FAT32 only. -/
def startOf (L : Layout) (s : Slot) : ℕ :=
  if L.fat32 then ru16 s.entry 26 + 65536 * ru16 s.entry 20 else ru16 s.entry 26

/-- A directory ends at its first unused slot. -/
def entries (slots : List Slot) : List Slot :=
  (slots.takeWhile (fun s ↦ s.entry 0 ≠ 0)).filter live

def files (slots : List Slot) : List Slot := (entries slots).filter (fun s ↦ !isDir s)

def asked (w : Wanted) (s : Slot) : Bool :=
  isDir s == w.wantDir && (nameOf s = w.name83 || w.altName83 = some (nameOf s))

def foundAt (s : Slot) : Found := ⟨ru16 s.entry 26, ru32 s.entry 28, some s.place⟩

theorem live_iff {s : Slot} : live s = true ↔ ¬ s.entry 0 = 0xE5 ∧ ¬ s.entry 11 = 0x0F ∧
    ¬ s.entry 11 &&& 0x08 ≠ 0 ∧ ¬ s.entry 0 = 46 := by
  simp [live, and_assoc]

theorem asked_iff {w : Wanted} {s : Slot} : asked w s = true ↔
    ¬ (w.wantDir = true ∧ s.entry 11 &&& 0x10 = 0) ∧
      ¬ (¬ w.wantDir = true ∧ s.entry 11 &&& 0x10 ≠ 0) ∧
        (entryName s.entry = w.name83 ∨ w.altName83 = some (entryName s.entry)) := by
  rw [show entryName s.entry = nameOf s from rfl]
  cases hwant : w.wantDir <;> by_cases hdir : s.entry 11 &&& 0x10 = 0 <;>
    simp [asked, isDir, hwant, hdir]

theorem scan_eq (w : Wanted) (s : Slot) : s.scan w =
    if s.entry 0 = 0 then some notFound
    else if live s ∧ asked w s then some (foundAt s) else none := by
  simp only [live_iff, asked_iff, and_assoc]
  simp only [Slot.scan, scanEntry, foundAt, ite_and, ite_not]

theorem scan_entries (w : Wanted) (slots : List Slot) :
    (slots.findSome? (Slot.scan w)).getD notFound =
      ((entries slots).find? (asked w)).elim notFound foundAt := by
  induction slots with
  | nil => rfl
  | cons s slots ih =>
    rw [List.findSome?_cons, scan_eq]
    by_cases h₀ : s.entry 0 = 0
    · simp [entries, h₀]
    · by_cases hl : live s = true
      · by_cases hw : asked w s = true
        · simp [entries, h₀, hl, hw]
        · rw [if_neg h₀, if_neg (by simp [hw])]
          simpa [entries, h₀, hl, hw] using ih
      · rw [if_neg h₀, if_neg (by simp [hl])]
        simpa [entries, h₀, hl] using ih

end Directories

section Volumes

variable (image : ℕ → Sector) (L : Layout) (chain : ℕ → List ℕ)

def clusterSlots (cs : List ℕ) : List Slot := dirSlots image (cs.flatMap L.cluster)

def rootSlots : List Slot :=
  if L.fat32 then clusterSlots image L (chain L.rootCluster)
  else dirSlots image ((List.range L.rootSectors).map (fun s ↦ L.rootStart + s))

def tablesName : List UInt8 := ascii "TABLES     "

def tablesEntry : Option Slot :=
  (entries (rootSlots image L chain)).find? (fun s ↦ isDir s && nameOf s = tablesName)

def tablesSlots : List Slot :=
  match tablesEntry image L chain with
  | some t => clusterSlots image L (chain (startOf L t))
  | none => []

/-- A well-formed volume. `chain` lists the clusters that begin at a start cluster. -/
structure Volume where
  image : ℕ → Sector
  layout : Layout
  chain : ℕ → List ℕ
  formatted : layout.Formatted image
  root_chain : layout.fat32 = true →
    layout.Allocated image layout.rootCluster (chain layout.rootCluster)
  tables_chain : ∀ t, tablesEntry image layout chain = some t →
    layout.Allocated image (startOf layout t) (chain (startOf layout t))
  root_distinct : ((entries (rootSlots image layout chain)).map nameOf).Nodup
  tables_distinct : ((entries (tablesSlots image layout chain)).map nameOf).Nodup
  file_chain : ∀ e ∈ files (rootSlots image layout chain) ++ files (tablesSlots image layout chain),
    if fileSizeOf e = 0 then startOf layout e = 0
    else layout.Allocated image (startOf layout e) (chain (startOf layout e)) ∧
      fileSizeOf e ≤ (chain (startOf layout e)).length * (layout.sectorsPerCluster * 512)

end Volumes

namespace Volume

variable (v : Volume)

def root : List Slot := rootSlots v.image v.layout v.chain
def tables : List Slot := tablesSlots v.image v.layout v.chain

def clustersOf (e : Slot) : List UInt8 :=
  ((v.chain (startOf v.layout e)).flatMap v.layout.cluster).flatMap (sectorBytes v.image)

end Volume

end FpgaDatabase.Firmware.FatVolume
