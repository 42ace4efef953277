import FpgaDatabase.Firmware.FatRead

namespace FpgaDatabase.Firmware.Fat32

open CString SdDriver SdSearch SdCopy FatVolume FatRead Library.Linked

variable {v : Volume} {name : List UInt8} {e s : Slot} {bufSize : ℕ} {buf : Buffer}

def listed (v : Volume) (nm : List UInt8) : Option Slot :=
  ((files v.root).find? (fun e ↦ nameOf e = nm)).or ((files v.tables).find? (fun e ↦ nameOf e = nm))

/-- The call reads the entry's file: it goes by that entry, follows the clusters that
begin at the start cluster recorded there, and returns the first bytes of them. -/
def ReadsOwn (v : Volume) (name : List UInt8) (bufSize : ℕ) (buf : Buffer) (e : Slot) : Prop :=
  ∃ o, Returns (sound v.image) name bufSize buf o ∧ o.found.place = some e.place ∧
    o.followed.head? = some (startOf v.layout e) ∧
    o.followed <+: v.chain (startOf v.layout e) ∧
    o.ret = (min (fileSizeOf e) bufSize : ℕ) ∧
    ∀ i < min (fileSizeOf e) bufSize, (v.clustersOf e)[i]? = some (o.buf i)

/-- The first clusters of a directory, as the driver walks them from a start cluster. -/
def Leads (v : Volume) (c : ℕ) (cs : List ℕ) : Prop :=
  2 ≤ c ∧ Walk (nextOf v.layout.bpb v.image) (fatClusValid v.layout.bpb) c cs

def firstAsked (name : List UInt8) (slots : List Slot) : Option Slot :=
  (entries slots).find? (asked (wantedFile name))

/-- The file can be reached through the lower halves of the start clusters. -/
structure Reached (v : Volume) (name : List UInt8) (e : Slot) : Prop where
  size : fileSizeOf e ≠ 0
  start : startOf v.layout e < 65536
  shown : firstAsked name v.root = some e ∨
    (∀ s, firstAsked name v.root = some s → startOf v.layout s % 65536 = 0) ∧
    ∃ t cs, tablesEntry v.image v.layout v.chain = some t ∧
      Leads v (startOf v.layout t % 65536) cs ∧
      firstAsked name (dirSlots v.image (cs.flatMap (clusterSectors v.layout.bpb))) = some e

theorem ru16_lt (p : Sector) (i : ℕ) : ru16 p i < 65536 := by
  have h₀ := (p i).toNat_lt
  have h₁ := (p (i + 1)).toNat_lt
  unfold ru16
  omega

theorem startOf_mod (h32 : v.layout.fat32 = true) (s : Slot) :
    startOf v.layout s % 65536 = ru16 s.entry 26 := by
  have := ru16_lt s.entry 26
  rw [startOf, if_pos h32]
  omega

theorem entry_of_mem {image : ℕ → Sector} {secs : List ℕ} (hs : s ∈ dirSlots image secs) :
    s.entry = entryAt (image s.place.1) s.place.2 := by
  obtain ⟨sec, -, hs⟩ := List.mem_flatMap.mp hs
  obtain ⟨k, -, rfl⟩ := List.mem_map.mp hs
  rfl

theorem mem_of_entries {slots : List Slot} (hs : s ∈ entries slots) : s ∈ slots :=
  (List.takeWhile_sublist _).subset (List.mem_of_mem_filter hs)

theorem root_dirSlots (v : Volume) : ∃ secs, v.root = dirSlots v.image secs := by
  unfold Volume.root rootSlots
  split_ifs
  · exact ⟨_, rfl⟩
  · exact ⟨_, rfl⟩

theorem tables_dirSlots (v : Volume) : ∃ secs, v.tables = dirSlots v.image secs := by
  unfold Volume.tables tablesSlots
  split
  · exact ⟨_, rfl⟩
  · exact ⟨[], rfl⟩

theorem entry_of_file (he : e ∈ files v.root ++ files v.tables) :
    e.entry = entryAt (v.image e.place.1) e.place.2 := by
  obtain ⟨secs₁, h₁⟩ := root_dirSlots v
  obtain ⟨secs₂, h₂⟩ := tables_dirSlots v
  rcases List.mem_append.mp he with he | he
  · exact entry_of_mem (h₁ ▸ mem_of_entries (List.mem_of_mem_filter he))
  · exact entry_of_mem (h₂ ▸ mem_of_entries (List.mem_of_mem_filter he))

theorem eq_of_place {secs : List ℕ} (he : e ∈ files v.root ++ files v.tables)
    (hs : s ∈ dirSlots v.image secs) (hp : s.place = e.place) : s = e := by
  have h₁ := entry_of_file he
  have h₂ := entry_of_mem hs
  rw [hp, ← h₁] at h₂
  cases s
  cases e
  simp_all

/-- A search that reports the place of a file has met the entry of the file first. -/
theorem firstAsked_of_place {secs : List ℕ} (he : e ∈ files v.root ++ files v.tables)
    (h : (lookup (wantedFile name) (dirSlots v.image secs)).place = some e.place) :
    firstAsked name (dirSlots v.image secs) = some e ∧
      lookup (wantedFile name) (dirSlots v.image secs) = foundAt e := by
  unfold lookup at h ⊢
  unfold firstAsked
  cases hf : (entries (dirSlots v.image secs)).find? (asked (wantedFile name)) with
  | none =>
    rw [hf] at h
    cases h
  | some s =>
    rw [hf] at h
    have hmem := mem_of_entries (List.mem_of_find?_eq_some hf)
    obtain rfl : s = e := eq_of_place he hmem (Option.some.inj h)
    exact ⟨rfl, rfl⟩

theorem walk_of_scanChain {w : Wanted} {purpose : Purpose} {fuel c : ℕ} {log log' : Log}
    {file : Found} {p : ℕ × ℕ}
    (h : scanChain (sound v.image) w purpose v.layout.bpb fuel log c = some (file, log'))
    (hp : file.place = some p) :
    ∃ cs, Walk (nextOf v.layout.bpb v.image) (fatClusValid v.layout.bpb) c cs ∧
      lookup w (dirSlots v.image (cs.flatMap (clusterSectors v.layout.bpb))) = file := by
  have hsound := scanChain_sound v.image w purpose v.layout.bpb fuel log c
  rw [h] at hsound
  obtain ⟨r, hsearch, hr⟩ := Option.map_eq_some_iff.mp hsound.symm
  cases r with
  | none =>
    have hr' : notFound = file := hr
    rw [← hr'] at hp
    cases hp
  | some r =>
    obtain rfl : r = file := hr
    obtain ⟨cs, hw, hcs⟩ := search_eq_some_iff.mp ⟨fuel, hsearch⟩
    refine ⟨cs, hw, ?_⟩
    rw [findSome?_clusters] at hcs
    rw [lookup, ← scan_entries, hcs]
    rfl

theorem mem_of_listed {nm : List UInt8} (h : listed v nm = some e) :
    e ∈ files v.root ++ files v.tables := by
  rcases Option.or_eq_some_iff.mp h with h | ⟨-, h⟩
  · exact List.mem_append_left _ (List.mem_of_find?_eq_some h)
  · exact List.mem_append_right _ (List.mem_of_find?_eq_some h)

theorem locate_of_reached (h32 : v.layout.fat32 = true) (h : Reached v name e)
    (hpos : startOf v.layout e ≠ 0) (log : Log) :
    ∃ fuel log', locate (sound v.image) v.layout.bpb name fuel log = some (foundAt e, log') := by
  have hlow : (foundAt e).cluster = startOf v.layout e := by
    rw [← Nat.mod_eq_of_lt h.start, startOf_mod h32]
    rfl
  have hr := yields_root v (wantedFile name)
  rcases h.shown with hroot | ⟨hroot, t, cs, ht, ⟨hc, hw⟩, hfirst⟩
  · have hl : lookup (wantedFile name) v.root = foundAt e := by
      unfold firstAsked at hroot
      rw [lookup, hroot]
      rfl
    rw [hl] at hr
    exact locate_root hr (by rwa [hlow]) log
  · have hzero : (lookup (wantedFile name) v.root).cluster = 0 := by
      unfold lookup
      cases hf : (entries v.root).find? (asked (wantedFile name)) with
      | none => rfl
      | some s =>
        have := hroot s hf
        rwa [startOf_mod h32] at this
    have hty := yields_root v wantedTables
    rw [lookup_tables, ht] at hty
    have htc : (foundAt t).cluster = startOf v.layout t % 65536 := (startOf_mod h32 t).symm
    have hscan : cs.findSome? (probe v.layout.bpb v.image (wantedFile name)) = some (foundAt e) := by
      have hs := scan_entries (wantedFile name)
        (dirSlots v.image (cs.flatMap (clusterSectors v.layout.bpb)))
      unfold firstAsked at hfirst
      rw [hfirst, ← findSome?_clusters] at hs
      cases hp : cs.findSome? (probe v.layout.bpb v.image (wantedFile name)) with
      | none =>
        rw [hp] at hs
        cases congrArg Found.place hs
      | some f =>
        rw [hp] at hs
        exact congrArg some hs
    obtain ⟨fuel, hsearch⟩ := search_eq_some_iff.mpr ⟨cs, hw, hscan⟩
    refine locate_tables hr hzero hty ?_ ?_ log
    · change (foundAt t).cluster ≠ 0
      omega
    · change Yields _ _ _ 0 0 (foundAt t).cluster _
      rw [htc]
      exact yields_of_search hc hsearch

theorem shown_of_locate (h32 : v.layout.fat32 = true) (he : e ∈ files v.root ++ files v.tables)
    {file : Found} {fuel : ℕ} {log log' : Log}
    (hl : locate (sound v.image) v.layout.bpb name fuel log = some (file, log'))
    (hc : file.cluster ≠ 0) (hp : file.place = some e.place) :
    file = foundAt e ∧ (firstAsked name v.root = some e ∨
      (∀ s, firstAsked name v.root = some s → startOf v.layout s % 65536 = 0) ∧
      ∃ t cs, tablesEntry v.image v.layout v.chain = some t ∧
        Leads v (startOf v.layout t % 65536) cs ∧
        firstAsked name (dirSlots v.image (cs.flatMap (clusterSectors v.layout.bpb))) = some e) := by
  obtain ⟨f, log₁, h₁, h⟩ := locate_eq_some_iff.mp hl
  have hf := (yields_root v (wantedFile name)).eq h₁
  split_ifs at h with hroot
  · obtain ⟨rfl, rfl⟩ := Prod.mk.inj h
    obtain ⟨secs, hsecs⟩ := root_dirSlots v
    rw [hf, hsecs] at hp
    obtain ⟨hs, hfound⟩ := firstAsked_of_place he hp
    rw [← hsecs] at hs hfound
    exact ⟨hf.trans hfound, .inl hs⟩
  · obtain ⟨tables, log₂, h₂, h⟩ := h
    have ht := (yields_root v wantedTables).eq h₂
    rw [lookup_tables] at ht
    split_ifs at h with htc
    · cases hent : tablesEntry v.image v.layout v.chain with
      | none =>
        rw [hent] at ht
        rw [ht] at htc
        exact absurd rfl htc
      | some t =>
        rw [hent] at ht
        have htl : tables.cluster = startOf v.layout t % 65536 := by
          rw [ht]
          exact (startOf_mod h32 t).symm
        have hnone : ∀ s, firstAsked name v.root = some s → startOf v.layout s % 65536 = 0 := by
          intro s hs
          unfold firstAsked at hs
          rw [startOf_mod h32]
          rw [hf, lookup, hs] at hroot
          exact not_not.mp hroot
        unfold fatScanDir at h
        split_ifs at h with h2
        · obtain ⟨cs, hw, hlook⟩ := walk_of_scanChain h hp
          rw [← hlook] at hp
          obtain ⟨hs, hfound⟩ := firstAsked_of_place he hp
          rw [htl] at h2 hw
          exact ⟨hlook.symm.trans hfound, .inr ⟨hnone, t, cs, rfl, ⟨h2, hw⟩, hs⟩⟩
        · cases h
          cases hp
    · obtain ⟨rfl, rfl⟩ := Prod.mk.inj h
      exact absurd hc hroot

/-- Reading a file from a FAT32 volume. -/
theorem fat32_read_iff (v : Volume) (h32 : v.layout.fat32 = true) (name : List UInt8)
    (bufSize : ℕ) (buf : Buffer) (e : Slot)
    (he : listed v (shortName (baseOf name) (extOf name)) = some e) :
    ReadsOwn v name bufSize buf e ↔ Reached v name e := by
  have hmem := mem_of_listed he
  constructor
  · rintro ⟨o, ⟨fuel, ho⟩, hplace, hhead, -, -, -⟩
    obtain ⟨log₀, hm⟩ := v.formatted.mount
    cases sdReadFile_iff.mp ho with
    | unmounted => cases hhead
    | missing => cases hhead
    | empty => cases hhead
    | @copied b log log₁ log₂ file ok k hm' hl hc hs hk =>
      rw [hm] at hm'
      obtain ⟨hb', rfl⟩ := Prod.mk.inj hm'
      cases hb'
      obtain ⟨hfile, hshown⟩ := shown_of_locate h32 hmem hl hc hplace
      obtain ⟨visited, hv, hvc⟩ := copyChain_followed hk
      have hstart : file.cluster = startOf v.layout e := by
        simp only [List.nil_append] at hv
        rw [hv] at hhead
        rcases hvc with hnil | hvc
        · rw [hnil] at hhead
          cases hhead
        · exact Option.some.inj (hvc.symm.trans hhead)
      refine ⟨?_, ?_, hshown⟩
      · rwa [hfile] at hs
      · rw [← hstart, hfile]
        exact ru16_lt _ _
  · intro h
    have hf := v.file_chain e hmem
    rw [if_neg h.size] at hf
    have hpos : startOf v.layout e ≠ 0 := by
      have := hf.1.head.1
      omega
    have hlow : ru16 e.entry 26 = startOf v.layout e := by
      rw [← Nat.mod_eq_of_lt h.start, startOf_mod h32]
    obtain ⟨o, h₁, h₂, h₃, h₄, h₅, h₆⟩ :=
      copy_located h.size hf.1 hf.2 hlow (locate_of_reached h32 h hpos)
    exact ⟨o, h₁, by rw [h₄]; rfl, h₆, h₅, h₂, h₃⟩

section Examples

/-- A FAT32 volume with 65537 clusters of one sector. The root directory is cluster 2 and
holds one file, which has a single cluster as well. -/
def largeLayout : Layout where
  vbr := 0
  reserved := 1
  fats := 1
  sectorsPerFat := 513
  sectorsPerCluster := 1
  rootEntries := 0
  rootCluster := 2
  clusters := 65537

def largeBoot : Sector
  | 0 => 0xEB
  | 12 => 2
  | 13 => 1
  | 14 => 1
  | 16 => 1
  | 36 => 1
  | 37 => 2
  | 44 => 2
  | 510 => 0x55
  | 511 => 0xAA
  | _ => 0

def largeRoot (start : ℕ) : Sector := fun k ↦
  if k < 11 then (ascii "ALUNOS  TBL").getD k 0
  else if k = 20 then UInt8.ofNat (start / 65536)
  else if k = 26 then UInt8.ofNat start
  else if k = 28 then 5
  else 0

def largeImage (start : ℕ) : ℕ → Sector := fun sec ↦
  if sec = 0 then largeBoot
  else if sec < 514 then fun k ↦ if k % 4 = 3 then 0x0F else 0xFF
  else if sec = 514 then largeRoot start
  else fun _ ↦ 7

def largeSlot (start : ℕ) : Slot := ⟨(514, 0), entryAt (largeImage start 514) 0⟩

def largeChain (c : ℕ) : List ℕ := [c]

variable (start : ℕ)

theorem large_formatted : largeLayout.Formatted (largeImage start) where
  start := .inl rfl
  signature := rfl
  bytesPerSector := rfl
  sectorsPerCluster := rfl
  sectorsPerCluster_pos := by decide
  reserved := rfl
  fats := rfl
  fats_pos := by decide
  rootEntries := rfl
  rootCluster := rfl
  sectorsPerFat := ⟨rfl, rfl⟩
  fatFits := by decide
  extent := by decide
  clusters_pos := by decide
  clusters_le := by decide

theorem large_allocated {c : ℕ} (hc : largeLayout.InData c) :
    largeLayout.Allocated (largeImage start) c [c] := by
  refine .last hc ?_
  have hlt : c < 65539 := hc.2
  have hsec : largeImage start (1 + 4 * c / 512) = fun k ↦ if k % 4 = 3 then 0x0F else 0xFF := by
    unfold largeImage
    rw [if_neg (by omega), if_pos (by omega)]
  have he : largeLayout.fatEntry (largeImage start) c =
      ru32 (largeImage start (1 + 4 * c / 512)) (4 * c % 512) % 0x10000000 := rfl
  have hmod (j : ℕ) (hj : j < 4) : (4 * c % 512 + j) % 4 = j := by omega
  have h₀ := hmod 0 (by omega)
  have h₁ := hmod 1 (by omega)
  have h₂ := hmod 2 (by omega)
  have h₃ := hmod 3 (by omega)
  rw [he, hsec]
  simp only [ru32, ru16, Nat.add_assoc, Nat.reduceAdd, h₁, h₂, h₃, Nat.add_zero] at h₀ ⊢
  rw [h₀]
  decide

theorem large_entries : entries (rootSlots (largeImage start) largeLayout largeChain) =
    [largeSlot start] := by
  have hslots : ∃ rest, rootSlots (largeImage start) largeLayout largeChain =
      largeSlot start :: ⟨(514, 1), entryAt (largeImage start 514) 1⟩ :: rest := ⟨_, rfl⟩
  obtain ⟨rest, hslots⟩ := hslots
  have h₀ : (largeSlot start).entry 0 = 65 := rfl
  have h₁ : entryAt (largeImage start 514) 1 0 = 0 := rfl
  have h₁₁ : (largeSlot start).entry 11 = 0 := rfl
  have hl : live (largeSlot start) = true := by
    unfold live
    rw [h₀, h₁₁]
    decide
  rw [entries, hslots, List.takeWhile_cons_of_pos (by simp [h₀]),
    List.takeWhile_cons_of_neg (by simp [h₁]), List.filter_cons_of_pos hl, List.filter_nil]

theorem large_isDir : isDir (largeSlot start) = false := by
  have h₁₁ : (largeSlot start).entry 11 = 0 := rfl
  unfold isDir
  rw [h₁₁]
  decide

theorem large_files : files (rootSlots (largeImage start) largeLayout largeChain) =
    [largeSlot start] := by
  rw [files, large_entries, List.filter_cons_of_pos (by simp [large_isDir]), List.filter_nil]

theorem large_no_tables : tablesEntry (largeImage start) largeLayout largeChain = none := by
  rw [tablesEntry, large_entries, List.find?_cons_of_neg (by simp [large_isDir]), List.find?_nil]

theorem large_tables : tablesSlots (largeImage start) largeLayout largeChain = [] := by
  rw [tablesSlots, large_no_tables]

theorem large_size : fileSizeOf (largeSlot start) = 5 := rfl

def largeVolume (h : startOf largeLayout (largeSlot start) = start)
    (hd : largeLayout.InData start) : Volume where
  image := largeImage start
  layout := largeLayout
  chain := largeChain
  formatted := large_formatted start
  root_chain := fun _ ↦ large_allocated start ⟨by decide, by decide⟩
  tables_chain := by
    intro t ht
    rw [large_no_tables] at ht
    cases ht
  root_distinct := by
    rw [large_entries]
    exact List.nodup_singleton _
  tables_distinct := by
    rw [large_tables]
    exact List.nodup_nil
  file_chain := by
    intro e he
    rw [large_files, large_tables] at he
    have he' : e = largeSlot start := by simpa [files, entries] using he
    subst he'
    rw [large_size, if_neg (by decide), h]
    exact ⟨large_allocated start hd, show 5 ≤ 1 * (1 * 512) by decide⟩

theorem large_listed (h : startOf largeLayout (largeSlot start) = start)
    (hd : largeLayout.InData start) :
    listed (largeVolume start h hd) (shortName (baseOf (ascii "alunos.tbl"))
      (extOf (ascii "alunos.tbl"))) = some (largeSlot start) := by
  have hr : files (largeVolume start h hd).root = [largeSlot start] := large_files start
  have hn : nameOf (largeSlot start) = shortName (baseOf (ascii "alunos.tbl"))
      (extOf (ascii "alunos.tbl")) := by
    rw [show nameOf (largeSlot start) = ascii "ALUNOS  TBL" from rfl]
    decide
  rw [listed, hr, List.find?_cons_of_pos (by simpa using hn)]
  rfl

def lowVolume : Volume := largeVolume 3 rfl ⟨by decide, by decide⟩
def highVolume : Volume := largeVolume 65538 rfl ⟨by decide, by decide⟩

theorem low_file_read :
    listed lowVolume (shortName (baseOf (ascii "alunos.tbl")) (extOf (ascii "alunos.tbl"))) =
      some (largeSlot 3) ∧
    ReadsOwn lowVolume (ascii "alunos.tbl") 3 (fun _ ↦ 0) (largeSlot 3) := by
  have hl := large_listed 3 rfl ⟨by decide, by decide⟩
  refine ⟨hl, (fat32_read_iff lowVolume rfl (ascii "alunos.tbl") 3 (fun _ ↦ 0) (largeSlot 3) hl).mpr
    ⟨by decide, by decide, .inl ?_⟩⟩
  have hr : entries lowVolume.root = [largeSlot 3] := large_entries 3
  rw [firstAsked, hr, List.find?_cons_of_pos (by decide)]

/-- The file starts at cluster 65538, and the root directory at cluster 2 is read in
its place. -/
theorem high_file_misread :
    listed highVolume (shortName (baseOf (ascii "alunos.tbl")) (extOf (ascii "alunos.tbl"))) =
      some (largeSlot 65538) ∧
    ¬ ReadsOwn highVolume (ascii "alunos.tbl") 3 (fun _ ↦ 0) (largeSlot 65538) := by
  refine ⟨large_listed 65538 rfl ⟨by decide, by decide⟩, ?_⟩
  rintro ⟨o, hr, -, hhead, -⟩
  have hfollowed : (sdReadFile (sound highVolume.image) (ascii "alunos.tbl") 3 4 (fun _ ↦ 0)).map
      Outcome.followed = some [2] := by decide +kernel
  obtain ⟨o', ho', hf⟩ := Option.map_eq_some_iff.mp hfollowed
  have heq := hr.unique ⟨4, ho'⟩
  rw [heq, hf] at hhead
  cases hhead

end Examples

end FpgaDatabase.Firmware.Fat32
