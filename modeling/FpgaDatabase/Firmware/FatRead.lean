import FpgaDatabase.Firmware.OneFile
import Mathlib.Data.List.Find
import Mathlib.Data.List.Nodup

namespace FpgaDatabase.Firmware.FatRead

open CString SdDriver SdSearch SdCopy FatVolume Library.Linked

variable {v : Volume} {w : Wanted} {name : List UInt8} {e : Slot} {bufSize : ℕ} {buf : Buffer}

def lookup (w : Wanted) (slots : List Slot) : Found :=
  ((entries slots).find? (asked w)).elim notFound foundAt

theorem yields_allocated {c : ℕ} (h : v.layout.Allocated v.image c (v.chain c)) :
    Yields v.layout.bpb v.image w 0 0 c (lookup w (clusterSlots v.image v.layout (v.chain c))) := by
  have hy := yields_chain (w := w) h.head.1 (h.chain v.formatted)
  rwa [h.sectors v.formatted, scan_entries] at hy

theorem yields_root (v : Volume) (w : Wanted) :
    RootYields v.layout.bpb v.image w (lookup w v.root) := by
  unfold Volume.root rootSlots
  cases hf : v.layout.fat32 with
  | true => exact rootYields_chain hf (yields_allocated (v.root_chain hf))
  | false =>
    have hsecs : (List.range v.layout.rootSectors).map (fun s ↦ u32 (v.layout.rootStart + s)) =
        (List.range v.layout.rootSectors).map (fun s ↦ v.layout.rootStart + s) := by
      apply List.map_congr_left
      intro s hs
      have hlt := v.formatted.starts_lt.2.2
      have hs' := List.mem_range.mp hs
      have hd : v.layout.dataStart = v.layout.rootStart + v.layout.rootSectors := rfl
      exact Layout.u32_of_lt (by omega)
    have hy := yields_region v.layout.bpb v.image w v.layout.rootStart v.layout.rootSectors
      Nat.two_pos
    rw [hsecs, scan_entries] at hy
    exact rootYields_region hf hy

theorem lookup_tables (v : Volume) : lookup wantedTables v.root =
    (tablesEntry v.image v.layout v.chain).elim notFound foundAt := by
  have hp : asked wantedTables = fun s ↦ isDir s && decide (nameOf s = tablesName) := by
    funext s
    have hn : to83 (ascii "tables") = tablesName := by decide
    simp [asked, wantedTables, hn]
  rw [lookup, hp]
  rfl

theorem copy_located (hs : fileSizeOf e ≠ 0)
    (ha : v.layout.Allocated v.image (startOf v.layout e) (v.chain (startOf v.layout e)))
    (hsize : fileSizeOf e ≤
      (v.chain (startOf v.layout e)).length * (v.layout.sectorsPerCluster * 512))
    (hlow : ru16 e.entry 26 = startOf v.layout e)
    (hl : ∀ log, ∃ fuel log', locate (sound v.image) v.layout.bpb name fuel log =
      some (foundAt e, log')) :
    ∃ o, Returns (sound v.image) name bufSize buf o ∧ o.ret = (min (fileSizeOf e) bufSize : ℕ) ∧
      (∀ i < min (fileSizeOf e) bufSize, (v.clustersOf e)[i]? = some (o.buf i)) ∧
      o.found = foundAt e ∧ o.followed <+: v.chain (startOf v.layout e) ∧
      o.followed.head? = some (startOf v.layout e) := by
  obtain ⟨log₀, hm⟩ := v.formatted.mount
  obtain ⟨fuel, log₁, hl⟩ := hl log₀
  have hpos : startOf v.layout e ≠ 0 := by
    have := ha.head.1
    omega
  have hbytes : clusterBytes v.layout.bpb v.image (v.chain (startOf v.layout e)) =
      v.clustersOf e := by
    rw [clusterBytes, ha.sectors v.formatted]
    rfl
  obtain ⟨fuel', k, log₂, visited, hk, hcopied, hfollowed, hinit⟩ :=
    copyChain_sound log₁ (ha.chain v.formatted) (v.formatted.valid ha.head)
      (copied_nil (min (fileSizeOf e) bufSize) buf) rfl
  rw [List.nil_append, hbytes] at hcopied
  have hlen : min (fileSizeOf e) bufSize ≤ (v.clustersOf e).length := by
    have := length_clusterBytes v.layout.bpb v.image (v.chain (startOf v.layout e))
    rw [hbytes] at this
    change _ = _ * (v.layout.sectorsPerCluster * 512) at this
    omega
  have hread : k.bytesRead = min (fileSizeOf e) bufSize := by
    rw [hcopied.bytesRead]
    omega
  have hk' : copyChain (sound v.image) v.layout.bpb (foundAt e).fileSize bufSize fuel' log₁
      (foundAt e).cluster ⟨0, false, buf, []⟩ = some (true, k, log₂) := by
    rw [show (foundAt e).cluster = startOf v.layout e from hlow]
    exact hk
  have hret := returns_copied hm hl (show ru16 e.entry 26 ≠ 0 by rwa [hlow]) hs hk'
  refine ⟨_, hret, ?_, ?_, rfl, ?_, ?_⟩
  · simp [hread]
  · intro i hi
    exact hcopied.buf i (by omega)
  · rw [hfollowed]
    exact hinit
  · rw [hfollowed]
    rfl

section Fat16

def shortName (base ext : List UInt8) : List UInt8 :=
  base.map toupper ++ List.replicate (8 - base.length) 32 ++
    (ext.map toupper ++ List.replicate (3 - ext.length) 32)

theorem to83_eq_shortName (hb : (baseOf name).length ≤ 8) (he : (extOf name).length ≤ 3) :
    to83 name = shortName (baseOf name) (extOf name) := by
  rw [to83, padded, padded, List.take_of_length_le hb, List.take_of_length_le he, shortName]

def named (nm : List UInt8) (e : Slot) : Bool := nameOf e = nm && fileSizeOf e ≠ 0

/-- The root directory has precedence over TABLES. -/
def present (v : Volume) (nm : List UInt8) : Option Slot :=
  ((files v.root).find? (named nm)).or ((files v.tables).find? (named nm))

variable {slots : List Slot}

/-- Where no file bears the guessed alias, only the name itself is searched for. -/
theorem lookup_file (ha : ∀ e ∈ files slots, nameOf e ≠ to83AliasGuess name) :
    lookup (wantedFile name) slots =
      ((files slots).find? (fun e ↦ nameOf e = to83 name)).elim notFound foundAt := by
  have hp : (entries slots).find? (asked (wantedFile name)) =
      (files slots).find? (fun e ↦ decide (nameOf e = to83 name)) := by
    rw [files, List.find?_filter]
    apply List.find?_congr
    intro s hs
    cases hd : isDir s with
    | true => simp [asked, wantedFile, hd]
    | false =>
      have hne := ha s (by simp [files, hs, hd])
      by_cases hn : nameOf s = to83 name
      · simp [asked, wantedFile, hd, hn]
      · simp [asked, wantedFile, hd, hn, Ne.symm hne]
  rw [lookup, hp]

theorem eq_of_name {e e' : Slot} (hd : ((entries slots).map nameOf).Nodup) (he : e ∈ files slots)
    (he' : e' ∈ files slots) (hn : nameOf e = nameOf e') : e = e' :=
  List.inj_on_of_nodup_map hd (List.mem_of_mem_filter he) (List.mem_of_mem_filter he') hn

theorem lookup_named (hd : ((entries slots).map nameOf).Nodup)
    (ha : ∀ e ∈ files slots, nameOf e ≠ to83AliasGuess name)
    (hf : (files slots).find? (named (to83 name)) = some e) :
    e ∈ files slots ∧ fileSizeOf e ≠ 0 ∧ lookup (wantedFile name) slots = foundAt e := by
  have hmem := List.mem_of_find?_eq_some hf
  have hp := List.find?_some hf
  simp only [named, Bool.and_eq_true, decide_eq_true_eq] at hp
  refine ⟨hmem, hp.2, ?_⟩
  rw [lookup_file ha]
  cases hf' : (files slots).find? (fun e ↦ decide (nameOf e = to83 name)) with
  | none => exact absurd hp.1 (by simpa using List.find?_eq_none.mp hf' e hmem)
  | some e' =>
    have hn' := List.find?_some hf'
    simp only [decide_eq_true_eq] at hn'
    rw [eq_of_name hd hmem (List.mem_of_find?_eq_some hf') (hp.1.trans hn'.symm)]
    rfl

/-- Without a non-empty file of the name, the search may still find an empty one. -/
theorem lookup_unnamed (ha : ∀ e ∈ files slots, nameOf e ≠ to83AliasGuess name)
    (hf : (files slots).find? (named (to83 name)) = none) :
    lookup (wantedFile name) slots = notFound ∨
      ∃ e ∈ files slots, fileSizeOf e = 0 ∧ lookup (wantedFile name) slots = foundAt e := by
  rw [lookup_file ha]
  cases hf' : (files slots).find? (fun e ↦ decide (nameOf e = to83 name)) with
  | none => exact .inl rfl
  | some e =>
    have hmem := List.mem_of_find?_eq_some hf'
    have hn := List.find?_some hf'
    have hsize := List.find?_eq_none.mp hf e hmem
    simp only [decide_eq_true_eq] at hn
    simp only [named, hn, decide_true, Bool.true_and, decide_eq_true_eq, ne_eq, not_not] at hsize
    exact .inr ⟨e, hmem, hsize, rfl⟩

theorem startOf_fat16 (h : v.layout.fat32 = false) (e : Slot) :
    ru16 e.entry 26 = startOf v.layout e := by simp [startOf, h]

theorem cluster_of_empty (h : v.layout.fat32 = false) (he : e ∈ files v.root ++ files v.tables)
    (hs : fileSizeOf e = 0) : (foundAt e).cluster = 0 := by
  have hf := v.file_chain e he
  rw [if_pos hs] at hf
  rw [← hf]
  exact startOf_fat16 h e

theorem cluster_of_unnamed (h : v.layout.fat32 = false)
    (hfiles : files slots ⊆ files v.root ++ files v.tables)
    (ha : ∀ e ∈ files slots, nameOf e ≠ to83AliasGuess name)
    (hf : (files slots).find? (named (to83 name)) = none) :
    (lookup (wantedFile name) slots).cluster = 0 := by
  rcases lookup_unnamed ha hf with hl | ⟨e, he, hs, hl⟩
  · rw [hl]
    rfl
  · rw [hl, cluster_of_empty h (hfiles he) hs]

theorem copy_fat16 (h : v.layout.fat32 = false) (he : e ∈ files v.root ++ files v.tables)
    (hs : fileSizeOf e ≠ 0)
    (hl : ∀ log, ∃ fuel log', locate (sound v.image) v.layout.bpb name fuel log =
      some (foundAt e, log')) :
    ∃ o, Returns (sound v.image) name bufSize buf o ∧ o.ret = (min (fileSizeOf e) bufSize : ℕ) ∧
      ∀ i < min (fileSizeOf e) bufSize, (v.clustersOf e)[i]? = some (o.buf i) := by
  have hf := v.file_chain e he
  rw [if_neg hs] at hf
  obtain ⟨o, h₁, h₂, h₃, -⟩ := copy_located hs hf.1 hf.2 (startOf_fat16 h e) hl
  exact ⟨o, h₁, h₂, h₃⟩

/-- Without a usable entry in the root directory the search goes on in TABLES, and what
it finds there is the entry of the file, or nothing usable. -/
theorem locate_in_tables (h : v.layout.fat32 = false)
    (hroot : (lookup (wantedFile name) v.root).cluster = 0) :
    (∃ f, f.cluster = 0 ∧ v.tables = [] ∧ ∀ log, ∃ fuel log',
      locate (sound v.image) v.layout.bpb name fuel log = some (f, log')) ∨
    ∀ log, ∃ fuel log', locate (sound v.image) v.layout.bpb name fuel log =
      some (lookup (wantedFile name) v.tables, log') := by
  have hr := yields_root v (wantedFile name)
  have ht := yields_root v wantedTables
  rw [lookup_tables] at ht
  cases hent : tablesEntry v.image v.layout v.chain with
  | none =>
    rw [hent] at ht
    refine .inl ⟨_, hroot, by simp [Volume.tables, tablesSlots, hent], ?_⟩
    exact locate_no_tables hr hroot ht rfl
  | some t =>
    rw [hent] at ht
    have halloc := v.tables_chain t hent
    have hlow := startOf_fat16 h t
    refine .inr (locate_tables hr hroot ht ?_ ?_)
    · have := halloc.head.1
      change ru16 t.entry 26 ≠ 0
      omega
    · have hy := yields_allocated (w := wantedFile name) halloc
      rw [show ((some t).elim notFound foundAt).cluster = startOf v.layout t from hlow]
      rwa [Volume.tables, tablesSlots, hent]

/-- Reading a file from a FAT16 volume. -/
theorem fat16_read (v : Volume) (h16 : v.layout.fat32 = false) (name : List UInt8)
    (hb : (baseOf name).length ≤ 8) (hx : (extOf name).length ≤ 3)
    (ha : ∀ e ∈ files v.root ++ files v.tables, nameOf e ≠ to83AliasGuess name)
    (bufSize : ℕ) (buf : Buffer) :
    match present v (shortName (baseOf name) (extOf name)) with
    | some e => ∃ o, Returns (sound v.image) name bufSize buf o ∧
        o.ret = (min (fileSizeOf e) bufSize : ℕ) ∧
        ∀ i < min (fileSizeOf e) bufSize, (v.clustersOf e)[i]? = some (o.buf i)
    | none => ∃ o, Returns (sound v.image) name bufSize buf o ∧ o.ret = -1 := by
  obtain ⟨log₀, hm⟩ := v.formatted.mount
  have missing {f : Found} (hc : f.cluster = 0) (hl : ∀ log, ∃ fuel log',
      locate (sound v.image) v.layout.bpb name fuel log = some (f, log')) :
      ∃ o, Returns (sound v.image) name bufSize buf o ∧ o.ret = -1 := by
    obtain ⟨fuel, log₁, hl⟩ := hl log₀
    exact ⟨_, returns_missing hm hl hc, rfl⟩
  have haroot : ∀ e ∈ files v.root, nameOf e ≠ to83AliasGuess name :=
    fun e he ↦ ha e (List.mem_append_left _ he)
  have hatables : ∀ e ∈ files v.tables, nameOf e ≠ to83AliasGuess name :=
    fun e he ↦ ha e (List.mem_append_right _ he)
  rw [← to83_eq_shortName hb hx, present]
  cases hr : (files v.root).find? (named (to83 name)) with
  | some e =>
    obtain ⟨he, hs, hl⟩ := lookup_named v.root_distinct haroot hr
    have hne : (foundAt e).cluster ≠ 0 := by
      have hf := v.file_chain e (List.mem_append_left _ he)
      rw [if_neg hs] at hf
      have := hf.1.head.1
      rw [← startOf_fat16 h16] at this
      change ru16 e.entry 26 ≠ 0
      omega
    have hy := yields_root v (wantedFile name)
    rw [show lookup (wantedFile name) v.root = foundAt e from hl] at hy
    exact copy_fat16 h16 (List.mem_append_left _ he) hs (locate_root hy hne)
  | none =>
    have hc : (lookup (wantedFile name) v.root).cluster = 0 :=
      cluster_of_unnamed h16 (List.subset_append_left _ _) haroot hr
    rw [Option.none_or]
    rcases locate_in_tables h16 hc with ⟨f, hf, hnil, hl⟩ | hl
    · rw [hnil]
      exact missing hf hl
    · cases ht : (files v.tables).find? (named (to83 name)) with
      | some e =>
        obtain ⟨he, hs, hle⟩ := lookup_named v.tables_distinct hatables ht
        rw [show lookup (wantedFile name) v.tables = foundAt e from hle] at hl
        exact copy_fat16 h16 (List.mem_append_right _ he) hs hl
      | none =>
        exact missing (cluster_of_unnamed h16 (List.subset_append_right _ _) hatables ht) hl

theorem present_oneFile {nm content : List UInt8} (h : OneFile.Storable nm)
    (hlen : content.length ≤ 512) (hne : content ≠ []) :
    present (OneFile.volume h hlen hne) nm = some (OneFile.slot nm content) := by
  have hr : files (OneFile.volume h hlen hne).root = [OneFile.slot nm content] :=
    OneFile.files_root h
  have hn : named nm (OneFile.slot nm content) = true := by
    simp [named, OneFile.nameOf_slot h, OneFile.fileSizeOf_slot hlen, hne]
  rw [present, hr, List.find?_cons_of_pos hn]
  rfl

theorem asked_slot {nm content : List UInt8} (h : OneFile.Storable nm)
    (hn : nm = to83 name ∨ nm = to83AliasGuess name) :
    asked (wantedFile name) (OneFile.slot nm content) = true := by
  simp only [asked, wantedFile, OneFile.isDir_slot, OneFile.nameOf_slot h, beq_self_eq_true,
    Bool.true_and, Bool.or_eq_true, decide_eq_true_eq, Option.some.injEq]
  exact hn.imp_right Eq.symm

/-- The only file of a volume is read under every name that asks for it. -/
theorem oneFile_read {nm content : List UInt8} (h : OneFile.Storable nm)
    (hlen : content.length ≤ 512) (hne : content ≠ [])
    (hn : nm = to83 name ∨ nm = to83AliasGuess name) (hbuf : content.length ≤ bufSize)
    (buf : Buffer) :
    ∃ o, Returns (sound (OneFile.image nm content)) name bufSize buf o ∧
      o.ret = content.length ∧ (∀ i < content.length, o.buf i = content.getD i 0) ∧
      o.found = foundAt (OneFile.slot nm content) := by
  have hlook : lookup (wantedFile name) (OneFile.volume h hlen hne).root =
      foundAt (OneFile.slot nm content) := by
    rw [lookup, show entries (OneFile.volume h hlen hne).root = _ from OneFile.entries_root h,
      List.find?_cons_of_pos (asked_slot h hn)]
    rfl
  have hy := yields_root (OneFile.volume h hlen hne) (wantedFile name)
  rw [hlook] at hy
  have hsize := @OneFile.fileSizeOf_slot nm content hlen
  have hpos := List.length_pos_of_ne_nil hne
  obtain ⟨o, h₁, h₂, h₃, h₄, -⟩ := @copy_located (OneFile.volume h hlen hne) name
    (OneFile.slot nm content) bufSize buf (by omega) (OneFile.allocated nm content)
    (by rw [hsize]; simpa [OneFile.volume, OneFile.chain, OneFile.layout] using hlen) rfl
    (locate_root hy (show 2 ≠ 0 by decide))
  rw [hsize, min_eq_left hbuf] at h₂ h₃
  refine ⟨o, h₁, h₂, ?_, h₄⟩
  intro i hi
  have hi' := h₃ i hi
  rw [OneFile.clustersOf_slot h hlen hne (by omega)] at hi'
  exact (Option.some.inj hi').symm

theorem storable_alunos : OneFile.Storable (ascii "ALUNOS  TBL") :=
  ⟨by decide, by decide, by decide, by decide⟩

theorem reads_alunos : ∃ o,
    Returns (sound (OneFile.image (ascii "ALUNOS  TBL") (ascii "tabla"))) (ascii "alunos.tbl") 3
      (fun _ ↦ 0) o ∧
    o.ret = 3 ∧ ∀ i < 3, (ascii "tabla")[i]? = some (o.buf i) := by
  have hlen : (ascii "tabla").length ≤ 512 := by decide
  have hne : ascii "tabla" ≠ [] := by decide
  have h := fat16_read (OneFile.volume storable_alunos hlen hne) rfl (ascii "alunos.tbl")
    (by decide) (by decide) (by
      intro e he
      have hroot : files (OneFile.volume storable_alunos hlen hne).root = _ :=
        OneFile.files_root storable_alunos
      have htables : (OneFile.volume storable_alunos hlen hne).tables = [] :=
        OneFile.tablesSlots_nil storable_alunos
      rw [hroot, htables] at he
      have he' : e = OneFile.slot (ascii "ALUNOS  TBL") (ascii "tabla") := by
        simpa [files, entries] using he
      rw [he', OneFile.nameOf_slot storable_alunos]
      decide) 3 (fun _ ↦ 0)
  have hnm : shortName (baseOf (ascii "alunos.tbl")) (extOf (ascii "alunos.tbl")) =
      ascii "ALUNOS  TBL" := by decide
  rw [hnm, present_oneFile] at h
  obtain ⟨o, h₁, h₂, h₃⟩ := h
  have hsize : min (fileSizeOf (OneFile.slot (ascii "ALUNOS  TBL") (ascii "tabla"))) 3 = 3 := by
    rw [OneFile.fileSizeOf_slot hlen]
    decide
  rw [hsize] at h₂ h₃
  refine ⟨o, h₁, h₂, fun i hi ↦ ?_⟩
  rw [← h₃ i hi, OneFile.clustersOf_slot _ _ _ (by omega)]
  revert i
  decide

end Fat16

end FpgaDatabase.Firmware.FatRead
