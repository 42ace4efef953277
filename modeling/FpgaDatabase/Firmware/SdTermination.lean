import FpgaDatabase.Firmware.OneFile
import Mathlib.Order.Interval.Finset.Nat

namespace FpgaDatabase.Firmware.SdTermination

open CString SdDriver SdSearch SdCopy Library.Linked

section Copying

variable (card : Card) {b : FatBPB} (fileSize : ℕ) {bufSize : ℕ}

/-- Looking at a byte moves the copy on or completes it. -/
theorem copyBytes_progress (s : Sector) {is : List ℕ} (hne : is ≠ []) (k : Copy) :
    (copyBytes fileSize bufSize s is k).done = true ∨
      k.bytesRead < (copyBytes fileSize bufSize s is k).bytesRead := by
  obtain ⟨i, is, rfl⟩ := List.exists_cons_of_ne_nil hne
  rw [copyBytes]
  split_ifs with hd hfull
  · exact .inl hd
  · exact .inl rfl
  · exact .inr (copyBytes_le fileSize s is { k with
      bytesRead := k.bytesRead + 1, buf := Function.update k.buf k.bytesRead (s i) }
      (by simp only; omega)).1

theorem copySectors_done (log : Log) (secs : List ℕ) (k : Copy) (h : k.done = true) :
    copySectors card fileSize bufSize log secs k = (true, k, log) := by
  cases secs with
  | nil => rfl
  | cons sec secs => rw [copySectors, if_pos h]

theorem copySectors_progress (log : Log) (sec : ℕ) (secs : List ℕ) (k : Copy)
    (h : k.bytesRead ≤ bufSize) :
    (copySectors card fileSize bufSize log (sec :: secs) k).1 = false ∨
      (copySectors card fileSize bufSize log (sec :: secs) k).2.1.done = true ∨
      k.bytesRead < (copySectors card fileSize bufSize log (sec :: secs) k).2.1.bytesRead := by
  rw [copySectors]
  split_ifs with hd
  · exact .inr (.inl hd)
  · split
    · exact .inl rfl
    · next s _ =>
      have hle := copyBytes_le fileSize s (List.range 512) k h
      have hne : List.range 512 ≠ [] := by simp
      rcases copyBytes_progress fileSize s hne k with hdone | hlt
      · rw [copySectors_done _ _ _ _ _ hdone]
        exact .inr (.inl hdone)
      · have hrest := copySectors_le card fileSize (card.record log .data) secs _ hle.2
        exact .inr (.inr (lt_of_lt_of_le hlt hrest.1))

/-- The copy loop ends, whatever the chain looks like: every round copies something. -/
theorem copyChain_ends (hspc : 0 < b.sectorsPerCluster) (log : Log) (c : ℕ) (k : Copy)
    (h : k.bytesRead ≤ bufSize) :
    ∃ fuel r, copyChain card b fileSize bufSize fuel log c k = some r := by
  induction hn : bufSize - k.bytesRead using Nat.strong_induction_on generalizing log c k with
  | _ n ih =>
    by_cases hstop : k.done = true ∨ fatClusValid b c = false
    · exact ⟨1, _, copyChain_stop _ _ _ _ _ hstop⟩
    · rw [not_or, Bool.not_eq_true, Bool.not_eq_false] at hstop
      obtain ⟨hd, hv⟩ := hstop
      obtain ⟨sec, secs, hsecs⟩ : ∃ sec secs, clusterSectors b c = sec :: secs := by
        apply List.exists_cons_of_ne_nil
        rw [clusterSectors, ne_eq, List.map_eq_nil_iff, List.range_eq_nil]
        omega
      let k₀ : Copy := { k with followed := k.followed ++ [c] }
      have hle := copySectors_le card fileSize log (sec :: secs) k₀ h
      have hprogress := copySectors_progress card fileSize log sec secs k₀ h
      cases hs : copySectors card fileSize bufSize log (sec :: secs) k₀ with
      | mk ok rest =>
        obtain ⟨k', log'⟩ := rest
        rw [hs] at hle hprogress
        have hround (fuel : ℕ) : copyChain card b fileSize bufSize (fuel + 1) log c k = _ :=
          copyChain_succ card fuel log c k hd hv
        rw [hsecs, hs] at hround
        cases ok with
        | false => exact ⟨1, _, hround 0⟩
        | true =>
          by_cases hd' : k'.done = true
          · exact ⟨2, _, (hround 1).trans (copyChain_stop _ _ _ _ _ (.inl hd'))⟩
          · have hlt : k.bytesRead < k'.bytesRead := by
              rcases hprogress with hp | hp | hp
              · cases hp
              · exact absurd hp hd'
              · exact hp
            have hk' : k'.bytesRead ≤ bufSize := hle.2
            obtain ⟨fuel, r, hr⟩ := ih (bufSize - k'.bytesRead) (by omega)
              (card.record log' .fat) (fatNextCluster b card log' c) k' hk' rfl
            exact ⟨fuel + 1, r, (hround fuel).trans hr⟩

end Copying

section Searching

variable {image : ℕ → Sector} {b : FatBPB} {w : Wanted} {p : Purpose} {name : List UInt8}
  {fuel c start m : ℕ} {log : Log} {r : Found × Log}

/-- The chain of a directory comes back to a cluster without having shown the end of
the directory or the entry wanted. -/
def DirCircles (b : FatBPB) (image : ℕ → Sector) (w : Wanted) (c : ℕ) : Prop :=
  2 ≤ c ∧ Circles (nextOf b image) (fatClusValid b) (probe b image w) c

def RootCircles (b : FatBPB) (image : ℕ → Sector) (w : Wanted) : Prop :=
  b.isFat32 = true ∧ DirCircles b image w b.rootCluster

theorem valid_finite (b : FatBPB) : {c | fatClusValid b c = true}.Finite := by
  apply (Set.finite_Iio 0x10000000).subset
  intro c hc
  have hv : fatClusValid b c = true := hc
  unfold fatClusValid fatIsEoc at hv
  rw [Set.mem_Iio]
  cases hb : b.isFat32 <;> simp [hb] at hv <;> omega

theorem search_ends_iff_not_circles :
    (∃ fuel o, search (nextOf b image) (fatClusValid b) (probe b image w) fuel c = some o) ↔
      ¬ Circles (nextOf b image) (fatClusValid b) (probe b image w) c :=
  search_ends_iff (valid_finite b) (fun _ h ↦ h)

theorem yields_of_not_circles (h : ¬ DirCircles b image w c) :
    ∃ f, Yields b image w start m c f := by
  by_cases hc : 2 ≤ c
  · obtain ⟨fuel, o, ho⟩ := search_ends_iff_not_circles.mpr (fun hn ↦ h ⟨hc, hn⟩)
    exact ⟨_, yields_of_search hc ho⟩
  · exact ⟨_, yields_region b image w start m (by omega)⟩

theorem not_circles_of_scan (h : fatScanDir (sound image) w p b fuel log start m c = some r) :
    ¬ DirCircles b image w c := by
  rintro ⟨hc, hcircle⟩
  rw [fatScanDir, if_pos hc] at h
  have hs := scanChain_sound image w p b fuel log c
  rw [h, Option.map_some] at hs
  obtain ⟨o, ho, -⟩ := Option.map_eq_some_iff.mp hs.symm
  exact search_ends_iff_not_circles.mp ⟨fuel, o, ho⟩ hcircle

theorem rootYields_of_not_circles (h : ¬ RootCircles b image w) : ∃ f, RootYields b image w f := by
  cases hb : b.isFat32 with
  | true =>
    obtain ⟨f, hf⟩ := yields_of_not_circles (fun hn ↦ h ⟨hb, hn⟩)
    exact ⟨f, rootYields_chain hb hf⟩
  | false =>
    exact ⟨_, rootYields_region hb
      (yields_region b image w b.rootDirSector b.rootDirSectors Nat.two_pos)⟩

theorem not_rootCircles_of_scan (h : scanRoot (sound image) w p b fuel log = some r) :
    ¬ RootCircles b image w := by
  rintro ⟨hb, hcircle⟩
  rw [scanRoot, if_pos hb] at h
  exact not_circles_of_scan h hcircle

/-- No directory that has to be searched runs in a circle: not the root directory, and
if the file is not found there, neither the root directory up to TABLES nor TABLES. -/
structure Straight (b : FatBPB) (image : ℕ → Sector) (name : List UInt8) : Prop where
  root : ¬ RootCircles b image (wantedFile name)
  tables : ∀ f, RootYields b image (wantedFile name) f → f.cluster = 0 →
    ¬ RootCircles b image wantedTables ∧
    ∀ t, RootYields b image wantedTables t → ¬ DirCircles b image (wantedFile name) t.cluster

theorem locate_of_straight (h : Straight b image name) (log : Log) :
    ∃ fuel r, locate (sound image) b name fuel log = some r := by
  obtain ⟨f, hf⟩ := rootYields_of_not_circles h.root
  by_cases hc : f.cluster = 0
  · obtain ⟨hroot, htables⟩ := h.tables f hf hc
    obtain ⟨t, ht⟩ := rootYields_of_not_circles hroot
    by_cases htc : t.cluster = 0
    · obtain ⟨fuel, log', hl⟩ := locate_no_tables hf hc ht htc log
      exact ⟨fuel, _, hl⟩
    · obtain ⟨g, hg⟩ := yields_of_not_circles (htables t ht)
      obtain ⟨fuel, log', hl⟩ := locate_tables hf hc ht htc hg log
      exact ⟨fuel, _, hl⟩
  · obtain ⟨fuel, log', hl⟩ := locate_root hf hc log
    exact ⟨fuel, _, hl⟩

theorem straight_of_locate (h : locate (sound image) b name fuel log = some r) :
    Straight b image name := by
  obtain ⟨file, log₁, h₁, h⟩ := locate_eq_some_iff.mp h
  refine ⟨not_rootCircles_of_scan h₁, fun f hf hc ↦ ?_⟩
  have hfile : file = f := hf.eq h₁
  rw [if_neg (by rw [hfile]; exact not_not.mpr hc)] at h
  obtain ⟨tables, log₂, h₂, h⟩ := h
  refine ⟨not_rootCircles_of_scan h₂, fun t ht ↦ ?_⟩
  have htables : tables = t := ht.eq h₂
  subst htables
  split_ifs at h with htc
  · exact not_circles_of_scan h
  · rintro ⟨hge, -⟩
    omega

end Searching

theorem sectorsPerCluster_pos {s : Sector} {vbr : ℕ} {b : FatBPB}
    (h : fatParseBpb s vbr = some b) : 0 < b.sectorsPerCluster := by
  unfold fatParseBpb at h
  simp only [Option.ite_none_left_eq_some, Option.some.injEq] at h
  obtain ⟨-, -, hs, -, rfl⟩ := h
  rw [Nat.pos_iff_ne_zero]
  exact fun he ↦ hs (UInt8.toNat_inj.mp he)

theorem mount_pos {card : Card} {b : FatBPB} {log : Log} (h : mount card = (some b, log)) :
    0 < b.sectorsPerCluster := by
  unfold mount at h
  split at h
  · cases h
  · dsimp only at h
    split_ifs at h
    · exact sectorsPerCluster_pos (Prod.mk.inj h).1
    · split at h
      · cases h
      · exact sectorsPerCluster_pos (Prod.mk.inj h).1

/-- The call returns exactly when no directory that it searches runs in a circle. -/
theorem sd_terminates_iff (image : ℕ → Sector) (name : List UInt8) (bufSize : ℕ) (buf : Buffer) :
    (∃ o, Returns (sound image) name bufSize buf o) ↔
      ∀ b log, mount (sound image) = (some b, log) → Straight b image name := by
  constructor
  · rintro ⟨o, fuel, ho⟩ b log hm
    obtain ⟨log₁, hl⟩ := (sdReadFile_iff.mp ho).located hm
    exact straight_of_locate hl
  · intro h
    cases hm : mount (sound image) with
    | mk b log =>
      cases b with
      | none => exact ⟨_, 0, sdReadFile_iff.mpr (.unmounted hm)⟩
      | some b =>
        obtain ⟨fuel, ⟨file, log₁⟩, hl⟩ := locate_of_straight (h b log hm) log
        by_cases hc : file.cluster = 0
        · exact ⟨_, returns_missing hm hl hc⟩
        · by_cases hs : file.fileSize = 0
          · exact ⟨_, fuel, sdReadFile_iff.mpr (.empty hm hl hc hs)⟩
          · obtain ⟨fuel', ⟨ok, k, log₂⟩, hk⟩ := copyChain_ends (sound image) file.fileSize
              (mount_pos hm) log₁ file.cluster ⟨0, false, buf, []⟩ (Nat.zero_le bufSize)
            exact ⟨_, returns_copied hm hl hc hs hk⟩

section Examples

/-- A FAT32 volume of two clusters whose root directory is full of erased entries, with
a FAT in which every cluster is its own successor. -/
def circular : ℕ → Sector
  | 0 => fun k ↦
    if k = 0 then 0xEB
    else if k = 12 ∨ k = 44 then 2
    else if k = 13 ∨ k = 14 ∨ k = 16 ∨ k = 36 then 1
    else if k = 510 then 0x55
    else if k = 511 then 0xAA
    else 0
  | 1 => fun k ↦ if k % 4 = 0 then UInt8.ofNat (k / 4) else 0
  | _ => fun _ ↦ 0xE5

theorem circular_mount : ∃ b log, mount (sound circular) = (some b, log) ∧
    RootCircles b circular (wantedFile (ascii "alunos.tbl")) := by
  have hfacts : (mount (sound circular)).1.map (fun b ↦ (b.isFat32, b.rootCluster,
      nextOf b circular 2, fatClusValid b 2,
      (probe b circular (wantedFile (ascii "alunos.tbl")) 2).isNone)) =
      some (true, 2, 2, true, true) := by decide +kernel
  obtain ⟨b, hb, hfacts⟩ := Option.map_eq_some_iff.mp hfacts
  simp only [Prod.mk.injEq, Option.isNone_iff_eq_none] at hfacts
  obtain ⟨h₁, h₂, h₃, h₄, h₅⟩ := hfacts
  refine ⟨b, (mount (sound circular)).2, Prod.ext hb rfl, h₁, by omega, 0, 1, by omega, ?_, ?_⟩
  · rw [h₂]
    exact h₃.symm
  · intro m hm
    have hm' : m = 0 := by omega
    subst hm'
    rw [h₂]
    exact ⟨h₅, by rwa [Function.iterate_one, h₃]⟩

theorem circular_never_returns :
    ¬ ∃ o, Returns (sound circular) (ascii "alunos.tbl") 1024 (fun _ ↦ 0) o := by
  obtain ⟨b, log, hm, hcircle⟩ := circular_mount
  rintro ⟨o, fuel, ho⟩
  obtain ⟨log₁, hl⟩ := (sdReadFile_iff.mp ho).located hm
  exact (straight_of_locate hl).root hcircle

end Examples

end FpgaDatabase.Firmware.SdTermination
